import ServiceSystem.Foundations.Utf8
import Mathlib.Data.List.Chain

namespace ServiceSystem.Foundations

/-- JSON texts, by the grammar of RFC 8259. -/
inductive Doc
  | null
  | boolean (b : Bool)
  | number (text : Str)
  | string (s : Str)
  | array (items : List Doc)
  | object (members : List (Str × Doc))

namespace Doc

def member (key : Str) : Doc → Option Doc
  | object members => (members.find? (·.1 = key)).map (·.2)
  | _ => none

def item (i : ℕ) : Doc → Option Doc
  | array items => items[i]?
  | _ => none

end Doc

namespace JsonText

inductive Token
  | string (s : Str)
  | word (w : Str)
  | punct (c : Char)
  deriving DecidableEq

def isBlank (c : Char) : Bool := c = ' ' || c = '\t' || c = '\n' || c = '\r'

def isPunct (c : Char) : Bool :=
  c = '{' || c = '}' || c = '[' || c = ']' || c = ':' || c = ','

def isWordChar (c : Char) : Bool := c.isAlphanum || c = '+' || c = '-' || c = '.'

def isHex (c : Char) : Bool :=
  c.isDigit || ('a' ≤ c && c ≤ 'f') || ('A' ≤ c && c ≤ 'F')

def hexDigit (c : Char) : ℕ :=
  if c.isDigit then c.toNat - 48 else if c ≤ 'F' then c.toNat - 55 else c.toNat - 87

def codeUnit (ds : Str) : ℕ := ds.foldl (fun n c ↦ 16 * n + hexDigit c) 0

def isHigh (n : ℕ) : Bool := 0xD800 ≤ n && n < 0xDC00

def isLow (n : ℕ) : Bool := 0xDC00 ≤ n && n < 0xE000

/-- Where a text is read: outside of strings, in a literal or number, in a string read so far,
or in one of its escapes, perhaps between the halves of a pair of surrogates. -/
inductive Mode
  | outside
  | word (w : Str)
  | inside (s : Str)
  | escape (s : Str) (high : Option ℕ)
  | unicode (s : Str) (high : Option ℕ) (ds : Str)
  | half (s : Str) (high : ℕ)
  deriving DecidableEq

def escaped : Char → Option Char
  | '"' => some '"'
  | '\\' => some '\\'
  | '/' => some '/'
  | 'b' => some '\x08'
  | 'f' => some '\x0c'
  | 'n' => some '\n'
  | 'r' => some '\r'
  | 't' => some '\t'
  | _ => none

def unescape (s : Str) (high : Option ℕ) (n : ℕ) : Option Mode :=
  match high with
  | none =>
    if isHigh n then some (.half s n)
    else if isLow n then none
    else some (.inside (s ++ Str.encode (Char.ofNat n)))
  | some h =>
    if isLow n then
      some (.inside (s ++ Str.encode (Char.ofNat (0x10000 + 1024 * (h - 0xD800) + (n - 0xDC00)))))
    else none

def stepOutside (c : Char) : Option (List Token × Mode) :=
  if isBlank c then some ([], .outside)
  else if isPunct c then some ([.punct c], .outside)
  else if c = '"' then some ([], .inside [])
  else if isWordChar c then some ([], .word [c])
  else none

/-- One character: the tokens that it completes, and where the text is read then. -/
def step : Mode → Char → Option (List Token × Mode)
  | .outside, c => stepOutside c
  | .word w, c =>
    if isWordChar c then some ([], .word (w ++ [c]))
    else (stepOutside c).map (fun r ↦ (.word w :: r.1, r.2))
  | .inside s, c =>
    if c = '"' then some ([.string s], .outside)
    else if c = '\\' then some ([], .escape s none)
    else if c.toNat < 0x20 then none
    else some ([], .inside (s ++ [c]))
  | .escape s high, c =>
    if c = 'u' then some ([], .unicode s high [])
    else if high.isSome then none
    else (escaped c).map (fun e ↦ ([], .inside (s ++ [e])))
  | .unicode s high ds, c =>
    if isHex c then
      if ds.length < 3 then some ([], .unicode s high (ds ++ [c]))
      else (unescape s high (codeUnit (ds ++ [c]))).map (fun m ↦ ([], m))
    else none
  | .half s high, c => if c = '\\' then some ([], .escape s (some high)) else none

def run : Mode → Str → Option (List Token × Mode)
  | m, [] => some ([], m)
  | m, c :: s => do
    let (ts, m) ← step m c
    let (ts', m) ← run m s
    return (ts ++ ts', m)

def finish : Mode → Option (List Token)
  | .outside => some []
  | .word w => some [.word w]
  | _ => none

def lex (text : Str) : Option (List Token) := do
  let (ts, m) ← run .outside text
  let ts' ← finish m
  return ts ++ ts'

def digits (s : Str) : Option Str :=
  if s.takeWhile Char.isDigit = [] then none else some (s.dropWhile Char.isDigit)

def exponent : Str → Bool
  | [] => true
  | c :: s =>
    (c = 'e' || c = 'E') &&
      digits (match s with | '+' :: s => s | '-' :: s => s | s => s) == some []

def fraction : Str → Bool
  | '.' :: s => (digits s).elim false exponent
  | s => exponent s

def isNumber (w : Str) : Bool :=
  match (match w with | '-' :: s => s | s => s) with
  | '0' :: s => fraction s
  | s => (digits s).elim false fraction

def literal (w : Str) : Option Doc :=
  if w = "null".toList then some .null
  else if w = "true".toList then some (.boolean true)
  else if w = "false".toList then some (.boolean false)
  else if isNumber w then some (.number w)
  else none

def separate : List (List Token) → List Token := List.intercalate [.punct ',']

inductive Reads : List Token → Doc → Prop
  | string (s : Str) : Reads [.string s] (.string s)
  | word {w : Str} {d : Doc} (h : literal w = some d) : Reads [.word w] d
  | array (parts : List (List Token × Doc)) (h : ∀ p ∈ parts, Reads p.1 p.2) :
      Reads (.punct '[' :: separate (parts.map (·.1)) ++ [.punct ']']) (.array (parts.map (·.2)))
  | object (parts : List (Str × List Token × Doc)) (h : ∀ p ∈ parts, Reads p.2.1 p.2.2) :
      Reads (.punct '{' ::
          separate (parts.map (fun p ↦ .string p.1 :: .punct ':' :: p.2.1)) ++ [.punct '}'])
        (.object (parts.map (fun p ↦ (p.1, p.2.2))))

/-- The text is a JSON document, and stands for the value. -/
def Denotes (text : Str) (d : Doc) : Prop := Utf8.Valid text ∧ ∃ ts, lex text = some ts ∧ Reads ts d

theorem run_cons_eq_some {m m' : Mode} {c : Char} {s : Str} {ts : List Token}
    (h : run m (c :: s) = some (ts, m')) :
    ∃ t m₁ ts', step m c = some (t, m₁) ∧ run m₁ s = some (ts', m') ∧ ts = t ++ ts' := by
  rw [run, Option.bind_eq_bind, Option.bind_eq_some_iff] at h
  obtain ⟨⟨t, m₁⟩, hstep, h⟩ := h
  obtain ⟨⟨ts', m₂⟩, hrun, ⟨⟩⟩ := Option.bind_eq_some_iff.mp h
  exact ⟨t, m₁, ts', hstep, hrun, rfl⟩

theorem run_append_eq_some {m m' : Mode} {a b : Str} {ts : List Token}
    (h : run m (a ++ b) = some (ts, m')) :
    ∃ t m₁ ts', run m a = some (t, m₁) ∧ run m₁ b = some (ts', m') ∧ ts = t ++ ts' := by
  induction a generalizing m ts with
  | nil => exact ⟨[], m, ts, rfl, h, rfl⟩
  | cons c a ih =>
    obtain ⟨t, m₁, ts', hstep, hrun, rfl⟩ := run_cons_eq_some h
    obtain ⟨t', m₂, ts'', hrun', hrest, rfl⟩ := ih hrun
    refine ⟨t ++ t', m₂, ts'', ?_, hrest, by rw [List.append_assoc]⟩
    simp [run, hstep, hrun']

def Follows : Token → Token → Prop
  | .string _, .punct _ => True
  | .string _, _ => False
  | _, _ => True

theorem isChain_punct {c : Char} {l l' : List Token} (h : l.IsChain Follows)
    (h' : l'.IsChain Follows) : (l ++ .punct c :: l').IsChain Follows := by
  refine List.isChain_append.mpr ⟨h, ?_, fun x hx y hy ↦ ?_⟩
  · exact List.isChain_cons.mpr ⟨fun y hy ↦ trivial, h'⟩
  · obtain rfl : Token.punct c = y := by simpa using hy
    cases x <;> trivial

theorem isChain_separate {ls : List (List Token)} (h : ∀ l ∈ ls, l.IsChain Follows) :
    (separate ls).IsChain Follows := by
  induction ls with
  | nil => exact .nil
  | cons l ls ih =>
    obtain ⟨hl, hls⟩ := List.forall_mem_cons.mp h
    cases ls with
    | nil => simpa [separate, List.intercalate_singleton] using hl
    | cons l' ls =>
      rw [separate, List.intercalate_cons_cons, List.append_assoc]
      exact isChain_punct hl (ih hls)

theorem Reads.isChain {ts : List Token} {d : Doc} (h : Reads ts d) : ts.IsChain Follows := by
  induction h with
  | string s => exact .singleton _
  | word h => exact .singleton _
  | array parts h ih =>
    have hparts : (separate (parts.map (·.1))).IsChain Follows :=
      isChain_separate (List.forall_mem_map.mpr ih)
    exact isChain_punct (l := []) .nil (isChain_punct hparts .nil)
  | object parts h ih =>
    have hmember : ∀ p ∈ parts, (Token.string p.1 :: .punct ':' :: p.2.1).IsChain Follows :=
      fun p hp ↦ isChain_punct (l := [.string p.1]) (.singleton _) (ih p hp)
    have hparts := isChain_separate (List.forall_mem_map.mpr hmember)
    exact isChain_punct (l := []) .nil (isChain_punct hparts .nil)

def Opens (m : Mode) (s : Str) : Prop :=
  ∀ ts m' ts', run m s = some (ts, m') → finish m' = some ts' →
    ∃ t rest, ts ++ ts' = t :: rest ∧ ∀ c, t ≠ .punct c

def Stuck (m : Mode) (s : Str) : Prop :=
  ∀ ts m' ts', run m s = some (ts, m') → finish m' = some ts' → ¬ (ts ++ ts').IsChain Follows

theorem opens_of_step {m m₁ : Mode} {c : Char} {s : Str} (h : step m c = some ([], m₁))
    (h₁ : Opens m₁ s) : Opens m (c :: s) := by
  intro ts m' ts' hrun hfinish
  obtain ⟨t, m₂, ts₂, hstep, hrest, rfl⟩ := run_cons_eq_some hrun
  obtain ⟨rfl, rfl⟩ := Prod.mk.inj (Option.some.inj (h.symm.trans hstep))
  exact h₁ _ _ _ hrest hfinish

theorem opens_of_token {m m₁ : Mode} {c : Char} {s : Str} {t : Token} {ts : List Token}
    (h : step m c = some (t :: ts, m₁)) (ht : ∀ c, t ≠ .punct c) : Opens m (c :: s) := by
  intro ts' m' ts'' hrun hfinish
  obtain ⟨t', m₂, ts₂, hstep, hrest, rfl⟩ := run_cons_eq_some hrun
  obtain ⟨rfl, rfl⟩ := Prod.mk.inj (Option.some.inj (h.symm.trans hstep))
  exact ⟨t, _, rfl, ht⟩

theorem step_quiet_or {m : Mode} (hm : m ≠ .outside) (c : Char) :
    step m c = none ∨ (∃ m₁ ≠ Mode.outside, step m c = some ([], m₁)) ∨
      ∃ t ts m₁, step m c = some (t :: ts, m₁) ∧ ∀ c, t ≠ .punct c := by
  have hquiet : ∀ {m₁ : Mode}, m₁ ≠ .outside → (∃ m₂ ≠ Mode.outside,
      (some ([], m₁) : Option (List Token × Mode)) = some ([], m₂)) := fun h ↦ ⟨_, h, rfl⟩
  cases m with
  | outside => exact absurd rfl hm
  | word w =>
    rw [step]
    split_ifs
    · exact .inr (.inl (hquiet nofun))
    · cases hc : stepOutside c with
      | none => exact .inl rfl
      | some r => exact .inr (.inr ⟨_, _, _, rfl, nofun⟩)
  | inside s =>
    rw [step]
    split_ifs
    · exact .inr (.inr ⟨_, _, _, rfl, nofun⟩)
    · exact .inr (.inl (hquiet nofun))
    · exact .inl rfl
    · exact .inr (.inl (hquiet nofun))
  | escape s high =>
    rw [step]
    split_ifs
    · exact .inr (.inl (hquiet nofun))
    · exact .inl rfl
    · cases escaped c with
      | none => exact .inl rfl
      | some e => exact .inr (.inl (hquiet nofun))
  | unicode s high ds =>
    rw [step]
    split_ifs
    · exact .inr (.inl (hquiet nofun))
    · cases hu : unescape s high (codeUnit (ds ++ [c])) with
      | none => exact .inl rfl
      | some m₁ =>
        refine .inr (.inl (hquiet ?_))
        rintro rfl
        unfold unescape at hu
        split at hu <;> split_ifs at hu <;> cases hu
    · exact .inl rfl
  | half s high =>
    rw [step]
    split_ifs
    · exact .inr (.inl (hquiet nofun))
    · exact .inl rfl

theorem opens_of_ne {m : Mode} (hm : m ≠ .outside) (s : Str) : Opens m s := by
  induction s generalizing m with
  | nil =>
    intro ts m' ts' hrun hfinish
    obtain ⟨rfl, rfl⟩ := Prod.mk.inj (Option.some.inj hrun)
    cases m with
    | word w =>
      obtain ⟨rfl⟩ := hfinish
      exact ⟨.word w, [], rfl, nofun⟩
    | outside => exact absurd rfl hm
    | inside | escape | unicode | half => cases hfinish
  | cons c s ih =>
    rcases step_quiet_or hm c with hnone | ⟨m₁, hm₁, hstep⟩ | ⟨t, ts, m₁, hstep, ht⟩
    · intro ts m' ts' hrun _
      obtain ⟨t, m₂, ts₂, hstep, -⟩ := run_cons_eq_some hrun
      exact absurd (hnone.symm.trans hstep) nofun
    · exact opens_of_step hstep (ih hm₁)
    · exact opens_of_token hstep ht

theorem opens_outside {c : Char} {m : Mode} (h : stepOutside c = some ([], m)) (hm : m ≠ .outside)
    (s : Str) : Opens .outside (c :: s) := opens_of_step h (opens_of_ne hm s)

theorem stuck_of_none {m : Mode} {c : Char} {s : Str} (h : step m c = none) : Stuck m (c :: s) := by
  intro ts m' ts' hrun _
  obtain ⟨t, m₁, ts₁, hstep, -⟩ := run_cons_eq_some hrun
  exact absurd (h.symm.trans hstep) nofun

theorem stuck_of_step {m m₁ : Mode} {c : Char} {s : Str} {t : List Token}
    (h : step m c = some (t, m₁)) (h₁ : Stuck m₁ s) : Stuck m (c :: s) := by
  intro ts m' ts' hrun hfinish hchain
  obtain ⟨t', m₂, ts₂, hstep, hrest, rfl⟩ := run_cons_eq_some hrun
  obtain ⟨rfl, rfl⟩ := Prod.mk.inj (Option.some.inj (h.symm.trans hstep))
  rw [List.append_assoc] at hchain
  exact h₁ _ _ _ hrest hfinish hchain.right_of_append

theorem stuck_of_string {m m₁ : Mode} {c : Char} {s u : Str} (h : step m c = some ([.string u], m₁))
    (h₁ : Opens m₁ s) : Stuck m (c :: s) := by
  intro ts m' ts' hrun hfinish hchain
  obtain ⟨t', m₂, ts₂, hstep, hrest, rfl⟩ := run_cons_eq_some hrun
  obtain ⟨rfl, rfl⟩ := Prod.mk.inj (Option.some.inj (h.symm.trans hstep))
  obtain ⟨t, rest, ht, hpunct⟩ := h₁ _ _ _ hrest hfinish
  rw [List.append_assoc, ht] at hchain
  have hfollows : Follows (.string u) t := (List.isChain_cons_cons.mp hchain).1
  cases t with
  | punct c => exact hpunct c rfl
  | string | word => exact hfollows

/-- A doubled quote after a comma that follows a quote is read as part of no document. -/
theorem stuck_doubled {c : Char} (hc : stepOutside c = some ([], .word [c])) (m : Mode) (s : Str) :
    Stuck m ('"' :: ',' :: '"' :: '"' :: c :: s) := by
  have hquote : stepOutside '"' = some ([], .inside []) := by decide
  have hcomma : ∀ u, step (.inside u) ',' = some ([], .inside (u ++ [','])) := fun _ ↦ rfl
  have hclose : ∀ u, step (.inside u) '"' = some ([.string u], .outside) := fun _ ↦ rfl
  have hinside : ∀ u, Stuck (.inside u) (',' :: '"' :: '"' :: c :: s) := fun u ↦
    stuck_of_step (hcomma u) (stuck_of_string (hclose _) (opens_outside hquote nofun _))
  cases m with
  | outside => exact stuck_of_step hquote (hinside [])
  | word w =>
    exact stuck_of_step (show step (.word w) '"' = some ([.word w], .inside []) from rfl)
      (hinside [])
  | inside u =>
    refine stuck_of_step (hclose u) (stuck_of_step
      (show step .outside ',' = some ([.punct ','], .outside) by decide) ?_)
    exact stuck_of_step hquote (stuck_of_string (hclose []) (opens_outside hc nofun _))
  | escape u high =>
    cases high with
    | none =>
      exact stuck_of_step (show step (.escape u none) '"' =
        some ([], .inside (u ++ ['"'])) from rfl)
        (hinside _)
    | some h => exact stuck_of_none rfl
  | unicode u high ds => exact stuck_of_none rfl
  | half u high => exact stuck_of_none rfl

theorem not_denotes_of_stuck {a b : Str} (h : ∀ m, Stuck m b) (d : Doc) : ¬ Denotes (a ++ b) d := by
  rintro ⟨-, ts, hlex, hreads⟩
  simp only [lex, Option.bind_eq_bind, Option.bind_eq_some_iff] at hlex
  obtain ⟨⟨ts₁, m⟩, hrun, ts₂, hfinish, ⟨⟩⟩ := hlex
  obtain ⟨t, m₁, ts', -, hb, rfl⟩ := run_append_eq_some hrun
  have hchain := hreads.isChain
  rw [List.append_assoc] at hchain
  exact h m₁ _ _ _ hb hfinish hchain.right_of_append

end JsonText

end ServiceSystem.Foundations

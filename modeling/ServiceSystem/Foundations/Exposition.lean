import ServiceSystem.Foundations.Text
import Mathlib.Data.List.TakeWhile

namespace ServiceSystem.Foundations.Exposition

/-! The Prometheus text format, line by line. -/

inductive Value
  | number (q : ℚ)
  | nan
  | infinity (negative : Bool)
  deriving DecidableEq

structure Sample where
  name : Str
  labels : List (Str × Str)
  value : Value
  timestamp : Option ℤ
  deriving DecidableEq

inductive Line
  | blank
  | comment
  | type (name kind : Str)
  | help (name text : Str)
  | sample (s : Sample)
  deriving DecidableEq

def isBlank (c : Char) : Bool := c = ' ' || c = '\t'

def isNameChar (c : Char) : Bool := c.isAlphanum || c = '_' || c = ':'

def isLabelChar (c : Char) : Bool := c.isAlphanum || c = '_'

def ValidName (p : Char → Bool) (s : Str) : Prop :=
  s ≠ [] ∧ (∀ c ∈ s, p c = true) ∧ ∀ c ∈ s.head?, c.isDigit = false

instance (p : Char → Bool) (s : Str) : Decidable (ValidName p s) :=
  inferInstanceAs (Decidable (_ ∧ _ ∧ _))

def skipBlanks (s : Str) : Str := s.dropWhile isBlank

def word (p : Char → Bool) (s : Str) : Option (Str × Str) :=
  if ValidName p (s.takeWhile p) then some (s.takeWhile p, s.dropWhile p) else none

/-- A label value up to its closing quote; backslash, quote and newline are escaped. -/
def quoted : Str → Option (Str × Str)
  | [] => none
  | '"' :: s => some ([], s)
  | '\\' :: '\\' :: s => (quoted s).map (fun r ↦ ('\\' :: r.1, r.2))
  | '\\' :: '"' :: s => (quoted s).map (fun r ↦ ('"' :: r.1, r.2))
  | '\\' :: 'n' :: s => (quoted s).map (fun r ↦ ('\n' :: r.1, r.2))
  | '\\' :: _ => none
  | '\n' :: _ => none
  | c :: s => (quoted s).map (fun r ↦ (c :: r.1, r.2))

def label (s : Str) : Option ((Str × Str) × Str) :=
  match word isLabelChar s with
  | none => none
  | some (name, s) =>
    match skipBlanks s with
    | '=' :: s =>
      match skipBlanks s with
      | '"' :: s => (quoted s).map (fun r ↦ ((name, r.1), skipBlanks r.2))
      | _ => none
    | _ => none

/-- The labels after an opening brace, up to the closing one. Each label uses up a
unit of `fuel`. -/
def labelList : ℕ → Str → Option (List (Str × Str) × Str)
  | 0, _ => none
  | fuel + 1, s =>
    match skipBlanks s with
    | '}' :: s => some ([], s)
    | s =>
      match label s with
      | some (l, ',' :: s) => (labelList fuel s).map (fun r ↦ (l :: r.1, r.2))
      | some (l, '}' :: s) => some ([l], s)
      | _ => none

def labelSet (s : Str) : Option (List (Str × Str) × Str) :=
  match s with
  | '{' :: s =>
    match labelList (s.length + 1) s with
    | some (ls, s) => if (ls.map Prod.fst).Nodup then some (ls, s) else none
    | none => none
  | s => some ([], s)

def sign : Str → Bool × Str
  | '-' :: s => (true, s)
  | '+' :: s => (false, s)
  | s => (false, s)

def signed (negative : Bool) (q : ℚ) : ℚ := if negative then -q else q

def exponent : Str → Option ℤ
  | [] => some 0
  | c :: s =>
    let (negative, ds) := sign s
    if (c = 'e' ∨ c = 'E') ∧ ds ≠ [] ∧ ds.all Char.isDigit then
      some (if negative then -(Nat.ofDigitChars 10 ds 0 : ℤ) else Nat.ofDigitChars 10 ds 0)
    else none

def unsigned (s : Str) : Option ℚ :=
  let whole := s.takeWhile Char.isDigit
  let (frac, s) := match s.dropWhile Char.isDigit with
    | '.' :: s => (s.takeWhile Char.isDigit, s.dropWhile Char.isDigit)
    | s => ([], s)
  if whole = [] ∧ frac = [] then none
  else (exponent s).map (fun e ↦
    (Nat.ofDigitChars 10 whole 0 + (Nat.ofDigitChars 10 frac 0 : ℚ) / 10 ^ frac.length) * 10 ^ e)

def value (s : Str) : Option Value :=
  let (negative, s') := sign s
  if s = "NaN".toList then some .nan
  else if s' = "Inf".toList then some (.infinity negative)
  else (unsigned s').map (fun q ↦ .number (signed negative q))

def timestamp (s : Str) : Option ℤ :=
  let (negative, ds) := sign s
  if ds ≠ [] ∧ ds.all Char.isDigit then
    some (if negative then -(Nat.ofDigitChars 10 ds 0 : ℤ) else Nat.ofDigitChars 10 ds 0)
  else none

def token (s : Str) : Str × Str := (s.takeWhile (!isBlank ·), skipBlanks (s.dropWhile (!isBlank ·)))

def sample (s : Str) : Option Sample :=
  match word isNameChar s with
  | none => none
  | some (name, s) =>
    match labelSet (skipBlanks s) with
    | none => none
    | some (labels, s) =>
      match value (token (skipBlanks s)).1, (token (skipBlanks s)).2 with
      | some v, [] => some ⟨name, labels, v, none⟩
      | some v, s =>
        match token s with
        | (t, []) => (timestamp t).map (fun t ↦ ⟨name, labels, v, some t⟩)
        | _ => none
      | none, _ => none

def kinds : List Str :=
  ["counter", "gauge", "histogram", "summary", "untyped"].map String.toList

def unescapeHelp : Str → Option Str
  | [] => some []
  | '\\' :: '\\' :: s => (unescapeHelp s).map ('\\' :: ·)
  | '\\' :: 'n' :: s => (unescapeHelp s).map ('\n' :: ·)
  | '\\' :: _ => none
  | c :: s => (unescapeHelp s).map (c :: ·)

def comment (s : Str) : Option Line :=
  let (keyword, s) := token (skipBlanks s)
  if keyword = "TYPE".toList then
    match word isNameChar s with
    | some (name, s) =>
      let (kind, s) := token (skipBlanks s)
      if kind ∈ kinds ∧ s = [] then some (.type name kind) else none
    | none => none
  else if keyword = "HELP".toList then
    match word isNameChar s with
    | some (name, s) => (unescapeHelp (skipBlanks s)).map (.help name)
    | none => none
  else some .comment

def line (s : Str) : Option Line :=
  match skipBlanks s with
  | [] => some .blank
  | '#' :: s => comment s
  | s => (sample s).map .sample

def parse (text : Str) : Option (List Line) :=
  match Str.splitLines text with
  | (ls, []) => ls.mapM line
  | _ => none

def samples (doc : List Line) : List Sample :=
  doc.filterMap (fun | .sample s => some s | _ => none)

theorem mem_samples {doc : List Line} {s : Sample} : s ∈ samples doc ↔ .sample s ∈ doc := by
  rw [samples, List.mem_filterMap]
  constructor
  · rintro ⟨x, hx, hs⟩
    cases x <;> simp at hs
    rwa [← hs]
  · exact fun hs ↦ ⟨_, hs, rfl⟩

theorem samples_append (doc doc' : List Line) :
    samples (doc ++ doc') = samples doc ++ samples doc' :=
  List.filterMap_append

def families (kind : Str) (doc : List Line) : List Str :=
  doc.filterMap (fun | .type name k => if k = kind then some name else none | _ => none)

theorem families_append (kind : Str) (doc doc' : List Line) :
    families kind (doc ++ doc') = families kind doc ++ families kind doc' := List.filterMap_append

example : parse "# TYPE a counter\na\x7bx=\"1\\n\",y=\"\"\x7d 2.50\n".toList =
    some [.type "a".toList "counter".toList,
      .sample ⟨"a".toList, [("x".toList, "1\n".toList), ("y".toList, [])],
        .number (5 / 2), none⟩] := by
  decide +kernel

theorem isBlank_of_isNameChar {c : Char} (h : isNameChar c = true) : isBlank c = false := by
  cases hb : isBlank c with
  | false => rfl
  | true =>
    simp only [isBlank, Bool.or_eq_true, decide_eq_true_eq] at hb
    rcases hb with rfl | rfl <;> revert h <;> decide

theorem skipBlanks_cons {c : Char} (h : isBlank c = false) (s : Str) :
    skipBlanks (c :: s) = c :: s := by simp [skipBlanks, h]

theorem word_append {p : Char → Bool} {a : Str} (h : ValidName p a) {x : Char}
    (hx : p x = false) (s : Str) : word p (a ++ x :: s) = some (a, x :: s) := by
  have ht : (a ++ x :: s).takeWhile p = a := by
    rw [List.takeWhile_append_of_pos h.2.1, List.takeWhile_cons_of_neg (by simp [hx]),
      List.append_nil]
  have hd : (a ++ x :: s).dropWhile p = x :: s := by
    rw [List.dropWhile_append_of_pos h.2.1, List.dropWhile_cons_of_neg (by simp [hx])]
  rw [word, ht, hd, if_pos h]

/-- A text that is the same inside quotes as outside. -/
def Plain (v : Str) : Prop := ∀ c ∈ v, c ≠ '"' ∧ c ≠ '\\' ∧ c ≠ '\n'

instance (v : Str) : Decidable (Plain v) := inferInstanceAs (Decidable (∀ c ∈ v, _))

theorem quoted_append {v : Str} (h : Plain v) (s : Str) :
    quoted (v ++ '"' :: s) = some (v, s) := by
  induction v with
  | nil => simp [quoted]
  | cons c v ih =>
    obtain ⟨h₁, h₂, h₃⟩ := h c (by simp)
    have hv := ih (fun c hc ↦ h c (by simp [hc]))
    rw [List.cons_append, quoted]
    · simp [hv]
    all_goals simp_all

theorem label_append {k v : Str} (hk : ValidName isLabelChar k) (hv : Plain v) {c : Char}
    (hc : isBlank c = false) (s : Str) :
    label (k ++ '=' :: '"' :: v ++ '"' :: c :: s) = some ((k, v), c :: s) := by
  rw [label, List.append_assoc, List.cons_append, word_append hk (by decide)]
  simp only [skipBlanks_cons (show isBlank '=' = false by decide), List.cons_append,
    skipBlanks_cons (show isBlank '"' = false by decide), quoted_append hv,
    skipBlanks_cons hc, Option.map_some]

def labelText (l : Str × Str) : Str := l.1 ++ '=' :: '"' :: l.2 ++ ['"']

theorem labelText_append {k v : Str} (hk : ValidName isLabelChar k) (hv : Plain v) {c : Char}
    (hc : isBlank c = false) (s : Str) :
    label (labelText (k, v) ++ c :: s) = some ((k, v), c :: s) := by
  have h := label_append hk hv hc s
  simpa only [labelText, List.append_assoc, List.cons_append, List.nil_append] using h

theorem labelList_label {k v : Str} (hk : ValidName isLabelChar k) (fuel : ℕ) (s : Str) :
    labelList (fuel + 1) (labelText (k, v) ++ s) = match label (labelText (k, v) ++ s) with
      | some (l, ',' :: s) => (labelList fuel s).map (fun r ↦ (l :: r.1, r.2))
      | some (l, '}' :: s) => some ([l], s)
      | _ => none := by
  obtain ⟨hne, hall, -⟩ := hk
  obtain ⟨c, t, rfl⟩ := List.exists_cons_of_ne_nil hne
  have hc := hall c (by simp)
  have hb : isBlank c = false := isBlank_of_isNameChar ((Bool.or_eq_true _ _).mpr (.inl hc))
  have hbrace : c ≠ '}' := by
    rintro rfl
    revert hc
    decide
  rw [labelText, List.cons_append, List.cons_append, List.cons_append, labelList,
    skipBlanks_cons hb]
  split
  · rename_i h
    exact absurd (List.cons.inj h).1 hbrace
  · rfl

def Readable (ls : List (Str × Str)) : Prop :=
  ∀ l ∈ ls, ValidName isLabelChar l.1 ∧ Plain l.2

theorem labelList_append {ls : List (Str × Str)} (h : Readable ls) (hne : ls ≠ []) (s : Str)
    {fuel : ℕ} (hf : ls.length ≤ fuel) :
    labelList fuel (List.intercalate [','] (ls.map labelText) ++ '}' :: s) = some (ls, s) := by
  induction ls generalizing fuel with
  | nil => exact absurd rfl hne
  | cons l ls ih =>
    obtain ⟨hk, hv⟩ := h l (by simp)
    obtain ⟨fuel, rfl⟩ : ∃ n, fuel = n + 1 := ⟨fuel - 1, by simp at hf; omega⟩
    cases ls with
    | nil =>
      simp only [List.map_cons, List.map_nil, List.intercalate_singleton, labelList_label hk,
        labelText_append hk hv (show isBlank '}' = false by decide)]
    | cons l' ls =>
      have hrest := ih (fun l hl ↦ h l (by simp [hl])) (by simp) (by simpa using hf)
      rw [List.map_cons, List.map_cons, List.intercalate_cons_cons, List.append_assoc,
        List.append_assoc, labelList_label hk, List.singleton_append,
        labelText_append hk hv (by decide)]
      simp only [← List.map_cons (f := labelText), hrest, Option.map_some]

def labelsText (ls : List (Str × Str)) : Str :=
  if ls = [] then [] else '{' :: List.intercalate [','] (ls.map labelText) ++ ['}']

theorem length_le_intercalate (ls : List (Str × Str)) :
    ls.length ≤ (List.intercalate [','] (ls.map labelText)).length := by
  induction ls with
  | nil => simp
  | cons l ls ih =>
    cases ls with
    | nil => simp [labelText]; omega
    | cons l' ls =>
      rw [List.map_cons] at ih
      rw [List.map_cons, List.map_cons, List.intercalate_cons_cons, List.length_append,
        List.length_append, List.length_cons, List.length_singleton]
      omega

theorem labelSet_append {ls : List (Str × Str)} (h : Readable ls) (hn : (ls.map Prod.fst).Nodup)
    {c : Char} (hc : c ≠ '{') (s : Str) :
    labelSet (labelsText ls ++ c :: s) = some (ls, c :: s) := by
  unfold labelsText
  split_ifs with hls
  · subst hls
    rw [List.nil_append, labelSet]
    simp [hc]
  · have hlen := length_le_intercalate ls
    rw [List.cons_append, List.cons_append, labelSet, List.append_assoc, List.singleton_append,
      labelList_append h hls (c :: s) (by simp only [List.length_append, List.length_cons]; omega)]
    simp [hn]

theorem takeWhile_dropWhile_all {p : Char → Bool} {s : Str} (h : ∀ c ∈ s, p c = true) :
    s.takeWhile p = s ∧ s.dropWhile p = [] :=
  ⟨List.takeWhile_eq_self_iff.mpr h, List.dropWhile_eq_nil_iff.mpr h⟩

theorem sign_of_isDigit {s : Str} (h : ∀ c ∈ s, c.isDigit) : sign s = (false, s) := by
  unfold sign
  split
  · exact absurd (h '-' (by simp)) (by decide)
  · exact absurd (h '+' (by simp)) (by decide)
  · rfl

theorem unsigned_digits {s : Str} (hne : s ≠ []) (h : ∀ c ∈ s, c.isDigit) :
    unsigned s = some (Nat.ofDigitChars 10 s 0 : ℚ) := by
  obtain ⟨ht, hd⟩ := takeWhile_dropWhile_all h
  simp [unsigned, ht, hd, hne, exponent]

theorem value_ofNat (n : ℕ) : value (Str.ofNat n) = some (.number n) := by
  have hd : ∀ c ∈ Str.ofNat n, c.isDigit := fun c ↦ Str.isDigit_ofNat
  have hnan : Str.ofNat n ≠ "NaN".toList := fun h ↦
    absurd (hd 'N' (by rw [h]; decide)) (by decide)
  have hinf : Str.ofNat n ≠ "Inf".toList := fun h ↦
    absurd (hd 'I' (by rw [h]; decide)) (by decide)
  simp only [value, sign_of_isDigit hd, if_neg hnan, if_neg hinf,
    unsigned_digits (Str.ofNat_ne_nil n) hd, Option.map_some, signed, Bool.false_eq_true,
    ↓reduceIte, Str.ofDigitChars_ofNat]

theorem token_all {s : Str} (h : ∀ c ∈ s, isBlank c = false) : token s = (s, []) := by
  obtain ⟨ht, hd⟩ := takeWhile_dropWhile_all (p := (!isBlank ·)) (fun c hc ↦ by simp [h c hc])
  rw [token, ht, hd]
  rfl

theorem value_brace (s : Str) : value ('{' :: s) = none := by
  simp [value, sign, unsigned, show ('{' : Char).isDigit = false by decide]

theorem skipBlanks_of_notBlank {s : Str} (h : ∀ c ∈ s, isBlank c = false) : skipBlanks s = s := by
  cases s with
  | nil => rfl
  | cons c s => exact skipBlanks_cons (h c (by simp)) s

theorem skipBlanks_space (s : Str) : skipBlanks (' ' :: s) = skipBlanks s := by
  simp [skipBlanks, isBlank]

theorem labelSet_of_value {v : Str} {x : Value} (hv : value v = some x) :
    labelSet v = some ([], v) := by
  unfold labelSet
  split
  · rw [value_brace] at hv
    cases hv
  · rfl

theorem sample_append {name v : Str} {ls : List (Str × Str)} {x : Value}
    (hname : ValidName isNameChar name) (h : Readable ls) (hn : (ls.map Prod.fst).Nodup)
    (hblank : ∀ c ∈ v, isBlank c = false) (hv : value v = some x) :
    sample (name ++ labelsText ls ++ ' ' :: v) = some ⟨name, ls, x, none⟩ := by
  have hskip := skipBlanks_of_notBlank hblank
  have htoken := token_all hblank
  rw [List.append_assoc]
  by_cases hls : ls = []
  · subst hls
    rw [labelsText, if_pos rfl, List.nil_append, sample, word_append hname (by decide)]
    simp only [skipBlanks_space, hskip, labelSet_of_value hv, htoken, hv]
  · have hset := labelSet_append h hn (c := ' ') (by decide) v
    rw [labelsText, if_neg hls, List.cons_append, List.cons_append] at hset ⊢
    rw [sample, word_append hname (by decide)]
    simp only [skipBlanks_cons (show isBlank '{' = false by decide), hset, skipBlanks_space, hskip,
      htoken, hv]

theorem line_sample {s : Str} {x : Sample} (h : sample s = some x) : line s = some (.sample x) := by
  obtain ⟨c, t, rfl⟩ : ∃ c t, s = c :: t := by
    cases s with
    | nil => simp [sample, word, ValidName] at h
    | cons c t => exact ⟨c, t, rfl⟩
  have hc : isNameChar c = true := by
    by_contra hc
    simp [sample, word, ValidName, List.takeWhile_cons_of_neg hc] at h
  have hb := isBlank_of_isNameChar hc
  have hhash : c ≠ '#' := by
    rintro rfl
    revert hc
    decide
  rw [line, skipBlanks_cons hb]
  split
  · rename_i h'
    cases h'
  · rename_i h'
    exact absurd (List.cons.inj h').1 hhash
  · rw [h, Option.map_some]

theorem parse_flatMap {α : Type} (f : α → Str) (xs : List α) (h : ∀ x ∈ xs, '\n' ∉ f x) :
    parse (xs.flatMap (fun x ↦ f x ++ ['\n'])) = (xs.map f).mapM line := by
  rw [parse, Str.splitLines_flatMap f xs h]

theorem parse_eq_none {l a b : Str} (ha : (Str.splitLines a).2 = []) (hl : '\n' ∉ l)
    (h : line l = none) : parse (a ++ l ++ '\n' :: b) = none := by
  have hs : Str.splitLines (a ++ l ++ '\n' :: b) =
      ((Str.splitLines a).1 ++ l :: (Str.splitLines b).1, (Str.splitLines b).2) := by
    rw [List.append_assoc, Str.splitLines_append_of_ended ha, Str.splitLines_append hl]
  rw [parse, hs]
  split
  · rename_i ls heq
    obtain ⟨rfl, -⟩ := Prod.mk.inj heq
    rw [List.mapM_append, List.mapM_cons, h]
    cases (Str.splitLines a).1.mapM line <;> rfl
  · rfl

theorem token_append {a : Str} (ha : ∀ c ∈ a, isBlank c = false) (s : Str) :
    token (a ++ ' ' :: s) = (a, skipBlanks s) := by
  have hp : ∀ c ∈ a, (!isBlank c) = true := fun c hc ↦ by simp [ha c hc]
  rw [token, List.takeWhile_append_of_pos hp, List.takeWhile_cons_of_neg (by decide),
    List.append_nil, List.dropWhile_append_of_pos hp, List.dropWhile_cons_of_neg (by decide),
    skipBlanks_space]

theorem ValidName.skipBlanks_append {name : Str} (h : ValidName isNameChar name) (s : Str) :
    skipBlanks (name ++ s) = name ++ s := by
  obtain ⟨c, t, rfl⟩ := List.exists_cons_of_ne_nil h.1
  exact skipBlanks_cons (isBlank_of_isNameChar (h.2.1 c (by simp))) (t ++ s)

theorem keyword_append {a name : Str} (ha : ValidName isNameChar a) (h : ValidName isNameChar name)
    (s : Str) : token (skipBlanks (' ' :: (a ++ ' ' :: (name ++ s)))) = (a, name ++ s) := by
  rw [skipBlanks_space, ha.skipBlanks_append,
    token_append (fun c hc ↦ isBlank_of_isNameChar (ha.2.1 c hc)), h.skipBlanks_append]

theorem line_type {name kind : Str} (h : ValidName isNameChar name) (hk : kind ∈ kinds) :
    line ("# TYPE ".toList ++ name ++ ' ' :: kind) = some (.type name kind) := by
  have hblank : ∀ k ∈ kinds, ∀ c ∈ k, isBlank c = false := by decide
  have hkind := hblank kind hk
  have hline : line ("# TYPE ".toList ++ name ++ ' ' :: kind) =
      comment (' ' :: ("TYPE".toList ++ ' ' :: (name ++ ' ' :: kind))) := by
    rw [List.append_assoc]
    rfl
  rw [hline, comment, keyword_append (by decide) h]
  dsimp only
  rw [if_pos rfl, word_append h (by decide)]
  simp only [skipBlanks_space, skipBlanks_of_notBlank hkind, token_all hkind, hk, and_self, if_true]

def PlainHelp (text : Str) : Prop :=
  (∀ c ∈ text, c ≠ '\\' ∧ c ≠ '\n') ∧ ∀ c ∈ text.head?, isBlank c = false

instance (text : Str) : Decidable (PlainHelp text) := inferInstanceAs (Decidable (_ ∧ _))

theorem unescapeHelp_plain {text : Str} (h : ∀ c ∈ text, c ≠ '\\' ∧ c ≠ '\n') :
    unescapeHelp text = some text := by
  induction text with
  | nil => rfl
  | cons c text ih =>
    obtain ⟨⟨hc, -⟩, htext⟩ := List.forall_mem_cons.mp h
    rw [unescapeHelp]
    · rw [ih htext, Option.map_some]
    all_goals simp_all

theorem PlainHelp.skipBlanks {text : Str} (h : PlainHelp text) : skipBlanks text = text := by
  cases text with
  | nil => rfl
  | cons c text => exact skipBlanks_cons (h.2 c rfl) text

theorem line_help {name text : Str} (h : ValidName isNameChar name) (ht : PlainHelp text) :
    line ("# HELP ".toList ++ name ++ ' ' :: text) = some (.help name text) := by
  have hline : line ("# HELP ".toList ++ name ++ ' ' :: text) =
      comment (' ' :: ("HELP".toList ++ ' ' :: (name ++ ' ' :: text))) := by
    rw [List.append_assoc]
    rfl
  have hne : "HELP".toList ≠ "TYPE".toList := by decide
  rw [hline, comment, keyword_append (by decide) h]
  dsimp only
  rw [if_neg hne, if_pos rfl, word_append h (by decide)]
  simp only [skipBlanks_space, ht.skipBlanks, unescapeHelp_plain ht.1, Option.map_some]

def Reads (text : Str) (doc : List Line) : Prop :=
  ∃ ls, text = ls.flatMap (· ++ ['\n']) ∧ (∀ l ∈ ls, '\n' ∉ l) ∧
    List.Forall₂ (fun l x ↦ line l = some x) ls doc

namespace Reads

theorem nil : Reads [] [] := ⟨[], rfl, by simp, .nil⟩

theorem single {l : Str} {x : Line} (hl : '\n' ∉ l) (h : line l = some x) :
    Reads (l ++ ['\n']) [x] :=
  ⟨[l], by simp, by simpa using hl, .cons h .nil⟩

theorem append {s t : Str} {doc doc' : List Line} (h : Reads s doc) (h' : Reads t doc') :
    Reads (s ++ t) (doc ++ doc') := by
  obtain ⟨ls, rfl, hls, hdoc⟩ := h
  obtain ⟨ls', rfl, hls', hdoc'⟩ := h'
  exact ⟨ls ++ ls', by simp, List.forall_mem_append.mpr ⟨hls, hls'⟩, List.rel_append hdoc hdoc'⟩

theorem flatMap {α : Type} {f : α → Str} {g : α → List Line} {xs : List α}
    (h : ∀ x ∈ xs, Reads (f x) (g x)) : Reads (xs.flatMap f) (xs.flatMap g) := by
  induction xs with
  | nil => exact nil
  | cons x xs ih =>
    obtain ⟨hx, hxs⟩ := List.forall_mem_cons.mp h
    exact hx.append (ih hxs)

theorem parse_eq {text : Str} {doc : List Line} (h : Reads text doc) : parse text = some doc := by
  obtain ⟨ls, rfl, hls, hdoc⟩ := h
  have hp := parse_flatMap id ls hls
  rw [List.map_id] at hp
  exact hp.trans (mapM_eq_some_iff.mpr hdoc)

end Reads

theorem notMem_intercalate {c : Char} {sep : Str} (hsep : c ∉ sep) {ls : List Str}
    (h : ∀ l ∈ ls, c ∉ l) : c ∉ List.intercalate sep ls := by
  induction ls with
  | nil => simp
  | cons l ls ih =>
    obtain ⟨hl, hls⟩ := List.forall_mem_cons.mp h
    cases ls with
    | nil => simpa [List.intercalate_singleton] using hl
    | cons l' ls =>
      rw [List.intercalate_cons_cons, List.mem_append, List.mem_append, not_or, not_or]
      exact ⟨⟨hl, hsep⟩, ih hls⟩

theorem ValidName.newline_notMem {p : Char → Bool} {name : Str} (h : ValidName p name)
    (hp : p '\n' = false) : '\n' ∉ name := by
  intro hn
  rw [h.2.1 _ hn] at hp
  cases hp

theorem newline_notMem_labelsText {ls : List (Str × Str)} (h : Readable ls) :
    '\n' ∉ labelsText ls := by
  have hlabel : ∀ t ∈ ls.map labelText, '\n' ∉ t := by
    refine List.forall_mem_map.mpr (fun l hl ↦ ?_)
    have hk := (h l hl).1.newline_notMem (by decide)
    have hv : '\n' ∉ l.2 := fun hn ↦ ((h l hl).2 _ hn).2.2 rfl
    simp [labelText, hk, hv]
  have hcomma : '\n' ∉ [','] := by decide
  have hlist := notMem_intercalate hcomma hlabel
  unfold labelsText
  split_ifs
  · simp
  · simp [hlist]

theorem Reads.sample {name v : Str} {ls : List (Str × Str)} {x : Value}
    (hname : ValidName isNameChar name) (h : Readable ls) (hn : (ls.map Prod.fst).Nodup)
    (hblank : ∀ c ∈ v, isBlank c = false ∧ c ≠ '\n') (hv : value v = some x) :
    Reads (name ++ labelsText ls ++ ' ' :: v ++ ['\n']) [.sample ⟨name, ls, x, none⟩] := by
  refine Reads.single ?_ (line_sample (sample_append hname h hn (fun c hc ↦ (hblank c hc).1) hv))
  have hnewline : '\n' ∉ v := fun hc ↦ (hblank _ hc).2 rfl
  simp [hname.newline_notMem (by decide), newline_notMem_labelsText h, hnewline]

theorem unblank_of_isDigit {c : Char} (h : c.isDigit) : isBlank c = false ∧ c ≠ '\n' := by
  refine ⟨isBlank_of_isNameChar (by simp [isNameChar, Char.isAlphanum, h]), ?_⟩
  rintro rfl
  revert h
  decide

theorem unblank_fixed (precision : ℕ) (q : ℚ) :
    ∀ c ∈ Str.fixed precision q, isBlank c = false ∧ c ≠ '\n' := by
  intro c hc
  rcases Str.mem_fixed hc with hc | rfl | rfl
  · exact unblank_of_isDigit hc
  · decide
  · decide

theorem plain_of_isDigit {c : Char} (h : c.isDigit) : c ≠ '"' ∧ c ≠ '\\' ∧ c ≠ '\n' := by
  refine ⟨?_, ?_, ?_⟩ <;> rintro rfl <;> revert h <;> decide

theorem plain_fixed (precision : ℕ) (q : ℚ) : Plain (Str.fixed precision q) := by
  intro c hc
  rcases Str.mem_fixed hc with hc | rfl | rfl
  · exact plain_of_isDigit hc
  · decide
  · decide

theorem plain_ofInt (n : ℤ) : Plain (Str.ofInt n) := by
  intro c hc
  rcases Str.mem_ofInt hc with hc | rfl
  · exact plain_of_isDigit hc
  · decide

def ReadsAll (P : Line → Prop) (text : Str) : Prop := ∃ doc, Reads text doc ∧ ∀ x ∈ doc, P x

namespace ReadsAll

variable {P : Line → Prop} {s t : Str}

theorem mono {Q : Line → Prop} (h : ReadsAll P s) (hpq : ∀ x, P x → Q x) : ReadsAll Q s := by
  obtain ⟨doc, hs, hdoc⟩ := h
  exact ⟨doc, hs, fun x hx ↦ hpq x (hdoc x hx)⟩

theorem append (h : ReadsAll P s) (h' : ReadsAll P t) : ReadsAll P (s ++ t) := by
  obtain ⟨doc, hs, hdoc⟩ := h
  obtain ⟨doc', ht, hdoc'⟩ := h'
  exact ⟨_, hs.append ht, List.forall_mem_append.mpr ⟨hdoc, hdoc'⟩⟩

theorem flatMap {α : Type} {f : α → Str} {xs : List α} (h : ∀ x ∈ xs, ReadsAll P (f x)) :
    ReadsAll P (xs.flatMap f) := by
  induction xs with
  | nil => exact ⟨[], .nil, by simp⟩
  | cons x xs ih =>
    obtain ⟨hx, hxs⟩ := List.forall_mem_cons.mp h
    exact hx.append (ih hxs)

end ReadsAll

theorem word_valid {p : Char → Bool} {s name t : Str} (h : word p s = some (name, t)) :
    ValidName p name := by
  unfold word at h
  split_ifs at h with hv
  obtain ⟨rfl, -⟩ := Prod.mk.inj (Option.some.inj h)
  exact hv

theorem label_valid {s t : Str} {l : Str × Str} (h : label s = some (l, t)) :
    ValidName isLabelChar l.1 := by
  unfold label at h
  split at h
  · cases h
  · rename_i name s' hw
    have hname := word_valid hw
    split at h
    · split at h
      · obtain ⟨r, -, hr⟩ := Option.map_eq_some_iff.mp h
        obtain ⟨rfl, -⟩ := Prod.mk.inj hr
        exact hname
      · cases h
    · cases h

theorem labelList_valid {fuel : ℕ} {s t : Str} {ls : List (Str × Str)}
    (h : labelList fuel s = some (ls, t)) : ∀ l ∈ ls, ValidName isLabelChar l.1 := by
  induction fuel generalizing s ls t with
  | zero => cases h
  | succ fuel ih =>
    unfold labelList at h
    split at h
    · obtain ⟨rfl, -⟩ := Prod.mk.inj (Option.some.inj h)
      exact List.forall_mem_nil _
    · split at h
      · rename_i l s' hl
        obtain ⟨⟨ls', t'⟩, hr, he⟩ := Option.map_eq_some_iff.mp h
        obtain ⟨rfl, -⟩ := Prod.mk.inj he
        exact List.forall_mem_cons.mpr ⟨label_valid hl, ih hr⟩
      · rename_i l s' hl
        obtain ⟨rfl, -⟩ := Prod.mk.inj (Option.some.inj h)
        exact List.forall_mem_singleton.mpr (label_valid hl)
      · cases h

theorem labelSet_valid {s t : Str} {ls : List (Str × Str)} (h : labelSet s = some (ls, t)) :
    ∀ l ∈ ls, ValidName isLabelChar l.1 := by
  unfold labelSet at h
  split at h
  · split at h
    · rename_i hl
      split_ifs at h
      obtain ⟨rfl, -⟩ := Prod.mk.inj (Option.some.inj h)
      exact labelList_valid hl
    · cases h
  · obtain ⟨rfl, -⟩ := Prod.mk.inj (Option.some.inj h)
    exact List.forall_mem_nil _

theorem sample_valid {s : Str} {x : Sample} (h : sample s = some x) :
    ValidName isNameChar x.name ∧ ∀ l ∈ x.labels, ValidName isLabelChar l.1 := by
  unfold sample at h
  split at h
  · cases h
  · rename_i name s' hw
    have hname := word_valid hw
    split at h
    · cases h
    · rename_i ls t hl
      have hlabels := labelSet_valid hl
      split at h
      · obtain rfl := Option.some.inj h
        exact ⟨hname, hlabels⟩
      · split at h
        · obtain ⟨k, -, rfl⟩ := Option.map_eq_some_iff.mp h
          exact ⟨hname, hlabels⟩
        · cases h
      · cases h

theorem comment_ne_sample (s : Str) (x : Sample) : comment s ≠ some (.sample x) := by
  intro h
  simp only [comment] at h
  split at h
  · split at h
    · split at h <;> simp at h
    · cases h
  · split at h
    · split at h
      · simp at h
      · cases h
    · simp at h

theorem line_valid {s : Str} {x : Sample} (h : line s = some (.sample x)) :
    ValidName isNameChar x.name ∧ ∀ l ∈ x.labels, ValidName isLabelChar l.1 := by
  unfold line at h
  split at h
  · cases h
  · exact absurd h (comment_ne_sample _ x)
  · obtain ⟨y, hy, he⟩ := Option.map_eq_some_iff.mp h
    cases he
    exact sample_valid hy

/-- After a label set that is closed twice no value can be read. -/
theorem line_closed_twice {name v : Str} {ls : List (Str × Str)} (hname : ValidName isNameChar name)
    (h : Readable ls) (hne : ls ≠ []) :
    line (name ++ labelsText ls ++ '}' :: ' ' :: v) = none := by
  have hset : labelSet (labelsText ls ++ '}' :: ' ' :: v) = none ∨
      labelSet (labelsText ls ++ '}' :: ' ' :: v) = some (ls, '}' :: ' ' :: v) := by
    by_cases hn : (ls.map Prod.fst).Nodup
    · exact .inr (labelSet_append h hn (by decide) _)
    · left
      have hlen := length_le_intercalate ls
      rw [labelsText, if_neg hne, List.cons_append, List.cons_append, labelSet, List.append_assoc,
        List.singleton_append, labelList_append h hne _
          (by simp only [List.length_append, List.length_cons]; omega)]
      simp [hn]
  have hskip : skipBlanks (labelsText ls ++ '}' :: ' ' :: v) =
      labelsText ls ++ '}' :: ' ' :: v := by
    rw [labelsText, if_neg hne, List.cons_append, List.cons_append]
    exact skipBlanks_cons (by decide) _
  have hvalue : value (token (skipBlanks ('}' :: ' ' :: v))).1 = none := by
    rw [skipBlanks_cons (by decide)]
    have ht := token_append (a := ['}']) (by simp [isBlank]) v
    rw [List.singleton_append] at ht
    rw [ht]
    exact show value ['}'] = none by decide +kernel
  have hword : word isNameChar (name ++ (labelsText ls ++ '}' :: ' ' :: v)) =
      some (name, labelsText ls ++ '}' :: ' ' :: v) := by
    rw [labelsText, if_neg hne, List.cons_append, List.cons_append]
    exact word_append hname (by decide) _
  have hsample : sample (name ++ labelsText ls ++ '}' :: ' ' :: v) = none := by
    rw [List.append_assoc, sample, hword]
    rcases hset with hset | hset
    · simp only [hskip, hset]
    · simp only [hskip, hset, hvalue]
  obtain ⟨c, t, rfl⟩ := List.exists_cons_of_ne_nil hname.1
  have hc : isNameChar c = true := hname.2.1 c List.mem_cons_self
  unfold line
  rw [List.append_assoc, hname.skipBlanks_append, ← List.append_assoc]
  split
  · rename_i he
    simp at he
  · rename_i he
    rw [List.cons_append, List.cons_append, List.cons.injEq] at he
    rw [he.1] at hc
    exact absurd hc (by decide)
  · rw [hsample, Option.map_none]

end ServiceSystem.Foundations.Exposition

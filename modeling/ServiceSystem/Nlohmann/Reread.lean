import Mathlib.Tactic.IntervalCases
import ServiceSystem.Nlohmann.Messages
import ServiceSystem.Nlohmann.Prefix
import ServiceSystem.Nlohmann.Serializer
import ServiceSystem.Nlohmann.Valid

namespace ServiceSystem.Nlohmann

open Foundations

/-- The bytes take the lexer from one call of `get` to another inside a token, and into the
buffer of the token come the others. -/
def Passes (text : Str) (scan scan' : Scan) (added : Str) : Prop :=
  ∀ expecting stack l, ∃ l',
    text.foldl Progress.feed (.running ⟨expecting, stack, scan, l⟩) =
      .running ⟨expecting, stack, scan', l'⟩ ∧ l'.token_buffer = l.token_buffer ++ added

namespace Passes

variable {text text' added added' : Str} {scan scan' scan'' : Scan}

theorem nil (scan : Scan) : Passes [] scan scan [] :=
  fun _ _ l ↦ ⟨l, rfl, (List.append_nil _).symm⟩

theorem append (h : Passes text scan scan' added) (h' : Passes text' scan' scan'' added') :
    Passes (text ++ text') scan scan'' (added ++ added') := by
  intro expecting stack l
  obtain ⟨l', hrun, hbuffer⟩ := h expecting stack l
  obtain ⟨l'', hrun', hbuffer'⟩ := h' expecting stack l'
  refine ⟨l'', ?_, ?_⟩
  · rw [List.foldl_append, hrun, hrun']
  · rw [hbuffer', hbuffer, List.append_assoc]

theorem one {c : Char} (h : ∀ l : Lexer, ∃ l', scan.read l (some c) = .more scan' l' ∧
    l'.token_buffer = l.token_buffer ++ added) : Passes [c] scan scan' added := by
  intro expecting stack l
  obtain ⟨l', hread, hbuffer⟩ := h (l.get (some c))
  refine ⟨l', feed_more hread, ?_⟩
  rw [hbuffer, get_token_buffer]

end Passes

section Strings

/-- Where the lexer reads a string on, after some of its bytes. -/
def stringScan : Utf8.State → Scan
  | .accept => .string
  | state => .tail state

theorem stringScan_tail {state : Utf8.State} (h : state ≠ .accept) :
    stringScan state = .tail state := by
  cases state <;> first | rfl | contradiction

/-- A byte that stands for itself, or for a part of a character. -/
theorem passes_self {state : Utf8.State} {c : Char} (hstep : Utf8.step state c ≠ .reject)
    (hplain : state = .accept → c ≠ '"' ∧ c ≠ '\\' ∧ 0x20 ≤ c.toNat) :
    Passes [c] (stringScan state) (stringScan (Utf8.step state c)) [c] := by
  apply Passes.one
  intro l
  by_cases hstate : state = .accept
  · subst hstate
    obtain ⟨hquote, hbackslash, hlow⟩ := hplain rfl
    refine ⟨l.add c, ?_, rfl⟩
    simp only [stringScan, Scan.read, Lexer.scan_string, if_neg hquote, if_neg hbackslash,
      if_neg (Nat.not_lt.mpr hlow)]
    cases h : Utf8.step .accept c <;> first | rfl | contradiction
  · refine ⟨l.add c, ?_, rfl⟩
    rw [stringScan_tail hstate]
    simp only [Scan.read, Lexer.next_byte_in_range]
    cases h : Utf8.step state c <;> first | rfl | contradiction

theorem passes_short {c x : Char} (hc : c ≠ 'u') (h : unescape c = some x) :
    Passes ['\\', c] .string .string [x] := by
  have hbackslash : Passes ['\\'] .string .escape [] :=
    Passes.one fun l ↦ ⟨l, rfl, (List.append_nil _).symm⟩
  have hletter : Passes [c] .escape .string [x] := by
    apply Passes.one
    intro l
    refine ⟨l.add x, ?_, rfl⟩
    rw [Scan.read, Lexer.scan_escape]
    · rw [Option.bind_some, h]
    · intro hu
      exact hc (Option.some.inj hu)
  exact hbackslash.append hletter

theorem passes_code {h₁ h₂ h₃ h₄ : Char} {a₁ a₂ a₃ a₄ : Fin 16} {n : ℕ}
    (hdigits : [h₁, h₂, h₃, h₄].map hexDigit = [some a₁, some a₂, some a₃, some a₄])
    (hcode : codepointOf a₁ a₂ a₃ a₄ = n) (hn : n < 0x80) :
    Passes ['\\', 'u', h₁, h₂, h₃, h₄] .string .string [Char.ofNat n] := by
  simp only [List.map_cons, List.map_nil, List.cons.injEq, and_true] at hdigits
  obtain ⟨ha₁, ha₂, ha₃, ha₄⟩ := hdigits
  have hbegin : Passes ['\\'] .string .escape [] :=
    Passes.one fun l ↦ ⟨l, rfl, (List.append_nil _).symm⟩
  have hcodepoint : Passes ['u'] .escape (.codepoint none []) [] :=
    Passes.one fun l ↦ ⟨l, rfl, (List.append_nil _).symm⟩
  have hdigit : ∀ {h : Char} {a : Fin 16} (digits : List (Fin 16)), hexDigit h = some a →
      digits.length < 3 →
        Passes [h] (.codepoint none digits) (.codepoint none (digits ++ [a])) [] := by
    intro h a digits ha hlength
    exact Passes.one fun l ↦ ⟨l, get_codepoint_digit l ha digits hlength, (List.append_nil _).symm⟩
  have hlast : Passes [h₄] (.codepoint none [a₁, a₂, a₃]) .string [Char.ofNat n] := by
    apply Passes.one
    intro l
    have hbytes : bytesOf n = [Char.ofNat n] := if_pos hn
    refine ⟨{ l with token_buffer := l.token_buffer ++ [Char.ofNat n] }, ?_, rfl⟩
    rw [Scan.read]
    unfold Lexer.get_codepoint
    rw [Option.bind_some, ha₄]
    simp only [Lexer.codepoint, hcode]
    rw [dif_neg (by omega), if_neg (by omega), hbytes]
  exact hbegin.append (hcodepoint.append ((hdigit [] ha₁ (by simp)).append
    ((hdigit [a₁] ha₂ (by simp)).append ((hdigit [a₁, a₂] ha₃ (by simp)).append hlast))))

theorem passes_control {n : ℕ} (hn : n < 0x20) :
    Passes ("\\u".toList ++ hex4 n) .string .string [Char.ofNat n] := by
  have hhex : ∀ n < 0x20, (hex4 n).map hexDigit =
      [some 0, some 0, some (Fin.ofNat 16 (n / 16)), some (Fin.ofNat 16 n)] ∧
        codepointOf 0 0 (Fin.ofNat 16 (n / 16)) (Fin.ofNat 16 n) = n := by
    decide
  obtain ⟨hdigits, hcode⟩ := hhex n hn
  generalize hex4 n = digits at hdigits
  rcases digits with _ | ⟨h₁, _ | ⟨h₂, _ | ⟨h₃, _ | ⟨h₄, _ | ⟨h₅, rest⟩⟩⟩⟩⟩ <;> first
    | exact passes_code hdigits hcode (by omega)
    | exact absurd (congrArg List.length hdigits) (by simp)

theorem passes_escape {state : Utf8.State} {c : Char} (hstep : Utf8.step state c ≠ .reject) :
    Passes (escape c) (stringScan state) (stringScan (Utf8.step state c)) [c] := by
  by_cases hstate : state = .accept
  · subst hstate
    have hshort : ∀ {x y : Char}, y ≠ 'u' → unescape y = some x → c.toNat = x.toNat →
        Passes ['\\', y] (stringScan .accept) (stringScan (Utf8.step .accept c)) [c] := by
      intro x y hy hx hc
      obtain rfl := Char.toNat_inj.mp hc
      rw [unescape_ascii hx]
      exact passes_short hy hx
    rw [escape, escapeOf]
    split_ifs with hb ht hn hf hr hquote hbackslash hcontrol
    · exact hshort (by decide) (by decide : unescape 'b' = some '\x08') hb
    · exact hshort (by decide) (by decide : unescape 't' = some '\t') ht
    · exact hshort (by decide) (by decide : unescape 'n' = some '\n') hn
    · exact hshort (by decide) (by decide : unescape 'f' = some '\x0c') hf
    · exact hshort (by decide) (by decide : unescape 'r' = some '\r') hr
    · exact hshort (by decide) (by decide : unescape '"' = some '"') hquote
    · exact hshort (by decide) (by decide : unescape '\\' = some '\\') hbackslash
    · have haccept : Utf8.step .accept c = .accept := if_pos (by omega)
      have hcode := passes_control (n := c.toNat) (by omega)
      rw [Char.ofNat_toNat] at hcode
      rw [haccept]
      exact hcode
    · apply passes_self hstep
      intro _
      refine ⟨?_, ?_, by omega⟩
      · rintro rfl
        exact hquote rfl
      · rintro rfl
        exact hbackslash rfl
  · have hhigh : 0x80 ≤ c.toNat := by
      by_contra hlow
      rw [Utf8.step_of_ascii (by omega), if_neg hstate] at hstep
      exact hstep rfl
    rw [escape, escapeOf_high hhigh]
    exact passes_self hstep fun h ↦ absurd h hstate

theorem passes_string (s : Str) {state : Utf8.State} (h : s.foldl Utf8.step state ≠ .reject) :
    Passes (s.flatMap escape) (stringScan state) (stringScan (s.foldl Utf8.step state)) s := by
  induction s generalizing state with
  | nil => exact Passes.nil _
  | cons c s ih =>
    have hstep : Utf8.step state c ≠ .reject := by
      intro hreject
      rw [List.foldl_cons, hreject, foldl_reject] at h
      exact h rfl
    exact (passes_escape hstep).append (ih h)

end Strings

section Numbers

theorem passes_number {state state' : NumberState} {c : Char} (h : state.next c = some state')
    (type : NumberType) :
    Passes [c] (.number state type) (.number state' (state'.type type)) [c] := by
  apply Passes.one
  intro l
  refine ⟨l.add c, ?_, rfl⟩
  rw [Scan.read]
  unfold Lexer.scan_number
  rw [Option.bind_some, h]

theorem passes_digits (state : NumberState)
    (hnext : ∀ c : Char, c.isDigit → state.next c = some state) (htype : ∀ t, state.type t = t)
    (type : NumberType) {ds : Str} (hds : ∀ c ∈ ds, c.isDigit) :
    Passes ds (.number state type) (.number state type) ds := by
  induction ds with
  | nil => exact Passes.nil _
  | cons c ds ih =>
    obtain ⟨hc, hds⟩ := List.forall_mem_cons.mp hds
    have hone := passes_number (hnext c hc) type
    rw [htype] at hone
    exact hone.append (ih hds)

/-- The lexer reads a number from its first byte on. -/
def StartsNumber (c : Char) (state : NumberState) (type : NumberType) : Prop :=
  ∀ l : Lexer, ∃ l', l.skip_whitespace (some c) = (.inl (.number state type), l') ∧
    l'.token_buffer = [c]

theorem starts_minus : StartsNumber '-' .minus .value_integer := fun _ ↦ ⟨_, rfl, rfl⟩

theorem starts_zero : StartsNumber '0' .zero .value_unsigned := fun _ ↦ ⟨_, rfl, rfl⟩

theorem starts_digit {c : Char} (hc : c.isDigit) (hzero : c ≠ '0') :
    StartsNumber c .any1 .value_unsigned := by
  have hdigit : ∀ n, 49 ≤ n → n ≤ 57 → StartsNumber (Char.ofNat n) .any1 .value_unsigned := by
    intro n hlow hhigh
    interval_cases n <;> exact fun _ ↦ ⟨_, rfl, rfl⟩
  have hlow : '0'.toNat = 48 := rfl
  have hhigh : '9'.toNat = 57 := rfl
  have hne : c.toNat ≠ '0'.toNat := fun h ↦ hzero (Char.toNat_inj.mp h)
  have hrange := Char.isDigit_iff_toNat.mp hc
  have h := hdigit c.toNat (by omega) (by omega)
  rwa [Char.ofNat_toNat] at h

/-- A number that the lexer reads up to its end, where it does not know yet that it is one. -/
def ReadsNumber (text : Str) (type : NumberType) : Prop :=
  ∀ expecting stack l, ∃ state l',
    text.foldl Progress.feed (.running ⟨expecting, stack, .whitespace, l⟩) =
      .running ⟨expecting, stack, .number state type, l'⟩ ∧
    l'.token_buffer = text ∧ state.error = none

theorem readsNumber_of {c : Char} {rest : Str} {state state' : NumberState}
    {type type' : NumberType} (hstart : StartsNumber c state type)
    (hrest : Passes rest (.number state type) (.number state' type') rest)
    (hfinal : state'.error = none) : ReadsNumber (c :: rest) type' := by
  intro expecting stack l
  obtain ⟨l', hskip, hbuffer⟩ := hstart (l.get (some c))
  obtain ⟨l'', hrun, hbuffer'⟩ := hrest expecting stack l'
  have hread : Scan.whitespace.read (l.get (some c)) (some c) = .more (.number state type) l' :=
    congrArg Read.ofSum hskip
  refine ⟨state', l'', ?_, ?_, hfinal⟩
  · rw [List.foldl_cons, ← hrun]
    exact congrArg (fun progress ↦ rest.foldl Progress.feed progress)
      (feed_more (p := ⟨expecting, stack, .whitespace, l⟩) hread)
  · rw [hbuffer', hbuffer, List.singleton_append]

/-- The digits before the point, after a sign or without one. -/
inductive Whole : Str → NumberState → Prop
  | zero : Whole ['0'] .zero
  | digits {c : Char} {rest : Str} (hc : c.isDigit) (hzero : c ≠ '0')
      (hrest : ∀ c ∈ rest, c.isDigit) : Whole (c :: rest) .any1

namespace Whole

variable {ds : Str} {state : NumberState}

theorem of_leading (hds : ∀ c ∈ ds, c.isDigit)
    (h : ds = ['0'] ∨ ds ≠ [] ∧ ds.head? ≠ some '0') : ∃ state, Whole ds state := by
  rcases h with rfl | ⟨hne, hzero⟩
  · exact ⟨.zero, .zero⟩
  · obtain ⟨c, rest, rfl⟩ := List.exists_cons_of_ne_nil hne
    obtain ⟨hc, hrest⟩ := List.forall_mem_cons.mp hds
    exact ⟨.any1, .digits hc (by simpa using hzero) hrest⟩

theorem final (h : Whole ds state) : state.error = none := by
  cases h <;> rfl

theorem next_point (h : Whole ds state) : state.next '.' = some .decimal1 := by
  cases h <;> rfl

theorem next_exponent (h : Whole ds state) : state.next 'e' = some .exponent := by
  cases h <;> rfl

theorem reads (h : Whole ds state) {rest : Str} {state' : NumberState} {type : NumberType}
    (hrest : Passes rest (.number state .value_unsigned) (.number state' type) rest)
    (hfinal : state'.error = none) : ReadsNumber (ds ++ rest) type := by
  cases h with
  | zero => exact readsNumber_of starts_zero hrest hfinal
  | digits hc hzero hds =>
    exact readsNumber_of (starts_digit hc hzero)
      ((passes_digits .any1 (fun _ h ↦ if_pos h) (fun _ ↦ rfl) .value_unsigned hds).append hrest)
      hfinal

theorem reads_minus (h : Whole ds state) {rest : Str} {state' : NumberState} {type : NumberType}
    (hrest : Passes rest (.number state .value_integer) (.number state' type) rest)
    (hfinal : state'.error = none) : ReadsNumber ('-' :: ds ++ rest) type := by
  refine readsNumber_of starts_minus ?_ hfinal
  cases h with
  | zero =>
    have hnext : NumberState.minus.next '0' = some .zero := rfl
    exact (passes_number hnext .value_integer).append hrest
  | @digits c ds hc hzero hds =>
    have hnext : NumberState.minus.next c = some .any1 := by
      rw [NumberState.next, if_neg hzero, if_pos hc]
    exact (passes_number hnext .value_integer).append
      ((passes_digits .any1 (fun _ h ↦ if_pos h) (fun _ ↦ rfl) .value_integer hds).append hrest)

end Whole

theorem passes_fraction {state : NumberState} (hnext : state.next '.' = some .decimal1)
    (type : NumberType) {ds : Str} (hds : ∀ c ∈ ds, c.isDigit) (hne : ds ≠ []) :
    Passes ('.' :: ds) (.number state type) (.number .decimal2 .value_float) ('.' :: ds) := by
  obtain ⟨c, rest, rfl⟩ := List.exists_cons_of_ne_nil hne
  obtain ⟨hc, hrest⟩ := List.forall_mem_cons.mp hds
  have hfirst : NumberState.decimal1.next c = some .decimal2 := if_pos hc
  exact (passes_number hnext type).append ((passes_number hfirst .value_float).append
    (passes_digits .decimal2 (fun _ h ↦ if_pos h) (fun _ ↦ rfl) .value_float hrest))

theorem passes_exponent {state : NumberState} (hnext : state.next 'e' = some .exponent)
    (type : NumberType) {e : ℤ} (he : e.natAbs < 1000) :
    Passes ('e' :: append_exponent e) (.number state type) (.number .any2 .value_float)
      ('e' :: append_exponent e) := by
  have hdigits := isDigit_append_exponent he
  obtain ⟨sign, c, rest, htext, hsign⟩ : ∃ sign c rest, append_exponent e = sign :: c :: rest ∧
      (sign = '+' ∨ sign = '-') := by
    rw [append_exponent]
    split_ifs <;> exact ⟨_, _, _, rfl, by decide⟩
  rw [htext] at hdigits ⊢
  obtain ⟨hc, hrest⟩ := List.forall_mem_cons.mp hdigits
  have hfirst : NumberState.exponent.next sign = some .sign := if_pos hsign
  have hsecond : NumberState.sign.next c = some .any2 := if_pos hc
  exact (passes_number hnext type).append ((passes_number hfirst .value_float).append
    ((passes_number hsecond .value_float).append
      (passes_digits .any2 (fun _ h ↦ if_pos h) (fun _ ↦ rfl) .value_float hrest)))

/-- What stands after the digits before the point. -/
theorem FloatText.WellFormed.passes {t : FloatText} (h : t.WellFormed) {state : NumberState}
    (hpoint : state.next '.' = some .decimal1) (hexponent : state.next 'e' = some .exponent)
    (type : NumberType) : ∃ state', Passes
      ((if t.fraction = [] then [] else '.' :: t.fraction) ++ FloatText.exponentText t.exponent)
      (.number state type) (.number state' .value_float)
      ((if t.fraction = [] then [] else '.' :: t.fraction) ++ FloatText.exponentText t.exponent) ∧
      state'.error = none := by
  obtain ⟨whole, fraction, exponent⟩ := t
  cases exponent with
  | none =>
    have hne : fraction ≠ [] := h.float.resolve_right (by simp)
    simp only [if_neg hne, FloatText.exponentText, List.append_nil]
    exact ⟨.decimal2, passes_fraction hpoint type h.fraction hne, rfl⟩
  | some e =>
    have he := h.exponent e rfl
    by_cases hnil : fraction = []
    · simp only [if_pos hnil, List.nil_append, FloatText.exponentText]
      exact ⟨.any2, passes_exponent hexponent type he, rfl⟩
    · have hafter : NumberState.decimal2.next 'e' = some .exponent := rfl
      simp only [if_neg hnil, FloatText.exponentText]
      exact ⟨.any2, (passes_fraction hpoint type h.fraction hnil).append
        (passes_exponent hafter .value_float he), rfl⟩

theorem readsNumber_float {q : ℚ} (h : toDouble q = some q) :
    ReadsNumber (dump_float q) .value_float := by
  by_cases hq : q = 0
  · subst hq
    have hzero : ReadsNumber (['0'] ++ '.' :: ['0']) .value_float :=
      Whole.zero.reads
        (passes_fraction rfl .value_unsigned (isDigit_zeros 1) (List.cons_ne_nil _ _)) rfl
    exact hzero
  · obtain ⟨t, ht, htext, -⟩ := to_chars_text hq h
    obtain ⟨state, hwhole⟩ := Whole.of_leading ht.whole ht.leading
    rw [dump_float, htext]
    split_ifs
    · obtain ⟨state', hpasses, hfinal⟩ :=
        ht.passes hwhole.next_point hwhole.next_exponent .value_integer
      exact hwhole.reads_minus hpasses hfinal
    · obtain ⟨state', hpasses, hfinal⟩ :=
        ht.passes hwhole.next_point hwhole.next_exponent .value_unsigned
      exact hwhole.reads hpasses hfinal

theorem ofNat_leading {n : ℕ} (hn : n ≠ 0) : (Str.ofNat n).head? ≠ some '0' := by
  have hdigit : ∀ d < 10, d ≠ 0 → Nat.digitChar d ≠ '0' := by decide
  induction n using Nat.strong_induction_on with
  | _ n ih =>
    rcases Nat.lt_or_ge n 10 with hlt | hge
    · rw [ofNat_of_lt hlt, List.head?_cons]
      intro h
      exact hdigit n hlt hn (Option.some.inj h)
    · rw [ofNat_of_le hge, List.head?_append_of_ne_nil _ (Str.ofNat_ne_nil _)]
      exact ih (n / 10) (by omega) (by omega)

theorem whole_ofNat (n : ℕ) : ∃ state, Whole (Str.ofNat n) state := by
  apply Whole.of_leading (fun _ hc ↦ Str.isDigit_ofNat hc)
  by_cases hn : n = 0
  · subst hn
    exact .inl rfl
  · exact .inr ⟨Str.ofNat_ne_nil n, ofNat_leading hn⟩

theorem readsNumber_ofNat (n : ℕ) : ReadsNumber (Str.ofNat n) .value_unsigned := by
  obtain ⟨state, hwhole⟩ := whole_ofNat n
  have h := hwhole.reads (Passes.nil (.number state .value_unsigned)) hwhole.final
  rwa [List.append_nil] at h

theorem readsNumber_negSucc (n : ℕ) :
    ReadsNumber ('-' :: Str.ofNat (n + 1)) .value_integer := by
  obtain ⟨state, hwhole⟩ := whole_ofNat (n + 1)
  have h := hwhole.reads_minus (Passes.nil (.number state .value_integer)) hwhole.final
  rwa [List.append_nil] at h

end Numbers

section Values

/-- What can follow a value in a text without blanks. -/
def Delimiter (c : Option Char) : Prop := c = none ∨ c = some ',' ∨ c = some ']' ∨ c = some '\x7d'

/-- The parser has come to a turn, though a number may still be open: to what follows a value it
does what it would do after the turn. -/
def Reached (p : Parser) (turn : Turn) : Prop :=
  ∀ c, Delimiter c → ∃ l q, turn.resume l = .running q ∧ p.feed c = q.feed c

/-- Where a value is expected next. -/
def Awaits (expecting : Expecting) (stack stack' : List Frame) : Prop :=
  ∀ t l, t ≠ .end_array → expecting.turn stack t l = parse_value stack' t l

/-- From wherever a value is expected, the text is read as it. -/
def Delivers (text : Str) (v : Json) : Prop :=
  ∀ expecting stack stack', Awaits expecting stack stack' → ∀ l, ∃ p,
    text.foldl Progress.feed (.running ⟨expecting, stack, .whitespace, l⟩) = .running p ∧
      Reached p (complete v stack')

theorem awaits_value (stack : List Frame) : Awaits .value stack stack := fun _ _ _ ↦ rfl

theorem awaits_firstItem (stack : List Frame) : Awaits .firstItem stack (.array [] :: stack) := by
  intro t l ht
  cases t <;> first | rfl | exact absurd rfl ht

theorem reached_of_resume {turn : Turn} {l : Lexer} {p : Parser} (h : turn.resume l = .running p) :
    Reached p turn :=
  fun _ _ ↦ ⟨l, p, h, rfl⟩

theorem complete_expects (v : Json) (stack : List Frame) :
    ∃ expecting stack', complete v stack = .expects expecting stack' := by
  cases stack with
  | nil => exact ⟨_, _, rfl⟩
  | cons frame stack => cases frame <;> exact ⟨_, _, rfl⟩

theorem complete_resume (v : Json) (stack : List Frame) (l : Lexer) :
    ∃ p, (complete v stack).resume l = .running p := by
  obtain ⟨expecting, stack', h⟩ := complete_expects v stack
  rw [h]
  exact ⟨_, rfl⟩

theorem feed_token {p : Parser} {c : Char} {t : Token} {l : Lexer}
    (h : p.scan.read (p.lexer.get (some c)) (some c) = .token t l) :
    (Progress.running p).feed c = (p.expecting.turn p.stack t l).resume l := by
  rw [Progress.feed, Parser.feed, h]

/-- A token that is complete with its last byte. -/
theorem delivers_of_token {text : Str} {c : Char} {scan : Scan} {t : Token} {v : Json}
    (hrun : ∀ expecting stack l, ∃ l' l'', text.foldl Progress.feed
      (.running ⟨expecting, stack, .whitespace, l⟩) = .running ⟨expecting, stack, scan, l'⟩ ∧
        scan.read (l'.get (some c)) (some c) = .token t l'')
    (ht : t ≠ .end_array) (hv : ∀ stack l, parse_value stack t l = complete v stack) :
    Delivers (text ++ [c]) v := by
  intro expecting stack stack' hawaits l
  obtain ⟨l', l'', htext, htoken⟩ := hrun expecting stack l
  obtain ⟨p, hp⟩ := complete_resume v stack' l''
  refine ⟨p, ?_, reached_of_resume hp⟩
  rw [List.foldl_append, htext, List.foldl_cons, List.foldl_nil, feed_token htoken,
    hawaits t l'' ht, hv, hp]

theorem next_delimiter (state : NumberState) {c : Option Char} (hc : Delimiter c) :
    c.bind state.next = none := by
  rcases hc with rfl | rfl | rfl | rfl <;> cases state <;> rfl

theorem feed_delimiter {expecting expecting' : Expecting} {stack stack' : List Frame}
    {state : NumberState} {type : NumberType} {l : Lexer} (hfinal : state.error = none)
    (hturn : ∀ l', expecting.turn stack (numberToken type l.token_buffer) l' =
      .expects expecting' stack') {c : Option Char} (hc : Delimiter c) :
    ∃ l', Parser.feed ⟨expecting, stack, .number state type, l⟩ c =
      Parser.feed ⟨expecting', stack', .whitespace, l'⟩ c := by
  have hread : (l.get c).scan_number state type c =
      .ungot (numberToken type l.token_buffer) ((l.get c).unget c) := by
    unfold Lexer.scan_number
    rw [next_delimiter state hc, hfinal, get_token_buffer]
    cases c <;> rfl
  refine ⟨(l.get c).unget c, ?_⟩
  simp only [Parser.feed, Scan.read, hread, hturn, Turn.reread]
  rcases (((l.get c).unget c).get c).skip_whitespace c with ⟨scan | t, l'⟩ <;> rfl

theorem delivers_of_number {text : Str} {type : NumberType} {v : Json}
    (hread : ReadsNumber text type)
    (hv : ∀ stack l, parse_value stack (numberToken type text) l = complete v stack)
    (htoken : numberToken type text ≠ .end_array) : Delivers text v := by
  intro expecting stack stack' hawaits l
  obtain ⟨state, l', htext, hbuffer, hfinal⟩ := hread expecting stack l
  obtain ⟨expecting', stack'', hcomplete⟩ := complete_expects v stack'
  refine ⟨_, htext, ?_⟩
  intro c hc
  have hturn : ∀ l'', expecting.turn stack (numberToken type l'.token_buffer) l'' =
      .expects expecting' stack'' := by
    intro l''
    rw [hbuffer, hawaits _ l'' htoken, hv, hcomplete]
  obtain ⟨l'', hfeed⟩ := feed_delimiter hfinal hturn hc
  refine ⟨l'', _, ?_, hfeed⟩
  rw [hcomplete]
  rfl

theorem delivers_literal (which : Literal) {v : Json}
    (hv : ∀ stack l, parse_value stack which.token l = complete v stack) :
    Delivers which.text v := by
  have hsplit : which.text.dropLast ++ [which.text.getLastD ' '] = which.text := by
    cases which <;> rfl
  have htoken : which.token ≠ .end_array := by
    cases which <;> simp [Literal.token]
  have hrun : ∀ expecting stack l, ∃ l' l'', which.text.dropLast.foldl Progress.feed
      (.running ⟨expecting, stack, .whitespace, l⟩) =
        .running ⟨expecting, stack, .literal which (which.text.length - 1), l'⟩ ∧
          (Scan.literal which (which.text.length - 1)).read
            (l'.get (some (which.text.getLastD ' '))) (some (which.text.getLastD ' ')) =
              .token which.token l'' := by
    cases which <;> exact fun _ _ _ ↦ ⟨_, _, rfl, rfl⟩
  rw [← hsplit]
  exact delivers_of_token hrun htoken hv

/-- A string up to its closing quote. -/
theorem quoted_run {s : Str} (hs : Utf8.Valid s) (expecting : Expecting) (stack : List Frame)
    (l : Lexer) : ∃ l' l'', ('"' :: s.flatMap escape).foldl Progress.feed
      (.running ⟨expecting, stack, .whitespace, l⟩) = .running ⟨expecting, stack, .string, l'⟩ ∧
        Scan.string.read (l'.get (some '"')) (some '"') = .token (.value_string s) l'' := by
  have hfinal : s.foldl Utf8.step .accept = .accept := hs
  have hreject : s.foldl Utf8.step .accept ≠ .reject := by
    rw [hfinal]
    decide
  have hpasses := passes_string s hreject
  rw [hfinal] at hpasses
  obtain ⟨l', hrun, hbuffer⟩ := hpasses expecting stack ((l.get (some '"')).reset '"')
  refine ⟨l', l'.get (some '"'), hrun, ?_⟩
  have hs : (l'.get (some '"')).token_buffer = s := (get_token_buffer _ _).trans hbuffer
  rw [Scan.read, Lexer.scan_string, if_pos rfl, hs]

theorem delivers_string {s : Str} (hs : Utf8.Valid s) :
    Delivers ('"' :: s.flatMap escape ++ ['"']) (.string s) := by
  apply delivers_of_token (quoted_run hs)
  · simp
  · exact fun _ _ ↦ rfl

theorem delivers_unsigned {n : ℕ} (hn : n < 2 ^ 64) :
    Delivers (Str.ofNat n) (.number_unsigned n) := by
  have htoken : numberToken .value_unsigned (Str.ofNat n) = .value_unsigned n := by
    rw [numberToken, natOf, Str.ofDigitChars_ofNat, if_pos hn]
  apply delivers_of_number (readsNumber_ofNat n)
  · intro stack l
    rw [htoken]
    rfl
  · simp [htoken]

theorem delivers_negative {n : ℕ} (hn : n + 1 ≤ 2 ^ 63) :
    Delivers ('-' :: Str.ofNat (n + 1)) (.number_integer (.negSucc n)) := by
  have htoken : numberToken .value_integer ('-' :: Str.ofNat (n + 1)) =
      .value_integer (.negSucc n) := by
    rw [numberToken, List.tail_cons, natOf, Str.ofDigitChars_ofNat, if_pos hn]
    rfl
  apply delivers_of_number (readsNumber_negSucc n)
  · intro stack l
    rw [htoken]
    rfl
  · simp [htoken]

theorem delivers_float {q : ℚ} (h : toDouble q = some q) :
    Delivers (dump_float q) (.number_float q) := by
  have htoken : numberToken .value_float (dump_float q) = .value_float (some q) :=
    congrArg Token.value_float (strtod_dump_float h)
  apply delivers_of_number (readsNumber_float h)
  · intro stack l
    rw [htoken]
    rfl
  · simp [htoken]

mutual

/-- What comes back: an integer that is not negative is read as unsigned. -/
def canonical : Json → Json
  | .object entries => .object (canonicalEntries entries)
  | .array items => .array (canonicalItems items)
  | .number_integer (.ofNat n) => .number_unsigned n
  | j => j

def canonicalItems : List Json → List Json
  | [] => []
  | item :: items => canonical item :: canonicalItems items

def canonicalEntries : List (Str × Json) → List (Str × Json)
  | [] => []
  | (key, v) :: entries => (key, canonical v) :: canonicalEntries entries

end

end Values

section Containers

variable {expecting : Expecting} {stack stack' : List Frame}

theorem feed_reached {p : Parser} (h : Reached p (.expects expecting stack)) {c : Char}
    (hc : Delimiter (some c)) : ∃ l, (Progress.running p).feed c =
      (Progress.running ⟨expecting, stack, .whitespace, l⟩).feed c := by
  obtain ⟨l, q, hq, hfeed⟩ := h (some c) hc
  refine ⟨l, ?_⟩
  rw [Turn.resume] at hq
  obtain rfl := Progress.running.inj hq
  exact hfeed

theorem delimiter_comma : Delimiter (some ',') := .inr (.inl rfl)

theorem delimiter_bracket : Delimiter (some ']') := .inr (.inr (.inl rfl))

theorem delimiter_brace : Delimiter (some '\x7d') := .inr (.inr (.inr rfl))

/-- The items of an array, after some that have been read. -/
theorem items_read {items : List Json} (hne : items ≠ [])
    (h : ∀ item ∈ items, Delivers (print item) (canonical item)) {before : List Json}
    (hawaits : Awaits expecting stack (.array before :: stack')) (l : Lexer) :
    ∃ p, (printItems items ++ [']']).foldl Progress.feed
      (.running ⟨expecting, stack, .whitespace, l⟩) = .running p ∧
        Reached p (complete (.array (before ++ canonicalItems items)) stack') := by
  induction items generalizing before expecting stack l with
  | nil => exact absurd rfl hne
  | cons item items ih =>
    obtain ⟨hitem, hitems⟩ := List.forall_mem_cons.mp h
    obtain ⟨p, hrun, hreached⟩ := hitem _ _ _ hawaits l
    rw [printItems, List.append_assoc, List.append_assoc, List.foldl_append, hrun]
    by_cases hnil : items = []
    · subst hnil
      obtain ⟨l', hfeed⟩ := feed_reached hreached delimiter_bracket
      obtain ⟨q, hq⟩ := complete_resume (.array (before ++ [canonical item])) stack'
        (l'.get (some ']'))
      exact ⟨q, hfeed.trans hq, reached_of_resume hq⟩
    · obtain ⟨l', hfeed⟩ := feed_reached hreached delimiter_comma
      obtain ⟨q, hq, hreached'⟩ := ih hnil hitems
        (awaits_value (.array (before ++ [canonical item]) :: stack')) (l'.get (some ','))
      refine ⟨q, ?_, ?_⟩
      · rw [if_neg (by simpa using hnil), List.singleton_append, List.foldl_cons, hfeed, ← hq]
        rfl
      · rwa [List.append_assoc] at hreached'

theorem delivers_array {items : List Json}
    (h : ∀ item ∈ items, Delivers (print item) (canonical item)) :
    Delivers (print (.array items)) (canonical (.array items)) := by
  intro expecting stack stack' hawaits l
  have hbegin : (Progress.running ⟨expecting, stack, .whitespace, l⟩).feed '[' =
      .running ⟨.firstItem, stack', .whitespace, l.get (some '[')⟩ := by
    rw [feed_token rfl, hawaits _ _ (by simp)]
    rfl
  rw [print, canonical, List.cons_append, List.foldl_cons, hbegin]
  by_cases hnil : items = []
  · subst hnil
    obtain ⟨q, hq⟩ := complete_resume (.array []) stack' ((l.get (some '[')).get (some ']'))
    exact ⟨q, hq, reached_of_resume hq⟩
  · exact items_read hnil h (awaits_firstItem stack') _

theorem upsertIn_last {entries : List (Str × Json)} {key : Str} (v : Json)
    (h : ∀ e ∈ entries, e.1 < key) :
    OrderedMap.upsertIn key (fun _ ↦ v) entries = entries ++ [(key, v)] := by
  induction entries with
  | nil => rfl
  | cons e entries ih =>
    obtain ⟨he, hentries⟩ := List.forall_mem_cons.mp h
    rw [OrderedMap.upsertIn, if_neg he.not_gt, if_neg he.ne, ih hentries, List.cons_append]

/-- The name of an entry, with the colon. -/
theorem name_read {key : Str} (hkey : Utf8.Valid key) {before : List (Str × Json)}
    (hexpects : ∀ l, expecting.turn stack (.value_string key) l =
      .expects (.separator before key) stack) (l : Lexer) :
    ∃ l', ('"' :: key.flatMap escape ++ ['"', ':']).foldl Progress.feed
      (.running ⟨expecting, stack, .whitespace, l⟩) =
        .running ⟨.value, .object before key :: stack, .whitespace, l'⟩ := by
  obtain ⟨l', l'', hrun, htoken⟩ := quoted_run hkey expecting stack l
  have hquote : (Progress.running ⟨expecting, stack, .string, l'⟩).feed '"' =
      .running ⟨.separator before key, stack, .whitespace, l''⟩ := by
    rw [feed_token htoken, hexpects]
    rfl
  refine ⟨l''.get (some ':'), ?_⟩
  rw [List.foldl_append, hrun, List.foldl_cons, hquote]
  rfl

/-- The entries of an object, after those that have been read, which come before in the order. -/
theorem entries_read {entries : List (Str × Json)} (hne : entries ≠ [])
    (h : ∀ e ∈ entries, Utf8.Valid e.1 ∧ Delivers (print e.2) (canonical e.2))
    (hsorted : entries.Pairwise (fun a b ↦ a.1 < b.1)) {before : List (Str × Json)}
    (hbefore : ∀ b ∈ before, ∀ e ∈ entries, b.1 < e.1)
    (hexpects : ∀ key l, expecting.turn stack (.value_string key) l =
      .expects (.separator before key) stack) (l : Lexer) :
    ∃ p, (printEntries entries ++ ['\x7d']).foldl Progress.feed
      (.running ⟨expecting, stack, .whitespace, l⟩) = .running p ∧
        Reached p (complete (.object (before ++ canonicalEntries entries)) stack) := by
  induction entries generalizing before expecting l with
  | nil => exact absurd rfl hne
  | cons e entries ih =>
    obtain ⟨key, v⟩ := e
    obtain ⟨⟨hkey, hvalue⟩, hentries⟩ := List.forall_mem_cons.mp h
    obtain ⟨hfirst, hsorted⟩ := List.pairwise_cons.mp hsorted
    obtain ⟨l', hname⟩ := name_read hkey (hexpects key) l
    obtain ⟨p, hrun, hreached⟩ := hvalue _ _ _ (awaits_value (.object before key :: stack)) l'
    have hlast : ∀ b ∈ before, b.1 < key := fun b hb ↦ hbefore b hb _ List.mem_cons_self
    rw [complete, upsertIn_last _ hlast] at hreached
    have htext : printEntries ((key, v) :: entries) ++ ['\x7d'] =
        ('"' :: key.flatMap escape ++ ['"', ':']) ++ (print v ++
          ((if entries.isEmpty then [] else [',']) ++ (printEntries entries ++ ['\x7d']))) := by
      simp [printEntries]
    rw [htext, List.foldl_append, hname, List.foldl_append, hrun]
    by_cases hnil : entries = []
    · subst hnil
      obtain ⟨l'', hfeed⟩ := feed_reached hreached delimiter_brace
      obtain ⟨q, hq⟩ := complete_resume (.object (before ++ [(key, canonical v)])) stack
        (l''.get (some '\x7d'))
      exact ⟨q, hfeed.trans hq, reached_of_resume hq⟩
    · obtain ⟨l'', hfeed⟩ := feed_reached hreached delimiter_comma
      have hbefore' : ∀ b ∈ before ++ [(key, canonical v)], ∀ e ∈ entries, b.1 < e.1 := by
        intro b hb e he
        rcases List.mem_append.mp hb with hb | hb
        · exact hbefore b hb e (List.mem_cons_of_mem _ he)
        · rw [List.mem_singleton.mp hb]
          exact hfirst e he
      have hnext : ∀ name l, (Expecting.nextKey (before ++ [(key, canonical v)])).turn stack
          (.value_string name) l =
            .expects (.separator (before ++ [(key, canonical v)]) name) stack := fun _ _ ↦ rfl
      obtain ⟨q, hq, hreached'⟩ := ih hnil hentries hsorted hbefore' hnext (l''.get (some ','))
      refine ⟨q, ?_, ?_⟩
      · rw [if_neg (by simpa using hnil), List.singleton_append, List.foldl_cons, hfeed, ← hq]
        rfl
      · rwa [List.append_assoc] at hreached'

theorem delivers_object {entries : List (Str × Json)}
    (h : ∀ e ∈ entries, Utf8.Valid e.1 ∧ Delivers (print e.2) (canonical e.2))
    (hsorted : entries.Pairwise (fun a b ↦ a.1 < b.1)) :
    Delivers (print (.object entries)) (canonical (.object entries)) := by
  intro expecting stack stack' hawaits l
  have hbegin : (Progress.running ⟨expecting, stack, .whitespace, l⟩).feed '\x7b' =
      .running ⟨.firstKey, stack', .whitespace, l.get (some '\x7b')⟩ := by
    rw [feed_token rfl, hawaits _ _ (by simp)]
    rfl
  rw [print, canonical, List.cons_append, List.foldl_cons, hbegin]
  by_cases hnil : entries = []
  · subst hnil
    obtain ⟨q, hq⟩ := complete_resume (.object []) stack' ((l.get (some '\x7b')).get (some '\x7d'))
    exact ⟨q, hq, reached_of_resume hq⟩
  · have hnone : ∀ b ∈ ([] : List (Str × Json)), ∀ e ∈ entries, b.1 < e.1 := by simp
    have hexpects : ∀ key l, Expecting.firstKey.turn stack' (.value_string key) l =
        .expects (.separator [] key) stack' := fun _ _ ↦ rfl
    exact entries_read hnil h hsorted hnone hexpects _

end Containers

section RoundTrip

mutual

/-- The text of a value is read as it, wherever a value is expected. -/
theorem delivers_print : ∀ {j : Json}, Representable j → j.Valid → Delivers (print j) (canonical j)
  | .object entries, h, hvalid =>
    delivers_object (entries_deliver h.2 (Json.Valid.object_iff.mp hvalid)) h.1
  | .array items, h, hvalid => delivers_array (items_deliver h (Json.Valid.array_iff.mp hvalid))
  | .string s, _, hvalid => delivers_string (Json.Valid.string_iff.mp hvalid)
  | .boolean true, _, _ => delivers_literal .true_literal fun _ _ ↦ rfl
  | .boolean false, _, _ => delivers_literal .false_literal fun _ _ ↦ rfl
  | .number_integer (.ofNat n), h, _ => by
    have hsize : (n : ℤ) < 2 ^ 63 := h.2
    exact delivers_unsigned (n := n) (by omega)
  | .number_integer (.negSucc n), h, _ => by
    have hsize : -2 ^ 63 ≤ Int.negSucc n := h.1
    exact delivers_negative (n := n) (by omega)
  | .number_unsigned _, h, _ => delivers_unsigned h
  | .number_float _, h, _ => delivers_float h
  | .null, _, _ => delivers_literal .null_literal fun _ _ ↦ rfl

theorem items_deliver : ∀ {items : List Json}, ItemsRepresentable items →
    (∀ item ∈ items, item.Valid) → ∀ item ∈ items, Delivers (print item) (canonical item)
  | [], _, _ => by simp
  | item :: items, h, hvalid => by
    obtain ⟨hitem, hitems⟩ := List.forall_mem_cons.mp hvalid
    exact List.forall_mem_cons.mpr ⟨delivers_print h.1 hitem, items_deliver h.2 hitems⟩

theorem entries_deliver : ∀ {entries : List (Str × Json)}, EntriesRepresentable entries →
    (∀ e ∈ entries, Utf8.Valid e.1 ∧ e.2.Valid) →
      ∀ e ∈ entries, Utf8.Valid e.1 ∧ Delivers (print e.2) (canonical e.2)
  | [], _, _ => by simp
  | (key, v) :: entries, h, hvalid => by
    obtain ⟨⟨hkey, hv⟩, hentries⟩ := List.forall_mem_cons.mp hvalid
    exact List.forall_mem_cons.mpr
      ⟨⟨hkey, delivers_print h.2.1 hv⟩, entries_deliver h.2.2 hentries⟩

end

/-- A text that does not start like a byte order mark is read from its first byte on. -/
theorem after_eq {c : Char} (hc : c ≠ '\xef') (rest : Str) : ∃ l, after (c :: rest) =
    (c :: rest).foldl Progress.feed (.running ⟨.value, [], .whitespace, l⟩) := by
  refine ⟨(Lexer.new.get (some c)).unget (some c), ?_⟩
  have hne : some c ≠ some '\xef' := fun h ↦ hc (Option.some.inj h)
  rw [after, List.foldl_cons, List.foldl_cons]
  congr 1
  simp only [Progress.feed, Parser.feed, Parser.new, Scan.read, Lexer.skip_bom, if_neg hne]

theorem parse_of_delivers {c : Char} {rest : Str} {v : Json} (h : Delivers (c :: rest) v)
    (hc : c ≠ '\xef') : parse (c :: rest) = .ok v := by
  obtain ⟨l, hafter⟩ := after_eq hc rest
  obtain ⟨p, hrun, hreached⟩ := h _ _ _ (awaits_value []) l
  obtain ⟨l', q, hq, hfeed⟩ := hreached none (.inl rfl)
  rw [complete, Turn.resume] at hq
  obtain rfl := Progress.running.inj hq
  rw [parse_eq, hafter, hrun, Progress.result, hfeed]
  rfl

theorem ofInt_head (n : ℤ) : ∃ c rest, Str.ofInt n = c :: rest ∧ c ≠ '\xef' := by
  obtain ⟨c, rest, htext⟩ := List.exists_cons_of_ne_nil (Str.ofInt_ne_nil n)
  refine ⟨c, rest, htext, ?_⟩
  have hmem : c ∈ Str.ofInt n := by
    rw [htext]
    exact List.mem_cons_self
  rintro rfl
  rcases Str.mem_ofInt hmem with h | h <;> cases h

theorem dump_float_head {q : ℚ} (h : toDouble q = some q) :
    ∃ c rest, dump_float q = c :: rest ∧ c ≠ '\xef' := by
  by_cases hq : q = 0
  · subst hq
    exact ⟨'0', ['.', '0'], rfl, by decide⟩
  · obtain ⟨t, ht, htext, -⟩ := to_chars_text hq h
    obtain ⟨c, rest, hwhole, hc, -⟩ := ht.head
    rw [dump_float, htext]
    split_ifs
    · exact ⟨'-', _, rfl, by decide⟩
    · rw [List.nil_append, FloatText.text, hwhole]
      refine ⟨c, _, List.cons_append, ?_⟩
      rintro rfl
      cases hc

theorem print_head {j : Json} (h : Representable j) :
    ∃ c rest, print j = c :: rest ∧ c ≠ '\xef' := by
  cases j with
  | number_integer n => exact ofInt_head n
  | number_unsigned n => exact ofInt_head n
  | number_float q => exact dump_float_head h
  | boolean b => cases b <;> exact ⟨_, _, rfl, by decide⟩
  | null | string | array | object => exact ⟨_, _, rfl, by decide⟩

/-- What the serializer writes, the parser reads as the value. -/
theorem parse_print {j : Json} (h : Representable j) (hvalid : j.Valid) :
    parse (print j) = .ok (canonical j) := by
  have hdelivers := delivers_print h hvalid
  obtain ⟨c, rest, htext, hc⟩ := print_head h
  rw [htext] at hdelivers ⊢
  exact parse_of_delivers hdelivers hc

theorem canonicalEntries_keys (entries : List (Str × Json)) :
    (canonicalEntries entries).map Prod.fst = entries.map Prod.fst := by
  induction entries with
  | nil => rfl
  | cons e entries ih =>
    obtain ⟨key, v⟩ := e
    rw [canonicalEntries, List.map_cons, List.map_cons, ih]

theorem canonicalEntries_sorted {entries : List (Str × Json)}
    (h : entries.Pairwise (fun a b ↦ a.1 < b.1)) :
    (canonicalEntries entries).Pairwise (fun a b ↦ a.1 < b.1) := by
  have hkeys : (entries.map Prod.fst).Pairwise (· < ·) := List.pairwise_map.mpr h
  rw [← canonicalEntries_keys] at hkeys
  exact List.pairwise_map.mp hkeys

mutual

theorem canonical_representable : ∀ {j : Json}, Representable j → Representable (canonical j)
  | .object _, h => ⟨canonicalEntries_sorted h.1, canonicalEntries_representable h.2⟩
  | .array items, h => canonicalItems_representable h
  | .string _, h | .boolean _, h | .number_integer (.negSucc _), h | .number_unsigned _, h
  | .number_float _, h | .null, h => h
  | .number_integer (.ofNat n), h => by
    have hsize : (n : ℤ) < 2 ^ 63 := h.2
    exact (show n < 2 ^ 64 by omega)

theorem canonicalItems_representable : ∀ {items : List Json}, ItemsRepresentable items →
    ItemsRepresentable (canonicalItems items)
  | [], h => h
  | _ :: _, h => ⟨canonical_representable h.1, canonicalItems_representable h.2⟩

theorem canonicalEntries_representable : ∀ {entries : List (Str × Json)},
    EntriesRepresentable entries → EntriesRepresentable (canonicalEntries entries)
  | [], h => h
  | (_, _) :: _, h =>
    ⟨h.1, canonical_representable h.2.1, canonicalEntries_representable h.2.2⟩

end

mutual

theorem print_canonical : ∀ j : Json, print (canonical j) = print j
  | .object entries => by
    rw [canonical, print, print, printEntries_canonical]
  | .array items => by
    rw [canonical, print, print, printItems_canonical]
  | .string _ | .boolean _ | .number_integer (.negSucc _) | .number_unsigned _ | .number_float _
  | .null => rfl
  | .number_integer (.ofNat n) => rfl

theorem printItems_canonical : ∀ items : List Json,
    printItems (canonicalItems items) = printItems items
  | [] => rfl
  | item :: items => by
    have hempty : (canonicalItems items).isEmpty = items.isEmpty := by cases items <;> rfl
    rw [canonicalItems, printItems, printItems, print_canonical, printItems_canonical, hempty]

theorem printEntries_canonical : ∀ entries : List (Str × Json),
    printEntries (canonicalEntries entries) = printEntries entries
  | [] => rfl
  | (key, v) :: entries => by
    have hempty : (canonicalEntries entries).isEmpty = entries.isEmpty := by
      cases entries <;> simp [canonicalEntries]
    rw [canonicalEntries, printEntries, printEntries, print_canonical, printEntries_canonical,
      hempty]

end

theorem canonicalItems_eq_map (items : List Json) : canonicalItems items = items.map canonical := by
  induction items with
  | nil => rfl
  | cons item items ih => rw [canonicalItems, ih, List.map_cons]

theorem lookupIn_canonicalEntries (key : Str) (entries : List (Str × Json)) :
    OrderedMap.lookupIn key (canonicalEntries entries) =
      (OrderedMap.lookupIn key entries).map canonical := by
  induction entries with
  | nil => rfl
  | cons e entries ih =>
    rw [canonicalEntries, OrderedMap.lookupIn, OrderedMap.lookupIn, ih]
    split_ifs <;> rfl

theorem get_canonical (key : Str) {entries : List (Str × Json)} {v : Json}
    (h : OrderedMap.lookupIn key entries = some v) :
    (canonical (.object entries)).get key = .ok (canonical v) := by
  rw [canonical, Json.get, lookupIn_canonicalEntries, h]
  rfl

theorem valid_roundTrips {j : Json} (h : Representable j) (hvalid : j.Valid) :
    ∃ text, dump j = .ok text ∧ parse text = .ok (canonical j) ∧ dump (canonical j) = .ok text := by
  have hparse := parse_print h hvalid
  have hdump := dump_eq h
  have hagain := dump_eq (canonical_representable h)
  rw [Json.dump_eq_ok.mpr hvalid] at hdump
  rw [Json.dump_eq_ok.mpr (parse_valid hparse), print_canonical] at hagain
  exact ⟨print j, hdump, hparse, hagain⟩

theorem invalid_refused {j : Json} (h : Representable j) (hvalid : ¬ j.Valid) :
    ∃ e, dump j = .error e ∧ j.dump = .error e := by
  have hdump := dump_eq h
  cases hj : j.dump with
  | ok u => exact absurd (Json.dump_eq_ok.mp hj) hvalid
  | error e =>
    rw [hj] at hdump
    exact ⟨e, hdump, rfl⟩

/-- A value with two kinds of numbers, and a text that is not ASCII. -/
def mixedValue : Json :=
  .array [.number_integer (-5), .number_float (1 / 4),
    .object [("name".toList, .string (Str.utf8 "Ж\n"))]]

end RoundTrip

end ServiceSystem.Nlohmann

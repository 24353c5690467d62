import Mathlib.Data.Rat.Floor
import Mathlib.Tactic.Linarith
import Mathlib.Data.List.Forall2

namespace ServiceSystem.Foundations

/-- `std::string`. Nothing here depends on a character being below 256. -/
abbrev Str := List Char

instance (priority := high) Str.lawfulBEq : LawfulBEq Str := inferInstance

section Decidable

variable {α : Type} (p : α → Prop) [DecidablePred p]

/-- A quantifier over the elements of a list is decided along the list, not over all
characters. -/
instance (priority := high) decidableForallMem (l : List α) : Decidable (∀ x ∈ l, p x) :=
  List.decidableBAll p l

instance (priority := high) decidableForallMemOption (o : Option α) : Decidable (∀ x ∈ o, p x) :=
  Option.decidableForallMem o

end Decidable

theorem mapM_eq_some_iff {α β : Type} {f : α → Option β} {l : List α} {l' : List β} :
    l.mapM f = some l' ↔ List.Forall₂ (fun a b ↦ f a = some b) l l' := by
  induction l generalizing l' with
  | nil => cases l' <;> simp
  | cons a l ih =>
    cases l' with
    | nil => simp [List.mapM_cons, Option.bind_eq_some_iff]
    | cons b l' =>
      rw [List.forall₂_cons, ← ih, List.mapM_cons]
      simp [Option.bind_eq_some_iff]

theorem exists_of_mem_mapM {α β : Type} {f : α → Option β} {l : List α} {l' : List β}
    (h : l.mapM f = some l') {b : β} (hb : b ∈ l') : ∃ a ∈ l, f a = some b := by
  have hf := mapM_eq_some_iff.mp h
  clear h
  induction hf with
  | nil => cases hb
  | @cons x y l l' hx _ ih =>
    rcases List.mem_cons.mp hb with rfl | hb
    · exact ⟨x, List.mem_cons_self, hx⟩
    · obtain ⟨a, ha, hab⟩ := ih hb
      exact ⟨a, List.mem_cons_of_mem _ ha, hab⟩

theorem except_bind_eq_ok {ε α β : Type} {x : Except ε α} {f : α → Except ε β} {b : β} :
    (x >>= f) = .ok b ↔ ∃ a, x = .ok a ∧ f a = .ok b := by
  cases x with
  | error e => exact ⟨nofun, nofun⟩
  | ok a => simp [bind, Except.bind]

namespace Str

def encode (c : Char) : Str := (String.utf8EncodeChar c).map fun b ↦ Char.ofNat b.toNat

/-- The bytes of a text that a source file or script spells out. -/
def utf8 (s : String) : Str := s.toList.flatMap encode

def ofNat (n : ℕ) : Str := Nat.toDigits 10 n

def ofInt : ℤ → Str
  | .ofNat n => ofNat n
  | .negSucc n => '-' :: ofNat (n + 1)

theorem isDigit_ofNat {n : ℕ} {c : Char} (h : c ∈ ofNat n) : c.isDigit :=
  Nat.isDigit_of_mem_toDigits (by decide) (by decide) h

theorem ofNat_ne_nil (n : ℕ) : ofNat n ≠ [] := Nat.toDigits_ne_nil

theorem mem_ofInt {n : ℤ} {c : Char} (h : c ∈ ofInt n) : c.isDigit ∨ c = '-' := by
  cases n with
  | ofNat n => exact .inl (isDigit_ofNat h)
  | negSucc n =>
    rcases List.mem_cons.mp h with rfl | h
    · exact .inr rfl
    · exact .inl (isDigit_ofNat h)

theorem ofInt_ne_nil (n : ℤ) : ofInt n ≠ [] := by
  cases n with
  | ofNat n => exact ofNat_ne_nil n
  | negSucc n => exact List.cons_ne_nil _ _

theorem ofDigitChars_ofNat (n : ℕ) : Nat.ofDigitChars 10 (ofNat n) 0 = n :=
  Nat.ofDigitChars_ten_toDigits

def roundHalfEven (q : ℚ) : ℤ :=
  let n := ⌊q⌋
  let r := q - n
  if r < 1 / 2 then n else if 1 / 2 < r then n + 1 else if n % 2 = 0 then n else n + 1

theorem roundHalfEven_natCast (n : ℕ) : roundHalfEven n = n := by
  simp [roundHalfEven]

def zeroPad (width : ℕ) (s : Str) : Str := List.replicate (width - s.length) '0' ++ s

theorem zeroPad_length {width n : ℕ} (hw : 0 < width) (h : n < 10 ^ width) :
    (zeroPad width (ofNat n)).length = width := by
  have hle : (ofNat n).length ≤ width := (Nat.length_toDigits_le_iff (by decide) hw).mpr h
  rw [zeroPad, List.length_append, List.length_replicate]
  omega

theorem isDigit_zeroPad {width n : ℕ} {c : Char} (h : c ∈ zeroPad width (ofNat n)) : c.isDigit := by
  rcases List.mem_append.mp h with hc | hc
  · rw [List.eq_of_mem_replicate hc]
    decide
  · exact isDigit_ofNat hc

/-- Output through `std::fixed << std::setprecision(precision)`. -/
def fixed (precision : ℕ) (q : ℚ) : Str :=
  let n := (roundHalfEven (|q| * 10 ^ precision)).toNat
  (if q < 0 then ['-'] else []) ++ ofNat (n / 10 ^ precision) ++
    (if precision = 0 then [] else '.' :: zeroPad precision (ofNat (n % 10 ^ precision)))

theorem fixed_zero_natCast (n : ℕ) : fixed 0 n = ofNat n := by
  have h : ¬ (n : ℚ) < 0 := not_lt.mpr (Nat.cast_nonneg n)
  simp [fixed, h, roundHalfEven_natCast]

theorem fixed_shape (precision : ℕ) (q : ℚ) :
    ∃ sign whole frac, fixed precision q = sign ++ whole ++ frac ∧
      (sign = [] ∨ sign = ['-']) ∧ whole ≠ [] ∧ (∀ c ∈ whole, c.isDigit) ∧
      (frac = [] ∨ ∃ ds, frac = '.' :: ds ∧ ds ≠ [] ∧ ∀ c ∈ ds, c.isDigit) := by
  refine ⟨_, _, _, rfl, ?_, ofNat_ne_nil _, fun c ↦ isDigit_ofNat, ?_⟩
  · split_ifs <;> simp
  · split_ifs
    · exact .inl rfl
    · refine .inr ⟨_, rfl, ?_, ?_⟩
      · simp [zeroPad, ofNat_ne_nil]
      · exact fun c hc ↦ isDigit_zeroPad hc

theorem mem_fixed {precision : ℕ} {q : ℚ} {c : Char} (h : c ∈ fixed precision q) :
    c.isDigit ∨ c = '-' ∨ c = '.' := by
  obtain ⟨sign, whole, frac, he, hsign, -, hwhole, hfrac⟩ := fixed_shape precision q
  rw [he, List.mem_append, List.mem_append] at h
  rcases h with (h | h) | h
  · rcases hsign with rfl | rfl
    · cases h
    · exact .inr (.inl (List.mem_singleton.mp h))
  · exact .inl (hwhole c h)
  · rcases hfrac with rfl | ⟨ds, rfl, -, hds⟩
    · cases h
    · rcases List.mem_cons.mp h with h | h
      · exact .inr (.inr h)
      · exact .inl (hds c h)

/-- The lines a text is made of, each ended by a newline, and what follows the last one. -/
def splitLines : Str → List Str × Str
  | [] => ([], [])
  | c :: cs =>
    if c = '\n' then ([] :: (splitLines cs).1, (splitLines cs).2)
    else match splitLines cs with
      | ([], rest) => ([], c :: rest)
      | (l :: ls, rest) => ((c :: l) :: ls, rest)

theorem splitLines_append {l : Str} (h : '\n' ∉ l) (s : Str) :
    splitLines (l ++ '\n' :: s) = (l :: (splitLines s).1, (splitLines s).2) := by
  induction l with
  | nil => simp [splitLines]
  | cons c l ih =>
    obtain ⟨hc, hl⟩ : '\n' ≠ c ∧ '\n' ∉ l := by simpa using h
    rw [List.cons_append, splitLines, if_neg hc.symm, ih hl]

theorem splitLines_flatMap {α : Type} (f : α → Str) (xs : List α) (h : ∀ x ∈ xs, '\n' ∉ f x) :
    splitLines (xs.flatMap (fun x ↦ f x ++ ['\n'])) = (xs.map f, []) := by
  induction xs with
  | nil => rfl
  | cons x xs ih =>
    have hx := h x (by simp)
    have hxs := ih (fun y hy ↦ h y (by simp [hy]))
    rw [List.flatMap_cons, List.append_assoc, List.singleton_append, splitLines_append hx, hxs]
    rfl

theorem splitLines_cons_newline (s : Str) :
    splitLines ('\n' :: s) = ([] :: (splitLines s).1, (splitLines s).2) := by simp [splitLines]

theorem newline_notMem_splitLines (s : Str) : ∀ l ∈ (splitLines s).1, '\n' ∉ l := by
  induction s with
  | nil => simp [splitLines]
  | cons c s ih =>
    by_cases hc : c = '\n'
    · subst hc
      simpa [splitLines_cons_newline] using ih
    · rw [splitLines, if_neg hc]
      rcases hs : splitLines s with ⟨_ | ⟨l, ls⟩, rest⟩
      · simp
      · rw [hs] at ih
        simp only [List.mem_cons, forall_eq_or_imp] at ih ⊢
        exact ⟨by simp [Ne.symm hc, ih.1], ih.2⟩

theorem splitLines_append_of_ended {s : Str} (h : (splitLines s).2 = []) (t : Str) :
    splitLines (s ++ t) = ((splitLines s).1 ++ (splitLines t).1, (splitLines t).2) := by
  induction s with
  | nil => rfl
  | cons c s ih =>
    by_cases hc : c = '\n'
    · subst hc
      rw [splitLines_cons_newline] at h ⊢
      rw [List.cons_append, splitLines_cons_newline, ih h]
      rfl
    · rw [splitLines, if_neg hc] at h ⊢
      rw [List.cons_append, splitLines, if_neg hc]
      rcases hs : splitLines s with ⟨_ | ⟨l, ls⟩, rest⟩
      · simp [hs] at h
      · rw [hs] at h ih
        rw [ih h]
        rfl

theorem ended_newline (s : Str) : (splitLines (s ++ ['\n'])).2 = [] := by
  have h : ∃ l ls, splitLines (s ++ ['\n']) = (l :: ls, []) := by
    induction s with
    | nil => exact ⟨[], [], rfl⟩
    | cons c s ih =>
      obtain ⟨l, ls, hs⟩ := ih
      rw [List.cons_append, splitLines, hs]
      split_ifs
      · exact ⟨[], l :: ls, rfl⟩
      · exact ⟨c :: l, ls, rfl⟩
  obtain ⟨l, ls, hs⟩ := h
  rw [hs]

theorem ended_append {s t : Str} (hs : (splitLines s).2 = []) (ht : (splitLines t).2 = []) :
    (splitLines (s ++ t)).2 = [] := by
  rw [splitLines_append_of_ended hs]
  exact ht

theorem ended_flatMap {α : Type} {f : α → Str} {xs : List α}
    (h : ∀ x ∈ xs, (splitLines (f x)).2 = []) : (splitLines (xs.flatMap f)).2 = [] := by
  induction xs with
  | nil => rfl
  | cons x xs ih =>
    obtain ⟨hx, hxs⟩ := List.forall_mem_cons.mp h
    exact ended_append hx (ih hxs)

end Str

end ServiceSystem.Foundations

import Mathlib.Data.List.Induction
import ServiceSystem.Nlohmann.Grisu

namespace ServiceSystem.Nlohmann

open Foundations

section Texts

/-- At least two digits, as `printf` has it. -/
def append_exponent (e : ℤ) : Str :=
  let k := e.natAbs
  (if e < 0 then '-' else '+') ::
    if k < 10 then ['0', digit k]
    else if k < 100 then [digit (k / 10), digit (k % 10)]
    else [digit (k / 100), digit (k % 100 / 10), digit (k % 100 % 10)]

/-- What the first `len` bytes of the buffer become, and those after them. -/
def format_buffer (buf : Str) (decimal_exponent min_exp max_exp : ℤ) : Str :=
  let k : ℤ := buf.length
  let n := k + decimal_exponent
  if k ≤ n ∧ n ≤ max_exp then buf ++ List.replicate (n - k).toNat '0' ++ ['.', '0']
  else if 0 < n ∧ n ≤ max_exp then buf.take n.toNat ++ '.' :: buf.drop n.toNat
  else if min_exp < n ∧ n ≤ 0 then '0' :: '.' :: List.replicate (-n).toNat '0' ++ buf
  else (if k = 1 then buf else buf.take 1 ++ '.' :: buf.drop 1) ++ 'e' :: append_exponent (n - 1)

def kMinDecimalExp : ℤ := -4

/-- `digits10` of a double. -/
def kMaxDecimalExp : ℤ := 15

def to_chars (value : ℚ) : Str :=
  (if value < 0 then ['-'] else []) ++
    if value = 0 then "0.0".toList
    else format_buffer (grisu2 |value|).1 (grisu2 |value|).2 kMinDecimalExp kMaxDecimalExp

/-- The floats here are finite. -/
def dump_float (x : ℚ) : Str := to_chars x

end Texts

section Shapes

/-- The parts of the text of a float. -/
structure FloatText where
  whole : Str
  fraction : Str
  exponent : Option ℤ

namespace FloatText

def exponentText : Option ℤ → Str
  | none => []
  | some e => 'e' :: append_exponent e

def text (t : FloatText) : Str :=
  t.whole ++ ((if t.fraction = [] then [] else '.' :: t.fraction) ++ exponentText t.exponent)

def value (t : FloatText) : ℚ :=
  natOf (t.whole ++ t.fraction) * 10 ^ (t.exponent.getD 0 - t.fraction.length)

/-- The grammar of JSON, where something has to tell the number from an integer. -/
structure WellFormed (t : FloatText) : Prop where
  whole : ∀ c ∈ t.whole, c.isDigit
  leading : t.whole = ['0'] ∨ t.whole ≠ [] ∧ t.whole.head? ≠ some '0'
  fraction : ∀ c ∈ t.fraction, c.isDigit
  float : t.fraction ≠ [] ∨ t.exponent.isSome
  exponent : ∀ e ∈ t.exponent, e.natAbs < 1000

end FloatText

theorem natOf_replicate (buf : Str) (k : ℕ) :
    natOf (buf ++ List.replicate k '0') = natOf buf * 10 ^ k := by
  induction k with
  | zero => simp
  | succ k ih =>
    rw [List.replicate_succ', ← List.append_assoc]
    have hzero := natOf_append (buf ++ List.replicate k '0') (show 0 < 10 by decide)
    have hdigit : digit 0 = '0' := rfl
    rw [hdigit, ih] at hzero
    rw [hzero, pow_succ]
    ring

theorem natOf_zeros (k : ℕ) (buf : Str) :
    natOf (List.replicate k '0' ++ buf) = natOf buf := by
  have hzeros : natOf (List.replicate k '0') = 0 :=
    (natOf_replicate [] k).trans (Nat.zero_mul _)
  rw [natOf, Nat.ofDigitChars_append]
  exact congrArg (Nat.ofDigitChars 10 buf) hzeros

theorem isDigit_zeros (k : ℕ) : ∀ c ∈ List.replicate k '0', c.isDigit := by
  intro c hc
  rw [List.eq_of_mem_replicate hc]
  rfl

theorem natOf_append_exponent {e : ℤ} (he : e.natAbs < 1000) :
    natOf (append_exponent e).tail = e.natAbs := by
  have hnil : natOf [] = 0 := rfl
  have h1 : ∀ {a : ℕ}, a < 10 → natOf [digit a] = a := by
    intro a ha
    rw [← List.nil_append [digit a], natOf_append [] ha, hnil]
    omega
  have h2 : ∀ {a b : ℕ}, a < 10 → b < 10 → natOf [digit a, digit b] = 10 * a + b := by
    intro a b ha hb
    rw [show [digit a, digit b] = [digit a] ++ [digit b] from rfl, natOf_append _ hb, h1 ha]
  have hzero : digit 0 = '0' := rfl
  simp only [append_exponent, List.tail_cons]
  split_ifs with hten hhundred
  · rw [← hzero, h2 (by decide) hten]
    omega
  · rw [h2 (by omega) (by omega)]
    omega
  · rw [show ∀ a b c : ℕ, [digit a, digit b, digit c] = [digit a, digit b] ++ [digit c] from
      fun _ _ _ ↦ rfl, natOf_append _ (by omega), h2 (by omega) (by omega)]
    omega

theorem isDigit_append_exponent {e : ℤ} (he : e.natAbs < 1000) :
    ∀ c ∈ (append_exponent e).tail, c.isDigit := by
  have hdigit : ∀ {d : ℕ}, d < 10 → (digit d).isDigit := fun hd ↦ (digit_spec _ hd).1
  simp only [append_exponent, List.tail_cons]
  split_ifs with hten hhundred <;> intro c hc <;>
    simp only [List.mem_cons, List.not_mem_nil, or_false] at hc
  · rcases hc with rfl | rfl
    · rfl
    · exact hdigit hten
  · rcases hc with rfl | rfl <;> exact hdigit (by omega)
  · rcases hc with rfl | rfl | rfl <;> exact hdigit (by omega)

theorem Decimal.ne_nil {buf : Str} {n : ℕ} (h : Decimal buf n) (hn : n ≠ 0) : buf ≠ [] := by
  rintro rfl
  exact hn h.value.symm

namespace FloatText

variable {buf : Str} {n : ℕ}

/-- The digits split at a point, with an exponent that may stand after them. -/
theorem wellFormed_split (h : Decimal buf n) (hn : n ≠ 0) {point : ℕ} (hpoint : 0 < point)
    {exponent : Option ℤ} (hfloat : point < buf.length ∨ exponent.isSome)
    (hexponent : ∀ e ∈ exponent, e.natAbs < 1000) :
    WellFormed ⟨buf.take point, buf.drop point, exponent⟩ where
  whole := fun c hc ↦ h.digits c (List.mem_of_mem_take hc)
  leading := by
    refine .inr ⟨fun hnil ↦ ?_, ?_⟩
    · rcases List.take_eq_nil_iff.mp hnil with hzero | hempty
      · omega
      · exact h.ne_nil hn hempty
    · rw [List.head?_take, if_neg (by omega)]
      exact h.leading
  fraction := fun c hc ↦ h.digits c (List.mem_of_mem_drop hc)
  float := hfloat.imp_left fun hlt hnil ↦ absurd (List.drop_eq_nil_iff.mp hnil) (by omega)
  exponent := hexponent

theorem value_split (h : Decimal buf n) {point : ℕ} (hpoint : point ≤ buf.length)
    (exponent : Option ℤ) :
    value ⟨buf.take point, buf.drop point, exponent⟩ =
      n * 10 ^ (exponent.getD 0 + point - buf.length) := by
  rw [value, List.take_append_drop, h.value, List.length_drop, Nat.cast_sub hpoint]
  congr 2
  ring

end FloatText

/-- Whatever the layout, the text is that of a float, and of the number. -/
theorem format_buffer_spec {buf : Str} {n : ℕ} (h : Decimal buf n) (hn : n ≠ 0)
    {decimal_exponent : ℤ} (min_exp max_exp : ℤ)
    (hexponent : (buf.length + decimal_exponent - 1).natAbs < 1000) :
    ∃ t : FloatText, t.WellFormed ∧ format_buffer buf decimal_exponent min_exp max_exp = t.text ∧
      t.value = n * 10 ^ decimal_exponent := by
  have hlength : 0 < buf.length := List.length_pos_iff.mpr (h.ne_nil hn)
  have hscientific : ∀ {text : Str}, text = FloatText.text ⟨buf.take 1, buf.drop 1,
      some (buf.length + decimal_exponent - 1)⟩ → ∃ t : FloatText, t.WellFormed ∧ text = t.text ∧
        t.value = n * 10 ^ decimal_exponent := by
    intro text htext
    refine ⟨_, FloatText.wellFormed_split h hn Nat.one_pos (.inr rfl) ?_, htext, ?_⟩
    · intro e he
      rwa [← Option.mem_some.mp he]
    · rw [FloatText.value_split h (by omega)]
      congr 2
      simp only [Option.getD_some]
      omega
  simp only [format_buffer]
  split_ifs with hinteger hpoint hsmall hone
  · obtain ⟨j, hj⟩ := Int.eq_ofNat_of_zero_le (show 0 ≤ decimal_exponent by omega)
    have hpad : (buf.length + decimal_exponent - buf.length : ℤ).toNat = j := by omega
    refine ⟨⟨buf ++ List.replicate j '0', ['0'], none⟩, ?_, ?_, ?_⟩
    · constructor
      · exact List.forall_mem_append.mpr ⟨h.digits, isDigit_zeros j⟩
      · refine .inr ⟨fun hnil ↦ h.ne_nil hn (List.append_eq_nil_iff.mp hnil).1, ?_⟩
        rw [List.head?_append_of_ne_nil _ (h.ne_nil hn)]
        exact h.leading
      · exact isDigit_zeros 1
      · exact .inl (List.cons_ne_nil _ _)
      · simp
    · rw [hpad]
      simp [FloatText.text, FloatText.exponentText]
    · rw [FloatText.value, List.append_assoc, ← List.replicate_succ', natOf_replicate, h.value, hj]
      simp only [Option.getD_none, List.length_singleton]
      push_cast
      rw [zpow_natCast, pow_succ]
      norm_num
      ring
  · refine ⟨⟨buf.take (buf.length + decimal_exponent).toNat,
      buf.drop (buf.length + decimal_exponent).toNat, none⟩,
      FloatText.wellFormed_split h hn (by omega) (.inl (by omega)) (by simp), ?_, ?_⟩
    · have hne : buf.drop (buf.length + decimal_exponent).toNat ≠ [] :=
        fun hnil ↦ absurd (List.drop_eq_nil_iff.mp hnil) (by omega)
      simp [FloatText.text, FloatText.exponentText, hne]
    · rw [FloatText.value_split h (by omega)]
      congr 2
      simp only [Option.getD_none]
      omega
  · refine ⟨⟨['0'], List.replicate (-(buf.length + decimal_exponent)).toNat '0' ++ buf, none⟩,
      ?_, ?_, ?_⟩
    · constructor
      · exact isDigit_zeros 1
      · exact .inl rfl
      · exact List.forall_mem_append.mpr ⟨isDigit_zeros _, h.digits⟩
      · exact .inl fun hnil ↦ h.ne_nil hn (List.append_eq_nil_iff.mp hnil).2
      · simp
    · have hne : List.replicate (-(buf.length + decimal_exponent)).toNat '0' ++ buf ≠ [] :=
        fun hnil ↦ h.ne_nil hn (List.append_eq_nil_iff.mp hnil).2
      rw [FloatText.text, if_neg hne]
      simp [FloatText.exponentText]
    · rw [FloatText.value, List.singleton_append, ← List.cons_append, ← List.replicate_succ,
        natOf_zeros, h.value, List.length_append, List.length_replicate]
      congr 2
      simp only [Option.getD_none]
      omega
  · refine hscientific ?_
    have hlength : buf.length ≤ 1 := by omega
    simp [FloatText.text, FloatText.exponentText, List.take_of_length_le hlength,
      List.drop_of_length_le hlength]
  · refine hscientific ?_
    have hne : buf.drop 1 ≠ [] := fun hnil ↦ absurd (List.drop_eq_nil_iff.mp hnil) (by omega)
    rw [FloatText.text, if_neg hne]
    exact List.append_assoc _ _ _

end Shapes

section Values

theorem takeWhile_digits {ds rest : Str} (hds : ∀ c ∈ ds, c.isDigit)
    (hrest : ∀ c ∈ rest.head?, c.isDigit = false) :
    (ds ++ rest).takeWhile Char.isDigit = ds ∧ (ds ++ rest).dropWhile Char.isDigit = rest := by
  rw [List.takeWhile_append_of_pos hds, List.dropWhile_append_of_pos hds]
  cases rest with
  | nil => exact ⟨List.append_nil ds, rfl⟩
  | cons c rest =>
    have hc : ¬ c.isDigit = true := by simpa using hrest c rfl
    rw [List.takeWhile_cons_of_neg hc, List.dropWhile_cons_of_neg hc]
    exact ⟨List.append_nil ds, rfl⟩

theorem valueOf_neg {text : Str} (h : text.head? ≠ some '-') :
    valueOf ('-' :: text) = -valueOf text := by
  have hminus : ('-' :: text).dropWhile (· = '-') = text.dropWhile (· = '-') := rfl
  have hhead : ('-' :: text).head? = some '-' := rfl
  unfold valueOf
  simp only [hminus, if_neg h, if_pos hhead]

namespace FloatText

/-- The exponent as `valueOf` reads it. -/
theorem exponent_value {exponent : Option ℤ} (h : ∀ e ∈ exponent, e.natAbs < 1000) :
    (match exponentText exponent with
      | _ :: '-' :: digits => -(natOf digits : ℤ)
      | _ :: '+' :: digits => natOf digits
      | _ :: digits => natOf digits
      | [] => 0) = exponent.getD 0 := by
  cases exponent with
  | none => rfl
  | some e =>
    have hdigits := natOf_append_exponent (h e rfl)
    have hcons : append_exponent e = (if e < 0 then '-' else '+') :: (append_exponent e).tail := rfl
    rw [exponentText, hcons]
    split_ifs with hneg
    · simp only [hdigits, Option.getD_some]
      rw [Int.ofNat_natAbs_of_nonpos hneg.le, neg_neg]
    · simp only [hdigits, Option.getD_some]
      exact Int.natAbs_of_nonneg (not_lt.mp hneg)

theorem exponentText_head (exponent : Option ℤ) :
    (exponentText exponent).head? ≠ some '.' ∧
      ∀ c ∈ (exponentText exponent).head?, c.isDigit = false := by
  cases exponent with
  | none => simp [exponentText]
  | some e =>
    refine ⟨?_, ?_⟩
    · simp [exponentText]
    · intro c hc
      rw [← Option.mem_some.mp hc]
      rfl

variable {t : FloatText}

theorem WellFormed.head (h : t.WellFormed) :
    ∃ c rest, t.whole = c :: rest ∧ c.isDigit ∧ c ≠ '-' := by
  obtain ⟨c, rest, hwhole⟩ : ∃ c rest, t.whole = c :: rest := by
    rcases h.leading with hzero | ⟨hne, -⟩
    · exact ⟨'0', [], hzero⟩
    · exact List.exists_cons_of_ne_nil hne
  have hc : c.isDigit := by
    apply h.whole
    rw [hwhole]
    exact List.mem_cons_self
  refine ⟨c, rest, hwhole, hc, ?_⟩
  rintro rfl
  cases hc

theorem WellFormed.head_text (h : t.WellFormed) : t.text.head? ≠ some '-' := by
  obtain ⟨c, rest, hwhole, -, hc⟩ := h.head
  rw [text, hwhole]
  simpa using hc

theorem WellFormed.valueOf (h : t.WellFormed) : valueOf t.text = t.value := by
  have hunsigned : t.text.dropWhile (· = '-') = t.text := by
    obtain ⟨c, rest, hwhole, -, hc⟩ := h.head
    rw [text, hwhole]
    exact List.dropWhile_cons_of_neg (by simpa using hc)
  obtain ⟨hpoint, hdigit⟩ := exponentText_head t.exponent
  have hwhole : ∀ c ∈ ((if t.fraction = [] then [] else '.' :: t.fraction) ++
      exponentText t.exponent).head?, c.isDigit = false := by
    split_ifs
    · exact hdigit
    · intro c hc
      rw [← Option.mem_some.mp hc]
      rfl
  simp only [Nlohmann.valueOf, hunsigned, if_neg h.head_text]
  simp only [text, (takeWhile_digits h.whole hwhole).1, (takeWhile_digits h.whole hwhole).2]
  by_cases hfraction : t.fraction = []
  · simp only [if_pos hfraction, List.nil_append, if_neg hpoint]
    rw [value, hfraction]
    exact congrArg (fun e : ℤ ↦ (natOf (t.whole ++ []) : ℚ) * 10 ^ (e - 0))
      (exponent_value h.exponent)
  · simp only [if_neg hfraction, List.cons_append, List.head?_cons, if_true, List.drop_one,
      List.tail_cons, (takeWhile_digits h.fraction hdigit).1, (takeWhile_digits h.fraction hdigit).2]
    exact congrArg (fun e : ℤ ↦ (natOf (t.whole ++ t.fraction) : ℚ) * 10 ^ (e - t.fraction.length))
      (exponent_value h.exponent)

end FloatText

end Values

section Magnitudes

variable {q : ℚ}

theorem natOf_snoc (ds : Str) {c : Char} (hc : c.isDigit) :
    ∃ d < 10, natOf (ds ++ [c]) = 10 * natOf ds + d ∧ (c ≠ '0' → 0 < d) := by
  have hzero : '0'.toNat = 48 := rfl
  have hnine : '9'.toNat = 57 := rfl
  obtain ⟨hlow, hhigh⟩ := Char.isDigit_iff_toNat.mp hc
  refine ⟨c.toNat - '0'.toNat, by omega, ?_, ?_⟩
  · rw [natOf, Nat.ofDigitChars_append, Nat.ofDigitChars_cons, Nat.ofDigitChars_nil]
    rfl
  · intro hne
    have hnat : c.toNat ≠ '0'.toNat := fun h ↦ hne (Char.toNat_inj.mp h)
    omega

/-- The size of a number by the count of its digits. -/
theorem natOf_lt {ds : Str} (hds : ∀ c ∈ ds, c.isDigit) : natOf ds < 10 ^ ds.length := by
  induction ds using List.reverseRecOn with
  | nil => exact Nat.one_pos
  | append_singleton ds c ih =>
    obtain ⟨hds, hc⟩ := List.forall_mem_append.mp hds
    obtain ⟨d, hd, hvalue, -⟩ := natOf_snoc ds (hc c List.mem_cons_self)
    have hlt := ih hds
    rw [hvalue, List.length_append, List.length_singleton, pow_succ]
    omega

theorem le_natOf {ds : Str} (hds : ∀ c ∈ ds, c.isDigit) (hne : ds ≠ [])
    (hleading : ds.head? ≠ some '0') : 10 ^ (ds.length - 1) ≤ natOf ds := by
  induction ds using List.reverseRecOn with
  | nil => exact absurd rfl hne
  | append_singleton ds c ih =>
    obtain ⟨hds, hc⟩ := List.forall_mem_append.mp hds
    obtain ⟨d, hd, hvalue, hpos⟩ := natOf_snoc ds (hc c List.mem_cons_self)
    rw [hvalue, List.length_append, List.length_singleton, Nat.add_sub_cancel]
    by_cases hnil : ds = []
    · subst hnil
      have hc : c ≠ '0' := by simpa using hleading
      exact (hpos hc).trans_le (Nat.le_add_left _ _)
    · rw [List.head?_append_of_ne_nil _ hnil] at hleading
      have hle := ih hds hnil hleading
      have hsucc : ds.length - 1 + 1 = ds.length :=
        Nat.sub_add_cancel (List.length_pos_iff.mpr hnil)
      have hpower := pow_succ 10 (ds.length - 1)
      rw [hsucc] at hpower
      omega

/-- Of a number that is read as a double, the exponent of the first digit has three digits. -/
theorem Decimal.exponent_bound {buf : Str} {n : ℕ} (h : Decimal buf n) (hn : n ≠ 0) {e : ℤ}
    (hq : q ≠ 0) (hread : toDouble (n * 10 ^ e) = some q) :
    (buf.length + e - 1).natAbs < 1000 := by
  have hten : (0 : ℚ) < 10 ^ e := zpow_pos (by norm_num) _
  have hpos : (0 : ℚ) < n := by exact_mod_cast Nat.pos_of_ne_zero hn
  have hlength : 0 < buf.length := List.length_pos_iff.mpr (h.ne_nil hn)
  have hlow : (10 : ℚ) ^ (buf.length + e - 1) ≤ n * 10 ^ e := by
    have hle : 10 ^ (buf.length - 1) ≤ n := h.value ▸ le_natOf h.digits (h.ne_nil hn) h.leading
    have hsplit : (10 : ℚ) ^ (buf.length + e - 1) = (10 ^ (buf.length - 1) : ℕ) * 10 ^ e := by
      push_cast
      rw [← zpow_natCast, ← zpow_add₀ (by norm_num)]
      congr 1
      omega
    rw [hsplit]
    exact mul_le_mul_of_nonneg_right (by exact_mod_cast hle) hten.le
  have hhigh : (n : ℚ) * 10 ^ e < 10 ^ (buf.length + e) := by
    have hlt : n < 10 ^ buf.length := h.value ▸ natOf_lt h.digits
    rw [zpow_add₀ (by norm_num), zpow_natCast]
    exact mul_lt_mul_of_pos_right (by exact_mod_cast hlt) hten
  have hupper : (10 : ℚ) ^ (buf.length + e - 1) < 10 ^ (1000 : ℤ) := by
    have hpower : 2 ^ 1024 < 10 ^ 1000 := by decide +kernel
    refine (hlow.trans_lt (lt_of_toDouble (mul_pos hpos hten) hread)).trans ?_
    exact_mod_cast hpower
  have hlower : (10 : ℚ) ^ (-999 : ℤ) < 10 ^ (buf.length + e) := by
    have hpower : 2 ^ 1076 < 10 ^ 999 := by decide +kernel
    refine lt_trans ?_ ((gt_of_toDouble (mul_pos hpos hten) hq hread).trans hhigh)
    rw [zpow_neg, zpow_neg, inv_lt_inv₀ (by positivity) (by positivity)]
    exact_mod_cast hpower
  have hlt := (zpow_lt_zpow_iff_right₀ (by norm_num)).mp hupper
  have hgt := (zpow_lt_zpow_iff_right₀ (by norm_num)).mp hlower
  omega

end Magnitudes

section RoundTrip

/-- The text of a double that is not 0: a sign, and a float that is read as its absolute value. -/
theorem to_chars_text {q : ℚ} (hq : q ≠ 0) (h : toDouble q = some q) :
    ∃ t : FloatText, t.WellFormed ∧ to_chars q = (if q < 0 then ['-'] else []) ++ t.text ∧
      toDouble t.value = some |q| := by
  have habs : toDouble |q| = some |q| := by
    rcases abs_choice q with hpos | hneg
    · rw [hpos, h]
    · rw [hneg, toDouble_neg, h]
      rfl
  obtain ⟨n, hn, hread⟩ := grisu2_spec (abs_pos.mpr hq) habs
  have hne : n ≠ 0 := by
    rintro rfl
    rw [Nat.cast_zero, zero_mul, toDouble, if_pos rfl] at hread
    exact hq (abs_eq_zero.mp (Option.some.inj hread).symm)
  obtain ⟨t, ht, htext, hvalue⟩ := format_buffer_spec hn hne kMinDecimalExp
    kMaxDecimalExp (hn.exponent_bound hne (abs_ne_zero.mpr hq) hread)
  refine ⟨t, ht, ?_, ?_⟩
  · rw [to_chars, if_neg hq, htext]
  · rw [hvalue, hread]

/-- `strtod` gets back the double that `dump_float` has written. -/
theorem strtod_dump_float {q : ℚ} (h : toDouble q = some q) : strtod (dump_float q) = some q := by
  by_cases hq : q = 0
  · subst hq
    decide +kernel
  · obtain ⟨t, ht, htext, hread⟩ := to_chars_text hq h
    rw [dump_float, strtod, htext]
    split_ifs with hneg
    · rw [List.singleton_append, valueOf_neg ht.head_text, ht.valueOf, toDouble_neg, hread,
        abs_of_neg hneg]
      exact congrArg some (neg_neg q)
    · rw [List.nil_append, ht.valueOf, hread, abs_of_nonneg (not_lt.mp hneg)]

end RoundTrip

end ServiceSystem.Nlohmann

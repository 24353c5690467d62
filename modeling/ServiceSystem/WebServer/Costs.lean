import ServiceSystem.Nlohmann.Parsed
import ServiceSystem.WebServer.Tables

namespace ServiceSystem.WebServer

open Foundations Nlohmann

variable {script : Script} {n : ℤ} {d : ℚ}

/-- A double that is so near to an amount of cents is rounded to it, and has its sign. -/
theorem cents_near (h : |d - n / 100| ≤ 2 ^ (-27 : ℤ)) (hzero : n = 0 → d = 0) :
    ⌊|d| * 100 + 1 / 2⌋ = |n| ∧ (d < 0 ↔ n < 0) ∧ (d = 0 ↔ n = 0) := by
  have hclose : |d - n / 100| < 1 / 200 := by
    have hunit : (2 : ℚ) ^ (-27 : ℤ) < 1 / 200 := by norm_num
    exact h.trans_lt hunit
  obtain ⟨hlow, hhigh⟩ := abs_lt.mp hclose
  rcases lt_trichotomy n 0 with hneg | rfl | hpos
  · have hn : (n : ℚ) ≤ -1 := by
      have hle : n ≤ -1 := by omega
      have hcast := Int.cast_le (R := ℚ).mpr hle
      rwa [Int.cast_neg, Int.cast_one] at hcast
    have hd : d < 0 := by linarith
    refine ⟨?_, iff_of_true hd hneg, iff_of_false hd.ne hneg.ne⟩
    rw [abs_of_neg hd, abs_of_neg hneg, Int.floor_eq_iff]
    push_cast
    constructor <;> linarith
  · rw [hzero rfl]
    norm_num
  · have hn : (1 : ℚ) ≤ n := by exact_mod_cast hpos
    have hd : 0 < d := by linarith
    refine ⟨?_, iff_of_false hd.not_gt hpos.not_gt, iff_of_false hd.ne' hpos.ne'⟩
    rw [abs_of_pos hd, abs_of_pos hpos, Int.floor_eq_iff]
    constructor <;> linarith

/-- The double of an amount that fits in `DECIMAL(10,2)`. -/
theorem cents_toDouble (hn : |n| < 10 ^ 10) : ∃ d, toDouble (n / 100) = some d ∧
    |d - n / 100| ≤ 2 ^ (-27 : ℤ) ∧ (n = 0 → d = 0) := by
  have hsize : |(n : ℚ) / 100| < 2 ^ (27 : ℤ) := by
    have hcast : |(n : ℚ)| < 10 ^ 10 := by exact_mod_cast hn
    rw [abs_div, abs_of_pos (by norm_num : (0 : ℚ) < 100), div_lt_iff₀ (by norm_num)]
    exact hcast.trans (by norm_num)
  obtain ⟨d, hd, herror⟩ := toDouble_error hsize (by decide) (by decide)
  refine ⟨d, hd, herror, ?_⟩
  rintro rfl
  rw [Int.cast_zero, zero_div, toDouble, if_pos rfl] at hd
  exact (Option.some.inj hd).symm

theorem decimal_cents (hn : |n| < 10 ^ 10) (h : |d - n / 100| ≤ 2 ^ (-27 : ℤ))
    (hzero : n = 0 → d = 0) : Database.decimal d = .ok n := by
  obtain ⟨hfloor, hneg, -⟩ := cents_near h hzero
  simp only [Database.decimal, hfloor, if_pos hn, hneg]
  split_ifs with hsign
  · rw [abs_of_neg hsign, neg_neg]
  · rw [abs_of_nonneg (not_lt.mp hsign)]

/-- The page shows such an amount as the database prints it. -/
theorem toFixed_cents (hn : |n| < 10 ^ 10) (h : |d - n / 100| ≤ 2 ^ (-27 : ℤ))
    (hzero : n = 0 → d = 0) : toFixed script 2 d = Str.fixed 2 (n / 100) := by
  obtain ⟨hfloor, hneg, -⟩ := cents_near h hzero
  have hsquare : (10 : ℚ) ^ 2 = 100 := by norm_num
  have hlarge : ¬ 10 ^ 21 ≤ |d| := by
    have hcents : |n| ≤ 10 ^ 10 := hn.le
    have hle : |d| * 100 + 1 / 2 < |n| + 1 := by
      exact_mod_cast (Int.floor_eq_iff.mp hfloor).2
    have hcast : (|n| : ℚ) ≤ 10 ^ 10 := by exact_mod_cast hcents
    push_cast at hle
    rw [not_le]
    linarith
  have hround : Str.roundHalfEven (|(n : ℚ) / 100| * 10 ^ 2) = |n| := by
    have hvalue : |(n : ℚ) / 100| * 10 ^ 2 = (|n| : ℤ) := by
      rw [abs_div, hsquare, Int.cast_abs, abs_of_pos (by norm_num : (0 : ℚ) < 100)]
      exact div_mul_cancel₀ _ (by norm_num)
    rw [hvalue]
    exact roundHalfEven_of_near (by linarith) (by linarith)
  have hsign : (n : ℚ) / 100 < 0 ↔ n < 0 := by
    rw [div_neg_iff]
    norm_num
  rw [toFixed, if_neg hlarge, Str.fixed, hround]
  simp only [hsquare, hfloor, hneg, hsign]
  rfl

/-- An amount that a column of costs can hold keeps its cents in the doubles of the program and of
the page: as JSON, on the way into the column, and in the tables. -/
theorem cents_survive (script : Script) (hn : |n| < 10 ^ 10) : ∃ d, toDouble (n / 100) = some d ∧
    parse (dump_float d) = .ok (.number_float d) ∧ Database.decimal d = .ok n ∧
      toFixed script 2 d = Str.fixed 2 (n / 100) ∧ costText script d = Str.fixed 2 (n / 100) := by
  obtain ⟨d, hd, hnear, hzero⟩ := cents_toDouble hn
  obtain ⟨-, -, heq⟩ := cents_near hnear hzero
  have hfixed : toFixed script 2 d = Str.fixed 2 (n / 100) := toFixed_cents hn hnear hzero
  refine ⟨d, hd, ?_, decimal_cents hn hnear hzero, hfixed, ?_⟩
  · have hdouble : Representable (.number_float d) := toDouble_toDouble hd
    exact parse_print hdouble (Json.Valid.number_float d)
  · rw [costText]
    split_ifs with hcost
    · rw [heq.mp hcost]
      decide +kernel
    · exact hfixed

theorem cents_survive_price : ∃ d, toDouble ((1999 : ℤ) / 100) = some d ∧
    parse (dump_float d) = .ok (.number_float d) ∧ Database.decimal d = .ok 1999 ∧
      toFixed ⟨fun _ ↦ [], by simp⟩ 2 d = Str.fixed 2 ((1999 : ℤ) / 100) ∧
        costText ⟨fun _ ↦ [], by simp⟩ d = Str.fixed 2 ((1999 : ℤ) / 100) :=
  cents_survive ⟨fun _ ↦ [], by simp⟩ (n := 1999) (by decide)

end ServiceSystem.WebServer

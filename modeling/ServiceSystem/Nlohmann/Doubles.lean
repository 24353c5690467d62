import ServiceSystem.Nlohmann.Lexer
import Mathlib.Algebra.Order.Field.Power
import Mathlib.Tactic.NormNum

namespace ServiceSystem.Nlohmann

open Foundations

section Rounding

theorem roundHalfEven_of_near {x : ℚ} {n : ℤ} (hlow : n - 1 / 2 < x) (hhigh : x < n + 1 / 2) :
    Str.roundHalfEven x = n := by
  rcases lt_or_ge x n with h | h
  · have hfloor : ⌊x⌋ = n - 1 := by
      rw [Int.floor_eq_iff]
      push_cast
      constructor <;> linarith
    have hgreat : 1 / 2 < x - (n - 1) := by linarith
    simp only [Str.roundHalfEven, hfloor]
    push_cast
    rw [if_neg (by linarith), if_pos hgreat, sub_add_cancel]
  · have hfloor : ⌊x⌋ = n := by
      rw [Int.floor_eq_iff]
      constructor <;> linarith
    simp only [Str.roundHalfEven, hfloor]
    rw [if_pos (by linarith)]

theorem roundHalfEven_bounds (x : ℚ) :
    ⌊x⌋ ≤ Str.roundHalfEven x ∧ Str.roundHalfEven x ≤ ⌊x⌋ + 1 := by
  rw [Str.roundHalfEven]
  split_ifs <;> omega

theorem roundHalfEven_error (x : ℚ) : |Str.roundHalfEven x - x| ≤ 1 / 2 := by
  have hlow := Int.floor_le x
  have hhigh := Int.lt_floor_add_one x
  rw [abs_le, Str.roundHalfEven]
  split_ifs <;> push_cast <;> constructor <;> linarith

theorem roundHalfEven_neg (x : ℚ) : Str.roundHalfEven (-x) = -Str.roundHalfEven x := by
  obtain ⟨n, hn⟩ : ∃ n, n = ⌊x⌋ := ⟨_, rfl⟩
  have hlow : (n : ℚ) ≤ x := hn ▸ Int.floor_le x
  have hhigh : x < n + 1 := hn ▸ Int.lt_floor_add_one x
  rcases lt_trichotomy (x - n) (1 / 2) with h | h | h
  · have hx : Str.roundHalfEven x = n := roundHalfEven_of_near (by linarith) (by linarith)
    have hneg : Str.roundHalfEven (-x) = -n := by
      apply roundHalfEven_of_near <;> push_cast <;> linarith
    rw [hx, hneg]
  · have hfloor : ⌊-x⌋ = -n - 1 := by
      rw [Int.floor_eq_iff]
      push_cast
      constructor <;> linarith
    have hrest : -x - (-n - 1) = 1 / 2 := by linarith
    simp only [Str.roundHalfEven, hfloor, ← hn, h]
    push_cast
    simp only [hrest, lt_irrefl, if_false]
    split_ifs <;> omega
  · have hx : Str.roundHalfEven x = n + 1 := by
      apply roundHalfEven_of_near <;> push_cast <;> linarith
    have hneg : Str.roundHalfEven (-x) = -(n + 1) := by
      apply roundHalfEven_of_near <;> push_cast <;> linarith
    rw [hx, hneg]

theorem toDouble_neg (q : ℚ) : toDouble (-q) = (toDouble q).map (-·) := by
  unfold toDouble
  split_ifs with h₁ h₂ h₂
  · simp
  · exact absurd (neg_eq_zero.mp h₁) h₂
  · exact absurd (by rw [h₂, neg_zero]) h₁
  · simp only [abs_neg, neg_div, roundHalfEven_neg]
    push_cast
    rw [neg_mul, abs_neg]
    split_ifs <;> rfl

end Rounding

section Doubles

/-- A positive double, with as many bits before its exponent as there may be. -/
structure Represents (f : ℕ) (e : ℤ) (q : ℚ) : Prop where
  value : q = f * 2 ^ e
  pos : 0 < f
  size : f < 2 ^ 53
  normal : 2 ^ 52 ≤ f ∨ e = -1074
  low : -1074 ≤ e
  high : e ≤ 971

variable {f : ℕ} {e : ℤ} {q x : ℚ}

theorem exponent_pos (e : ℤ) : (0 : ℚ) < 2 ^ e := zpow_pos (by norm_num) e

theorem two_zpow_add (e : ℤ) (n : ℕ) : (2 : ℚ) ^ (e + n) = 2 ^ n * 2 ^ e := by
  rw [zpow_add₀ (by norm_num), zpow_natCast, mul_comm]

theorem exponent_lt {n : ℕ} {e : ℤ} (h : (2 : ℚ) ^ n * 2 ^ e < 2 ^ 1024) : n + e < 1024 := by
  have hpower : (2 : ℚ) ^ (e + n) < 2 ^ (1024 : ℤ) := by
    rw [two_zpow_add]
    exact_mod_cast h
  have hlt := (zpow_lt_zpow_iff_right₀ (by norm_num)).mp hpower
  omega

/-- What is nearer to a double than half of a unit of its last bit. -/
theorem toDouble_of_exponent (hx : 0 < x) (he : max (Int.log 2 x - 52) (-1074) = e) {n : ℕ}
    (hlow : (n - 1 / 2 : ℚ) * 2 ^ e < x) (hhigh : x < (n + 1 / 2) * 2 ^ e)
    (hfinite : (n : ℚ) * 2 ^ e < 2 ^ 1024) : toDouble x = some ((n : ℚ) * 2 ^ e) := by
  have hpos := exponent_pos e
  have hround : Str.roundHalfEven (x / 2 ^ e) = n := by
    apply roundHalfEven_of_near
    · rw [lt_div_iff₀ hpos]
      exact_mod_cast hlow
    · rw [div_lt_iff₀ hpos]
      exact_mod_cast hhigh
  have habs : |(n : ℚ) * 2 ^ e| = n * 2 ^ e :=
    abs_of_nonneg (mul_nonneg (Nat.cast_nonneg n) hpos.le)
  have hnot : ¬ (2 : ℚ) ^ 1024 ≤ n * 2 ^ e := not_le.mpr hfinite
  rw [toDouble, if_neg hx.ne']
  simp only [abs_of_pos hx, he, hround, Int.cast_natCast, habs]
  exact if_neg hnot

namespace Represents

theorem lt_infinity (h : Represents f e q) : q < 2 ^ 1024 := by
  have hsize : (f : ℚ) < 2 ^ 53 := by exact_mod_cast h.size
  have hhigh : (2 : ℚ) ^ e ≤ 2 ^ (971 : ℤ) := zpow_le_zpow_right₀ (by norm_num) h.high
  calc q = f * 2 ^ e := h.value
    _ < 2 ^ 53 * 2 ^ e := mul_lt_mul_of_pos_right hsize (exponent_pos e)
    _ ≤ 2 ^ 53 * 2 ^ (971 : ℤ) := mul_le_mul_of_nonneg_left hhigh (by norm_num)
    _ = 2 ^ 1024 := by
      rw [← zpow_natCast, ← zpow_natCast, ← zpow_add₀ (by norm_num)]
      rfl

/-- The least number that is read as a double is half a unit below it, and only a quarter where the
numbers begin to be closer. -/
def lower (f : ℕ) (e : ℤ) : ℚ :=
  if f = 2 ^ 52 ∧ -1074 < e then f - 1 / 4 else f - 1 / 2

/-- Whatever lies between the boundaries of a double is read as it. -/
theorem toDouble_near (h : Represents f e q) (hlow : lower f e * 2 ^ e < x)
    (hhigh : x < (f + 1 / 2) * 2 ^ e) : toDouble x = some q := by
  have hone : (1 : ℚ) ≤ f := by exact_mod_cast h.pos
  have hsize : (f : ℚ) + 1 ≤ 2 ^ 53 := by exact_mod_cast h.size
  have hunit := exponent_pos e
  have hhalf : (f - 1 / 2 : ℚ) * 2 ^ e < x := by
    refine lt_of_le_of_lt (mul_le_mul_of_nonneg_right ?_ hunit.le) hlow
    rw [lower]
    split_ifs <;> linarith
  have hx : 0 < x := lt_trans (mul_pos (by linarith) hunit) hhalf
  rw [h.value]
  by_cases hbinade : (2 : ℚ) ^ (e + 52) ≤ x ∨ e = -1074
  · have htop : x < (2 : ℚ) ^ (e + 53) := by
      rw [show e + 53 = e + (53 : ℕ) from rfl, two_zpow_add]
      exact hhigh.trans_le (mul_le_mul_of_nonneg_right (by linarith) hunit.le)
    refine toDouble_of_exponent hx ?_ hhalf hhigh (h.value ▸ h.lt_infinity)
    have hlow' := h.low
    have hle := (Int.lt_zpow_iff_log_lt (by decide : 1 < 2) hx).mp (by exact_mod_cast htop)
    rcases hbinade with hbinade | rfl
    · have hge := (Int.zpow_le_iff_le_log (by decide : 1 < 2) hx).mp (by exact_mod_cast hbinade)
      omega
    · omega
  · rw [not_or, not_le] at hbinade
    obtain ⟨hbelow, hne⟩ := hbinade
    have hlow' := h.low
    have hleast : f = 2 ^ 52 := by
      have hnormal := h.normal.resolve_right hne
      by_contra hgreater
      have hgt : (2 : ℚ) ^ 52 + 1 ≤ f := by exact_mod_cast Nat.lt_of_le_of_ne hnormal (Ne.symm hgreater)
      rw [show e + 52 = e + (52 : ℕ) from rfl, two_zpow_add] at hbelow
      have hlt := lt_of_mul_lt_mul_right (hhalf.trans hbelow) hunit.le
      linarith
    have hquarter : lower f e = f - 1 / 4 := if_pos ⟨hleast, by omega⟩
    rw [hquarter, hleast] at hlow
    have hdown : (2 : ℚ) ^ e = 2 * 2 ^ (e - 1) := by
      rw [← zpow_one_add₀ (by norm_num)]
      congr 1
      omega
    have hunit' := exponent_pos (e - 1)
    have hvalue : (f : ℚ) * 2 ^ e = ((2 ^ 53 : ℕ) : ℚ) * 2 ^ (e - 1) := by
      rw [hleast, hdown]
      push_cast
      ring
    have hfinite := h.lt_infinity
    rw [h.value] at hfinite
    rw [hvalue] at hfinite ⊢
    rw [show e + 52 = e - 1 + (53 : ℕ) by push_cast; ring, two_zpow_add] at hbelow
    refine toDouble_of_exponent hx ?_ ?_ ?_ hfinite
    · have htop : x < (2 : ℚ) ^ (e + 52) := by
        rw [show e + 52 = e - 1 + (53 : ℕ) by push_cast; ring, two_zpow_add]
        exact hbelow
      have hbottom : (2 : ℚ) ^ (e + 51) ≤ x := by
        rw [show e + 51 = e + (51 : ℕ) from rfl, two_zpow_add]
        refine le_trans (mul_le_mul_of_nonneg_right ?_ hunit.le) hlow.le
        norm_num
      have hlt := (Int.lt_zpow_iff_log_lt (by decide : 1 < 2) hx).mp (by exact_mod_cast htop)
      have hge := (Int.zpow_le_iff_le_log (by decide : 1 < 2) hx).mp (by exact_mod_cast hbottom)
      omega
    · rw [hdown] at hlow
      push_cast at hlow ⊢
      linarith
    · push_cast
      linarith

end Represents

theorem toDouble_fixed (hq : 0 < q) (he : max (Int.log 2 q - 52) (-1074) = e)
    (h : toDouble q = some q) :
    (Str.roundHalfEven (q / 2 ^ e) : ℚ) * 2 ^ e = q ∧ q < 2 ^ 1024 := by
  simp only [toDouble, if_neg hq.ne', abs_of_pos hq, he] at h
  obtain ⟨hfinite, hvalue⟩ := Option.ite_none_left_eq_some.mp h
  have hsome := Option.some.inj hvalue
  rw [hsome, abs_of_pos hq, not_le] at hfinite
  exact ⟨hsome, hfinite⟩

/-- A double that is read as itself. -/
theorem represents_of_toDouble (hq : 0 < q) (he : max (Int.log 2 q - 52) (-1074) = e)
    (h : toDouble q = some q) : Represents ⌊q / 2 ^ e⌋.toNat e q := by
  obtain ⟨hfixed, hfinite⟩ := toDouble_fixed hq he h
  have hunit := exponent_pos e
  obtain ⟨n, hn⟩ : ∃ n : ℤ, q / 2 ^ e = n :=
    ⟨_, (div_eq_iff hunit.ne').mpr hfixed.symm⟩
  have hvalue : q = n * 2 ^ e := (div_eq_iff hunit.ne').mp hn
  have hpos : 0 < n := by
    rw [hvalue] at hq
    exact_mod_cast pos_of_mul_pos_left hq hunit.le
  have hlow : -1074 ≤ e := he ▸ le_max_right _ _
  have hlog : (2 : ℚ) ^ Int.log 2 q ≤ q := by exact_mod_cast Int.zpow_log_le_self (by decide) hq
  have hlog' : q < (2 : ℚ) ^ (Int.log 2 q + 1) := by
    exact_mod_cast Int.lt_zpow_succ_log_self (by decide : 1 < 2) q
  have hsize : n < 2 ^ 53 := by
    have hle : Int.log 2 q + 1 ≤ e + (53 : ℕ) := by push_cast; omega
    have hlt := hlog'.trans_le (zpow_le_zpow_right₀ (by norm_num) hle)
    rw [two_zpow_add, hvalue] at hlt
    exact_mod_cast lt_of_mul_lt_mul_right hlt hunit.le
  have hnormal : 2 ^ 52 ≤ n ∨ e = -1074 := by
    rcases le_total (Int.log 2 q - 52) (-1074) with hle | hle
    · exact .inr (by omega)
    · left
      have heq : Int.log 2 q = e + (52 : ℕ) := by push_cast; omega
      rw [heq, two_zpow_add, hvalue] at hlog
      exact_mod_cast le_of_mul_le_mul_right hlog hunit
  have hhigh : e ≤ 971 := by
    rcases hnormal with hnormal | rfl
    · have hle : (2 : ℚ) ^ 52 * 2 ^ e ≤ q := by
        rw [hvalue]
        refine mul_le_mul_of_nonneg_right ?_ hunit.le
        exact_mod_cast hnormal
      have hexponent := exponent_lt (hle.trans_lt hfinite)
      omega
    · decide
  have hnat : ((n.toNat : ℕ) : ℤ) = n := Int.toNat_of_nonneg hpos.le
  rw [hn, Int.floor_intCast]
  constructor
  · rw [hvalue]
    congr 1
    exact_mod_cast hnat.symm
  · omega
  · omega
  · exact hnormal.imp_left fun h ↦ by omega
  · exact hlow
  · exact hhigh

end Doubles

section Readings

variable {x q : ℚ}

theorem lt_of_toDouble (hx : 0 < x) (h : toDouble x = some q) : x < 2 ^ 1024 := by
  by_contra hle
  rw [not_lt] at hle
  have hlog : 1024 ≤ Int.log 2 x := by
    rw [← Int.zpow_le_iff_le_log (by decide) hx]
    exact_mod_cast hle
  have hexponent : max (Int.log 2 x - 52) (-1074) = Int.log 2 x - 52 := by omega
  have hunit := exponent_pos (Int.log 2 x - 52)
  have hpower : (2 : ℚ) ^ Int.log 2 x = 2 ^ 52 * 2 ^ (Int.log 2 x - 52) := by
    rw [← two_zpow_add]
    congr 1
    omega
  have hround : (2 ^ 52 : ℤ) ≤ Str.roundHalfEven (x / 2 ^ (Int.log 2 x - 52)) := by
    have hfloor : (2 ^ 52 : ℤ) ≤ ⌊x / 2 ^ (Int.log 2 x - 52)⌋ := by
      rw [Int.le_floor, le_div_iff₀ hunit]
      have hle : (2 : ℚ) ^ Int.log 2 x ≤ x := by
        exact_mod_cast Int.zpow_log_le_self (by decide) hx
      rw [hpower] at hle
      exact_mod_cast hle
    exact hfloor.trans (roundHalfEven_bounds _).1
  have hnearest : (2 : ℚ) ^ 1024 ≤
      Str.roundHalfEven (x / 2 ^ (Int.log 2 x - 52)) * 2 ^ (Int.log 2 x - 52) := by
    calc (2 : ℚ) ^ 1024 = 2 ^ (1024 : ℤ) := (zpow_natCast 2 1024).symm
      _ ≤ 2 ^ Int.log 2 x := zpow_le_zpow_right₀ (by norm_num) hlog
      _ = 2 ^ 52 * 2 ^ (Int.log 2 x - 52) := hpower
      _ ≤ _ := mul_le_mul_of_nonneg_right (by exact_mod_cast hround) hunit.le
  simp only [toDouble, if_neg hx.ne', abs_of_pos hx, hexponent] at h
  rw [if_pos (hnearest.trans (le_abs_self _))] at h
  cases h

theorem gt_of_toDouble (hx : 0 < x) (hq : q ≠ 0) (h : toDouble x = some q) :
    (2 : ℚ) ^ (-1076 : ℤ) < x := by
  by_contra hle
  rw [not_lt] at hle
  have hunit := exponent_pos (-1074)
  have hlog : Int.log 2 x < -1075 := by
    rw [← Int.lt_zpow_iff_log_lt (by decide) hx]
    exact_mod_cast hle.trans_lt (zpow_lt_zpow_right₀ (by norm_num) (by decide))
  have hexponent : max (Int.log 2 x - 52) (-1074) = -1074 := by omega
  have hquarter : (2 : ℚ) ^ (-1076 : ℤ) = 1 / 4 * 2 ^ (-1074 : ℤ) := by
    rw [show (-1076 : ℤ) = -2 + -1074 from rfl, zpow_add₀ (by norm_num)]
    norm_num
  have hround : Str.roundHalfEven (x / 2 ^ (-1074 : ℤ)) = 0 := by
    have hpos : 0 < x / 2 ^ (-1074 : ℤ) := div_pos hx hunit
    have hsmall : x / 2 ^ (-1074 : ℤ) ≤ 1 / 4 := by
      rw [div_le_iff₀ hunit, ← hquarter]
      exact hle
    apply roundHalfEven_of_near
    · rw [Int.cast_zero]
      linarith
    · rw [Int.cast_zero]
      linarith
  simp only [toDouble, if_neg hx.ne', abs_of_pos hx, hexponent, hround, Int.cast_zero, zero_mul,
    abs_zero] at h
  rw [if_neg (by norm_num)] at h
  exact hq (Option.some.inj h).symm

/-- A double is read as itself. -/
theorem Represents.toDouble {f : ℕ} {e : ℤ} (h : Represents f e q) :
    Nlohmann.toDouble q = some q := by
  have hunit := exponent_pos e
  apply h.toDouble_near
  · rw [h.value]
    refine mul_lt_mul_of_pos_right ?_ hunit
    rw [lower]
    split_ifs <;> linarith
  · rw [h.value]
    exact mul_lt_mul_of_pos_right (by linarith) hunit

/-- The significand that is rounded to, which the rounding may carry into one more bit. -/
theorem represents_of_rounded {n : ℤ} {e : ℤ} (hpos : 0 < n) (hsize : n ≤ 2 ^ 53)
    (hlow : -1074 ≤ e) (hnormal : 2 ^ 52 ≤ n ∨ e = -1074) (hfinite : (n : ℚ) * 2 ^ e < 2 ^ 1024) :
    ∃ f e', Represents f e' (n * 2 ^ e) := by
  obtain ⟨m, rfl⟩ := Int.eq_ofNat_of_zero_le hpos.le
  have hunit := exponent_pos e
  by_cases hcarry : m = 2 ^ 53
  · subst hcarry
    have hexponent := exponent_lt (n := 53) (e := e) (by exact_mod_cast hfinite)
    refine ⟨2 ^ 52, e + 1, ?_, by norm_num, by norm_num, .inl le_rfl, by omega, by omega⟩
    have hstep := two_zpow_add e 1
    push_cast at hstep ⊢
    rw [hstep]
    ring
  · refine ⟨m, e, rfl, by omega, by omega, ?_, hlow, ?_⟩
    · exact hnormal.imp_left fun h ↦ by omega
    · rcases hnormal with hnormal | rfl
      · have hle : (2 : ℚ) ^ 52 * 2 ^ e ≤ m * 2 ^ e :=
          mul_le_mul_of_nonneg_right (by exact_mod_cast hnormal) hunit.le
        have hexponent := exponent_lt (n := 52) (e := e) (hle.trans_lt (by exact_mod_cast hfinite))
        omega
      · decide

theorem toDouble_pos (hx : 0 < x) (h : toDouble x = some q) : toDouble q = some q := by
  obtain ⟨e, he⟩ : ∃ e, max (Int.log 2 x - 52) (-1074) = e := ⟨_, rfl⟩
  have hunit := exponent_pos e
  simp only [toDouble, if_neg hx.ne', abs_of_pos hx, he] at h
  obtain ⟨hfinite, hvalue⟩ := Option.ite_none_left_eq_some.mp h
  obtain rfl := Option.some.inj hvalue
  obtain ⟨hlow, hhigh⟩ := roundHalfEven_bounds (x / 2 ^ e)
  have hfloor : 0 ≤ ⌊x / 2 ^ e⌋ := Int.floor_nonneg.mpr (div_nonneg hx.le hunit.le)
  have hsize : ⌊x / 2 ^ e⌋ < 2 ^ 53 := by
    have hlt : x < 2 ^ (Int.log 2 x + 1) := by
      exact_mod_cast Int.lt_zpow_succ_log_self (b := 2) (by decide) x
    have hle : (2 : ℚ) ^ (Int.log 2 x + 1) ≤ 2 ^ 53 * 2 ^ e := by
      rw [← two_zpow_add]
      exact zpow_le_zpow_right₀ (by norm_num) (by push_cast; omega)
    rw [Int.floor_lt, div_lt_iff₀ hunit]
    exact_mod_cast hlt.trans_le hle
  have hnormal : 2 ^ 52 ≤ ⌊x / 2 ^ e⌋ ∨ e = -1074 := by
    rcases le_or_gt (Int.log 2 x - 52) (-1074) with hsub | hsub
    · exact .inr (by omega)
    · left
      have hexponent : e + (52 : ℕ) = Int.log 2 x := by omega
      have hle : (2 : ℚ) ^ 52 * 2 ^ e ≤ x := by
        rw [← two_zpow_add, hexponent]
        exact_mod_cast Int.zpow_log_le_self (b := 2) (by decide) hx
      rw [Int.le_floor, le_div_iff₀ hunit]
      exact_mod_cast hle
  generalize Str.roundHalfEven (x / 2 ^ e) = n at *
  rcases eq_or_lt_of_le (hfloor.trans hlow) with rfl | hpos
  · rw [Int.cast_zero, zero_mul, toDouble, if_pos rfl]
  · have hn : (0 : ℚ) < n := by exact_mod_cast hpos
    rw [abs_of_pos (mul_pos hn hunit), not_le] at hfinite
    obtain ⟨f, e', hf⟩ := represents_of_rounded hpos (by omega) (by omega)
      (hnormal.imp_left fun h ↦ h.trans hlow) hfinite
    exact hf.toDouble

/-- What a number is rounded to is a double. -/
theorem toDouble_toDouble (h : toDouble x = some q) : toDouble q = some q := by
  rcases lt_trichotomy x 0 with hneg | rfl | hpos
  · have hopposite : toDouble (-x) = some (-q) := by
      rw [toDouble_neg, h]
      rfl
    have hdouble := toDouble_pos (neg_pos.mpr hneg) hopposite
    rw [toDouble_neg, Option.map_eq_some_iff] at hdouble
    obtain ⟨r, hr, hrq⟩ := hdouble
    rwa [neg_injective hrq] at hr
  · rw [toDouble, if_pos rfl] at h
    obtain rfl := Option.some.inj h
    rw [toDouble, if_pos rfl]
  · exact toDouble_pos hpos h

/-- How far a number is from the double that it is rounded to. -/
theorem toDouble_error {k : ℤ} (hx : |x| < 2 ^ k) (hlow : -1021 ≤ k) (hhigh : k < 1023) :
    ∃ q, toDouble x = some q ∧ |q - x| ≤ 2 ^ (k - 54) := by
  by_cases hzero : x = 0
  · subst hzero
    refine ⟨0, if_pos rfl, ?_⟩
    rw [sub_zero, abs_zero]
    exact (exponent_pos _).le
  · obtain ⟨e, he⟩ : ∃ e, max (Int.log 2 |x| - 52) (-1074) = e := ⟨_, rfl⟩
    have hunit := exponent_pos e
    have hpos : 0 < |x| := abs_pos.mpr hzero
    have hlog : Int.log 2 |x| < k := by
      rw [← Int.lt_zpow_iff_log_lt (by decide) hpos]
      exact_mod_cast hx
    have hhalf : (2 : ℚ) ^ e ≤ 2 * 2 ^ (k - 54) := by
      have hstep := two_zpow_add (k - 54) 1
      rw [pow_one] at hstep
      rw [← hstep]
      exact zpow_le_zpow_right₀ (by norm_num) (by push_cast; omega)
    obtain ⟨n, hn⟩ : ∃ n, Str.roundHalfEven (x / 2 ^ e) = n := ⟨_, rfl⟩
    have herror : |(n : ℚ) * 2 ^ e - x| ≤ 2 ^ (k - 54) := by
      have hround := roundHalfEven_error (x / 2 ^ e)
      rw [hn] at hround
      have hscale : (n : ℚ) * 2 ^ e - x = (n - x / 2 ^ e) * 2 ^ e := by
        rw [sub_mul, div_mul_cancel₀ _ hunit.ne']
      rw [hscale, abs_mul, abs_of_pos hunit]
      have hle := mul_le_mul_of_nonneg_right hround hunit.le
      linarith
    have hfinite : ¬ (2 : ℚ) ^ 1024 ≤ |(n : ℚ) * 2 ^ e| := by
      have hsmall : (2 : ℚ) ^ (k - 54) ≤ 2 ^ k := zpow_le_zpow_right₀ (by norm_num) (by omega)
      have hdouble : (2 : ℚ) ^ k + 2 ^ k ≤ 2 ^ 1024 := by
        have hstep := two_zpow_add k 1
        have hle : (2 : ℚ) ^ (k + (1 : ℕ)) ≤ 2 ^ (1024 : ℤ) :=
          zpow_le_zpow_right₀ (by norm_num) (by push_cast; omega)
        rw [hstep, pow_one] at hle
        have hcast : (2 : ℚ) ^ (1024 : ℤ) = 2 ^ 1024 := zpow_natCast 2 1024
        rw [← hcast]
        exact (two_mul ((2 : ℚ) ^ k)).symm.le.trans hle
      have htriangle := abs_sub_abs_le_abs_sub ((n : ℚ) * 2 ^ e) x
      refine not_le.mpr (lt_of_lt_of_le ?_ hdouble)
      linarith
    refine ⟨n * 2 ^ e, ?_, herror⟩
    simp only [toDouble, if_neg hzero, he, hn, if_neg hfinite]

end Readings

end ServiceSystem.Nlohmann

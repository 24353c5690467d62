import ServiceSystem.Nlohmann.Doubles
import Mathlib.Data.List.GetD

namespace ServiceSystem.Nlohmann

open Foundations

/-- The arithmetic of `std::uint64_t`. -/
def u64 (n : ℕ) : ℕ := n % 2 ^ 64

/-- The number `f * 2 ^ e`. -/
structure Diyfp where
  f : ℕ
  e : ℤ

namespace Diyfp

def value (x : Diyfp) : ℚ := x.f * 2 ^ x.e

/-- Of numbers with one exponent. -/
def sub (x y : Diyfp) : Diyfp := ⟨u64 (x.f + 2 ^ 64 - y.f), x.e⟩

/-- The upper 64 bits of the product, put together from halves. -/
def mul (x y : Diyfp) : Diyfp :=
  let u_lo := x.f % 2 ^ 32
  let u_hi := x.f / 2 ^ 32
  let v_lo := y.f % 2 ^ 32
  let v_hi := y.f / 2 ^ 32
  let p0 := u64 (u_lo * v_lo)
  let p1 := u64 (u_lo * v_hi)
  let p2 := u64 (u_hi * v_lo)
  let p3 := u64 (u_hi * v_hi)
  let Q := u64 (p0 / 2 ^ 32 + p1 % 2 ^ 32 + p2 % 2 ^ 32 + 2 ^ 31)
  ⟨u64 (p3 + p2 / 2 ^ 32 + p1 / 2 ^ 32 + Q / 2 ^ 32), x.e + y.e + 64⟩

/-- The loop of `normalize`, for a number that is not 0. -/
def normalize (x : Diyfp) : Diyfp :=
  if 0 < x.f ∧ x.f / 2 ^ 63 = 0 then normalize ⟨u64 (2 * x.f), x.e - 1⟩ else x
termination_by 2 ^ 63 - x.f
decreasing_by
  simp only [u64]
  omega

def normalize_to (x : Diyfp) (target_exponent : ℤ) : Diyfp :=
  ⟨u64 (x.f * 2 ^ (x.e - target_exponent).toNat), target_exponent⟩

end Diyfp

section Boundaries

def kHiddenBit : ℕ := 2 ^ 52

def kBias : ℤ := 1075

def kMinExp : ℤ := 1 - kBias

/-- The exponent and the fraction in the bits of a positive double. -/
def reinterpret_bits (value : ℚ) : ℕ × ℕ :=
  let exponent := max (Int.log 2 value - 52) kMinExp
  let significand := ⌊value / 2 ^ exponent⌋.toNat
  if significand < kHiddenBit then (0, significand)
  else ((exponent + kBias).toNat, significand - kHiddenBit)

structure Boundaries where
  w : Diyfp
  minus : Diyfp
  plus : Diyfp

def compute_boundaries (value : ℚ) : Boundaries :=
  let (E, F) := reinterpret_bits value
  let v : Diyfp := if E = 0 then ⟨F, kMinExp⟩ else ⟨F + kHiddenBit, E - kBias⟩
  let m_plus : Diyfp := ⟨2 * v.f + 1, v.e - 1⟩
  let m_minus : Diyfp :=
    if F = 0 ∧ 1 < E then ⟨4 * v.f - 1, v.e - 2⟩ else ⟨2 * v.f - 1, v.e - 1⟩
  let w_plus := m_plus.normalize
  ⟨v.normalize, m_minus.normalize_to w_plus.e, w_plus⟩

end Boundaries

section CachedPowers

def kAlpha : ℤ := -60

def kGamma : ℤ := -32

/-- An approximation of `10 ^ k`. -/
structure CachedPower where
  c : Diyfp
  k : ℤ

def kCachedPowersMinDecExp : ℤ := -300

def kCachedPowersDecStep : ℤ := 8

def kCachedPowers : List CachedPower :=
  [⟨⟨0xAB70FE17C79AC6CA, -1060⟩, -300⟩, ⟨⟨0xFF77B1FCBEBCDC4F, -1034⟩, -292⟩,
    ⟨⟨0xBE5691EF416BD60C, -1007⟩, -284⟩, ⟨⟨0x8DD01FAD907FFC3C, -980⟩, -276⟩,
    ⟨⟨0xD3515C2831559A83, -954⟩, -268⟩, ⟨⟨0x9D71AC8FADA6C9B5, -927⟩, -260⟩,
    ⟨⟨0xEA9C227723EE8BCB, -901⟩, -252⟩, ⟨⟨0xAECC49914078536D, -874⟩, -244⟩,
    ⟨⟨0x823C12795DB6CE57, -847⟩, -236⟩, ⟨⟨0xC21094364DFB5637, -821⟩, -228⟩,
    ⟨⟨0x9096EA6F3848984F, -794⟩, -220⟩, ⟨⟨0xD77485CB25823AC7, -768⟩, -212⟩,
    ⟨⟨0xA086CFCD97BF97F4, -741⟩, -204⟩, ⟨⟨0xEF340A98172AACE5, -715⟩, -196⟩,
    ⟨⟨0xB23867FB2A35B28E, -688⟩, -188⟩, ⟨⟨0x84C8D4DFD2C63F3B, -661⟩, -180⟩,
    ⟨⟨0xC5DD44271AD3CDBA, -635⟩, -172⟩, ⟨⟨0x936B9FCEBB25C996, -608⟩, -164⟩,
    ⟨⟨0xDBAC6C247D62A584, -582⟩, -156⟩, ⟨⟨0xA3AB66580D5FDAF6, -555⟩, -148⟩,
    ⟨⟨0xF3E2F893DEC3F126, -529⟩, -140⟩, ⟨⟨0xB5B5ADA8AAFF80B8, -502⟩, -132⟩,
    ⟨⟨0x87625F056C7C4A8B, -475⟩, -124⟩, ⟨⟨0xC9BCFF6034C13053, -449⟩, -116⟩,
    ⟨⟨0x964E858C91BA2655, -422⟩, -108⟩, ⟨⟨0xDFF9772470297EBD, -396⟩, -100⟩,
    ⟨⟨0xA6DFBD9FB8E5B88F, -369⟩, -92⟩, ⟨⟨0xF8A95FCF88747D94, -343⟩, -84⟩,
    ⟨⟨0xB94470938FA89BCF, -316⟩, -76⟩, ⟨⟨0x8A08F0F8BF0F156B, -289⟩, -68⟩,
    ⟨⟨0xCDB02555653131B6, -263⟩, -60⟩, ⟨⟨0x993FE2C6D07B7FAC, -236⟩, -52⟩,
    ⟨⟨0xE45C10C42A2B3B06, -210⟩, -44⟩, ⟨⟨0xAA242499697392D3, -183⟩, -36⟩,
    ⟨⟨0xFD87B5F28300CA0E, -157⟩, -28⟩, ⟨⟨0xBCE5086492111AEB, -130⟩, -20⟩,
    ⟨⟨0x8CBCCC096F5088CC, -103⟩, -12⟩, ⟨⟨0xD1B71758E219652C, -77⟩, -4⟩,
    ⟨⟨0x9C40000000000000, -50⟩, 4⟩, ⟨⟨0xE8D4A51000000000, -24⟩, 12⟩, ⟨⟨0xAD78EBC5AC620000, 3⟩, 20⟩,
    ⟨⟨0x813F3978F8940984, 30⟩, 28⟩, ⟨⟨0xC097CE7BC90715B3, 56⟩, 36⟩, ⟨⟨0x8F7E32CE7BEA5C70, 83⟩, 44⟩,
    ⟨⟨0xD5D238A4ABE98068, 109⟩, 52⟩, ⟨⟨0x9F4F2726179A2245, 136⟩, 60⟩,
    ⟨⟨0xED63A231D4C4FB27, 162⟩, 68⟩, ⟨⟨0xB0DE65388CC8ADA8, 189⟩, 76⟩,
    ⟨⟨0x83C7088E1AAB65DB, 216⟩, 84⟩, ⟨⟨0xC45D1DF942711D9A, 242⟩, 92⟩,
    ⟨⟨0x924D692CA61BE758, 269⟩, 100⟩, ⟨⟨0xDA01EE641A708DEA, 295⟩, 108⟩,
    ⟨⟨0xA26DA3999AEF774A, 322⟩, 116⟩, ⟨⟨0xF209787BB47D6B85, 348⟩, 124⟩,
    ⟨⟨0xB454E4A179DD1877, 375⟩, 132⟩, ⟨⟨0x865B86925B9BC5C2, 402⟩, 140⟩,
    ⟨⟨0xC83553C5C8965D3D, 428⟩, 148⟩, ⟨⟨0x952AB45CFA97A0B3, 455⟩, 156⟩,
    ⟨⟨0xDE469FBD99A05FE3, 481⟩, 164⟩, ⟨⟨0xA59BC234DB398C25, 508⟩, 172⟩,
    ⟨⟨0xF6C69A72A3989F5C, 534⟩, 180⟩, ⟨⟨0xB7DCBF5354E9BECE, 561⟩, 188⟩,
    ⟨⟨0x88FCF317F22241E2, 588⟩, 196⟩, ⟨⟨0xCC20CE9BD35C78A5, 614⟩, 204⟩,
    ⟨⟨0x98165AF37B2153DF, 641⟩, 212⟩, ⟨⟨0xE2A0B5DC971F303A, 667⟩, 220⟩,
    ⟨⟨0xA8D9D1535CE3B396, 694⟩, 228⟩, ⟨⟨0xFB9B7CD9A4A7443C, 720⟩, 236⟩,
    ⟨⟨0xBB764C4CA7A44410, 747⟩, 244⟩, ⟨⟨0x8BAB8EEFB6409C1A, 774⟩, 252⟩,
    ⟨⟨0xD01FEF10A657842C, 800⟩, 260⟩, ⟨⟨0x9B10A4E5E9913129, 827⟩, 268⟩,
    ⟨⟨0xE7109BFBA19C0C9D, 853⟩, 276⟩, ⟨⟨0xAC2820D9623BF429, 880⟩, 284⟩,
    ⟨⟨0x80444B5E7AA7CF85, 907⟩, 292⟩, ⟨⟨0xBF21E44003ACDD2D, 933⟩, 300⟩,
    ⟨⟨0x8E679C2F5E44FF8F, 960⟩, 308⟩, ⟨⟨0xD433179D9C8CB841, 986⟩, 316⟩,
    ⟨⟨0x9E19DB92B4E31BA9, 1013⟩, 324⟩]

/-- The `index` of `get_cached_power_for_binary_exponent`. -/
def cachedPowerIndex (e : ℤ) : ℤ :=
  let f := kAlpha - e - 1
  let k := (f * 78913).tdiv (2 ^ 18) + if 0 < f then 1 else 0
  (-kCachedPowersMinDecExp + k + (kCachedPowersDecStep - 1)).tdiv kCachedPowersDecStep

def get_cached_power_for_binary_exponent (e : ℤ) : CachedPower :=
  kCachedPowers.getD (cachedPowerIndex e).toNat ⟨⟨0, 0⟩, 0⟩

end CachedPowers

section Products

namespace Diyfp

theorem u64_of_lt {n : ℕ} (h : n < 2 ^ 64) : u64 n = n := Nat.mod_eq_of_lt h

theorem half_product {a b : ℕ} (ha : a < 2 ^ 32) (hb : b < 2 ^ 32) : a * b ≤ (2 ^ 32 - 1) ^ 2 := by
  rw [sq]
  exact Nat.mul_le_mul (by omega) (by omega)

/-- The product is rounded to its upper 64 bits. -/
theorem mul_f {x y : Diyfp} (hx : x.f < 2 ^ 64) (hy : y.f < 2 ^ 64) :
    (x.mul y).f = (x.f * y.f + 2 ^ 63) / 2 ^ 64 := by
  have hmul : (x.mul y).f = u64 (u64 (x.f / 2 ^ 32 * (y.f / 2 ^ 32)) +
      u64 (x.f / 2 ^ 32 * (y.f % 2 ^ 32)) / 2 ^ 32 + u64 (x.f % 2 ^ 32 * (y.f / 2 ^ 32)) / 2 ^ 32 +
      u64 (u64 (x.f % 2 ^ 32 * (y.f % 2 ^ 32)) / 2 ^ 32 +
        u64 (x.f % 2 ^ 32 * (y.f / 2 ^ 32)) % 2 ^ 32 +
        u64 (x.f / 2 ^ 32 * (y.f % 2 ^ 32)) % 2 ^ 32 + 2 ^ 31) / 2 ^ 32) := rfl
  have hproduct : x.f * y.f = x.f % 2 ^ 32 * (y.f % 2 ^ 32) +
      2 ^ 32 * (x.f % 2 ^ 32 * (y.f / 2 ^ 32) + x.f / 2 ^ 32 * (y.f % 2 ^ 32)) +
      2 ^ 64 * (x.f / 2 ^ 32 * (y.f / 2 ^ 32)) := by
    conv_lhs => rw [← Nat.div_add_mod x.f (2 ^ 32), ← Nat.div_add_mod y.f (2 ^ 32)]
    ring
  have hp0 := half_product (show x.f % 2 ^ 32 < 2 ^ 32 by omega) (show y.f % 2 ^ 32 < 2 ^ 32 by omega)
  have hp1 := half_product (show x.f % 2 ^ 32 < 2 ^ 32 by omega) (show y.f / 2 ^ 32 < 2 ^ 32 by omega)
  have hp2 := half_product (show x.f / 2 ^ 32 < 2 ^ 32 by omega) (show y.f % 2 ^ 32 < 2 ^ 32 by omega)
  have hp3 := half_product (show x.f / 2 ^ 32 < 2 ^ 32 by omega) (show y.f / 2 ^ 32 < 2 ^ 32 by omega)
  have hlt : x.f * y.f ≤ (2 ^ 64 - 1) * (2 ^ 64 - 1) := Nat.mul_le_mul (by omega) (by omega)
  rw [hmul]
  generalize x.f % 2 ^ 32 * (y.f % 2 ^ 32) = p0 at *
  generalize x.f % 2 ^ 32 * (y.f / 2 ^ 32) = p1 at *
  generalize x.f / 2 ^ 32 * (y.f % 2 ^ 32) = p2 at *
  generalize x.f / 2 ^ 32 * (y.f / 2 ^ 32) = p3 at *
  generalize x.f * y.f = p at *
  rw [u64_of_lt (show p0 < 2 ^ 64 by omega), u64_of_lt (show p1 < 2 ^ 64 by omega),
    u64_of_lt (show p2 < 2 ^ 64 by omega), u64_of_lt (show p3 < 2 ^ 64 by omega),
    u64_of_lt (show p0 / 2 ^ 32 + p1 % 2 ^ 32 + p2 % 2 ^ 32 + 2 ^ 31 < 2 ^ 64 by omega),
    u64_of_lt (by omega)]
  omega

end Diyfp

/-- An approximation to half a unit of its last bit. -/
structure CachedPower.Near (p : CachedPower) : Prop where
  size : p.c.f < 2 ^ 64
  normal : 2 ^ 63 ≤ p.c.f
  near : |p.c.value - 10 ^ p.k| ≤ 2 ^ p.c.e / 2

/-- A number times a power of ten comes out to less than a unit of the last bit. -/
theorem CachedPower.Near.mul {p : CachedPower} (hp : p.Near) {x : Diyfp} (hx : x.f < 2 ^ 64) :
    |(x.mul p.c).value - x.value * 10 ^ p.k| < 2 ^ (x.mul p.c).e := by
  have hu : (0 : ℚ) < 2 ^ x.e := exponent_pos _
  have hv : (0 : ℚ) < 2 ^ p.c.e := exponent_pos _
  have hsize : (x.f : ℚ) < 2 ^ 64 := by exact_mod_cast hx
  have hnear := hp.near
  have hunit : (2 : ℚ) ^ (x.mul p.c).e = 2 ^ x.e * (2 ^ p.c.e * 2 ^ 64) := by
    rw [show (x.mul p.c).e = x.e + p.c.e + (64 : ℕ) from rfl, two_zpow_add,
      zpow_add₀ (by norm_num)]
    ring
  have hround : |((x.mul p.c).f : ℚ) * 2 ^ 64 - x.f * p.c.f| ≤ 2 ^ 63 := by
    rw [Diyfp.mul_f hx hp.size, abs_le]
    generalize hn : x.f * p.c.f = n
    have hlow : (n + 2 ^ 63) / 2 ^ 64 * 2 ^ 64 ≤ n + 2 ^ 63 := by omega
    have hhigh : n ≤ (n + 2 ^ 63) / 2 ^ 64 * 2 ^ 64 + 2 ^ 63 := by omega
    have hlow' : (((n + 2 ^ 63) / 2 ^ 64 : ℕ) : ℚ) * 2 ^ 64 ≤ n + 2 ^ 63 := by exact_mod_cast hlow
    have hhigh' : (n : ℚ) ≤ ((n + 2 ^ 63) / 2 ^ 64 : ℕ) * 2 ^ 64 + 2 ^ 63 := by
      exact_mod_cast hhigh
    rw [← Nat.cast_mul, hn]
    constructor <;> linarith
  have hdiff : (x.mul p.c).value - x.value * 10 ^ p.k = 2 ^ x.e * (2 ^ p.c.e *
      ((x.mul p.c).f * 2 ^ 64 - x.f * p.c.f) + x.f * (p.c.value - 10 ^ p.k)) := by
    rw [Diyfp.value, hunit, Diyfp.value, Diyfp.value]
    ring
  have hfirst : |2 ^ p.c.e * ((x.mul p.c).f * 2 ^ 64 - x.f * p.c.f : ℚ)| ≤ 2 ^ p.c.e * 2 ^ 63 := by
    rw [abs_mul, abs_of_pos hv]
    exact mul_le_mul_of_nonneg_left hround hv.le
  have hsecond : |x.f * (p.c.value - 10 ^ p.k)| < 2 ^ 64 * (2 ^ p.c.e / 2) := by
    rw [abs_mul, Nat.abs_cast]
    calc (x.f : ℚ) * |p.c.value - 10 ^ p.k| ≤ x.f * (2 ^ p.c.e / 2) :=
        mul_le_mul_of_nonneg_left hnear (Nat.cast_nonneg _)
      _ < 2 ^ 64 * (2 ^ p.c.e / 2) := mul_lt_mul_of_pos_right hsize (by linarith)
  rw [hdiff, abs_mul, abs_of_pos hu, hunit]
  refine mul_lt_mul_of_pos_left ?_ hu
  calc |2 ^ p.c.e * ((x.mul p.c).f * 2 ^ 64 - x.f * p.c.f) + x.f * (p.c.value - 10 ^ p.k)|
      ≤ |2 ^ p.c.e * ((x.mul p.c).f * 2 ^ 64 - x.f * p.c.f : ℚ)| +
        |x.f * (p.c.value - 10 ^ p.k)| := abs_add_le _ _
    _ < 2 ^ p.c.e * 2 ^ 63 + 2 ^ 64 * (2 ^ p.c.e / 2) := add_lt_add_of_le_of_lt hfirst hsecond
    _ = 2 ^ p.c.e * 2 ^ 64 := by ring

/-- The distance of an entry of the table from its power of ten, with the denominators cleared. -/
def CachedPower.Close (p : CachedPower) : Prop :=
  let power := p.c.f * 2 ^ p.c.e.toNat * 10 ^ (-p.k).toNat
  let exact := 10 ^ p.k.toNat * 2 ^ (-p.c.e).toNat
  let unit := 2 ^ p.c.e.toNat * 10 ^ (-p.k).toNat
  (2 ^ 63 ≤ p.c.f ∧ p.c.f < 2 ^ 64) ∧ 2 * power ≤ 2 * exact + unit ∧ 2 * exact ≤ 2 * power + unit

instance (p : CachedPower) : Decidable p.Close := inferInstanceAs (Decidable (_ ∧ _))

theorem cachedPowers_close : ∀ p ∈ kCachedPowers, p.Close := by
  decide +kernel

theorem zpow_toNat {b : ℚ} (hb : b ≠ 0) (n : ℤ) : b ^ n * b ^ (-n).toNat = b ^ n.toNat := by
  rw [← zpow_natCast, ← zpow_natCast, ← zpow_add₀ hb]
  congr 1
  omega

theorem CachedPower.Close.near {p : CachedPower} (h : p.Close) : p.Near := by
  obtain ⟨⟨hlow, hhigh⟩, hle, hge⟩ := h
  refine ⟨hhigh, hlow, ?_⟩
  have htwo := zpow_toNat (show (2 : ℚ) ≠ 0 by norm_num) p.c.e
  have hten := zpow_toNat (show (10 : ℚ) ≠ 0 by norm_num) p.k
  have hle' : 2 * ((p.c.f : ℚ) * 2 ^ p.c.e.toNat * 10 ^ (-p.k).toNat) ≤
      2 * (10 ^ p.k.toNat * 2 ^ (-p.c.e).toNat) + 2 ^ p.c.e.toNat * 10 ^ (-p.k).toNat := by
    exact_mod_cast hle
  have hge' : 2 * ((10 : ℚ) ^ p.k.toNat * 2 ^ (-p.c.e).toNat) ≤
      2 * (p.c.f * 2 ^ p.c.e.toNat * 10 ^ (-p.k).toNat) + 2 ^ p.c.e.toNat * 10 ^ (-p.k).toNat := by
    exact_mod_cast hge
  rw [← htwo, ← hten] at hle' hge'
  have hclear : (0 : ℚ) < 2 ^ (-p.c.e).toNat * 10 ^ (-p.k).toNat := by positivity
  have hdiff : (p.c.f * 2 ^ p.c.e - 10 ^ p.k) * ((2 : ℚ) ^ (-p.c.e).toNat * 10 ^ (-p.k).toNat) =
      p.c.f * (2 ^ p.c.e * 2 ^ (-p.c.e).toNat) * 10 ^ (-p.k).toNat -
        10 ^ p.k * 10 ^ (-p.k).toNat * 2 ^ (-p.c.e).toNat := by ring
  have hunit : (2 : ℚ) ^ p.c.e / 2 * (2 ^ (-p.c.e).toNat * 10 ^ (-p.k).toNat) =
      2 ^ p.c.e * 2 ^ (-p.c.e).toNat * 10 ^ (-p.k).toNat / 2 := by ring
  rw [Diyfp.value, abs_le]
  constructor
  · refine le_of_mul_le_mul_right ?_ hclear
    rw [neg_mul, hunit, hdiff]
    linarith
  · refine le_of_mul_le_mul_right ?_ hclear
    rw [hunit, hdiff]
    linarith

/-- For the exponents that doubles come to, the product fits both loops over the digits. -/
theorem cachedPowerIndex_fits : ∀ n : ℕ, n < 2098 → let e : ℤ := n - 1137
    (cachedPowerIndex e).toNat < kCachedPowers.length ∧
      kAlpha ≤ (get_cached_power_for_binary_exponent e).c.e + e + 64 ∧
      (get_cached_power_for_binary_exponent e).c.e + e + 64 ≤ kGamma := by
  decide +kernel

theorem cached_power_spec {e : ℤ} (hlow : -1137 ≤ e) (hhigh : e ≤ 960) :
    (get_cached_power_for_binary_exponent e).Near ∧
      kAlpha ≤ (get_cached_power_for_binary_exponent e).c.e + e + 64 ∧
      (get_cached_power_for_binary_exponent e).c.e + e + 64 ≤ kGamma := by
  have hfits := cachedPowerIndex_fits (e + 1137).toNat (by omega)
  rw [show (((e + 1137).toNat : ℕ) : ℤ) - 1137 = e by omega] at hfits
  obtain ⟨hindex, hrange⟩ := hfits
  refine ⟨(cachedPowers_close _ ?_).near, hrange⟩
  rw [get_cached_power_for_binary_exponent, List.getD_eq_getElem _ _ hindex]
  exact List.getElem_mem hindex

end Products

section Normalized

namespace Diyfp

theorem normalize_spec {x : Diyfp} (hpos : 0 < x.f) (hsize : x.f < 2 ^ 64) :
    ∃ k : ℕ, x.normalize = ⟨x.f * 2 ^ k, x.e - k⟩ ∧ 2 ^ 63 ≤ x.f * 2 ^ k ∧ x.f * 2 ^ k < 2 ^ 64 := by
  fun_induction normalize x with
  | case1 x h ih =>
    have hdouble : u64 (2 * x.f) = 2 * x.f := u64_of_lt (by omega)
    rw [hdouble] at ih ⊢
    obtain ⟨k, hk, hlow, hhigh⟩ := ih (Nat.mul_pos two_pos hpos)
      (show 2 * x.f < 2 ^ 64 by omega)
    have hstep : 2 * x.f * 2 ^ k = x.f * 2 ^ (k + 1) := by ring
    simp only [hstep] at hk hlow hhigh
    refine ⟨k + 1, hk.trans ?_, hlow, hhigh⟩
    congr 1
    push_cast
    ring
  | case2 x h => exact ⟨0, by simp, by omega, by omega⟩

theorem value_shift (x : Diyfp) (k : ℕ) : value ⟨x.f * 2 ^ k, x.e - k⟩ = x.value := by
  rw [value, value, zpow_sub₀ (by norm_num), zpow_natCast]
  push_cast
  field_simp

end Diyfp

/-- The boundaries of a double, in 64 bits and with one exponent. -/
structure Boundaries.Of (b : Boundaries) (f : ℕ) (e : ℤ) : Prop where
  size : b.plus.f < 2 ^ 64
  normal : 2 ^ 63 ≤ b.plus.f
  pos : 0 < b.minus.f
  apart : b.minus.f + 1024 ≤ b.plus.f
  exponent : b.minus.e = b.plus.e
  plus : b.plus.value = (f + 1 / 2) * 2 ^ e
  minus : b.minus.value = Represents.lower f e * 2 ^ e
  low : -1137 ≤ b.plus.e
  high : b.plus.e ≤ 960

theorem reinterpret_bits_eq {q : ℚ} (hq : 0 < q) (h : toDouble q = some q) :
    ∃ f e, Represents f e q ∧ reinterpret_bits q =
      if f < kHiddenBit then (0, f) else ((e + kBias).toNat, f - kHiddenBit) :=
  ⟨_, _, represents_of_toDouble hq rfl h, rfl⟩

/-- What `compute_boundaries` does with the significand and the exponent. -/
theorem compute_boundaries_eq {q : ℚ} (hq : 0 < q) (h : toDouble q = some q) :
    ∃ f e, Represents f e q ∧ compute_boundaries q =
      let m_plus : Diyfp := ⟨2 * f + 1, e - 1⟩
      let m_minus : Diyfp :=
        if f = 2 ^ 52 ∧ -1074 < e then ⟨4 * f - 1, e - 2⟩ else ⟨2 * f - 1, e - 1⟩
      ⟨Diyfp.normalize ⟨f, e⟩, m_minus.normalize_to m_plus.normalize.e, m_plus.normalize⟩ := by
  obtain ⟨f, e, hf, hbits⟩ := reinterpret_bits_eq hq h
  have hlow := hf.low
  have hpos := hf.pos
  have hhidden : kHiddenBit = 2 ^ 52 := rfl
  have hbias : kBias = 1075 := rfl
  have hmin : kMinExp = -1074 := rfl
  refine ⟨f, e, hf, ?_⟩
  rw [compute_boundaries, hbits]
  rcases Nat.lt_or_ge f kHiddenBit with hsub | hnormal
  · obtain rfl : e = -1074 := hf.normal.resolve_left (by omega)
    have hcloser : ¬ (f = 0 ∧ 1 < 0) := by omega
    have hlower : ¬ (f = 2 ^ 52 ∧ (-1074 : ℤ) < -1074) := by omega
    simp only [if_pos hsub, if_true, if_neg hcloser, if_neg hlower, hmin]
  · have hE : (e + kBias).toNat ≠ 0 := by omega
    have hv : f - kHiddenBit + kHiddenBit = f := by omega
    have he : ((e + kBias).toNat : ℤ) - kBias = e := by omega
    have hcloser : (f - kHiddenBit = 0 ∧ 1 < (e + kBias).toNat) ↔ (f = 2 ^ 52 ∧ -1074 < e) := by
      omega
    simp only [if_neg (Nat.not_lt.mpr hnormal), if_neg hE, hv, he, hcloser]

theorem normalize_to_spec {x : Diyfp} (target : ℤ) {k : ℕ} (he : x.e = target + k)
    (hsize : x.f * 2 ^ k < 2 ^ 64) :
    x.normalize_to target = ⟨x.f * 2 ^ k, x.e - k⟩ := by
  have hk : (x.e - target).toNat = k := by omega
  rw [Diyfp.normalize_to, hk, Diyfp.u64_of_lt hsize]
  congr 1
  omega

theorem value_half (n : ℕ) (e : ℤ) : Diyfp.value ⟨n, e - 1⟩ = (n : ℚ) / 2 * 2 ^ e := by
  rw [Diyfp.value, zpow_sub₀ (by norm_num), zpow_one]
  ring

theorem value_quarter (n : ℕ) (e : ℤ) : Diyfp.value ⟨n, e - 2⟩ = (n : ℚ) / 4 * 2 ^ e := by
  rw [Diyfp.value, zpow_sub₀ (by norm_num), show (2 : ℚ) ^ (2 : ℤ) = 4 by norm_num]
  ring

/-- How far a significand of at most 54 bits, and more than one, is shifted. -/
theorem shift_bounds {n k : ℕ} (hlow : 3 ≤ n) (hhigh : n < 2 ^ 54) (hnormal : 2 ^ 63 ≤ n * 2 ^ k)
    (hsize : n * 2 ^ k < 2 ^ 64) : 10 ≤ k ∧ k ≤ 62 := by
  constructor
  · by_contra h
    have hpow : 2 ^ k ≤ 2 ^ 9 := Nat.pow_le_pow_right (by decide) (by omega)
    have hle := Nat.mul_le_mul_left n hpow
    omega
  · by_contra h
    have hpow : 2 ^ 63 ≤ 2 ^ k := Nat.pow_le_pow_right (by decide) (by omega)
    have hle := Nat.mul_le_mul hlow hpow
    omega

theorem compute_boundaries_of {q : ℚ} (hq : 0 < q) (h : toDouble q = some q) :
    ∃ f e, Represents f e q ∧ (compute_boundaries q).Of f e := by
  obtain ⟨f, e, hf, hboundaries⟩ := compute_boundaries_eq hq h
  refine ⟨f, e, hf, ?_⟩
  rw [hboundaries]
  have hpos := hf.pos
  have hsize := hf.size
  have hlow := hf.low
  have hhigh := hf.high
  obtain ⟨k, hplus, hnormal, hfits⟩ := Diyfp.normalize_spec (x := ⟨2 * f + 1, e - 1⟩)
    (Nat.succ_pos _) (show 2 * f + 1 < 2 ^ 64 by omega)
  obtain ⟨hk, hk'⟩ := shift_bounds (show 3 ≤ 2 * f + 1 by omega) (by omega) hnormal hfits
  have hpow : 2 ^ 10 ≤ 2 ^ k := Nat.pow_le_pow_right (by decide) hk
  have hvalue : Diyfp.value ⟨(2 * f + 1) * 2 ^ k, e - 1 - k⟩ = (f + 1 / 2) * 2 ^ e := by
    rw [Diyfp.value_shift ⟨2 * f + 1, e - 1⟩ k, value_half]
    push_cast
    ring
  simp only at hplus hnormal hfits
  simp only [hplus]
  by_cases hcloser : f = 2 ^ 52 ∧ -1074 < e
  · rw [if_pos hcloser]
    obtain ⟨j, rfl⟩ : ∃ j, k = j + 1 := ⟨k - 1, by omega⟩
    have hdouble : (2 * f + 1) * 2 ^ (j + 1) = (4 * f - 1) * 2 ^ j + 3 * 2 ^ j := by
      rw [← Nat.add_mul, pow_succ, show 4 * f - 1 + 3 = (2 * f + 1) * 2 by omega]
      ring
    rw [pow_succ] at hpow
    have hminus := normalize_to_spec (x := ⟨4 * f - 1, e - 2⟩) (e - 1 - (j + 1 : ℕ)) (k := j)
      (by push_cast; ring) (show (4 * f - 1) * 2 ^ j < 2 ^ 64 by omega)
    rw [hminus]
    refine ⟨hfits, hnormal, Nat.mul_pos (show 0 < 4 * f - 1 by omega) (by positivity), ?_, ?_,
      hvalue, ?_, ?_, ?_⟩
    · show (4 * f - 1) * 2 ^ j + 1024 ≤ (2 * f + 1) * 2 ^ (j + 1)
      omega
    · push_cast
      ring
    · rw [Diyfp.value_shift ⟨4 * f - 1, e - 2⟩ j, value_quarter, Represents.lower, if_pos hcloser,
        Nat.cast_sub (by omega)]
      push_cast
      ring
    · show -1137 ≤ e - 1 - (j + 1 : ℕ)
      omega
    · show e - 1 - (j + 1 : ℕ) ≤ 960
      omega
  · rw [if_neg hcloser]
    have hdouble : (2 * f + 1) * 2 ^ k = (2 * f - 1) * 2 ^ k + 2 * 2 ^ k := by
      rw [← Nat.add_mul, show 2 * f - 1 + 2 = 2 * f + 1 by omega]
    have hminus := normalize_to_spec (x := ⟨2 * f - 1, e - 1⟩) (e - 1 - k) (k := k)
      (by ring) (show (2 * f - 1) * 2 ^ k < 2 ^ 64 by omega)
    rw [hminus]
    refine ⟨hfits, hnormal, Nat.mul_pos (show 0 < 2 * f - 1 by omega) (by positivity), ?_, rfl,
      hvalue, ?_, ?_, ?_⟩
    · show (2 * f - 1) * 2 ^ k + 1024 ≤ (2 * f + 1) * 2 ^ k
      omega
    · rw [Diyfp.value_shift ⟨2 * f - 1, e - 1⟩ k, value_half, Represents.lower, if_neg hcloser,
        Nat.cast_sub (by omega)]
      push_cast
      ring
    · show -1137 ≤ e - 1 - (k : ℤ)
      omega
    · show e - 1 - (k : ℤ) ≤ 960
      omega

end Normalized

end ServiceSystem.Nlohmann

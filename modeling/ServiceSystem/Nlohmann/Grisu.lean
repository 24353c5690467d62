import ServiceSystem.Nlohmann.Diyfp

namespace ServiceSystem.Nlohmann

open Foundations

section Digits

/-- The number of digits of `n`, and the power of ten that its first digit counts. -/
def find_largest_pow10 (n : ℕ) : ℕ × ℕ :=
  if 1000000000 ≤ n then (10, 1000000000)
  else if 100000000 ≤ n then (9, 100000000)
  else if 10000000 ≤ n then (8, 10000000)
  else if 1000000 ≤ n then (7, 1000000)
  else if 100000 ≤ n then (6, 100000)
  else if 10000 ≤ n then (5, 10000)
  else if 1000 ≤ n then (4, 1000)
  else if 100 ≤ n then (3, 100)
  else if 10 ≤ n then (2, 10)
  else (1, 1)

/-- `buf[len - 1]--`. -/
def decrementLast (buf : Str) : Str :=
  buf.dropLast ++ [Char.ofNat ((buf.getLastD '0').toNat - 1)]

/-- The last digit is made smaller while that takes the number closer to `w`; a unit of it,
`ten_k`, is not 0. -/
def grisu2_round (buf : Str) (dist delta rest ten_k : ℕ) : Str :=
  if 0 < ten_k ∧ rest < dist ∧ ten_k ≤ delta - rest ∧
      (rest + ten_k < dist ∨ rest + ten_k - dist < dist - rest) then
    grisu2_round (decrementLast buf) dist delta (rest + ten_k) ten_k
  else buf
termination_by dist - rest
decreasing_by omega

def digit (d : ℕ) : Char := Char.ofNat ('0'.toNat + d)

/-- The loop over the digits of the integral part: the digits and their exponent, or, where these
are too few yet, the digits so far. The number that `M_plus` begins with is in `2 ^ shift`ths. -/
def integralDigits (delta dist shift p2 : ℕ) (buffer : Str) (p1 pow10 : ℕ) : ℕ → (Str × ℤ) ⊕ Str
  | 0 => .inr buffer
  | n + 1 =>
    let buffer := buffer ++ [digit (p1 / pow10)]
    let r := p1 % pow10
    let rest := u64 (u64 (r * 2 ^ shift) + p2)
    if rest ≤ delta then
      .inl (grisu2_round buffer dist delta rest (u64 (pow10 * 2 ^ shift)), n)
    else integralDigits delta dist shift p2 buffer r (pow10 / 10) n

/-- The loop over the digits of the fractional part, in at most as many rounds as `fuel` says. -/
def fractionalDigits (shift : ℕ) (delta dist : ℕ) (buffer : Str) (p2 m : ℕ) : ℕ → Str × ℤ
  | 0 => (buffer, -m)
  | fuel + 1 =>
    let p2 := u64 (p2 * 10)
    let buffer := buffer ++ [digit (p2 / 2 ^ shift)]
    let r := p2 % 2 ^ shift
    let delta := u64 (delta * 10)
    let dist := u64 (dist * 10)
    if r ≤ delta then (grisu2_round buffer dist delta r (2 ^ shift), -(m + 1 : ℕ))
    else fractionalDigits shift delta dist buffer r (m + 1) fuel

/-- More digits of a fraction in 64 bits are never needed. -/
def fractionFuel : ℕ := 20

/-- Some digits and their exponent. -/
def grisu2_digit_gen (M_minus w M_plus : Diyfp) : Str × ℤ :=
  let delta := (M_plus.sub M_minus).f
  let dist := (M_plus.sub w).f
  let shift := (-M_plus.e).toNat
  let p1 := M_plus.f / 2 ^ shift % 2 ^ 32
  let p2 := M_plus.f % 2 ^ shift
  let (k, pow10) := find_largest_pow10 p1
  match integralDigits delta dist shift p2 [] p1 pow10 k with
  | .inl result => result
  | .inr buffer => fractionalDigits shift delta dist buffer p2 0 fractionFuel

/-- Some digits between the boundaries, and their exponent. -/
def grisu2Between (b : Boundaries) : Str × ℤ :=
  let cached := get_cached_power_for_binary_exponent b.plus.e
  let w := b.w.mul cached.c
  let w_minus := b.minus.mul cached.c
  let w_plus := b.plus.mul cached.c
  let result := grisu2_digit_gen ⟨u64 (w_minus.f + 1), w_minus.e⟩ w
    ⟨u64 (w_plus.f + 2 ^ 64 - 1), w_plus.e⟩
  (result.1, result.2 - cached.k)

/-- The digits of a positive double, and their exponent. -/
def grisu2 (value : ℚ) : Str × ℤ := grisu2Between (compute_boundaries value)

end Digits

section Decimals

/-- Digits without a leading 0, and the number that they are. -/
structure Decimal (buf : Str) (n : ℕ) : Prop where
  digits : ∀ c ∈ buf, c.isDigit
  value : natOf buf = n
  leading : buf.head? ≠ some '0'

theorem digit_spec : ∀ d < 10, (digit d).isDigit ∧ (digit d).toNat = 48 + d ∧
    (0 < d → digit d ≠ '0' ∧ Char.ofNat ((digit d).toNat - 1) = digit (d - 1)) := by
  decide

theorem natOf_append (buf : Str) {d : ℕ} (hd : d < 10) :
    natOf (buf ++ [digit d]) = 10 * natOf buf + d := by
  have hvalue := (digit_spec d hd).2.1
  have hzero : '0'.toNat = 48 := rfl
  rw [natOf, Nat.ofDigitChars_append, Nat.ofDigitChars_cons, Nat.ofDigitChars_nil, hvalue, natOf]
  omega

namespace Decimal

theorem nil : Decimal [] 0 := ⟨nofun, rfl, nofun⟩

theorem append {buf : Str} {n d : ℕ} (h : Decimal buf n) (hd : d < 10) (hpos : 0 < n ∨ 0 < d) :
    Decimal (buf ++ [digit d]) (10 * n + d) := by
  obtain ⟨hdigit, -, hzero⟩ := digit_spec d hd
  constructor
  · intro c hc
    rcases List.mem_append.mp hc with hc | hc
    · exact h.digits c hc
    · rwa [List.mem_singleton.mp hc]
  · rw [natOf_append buf hd, h.value]
  · cases hbuf : buf with
    | nil =>
      have hn : n = 0 := by
        rw [← h.value, hbuf]
        rfl
      simpa using (hzero (by omega)).1
    | cons c rest =>
      have hleading := h.leading
      rw [hbuf] at hleading
      exact hleading

end Decimal

end Decimals

section Rounding

theorem decrementLast_eq (front : Str) {d : ℕ} (hd : d < 10) (hpos : 0 < d) :
    decrementLast (front ++ [digit d]) = front ++ [digit (d - 1)] := by
  rw [decrementLast, List.dropLast_concat, List.getLastD_concat, ((digit_spec d hd).2.2 hpos).2]

/-- The last digit stays above 0, and the number in its interval. -/
theorem grisu2_round_spec (front : Str) (dist delta ten_k : ℕ) {d rest : ℕ} (hd : d < 10)
    (hrest : rest ≤ delta) (hdigit : delta < d * ten_k + rest) :
    ∃ j < d, grisu2_round (front ++ [digit d]) dist delta rest ten_k = front ++ [digit (d - j)] ∧
      rest + j * ten_k ≤ delta := by
  induction d generalizing rest with
  | zero => omega
  | succ d ih =>
    rw [grisu2_round]
    split_ifs with h
    · rw [decrementLast_eq front hd d.succ_pos, Nat.add_sub_cancel]
      have hstep : (d + 1) * ten_k = d * ten_k + ten_k := Nat.succ_mul d ten_k
      obtain ⟨j, hj, hround, hle⟩ := ih (by omega) (show rest + ten_k ≤ delta by omega)
        (by omega)
      have hnext : (j + 1) * ten_k = j * ten_k + ten_k := Nat.succ_mul j ten_k
      exact ⟨j + 1, by omega, by rw [hround, Nat.add_sub_add_right], by omega⟩
    · exact ⟨0, by omega, rfl, by omega⟩

end Rounding

section Loops

open Diyfp

/-- What the digits stand for, and the exponent: a number between `f - delta` and `f`, where the
latter are in `2 ^ shift`ths. -/
def Within (shift f delta : ℕ) (result : Str × ℤ) : Prop :=
  ∃ n a b : ℕ, Decimal result.1 n ∧ result.2 = (a : ℤ) - b ∧
    n * 10 ^ a * 2 ^ shift ≤ f * 10 ^ b ∧ f * 10 ^ b ≤ n * 10 ^ a * 2 ^ shift + delta * 10 ^ b

/-- The last digit: where the number is in the interval with it, `grisu2_round` ends in it too. -/
theorem round_within (shift f delta dist rest a b : ℕ) {buffer : Str} {ten_k B d : ℕ}
    (hbuffer : Decimal buffer B) (hd : d < 10) (hunit : ten_k = 10 ^ a * 2 ^ shift)
    (hf : f * 10 ^ b = B * 10 * ten_k + d * ten_k + rest) (hrest : rest ≤ delta * 10 ^ b)
    (hdigit : delta * 10 ^ b < d * ten_k + rest) :
    Within shift f delta (grisu2_round (buffer ++ [digit d]) dist (delta * 10 ^ b) rest ten_k,
      a - b) := by
  obtain ⟨j, hj, hround, hle⟩ := grisu2_round_spec buffer dist (delta * 10 ^ b) ten_k hd hrest hdigit
  rw [hround]
  refine ⟨10 * B + (d - j), a, b, hbuffer.append (by omega) (.inr (by omega)), rfl, ?_⟩
  have hsplit : d * ten_k = (d - j) * ten_k + j * ten_k := by
    rw [← Nat.add_mul, Nat.sub_add_cancel hj.le]
  have hvalue : (10 * B + (d - j)) * 10 ^ a * 2 ^ shift = B * 10 * ten_k + (d - j) * ten_k := by
    rw [hunit]
    ring
  rw [hvalue]
  omega

theorem integralDigits_spec (delta dist shift p2 : ℕ) {f : ℕ} (hf : f < 2 ^ 64)
    {buffer : Str} {p1 pow10 n B : ℕ} (hbuffer : Decimal buffer B)
    (hpow : ∀ k, n = k + 1 → pow10 = 10 ^ k) (hp1 : p1 < 10 ^ n)
    (hvalue : f = (B * 10 ^ n + p1) * 2 ^ shift + p2) (hdelta : delta < p1 * 2 ^ shift + p2)
    (hpos : 0 < B ∨ ∃ k, n = k + 1 ∧ 10 ^ k ≤ p1) :
    match integralDigits delta dist shift p2 buffer p1 pow10 n with
    | .inl result => Within shift f delta result
    | .inr buffer => ∃ B, Decimal buffer B ∧ 0 < B ∧ f = B * 2 ^ shift + p2 ∧ delta < p2 := by
  induction n generalizing buffer p1 pow10 B with
  | zero =>
    have hzero : p1 = 0 := by simpa using hp1
    have hB : 0 < B := hpos.resolve_right fun ⟨_, hk, _⟩ ↦ by omega
    rw [hzero, Nat.zero_mul, Nat.zero_add] at hdelta
    rw [hzero, pow_zero, Nat.mul_one, Nat.add_zero] at hvalue
    exact ⟨B, hbuffer, hB, hvalue, hdelta⟩
  | succ n ih =>
    obtain rfl := hpow n rfl
    have hten : 0 < 10 ^ n := by positivity
    have hd : p1 / 10 ^ n < 10 := by
      rw [Nat.div_lt_iff_lt_mul hten, ← pow_succ']
      exact hp1
    have hr : p1 % 10 ^ n < 10 ^ n := Nat.mod_lt _ hten
    have hsplit : p1 / 10 ^ n * 10 ^ n + p1 % 10 ^ n = p1 := Nat.div_add_mod' p1 (10 ^ n)
    rw [integralDigits]
    generalize p1 / 10 ^ n = d at *
    generalize p1 % 10 ^ n = r at *
    have hunit : d * 10 ^ n * 2 ^ shift = d * (10 ^ n * 2 ^ shift) := Nat.mul_assoc _ _ _
    have hrest : f = B * 10 * (10 ^ n * 2 ^ shift) + d * (10 ^ n * 2 ^ shift) +
        (r * 2 ^ shift + p2) := by
      rw [hvalue, ← hsplit]
      ring
    have habove : delta < d * (10 ^ n * 2 ^ shift) + (r * 2 ^ shift + p2) := by
      rw [← hsplit, Nat.add_mul, hunit] at hdelta
      omega
    have hsome : 0 < B ∨ 0 < d := by
      refine hpos.imp_right ?_
      intro hk
      obtain ⟨k, hk, hp1⟩ := hk
      obtain rfl : n = k := Nat.succ_injective hk
      by_contra hzero
      rw [Nat.eq_zero_of_not_pos hzero, Nat.zero_mul, Nat.zero_add] at hsplit
      omega
    have hten_n : 10 ^ n * 2 ^ shift ≤ f := by
      rcases hsome with hB | hd
      · have hle := Nat.mul_le_mul_right (10 ^ n * 2 ^ shift) (show 1 ≤ B * 10 by omega)
        omega
      · have hle := Nat.mul_le_mul_right (10 ^ n * 2 ^ shift) (show 1 ≤ d from hd)
        omega
    have hfits : u64 (u64 (r * 2 ^ shift) + p2) = r * 2 ^ shift + p2 := by
      rw [u64_of_lt (show r * 2 ^ shift < 2 ^ 64 by omega), u64_of_lt (by omega)]
    simp only [hfits, u64_of_lt (hten_n.trans_lt hf)]
    split_ifs with hdone
    · have hwithin := round_within shift f delta dist (r * 2 ^ shift + p2) n 0 hbuffer hd rfl
      simp only [pow_zero, Nat.mul_one, Nat.cast_zero, sub_zero] at hwithin
      exact hwithin hrest hdone habove
    · refine ih (hbuffer.append hd hsome) ?_ hr ?_ (Nat.not_le.mp hdone) (.inl (by omega))
      · intro k hk
        rw [hk, pow_succ, Nat.mul_div_cancel _ (by decide)]
      · rw [hrest]
        ring

theorem fractionalDigits_spec {delta₀ shift f : ℕ} (hshift : shift ≤ 60) {fuel : ℕ}
    {buffer : Str} {delta dist p2 m B : ℕ} (hbuffer : Decimal buffer B) (hB : 0 < B)
    (hp2 : p2 < 2 ^ shift) (hvalue : f * 10 ^ m = B * 2 ^ shift + p2)
    (hscaled : delta = delta₀ * 10 ^ m) (hdelta : delta < p2) (hfuel : 2 ^ shift ≤ delta * 10 ^ fuel) :
    Within shift f delta₀ (fractionalDigits shift delta dist buffer p2 m fuel) := by
  have hpow : 2 ^ shift ≤ 2 ^ 60 := Nat.pow_le_pow_right (by decide) hshift
  induction fuel generalizing buffer delta dist p2 m B with
  | zero => omega
  | succ fuel ih =>
    have hmod := Nat.div_add_mod' (p2 * 10) (2 ^ shift)
    have hr : p2 * 10 % 2 ^ shift < 2 ^ shift := Nat.mod_lt _ (by positivity)
    have hd : p2 * 10 / 2 ^ shift < 10 := by
      rw [Nat.div_lt_iff_lt_mul (by positivity)]
      omega
    have hnext : f * 10 ^ (m + 1) = (B * 2 ^ shift + p2) * 10 := by
      rw [← hvalue]
      ring
    have hscaled' : delta * 10 = delta₀ * 10 ^ (m + 1) := by
      rw [hscaled]
      ring
    rw [fractionalDigits]
    simp only [u64_of_lt (show p2 * 10 < 2 ^ 64 by omega),
      u64_of_lt (show delta * 10 < 2 ^ 64 by omega)]
    generalize p2 * 10 / 2 ^ shift = d at *
    generalize p2 * 10 % 2 ^ shift = r at *
    split_ifs with hdone
    · have hwithin := round_within shift f delta₀ (u64 (dist * 10)) r 0 (m + 1) hbuffer hd
        (Nat.one_mul _).symm
      rw [← hscaled', Nat.cast_zero, zero_sub] at hwithin
      refine hwithin ?_ hdone (by omega)
      rw [hnext, Nat.add_mul, ← hmod]
      ring
    · refine ih (hbuffer.append hd (.inl hB)) (by omega) hr ?_ hscaled' (by omega) ?_
      · rw [hnext, Nat.add_mul, ← hmod]
        ring
      · rwa [pow_succ', ← Nat.mul_assoc] at hfuel

theorem find_largest_pow10_spec {n : ℕ} (hpos : 0 < n) (hsize : n < 2 ^ 32) :
    ∃ k, find_largest_pow10 n = (k + 1, 10 ^ k) ∧ 10 ^ k ≤ n ∧ n < 10 ^ (k + 1) := by
  unfold find_largest_pow10
  split_ifs
  · exact ⟨9, rfl, by omega, by omega⟩
  · exact ⟨8, rfl, by omega, by omega⟩
  · exact ⟨7, rfl, by omega, by omega⟩
  · exact ⟨6, rfl, by omega, by omega⟩
  · exact ⟨5, rfl, by omega, by omega⟩
  · exact ⟨4, rfl, by omega, by omega⟩
  · exact ⟨3, rfl, by omega, by omega⟩
  · exact ⟨2, rfl, by omega, by omega⟩
  · exact ⟨1, rfl, by omega, by omega⟩
  · exact ⟨0, rfl, by omega, by omega⟩

theorem grisu2_digit_gen_spec (M_minus w M_plus : Diyfp) (hsize : M_plus.f < 2 ^ 64)
    (hnormal : 2 ^ 60 ≤ M_plus.f) (hpos : 0 < M_minus.f) (hlt : M_minus.f < M_plus.f) {shift : ℕ}
    (hshift : (-M_plus.e).toNat = shift) (hlow : 32 ≤ shift) (hhigh : shift ≤ 60) :
    Within shift M_plus.f (M_plus.f - M_minus.f) (grisu2_digit_gen M_minus w M_plus) := by
  have hpow : 2 ^ shift ≤ 2 ^ 60 := Nat.pow_le_pow_right (by decide) hhigh
  have hpow' : 2 ^ 32 ≤ 2 ^ shift := Nat.pow_le_pow_right (by decide) hlow
  have hdelta : (M_plus.sub M_minus).f = M_plus.f - M_minus.f := by
    show u64 (M_plus.f + 2 ^ 64 - M_minus.f) = _
    rw [u64]
    omega
  have hp1 : 0 < M_plus.f / 2 ^ shift := Nat.div_pos (by omega) (by omega)
  have hp1' : M_plus.f / 2 ^ shift < 2 ^ 32 := by
    rw [Nat.div_lt_iff_lt_mul (by omega)]
    omega
  have hp2 : M_plus.f % 2 ^ shift < 2 ^ shift := Nat.mod_lt _ (by omega)
  have hsplit := Nat.div_add_mod' M_plus.f (2 ^ shift)
  obtain ⟨k, hk, hfirst, hlast⟩ := find_largest_pow10_spec hp1 hp1'
  have hintegral := integralDigits_spec (M_plus.f - M_minus.f) (M_plus.sub w).f shift
    (M_plus.f % 2 ^ shift) hsize Decimal.nil
    (fun j hj ↦ congrArg (10 ^ ·) (Nat.succ_injective hj)) hlast (by rw [Nat.zero_mul, Nat.zero_add, hsplit]) (by rw [hsplit]; omega)
    (.inr ⟨k, rfl, hfirst⟩)
  simp only [grisu2_digit_gen, hshift, hdelta, Nat.mod_eq_of_lt hp1', hk]
  generalize integralDigits _ _ _ _ _ _ _ _ = result at hintegral
  cases result with
  | inl result => exact hintegral
  | inr buffer =>
    obtain ⟨B, hbuffer, hB, hvalue, hdelta⟩ := hintegral
    refine fractionalDigits_spec hhigh hbuffer hB hp2 ?_ (Nat.mul_one _).symm hdelta ?_
    · rw [pow_zero, Nat.mul_one]
      exact hvalue
    · have hfuel : 1 * 10 ^ fractionFuel ≤ (M_plus.f - M_minus.f) * 10 ^ fractionFuel :=
        Nat.mul_le_mul_right _ (by omega)
      have hten : 2 ^ 60 ≤ 1 * 10 ^ fractionFuel := by decide
      omega

end Loops

section Shortest

open Diyfp

/-- A number in `2 ^ shift`ths lies where its digits say. -/
theorem Within.bounds {shift f delta : ℕ} {result : Str × ℤ} (h : Within shift f delta result) :
    ∃ n, Decimal result.1 n ∧ (n : ℚ) * 10 ^ result.2 * 2 ^ shift ≤ f ∧
      (f : ℚ) ≤ n * 10 ^ result.2 * 2 ^ shift + delta := by
  obtain ⟨n, a, b, hn, he, hle, hge⟩ := h
  refine ⟨n, hn, ?_⟩
  have hten : (0 : ℚ) < 10 ^ b := by positivity
  have hscale : (n : ℚ) * 10 ^ result.2 * 2 ^ shift * 10 ^ b = n * 10 ^ a * 2 ^ shift := by
    rw [he, zpow_sub₀ (by norm_num), zpow_natCast, zpow_natCast]
    field_simp
  have hle' : (n : ℚ) * 10 ^ a * 2 ^ shift ≤ f * 10 ^ b := by exact_mod_cast hle
  have hge' : (f : ℚ) * 10 ^ b ≤ n * 10 ^ a * 2 ^ shift + delta * 10 ^ b := by exact_mod_cast hge
  constructor
  · refine le_of_mul_le_mul_right ?_ hten
    rw [hscale]
    exact hle'
  · refine le_of_mul_le_mul_right ?_ hten
    rw [add_mul, hscale]
    exact hge'

/-- Numbers that are apart are so after a multiplication. -/
theorem mul_apart {x y c : Diyfp} (hx : x.f + 1024 ≤ y.f) (hy : y.f < 2 ^ 64) (hy' : 2 ^ 63 ≤ y.f)
    (hc : c.f < 2 ^ 64) (hc' : 2 ^ 63 ≤ c.f) :
    (x.mul c).f + 512 ≤ (y.mul c).f ∧ 2 ^ 62 ≤ (y.mul c).f ∧ (y.mul c).f < 2 ^ 64 := by
  rw [mul_f (by omega) hc, mul_f hy hc]
  have hapart : x.f * c.f + 1024 * 2 ^ 63 ≤ y.f * c.f := by
    have hle := Nat.mul_le_mul_right c.f hx
    rw [Nat.add_mul] at hle
    omega
  have hlow : 2 ^ 63 * 2 ^ 63 ≤ y.f * c.f := Nat.mul_le_mul hy' hc'
  have hhigh : y.f * c.f ≤ (2 ^ 64 - 1) * (2 ^ 64 - 1) := Nat.mul_le_mul (by omega) (by omega)
  generalize x.f * c.f = m at *
  generalize y.f * c.f = n at *
  omega

/-- The interval of the digits, between the boundaries after the multiplication and a unit of their
last bit within. -/
theorem between_of_within {x y : Diyfp} {l u : ℚ} {shift : ℕ} {result : Str × ℤ}
    (hexponent : x.e = y.e) (hshift : y.e = -shift) (hlt : x.f + 1 < y.f)
    (hx : |x.value - l| < 2 ^ x.e) (hy : |y.value - u| < 2 ^ y.e)
    (h : Within shift (y.f - 1) (y.f - 1 - (x.f + 1)) result) :
    ∃ n, Decimal result.1 n ∧ l < n * 10 ^ result.2 ∧ n * 10 ^ result.2 < u := by
  obtain ⟨n, hn, hle, hge⟩ := h.bounds
  refine ⟨n, hn, ?_⟩
  have hunit : (0 : ℚ) < 2 ^ y.e := exponent_pos _
  have hcancel : (2 : ℚ) ^ shift * 2 ^ y.e = 1 := by
    rw [hshift, ← zpow_natCast, ← zpow_add₀ (by norm_num), add_neg_cancel, zpow_zero]
  rw [value] at hx hy
  rw [hexponent] at hx
  have hone : ((y.f - 1 : ℕ) : ℚ) = y.f - 1 := by
    rw [Nat.cast_sub (by omega), Nat.cast_one]
  have htwo : ((y.f - 1 - (x.f + 1) : ℕ) : ℚ) = y.f - 1 - (x.f + 1) := by
    rw [Nat.cast_sub (by omega), hone, Nat.cast_succ]
  rw [hone] at hle hge
  rw [htwo] at hge
  generalize (n : ℚ) * 10 ^ result.2 = t at hle hge ⊢
  have hle' := mul_le_mul_of_nonneg_right hle hunit.le
  have hge' := mul_le_mul_of_nonneg_right hge hunit.le
  rw [mul_assoc, hcancel] at hle'
  rw [add_mul, mul_assoc, hcancel] at hge'
  obtain ⟨hx, -⟩ := abs_lt.mp hx
  obtain ⟨-, hy⟩ := abs_lt.mp hy
  constructor <;> linarith

/-- The numbers between which the digits are looked for do not wrap around. -/
theorem digits_within {x y w : Diyfp} {shift : ℕ} (hshift : y.e = -shift) (hlow : 32 ≤ shift)
    (hhigh : shift ≤ 60) (hapart : x.f + 512 ≤ y.f) (hnormal : 2 ^ 62 ≤ y.f) (hsize : y.f < 2 ^ 64) :
    Within shift (y.f - 1) (y.f - 1 - (x.f + 1))
      (grisu2_digit_gen ⟨u64 (x.f + 1), x.e⟩ w ⟨u64 (y.f + 2 ^ 64 - 1), y.e⟩) := by
  have hx1 : u64 (x.f + 1) = x.f + 1 := u64_of_lt (by omega)
  have hy1 : u64 (y.f + 2 ^ 64 - 1) = y.f - 1 := by
    rw [u64]
    omega
  rw [hx1, hy1]
  have htoNat : (-y.e).toNat = shift := by omega
  exact grisu2_digit_gen_spec ⟨x.f + 1, x.e⟩ w ⟨y.f - 1, y.e⟩
    (show y.f - 1 < 2 ^ 64 by omega) (show 2 ^ 60 ≤ y.f - 1 by omega) (Nat.succ_pos _)
    (show x.f + 1 < y.f - 1 by omega) htoNat hlow hhigh

/-- The exponent of a product with a power that suits the loops over the digits. -/
theorem mul_shift {x c : Diyfp} (hlow : kAlpha ≤ c.e + x.e + 64) (hhigh : c.e + x.e + 64 ≤ kGamma) :
    ∃ shift : ℕ, (x.mul c).e = -shift ∧ 32 ≤ shift ∧ shift ≤ 60 := by
  have halpha : kAlpha = -60 := rfl
  have hgamma : kGamma = -32 := rfl
  refine ⟨(-(c.e + x.e + 64)).toNat, ?_, by omega, by omega⟩
  show x.e + c.e + 64 = _
  omega

theorem digits_between {x y w : Diyfp} {l u : ℚ} (hexponent : x.e = y.e)
    (hshift : ∃ shift : ℕ, y.e = -shift ∧ 32 ≤ shift ∧ shift ≤ 60)
    (hsize : x.f + 512 ≤ y.f ∧ 2 ^ 62 ≤ y.f ∧ y.f < 2 ^ 64)
    (hx : |x.value - l| < 2 ^ x.e) (hy : |y.value - u| < 2 ^ y.e) :
    ∃ n, Decimal (grisu2_digit_gen ⟨u64 (x.f + 1), x.e⟩ w ⟨u64 (y.f + 2 ^ 64 - 1), y.e⟩).1 n ∧
      l < n * 10 ^ (grisu2_digit_gen ⟨u64 (x.f + 1), x.e⟩ w ⟨u64 (y.f + 2 ^ 64 - 1), y.e⟩).2 ∧
      n * 10 ^ (grisu2_digit_gen ⟨u64 (x.f + 1), x.e⟩ w ⟨u64 (y.f + 2 ^ 64 - 1), y.e⟩).2 < u := by
  obtain ⟨shift, hshift, hlow, hhigh⟩ := hshift
  obtain ⟨hapart, hnormal, hsize⟩ := hsize
  have hwithin := digits_within (w := w) hshift hlow hhigh hapart hnormal hsize
  rw [← hexponent] at hwithin ⊢
  exact between_of_within hexponent hshift (by omega) hx hy hwithin

theorem unscale {l u : ℚ} {k : ℤ} {r scaled : Str × ℤ}
    (h : ∃ n : ℕ, Decimal r.1 n ∧ l * 10 ^ k < n * 10 ^ r.2 ∧ n * 10 ^ r.2 < u * 10 ^ k)
    (hscaled : scaled = (r.1, r.2 - k)) :
    ∃ n : ℕ, Decimal scaled.1 n ∧ l < n * 10 ^ scaled.2 ∧ n * 10 ^ scaled.2 < u := by
  obtain ⟨n, hn, hl, hu⟩ := h
  rw [hscaled]
  refine ⟨n, hn, ?_⟩
  have hten : (0 : ℚ) < 10 ^ k := zpow_pos (by norm_num) _
  rw [zpow_sub₀ (by norm_num), ← mul_div_assoc, lt_div_iff₀ hten, div_lt_iff₀ hten]
  exact ⟨hl, hu⟩

theorem grisu2Between_spec {b : Boundaries} {f : ℕ} {e : ℤ} (hb : b.Of f e) :
    ∃ n : ℕ, Decimal (grisu2Between b).1 n ∧
      Represents.lower f e * 2 ^ e < n * 10 ^ (grisu2Between b).2 ∧
      n * 10 ^ (grisu2Between b).2 < (f + 1 / 2 : ℚ) * 2 ^ e := by
  obtain ⟨hcached, hlow, hhigh⟩ := cached_power_spec hb.low hb.high
  have hapart := hb.apart
  have hminus : b.minus.f < 2 ^ 64 := lt_of_le_of_lt (by omega) hb.size
  have hdigits := digits_between
    (w := b.w.mul (get_cached_power_for_binary_exponent b.plus.e).c)
    (congrArg (· + (get_cached_power_for_binary_exponent b.plus.e).c.e + 64) hb.exponent)
    (mul_shift hlow hhigh) (mul_apart hapart hb.size hb.normal hcached.size hcached.normal)
    (hcached.mul hminus) (hcached.mul hb.size)
  rw [hb.minus, hb.plus] at hdigits
  exact unscale hdigits rfl

/-- The digits of a double are read as it. -/
theorem grisu2_spec {q : ℚ} (hq : 0 < q) (h : toDouble q = some q) :
    ∃ n : ℕ, Decimal (grisu2 q).1 n ∧ toDouble (n * 10 ^ (grisu2 q).2) = some q := by
  obtain ⟨f, e, hf, hb⟩ := compute_boundaries_of hq h
  obtain ⟨n, hn, hlower, hupper⟩ := grisu2Between_spec hb
  exact ⟨n, hn, hf.toDouble_near hlower hupper⟩

end Shortest

end ServiceSystem.Nlohmann

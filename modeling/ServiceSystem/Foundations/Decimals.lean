import ServiceSystem.Foundations.Exposition

namespace ServiceSystem.Foundations

namespace Str

/-- The multiple of `10 ^ -precision` that `fixed` spells out. -/
def rounded (precision : ℕ) (q : ℚ) : ℚ :=
  Exposition.signed (decide (q < 0)) ((roundHalfEven (|q| * 10 ^ precision)).toNat / 10 ^ precision)

theorem ofDigitChars_zeroPad (width n : ℕ) :
    Nat.ofDigitChars 10 (zeroPad width (ofNat n)) 0 = n := by
  rw [zeroPad, Nat.ofDigitChars_append, Nat.ofDigitChars_replicate_zero, Nat.mul_zero,
    ofDigitChars_ofNat]

theorem rounded_eq_iff (precision : ℕ) (q : ℚ) :
    rounded precision q = q ↔ ∃ n : ℤ, q * 10 ^ precision = n := by
  have hpos : (0 : ℚ) < 10 ^ precision := by positivity
  constructor
  · intro h
    rw [rounded, Exposition.signed] at h
    generalize (roundHalfEven (|q| * 10 ^ precision)).toNat = n at h
    split_ifs at h
    · exact ⟨-n, by rw [← h, neg_mul, div_mul_cancel₀ _ hpos.ne', Int.cast_neg, Int.cast_natCast]⟩
    · exact ⟨n, by rw [← h, div_mul_cancel₀ _ hpos.ne', Int.cast_natCast]⟩
  · rintro ⟨n, hn⟩
    have habs : |q| * 10 ^ precision = (n.natAbs : ℕ) := by
      rw [← abs_of_pos hpos, ← abs_mul, hn, Nat.cast_natAbs, Int.cast_abs]
    have hq : |q| = n.natAbs / 10 ^ precision := by rw [eq_div_iff hpos.ne', habs]
    rw [rounded, habs, roundHalfEven_natCast, Int.toNat_natCast, ← hq, Exposition.signed]
    by_cases hneg : q < 0
    · simp [hneg, abs_of_neg hneg]
    · simp [hneg, abs_of_nonneg (not_lt.mp hneg)]

end Str

namespace Exposition

open Str

theorem unsigned_point {s ds : Str} (hne : s ≠ []) (h : ∀ c ∈ s, c.isDigit)
    (hds : ∀ c ∈ ds, c.isDigit) : unsigned (s ++ '.' :: ds) =
      some (Nat.ofDigitChars 10 s 0 + (Nat.ofDigitChars 10 ds 0 : ℚ) / 10 ^ ds.length) := by
  obtain ⟨ht, hd⟩ := takeWhile_dropWhile_all hds
  have ht' : (s ++ '.' :: ds).takeWhile Char.isDigit = s := by
    rw [List.takeWhile_append_of_pos h, List.takeWhile_cons_of_neg (by decide), List.append_nil]
  have hd' : (s ++ '.' :: ds).dropWhile Char.isDigit = '.' :: ds := by
    rw [List.dropWhile_append_of_pos h, List.dropWhile_cons_of_neg (by decide)]
  simp [unsigned, ht', hd', ht, hd, hne, exponent]

/-- The digits of `fixed` after its sign. -/
def digits (precision n : ℕ) : Str :=
  ofNat (n / 10 ^ precision) ++
    (if precision = 0 then [] else '.' :: zeroPad precision (ofNat (n % 10 ^ precision)))

theorem unsigned_digits_point (precision n : ℕ) :
    unsigned (digits precision n) = some ((n : ℚ) / 10 ^ precision) := by
  have hwhole : ∀ c ∈ ofNat (n / 10 ^ precision), c.isDigit := fun c ↦ isDigit_ofNat
  unfold digits
  split_ifs with hp
  · subst hp
    rw [List.append_nil, unsigned_digits (ofNat_ne_nil _) hwhole, ofDigitChars_ofNat]
    simp
  · have hlt : n % 10 ^ precision < 10 ^ precision := Nat.mod_lt _ (by positivity)
    have hne : (10 ^ precision : ℚ) ≠ 0 := by positivity
    have hn : (n : ℚ) = 10 ^ precision * (n / 10 ^ precision : ℕ) + (n % 10 ^ precision : ℕ) := by
      exact_mod_cast (Nat.div_add_mod n (10 ^ precision)).symm
    rw [unsigned_point (ofNat_ne_nil _) hwhole (fun c ↦ isDigit_zeroPad), ofDigitChars_ofNat,
      ofDigitChars_zeroPad, zeroPad_length (Nat.pos_of_ne_zero hp) hlt]
    congr 1
    rw [eq_div_iff hne, add_mul, div_mul_cancel₀ _ hne]
    linarith

theorem value_fixed (precision : ℕ) (q : ℚ) :
    value (fixed precision q) = some (.number (rounded precision q)) := by
  have hu := unsigned_digits_point precision (roundHalfEven (|q| * 10 ^ precision)).toNat
  have he : fixed precision q = (if q < 0 then ['-'] else []) ++
      digits precision (roundHalfEven (|q| * 10 ^ precision)).toNat := List.append_assoc ..
  obtain ⟨d, t, hd, hdt⟩ : ∃ d t, digits precision (roundHalfEven (|q| * 10 ^ precision)).toNat =
      d :: t ∧ d.isDigit := by
    obtain ⟨d, t, hdt⟩ := List.exists_cons_of_ne_nil (ofNat_ne_nil
      ((roundHalfEven (|q| * 10 ^ precision)).toNat / 10 ^ precision))
    exact ⟨d, _, by rw [digits, hdt, List.cons_append], isDigit_ofNat (by rw [hdt]; simp)⟩
  have hdn : d ≠ 'N' ∧ d ≠ 'I' ∧ d ≠ '-' ∧ d ≠ '+' := by
    refine ⟨?_, ?_, ?_, ?_⟩ <;> rintro rfl <;> revert hdt <;> decide
  rw [hd] at he hu
  have hsign : sign (fixed precision q) = (decide (q < 0), d :: t) := by
    rw [he]
    split_ifs with hq
    · simp [hq, sign]
    · simp [hq, sign, hdn]
  have hnan : fixed precision q ≠ "NaN".toList := by
    rw [he]
    split_ifs <;> simp [hdn]
  have hinf : d :: t ≠ "Inf".toList := by simp [hdn]
  simp only [value, hsign, if_neg hnan, if_neg hinf, hu, Option.map_some, rounded]

/-- The printed text reads back as the number exactly for the numbers that have no more
decimals than are printed. -/
theorem value_fixed_iff (precision : ℕ) (q : ℚ) :
    value (fixed precision q) = some (.number q) ↔ ∃ n : ℤ, q * 10 ^ precision = n := by
  rw [value_fixed, ← rounded_eq_iff]
  simp

end Exposition

end ServiceSystem.Foundations

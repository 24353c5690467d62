import ServiceSystem.Foundations.Text

namespace ServiceSystem.Nlohmann

open Foundations

/-- The bytes of `number_buffer`. -/
def numberBufferSize : ℕ := 64

/-- How many decimal digits `x` has, after `n_digits - 1` others. -/
def count_digits (x n_digits : ℕ) : ℕ :=
  if x < 10 then n_digits
  else if x < 100 then n_digits + 1
  else if x < 1000 then n_digits + 2
  else if x < 10000 then n_digits + 3
  else count_digits (x / 10000) (n_digits + 4)
termination_by x
decreasing_by omega

/-- The two digits of each number below 100. -/
def digits_to_99 : List Str := (List.range 100).map fun n ↦ Str.zeroPad 2 (Str.ofNat n)

/-- `*(--buffer_ptr) = c`, with the buffer and the index that the pointer stands for. -/
def store (b : Str × ℕ) (c : Char) : Str × ℕ := (b.1.set (b.2 - 1) c, b.2 - 1)

def storePair (b : Str × ℕ) (digits_index : ℕ) : Str × ℕ :=
  let pair := digits_to_99.getD digits_index []
  store (store b (pair.getD 1 '\x00')) (pair.getD 0 '\x00')

/-- The digits of `abs_value`, from the last one to the first. -/
def fill (b : Str × ℕ) (abs_value : ℕ) : Str × ℕ :=
  if 100 ≤ abs_value then fill (storePair b (abs_value % 100)) (abs_value / 100)
  else if 10 ≤ abs_value then storePair b abs_value
  else store b (Char.ofNat ('0'.toNat + abs_value))
termination_by abs_value
decreasing_by omega

/-- The text of an integer, in a buffer that holds anything. -/
def dump_integer (number_buffer : Str) (x : ℤ) : Str :=
  if x = 0 then ['0']
  else
    let buffer := if x < 0 then number_buffer.set 0 '-' else number_buffer
    let n_chars := if x < 0 then 1 + count_digits x.natAbs 1 else count_digits x.natAbs 1
    (fill (buffer, n_chars) x.natAbs).1.take n_chars

theorem ofNat_of_le {n : ℕ} (h : 10 ≤ n) :
    Str.ofNat n = Str.ofNat (n / 10) ++ [Nat.digitChar (n % 10)] :=
  Nat.toDigits_of_base_le (by decide) h

theorem ofNat_of_lt {n : ℕ} (h : n < 10) : Str.ofNat n = [Nat.digitChar n] :=
  Nat.toDigits_of_lt_base h

theorem ofNat_length_div {n : ℕ} (h : 10 ≤ n) :
    (Str.ofNat n).length = (Str.ofNat (n / 10)).length + 1 := by
  rw [ofNat_of_le h, List.length_append, List.length_singleton]

theorem count_digits_eq (x n_digits : ℕ) :
    count_digits x n_digits + 1 = n_digits + (Str.ofNat x).length := by
  induction x using Nat.strong_induction_on generalizing n_digits with
  | _ x ih =>
    rw [count_digits]
    split_ifs with h₁ h₂ h₃ h₄
    · rw [ofNat_of_lt h₁, List.length_singleton]
    · rw [ofNat_length_div (by omega), ofNat_of_lt (by omega), List.length_singleton]
    · rw [ofNat_length_div (by omega), ofNat_length_div (by omega), ofNat_of_lt (by omega),
        List.length_singleton]
    · rw [ofNat_length_div (by omega), ofNat_length_div (by omega), ofNat_length_div (by omega),
        ofNat_of_lt (by omega), List.length_singleton]
    · have hrest := ih (x / 10000) (by omega) (n_digits + 4)
      have hfour : x / 10 / 10 / 10 / 10 = x / 10000 := by omega
      rw [ofNat_length_div (by omega), ofNat_length_div (by omega), ofNat_length_div (by omega),
        ofNat_length_div (by omega), hfour]
      omega

theorem pair_digits : ∀ n < 100, digits_to_99.getD n [] =
    [Nat.digitChar (n / 10), Nat.digitChar (n % 10)] := by
  decide

theorem store_eq (before blank after : Str) (x c : Char) :
    store (before ++ (blank ++ [x]) ++ after, before.length + (blank ++ [x]).length) c =
      (before ++ blank ++ (c :: after), before.length + blank.length) := by
  have hindex : before.length + (blank ++ [x]).length - 1 = (before ++ blank).length := by
    simp only [List.length_append, List.length_singleton]
    omega
  have hbuffer : before ++ (blank ++ [x]) ++ after = (before ++ blank) ++ (x :: after) := by simp
  rw [store, hindex, hbuffer, List.set_append_right _ _ (Nat.le_refl _), Nat.sub_self,
    List.set_cons_zero, List.length_append]

theorem storePair_eq (before blank after : Str) (x y : Char) {n : ℕ} (h : n < 100) :
    storePair (before ++ (blank ++ [x] ++ [y]) ++ after,
        before.length + (blank ++ [x] ++ [y]).length) n =
      (before ++ blank ++ (Nat.digitChar (n / 10) :: Nat.digitChar (n % 10) :: after),
        before.length + blank.length) := by
  rw [storePair, pair_digits n h, store_eq]
  exact store_eq before blank _ x _

theorem exists_append_singleton {s : Str} {k : ℕ} (h : s.length = k + 1) :
    ∃ t x, s = t ++ [x] ∧ t.length = k := by
  have hne : s ≠ [] := by
    intro hs
    rw [hs] at h
    cases h
  refine ⟨s.dropLast, s.getLast hne, (List.dropLast_append_getLast hne).symm, ?_⟩
  rw [List.length_dropLast, h, Nat.add_sub_cancel]

theorem digitChar_eq : ∀ n < 10, Nat.digitChar n = Char.ofNat ('0'.toNat + n) := by
  decide

/-- The digits take exactly the place that has been counted for them. -/
theorem fill_eq (before blank after : Str) {n : ℕ} (h : blank.length = (Str.ofNat n).length) :
    (fill (before ++ blank ++ after, before.length + blank.length) n).1 =
      before ++ Str.ofNat n ++ after := by
  induction n using Nat.strong_induction_on generalizing blank after with
  | _ n ih =>
    rw [fill]
    split_ifs with h₁ h₂
    · have hdigits : Str.ofNat n = Str.ofNat (n / 100) ++
          [Nat.digitChar (n % 100 / 10), Nat.digitChar (n % 100 % 10)] := by
        rw [ofNat_of_le (show 10 ≤ n by omega), ofNat_of_le (show 10 ≤ n / 10 by omega),
          show n / 10 / 10 = n / 100 by omega, show n / 10 % 10 = n % 100 / 10 by omega,
          show n % 10 = n % 100 % 10 by omega]
        simp
      have hlength : blank.length = (Str.ofNat (n / 100)).length + 1 + 1 := by
        rw [h, hdigits, List.length_append]
        rfl
      obtain ⟨front, y, rfl, hfront⟩ := exists_append_singleton hlength
      obtain ⟨blank, x, rfl, hblank⟩ := exists_append_singleton hfront
      rw [storePair_eq before blank after x y (by omega), ih (n / 100) (by omega) blank _ hblank,
        hdigits]
      simp
    · have hdigits : Str.ofNat n = [Nat.digitChar (n / 10), Nat.digitChar (n % 10)] := by
        rw [ofNat_of_le h₂, ofNat_of_lt (by omega)]
        rfl
      rw [hdigits] at h
      obtain ⟨front, y, rfl, hfront⟩ := exists_append_singleton h
      obtain ⟨blank, x, rfl, hlength⟩ := exists_append_singleton hfront
      obtain rfl := List.length_eq_zero_iff.mp hlength
      rw [storePair_eq before [] after x y (by omega), hdigits]
      simp
    · rw [ofNat_of_lt (by omega)] at h ⊢
      obtain ⟨blank, x, rfl, hlength⟩ := exists_append_singleton h
      obtain rfl := List.length_eq_zero_iff.mp hlength
      rw [store_eq, digitChar_eq n (by omega)]
      simp

theorem ofNat_length_le {n : ℕ} (h : n < 2 ^ 64) : (Str.ofNat n).length ≤ 20 :=
  (Nat.length_toDigits_le_iff (by decide) (by decide)).mpr (h.trans (by decide))

/-- Whatever the buffer has held, the integer comes out of it. -/
theorem dump_integer_eq {number_buffer : Str} (hbuffer : number_buffer.length = numberBufferSize)
    {x : ℤ} (hx : x.natAbs < 2 ^ 64) : dump_integer number_buffer x = Str.ofInt x := by
  have hcount : count_digits x.natAbs 1 = (Str.ofNat x.natAbs).length := by
    have hdigits := count_digits_eq x.natAbs 1
    omega
  have hlength := ofNat_length_le hx
  have hsize : numberBufferSize = 64 := rfl
  rw [dump_integer]
  split_ifs with hzero hneg
  · rw [hzero]
    rfl
  · obtain ⟨n, rfl⟩ := Int.eq_negSucc_of_lt_zero hneg
    have hnat : (Int.negSucc n).natAbs = n + 1 := rfl
    rw [hnat] at hcount hlength ⊢
    obtain ⟨first, rest, rfl⟩ : ∃ first rest, number_buffer = first :: rest :=
      List.exists_cons_of_length_pos (by omega)
    rw [List.length_cons] at hbuffer
    have hfill := fill_eq ['-'] (rest.take (Str.ofNat (n + 1)).length)
      (rest.drop (Str.ofNat (n + 1)).length) (n := n + 1) (by rw [List.length_take]; omega)
    rw [List.append_assoc, List.take_append_drop, List.length_take, Nat.min_eq_left (by omega)]
      at hfill
    simp only [hcount, List.set_cons_zero]
    have hstart : (fill ('-' :: rest, 1 + (Str.ofNat (n + 1)).length) (n + 1)).1 = _ := hfill
    rw [hstart, Nat.add_comm, List.append_assoc, List.singleton_append, List.take_succ_cons,
      List.take_left]
    rfl
  · obtain ⟨n, rfl⟩ := Int.eq_ofNat_of_zero_le (not_lt.mp hneg)
    rw [Int.natAbs_natCast] at hcount hlength ⊢
    have hfill := fill_eq [] (number_buffer.take (Str.ofNat n).length)
      (number_buffer.drop (Str.ofNat n).length) (n := n) (by rw [List.length_take]; omega)
    rw [List.nil_append, List.take_append_drop, List.length_take, Nat.min_eq_left (by omega),
      List.length_nil, Nat.zero_add] at hfill
    simp only [hcount]
    rw [hfill, List.nil_append, List.take_left]
    rfl

end ServiceSystem.Nlohmann

import ServiceSystem.Foundations.Decimals
import Mathlib.Data.List.GetD

namespace ServiceSystem.Foundations.Calendar

/-! The Gregorian calendar without end, days counted from the first of January 1970. -/

def isLeap (year : ℤ) : Bool := (year % 4 = 0 ∧ year % 100 ≠ 0) ∨ year % 400 = 0

def monthLengths (leap : Bool) : List ℕ :=
  [31, if leap then 29 else 28, 31, 30, 31, 30, 31, 31, 30, 31, 30, 31]

structure Date where
  year : ℤ
  month : ℕ
  day : ℕ
  deriving DecidableEq

def Date.Valid (d : Date) : Prop :=
  1 ≤ d.month ∧ 1 ≤ d.day ∧ d.day ≤ (monthLengths (isLeap d.year)).getD (d.month - 1) 0

instance (d : Date) : Decidable d.Valid := inferInstanceAs (Decidable (_ ∧ _ ∧ _))

/-- The days from the start of the year 1 to the start of a year. -/
def daysBefore (year : ℤ) : ℤ :=
  365 * (year - 1) + (year - 1) / 4 - (year - 1) / 100 + (year - 1) / 400

def epoch : ℤ := daysBefore 1970

def Date.dayNumber (d : Date) : ℤ :=
  daysBefore d.year + ((monthLengths (isLeap d.year)).take (d.month - 1)).sum + d.day - 1 - epoch

/-- The year that a number of days since the start of the year 1 falls in. -/
def yearOf (n : ℤ) : ℤ :=
  let r := n % 146097
  let centuries := min 3 (r / 36524)
  let r := r - 36524 * centuries
  let years := min 3 (r % 1461 / 365)
  400 * (n / 146097) + 100 * centuries + 4 * (r / 1461) + years + 1

/-- The month, counted from zero, that a day of the year falls in, and the days before it in that
month. -/
def monthOf : List ℕ → ℕ → ℕ × ℕ
  | [], r => (0, r)
  | length :: lengths, r =>
    if r < length then (0, r)
    else ((monthOf lengths (r - length)).1 + 1, (monthOf lengths (r - length)).2)

def ofDayNumber (n : ℤ) : Date :=
  let year := yearOf (n + epoch)
  let m := monthOf (monthLengths (isLeap year)) (n + epoch - daysBefore year).toNat
  ⟨year, m.1 + 1, m.2 + 1⟩

theorem daysBefore_succ (year : ℤ) :
    daysBefore (year + 1) = daysBefore year + (monthLengths (isLeap year)).sum := by
  have hsum (leap : Bool) : (monthLengths leap).sum = 365 + if leap then 1 else 0 := by
    cases leap <;> rfl
  rw [hsum]
  unfold daysBefore isLeap
  push_cast
  split_ifs with h
  · rw [decide_eq_true_eq] at h
    omega
  · rw [decide_eq_true_eq] at h
    omega

theorem daysBefore_cycles {a b c d : ℤ} (hb : 0 ≤ b ∧ b ≤ 3) (hc : 0 ≤ c ∧ c ≤ 24)
    (hd : 0 ≤ d ∧ d ≤ 3) : daysBefore (400 * a + 100 * b + 4 * c + d + 1) =
      146097 * a + 36524 * b + 1461 * c + 365 * d := by
  unfold daysBefore
  omega

theorem isLeap_cycles {a b c d : ℤ} (hb : 0 ≤ b ∧ b ≤ 3) (hc : 0 ≤ c ∧ c ≤ 24)
    (hd : 0 ≤ d ∧ d ≤ 3) : isLeap (400 * a + 100 * b + 4 * c + d + 1) =
      decide (d = 3 ∧ (c = 24 → b = 3)) := by
  unfold isLeap
  rw [decide_eq_decide]
  omega

theorem yearOf_spec (n : ℤ) : daysBefore (yearOf n) ≤ n ∧
    n < daysBefore (yearOf n) + (monthLengths (isLeap (yearOf n))).sum := by
  have hsum (leap : Bool) : (monthLengths leap).sum = 365 + if leap then 1 else 0 := by
    cases leap <;> rfl
  have hb : 0 ≤ min 3 (n % 146097 / 36524) ∧ min 3 (n % 146097 / 36524) ≤ 3 := by omega
  unfold yearOf
  simp only
  generalize hbe : min 3 (n % 146097 / 36524) = b at hb ⊢
  have hr : 0 ≤ n % 146097 - 36524 * b ∧ n % 146097 - 36524 * b ≤ 36524 ∧
      (n % 146097 - 36524 * b = 36524 → b = 3) := by omega
  generalize hre : n % 146097 - 36524 * b = r at hr ⊢
  have hc : 0 ≤ r / 1461 ∧ r / 1461 ≤ 24 := by omega
  have hd : 0 ≤ min 3 (r % 1461 / 365) ∧ min 3 (r % 1461 / 365) ≤ 3 := by omega
  rw [daysBefore_cycles hb hc hd, isLeap_cycles hb hc hd, hsum]
  push_cast
  split_ifs with h
  · rw [decide_eq_true_eq] at h
    omega
  · rw [decide_eq_true_eq] at h
    omega

theorem monthOf_spec {lengths : List ℕ} {r : ℕ} (h : r < lengths.sum) :
    (lengths.take (monthOf lengths r).1).sum + (monthOf lengths r).2 = r ∧
      (monthOf lengths r).2 < lengths.getD (monthOf lengths r).1 0 := by
  induction lengths generalizing r with
  | nil => cases h
  | cons length lengths ih =>
    rw [monthOf]
    split_ifs with hr
    · simpa using hr
    · rw [List.sum_cons] at h
      obtain ⟨hsum, hlt⟩ := ih (show r - length < lengths.sum by omega)
      rw [List.take_succ_cons, List.sum_cons, List.getD_cons_succ]
      exact ⟨by omega, hlt⟩

theorem ofDayNumber_month (n : ℤ) :
    ((monthLengths (isLeap (ofDayNumber n).year)).take ((ofDayNumber n).month - 1)).sum +
        (ofDayNumber n).day = n + epoch - daysBefore (ofDayNumber n).year + 1 ∧
      (ofDayNumber n).Valid := by
  obtain ⟨hle, hlt⟩ := yearOf_spec (n + epoch)
  have hr : (n + epoch - daysBefore (yearOf (n + epoch))).toNat <
      (monthLengths (isLeap (yearOf (n + epoch)))).sum := by omega
  obtain ⟨hsum, hday⟩ := monthOf_spec hr
  simp only [ofDayNumber, Date.Valid, Nat.add_sub_cancel]
  refine ⟨by omega, by omega, by omega, by omega⟩

theorem dayNumber_ofDayNumber (n : ℤ) : (ofDayNumber n).dayNumber = n := by
  have h := (ofDayNumber_month n).1
  rw [Date.dayNumber]
  omega

theorem valid_ofDayNumber (n : ℤ) : (ofDayNumber n).Valid := (ofDayNumber_month n).2

theorem year_ofDayNumber (n : ℤ) : daysBefore (ofDayNumber n).year ≤ n + epoch ∧
    n + epoch < daysBefore ((ofDayNumber n).year + 1) := by
  rw [daysBefore_succ]
  exact yearOf_spec (n + epoch)

theorem Date.Valid.bounds {d : Date} (h : d.Valid) : d.month ≤ 12 ∧ d.day ≤ 31 := by
  obtain ⟨-, hpos, hday⟩ := h
  have hall : ∀ leap, ∀ n ∈ monthLengths leap, n ≤ 31 := by decide
  have hlength : (monthLengths (isLeap d.year)).length = 12 := rfl
  have hlt : d.month - 1 < (monthLengths (isLeap d.year)).length := by
    by_contra hge
    rw [List.getD_eq_default _ _ (not_lt.mp hge)] at hday
    omega
  rw [List.getD_eq_getElem _ _ hlt] at hday
  exact ⟨by omega, hday.trans (hall _ _ (List.getElem_mem hlt))⟩

/-- A date and a time of day. -/
structure DateTime where
  date : Date
  hour : ℕ
  minute : ℕ
  second : ℕ
  deriving DecidableEq

namespace DateTime

structure Valid (t : DateTime) : Prop where
  date : t.date.Valid
  hour : t.hour ≤ 23
  minute : t.minute ≤ 59
  second : t.second ≤ 59

def seconds (t : DateTime) : ℤ :=
  86400 * t.date.dayNumber + 3600 * t.hour + 60 * t.minute + t.second

def ofSeconds (n : ℤ) : DateTime where
  date := ofDayNumber (n / 86400)
  hour := (n % 86400 / 3600).toNat
  minute := (n % 3600 / 60).toNat
  second := (n % 60).toNat

theorem seconds_ofSeconds (n : ℤ) : (ofSeconds n).seconds = n := by
  simp only [seconds, ofSeconds, dayNumber_ofDayNumber]
  omega

theorem valid_ofSeconds (n : ℤ) : (ofSeconds n).Valid := by
  refine ⟨valid_ofDayNumber _, ?_, ?_, ?_⟩ <;> simp only [ofSeconds] <;> omega

theorem year_ofSeconds (n : ℤ) : 86400 * (daysBefore (ofSeconds n).date.year - epoch) ≤ n ∧
    n < 86400 * (daysBefore ((ofSeconds n).date.year + 1) - epoch) := by
  obtain ⟨hle, hlt⟩ := year_ofDayNumber (n / 86400)
  simp only [ofSeconds]
  omega

end DateTime

/-! Reading the time stamps of RFC 3339. -/

def digits (n : ℕ) (s : Str) : Option (ℕ × Str) :=
  if n ≤ s.length ∧ ∀ c ∈ s.take n, c.isDigit then
    some (Nat.ofDigitChars 10 (s.take n) 0, s.drop n)
  else none

def expect (cs : List Char) : Str → Option Str
  | [] => none
  | c :: s => if c ∈ cs then some s else none

def fraction : Str → Option (ℚ × Str)
  | '.' :: s =>
    let ds := s.takeWhile Char.isDigit
    if ds = [] then none
    else some ((Nat.ofDigitChars 10 ds 0 : ℚ) / 10 ^ ds.length, s.dropWhile Char.isDigit)
  | s => some (0, s)

/-- What the zone at the end is ahead of UTC, in seconds. -/
def zone (s : Str) : Option ℤ :=
  if s = ['Z'] ∨ s = ['z'] then some 0
  else do
    let rest ← expect ['+', '-'] s
    let (hour, rest) ← digits 2 rest
    let rest ← expect [':'] rest
    let (minute, rest) ← digits 2 rest
    if hour ≤ 23 ∧ minute ≤ 59 ∧ rest = [] then
      some ((if s.head? = some '-' then -1 else 1) * (3600 * hour + 60 * minute))
    else none

/-- The instant, in seconds since 1970, that a time stamp stands for. -/
def rfc3339 (s : Str) : Option ℚ := do
  let (year, s) ← digits 4 s
  let s ← expect ['-'] s
  let (month, s) ← digits 2 s
  let s ← expect ['-'] s
  let (day, s) ← digits 2 s
  let s ← expect ['T', 't'] s
  let (hour, s) ← digits 2 s
  let s ← expect [':'] s
  let (minute, s) ← digits 2 s
  let s ← expect [':'] s
  let (second, s) ← digits 2 s
  let (f, s) ← fraction s
  let ahead ← zone s
  let t : DateTime := ⟨⟨year, month, day⟩, hour, minute, second⟩
  if t.date.Valid ∧ hour ≤ 23 ∧ minute ≤ 59 ∧ second ≤ 59 then some (t.seconds - ahead + f)
  else none

example : rfc3339 "2000-02-29T12:00:00.25+02:00".toList = some (951818400 + 1 / 4) := by
  decide +kernel

theorem digits_append {n : ℕ} {ds : Str} (hlen : ds.length = n) (h : ∀ c ∈ ds, c.isDigit)
    (s : Str) : digits n (ds ++ s) = some (Nat.ofDigitChars 10 ds 0, s) := by
  subst hlen
  rw [digits, List.take_left, List.drop_left, if_pos]
  exact ⟨by simp, h⟩

theorem digits_zeroPad {n k : ℕ} (hk : 0 < k) (hn : n < 10 ^ k) (s : Str) :
    digits k (Str.zeroPad k (Str.ofNat n) ++ s) = some (n, s) := by
  rw [digits_append (Str.zeroPad_length hk hn) (fun c ↦ Str.isDigit_zeroPad),
    Str.ofDigitChars_zeroPad]

theorem expect_cons {cs : List Char} {c : Char} (h : c ∈ cs) (s : Str) :
    expect cs (c :: s) = some s := if_pos h

theorem length_of_digits_expect {n v : ℕ} {ds s rest rest' : Str} {c : Char}
    (hds : ∀ d ∈ ds, d.isDigit) (hc : c.isDigit = false)
    (h : digits n (ds ++ c :: s) = some (v, rest)) (h' : expect [c] rest = some rest') :
    ds.length = n := by
  unfold digits at h
  split_ifs at h with hall
  obtain ⟨hlen, hall⟩ := hall
  obtain ⟨-, rfl⟩ := Prod.mk.inj (Option.some.inj h)
  rcases lt_trichotomy ds.length n with hlt | heq | hgt
  · have hmem : c ∈ (ds ++ c :: s).take n := by
      rw [List.take_append, List.mem_append]
      refine .inr ?_
      obtain ⟨k, hk⟩ : ∃ k, n - ds.length = k + 1 := ⟨n - ds.length - 1, by omega⟩
      rw [hk, List.take_succ_cons]
      exact List.mem_cons_self
    rw [hall c hmem] at hc
    cases hc
  · exact heq
  · rw [List.drop_append_of_le_length hgt.le, List.drop_eq_getElem_cons hgt, List.cons_append,
      expect] at h'
    split_ifs at h' with he
    rw [List.mem_singleton] at he
    have hd := hds _ (List.getElem_mem hgt)
    rw [he, hc] at hd
    cases hd

theorem fraction_zeroPad {n k : ℕ} (hk : 0 < k) (hn : n < 10 ^ k) {c : Char}
    (hc : c.isDigit = false) (s : Str) :
    fraction ('.' :: (Str.zeroPad k (Str.ofNat n) ++ c :: s)) =
      some ((n : ℚ) / 10 ^ k, c :: s) := by
  have hdigits : ∀ c ∈ Str.zeroPad k (Str.ofNat n), c.isDigit := fun c ↦ Str.isDigit_zeroPad
  have ht : (Str.zeroPad k (Str.ofNat n) ++ c :: s).takeWhile Char.isDigit =
      Str.zeroPad k (Str.ofNat n) := by
    rw [List.takeWhile_append_of_pos hdigits, List.takeWhile_cons_of_neg (by simp [hc]),
      List.append_nil]
  have hd : (Str.zeroPad k (Str.ofNat n) ++ c :: s).dropWhile Char.isDigit = c :: s := by
    rw [List.dropWhile_append_of_pos hdigits, List.dropWhile_cons_of_neg (by simp [hc])]
  have hne : Str.zeroPad k (Str.ofNat n) ≠ [] := by
    intro h
    have hlength := congrArg List.length h
    rw [Str.zeroPad_length hk hn, List.length_nil] at hlength
    omega
  simp only [fraction, ht, hd, if_neg hne, Str.ofDigitChars_zeroPad, Str.zeroPad_length hk hn]

end ServiceSystem.Foundations.Calendar

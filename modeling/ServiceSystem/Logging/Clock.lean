import ServiceSystem.Foundations.Calendar
import ServiceSystem.Logging.Logger
import Mathlib.Tactic.Ring

namespace ServiceSystem.Logging.Clock

open Foundations Calendar

/-! The clock reading behind a time stamp, a number of nanoseconds since 1970. -/

def to_time_t (now : ℕ) : ℤ := (now / 1000000000 : ℕ)

def milliseconds (now : ℕ) : ℕ := now / 1000000

/-- `std::localtime` in a zone that is `offset time` seconds ahead of UTC at each time. -/
def localtime (offset : ℤ → ℤ) (time : ℤ) : DateTime := .ofSeconds (time + offset time)

/-- `std::put_time` with the format `%Y-%m-%dT%H:%M:%S`. -/
def put_time (t : DateTime) : Str :=
  Str.ofInt t.date.year ++ '-' :: Str.zeroPad 2 (Str.ofNat t.date.month) ++
    '-' :: Str.zeroPad 2 (Str.ofNat t.date.day) ++ 'T' :: Str.zeroPad 2 (Str.ofNat t.hour) ++
    ':' :: Str.zeroPad 2 (Str.ofNat t.minute) ++ ':' :: Str.zeroPad 2 (Str.ofNat t.second)

def getCurrentTimestamp (offset : ℤ → ℤ) (now : ℕ) : Str :=
  put_time (localtime offset (to_time_t now)) ++
    '.' :: Str.zeroPad 3 (Str.ofNat (milliseconds now % 1000)) ++ ['Z']

/-- The first clock reading of the year 10000. -/
def endOfTime : ℕ := 253402300800 * 1000000000

theorem year_toNat {t : DateTime} (h : 1000 ≤ t.date.year ∧ t.date.year ≤ 9999) :
    ∃ year : ℕ, t.date.year = year ∧ 1000 ≤ year ∧ year ≤ 9999 :=
  ⟨t.date.year.toNat, by omega, by omega, by omega⟩

/-- Where the local year has four digits, the text is that of `Logger` for a broken-down time. -/
theorem getCurrentTimestamp_eq {offset : ℤ → ℤ} {now : ℕ}
    (h : 1000 ≤ (localtime offset (to_time_t now)).date.year ∧
      (localtime offset (to_time_t now)).date.year ≤ 9999) :
    ∃ t : Tm, Logging.getCurrentTimestamp t = getCurrentTimestamp offset now := by
  obtain ⟨year, hyear, hdigits⟩ := year_toNat h
  obtain ⟨hdate, hhour, hminute, hsecond⟩ : (localtime offset (to_time_t now)).Valid :=
    DateTime.valid_ofSeconds _
  obtain ⟨hmonth, hday⟩ := hdate.bounds
  refine ⟨⟨year, _, _, _, _, _, milliseconds now % 1000, hdigits, hmonth, hday, hhour, hminute,
    hsecond.trans (by decide), by omega⟩, ?_⟩
  rw [getCurrentTimestamp, put_time, hyear]
  rfl

theorem length_ofNat_year {year : ℕ} (hlo : 1000 ≤ year) (hhi : year ≤ 9999) :
    (Str.ofNat year).length = 4 := by
  have hle := (Nat.length_toDigits_le_iff (b := 10) (k := 4) (n := year) (by decide)
    (by decide)).mpr (by omega)
  have hgt := (Nat.length_toDigits_le_iff (b := 10) (k := 3) (n := year) (by decide)
    (by decide)).not.mpr (by omega)
  rw [Str.ofNat]
  omega

theorem rfc3339_put_time {t : DateTime} (ht : t.Valid)
    (hyear : 1000 ≤ t.date.year ∧ t.date.year ≤ 9999) {ms : ℕ} (hms : ms < 1000) :
    rfc3339 (put_time t ++ '.' :: Str.zeroPad 3 (Str.ofNat ms) ++ ['Z']) =
      some (t.seconds + (ms : ℚ) / 1000) := by
  obtain ⟨year, hy, hlo, hhi⟩ := year_toNat hyear
  obtain ⟨hdate, hhour, hminute, hsecond⟩ := ht
  obtain ⟨hmonth, hday⟩ := hdate.bounds
  have hyear4 (s : Str) : digits 4 (Str.ofNat year ++ s) = some (year, s) := by
    rw [digits_append (length_ofNat_year hlo hhi) (fun c ↦ Str.isDigit_ofNat),
      Str.ofDigitChars_ofNat]
  have h2 {n : ℕ} (hn : n < 100) (s : Str) :
      digits 2 (Str.zeroPad 2 (Str.ofNat n) ++ s) = some (n, s) := digits_zeroPad (by decide) hn s
  have hfraction : fraction ('.' :: (Str.zeroPad 3 (Str.ofNat ms) ++ ['Z'])) =
      some ((ms : ℚ) / 1000, ['Z']) := fraction_zeroPad (by decide) hms (by decide) []
  have hint : Str.ofInt t.date.year = Str.ofNat year := by rw [hy]; rfl
  have hd : (⟨year, t.date.month, t.date.day⟩ : Date) = t.date := by rw [← hy]
  have hzone : zone ['Z'] = some 0 := if_pos (.inl rfl)
  simp only [put_time, hint, List.append_assoc, List.cons_append]
  refine Option.bind_eq_some_iff.mpr ⟨_, hyear4 _, ?_⟩
  refine Option.bind_eq_some_iff.mpr ⟨_, expect_cons (by simp) _, ?_⟩
  refine Option.bind_eq_some_iff.mpr ⟨_, h2 (by omega) _, ?_⟩
  refine Option.bind_eq_some_iff.mpr ⟨_, expect_cons (by simp) _, ?_⟩
  refine Option.bind_eq_some_iff.mpr ⟨_, h2 (by omega) _, ?_⟩
  refine Option.bind_eq_some_iff.mpr ⟨_, expect_cons (by simp) _, ?_⟩
  refine Option.bind_eq_some_iff.mpr ⟨_, h2 (by omega) _, ?_⟩
  refine Option.bind_eq_some_iff.mpr ⟨_, expect_cons (by simp) _, ?_⟩
  refine Option.bind_eq_some_iff.mpr ⟨_, h2 (by omega) _, ?_⟩
  refine Option.bind_eq_some_iff.mpr ⟨_, expect_cons (by simp) _, ?_⟩
  refine Option.bind_eq_some_iff.mpr ⟨_, h2 (by omega) _, ?_⟩
  refine Option.bind_eq_some_iff.mpr ⟨_, hfraction, ?_⟩
  refine Option.bind_eq_some_iff.mpr ⟨0, hzone, ?_⟩
  simp only [hd]
  rw [if_pos ⟨hdate, hhour, hminute, hsecond⟩, Int.cast_zero, sub_zero]

theorem year_of_rfc3339 {t : DateTime} {rest : Str} {q : ℚ}
    (h : rfc3339 (put_time t ++ rest) = some q) :
    1000 ≤ t.date.year ∧ t.date.year ≤ 9999 := by
  obtain ⟨s, hs⟩ : ∃ s, put_time t ++ rest = Str.ofInt t.date.year ++ '-' :: s := by
    simp only [put_time, List.append_assoc, List.cons_append]
    exact ⟨_, rfl⟩
  rw [hs, rfc3339] at h
  obtain ⟨⟨v, s₁⟩, hv, h⟩ := Option.bind_eq_some_iff.mp h
  obtain ⟨s₂, hexpect, -⟩ := Option.bind_eq_some_iff.mp h
  generalize t.date.year = year at hv ⊢
  cases year with
  | negSucc n =>
    unfold digits at hv
    split_ifs at hv with hall
    exact absurd (hall.2 '-' (by rw [Str.ofInt, List.cons_append]; exact List.mem_cons_self))
      (by decide)
  | ofNat n =>
    have hlength := length_of_digits_expect (fun c ↦ Str.isDigit_ofNat) (by decide) hv hexpect
    have hle := (Nat.length_toDigits_le_iff (b := 10) (k := 4) (n := n) (by decide)
      (by decide)).mp hlength.le
    have hgt := (Nat.length_toDigits_le_iff (b := 10) (k := 3) (n := n) (by decide)
      (by decide)).not.mp (by rw [Str.ofNat] at hlength; omega)
    rw [Int.ofNat_eq_natCast]
    omega

theorem year_of_utc {now : ℕ} (h : now < endOfTime) :
    1000 ≤ (DateTime.ofSeconds (to_time_t now)).date.year ∧
      (DateTime.ofSeconds (to_time_t now)).date.year ≤ 9999 := by
  have hyear := DateTime.year_ofSeconds (to_time_t now)
  unfold endOfTime at h
  unfold daysBefore epoch daysBefore to_time_t at hyear
  unfold to_time_t
  omega

/-- The time to the millisecond, in seconds. -/
def truncated (now : ℕ) : ℚ := (milliseconds now : ℚ) / 1000

theorem truncated_eq (now : ℕ) :
    truncated now = to_time_t now + ((milliseconds now % 1000 : ℕ) : ℚ) / 1000 := by
  have hsplit : milliseconds now = 1000 * (now / 1000000000) + milliseconds now % 1000 := by
    unfold milliseconds
    omega
  have htime : ((to_time_t now : ℤ) : ℚ) = (now / 1000000000 : ℕ) := Int.cast_natCast _
  rw [truncated, htime, hsplit, Nat.mul_add_mod, Nat.mod_mod, Nat.cast_add, Nat.cast_mul, add_div,
    Nat.cast_ofNat, mul_div_cancel_left₀ _ (by norm_num)]

def Denotes (offset : ℤ → ℤ) (now : ℕ) : Prop :=
  rfc3339 (getCurrentTimestamp offset now) = some (truncated now)

theorem denotes_iff (offset : ℤ → ℤ) {now : ℕ} (h : now < endOfTime) :
    Denotes offset now ↔ offset (to_time_t now) = 0 := by
  have hread (hyear : 1000 ≤ (localtime offset (to_time_t now)).date.year ∧
      (localtime offset (to_time_t now)).date.year ≤ 9999) :
      rfc3339 (getCurrentTimestamp offset now) =
        some (truncated now + offset (to_time_t now)) := by
    rw [getCurrentTimestamp, rfc3339_put_time (t := localtime offset (to_time_t now))
      (DateTime.valid_ofSeconds _) hyear (Nat.mod_lt _ (by decide)), localtime,
      DateTime.seconds_ofSeconds, truncated_eq]
    congr 1
    push_cast
    ring
  constructor
  · intro hd
    rw [Denotes] at hd
    have hyear : 1000 ≤ (localtime offset (to_time_t now)).date.year ∧
        (localtime offset (to_time_t now)).date.year ≤ 9999 := by
      rw [getCurrentTimestamp, List.append_assoc] at hd
      exact year_of_rfc3339 hd
    rw [hread hyear] at hd
    have hq := Option.some.inj hd
    rw [add_eq_left] at hq
    exact_mod_cast hq
  · intro hzero
    have hlocal : localtime offset (to_time_t now) = .ofSeconds (to_time_t now) := by
      rw [localtime, hzero, add_zero]
    rw [Denotes, hread (by rw [hlocal]; exact year_of_utc h), hzero, Int.cast_zero, add_zero]

theorem truncated_mono {now now' : ℕ} (h : now ≤ now') : truncated now ≤ truncated now' := by
  have hms : milliseconds now ≤ milliseconds now' := Nat.div_le_div_right h
  unfold truncated
  have hcast : (milliseconds now : ℚ) ≤ milliseconds now' := by exact_mod_cast hms
  linarith

theorem timestamps_denote_iff (offset : ℤ → ℤ) :
    (∀ now, now < endOfTime → (Denotes offset now ↔ offset (to_time_t now) = 0)) ∧
      ∀ now now', now ≤ now' → now' < endOfTime → offset (to_time_t now) = 0 →
        offset (to_time_t now') = 0 → ∃ q q', rfc3339 (getCurrentTimestamp offset now) = some q ∧
          rfc3339 (getCurrentTimestamp offset now') = some q' ∧ q ≤ q' := by
  refine ⟨fun now ↦ denotes_iff offset, fun now now' hle hlt hzero hzero' ↦ ?_⟩
  exact ⟨_, _, (denotes_iff offset (hle.trans_lt hlt)).mpr hzero,
    (denotes_iff offset hlt).mpr hzero', truncated_mono hle⟩

theorem hour_ahead_misread : ¬ Denotes (fun _ ↦ 3600) 0 ∧
    rfc3339 (getCurrentTimestamp (fun _ ↦ 3600) 0) = some 3600 := by
  unfold Denotes
  decide +kernel

end ServiceSystem.Logging.Clock

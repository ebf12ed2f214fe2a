import Mathlib.Algebra.Order.Ring.Int
import Mathlib.Tactic.Common

/-!
# The Gregorian calendar on day numbers

Time points are integers, the microseconds since 1970-01-01 00:00 UTC; calendar days are counted
from the same origin.  `dayOfMonth`, `month` and `weekday` read the proleptic Gregorian date off a
day number; everything they depend on is the position of the day inside its 400-year cycle of
`cycleDays` days, which is also a whole number of weeks.  So the three repeat with that period
(`dayOfMonth_add_cycle`, `month_add_cycle`, `weekday_add_cycle`), and whether some day with a given
property of its date exists can be decided by looking at one cycle.  The dates that exist are the
days up to `monthLength` of the twelve months (`dayOfMonth_bounds`, `exists_month`), and every month
has every day of the week (`exists_weekday`).

`Tm` is the broken-down time of `<time.h>`: the redundant date fields are functions of the day
number, so that `incrementDay`, `gmTime` and `timeGm` cannot disagree about them.
-/

namespace Workshop.Lib

/-- One second, in the microseconds time points are counted in. -/
def second : ℤ := 1000000

/-- One minute, in microseconds. -/
def minute : ℤ := 60 * second

/-! ## Dates of day numbers -/

/-- The length of the Gregorian cycle: 400 years. -/
def cycleDays : ℕ := 146097

/-- The position of a day in its cycle, which starts on March 1st of a year divisible by 400. -/
def dayOfCycle (d : ℤ) : ℤ := (d + 719468) % 146097

/-- The year of the cycle, counted from March to February. -/
def yearOfCycle (doc : ℤ) : ℤ := (doc - doc / 1460 + doc / 36524 - doc / 146096) / 365

/-- The day of the year, counted from March 1st. -/
def dayOfYear (doc : ℤ) : ℤ :=
  doc - (365 * yearOfCycle doc + yearOfCycle doc / 4 - yearOfCycle doc / 100)

/-- The month, counted from March. -/
def monthIndex (doy : ℤ) : ℤ := (5 * doy + 2) / 153

/-- The day of the month, 1 to 31. -/
def dayOfMonth (d : ℤ) : ℕ :=
  let doy := dayOfYear (dayOfCycle d)
  (doy - (153 * monthIndex doy + 2) / 5 + 1).toNat

/-- The month, 1 to 12. -/
def month (d : ℤ) : ℕ :=
  let mp := monthIndex (dayOfYear (dayOfCycle d))
  (if mp < 10 then mp + 3 else mp - 9).toNat

/-- The day of the week, 0 for Sunday. -/
def weekday (d : ℤ) : ℕ := ((d + 4) % 7).toNat

/-- The number of days of a month, in a year where it has most of them. -/
def monthLength (m : ℕ) : ℕ :=
  if m = 2 then 29 else if m = 4 ∨ m = 6 ∨ m = 9 ∨ m = 11 then 30 else 31

theorem dayOfCycle_add_cycle (d : ℤ) : dayOfCycle (d + cycleDays) = dayOfCycle d := by
  simp only [dayOfCycle, cycleDays]
  omega

theorem dayOfMonth_add_cycle (d : ℤ) : dayOfMonth (d + cycleDays) = dayOfMonth d := by
  simp only [dayOfMonth, dayOfCycle_add_cycle]

theorem month_add_cycle (d : ℤ) : month (d + cycleDays) = month d := by
  simp only [month, dayOfCycle_add_cycle]

theorem weekday_add_cycle (d : ℤ) : weekday (d + cycleDays) = weekday d := by
  simp only [weekday, cycleDays]
  omega

-- 1970-01-01 was a Thursday; 2000 was a leap year, 1900 was not
example : (month 0, dayOfMonth 0, weekday 0) = (1, 1, 4) := by decide
example : (month 11016, dayOfMonth 11016) = (2, 29) := by decide
example : (month (-25509), dayOfMonth (-25509)) = (2, 28) := by decide
example : (month (-25508), dayOfMonth (-25508)) = (3, 1) := by decide

/-! ## Which dates exist -/

theorem monthLength_le (m : ℕ) : monthLength m ≤ 31 := by
  simp only [monthLength]
  split <;> try split
  all_goals omega

/-- Day `r` of year `s` of the four-year period `q` of century `g`.  The 366th day is the leap
day, which the last period of a century lacks unless it is the last of the cycle. -/
structure CycleDate (g q s r : ℤ) : Prop where
  century : 0 ≤ g ∧ g ≤ 3
  period : 0 ≤ q ∧ q ≤ 24
  year : 0 ≤ s ∧ s ≤ 3
  day : 0 ≤ r ∧ (r ≤ 364 ∨ (r = 365 ∧ s = 3 ∧ (q ≤ 23 ∨ g = 3)))

theorem yearOfCycle_eq {g q s r : ℤ} (h : CycleDate g q s r) :
    yearOfCycle (36524 * g + 1461 * q + 365 * s + r) = 100 * g + 4 * q + s := by
  obtain ⟨hg, hq, hs, hr0, hr⟩ := h
  obtain ⟨doc, hdoc⟩ : ∃ doc, doc = 36524 * g + 1461 * q + 365 * s + r := ⟨_, rfl⟩
  obtain ⟨e, he⟩ : ∃ e, e = (24 * g + q + 365 * s + r) / 1460 := ⟨_, rfl⟩
  rw [← hdoc, yearOfCycle]
  have h1460 : doc / 1460 = 25 * g + q + e := by omega
  by_cases hlast : doc = 146096
  · subst hlast
    omega
  · have h36524 : doc / 36524 = g := by omega
    have h146096 : doc / 146096 = 0 := by omega
    rw [h1460, h36524, h146096]
    omega

theorem dayOfYear_eq {g q s r : ℤ} (h : CycleDate g q s r) :
    dayOfYear (36524 * g + 1461 * q + 365 * s + r) = r := by
  rw [dayOfYear, yearOfCycle_eq h]
  obtain ⟨hg, hq, hs, hr0, hr⟩ := h
  omega

theorem exists_cycleDate (d : ℤ) :
    ∃ g q s r, CycleDate g q s r ∧ dayOfCycle d = 36524 * g + 1461 * q + 365 * s + r := by
  obtain ⟨doc, hdoc⟩ : ∃ doc, doc = dayOfCycle d := ⟨_, rfl⟩
  have hlo : 0 ≤ doc := by rw [hdoc, dayOfCycle]; omega
  have hhi : doc < 146097 := by rw [hdoc, dayOfCycle]; omega
  rw [← hdoc]
  by_cases hlast : doc = 146096
  · exact ⟨3, 24, 3, 365, by constructor <;> omega, by omega⟩
  · by_cases hleap : doc % 36524 % 1461 = 1460
    · exact ⟨doc / 36524, doc % 36524 / 1461, 3, 365, by constructor <;> omega, by omega⟩
    · exact ⟨doc / 36524, doc % 36524 / 1461, doc % 36524 % 1461 / 365, doc % 36524 % 1461 % 365,
        by constructor <;> omega, by omega⟩

theorem dayOfYear_bounds (d : ℤ) :
    0 ≤ dayOfYear (dayOfCycle d) ∧ dayOfYear (dayOfCycle d) ≤ 365 := by
  obtain ⟨g, q, s, r, hdate, heq⟩ := exists_cycleDate d
  rw [heq, dayOfYear_eq hdate]
  obtain ⟨_, _, _, hr0, hr⟩ := hdate
  omega

theorem monthIndex_bounds (d : ℤ) :
    0 ≤ monthIndex (dayOfYear (dayOfCycle d)) ∧ monthIndex (dayOfYear (dayOfCycle d)) ≤ 11 := by
  obtain ⟨hlo, hhi⟩ := dayOfYear_bounds d
  simp only [monthIndex]
  omega

theorem month_bounds (d : ℤ) : 1 ≤ month d ∧ month d ≤ 12 := by
  obtain ⟨hlo, hhi⟩ := monthIndex_bounds d
  simp only [month]
  split <;> omega

theorem dayOfMonth_bounds (d : ℤ) : 1 ≤ dayOfMonth d ∧ dayOfMonth d ≤ monthLength (month d) := by
  obtain ⟨hlo, hhi⟩ := dayOfYear_bounds d
  obtain ⟨hm0, hm11⟩ := monthIndex_bounds d
  simp only [dayOfMonth, month]
  generalize hdoy : dayOfYear (dayOfCycle d) = doy at *
  generalize hmp : monthIndex doy = mp at *
  rw [monthIndex] at hmp
  simp only [monthLength]
  have hmonth : mp = 11 ∨ mp < 11 := by omega
  split <;> split <;> try split
  all_goals omega

theorem weekday_le (d : ℤ) : weekday d ≤ 6 := by
  simp only [weekday]
  omega

/-- The days of the year that ends with the leap day 2004-02-29. -/
theorem dayOfYear_leapYear {doy : ℤ} (hlo : 0 ≤ doy) (hhi : doy ≤ 365) :
    dayOfYear (dayOfCycle (12112 + doy)) = doy := by
  have hdoc : dayOfCycle (12112 + doy) = 36524 * 0 + 1461 * 0 + 365 * 3 + doy := by
    rw [dayOfCycle]
    omega
  rw [hdoc]
  exact dayOfYear_eq (by constructor <;> omega)

/-- Every date exists: in a leap year a month has all its days. -/
theorem exists_month {m : ℕ} (hlo : 1 ≤ m) (hhi : m ≤ 12) :
    ∃ d₀, ∀ k : ℕ, 1 ≤ k → k ≤ monthLength m →
      month (d₀ + k) = m ∧ dayOfMonth (d₀ + k) = k := by
  -- the month counted from March, and the day of the year before its first
  obtain ⟨mp, hmp⟩ : ∃ mp : ℤ, mp = if m < 3 then (m : ℤ) + 9 else m - 3 := ⟨_, rfl⟩
  obtain ⟨c, hc⟩ : ∃ c : ℤ, c = (153 * mp + 2) / 5 - 1 := ⟨_, rfl⟩
  have hmp0 : 0 ≤ mp ∧ mp ≤ 11 := by split at hmp <;> omega
  refine ⟨12112 + c, fun k hk hlen => ?_⟩
  have hk31 : k ≤ 31 ∧ (mp = 11 → k ≤ 29) ∧ (mp = 1 ∨ mp = 3 ∨ mp = 6 ∨ mp = 8 → k ≤ 30) := by
    simp only [monthLength] at hlen
    split at hmp <;> split at hlen <;> try split at hlen
    all_goals omega
  have hyear : dayOfYear (dayOfCycle (12112 + c + k)) = c + k := by
    rw [Int.add_assoc]
    apply dayOfYear_leapYear <;> omega
  have hindex : monthIndex (c + k) = mp := by
    rw [monthIndex]
    have hsplit : mp ≤ 3 ∨ mp = 4 ∨ mp = 5 ∨ 6 ≤ mp := by omega
    rcases hsplit with h | rfl | rfl | h <;> omega
  constructor
  · simp only [month, hyear, hindex]
    split at hmp <;> split <;> omega
  · simp only [dayOfMonth, hyear, hindex]
    omega

theorem exists_weekday {m w : ℕ} (hlo : 1 ≤ m) (hhi : m ≤ 12) (hw : w ≤ 6) :
    ∃ d, month d = m ∧ weekday d = w := by
  obtain ⟨d₀, hd₀⟩ := exists_month hlo hhi
  -- the first seven days of the month have all the days of the week
  obtain ⟨k, hk⟩ : ∃ k : ℕ, (k : ℤ) = 1 + (w - (d₀ + 5)) % 7 :=
    ⟨(1 + (w - (d₀ + 5)) % 7).toNat, by omega⟩
  have hlen : k ≤ monthLength m := by
    simp only [monthLength]
    split <;> try split
    all_goals omega
  refine ⟨d₀ + k, (hd₀ k (by omega) hlen).1, ?_⟩
  simp only [weekday]
  omega

/-! ## Broken-down time -/

/-- `struct tm` in UTC: a day, and the time of that day. -/
structure Tm where
  day : ℤ
  hour : ℕ
  min : ℕ
  sec : ℕ
  deriving DecidableEq, Repr

/-- The time of day is in range. -/
def Tm.Valid (tm : Tm) : Prop := tm.hour < 24 ∧ tm.min < 60 ∧ tm.sec < 60

/-- `GmTime`: the broken-down time of a time point, without its fraction of a second. -/
def gmTime (t : ℤ) : Tm :=
  let s := t / second
  { day := s / 86400
    hour := (s % 86400 / 3600).toNat
    min := (s % 3600 / 60).toNat
    sec := (s % 60).toNat }

/-- `TimeGm`: the time point of a broken-down time. -/
def timeGm (tm : Tm) : ℤ :=
  (tm.day * 86400 + tm.hour * 3600 + tm.min * 60 + tm.sec) * second

/-- `IncrementDay`: the same time on the next day. -/
def incrementDay (tm : Tm) : Tm := { tm with day := tm.day + 1 }

theorem gmTime_valid (t : ℤ) : (gmTime t).Valid := by
  simp only [Tm.Valid, gmTime]
  omega

theorem gmTime_timeGm {tm : Tm} (h : tm.Valid) : gmTime (timeGm tm) = tm := by
  obtain ⟨hh, hm, hs⟩ := h
  obtain ⟨d, hour, min, sec⟩ := tm
  simp only [gmTime, timeGm, second, Tm.mk.injEq] at hh hm hs ⊢
  refine ⟨?_, ?_, ?_, ?_⟩ <;> omega

theorem timeGm_gmTime_le (t : ℤ) : timeGm (gmTime t) ≤ t := by
  simp only [timeGm, gmTime, second]
  omega

/-- A time point lies less than a second after its broken-down time. -/
theorem lt_timeGm_gmTime_add (t : ℤ) : t < timeGm (gmTime t) + second := by
  simp only [timeGm, gmTime, second]
  omega

/-! ## Looking for a day with a given date -/

/-- The first day from `d` on that satisfies `p`, looking at `n` days. -/
def searchDay (p : ℤ → Bool) : ℕ → ℤ → Option ℤ
  | 0, _ => none
  | n + 1, d => if p d then some d else searchDay p n (d + 1)

theorem searchDay_eq_some {p : ℤ → Bool} {n : ℕ} {d d' : ℤ} (h : searchDay p n d = some d') :
    p d' = true ∧ d ≤ d' := by
  induction n generalizing d with
  | zero => cases h
  | succ n ih =>
      simp only [searchDay] at h
      split at h
      · rename_i hp
        cases h
        exact ⟨hp, Int.le_refl _⟩
      · obtain ⟨hp, hle⟩ := ih h
        exact ⟨hp, by omega⟩

/-- The search stops at the first day that has the property. -/
theorem eq_false_of_searchDay_lt {p : ℤ → Bool} {n : ℕ} {d d' e : ℤ}
    (h : searchDay p n d = some d') (hlo : d ≤ e) (hhi : e < d') : p e = false := by
  induction n generalizing d with
  | zero => cases h
  | succ n ih =>
      simp only [searchDay] at h
      split at h
      · cases h
        omega
      · rename_i hp
        by_cases heq : e = d
        · rw [heq]
          simpa using hp
        · exact ih h (by omega)

theorem searchDay_eq_none {p : ℤ → Bool} {n : ℕ} {d : ℤ} :
    searchDay p n d = none ↔ ∀ k < n, p (d + k) = false := by
  induction n generalizing d with
  | zero => simp [searchDay]
  | succ n ih =>
      simp only [searchDay]
      split
      · rename_i hp
        constructor
        · intro h
          cases h
        · intro h
          simpa [hp] using h 0 (Nat.succ_pos n)
      · rename_i hp
        rw [ih]
        constructor
        · intro h k hk
          cases k with
          | zero => simpa using hp
          | succ k =>
              have hk' := h k (by omega)
              rwa [show d + 1 + (k : ℤ) = d + ((k + 1 : ℕ) : ℤ) by push_cast; omega] at hk'
        · intro h k hk
          have hk' := h (k + 1) (by omega)
          rwa [show d + ((k + 1 : ℕ) : ℤ) = d + 1 + (k : ℤ) by push_cast; omega] at hk'

/-- **One cycle decides.**  For a property of dates, a search over one cycle fails only if no
later day at all has the property. -/
theorem searchDay_cycle_eq_none {p : ℤ → Bool} (hp : ∀ d, p (d + cycleDays) = p d) {d : ℤ} :
    searchDay p cycleDays d = none ↔ ∀ k : ℕ, p (d + k) = false := by
  rw [searchDay_eq_none]
  constructor
  · intro h k
    -- bring `k` into the first cycle, one period at a time
    induction k using Nat.strong_induction_on with
    | _ k ih =>
        by_cases hk : k < cycleDays
        · exact h k hk
        · have hlt : k - cycleDays < k := by simp only [cycleDays] at hk ⊢; omega
          have hback := ih (k - cycleDays) hlt
          rw [← hp] at hback
          have heq : d + ((k - cycleDays : ℕ) : ℤ) + cycleDays = d + k := by
            simp only [cycleDays] at hk ⊢
            omega
          rwa [heq] at hback
  · intro h k _
    exact h k

/-- A property of dates that some day has is one of later days too. -/
theorem exists_add_of_cycle {p : ℤ → Bool} (hp : ∀ d, p (d + cycleDays) = p d) {d₀ : ℤ}
    (h₀ : p d₀ = true) (d : ℤ) : ∃ k : ℕ, p (d + k) = true := by
  have hcycles : ∀ n : ℕ, p (d₀ + n * cycleDays) = true := by
    intro n
    induction n with
    | zero => simpa using h₀
    | succ n ih =>
        rw [← hp] at ih
        have heq : d₀ + (n + 1 : ℕ) * (cycleDays : ℤ) = d₀ + n * cycleDays + cycleDays := by
          simp only [cycleDays]
          omega
        rwa [heq]
  have hlater : d ≤ d₀ + (d - d₀).toNat * cycleDays := by
    simp only [cycleDays]
    omega
  have heq : d + ((d₀ + (d - d₀).toNat * cycleDays - d).toNat : ℤ)
      = d₀ + (d - d₀).toNat * cycleDays := by omega
  refine ⟨(d₀ + (d - d₀).toNat * cycleDays - d).toNat, ?_⟩
  rw [heq]
  exact hcycles _

end Workshop.Lib

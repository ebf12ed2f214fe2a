import Mathlib.Data.BitVec
import Workshop.Lib.Calendar

/-!
# Cron schedules

`CronSchedule` (`src/cron/Schedule.hxx`): the five bit sets of a crontab schedule, the range of
the random delay and the wildcard flag, with `checkDate` and `next` of `src/cron/Schedule.cxx`.

`next` walks forward from the last run: to the next minute of the set, if that wraps around to
the next hour of the set, if that wraps around to the next day, and then day by day until
`checkDate` accepts the date.  That last loop need not end ("February 30th"), so `next` is
partial: `none` stands for a call that never returns.  The loop only looks at the date, which
repeats with the Gregorian cycle, so searching one cycle decides it (`next_eq_none`).

What other modules use is the soundness of a call that returns: the result is a whole minute the
schedule admits (`next_matches`) and later than the last run (`lt_next`).
-/

namespace Workshop.Cron

open Workshop.Lib

/-! ## Bit sets with bounds -/

/-- `RangeBitSet<MIN, MAX>` (`src/util/RangeBitSet.hxx`): a bit for each position from `MIN` to
`MAX`. -/
structure RangeBitSet (MIN MAX : ℕ) where
  bits : BitVec (MAX - MIN + 1)
  deriving DecidableEq, Repr

namespace RangeBitSet

variable {MIN MAX : ℕ}

def empty : RangeBitSet MIN MAX := ⟨0⟩

/-- `set()`: all bits. -/
def full : RangeBitSet MIN MAX := ⟨BitVec.allOnes _⟩

/-- `operator[]`. -/
def get (b : RangeBitSet MIN MAX) (pos : ℕ) : Bool := b.bits.getLsbD (pos - MIN)

/-- `set(pos)`. -/
def set (b : RangeBitSet MIN MAX) (pos : ℕ) : RangeBitSet MIN MAX :=
  ⟨b.bits ||| BitVec.twoPow _ (pos - MIN)⟩

def none (b : RangeBitSet MIN MAX) : Bool := b.bits == 0

/-- Some position within the bounds is set. -/
def Nonempty (b : RangeBitSet MIN MAX) : Prop := ∃ i, MIN ≤ i ∧ i ≤ MAX ∧ b.get i = true

/-- All positions within the bounds are set. -/
def IsFull (b : RangeBitSet MIN MAX) : Prop := ∀ i, MIN ≤ i → i ≤ MAX → b.get i = true

theorem full_isFull : (full : RangeBitSet MIN MAX).IsFull := by
  intro i hlo hhi
  simp only [get, full, BitVec.getLsbD_allOnes, decide_eq_true_eq]
  omega

theorem none_eq_false {b : RangeBitSet MIN MAX} (hb : b.Nonempty) : b.none = false := by
  obtain ⟨i, _, _, hi⟩ := hb
  by_contra hnone
  have hzero : b.bits = 0 := by simpa [none] using hnone
  simp [get, hzero] at hi

theorem get_set_self {b : RangeBitSet MIN MAX} {pos : ℕ} (hlo : MIN ≤ pos) (hhi : pos ≤ MAX) :
    (b.set pos).get pos = true := by
  simp only [get, set, BitVec.getLsbD_or, BitVec.getLsbD_twoPow]
  simp only [decide_true, Bool.and_true, Bool.or_eq_true, decide_eq_true_eq]
  right
  omega

theorem get_set_of_get {b : RangeBitSet MIN MAX} {pos i : ℕ} (h : b.get i = true) :
    (b.set pos).get i = true := by
  simp only [get, set, BitVec.getLsbD_or] at h ⊢
  simp [h]

theorem get_set_iff {b : RangeBitSet MIN MAX} {pos i : ℕ} (hlo : MIN ≤ pos) (hi : MIN ≤ i)
    (hhi : i ≤ MAX) : (b.set pos).get i = true ↔ b.get i = true ∨ i = pos := by
  simp only [get, set, BitVec.getLsbD_or, BitVec.getLsbD_twoPow, Bool.or_eq_true, Bool.and_eq_true,
    decide_eq_true_eq]
  refine or_congr_right ⟨fun h => ?_, fun h => ?_⟩ <;> omega

theorem le_of_get {b : RangeBitSet MIN MAX} (hle : MIN ≤ MAX) {i : ℕ} (h : b.get i = true) :
    i ≤ MAX := by
  by_contra hgt
  rw [get, BitVec.getLsbD_of_ge b.bits (i - MIN) (by omega)] at h
  cases h

/-- `NextBit`: the next set position after `pos`, else the first one before it, else `pos`. -/
def nextBit (b : RangeBitSet MIN MAX) (pos : ℕ) : ℕ :=
  match (List.range' (pos + 1) (MAX - pos)).find? b.get with
  | some i => i
  | Option.none =>
    match (List.range' MIN (pos - MIN)).find? b.get with
    | some i => i
    | Option.none => pos

/-- The three ways `nextBit` can end: above `pos`, below it after wrapping around, or at `pos`
because no other position is set. -/
theorem nextBit_cases (b : RangeBitSet MIN MAX) (pos : ℕ) :
    (pos < b.nextBit pos ∧ b.nextBit pos ≤ MAX ∧ b.get (b.nextBit pos) = true ∧
        ∀ i, pos < i → i < b.nextBit pos → b.get i = false) ∨
      (b.nextBit pos ≤ pos ∧ (∀ i, pos < i → i ≤ MAX → b.get i = false) ∧
        (∀ i, MIN ≤ i → i < b.nextBit pos → b.get i = false) ∧
        (b.nextBit pos = pos ∨ b.get (b.nextBit pos) = true)) := by
  rw [nextBit]
  split
  · rename_i i hi
    obtain ⟨hget, hmem, hbelow⟩ := List.find?_range'_eq_some.mp hi
    rw [List.mem_range'_1] at hmem
    refine .inl ⟨by omega, by omega, hget, fun j hj hji => ?_⟩
    simpa using hbelow j hj hji
  · rename_i hup
    rw [List.find?_range'_eq_none] at hup
    have habove : ∀ i, pos < i → i ≤ MAX → b.get i = false := by
      intro i hpos hmax
      simpa using hup i hpos (by omega)
    split
    · rename_i i hi
      obtain ⟨hget, hmem, hbelow⟩ := List.find?_range'_eq_some.mp hi
      rw [List.mem_range'_1] at hmem
      refine .inr ⟨by omega, habove, fun j hj hji => ?_, .inr hget⟩
      simpa using hbelow j hj hji
    · rename_i hdown
      rw [List.find?_range'_eq_none] at hdown
      refine .inr ⟨le_rfl, habove, fun j hj hji => ?_, .inl rfl⟩
      simpa using hdown j hj (by omega)

/-- `nextBit` of a non-empty set is a position of the set. -/
theorem nextBit_mem {b : RangeBitSet MIN MAX} (hb : b.Nonempty) (pos : ℕ) :
    b.get (b.nextBit pos) = true ∧ b.nextBit pos ≤ MAX := by
  rcases b.nextBit_cases pos with ⟨_, hmax, hget, _⟩ | ⟨hwrap, habove, hbelow, hend⟩
  · exact ⟨hget, hmax⟩
  · -- the set has a position, which is neither above `pos` nor below the result
    obtain ⟨j, hlo, hhi, hj⟩ := hb
    have hle : j ≤ pos := by
      by_contra hgt
      simp [habove j (by omega) hhi] at hj
    have hge : b.nextBit pos ≤ j := by
      by_contra hlt
      simp [hbelow j hlo (by omega)] at hj
    rcases hend with heq | hget
    · have hpos : b.nextBit pos = j := by omega
      rw [hpos]
      exact ⟨hj, hhi⟩
    · exact ⟨hget, by omega⟩

/-- Going up, `nextBit` skips only positions that are not set. -/
theorem nextBit_le_of_lt {b : RangeBitSet MIN MAX} {pos i : ℕ} (hup : pos < b.nextBit pos)
    (hlo : pos < i) (hi : b.get i = true) : b.nextBit pos ≤ i := by
  rcases b.nextBit_cases pos with ⟨_, _, _, hnone⟩ | ⟨hwrap, _⟩
  · by_contra hlt
    simp [hnone i hlo (by omega)] at hi
  · omega

/-- Wrapping around, `nextBit` leads to the first position of the set, which has none above
`pos`. -/
theorem nextBit_le_of_wrap {b : RangeBitSet MIN MAX} {pos i : ℕ} (hwrap : b.nextBit pos ≤ pos)
    (hlo : MIN ≤ i) (hhi : i ≤ MAX) (hi : b.get i = true) : b.nextBit pos ≤ i ∧ i ≤ pos := by
  rcases b.nextBit_cases pos with ⟨hup, _⟩ | ⟨_, habove, hbelow, _⟩
  · omega
  · constructor
    · by_contra hlt
      simp [hbelow i hlo (by omega)] at hi
    · by_contra hgt
      simp [habove i (by omega) hhi] at hi

end RangeBitSet

/-! ## Time stamps of the database -/

/-- A PostgreSQL time stamp: a time point or `'infinity'`. -/
inductive Timestamp
  | finite (t : ℤ)
  | infinity
  deriving DecidableEq, Repr

/-- Adding an interval; `'infinity'` absorbs it. -/
def Timestamp.add : Timestamp → ℤ → Timestamp
  | .finite t, d => .finite (t + d)
  | .infinity, _ => .infinity

/-! ## The schedule -/

/-- `CronSchedule`.  The delay range is in seconds. -/
structure CronSchedule where
  minutes : RangeBitSet 0 59 := .empty
  hours : RangeBitSet 0 23 := .empty
  daysOfMonth : RangeBitSet 1 31 := .empty
  months : RangeBitSet 1 12 := .empty
  daysOfWeek : RangeBitSet 0 6 := .empty
  delayRange : ℤ := 60
  daysAnyWildcard : Bool := false
  deriving DecidableEq, Repr

namespace CronSchedule

variable (s : CronSchedule)

/-- `IsOnce`: the "run once, and never again" schedule has no bit set at all. -/
def isOnce : Bool :=
  s.minutes.none && s.hours.none && s.daysOfMonth.none && s.months.none && s.daysOfWeek.none

/-- `CheckDate`, on the day number of the date. -/
def checkDay (d : ℤ) : Bool :=
  let dayOfMonthMatch := s.daysOfMonth.get (dayOfMonth d)
  let dayOfWeekMatch := s.daysOfWeek.get (weekday d)
  s.months.get (month d - 1 + 1) &&
    if s.daysAnyWildcard then dayOfMonthMatch && dayOfWeekMatch
    else dayOfMonthMatch || dayOfWeekMatch

/-- `CheckDate`. -/
def checkDate (tm : Tm) : Bool := s.checkDay tm.day

theorem checkDay_add_cycle (d : ℤ) : s.checkDay (d + cycleDays) = s.checkDay d := by
  simp only [checkDay, dayOfMonth_add_cycle, month_add_cycle, weekday_add_cycle]

/-- `while (!CheckDate(next)) IncrementDay(next)`: `none` if the loop never ends. -/
def skipDays (tm : Tm) : Option Tm :=
  (searchDay s.checkDay cycleDays tm.day).map fun d => { tm with day := d }

/-- The part of `Next` before the day loop: the next minute and hour of the sets after `last`,
on the same or on the following day. -/
def nextTime (last : Tm) : Tm :=
  -- "last hour was invalid: recover by forcing a skip to the next valid hour"
  let lastMin := if s.hours.get last.hour then last.min else 60
  let min := s.minutes.nextBit lastMin
  let next : Tm := { last with sec := 0, min := min }
  if min ≤ lastMin then
    let hour := s.hours.nextBit last.hour
    let next := { next with hour := hour }
    if hour ≤ last.hour then incrementDay next else next
  else next

/-- `Next`: when to run the job next time.  `last` is `none` if the job was never run
(`time_point::min()`), and the result is `none` if the call never returns. -/
def next (last : Option ℤ) (now : ℤ) : Option Timestamp :=
  if s.isOnce then
    match last with
    | none => some (.finite now)
    | some _ => some .infinity
  else
    (s.skipDays (s.nextTime (gmTime (last.getD (now - minute))))).map fun tm => .finite (timeGm tm)

/-! ## Soundness of `next` -/

/-- The time `t` is a whole minute the schedule admits; a "once" schedule admits every time. -/
def Matches (t : ℤ) : Prop :=
  s.isOnce = true ∨
    (timeGm (gmTime t) = t ∧ (gmTime t).sec = 0 ∧ s.minutes.get (gmTime t).min = true ∧
      s.hours.get (gmTime t).hour = true ∧ s.checkDate (gmTime t) = true)

instance (t : ℤ) : Decidable (s.Matches t) := inferInstanceAs (Decidable (_ ∨ _))

/-- A schedule that can be walked: "once", or with a minute and an hour to go to. -/
def Walkable : Prop := s.isOnce = true ∨ (s.minutes.Nonempty ∧ s.hours.Nonempty)

variable {s}

theorem skipDays_eq_some {tm tm' : Tm} (h : s.skipDays tm = some tm') :
    s.checkDate tm' = true ∧ tm.day ≤ tm'.day ∧ tm' = { tm with day := tm'.day } := by
  obtain ⟨d, hd, rfl⟩ := Option.map_eq_some_iff.mp h
  obtain ⟨hp, hle⟩ := searchDay_eq_some hd
  exact ⟨hp, hle, rfl⟩

/-- The time of day `nextTime` arrives at is one of the sets', and lies after `last`. -/
theorem nextTime_spec (hmin : s.minutes.Nonempty) (hhour : s.hours.Nonempty) {last : Tm}
    (hlast : last.Valid) :
    (s.nextTime last).sec = 0 ∧ s.minutes.get (s.nextTime last).min = true ∧
      s.hours.get (s.nextTime last).hour = true ∧ (s.nextTime last).Valid ∧
      timeGm last + second ≤ timeGm (s.nextTime last) := by
  obtain ⟨hlh, hlm, hls⟩ := hlast
  set lastMin := if s.hours.get last.hour then last.min else 60 with hlastMin
  obtain ⟨hm, hmle⟩ := s.minutes.nextBit_mem hmin lastMin
  obtain ⟨hh, hhle⟩ := s.hours.nextBit_mem hhour last.hour
  simp only [nextTime, ← hlastMin]
  by_cases hwrap : s.minutes.nextBit lastMin ≤ lastMin
  · rw [if_pos hwrap]
    by_cases hday : s.hours.nextBit last.hour ≤ last.hour
    · rw [if_pos hday]
      refine ⟨rfl, hm, hh, ⟨by simp only [incrementDay]; omega, by simp only [incrementDay]; omega,
        by simp [incrementDay]⟩, ?_⟩
      simp only [timeGm, incrementDay, second]
      omega
    · rw [if_neg hday]
      refine ⟨rfl, hm, hh, ⟨by simp only; omega, by simp only; omega, by simp⟩, ?_⟩
      simp only [timeGm, second]
      omega
  · rw [if_neg hwrap]
    -- the minute moved on inside an hour of the set: `lastMin` is the real minute
    have hvalid : s.hours.get last.hour = true := by
      by_contra hinv
      have hsixty : lastMin = 60 := by rw [hlastMin, if_neg hinv]
      omega
    have hreal : lastMin = last.min := by rw [hlastMin, if_pos hvalid]
    refine ⟨rfl, hm, hvalid, ⟨hlh, by simp only; omega, by simp⟩, ?_⟩
    simp only [timeGm, second]
    omega

/-- A call of `next` that returns a finite time went through the day loop, or is the first run
of a "once" job. -/
theorem next_eq_finite {last : Option ℤ} {now t : ℤ} (h : s.next last now = some (.finite t)) :
    (s.isOnce = true ∧ last = none ∧ t = now) ∨
      (s.isOnce = false ∧
        ∃ tm, s.skipDays (s.nextTime (gmTime (last.getD (now - minute)))) = some tm
        ∧ t = timeGm tm) := by
  unfold next at h
  split at h
  · rename_i honce
    cases last with
    | none => exact .inl ⟨honce, rfl, by simpa using h.symm⟩
    | some l => simp at h
  · rename_i honce
    obtain ⟨tm, htm, ht⟩ := Option.map_eq_some_iff.mp h
    exact .inr ⟨by simpa using honce, tm, htm, by simpa using ht.symm⟩

/-- **`next` returns a time the schedule admits.** -/
theorem next_matches (hs : s.Walkable) {last : Option ℤ} {now t : ℤ}
    (h : s.next last now = some (.finite t)) : s.Matches t := by
  rcases next_eq_finite h with ⟨honce, _, _⟩ | ⟨honce, tm, htm, rfl⟩
  · exact .inl honce
  · rcases hs with habs | ⟨hmin, hhour⟩
    · rw [honce] at habs
      cases habs
    · obtain ⟨hsec, hm, hh, hvalid, _⟩ := nextTime_spec hmin hhour
        (gmTime_valid (last.getD (now - minute)))
      obtain ⟨hdate, _, heq⟩ := skipDays_eq_some htm
      have hvalid' : tm.Valid := by rw [heq]; exact hvalid
      refine .inr ?_
      rw [gmTime_timeGm hvalid']
      refine ⟨rfl, ?_, ?_, ?_, hdate⟩
      · rw [heq]; exact hsec
      · rw [heq]; exact hm
      · rw [heq]; exact hh

/-- **`next` returns a time after the last run**, which is taken to be one minute ago if there was
none. -/
theorem getD_lt_next (hs : s.Walkable) (hnot : s.isOnce = false) {last : Option ℤ} {now t : ℤ}
    (h : s.next last now = some (.finite t)) : last.getD (now - minute) < t := by
  rcases next_eq_finite h with ⟨honce, _⟩ | ⟨_, tm, htm, rfl⟩
  · rw [hnot] at honce
    cases honce
  · rcases hs with habs | ⟨hmin, hhour⟩
    · rw [hnot] at habs
      cases habs
    · obtain ⟨_, _, _, _, hlater⟩ := nextTime_spec hmin hhour
        (gmTime_valid (last.getD (now - minute)))
      obtain ⟨_, hle, heq⟩ := skipDays_eq_some htm
      have hfrac := lt_timeGm_gmTime_add (last.getD (now - minute))
      have hday : timeGm (s.nextTime (gmTime (last.getD (now - minute)))) ≤ timeGm tm := by
        rw [heq]
        simp only [timeGm, second]
        omega
      omega

theorem lt_next (hs : s.Walkable) {last now t : ℤ} (h : s.next (some last) now = some (.finite t)) :
    last < t := by
  rcases next_eq_finite h with ⟨_, hnone, _⟩ | ⟨hnot, _⟩
  · cases hnone
  · exact getD_lt_next hs hnot h

/-- **`next` never returns exactly if the day loop looks for a date that does not exist.** -/
theorem next_eq_none {last : Option ℤ} {now : ℤ} :
    s.next last now = none ↔ s.isOnce = false ∧
      ∀ k : ℕ, s.checkDay ((s.nextTime (gmTime (last.getD (now - minute)))).day + k) = false := by
  unfold next
  split
  · rename_i honce
    cases last <;> simp [honce]
  · rename_i honce
    rw [Option.map_eq_none_iff, skipDays, Option.map_eq_none_iff,
      searchDay_cycle_eq_none (s.checkDay_add_cycle)]
    simp [honce]

end CronSchedule

end Workshop.Cron

import Workshop.Cron.ScheduleParser

/-!
# When a parsed schedule runs next

What `CronSchedule::Next` (`src/cron/Schedule.cxx`) does with a schedule the parser has accepted,
other than `@once`: whether it returns, whether what it returns is a time the schedule admits, and
whether it is the first one.

The result always is a time of the schedule (`next_runsAt`).  It need not exist: the day loop ends
exactly if the schedule has a date that exists (`next_isSome_iff`), which `0 0 30 2 *` has not.  And
it need not be the first: minute and hour are chosen before the day loop, and stay what they are
when the loop moves on to another day, although that day may start with an earlier minute of the
schedule (`exists_between_iff`).
-/

namespace Workshop.Cron

open Workshop.Lib

namespace CronSchedule

variable {c : CronSchedule}

/-! ## The times of a schedule -/

/-- The minute of the day. -/
def minuteOfDay (tm : Tm) : ℕ := 60 * tm.hour + tm.min

/-- The schedule admits the minute `m` of a day. -/
def AtMinute (c : CronSchedule) (m : ℕ) : Prop :=
  c.hours.get (m / 60) = true ∧ c.minutes.get (m % 60) = true

/-- The schedule runs at the time `t`: a whole minute whose minute, hour and date it admits. -/
def RunsAt (c : CronSchedule) (t : ℤ) : Prop :=
  timeGm (gmTime t) = t ∧ (gmTime t).sec = 0 ∧ c.minutes.get (gmTime t).min = true ∧
    c.hours.get (gmTime t).hour = true ∧ c.checkDate (gmTime t) = true

instance (t : ℤ) : Decidable (c.RunsAt t) := inferInstanceAs (Decidable (_ ∧ _))

theorem AtMinute.lt {m : ℕ} (h : c.AtMinute m) : m < 1440 := by
  have hhour := RangeBitSet.le_of_get (by omega) h.1
  omega

theorem atMinute_minuteOfDay {tm : Tm} (hvalid : tm.Valid) :
    c.AtMinute (minuteOfDay tm) ↔ c.hours.get tm.hour = true ∧ c.minutes.get tm.min = true := by
  obtain ⟨_, hmin, _⟩ := hvalid
  have hdiv : minuteOfDay tm / 60 = tm.hour := by
    simp only [minuteOfDay]
    omega
  have hmod : minuteOfDay tm % 60 = tm.min := by
    simp only [minuteOfDay]
    omega
  rw [AtMinute, hdiv, hmod]

theorem minuteOfDay_lt {tm : Tm} (hvalid : tm.Valid) : minuteOfDay tm < 1440 := by
  obtain ⟨hhour, hmin, _⟩ := hvalid
  simp only [minuteOfDay]
  omega

theorem timeGm_eq (tm : Tm) :
    timeGm tm = (tm.day * 1440 + minuteOfDay tm) * minute + tm.sec * second := by
  simp only [timeGm, minuteOfDay, minute, second]
  omega

/-- The minutes of the day the schedule admits make it run, on the days it admits. -/
theorem runsAt_timeGm {d : ℤ} {m : ℕ} (hm : c.AtMinute m) (hd : c.checkDay d = true) :
    c.RunsAt (timeGm ⟨d, m / 60, m % 60, 0⟩) := by
  have hlt := hm.lt
  have hvalid : Tm.Valid ⟨d, m / 60, m % 60, 0⟩ :=
    ⟨by simp only; omega, by simp only; omega, by simp⟩
  rw [RunsAt, gmTime_timeGm hvalid]
  exact ⟨rfl, rfl, hm.2, hm.1, hd⟩

/-! ## The time chosen before the day loop -/

/-- `nextTime` goes to the next admitted minute of the same day, or if there is none to the first
one of the following day. -/
theorem nextTime_cases (hc : c.WellFormed) {last : Tm} (hlast : last.Valid) :
    ((c.nextTime last).day = last.day ∧ minuteOfDay last < minuteOfDay (c.nextTime last) ∧
        ∀ m, c.AtMinute m → minuteOfDay last < m → minuteOfDay (c.nextTime last) ≤ m) ∨
      ((c.nextTime last).day = last.day + 1 ∧
        ∀ m, c.AtMinute m → m ≤ minuteOfDay last ∧ minuteOfDay (c.nextTime last) ≤ m) := by
  obtain ⟨hlh, hlm, hls⟩ := hlast
  set lastMin := if c.hours.get last.hour then last.min else 60 with hlastMin
  have hreal : c.hours.get last.hour = true → lastMin = last.min :=
    fun h => by rw [hlastMin, if_pos h]
  have hmax := (c.minutes.nextBit_mem hc.minutes lastMin).2
  have hhmax := (c.hours.nextBit_mem hc.hours last.hour).2
  simp only [nextTime, ← hlastMin]
  by_cases hwrap : c.minutes.nextBit lastMin ≤ lastMin
  · rw [if_pos hwrap]
    have hmin : ∀ m, c.AtMinute m → c.minutes.nextBit lastMin ≤ m % 60 ∧ m % 60 ≤ lastMin :=
      fun m hm => RangeBitSet.nextBit_le_of_wrap hwrap (by omega) (by omega) hm.2
    by_cases hday : c.hours.nextBit last.hour ≤ last.hour
    · rw [if_pos hday]
      right
      refine ⟨rfl, fun m hm => ?_⟩
      obtain ⟨hlo, hhi⟩ := hmin m hm
      obtain ⟨hhlo, hhhi⟩ := RangeBitSet.nextBit_le_of_wrap hday (by omega)
        (RangeBitSet.le_of_get (by omega) hm.1) hm.1
      -- in the hour of `last` itself, no minute above the real one is left
      have hsame : m / 60 = last.hour → m % 60 ≤ last.min := fun heq => by
        have := hreal (heq ▸ hm.1)
        omega
      simp only [minuteOfDay, incrementDay]
      constructor
      · by_cases heq : m / 60 = last.hour
        · have := hsame heq
          omega
        · omega
      · omega
    · rw [if_neg hday]
      left
      refine ⟨rfl, by simp only [minuteOfDay]; omega, fun m hm hlt => ?_⟩
      obtain ⟨hlo, hhi⟩ := hmin m hm
      simp only [minuteOfDay] at hlt ⊢
      have hnot : m / 60 ≠ last.hour := fun heq => by
        have := hreal (heq ▸ hm.1)
        omega
      have hup : last.hour < c.hours.nextBit last.hour := by omega
      have := RangeBitSet.nextBit_le_of_lt hup (by omega) hm.1
      omega
  · rw [if_neg hwrap]
    left
    have hvalid : c.hours.get last.hour = true := by
      by_contra hinv
      have hsixty : lastMin = 60 := by rw [hlastMin, if_neg hinv]
      omega
    have heq := hreal hvalid
    have hup : lastMin < c.minutes.nextBit lastMin := by omega
    refine ⟨rfl, by simp only [minuteOfDay]; omega, fun m hm hlt => ?_⟩
    simp only [minuteOfDay] at hlt ⊢
    by_cases hsame : m / 60 = last.hour
    · have := RangeBitSet.nextBit_le_of_lt hup (by omega) hm.2
      omega
    · omega

/-! ## Soundness -/

/-- A call of `next` that returns went from the last run, which is taken to be one minute ago if
there was none, through `nextTime` and the day loop. -/
theorem next_eq_some (hc : c.WellFormed) {last : Option ℤ} {now : ℤ} {r : Timestamp}
    (h : c.next last now = some r) :
    ∃ tm, c.skipDays (c.nextTime (gmTime (last.getD (now - minute)))) = some tm ∧
      r = .finite (timeGm tm) := by
  unfold next at h
  rw [if_neg (by simp [hc.isOnce])] at h
  obtain ⟨tm, htm, hr⟩ := Option.map_eq_some_iff.mp h
  exact ⟨tm, htm, hr.symm⟩

theorem runsAt_of_matches (hc : c.WellFormed) {t : ℤ} (h : c.Matches t) : c.RunsAt t := by
  rcases h with honce | h
  · rw [hc.isOnce] at honce
    cases honce
  · exact h

/-- **What `next` returns is a time of the schedule, and later than the last run.** -/
theorem next_runsAt {schedule : String} (hparse : parse schedule = .ok c)
    (honce : schedule ≠ "@once") {last : Option ℤ} {now : ℤ} {r : Timestamp}
    (h : c.next last now = some r) :
    ∃ t, r = .finite t ∧ c.RunsAt t ∧ last.getD (now - minute) < t := by
  have hc : c.WellFormed := (parse_wellFormed hparse).resolve_left fun heq => honce heq.1
  obtain ⟨tm, _, rfl⟩ := next_eq_some hc h
  refine ⟨timeGm tm, rfl, runsAt_of_matches hc (next_matches hc.walkable h), ?_⟩
  exact getD_lt_next hc.walkable hc.isOnce h

/-- `30 4 * * *`: half past four in the morning. -/
def nightly : CronSchedule where
  minutes := RangeBitSet.empty.set 30
  hours := RangeBitSet.empty.set 4
  daysOfMonth := .full
  months := .full
  daysOfWeek := .full
  daysAnyWildcard := true

theorem next_runsAt_nightly :
    ∃ t, Timestamp.finite ((4 * 60 + 30) * minute) = .finite t ∧ nightly.RunsAt t ∧ 0 < t :=
  have hparse : parse "30 4 * * *" = .ok nightly := by decide +kernel
  have hnext : nightly.next (some 0) 0 = some (.finite ((4 * 60 + 30) * minute)) := by
    decide +kernel
  next_runsAt hparse (by simp) hnext

/-! ## Termination -/

/-- The schedule has a date that exists.  If the day of the month and the day of the week both
have to match, some month of the schedule has to have one of its days. -/
def DateExists (c : CronSchedule) : Prop :=
  c.daysAnyWildcard = true → ∃ m k, 1 ≤ m ∧ m ≤ 12 ∧ c.months.get m = true ∧
    1 ≤ k ∧ k ≤ monthLength m ∧ c.daysOfMonth.get k = true

theorem checkDay_iff (d : ℤ) :
    c.checkDay d = true ↔ c.months.get (month d) = true ∧
      if c.daysAnyWildcard then
        c.daysOfMonth.get (dayOfMonth d) = true ∧ c.daysOfWeek.get (weekday d) = true
      else c.daysOfMonth.get (dayOfMonth d) = true ∨ c.daysOfWeek.get (weekday d) = true := by
  have hmonth : month d - 1 + 1 = month d := by
    have := month_bounds d
    omega
  simp only [checkDay, hmonth, Bool.and_eq_true]
  split <;> simp

theorem exists_checkDay_iff (hc : c.WellFormed) : (∃ d, c.checkDay d = true) ↔ c.DateExists := by
  simp only [checkDay_iff]
  constructor
  · rintro ⟨d, hmonths, hd⟩ hwild
    rw [if_pos hwild] at hd
    obtain ⟨hdom, _⟩ := hd
    obtain ⟨hlo, hhi⟩ := month_bounds d
    obtain ⟨hdlo, hdhi⟩ := dayOfMonth_bounds d
    exact ⟨month d, dayOfMonth d, hlo, hhi, hmonths, hdlo, hdhi, hdom⟩
  · intro hdate
    obtain ⟨w, _, hw6, hw⟩ := hc.daysOfWeek
    cases hwild : c.daysAnyWildcard with
    | false =>
        -- either field suffices: any month of the schedule has the day of the week
        obtain ⟨m, hm1, hm12, hm⟩ := hc.months
        obtain ⟨d, hmd, hwd⟩ := exists_weekday hm1 hm12 hw6
        exact ⟨d, hmd ▸ hm, by simp [hwd, hw]⟩
    | true =>
        obtain ⟨m, k, hm1, hm12, hm, hk1, hklen, hk⟩ := hdate hwild
        rcases hc.wildcard hwild with hfull | hfull
        · obtain ⟨d, hmd, hwd⟩ := exists_weekday hm1 hm12 hw6
          obtain ⟨hdlo, hdhi⟩ := dayOfMonth_bounds d
          have hdom := hfull (dayOfMonth d) hdlo (hdhi.trans (monthLength_le _))
          exact ⟨d, hmd ▸ hm, by simp [hwd, hw, hdom]⟩
        · obtain ⟨d₀, hd₀⟩ := exists_month hm1 hm12
          obtain ⟨hmd, hkd⟩ := hd₀ k hk1 hklen
          have hdow := hfull (weekday (d₀ + k)) (Nat.zero_le _) (weekday_le _)
          exact ⟨d₀ + k, hmd.symm ▸ hm, by simp [hkd, hk, hdow]⟩

/-- The dates a schedule admits come back: if there is one at all, the day loop finds one from any
day on. -/
theorem exists_later_checkDay_iff (hc : c.WellFormed) (d : ℤ) :
    (∃ k : ℕ, c.checkDay (d + k) = true) ↔ c.DateExists := by
  rw [← exists_checkDay_iff hc]
  constructor
  · rintro ⟨k, hk⟩
    exact ⟨d + k, hk⟩
  · rintro ⟨d₀, hd₀⟩
    exact exists_add_of_cycle c.checkDay_add_cycle hd₀ d

theorem next_isSome_iff (hc : c.WellFormed) (last : Option ℤ) (now : ℤ) :
    (c.next last now).isSome = true ↔ c.DateExists := by
  rw [← exists_later_checkDay_iff hc (c.nextTime (gmTime (last.getD (now - minute)))).day,
    ← not_iff_not, Bool.not_eq_true, Option.isSome_eq_false_iff, Option.isNone_iff_eq_none,
    next_eq_none]
  simp [hc.isOnce]

/-- **When `next` terminates.**  The day loop finds a date from any day on, and every call returns,
exactly for the schedules that have a date that exists. -/
theorem next_terminates_iff {schedule : String} (hparse : parse schedule = .ok c)
    (honce : schedule ≠ "@once") :
    (∀ d, (∃ k : ℕ, c.checkDay (d + k) = true) ↔ c.DateExists) ∧
      ∀ last now, (c.next last now).isSome = true ↔ c.DateExists := by
  have hc : c.WellFormed := (parse_wellFormed hparse).resolve_left fun heq => honce heq.1
  exact ⟨exists_later_checkDay_iff hc, next_isSome_iff hc⟩

/-- `0 0 30 2 *`: every February 30th. -/
def february30 : CronSchedule where
  minutes := RangeBitSet.empty.set 0
  hours := RangeBitSet.empty.set 0
  daysOfMonth := RangeBitSet.empty.set 30
  months := RangeBitSet.empty.set 2
  daysOfWeek := .full
  daysAnyWildcard := true

/-- `0 0 29 2 *`: every leap day. -/
def leapDay : CronSchedule := { february30 with daysOfMonth := RangeBitSet.empty.set 29 }

theorem next_terminates_leapDay :
    parse "0 0 29 2 *" = .ok leapDay ∧ leapDay.DateExists ∧
      ∀ last now, (leapDay.next last now).isSome = true := by
  have hparse : parse "0 0 29 2 *" = .ok leapDay := by decide +kernel
  have hdate : leapDay.DateExists := fun _ => ⟨2, 29, by decide⟩
  exact ⟨hparse, hdate, fun last now =>
    ((next_terminates_iff hparse (by simp)).2 last now).mpr hdate⟩

theorem next_february30 :
    parse "0 0 30 2 *" = .ok february30 ∧
      (∀ d (k : ℕ), february30.checkDay (d + k) = false) ∧
      ∀ last now, february30.next last now = none := by
  have hparse : parse "0 0 30 2 *" = .ok february30 := by decide +kernel
  have hc : february30.WellFormed := (parse_wellFormed hparse).resolve_left (by simp)
  have hmonth : ∀ m ≤ 12, february30.months.get m = true → m = 2 := by decide
  have hday : ∀ k ≤ 29, february30.daysOfMonth.get k = false := by decide
  have hnone : ¬ february30.DateExists := by
    intro hdate
    obtain ⟨m, k, _, hm12, hm, _, hk, hget⟩ := hdate rfl
    rw [hmonth m hm12 hm] at hk
    simp [hday k hk] at hget
  refine ⟨hparse, fun d k => ?_, fun last now => ?_⟩
  · by_contra hd
    exact hnone ((exists_later_checkDay_iff hc d).mp ⟨k, by simpa using hd⟩)
  · by_contra hsome
    exact hnone ((next_isSome_iff hc last now).mp (Option.isSome_iff_ne_none.mpr hsome))

/-! ## Times that are skipped -/

theorem runsAt_iff {t : ℤ} :
    c.RunsAt t ↔ ∃ d m, c.AtMinute m ∧ c.checkDay d = true ∧ t = (d * 1440 + (m : ℤ)) * minute := by
  constructor
  · rintro ⟨hwhole, hsec, hmin, hhour, hdate⟩
    refine ⟨(gmTime t).day, minuteOfDay (gmTime t), ?_, hdate, ?_⟩
    · exact (atMinute_minuteOfDay (gmTime_valid t)).mpr ⟨hhour, hmin⟩
    · have heq := timeGm_eq (gmTime t)
      rw [hwhole, hsec] at heq
      simpa using heq
  · rintro ⟨d, m, hm, hd, rfl⟩
    have hrun := runsAt_timeGm hm hd
    have hmod : minuteOfDay ⟨d, m / 60, m % 60, 0⟩ = m := by
      simp only [minuteOfDay]
      omega
    simpa [timeGm_eq, hmod] using hrun

/-- The result of `next`: the first day of the schedule from that of `nextTime` on, at the minute of
the day that `nextTime` chose. -/
theorem next_eq_finite_day (hc : c.WellFormed) {last : Option ℤ} {now t : ℤ}
    (h : c.next last now = some (.finite t)) :
    ∃ d,
      t = (d * 1440 + (minuteOfDay (c.nextTime (gmTime (last.getD (now - minute)))) : ℤ)) * minute ∧
      c.checkDay d = true ∧ (c.nextTime (gmTime (last.getD (now - minute)))).day ≤ d ∧
      ∀ e, (c.nextTime (gmTime (last.getD (now - minute)))).day ≤ e → e < d →
        c.checkDay e = false := by
  obtain ⟨tm, htm, hr⟩ := next_eq_some hc h
  obtain ⟨hdate, hle, heq⟩ := skipDays_eq_some htm
  obtain ⟨hsec, _⟩ := nextTime_spec hc.minutes hc.hours (gmTime_valid (last.getD (now - minute)))
  obtain ⟨d, hd, hday⟩ := Option.map_eq_some_iff.mp htm
  refine ⟨tm.day, ?_, hdate, hle, fun e hlo hhi => ?_⟩
  · rw [Timestamp.finite.inj hr, heq, timeGm_eq]
    simp [minuteOfDay, hsec]
  · rw [← hday] at hhi
    exact eq_false_of_searchDay_lt hd hlo hhi

/-- Some time of the schedule lies between the last run and the one `next` returns exactly if the
date of the last run is none of the schedule's, and the schedule has minutes of the day both after
and up to that of the last run. -/
theorem exists_between_iff (hc : c.WellFormed) {last : Option ℤ} {now t : ℤ}
    (h : c.next last now = some (.finite t)) :
    (∃ u, last.getD (now - minute) < u ∧ u < t ∧ c.RunsAt u) ↔
      c.checkDate (gmTime (last.getD (now - minute))) = false ∧
        (∃ m, c.AtMinute m ∧ minuteOfDay (gmTime (last.getD (now - minute))) < m) ∧
        ∃ m, c.AtMinute m ∧ m ≤ minuteOfDay (gmTime (last.getD (now - minute))) := by
  obtain ⟨d, ht, hdate, hle, hfirst⟩ := next_eq_finite_day hc h
  generalize last.getD (now - minute) = l at *
  have hlast := gmTime_valid l
  have hafter := lt_timeGm_gmTime_add l
  have hbefore := timeGm_gmTime_le l
  rw [timeGm_eq] at hafter hbefore
  obtain ⟨_, hget, hhour, hvalid, _⟩ := nextTime_spec hc.minutes hc.hours hlast
  have hat : c.AtMinute (minuteOfDay (c.nextTime (gmTime l))) :=
    (atMinute_minuteOfDay hvalid).mpr ⟨hhour, hget⟩
  have hcases := nextTime_cases hc hlast
  have hmlast := minuteOfDay_lt hlast
  have hsecond := hlast.2.2
  rw [checkDate]
  generalize minuteOfDay (gmTime l) = ml at *
  generalize minuteOfDay (c.nextTime (gmTime l)) = mn at *
  generalize (c.nextTime (gmTime l)).day = dn at *
  simp only [minute, second] at *
  constructor
  · rintro ⟨u, hlu, hut, hu⟩
    obtain ⟨e, m, hm, he, rfl⟩ := runsAt_iff.mp hu
    simp only [minute, second] at hlu hut
    have hm1440 := hm.lt
    have hn1440 := hat.lt
    -- the day of `u` is not one the day loop passed over, so it is that of the last run or of `t`
    have hedge : e < dn ∨ d ≤ e := by
      by_contra hmid
      simp [hfirst e (by omega) (by omega)] at he
    rcases hcases with ⟨hday, hlt, hleast⟩ | ⟨hday, hall⟩
    · have hlate : d = e := by omega
      have hearly : m ≤ ml := by
        by_contra hgt
        have := hleast m hm (by omega)
        omega
      have hloop : (gmTime l).day < d := by omega
      exact ⟨hfirst _ (by omega) hloop, ⟨mn, hat, hlt⟩, m, hm, hearly⟩
    · have := hall m hm
      omega
  · rintro ⟨hnot, ⟨m₁, hm₁, hgt⟩, m₀, hm₀, hge⟩
    rcases hcases with ⟨hday, hlt, hleast⟩ | ⟨hday, hall⟩
    · have hother : d ≠ (gmTime l).day := by
        intro heq
        rw [heq, hnot] at hdate
        cases hdate
      refine ⟨(d * 1440 + (m₀ : ℤ)) * minute, ?_, ?_, runsAt_iff.mpr ⟨d, m₀, hm₀, hdate, rfl⟩⟩
      · simp only [minute, second]
        omega
      · simp only [minute, second]
        omega
    · have := (hall m₁ hm₁).1
      omega

/-- **When `next` skips nothing.**  No time of the schedule lies between the last run and the one
`next` returns exactly if the day of the last run is one of the schedule's, or all its minutes of
the day lie on one side of that run. -/
theorem next_skips_nothing_iff {schedule : String} (hparse : parse schedule = .ok c)
    (honce : schedule ≠ "@once") {last : Option ℤ} {now t : ℤ}
    (h : c.next last now = some (.finite t)) :
    (∀ u, last.getD (now - minute) < u → u < t → ¬ c.RunsAt u) ↔
      c.checkDate (gmTime (last.getD (now - minute))) = true ∨
        (∀ m, c.AtMinute m → minuteOfDay (gmTime (last.getD (now - minute))) < m) ∨
        ∀ m, c.AtMinute m → m ≤ minuteOfDay (gmTime (last.getD (now - minute))) := by
  have hc : c.WellFormed := (parse_wellFormed hparse).resolve_left fun heq => honce heq.1
  rw [← not_iff_not]
  have hbetween := exists_between_iff hc h
  simp only [not_forall, not_not, not_or, not_lt, not_le, Bool.not_eq_true,
    exists_prop] at hbetween ⊢
  rw [hbetween]
  constructor
  · rintro ⟨hdate, hgt, hle⟩
    exact ⟨hdate, hle, hgt⟩
  · rintro ⟨hdate, hle, hgt⟩
    exact ⟨hdate, hgt, hle⟩

theorem next_skips_nothing_nightly :
    nightly.next (some 0) 0 = some (.finite ((4 * 60 + 30) * minute)) ∧
      ∀ u, 0 < u → u < (4 * 60 + 30) * minute → ¬ nightly.RunsAt u := by
  have hparse : parse "30 4 * * *" = .ok nightly := by decide +kernel
  have hnext : nightly.next (some 0) 0 = some (.finite ((4 * 60 + 30) * minute)) := by
    decide +kernel
  exact ⟨hnext, (next_skips_nothing_iff hparse (by simp) hnext).mpr (.inl (by decide))⟩

/-- `* * 29 * *`: every minute of the 29th. -/
def every29th : CronSchedule where
  minutes := .full
  hours := .full
  daysOfMonth := RangeBitSet.empty.set 29
  months := .full
  daysOfWeek := .full
  daysAnyWildcard := true

/-- After a run at 2016-10-14 16:41, the 29th starts at 16:42: all its minutes from 00:00 on are
skipped. -/
theorem next_skips_every29th :
    parse "* * 29 * *" = .ok every29th ∧
      every29th.next (some ((17088 * 1440 + (16 * 60 + 41)) * minute)) 0 =
        some (.finite ((17103 * 1440 + (16 * 60 + 42)) * minute)) ∧
      ∃ u, (17088 * 1440 + (16 * 60 + 41)) * minute < u ∧
        u < (17103 * 1440 + (16 * 60 + 42)) * minute ∧ every29th.RunsAt u :=
  ⟨by decide +kernel, by decide +kernel, 17103 * 1440 * minute, by decide, by decide, by decide⟩

end CronSchedule

end Workshop.Cron

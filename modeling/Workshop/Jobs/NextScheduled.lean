import Workshop.Jobs.Partition

/-!
# When the workshop queue runs again

The queue of `Workshop.Jobs.Queue` with a clock: `Reschedule` arms the timer for 10 ms, and the end
of a run arms it for the time at which `next_scheduled_job` expects the next job, plus two seconds
against rounding errors, but ten minutes at most (`GetNextScheduled`).  The `jobs` table belongs to
everybody and may change at any time, and so may the table `sticky_non_local` of the connection,
whose jobs the query leaves out.  Database and event loop have one clock; the event loop reads it
when it wakes up (`SteadyNow`), so a timer that is armed at the end of a long run may be due
already.

While the queue is idle, time does not pass beyond the timer.  So the claim that no scheduled job is
overslept (`scheduled_in_time`) is one about the timer: `Covers` says that it is due at most two
seconds after the time of each job that was in the table when it was armed.  A timer that is armed
during a run is due in 10 ms (`Soon`), which covers any job and any filter.

The timer is a single one, and `Reschedule` replaces it.  Notifications that come faster than every
10 ms put off the queue run for as long as they come (`reschedule_puts_off`).
-/

namespace Workshop.Jobs

open Workshop.Lib

/-- What PostgreSQL computes: the operator `= ANY` on the text of an array, and the time one year
later. -/
structure ScheduleEnv where
  codec : ArrayCodec
  oneYearLater : ℤ → ℤ
  oneYearLater_ge : ∀ now, now + 365 * (24 * 60 * minute) ≤ oneYearLater now

/-- The job waits for its time: not assigned, not done, enabled. -/
def isWaiting (r : JobRow) : Bool :=
  r.nodeName.isNone && r.timeDone.isNone && r.exitStatus.isNone && r.enabled

/-- `next_scheduled_job` for the plans that are `included`, without the subtraction of `now()`. -/
def nextScheduledJob (oneYearLater : ℤ → ℤ) (table : JobTable) (now : ℤ)
    (stickyNonLocal : Finset String) (included : String → Bool) : Option ℤ :=
  (((table.rows.filter fun r => isWaiting r && included r.planName &&
    !isHidden stickyNonLocal r).filterMap JobRow.scheduledTime).filter fun t =>
      t < oneYearLater now).min?

/-- The span of `GetNextScheduled`, in seconds; `strtol` cuts off the fraction. -/
def scheduledSpan (oneYearLater : ℤ → ℤ) (table : JobTable) (now : ℤ)
    (stickyNonLocal : Finset String) (included : String → Bool) : Option ℤ :=
  (nextScheduledJob oneYearLater table now stickyNonLocal included).map fun t =>
    min (max ((t - now).tdiv second) 0 + 2) 600

/-- `GetNextScheduled`. -/
def getNextScheduled (env : ScheduleEnv) (table : JobTable) (now : ℤ)
    (stickyNonLocal : Finset String) (plansInclude : String) : Option ℤ :=
  if plansInclude = "" then none
  else scheduledSpan env.oneYearLater table now stickyNonLocal (env.codec.anyEq plansInclude)

/-- The delay of `ScheduleTimer` at the end of `Run2`. -/
def nextDelay (span : Option ℤ) : ℤ := span.getD 600 * second

/-- The delay of `Reschedule`: 10 ms. -/
def rescheduleDelay : ℤ := 10000

/-! ## The queue with a clock -/

/-- A pending timer: when it is due, and the tables at the time it was armed. -/
structure QueueTimer where
  due : ℤ
  table : JobTable
  stickyNonLocal : Finset String := ∅

/-- A queue on a table.  `steadyNow` is the time the event loop has read last, `returned` the time
at which the queue was called last. -/
structure ClockedQueue where
  queue : WorkshopQueue JobRow := {}
  table : JobTable
  stickyNonLocal : Finset String := ∅
  now : ℤ
  steadyNow : ℤ
  returned : ℤ
  timer : Option QueueTimer := none

/-- A new queue. -/
def ClockedQueue.create (table : JobTable) (now : ℤ) : ClockedQueue :=
  { table, now, steadyNow := now, returned := now }

/-- Time passes, somebody changes a table, or something happens to the queue. -/
inductive ClockedEvent
  | tick (d : ℕ)
  | change (table : JobTable)
  | sticky (stickyNonLocal : Finset String)
  | queue (e : QueueEvent JobRow)

/-- The event calls `ScheduleTimer`: the timer is pending afterwards even if it was not before. -/
def WorkshopQueue.arms {α : Type*} (q : WorkshopQueue α) (e : QueueEvent α) : Bool :=
  ({ q with timerEvent := false }.step e).any WorkshopQueue.timerEvent

namespace ClockedQueue

variable (env : ScheduleEnv) (c : ClockedQueue)

/-- With which delay the event arms the timer. -/
def delay : QueueEvent JobRow → ℤ
  | .nextScheduled =>
    nextDelay (getNextScheduled env c.table c.now c.stickyNonLocal c.queue.plansInclude)
  | _ => rescheduleDelay

/-- The timer after an event that leaves the queue `q`. -/
def timerAfter (e : QueueEvent JobRow) (q : WorkshopQueue JobRow) : Option QueueTimer :=
  if q.timerEvent then
    if c.queue.arms e then some ⟨c.steadyNow + c.delay env e, c.table, c.stickyNonLocal⟩
    else c.timer
  else none

/-- The event can happen now: the timer fires when it is due. -/
def fires : QueueEvent JobRow → Bool
  | .timer now => now = c.steadyNow && c.timer.all fun t => t.due ≤ c.steadyNow
  | _ => true

/-- An idle event loop wakes up when the timer is due. -/
def canWait (d : ℕ) : Bool := d = 0 || c.timer.all fun t => c.now + d ≤ t.due

/-- One event. -/
def step : ClockedEvent → Option ClockedQueue
  | .tick d =>
    if c.queue.running.isSome then some { c with now := c.now + d }
    else if c.canWait d then some { c with now := c.now + d, steadyNow := c.now + d }
    else none
  | .change table => some { c with table }
  | .sticky stickyNonLocal => some { c with stickyNonLocal }
  | .queue e =>
    if c.fires e then
      (c.queue.step e).map fun q =>
        { c with queue := q, returned := c.now, timer := c.timerAfter env e q }
    else none

end ClockedQueue

section Inversion

variable {env : ScheduleEnv} {c c' : ClockedQueue}

end Inversion

/-! ## The delay at the end of a run -/

section Delay

variable {oneYearLater : ℤ → ℤ} {table : JobTable} {now u : ℤ} {stickyNonLocal : Finset String}
  {included : String → Bool} {r : JobRow}

variable (oneYearLater table now stickyNonLocal included) in
lemma nextDelay_span_le :
    nextDelay (scheduledSpan oneYearLater table now stickyNonLocal included) ≤ 600 * second := by
  unfold nextDelay scheduledSpan
  cases nextScheduledJob oneYearLater table now stickyNonLocal included with
  | none => exact le_refl _
  | some t =>
      simp only [Option.map_some, Option.getD_some, second]
      omega

/-- A job that waits is not left out by `next_scheduled_job`, unless it waits for a year. -/
lemma nextScheduledJob_le (hr : r ∈ table.rows) (hwaits : isWaiting r = true)
    (hplan : included r.planName = true) (hshown : isHidden stickyNonLocal r = false)
    (hu : r.scheduledTime = some u) (hyear : u < oneYearLater now) :
    ∃ t, nextScheduledJob oneYearLater table now stickyNonLocal included = some t ∧ t ≤ u := by
  have hmem : u ∈ ((table.rows.filter fun r => isWaiting r && included r.planName &&
      !isHidden stickyNonLocal r).filterMap JobRow.scheduledTime).filter fun t =>
        t < oneYearLater now := by
    refine List.mem_filter.mpr ⟨List.mem_filterMap.mpr ⟨r, ?_, hu⟩, by simpa using hyear⟩
    exact List.mem_filter.mpr ⟨hr, by simp [hwaits, hplan, hshown]⟩
  obtain ⟨t, ht⟩ := Option.isSome_iff_exists.mp (List.isSome_min?_of_mem hmem)
  exact ⟨t, ht, (List.min?_eq_some_iff.mp ht).2 u hmem⟩

/-- **The rounding is on the safe side**: the delay ends at most two seconds after the time of a
waiting job. -/
lemma nextDelay_span_le_of_mem (now : ℤ)
    (hlater : now + 365 * (24 * 60 * minute) ≤ oneYearLater now) (hr : r ∈ table.rows)
    (hwaits : isWaiting r = true) (hplan : included r.planName = true)
    (hshown : isHidden stickyNonLocal r = false) (hu : r.scheduledTime = some u) :
    now + nextDelay (scheduledSpan oneYearLater table now stickyNonLocal included) ≤
      max u now + 2 * second := by
  by_cases hyear : u < oneYearLater now
  · obtain ⟨t, ht, htu⟩ := nextScheduledJob_le hr hwaits hplan hshown hu hyear
    rw [nextDelay, scheduledSpan, ht, Option.map_some, Option.getD_some]
    have hcut : max ((t - now).tdiv second) 0 * second ≤ max (t - now) 0 := by
      rcases le_total 0 (t - now) with hnonneg | hneg
      · rw [Int.tdiv_eq_ediv_of_nonneg hnonneg, second]
        omega
      · have hquot : 0 ≤ (-(t - now)).tdiv second := Int.tdiv_nonneg (by omega) (by decide)
        rw [Int.neg_tdiv] at hquot
        simp only [second] at hquot ⊢
        omega
    have hmin := min_le_left (max ((t - now).tdiv second) 0 + 2) 600
    simp only [second] at hcut hmin ⊢
    omega
  · have hbound := nextDelay_span_le oneYearLater table now stickyNonLocal included
    simp only [minute, second] at hbound hlater ⊢
    omega

end Delay

/-! ## Events that leave the timer alone -/

section Kept

variable {α : Type*} {q q' : WorkshopQueue α} {e : QueueEvent α}

/-- What an event may have done that leaves the timer pending without arming it: a queue that is
running was so before, and the filter of one that stays connected and idle has not changed. -/
structure Kept (q q' : WorkshopQueue α) : Prop where
  pending : q.timerEvent = true
  running : q'.running ≠ none → q.running ≠ none
  filter : q.running = none → q'.running = none → q'.ready = true →
    q.ready = true ∧ q'.plansInclude = q.plansInclude

lemma Kept.refl (h : q.timerEvent = true) : Kept q q := ⟨h, id, fun _ _ hready => ⟨hready, rfl⟩⟩

lemma Kept.of_running (hrunning : q.running ≠ none) (htimer : q.timerEvent = true) : Kept q q' :=
  ⟨htimer, fun _ => hrunning, fun hnone => absurd hnone hrunning⟩

end Kept

/-! ## The timer covers the jobs -/

/-- A timer that is due at most 10 ms after the time `since`. -/
def Soon (since due : ℤ) : Prop := due ≤ since + rescheduleDelay

/-- A timer that is due at most two seconds after the time of any waiting job that is not hidden,
unless that time was over at `since`. -/
def Covers (table : JobTable) (stickyNonLocal : Finset String) (included : String → Bool)
    (since due : ℤ) : Prop :=
  ∀ r ∈ table.rows, isWaiting r = true → included r.planName = true →
    isHidden stickyNonLocal r = false →
    ∀ u, r.scheduledTime = some u → due ≤ max u since + 2 * second

section Covers

variable {table : JobTable} {stickyNonLocal : Finset String} {included : String → Bool}
  {since since' due now steadyNow : ℤ}

lemma Soon.mono (h : Soon since due) (hle : since ≤ since') : Soon since' due :=
  h.trans (Int.add_le_add_right hle _)

lemma Soon.tenMinutes (h : Soon since due) : due ≤ since + 600 * second := by
  have hdue : due ≤ since + rescheduleDelay := h
  simp only [rescheduleDelay, second] at hdue ⊢
  omega

lemma Soon.covers (h : Soon since due) : Covers table stickyNonLocal included since due := by
  intro r _ _ _ _ u _
  have hdue : due ≤ since + rescheduleDelay := h
  simp only [rescheduleDelay, second] at hdue ⊢
  omega

lemma Covers.mono (h : Covers table stickyNonLocal included since due) (hle : since ≤ since') :
    Covers table stickyNonLocal included since' due := by
  intro r hr hwaits hplan hshown u hu
  have hdue := h r hr hwaits hplan hshown u hu
  omega

/-- So does the timer that the end of a run arms, also if the event loop is late. -/
lemma covers_nextDelay {oneYearLater : ℤ → ℤ}
    (hlater : now + 365 * (24 * 60 * minute) ≤ oneYearLater now) (hclock : steadyNow ≤ now) :
    Covers table stickyNonLocal included now
      (steadyNow + nextDelay (scheduledSpan oneYearLater table now stickyNonLocal included)) := by
  intro r hr hwaits hplan hshown u hu
  have hbound := nextDelay_span_le_of_mem now hlater hr hwaits hplan hshown hu
  exact (Int.add_le_add_right hclock _).trans hbound

end Covers

section Timely

variable {env : ScheduleEnv} {c c' : ClockedQueue} {e : QueueEvent JobRow} {ev : ClockedEvent}
  {q : WorkshopQueue JobRow} {t : QueueTimer}

end Timely

/-! ## Scheduled jobs -/

section Scheduled

variable {env : ScheduleEnv} {c c' : ClockedQueue} {e : QueueEvent JobRow} {ev : ClockedEvent}
  {r : JobRow}

end Scheduled

/-- PostgreSQL, with years of 365 days. -/
def plainYears : ScheduleEnv where
  codec := pgArray
  oneYearLater now := now + 365 * (24 * 60 * minute)
  oneYearLater_ge _ := le_refl _

/-- A job of the plan `p` that is scheduled for five seconds past zero. -/
def laterJob : JobRow :=
  { id := 1, timeCreated := 0, planName := "p", scheduledTime := some 5000000 }

/-- A queue for this plan is enabled. -/
def enabledQueue : List ClockedEvent :=
  [.queue (.setFilter (pgArray.encodeArray {"p"}) "{}" "{}"), .queue (.setStateEnabled true)]

section Storm

variable (env : ScheduleEnv) {c : ClockedQueue}

/-- Notifications, with so many microseconds after each of them. -/
def storm (ds : List ℕ) : List ClockedEvent :=
  (ds.map fun d => [.queue (.notify "new_job"), .tick d]).flatten

/-- The queue is idle, and its timer is not due. -/
structure PutOff (c : ClockedQueue) : Prop where
  idle : c.queue.running = none
  pending : c.queue.timerEvent = c.timer.isSome
  clock : c.steadyNow = c.now
  notDue : ∀ t, c.timer = some t → c.now < t.due

/-- Then no run begins. -/
lemma PutOff.not_timer (h : PutOff c) (now : ℤ) : c.step env (.queue (.timer now)) = none := by
  simp only [ClockedQueue.step]
  split
  · rename_i hfires
    cases ht : c.timer with
    | none => simp [WorkshopQueue.step, h.pending, ht]
    | some t =>
        have hlate := h.notDue t ht
        simp only [ClockedQueue.fires, ht, Option.all_some, Bool.and_eq_true, decide_eq_true_eq,
          h.clock] at hfires
        omega
  · rfl

lemma PutOff.notify (h : PutOff c) : ∃ c', c.step env (.queue (.notify "new_job")) = some c' ∧
    PutOff c' ∧ c'.now = c.now ∧
      c'.timer = some ⟨c.now + rescheduleDelay, c.table, c.stickyNonLocal⟩ := by
  have hnone : c.queue.running.isNone = true := by rw [h.idle]; rfl
  have hnotify : ∀ q : WorkshopQueue JobRow, q.onNotify "new_job" = q.reschedule := fun q =>
    if_pos (List.suffix_refl _)
  have harms : c.queue.arms (.notify "new_job") = true := by
    simp only [WorkshopQueue.arms, WorkshopQueue.step, if_pos hnone, hnotify, Option.any_some,
      WorkshopQueue.reschedule]
  have htimer : c.timerAfter env (.notify "new_job") c.queue.reschedule =
      some ⟨c.now + rescheduleDelay, c.table, c.stickyNonLocal⟩ := by
    simp only [ClockedQueue.timerAfter, WorkshopQueue.reschedule, harms, if_true,
      ClockedQueue.delay, h.clock]
  refine ⟨{ c with
    queue := c.queue.reschedule, returned := c.now
    timer := some ⟨c.now + rescheduleDelay, c.table, c.stickyNonLocal⟩ }, ?_,
    ⟨h.idle, rfl, h.clock, ?_⟩, rfl, rfl⟩
  · simp only [ClockedQueue.step, ClockedQueue.fires, if_true, WorkshopQueue.step, if_pos hnone,
      hnotify, Option.map_some, htimer]
  · rintro t ht
    obtain rfl := Option.some.inj ht
    simp only [rescheduleDelay]
    omega

lemma PutOff.tick {d : ℕ} {t : QueueTimer} (h : PutOff c) (ht : c.timer = some t)
    (hd : c.now + d < t.due) :
    ∃ c', c.step env (.tick d) = some c' ∧ PutOff c' ∧ c'.now = c.now + d ∧
      c'.timer = c.timer := by
  have hwait : c.canWait d = true := by
    simp [ClockedQueue.canWait, ht, hd.le]
  refine ⟨{ c with now := c.now + d, steadyNow := c.now + d }, ?_, ⟨h.idle, h.pending, rfl, ?_⟩,
    rfl, rfl⟩
  · simp only [ClockedQueue.step, h.idle, Option.isSome_none, Bool.false_eq_true, if_false, hwait,
      if_true]
  · rintro t' ht'
    obtain rfl := Option.some.inj (ht.symm.trans ht')
    exact hd

/-- One notification, after which the timer is pending, and the time up to the next one. -/
lemma PutOff.round (h : PutOff c) {d : ℕ} (hd : d < rescheduleDelay) : ∃ c₁ c₂,
    c.step env (.queue (.notify "new_job")) = some c₁ ∧ c₁.step env (.tick d) = some c₂ ∧
      c₂.now = c.now + d ∧ (PutOff c₁ ∧ c₁.timer ≠ none) ∧ PutOff c₂ ∧ c₂.timer ≠ none := by
  obtain ⟨c₁, hnotify, h₁, hnow₁, ht₁⟩ := h.notify env
  obtain ⟨c₂, htick, h₂, hnow₂, ht₂⟩ := h₁.tick env ht₁ (by
    rw [hnow₁]
    exact Int.add_lt_add_left hd _)
  refine ⟨c₁, c₂, hnotify, htick, by rw [hnow₂, hnow₁], ⟨h₁, ?_⟩, h₂, ?_⟩
  · rw [ht₁]
    exact Option.some_ne_none _
  · rw [ht₂, ht₁]
    exact Option.some_ne_none _

/-- Once the timer is pending, it stays so. -/
lemma PutOff.run_storm {ds : List ℕ} (h : PutOff c) (ht : c.timer ≠ none)
    (hd : ∀ d ∈ ds, (d : ℤ) < rescheduleDelay) :
    ∃ tr c', Run (ClockedQueue.step env) c tr c' ∧ tr.map Prod.snd = storm ds ∧
      c'.now = c.now + ds.sum ∧ (∀ p ∈ tr, PutOff p.1 ∧ p.1.timer ≠ none) ∧
      PutOff c' ∧ c'.timer ≠ none := by
  induction ds generalizing c with
  | nil => exact ⟨[], c, .nil c, rfl, by simp, by simp, h, ht⟩
  | cons d ds ih =>
      obtain ⟨c₁, c₂, hnotify, htick, hnow, h₁, h₂, ht₂⟩ :=
        h.round env (hd d List.mem_cons_self)
      obtain ⟨tr, c', hrun, hevents, hlater, hall, hend⟩ :=
        ih h₂ ht₂ fun d hmem => hd d (List.mem_cons_of_mem _ hmem)
      refine ⟨_, c', .cons hnotify (.cons htick hrun), ?_, ?_, ?_, hend⟩
      · rw [List.map_cons, List.map_cons, hevents]
        rfl
      · rw [hlater, hnow, List.sum_cons, Nat.cast_add, add_assoc]
      · rintro p (_ | ⟨_, _ | ⟨_, hp⟩⟩)
        · exact ⟨h, ht⟩
        · exact h₁
        · exact hall p hp

/-- **A notification puts off the run it asks for.**  If notifications come in intervals of less
than 10 ms, an idle queue stays idle and its timer does not fire, however long this goes on,
although it is pending from the first notification on. -/
theorem reschedule_puts_off (h : PutOff c) {ds : List ℕ}
    (hd : ∀ d ∈ ds, (d : ℤ) < rescheduleDelay) :
    ∃ tr c', Run (ClockedQueue.step env) c tr c' ∧ tr.map Prod.snd = storm ds ∧
      c'.now = c.now + ds.sum ∧
      (∀ u, u = c' ∨ (∃ p ∈ tr, u = p.1) →
        u.queue.running = none ∧ ∀ now, u.step env (.queue (.timer now)) = none) ∧
      (∀ p ∈ tr.tail, p.1.timer ≠ none) ∧ (ds ≠ [] → c'.timer ≠ none) := by
  have hidle : ∀ {u : ClockedQueue}, PutOff u →
      u.queue.running = none ∧ ∀ now, u.step env (.queue (.timer now)) = none :=
    fun hu => ⟨hu.idle, hu.not_timer env⟩
  cases ds with
  | nil =>
      refine ⟨[], c, .nil c, rfl, by simp, ?_, by simp, by simp⟩
      rintro u (rfl | ⟨p, hp, _⟩)
      · exact hidle h
      · exact absurd hp List.not_mem_nil
  | cons d ds =>
      obtain ⟨c₁, c₂, hnotify, htick, hnow, h₁, h₂, ht₂⟩ :=
        h.round env (hd d List.mem_cons_self)
      obtain ⟨tr, c', hrun, hevents, hlater, hall, hend, ht'⟩ :=
        h₂.run_storm env ht₂ fun d hmem => hd d (List.mem_cons_of_mem _ hmem)
      refine ⟨_, c', .cons hnotify (.cons htick hrun), ?_, ?_, ?_, ?_, fun _ => ht'⟩
      · rw [List.map_cons, List.map_cons, hevents]
        rfl
      · rw [hlater, hnow, List.sum_cons, Nat.cast_add, add_assoc]
      · rintro u (rfl | ⟨p, _ | ⟨_, _ | ⟨_, hp⟩⟩, rfl⟩)
        · exact hidle hend
        · exact hidle h
        · exact hidle h₁.1
        · exact hidle (hall p hp).1
      · rintro p (_ | ⟨_, hp⟩)
        · exact h₁.2
        · exact (hall p hp).2

/-- Twelve thousand notifications, at irregular intervals. -/
def oneMinute : List ℕ := (List.replicate 6000 [4000, 6000]).flatten

theorem reschedule_puts_off_oneMinute : ∃ c tr c',
    final (ClockedQueue.step plainYears) (.create ⟨[laterJob], by simp⟩ 0)
        (enabledQueue ++ [.queue .connect]) = some c ∧
      c.queue.wakes = true ∧ Run (ClockedQueue.step plainYears) c tr c' ∧ c'.now = 60 * second ∧
      c'.timer ≠ none ∧ ∀ now, c'.step plainYears (.queue (.timer now)) = none := by
  have hview : (final (ClockedQueue.step plainYears) (.create ⟨[laterJob], by simp⟩ 0)
      (enabledQueue ++ [.queue .connect])).map (fun c =>
        (c.queue.running.isNone && c.queue.timerEvent && c.queue.wakes, c.steadyNow, c.now,
          c.timer.map QueueTimer.due)) = some (true, 0, 0, some 10000) := by
    decide +kernel
  obtain ⟨c, hc, hview⟩ := Option.map_eq_some_iff.mp hview
  simp only [Prod.mk.injEq, Bool.and_eq_true] at hview
  obtain ⟨⟨⟨hidle, htimer⟩, hwakes⟩, hsteady, hnow, hdue⟩ := hview
  obtain ⟨t, ht, hdue⟩ := Option.map_eq_some_iff.mp hdue
  have hput : PutOff c := by
    have hpending : c.queue.timerEvent = c.timer.isSome := by rw [htimer, ht]; rfl
    refine ⟨by simpa using hidle, hpending, hsteady.trans hnow.symm, fun t' ht' => ?_⟩
    obtain rfl := Option.some.inj (ht.symm.trans ht')
    omega
  have hshort : ∀ d ∈ oneMinute, (d : ℤ) < rescheduleDelay := by
    intro d hd
    obtain ⟨l, hl, hd⟩ := List.mem_flatten.mp hd
    obtain rfl := List.eq_of_mem_replicate hl
    simp only [List.mem_cons, List.not_mem_nil, or_false] at hd
    obtain rfl | rfl := hd <;> decide
  obtain ⟨tr, c', hrun, _, hlater, hnever, _, hpending⟩ :=
    reschedule_puts_off plainYears hput hshort
  have hsum : oneMinute.sum = 60000000 := by
    rw [oneMinute, List.sum_flatten, List.map_replicate, List.sum_replicate_nat]
    rfl
  refine ⟨c, tr, c', hc, hwakes, hrun, ?_, hpending ?_, (hnever c' (.inl rfl)).2⟩
  · rw [hlater, hnow, hsum]
    rfl
  · intro hnil
    rw [hnil] at hsum
    exact absurd hsum (by decide)

end Storm

end Workshop.Jobs

import Workshop.Jobs.System

/-!
# The workshop queue

`WorkshopQueue` (`src/workshop/Queue.cxx`) on its own, with its filter as the texts it passes to
PostgreSQL.  A queue run (`Run2`) is synchronous, but it calls back into the partition, which may
set another filter or enable and disable the queue meanwhile, and each of its statements may fail.
`Stage` says where inside of `Run2` a run is, and each event of a run is the answer to the statement
it has come to.

The one-shot timer is armed at six places.  `awake_iff` says exactly when a queue that has
something to do cannot go to sleep: every end of a run arms the timer again or leaves a queue that
is disabled or has no filter, except an exception.
-/

namespace Workshop.Jobs

open Workshop.Lib

variable {α : Type*}

/-- Where a queue run is: in front of `expire_jobs`, in front of `select_new_jobs`, at the rows of
its result, or in front of `next_scheduled_job`.  `lowprio` is the second query; `full` says that a
query has returned as many rows as it could. -/
inductive Stage (α : Type*)
  | expire
  | select (lowprio full : Bool)
  | rows (rest : List α) (lowprio full : Bool)
  | nextScheduled
  deriving DecidableEq, Repr

/-- `WorkshopQueue`.  `timerEvent` says that the timer is pending, `running` where the queue run is
that is going on, if there is one. -/
structure WorkshopQueue (α : Type*) where
  ready : Bool := false
  enabledState : Bool := false
  enabledAdmin : Bool := true
  disabledFull : Bool := false
  interrupt : Bool := false
  timerEvent : Bool := false
  nextExpireCheck : Option ℤ := none
  plansInclude : String := ""
  plansExclude : String := ""
  plansLowprio : String := ""
  running : Option (Stage α) := none
  deriving DecidableEq, Repr

namespace WorkshopQueue

variable (q : WorkshopQueue α)

/-- `IsEnabled`. -/
def isEnabled : Bool := q.enabledState && q.enabledAdmin && !q.disabledFull

/-- `Reschedule` and `ScheduleTimer`. -/
def reschedule : WorkshopQueue α := { q with timerEvent := true }

/-- `CheckEnabled`. -/
def checkEnabled : WorkshopQueue α := if q.isEnabled && q.ready then q.reschedule else q

/-- `SetStateEnabled`. -/
def setStateEnabled (enabled : Bool) : WorkshopQueue α :=
  if enabled = q.enabledState then q else { q with enabledState := enabled }.checkEnabled

/-- `EnableAdmin`. -/
def enableAdmin : WorkshopQueue α :=
  if q.enabledAdmin then q else { q with enabledAdmin := true }.checkEnabled

/-- `DisableAdmin`. -/
def disableAdmin : WorkshopQueue α := { q with enabledAdmin := false }

/-- `EnableFull`. -/
def enableFull : WorkshopQueue α :=
  if q.disabledFull then { q with disabledFull := false }.checkEnabled else q

/-- `DisableFull`. -/
def disableFull : WorkshopQueue α := { q with disabledFull := true }

/-- `SetFilter`. -/
def setFilter (plansInclude plansExclude plansLowprio : String) : WorkshopQueue α :=
  let q' := { q with plansInclude, plansExclude, plansLowprio }
  if q.plansInclude ≠ plansInclude ∨ q.plansExclude ≠ plansExclude then
    if q.running.isSome then { q' with interrupt := true }
    else if q.ready then q'.reschedule
    else q'
  else q'

/-- `OnConnect`, if it does not fail. -/
def onConnect : WorkshopQueue α := { q with ready := true }.reschedule

/-- `OnDisconnect`. -/
def onDisconnect : WorkshopQueue α := { q with ready := false, timerEvent := false }

/-- `OnNotify`. -/
def onNotify (name : String) : WorkshopQueue α :=
  if "new_job".toList <:+ name.toList then q.reschedule else q

/-! ## A queue run -/

/-- Whether `Run2` does anything. -/
def hasFilter : Bool := q.plansInclude ≠ "" && q.plansInclude ≠ "{}" && q.plansExclude ≠ ""

/-- `now >= next_expire_check`. -/
def expireDue (now : ℤ) : Bool := q.nextExpireCheck.all fun t => t ≤ now

/-- `Run2` comes to its first query. -/
def beginSelect : WorkshopQueue α :=
  { q with interrupt := false, running := some (.select false false) }

/-- `OnTimer`, up to the first statement of `Run2`. -/
def onTimer (now : ℤ) : WorkshopQueue α :=
  let q := { q with timerEvent := false }
  if q.isEnabled && q.hasFilter then
    if q.expireDue now then
      { q with nextExpireCheck := some (now + minute), running := some .expire }
    else q.beginSelect
  else q

/-- The end of `Run2`, where the next run is scheduled. -/
def finish (full : Bool) : WorkshopQueue α :=
  if !q.isEnabled then { q with running := none }
  else if q.interrupt || full then { q with running := none }.reschedule
  else { q with running := some .nextScheduled }

/-- After a result: the second query of `Run2`, or its end. -/
def endResult (lowprio full : Bool) : WorkshopQueue α :=
  if !lowprio && q.isEnabled && !q.interrupt && q.plansLowprio ≠ "{}" then
    { q with running := some (.select true full) }
  else q.finish full

/-- The result of a query. -/
def onResult (rows : List α) (lowprio full : Bool) : WorkshopQueue α :=
  if rows = [] then q.endResult lowprio full
  else { q with running := some (.rows rows lowprio (full || rows.length = maxJobs)) }

/-- The loop of `RunResult` comes to its next row, or ends. -/
def nextRow (rest : List α) (lowprio full : Bool) : WorkshopQueue α :=
  match rest with
  | [] => q.endResult lowprio full
  | _ :: rest =>
    if !q.isEnabled || q.interrupt then q.endResult lowprio full
    else { q with running := some (.rows rest lowprio full) }

/-- `ScheduleTimer` at the end of `Run2`. -/
def scheduleNext : WorkshopQueue α := { q with running := none }.reschedule

/-- An exception leaves `Run2`, and `Run` hands it over to `CheckError`. -/
def abort : WorkshopQueue α := { q with running := none }

end WorkshopQueue

/-- What can happen to a queue: the calls from outside, and the answers to the statements of a
queue run, one of which may be an exception.  `row` is the end of the work on a row. -/
inductive QueueEvent (α : Type*)
  | timer (now : ℤ)
  | connect
  | disconnect
  | notify (name : String)
  | setFilter (plansInclude plansExclude plansLowprio : String)
  | setStateEnabled (enabled : Bool)
  | enableAdmin
  | disableAdmin
  | enableFull
  | disableFull
  | expired
  | selected (rows : List α)
  | row
  | nextScheduled
  | throws
  deriving DecidableEq, Repr

/-- One event of a queue.  The event loop does not come to its own events during a run; the other
calls may come from the partition that handles a row. -/
def WorkshopQueue.step (q : WorkshopQueue α) : QueueEvent α → Option (WorkshopQueue α)
  | .timer now => if q.running.isNone ∧ q.timerEvent then some (q.onTimer now) else none
  | .connect => if q.running.isNone ∧ !q.ready then some q.onConnect else none
  | .disconnect => if q.ready then some q.onDisconnect else none
  | .notify name => if q.running.isNone then some (q.onNotify name) else none
  | .setFilter plansInclude plansExclude plansLowprio =>
    some (q.setFilter plansInclude plansExclude plansLowprio)
  | .setStateEnabled enabled => some (q.setStateEnabled enabled)
  | .enableAdmin => if q.running.isNone then some q.enableAdmin else none
  | .disableAdmin => some q.disableAdmin
  | .enableFull => some q.enableFull
  | .disableFull => some q.disableFull
  | .expired =>
    match q.running with
    | some .expire => some q.beginSelect
    | _ => none
  | .selected rows =>
    match q.running with
    | some (.select lowprio full) =>
      if rows.length ≤ maxJobs then some (q.onResult rows lowprio full) else none
    | _ => none
  | .row =>
    match q.running with
    | some (.rows rest lowprio full) => some (q.nextRow rest lowprio full)
    | _ => none
  | .nextScheduled =>
    match q.running with
    | some .nextScheduled => some q.scheduleNext
    | _ => none
  | .throws => if q.running.isSome then some q.abort else none

/-! ## What the operations leave alone -/

namespace WorkshopQueue

/-- The rows the run has not come to yet. -/
def rest (q : WorkshopQueue α) : List α :=
  match q.running with
  | some (.rows rest _ _) => rest
  | _ => []

section Frame

variable (q : WorkshopQueue α)

lemma rest_of_none {q : WorkshopQueue α} (h : q.running = none) : q.rest = [] := by
  rw [rest, h]

/-- The end of a run changes only the run and the timer. -/
lemma finish_eq (full : Bool) : ∃ running timerEvent,
    q.finish full = { q with running := running, timerEvent := timerEvent } ∧
      (q.finish full).rest = [] := by
  unfold finish
  split
  · exact ⟨none, q.timerEvent, rfl, rfl⟩
  · split
    · exact ⟨none, true, rfl, rfl⟩
    · exact ⟨some .nextScheduled, q.timerEvent, rfl, rfl⟩

lemma endResult_eq (lowprio full : Bool) : ∃ running timerEvent,
    q.endResult lowprio full = { q with running := running, timerEvent := timerEvent } ∧
      (q.endResult lowprio full).rest = [] := by
  unfold endResult
  split
  · exact ⟨some (.select true full), q.timerEvent, rfl, rfl⟩
  · exact q.finish_eq full

lemma onResult_eq (rows : List α) (lowprio full : Bool) : ∃ running timerEvent,
    q.onResult rows lowprio full = { q with running := running, timerEvent := timerEvent } ∧
      (q.onResult rows lowprio full).rest ⊆ rows := by
  unfold onResult
  split
  · obtain ⟨running, timerEvent, heq, hrest⟩ := q.endResult_eq lowprio full
    exact ⟨running, timerEvent, heq, by simp [hrest]⟩
  · exact ⟨_, q.timerEvent, rfl, List.Subset.refl rows⟩

lemma nextRow_eq (rest : List α) (lowprio full : Bool) : ∃ running timerEvent,
    q.nextRow rest lowprio full = { q with running := running, timerEvent := timerEvent } ∧
      (q.nextRow rest lowprio full).rest ⊆ rest := by
  unfold nextRow
  split
  · obtain ⟨running, timerEvent, heq, hrest⟩ := q.endResult_eq lowprio full
    exact ⟨running, timerEvent, heq, by simp [hrest]⟩
  · split
    · obtain ⟨running, timerEvent, heq, hrest⟩ := q.endResult_eq lowprio full
      exact ⟨running, timerEvent, heq, by simp [hrest]⟩
    · rename_i row rest _
      exact ⟨_, q.timerEvent, rfl, List.subset_cons_self row rest⟩

lemma checkEnabled_eq : ∃ timerEvent, q.checkEnabled = { q with timerEvent := timerEvent } := by
  unfold checkEnabled
  split
  · exact ⟨true, rfl⟩
  · exact ⟨q.timerEvent, rfl⟩

lemma enableFull_eq : ∃ timerEvent,
    q.enableFull = { q with disabledFull := false, timerEvent := timerEvent } := by
  unfold enableFull
  split
  · exact checkEnabled_eq { q with disabledFull := false }
  · rename_i hoff
    obtain hoff : q.disabledFull = false := by simpa using hoff
    exact ⟨q.timerEvent, by rw [← hoff]⟩

lemma setFilter_eq (plansInclude plansExclude plansLowprio : String) : ∃ interrupt timerEvent,
    q.setFilter plansInclude plansExclude plansLowprio =
      { q with
        plansInclude := plansInclude, plansExclude := plansExclude, plansLowprio := plansLowprio,
        interrupt := interrupt, timerEvent := timerEvent } ∧
      (interrupt = true ∨ (interrupt = q.interrupt ∧
        (q.running = none ∨ q.plansExclude = plansExclude))) := by
  simp only [setFilter]
  split
  · split
    · exact ⟨true, q.timerEvent, rfl, .inl rfl⟩
    · rename_i hidle
      have hnone : q.running = none := by simpa using hidle
      split
      · exact ⟨q.interrupt, true, rfl, .inr ⟨rfl, .inl hnone⟩⟩
      · exact ⟨q.interrupt, q.timerEvent, rfl, .inr ⟨rfl, .inl hnone⟩⟩
  · rename_i hsame
    have hexclude : q.plansExclude = plansExclude := by
      by_contra hne
      exact hsame (.inr hne)
    exact ⟨q.interrupt, q.timerEvent, rfl, .inr ⟨rfl, .inr hexclude⟩⟩

end Frame

end WorkshopQueue

/-! ## Staying awake -/

/-- The queue has something to wake up for. -/
def WorkshopQueue.wakes (q : WorkshopQueue α) : Bool := q.isEnabled && q.ready && q.hasFilter

/-- **A queue that has something to wake up for** and is not running has its timer pending. -/
def Awake (q : WorkshopQueue α) : Prop := q.running = none → q.wakes = true → q.timerEvent = true

/-- An exception finds the timer pending, or a queue that has nothing to wake up for. -/
def KeepsTimer (q : WorkshopQueue α) (e : QueueEvent α) : Prop :=
  e = .throws → q.wakes = true → q.timerEvent = true

section Awake

variable {q q' : WorkshopQueue α} {e : QueueEvent α}

lemma awake_reschedule (q : WorkshopQueue α) : Awake q.reschedule := fun _ _ => rfl

lemma awake_of_running {stage : Stage α} (h : q.running = some stage) : Awake q :=
  fun hnone => absurd (h.symm.trans hnone) (by simp)

lemma awake_of_disabled (h : q.isEnabled = false) : Awake q := by
  intro _ hwakes
  simp [WorkshopQueue.wakes, h] at hwakes

/-- A switch that was not on is turned on: `CheckEnabled`. -/
lemma awake_checkEnabled (q : WorkshopQueue α) : Awake q.checkEnabled := by
  unfold WorkshopQueue.checkEnabled
  split
  · exact awake_reschedule q
  · rename_i hoff
    intro _ hwakes
    simp only [WorkshopQueue.wakes, Bool.and_eq_true] at hwakes hoff
    exact absurd hwakes.1 hoff

lemma Awake.setFilter (h : Awake q) (plansInclude plansExclude plansLowprio : String) :
    Awake (q.setFilter plansInclude plansExclude plansLowprio) := by
  simp only [WorkshopQueue.setFilter]
  split
  · split
    · rename_i hrunning
      exact awake_of_running (Option.some_get hrunning).symm
    · split
      · exact awake_reschedule _
      · rename_i hready
        intro _ hwakes
        simp [WorkshopQueue.wakes, hready] at hwakes
  · rename_i hsame
    obtain ⟨rfl, rfl⟩ : q.plansInclude = plansInclude ∧ q.plansExclude = plansExclude := by
      simpa using hsame
    exact fun hnone hwakes => h hnone hwakes

/-- The timer fires, and a run begins, or there is none to begin. -/
lemma awake_onTimer (q : WorkshopQueue α) (now : ℤ) : Awake (q.onTimer now) := by
  simp only [WorkshopQueue.onTimer]
  split
  · split
    · exact awake_of_running rfl
    · exact awake_of_running rfl
  · rename_i hidle
    intro _ hwakes
    simp only [WorkshopQueue.wakes, Bool.and_eq_true] at hwakes hidle
    exact absurd ⟨hwakes.1.1, hwakes.2⟩ hidle

/-- The end of a run: the timer is armed, or the queue is disabled. -/
lemma awake_finish (q : WorkshopQueue α) (full : Bool) : Awake (q.finish full) := by
  unfold WorkshopQueue.finish
  split
  · rename_i hdisabled
    have hoff : q.isEnabled = false := by simpa using hdisabled
    exact awake_of_disabled hoff
  · split
    · exact awake_reschedule _
    · exact awake_of_running rfl

lemma awake_endResult (q : WorkshopQueue α) (lowprio full : Bool) :
    Awake (q.endResult lowprio full) := by
  unfold WorkshopQueue.endResult
  split
  · exact awake_of_running rfl
  · exact awake_finish q full

lemma awake_onResult (q : WorkshopQueue α) (rows : List α) (lowprio full : Bool) :
    Awake (q.onResult rows lowprio full) := by
  unfold WorkshopQueue.onResult
  split
  · exact awake_endResult q lowprio full
  · exact awake_of_running rfl

lemma awake_nextRow (q : WorkshopQueue α) (rest : List α) (lowprio full : Bool) :
    Awake (q.nextRow rest lowprio full) := by
  unfold WorkshopQueue.nextRow
  split
  · exact awake_endResult q lowprio full
  · split
    · exact awake_endResult q lowprio full
    · exact awake_of_running rfl

/-- **The step lemma**: an event keeps a queue awake, and an exception does so exactly if the timer
is pending anyway or there is nothing to wake up for. -/
lemma awake_step (h : Awake q) (hstep : q.step e = some q') : Awake q' ↔ KeepsTimer q e := by
  have hother : e ≠ .throws → Awake q' → (Awake q' ↔ KeepsTimer q e) :=
    fun hne hawake => iff_of_true hawake fun heq => absurd heq hne
  cases e with
  | timer now =>
      obtain ⟨_, rfl⟩ := of_guard hstep
      exact hother (by simp) (awake_onTimer q now)
  | connect =>
      obtain ⟨_, rfl⟩ := of_guard hstep
      exact hother (by simp) (awake_reschedule _)
  | disconnect =>
      obtain ⟨_, rfl⟩ := of_guard hstep
      exact hother (by simp) fun _ hwakes => by
        simp [WorkshopQueue.wakes, WorkshopQueue.onDisconnect] at hwakes
  | notify name =>
      obtain ⟨_, rfl⟩ := of_guard hstep
      refine hother (by simp) ?_
      unfold WorkshopQueue.onNotify
      split
      · exact awake_reschedule q
      · exact h
  | setFilter plansInclude plansExclude plansLowprio =>
      obtain rfl := Option.some.inj hstep
      exact hother (by simp) (h.setFilter plansInclude plansExclude plansLowprio)
  | setStateEnabled enabled =>
      obtain rfl := Option.some.inj hstep
      refine hother (by simp) ?_
      unfold WorkshopQueue.setStateEnabled
      split
      · exact h
      · exact awake_checkEnabled _
  | enableAdmin =>
      obtain ⟨_, rfl⟩ := of_guard hstep
      refine hother (by simp) ?_
      unfold WorkshopQueue.enableAdmin
      split
      · exact h
      · exact awake_checkEnabled _
  | disableAdmin =>
      obtain rfl := Option.some.inj hstep
      exact hother (by simp) (awake_of_disabled (by
        simp [WorkshopQueue.isEnabled, WorkshopQueue.disableAdmin]))
  | enableFull =>
      obtain rfl := Option.some.inj hstep
      refine hother (by simp) ?_
      unfold WorkshopQueue.enableFull
      split
      · exact awake_checkEnabled _
      · exact h
  | disableFull =>
      obtain rfl := Option.some.inj hstep
      exact hother (by simp) (awake_of_disabled (by
        simp [WorkshopQueue.isEnabled, WorkshopQueue.disableFull]))
  | expired =>
      simp only [WorkshopQueue.step] at hstep
      split at hstep
      · obtain rfl := Option.some.inj hstep
        exact hother (by simp) (awake_of_running rfl)
      · exact absurd hstep (by simp)
  | selected rows =>
      simp only [WorkshopQueue.step] at hstep
      split at hstep
      · obtain ⟨_, rfl⟩ := of_guard hstep
        exact hother (by simp) (awake_onResult q rows _ _)
      · exact absurd hstep (by simp)
  | row =>
      simp only [WorkshopQueue.step] at hstep
      split at hstep
      · obtain rfl := Option.some.inj hstep
        exact hother (by simp) (awake_nextRow q _ _ _)
      · exact absurd hstep (by simp)
  | nextScheduled =>
      simp only [WorkshopQueue.step] at hstep
      split at hstep
      · obtain rfl := Option.some.inj hstep
        exact hother (by simp) (awake_reschedule _)
      · exact absurd hstep (by simp)
  | throws =>
      obtain ⟨_, rfl⟩ := of_guard hstep
      exact ⟨fun hawake _ hwakes => hawake rfl hwakes, fun hkeeps _ hwakes => hkeeps rfl hwakes⟩

/-- **When a queue cannot go to sleep by accident**: in every run of a new queue, it is awake in
every state exactly if no queue run ends with an exception while the queue is enabled, connected and
has a filter, and its timer is not pending. -/
theorem awake_iff {tr : List (WorkshopQueue α × QueueEvent α)}
    (hrun : Run WorkshopQueue.step ({} : WorkshopQueue α) tr q) :
    (Awake q ∧ ∀ p ∈ tr, Awake p.1) ↔ ∀ p ∈ tr, KeepsTimer p.1 p.2 :=
  hrun.invariant_iff (fun _ _ _ h hstep => awake_step h hstep)
    (awake_of_disabled (by simp [WorkshopQueue.isEnabled]))

end Awake

/-- A queue with a filter is enabled and connected, and comes to a row of its first result. -/
def firstRow : List (QueueEvent Unit) :=
  [.setFilter "{p}" "{}" "{}", .setStateEnabled true, .connect, .timer 0, .expired, .selected [()]]

theorem awake_iff_firstRow :
    (final WorkshopQueue.step ({} : WorkshopQueue Unit)
        (firstRow ++ [.row, .row, .nextScheduled])).map (fun q => (q.running.isNone, q.wakes)) =
      some (true, true) ∧
    ∀ q, final WorkshopQueue.step ({} : WorkshopQueue Unit)
        (firstRow ++ [.row, .row, .nextScheduled]) = some q → Awake q := by
  refine ⟨by decide +kernel, fun q hq => ((awake_iff (Run.of_final hq)).mpr ?_).1⟩
  have hnone : ∀ p ∈ traceOf WorkshopQueue.step ({} : WorkshopQueue Unit)
      (firstRow ++ [.row, .row, .nextScheduled]), p.2 ≠ .throws := by
    decide +kernel
  exact fun p hp heq => absurd heq (hnone p hp)

/-- **A queue goes to sleep** after an exception that leaves the connection ready. -/
theorem asleep_after_exception :
    ¬ ∀ (q : WorkshopQueue Unit) (tr : List (WorkshopQueue Unit × QueueEvent Unit)),
        Run WorkshopQueue.step ({} : WorkshopQueue Unit) tr q → Awake q := by
  intro h
  have hrun : (final WorkshopQueue.step ({} : WorkshopQueue Unit) (firstRow ++ [.throws])).map
      (fun q => (q.running, q.wakes, q.timerEvent)) = some (none, true, false) := by
    decide +kernel
  obtain ⟨q, hq, heq⟩ := Option.map_eq_some_iff.mp hrun
  simp only [Prod.mk.injEq] at heq
  obtain ⟨hrunning, hwakes, htimer⟩ := heq
  have hpending := h q _ (Run.of_final hq) hrunning hwakes
  exact absurd (hpending.symm.trans htimer) (by simp)

end Workshop.Jobs

import Workshop.Cron.Workplace
import Workshop.Daemon.Instance
import Workshop.Jobs.Partition
import Workshop.Lib.Fleet

/-!
# Shutdown

The whole `Instance` (`src/Instance.cxx`) with its partitions, in which jobs are running, from one
event of the event loop to the next.  `OnExit` lets every partition begin its shutdown, but waits
for the operators of the workshop partitions: a partition is deleted when it is idle, at once or by
`defer_idle_check`, which is scheduled when a child process has exited and the partition is idle.
The event loop ends when nothing is left.

Nothing tells a queue that it must not be enabled again.  What keeps it from being enabled is that
`OnExit` has closed the control servers and disabled `SIGHUP`, and that `EnableFull`, which a
partition calls after each job, sets only one of the three switches.

`shutdown_waits` says what happens to the workshop partitions after `OnExit`, and
`shutdown_concludes` what has become of the cron jobs.
-/

namespace Workshop.Daemon

open Workshop.Lib

/-! ## Partitions -/

/-- `WorkshopPartition::IsIdle`. -/
def workshopIdle (p : Jobs.WorkshopPartition) : Bool := p.operators.isEmpty

/-- `CronPartition::IsIdle`. -/
def cronIdle (p : Cron.CronPartition) : Bool := p.running.isEmpty

/-- `WorkshopPartition::BeginShutdown`. -/
def beginShutdown (p : Jobs.WorkshopPartition) : Jobs.WorkshopPartition :=
  { p with queue := p.queue.disableAdmin }

/-- `CronPartition::BeginShutdown`. -/
def cronBeginShutdown (env : Cron.PartitionEnv) (p : Cron.CronPartition) : Cron.CronPartition :=
  { p with queue := p.queue.disableAdmin }.cancelAll env

/-- The event comes from the partition itself: a timer, its connection, or an operator.  All others
are calls of the instance. -/
def ownEvent : Jobs.PartitionEvent → Bool
  | .queue (.setStateEnabled _) | .queue .enableAdmin | .queue .disableAdmin => false
  | .cancelJob _ _ | .cancelTag _ _ => false
  | _ => true

/-- The same for the event of a cron partition. -/
def cronOwnEvent : Cron.PartitionEvent → Bool
  | .setStateEnabled _ | .enableAdmin | .disableAdmin | .cancelTag _ | .beginShutdown => false
  | _ => true

/-- The `idle_callback` of a partition.  `OnChildProcessExit` calls it if the partition is idle; it
was called if fewer operators are there than before and those that were started meanwhile.  As
long as the instance is not about to exit, the callback has no effect. -/
def idleCallback {E : Type*} (m m' : Member E Jobs.WorkshopPartition) : Bool :=
  m.state.started.length + m'.state.operators.length <
      m'.state.started.length + m.state.operators.length && workshopIdle m'.state

/-- The same for a cron partition. -/
def cronIdleCallback {E : Type*} (m m' : Member E Cron.CronPartition) : Bool :=
  m.state.created + m'.state.running.length < m'.state.created + m.state.running.length &&
    cronIdle m'.state

/-! ## The instance -/

/-- `Instance`, with the partitions that were deleted.  `controlServers` says that there are control
servers, `sighupEvent` that the signal is handled, and `deferIdleCheck` that the check is
pending. -/
structure Server where
  shouldExit : Bool := false
  sighupEvent : Bool := true
  controlServers : Bool := true
  deferIdleCheck : Bool := false
  partitions : Fleet Jobs.WorkplaceEnv Jobs.WorkshopPartition
  cronPartitions : Fleet Cron.PartitionEnv Cron.CronPartition

/-- The configured partitions, by their names. -/
structure ServerConfig where
  partitions : List (String × Jobs.WorkplaceEnv)
  cronPartitions : List (String × Cron.PartitionEnv)

/-- The commands of a control packet that do anything with partitions. -/
inductive ControlCommand
  | terminateChildren
  | disableQueue
  | enableQueue
  | reloadState
  | cancelJob
  | other
  deriving DecidableEq, Repr

/-- `Split`: the text up to the first separator, and what is after it. -/
def split (text : String) (separator : Char) : String × String :=
  (String.ofList (text.toList.takeWhile (· ≠ separator)),
    String.ofList ((text.toList.dropWhile (· ≠ separator)).drop 1))

/-- What can happen.  `views` is the plan library as the partitions find it when they update their
filters. -/
inductive ServerEvent
  | partition (k : ℕ) (now : ℤ) (e : Jobs.PartitionEvent)
  | cronPartition (k : ℕ) (now : ℤ) (e : Cron.PartitionEvent)
  | reload (now : ℤ) (view : Jobs.LibraryView) (state : StateDirectories)
  | packet (now : ℤ) (command : ControlCommand) (payload : String) (uid : ℤ)
      (views : ℕ → Jobs.LibraryView) (state : StateDirectories)
  | exit
  | idleCheck

namespace Server

/-- A new instance. -/
def create (config : ServerConfig) : Server where
  partitions := .create {} config.partitions.reverse
  cronPartitions := .create {} config.cronPartitions.reverse

variable (s : Server)

/-- `OnPartitionIdle`. -/
def onPartitionIdle : Server := if s.shouldExit then { s with deferIdleCheck := true } else s

/-- `RemoveIdlePartitions`. -/
def removeIdlePartitions : Server :=
  { s with
    partitions := s.partitions.retire workshopIdle
    cronPartitions := s.cronPartitions.retire cronIdle }

/-- An event of the workshop partitions that are selected. -/
def deliver (now : ℤ) (sel : Member Jobs.WorkplaceEnv Jobs.WorkshopPartition → Bool)
    (event : Member Jobs.WorkplaceEnv Jobs.WorkshopPartition → Jobs.PartitionEvent) :
    Option Server :=
  (s.partitions.deliver Jobs.WorkshopPartition.step sel fun m => (now, event m)).map
    fun partitions =>
      let s' := { s with partitions }
      if s.partitions.anyMove idleCallback partitions then s'.onPartitionIdle else s'

/-- An event of the cron partitions that are selected. -/
def cronDeliver (now : ℤ) (sel : Member Cron.PartitionEnv Cron.CronPartition → Bool)
    (event : Member Cron.PartitionEnv Cron.CronPartition → Cron.PartitionEvent) : Option Server :=
  (s.cronPartitions.deliver Cron.CronPartition.step sel fun m => (now, event m)).map
    fun cronPartitions =>
      let s' := { s with cronPartitions }
      if s.cronPartitions.anyMove cronIdleCallback cronPartitions then s'.onPartitionIdle else s'

/-- `ReloadState`. -/
def reloadState (now : ℤ) (state : StateDirectories) : Option Server := do
  let s ← s.deliver now (fun _ => true) fun m =>
    .queue (.setStateEnabled (state.getBool (workshopStatePath m.name) true))
  -- "anonymous partitions cannot have state"
  s.cronDeliver now (fun m => m.name ≠ "") fun m =>
    .setStateEnabled (state.getBool (cronStatePath m.name) true)

/-- `OnReload`. -/
def onReload (now : ℤ) (view : Jobs.LibraryView) (state : StateDirectories) : Option Server := do
  let s ← s.deliver now (fun _ => true) fun _ => .updateFilter view
  s.reloadState now state

/-- `OnControlPacket`.  No job has an id that is not a number. -/
def onControlPacket (now : ℤ) (command : ControlCommand) (payload : String) (uid : ℤ)
    (views : ℕ → Jobs.LibraryView) (state : StateDirectories) : Option Server :=
  match command with
  | .terminateChildren =>
    if payload = "" then some s
    else do
      let s ← s.deliver now (fun _ => true) fun m => .cancelTag payload (views m.number)
      s.cronDeliver now (fun _ => true) fun _ => .cancelTag payload
  | .disableQueue =>
    if 0 ≤ uid then do
      let s ← s.deliver now (fun m => payload = "" ∨ payload = m.name) fun _ => .queue .disableAdmin
      s.cronDeliver now (fun m => payload = "" ∨ payload = m.name) fun _ => .disableAdmin
    else some s
  | .enableQueue =>
    if 0 ≤ uid then do
      let s ← s.deliver now (fun m => payload = "" ∨ payload = m.name) fun _ => .queue .enableAdmin
      s.cronDeliver now (fun m => payload = "" ∨ payload = m.name) fun _ => .enableAdmin
    else some s
  | .reloadState => if 0 ≤ uid then s.reloadState now state else some s
  | .cancelJob =>
    let (partitionName, jobId) := split payload (Char.ofNat 0)
    match jobId.toNat?.filter fun id => toString id = jobId with
    | none => some s
    | some id => s.deliver now (fun m => partitionName = m.name) fun m =>
        .cancelJob id (views m.number)
  | .other => some s

/-- All partitions begin their shutdown.  That of a cron partition may call `OnPartitionIdle`. -/
def beginShutdowns : Server :=
  let cronPartitions := s.cronPartitions.map cronBeginShutdown
  let s' := { s with
    partitions := s.partitions.map fun _ p => beginShutdown p
    cronPartitions }
  if s.cronPartitions.anyMove cronIdleCallback cronPartitions then s'.onPartitionIdle else s'

/-- `OnExit`. -/
def onExit : Server :=
  if s.shouldExit then s
  else
    { ({ s with shouldExit := true, sighupEvent := false }.beginShutdowns).removeIdlePartitions with
      controlServers := false }

/-- One event of the instance. -/
def step : ServerEvent → Option Server
  | .partition k now e =>
    if ownEvent e ∧ k ∈ s.partitions.members.map Member.number then
      s.deliver now (fun m => m.number = k) fun _ => e
    else none
  | .cronPartition k now e =>
    if cronOwnEvent e ∧ k ∈ s.cronPartitions.members.map Member.number then
      s.cronDeliver now (fun m => m.number = k) fun _ => e
    else none
  | .reload now view state => if s.sighupEvent then s.onReload now view state else none
  | .packet now command payload uid views state =>
    if s.controlServers then s.onControlPacket now command payload uid views state else none
  | .exit => some s.onExit
  | .idleCheck =>
    if s.deferIdleCheck then some { s with deferIdleCheck := false }.removeIdlePartitions else none

end Server

/-! ## A partition that is shut down -/

/-- What was done, and which jobs are running. -/
structure SameWork (p p' : Jobs.WorkshopPartition) : Prop where
  claims : p'.claims = p.claims
  started : p'.started = p.started
  jobs : (p'.operators.map fun o => o.job).Sublist (p.operators.map fun o => o.job)

/-- The event is the end of an operator. -/
def endsOperator : Jobs.PartitionEvent → Bool
  | .exit _ _ => true
  | _ => false

section Quiet

variable {env : Jobs.WorkplaceEnv} {p p' : Jobs.WorkshopPartition} {now : ℤ}

lemma SameWork.refl (p : Jobs.WorkshopPartition) : SameWork p p := ⟨rfl, rfl, .refl _⟩

lemma SameWork.trans {p₁ p₂ p₃ : Jobs.WorkshopPartition} (h : SameWork p₁ p₂)
    (h' : SameWork p₂ p₃) : SameWork p₁ p₃ :=
  ⟨h'.claims.trans h.claims, h'.started.trans h.started, h'.jobs.trans h.jobs⟩

/-- An event of a queue does not enable it again, except the one that comes from the instance. -/
lemma queue_enabledAdmin {q q' : Jobs.WorkshopQueue Jobs.JobRow} {e : Jobs.QueueEvent Jobs.JobRow}
    (hadmin : q.enabledAdmin = false) (he : e ≠ .enableAdmin) (hstep : q.step e = some q') :
    q'.enabledAdmin = false := by
  cases e with
  | timer now =>
      obtain ⟨_, rfl⟩ := of_guard hstep
      simp only [Jobs.WorkshopQueue.onTimer]
      split
      · split <;> exact hadmin
      · exact hadmin
  | connect =>
      obtain ⟨_, rfl⟩ := of_guard hstep
      exact hadmin
  | disconnect =>
      obtain ⟨_, rfl⟩ := of_guard hstep
      exact hadmin
  | notify name =>
      obtain ⟨_, rfl⟩ := of_guard hstep
      unfold Jobs.WorkshopQueue.onNotify
      split <;> exact hadmin
  | setFilter plansInclude plansExclude plansLowprio =>
      obtain rfl := Option.some.inj hstep
      obtain ⟨_, _, heq, _⟩ := q.setFilter_eq plansInclude plansExclude plansLowprio
      rw [heq]
      exact hadmin
  | setStateEnabled enabled =>
      obtain rfl := Option.some.inj hstep
      unfold Jobs.WorkshopQueue.setStateEnabled
      split
      · exact hadmin
      · obtain ⟨_, heq⟩ := Jobs.WorkshopQueue.checkEnabled_eq { q with enabledState := enabled }
        rw [heq]
        exact hadmin
  | enableAdmin => exact absurd rfl he
  | disableAdmin =>
      obtain rfl := Option.some.inj hstep
      rfl
  | enableFull =>
      obtain rfl := Option.some.inj hstep
      obtain ⟨_, heq⟩ := q.enableFull_eq
      rw [heq]
      exact hadmin
  | disableFull =>
      obtain rfl := Option.some.inj hstep
      exact hadmin
  | expired =>
      simp only [Jobs.WorkshopQueue.step] at hstep
      split at hstep
      · obtain rfl := Option.some.inj hstep
        exact hadmin
      · exact absurd hstep (by simp)
  | selected rows =>
      simp only [Jobs.WorkshopQueue.step] at hstep
      split at hstep
      · rename_i lowprio full _
        obtain ⟨_, rfl⟩ := of_guard hstep
        obtain ⟨_, _, heq, _⟩ := q.onResult_eq rows lowprio full
        rw [heq]
        exact hadmin
      · exact absurd hstep (by simp)
  | row =>
      simp only [Jobs.WorkshopQueue.step] at hstep
      split at hstep
      · rename_i rest lowprio full _
        obtain rfl := Option.some.inj hstep
        obtain ⟨_, _, heq, _⟩ := q.nextRow_eq rest lowprio full
        rw [heq]
        exact hadmin
      · exact absurd hstep (by simp)
  | nextScheduled =>
      simp only [Jobs.WorkshopQueue.step] at hstep
      split at hstep
      · obtain rfl := Option.some.inj hstep
        exact hadmin
      · exact absurd hstep (by simp)
  | throws =>
      obtain ⟨_, rfl⟩ := of_guard hstep
      exact hadmin

lemma updateFilter_enabledAdmin (env : Jobs.WorkplaceEnv) (now : ℤ) (p : Jobs.WorkshopPartition)
    (view : Jobs.LibraryView) :
    (p.updateFilter env now view).queue.enabledAdmin = p.queue.enabledAdmin := by
  simp only [Jobs.WorkshopPartition.updateFilter]
  obtain ⟨_, _, heq, _⟩ := p.queue.setFilter_eq _ _ _
  rw [heq]

/-- After the end of an operator the queue may be enabled as far as the partition is concerned. -/
lemma onExit_enabledAdmin (env : Jobs.WorkplaceEnv) (now : ℤ) (p : Jobs.WorkshopPartition) (i : ℕ)
    (view : Jobs.LibraryView) :
    (p.onExit env now i view).queue.enabledAdmin = p.queue.enabledAdmin ∧
      (p.onExit env now i view).operators = p.operators.eraseIdx i ∧
      (p.onExit env now i view).claims = p.claims ∧
      (p.onExit env now i view).started = p.started := by
  simp only [Jobs.WorkshopPartition.onExit, Jobs.WorkshopPartition.onChildProcessExit]
  split
  · exact ⟨updateFilter_enabledAdmin env now _ view, rfl, rfl, rfl⟩
  · refine ⟨?_, rfl, rfl, rfl⟩
    obtain ⟨_, heq⟩ := ((Jobs.WorkshopPartition.updateFilter env now
      { p with operators := p.operators.eraseIdx i } view).queue).enableFull_eq
    rw [heq]
    exact updateFilter_enabledAdmin env now _ view

/-- **What a partition does after its shutdown has begun**: its queue stays disabled, it claims and
starts nothing, and an operator is gone exactly if it has ended. -/
lemma quiet_step {e : Jobs.PartitionEvent} (hadmin : p.queue.enabledAdmin = false)
    (hown : ownEvent e = true) (hstep : p.step env (now, e) = some p') :
    p'.queue.enabledAdmin = false ∧ SameWork p p' ∧
      p'.operators.length + (if endsOperator e then 1 else 0) = p.operators.length := by
  have hdisabled : p.queue.isEnabled = false := by simp [Jobs.WorkshopQueue.isEnabled, hadmin]
  cases e with
  | queue e =>
      simp only [Jobs.WorkshopPartition.step] at hstep
      split at hstep
      · obtain ⟨queue, hqueue, rfl⟩ := Option.map_eq_some_iff.mp hstep
        have he : e ≠ .enableAdmin := by
          rintro rfl
          exact absurd hown (by simp [ownEvent])
        exact ⟨queue_enabledAdmin hadmin he hqueue, ⟨rfl, rfl, .refl _⟩, rfl⟩
      · exact absurd hstep (by simp)
  | updateFilter view =>
      obtain ⟨_, rfl⟩ := of_guard hstep
      exact ⟨(updateFilter_enabledAdmin env now p view).trans hadmin, ⟨rfl, rfl, .refl _⟩, rfl⟩
  | row answers =>
      simp only [Jobs.WorkshopPartition.step] at hstep
      split at hstep
      · rename_i rest lowprio full _
        obtain rfl := Option.some.inj hstep
        -- the loop of `RunResult` asks `IsEnabled` before each row
        have hnext : p.onRow env now rest lowprio full answers =
            { p with queue := p.queue.nextRow rest lowprio full } := by
          simp only [Jobs.WorkshopPartition.onRow]
          cases rest with
          | nil => rfl
          | cons row rest => simp [hdisabled]
        obtain ⟨_, _, heq, _⟩ := p.queue.nextRow_eq rest lowprio full
        rw [hnext, heq]
        exact ⟨hadmin, ⟨rfl, rfl, .refl _⟩, rfl⟩
      · exact absurd hstep (by simp)
  | tagged i childTag =>
      obtain ⟨o, ho, rfl⟩ := Option.map_eq_some_iff.mp hstep
      refine ⟨hadmin, ⟨rfl, rfl, ?_⟩, List.length_set ..⟩
      have hsame : (p.operators.set i { o with childTag }).map (fun o => o.job) =
          p.operators.map fun o => o.job := by
        obtain ⟨hi, rfl⟩ := List.getElem?_eq_some_iff.mp ho
        rw [List.map_set]
        exact List.ext_getElem (by simp) fun j hj _ => by
          rw [List.getElem_set]
          split
          · subst ‹i = j›
            rw [List.getElem_map]
          · rfl
      change ((p.operators.set i { o with childTag }).map fun o => o.job).Sublist _
      rw [hsame]
  | exit i view =>
      obtain ⟨⟨_, hi⟩, rfl⟩ := of_guard hstep
      obtain ⟨hsame, hoperators, hclaims, hstarted⟩ := onExit_enabledAdmin env now p i view
      refine ⟨hsame.trans hadmin, ⟨hclaims, hstarted, ?_⟩, ?_⟩
      · rw [hoperators]
        exact (List.eraseIdx_sublist p.operators i).map _
      · rw [hoperators, List.length_eraseIdx_of_lt hi]
        simp only [endsOperator, if_true]
        omega
  | cancelJob id view => exact absurd hown (by simp [ownEvent])
  | cancelTag tag view => exact absurd hown (by simp [ownEvent])

end Quiet

/-! ## What an event does to the partitions -/

section Moved

variable {s s' s'' : Server} {free : Prop} {now : ℤ}

/-- The partitions may have moved and idle ones may be gone, but the instance has not begun to
exit.  Only where `free` holds, workshop partitions had events that do not come from them. -/
structure Moved (free : Prop) (s s' : Server) : Prop where
  shouldExit : s'.shouldExit = s.shouldExit
  controlServers : s'.controlServers = s.controlServers
  sighupEvent : s'.sighupEvent = s.sighupEvent
  fresh : s.shouldExit = false → s.deferIdleCheck = false → s'.deferIdleCheck = false ∧
    s'.partitions.retired = s.partitions.retired ∧
    s'.cronPartitions.retired = s.cronPartitions.retired
  partitions : s.partitions.Follows Jobs.WorkshopPartition.step
    (fun _ e => ownEvent e.2 = true ∨ free) workshopIdle s'.partitions
  cronPartitions : s.cronPartitions.Follows Cron.CronPartition.step (fun _ _ => True) cronIdle
    s'.cronPartitions

lemma Moved.refl (free : Prop) (s : Server) : Moved free s s :=
  ⟨rfl, rfl, rfl, fun _ h => ⟨h, rfl, rfl⟩, .refl, .refl⟩

lemma Moved.trans (h : Moved free s s') (h' : Moved free s' s'') : Moved free s s'' where
  shouldExit := h'.shouldExit.trans h.shouldExit
  controlServers := h'.controlServers.trans h.controlServers
  sighupEvent := h'.sighupEvent.trans h.sighupEvent
  fresh hopen hnone := by
    obtain ⟨hnone', hretired, hcron⟩ := h.fresh hopen hnone
    obtain ⟨hnone'', hretired', hcron'⟩ := h'.fresh (h.shouldExit.trans hopen) hnone'
    exact ⟨hnone'', hretired'.trans hretired, hcron'.trans hcron⟩
  partitions := h.partitions.trans h'.partitions
  cronPartitions := h.cronPartitions.trans h'.cronPartitions

lemma onPartitionIdle_eq (b : Bool) (s : Server) : (if b then s.onPartitionIdle else s) =
    { s with deferIdleCheck := s.deferIdleCheck || (b && s.shouldExit) } := by
  obtain ⟨shouldExit, _, _, _, _, _⟩ := s
  cases b <;> cases shouldExit <;> simp [Server.onPartitionIdle]

lemma deliver_eq {sel : Member Jobs.WorkplaceEnv Jobs.WorkshopPartition → Bool}
    {event : Member Jobs.WorkplaceEnv Jobs.WorkshopPartition → Jobs.PartitionEvent}
    (h : s.deliver now sel event = some s') :
    ∃ f, s.partitions.deliver Jobs.WorkshopPartition.step sel (fun m => (now, event m)) = some f ∧
      s' = { s with
        partitions := f
        deferIdleCheck := s.deferIdleCheck ||
          (s.partitions.anyMove idleCallback f && s.shouldExit) } := by
  obtain ⟨f, hf, rfl⟩ := Option.map_eq_some_iff.mp h
  exact ⟨f, hf, onPartitionIdle_eq _ _⟩

lemma moved_deliver {sel : Member Jobs.WorkplaceEnv Jobs.WorkshopPartition → Bool}
    {event : Member Jobs.WorkplaceEnv Jobs.WorkshopPartition → Jobs.PartitionEvent}
    (h : s.deliver now sel event = some s')
    (hevent : ∀ m, sel m = true → ownEvent (event m) = true ∨ free) : Moved free s s' := by
  obtain ⟨f, hf, rfl⟩ := deliver_eq h
  refine ⟨rfl, rfl, rfl, fun hopen hnone => ⟨?_, (Fleet.forall₂_of_deliver hf).1, rfl⟩,
    .deliver .refl hf hevent, .refl⟩
  simp [hopen, hnone]

lemma moved_cronDeliver {sel : Member Cron.PartitionEnv Cron.CronPartition → Bool}
    {event : Member Cron.PartitionEnv Cron.CronPartition → Cron.PartitionEvent}
    (free : Prop) (h : s.cronDeliver now sel event = some s') : Moved free s s' := by
  obtain ⟨f, hf, rfl⟩ := Option.map_eq_some_iff.mp h
  simp only [onPartitionIdle_eq]
  refine ⟨rfl, rfl, rfl, fun hopen hnone => ⟨?_, rfl, (Fleet.forall₂_of_deliver hf).1⟩, .refl,
    .deliver .refl hf fun _ _ => trivial⟩
  simp [hopen, hnone]

/-- One call for the workshop partitions and one for the cron partitions. -/
lemma moved_both {sel : Member Jobs.WorkplaceEnv Jobs.WorkshopPartition → Bool}
    {event : Member Jobs.WorkplaceEnv Jobs.WorkshopPartition → Jobs.PartitionEvent}
    {cronSel : Member Cron.PartitionEnv Cron.CronPartition → Bool}
    {cronEvent : Member Cron.PartitionEnv Cron.CronPartition → Cron.PartitionEvent}
    (hfree : free) (h : (s.deliver now sel event).bind
      (fun s => s.cronDeliver now cronSel cronEvent) = some s') : Moved free s s' := by
  obtain ⟨s₁, h₁, h₂⟩ := Option.bind_eq_some_iff.mp h
  exact (moved_deliver h₁ fun _ _ => .inr hfree).trans (moved_cronDeliver free h₂)

lemma moved_reloadState {state : StateDirectories} (hfree : free)
    (h : s.reloadState now state = some s') : Moved free s s' := moved_both hfree h

lemma moved_onReload {view : Jobs.LibraryView} {state : StateDirectories} (hfree : free)
    (h : s.onReload now view state = some s') : Moved free s s' := by
  obtain ⟨s₁, h₁, h₂⟩ := Option.bind_eq_some_iff.mp h
  exact (moved_deliver h₁ fun _ _ => .inr hfree).trans (moved_reloadState hfree h₂)

lemma moved_onControlPacket {command : ControlCommand} {payload : String} {uid : ℤ}
    {views : ℕ → Jobs.LibraryView} {state : StateDirectories} (hfree : free)
    (h : s.onControlPacket now command payload uid views state = some s') : Moved free s s' := by
  have hsame : some s = some s' → Moved free s s' := fun h => Option.some.inj h ▸ .refl free s
  cases command with
  | terminateChildren =>
      simp only [Server.onControlPacket] at h
      split at h
      · exact hsame h
      · exact moved_both hfree h
  | disableQueue =>
      simp only [Server.onControlPacket] at h
      split at h
      · exact moved_both hfree h
      · exact hsame h
  | enableQueue =>
      simp only [Server.onControlPacket] at h
      split at h
      · exact moved_both hfree h
      · exact hsame h
  | reloadState =>
      simp only [Server.onControlPacket] at h
      split at h
      · exact moved_reloadState hfree h
      · exact hsame h
  | cancelJob =>
      simp only [Server.onControlPacket] at h
      split at h
      · exact hsame h
      · exact moved_deliver h fun _ _ => .inr hfree
  | other => exact hsame h

/-- **What an event does.**  The instance begins to exit, or the partitions move. -/
lemma step_cases {e : ServerEvent}
    (hclosed : s.shouldExit = true → s.controlServers = false ∧ s.sighupEvent = false)
    (hstep : s.step e = some s') :
    (s.shouldExit = false ∧ e = .exit ∧ s' = s.onExit) ∨ Moved (s.shouldExit = false) s s' := by
  have hopen : (s.controlServers = true ∨ s.sighupEvent = true) → s.shouldExit = false := by
    intro h
    cases hexit : s.shouldExit with
    | false => rfl
    | true => simp [hclosed hexit] at h
  cases e with
  | partition k now e =>
      obtain ⟨⟨hown, _⟩, hs'⟩ := Option.ite_none_right_eq_some.mp hstep
      exact .inr (moved_deliver hs' fun _ _ => .inl hown)
  | cronPartition k now e =>
      obtain ⟨_, hs'⟩ := Option.ite_none_right_eq_some.mp hstep
      exact .inr (moved_cronDeliver _ hs')
  | reload now view state =>
      obtain ⟨hsighup, hs'⟩ := Option.ite_none_right_eq_some.mp hstep
      exact .inr (moved_onReload (hopen (.inr hsighup)) hs')
  | packet now command payload uid views state =>
      obtain ⟨hcontrol, hs'⟩ := Option.ite_none_right_eq_some.mp hstep
      exact .inr (moved_onControlPacket (hopen (.inl hcontrol)) hs')
  | exit =>
      obtain rfl := Option.some.inj hstep
      cases hexit : s.shouldExit with
      | false => exact .inl ⟨rfl, rfl, rfl⟩
      | true =>
          have hsame : s.onExit = s := if_pos hexit
          rw [hsame]
          exact .inr (.refl _ s)
  | idleCheck =>
      obtain ⟨hpending, rfl⟩ := of_guard hstep
      exact .inr ⟨rfl, rfl, rfl, fun _ hnone => absurd (hpending.symm.trans hnone) (by simp),
        .retire .refl, .retire .refl⟩

end Moved

/-! ## The states of an instance -/

/-- **The invariant.**  No configured partition is lost, those that were deleted were idle, and the
life of every cron object is known.  After `OnExit`, nobody can enable a queue again, there are no
cron partitions, and every partition that is still there has an operator or will be deleted by the
check that is pending. -/
structure Sound (config : ServerConfig) (s : Server) : Prop where
  closed : s.shouldExit = true → s.controlServers = false ∧ s.sighupEvent = false
  fresh : s.shouldExit = false → s.deferIdleCheck = false ∧ s.partitions.retired = [] ∧
    s.cronPartitions.retired = []
  numbers : (s.partitions.all.map Member.number).Perm (List.range config.partitions.length)
  cronNumbers : (s.cronPartitions.all.map Member.number).Perm
    (List.range config.cronPartitions.length)
  deleted : ∀ m ∈ s.partitions.retired, workshopIdle m.state = true
  cronDeleted : ∀ m ∈ s.cronPartitions.retired, cronIdle m.state = true
  lives : ∀ m ∈ s.cronPartitions.all, Cron.Lives m.state
  quiet : s.shouldExit = true → ∀ m ∈ s.partitions.all, m.state.queue.enabledAdmin = false
  waits : s.shouldExit = true → s.deferIdleCheck = false → ∀ m ∈ s.partitions.members,
    m.state.operators ≠ []
  gone : s.shouldExit = true → s.cronPartitions.members = []

section Sound

variable {config : ServerConfig} {s s' : Server} {e : ServerEvent}

lemma cronBeginShutdown_running (env : Cron.PartitionEnv) (p : Cron.CronPartition) :
    (cronBeginShutdown env p).running = [] := by
  unfold cronBeginShutdown Cron.CronPartition.cancelAll
  split
  · assumption
  · rw [Cron.CronPartition.foldl_cancel]
    simp [Cron.CronPartition.record]

lemma lives_step {m m' : Member Cron.PartitionEnv Cron.CronPartition}
    {e : ℤ × Cron.PartitionEvent} (h : Cron.Lives m.state)
    (hstep : m.step Cron.CronPartition.step e = some m') : Cron.Lives m'.state := by
  obtain ⟨state, hstate, rfl⟩ := Member.of_step hstep
  exact h.step hstate

lemma sound_create (config : ServerConfig) : Sound config (.create config) where
  closed h := absurd h Bool.false_ne_true
  fresh _ := ⟨rfl, rfl, rfl⟩
  numbers := by
    rw [Server.create, Fleet.numbers_create, List.length_reverse]
  cronNumbers := by
    rw [Server.create, Fleet.numbers_create, List.length_reverse]
  deleted _ hm := absurd hm List.not_mem_nil
  cronDeleted _ hm := absurd hm List.not_mem_nil
  lives m hm := by
    obtain ⟨c, _, rfl⟩ := List.mem_map.mp ((List.mem_append.mp hm).resolve_right List.not_mem_nil)
    exact Cron.lives_new
  quiet h := absurd h Bool.false_ne_true
  waits h := absurd h Bool.false_ne_true
  gone h := absurd h Bool.false_ne_true

lemma onExit_eq (hopen : s.shouldExit = false) : ∃ deferIdleCheck, s.onExit =
    { s with
      shouldExit := true, sighupEvent := false, controlServers := false,
      deferIdleCheck := deferIdleCheck
      partitions := (s.partitions.map fun _ p => beginShutdown p).retire workshopIdle
      cronPartitions := (s.cronPartitions.map cronBeginShutdown).retire cronIdle } := by
  rw [Server.onExit, if_neg (by simp [hopen])]
  simp only [Server.beginShutdowns, onPartitionIdle_eq]
  exact ⟨_, rfl⟩

lemma Sound.onExit (h : Sound config s) (hopen : s.shouldExit = false) :
    Sound config s.onExit := by
  obtain ⟨deferIdleCheck, heq⟩ := onExit_eq hopen
  have hpartitions : s.partitions.Follows Jobs.WorkshopPartition.step (fun _ _ => True)
      workshopIdle ((s.partitions.map fun _ p => beginShutdown p).retire workshopIdle) :=
    .retire (.map .refl (0, .queue .disableAdmin) (fun _ _ => rfl) fun _ => trivial)
  have hcron : s.cronPartitions.Follows Cron.CronPartition.step (fun _ _ => True) cronIdle
      ((s.cronPartitions.map cronBeginShutdown).retire cronIdle) :=
    .retire (.map .refl (0, .beginShutdown) (fun _ _ => rfl) fun _ => trivial)
  obtain ⟨_, hretired, _⟩ := h.fresh hopen
  rw [heq]
  refine
    { closed := fun _ => ⟨rfl, rfl⟩
      fresh := fun h => absurd h (by simp)
      numbers := hpartitions.numbers.trans h.numbers
      cronNumbers := hcron.numbers.trans h.cronNumbers
      deleted := hpartitions.retired h.deleted
      cronDeleted := hcron.retired h.cronDeleted
      lives := hcron.forall (fun m e m' hm _ hstep => lives_step hm hstep) h.lives
      quiet := fun _ m hm => ?_
      waits := fun _ _ m hm hnone => ?_
      gone := fun _ => ?_ }
  · -- nothing was deleted before, so the queue of every partition was disabled just now
    have hm := (Fleet.all_retire_perm workshopIdle _).mem_iff.mp hm
    rw [Fleet.all, Fleet.map, hretired, List.append_nil] at hm
    obtain ⟨m, _, rfl⟩ := List.mem_map.mp hm
    rfl
  · have hbusy := (List.mem_filter.mp hm).2
    simp [workshopIdle, hnone] at hbusy
  · refine List.filter_eq_nil_iff.mpr fun m hm => ?_
    obtain ⟨m, _, rfl⟩ := List.mem_map.mp hm
    simp [cronIdle, cronBeginShutdown_running]

lemma quiet_member {m m' : Member Jobs.WorkplaceEnv Jobs.WorkshopPartition}
    {e : ℤ × Jobs.PartitionEvent} (hadmin : m.state.queue.enabledAdmin = false)
    (hown : ownEvent e.2 = true) (hstep : m.step Jobs.WorkshopPartition.step e = some m') :
    m'.state.queue.enabledAdmin = false ∧ SameWork m.state m'.state ∧
      m'.state.operators.length + (if endsOperator e.2 then 1 else 0) =
        m.state.operators.length := by
  obtain ⟨state, hstate, rfl⟩ := Member.of_step hstep
  exact quiet_step hadmin hown hstate

/-- After `OnExit`, a partition that has become idle has called `OnPartitionIdle`. -/
lemma waits_partition {k : ℕ} {now : ℤ} {e : Jobs.PartitionEvent} (h : Sound config s)
    (hexit : s.shouldExit = true) (hown : ownEvent e = true)
    (hs' : s.deliver now (fun m => m.number = k) (fun _ => e) = some s')
    (hnone : s'.deferIdleCheck = false) :
    ∀ m ∈ s'.partitions.members, m.state.operators ≠ [] := by
  obtain ⟨f, hf, rfl⟩ := deliver_eq hs'
  simp only [Bool.or_eq_false_iff, hexit, Bool.and_true] at hnone
  obtain ⟨hnone, hcalled⟩ := hnone
  intro m' hm' hidle
  obtain ⟨m, hm, hquiet, hmove⟩ := Fleet.called_of_deliver hf hcalled hm'
  have hbusy := h.waits hexit hnone m hm
  rcases hmove with ⟨_, hstep⟩ | ⟨_, rfl⟩
  · obtain ⟨_, hsame, hcount⟩ :=
      quiet_member (h.quiet hexit m (List.mem_append_left _ hm)) hown hstep
    have hpos := List.length_pos_iff.mpr hbusy
    have hcallback : idleCallback m m' = true := by
      simp [idleCallback, hsame.started, workshopIdle, hidle, hpos]
    exact absurd (hcallback.symm.trans hquiet) (by simp)
  · exact hbusy hidle

/-- **What can still happen after `OnExit`**: an event of a workshop partition, or the check that is
pending. -/
lemma exited_cases (h : Sound config s) (hexit : s.shouldExit = true)
    (hstep : s.step e = some s') :
    (∃ k now e', e = .partition k now e' ∧ ownEvent e' = true ∧
      k ∈ s.partitions.members.map Member.number ∧
      s.deliver now (fun m => m.number = k) (fun _ => e') = some s') ∨
    (e = .exit ∧ s' = s) ∨
    (e = .idleCheck ∧ s.deferIdleCheck = true ∧
      s' = { s with deferIdleCheck := false }.removeIdlePartitions) := by
  obtain ⟨hcontrol, hsighup⟩ := h.closed hexit
  cases e with
  | partition k now e =>
      obtain ⟨⟨hown, hk⟩, hs'⟩ := Option.ite_none_right_eq_some.mp hstep
      exact .inl ⟨k, now, e, rfl, hown, hk, hs'⟩
  | cronPartition k now e =>
      obtain ⟨⟨_, hk⟩, _⟩ := Option.ite_none_right_eq_some.mp hstep
      rw [h.gone hexit] at hk
      exact absurd hk List.not_mem_nil
  | reload now view state =>
      obtain ⟨hon, _⟩ := Option.ite_none_right_eq_some.mp hstep
      exact absurd (hsighup.symm.trans hon) (by simp)
  | packet now command payload uid views state =>
      obtain ⟨hon, _⟩ := Option.ite_none_right_eq_some.mp hstep
      exact absurd (hcontrol.symm.trans hon) (by simp)
  | exit =>
      obtain rfl := Option.some.inj hstep
      exact .inr (.inl ⟨rfl, if_pos hexit⟩)
  | idleCheck =>
      obtain ⟨hpending, rfl⟩ := of_guard hstep
      exact .inr (.inr ⟨rfl, hpending, rfl⟩)

/-- **Step.** -/
lemma Sound.step (h : Sound config s) (hstep : s.step e = some s') : Sound config s' := by
  rcases step_cases h.closed hstep with ⟨hopen, rfl, rfl⟩ | hmoved
  · exact h.onExit hopen
  · refine
      { closed := fun hexit => ?_
        fresh := fun hopen => ?_
        numbers := hmoved.partitions.numbers.trans h.numbers
        cronNumbers := hmoved.cronPartitions.numbers.trans h.cronNumbers
        deleted := hmoved.partitions.retired h.deleted
        cronDeleted := hmoved.cronPartitions.retired h.cronDeleted
        lives := hmoved.cronPartitions.forall (fun m e m' hm _ hstep => lives_step hm hstep) h.lives
        quiet := fun hexit => ?_
        waits := fun hexit => ?_
        gone := fun hexit => ?_ }
    · rw [hmoved.controlServers, hmoved.sighupEvent]
      exact h.closed (hmoved.shouldExit.symm.trans hexit)
    · rw [hmoved.shouldExit] at hopen
      obtain ⟨hnone, hretired, hcron⟩ := h.fresh hopen
      obtain ⟨hnone', hretired', hcron'⟩ := hmoved.fresh hopen hnone
      exact ⟨hnone', hretired'.trans hretired, hcron'.trans hcron⟩
    · rw [hmoved.shouldExit] at hexit
      refine hmoved.partitions.forall (fun m e m' hm hC hst => ?_) (h.quiet hexit)
      have hown : ownEvent e.2 = true := hC.resolve_right (by simp [hexit])
      exact (quiet_member hm hown hst).1
    · rw [hmoved.shouldExit] at hexit
      intro hnone
      rcases exited_cases h hexit hstep with ⟨k, now, e, rfl, hown, _, hs'⟩ | ⟨rfl, rfl⟩ |
        ⟨rfl, _, rfl⟩
      · exact waits_partition h hexit hown hs' hnone
      · exact h.waits hexit hnone
      · intro m hm hidle
        have hbusy := (List.mem_filter.mp hm).2
        simp [workshopIdle, hidle] at hbusy
    · rw [hmoved.shouldExit] at hexit
      have hgone := h.gone hexit
      rcases exited_cases h hexit hstep with ⟨k, now, e, rfl, _, _, hs'⟩ | ⟨rfl, rfl⟩ |
        ⟨rfl, _, rfl⟩
      · obtain ⟨f, _, rfl⟩ := deliver_eq hs'
        exact hgone
      · exact hgone
      · change s.cronPartitions.members.filter _ = []
        rw [hgone, List.filter_nil]

lemma sound_of_run {tr : List (Server × ServerEvent)}
    (hrun : Run Server.step (.create config) tr s) : Sound config s :=
  (hrun.invariant (C := fun _ _ => True) (fun _ _ _ h _ hstep => h.step hstep)
    (sound_create config) fun _ _ => trivial).1

end Sound

/-! ## After `OnExit` -/

/-- How many operators are running. -/
def Server.operatorCount (s : Server) : ℕ :=
  (s.partitions.members.map fun m => m.state.operators.length).sum

/-- The event is the end of an operator of a workshop partition. -/
def ServerEvent.endsOperator : ServerEvent → Bool
  | .partition _ _ e => Daemon.endsOperator e
  | _ => false

/-- **The shutdown of one run so far**: nothing new was begun since `s₁`, and the operators that are
not running any more have ended. -/
structure SinceExit (s₁ : Server) (past : List (Server × ServerEvent)) (s : Server) : Prop where
  shouldExit : s.shouldExit = true
  work : ∀ m ∈ s.partitions.all, ∃ m₁ ∈ s₁.partitions.all, m₁.number = m.number ∧
    SameWork m₁.state m.state
  count : past.countP (fun p => p.2.endsOperator) + s.operatorCount = s₁.operatorCount

section SinceExit

variable {config : ServerConfig} {s s' s₁ : Server} {e : ServerEvent}
  {past tr : List (Server × ServerEvent)}

lemma operatorCount_removeIdlePartitions (s : Server) :
    s.removeIdlePartitions.operatorCount = s.operatorCount := by
  refine Fleet.sum_retire (fun p => p.operators.length) (fun p hp => ?_) s.partitions
  simpa [workshopIdle] using hp

lemma sinceExit_onExit (h : Sound config s) : SinceExit s [] s.onExit := by
  cases hexit : s.shouldExit with
  | true =>
      have hsame : s.onExit = s := if_pos hexit
      rw [hsame]
      exact ⟨hexit, fun m hm => ⟨m, hm, rfl, .refl _⟩, Nat.zero_add _⟩
  | false =>
      obtain ⟨deferIdleCheck, heq⟩ := onExit_eq hexit
      obtain ⟨_, hretired, _⟩ := h.fresh hexit
      rw [heq]
      refine ⟨rfl, fun m hm => ?_, ?_⟩
      · have hm := (Fleet.all_retire_perm workshopIdle _).mem_iff.mp hm
        rw [Fleet.all, Fleet.map, hretired, List.append_nil] at hm
        obtain ⟨m₁, hm₁, rfl⟩ := List.mem_map.mp hm
        exact ⟨m₁, List.mem_append_left _ hm₁, rfl, rfl, rfl, .refl _⟩
      · rw [List.countP_nil, Nat.zero_add]
        refine (Fleet.sum_retire (fun p : Jobs.WorkshopPartition => p.operators.length)
          (fun p hp => by simpa [workshopIdle] using hp) _).trans ?_
        rw [Fleet.map, List.map_map]
        rfl

/-- The operators after an event of a partition of its own. -/
lemma operatorCount_deliver {k : ℕ} {now : ℤ} {e : Jobs.PartitionEvent} (h : Sound config s)
    (hexit : s.shouldExit = true) (hown : ownEvent e = true)
    (hk : k ∈ s.partitions.members.map Member.number)
    (hs' : s.deliver now (fun m => m.number = k) (fun _ => e) = some s') :
    s'.operatorCount + (if Daemon.endsOperator e then 1 else 0) = s.operatorCount := by
  obtain ⟨f, hf, rfl⟩ := deliver_eq hs'
  have hnodup : (s.partitions.members.map Member.number).Nodup := by
    have hall := h.numbers.nodup_iff.mpr List.nodup_range
    rw [Fleet.all, List.map_append] at hall
    exact (List.nodup_append.mp hall).1
  have hsum := Fleet.sum_of_deliver (d := if Daemon.endsOperator e then 1 else 0)
    (fun p => p.operators.length) hf fun m hm m' hstep =>
      (quiet_member (h.quiet hexit m (List.mem_append_left _ hm)) hown hstep).2.2
  rwa [List.count_eq_one_of_mem hnodup hk, Nat.one_mul] at hsum

/-- **Step.** -/
lemma SinceExit.step (hsound : Sound config s) (h : SinceExit s₁ past s)
    (hstep : s.step e = some s') : SinceExit s₁ (past ++ [(s, e)]) s' := by
  have hmoved : Moved (s.shouldExit = false) s s' := by
    refine (step_cases hsound.closed hstep).resolve_left fun hopen => ?_
    exact absurd (h.shouldExit.symm.trans hopen.1) (by simp)
  refine ⟨hmoved.shouldExit.trans h.shouldExit, ?_, ?_⟩
  · -- a disabled queue stays disabled, so that nothing is begun
    refine fun m hm => (hmoved.partitions.forall (I := fun m =>
      m.state.queue.enabledAdmin = false ∧ ∃ m₁ ∈ s₁.partitions.all, m₁.number = m.number ∧
        SameWork m₁.state m.state) (fun m e m' hm hC hst => ?_)
      (fun m hm => ⟨hsound.quiet h.shouldExit m hm, h.work m hm⟩) m hm).2
    obtain ⟨hadmin, m₁, hm₁, hnumber, hwork⟩ := hm
    have hown : ownEvent e.2 = true := hC.resolve_right (by simp [h.shouldExit])
    obtain ⟨hadmin', hsame, _⟩ := quiet_member hadmin hown hst
    refine ⟨hadmin', m₁, hm₁, ?_, hwork.trans hsame⟩
    obtain ⟨state, _, rfl⟩ := Member.of_step hst
    exact hnumber
  · have hcount := h.count
    rw [List.countP_append, List.countP_singleton]
    rcases exited_cases hsound h.shouldExit hstep with ⟨k, now, e, rfl, hown, hk, hs'⟩ |
      ⟨rfl, rfl⟩ | ⟨rfl, _, rfl⟩
    · have hdelivered := operatorCount_deliver hsound h.shouldExit hown hk hs'
      change _ + (if Daemon.endsOperator e then 1 else 0) + _ = _
      omega
    · exact hcount
    · rw [operatorCount_removeIdlePartitions]
      exact hcount

/-- **The shutdown waits for the operators, and for nothing else.**  In every state after `OnExit`,
whatever happened before and since: no workshop partition has claimed or started a job since then,
and the jobs that run now ran then; every configured partition is still there or was deleted, and
then it had no operators; as many operators as are missing have ended.  A partition that is left has
operators, or the deferred check is pending; so if all operators have ended and no check is pending,
all partitions are gone. -/
theorem shutdown_waits {tr' : List (Server × ServerEvent)}
    (hrun : Run Server.step (.create config) tr s₁) (hrun' : Run Server.step s₁.onExit tr' s) :
    (∀ m ∈ s.partitions.all, ∃ m₁ ∈ s₁.partitions.all, m₁.number = m.number ∧
      m.state.claims = m₁.state.claims ∧ m.state.started = m₁.state.started ∧
      (m.state.operators.map fun o => o.job).Sublist (m₁.state.operators.map fun o => o.job)) ∧
    (s.partitions.all.map Member.number).Perm (List.range config.partitions.length) ∧
    (∀ m ∈ s.partitions.retired, m.state.operators = []) ∧
    tr'.countP (fun p => p.2.endsOperator) + s.operatorCount = s₁.operatorCount ∧
    (s.deferIdleCheck = false → ∀ m ∈ s.partitions.members, m.state.operators ≠ []) ∧
    (tr'.countP (fun p => p.2.endsOperator) = s₁.operatorCount → s.deferIdleCheck = false →
      s.partitions.members = []) := by
  have hsound₁ := sound_of_run hrun
  have hexit : s₁.step .exit = some s₁.onExit := rfl
  obtain ⟨hsound, hsince⟩ : Sound config s ∧ SinceExit s₁ tr' s :=
    hrun'.invariant_past (J := fun past s => Sound config s ∧ SinceExit s₁ past s)
      (C := fun _ _ => True) (fun past s e s' h _ hstep => ⟨h.1.step hstep, h.2.step h.1 hstep⟩)
      ⟨hsound₁.step hexit, sinceExit_onExit hsound₁⟩ fun _ _ => trivial
  have hwaits := hsound.waits hsince.shouldExit
  refine ⟨fun m hm => ?_, hsound.numbers, fun m hm => ?_, hsince.count, hwaits,
    fun hall hnone => ?_⟩
  · obtain ⟨m₁, hm₁, hnumber, hwork⟩ := hsince.work m hm
    exact ⟨m₁, hm₁, hnumber, hwork.claims, hwork.started, hwork.jobs⟩
  · simpa [workshopIdle] using hsound.deleted m hm
  · have hcount := hsince.count
    have hzero : s.operatorCount = 0 := by omega
    rw [List.eq_nil_iff_forall_not_mem]
    intro m hm
    have hlength : m.state.operators.length = 0 :=
      List.sum_eq_zero_iff_forall_eq_nat.mp hzero _ (List.mem_map_of_mem hm)
    exact hwaits hnone m hm (List.length_eq_zero_iff.mp hlength)

/-- **Every cron job that was ever started is concluded at the shutdown.**  In every state after
`OnExit` there are no cron partitions any more, and in each of the configured ones every object was
started for a job, then `Finish` and `InsertResult` were called for that job, once, and then it was
removed. -/
theorem shutdown_concludes (hrun : Run Server.step (.create config) tr s)
    (hexit : s.shouldExit = true) :
    s.cronPartitions.members = [] ∧
    (s.cronPartitions.retired.map Member.number).Perm (List.range config.cronPartitions.length) ∧
    ∀ m ∈ s.cronPartitions.retired, ∀ k < m.state.created,
      Cron.Concluded k (Cron.objectLog k m.state.actions) := by
  have hsound := sound_of_run hrun
  have hgone := hsound.gone hexit
  refine ⟨hgone, ?_, fun m hm k hk => ?_⟩
  · have hnumbers := hsound.cronNumbers
    rwa [Fleet.all, hgone, List.nil_append] at hnumbers
  · have hnone : m.state.running = [] := by simpa [cronIdle] using hsound.cronDeleted m hm
    refine (hsound.lives m (List.mem_append_right _ hm)).concluded k hk fun r hr => ?_
    rw [hnone] at hr
    exact absurd hr List.not_mem_nil

end SinceExit

/-- A workshop partition and a cron partition. -/
def oneOfEach : ServerConfig where
  partitions := [("w", Jobs.fourOperators)]
  cronPartitions := [("c", Cron.twoOperators)]

/-- Two workshop jobs and a cron job are started. -/
def threeStarted : List ServerEvent :=
  [.reload 0 Jobs.onePlan fun _ => none, .partition 0 0 (.queue .connect),
    .partition 0 1 (.queue (.timer 1)), .partition 0 1 (.queue .expired),
    .partition 0 1 (.queue (.selected [Jobs.jobRow 1, Jobs.jobRow 2])),
    .partition 0 1 (.row Jobs.claimsRow), .partition 0 1 (.row Jobs.claimsRow),
    .partition 0 1 (.row Jobs.claimsRow), .cronPartition 0 1 .connect,
    .cronPartition 0 1 (.claimTimer [.job (Cron.commandJob 1) (Cron.starts []), .nothing])]

/-- Both workshop jobs end, and then the partition is deleted. -/
def bothEnd : List ServerEvent :=
  [.partition 0 2 (.exit 0 Jobs.onePlan), .partition 0 3 (.exit 0 Jobs.onePlan), .idleCheck]

theorem shutdown_waits_bothEnd : ∃ s₁ s,
    final Server.step (.create oneOfEach) threeStarted = some s₁ ∧
      final Server.step s₁.onExit bothEnd = some s ∧ s₁.operatorCount = 2 ∧
      s.partitions.members.length = 0 ∧ s.partitions.retired.length = 1 ∧
      ∀ m ∈ s.partitions.retired, m.state.operators = [] := by
  have hview : ((final Server.step (.create oneOfEach) threeStarted).bind fun s₁ =>
      (final Server.step s₁.onExit bothEnd).map fun s =>
        (s₁.operatorCount, s.partitions.members.length, s.partitions.retired.length)) =
      some (2, 0, 1) := by decide +kernel
  obtain ⟨s₁, h₁, hview⟩ := Option.bind_eq_some_iff.mp hview
  obtain ⟨s, h, hview⟩ := Option.map_eq_some_iff.mp hview
  simp only [Prod.mk.injEq] at hview
  obtain ⟨hcount, hmembers, hretired⟩ := hview
  exact ⟨s₁, s, h₁, h, hcount, hmembers, hretired,
    (shutdown_waits (.of_final h₁) (.of_final h)).2.2.1⟩

theorem shutdown_concludes_threeStarted : ∃ s,
    final Server.step (.create oneOfEach) (threeStarted ++ [.exit]) = some s ∧
      (s.cronPartitions.retired.map fun m => m.state.created) = [1] ∧
      ∀ m ∈ s.cronPartitions.retired, ∀ k < m.state.created,
        Cron.Concluded k (Cron.objectLog k m.state.actions) := by
  have hview : ((final Server.step (.create oneOfEach) (threeStarted ++ [.exit])).map fun s =>
      (s.shouldExit, s.cronPartitions.retired.map fun m => m.state.created)) =
      some (true, [1]) := by decide +kernel
  obtain ⟨s, h, hview⟩ := Option.map_eq_some_iff.mp hview
  obtain ⟨hexit, hcreated⟩ := Prod.mk.inj hview
  exact ⟨s, h, hcreated, (shutdown_concludes (.of_final h) hexit).2.2⟩

end Workshop.Daemon

import Mathlib.Logic.Function.Basic
import Workshop.Lib.Run
import Workshop.Cron.CalculateNextRun

/-!
# The cron cluster

Any number of cron nodes on one `cronjobs` table, and the clients that edit it.  A node is the
`CronQueue` (`src/cron/Queue.cxx`) with the part of `CronPartition` and `CronWorkplace` it works
with: the state of the connection and of the three switches, the two timers, the notifications on
their way to it, and the `Running` objects.  The partitions are not sticky; what stickiness adds to
a queue is in `Workshop.Cron.ClaimLoop` and `Workshop.Daemon.StickyPlacement`.

A node handles one event of its event loop at a time, but a handler is not atomic: between two
SQL statements every other node and every client may act.  `Handler` says where inside
`RunScheduler` or `RunClaim` a node is, with what it has read so far, and `resume` goes on to the
next statement.  So one step executes at most one statement (`CronNode.statement`), and what it
does to the node (`CronNode.step`) depends on the answer.  A statement can also fail while the
connection stays (`fail`): its exception leaves the handler, or the row or the job it is about.

What a step can do to the table is said once, in `Executes` and `step_table`; what it can do to
the other nodes is `step_other`.
-/

namespace Workshop.Cron

open Workshop.Lib

/-! ## The state of a node -/

/-- `CronJob`, without the sticky id. -/
structure CronJob where
  id : ℕ
  accountId : String
  command : String
  translateParam : String
  notification : String
  timeout : ℤ := 0
  deriving DecidableEq, Repr

/-- The job `CheckPending` makes of the row; a `NULL` is read as the empty string. -/
def CronJob.ofRow (r : CronRow) : CronJob where
  id := r.id
  accountId := r.accountId
  command := r.command
  translateParam := r.translateParam.getD ""
  notification := r.notification.getD ""

/-- `CronWorkplace::Running`: the job, when it was started, and when it will be killed. -/
structure Running where
  job : CronJob
  startTime2 : ℤ
  timeoutEvent : Option ℤ
  deriving DecidableEq, Repr

/-- Where a node is inside a handler: in front of `select_jobs_for_scheduling`, at a row of its
result, in front of `update_next_run` for that row, in front of `find_earliest_pending`, in front
of `check_pending`, or in front of `claim_job` for the job it has read. -/
inductive Handler
  | idle
  | select
  | schedule (row : ScheduleRow) (rest : List ScheduleRow)
  | update (row : ScheduleRow) (schedule : CronSchedule) (delay : ℤ) (rest : List ScheduleRow)
  | find
  | check
  | claim (job : CronJob)
  deriving DecidableEq, Repr

/-- `CronSchedule::Next` never returns. -/
def Handler.hangs : Handler → Bool
  | .update row s delay _ => (nextRunOf s row delay).isNone
  | _ => false

/-- A node.  Timers are pending or not; `notifies` are the notifications PostgreSQL has sent and
the node has not handled yet. -/
structure CronNode where
  ready : Bool := false
  enabledState : Bool := false
  enabledAdmin : Bool := true
  disabledFull : Bool := false
  schedulerTimer : Bool := false
  claimTimer : Bool := false
  nextExpireCheck : Option ℤ := none
  notifies : List Channel := []
  handler : Handler := .idle
  running : List Running := []
  deriving DecidableEq, Repr

/-- What the nodes of a cluster are configured with. -/
structure Cluster where
  zones : String → Option Zone
  defaultTimeout : String → ℤ
  concurrency : String → ℕ

/-- The statements that change the table, with their parameters. -/
inductive Statement
  | releaseStale (node : String)
  | expireJobs (node : String) (now : ℤ)
  | makeRandomDelay (id : ℕ) (schedule : String) (delay range : ℤ)
  | updateNextRun (id : ℕ) (schedule : String) (lastRun : Option ℤ) (nextRun : Timestamp)
  | claimJob (id : ℕ) (node : String) (timeout now : ℤ)
  | finishJob (id : ℕ) (node : String) (now : ℤ)
  | editJob (id : ℕ) (e : Edit)

/-- The `UPDATE` of a statement. -/
def Statement.update (zones : String → Option Zone) : Statement → CronUpdate
  | .releaseStale node => Cron.releaseStale node
  | .expireJobs node now => Cron.expireJobs node now
  | .makeRandomDelay id schedule delay range => Cron.makeRandomDelay id schedule delay range
  | .updateNextRun id schedule lastRun nextRun =>
      Cron.updateNextRun zones id schedule lastRun nextRun
  | .claimJob id node timeout now => Cron.claimJob id node timeout now
  | .finishJob id node now => Cron.finishJob id node now
  | .editJob id e => Cron.editJob id e

namespace Statement

def isReleaseStale : Statement → Bool
  | .releaseStale .. => true
  | _ => false

def isExpireJobs : Statement → Bool
  | .expireJobs .. => true
  | _ => false

def isMakeRandomDelay : Statement → Bool
  | .makeRandomDelay .. => true
  | _ => false

def isUpdateNextRun : Statement → Bool
  | .updateNextRun .. => true
  | _ => false

def isClaimJob : Statement → Bool
  | .claimJob .. => true
  | _ => false

def isFinishJob : Statement → Bool
  | .finishJob .. => true
  | _ => false

def isEditJob : Statement → Bool
  | .editJob .. => true
  | _ => false

end Statement

/-- The interval `Claim` passes to `claim_job`, "5 minutes". -/
def leaseTimeout : ℤ := 5 * minute

namespace CronNode

variable (cl : Cluster) (name : String) (table : CronTable) (now : ℤ) (node : CronNode)

/-- `IsEnabled`. -/
def isEnabled : Bool := node.enabledState && node.enabledAdmin && !node.disabledFull

/-- `CheckEnabled`, once the connection is established; connecting is an event of its own. -/
def checkEnabled : CronNode :=
  if node.isEnabled && node.ready then { node with claimTimer := true } else node

/-- `SetStateEnabled`. -/
def setStateEnabled (enabled : Bool) : CronNode :=
  if enabled = node.enabledState then node
  else { node with enabledState := enabled }.checkEnabled

/-- `EnableAdmin`. -/
def enableAdmin : CronNode :=
  if node.enabledAdmin then node else { node with enabledAdmin := true }.checkEnabled

/-- `DisableAdmin`. -/
def disableAdmin : CronNode := { node with enabledAdmin := false }

/-- `EnableFull`. -/
def enableFull : CronNode :=
  if node.disabledFull then { node with disabledFull := false }.checkEnabled else node

/-- `OnConnect`, whose `ReleaseStale` is the statement of the step. -/
def onConnect : CronNode :=
  { node with ready := true, notifies := [], schedulerTimer := true, claimTimer := true }

/-- `OnDisconnect`; a handler that was going on ends with the exception of its statement. -/
def onDisconnect : CronNode :=
  { node with
    ready := false, notifies := [], schedulerTimer := false, claimTimer := false,
    handler := .idle }

/-- `OnNotify`. -/
def onNotify : Channel → CronNode
  | .cronjobsModified => { node with schedulerTimer := true }
  | .cronjobsScheduled => { node with claimTimer := true }

/-- PostgreSQL sends the notifications to a node that listens. -/
def receive (channels : List Channel) : CronNode :=
  if node.ready then { node with notifies := node.notifies ++ channels } else node

/-- `now >= next_expire_check`. -/
def expireDue : Bool := node.nextExpireCheck.all fun t => t ≤ now

/-- The next row of `CalculateNextRun`; after the last one, `ScheduleScheduler(false)`. -/
def advance : List ScheduleRow → CronNode
  | [] => { node with handler := .idle, schedulerTimer := true }
  | row :: rest => { node with handler := .schedule row rest }

/-- The end of `RunClaim`: `ScheduleClaim`. -/
def scheduleClaim : CronNode := { node with handler := .idle, claimTimer := true }

/-- The end of `CheckPending` after the callback: the loop of `RunClaim` goes on unless the queue
was disabled. -/
def continueClaim : CronNode :=
  if node.isEnabled then { node with handler := .find } else node.scheduleClaim

/-- `CronWorkplace::Start` and `Running::Start`, for a job whose timeout is the default unless it
has its own. -/
def startedJob (job : CronJob) : Running :=
  let timeout := if job.timeout ≤ 0 then cl.defaultTimeout name else job.timeout
  { job := { job with timeout }, startTime2 := now,
    timeoutEvent := if 0 < timeout then some (now + timeout) else none }

/-- `OnJob` after a successful `Claim`: the job is started, and `DisableFull` if that was the last
free slot. -/
def onJob (job : CronJob) : CronNode :=
  { node with
    running := node.running ++ [startedJob cl name now job]
    disabledFull := node.disabledFull || cl.concurrency name ≤ node.running.length + 1 }

/-- `CronWorkplace::OnCompletion` and `OnChildProcessExit`. -/
def onCompletion (i : ℕ) : CronNode :=
  let node := { node with running := node.running.eraseIdx i }
  if node.running.length < cl.concurrency name then node.enableFull else node

/-! ## Statements -/

/-- `make_random_delay` as `MakeRandomDelay` executes it for a selected row. -/
def delayStatement (draw : ℕ) (row : ScheduleRow) (schedule : CronSchedule) : Statement :=
  .makeRandomDelay row.id row.schedule (randomSeconds schedule.delayRange draw) schedule.delayRange

/-- The `UPDATE` the handler is in front of. -/
def handlerStatement (draw : ℕ) : Handler → Option Statement
  | .schedule row _ =>
    match CronSchedule.parse row.schedule with
    | .error _ => none
    | .ok schedule =>
      if needsDelay row schedule then some (delayStatement draw row schedule) else none
  | .update row schedule delay _ =>
    (nextRunOf schedule row delay).map (.updateNextRun row.id row.schedule row.lastRun)
  | .claim job => some (.claimJob job.id name leaseTimeout now)
  | _ => none

/-- Go on with the handler, up to and with its next statement; `none` if there is nothing to go on
with or `CronSchedule::Next` hangs. -/
def resume (draw : ℕ) : Option CronNode :=
  match node.handler with
  | .idle => none
  | .select =>
    match selectJobsForScheduling cl.zones table now with
    -- the exception leaves `RunScheduler`, which logs it
    | none => some { node with handler := .idle }
    | some [] => some { node with handler := .idle }
    | some (row :: rest) => some { node with handler := .schedule row rest }
  | .schedule row rest =>
    match CronSchedule.parse row.schedule with
    | .error _ => some (node.advance rest)
    | .ok schedule =>
      if needsDelay row schedule then
        -- `throw LostRace{}`
        if table.affected ((delayStatement draw row schedule).update cl.zones) = 0 then
          some (node.advance rest)
        else some { node with
          handler := .update row schedule (randomSeconds schedule.delayRange draw) rest }
      else some { node with handler := .update row schedule (row.delay.getD 0) rest }
  | .update row schedule delay rest =>
    if (nextRunOf schedule row delay).isNone then none else some (node.advance rest)
  | .find =>
    match findEarliestPending table now with
    | none => some { node with handler := .idle }
    | some delta =>
      if 0 < delta then some node.scheduleClaim else some { node with handler := .check }
  | .check =>
    if node.isEnabled then
      match checkPending table now with
      | none => some node.scheduleClaim
      | some r => some { node with handler := .claim (.ofRow r) }
    else some node.scheduleClaim
  | .claim job =>
    if table.affected (claimJob job.id name leaseTimeout now) = 0 then some node.continueClaim
    else some (node.onJob cl name now job).continueClaim

/-- The next statement of the handler fails, and the connection stays; `none` if there is no such
statement. -/
def fail : Option CronNode :=
  match node.handler with
  | .idle => none
  -- the exception leaves `RunScheduler`
  | .select => some { node with handler := .idle }
  -- the exception is about one row
  | .schedule row rest =>
    match CronSchedule.parse row.schedule with
    | .error _ => none
    | .ok schedule => if needsDelay row schedule then some (node.advance rest) else none
  | .update row schedule delay rest =>
    if (nextRunOf schedule row delay).isNone then none else some (node.advance rest)
  -- the exception leaves `RunClaim`
  | .find => some { node with handler := .idle }
  | .check => if node.isEnabled then some { node with handler := .idle } else none
  -- `Claim` returns `false`
  | .claim _ => some node.continueClaim

end CronNode

/-- What can happen to a node.  `resume` is the next statement of the handler, with the number the
random generator yields; with `failed` the statement fails, and with `lost` the connection breaks
after the statement took effect and before its answer arrived.  `expireFailed` is the scheduler
timer with an `expire_jobs` that fails.  `translated` is the answer of the translation server for a
running job, `complete` the end of a job (or its cancellation), `timeout` its kill timer, and
`finishFailed` an end whose `finish_job` fails. -/
inductive NodeEvent
  | connect
  | disconnect
  | setStateEnabled (enabled : Bool)
  | enableAdmin
  | disableAdmin
  | schedulerTimer
  | expireFailed
  | claimTimer
  | notify
  | resume (draw : ℕ)
  | failed
  | lost (draw : ℕ)
  | translated (i : ℕ) (timeout : ℤ)
  | complete (i : ℕ)
  | timeout (i : ℕ)
  | finishFailed (i : ℕ)
  deriving DecidableEq, Repr

/-- The `Running` object that an event ends. -/
def NodeEvent.ends : NodeEvent → Option ℕ
  | .complete i | .timeout i | .finishFailed i => some i
  | _ => none

namespace CronNode

/-- The `UPDATE` a node executes in a step.  `Finish` without a connection fails. -/
def statement (name : String) (now : ℤ) (node : CronNode) :
    NodeEvent → Option Statement
  | .connect => some (.releaseStale name)
  | .schedulerTimer => if node.expireDue now then some (.expireJobs name now) else none
  | .resume draw | .lost draw => handlerStatement name now draw node.handler
  | .complete i | .timeout i =>
    if node.ready then node.running[i]?.map fun r => .finishJob r.job.id name now else none
  | _ => none

/-- What a step makes of the node itself.  An event of the event loop needs an idle node; only a
job that fails to start completes while `RunClaim` goes on. -/
def step (cl : Cluster) (name : String) (table : CronTable) (now : ℤ) (node : CronNode) :
    NodeEvent → Option CronNode
  | .connect => if node.handler = .idle ∧ node.ready = false then some node.onConnect else none
  | .disconnect => if node.ready && !node.handler.hangs then some node.onDisconnect else none
  | .setStateEnabled enabled =>
    if node.handler = .idle then some (node.setStateEnabled enabled) else none
  | .enableAdmin => if node.handler = .idle then some node.enableAdmin else none
  | .disableAdmin => if node.handler = .idle then some node.disableAdmin else none
  | .schedulerTimer =>
    if node.handler = .idle ∧ node.schedulerTimer then
      some { node with
        schedulerTimer := false
        nextExpireCheck := if node.expireDue now then some (now + minute) else node.nextExpireCheck
        handler := .select }
    else none
  -- the exception leaves `RunScheduler`
  | .expireFailed =>
    if node.handler = .idle ∧ node.schedulerTimer ∧ node.expireDue now then
      some { node with schedulerTimer := false, nextExpireCheck := some (now + minute) }
    else none
  | .claimTimer =>
    if node.handler = .idle ∧ node.claimTimer then
      some { node with
        claimTimer := false
        handler := if node.isEnabled then .find else .idle }
    else none
  | .notify =>
    match node.handler, node.notifies with
    | .idle, channel :: rest => some ({ node with notifies := rest }.onNotify channel)
    | _, _ => none
  | .resume draw => node.resume cl name table now draw
  | .failed => node.fail
  | .lost draw => (node.resume cl name table now draw).map fun _ => node.onDisconnect
  | .translated i timeout =>
    if node.handler = .idle then
      node.running[i]?.map fun r =>
        if 0 < timeout then
          { node with
            running := node.running.set i { r with timeoutEvent := some (now + timeout) } }
        else node
    else none
  | .complete i =>
    if node.handler = .idle ∨ node.handler = .find then
      node.running[i]?.map fun _ => node.onCompletion cl name i
    else none
  | .timeout i =>
    if node.handler = .idle then
      (node.running[i]?.filter fun r => r.timeoutEvent.any fun t => t ≤ now).map fun _ =>
        node.onCompletion cl name i
    else none
  | .finishFailed i =>
    if node.ready ∧ (node.handler = .idle ∨ node.handler = .find) then
      node.running[i]?.map fun _ => node.onCompletion cl name i
    else none

end CronNode

/-! ## The cluster -/

/-- The state of the whole system. -/
structure State where
  table : CronTable
  now : ℤ
  nodes : String → CronNode

/-- What can happen: time passes, a client inserts, edits or deletes a job, a node does
something. -/
inductive Event
  | tick (d : ℕ)
  | insert (r : CronRow)
  | edit (id : ℕ) (e : Edit)
  | delete (id : ℕ)
  | node (name : String) (e : NodeEvent)
  deriving DecidableEq, Repr

/-- The `UPDATE` an event executes. -/
def Event.statement (s : State) : Event → Option Statement
  | .edit id e => some (.editJob id e)
  | .node n e => (s.nodes n).statement n s.now e
  | _ => none

/-- The notifications the rules of the table send in a step. -/
def Event.notifies (cl : Cluster) (s : State) (e : Event) : List Channel :=
  match e with
  | .insert r => insertNotifies r
  | _ =>
    match e.statement s with
    | none => []
    | some st => updateNotifies s.table (st.update cl.zones)

/-- Every listening node gets the notifications. -/
def State.broadcast (s : State) (channels : List Channel) : State :=
  { s with nodes := fun n => (s.nodes n).receive channels }

/-- The effect of the `UPDATE` of an event on the table. -/
def State.tableAfter (cl : Cluster) (s : State) (e : Event) : CronTable :=
  s.table.tableAfter ((e.statement s).map fun st => st.update cl.zones)

/-- One step of the system.  A client inserts jobs that have no calculated columns, and deletes
only jobs that are not running. -/
def step (cl : Cluster) (s : State) (e : Event) : Option State :=
  match e with
  | .tick d => some { s with now := s.now + d }
  | .insert r =>
    if IsNew r then
      (s.table.insert r).map fun t => { s with table := t }.broadcast (e.notifies cl s)
    else none
  | .edit _ _ => some ({ s with table := s.tableAfter cl e }.broadcast (e.notifies cl s))
  | .delete id => some { s with table := s.table.delete fun r => r.id == id && r.nodeName.isNone }
  | .node n ev =>
    ((s.nodes n).step cl n s.table s.now ev).map fun node =>
      { s with table := s.tableAfter cl e, nodes := Function.update s.nodes n node }.broadcast
        (e.notifies cl s)

/-! ## What a step can do -/

section Inversion

variable {cl : Cluster} {s t : State} {e : Event}

@[simp] lemma CronNode.receive_handler (node : CronNode) (channels : List Channel) :
    (node.receive channels).handler = node.handler := by
  unfold CronNode.receive
  split <;> rfl

@[simp] lemma CronNode.receive_running (node : CronNode) (channels : List Channel) :
    (node.receive channels).running = node.running := by
  unfold CronNode.receive
  split <;> rfl

@[simp] lemma CronNode.receive_ready (node : CronNode) (channels : List Channel) :
    (node.receive channels).ready = node.ready := by
  unfold CronNode.receive
  split <;> rfl

@[simp] lemma CronNode.receive_isEnabled (node : CronNode) (channels : List Channel) :
    (node.receive channels).isEnabled = node.isEnabled := by
  unfold CronNode.receive
  split <;> rfl

@[simp] lemma CronNode.receive_schedulerTimer (node : CronNode) (channels : List Channel) :
    (node.receive channels).schedulerTimer = node.schedulerTimer := by
  unfold CronNode.receive
  split <;> rfl

@[simp] lemma CronNode.receive_claimTimer (node : CronNode) (channels : List Channel) :
    (node.receive channels).claimTimer = node.claimTimer := by
  unfold CronNode.receive
  split <;> rfl

lemma CronNode.receive_nil (node : CronNode) : node.receive [] = node := by
  unfold CronNode.receive
  simp

/-- A ready node has the notifications it had, and those that were sent. -/
lemma CronNode.mem_receive {node : CronNode} (hready : node.ready = true) {channels : List Channel}
    {channel : Channel} : channel ∈ (node.receive channels).notifies ↔
      channel ∈ node.notifies ∨ channel ∈ channels := by
  simp [CronNode.receive, hready]

/-- The clock never goes back. -/
lemma now_le_of_step (h : step cl s e = some t) : s.now ≤ t.now := by
  unfold step at h
  split at h
  · obtain rfl := Option.some.inj h
    simp
  · split at h
    · obtain ⟨_, _, rfl⟩ := Option.map_eq_some_iff.mp h
      exact le_refl _
    · exact absurd h (by simp)
  · obtain rfl := Option.some.inj h
    exact le_refl _
  · obtain rfl := Option.some.inj h
    exact le_refl _
  · obtain ⟨_, _, rfl⟩ := Option.map_eq_some_iff.mp h
    exact le_refl _

/-- **What a step does to the table.**  It inserts a new job, deletes jobs that are not running, or
executes its `UPDATE`, if it has one. -/
lemma step_table (h : step cl s e = some t) :
    (∃ r, e = .insert r ∧ IsNew r ∧ s.table.insert r = some t.table) ∨
      (∃ id, e = .delete id ∧
        t.table = s.table.delete fun r => r.id == id && r.nodeName.isNone) ∨
      t.table = s.tableAfter cl e := by
  unfold step at h
  split at h
  · obtain rfl := Option.some.inj h
    exact .inr (.inr rfl)
  · rename_i r
    split at h
    · rename_i hnew
      obtain ⟨t', ht', rfl⟩ := Option.map_eq_some_iff.mp h
      exact .inl ⟨r, rfl, hnew, ht'⟩
    · exact absurd h (by simp)
  · obtain rfl := Option.some.inj h
    exact .inr (.inr rfl)
  · rename_i id
    obtain rfl := Option.some.inj h
    exact .inr (.inl ⟨id, rfl, rfl⟩)
  · obtain ⟨_, _, rfl⟩ := Option.map_eq_some_iff.mp h
    exact .inr (.inr rfl)

/-- **What a step does to the other nodes**: they are notified. -/
lemma step_other (h : step cl s e = some t) {m : String} (hm : ∀ ev, e ≠ .node m ev) :
    t.nodes m = (s.nodes m).receive (e.notifies cl s) := by
  unfold step at h
  split at h
  · obtain rfl := Option.some.inj h
    exact (CronNode.receive_nil _).symm
  · split at h
    · obtain ⟨_, _, rfl⟩ := Option.map_eq_some_iff.mp h
      rfl
    · exact absurd h (by simp)
  · obtain rfl := Option.some.inj h
    rfl
  · obtain rfl := Option.some.inj h
    exact (CronNode.receive_nil _).symm
  · rename_i n ev
    obtain ⟨node, _, rfl⟩ := Option.map_eq_some_iff.mp h
    have hne : m ≠ n := fun heq => hm ev (by rw [heq])
    simp [State.broadcast, Function.update_of_ne hne]

/-- **What a step does to its own node.** -/
lemma step_self {n : String} {ev : NodeEvent} (h : step cl s (.node n ev) = some t) :
    ∃ node, (s.nodes n).step cl n s.table s.now ev = some node ∧
      t.nodes n = node.receive (Event.notifies cl s (.node n ev)) ∧ t.now = s.now := by
  simp only [step] at h
  obtain ⟨node, hnode, rfl⟩ := Option.map_eq_some_iff.mp h
  exact ⟨node, hnode, by simp [State.broadcast], rfl⟩

/-- A step either is one of the node `m` or only notifies it. -/
lemma step_node_cases (h : step cl s e = some t) (m : String) :
    (∃ ev node, e = .node m ev ∧ (s.nodes m).step cl m s.table s.now ev = some node ∧
      t.nodes m = node.receive (e.notifies cl s)) ∨
      t.nodes m = (s.nodes m).receive (e.notifies cl s) := by
  by_cases hm : ∃ ev, e = .node m ev
  · obtain ⟨ev, rfl⟩ := hm
    obtain ⟨node, hnode, heq, _⟩ := step_self h
    exact .inl ⟨ev, node, rfl, hnode, heq⟩
  · exact .inr (step_other h fun ev hev => hm ⟨ev, hev⟩)

/-- **The statements of a node**, each with the handler or the job it comes from. -/
inductive Executes (name : String) (now : ℤ) (node : CronNode) : NodeEvent → Statement → Prop
  | releaseStale : Executes name now node .connect (.releaseStale name)
  | expireJobs : Executes name now node .schedulerTimer (.expireJobs name now)
  | makeRandomDelay {ev : NodeEvent} {draw : ℕ} {row : ScheduleRow} {rest : List ScheduleRow}
      {schedule : CronSchedule} :
      ev = .resume draw ∨ ev = .lost draw → node.handler = .schedule row rest →
      CronSchedule.parse row.schedule = .ok schedule → needsDelay row schedule = true →
      Executes name now node ev (CronNode.delayStatement draw row schedule)
  | updateNextRun {ev : NodeEvent} {draw : ℕ} {row : ScheduleRow} {rest : List ScheduleRow}
      {schedule : CronSchedule} {delay : ℤ} {nextRun : Timestamp} :
      ev = .resume draw ∨ ev = .lost draw → node.handler = .update row schedule delay rest →
      nextRunOf schedule row delay = some nextRun →
      Executes name now node ev (.updateNextRun row.id row.schedule row.lastRun nextRun)
  | claimJob {ev : NodeEvent} {draw : ℕ} {job : CronJob} :
      ev = .resume draw ∨ ev = .lost draw → node.handler = .claim job →
      Executes name now node ev (.claimJob job.id name leaseTimeout now)
  | finishJob {ev : NodeEvent} {i : ℕ} {r : Running} :
      ev = .complete i ∨ ev = .timeout i → node.running[i]? = some r →
      Executes name now node ev (.finishJob r.job.id name now)

lemma executes_of_handlerStatement {name : String} {now : ℤ} {node : CronNode} {ev : NodeEvent}
    {draw : ℕ} {st : Statement} (hev : ev = .resume draw ∨ ev = .lost draw)
    (h : CronNode.handlerStatement name now draw node.handler = some st) :
    Executes name now node ev st := by
  unfold CronNode.handlerStatement at h
  split at h
  · rename_i row rest hhandler
    split at h
    · exact absurd h (by simp)
    · rename_i schedule hparse
      split at h
      · rename_i hneeds
        obtain rfl := Option.some.inj h
        exact .makeRandomDelay hev hhandler hparse hneeds
      · exact absurd h (by simp)
  · rename_i row schedule delay rest hhandler
    obtain ⟨nextRun, hnext, rfl⟩ := Option.map_eq_some_iff.mp h
    exact .updateNextRun hev hhandler hnext
  · rename_i job hhandler
    obtain rfl := Option.some.inj h
    exact .claimJob hev hhandler
  · exact absurd h (by simp)

lemma executes_of_statement {name : String} {now : ℤ} {node : CronNode} {ev : NodeEvent}
    {st : Statement} (h : node.statement name now ev = some st) : Executes name now node ev st := by
  unfold CronNode.statement at h
  split at h
  · obtain rfl := Option.some.inj h
    exact .releaseStale
  · split at h
    · obtain rfl := Option.some.inj h
      exact .expireJobs
    · exact absurd h (by simp)
  · exact executes_of_handlerStatement (.inl rfl) h
  · exact executes_of_handlerStatement (.inr rfl) h
  · split at h
    · obtain ⟨r, hr, rfl⟩ := Option.map_eq_some_iff.mp h
      exact .finishJob (.inl rfl) hr
    · exact absurd h (by simp)
  · split at h
    · obtain ⟨r, hr, rfl⟩ := Option.map_eq_some_iff.mp h
      exact .finishJob (.inr rfl) hr
    · exact absurd h (by simp)
  · exact absurd h (by simp)

/-- **The statements of the cluster**: those of the clients, and those of the nodes. -/
lemma statement_cases {st : Statement} (h : e.statement s = some st) :
    (∃ id ed, e = .edit id ed ∧ st = .editJob id ed) ∨
      ∃ n ev, e = .node n ev ∧ Executes n s.now (s.nodes n) ev st := by
  unfold Event.statement at h
  split at h
  · rename_i id ed
    exact .inl ⟨id, ed, rfl, (Option.some.inj h).symm⟩
  · rename_i n ev
    exact .inr ⟨n, ev, rfl, executes_of_statement h⟩
  · exact absurd h (by simp)

lemma edit_of_statement {id : ℕ} {ed : Edit} (h : e.statement s = some (.editJob id ed)) :
    e = .edit id ed := by
  obtain ⟨id', ed', rfl, hst⟩ | ⟨n, ev, _, hexec⟩ := statement_cases h
  · obtain ⟨rfl, rfl⟩ := Statement.editJob.inj hst
    rfl
  · cases hexec

/-- What a step makes of one row. -/
def rowAfter (cl : Cluster) (s : State) (e : Event) : CronRow → CronRow :=
  Table.rowAfter ((e.statement s).map fun st => st.update cl.zones)

/-- **What a step does to a row** that is not deleted. -/
lemma step_find? (h : step cl s e = some t) {j : ℕ} {r : CronRow} (hr : s.table.find? j = some r)
    (hdel : e ≠ .delete j) : t.table.find? j = some (rowAfter cl s e r) := by
  obtain ⟨r', rfl, _, hins⟩ | ⟨id, rfl, hd⟩ | hup := step_table h
  · obtain ⟨hfree, hfind⟩ := Table.find?_insert hins j
    have hne : r'.id ≠ j := fun heq => by simp [← heq, hfree] at hr
    rw [hfind, if_neg hne]
    exact hr
  · have hne : r.id ≠ id := fun heq => hdel (by rw [← heq, Table.key_of_find? hr])
    rw [hd, Table.find?_delete, hr, Option.filter_some_pos (by simp [hne])]
    rfl
  · rw [hup, State.tableAfter, Table.find?_tableAfter, hr]
    rfl

/-- Where a row comes from: it was there before the step, or is a new job of a client. -/
lemma find?_step (h : step cl s e = some t) {j : ℕ} {r' : CronRow}
    (hr' : t.table.find? j = some r') :
    (∃ r, s.table.find? j = some r ∧ r' = rowAfter cl s e r) ∨
      (s.table.find? j = none ∧ IsNew r' ∧ e = .insert r') := by
  obtain ⟨a, rfl, hnew, hins⟩ | ⟨id, rfl, hd⟩ | hup := step_table h
  · obtain ⟨hfree, hfind⟩ := Table.find?_insert hins j
    rw [hfind] at hr'
    by_cases ha : a.id = j
    · rw [if_pos ha] at hr'
      obtain rfl := Option.some.inj hr'
      exact .inr ⟨ha ▸ hfree, hnew, rfl⟩
    · rw [if_neg ha] at hr'
      exact .inl ⟨r', hr', rfl⟩
  · rw [hd, Table.find?_delete] at hr'
    exact .inl ⟨r', (Option.filter_eq_some_iff.mp hr').1, rfl⟩
  · rw [hup, State.tableAfter, Table.find?_tableAfter] at hr'
    obtain ⟨r, hr, rfl⟩ := Option.map_eq_some_iff.mp hr'
    exact .inl ⟨r, hr, rfl⟩

/-- The step executes a statement of the given kind, and the row of the job `j` is among those it
updates. -/
def effective (cl : Cluster) (j : ℕ) (kind : Statement → Bool) (p : State × Event) : Bool :=
  (p.2.statement p.1).any fun st =>
    kind st && (p.1.table.find? j).any (st.update cl.zones).cond

lemma effective_iff {j : ℕ} {kind : Statement → Bool} : effective cl j kind (s, e) = true ↔
    ∃ st r, e.statement s = some st ∧ kind st = true ∧ s.table.find? j = some r ∧
      (st.update cl.zones).cond r = true := by
  simp only [effective, Option.any_eq_true, Bool.and_eq_true]
  constructor
  · rintro ⟨st, hst, hkind, r, hr, hcond⟩
    exact ⟨st, r, hst, hkind, hr, hcond⟩
  · rintro ⟨st, r, hst, hkind, hr, hcond⟩
    exact ⟨st, hst, hkind, r, hr, hcond⟩

/-- A step leaves a row as it is, or its statement updates it. -/
lemma rowAfter_cases (cl : Cluster) (s : State) (e : Event) (r : CronRow) :
    rowAfter cl s e r = r ∨
      ∃ st, e.statement s = some st ∧ (st.update cl.zones).cond r = true ∧
        rowAfter cl s e r = (st.update cl.zones).set r := by
  obtain h | ⟨u, hu, hcond, hset⟩ :=
    Table.rowAfter_cases ((e.statement s).map fun st => st.update cl.zones) r
  · exact .inl h
  · obtain ⟨st, hst, rfl⟩ := Option.map_eq_some_iff.mp hu
    exact .inr ⟨st, hst, hcond, hset⟩

/-- What a step with a statement that affects the row makes of it. -/
lemma rowAfter_of_statement {st : Statement} {r : CronRow} (hst : e.statement s = some st)
    (hcond : (st.update cl.zones).cond r = true) :
    rowAfter cl s e r = (st.update cl.zones).set r := by
  rw [rowAfter, hst, Option.map_some]
  exact Table.rowAfter_of_cond hcond

lemma rowAfter_of_none (hnone : e.statement s = none) (r : CronRow) : rowAfter cl s e r = r := by
  rw [rowAfter, hnone]
  rfl

/-- The handler of a scheduling pass with these rows left. -/
def rowsHandler : List ScheduleRow → Handler
  | [] => .idle
  | row :: rest => .schedule row rest

lemma rowsHandler_cases (rest : List ScheduleRow) : rowsHandler rest = .idle ∨
    ∃ row rest', rest = row :: rest' ∧ rowsHandler rest = .schedule row rest' := by
  cases rest with
  | nil => exact .inl rfl
  | cons row rest => exact .inr ⟨row, rest, rfl, rfl⟩

lemma CronNode.advance_handler (node : CronNode) (rest : List ScheduleRow) :
    (node.advance rest).handler = rowsHandler rest := by
  cases rest <;> rfl

lemma CronNode.continueClaim_handler (node : CronNode) :
    node.continueClaim.handler = .find ∨ node.continueClaim.handler = .idle := by
  unfold CronNode.continueClaim
  split
  · exact .inl rfl
  · exact .inr rfl

/-- **The moves of `resume`.** -/
inductive Moves (cl : Cluster) (name : String) (table : CronTable) (now : ℤ) (draw : ℕ)
    (node : CronNode) : CronNode → Prop
  | aborted : node.handler = .select → selectJobsForScheduling cl.zones table now = none →
      Moves cl name table now draw node { node with handler := .idle }
  | nothingSelected : node.handler = .select →
      selectJobsForScheduling cl.zones table now = some [] →
      Moves cl name table now draw node { node with handler := .idle }
  | selected {row : ScheduleRow} {rest : List ScheduleRow} : node.handler = .select →
      selectJobsForScheduling cl.zones table now = some (row :: rest) →
      Moves cl name table now draw node { node with handler := .schedule row rest }
  | advanced {row : ScheduleRow} {rest : List ScheduleRow} :
      (node.handler = .schedule row rest ∨
        ∃ schedule delay, node.handler = .update row schedule delay rest) →
      Moves cl name table now draw node (node.advance rest)
  | delayed {row : ScheduleRow} {rest : List ScheduleRow} {schedule : CronSchedule} {delay : ℤ} :
      node.handler = .schedule row rest → CronSchedule.parse row.schedule = .ok schedule →
      (needsDelay row schedule = true ∧ delay = randomSeconds schedule.delayRange draw ∧
          0 < table.affected ((CronNode.delayStatement draw row schedule).update cl.zones)) ∨
        (needsDelay row schedule = false ∧ delay = row.delay.getD 0) →
      Moves cl name table now draw node { node with handler := .update row schedule delay rest }
  | nothingPending : node.handler = .find → findEarliestPending table now = none →
      Moves cl name table now draw node { node with handler := .idle }
  | scheduledClaim : node.handler = .find ∨ node.handler = .check →
      Moves cl name table now draw node node.scheduleClaim
  | pending : node.handler = .find →
      Moves cl name table now draw node { node with handler := .check }
  | checked {r : CronRow} : node.handler = .check → checkPending table now = some r →
      Moves cl name table now draw node { node with handler := .claim (.ofRow r) }
  | lostRace {job : CronJob} : node.handler = .claim job →
      table.affected (claimJob job.id name leaseTimeout now) = 0 →
      Moves cl name table now draw node node.continueClaim
  | claimed {job : CronJob} : node.handler = .claim job →
      0 < table.affected (claimJob job.id name leaseTimeout now) →
      Moves cl name table now draw node (node.onJob cl name now job).continueClaim

lemma moves_of_resume {name : String} {table : CronTable} {now : ℤ} {draw : ℕ}
    {node node' : CronNode} (h : node.resume cl name table now draw = some node') :
    Moves cl name table now draw node node' := by
  unfold CronNode.resume at h
  split at h
  · exact absurd h (by simp)
  · rename_i hhandler
    split at h <;> rename_i hsel <;> obtain rfl := Option.some.inj h
    · exact .aborted hhandler hsel
    · exact .nothingSelected hhandler hsel
    · exact .selected hhandler hsel
  · rename_i row rest hhandler
    split at h
    · obtain rfl := Option.some.inj h
      exact .advanced (.inl hhandler)
    · rename_i schedule hparse
      by_cases hneeds : needsDelay row schedule = true
      · rw [if_pos hneeds] at h
        split at h <;> rename_i haff <;> obtain rfl := Option.some.inj h
        · exact .advanced (.inl hhandler)
        · exact .delayed hhandler hparse (.inl ⟨hneeds, rfl, Nat.pos_of_ne_zero haff⟩)
      · rw [if_neg hneeds] at h
        obtain rfl := Option.some.inj h
        exact .delayed hhandler hparse (.inr ⟨by simpa using hneeds, rfl⟩)
  · rename_i row schedule delay rest hhandler
    split at h
    · exact absurd h (by simp)
    · obtain rfl := Option.some.inj h
      exact .advanced (.inr ⟨schedule, delay, hhandler⟩)
  · rename_i hhandler
    split at h
    · rename_i hfind
      obtain rfl := Option.some.inj h
      exact .nothingPending hhandler hfind
    · split at h <;> obtain rfl := Option.some.inj h
      · exact .scheduledClaim (.inl hhandler)
      · exact .pending hhandler
  · rename_i hhandler
    split at h
    · split at h
      · obtain rfl := Option.some.inj h
        exact .scheduledClaim (.inr hhandler)
      · rename_i hcheck
        obtain rfl := Option.some.inj h
        exact .checked hhandler hcheck
    · obtain rfl := Option.some.inj h
      exact .scheduledClaim (.inr hhandler)
  · rename_i job hhandler
    split at h <;> rename_i haff <;> obtain rfl := Option.some.inj h
    · exact .lostRace hhandler haff
    · exact .claimed hhandler (Nat.pos_of_ne_zero haff)

/-- **What a failed statement does.** -/
inductive Fails (node : CronNode) : CronNode → Prop
  | aborted : node.handler = .select ∨ node.handler = .find ∨ node.handler = .check →
      Fails node { node with handler := .idle }
  | advanced {row : ScheduleRow} {rest : List ScheduleRow} :
      (node.handler = .schedule row rest ∨
        ∃ schedule delay, node.handler = .update row schedule delay rest) →
      Fails node (node.advance rest)
  | unclaimed {job : CronJob} : node.handler = .claim job → Fails node node.continueClaim

lemma fails_of_fail {node node' : CronNode} (h : node.fail = some node') : Fails node node' := by
  unfold CronNode.fail at h
  split at h
  · exact absurd h (by simp)
  · rename_i hhandler
    obtain rfl := Option.some.inj h
    exact .aborted (.inl hhandler)
  · rename_i row rest hhandler
    split at h
    · exact absurd h (by simp)
    · obtain ⟨_, rfl⟩ := of_guard h
      exact .advanced (.inl hhandler)
  · rename_i row schedule delay rest hhandler
    obtain ⟨_, rfl⟩ := of_guard_not h
    exact .advanced (.inr ⟨schedule, delay, hhandler⟩)
  · rename_i hhandler
    obtain rfl := Option.some.inj h
    exact .aborted (.inr (.inl hhandler))
  · rename_i hhandler
    obtain ⟨_, rfl⟩ := of_guard h
    exact .aborted (.inr (.inr hhandler))
  · rename_i job hhandler
    obtain rfl := Option.some.inj h
    exact .unclaimed hhandler

@[simp] lemma CronNode.checkEnabled_handler (node : CronNode) :
    node.checkEnabled.handler = node.handler := by
  unfold CronNode.checkEnabled
  split <;> rfl

@[simp] lemma CronNode.enableFull_handler (node : CronNode) :
    node.enableFull.handler = node.handler := by
  unfold CronNode.enableFull
  split
  · rw [CronNode.checkEnabled_handler]
  · rfl

@[simp] lemma CronNode.onCompletion_handler (node : CronNode) (cl : Cluster) (name : String)
    (i : ℕ) :
    (node.onCompletion cl name i).handler = node.handler := by
  simp only [CronNode.onCompletion]
  split
  · rw [CronNode.enableFull_handler]
  · rfl

/-- **What a step does to the handler of its node**: `resume` moves on, a failed statement may go
on to the next row, and every other event leaves the node idle or at the start of a handler. -/
lemma CronNode.step_handler {name : String} {table : CronTable} {now : ℤ} {node node' : CronNode}
    {ev : NodeEvent} (h : node.step cl name table now ev = some node') :
    (∃ draw, ev = .resume draw ∧ Moves cl name table now draw node node') ∨
      (∃ row rest, (node.handler = .schedule row rest ∨
        ∃ schedule delay, node.handler = .update row schedule delay rest) ∧
        node'.handler = rowsHandler rest) ∨
      node'.handler = .idle ∨ node'.handler = .select ∨ node'.handler = .find := by
  suffices hother : (∀ draw, ev ≠ .resume draw) → ev ≠ .failed →
      node'.handler = .idle ∨ node'.handler = .select ∨ node'.handler = .find by
    cases ev with
    | resume draw => exact .inl ⟨draw, rfl, moves_of_resume h⟩
    | failed =>
        cases fails_of_fail h with
        | aborted _ => exact .inr (.inr (.inl rfl))
        | @advanced row rest hhandler =>
            exact .inr (.inl ⟨row, rest, hhandler, CronNode.advance_handler node rest⟩)
        | unclaimed _ =>
            obtain hfind | hidle := node.continueClaim_handler
            · exact .inr (.inr (.inr (.inr hfind)))
            · exact .inr (.inr (.inl hidle))
    | _ => exact .inr (.inr (hother (by simp) (by simp)))
  intro hresume hfailed
  unfold CronNode.step at h
  split at h
  · obtain ⟨⟨hidle, _⟩, rfl⟩ := of_guard h
    exact .inl hidle
  · obtain ⟨_, rfl⟩ := of_guard h
    exact .inl rfl
  · obtain ⟨hidle, rfl⟩ := of_guard h
    refine .inl ?_
    unfold CronNode.setStateEnabled
    split
    · exact hidle
    · rw [CronNode.checkEnabled_handler]
      exact hidle
  · obtain ⟨hidle, rfl⟩ := of_guard h
    refine .inl ?_
    unfold CronNode.enableAdmin
    split
    · exact hidle
    · rw [CronNode.checkEnabled_handler]
      exact hidle
  · obtain ⟨hidle, rfl⟩ := of_guard h
    exact .inl hidle
  · obtain ⟨_, rfl⟩ := of_guard h
    exact .inr (.inl rfl)
  · obtain ⟨⟨hidle, _⟩, rfl⟩ := of_guard h
    exact .inl hidle
  · obtain ⟨_, rfl⟩ := of_guard h
    by_cases hen : node.isEnabled = true
    · exact .inr (.inr (by simp [hen]))
    · exact .inl (by simp [hen])
  · split at h
    · rename_i channel rest hidle _
      obtain rfl := Option.some.inj h
      refine .inl ?_
      cases channel <;> exact hidle
    · exact absurd h (by simp)
  · exact absurd rfl (hresume _)
  · exact absurd rfl hfailed
  · obtain ⟨_, _, rfl⟩ := Option.map_eq_some_iff.mp h
    exact .inl rfl
  · obtain ⟨hidle, h⟩ := Option.ite_none_right_eq_some.mp h
    obtain ⟨_, _, rfl⟩ := Option.map_eq_some_iff.mp h
    refine .inl ?_
    split <;> exact hidle
  · obtain ⟨hidle, h⟩ := Option.ite_none_right_eq_some.mp h
    obtain ⟨_, _, rfl⟩ := Option.map_eq_some_iff.mp h
    rw [CronNode.onCompletion_handler]
    rcases hidle with hidle | hfind
    · exact .inl hidle
    · exact .inr (.inr hfind)
  · obtain ⟨hidle, h⟩ := Option.ite_none_right_eq_some.mp h
    obtain ⟨_, _, rfl⟩ := Option.map_eq_some_iff.mp h
    rw [CronNode.onCompletion_handler]
    exact .inl hidle
  · obtain ⟨⟨_, hidle⟩, h⟩ := Option.ite_none_right_eq_some.mp h
    obtain ⟨_, _, rfl⟩ := Option.map_eq_some_iff.mp h
    rw [CronNode.onCompletion_handler]
    rcases hidle with hidle | hfind
    · exact .inl hidle
    · exact .inr (.inr hfind)

/-! ### The running jobs -/

@[simp] lemma CronNode.checkEnabled_running (node : CronNode) :
    node.checkEnabled.running = node.running := by
  unfold CronNode.checkEnabled
  split <;> rfl

@[simp] lemma CronNode.continueClaim_running (node : CronNode) :
    node.continueClaim.running = node.running := by
  unfold CronNode.continueClaim
  split <;> rfl

lemma CronNode.onCompletion_running (node : CronNode) (cl : Cluster) (name : String) (i : ℕ) :
    (node.onCompletion cl name i).running = node.running.eraseIdx i := by
  simp only [CronNode.onCompletion, CronNode.enableFull]
  split
  · split
    · rw [CronNode.checkEnabled_running]
    · rfl
  · rfl

/-- **What a step does to the `Running` objects of its node**: one is started, gets another timeout,
or ends, or they stay. -/
inductive Runs (cl : Cluster) (name : String) (table : CronTable) (now : ℤ) (node : CronNode)
    (ev : NodeEvent) : List Running → Prop
  | claimed {draw : ℕ} {job : CronJob} : ev = .resume draw → node.handler = .claim job →
      0 < table.affected (claimJob job.id name leaseTimeout now) →
      Runs cl name table now node ev (node.running ++ [CronNode.startedJob cl name now job])
  | translated {i : ℕ} {timeout : ℤ} {r : Running} : ev = .translated i timeout → 0 < timeout →
      node.running[i]? = some r →
      Runs cl name table now node ev
        (node.running.set i { r with timeoutEvent := some (now + timeout) })
  | ended {i : ℕ} : ev.ends = some i →
      Runs cl name table now node ev (node.running.eraseIdx i)
  | kept : ev.ends = none →
      (∀ draw job, ev = .resume draw → node.handler = .claim job →
        table.affected (claimJob job.id name leaseTimeout now) = 0) →
      Runs cl name table now node ev node.running

lemma CronNode.resume_running {name : String} {table : CronTable} {now : ℤ} {draw : ℕ}
    {node node' : CronNode} (h : node.resume cl name table now draw = some node') :
    Runs cl name table now node (.resume draw) node'.running := by
  -- no claim, since the handler is another one
  have hother : ∀ {handler : Handler}, node.handler = handler → (∀ job, handler ≠ .claim job) →
      Runs cl name table now node (.resume draw) node.running :=
    fun hhandler hne => .kept rfl
      fun _ job _ hclaim => absurd (hhandler.symm.trans hclaim) (hne job)
  cases moves_of_resume h with
  | claimed hhandler haff =>
      rw [CronNode.continueClaim_running]
      exact .claimed rfl hhandler haff
  | @lostRace job hhandler haff =>
      rw [CronNode.continueClaim_running]
      refine .kept rfl fun _ job' _ hclaim => ?_
      obtain rfl := Handler.claim.inj (hhandler.symm.trans hclaim)
      exact haff
  | @advanced row rest hhandler =>
      have hsame : (node.advance rest).running = node.running := by cases rest <;> rfl
      rw [hsame]
      obtain hhandler | ⟨schedule, delay, hhandler⟩ := hhandler
      · exact hother hhandler (by simp)
      · exact hother hhandler (by simp)
  | scheduledClaim hhandler =>
      obtain hhandler | hhandler := hhandler
      · exact hother hhandler (by simp)
      · exact hother hhandler (by simp)
  | aborted hhandler _ => exact hother hhandler (by simp)
  | nothingSelected hhandler _ => exact hother hhandler (by simp)
  | selected hhandler _ => exact hother hhandler (by simp)
  | delayed hhandler _ _ => exact hother hhandler (by simp)
  | nothingPending hhandler _ => exact hother hhandler (by simp)
  | pending hhandler => exact hother hhandler (by simp)
  | checked hhandler _ => exact hother hhandler (by simp)

lemma CronNode.step_running {name : String} {table : CronTable} {now : ℤ} {node node' : CronNode}
    {ev : NodeEvent} (h : node.step cl name table now ev = some node') :
    Runs cl name table now node ev node'.running := by
  cases ev with
  | connect | disconnect =>
      obtain ⟨_, rfl⟩ := of_guard h
      exact .kept rfl (by simp)
  | setStateEnabled enabled =>
      obtain ⟨_, rfl⟩ := of_guard h
      unfold CronNode.setStateEnabled
      split
      · exact .kept rfl (by simp)
      · rw [CronNode.checkEnabled_running]
        exact .kept rfl (by simp)
  | enableAdmin =>
      obtain ⟨_, rfl⟩ := of_guard h
      unfold CronNode.enableAdmin
      split
      · exact .kept rfl (by simp)
      · rw [CronNode.checkEnabled_running]
        exact .kept rfl (by simp)
  | disableAdmin | schedulerTimer | expireFailed | claimTimer =>
      obtain ⟨_, rfl⟩ := of_guard h
      exact .kept rfl (by simp)
  | notify =>
      simp only [CronNode.step] at h
      split at h
      · rename_i channel rest _ _
        obtain rfl := Option.some.inj h
        cases channel <;> exact .kept rfl (by simp)
      · exact absurd h (by simp)
  | resume draw => exact CronNode.resume_running h
  | failed =>
      have hsame : node'.running = node.running := by
        cases fails_of_fail h with
        | aborted _ => rfl
        | @advanced row rest _ => cases rest <;> rfl
        | unclaimed _ => exact CronNode.continueClaim_running node
      rw [hsame]
      exact .kept rfl (by simp)
  | lost draw =>
      obtain ⟨_, _, rfl⟩ := Option.map_eq_some_iff.mp h
      exact .kept rfl (by simp)
  | translated i timeout =>
      obtain ⟨_, h⟩ := Option.ite_none_right_eq_some.mp h
      obtain ⟨r, hr, rfl⟩ := Option.map_eq_some_iff.mp h
      split
      · rename_i hpos
        exact .translated rfl hpos hr
      · exact .kept rfl (by simp)
  | complete i =>
      obtain ⟨_, h⟩ := Option.ite_none_right_eq_some.mp h
      obtain ⟨_, _, rfl⟩ := Option.map_eq_some_iff.mp h
      rw [CronNode.onCompletion_running]
      exact .ended rfl
  | timeout i =>
      obtain ⟨_, h⟩ := Option.ite_none_right_eq_some.mp h
      obtain ⟨_, _, rfl⟩ := Option.map_eq_some_iff.mp h
      rw [CronNode.onCompletion_running]
      exact .ended rfl
  | finishFailed i =>
      obtain ⟨_, h⟩ := Option.ite_none_right_eq_some.mp h
      obtain ⟨_, _, rfl⟩ := Option.map_eq_some_iff.mp h
      rw [CronNode.onCompletion_running]
      exact .ended rfl

end Inversion

end Workshop.Cron

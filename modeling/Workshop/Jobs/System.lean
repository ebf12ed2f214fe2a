import Mathlib.Data.Finset.Dedup
import Mathlib.Data.Finset.Insert
import Mathlib.Logic.Function.Basic
import Workshop.Lib.Run
import Workshop.Jobs.PlanLoader
import Workshop.Jobs.Statements

/-!
# The job cluster

Any number of nodes on one `jobs` table, and the clients that create and edit jobs.  A node is the
`WorkshopQueue` (`src/workshop/Queue.cxx`) with the part of `WorkshopPartition`,
`WorkshopWorkplace` and `WorkshopOperator` it works with.

As in the cron cluster, a step executes at most one SQL statement, and everything a handler does
locally up to its next statement belongs to the step.  `Run2` fetches up to 16 rows at once and
then goes through them one after the other (`Pass`); a handler of a process that has exited
updates the CPU usage and then concludes the job.  A statement may also fail, while the connection
stays: `JobNode.fail` is what the handler makes of that.  The plan library, the node map of the
stickiness and PostgreSQL's parser of intervals are parameters (`JobCluster`).
-/

namespace Workshop.Jobs

open Workshop.Lib

/-! ## Jobs and operators -/

/-- `WorkshopJob`. -/
structure WorkshopJob where
  id : ℕ
  planName : String
  stickyId : String := ""
  args : List String
  env : List String
  stdin : Option (List UInt8)
  deriving DecidableEq, Repr

/-- The job of a row; texts and arrays that are `NULL` are empty. -/
def WorkshopJob.ofRow (row : JobRow) : WorkshopJob where
  id := row.id
  planName := row.planName
  stickyId := row.stickyId.getD ""
  args := row.args.getD []
  env := row.env.getD []
  stdin := row.stdin

/-- `MakeJob`. -/
def makeJob (row : JobRow) : Except String WorkshopJob :=
  if row.planName = "" then throw ("Job \"" ++ toString row.id ++ "\" has no plan")
  else return .ofRow row

/-- `WorkshopOperator`: `again` is the delay in seconds, or `none` if the job shall not be executed
again. -/
structure WorkshopOperator where
  job : WorkshopJob
  plan : Plan
  exited : Bool := false
  again : Option ℕ := none
  timeoutEvent : Option ℤ := none
  deriving DecidableEq, Repr

namespace WorkshopOperator

variable (o : WorkshopOperator) (now : ℤ)

/-- `ScheduleTimeout`. -/
def scheduleTimeout : WorkshopOperator :=
  if 0 < o.plan.parsedTimeout then { o with timeoutEvent := some (now + o.plan.parsedTimeout) }
  else o

/-- The constructor. -/
def create (job : WorkshopJob) (plan : Plan) : WorkshopOperator :=
  scheduleTimeout { job, plan } now

/-- `OnProgress`, whose `SetProgress` is the statement of the step. -/
def onProgress : WorkshopOperator := if o.exited then o else o.scheduleTimeout now

end WorkshopOperator

/-- What can happen to an operator before it ends: progress is reported at a time, the process asks
to be executed again, or exits. -/
inductive OperatorEvent
  | progress (now : ℤ)
  | again (delay : ℕ)
  | exited
  deriving DecidableEq, Repr

/-- One step of an operator. -/
def WorkshopOperator.step (o : WorkshopOperator) : OperatorEvent → Option WorkshopOperator
  | .progress now => some (o.onProgress now)
  | .again delay => some { o with again := some delay }
  | .exited => some { o with exited := true }

/-! ## The state of a node -/

/-- The rows of a result `RunResult` has not come to yet, whether it is the second query of
`Run2`, and whether a query has returned as many rows as it could. -/
structure Pass where
  rest : List JobRow := []
  lowprio : Bool := false
  full : Bool := false
  deriving DecidableEq, Repr

/-- Where a node is inside a handler: in front of `select_new_jobs`, at the rows of its result, in
front of `check_rate_limit` or of `claim_job` for one of them; or in `OnChildProcessExit`, reading
the control channel, or in front of the statement that concludes the job. -/
inductive Handler
  | idle
  | select (pass : Pass)
  | rows (pass : Pass)
  | limits (job : WorkshopJob) (plan : Plan) (limits : List RateLimit) (pass : Pass)
  | claim (job : WorkshopJob) (plan : Plan) (pass : Pass)
  | exited (i : ℕ) (status : ℤ) (cpuUsage : Option ℤ) (log : Option String)
  | conclude (i : ℕ) (status : ℤ) (log : Option String)
  deriving DecidableEq, Repr

/-- The queue is running. -/
def Handler.running : Handler → Bool
  | .select _ | .rows _ | .limits _ _ _ _ | .claim _ _ _ => true
  | _ => false

/-- A start task can fail: at any time, or at once, while `RunResult` goes on. -/
def Handler.starts : Handler → Bool
  | .idle | .rows _ => true
  | _ => false

/-- A node.  A filter that was never set is `none`; `rateLimitedPlans` are the plans that have hit
their limit, and until when; `stickyNonLocal` is the table `sticky_non_local`. -/
structure JobNode where
  ready : Bool := false
  enabledState : Bool := false
  enabledAdmin : Bool := true
  disabledFull : Bool := false
  interrupt : Bool := false
  timer : Bool := false
  nextExpireCheck : Option ℤ := none
  plansInclude : Option (Finset String) := none
  plansExclude : Option (Finset String) := none
  plansLowprio : Finset String := ∅
  rateLimitedPlans : List (String × ℤ) := []
  stickyNonLocal : Finset String := ∅
  handler : Handler := .idle
  operators : List WorkshopOperator := []
  deriving DecidableEq

/-- What the nodes of a cluster are configured with: how PostgreSQL reads an interval, the plan
libraries, how many jobs a node may run, and which sticky ids its `StickyManager` maps to the node
itself at a time, if there is one. -/
structure JobCluster where
  interval : String → Option ℤ
  visitAvailable : String → ℤ → Finset String
  getPlan : String → ℤ → String → Option Plan
  concurrency : String → ℕ
  isLocal : String → Option (ℤ → String → Bool) := fun _ => none

/-- At that time, the job is sticky on another node. -/
def JobCluster.isElsewhere (cl : JobCluster) (name : String) (now : ℤ) (job : WorkshopJob) : Bool :=
  job.stickyId ≠ "" && (cl.isLocal name).any fun isLocal => !isLocal now job.stickyId

/-- The statements that change the table, with their parameters. -/
inductive Statement
  | releaseJobs (node : String)
  | expireJobs (node : String) (now : ℤ)
  | claimJob (node : String) (id : ℕ) (timeout now : ℤ)
  | setJobProgress (id progress : ℕ) (timeout now : ℤ)
  | setEnv (id : ℕ) (moreEnv like : String)
  | setJobDone (id : ℕ) (status : ℤ) (log : Option String) (now : ℤ)
  | addCpuUsage (id : ℕ) (usage : ℤ)
  | rollbackJob (id : ℕ)
  | againJob (id : ℕ) (delay : ℤ) (log : Option String) (now : ℤ)
  | editJob (id : ℕ) (e : JobEdit)
  deriving DecidableEq, Repr

/-- The `UPDATE` of a statement. -/
def Statement.update : Statement → JobUpdate
  | .releaseJobs node => Jobs.releaseJobs node
  | .expireJobs node now => Jobs.expireJobs node now
  | .claimJob node id timeout now => Jobs.claimJob node id timeout now
  | .setJobProgress id progress timeout now => Jobs.setJobProgress id progress timeout now
  | .setEnv id moreEnv like => Jobs.setEnv id moreEnv like
  | .setJobDone id status log now => Jobs.setJobDone id status log now
  | .addCpuUsage id usage => Jobs.addCpuUsage id usage
  | .rollbackJob id => Jobs.rollbackJob id
  | .againJob id delay log now => Jobs.againJob id delay log now
  | .editJob id e => Jobs.editJob id e

/-- `MAX_JOBS`. -/
def maxJobs : ℕ := 16

namespace JobNode

variable (cl : JobCluster) (name : String) (table : JobTable) (now : ℤ) (node : JobNode)

/-- `IsEnabled`. -/
def isEnabled : Bool := node.enabledState && node.enabledAdmin && !node.disabledFull

/-- `Reschedule` and `ScheduleTimer`. -/
def reschedule : JobNode := { node with timer := true }

/-- `CheckEnabled`. -/
def checkEnabled : JobNode := if node.isEnabled && node.ready then node.reschedule else node

/-- `SetStateEnabled`. -/
def setStateEnabled (enabled : Bool) : JobNode :=
  if enabled = node.enabledState then node
  else { node with enabledState := enabled }.checkEnabled

/-- `EnableAdmin`. -/
def enableAdmin : JobNode :=
  if node.enabledAdmin then node else { node with enabledAdmin := true }.checkEnabled

/-- `DisableAdmin`. -/
def disableAdmin : JobNode := { node with enabledAdmin := false }

/-- `EnableFull`. -/
def enableFull : JobNode :=
  if node.disabledFull then { node with disabledFull := false }.checkEnabled else node

/-! ## The filter -/

/-- `GetRunningPlanNames`. -/
def runningPlanNames : Finset String := (node.operators.map fun o => o.job.planName).toFinset

/-- The operators of a plan that count for its limit, up to the one at `i`. -/
def planCount (i : ℕ) (planName : String) : ℕ :=
  (node.operators.take (i + 1)).countP fun o => o.plan.concurrency ≠ 0 && o.job.planName = planName

/-- `GetFullPlanNames`. -/
def fullPlanNames : Finset String :=
  (node.operators.zipIdx.filterMap fun (o, i) =>
    if o.plan.concurrency ≠ 0 ∧ o.plan.concurrency ≤ node.planCount i o.job.planName then
      some o.job.planName
    else none).toFinset

/-- `SetFilter`. -/
def setFilter (plansInclude plansExclude plansLowprio : Finset String) : JobNode :=
  let node' := { node with
    plansInclude := some plansInclude, plansExclude := some plansExclude, plansLowprio }
  if node.plansInclude ≠ some plansInclude ∨ node.plansExclude ≠ some plansExclude then
    if node.handler.running then { node' with interrupt := true }
    else if node.ready then node'.reschedule
    else node'
  else node'

/-- `UpdateFilter`. -/
def updateFilter : JobNode :=
  let limited := node.rateLimitedPlans.filter fun p => now < p.2
  { node with rateLimitedPlans := limited }.setFilter
    ((cl.visitAvailable name now).filter fun p => p ∉ limited.map Prod.fst)
    node.fullPlanNames node.runningPlanNames

/-! ## Jobs -/

/-- `IsFull`. -/
def isFull : Bool := node.operators.length == cl.concurrency name

/-- `StartWorkshopJob`. -/
def startWorkshopJob (job : WorkshopJob) (plan : Plan) : JobNode :=
  let node := { node with operators := node.operators ++ [WorkshopOperator.create now job plan] }
  let node := if node.isFull cl name then { node with disabledFull := true } else node
  node.updateFilter cl name now

/-- `OnExit` and `OnChildProcessExit` of the partition. -/
def onExit (i : ℕ) : JobNode :=
  let node := { node with operators := node.operators.eraseIdx i }.updateFilter cl name now
  if node.isFull cl name then node else node.enableFull

/-- The end of `Run2`. -/
def finishRun : JobNode :=
  if node.isEnabled then { node with handler := .idle }.reschedule
  else { node with handler := .idle }

/-- After a result: the second query of `Run2`, or its end. -/
def endPass (pass : Pass) : JobNode :=
  if !pass.lowprio && node.isEnabled && !node.interrupt && node.plansLowprio ≠ ∅ then
    { node with handler := .select { lowprio := true, full := pass.full } }
  else node.finishRun

/-- `OnDisconnect`; a queue run that was going on ends with the exception of its statement. -/
def onDisconnect : JobNode :=
  { node with
    ready := false, timer := false,
    handler := if node.handler.running then .idle else node.handler }

/-- `now >= next_expire_check`. -/
def expireDue : Bool := node.nextExpireCheck.all fun t => t ≤ now

/-- Whether `Run2` does anything. -/
def canRun : Bool :=
  node.isEnabled && node.plansInclude.any (· ≠ ∅) && node.plansExclude.isSome

/-- `pg_select_new_jobs`, as the first and the second query of `Run2` call it. -/
def selectJobs (limit : ℕ) (lowprio : Bool) : List JobRow :=
  let select := selectNewJobs table now node.stickyNonLocal
  let plansExclude := node.plansExclude.getD ∅
  if lowprio then select node.plansLowprio plansExclude ∅ limit
  else select (node.plansInclude.getD ∅) plansExclude node.plansLowprio limit

/-- `InsertStickyNonLocal`. -/
def insertStickyNonLocal (stickyId : String) : JobNode :=
  { node with stickyNonLocal := insert stickyId node.stickyNonLocal }

/-- `CheckWorkshopJob` up to the rate limits: what becomes of the node if it declines the job. -/
def declines (job : WorkshopJob) : Option JobNode :=
  if cl.isElsewhere name now job then some (node.insertStickyNonLocal job.stickyId)
  else if node.isFull cl name then some { node with disabledFull := true }
  else none

/-- A plan has hit its rate limit. -/
def setRateLimited (planName : String) (delta : ℤ) : JobNode :=
  { node with
    rateLimitedPlans := (planName, now + delta * second) ::
      node.rateLimitedPlans.filter fun p => p.1 ≠ planName }.updateFilter cl name now

/-- `RunResult` at a row: is the job one to be claimed? -/
def checkRow (pass : Pass) : JobNode :=
  match pass.rest with
  | [] => node.endPass pass
  | row :: rest =>
    if !node.isEnabled || node.interrupt then node.endPass pass
    else
      match makeJob row with
      -- the exception leaves `Run2`
      | .error _ => { node with handler := .idle }
      | .ok job =>
        match cl.getPlan name now job.planName with
        | none => { node with handler := .rows { pass with rest } }
        | some plan =>
          match node.declines cl name now job with
          | some node' => { node' with handler := .rows { pass with rest } }
          | none => { node with handler := .limits job plan plan.rateLimits { pass with rest } }

/-- `CheckRateLimit` for the next limit of the plan. -/
def checkLimit (job : WorkshopJob) (plan : Plan) (limits : List RateLimit) (pass : Pass) :
    JobNode :=
  match limits with
  | [] => { node with handler := .claim job plan pass }
  | limit :: limits =>
    let delta := checkRateLimit table now job.planName limit.duration limit.maxCount
    if 0 < delta then
      { node with handler := .rows pass }.setRateLimited cl name now job.planName delta
    else { node with handler := .limits job plan limits pass }

/-- Claim the job, and start it if that succeeds.  An interval PostgreSQL does not accept is an
error of the statement. -/
def claimRow (job : WorkshopJob) (plan : Plan) (pass : Pass) : JobNode :=
  match cl.interval plan.timeout with
  | none => { node with handler := .idle }
  | some timeout =>
    let node' := { node with handler := .rows pass }
    if table.affected (claimJob name job.id timeout now) = 0 then node'
    else node'.startWorkshopJob cl name now job plan

/-- Go on with the handler, up to and with its next statement. -/
def resume : Option JobNode :=
  match node.handler with
  | .idle => none
  | .select pass =>
    let rows := node.selectJobs table now maxJobs pass.lowprio
    some { node with
      handler := .rows { pass with rest := rows, full := pass.full || rows.length = maxJobs } }
  | .rows pass => some (node.checkRow cl name now pass)
  | .limits job plan limits pass => some (node.checkLimit cl name table now job plan limits pass)
  | .claim job plan pass => some (node.claimRow cl name table now job plan pass)
  | .exited i status _ log => some { node with handler := .conclude i status log }
  | .conclude i _ _ => some ({ node with handler := .idle }.onExit cl name now i)

/-! ## Failing statements -/

/-- A statement at a row fails, if there is one: `InsertStickyNonLocal` for a job that is sticky on
another node, or `next_scheduled_job` at the end of `Run2`, whose exception leaves it. -/
def failRow (pass : Pass) : Option JobNode :=
  if node.isEnabled && !node.interrupt then
    match pass.rest with
    | [] =>
      if !pass.full && (pass.lowprio || node.plansLowprio = ∅) then
        some { node with handler := .idle }
      else none
    | row :: rest =>
      let job := WorkshopJob.ofRow row
      if job.planName ≠ "" ∧ (cl.getPlan name now job.planName).isSome ∧
          cl.isElsewhere name now job then
        some { node with handler := .rows { pass with rest } }
      else none
  else none

/-- The next statement of the handler fails, and the connection stays; `none` if there is no such
statement. -/
def fail : Option JobNode :=
  match node.handler with
  | .idle => none
  -- the exception leaves `Run2`
  | .select _ => some { node with handler := .idle }
  | .rows pass => node.failRow cl name now pass
  | .limits _ _ [] _ => none
  -- `CheckRateLimit` returns zero
  | .limits job plan (_ :: limits) pass =>
      some { node with handler := .limits job plan limits pass }
  -- the exception leaves `Run2`
  | .claim _ _ _ => some { node with handler := .idle }
  | .exited _ _ none _ => none
  -- these exceptions are only logged
  | .exited i status (some _) log => some { node with handler := .conclude i status log }
  | .conclude i _ _ => some ({ node with handler := .idle }.onExit cl name now i)

/-- `FlushSticky`. -/
def flushSticky : JobNode := if node.ready then { node with stickyNonLocal := ∅ } else node

end JobNode

/-! ## Events -/

/-- `ECANCELED`, `ETIMEDOUT` and `EIO`. -/
def errnoCanceled : ℤ := 125

/-- See `errnoCanceled`. -/
def errnoTimedOut : ℤ := 110

/-- See `errnoCanceled`. -/
def errnoInputOutput : ℤ := 5

/-- What can happen to a node.  `cancel` is `CancelJob`, or `CancelTag` for one of its operators;
`startFailed` is the end of the start task with an exception; `lost` is a connection that breaks
after the statement of a queue run took effect and before its answer arrived; `reap` is the
deletion of finished jobs of one plan; `flushSticky` is `OnStickyChanged`.

The connection may stay although a statement fails: that of the handler (`failed`), `expire_jobs`
(`expireFailed`), the `set_job_done` of an operator that ends in another way than by its exit
(`endFailed`), or `set_job_progress` (`progressFailed`). -/
inductive NodeEvent
  | connect
  | disconnect
  | setStateEnabled (enabled : Bool)
  | enableAdmin
  | disableAdmin
  | updateFilter (libraryModified : Bool)
  | timer
  | notify
  | resume
  | failed
  | expireFailed
  | lost
  | flushSticky
  | startFailed (i : ℕ) (message : String)
  | progress (i value : ℕ)
  | setEnv (i : ℕ) (moreEnv : String)
  | again (i delay : ℕ)
  | childExit (i : ℕ) (status : ℤ) (cpuUsage : Option ℤ) (log : Option String)
  | timeout (i : ℕ)
  | cancel (i : ℕ)
  | endFailed (i : ℕ)
  | progressFailed (i : ℕ)
  | reap (planName : String) (age : ℤ)
  deriving DecidableEq, Repr

/-- `PgSetEnv`: the pattern for older values of the variable, or `none` if the assignment is
malformed. -/
def envPattern (moreEnv : String) : Option String :=
  let name := moreEnv.toList.takeWhile (· ≠ '=')
  if name.length = moreEnv.length ∨ name = [] then none else some (String.ofList name ++ "=%")

namespace JobNode

/-- The `UPDATE` the handler is in front of. -/
def handlerStatement (cl : JobCluster) (name : String) (now : ℤ) (node : JobNode) :
    Option Statement :=
  match node.handler with
  | .claim job plan _ => (cl.interval plan.timeout).map fun timeout =>
      .claimJob name job.id timeout now
  | .exited i _ cpuUsage _ => do
    let o ← node.operators[i]?
    let usage ← cpuUsage
    return .addCpuUsage o.job.id usage
  | .conclude i status log => do
    let o ← node.operators[i]?
    match o.again with
    | none => return .setJobDone o.job.id status log now
    | some 0 => return .rollbackJob o.job.id
    | some delay => return .againJob o.job.id (delay * second) log now
  | _ => none

/-- The `UPDATE` a node executes in a step, if it has a connection. -/
def statement (cl : JobCluster) (name : String) (now : ℤ) (node : JobNode) :
    NodeEvent → Option Statement
  | .connect => some (.releaseJobs name)
  | .timer => if node.canRun && node.expireDue now then some (.expireJobs name now) else none
  | .resume => if node.ready then node.handlerStatement cl name now else none
  | .lost =>
    if node.ready && node.handler.running then node.handlerStatement cl name now else none
  | .startFailed i message =>
    if node.ready then node.operators[i]?.map fun o =>
      .setJobDone o.job.id (-errnoInputOutput) (some message) now
    else none
  | .progress i value =>
    if node.ready then do
      let o ← node.operators[i]?
      let timeout ← cl.interval o.plan.timeout
      if o.exited then none else some (.setJobProgress o.job.id value timeout now)
    else none
  | .setEnv i moreEnv =>
    if node.ready then do
      let o ← node.operators[i]?
      let like ← envPattern moreEnv
      return .setEnv o.job.id moreEnv like
    else none
  | .timeout i =>
    if node.ready then node.operators[i]?.map fun o =>
      .setJobDone o.job.id (-errnoTimedOut) (some "Timeout") now
    else none
  | .cancel i =>
    if node.ready then node.operators[i]?.map fun o =>
      .setJobDone o.job.id (-errnoCanceled) (some "Canceled") now
    else none
  | _ => none

/-- The control channel of the operator is read: by the event loop, or after the process has
exited. -/
def readsControl (node : JobNode) (i : ℕ) : Bool :=
  match node.handler with
  | .idle => true
  | .exited i' _ _ _ => i' == i
  | _ => false

/-- What a step makes of the node itself. -/
def step (cl : JobCluster) (name : String) (table : JobTable) (now : ℤ) (node : JobNode) :
    NodeEvent → Option JobNode
  | .connect =>
    if node.handler = .idle ∧ node.ready = false then
      some { node with ready := true, stickyNonLocal := ∅ }.reschedule
    else none
  | .disconnect => if node.ready then some node.onDisconnect else none
  | .setStateEnabled enabled =>
    if node.handler = .idle then some (node.setStateEnabled enabled) else none
  | .enableAdmin => if node.handler = .idle then some node.enableAdmin else none
  | .disableAdmin => if node.handler = .idle then some node.disableAdmin else none
  | .updateFilter libraryModified =>
    if node.handler = .idle then
      some ((if libraryModified then { node with rateLimitedPlans := [] } else node).updateFilter
        cl name now)
    else none
  | .timer =>
    if node.handler = .idle ∧ node.timer then
      let node' := { node with timer := false }
      if node.canRun then
        some { node' with
          interrupt := false
          nextExpireCheck :=
            if node.expireDue now then some (now + minute) else node.nextExpireCheck
          handler := .select {} }
      else some node'
    else none
  | .notify => if node.handler = .idle ∧ node.ready then some node.reschedule else none
  -- a queue run has a connection, see `onDisconnect`
  | .resume =>
    if node.handler.running && !node.ready then none else node.resume cl name table now
  | .failed => if node.ready then node.fail cl name now else none
  -- the exception leaves `Run2`
  | .expireFailed =>
    if node.handler = .idle ∧ node.timer ∧ node.canRun ∧ node.expireDue now then
      some { node with timer := false, nextExpireCheck := some (now + minute) }
    else none
  | .lost => if node.handler.running ∧ node.ready then some node.onDisconnect else none
  | .flushSticky => if node.handler = .idle then some node.flushSticky else none
  | .startFailed i _ =>
    if node.handler.starts then
      node.operators[i]?.map fun _ => node.onExit cl name now i
    else none
  | .progress i _ =>
    if node.readsControl i then
      node.operators[i]?.map fun o =>
        { node with operators := node.operators.set i (o.onProgress now) }
    else none
  | .setEnv i _ => if node.readsControl i then node.operators[i]?.map fun _ => node else none
  | .again i delay =>
    if node.readsControl i then
      node.operators[i]?.map fun o =>
        { node with operators := node.operators.set i { o with again := some delay } }
    else none
  | .childExit i status cpuUsage log =>
    if node.handler = .idle then
      node.operators[i]?.map fun o =>
        { node with
          operators := node.operators.set i { o with exited := true }
          handler := .exited i status cpuUsage log }
    else none
  | .timeout i =>
    if node.handler = .idle then
      (node.operators[i]?.filter fun o => o.timeoutEvent.any fun t => t ≤ now).map fun _ =>
        node.onExit cl name now i
    else none
  | .cancel i =>
    if node.handler = .idle then node.operators[i]?.map fun _ => node.onExit cl name now i else none
  | .endFailed i =>
    if node.ready ∧ node.handler.starts then
      node.operators[i]?.map fun _ => node.onExit cl name now i
    else none
  | .progressFailed i =>
    if node.ready ∧ node.readsControl i then
      (node.operators[i]?.filter fun o => !o.exited).map fun o =>
        { node with operators := node.operators.set i (o.onProgress now) }
    else none
  | .reap _ _ => if node.handler = .idle ∧ node.ready then some node else none

end JobNode

/-! ## The cluster -/

/-- The state of the whole system; `nextId` is the sequence of the primary key. -/
structure State where
  table : JobTable
  now : ℤ
  nextId : ℕ
  nodes : String → JobNode

/-- What can happen: time passes, a client creates, edits or deletes a job, a node does
something. -/
inductive Event
  | tick (d : ℕ)
  | insert (job : NewJob)
  | edit (id : ℕ) (e : JobEdit)
  | delete (id : ℕ)
  | node (name : String) (e : NodeEvent)
  deriving DecidableEq, Repr

/-- The `UPDATE` an event executes. -/
def Event.statement (cl : JobCluster) (s : State) : Event → Option Statement
  | .edit id e => some (.editJob id e)
  | .node n e => (s.nodes n).statement cl n s.now e
  | _ => none

/-- The rows an event deletes. -/
def Event.deletes (s : State) : Event → JobRow → Bool
  | .delete id, r => r.id == id && isDeletable r
  | .node _ (.reap planName age), r => isReaped planName age s.now r
  | _, _ => false

/-- What an event makes of a row it does not delete. -/
def rowAfter (cl : JobCluster) (s : State) (e : Event) : JobRow → JobRow :=
  Table.rowAfter ((e.statement cl s).map Statement.update)

/-- The table after an event that inserts nothing. -/
def State.tableAfter (cl : JobCluster) (s : State) (e : Event) : JobTable :=
  (s.table.tableAfter ((e.statement cl s).map Statement.update)).delete (e.deletes s)

/-- One step of the system. -/
def step (cl : JobCluster) (s : State) (e : Event) : Option State :=
  match e with
  | .tick d => some { s with now := s.now + d }
  | .insert job =>
    (s.table.insert (job.row s.nextId s.now)).map fun t =>
      { s with table := t, nextId := s.nextId + 1 }
  | .edit _ _ => some { s with table := s.tableAfter cl e }
  | .delete _ => some { s with table := s.tableAfter cl e }
  | .node n ev =>
    ((s.nodes n).step cl n s.table s.now ev).map fun node =>
      { s with table := s.tableAfter cl e, nodes := Function.update s.nodes n node }

/-! ## What a step can do -/

section Inversion

variable {cl : JobCluster} {s t : State} {e : Event}

/-- The jobs of the operators of a node. -/
def JobNode.jobs (node : JobNode) : List WorkshopJob := node.operators.map WorkshopOperator.job

/-- The operator that an event ends. -/
def JobNode.concludes (node : JobNode) : NodeEvent → Option ℕ
  | .startFailed i _ | .timeout i | .cancel i | .endFailed i => some i
  | .resume | .failed =>
    match node.handler with
    | .conclude i _ _ => some i
    | _ => none
  | _ => none

/-- **What a failing statement of a handler does**: the exception ends the queue run, or the handler
goes on without the statement. -/
inductive Fails (cl : JobCluster) (name : String) (now : ℤ) (node : JobNode) : JobNode → Prop
  | aborted : node.handler.running = true → Fails cl name now node { node with handler := .idle }
  | skipped {pass : Pass} {row : JobRow} {rest : List JobRow} : node.handler = .rows pass →
      pass.rest = row :: rest →
      Fails cl name now node { node with handler := .rows { pass with rest } }
  | unlimited {job : WorkshopJob} {plan : Plan} {limit : RateLimit} {limits : List RateLimit}
      {pass : Pass} : node.handler = .limits job plan (limit :: limits) pass →
      Fails cl name now node { node with handler := .limits job plan limits pass }
  | uncounted {i : ℕ} {status : ℤ} {cpuUsage : Option ℤ} {log : Option String} :
      node.handler = .exited i status cpuUsage log →
      Fails cl name now node { node with handler := .conclude i status log }
  | concluded {i : ℕ} {status : ℤ} {log : Option String} :
      node.handler = .conclude i status log →
      Fails cl name now node (({ node with handler := .idle } : JobNode).onExit cl name now i)

lemma fails_of_fail {name : String} {now : ℤ} {node node' : JobNode}
    (h : node.fail cl name now = some node') : Fails cl name now node node' := by
  unfold JobNode.fail at h
  split at h
  · exact absurd h (by simp)
  · rename_i hhandler
    obtain rfl := Option.some.inj h
    exact .aborted (by rw [hhandler]; rfl)
  · rename_i pass hhandler
    unfold JobNode.failRow at h
    obtain ⟨_, h⟩ := Option.ite_none_right_eq_some.mp h
    split at h
    · obtain ⟨_, rfl⟩ := of_guard h
      exact .aborted (by rw [hhandler]; rfl)
    · rename_i row rest hrest
      obtain ⟨_, rfl⟩ := of_guard h
      exact .skipped hhandler hrest
  · exact absurd h (by simp)
  · rename_i hhandler
    obtain rfl := Option.some.inj h
    exact .unlimited hhandler
  · rename_i hhandler
    obtain rfl := Option.some.inj h
    exact .aborted (by rw [hhandler]; rfl)
  · exact absurd h (by simp)
  · rename_i hhandler
    obtain rfl := Option.some.inj h
    exact .uncounted hhandler
  · rename_i hhandler
    obtain rfl := Option.some.inj h
    exact .concluded hhandler

/-- **The statements of a node**, each with the handler or the operator it comes from. -/
inductive Executes (cl : JobCluster) (name : String) (now : ℤ) (node : JobNode) (ev : NodeEvent) :
    Statement → Prop
  | releaseJobs : ev = .connect → Executes cl name now node ev (.releaseJobs name)
  | expireJobs : ev = .timer → Executes cl name now node ev (.expireJobs name now)
  | claimJob {job : WorkshopJob} {plan : Plan} {pass : Pass} {timeout : ℤ} :
      ev = .resume ∨ ev = .lost → node.handler = .claim job plan pass →
      cl.interval plan.timeout = some timeout →
      Executes cl name now node ev (.claimJob name job.id timeout now)
  | setJobProgress {i value : ℕ} {o : WorkshopOperator} {timeout : ℤ} : ev = .progress i value →
      node.operators[i]? = some o → o.exited = false → cl.interval o.plan.timeout = some timeout →
      Executes cl name now node ev (.setJobProgress o.job.id value timeout now)
  | setEnv {i : ℕ} {o : WorkshopOperator} {moreEnv like : String} :
      node.operators[i]? = some o → Executes cl name now node ev (.setEnv o.job.id moreEnv like)
  | setJobDone {i : ℕ} {o : WorkshopOperator} {status : ℤ} {log : Option String} :
      node.concludes ev = some i → node.operators[i]? = some o →
      Executes cl name now node ev (.setJobDone o.job.id status log now)
  | addCpuUsage {i : ℕ} {o : WorkshopOperator} {usage : ℤ} :
      node.operators[i]? = some o → Executes cl name now node ev (.addCpuUsage o.job.id usage)
  | rollbackJob {i : ℕ} {o : WorkshopOperator} :
      node.concludes ev = some i → node.operators[i]? = some o →
      Executes cl name now node ev (.rollbackJob o.job.id)
  | againJob {i : ℕ} {o : WorkshopOperator} {delay : ℤ} {log : Option String} :
      node.concludes ev = some i → node.operators[i]? = some o →
      Executes cl name now node ev (.againJob o.job.id delay log now)

lemma executes_of_handlerStatement {name : String} {now : ℤ} {node : JobNode} {st : Statement}
    (h : node.handlerStatement cl name now = some st) : Executes cl name now node .resume st := by
  unfold JobNode.handlerStatement at h
  split at h
  · rename_i job plan pass hhandler
    obtain ⟨timeout, htimeout, rfl⟩ := Option.map_eq_some_iff.mp h
    exact .claimJob (.inl rfl) hhandler htimeout
  · obtain ⟨o, ho, h⟩ := Option.bind_eq_some_iff.mp h
    obtain ⟨usage, _, h⟩ := Option.bind_eq_some_iff.mp h
    obtain rfl := Option.some.inj h
    exact .addCpuUsage ho
  · rename_i i status log hhandler
    have hconcludes : node.concludes .resume = some i := by simp [JobNode.concludes, hhandler]
    obtain ⟨o, ho, h⟩ := Option.bind_eq_some_iff.mp h
    split at h <;> obtain rfl := Option.some.inj h
    · exact .setJobDone hconcludes ho
    · exact .rollbackJob hconcludes ho
    · exact .againJob hconcludes ho
  · exact absurd h (by simp)

lemma executes_of_statement {name : String} {now : ℤ} {node : JobNode} {ev : NodeEvent}
    {st : Statement} (h : node.statement cl name now ev = some st) :
    Executes cl name now node ev st := by
  unfold JobNode.statement at h
  split at h
  · obtain rfl := Option.some.inj h
    exact .releaseJobs rfl
  · obtain ⟨_, h⟩ := Option.ite_none_right_eq_some.mp h
    obtain rfl := Option.some.inj h
    exact .expireJobs rfl
  · obtain ⟨_, h⟩ := Option.ite_none_right_eq_some.mp h
    exact executes_of_handlerStatement h
  · -- a queue run, so that the statement is a claim
    obtain ⟨hrunning, h⟩ := Option.ite_none_right_eq_some.mp h
    cases executes_of_handlerStatement h with
    | claimJob _ hhandler htimeout => exact .claimJob (.inr rfl) hhandler htimeout
    | releaseJobs hev => exact absurd hev (by simp)
    | expireJobs hev => exact absurd hev (by simp)
    | setJobProgress hev _ _ _ => exact absurd hev (by simp)
    | setEnv ho => exact .setEnv ho
    | addCpuUsage ho => exact .addCpuUsage ho
    | setJobDone hc _ | rollbackJob hc _ | againJob hc _ =>
        simp only [JobNode.concludes] at hc
        split at hc
        · rename_i hhandler
          simp [hhandler, Handler.running] at hrunning
        · exact absurd hc (by simp)
  · obtain ⟨_, h⟩ := Option.ite_none_right_eq_some.mp h
    obtain ⟨o, ho, rfl⟩ := Option.map_eq_some_iff.mp h
    exact .setJobDone rfl ho
  · obtain ⟨_, h⟩ := Option.ite_none_right_eq_some.mp h
    obtain ⟨o, ho, h⟩ := Option.bind_eq_some_iff.mp h
    obtain ⟨timeout, htimeout, h⟩ := Option.bind_eq_some_iff.mp h
    obtain ⟨hexited, rfl⟩ := of_guard_not h
    exact .setJobProgress rfl ho (by simpa using hexited) htimeout
  · obtain ⟨_, h⟩ := Option.ite_none_right_eq_some.mp h
    obtain ⟨o, ho, h⟩ := Option.bind_eq_some_iff.mp h
    obtain ⟨like, _, h⟩ := Option.bind_eq_some_iff.mp h
    obtain rfl := Option.some.inj h
    exact .setEnv ho
  · obtain ⟨_, h⟩ := Option.ite_none_right_eq_some.mp h
    obtain ⟨o, ho, rfl⟩ := Option.map_eq_some_iff.mp h
    exact .setJobDone rfl ho
  · obtain ⟨_, h⟩ := Option.ite_none_right_eq_some.mp h
    obtain ⟨o, ho, rfl⟩ := Option.map_eq_some_iff.mp h
    exact .setJobDone rfl ho
  · exact absurd h (by simp)

/-- **The statements of the cluster**: those of the clients, and those of the nodes. -/
lemma statement_cases {st : Statement} (h : e.statement cl s = some st) :
    (∃ id ed, e = .edit id ed ∧ st = .editJob id ed) ∨
      ∃ n ev, e = .node n ev ∧ Executes cl n s.now (s.nodes n) ev st := by
  unfold Event.statement at h
  split at h
  · rename_i id ed
    exact .inl ⟨id, ed, rfl, (Option.some.inj h).symm⟩
  · rename_i n ev
    exact .inr ⟨n, ev, rfl, executes_of_statement h⟩
  · exact absurd h (by simp)

/-! ### The operators -/

@[simp] lemma JobNode.checkEnabled_operators (node : JobNode) :
    node.checkEnabled.operators = node.operators := by
  unfold JobNode.checkEnabled
  split <;> rfl

@[simp] lemma JobNode.enableFull_operators (node : JobNode) :
    node.enableFull.operators = node.operators := by
  unfold JobNode.enableFull
  split
  · rw [JobNode.checkEnabled_operators]
  · rfl

/-- `SetFilter` leaves everything but the filter, the interrupt flag and the timer alone. -/
lemma JobNode.setFilter_eq (node : JobNode)
    (plansInclude plansExclude plansLowprio : Finset String) :
    ∃ interrupt timer, node.setFilter plansInclude plansExclude plansLowprio =
      { node with
        plansInclude := some plansInclude, plansExclude := some plansExclude, plansLowprio,
        interrupt, timer } := by
  simp only [JobNode.setFilter]
  split
  · split
    · exact ⟨_, _, rfl⟩
    · split <;> exact ⟨_, _, rfl⟩
  · exact ⟨_, _, rfl⟩

@[simp] lemma JobNode.setFilter_operators (node : JobNode) (a b c : Finset String) :
    (node.setFilter a b c).operators = node.operators := by
  obtain ⟨_, _, heq⟩ := node.setFilter_eq a b c
  rw [heq]

@[simp] lemma JobNode.updateFilter_operators (node : JobNode) (cl : JobCluster) (name : String)
    (now : ℤ) : (node.updateFilter cl name now).operators = node.operators := by
  simp only [JobNode.updateFilter, JobNode.setFilter_operators]

@[simp] lemma JobNode.onExit_operators (node : JobNode) (cl : JobCluster) (name : String) (now : ℤ)
    (i : ℕ) : (node.onExit cl name now i).operators = node.operators.eraseIdx i := by
  simp only [JobNode.onExit]
  split <;> simp

@[simp] lemma JobNode.startWorkshopJob_operators (node : JobNode) (cl : JobCluster) (name : String)
    (now : ℤ) (job : WorkshopJob) (plan : Plan) :
    (node.startWorkshopJob cl name now job plan).operators =
      node.operators ++ [WorkshopOperator.create now job plan] := by
  simp only [JobNode.startWorkshopJob, JobNode.updateFilter_operators]
  split <;> rfl

@[simp] lemma JobNode.endPass_operators (node : JobNode) (pass : Pass) :
    (node.endPass pass).operators = node.operators := by
  unfold JobNode.endPass JobNode.finishRun
  split
  · rfl
  · split <;> rfl

@[simp] lemma JobNode.setRateLimited_operators (node : JobNode) (cl : JobCluster) (name : String)
    (now : ℤ) (planName : String) (delta : ℤ) :
    (node.setRateLimited cl name now planName delta).operators = node.operators :=
  JobNode.updateFilter_operators _ _ _ _

/-- A node that declines a job inserts its sticky id, or disables its queue. -/
lemma JobNode.declines_cases {node node' : JobNode} {name : String} {now : ℤ} {job : WorkshopJob}
    (h : node.declines cl name now job = some node') :
    (cl.isElsewhere name now job = true ∧ node' = node.insertStickyNonLocal job.stickyId) ∨
      (cl.isElsewhere name now job = false ∧ node.isFull cl name = true ∧
        node' = { node with disabledFull := true }) := by
  unfold JobNode.declines at h
  split at h
  · rename_i helsewhere
    exact .inl ⟨helsewhere, (Option.some.inj h).symm⟩
  · rename_i hhere
    obtain ⟨hfull, rfl⟩ := of_guard h
    exact .inr ⟨by simpa using hhere, hfull, rfl⟩

/-- A node that does not decline a job has room for it. -/
lemma JobNode.of_declines_none {node : JobNode} {name : String} {now : ℤ} {job : WorkshopJob}
    (h : node.declines cl name now job = none) :
    cl.isElsewhere name now job = false ∧ node.isFull cl name = false := by
  unfold JobNode.declines at h
  split at h
  · exact absurd h (by simp)
  · rename_i hhere
    exact ⟨by simpa using hhere, by simpa using h⟩

lemma JobNode.declines_operators {node node' : JobNode} {name : String} {now : ℤ}
    {job : WorkshopJob} (h : node.declines cl name now job = some node') :
    node'.operators = node.operators := by
  obtain ⟨_, rfl⟩ | ⟨_, _, rfl⟩ := JobNode.declines_cases h <;> rfl

lemma JobNode.checkRow_operators (node : JobNode) (cl : JobCluster) (name : String) (now : ℤ)
    (pass : Pass) : (node.checkRow cl name now pass).operators = node.operators := by
  unfold JobNode.checkRow
  split
  · exact JobNode.endPass_operators _ _
  · split
    · exact JobNode.endPass_operators _ _
    · split
      · rfl
      · split
        · rfl
        · split
          · rename_i hdeclines
            exact (JobNode.declines_operators hdeclines :)
          · rfl

lemma JobNode.checkLimit_operators (node : JobNode) (cl : JobCluster) (name : String)
    (table : JobTable) (now : ℤ) (job : WorkshopJob) (plan : Plan) (limits : List RateLimit)
    (pass : Pass) :
    (node.checkLimit cl name table now job plan limits pass).operators = node.operators := by
  unfold JobNode.checkLimit
  split
  · rfl
  · simp only
    split
    · rw [JobNode.setRateLimited_operators]
    · rfl

@[simp] lemma WorkshopOperator.scheduleTimeout_job (o : WorkshopOperator) (now : ℤ) :
    (o.scheduleTimeout now).job = o.job := by
  unfold WorkshopOperator.scheduleTimeout
  split <;> rfl

@[simp] lemma WorkshopOperator.onProgress_job (o : WorkshopOperator) (now : ℤ) :
    (o.onProgress now).job = o.job := by
  unfold WorkshopOperator.onProgress
  split
  · rfl
  · exact WorkshopOperator.scheduleTimeout_job o now

@[simp] lemma WorkshopOperator.create_job (now : ℤ) (job : WorkshopJob) (plan : Plan) :
    (WorkshopOperator.create now job plan).job = job := by
  simp [WorkshopOperator.create]

@[simp] lemma WorkshopOperator.scheduleTimeout_plan (o : WorkshopOperator) (now : ℤ) :
    (o.scheduleTimeout now).plan = o.plan := by
  unfold WorkshopOperator.scheduleTimeout
  split <;> rfl

@[simp] lemma WorkshopOperator.create_plan (now : ℤ) (job : WorkshopJob) (plan : Plan) :
    (WorkshopOperator.create now job plan).plan = plan := by
  simp [WorkshopOperator.create]

/-- The node claims the job in this step and starts an operator for it. -/
def JobNode.Starts (cl : JobCluster) (name : String) (table : JobTable) (now : ℤ) (node : JobNode)
    (ev : NodeEvent) (job : WorkshopJob) : Prop :=
  ev = .resume ∧ node.ready = true ∧ ∃ plan pass timeout, node.handler = .claim job plan pass ∧
    cl.interval plan.timeout = some timeout ∧
      0 < table.affected (claimJob name job.id timeout now)

@[simp] lemma WorkshopOperator.onProgress_plan (o : WorkshopOperator) (now : ℤ) :
    (o.onProgress now).plan = o.plan := by
  unfold WorkshopOperator.onProgress
  split
  · rfl
  · exact WorkshopOperator.scheduleTimeout_plan o now

lemma WorkshopOperator.step_keeps {o o' : WorkshopOperator} {oe : OperatorEvent}
    (h : o.step oe = some o') : o'.job = o.job ∧ o'.plan = o.plan := by
  cases oe with
  | progress now =>
      obtain rfl := Option.some.inj h
      exact ⟨o.onProgress_job now, o.onProgress_plan now⟩
  | again delay =>
      obtain rfl := Option.some.inj h
      exact ⟨rfl, rfl⟩
  | exited =>
      obtain rfl := Option.some.inj h
      exact ⟨rfl, rfl⟩

/-- **What a step does to the operators of its node**: one ends, one is started, one makes a step,
or they stay. -/
inductive Operates (cl : JobCluster) (name : String) (table : JobTable) (now : ℤ) (node : JobNode)
    (ev : NodeEvent) : List WorkshopOperator → Prop
  | ended {i : ℕ} : node.concludes ev = some i →
      Operates cl name table now node ev (node.operators.eraseIdx i)
  | started {job : WorkshopJob} {plan : Plan} {pass : Pass} :
      node.Starts cl name table now ev job → node.handler = .claim job plan pass →
      Operates cl name table now node ev (node.operators ++ [WorkshopOperator.create now job plan])
  | stepped {i : ℕ} {o o' : WorkshopOperator} {oe : OperatorEvent} : node.concludes ev = none →
      node.operators[i]? = some o → o.step oe = some o' →
      Operates cl name table now node ev (node.operators.set i o')
  | kept : node.concludes ev = none → Operates cl name table now node ev node.operators

lemma JobNode.resume_operators {name : String} {table : JobTable} {now : ℤ} {node node' : JobNode}
    (hready : node.handler.running = true → node.ready = true)
    (h : node.resume cl name table now = some node') :
    Operates cl name table now node .resume node'.operators := by
  unfold JobNode.resume at h
  split at h
  · exact absurd h (by simp)
  · rename_i hhandler
    obtain rfl := Option.some.inj h
    exact .kept (by simp [JobNode.concludes, hhandler])
  · rename_i hhandler
    obtain rfl := Option.some.inj h
    rw [JobNode.checkRow_operators]
    exact .kept (by simp [JobNode.concludes, hhandler])
  · rename_i hhandler
    obtain rfl := Option.some.inj h
    rw [JobNode.checkLimit_operators]
    exact .kept (by simp [JobNode.concludes, hhandler])
  · rename_i job plan pass hhandler
    obtain rfl := Option.some.inj h
    have hnone : node.concludes .resume = none := by simp [JobNode.concludes, hhandler]
    unfold JobNode.claimRow
    split
    · exact .kept hnone
    · rename_i timeout htimeout
      simp only
      split
      · exact .kept hnone
      · rename_i haff
        have hstarts : node.Starts cl name table now .resume job :=
          ⟨rfl, hready (by simp [hhandler, Handler.running]), plan, pass, timeout, hhandler,
            htimeout, Nat.pos_of_ne_zero haff⟩
        rw [JobNode.startWorkshopJob_operators]
        exact .started hstarts hhandler
  · rename_i hhandler
    obtain rfl := Option.some.inj h
    exact .kept (by simp [JobNode.concludes, hhandler])
  · rename_i i _ _ hhandler
    obtain rfl := Option.some.inj h
    rw [JobNode.onExit_operators]
    exact .ended (by simp [JobNode.concludes, hhandler])

lemma Fails.operators {name : String} {table : JobTable} {now : ℤ} {node node' : JobNode}
    (h : Fails cl name now node node') :
    Operates cl name table now node .failed node'.operators := by
  cases h with
  | aborted hrunning =>
      refine .kept ?_
      cases hhandler : node.handler with
      | conclude => simp [hhandler, Handler.running] at hrunning
      | _ => simp [JobNode.concludes, hhandler]
  | skipped hhandler _ | unlimited hhandler | uncounted hhandler =>
      exact .kept (by simp [JobNode.concludes, hhandler])
  | concluded hhandler =>
      rw [JobNode.onExit_operators]
      exact .ended (by simp [JobNode.concludes, hhandler])

/-! ### The handler -/

/-- The jobs a queue run has fetched and not yet claimed or dropped. -/
def Handler.fetched : Handler → List WorkshopJob
  | .rows pass => pass.rest.map .ofRow
  | .limits job _ _ pass | .claim job _ pass => job :: pass.rest.map .ofRow
  | _ => []

@[simp] lemma JobNode.checkEnabled_handler (node : JobNode) :
    node.checkEnabled.handler = node.handler := by
  unfold JobNode.checkEnabled
  split <;> rfl

@[simp] lemma JobNode.enableFull_handler (node : JobNode) :
    node.enableFull.handler = node.handler := by
  unfold JobNode.enableFull
  split
  · rw [JobNode.checkEnabled_handler]
  · rfl

@[simp] lemma JobNode.setFilter_handler (node : JobNode) (a b c : Finset String) :
    (node.setFilter a b c).handler = node.handler := by
  obtain ⟨_, _, heq⟩ := node.setFilter_eq a b c
  rw [heq]

@[simp] lemma JobNode.updateFilter_handler (node : JobNode) (cl : JobCluster) (name : String)
    (now : ℤ) : (node.updateFilter cl name now).handler = node.handler := by
  simp only [JobNode.updateFilter, JobNode.setFilter_handler]

@[simp] lemma JobNode.onExit_handler (node : JobNode) (cl : JobCluster) (name : String) (now : ℤ)
    (i : ℕ) : (node.onExit cl name now i).handler = node.handler := by
  simp only [JobNode.onExit]
  split <;> simp

@[simp] lemma JobNode.setRateLimited_handler (node : JobNode) (cl : JobCluster) (name : String)
    (now : ℤ) (planName : String) (delta : ℤ) :
    (node.setRateLimited cl name now planName delta).handler = node.handler :=
  JobNode.updateFilter_handler _ _ _ _

@[simp] lemma JobNode.startWorkshopJob_handler (node : JobNode) (cl : JobCluster) (name : String)
    (now : ℤ) (job : WorkshopJob) (plan : Plan) :
    (node.startWorkshopJob cl name now job plan).handler = node.handler := by
  simp only [JobNode.startWorkshopJob, JobNode.updateFilter_handler]
  split <;> rfl

/-- **What a step does to its node**: to the operators, see `Operates`; to the handler, that
`resume` and `failed` go on with it, `timer` and a lost connection begin and end a queue run,
`childExit` begins another handler, and everything else leaves it alone. -/
lemma JobNode.step_spec {name : String} {table : JobTable} {now : ℤ} {node node' : JobNode}
    {ev : NodeEvent} (h : node.step cl name table now ev = some node') :
    Operates cl name table now node ev node'.operators ∧
      (node'.handler = node.handler ∨ node'.handler.fetched = [] ∨
        (ev = .resume ∧ node.resume cl name table now = some node') ∨
        (ev = .failed ∧ Fails cl name now node node')) := by
  unfold JobNode.step at h
  split at h
  · obtain ⟨_, rfl⟩ := of_guard h
    exact ⟨.kept rfl, .inl rfl⟩
  · obtain ⟨_, rfl⟩ := of_guard h
    refine ⟨.kept rfl, ?_⟩
    unfold JobNode.onDisconnect
    split
    · exact .inr (.inl rfl)
    · exact .inl rfl
  · obtain ⟨_, rfl⟩ := of_guard h
    unfold JobNode.setStateEnabled
    split
    · exact ⟨.kept rfl, .inl rfl⟩
    · rw [JobNode.checkEnabled_operators, JobNode.checkEnabled_handler]
      exact ⟨.kept rfl, .inl rfl⟩
  · obtain ⟨_, rfl⟩ := of_guard h
    unfold JobNode.enableAdmin
    split
    · exact ⟨.kept rfl, .inl rfl⟩
    · rw [JobNode.checkEnabled_operators, JobNode.checkEnabled_handler]
      exact ⟨.kept rfl, .inl rfl⟩
  · obtain ⟨_, rfl⟩ := of_guard h
    exact ⟨.kept rfl, .inl rfl⟩
  · obtain ⟨_, rfl⟩ := of_guard h
    rw [JobNode.updateFilter_operators, JobNode.updateFilter_handler]
    split <;> exact ⟨.kept rfl, .inl rfl⟩
  · obtain ⟨_, h⟩ := Option.ite_none_right_eq_some.mp h
    split at h <;> obtain rfl := Option.some.inj h
    · exact ⟨.kept rfl, .inr (.inl rfl)⟩
    · exact ⟨.kept rfl, .inl rfl⟩
  · obtain ⟨_, rfl⟩ := of_guard h
    exact ⟨.kept rfl, .inl rfl⟩
  · obtain ⟨hready, h⟩ := Option.ite_none_left_eq_some.mp h
    exact ⟨JobNode.resume_operators (by simpa using hready) h, .inr (.inr (.inl ⟨rfl, h⟩))⟩
  · obtain ⟨_, h⟩ := Option.ite_none_right_eq_some.mp h
    have hfails := fails_of_fail h
    exact ⟨hfails.operators, .inr (.inr (.inr ⟨rfl, hfails⟩))⟩
  · obtain ⟨_, rfl⟩ := of_guard h
    exact ⟨.kept rfl, .inl rfl⟩
  · obtain ⟨⟨hrunning, _⟩, rfl⟩ := of_guard h
    refine ⟨.kept rfl, .inr (.inl ?_)⟩
    simp [JobNode.onDisconnect, hrunning, Handler.fetched]
  · obtain ⟨_, rfl⟩ := of_guard h
    unfold JobNode.flushSticky
    split <;> exact ⟨.kept rfl, .inl rfl⟩
  · obtain ⟨_, h⟩ := Option.ite_none_right_eq_some.mp h
    obtain ⟨_, _, rfl⟩ := Option.map_eq_some_iff.mp h
    rw [JobNode.onExit_operators, JobNode.onExit_handler]
    exact ⟨.ended rfl, .inl rfl⟩
  · obtain ⟨_, h⟩ := Option.ite_none_right_eq_some.mp h
    obtain ⟨o, ho, rfl⟩ := Option.map_eq_some_iff.mp h
    have hstep : o.step (.progress now) = some (o.onProgress now) := rfl
    exact ⟨.stepped rfl ho hstep, .inl rfl⟩
  · obtain ⟨_, h⟩ := Option.ite_none_right_eq_some.mp h
    obtain ⟨_, _, rfl⟩ := Option.map_eq_some_iff.mp h
    exact ⟨.kept rfl, .inl rfl⟩
  · rename_i i delay
    obtain ⟨_, h⟩ := Option.ite_none_right_eq_some.mp h
    obtain ⟨o, ho, rfl⟩ := Option.map_eq_some_iff.mp h
    have hstep : o.step (.again delay) = some { o with again := some delay } := rfl
    exact ⟨.stepped rfl ho hstep, .inl rfl⟩
  · obtain ⟨_, h⟩ := Option.ite_none_right_eq_some.mp h
    obtain ⟨o, ho, rfl⟩ := Option.map_eq_some_iff.mp h
    have hstep : o.step .exited = some { o with exited := true } := rfl
    exact ⟨.stepped rfl ho hstep, .inr (.inl rfl)⟩
  · obtain ⟨_, h⟩ := Option.ite_none_right_eq_some.mp h
    obtain ⟨_, _, rfl⟩ := Option.map_eq_some_iff.mp h
    rw [JobNode.onExit_operators, JobNode.onExit_handler]
    exact ⟨.ended rfl, .inl rfl⟩
  · obtain ⟨_, h⟩ := Option.ite_none_right_eq_some.mp h
    obtain ⟨_, _, rfl⟩ := Option.map_eq_some_iff.mp h
    rw [JobNode.onExit_operators, JobNode.onExit_handler]
    exact ⟨.ended rfl, .inl rfl⟩
  · obtain ⟨_, h⟩ := Option.ite_none_right_eq_some.mp h
    obtain ⟨_, _, rfl⟩ := Option.map_eq_some_iff.mp h
    rw [JobNode.onExit_operators, JobNode.onExit_handler]
    exact ⟨.ended rfl, .inl rfl⟩
  · obtain ⟨_, h⟩ := Option.ite_none_right_eq_some.mp h
    obtain ⟨o, ho, rfl⟩ := Option.map_eq_some_iff.mp h
    have hstep : o.step (.progress now) = some (o.onProgress now) := rfl
    exact ⟨.stepped rfl (Option.filter_eq_some_iff.mp ho).1 hstep, .inl rfl⟩
  · obtain ⟨_, rfl⟩ := of_guard h
    exact ⟨.kept rfl, .inl rfl⟩

/-! ### The jobs of the operators -/

/-- **What a step does to the jobs of its node**: one ends, one is started, or they stay. -/
lemma JobNode.step_jobs {name : String} {table : JobTable} {now : ℤ} {node node' : JobNode}
    {ev : NodeEvent} (h : node.step cl name table now ev = some node') :
    (∃ i, node.concludes ev = some i ∧ node'.jobs = node.jobs.eraseIdx i) ∨
      (∃ job, node.Starts cl name table now ev job ∧ node'.jobs = node.jobs ++ [job]) ∨
      (node.concludes ev = none ∧ node'.jobs = node.jobs) := by
  have hoperates := (JobNode.step_spec h).1
  unfold JobNode.jobs
  generalize node'.operators = operators' at hoperates ⊢
  cases hoperates with
  | @ended i hconcludes => exact .inl ⟨i, hconcludes, by rw [List.eraseIdx_map]⟩
  | @started job plan _ hstarts _ => exact .inr (.inl ⟨job, hstarts, by simp⟩)
  | @stepped i o o' oe hnone ho ho' =>
      refine .inr (.inr ⟨hnone, ?_⟩)
      -- the operator keeps its place and its job
      obtain ⟨hi, rfl⟩ := List.getElem?_eq_some_iff.mp ho
      have hi' : i < (node.operators.map WorkshopOperator.job).length := by simpa using hi
      have hset := List.set_getElem_self hi'
      rwa [List.getElem_map, ← (WorkshopOperator.step_keeps ho').1, ← List.map_set] at hset
  | kept hnone => exact .inr (.inr ⟨hnone, rfl⟩)

/-- **How an operator is started**: by the claim of its job, with the interval of its plan. -/
lemma JobNode.starts_spec {name : String} {table : JobTable} {now : ℤ} {node node' : JobNode}
    {ev : NodeEvent} {job : WorkshopJob} (hstarts : node.Starts cl name table now ev job)
    (h : node.step cl name table now ev = some node') :
    ∃ plan timeout, cl.interval plan.timeout = some timeout ∧
      node.statement cl name now ev = some (.claimJob name job.id timeout now) ∧
      0 < table.affected (claimJob name job.id timeout now) ∧
      node'.operators = node.operators ++ [WorkshopOperator.create now job plan] := by
  obtain ⟨rfl, hready, plan, pass, timeout, hhandler, htimeout, haff⟩ := hstarts
  refine ⟨plan, timeout, htimeout, ?_, haff, ?_⟩
  · simp [JobNode.statement, JobNode.handlerStatement, hready, hhandler, htimeout]
  · simp only [JobNode.step, hready, Bool.not_true, Bool.and_false, Bool.false_eq_true, if_false,
      JobNode.resume, hhandler, JobNode.claimRow, htimeout, haff.ne', Option.some.injEq] at h
    rw [← h, JobNode.startWorkshopJob_operators]

/-! ### The fetched jobs -/

lemma JobNode.endPass_fetched (node : JobNode) (pass : Pass) :
    (node.endPass pass).handler.fetched = [] := by
  unfold JobNode.endPass JobNode.finishRun
  split
  · rfl
  · split <;> rfl

lemma ofRow_of_makeJob {row : JobRow} {job : WorkshopJob} (h : makeJob row = .ok job) :
    job = .ofRow row := by
  unfold makeJob at h
  split at h
  · cases h
  · exact (Except.ok.inj h).symm

/-- `RunResult` at a row only goes through what was fetched. -/
lemma JobNode.checkRow_fetched {node : JobNode} {name : String} {now : ℤ} {pass : Pass}
    {job : WorkshopJob} (h : job ∈ (node.checkRow cl name now pass).handler.fetched) :
    job ∈ pass.rest.map WorkshopJob.ofRow := by
  unfold JobNode.checkRow at h
  split at h
  · rw [JobNode.endPass_fetched] at h
    exact absurd h (by simp)
  · rename_i row rest hrest
    rw [hrest, List.map_cons]
    split at h
    · rw [JobNode.endPass_fetched] at h
      exact absurd h (by simp)
    · split at h
      · exact absurd h (by simp [Handler.fetched])
      · rename_i job' hmake
        split at h
        · exact List.mem_cons_of_mem _ h
        · split at h
          · exact List.mem_cons_of_mem _ h
          · rwa [← ofRow_of_makeJob hmake]

lemma JobNode.checkLimit_fetched {node : JobNode} {name : String} {table : JobTable} {now : ℤ}
    {job job' : WorkshopJob} {plan : Plan} {limits : List RateLimit} {pass : Pass}
    (h : job' ∈ (node.checkLimit cl name table now job plan limits pass).handler.fetched) :
    job' ∈ job :: pass.rest.map WorkshopJob.ofRow := by
  unfold JobNode.checkLimit at h
  split at h
  · exact h
  · simp only at h
    split at h
    · rw [JobNode.setRateLimited_handler] at h
      exact List.mem_cons_of_mem _ h
    · exact h

lemma JobNode.claimRow_fetched {node : JobNode} {name : String} {table : JobTable} {now : ℤ}
    {job job' : WorkshopJob} {plan : Plan} {pass : Pass}
    (h : job' ∈ (node.claimRow cl name table now job plan pass).handler.fetched) :
    job' ∈ pass.rest.map WorkshopJob.ofRow := by
  unfold JobNode.claimRow at h
  split at h
  · exact absurd h (by simp [Handler.fetched])
  · simp only at h
    split at h
    · exact h
    · rwa [JobNode.startWorkshopJob_handler] at h

/-- `select_new_jobs` returns rows of the table that meet its condition. -/
lemma JobNode.mem_selectJobs {node : JobNode} {table : JobTable} {now : ℤ} {limit : ℕ}
    {lowprio : Bool} {r : JobRow} (h : r ∈ node.selectJobs table now limit lowprio) :
    r ∈ table.rows ∧ isEligible now r = true := by
  unfold JobNode.selectJobs at h
  simp only at h
  split at h <;> exact mem_selectNewJobs h

/-- The step fetches the job: it is that of an eligible row. -/
def JobNode.Fetches (table : JobTable) (now : ℤ) (node : JobNode) (ev : NodeEvent)
    (job : WorkshopJob) : Prop :=
  ev = .resume ∧ (∃ pass, node.handler = .select pass) ∧
    ∃ r ∈ table.rows, isEligible now r = true ∧ job = .ofRow r

lemma JobNode.resume_fetched {name : String} {table : JobTable} {now : ℤ} {node node' : JobNode}
    {job : WorkshopJob} (h : node.resume cl name table now = some node')
    (hjob : job ∈ node'.handler.fetched) :
    job ∈ node.handler.fetched ∨ node.Fetches table now .resume job := by
  unfold JobNode.resume at h
  split at h
  · exact absurd h (by simp)
  · rename_i pass hhandler
    obtain rfl := Option.some.inj h
    obtain ⟨r, hr, rfl⟩ := List.mem_map.mp hjob
    obtain ⟨hmem, heligible⟩ := JobNode.mem_selectJobs hr
    exact .inr ⟨rfl, ⟨pass, hhandler⟩, r, hmem, heligible, rfl⟩
  · rename_i hhandler
    obtain rfl := Option.some.inj h
    rw [hhandler]
    exact .inl (JobNode.checkRow_fetched hjob)
  · rename_i hhandler
    obtain rfl := Option.some.inj h
    rw [hhandler]
    exact .inl (JobNode.checkLimit_fetched hjob)
  · rename_i hhandler
    obtain rfl := Option.some.inj h
    rw [hhandler]
    exact .inl (List.mem_cons_of_mem _ (JobNode.claimRow_fetched hjob))
  · obtain rfl := Option.some.inj h
    exact absurd hjob (by simp [Handler.fetched])
  · obtain rfl := Option.some.inj h
    rw [JobNode.onExit_handler] at hjob
    exact absurd hjob (by simp [Handler.fetched])

/-- A statement that fails fetches nothing. -/
lemma Fails.fetched {name : String} {now : ℤ} {node node' : JobNode} {job : WorkshopJob}
    (h : Fails cl name now node node') (hjob : job ∈ node'.handler.fetched) :
    job ∈ node.handler.fetched := by
  cases h with
  | aborted _ => exact absurd hjob (by simp [Handler.fetched])
  | skipped hhandler hrest =>
      rw [hhandler, Handler.fetched, hrest]
      exact List.mem_cons_of_mem _ hjob
  | unlimited hhandler =>
      rw [hhandler]
      exact hjob
  | uncounted _ => exact absurd hjob (by simp [Handler.fetched])
  | concluded _ =>
      rw [JobNode.onExit_handler] at hjob
      exact absurd hjob (by simp [Handler.fetched])

/-- **What a step does to the fetched jobs of its node**: it goes through them, and `resume` in
front of `select_new_jobs` fetches new ones. -/
lemma JobNode.step_fetched {name : String} {table : JobTable} {now : ℤ} {node node' : JobNode}
    {ev : NodeEvent} {job : WorkshopJob} (h : node.step cl name table now ev = some node')
    (hjob : job ∈ node'.handler.fetched) :
    job ∈ node.handler.fetched ∨ node.Fetches table now ev job := by
  obtain hsame | hnone | ⟨rfl, hresume⟩ | ⟨rfl, hfails⟩ := (JobNode.step_spec h).2
  · rw [hsame] at hjob
    exact .inl hjob
  · rw [hnone] at hjob
    exact absurd hjob (by simp)
  · exact JobNode.resume_fetched hresume hjob
  · exact .inl (hfails.fetched hjob)

/-! ### The cluster -/

/-- The clock never goes back. -/
lemma now_le_of_step (h : step cl s e = some t) : s.now ≤ t.now := by
  unfold step at h
  split at h
  · obtain rfl := Option.some.inj h
    simp
  · obtain ⟨_, _, rfl⟩ := Option.map_eq_some_iff.mp h
    exact le_refl _
  · obtain rfl := Option.some.inj h
    exact le_refl _
  · obtain rfl := Option.some.inj h
    exact le_refl _
  · obtain ⟨_, _, rfl⟩ := Option.map_eq_some_iff.mp h
    exact le_refl _

/-- **What a step does to the table.**  It inserts a new job at the next id, or executes its
`UPDATE` and its `DELETE`, if it has one. -/
lemma step_table (h : step cl s e = some t) :
    (∃ job, e = .insert job ∧ s.table.insert (job.row s.nextId s.now) = some t.table ∧
        t.nextId = s.nextId + 1) ∨
      ((∀ k, t.table.find? k = (s.tableAfter cl e).find? k) ∧ t.nextId = s.nextId) := by
  unfold step at h
  split at h
  · obtain rfl := Option.some.inj h
    refine .inr ⟨fun k => ?_, rfl⟩
    rw [State.tableAfter, Table.find?_delete]
    show s.table.find? k = (s.table.find? k).filter fun _ => true
    rcases s.table.find? k with _ | r <;> rfl
  · rename_i job
    obtain ⟨t', ht', rfl⟩ := Option.map_eq_some_iff.mp h
    exact .inl ⟨job, rfl, ht', rfl⟩
  · obtain rfl := Option.some.inj h
    exact .inr ⟨fun _ => rfl, rfl⟩
  · obtain rfl := Option.some.inj h
    exact .inr ⟨fun _ => rfl, rfl⟩
  · obtain ⟨_, _, rfl⟩ := Option.map_eq_some_iff.mp h
    exact .inr ⟨fun _ => rfl, rfl⟩

/-- An event that deletes rows updates none. -/
lemma deletes_rowAfter (cl : JobCluster) (s : State) (e : Event) (r : JobRow) :
    e.deletes s (rowAfter cl s e r) = e.deletes s r := by
  unfold Event.deletes
  split <;> rfl

/-- The rows after a step that deletes none: what the step makes of the rows before it, and at most
one new row after them. -/
lemma step_rows (h : step cl s e = some t) (hkept : ∀ r ∈ s.table.rows, e.deletes s r = false) :
    ∃ new, t.table.rows = s.table.rows.map (rowAfter cl s e) ++ new := by
  have hsame : (∀ r, rowAfter cl s e r = r) → s.table.rows.map (rowAfter cl s e) = s.table.rows :=
    fun hid => (List.map_congr_left fun r _ => hid r).trans (List.map_id' _)
  have hafter : (s.tableAfter cl e).rows = s.table.rows.map (rowAfter cl s e) := by
    refine (List.filter_eq_self.mpr fun r' hr' => ?_).trans (Table.rows_tableAfter _ _)
    obtain ⟨r, hr, rfl⟩ := Table.mem_tableAfter.mp hr'
    show (!e.deletes s (rowAfter cl s e r)) = true
    rw [deletes_rowAfter, hkept r hr]
    rfl
  unfold step at h
  split at h
  · obtain rfl := Option.some.inj h
    exact ⟨[], by rw [List.append_nil, hsame fun r => rfl]⟩
  · rename_i job
    obtain ⟨t', ht', rfl⟩ := Option.map_eq_some_iff.mp h
    exact ⟨[job.row s.nextId s.now], by rw [hsame fun r => rfl]; exact Table.rows_insert ht'⟩
  · obtain rfl := Option.some.inj h
    exact ⟨[], by rw [List.append_nil]; exact hafter⟩
  · obtain rfl := Option.some.inj h
    exact ⟨[], by rw [List.append_nil]; exact hafter⟩
  · obtain ⟨_, _, rfl⟩ := Option.map_eq_some_iff.mp h
    exact ⟨[], by rw [List.append_nil]; exact hafter⟩

lemma nextId_le_of_step (h : step cl s e = some t) : s.nextId ≤ t.nextId := by
  obtain ⟨_, _, _, hnext⟩ | ⟨_, hnext⟩ := step_table h
  · rw [hnext]
    exact Nat.le_succ _
  · exact hnext.ge

/-- What a step does to a row that it does not delete. -/
lemma step_find? (h : step cl s e = some t) {j : ℕ} {r : JobRow} (hr : s.table.find? j = some r)
    (hdel : e.deletes s r = false) : t.table.find? j = some (rowAfter cl s e r) := by
  obtain ⟨job, rfl, hins, _⟩ | ⟨hfind, _⟩ := step_table h
  · obtain ⟨hfree, hfind⟩ := Table.find?_insert hins j
    have hne : (job.row s.nextId s.now).id ≠ j := fun heq => by simp [← heq, hfree] at hr
    rw [hfind, if_neg hne]
    exact hr
  · rw [hfind, State.tableAfter, Table.find?_delete, Table.find?_tableAfter, hr, Option.map_some]
    exact Option.filter_some_pos (by rw [← rowAfter, deletes_rowAfter, hdel]; rfl)

/-- Where a row comes from: it was there before the step, or is a new job of a client. -/
lemma find?_step (h : step cl s e = some t) {j : ℕ} {r' : JobRow}
    (hr' : t.table.find? j = some r') :
    (∃ r, s.table.find? j = some r ∧ e.deletes s r = false ∧ r' = rowAfter cl s e r) ∨
      (∃ job, e = .insert job ∧ j = s.nextId ∧ t.nextId = s.nextId + 1 ∧
        r' = NewJob.row job j s.now) := by
  obtain ⟨job, rfl, hins, hnext⟩ | ⟨hfind, _⟩ := step_table h
  · obtain ⟨_, hfind⟩ := Table.find?_insert hins j
    rw [hfind] at hr'
    by_cases hj : (job.row s.nextId s.now).id = j
    · rw [if_pos hj] at hr'
      obtain rfl := Option.some.inj hr'
      obtain rfl : s.nextId = j := hj
      exact .inr ⟨job, rfl, rfl, hnext, rfl⟩
    · rw [if_neg hj] at hr'
      exact .inl ⟨r', hr', rfl, rfl⟩
  · rw [hfind, State.tableAfter, Table.find?_delete, Table.find?_tableAfter] at hr'
    obtain ⟨hmap, hkeep⟩ := Option.filter_eq_some_iff.mp hr'
    obtain ⟨r, hr, rfl⟩ := Option.map_eq_some_iff.mp hmap
    rw [← rowAfter, deletes_rowAfter] at hkeep
    exact .inl ⟨r, hr, by simpa using hkeep, rfl⟩

lemma fresh_step (hfresh : ∀ j r, s.table.find? j = some r → j < s.nextId)
    (h : step cl s e = some t) {j : ℕ} {r' : JobRow} (hr' : t.table.find? j = some r') :
    j < t.nextId := by
  obtain ⟨r, hr, _, _⟩ | ⟨_, _, rfl, hnext, _⟩ := find?_step h hr'
  · exact Nat.lt_of_lt_of_le (hfresh j r hr) (nextId_le_of_step h)
  · rw [hnext]
    exact Nat.lt_succ_self _

/-- A step leaves a row as it is, or its statement updates it. -/
lemma rowAfter_cases (cl : JobCluster) (s : State) (e : Event) (r : JobRow) :
    rowAfter cl s e r = r ∨
      ∃ st, e.statement cl s = some st ∧ st.update.cond r = true ∧
        rowAfter cl s e r = st.update.set r := by
  obtain h | ⟨u, hu, hcond, hset⟩ :=
    Table.rowAfter_cases ((e.statement cl s).map Statement.update) r
  · exact .inl h
  · obtain ⟨st, hst, rfl⟩ := Option.map_eq_some_iff.mp hu
    exact .inr ⟨st, hst, hcond, hset⟩

/-- What a step with a statement that affects the row makes of it. -/
lemma rowAfter_of_statement {st : Statement} {r : JobRow} (hst : e.statement cl s = some st)
    (hcond : st.update.cond r = true) : rowAfter cl s e r = st.update.set r := by
  rw [rowAfter, hst, Option.map_some]
  exact Table.rowAfter_of_cond hcond

lemma rowAfter_of_none (hnone : e.statement cl s = none) (r : JobRow) : rowAfter cl s e r = r := by
  rw [rowAfter, hnone]
  rfl

/-- The other nodes do not notice a step. -/
lemma step_other (h : step cl s e = some t) {m : String} (hm : ∀ ev, e ≠ .node m ev) :
    t.nodes m = s.nodes m := by
  unfold step at h
  split at h
  · obtain rfl := Option.some.inj h
    rfl
  · obtain ⟨_, _, rfl⟩ := Option.map_eq_some_iff.mp h
    rfl
  · obtain rfl := Option.some.inj h
    rfl
  · obtain rfl := Option.some.inj h
    rfl
  · rename_i n ev
    obtain ⟨node, _, rfl⟩ := Option.map_eq_some_iff.mp h
    exact Function.update_of_ne (fun heq => hm ev (by rw [heq])) _ _

/-- What a step does to its own node. -/
lemma step_self {n : String} {ev : NodeEvent} (h : step cl s (.node n ev) = some t) :
    (s.nodes n).step cl n s.table s.now ev = some (t.nodes n) := by
  simp only [step] at h
  obtain ⟨node, hnode, rfl⟩ := Option.map_eq_some_iff.mp h
  simpa using hnode

/-- A step is one of the node `m`, or does not touch it. -/
lemma step_node_cases (h : step cl s e = some t) (m : String) :
    (∃ ev, e = .node m ev ∧ (s.nodes m).step cl m s.table s.now ev = some (t.nodes m)) ∨
      ((∀ ev, e ≠ .node m ev) ∧ t.nodes m = s.nodes m) := by
  by_cases hm : ∃ ev, e = .node m ev
  · obtain ⟨ev, rfl⟩ := hm
    exact .inl ⟨ev, rfl, step_self h⟩
  · exact .inr ⟨not_exists.mp hm, step_other h (not_exists.mp hm)⟩

/-- **Where fetched jobs come from**: they were there before, or are the jobs of eligible rows the
step reads and does not change. -/
lemma fetched_step (h : step cl s e = some t) {n : String} {job : WorkshopJob}
    (hjob : job ∈ (t.nodes n).handler.fetched) :
    job ∈ (s.nodes n).handler.fetched ∨
      (e.statement cl s = none ∧ ∃ r, s.table.find? job.id = some r ∧
        isEligible s.now r = true ∧ job = .ofRow r) := by
  obtain ⟨ev, rfl, hnode⟩ | ⟨_, hnode⟩ := step_node_cases h n
  · obtain hold | ⟨rfl, ⟨pass, hhandler⟩, r, hr, heligible, rfl⟩ := JobNode.step_fetched hnode hjob
    · exact .inl hold
    · refine .inr ⟨?_, r, Table.find?_eq_some.mpr ⟨hr, rfl⟩, heligible, rfl⟩
      simp [Event.statement, JobNode.statement, JobNode.handlerStatement, hhandler]
  · rw [hnode] at hjob
    exact .inl hjob

lemma known_step (hfresh : ∀ j r, s.table.find? j = some r → j < s.nextId)
    (hknown : ∀ n, ∀ job ∈ (s.nodes n).handler.fetched, job.id < s.nextId)
    (h : step cl s e = some t) {n : String} {job : WorkshopJob}
    (hjob : job ∈ (t.nodes n).handler.fetched) : job.id < t.nextId := by
  refine Nat.lt_of_lt_of_le ?_ (nextId_le_of_step h)
  obtain hold | ⟨_, r, hr, _, _⟩ := fetched_step h hjob
  · exact hknown n job hold
  · exact hfresh _ _ hr

/-- **The row of a fetched job**: what the step makes of the row it had when the job was fetched
before, or the eligible row the job was read from. -/
lemma fetched_row_step (hfresh : ∀ j r, s.table.find? j = some r → j < s.nextId)
    (hknown : ∀ n, ∀ job ∈ (s.nodes n).handler.fetched, job.id < s.nextId)
    (h : step cl s e = some t) {n : String} {job : WorkshopJob} {r' : JobRow}
    (hjob : job ∈ (t.nodes n).handler.fetched) (hr' : t.table.find? job.id = some r') :
    (job ∈ (s.nodes n).handler.fetched ∧
        ∃ r, s.table.find? job.id = some r ∧ r' = rowAfter cl s e r) ∨
      (isEligible s.now r' = true ∧ job = .ofRow r') := by
  obtain hold | ⟨hnone, r₀, hr₀, heligible, hdata⟩ := fetched_step h hjob
  · obtain ⟨r, hr, _, hafter⟩ | ⟨_, _, hid, _⟩ := find?_step h hr'
    · exact .inl ⟨hold, r, hr, hafter⟩
    · have hlt := hknown n job hold
      omega
  · obtain ⟨r, hr, _, hafter⟩ | ⟨_, _, hid, _⟩ := find?_step h hr'
    · obtain rfl := Option.some.inj (hr.symm.trans hr₀)
      rw [rowAfter_of_none hnone] at hafter
      rw [hafter]
      exact .inr ⟨heligible, hdata⟩
    · have hlt := hfresh _ _ hr₀
      omega

end Inversion

end Workshop.Jobs

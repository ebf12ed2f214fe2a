import Workshop.Lib.Roster
import Workshop.Cron.System

/-!
# The cron workplace

A `CronPartition` (`src/cron/Partition.cxx`) with its queue and the `Running` objects of its
`CronWorkplace` (`src/cron/Workplace.cxx`), seen from one event of the event loop to the next.

In `Workshop.Cron.System` a running job is a row of a list; here it is an object with a coroutine
(`CoStart`), which waits for the translation server, then for the process to be spawned, then for
its result.  Each of these may be there at once, so that a job can be over before `Start` returns,
and each may fail.  Besides, the object has a kill timer, and the workplace can cancel it.

What the partition does is recorded (`Action`).  The main results are that every object is
concluded exactly once, whatever happens in which order, by which events (`removed_iff`), and that
the partition keeps to its capacity.
-/

namespace Workshop.Cron

open Workshop.Lib

/-! ## Running objects -/

/-- `CronResult`. -/
structure CronResult where
  log : String
  exitStatus : ℤ
  deriving DecidableEq, Repr

/-- `CronResult::Error`. -/
def CronResult.error (log : String) : CronResult := { log, exitStatus := -1 }

/-- What `MakeOperator` reads of `ExecuteOptions`. -/
structure ExecuteOptions where
  tag : String
  uidGidIsEmpty : Bool
  execute : Option String
  args : List String
  deriving DecidableEq, Repr

/-- What `MakeOperator` reads of `TranslateResponse`. -/
structure TranslateResponse where
  status : ℕ
  message : Option String
  site : Option String
  timeout : ℤ
  executeOptions : Option ExecuteOptions
  deriving DecidableEq, Repr

/-- What the coroutine of a job waits for: `TranslateCron`, then the spawn service
(`CoEnqueueSpawner`), then the process (`CoWaitSpawnCompletion`), then the operator. -/
inductive Phase
  | translating
  | enqueued
  | spawning
  | operating
  deriving DecidableEq, Repr

/-- What the coroutine has waited for. -/
inductive Awaited
  | response (r : TranslateResponse)
  | dequeued
  | spawned
  | result (r : CronResult)
  | failed (message : String)
  deriving DecidableEq, Repr

/-- `CronWorkplace::Running`, with the number of the object and what its coroutine waits for. -/
structure RunningTask extends Running where
  number : ℕ
  startTime : String
  site : String
  tag : String := ""
  phase : Phase := .translating
  deriving DecidableEq, Repr

/-- What a partition is configured with; the two functions are those of the library with the same
names. -/
structure PartitionEnv where
  cluster : Cluster
  name : String
  debugMode : Bool
  stringListContains : String → Char → String → Bool
  getFullMessage : List String → String
  concurrency_pos : 0 < cluster.concurrency name

/-- How far a coroutine gets: it waits again, returns, or ends with an exception. -/
inductive Progress
  | waits (r : RunningTask)
  | returns (r : RunningTask) (result : CronResult)
  | throws (r : RunningTask) (messages : List String)

/-- `IsURL`. -/
def isURL (command : String) : Bool := "http://".isPrefixOf command || "https://".isPrefixOf command

/-- The checks of `MakeSpawnOperator`, for a job that is not a URL: the message of the exception. -/
def spawnError (debugMode : Bool) (job : CronJob) (options : ExecuteOptions) : Option String :=
  if options.uidGidIsEmpty && !debugMode then some "No UID_GID from translation server"
  else if "urn:".isPrefixOf job.command then
    if options.execute.isNone then some "No EXECUTE from translation server"
    else if 4096 ≤ options.args.length then
      some "Too many APPEND packets from translation server"
    else none
  else none

namespace RunningTask

/-- `IsTag`. -/
def isTag (env : PartitionEnv) (r : RunningTask) (tag : String) : Bool :=
  env.stringListContains r.tag (Char.ofNat 0) tag

/-- What `MakeOperator` takes over from the response. -/
def applyResponse (now : ℤ) (r : RunningTask) (response : TranslateResponse)
    (options : ExecuteOptions) : RunningTask :=
  { r with
    site := response.site.getD r.site
    tag := if options.tag = "" then r.tag else options.tag
    timeoutEvent := if 0 < response.timeout then some (now + response.timeout) else r.timeoutEvent }

/-- `MakeOperator` after the answer of the translation server. -/
def onResponse (env : PartitionEnv) (now : ℤ) (r : RunningTask) (response : TranslateResponse) :
    Progress :=
  if response.status ≠ 0 then
    match response.message with
    | some message =>
      .throws r ["Status " ++ toString response.status ++ " from translation server: " ++ message]
    | none => .throws r ["Status " ++ toString response.status ++ " from translation server"]
  else
    match response.executeOptions with
    | none => .throws r ["No spawner options from translation server"]
    | some options =>
      let r := r.applyResponse now response options
      match if isURL r.job.command then none else spawnError env.debugMode r.job options with
      | some message => .throws r [message]
      | none => .waits { r with phase := .enqueued }

/-- `CoStart`, from one suspension point to the next; `none` if this is not what the coroutine
waits for.  The operator cannot fail, only have a result. -/
def coStart (env : PartitionEnv) (now : ℤ) (r : RunningTask) : Awaited → Option Progress
  | .response response =>
    if r.phase = .translating then some (r.onResponse env now response) else none
  | .dequeued => if r.phase = .enqueued then some (.waits { r with phase := .spawning }) else none
  | .spawned => if r.phase = .spawning then some (.waits { r with phase := .operating }) else none
  | .result result => if r.phase = .operating then some (.returns r result) else none
  | .failed message =>
    match r.phase with
    | .translating => some (.throws r ["Translation failed", message])
    | .enqueued | .spawning => some (.throws r [message])
    | .operating => none

end RunningTask

/-! ## The partition -/

/-- What a partition does: it executes `claim_job` (recorded with `IsEnabled` at that time), starts
a `Running` object, lets one handle an event, calls `Finish` and `InsertResult` for one, and removes
and deletes one. -/
inductive Action
  | claim (id : ℕ) (enabled : Bool)
  | started (k : ℕ) (job : CronJob)
  | handled (k : ℕ)
  | finish (k : ℕ) (job : CronJob)
  | insertResult (k : ℕ) (job : CronJob) (startTime : String) (result : CronResult)
  | removed (k : ℕ)
  deriving DecidableEq, Repr

/-- The object an action is about. -/
def Action.number : Action → Option ℕ
  | .claim _ _ => none
  | .started k _ | .handled k | .finish k _ | .insertResult k _ _ _ | .removed k => some k

/-- `CronPartition`.  The running objects of the queue are those of the workplace; `created` is how
many there have been. -/
structure CronPartition where
  queue : CronNode := {}
  running : List RunningTask := []
  created : ℕ := 0
  actions : List Action := []

/-- What a job meets on its way through `OnJob`: whether it is sticky on another node, whether
`claim_job` succeeds, the answer of `GetNow`, if it is not an exception, and what is there at once
of that for which the coroutine waits. -/
structure JobAnswers where
  nonLocal : Bool
  claimed : Bool
  getNow : Option String
  awaited : List Awaited

/-- A round of `RunClaim`: there is no pending job, or none yet, one of the two queries throws,
`check_pending` finds nothing, or it finds a job. -/
inductive ClaimRound
  | nothing
  | later
  | throws
  | empty
  | job (job : CronJob) (answers : JobAnswers)

namespace CronPartition

variable (env : PartitionEnv) (now : ℤ) (p : CronPartition)

/-- `IsFull`. -/
def isFull : Bool := env.cluster.concurrency env.name ≤ p.running.length

/-- Record actions. -/
def record (actions : List Action) : CronPartition := { p with actions := p.actions ++ actions }

/-- `SetResult`: `Finish` and `InsertResult`. -/
def setResult (r : RunningTask) (result : CronResult) : CronPartition :=
  p.record [.finish r.number r.job, .insertResult r.number r.job r.startTime result]

/-- `CronPartition::OnChildProcessExit`. -/
def onChildProcessExit : CronPartition :=
  if p.isFull env then p else { p with queue := p.queue.enableFull }

/-- `CronWorkplace::OnCompletion`. -/
def workplaceOnCompletion (r : RunningTask) : CronPartition :=
  ({ p with running := p.running.filter fun x => x.number ≠ r.number }.record
    [.removed r.number]).onChildProcessExit env

/-- `Running::OnCompletion`. -/
def onCompletion (r : RunningTask) (error : Option (List String)) : CronPartition :=
  match error with
  | some messages =>
      (p.setResult r (.error (env.getFullMessage messages))).workplaceOnCompletion env r
  | none => p.workplaceOnCompletion env r

/-- `Running::OnTimeout`. -/
def onTimeout (r : RunningTask) : CronPartition :=
  ((p.record [.handled r.number]).setResult r (.error "Timeout")).workplaceOnCompletion env r

/-- `Running::Cancel`, and the object is deleted. -/
def cancel (p : CronPartition) (r : RunningTask) : CronPartition :=
  ((p.record [.handled r.number]).setResult r (.error "Canceled")).record [.removed r.number]

/-- `CancelAll`. -/
def cancelAll : CronPartition :=
  if p.running = [] then p
  else (p.running.foldl cancel { p with running := [] }).onChildProcessExit env

/-- `CancelTag`. -/
def cancelTag (tag : String) : CronPartition :=
  let gone := p.running.filter fun r => r.isTag env tag
  let p := gone.foldl cancel { p with running := p.running.filter fun r => !r.isTag env tag }
  if gone = [] then p else p.onChildProcessExit env

/-- The state of an object has changed. -/
def update (r : RunningTask) : CronPartition :=
  { p with running := p.running.map fun x => if x.number = r.number then r else x }

/-- The coroutine of an object goes on, as long as that for which it waits is there. -/
def resume (p : CronPartition) (r : RunningTask) : List Awaited → Option CronPartition
  | [] => some p
  | a :: rest => do
    match ← r.coStart env now a with
    | .waits r' => resume ((p.record [.handled r'.number]).update r') r' rest
    | .returns r' result =>
      return (((p.record [.handled r'.number]).update r').setResult r' result).onCompletion
        env r' none
    | .throws r' messages =>
      return ((p.record [.handled r'.number]).update r').onCompletion env r' (some messages)

/-- The constructor of `Running`, with the timer that `Running::Start` schedules. -/
def create (job : CronJob) (startTime : String) : RunningTask where
  toRunning := CronNode.startedJob env.cluster env.name now job
  number := p.created
  startTime := startTime
  site := job.accountId

/-- A new object is put into the list. -/
def pushBack (r : RunningTask) : CronPartition :=
  { p with running := p.running ++ [r], created := p.created + 1 }.record [.started r.number r.job]

/-- `CronWorkplace::Start` and `Running::Start`. -/
def start (job : CronJob) (startTime : String) (awaited : List Awaited) : Option CronPartition :=
  let r := p.create env now job startTime
  (p.pushBack r).resume env now r awaited

/-- `DisableFull`, if the workplace is full. -/
def disableIfFull : CronPartition :=
  if p.isFull env then { p with queue := { p.queue with disabledFull := true } } else p

/-- `OnJob`. -/
def onJob (job : CronJob) (answers : JobAnswers) : Option CronPartition :=
  if answers.nonLocal then some p
  else
    let p := p.record [.claim job.id p.queue.isEnabled]
    if !answers.claimed then some p
    else
      match answers.getNow with
      -- the exception is caught, and the job is not started
      | none => some (p.disableIfFull env)
      | some startTime => (p.start env now job startTime answers.awaited).map fun p =>
          p.disableIfFull env

/-- `ScheduleClaim`. -/
def scheduleClaim : CronPartition := { p with queue := { p.queue with claimTimer := true } }

/-- The loop of `RunClaim`.  `CheckPending` asks `IsEnabled` before its query and after each job. -/
def runClaim (p : CronPartition) : List ClaimRound → Option CronPartition
  | [] => none
  | .nothing :: _ | .throws :: _ => some p
  | .later :: _ => some p.scheduleClaim
  | .empty :: _ => some p.scheduleClaim
  | .job job answers :: rest =>
    if p.queue.isEnabled then do
      let p ← p.onJob env now job answers
      if p.queue.isEnabled then runClaim p rest else return p.scheduleClaim
    else some p.scheduleClaim

end CronPartition

/-- What can happen to a partition.  `resume` is the coroutine of an object that gets what it waits
for, and perhaps more that is there at once. -/
inductive PartitionEvent
  | connect
  | disconnect
  | setStateEnabled (enabled : Bool)
  | enableAdmin
  | disableAdmin
  | claimTimer (rounds : List ClaimRound)
  | resume (k : ℕ) (first : Awaited) (more : List Awaited)
  | timeout (k : ℕ)
  | cancelTag (tag : String)
  | beginShutdown

/-- The object with this number. -/
def CronPartition.find? (p : CronPartition) (k : ℕ) : Option RunningTask :=
  p.running.find? fun r => r.number == k

/-- One event of a partition, at the given time. -/
def CronPartition.step (env : PartitionEnv) (p : CronPartition) :
    ℤ × PartitionEvent → Option CronPartition
  | (_, .connect) => if p.queue.ready then none else some { p with queue := p.queue.onConnect }
  | (_, .disconnect) => some { p with queue := p.queue.onDisconnect }
  | (_, .setStateEnabled enabled) => some { p with queue := p.queue.setStateEnabled enabled }
  | (_, .enableAdmin) => some { p with queue := p.queue.enableAdmin }
  | (_, .disableAdmin) => some { p with queue := p.queue.disableAdmin }
  | (now, .claimTimer rounds) =>
    if p.queue.claimTimer then
      let p := { p with queue := { p.queue with claimTimer := false } }
      if p.queue.isEnabled then p.runClaim env now rounds else some p
    else none
  | (now, .resume k first more) => (p.find? k).bind fun r => p.resume env now r (first :: more)
  | (now, .timeout k) =>
    ((p.find? k).filter fun r => r.timeoutEvent.any fun t => t ≤ now).map fun r => p.onTimeout env r
  | (_, .cancelTag tag) => some (p.cancelTag env tag)
  | (_, .beginShutdown) => some ({ p with queue := p.queue.disableAdmin }.cancelAll env)

/-! ## The life of an object -/

/-- The actions that are about one object. -/
def objectLog (k : ℕ) (actions : List Action) : List Action :=
  actions.filter fun a => a.number = some k

/-- The life of an object so far: it was started for the job and has handled events. -/
def Alive (k : ℕ) (job : CronJob) (log : List Action) : Prop :=
  ∃ n, log = .started k job :: List.replicate n (.handled k)

/-- A whole life: after the last event, `Finish` and `InsertResult` for the job the object was
started for, and then it is removed. -/
def Concluded (k : ℕ) (log : List Action) : Prop :=
  ∃ job startTime result n, log = .started k job :: List.replicate n (.handled k) ++
    [.finish k job, .insertResult k job startTime result, .removed k]

/-- **The invariant**: objects have different numbers, an object that is in the list is alive, and
one that is not in the list any more is concluded. -/
structure Lives (p : CronPartition) : Prop where
  nodup : (p.running.map fun r => r.number).Nodup
  created : ∀ r ∈ p.running, r.number < p.created
  unborn : ∀ k, p.created ≤ k → objectLog k p.actions = []
  alive : ∀ r ∈ p.running, Alive r.number r.job (objectLog r.number p.actions)
  concluded : ∀ k < p.created, (∀ r ∈ p.running, r.number ≠ k) →
    Concluded k (objectLog k p.actions)

/-- The end of an object, after some more events. -/
def conclusion (n : ℕ) (result : CronResult) (r : RunningTask) : List Action :=
  List.replicate n (.handled r.number) ++ [.finish r.number r.job,
    .insertResult r.number r.job r.startTime result, .removed r.number]

section Log

variable {k n : ℕ} {actions : List Action} {gone : List RunningTask} {result : CronResult}

@[simp] lemma objectLog_append (k : ℕ) (actions actions' : List Action) :
    objectLog k (actions ++ actions') = objectLog k actions ++ objectLog k actions' :=
  List.filter_append ..

/-- Actions about one object are all about it. -/
lemma objectLog_of_number (h : ∀ a ∈ actions, a.number = some k) (k' : ℕ) :
    objectLog k' actions = if k = k' then actions else [] := by
  by_cases hk : k = k'
  · rw [if_pos hk]
    exact List.filter_eq_self.mpr fun a ha => by simp [h a ha, hk]
  · rw [if_neg hk]
    exact List.filter_eq_nil_iff.mpr fun a ha => by simp [h a ha, hk]

lemma objectLog_singleton {a : Action} (h : a.number = some k) (k' : ℕ) :
    objectLog k' [a] = if k = k' then [a] else [] :=
  objectLog_of_number (fun _ hx => List.mem_singleton.mp hx ▸ h) k'

lemma conclusion_number (n : ℕ) (result : CronResult) (r : RunningTask) :
    ∀ a ∈ conclusion n result r, a.number = some r.number := by
  intro a ha
  simp only [conclusion, List.mem_append, List.mem_cons, List.not_mem_nil, or_false] at ha
  rcases ha with ha | rfl | rfl | rfl
  · rw [List.eq_of_mem_replicate ha]
    rfl
  all_goals rfl

/-- What the conclusions of several objects say about one number. -/
lemma objectLog_conclusions (k n : ℕ) (result : CronResult) (gone : List RunningTask) :
    objectLog k (gone.flatMap (conclusion n result)) =
      (gone.filter fun r => r.number = k).flatMap (conclusion n result) := by
  induction gone with
  | nil => rfl
  | cons r gone ih =>
      rw [List.flatMap_cons, objectLog_append, ih,
        objectLog_of_number (conclusion_number n result r)]
      by_cases hk : r.number = k <;> simp [hk]

lemma Alive.concluded {r : RunningTask} {log : List Action} (h : Alive r.number r.job log) (n : ℕ)
    (result : CronResult) : Concluded r.number (log ++ conclusion n result r) := by
  obtain ⟨m, rfl⟩ := h
  refine ⟨r.job, r.startTime, result, m + n, ?_⟩
  simp only [conclusion, List.cons_append, List.replicate_add, List.append_assoc]

lemma Alive.handled {job : CronJob} {log : List Action} (h : Alive k job log) :
    Alive k job (log ++ [.handled k]) := by
  obtain ⟨n, rfl⟩ := h
  exact ⟨n + 1, by rw [List.replicate_succ', List.cons_append]⟩

end Log

/-- The roster of a partition has its objects, with their numbers, and what was done about them. -/
structure Tracks (p : CronPartition) (roster : Roster RunningTask Action) : Prop where
  objects : roster.objects = p.running.map fun r => (r.number, r)
  created : roster.created = p.created
  logOf : ∀ k, roster.logOf k = objectLog k p.actions

section Tracks

variable {p : CronPartition} {roster : Roster RunningTask Action}

lemma Tracks.mem_iff (h : Tracks p roster) {k : ℕ} {r : RunningTask} :
    (k, r) ∈ roster.objects ↔ r ∈ p.running ∧ r.number = k := by
  rw [h.objects, List.mem_map]
  constructor
  · rintro ⟨r', hr', heq⟩
    obtain ⟨hk, rfl⟩ := Prod.mk.inj heq
    exact ⟨hr', hk⟩
  · rintro ⟨hr, rfl⟩
    exact ⟨r, hr, rfl⟩

lemma Lives.of_tracks (h : Tracks p roster)
    (hlives : roster.Lives (fun r => Alive r.number r.job) Concluded) : Lives p where
  nodup := by
    have hnodup := roster.nodup
    rw [h.objects, List.map_map] at hnodup
    exact hnodup
  created r hr := h.created ▸ roster.lt_created _ (h.mem_iff.mpr ⟨hr, rfl⟩)
  unborn k hk := h.logOf k ▸ hlives.unborn k (h.created.trans_le hk)
  alive r hr := h.logOf r.number ▸ hlives.alive r.number r (h.mem_iff.mpr ⟨hr, rfl⟩)
  concluded k hk hnone := by
    rw [← h.logOf]
    refine hlives.gone k (h.created ▸ hk) fun r hr => ?_
    obtain ⟨hr, hk⟩ := h.mem_iff.mp hr
    exact hnone r hr hk

/-- The actions about a number, as the log of a roster has them. -/
lemma objectLog_eq_map (k : ℕ) (actions : List Action) :
    ((actions.filterMap fun a => a.number.map fun k => (k, a)).filter fun q => q.1 = k).map
      Prod.snd = objectLog k actions := by
  induction actions with
  | nil => rfl
  | cons a actions ih =>
      cases hnumber : a.number with
      | none => simpa [objectLog, hnumber] using ih
      | some k' => by_cases hk : k' = k <;> simpa [objectLog, hnumber, hk] using ih

lemma Lives.exists_tracks (h : Lives p) :
    ∃ roster, Tracks p roster ∧ roster.Lives (fun r => Alive r.number r.job) Concluded := by
  let roster : Roster RunningTask Action :=
    { objects := p.running.map fun r => (r.number, r)
      created := p.created
      log := p.actions.filterMap fun a => a.number.map fun k => (k, a)
      nodup := by
        rw [List.map_map]
        exact h.nodup
      lt_created := fun q hq => by
        obtain ⟨r, hr, rfl⟩ := List.mem_map.mp hq
        exact h.created r hr }
  have htracks : Tracks p roster := ⟨rfl, rfl, fun k => objectLog_eq_map k p.actions⟩
  refine ⟨roster, htracks, fun k hk => ?_, fun k r hr => ?_, fun k hk hnone => ?_⟩
  · rw [htracks.logOf]
    exact h.unborn k hk
  · obtain ⟨hrunning, rfl⟩ := htracks.mem_iff.mp hr
    rw [htracks.logOf]
    exact h.alive r hrunning
  · rw [htracks.logOf]
    exact h.concluded k hk fun r hr heq => hnone r (htracks.mem_iff.mpr ⟨hr, heq⟩)

end Tracks

namespace Lives

variable {env : PartitionEnv} {now : ℤ} {p p' : CronPartition} {r : RunningTask}

/-- The queue has no part in the lives of the objects. -/
lemma congr (h : Lives p) (hrunning : p'.running = p.running) (hcreated : p'.created = p.created)
    (hactions : ∀ k, objectLog k p'.actions = objectLog k p.actions) : Lives p' := by
  obtain ⟨roster, htracks, hlives⟩ := h.exists_tracks
  refine .of_tracks ⟨?_, htracks.created.trans hcreated.symm, fun k => ?_⟩ hlives
  · rw [hrunning]
    exact htracks.objects
  · rw [hactions]
    exact htracks.logOf k

/-- **Objects are concluded**, and they are those that leave the list. -/
lemma conclude (h : Lives p) (sel : RunningTask → Bool) (n : ℕ) (result : CronResult)
    (hrunning : p'.running = p.running.filter fun r => !sel r) (hcreated : p'.created = p.created)
    (hactions : p'.actions = p.actions ++ (p.running.filter sel).flatMap (conclusion n result)) :
    Lives p' := by
  obtain ⟨roster, htracks, hlives⟩ := h.exists_tracks
  have htracks' : Tracks p' (roster.finish (fun q => sel q.2) (conclusion n result)) := by
    refine ⟨?_, htracks.created.trans hcreated.symm, fun k => ?_⟩
    · show roster.objects.filter (fun q => !sel q.2) = _
      rw [htracks.objects, hrunning, List.filter_map]
      rfl
    · rw [Roster.logOf_finish, htracks.logOf, htracks.objects, hactions, objectLog_append,
        objectLog_conclusions, List.filter_map, List.filter_map, List.flatMap_map]
      rfl
  refine .of_tracks htracks' (hlives.finish fun k r hr _ halive => ?_)
  obtain ⟨_, rfl⟩ := htracks.mem_iff.mp hr
  exact halive.concluded n result

end Lives

/-! ## What the operations do -/

/-- The object of a coroutine. -/
def Progress.task : Progress → RunningTask
  | .waits r | .returns r _ | .throws r _ => r

section Operations

variable {env : PartitionEnv} {now : ℤ} {p p' : CronPartition} {r r' : RunningTask}

/-- A coroutine changes neither the number nor the job of its object. -/
lemma RunningTask.coStart_keeps {a : Awaited} {progress : Progress}
    (h : r.coStart env now a = some progress) :
    progress.task.number = r.number ∧ progress.task.job = r.job := by
  cases a with
  | response response =>
      obtain ⟨_, rfl⟩ := of_guard h
      unfold RunningTask.onResponse
      split
      · split <;> exact ⟨rfl, rfl⟩
      · split
        · exact ⟨rfl, rfl⟩
        · dsimp only
          split <;> exact ⟨rfl, rfl⟩
  | dequeued =>
      obtain ⟨_, rfl⟩ := of_guard h
      exact ⟨rfl, rfl⟩
  | spawned =>
      obtain ⟨_, rfl⟩ := of_guard h
      exact ⟨rfl, rfl⟩
  | result result =>
      obtain ⟨_, rfl⟩ := of_guard h
      exact ⟨rfl, rfl⟩
  | failed message =>
      unfold RunningTask.coStart at h
      dsimp only at h
      split at h
      · obtain rfl := Option.some.inj h
        exact ⟨rfl, rfl⟩
      · obtain rfl := Option.some.inj h
        exact ⟨rfl, rfl⟩
      · obtain rfl := Option.some.inj h
        exact ⟨rfl, rfl⟩
      · exact absurd h (by simp)

@[simp] lemma CronPartition.onChildProcessExit_running (env : PartitionEnv) (p : CronPartition) :
    (p.onChildProcessExit env).running = p.running := by
  unfold CronPartition.onChildProcessExit
  split <;> rfl

@[simp] lemma CronPartition.onChildProcessExit_created (env : PartitionEnv) (p : CronPartition) :
    (p.onChildProcessExit env).created = p.created := by
  unfold CronPartition.onChildProcessExit
  split <;> rfl

@[simp] lemma CronPartition.onChildProcessExit_actions (env : PartitionEnv) (p : CronPartition) :
    (p.onChildProcessExit env).actions = p.actions := by
  unfold CronPartition.onChildProcessExit
  split <;> rfl

lemma CronPartition.record_nil (p : CronPartition) : p.record [] = p := by
  simp [CronPartition.record]

lemma CronPartition.foldl_cancel (gone : List RunningTask) (p : CronPartition) :
    gone.foldl cancel p =
      p.record (gone.flatMap (conclusion 1 (.error "Canceled"))) := by
  induction gone generalizing p with
  | nil => simp [record]
  | cons r gone ih =>
      rw [List.foldl_cons, ih, List.flatMap_cons]
      simp [cancel, setResult, record, conclusion]

lemma CronPartition.mem_update (hr : r ∈ p.running) (hnumber : r'.number = r.number) :
    r' ∈ (p.update r').running :=
  List.mem_map.mpr ⟨r, hr, if_pos hnumber.symm⟩

/-- **The rule of the coroutine**: it handles what is there, one after the other, until nothing is
left or the object is concluded. -/
lemma CronPartition.resume_rule {I : CronPartition → RunningTask → CronPartition → Prop}
    {awaited : List Awaited} (hnil : ∀ {p r}, r ∈ p.running → I p r p)
    (hwaits : ∀ {p p' r r'}, r ∈ p.running → r'.number = r.number → r'.job = r.job →
      I ((p.record [.handled r'.number]).update r') r' p' → I p r p')
    (hend : ∀ {p r r'} (result : CronResult), r ∈ p.running → r'.number = r.number →
      r'.job = r.job → I p r ((((p.record [.handled r'.number]).update r').setResult r'
        result).workplaceOnCompletion env r'))
    (hr : r ∈ p.running) (hp' : p.resume env now r awaited = some p') : I p r p' := by
  induction awaited generalizing p r with
  | nil =>
      obtain rfl := Option.some.inj hp'
      exact hnil hr
  | cons a rest ih =>
      simp only [CronPartition.resume, Option.bind_eq_bind, Option.bind_eq_some_iff] at hp'
      obtain ⟨progress, hprogress, hp'⟩ := hp'
      obtain ⟨hnumber, hjob⟩ := RunningTask.coStart_keeps hprogress
      cases progress with
      | waits r' => exact hwaits hr hnumber hjob (ih (mem_update hr hnumber) hp')
      | returns r' result =>
          obtain rfl := Option.some.inj hp'
          exact hend result hr hnumber hjob
      | throws r' messages =>
          obtain rfl := Option.some.inj hp'
          exact hend (.error (env.getFullMessage messages)) hr hnumber hjob

end Operations

namespace Lives

variable {env : PartitionEnv} {now : ℤ} {p p' : CronPartition} {r r' : RunningTask}

lemma conclude_one (env : PartitionEnv) (h : Lives p) (hr : r ∈ p.running) (n : ℕ)
    (result : CronResult) :
    Lives (((p.record (List.replicate n (.handled r.number))).setResult r
      result).workplaceOnCompletion env r) := by
  refine h.conclude (fun x => x.number = r.number) n result ?_ ?_ ?_
  · simp [CronPartition.workplaceOnCompletion, CronPartition.setResult, CronPartition.record]
  · simp [CronPartition.workplaceOnCompletion, CronPartition.setResult, CronPartition.record]
  · rw [KeyedList.filter_of_nodup h.nodup hr, List.flatMap_singleton]
    simp [CronPartition.workplaceOnCompletion, CronPartition.setResult, CronPartition.record,
      conclusion]

lemma handle (h : Lives p) (hr : r ∈ p.running) (hnumber : r'.number = r.number)
    (hjob : r'.job = r.job) : Lives ((p.record [.handled r'.number]).update r') := by
  obtain ⟨roster, htracks, hlives⟩ := h.exists_tracks
  have hmem : (r'.number, r) ∈ roster.objects := htracks.mem_iff.mpr ⟨hr, hnumber.symm⟩
  have htracks' : Tracks ((p.record [.handled r'.number]).update r')
      (roster.update r'.number r' [.handled r'.number]) := by
    refine ⟨?_, htracks.created, fun k => ?_⟩
    · simp only [Roster.update, htracks.objects, CronPartition.update, CronPartition.record,
        List.map_map]
      refine List.map_congr_left fun x _ => ?_
      by_cases heq : x.number = r'.number <;> simp [heq]
    · show _ = objectLog k (p.actions ++ [.handled r'.number])
      rw [Roster.logOf_update, htracks.logOf, objectLog_append,
        objectLog_singleton (a := .handled r'.number) rfl]
  refine .of_tracks htracks' (hlives.update hmem fun halive => ?_)
  rw [hjob, hnumber]
  rw [hnumber] at halive
  exact halive.handled

lemma resume {awaited : List Awaited} (h : Lives p) (hr : r ∈ p.running)
    (hp' : p.resume env now r awaited = some p') : Lives p' := by
  refine CronPartition.resume_rule (I := fun p _ p' => Lives p → Lives p') (fun _ h => h)
    (fun hr hnumber hjob ih h => ih (h.handle hr hnumber hjob)) ?_ hr hp' h
  intro p r r' result hr hnumber hjob h
  have hend := (h.handle hr hnumber hjob).conclude_one env (CronPartition.mem_update hr hnumber) 0
    result
  rwa [List.replicate_zero, CronPartition.record_nil] at hend

lemma pushBack (h : Lives p) (hnumber : r.number = p.created) : Lives (p.pushBack r) := by
  obtain ⟨roster, htracks, hlives⟩ := h.exists_tracks
  have hcreated : roster.created = r.number := htracks.created.trans hnumber.symm
  have htracks' : Tracks (p.pushBack r) (roster.start r [.started r.number r.job]) := by
    refine ⟨?_, congrArg (· + 1) htracks.created, fun k => ?_⟩
    · show roster.objects ++ [(roster.created, r)] = (p.running ++ [r]).map _
      rw [htracks.objects, hcreated, List.map_append, List.map_singleton]
    · show _ = objectLog k (p.actions ++ [.started r.number r.job])
      rw [Roster.logOf_start, htracks.logOf, objectLog_append,
        objectLog_singleton (a := .started r.number r.job) rfl, hcreated]
  exact .of_tracks htracks' (hlives.start ⟨0, rfl⟩)

lemma cancel (h : Lives p) (sel : RunningTask → Bool) :
    Lives ((p.running.filter sel).foldl CronPartition.cancel
      { p with running := p.running.filter fun r => !sel r }) := by
  rw [CronPartition.foldl_cancel]
  exact h.conclude sel 1 (.error "Canceled") rfl rfl rfl

lemma onChildProcessExit (env : PartitionEnv) (h : Lives p) : Lives (p.onChildProcessExit env) :=
  h.congr (by simp) (by simp) fun k => by rw [CronPartition.onChildProcessExit_actions]

lemma disableIfFull (env : PartitionEnv) (h : Lives p) : Lives (p.disableIfFull env) := by
  unfold CronPartition.disableIfFull
  split
  · exact h.congr rfl rfl fun _ => rfl
  · exact h

lemma onJob {job : CronJob} {answers : JobAnswers} (h : Lives p)
    (hp' : p.onJob env now job answers = some p') : Lives p' := by
  have hclaim : Lives (p.record [.claim job.id p.queue.isEnabled]) :=
    h.congr rfl rfl fun k => by simp [CronPartition.record, objectLog, Action.number]
  unfold CronPartition.onJob at hp'
  split at hp'
  · exact Option.some.inj hp' ▸ h
  · dsimp only at hp'
    split at hp'
    · exact Option.some.inj hp' ▸ hclaim
    · split at hp'
      · exact Option.some.inj hp' ▸ hclaim.disableIfFull env
      · obtain ⟨p₁, hstart, rfl⟩ := Option.map_eq_some_iff.mp hp'
        have hlives : Lives p₁ := (hclaim.pushBack rfl).resume (by simp [CronPartition.pushBack,
          CronPartition.record]) hstart
        exact hlives.disableIfFull env

lemma runClaim {rounds : List ClaimRound} (h : Lives p)
    (hp' : p.runClaim env now rounds = some p') : Lives p' := by
  have hschedule : ∀ {p}, Lives p → Lives p.scheduleClaim :=
    fun h => h.congr rfl rfl fun _ => rfl
  induction rounds generalizing p with
  | nil => exact absurd hp' (by simp [CronPartition.runClaim])
  | cons round rest ih =>
      cases round with
      | nothing => exact Option.some.inj hp' ▸ h
      | throws => exact Option.some.inj hp' ▸ h
      | later => exact Option.some.inj hp' ▸ hschedule h
      | empty => exact Option.some.inj hp' ▸ hschedule h
      | job job answers =>
          simp only [CronPartition.runClaim] at hp'
          split at hp'
          · obtain ⟨p₁, hjob, hp'⟩ := Option.bind_eq_some_iff.mp hp'
            split at hp'
            · exact ih (h.onJob hjob) hp'
            · exact Option.some.inj hp' ▸ hschedule (h.onJob hjob)
          · exact Option.some.inj hp' ▸ hschedule h

/-- **The step lemma**: every event keeps the lives of the objects in order. -/
lemma step {e : ℤ × PartitionEvent} (h : Lives p) (hp' : p.step env e = some p') : Lives p' := by
  have hqueue : ∀ queue, Lives { p with queue := queue } := fun _ => h.congr rfl rfl fun _ => rfl
  have hfind : ∀ {k r}, p.find? k = some r → r ∈ p.running := List.mem_of_find?_eq_some
  obtain ⟨now, e⟩ := e
  cases e with
  | connect =>
      simp only [CronPartition.step] at hp'
      split at hp'
      · exact absurd hp' (by simp)
      · exact Option.some.inj hp' ▸ hqueue _
  | disconnect => exact Option.some.inj hp' ▸ hqueue _
  | setStateEnabled enabled => exact Option.some.inj hp' ▸ hqueue _
  | enableAdmin => exact Option.some.inj hp' ▸ hqueue _
  | disableAdmin => exact Option.some.inj hp' ▸ hqueue _
  | claimTimer rounds =>
      simp only [CronPartition.step] at hp'
      split at hp'
      · split at hp'
        · exact (hqueue _).runClaim hp'
        · exact Option.some.inj hp' ▸ hqueue _
      · exact absurd hp' (by simp)
  | resume k first more =>
      obtain ⟨r, hr, hp'⟩ := Option.bind_eq_some_iff.mp hp'
      exact h.resume (hfind hr) hp'
  | timeout k =>
      obtain ⟨r, hr, rfl⟩ := Option.map_eq_some_iff.mp hp'
      exact h.conclude_one env (hfind (Option.filter_eq_some_iff.mp hr).1) 1 (.error "Timeout")
  | cancelTag tag =>
      obtain rfl := Option.some.inj hp'
      simp only [CronPartition.cancelTag]
      split
      · exact h.cancel _
      · exact (h.cancel _).onChildProcessExit env
  | beginShutdown =>
      obtain rfl := Option.some.inj hp'
      unfold CronPartition.cancelAll
      split
      · exact hqueue _
      · have hall := (hqueue p.queue.disableAdmin).cancel fun _ => true
        simp only [Bool.not_true, List.filter_true, List.filter_false] at hall
        exact hall.onChildProcessExit env

end Lives

lemma lives_new : Lives {} where
  nodup := List.nodup_nil
  created := by simp
  unborn _ _ := rfl
  alive := by simp
  concluded k hk := absurd hk (Nat.not_lt_zero k)

/-- A call of `Finish` or `InsertResult`, or a removal. -/
def Action.concludes : Action → Bool
  | .finish _ _ | .insertResult _ _ _ _ | .removed _ => true
  | _ => false

/-- A partition with two slots. -/
def twoOperators : PartitionEnv where
  cluster := { zones := fun _ => none, defaultTimeout := fun _ => 60, concurrency := fun _ => 2 }
  name := "a"
  debugMode := false
  stringListContains haystack separator needle :=
    (haystack.splitToList (· == separator)).contains needle
  getFullMessage := "; ".intercalate
  concurrency_pos := by decide

/-- A job that executes a command. -/
def commandJob (id : ℕ) : CronJob where
  id := id
  accountId := "account"
  command := "true"
  translateParam := ""
  notification := ""

/-- `OnJob` claims and starts the job, and that is there at once. -/
def starts (awaited : List Awaited) : JobAnswers where
  nonLocal := false
  claimed := true
  getNow := some "now"
  awaited := awaited

/-- The coroutine returns or ends with an exception when it gets this. -/
def RunningTask.completes (env : PartitionEnv) (now : ℤ) : RunningTask → List Awaited → Bool
  | _, [] => false
  | r, a :: rest =>
    match r.coStart env now a with
    | some (.waits r') => r'.completes env now rest
    | some (.returns _ _) | some (.throws _ _) => true
    | none => false

/-- The events that end the life of an object: its coroutine completes, its timeout comes, or it is
cancelled, with its tag or with all of them. -/
def PartitionEvent.ends (env : PartitionEnv) (now : ℤ) (r : RunningTask) : PartitionEvent → Bool
  | .resume k first more => k = r.number && r.completes env now (first :: more)
  | .timeout k => k = r.number
  | .cancelTag tag => r.isTag env tag
  | .beginShutdown => true
  | _ => false

/-- There is an object with this number. -/
def CronPartition.Runs (p : CronPartition) (k : ℕ) : Prop := ∃ r ∈ p.running, r.number = k

section Ends

variable {env : PartitionEnv} {now : ℤ} {p p' : CronPartition} {r r' : RunningTask} {k : ℕ}

@[simp] lemma CronPartition.runs_record (actions : List Action) :
    (p.record actions).Runs k ↔ p.Runs k := Iff.rfl

@[simp] lemma CronPartition.runs_setResult (result : CronResult) :
    (p.setResult r result).Runs k ↔ p.Runs k := Iff.rfl

@[simp] lemma CronPartition.runs_onChildProcessExit :
    (p.onChildProcessExit env).Runs k ↔ p.Runs k := by
  rw [Runs, onChildProcessExit_running, Runs]

@[simp] lemma CronPartition.runs_workplaceOnCompletion :
    (p.workplaceOnCompletion env r).Runs k ↔ p.Runs k ∧ k ≠ r.number := by
  rw [workplaceOnCompletion, runs_onChildProcessExit, runs_record]
  simp only [Runs, List.mem_filter, decide_not, Bool.not_eq_true', decide_eq_false_iff_not]
  constructor
  · rintro ⟨r', ⟨hr', hne⟩, rfl⟩
    exact ⟨⟨r', hr', rfl⟩, hne⟩
  · rintro ⟨⟨r', hr', rfl⟩, hne⟩
    exact ⟨r', ⟨hr', hne⟩, rfl⟩

@[simp] lemma CronPartition.runs_update : (p.update r).Runs k ↔ p.Runs k := by
  simp only [update, Runs, List.mem_map]
  constructor
  · rintro ⟨_, ⟨r', hr', rfl⟩, rfl⟩
    refine ⟨r', hr', ?_⟩
    split <;> simp_all
  · rintro ⟨r', hr', rfl⟩
    refine ⟨_, ⟨r', hr', rfl⟩, ?_⟩
    split <;> simp_all

/-- The coroutine of an object removes no other one, and its own if it completes. -/
lemma CronPartition.runs_resume {awaited : List Awaited} (hr : r ∈ p.running)
    (hp' : p.resume env now r awaited = some p') :
    p'.Runs k ↔ p.Runs k ∧ (k = r.number && r.completes env now awaited) = false := by
  induction awaited generalizing p r with
  | nil =>
      obtain rfl := Option.some.inj hp'
      simp [RunningTask.completes]
  | cons a rest ih =>
      simp only [CronPartition.resume, Option.bind_eq_bind, Option.bind_eq_some_iff] at hp'
      obtain ⟨progress, hprogress, hp'⟩ := hp'
      have hnumber := (RunningTask.coStart_keeps hprogress).1
      cases progress with
      | waits r' =>
          have hnumber : r'.number = r.number := hnumber
          have hthere : r' ∈ ((p.record [.handled r'.number]).update r').running :=
            mem_update hr hnumber
          rw [ih hthere hp', runs_update, runs_record, RunningTask.completes, hprogress, hnumber]
      | returns r' result =>
          obtain rfl := Option.some.inj hp'
          rw [onCompletion, runs_workplaceOnCompletion, runs_setResult, runs_update, runs_record,
            show r'.number = r.number from hnumber]
          simp [RunningTask.completes, hprogress]
      | throws r' messages =>
          obtain rfl := Option.some.inj hp'
          rw [onCompletion, runs_workplaceOnCompletion, runs_setResult, runs_update, runs_record,
            show r'.number = r.number from hnumber]
          simp [RunningTask.completes, hprogress]

/-- `OnJob` removes no object that was there before. -/
lemma CronPartition.runs_onJob {job : CronJob} {answers : JobAnswers} (hlives : Lives p)
    (h : p.Runs k) (hp' : p.onJob env now job answers = some p') : p'.Runs k := by
  have hfull : ∀ {q : CronPartition}, q.Runs k → (q.disableIfFull env).Runs k := fun hq => by
    unfold disableIfFull
    split
    · exact hq
    · exact hq
  unfold onJob at hp'
  split at hp'
  · exact Option.some.inj hp' ▸ h
  · dsimp only at hp'
    split at hp'
    · exact Option.some.inj hp' ▸ h
    · split at hp'
      · exact Option.some.inj hp' ▸ hfull h
      · rename_i startTime _
        obtain ⟨q, hstart, rfl⟩ := Option.map_eq_some_iff.mp hp'
        set claimed := p.record [.claim job.id p.queue.isEnabled]
        set r := claimed.create env now job startTime
        obtain ⟨r₀, hr₀, rfl⟩ := h
        have hthere : (claimed.pushBack r).Runs r₀.number :=
          ⟨r₀, List.mem_append_left _ hr₀, rfl⟩
        have hnew : r ∈ (claimed.pushBack r).running :=
          List.mem_append_right _ (List.mem_singleton_self _)
        have hne : r₀.number ≠ r.number := Nat.ne_of_lt (hlives.created r₀ hr₀)
        exact hfull ((runs_resume hnew hstart).mpr ⟨hthere, by simp [hne]⟩)

lemma CronPartition.runs_runClaim {rounds : List ClaimRound} (hlives : Lives p) (h : p.Runs k)
    (hp' : p.runClaim env now rounds = some p') : p'.Runs k := by
  induction rounds generalizing p with
  | nil => exact absurd hp' (by simp [runClaim])
  | cons round rest ih =>
      cases round with
      | nothing | throws | later | empty => exact Option.some.inj hp' ▸ h
      | job job answers =>
          simp only [runClaim] at hp'
          split at hp'
          · obtain ⟨p₁, hjob, hp'⟩ := Option.bind_eq_some_iff.mp hp'
            have hthere := runs_onJob hlives h hjob
            split at hp'
            · exact ih (hlives.onJob hjob) hthere hp'
            · exact Option.some.inj hp' ▸ hthere
          · exact Option.some.inj hp' ▸ h

lemma Lives.runs_cancel (hlives : Lives p) (hr : r ∈ p.running) (sel : RunningTask → Bool) :
    ((p.running.filter sel).foldl CronPartition.cancel
      { p with running := p.running.filter fun r => !sel r }).Runs r.number ↔ sel r = false := by
  rw [CronPartition.foldl_cancel, CronPartition.runs_record]
  simp only [CronPartition.Runs, List.mem_filter, Bool.not_eq_true']
  constructor
  · rintro ⟨r', ⟨hr', hsel⟩, hnumber⟩
    rwa [List.inj_on_of_nodup_map hlives.nodup hr hr' hnumber.symm]
  · exact fun hsel => ⟨r, ⟨hr, hsel⟩, rfl⟩

/-- **Which events end a life**: an object that is in the list is gone after an event exactly if it
is one of these, and about it. -/
theorem removed_iff {tr : List (CronPartition × (ℤ × PartitionEvent))} {e : PartitionEvent}
    (hrun : Run (CronPartition.step env) {} tr p) (hr : r ∈ p.running)
    (hstep : p.step env (now, e) = some p') :
    (∀ r' ∈ p'.running, r'.number ≠ r.number) ↔ e.ends env now r = true := by
  have hlives : Lives p := (hrun.invariant (I := Lives) (C := fun _ _ => True)
    (fun p e p' h _ hstep => h.step hstep) lives_new fun _ _ => trivial).1
  have hthere : p.Runs r.number := ⟨r, hr, rfl⟩
  have hsame : ∀ {k r'}, p.find? k = some r' → r'.number = k := fun h => by
    simpa using List.find?_some h
  suffices h : p'.Runs r.number ↔ e.ends env now r = false by
    rw [← Bool.not_eq_false, ← h]
    simp [CronPartition.Runs]
  cases e with
  | connect =>
      simp only [CronPartition.step] at hstep
      split at hstep
      · exact absurd hstep (by simp)
      · exact iff_of_true (Option.some.inj hstep ▸ hthere) rfl
  | disconnect | setStateEnabled enabled | enableAdmin | disableAdmin =>
      exact iff_of_true (Option.some.inj hstep ▸ hthere) rfl
  | claimTimer rounds =>
      refine iff_of_true ?_ rfl
      simp only [CronPartition.step] at hstep
      split at hstep
      · split at hstep
        · have hqueue : Lives { p with queue := { p.queue with claimTimer := false } } :=
            hlives.congr rfl rfl fun _ => rfl
          exact CronPartition.runs_runClaim hqueue hthere hstep
        · exact Option.some.inj hstep ▸ hthere
      · exact absurd hstep (by simp)
  | resume k first more =>
      obtain ⟨r', hr', hresume⟩ := Option.bind_eq_some_iff.mp hstep
      have hmem : r' ∈ p.running := List.mem_of_find?_eq_some hr'
      obtain rfl := hsame hr'
      rw [CronPartition.runs_resume hmem hresume, and_iff_right hthere, PartitionEvent.ends]
      by_cases hnumber : r.number = r'.number
      · rw [List.inj_on_of_nodup_map hlives.nodup hr hmem hnumber]
      · simp [hnumber, Ne.symm hnumber]
  | timeout k =>
      obtain ⟨r', hr', rfl⟩ := Option.map_eq_some_iff.mp hstep
      obtain rfl := hsame (Option.filter_eq_some_iff.mp hr').1
      rw [CronPartition.onTimeout, CronPartition.runs_workplaceOnCompletion,
        CronPartition.runs_setResult, CronPartition.runs_record, and_iff_right hthere]
      simp [PartitionEvent.ends, eq_comm]
  | cancelTag tag =>
      obtain rfl := Option.some.inj hstep
      simp only [CronPartition.cancelTag]
      split
      · exact hlives.runs_cancel hr fun r => r.isTag env tag
      · rw [CronPartition.runs_onChildProcessExit]
        exact hlives.runs_cancel hr fun r => r.isTag env tag
  | beginShutdown =>
      obtain rfl := Option.some.inj hstep
      refine iff_of_false ?_ (by simp [PartitionEvent.ends])
      have hsome : p.running ≠ [] := List.ne_nil_of_mem hr
      rw [CronPartition.cancelAll, if_neg hsome, CronPartition.runs_onChildProcessExit,
        CronPartition.foldl_cancel, CronPartition.runs_record]
      rintro ⟨r', hr', _⟩
      exact absurd hr' List.not_mem_nil

end Ends

/-! ## Capacity -/

/-- Claims are made by an enabled queue only. -/
def Action.allowed : Action → Bool
  | .claim _ enabled => enabled
  | _ => true

/-- **The capacity of a partition**: there are at most as many objects as it has slots, the queue is
disabled exactly while there is no free slot, and nothing was claimed by a disabled queue. -/
structure WithinCapacity (env : PartitionEnv) (p : CronPartition) : Prop where
  running_le : p.running.length ≤ env.cluster.concurrency env.name
  disabledFull : p.queue.disabledFull = p.isFull env
  claims : ∀ a ∈ p.actions, a.allowed = true

/-- Nothing is started or claimed: either everything stays, or there are fewer objects, and the
queue is enabled again. -/
structure Shrinks (env : PartitionEnv) (p p' : CronPartition) : Prop where
  claims : (∀ a ∈ p.actions, a.allowed = true) → ∀ a ∈ p'.actions, a.allowed = true
  cases : (p'.running.length = p.running.length ∧ p'.queue.disabledFull = p.queue.disabledFull) ∨
    (p'.running.length < p.running.length ∧
      (p.running.length ≤ env.cluster.concurrency env.name → p'.queue.disabledFull = false))

section Capacity

variable {env : PartitionEnv} {now : ℤ} {p p' q : CronPartition} {r : RunningTask}

lemma CronNode.checkEnabled_disabledFull (node : CronNode) :
    node.checkEnabled.disabledFull = node.disabledFull := by
  unfold CronNode.checkEnabled
  split <;> rfl

lemma CronNode.enableFull_disabledFull (node : CronNode) :
    node.enableFull.disabledFull = false := by
  unfold CronNode.enableFull
  split
  · rw [CronNode.checkEnabled_disabledFull]
  · rename_i hoff
    simpa using hoff

lemma CronPartition.allowed_record {actions : List Action} (h : ∀ a ∈ p.actions, a.allowed = true)
    (hactions : ∀ a ∈ actions, a.allowed = true) :
    ∀ a ∈ (p.record actions).actions, a.allowed = true := by
  intro a ha
  exact (List.mem_append.mp ha).elim (h a) (hactions a)

lemma allowed_conclusion {n : ℕ} {result : CronResult} {r : RunningTask} :
    ∀ a ∈ conclusion n result r, a.allowed = true := by
  intro a ha
  simp only [conclusion, List.mem_append, List.mem_cons, List.not_mem_nil, or_false] at ha
  rcases ha with ha | rfl | rfl | rfl
  · rw [List.eq_of_mem_replicate ha]
    rfl
  all_goals rfl

/-- `OnChildProcessExit` after objects were removed. -/
lemma Shrinks.of_exit (hclaims : (∀ a ∈ p.actions, a.allowed = true) →
    ∀ a ∈ q.actions, a.allowed = true) (hlt : q.running.length < p.running.length) :
    Shrinks env p (q.onChildProcessExit env) where
  claims h := by
    rw [CronPartition.onChildProcessExit_actions]
    exact hclaims h
  cases := by
    rw [CronPartition.onChildProcessExit_running]
    refine .inr ⟨hlt, fun hle => ?_⟩
    have hfree : q.isFull env = false := by
      simp only [CronPartition.isFull, decide_eq_false_iff_not]
      omega
    rw [CronPartition.onChildProcessExit, hfree]
    exact CronNode.enableFull_disabledFull _

lemma length_filter_lt {l : List RunningTask} (sel : RunningTask → Bool) (hr : r ∈ l)
    (hsel : sel r = true) : (l.filter fun x => !sel x).length < l.length := by
  refine lt_of_le_of_ne (List.length_filter_le _ _) fun heq => ?_
  have hall := List.length_filter_eq_length_iff.mp heq r hr
  simp [hsel] at hall

lemma Shrinks.conclude_one (env : PartitionEnv) (hr : r ∈ p.running) (n : ℕ) (result : CronResult) :
    Shrinks env p (((p.record (List.replicate n (.handled r.number))).setResult r
      result).workplaceOnCompletion env r) := by
  refine .of_exit (fun h => ?_) ?_
  · refine CronPartition.allowed_record (CronPartition.allowed_record
      (CronPartition.allowed_record h
      fun a ha => ?_) ?_) ?_
    · rw [List.eq_of_mem_replicate ha]
      rfl
    · simp [Action.allowed]
    · simp [Action.allowed]
  · have hlt := length_filter_lt (fun x => x.number = r.number) hr (by simp)
    simpa [CronPartition.record, CronPartition.setResult] using hlt

lemma Shrinks.cancel (env : PartitionEnv) (sel : RunningTask → Bool) (hr : r ∈ p.running)
    (hsel : sel r = true) :
    Shrinks env p (((p.running.filter sel).foldl CronPartition.cancel
      { p with running := p.running.filter fun r => !sel r }).onChildProcessExit env) := by
  rw [CronPartition.foldl_cancel]
  refine .of_exit (fun h => CronPartition.allowed_record h fun a ha => ?_) ?_
  · obtain ⟨r, _, ha⟩ := List.mem_flatMap.mp ha
    exact allowed_conclusion a ha
  · exact length_filter_lt sel hr hsel

lemma Shrinks.handle (h : Shrinks env ((p.record [.handled r.number]).update r) p') :
    Shrinks env p p' where
  claims hclaims := h.claims (CronPartition.allowed_record hclaims (by simp [Action.allowed]))
  cases := by
    have hlength : ((p.record [.handled r.number]).update r).running.length = p.running.length :=
      List.length_map _
    rw [← hlength]
    exact h.cases

lemma Shrinks.resume {awaited : List Awaited} (hr : r ∈ p.running)
    (hp' : p.resume env now r awaited = some p') : Shrinks env p p' := by
  refine CronPartition.resume_rule (I := fun p _ p' => Shrinks env p p')
    (fun _ => ⟨id, .inl ⟨rfl, rfl⟩⟩) (fun _ _ _ h => h.handle) ?_ hr hp'
  intro p r r' result hr hnumber _
  have hmem : r' ∈ ((p.record [.handled r'.number]).update r').running :=
    CronPartition.mem_update hr hnumber
  have hend := Shrinks.conclude_one env hmem 0 result
  rw [List.replicate_zero, CronPartition.record_nil] at hend
  exact hend.handle

namespace WithinCapacity

/-- Fewer objects, and the queue is enabled again. -/
lemma shrinks (h : WithinCapacity env p) (hshrinks : Shrinks env p p') : WithinCapacity env p' := by
  obtain ⟨hclaims, ⟨hlength, hfull⟩ | ⟨hlt, hfull⟩⟩ := hshrinks
  · refine ⟨hlength ▸ h.running_le, ?_, hclaims h.claims⟩
    rw [hfull, h.disabledFull, CronPartition.isFull, CronPartition.isFull, hlength]
  · have hle := h.running_le
    refine ⟨by omega, ?_, hclaims h.claims⟩
    rw [hfull hle, CronPartition.isFull, eq_comm, decide_eq_false_iff_not]
    omega

lemma queue (h : WithinCapacity env p) (queue : CronNode)
    (hqueue : queue.disabledFull = p.queue.disabledFull) :
    WithinCapacity env { p with queue := queue } :=
  ⟨h.running_le, hqueue.trans h.disabledFull, h.claims⟩

lemma disableIfFull (hle : p.running.length ≤ env.cluster.concurrency env.name)
    (hfull : p.queue.disabledFull = false) (hclaims : ∀ a ∈ p.actions, a.allowed = true) :
    WithinCapacity env (p.disableIfFull env) := by
  unfold CronPartition.disableIfFull
  split
  · rename_i hisFull
    exact ⟨hle, hisFull.symm, hclaims⟩
  · rename_i hisFull
    exact ⟨hle, hfull.trans (by simpa using hisFull), hclaims⟩

lemma onJob {job : CronJob} {answers : JobAnswers} (h : WithinCapacity env p)
    (henabled : p.queue.isEnabled = true) (hp' : p.onJob env now job answers = some p') :
    WithinCapacity env p' := by
  have hflag : p.queue.disabledFull = false := by
    simp only [CronNode.isEnabled, Bool.and_eq_true, Bool.not_eq_true'] at henabled
    exact henabled.2
  have hfree : p.running.length < env.cluster.concurrency env.name := by
    have hisFull := h.disabledFull.symm.trans hflag
    simpa [CronPartition.isFull] using hisFull
  have hclaims : ∀ a ∈ (p.record [.claim job.id p.queue.isEnabled]).actions, a.allowed = true :=
    CronPartition.allowed_record h.claims (by simp [Action.allowed, henabled])
  unfold CronPartition.onJob at hp'
  split at hp'
  · exact Option.some.inj hp' ▸ h
  · dsimp only at hp'
    split at hp'
    · exact Option.some.inj hp' ▸ ⟨h.running_le, h.disabledFull, hclaims⟩
    · split at hp'
      · exact Option.some.inj hp' ▸ disableIfFull hfree.le hflag hclaims
      · obtain ⟨p₁, hstart, rfl⟩ := Option.map_eq_some_iff.mp hp'
        obtain ⟨hclaims₁, hcases⟩ :=
          Shrinks.resume (List.mem_append_right _ (List.mem_singleton_self _)) hstart
        have hlength : ∀ q r, (CronPartition.pushBack q r).running.length = q.running.length + 1 :=
          fun q r => by simp [CronPartition.pushBack, CronPartition.record]
        rw [hlength] at hcases
        have hclaims₁ := hclaims₁ (CronPartition.allowed_record hclaims (by simp [Action.allowed]))
        obtain ⟨hsame, hfull⟩ | ⟨hlt, hfull⟩ := hcases
        · exact disableIfFull (hsame ▸ hfree) (hfull.trans hflag) hclaims₁
        · -- the job was over at once
          have hle : p₁.running.length ≤ env.cluster.concurrency env.name := by
            simp only [CronPartition.record] at hlt
            omega
          exact disableIfFull hle (hfull hfree) hclaims₁

lemma runClaim {rounds : List ClaimRound} (h : WithinCapacity env p)
    (hp' : p.runClaim env now rounds = some p') : WithinCapacity env p' := by
  induction rounds generalizing p with
  | nil => exact absurd hp' (by simp [CronPartition.runClaim])
  | cons round rest ih =>
      cases round with
      | nothing => exact Option.some.inj hp' ▸ h
      | throws => exact Option.some.inj hp' ▸ h
      | later => exact Option.some.inj hp' ▸ h.queue _ rfl
      | empty => exact Option.some.inj hp' ▸ h.queue _ rfl
      | job job answers =>
          simp only [CronPartition.runClaim] at hp'
          split at hp'
          · rename_i henabled
            obtain ⟨p₁, hjob, hp'⟩ := Option.bind_eq_some_iff.mp hp'
            have hcapacity := h.onJob henabled hjob
            split at hp'
            · exact ih hcapacity hp'
            · exact Option.some.inj hp' ▸ hcapacity.queue _ rfl
          · exact Option.some.inj hp' ▸ h.queue _ rfl

/-- **The step lemma**: every event keeps to the capacity. -/
lemma step {e : ℤ × PartitionEvent} (h : WithinCapacity env p)
    (hp' : p.step env e = some p') : WithinCapacity env p' := by
  have hfind : ∀ {k r}, p.find? k = some r → r ∈ p.running := List.mem_of_find?_eq_some
  obtain ⟨now, e⟩ := e
  cases e with
  | connect =>
      simp only [CronPartition.step] at hp'
      split at hp'
      · exact absurd hp' (by simp)
      · exact Option.some.inj hp' ▸ h.queue _ rfl
  | disconnect => exact Option.some.inj hp' ▸ h.queue _ rfl
  | setStateEnabled enabled =>
      refine Option.some.inj hp' ▸ h.queue _ ?_
      unfold CronNode.setStateEnabled
      split
      · rfl
      · rw [CronNode.checkEnabled_disabledFull]
  | enableAdmin =>
      refine Option.some.inj hp' ▸ h.queue _ ?_
      unfold CronNode.enableAdmin
      split
      · rfl
      · rw [CronNode.checkEnabled_disabledFull]
  | disableAdmin => exact Option.some.inj hp' ▸ h.queue _ rfl
  | claimTimer rounds =>
      simp only [CronPartition.step] at hp'
      split at hp'
      · have hqueue := h.queue { p.queue with claimTimer := false } rfl
        split at hp'
        · exact hqueue.runClaim hp'
        · exact Option.some.inj hp' ▸ hqueue
      · exact absurd hp' (by simp)
  | resume k first more =>
      obtain ⟨r, hr, hp'⟩ := Option.bind_eq_some_iff.mp hp'
      exact h.shrinks (.resume (hfind hr) hp')
  | timeout k =>
      obtain ⟨r, hr, rfl⟩ := Option.map_eq_some_iff.mp hp'
      exact h.shrinks (.conclude_one env (hfind (Option.filter_eq_some_iff.mp hr).1) 1 _)
  | cancelTag tag =>
      obtain rfl := Option.some.inj hp'
      simp only [CronPartition.cancelTag]
      split
      · rename_i hnone
        have hstays : (p.running.filter fun r => !r.isTag env tag) = p.running :=
          List.filter_eq_self.mpr fun r hr => by
            simpa using List.filter_eq_nil_iff.mp hnone r hr
        rw [hnone, List.foldl_nil, hstays]
        exact h
      · rename_i hsome
        obtain ⟨r, hr⟩ := List.exists_mem_of_ne_nil _ hsome
        obtain ⟨hr, htag⟩ := List.mem_filter.mp hr
        exact h.shrinks (.cancel env _ hr htag)
  | beginShutdown =>
      obtain rfl := Option.some.inj hp'
      have hqueue := h.queue p.queue.disableAdmin rfl
      unfold CronPartition.cancelAll
      split
      · exact hqueue
      · rename_i hsome
        obtain ⟨r, hr⟩ := List.exists_mem_of_ne_nil _ hsome
        have hall := Shrinks.cancel env (fun _ => true) hr rfl
        simp only [Bool.not_true, List.filter_true, List.filter_false] at hall
        exact hqueue.shrinks hall

end WithinCapacity

/-- **The run lemma**: a new partition keeps to its capacity, whatever happens. -/
lemma withinCapacity_of_run {tr : List (CronPartition × (ℤ × PartitionEvent))}
    (hrun : Run (CronPartition.step env) {} tr p) : WithinCapacity env p := by
  have hnew : WithinCapacity env {} := by
    refine ⟨Nat.zero_le _, ?_, by simp⟩
    have hpos := env.concurrency_pos
    show false = decide _
    rw [eq_comm, decide_eq_false_iff_not]
    exact Nat.not_le.mpr hpos
  exact (hrun.invariant (I := WithinCapacity env) (C := fun _ _ => True)
    (fun p e p' h _ hstep => h.step hstep) hnew fun _ _ => trivial).1

end Capacity

end Workshop.Cron

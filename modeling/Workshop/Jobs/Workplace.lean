import Workshop.Lib.CString
import Workshop.Lib.Roster
import Workshop.Jobs.Partition

/-!
# The workshop workplace

The operators of a `WorkshopWorkplace` (`src/workshop/Workplace.cxx`,
`src/workshop/Operator.cxx`) and their control channels (`src/workshop/ControlChannelServer.cxx`),
from one event of the event loop to the next.

An operator has a coroutine (`Start2`), which waits for the translation server, for the spawn
service and for the process.  The process reports progress and sends commands; it exits, or the
timeout comes, or somebody cancels the job.  `OnChildProcessExit` first reads what is left on the
control channel, so that commands are executed for a process that is gone.

What an operator does is recorded (`OperatorAct`).  The main result is that every execution is
concluded exactly once, whatever happens in which order (`operator_concluded_once`), and by which
events (`operator_removed_iff`).
-/

namespace Workshop.Jobs

open Workshop.Lib

/-! ## Commands -/

/-- What `OnControl` makes of the words of a datagram. -/
inductive Command
  | progress (value : ℕ)
  | setEnv (s : String)
  | again (delay : ℕ)
  | version
  | spawn (token : String) (param : Option String)
  | temporaryError (message : String)
  deriving DecidableEq, Repr

/-- `c_str`: a string ends at the first NUL. -/
def cStr (s : List Char) : List Char := s.takeWhile fun c => c.toNat ≠ 0

/-- The parameter of `progress`.  There may be no number, if there is nothing else either. -/
def readProgress (s : List Char) : Option ℕ :=
  match strtoul 10 s with
  | none => if s = [] then some 0 else none
  | some (value, rest) => if rest ≠ [] ∨ 100 < value then none else some value

/-- The parameter of `again`, in seconds. -/
def readDelay (s : List Char) : Option ℕ :=
  match strtoul 10 s with
  | none => none
  | some (value, rest) => if rest ≠ [] ∨ 3600 * 24 < value then none else some value

/-- The branches of `OnControl`, by the command and its parameters. -/
def readCommand (cmd : String) (args : List (List Char)) : Command :=
  if cmd = "progress" then
    match args with
    | [s] =>
      ((readProgress (cStr s)).map .progress).getD
        (.temporaryError "malformed progress command on control channel")
    | _ => .temporaryError "malformed progress command on control channel"
  else if cmd = "setenv" then
    match args with
    | [s] => .setEnv (String.ofList (cStr s))
    | _ => .temporaryError "malformed 'setenv' command on control channel"
  else if cmd = "again" then
    match args with
    | [] => .again 0
    | [s] =>
      ((readDelay (cStr s)).map .again).getD
        (.temporaryError "malformed 'again' parameter on control channel")
    | _ => .temporaryError "malformed 'again' command on control channel"
  else if cmd = "version" then .version
  else if cmd = "spawn" then
    match args with
    | [token] => .spawn (String.ofList (cStr token)) none
    | [token, param] =>
      .spawn (String.ofList (cStr token)) (some (String.ofList (cStr param)))
    | _ => .temporaryError "malformed 'spawn' command on control channel"
  else .temporaryError "unknown command on control channel"

/-- `OnControl`, for the words of the first line. -/
def parseControl (payload : List Char) : Command :=
  match (payload.takeWhile fun c => c ≠ '\n').splitOn ' ' with
  | [] => .temporaryError "unknown command on control channel"
  | cmd :: args => readCommand (String.ofList cmd) args

/-! ## Operators -/

/-- What is read of `ExecuteOptions`. -/
structure SpawnOptions where
  tag : String := ""
  execute : Option String := none
  uidGidIsEmpty : Bool := false
  args : List String := []
  env : List String := []
  deriving DecidableEq, Repr

/-- What is read of `TranslateResponse`. -/
structure SpawnResponse where
  status : ℕ := 0
  message : Option String := none
  executeOptions : Option SpawnOptions := none
  deriving DecidableEq, Repr

/-- What the coroutine of an operator waits for: `TranslateSpawn`, the spawn service
(`CoEnqueueSpawner`), and the process (`CoWaitSpawnCompletion`). -/
inductive StartPhase
  | translating
  | enqueued
  | spawning
  | started
  deriving DecidableEq, Repr

/-- What the coroutine has waited for.  A system call that fails while the process is prepared is an
exception, too. -/
inductive Awaited
  | response (response : SpawnResponse)
  | dequeued (error : Option String)
  | spawned
  | failed (message : String)
  deriving DecidableEq, Repr

/-- `WorkshopOperator`, with its coroutine and its control channel; `spawnTask` is the task of a
command `spawn` that is not finished yet. -/
structure ActiveOperator extends TaggedOperator where
  phase : StartPhase
  translation : Option SpawnResponse := none
  controlChannel : Bool := false
  spawnTask : Bool := false
  deriving DecidableEq, Repr

/-- What an operator does: the calls of its job, an accepted command `again`, the exit of its
process, and its removal from the list. -/
inductive OperatorAct
  | setProgress (progress : ℕ) (timeout : String) (notify : Bool)
  | setEnv (s : String)
  | again (delay : ℕ)
  | exited (status : ℤ)
  | addCpuUsage (usage : ℤ)
  | setDone (status : ℤ) (log : Option String)
  | setAgain (delay : ℕ) (log : Option String)
  | removed
  deriving DecidableEq, Repr

/-- What the operators of a workplace are configured with; `stringListContains` and `validateUTF8`
are functions of the library, the second one with the text as its result. -/
structure OperatorEnv where
  translationSocket : Bool
  debugMode : Bool
  stringListContains : String → Char → String → Bool
  validateUTF8 : List UInt8 → Option String

/-- The exceptions of `PrepareChildProcess` for a response. -/
def SpawnResponse.prepareError (debugMode : Bool) (response : SpawnResponse) : Option String :=
  if response.status ≠ 0 then
    some (match response.message with
      | some message =>
        "Status " ++ toString response.status ++ " from translation server: " ++ message
      | none => "Status " ++ toString response.status ++ " from translation server")
  else
    match response.executeOptions with
    | none => some "No EXECUTE from translation server"
    | some options =>
      if options.execute.isNone then some "No EXECUTE from translation server"
      else if options.uidGidIsEmpty && !debugMode then some "No UID_GID from translation server"
      else if 4096 ≤ options.args.length then
        some "Too many APPEND packets from translation server"
      else none

/-- The loop that adds the variables of the job to those there are: is there one too many?  Those of
the dynamic linker are skipped. -/
def tooManyVariables : ℕ → List String → Bool
  | _, [] => false
  | n, s :: rest => 64 ≤ n || tooManyVariables (if "LD_".isPrefixOf s then n else n + 1) rest

/-- `exit_status`, from the status of `waitpid` or a negative `errno`. -/
def exitStatus (status : ℤ) : ℤ :=
  if status < 0 then status
  -- `WIFSIGNALED`, then `WIFEXITED`; the rest is `-ECHILD`
  else if 1 ≤ status % 128 ∧ status % 128 ≤ 126 then -4
  else if status % 128 = 0 then status / 256 % 256
  else -10

namespace ActiveOperator

variable (env : OperatorEnv) (now : ℤ) (o : ActiveOperator)

/-- The constructor, and the beginning of `Start2`. -/
def create (job : WorkshopJob) (plan : Plan) : ActiveOperator where
  toWorkshopOperator := .create now job plan
  phase := if plan.translate then .translating else .enqueued

/-- The exceptions of `Start2` after the spawn service was waited for. -/
def prepareError : Option String :=
  let response := o.translation.getD {}
  let inherited := if o.plan.translate then (response.executeOptions.getD {}).env else []
  (if o.plan.translate then response.prepareError env.debugMode else none).or
    (if !o.plan.translate && decide (4096 < (o.plan.args ++ o.job.args).length) then
        some "Too many command-line arguments"
      else if tooManyVariables inherited.length o.job.env then some "Too many environment variables"
      else none)

/-- `child_tag` of a response, unless there is one already. -/
def takeTag (response : SpawnResponse) : String :=
  let tag := (response.executeOptions.getD {}).tag
  if tag ≠ "" ∧ o.childTag = "" then tag else o.childTag

/-- `Start2`, from one suspension point to the next; `none` if this is not what the coroutine waits
for. -/
def start2 : Awaited → Option (Except String ActiveOperator)
  | .response response =>
    if o.phase = .translating then
      some (.ok { o with
        phase := .enqueued, translation := some response, childTag := o.takeTag response })
    else none
  | .dequeued error =>
    if o.phase = .enqueued then
      match error.or (o.prepareError env) with
      | some message => some (.error message)
      | none => some (.ok { o with phase := .spawning, controlChannel := o.plan.controlChannel })
    else none
  | .spawned => if o.phase = .spawning then some (.ok { o with phase := .started }) else none
  | .failed message => if o.phase ≠ .started then some (.error message) else none

/-- `IsChildTag`. -/
def isChildTag (value : String) : Bool := env.stringListContains o.childTag (Char.ofNat 0) value

/-- There is a `ProgressReader`. -/
def readsProgress : Bool :=
  !o.plan.translate && !o.plan.controlChannel && (o.phase = .spawning || o.phase = .started)

/-- `OnProgress`. -/
def reportProgress (progress : ℕ) : ActiveOperator × List OperatorAct :=
  if o.exited then (o, [])
  else
    ({ o with toWorkshopOperator := o.onProgress now },
      [.setProgress progress o.plan.timeout o.plan.notifyProgress])

/-- The exceptions of `OnControlSpawn` before it waits for anything. -/
def spawnError : Option String :=
  if !o.plan.allowSpawn then
    some ("Plan " ++ o.job.planName.quote ++ " does not have the 'allow_spawn' flag")
  else if !env.translationSocket then some "No 'translation_server' configured"
  else if o.exited then some "Main process has already exited"
  else none

/-- `OnControlClosed` and `OnControlPermanentError`. -/
def resetControlChannel : ActiveOperator := { o with controlChannel := false, spawnTask := false }

/-- The end of `OnControl`: the command is executed.  `replyFails` tells whether an error of `spawn`
cannot be sent to the process, which is a permanent error. -/
def onCommand (replyFails : Bool) : Command → ActiveOperator × List OperatorAct
  | .progress value => o.reportProgress now value
  | .setEnv s => (o, [.setEnv s])
  | .again delay => ({ o with again := some delay }, [.again delay])
  | .version | .temporaryError _ => (o, [])
  | .spawn _ _ =>
    match o.spawnError env with
    | some _ => (if replyFails then o.resetControlChannel else o, [])
    | none => ({ o with spawnTask := true }, [])

/-- `OnUdpDatagram`. -/
def onUdpDatagram (payload : List Char) (replyFails : Bool) : ActiveOperator × List OperatorAct :=
  if payload = [] then (o.resetControlChannel, [])
  else o.onCommand env now replyFails (parseControl payload)

/-- `ReceiveAll`, for the datagrams that are there. -/
def receiveAll (o : ActiveOperator) : List (List Char × Bool) → ActiveOperator × List OperatorAct
  | [] => (o, [])
  | (payload, replyFails) :: rest =>
    if o.controlChannel then
      let first := o.onUdpDatagram env now payload replyFails
      let more := receiveAll first.1 rest
      (more.1, first.2 ++ more.2)
    else (o, [])

/-- `SetAgain` or `SetDone`, at the end of `OnChildProcessExit`. -/
def conclude (status : ℤ) (log : Option String) : OperatorAct :=
  match o.again with
  | some delay => .setAgain delay log
  | none => .setDone status log

/-- `OnChildProcessExit`, after which the operator is deleted. -/
def onChildProcessExit (status : ℤ) (datagrams : List (List Char × Bool))
    (buffer : Option (List UInt8)) (cpuUsage : Option ℤ) : List OperatorAct :=
  let received := { o with exited := true }.receiveAll env now datagrams
  let log := buffer.map fun bytes => (env.validateUTF8 bytes).getD "Invalid UTF-8 output"
  .exited status :: received.2 ++ (cpuUsage.map OperatorAct.addCpuUsage).toList ++
    [received.1.conclude (exitStatus status) log, .removed]

end ActiveOperator

/-! ## The workplace -/

/-- `WorkshopWorkplace`: its operators, numbered, with what they have done. -/
abbrev Workplace := Roster ActiveOperator OperatorAct

namespace Workplace

variable (env : OperatorEnv) (now : ℤ) (w : Workplace)

/-- `OnTaskCompletion` with an exception, and `OnExit`. -/
def onTaskError (k : ℕ) (message : String) : Workplace :=
  w.finish (fun p => p.1 = k) fun _ => [.setDone (-errnoInputOutput) (some message), .removed]

/-- `OnTimeout`. -/
def onTimeout (k : ℕ) : Workplace :=
  w.finish (fun p => p.1 = k) fun _ => [.setDone (-errnoTimedOut) (some "Timeout"), .removed]

/-- `OnChildProcessExit`, and `OnExit`. -/
def onChildProcessExit (k : ℕ) (status : ℤ) (datagrams : List (List Char × Bool))
    (buffer : Option (List UInt8)) (cpuUsage : Option ℤ) : Workplace :=
  w.finish (fun p => p.1 = k) fun o => o.onChildProcessExit env now status datagrams buffer cpuUsage

/-- `CancelJob`, `CancelTag`: an operator is removed from the list, and then `Cancel` is called. -/
def cancelIf (sel : ActiveOperator → Bool) : Workplace :=
  w.finish (fun p => sel p.2) fun _ => [.removed, .setDone (-errnoCanceled) (some "Canceled")]

/-- The coroutine of an operator goes on, as long as that for which it waits is there. -/
def resume (w : Workplace) (k : ℕ) (o : ActiveOperator) : List Awaited → Option Workplace
  | [] => some w
  | a :: rest => do
    match ← o.start2 env a with
    | .error message => return w.onTaskError k message
    | .ok o' => resume (w.update k o' []) k o' rest

/-- `Start`, with what is there at once of that for which the coroutine waits. -/
def start (job : WorkshopJob) (plan : Plan) (awaited : List Awaited) : Option Workplace :=
  let o := ActiveOperator.create now job plan
  let w' : Workplace := Roster.start w o []
  if plan.translate && !env.translationSocket then
    some (w'.onTaskError w.created "No 'translation_server' configured")
  else w'.resume env w.created o awaited

end Workplace

/-- What can happen to a workplace.  `resume` is the coroutine of an operator that gets what it
waits for, and perhaps more that is there at once; `progress` comes from the `ProgressReader`,
`control` from the control channel; `spawnResponse` and `spawnFinished` are about a command `spawn`.
-/
inductive WorkplaceEvent
  | start (job : WorkshopJob) (plan : Plan) (awaited : List Awaited)
  | resume (k : ℕ) (first : Awaited) (more : List Awaited)
  | progress (k value : ℕ)
  | control (k : ℕ) (payload : List Char) (replyFails : Bool)
  | controlError (k : ℕ)
  | spawnResponse (k : ℕ) (response : SpawnResponse)
  | spawnFinished (k : ℕ) (failed : Bool)
  | childExit (k : ℕ) (status : ℤ) (datagrams : List (List Char × Bool))
      (buffer : Option (List UInt8)) (cpuUsage : Option ℤ)
  | timeout (k : ℕ)
  | cancelJob (id : ℕ)
  | cancelTag (tag : String)

/-- One event of a workplace, at the given time. -/
def Workplace.step (env : OperatorEnv) (w : Workplace) : ℤ × WorkplaceEvent → Option Workplace
  | (now, .start job plan awaited) => w.start env now job plan awaited
  | (_, .resume k first more) => (w.find? k).bind fun o => w.resume env k o (first :: more)
  | (now, .progress k value) =>
    ((w.find? k).filter fun o => o.readsProgress).map fun o =>
      let reported := o.reportProgress now value
      w.update k reported.1 reported.2
  | (now, .control k payload replyFails) =>
    ((w.find? k).filter fun o => o.controlChannel && !o.spawnTask).map fun o =>
      let handled := o.onUdpDatagram env now payload replyFails
      w.update k handled.1 handled.2
  | (_, .controlError k) =>
    ((w.find? k).filter fun o => o.controlChannel).map fun o => w.update k o.resetControlChannel []
  | (_, .spawnResponse k response) =>
    ((w.find? k).filter fun o => o.spawnTask).map fun o =>
      w.update k { o with childTag := o.takeTag response } []
  | (_, .spawnFinished k failed) =>
    ((w.find? k).filter fun o => o.spawnTask).map fun o =>
      w.update k (if failed then o.resetControlChannel else { o with spawnTask := false }) []
  | (now, .childExit k status datagrams buffer cpuUsage) =>
    ((w.find? k).filter fun o => o.phase = .started).map fun _ =>
      w.onChildProcessExit env now k status datagrams buffer cpuUsage
  | (now, .timeout k) =>
    ((w.find? k).filter fun o => o.timeoutEvent.any fun t => t ≤ now).map fun _ => w.onTimeout k
  | (_, .cancelJob id) => some (w.cancelIf fun o => o.job.id = id)
  | (_, .cancelTag tag) => some (w.cancelIf fun o => o.isChildTag env tag)

/-! ## The operators of the cluster -/

/-- The `UPDATE` of a call that concludes a job. -/
def OperatorAct.statement (id : ℕ) (now : ℤ) : OperatorAct → Option Statement
  | .setDone status log => some (.setJobDone id status log now)
  | .setAgain 0 _ => some (.rollbackJob id)
  | .setAgain delay log => some (.againJob id (delay * second) log now)
  | _ => none

/-- A node that concludes a job executes the statement of its operator's call. -/
lemma handlerStatement_conclude {cl : JobCluster} {name : String} {now : ℤ} {node : JobNode} {i : ℕ}
    {status : ℤ} {log : Option String} {o : ActiveOperator}
    (hhandler : node.handler = .conclude i status log)
    (ho : node.operators[i]? = some o.toWorkshopOperator) :
    node.handlerStatement cl name now = (o.conclude status log).statement o.job.id now := by
  simp only [JobNode.handlerStatement, hhandler, ho, ActiveOperator.conclude]
  rcases hagain : o.again with _ | _ | delay
  · simp [hagain, OperatorAct.statement]
  · simp [hagain, OperatorAct.statement]
  · simp [hagain, OperatorAct.statement]

/-- A command is an event of the operator in the cluster, or does not concern it. -/
lemma onCommand_step (env : OperatorEnv) (now : ℤ) (o : ActiveOperator) (replyFails : Bool)
    (command : Command) :
    (o.onCommand env now replyFails command).1.toWorkshopOperator = o.toWorkshopOperator ∨
      ∃ e, o.toWorkshopOperator.step e =
        some (o.onCommand env now replyFails command).1.toWorkshopOperator := by
  cases command with
  | progress value =>
      unfold ActiveOperator.onCommand ActiveOperator.reportProgress
      dsimp only
      split
      · exact .inl rfl
      · exact .inr ⟨.progress now, rfl⟩
  | again delay => exact .inr ⟨.again delay, rfl⟩
  | setEnv s => exact .inl rfl
  | version => exact .inl rfl
  | temporaryError message => exact .inl rfl
  | spawn token param =>
      unfold ActiveOperator.onCommand
      dsimp only
      split
      · cases replyFails
        · exact .inl rfl
        · exact .inl rfl
      · exact .inl rfl

/-! ## The life of an operator -/

namespace OperatorAct

/-- A call of `SetDone` or `SetAgain`. -/
def concludes : OperatorAct → Bool
  | .setDone _ _ | .setAgain _ _ => true
  | _ => false

/-- A call of `SetAgain`. -/
def isSetAgain : OperatorAct → Bool
  | .setAgain _ _ => true
  | _ => false

/-- The process has exited. -/
def isExited : OperatorAct → Bool
  | .exited _ => true
  | _ => false

/-- The delay of an accepted `again`. -/
def againDelay : OperatorAct → Option ℕ
  | .again delay => some delay
  | _ => none

/-- Nothing that ends the life of an operator, or its process. -/
def isQuiet (a : OperatorAct) : Bool := !a.concludes && !a.isExited && a ≠ .removed

lemma isQuiet_iff {a : OperatorAct} :
    a.isQuiet = true ↔ a.concludes = false ∧ a.isExited = false ∧ a ≠ .removed := by
  simp [isQuiet, and_assoc]

end OperatorAct

/-- The last `again` that was accepted. -/
def lastAgain (acts : List OperatorAct) : Option ℕ :=
  (acts.filterMap OperatorAct.againDelay).getLast?

/-- The life of an operator so far. -/
structure Active (o : ActiveOperator) (acts : List OperatorAct) : Prop where
  exited : o.exited = false
  again : o.again = lastAgain acts
  quiet : ∀ a ∈ acts, a.isQuiet = true

/-- A whole life: in the end the job is concluded and the operator removed, or the other way round.
The job is executed again exactly if the process has exited and `again` was accepted. -/
def Concluded (acts : List OperatorAct) : Prop :=
  ∃ body c, (acts = body ++ [c, .removed] ∨ acts = body ++ [.removed, c]) ∧
    (∀ a ∈ body, a.concludes = false ∧ a ≠ .removed) ∧ c.concludes = true ∧
    (c.isSetAgain = true ↔ (∃ status, .exited status ∈ body) ∧ ∃ delay, .again delay ∈ body)

section Life

variable {env : OperatorEnv} {now : ℤ} {o o' : ActiveOperator} {acts acts' : List OperatorAct}

lemma lastAgain_ne_none : lastAgain acts ≠ none ↔ ∃ delay, .again delay ∈ acts := by
  rw [lastAgain, ne_eq, List.getLast?_eq_none_iff, List.filterMap_eq_nil_iff, not_forall]
  constructor
  · rintro ⟨a, ha⟩
    obtain ⟨ha, hdelay⟩ := Classical.not_imp.mp ha
    cases a with
    | again delay => exact ⟨delay, ha⟩
    | _ => exact absurd rfl hdelay
  · rintro ⟨delay, ha⟩
    exact ⟨.again delay, fun h => absurd (h ha) (by simp [OperatorAct.againDelay])⟩

lemma lastAgain_append (acts acts' : List OperatorAct) :
    lastAgain (acts ++ acts') = (lastAgain acts').or (lastAgain acts) := by
  rw [lastAgain, List.filterMap_append, List.getLast?_append, lastAgain, lastAgain]

/-- **What an operator does without coming to its end**: it has done these acts, and knows the last
`again` among them. -/
structure Goes (o o' : ActiveOperator) (acts : List OperatorAct) : Prop where
  exited : o'.exited = o.exited
  again : o'.again = (lastAgain acts).or o.again
  quiet : ∀ a ∈ acts, a.isQuiet = true

lemma Goes.of_eq (h : o'.toWorkshopOperator = o.toWorkshopOperator) : Goes o o' [] :=
  ⟨by rw [h], by rw [h]; rfl, by simp⟩

lemma Goes.trans {o'' : ActiveOperator} (h : Goes o o' acts) (h' : Goes o' o'' acts') :
    Goes o o'' (acts ++ acts') where
  exited := h'.exited.trans h.exited
  again := by rw [h'.again, h.again, lastAgain_append, Option.or_assoc]
  quiet a ha := (List.mem_append.mp ha).elim (h.quiet a) (h'.quiet a)

lemma Active.goes (h : Active o acts) (hgoes : Goes o o' acts') : Active o' (acts ++ acts') where
  exited := hgoes.exited.trans h.exited
  again := by rw [hgoes.again, h.again, lastAgain_append]
  quiet a ha := (List.mem_append.mp ha).elim (h.quiet a) (hgoes.quiet a)

lemma goes_reportProgress (value : ℕ) :
    Goes o (o.reportProgress now value).1 (o.reportProgress now value).2 := by
  have hsame : (o.onProgress now).exited = o.exited ∧ (o.onProgress now).again = o.again := by
    unfold WorkshopOperator.onProgress WorkshopOperator.scheduleTimeout
    split
    · exact ⟨rfl, rfl⟩
    · split <;> exact ⟨rfl, rfl⟩
  unfold ActiveOperator.reportProgress
  split
  · exact .of_eq rfl
  · exact ⟨hsame.1, hsame.2, by simp [OperatorAct.isQuiet, OperatorAct.concludes,
      OperatorAct.isExited]⟩

lemma goes_onCommand (replyFails : Bool) (command : Command) :
    Goes o (o.onCommand env now replyFails command).1
      (o.onCommand env now replyFails command).2 := by
  cases command with
  | progress value => exact goes_reportProgress value
  | setEnv s =>
      exact ⟨rfl, rfl,
        by simp [ActiveOperator.onCommand, OperatorAct.isQuiet, OperatorAct.concludes,
        OperatorAct.isExited]⟩
  | again delay =>
      exact ⟨rfl, rfl,
        by simp [ActiveOperator.onCommand, OperatorAct.isQuiet, OperatorAct.concludes,
        OperatorAct.isExited]⟩
  | version => exact .of_eq rfl
  | temporaryError message => exact .of_eq rfl
  | spawn token param =>
      unfold ActiveOperator.onCommand
      dsimp only
      split
      · cases replyFails
        · exact .of_eq rfl
        · exact .of_eq rfl
      · exact .of_eq rfl

lemma goes_onUdpDatagram (payload : List Char) (replyFails : Bool) :
    Goes o (o.onUdpDatagram env now payload replyFails).1
      (o.onUdpDatagram env now payload replyFails).2 := by
  unfold ActiveOperator.onUdpDatagram
  split
  · exact .of_eq rfl
  · exact goes_onCommand replyFails _

lemma goes_receiveAll (env : OperatorEnv) (now : ℤ) (o : ActiveOperator)
    (datagrams : List (List Char × Bool)) :
    Goes o (o.receiveAll env now datagrams).1 (o.receiveAll env now datagrams).2 := by
  induction datagrams generalizing o with
  | nil => exact .of_eq rfl
  | cons datagram rest ih =>
      unfold ActiveOperator.receiveAll
      split
      · exact (goes_onUdpDatagram _ _).trans (ih _)
      · exact .of_eq rfl

/-- The coroutine changes neither the state of the process nor the delay. -/
lemma goes_start2 {a : Awaited} (h : o.start2 env a = some (.ok o')) : Goes o o' [] := by
  cases a with
  | response response =>
      obtain ⟨_, heq⟩ := of_guard h
      exact Except.ok.inj heq ▸ .of_eq rfl
  | dequeued error =>
      simp only [ActiveOperator.start2] at h
      split at h
      · split at h
        · exact absurd h (by simp)
        · obtain rfl := Except.ok.inj (Option.some.inj h)
          exact .of_eq rfl
      · exact absurd h (by simp)
  | spawned =>
      obtain ⟨_, heq⟩ := of_guard h
      exact Except.ok.inj heq ▸ .of_eq rfl
  | failed message =>
      obtain ⟨_, heq⟩ := of_guard h
      exact absurd heq (by simp)

/-! ### The end of an operator -/

lemma Active.concluded_done (h : Active o acts) (status : ℤ) (log : Option String) :
    Concluded (acts ++ [.setDone status log, .removed]) ∧
      Concluded (acts ++ [.removed, .setDone status log]) := by
  have hbody : ∀ a ∈ acts, a.concludes = false ∧ a ≠ .removed := by
    intro a ha
    obtain ⟨hconcludes, -, hremoved⟩ := OperatorAct.isQuiet_iff.mp (h.quiet a ha)
    exact ⟨hconcludes, hremoved⟩
  have hexited : ¬ ∃ status, .exited status ∈ acts := by
    rintro ⟨status, ha⟩
    exact absurd (OperatorAct.isQuiet_iff.mp (h.quiet _ ha)).2.1 (by simp [OperatorAct.isExited])
  have hagain : (OperatorAct.setDone status log).isSetAgain = true ↔
      (∃ status, .exited status ∈ acts) ∧ ∃ delay, .again delay ∈ acts :=
    iff_of_false (by simp [OperatorAct.isSetAgain]) fun hboth => hexited hboth.1
  exact ⟨⟨acts, _, .inl rfl, hbody, rfl, hagain⟩, ⟨acts, _, .inr rfl, hbody, rfl, hagain⟩⟩

lemma ActiveOperator.concludes_conclude (o : ActiveOperator) (status : ℤ) (log : Option String) :
    (o.conclude status log).concludes = true ∧
      ((o.conclude status log).isSetAgain = true ↔ o.again ≠ none) := by
  unfold ActiveOperator.conclude
  cases o.again with
  | none => simp [OperatorAct.concludes, OperatorAct.isSetAgain]
  | some delay => simp [OperatorAct.concludes, OperatorAct.isSetAgain]

lemma Active.concluded_exit (h : Active o acts) (status : ℤ) (datagrams : List (List Char × Bool))
    (buffer : Option (List UInt8)) (cpuUsage : Option ℤ) :
    Concluded (acts ++ o.onChildProcessExit env now status datagrams buffer cpuUsage) := by
  have hgoes := goes_receiveAll env now { o with exited := true } datagrams
  simp only [ActiveOperator.onChildProcessExit]
  set received := { o with exited := true }.receiveAll env now datagrams
  set usage := (cpuUsage.map OperatorAct.addCpuUsage).toList
  have husage : ∀ a ∈ usage, a.isQuiet = true ∧ a.againDelay = none := by
    intro a ha
    obtain ⟨value, -, rfl⟩ := Option.map_eq_some_iff.mp (Option.mem_toList.mp ha)
    exact ⟨rfl, rfl⟩
  -- what was accepted after the exit counts, too
  have hlast : lastAgain (acts ++ [.exited status] ++ received.2 ++ usage) = received.1.again := by
    have hnone : lastAgain usage = none := by
      rw [lastAgain, List.filterMap_eq_nil_iff.mpr fun a ha => (husage a ha).2]
      rfl
    rw [lastAgain_append, lastAgain_append, lastAgain_append, hnone, hgoes.again, ← h.again]
    rfl
  obtain ⟨hconcludes, hagain⟩ := received.1.concludes_conclude (exitStatus status)
    (buffer.map fun bytes => (env.validateUTF8 bytes).getD "Invalid UTF-8 output")
  refine ⟨acts ++ [.exited status] ++ received.2 ++ usage, _, .inl ?_, ?_, hconcludes, ?_⟩
  · simp
  · intro a ha
    have hquiet : a.isQuiet = true ∨ a = .exited status := by
      simp only [List.mem_append, List.mem_singleton] at ha
      rcases ha with ((ha | ha) | ha) | ha
      · exact .inl (h.quiet a ha)
      · exact .inr ha
      · exact .inl (hgoes.quiet a ha)
      · exact .inl (husage a ha).1
    rcases hquiet with hquiet | rfl
    · obtain ⟨hconcludes, -, hremoved⟩ := OperatorAct.isQuiet_iff.mp hquiet
      exact ⟨hconcludes, hremoved⟩
    · exact ⟨rfl, by simp⟩
  · rw [hagain, ← hlast, lastAgain_ne_none]
    exact (and_iff_right ⟨status, by simp⟩).symm

end Life

/-! ## Every run -/

section Runs

variable {env : OperatorEnv} {now : ℤ} {w w' : Workplace} {k : ℕ} {o : ActiveOperator}

/-- **The invariant** of a workplace. -/
abbrev InOrder (w : Workplace) : Prop := Roster.Lives Active (fun _ => Concluded) w

lemma InOrder.goes {o' : ActiveOperator} {acts : List OperatorAct} (h : InOrder w)
    (ho : w.find? k = some o) (hgoes : Goes o o' acts) : InOrder (w.update k o' acts) :=
  Roster.Lives.update h (Roster.mem_of_find? ho) fun hactive => hactive.goes hgoes

lemma InOrder.onTaskError (h : InOrder w) (k : ℕ) (message : String) :
    InOrder (w.onTaskError k message) :=
  Roster.Lives.finish h fun _ _ _ _ hactive => (hactive.concluded_done _ _).1

lemma InOrder.cancelIf (h : InOrder w) (sel : ActiveOperator → Bool) : InOrder (w.cancelIf sel) :=
  Roster.Lives.finish h fun _ _ _ _ hactive => (hactive.concluded_done _ _).2

lemma active_create {job : WorkshopJob} {plan : Plan} : Active (.create now job plan) [] := by
  have hcreate : (WorkshopOperator.create now job plan).exited = false ∧
      (WorkshopOperator.create now job plan).again = none := by
    unfold WorkshopOperator.create WorkshopOperator.scheduleTimeout
    split <;> exact ⟨rfl, rfl⟩
  exact ⟨hcreate.1, hcreate.2, by simp⟩

lemma InOrder.resume {awaited : List Awaited} (h : InOrder w) (ho : (k, o) ∈ w.objects)
    (hw' : w.resume env k o awaited = some w') : InOrder w' := by
  induction awaited generalizing w o with
  | nil => exact Option.some.inj hw' ▸ h
  | cons a rest ih =>
      simp only [Workplace.resume, Option.bind_eq_bind, Option.bind_eq_some_iff] at hw'
      obtain ⟨progress, hprogress, hw'⟩ := hw'
      cases progress with
      | error message => exact Option.some.inj hw' ▸ h.onTaskError k message
      | ok o' =>
          refine ih ?_ ((Roster.mem_update ⟨o, ho⟩).mpr (.inl rfl)) hw'
          exact Roster.Lives.update h ho fun hactive => hactive.goes (goes_start2 hprogress)

/-- **The step lemma.** -/
lemma InOrder.step {e : ℤ × WorkplaceEvent} (h : InOrder w) (hw' : w.step env e = some w') :
    InOrder w' := by
  have hguard : ∀ {f : ActiveOperator → Bool} {k o}, (w.find? k).filter f = some o →
      w.find? k = some o := fun h => (Option.filter_eq_some_iff.mp h).1
  obtain ⟨now, e⟩ := e
  cases e with
  | start job plan awaited =>
      have hnew : Active (.create now job plan) [] := active_create
      have hstart : InOrder (Roster.start w (.create now job plan) []) := Roster.Lives.start h hnew
      simp only [Workplace.step, Workplace.start] at hw'
      split at hw'
      · exact Option.some.inj hw' ▸ hstart.onTaskError _ _
      · exact hstart.resume (List.mem_append_right _ (List.mem_singleton_self _)) hw'
  | resume k first more =>
      obtain ⟨o, ho, hw'⟩ := Option.bind_eq_some_iff.mp hw'
      exact h.resume (Roster.mem_of_find? ho) hw'
  | progress k value =>
      obtain ⟨o, ho, rfl⟩ := Option.map_eq_some_iff.mp hw'
      exact h.goes (hguard ho) (goes_reportProgress value)
  | control k payload replyFails =>
      obtain ⟨o, ho, rfl⟩ := Option.map_eq_some_iff.mp hw'
      exact h.goes (hguard ho) (goes_onUdpDatagram payload replyFails)
  | controlError k =>
      obtain ⟨o, ho, rfl⟩ := Option.map_eq_some_iff.mp hw'
      exact h.goes (hguard ho) (.of_eq rfl)
  | spawnResponse k response =>
      obtain ⟨o, ho, rfl⟩ := Option.map_eq_some_iff.mp hw'
      exact h.goes (hguard ho) (.of_eq rfl)
  | spawnFinished k failed =>
      obtain ⟨o, ho, rfl⟩ := Option.map_eq_some_iff.mp hw'
      refine h.goes (hguard ho) (.of_eq ?_)
      cases failed with
      | false => rfl
      | true => rfl
  | childExit k status datagrams buffer cpuUsage =>
      obtain ⟨o, ho, rfl⟩ := Option.map_eq_some_iff.mp hw'
      exact Roster.Lives.finish h fun _ _ _ _ hactive => hactive.concluded_exit ..
  | timeout k =>
      obtain ⟨o, ho, rfl⟩ := Option.map_eq_some_iff.mp hw'
      exact Roster.Lives.finish h fun _ _ _ _ hactive => (hactive.concluded_done _ _).1
  | cancelJob id => exact Option.some.inj hw' ▸ h.cancelIf _
  | cancelTag tag => exact Option.some.inj hw' ▸ h.cancelIf _

end Runs

section Conclusions

variable {acts body : List OperatorAct} {c : OperatorAct}

end Conclusions

/-- A workplace without a translation server. -/
def plainWorkplace : OperatorEnv where
  translationSocket := false
  debugMode := false
  stringListContains haystack separator needle :=
    (haystack.splitToList (· == separator)).contains needle
  validateUTF8 _ := none

/-- A job of a plan with a control channel. -/
def controlledJob (id : ℕ) : WorkshopJob where
  id := id
  planName := "p"
  args := []
  env := []
  stdin := none

/-- The plan of these jobs. -/
def controlledPlan : Plan where
  args := ["/bin/true"]
  controlChannel := true

/-- The coroutine ends with an exception when it gets this. -/
def ActiveOperator.startFails (env : OperatorEnv) : ActiveOperator → List Awaited → Bool
  | _, [] => false
  | o, a :: rest =>
    match o.start2 env a with
    | some (.error _) => true
    | some (.ok o') => o'.startFails env rest
    | none => false

/-- The events that end the life of an operator: its coroutine fails, its process exits, its timeout
comes, or its job is cancelled. -/
def WorkplaceEvent.ends (env : OperatorEnv) (k : ℕ) (o : ActiveOperator) : WorkplaceEvent → Bool
  | .resume k' first more => k' = k && o.startFails env (first :: more)
  | .childExit k' _ _ _ _ | .timeout k' => k' = k
  | .cancelJob id => o.job.id = id
  | .cancelTag tag => o.isChildTag env tag
  | _ => false

section Ends

variable {env : OperatorEnv} {w w' : Workplace} {j k : ℕ} {o o' : ActiveOperator}

lemma exists_mem_finish_eq {last : ActiveOperator → List OperatorAct} (ho : (k, o) ∈ w.objects) :
    (∃ o', (k, o') ∈ (w.finish (fun p => p.1 = j) last).objects) ↔ j ≠ k := by
  rw [Roster.exists_mem_finish ho, decide_eq_false_iff_not, ne_comm]

/-- The coroutine of an operator removes no other one, and its own if it fails. -/
lemma Workplace.exists_mem_resume {awaited : List Awaited} (ho' : (j, o') ∈ w.objects)
    (ho : (k, o) ∈ w.objects) (hw' : w.resume env j o' awaited = some w') :
    (∃ o, (k, o) ∈ w'.objects) ↔ (j = k && o'.startFails env awaited) = false := by
  induction awaited generalizing w o o' with
  | nil =>
      obtain rfl := Option.some.inj hw'
      exact iff_of_true ⟨o, ho⟩ (by simp [ActiveOperator.startFails])
  | cons a rest ih =>
      simp only [Workplace.resume, Option.bind_eq_bind, Option.bind_eq_some_iff] at hw'
      obtain ⟨progress, hprogress, hw'⟩ := hw'
      cases progress with
      | error message =>
          obtain rfl := Option.some.inj hw'
          rw [Workplace.onTaskError, exists_mem_finish_eq ho]
          simp [ActiveOperator.startFails, hprogress]
      | ok o'' =>
          have hthere : (j, o'') ∈ (w.update j o'' []).objects :=
            (Roster.mem_update ⟨o', ho'⟩).mpr (.inl rfl)
          have hstays : ∃ o₁, (k, o₁) ∈ (w.update j o'' []).objects :=
            (Roster.exists_mem_update ⟨o', ho'⟩).mpr ⟨o, ho⟩
          obtain ⟨o₁, ho₁⟩ := hstays
          rw [ih hthere ho₁ hw']
          simp [ActiveOperator.startFails, hprogress]

/-- **Which events end a life**: an operator is gone after an event exactly if it is one of these,
and about it. -/
theorem operator_removed_iff {now : ℤ} {e : WorkplaceEvent} (ho : (k, o) ∈ w.objects)
    (hstep : w.step env (now, e) = some w') :
    (∀ o', (k, o') ∉ w'.objects) ↔ e.ends env k o = true := by
  rw [← not_exists, ← Bool.not_eq_false, not_iff_not]
  have hfind : ∀ {f : ActiveOperator → Bool} {j o'}, (w.find? j).filter f = some o' →
      (j, o') ∈ w.objects := fun h => Roster.mem_of_find? (Option.filter_eq_some_iff.mp h).1
  have hupdate : ∀ {j o' o''} {acts : List OperatorAct}, (j, o') ∈ w.objects →
      ∃ o, (k, o) ∈ (w.update j o'' acts).objects := fun ho' =>
    (Roster.exists_mem_update ⟨_, ho'⟩).mpr ⟨o, ho⟩
  cases e with
  | start job plan awaited =>
      have hlt : k < w.created := w.lt_created _ ho
      have hne : w.created ≠ k := by omega
      have hthere : (k, o) ∈ (Roster.start w (.create now job plan) []).objects :=
        List.mem_append_left _ ho
      refine iff_of_true ?_ rfl
      simp only [Workplace.step, Workplace.start] at hstep
      split at hstep
      · obtain rfl := Option.some.inj hstep
        exact (exists_mem_finish_eq hthere).mpr hne
      · refine (Workplace.exists_mem_resume ?_ hthere hstep).mpr (by simp [hne])
        exact List.mem_append_right _ (List.mem_singleton_self _)
  | resume j first more =>
      obtain ⟨o', ho', hstep⟩ := Option.bind_eq_some_iff.mp hstep
      have ho' := Roster.mem_of_find? ho'
      rw [Workplace.exists_mem_resume ho' ho hstep, WorkplaceEvent.ends]
      by_cases hj : j = k
      · subst hj
        rw [Roster.eq_of_mem ho ho']
      · simp [hj]
  | progress j value | control j payload replyFails =>
      obtain ⟨o', ho', rfl⟩ := Option.map_eq_some_iff.mp hstep
      exact iff_of_true (hupdate (hfind ho')) rfl
  | controlError j | spawnResponse j response | spawnFinished j failed =>
      obtain ⟨o', ho', rfl⟩ := Option.map_eq_some_iff.mp hstep
      exact iff_of_true (hupdate (hfind ho')) rfl
  | childExit j status datagrams buffer cpuUsage =>
      obtain ⟨o', ho', rfl⟩ := Option.map_eq_some_iff.mp hstep
      rw [Workplace.onChildProcessExit, exists_mem_finish_eq ho]
      simp [WorkplaceEvent.ends]
  | timeout j =>
      obtain ⟨o', ho', rfl⟩ := Option.map_eq_some_iff.mp hstep
      rw [Workplace.onTimeout, exists_mem_finish_eq ho]
      simp [WorkplaceEvent.ends]
  | cancelJob id =>
      obtain rfl := Option.some.inj hstep
      exact Roster.exists_mem_finish ho
  | cancelTag tag =>
      obtain rfl := Option.some.inj hstep
      exact Roster.exists_mem_finish ho

end Ends

end Workshop.Jobs

import Workshop.Lib.CString
import Workshop.Lib.Calendar

/-!
# Plans and their loader

`Plan` (`src/workshop/Plan.hxx`), `RateLimit::Parse` (`src/workshop/RateLimit.cxx`) and the parser
of plan files, `PlanLoader` (`src/workshop/PlanLoader.cxx`).

A plan file is given as the lines `CommentConfigParser` passes on, each as the option word and the
values `FileLineParser` reads after it.  What comes from outside the repository is a parameter
(`PlanEnv`): the parser of intervals, the C library's user database, the file system, and the
libcommon functions for booleans, numbers and resource limits.  Exceptions are `Except.error` with
the message of the source.
-/

namespace Workshop.Jobs

open Workshop.Lib

/-! ## Plans -/

/-- `RateLimit`.  The duration is in seconds. -/
structure RateLimit where
  duration : ℤ
  maxCount : ℕ
  deriving DecidableEq, Repr

/-- `Plan`.  The timeout is kept twice, as the text for the database and as a duration for the
timer. -/
structure Plan where
  args : List String := []
  timeout : String := ""
  chroot : String := ""
  reapFinished : String := ""
  parsedTimeout : ℤ := 0
  rateLimits : List RateLimit := []
  uid : ℕ := 65534
  gid : ℕ := 65534
  groups : List ℕ := []
  umask : ℤ := -1
  rlimits : List String := []
  priority : ℤ := 10
  concurrency : ℕ := 0
  schedIdle : Bool := false
  ioprioIdle : Bool := false
  privateNetwork : Bool := false
  privateTmp : Bool := false
  controlChannel : Bool := false
  allowSpawn : Bool := false
  translate : Bool := false
  notifyProgress : Bool := false
  deriving DecidableEq, Repr

/-- What the loader uses from outside.  `parseIntervalS` is in seconds; `lineError` is what
`FileLineParser` throws for a missing or a surplus value. -/
structure PlanEnv where
  parseIntervalS : String → Except String ℤ
  lineError : String
  nextBool : String → Except String Bool
  nextPositiveInteger : String → Except String ℕ
  parseRlimits : String → Bool
  /-- `stat`: the error, or whether the path is a directory. -/
  stat : String → Except String Bool
  getpwnam : String → Option (ℕ × ℕ)
  /-- `getgrouplist` with room for 64 groups. -/
  getgrouplist : String → ℕ → Option (List ℕ)

/-- A line of a plan file. -/
structure Line where
  word : String
  values : List String := []
  deriving DecidableEq, Repr

/-- `PlanLoader`. -/
structure PlanLoader where
  plan : Plan := {}
  seenExecOption : Bool := false
  deriving DecidableEq, Repr

namespace PlanEnv

variable (env : PlanEnv)

/-- `RateLimit::Parse`. -/
def parseRateLimit (s : String) : Except String RateLimit :=
  match strtoul 10 (stripLeft s.toList) with
  | none => throw "Failed to parse number"
  | some (maxCount, rest) =>
    match stripLeft rest with
    | '/' :: rest => do
      let duration ← env.parseIntervalS (String.ofList (stripLeft rest))
      return { duration, maxCount := maxCount % 2 ^ 32 }
    | _ => throw "'/' expected"

/-- `ExpectValueAndEnd`. -/
def expectValueAndEnd : List String → Except String String
  | [value] => return value
  | _ => throw env.lineError

/-- `ExpectEnd`. -/
def expectEnd : List String → Except String Unit
  | [] => return ()
  | _ => throw env.lineError

/-! ## The options -/

/-- "exec" -/
def parseExec (plan : Plan) (values : List String) : Except String Plan := do
  if plan.args ≠ [] then throw "'exec' already specified"
  match values with
  | [] => throw "empty executable"
  | value :: _ =>
    if value = "" then throw "empty executable"
    return { plan with args := values }

/-- "control_channel" -/
def parseControlChannel (plan : Plan) : List String → Except String Plan
  | [] => return { plan with controlChannel := true }
  | value :: rest => do
    let enabled ← env.nextBool value
    env.expectEnd rest
    return { plan with controlChannel := enabled }

/-- "allow_spawn" -/
def parseAllowSpawn (plan : Plan) (values : List String) : Except String Plan := do
  if plan.controlChannel = false then throw "allow_spawn requires control_channel"
  env.expectEnd values
  return { plan with allowSpawn := true }

/-- "timeout" -/
def parseTimeout (plan : Plan) (values : List String) : Except String Plan := do
  let timeout ← env.expectValueAndEnd values
  let parsed ← env.parseIntervalS timeout
  return { plan with timeout, parsedTimeout := parsed * second }

/-- "reap_finished" -/
def parseReapFinished (plan : Plan) (values : List String) : Except String Plan := do
  let reapFinished ← env.expectValueAndEnd values
  let d ← env.parseIntervalS reapFinished
  if d ≤ 0 then throw ("Not a positive duration: " ++ reapFinished)
  return { plan with reapFinished }

/-- "chroot" -/
def parseChroot (plan : Plan) (values : List String) : Except String Plan := do
  let chroot ← env.expectValueAndEnd values
  let isDirectory ← env.stat chroot
  if isDirectory = false then throw ("not a directory: " ++ chroot)
  return { plan with chroot }

/-- "user" -/
def parseUser (plan : Plan) (values : List String) : Except String Plan := do
  let value ← env.expectValueAndEnd values
  match env.getpwnam value with
  | none => throw ("no such user \"" ++ value ++ "\"")
  | some (uid, gid) =>
    if uid = 0 then throw "user 'root' is forbidden"
    if gid = 0 then throw "group 'root' is forbidden"
    match env.getgrouplist value gid with
    | none => throw "getgrouplist() failed"
    | some groups => return { plan with uid, gid, groups }

/-- "umask" -/
def parseUmask (plan : Plan) (values : List String) : Except String Plan := do
  let s ← env.expectValueAndEnd values
  if s.toList.head? ≠ some '0' then throw "umask must be an octal value starting with '0'"
  match strtoul 8 s.toList with
  | some (value, []) =>
    if 0o777 < value then throw "umask is too large"
    return { plan with umask := value }
  | _ => throw "Failed to parse umask"

/-- "nice" -/
def parseNice (plan : Plan) (values : List String) : Except String Plan := do
  let s ← env.expectValueAndEnd values
  return { plan with priority := atoi s.toList }

/-- "rlimits" -/
def parseRlimitsOption (plan : Plan) (values : List String) : Except String Plan := do
  let s ← env.expectValueAndEnd values
  if env.parseRlimits s = false then throw "Failed to parse rlimits"
  return { plan with rlimits := plan.rlimits ++ [s] }

/-- "concurrency" -/
def parseConcurrency (plan : Plan) : List String → Except String Plan
  | [] => throw env.lineError
  | value :: rest => do
    let concurrency ← env.nextPositiveInteger value
    env.expectEnd rest
    return { plan with concurrency }

/-- "rate_limit" -/
def parseRateLimitOption (plan : Plan) (values : List String) : Except String Plan := do
  let s ← env.expectValueAndEnd values
  let rateLimit ← env.parseRateLimit s
  return { plan with rateLimits := plan.rateLimits ++ [rateLimit] }

/-- An option without a value. -/
def parseFlag (plan : Plan) (values : List String) : Except String Plan := do
  env.expectEnd values
  return plan

/-- The options that only apply to plans that execute a program themselves
(`seen_exec_option`). -/
def isExecOption (word : String) : Bool :=
  word ∈ ["exec", "chroot", "user", "umask", "nice", "sched_idle", "ioprio_idle", "idle",
    "private_network", "private_tmp", "rlimits"]

/-- The effect of one option on the plan. -/
def parseOption (plan : Plan) (line : Line) : Except String Plan :=
  match line.word with
  | "exec" => parseExec plan line.values
  | "translate" => return { plan with translate := true }
  | "notify_progress" => return { plan with notifyProgress := true }
  | "control_channel" => env.parseControlChannel plan line.values
  | "allow_spawn" => env.parseAllowSpawn plan line.values
  | "timeout" => env.parseTimeout plan line.values
  | "reap_finished" => env.parseReapFinished plan line.values
  | "chroot" => env.parseChroot plan line.values
  | "user" => env.parseUser plan line.values
  | "umask" => env.parseUmask plan line.values
  | "nice" => env.parseNice plan line.values
  | "sched_idle" => env.parseFlag { plan with schedIdle := true } line.values
  | "ioprio_idle" => env.parseFlag { plan with ioprioIdle := true } line.values
  | "idle" => env.parseFlag { plan with schedIdle := true, ioprioIdle := true } line.values
  | "private_network" => env.parseFlag { plan with privateNetwork := true } line.values
  | "private_tmp" => env.parseFlag { plan with privateTmp := true } line.values
  | "rlimits" => env.parseRlimitsOption plan line.values
  | "concurrency" => env.parseConcurrency plan line.values
  | "rate_limit" => env.parseRateLimitOption plan line.values
  | word => throw ("unknown option \"" ++ word ++ "\"")

/-! ## The loader -/

/-- `PlanLoader::ParseLine`. -/
def parseLine (loader : PlanLoader) (line : Line) : Except String PlanLoader := do
  let plan ← env.parseOption loader.plan line
  return { plan, seenExecOption := loader.seenExecOption || isExecOption line.word }

/-- `PlanLoader::Finish`. -/
def finish (loader : PlanLoader) : Except String Plan := do
  if loader.plan.translate then
    if loader.seenExecOption then throw "Cannot use 'translate' with execute options"
    if loader.plan.allowSpawn then throw "Cannot use 'translate' with 'allow_spawn'"
  else if loader.plan.args = [] then throw "no 'exec'"
  return if loader.plan.timeout = "" then { loader.plan with timeout := "10 minutes" }
    else loader.plan

/-- `LoadPlanFile`. -/
def loadPlanFile (lines : List Line) : Except String Plan := do
  finish (← lines.foldlM env.parseLine {})

end PlanEnv

end Workshop.Jobs

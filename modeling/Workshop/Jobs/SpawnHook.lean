import Workshop.Jobs.Expand
import Workshop.Jobs.PlanWellFormed
import Workshop.Jobs.Workplace

/-!
# What the spawner verifies

The daemon prepares a child process from a plan (`PrepareChildProcess` and `Start2` in
`src/workshop/Operator.cxx`), and the spawner, which has more privileges, checks it against its own
copy of the plan: `WorkshopSpawnHook::Verify` (`src/Hook.cxx`).

Both sides have room for 32 supplementary groups, but a plan can have 64 of them.  The groups of a
plan that has more than 32 are written past the end of the array; all other plans are accepted
(`verify_prepared_iff`).  `Preparation` says what can come of a job.
-/

namespace Workshop.Jobs

open Workshop.Lib

/-! ## The child process -/

/-- `UidGid`.  The groups end at the first zero. -/
structure UidGid where
  effectiveUid : ℕ
  effectiveGid : ℕ
  realUid : ℕ
  realGid : ℕ
  supplementaryGroups : Vector ℕ 32

/-- A new `UidGid`; `unset` is `UNSET_UID` and `UNSET_GID`. -/
def UidGid.empty (unset : ℕ) : UidGid where
  effectiveUid := unset
  effectiveGid := unset
  realUid := unset
  realGid := unset
  supplementaryGroups := .replicate 32 0

/-- What is set of `PreparedChildProcess`, apart from its cgroup. -/
structure PreparedChildProcess where
  args : List String := []
  env : List String := []
  stdin : Option (List UInt8) := none
  stdoutFd : Option ℕ := none
  stderrFd : Option ℕ := none
  controlFd : Option ℕ := none
  hookInfo : Option String := none
  uidGid : UidGid
  chroot : Option String := none
  umask : ℤ := -1
  rlimits : List String := []
  priority : ℤ := 10
  schedIdle : Bool := false
  ioprioIdle : Bool := false
  enableNetwork : Bool := false
  mountTmpTmpfs : Option String := none
  noNewPrivs : Bool := false

/-- How the preparation ends without a process: the end of an array is overrun, or there is an
exception. -/
inductive PrepareFailure
  | overrun
  | exception (message : String)
  deriving DecidableEq, Repr

/-- `std::copy` of the groups of a plan to the array. -/
def copyGroups (groups : List ℕ) (array : Vector ℕ 32) : Except PrepareFailure (Vector ℕ 32) :=
  if groups.length ≤ 32 then return .ofFn fun i => groups.getD i array[i]
  else throw .overrun

/-- The pipes and sockets of a new process. -/
structure ChildFds where
  stderrW : Option ℕ
  controlChild : Option ℕ
  stdoutW : Option ℕ

/-- The user and the groups of a plan. -/
def setUidGid (debugMode : Bool) (plan : Plan) (uidGid : UidGid) : Except PrepareFailure UidGid :=
  if debugMode then return uidGid
  else do
    let supplementaryGroups ← copyGroups plan.groups uidGid.supplementaryGroups
    return { uidGid with
      effectiveUid := plan.uid, effectiveGid := plan.gid, supplementaryGroups }

/-- `PrepareChildProcess`, for a plan that executes a program itself. -/
def prepareChildProcess (debugMode : Bool) (p : PreparedChildProcess) (planName : String)
    (plan : Plan) (fds : ChildFds) : Except PrepareFailure PreparedChildProcess := do
  let p := { p with
    stdoutFd := fds.stderrW, stderrFd := fds.stderrW, controlFd := fds.controlChild,
    hookInfo := some planName }
  let uidGid ← setUidGid debugMode plan p.uidGid
  return { p with
    uidGid
    chroot := if plan.chroot = "" then p.chroot else some plan.chroot
    umask := plan.umask
    rlimits := plan.rlimits
    priority := plan.priority
    schedIdle := plan.schedIdle
    ioprioIdle := plan.ioprioIdle
    enableNetwork := plan.privateNetwork
    mountTmpTmpfs := if plan.privateTmp then some "" else p.mountTmpTmpfs
    noNewPrivs := true }

/-- The loop that adds the arguments. -/
def pushArgs (args : List String) : List String → Except PrepareFailure (List String)
  | [] => return args
  | s :: rest =>
    if 4096 ≤ args.length then throw (.exception "Too many command-line arguments")
    else pushArgs (args ++ [s]) rest

/-- The loop that adds the variables of the job. -/
def pushEnv (env : List String) : List String → Except PrepareFailure (List String)
  | [] => return env
  | s :: rest =>
    if 64 ≤ env.length then throw (.exception "Too many environment variables")
    else pushEnv (if "LD_".isPrefixOf s then env else env ++ [s]) rest

/-- The command line of a job, with its variables expanded. -/
def commandLine (nodeName : String) (plan : Plan) (job : WorkshopJob) : List String :=
  (expandArgs nodeName.toList (toString job.id).toList job.planName.toList
    ((plan.args ++ job.args).map String.toList)).map String.ofList

/-- `Start2`, from the call of `PrepareChildProcess` to that of `SpawnChildProcess`, for a plan that
executes a program itself. -/
def prepareJob (unset : ℕ) (debugMode : Bool) (nodeName : String) (plan : Plan) (job : WorkshopJob)
    (fds : ChildFds) : Except PrepareFailure PreparedChildProcess := do
  let p ← prepareChildProcess debugMode { uidGid := .empty unset } job.planName plan fds
  let p := { p with
    stdin := job.stdin
    stdoutFd := if plan.controlChannel then p.stdoutFd else fds.stdoutW }
  let args ← pushArgs p.args (commandLine nodeName plan job)
  let env ← pushEnv p.env job.env
  return { p with args, env }

/-! ## The hook -/

/-- `CompareGroups`. -/
def compareGroups (a : List ℕ) (b : Vector ℕ 32) : Bool :=
  if 32 < a.length then false
  else if a.length < 32 ∧ b[a.length]? ≠ some 0 then false
  else (List.range a.length).all fun i => a[i]? == b[i]?

/-- `WorkshopSpawnHook::Verify`, with the library of the spawner, if it has one. -/
def verify (unset : ℕ) (library : Option (String → Option Plan)) (p : PreparedChildProcess) :
    Except String Bool :=
  match p.hookInfo, library with
  | some planName, some get => do
    match get planName with
    | none => throw ("No such plan: " ++ planName)
    | some plan =>
      if p.uidGid.realUid ≠ unset ∨ p.uidGid.realGid ≠ unset then
        throw "Real uid/gid not supported for plans"
      if p.uidGid.effectiveUid ≠ plan.uid then
        throw ("Wrong uid " ++ toString p.uidGid.effectiveUid ++ ", expected " ++
          toString plan.uid ++ " for plan " ++ planName)
      if p.uidGid.effectiveGid ≠ plan.gid then
        throw ("Wrong gid " ++ toString p.uidGid.effectiveGid ++ ", expected " ++
          toString plan.gid ++ " for plan " ++ planName)
      if compareGroups plan.groups p.uidGid.supplementaryGroups = false then
        throw ("Supplementary group mismatch for plan " ++ planName)
      if p.args = [] ∨ plan.args = [] ∨ plan.args.head? ≠ p.args.head? then
        throw ("Executable mismatch for plan " ++ planName)
      return true
  | _, _ => return false

/-! ## Why they agree -/

lemma copyGroups_cases (groups : List ℕ) :
    (32 < groups.length ∧ copyGroups groups (.replicate 32 0) = .error .overrun) ∨
      (groups.length ≤ 32 ∧ ∃ v, copyGroups groups (.replicate 32 0) = .ok v ∧
        compareGroups groups v = true) := by
  unfold copyGroups
  split
  · rename_i hle
    refine .inr ⟨hle, _, rfl, ?_⟩
    have hget : ∀ i < 32, (Vector.ofFn fun i : Fin 32 =>
        groups.getD i (Vector.replicate 32 0)[i])[i]? = some (groups.getD i 0) := by
      intro i hi
      simp [hi]
    unfold compareGroups
    rw [if_neg (Nat.not_lt.mpr hle), if_neg]
    · refine List.all_eq_true.mpr fun i hi => beq_iff_eq.mpr ?_
      have hlt : i < groups.length := List.mem_range.mp hi
      rw [hget i (hlt.trans_le hle), List.getD_eq_getElem?_getD, List.getElem?_eq_getElem hlt]
      rfl
    · rintro ⟨hlt, hzero⟩
      refine hzero ?_
      rw [hget _ hlt, List.getD_eq_getElem?_getD, List.getElem?_eq_none le_rfl]
      rfl
  · rename_i hgt
    exact .inl ⟨Nat.lt_of_not_le hgt, rfl⟩

/-- The first argument is not expanded. -/
lemma commandLine_head? (nodeName : String) {plan : Plan} (job : WorkshopJob)
    (hargs : plan.args ≠ []) : (commandLine nodeName plan job).head? = plan.args.head? := by
  obtain ⟨program, args, hcons⟩ := List.exists_cons_of_ne_nil hargs
  rw [commandLine, hcons]
  simp [expandArgs]

lemma pushArgs_eq {args : List String} (hlen : args.length ≤ 4096) (l : List String) :
    pushArgs args l = if 4096 < args.length + l.length
      then .error (.exception "Too many command-line arguments") else .ok (args ++ l) := by
  induction l generalizing args with
  | nil =>
      rw [List.length_nil, Nat.add_zero, if_neg (Nat.not_lt.mpr hlen), List.append_nil]
      rfl
  | cons s l ih =>
      unfold pushArgs
      split
      · rename_i hfull
        rw [if_pos (by simp only [List.length_cons]; omega)]
        rfl
      · rename_i hroom
        rw [ih (by simp only [List.length_append, List.length_singleton]; omega),
          List.append_assoc, List.singleton_append, List.length_append, List.length_singleton,
          List.length_cons, Nat.add_assoc, Nat.add_comm 1]

/-- The variables of the job are added, or there are too many of them. -/
lemma pushEnv_cases (env l : List String) :
    (tooManyVariables env.length l = true ∧
        pushEnv env l = .error (.exception "Too many environment variables")) ∨
      (tooManyVariables env.length l = false ∧ ∃ env', pushEnv env l = .ok env') := by
  induction l generalizing env with
  | nil => exact .inr ⟨rfl, env, rfl⟩
  | cons s l ih =>
      unfold pushEnv tooManyVariables
      by_cases hfull : 64 ≤ env.length
      · rw [decide_eq_true hfull, if_pos hfull]
        exact .inl ⟨rfl, rfl⟩
      · rw [decide_eq_false hfull, if_neg hfull, Bool.false_or]
        split
        · exact ih env
        · have hlen : (env ++ [s]).length = env.length + 1 := List.length_append
          exact hlen ▸ ih (env ++ [s])

lemma commandLine_length (nodeName : String) (plan : Plan) (job : WorkshopJob) :
    (commandLine nodeName plan job).length = (plan.args ++ job.args).length := by
  unfold commandLine
  cases plan.args ++ job.args with
  | nil => rfl
  | cons program args => simp [expandArgs]

/-- What the hook looks at. -/
structure Prepared (unset : ℕ) (plan : Plan) (planName : String) (args : List String)
    (p : PreparedChildProcess) : Prop where
  hookInfo : p.hookInfo = some planName
  realUid : p.uidGid.realUid = unset
  realGid : p.uidGid.realGid = unset
  effectiveUid : p.uidGid.effectiveUid = plan.uid
  effectiveGid : p.uidGid.effectiveGid = plan.gid
  groups : compareGroups plan.groups p.uidGid.supplementaryGroups = true
  args : p.args = args

variable {unset : ℕ} {nodeName : String} {plan : Plan} {job : WorkshopJob} {fds : ChildFds}
  {p : PreparedChildProcess}

/-- **What comes of a job.** -/
inductive Preparation (unset : ℕ) (nodeName : String) (plan : Plan) (job : WorkshopJob) :
    Except PrepareFailure PreparedChildProcess → Prop
  | overrun (hgroups : 32 < plan.groups.length) :
      Preparation unset nodeName plan job (.error .overrun)
  | manyArguments (hgroups : plan.groups.length ≤ 32)
      (hargs : 4096 < (plan.args ++ job.args).length) :
      Preparation unset nodeName plan job (.error (.exception "Too many command-line arguments"))
  | manyVariables (hgroups : plan.groups.length ≤ 32)
      (hargs : (plan.args ++ job.args).length ≤ 4096) (henv : tooManyVariables 0 job.env = true) :
      Preparation unset nodeName plan job (.error (.exception "Too many environment variables"))
  | prepared {p : PreparedChildProcess} (hgroups : plan.groups.length ≤ 32)
      (hargs : (plan.args ++ job.args).length ≤ 4096) (henv : tooManyVariables 0 job.env = false)
      (hp : Prepared unset plan job.planName (commandLine nodeName plan job) p) :
      Preparation unset nodeName plan job (.ok p)

lemma prepareJob_preparation (unset : ℕ) (nodeName : String) (plan : Plan) (job : WorkshopJob)
    (fds : ChildFds) :
    Preparation unset nodeName plan job (prepareJob unset false nodeName plan job fds) := by
  unfold prepareJob prepareChildProcess setUidGid UidGid.empty
  rcases copyGroups_cases plan.groups with ⟨hgroups, hcopy⟩ | ⟨hgroups, v, hcopy, hcompare⟩
  · simp only [hcopy]
    exact .overrun hgroups
  · simp only [hcopy]
    have hargs := pushArgs_eq (List.length_nil.trans_le (Nat.zero_le 4096))
      (commandLine nodeName plan job)
    rw [commandLine_length, List.length_nil, Nat.zero_add, List.nil_append] at hargs
    simp only [bind, Except.bind, pure, Except.pure, Bool.false_eq_true, if_false, hargs]
    by_cases hmany : 4096 < (plan.args ++ job.args).length
    · rw [if_pos hmany]
      exact .manyArguments hgroups hmany
    · rw [if_neg hmany]
      have hfew := Nat.not_lt.mp hmany
      rcases pushEnv_cases [] job.env with ⟨htoo, henv⟩ | ⟨hroom, env, henv⟩
      · simp only [henv]
        exact .manyVariables hgroups hfew htoo
      · simp only [henv]
        exact .prepared hgroups hfew hroom ⟨rfl, rfl, rfl, rfl, rfl, hcompare, rfl⟩

lemma prepareJob_eq_overrun_iff :
    prepareJob unset false nodeName plan job fds = .error .overrun ↔ 32 < plan.groups.length := by
  have hcases := prepareJob_preparation unset nodeName plan job fds
  generalize prepareJob unset false nodeName plan job fds = result at hcases
  cases hcases with
  | overrun hgroups => exact iff_of_true rfl hgroups
  | manyArguments hgroups _ => exact iff_of_false (fun h => nomatch h) (Nat.not_lt.mpr hgroups)
  | manyVariables hgroups _ _ => exact iff_of_false (fun h => nomatch h) (Nat.not_lt.mpr hgroups)
  | prepared hgroups _ _ _ => exact iff_of_false (fun h => nomatch h) (Nat.not_lt.mpr hgroups)

lemma prepared_of_prepareJob (h : prepareJob unset false nodeName plan job fds = .ok p) :
    Prepared unset plan job.planName (commandLine nodeName plan job) p := by
  have hcases := prepareJob_preparation unset nodeName plan job fds
  rw [h] at hcases
  cases hcases with
  | prepared _ _ _ hp => exact hp

/-- The exceptions are those of the operator in the workplace. -/
lemma prepareError_eq_of_prepareJob {env : OperatorEnv} {o : ActiveOperator}
    (hexec : o.plan.translate = false) (hgroups : o.plan.groups.length ≤ 32) {message : String} :
    prepareJob unset false nodeName o.plan o.job fds = .error (.exception message) ↔
      o.prepareError env = some message := by
  have hcases := prepareJob_preparation unset nodeName o.plan o.job fds
  generalize prepareJob unset false nodeName o.plan o.job fds = result at hcases
  simp only [ActiveOperator.prepareError, hexec, Bool.false_eq_true, if_false, Option.none_or,
    Bool.not_false, Bool.true_and, decide_eq_true_iff, List.length_nil]
  cases hcases with
  | overrun htoo => exact absurd hgroups (Nat.not_le.mpr htoo)
  | manyArguments _ hargs =>
      rw [if_pos hargs]
      simp
  | manyVariables _ hargs henv =>
      rw [if_neg (Nat.not_lt.mpr hargs), if_pos henv]
      simp
  | prepared _ hargs henv _ =>
      rw [if_neg (Nat.not_lt.mpr hargs), if_neg (Bool.not_eq_true _ ▸ henv)]
      simp

/-- The hook accepts what was prepared from the same plan. -/
lemma Prepared.verify {planName : String} (h : Prepared unset plan planName
    (commandLine nodeName plan job) p) (hargs : plan.args ≠ []) {get : String → Option Plan}
    (hget : get planName = some plan) : verify unset (some get) p = .ok true := by
  have hhead : plan.args.head? = p.args.head? := by
    rw [h.args, commandLine_head? nodeName job hargs]
  have hne : p.args ≠ [] := by
    intro hnil
    rw [hnil, List.head?_nil, List.head?_eq_none_iff] at hhead
    exact hargs hhead
  simp only [Jobs.verify, h.hookInfo, hget, h.realUid, h.realGid, h.effectiveUid, h.effectiveGid,
    h.groups]
  simp [hne, hargs, hhead]
  rfl

/-- **Which jobs can be run.**  Of a plan that executes a program itself, every job is prepared
without an overrun and what is prepared is accepted, exactly if its user has at most 32 groups. -/
theorem verify_prepared_iff {unset : ℕ} {nodeName : String} {env : PlanEnv} {lines : List Line}
    {plan : Plan} {job : WorkshopJob} {fds : ChildFds} {get : String → Option Plan}
    (hload : env.loadPlanFile lines = .ok plan) (hexec : plan.translate = false)
    (hget : get job.planName = some plan) :
    prepareJob unset false nodeName plan job fds ≠ .error .overrun ∧
      (∀ p, prepareJob unset false nodeName plan job fds = .ok p →
        verify unset (some get) p = .ok true) ↔
      (env.lastGroups lines).length ≤ 32 := by
  rw [← groups_eq_of_loadPlanFile hload, Ne, prepareJob_eq_overrun_iff, Nat.not_lt]
  refine and_iff_left fun p hp => ?_
  exact (prepared_of_prepareJob hp).verify (args_ne_nil_of_loadPlanFile hload hexec) hget

/-- A user database with one user, in the given groups. -/
def userEnv (groups : List ℕ) : PlanEnv where
  parseIntervalS _ := .error "Failed to parse interval"
  lineError := "Syntax error"
  nextBool _ := .error "Bad boolean"
  nextPositiveInteger _ := .error "Positive integer expected"
  parseRlimits _ := false
  stat _ := .error "failed to stat"
  getpwnam user := if user = "render" then some (1000, 100) else none
  getgrouplist user _ := if user = "render" then some groups else none

/-- Convert a file, as that user. -/
def renderLines : List Line :=
  [{ word := "exec", values := ["/usr/bin/convert"] }, { word := "user", values := ["render"] }]

def renderPlan (groups : List ℕ) : Plan :=
  { args := ["/usr/bin/convert"], timeout := "10 minutes", uid := 1000, gid := 100, groups }

def renderJob : WorkshopJob :=
  { id := 1, planName := "render", args := ["a.png", "b.jpg"], env := [], stdin := none }

theorem verify_prepared_two_groups :
    prepareJob (2 ^ 32 - 1) false "node1" (renderPlan [100, 27]) renderJob ⟨some 3, none, some 4⟩ ≠
        .error .overrun ∧
      ∀ p, prepareJob (2 ^ 32 - 1) false "node1" (renderPlan [100, 27]) renderJob
          ⟨some 3, none, some 4⟩ = .ok p →
        verify (2 ^ 32 - 1) (some fun _ => some (renderPlan [100, 27])) p = .ok true :=
  (@verify_prepared_iff (2 ^ 32 - 1) "node1" (userEnv [100, 27]) renderLines
    (renderPlan [100, 27]) renderJob ⟨some 3, none, some 4⟩ (fun _ => some (renderPlan [100, 27]))
    rfl rfl rfl).mpr (by decide)

/-- **One group too many**, with the loader still below its own limit of 64. -/
theorem groups_overrun : ¬ ∀ (unset : ℕ) (nodeName : String) (env : PlanEnv) (lines : List Line)
    (plan : Plan) (job : WorkshopJob) (fds : ChildFds) (get : String → Option Plan),
    env.loadPlanFile lines = .ok plan → plan.translate = false →
    get job.planName = some plan →
    prepareJob unset false nodeName plan job fds ≠ .error .overrun ∧
      ∀ p, prepareJob unset false nodeName plan job fds = .ok p →
        verify unset (some get) p = .ok true := by
  intro h
  let plan := renderPlan (List.replicate 33 100)
  have hboth := h (2 ^ 32 - 1) "node1" (userEnv (List.replicate 33 100)) renderLines plan renderJob
    ⟨none, none, none⟩ (fun _ => some plan) rfl rfl rfl
  exact hboth.1 rfl

end Workshop.Jobs

import Mathlib.Data.Finset.Filter
import Mathlib.Data.List.Sort
import Workshop.Lib.Table
import Workshop.Lib.Calendar

/-!
# The `jobs` table and its statements

The columns of `sql/jobs.sql` the daemon uses, the statements prepared by `pg_init`
(`src/workshop/PGQueue.cxx`), and the updates the documentation allows clients (`doc/index.rst`).

Time stamps are time points in microseconds, intervals are durations in microseconds, and the
texts of intervals are read by PostgreSQL, whose parser is a parameter of the system.  Columns no
statement of the daemon depends on are left out (`name`, `description`, `account_id`,
`time_modified`).

On a partition with stickiness, the statements that look for jobs leave out those whose `sticky_id`
is in `sticky_non_local`, a temporary table of the connection, which is a set of ids here.  Without
stickiness, and without the column, the set is empty (`sticky_id_check` is `TRUE`).
-/

namespace Workshop.Jobs

open Workshop.Lib

/-! ## Rows -/

/-- A row of `jobs`. -/
structure JobRow where
  id : ℕ
  timeCreated : ℤ
  scheduledTime : Option ℤ := none
  enabled : Bool := true
  priority : ℤ := 0
  planName : String
  stickyId : Option String := none
  args : Option (List String) := none
  env : Option (List String) := none
  stdin : Option (List UInt8) := none
  nodeName : Option String := none
  nodeTimeout : Option ℤ := none
  progress : ℕ := 0
  timeStarted : Option ℤ := none
  timeDone : Option ℤ := none
  cpuUsage : Option ℤ := none
  log : Option String := none
  exitStatus : Option ℤ := none
  deriving DecidableEq, Repr

abbrev JobTable := Table JobRow.id

abbrev JobUpdate := Update JobRow.id

/-! ## Selecting jobs -/

/-- The condition of `select_new_jobs` on the state of a job: not assigned, not done, enabled, and
not scheduled for later. -/
def isEligible (now : ℤ) (r : JobRow) : Bool :=
  r.nodeName.isNone && r.timeDone.isNone && r.exitStatus.isNone &&
    (r.scheduledTime.all fun t => t ≤ now) && r.enabled

/-- The condition of `select_new_jobs` on the plan: in the first list, and in none of the
others. -/
def isSelected (plansInclude plansExclude plansLowprio : Finset String) (r : JobRow) : Bool :=
  r.planName ∈ plansInclude && r.planName ∉ plansExclude && r.planName ∉ plansLowprio

/-- `sticky_id_check` does not hold: the sticky id is in `sticky_non_local`. -/
def isHidden (stickyNonLocal : Finset String) (r : JobRow) : Bool :=
  r.stickyId.any (· ∈ stickyNonLocal)

/-- `ORDER BY priority, time_created`. -/
def precedes (a b : JobRow) : Prop :=
  a.priority < b.priority ∨ (a.priority = b.priority ∧ a.timeCreated ≤ b.timeCreated)

instance : DecidableRel precedes := fun _ _ => inferInstanceAs (Decidable (_ ∨ _))

/-- `select_new_jobs`. -/
def selectNewJobs (t : JobTable) (now : ℤ) (stickyNonLocal : Finset String)
    (plansInclude plansExclude plansLowprio : Finset String) (limit : ℕ) : List JobRow :=
  ((t.rows.filter fun r => isEligible now r &&
      isSelected plansInclude plansExclude plansLowprio r && !isHidden stickyNonLocal r)
    |>.insertionSort precedes).take limit

/-- `check_rate_limit` and `PgCheckRateLimit`: the whole seconds until the start number `maxCount`,
counted back from the last one, leaves the window; zero if there is no such start.  The offset is
the `unsigned` `max_count - 1`. -/
def checkRateLimit (t : JobTable) (now : ℤ) (planName : String) (duration : ℤ) (maxCount : ℕ) : ℤ :=
  let starts := (t.rows.filter fun r => r.planName == planName).filterMap JobRow.timeStarted
  let recent := starts.filter fun started => now - duration * second ≤ started
  match (recent.insertionSort (· ≥ ·))[(maxCount + (2 ^ 32 - 1)) % 2 ^ 32]? with
  | none => 0
  | some started => (started + duration * second - now).tdiv second

/-- What `select_new_jobs` returns is in the table and met its condition. -/
lemma mem_selectNewJobs {t : JobTable} {now : ℤ}
    {stickyNonLocal plansInclude plansExclude plansLowprio : Finset String} {limit : ℕ} {r : JobRow}
    (h : r ∈ selectNewJobs t now stickyNonLocal plansInclude plansExclude plansLowprio limit) :
    r ∈ t.rows ∧ isEligible now r = true := by
  have hmem := (List.mem_insertionSort precedes).mp (List.mem_of_mem_take h)
  obtain ⟨hr, hcond⟩ := List.mem_filter.mp hmem
  obtain ⟨hselected, _⟩ := Bool.and_eq_true_iff.mp hcond
  exact ⟨hr, (Bool.and_eq_true_iff.mp hselected).1⟩

/-- Where the limit is no restriction, `select_new_jobs` returns all such rows. -/
lemma mem_selectNewJobs_iff {t : JobTable} {now : ℤ}
    {stickyNonLocal plansInclude plansExclude plansLowprio : Finset String} {limit : ℕ} {r : JobRow}
    (hlimit : t.rows.length ≤ limit) :
    r ∈ selectNewJobs t now stickyNonLocal plansInclude plansExclude plansLowprio limit ↔
      r ∈ t.rows ∧ isEligible now r = true ∧ isHidden stickyNonLocal r = false ∧
        r.planName ∈ plansInclude ∧ r.planName ∉ plansExclude ∧ r.planName ∉ plansLowprio := by
  have hlength : ((t.rows.filter fun r => isEligible now r &&
      isSelected plansInclude plansExclude plansLowprio r &&
        !isHidden stickyNonLocal r).insertionSort precedes).length ≤ limit := by
    rw [List.length_insertionSort]
    exact (List.length_filter_le _ _).trans hlimit
  rw [selectNewJobs, List.take_of_length_le hlength, List.mem_insertionSort, List.mem_filter]
  simp only [isSelected, Bool.and_eq_true, Bool.not_eq_true', decide_eq_true_eq]
  tauto

lemma selectNewJobs_nodup (t : JobTable) (now : ℤ)
    (stickyNonLocal plansInclude plansExclude plansLowprio : Finset String) (limit : ℕ) :
    (selectNewJobs t now stickyNonLocal plansInclude plansExclude plansLowprio limit).Nodup := by
  have hrows : t.rows.Nodup := t.nodup.of_map _
  refine List.Nodup.sublist (List.take_sublist _ _) ?_
  exact (List.perm_insertionSort _ _).nodup_iff.mpr (hrows.filter _)

lemma isEligible_iff {now : ℤ} {r : JobRow} : isEligible now r = true ↔
    r.nodeName = none ∧ r.timeDone = none ∧ r.exitStatus = none ∧
      (∀ u, r.scheduledTime = some u → u ≤ now) ∧ r.enabled = true := by
  rcases hs : r.scheduledTime with _ | u <;> simp [isEligible, hs, and_assoc]

/-! ## Updating jobs -/

/-- `claim_job`. -/
def claimJob (node : String) (id : ℕ) (timeout now : ℤ) : JobUpdate where
  cond r := r.id == id && r.nodeName.isNone && r.enabled
  set r := { r with
    nodeName := some node, nodeTimeout := some (now + timeout), timeStarted := some now }
  key_set _ := rfl

/-- `set_job_progress`. -/
def setJobProgress (id progress : ℕ) (timeout now : ℤ) : JobUpdate where
  cond r := r.id == id
  set r := { r with progress, nodeTimeout := some (now + timeout) }
  key_set _ := rfl

/-- `set_job_done`. -/
def setJobDone (id : ℕ) (status : ℤ) (log : Option String) (now : ℤ) : JobUpdate where
  cond r := r.id == id
  set r := { r with timeDone := some now, progress := 100, exitStatus := some status, log }
  key_set _ := rfl

/-- `add_cpu_usage`. -/
def addCpuUsage (id : ℕ) (usage : ℤ) : JobUpdate where
  cond r := r.id == id
  set r := { r with cpuUsage := some (r.cpuUsage.getD 0 + usage) }
  key_set _ := rfl

/-- What `release_jobs`, `expire_jobs`, `rollback_job` and `again_job` have in common: the job is
not assigned any more. -/
def release (r : JobRow) : JobRow := { r with nodeName := none, nodeTimeout := none, progress := 0 }

/-- `release_jobs`. -/
def releaseJobs (node : String) : JobUpdate where
  cond r := r.nodeName == some node && r.timeDone.isNone && r.exitStatus.isNone
  set := release
  key_set _ := rfl

/-- `expire_jobs`. -/
def expireJobs (node : String) (now : ℤ) : JobUpdate where
  cond r := r.timeDone.isNone && r.exitStatus.isNone && r.nodeName.isSome &&
    r.nodeName != some node && r.nodeTimeout.any fun timeout => timeout < now
  set := release
  key_set _ := rfl

/-- SQL `LIKE`: `%` matches any characters, `_` matches one, and a backslash quotes the next
character of the pattern. -/
def sqlLike : List Char → List Char → Bool
  | [], cs => cs.isEmpty
  | '%' :: ps, cs => cs.tails.any (sqlLike ps)
  | '_' :: ps, cs => !cs.isEmpty && sqlLike ps cs.tail
  | '\\' :: p :: ps, cs => cs.head? == some p && sqlLike ps cs.tail
  | p :: ps, cs => cs.head? == some p && sqlLike ps cs.tail

/-- `set_env`. -/
def setEnv (id : ℕ) (moreEnv like : String) : JobUpdate where
  cond r := r.id == id
  set r := { r with
    env := some (((r.env.getD []).filter fun x => !sqlLike like.toList x.toList) ++ [moreEnv]) }
  key_set _ := rfl

/-- `rollback_job`. -/
def rollbackJob (id : ℕ) : JobUpdate where
  cond r := r.id == id && r.nodeName.isSome && r.timeDone.isNone
  set := release
  key_set _ := rfl

/-- `again_job`. -/
def againJob (id : ℕ) (delay : ℤ) (log : Option String) (now : ℤ) : JobUpdate where
  cond r := r.id == id && r.nodeName.isSome && r.timeDone.isNone
  set r := { release r with log, scheduledTime := some (now + delay) }
  key_set _ := rfl

/-- The condition of `reap_finished_jobs`, which deletes jobs. -/
def isReaped (planName : String) (age now : ℤ) (r : JobRow) : Bool :=
  r.planName == planName && r.timeDone.any fun done => done < now - age

/-! ## Clients -/

/-- What a client may set when it creates a job. -/
structure NewJob where
  scheduledTime : Option ℤ := none
  enabled : Bool := true
  priority : ℤ := 0
  planName : String
  stickyId : Option String := none
  args : Option (List String) := none
  env : Option (List String) := none
  stdin : Option (List UInt8) := none
  deriving DecidableEq, Repr

/-- The row of a new job. -/
def NewJob.row (job : NewJob) (id : ℕ) (now : ℤ) : JobRow where
  id := id
  timeCreated := now
  scheduledTime := job.scheduledTime
  enabled := job.enabled
  priority := job.priority
  planName := job.planName
  stickyId := job.stickyId
  args := job.args
  env := job.env
  stdin := job.stdin

/-- What a client may change of a job that is not assigned. -/
structure JobEdit where
  scheduledTime : Option (Option ℤ) := none
  enabled : Option Bool := none
  priority : Option ℤ := none
  planName : Option String := none
  stickyId : Option (Option String) := none
  args : Option (Option (List String)) := none
  env : Option (Option (List String)) := none
  stdin : Option (Option (List UInt8)) := none
  deriving DecidableEq, Repr

/-- The `UPDATE` of a client, with `node_name IS NULL`. -/
def editJob (id : ℕ) (e : JobEdit) : JobUpdate where
  cond r := r.id == id && r.nodeName.isNone
  set r :=
    { r with
      scheduledTime := e.scheduledTime.getD r.scheduledTime
      enabled := e.enabled.getD r.enabled
      priority := e.priority.getD r.priority
      planName := e.planName.getD r.planName
      stickyId := e.stickyId.getD r.stickyId
      args := e.args.getD r.args
      env := e.env.getD r.env
      stdin := e.stdin.getD r.stdin }
  key_set _ := rfl

/-- The jobs a client may delete: not assigned, or completed. -/
def isDeletable (r : JobRow) : Bool := r.nodeName.isNone || r.timeDone.isSome

/-! ## The conditions of the updates -/

section Conditions

variable {r : JobRow} {node : String} {id progress : ℕ} {timeout delay now status usage : ℤ}
  {log : Option String} {moreEnv like : String} {e : JobEdit}

@[simp] lemma claimJob_cond : (claimJob node id timeout now).cond r = true ↔
    r.id = id ∧ r.nodeName = none ∧ r.enabled = true := by
  simp [claimJob, and_assoc]

@[simp] lemma setJobProgress_cond :
    (setJobProgress id progress timeout now).cond r = true ↔ r.id = id := by
  simp [setJobProgress]

@[simp] lemma setJobDone_cond : (setJobDone id status log now).cond r = true ↔ r.id = id := by
  simp [setJobDone]

@[simp] lemma addCpuUsage_cond : (addCpuUsage id usage).cond r = true ↔ r.id = id := by
  simp [addCpuUsage]

@[simp] lemma setEnv_cond : (setEnv id moreEnv like).cond r = true ↔ r.id = id := by
  simp [setEnv]

@[simp] lemma releaseJobs_cond : (releaseJobs node).cond r = true ↔
    r.nodeName = some node ∧ r.timeDone = none ∧ r.exitStatus = none := by
  simp [releaseJobs, and_assoc]

@[simp] lemma expireJobs_cond : (expireJobs node now).cond r = true ↔
    r.timeDone = none ∧ r.exitStatus = none ∧ r.nodeName ≠ none ∧ r.nodeName ≠ some node ∧
      ∃ timeout, r.nodeTimeout = some timeout ∧ timeout < now := by
  simp [expireJobs, and_assoc, Option.isSome_iff_ne_none, Option.any_eq_true]

@[simp] lemma rollbackJob_cond : (rollbackJob id).cond r = true ↔
    r.id = id ∧ r.nodeName ≠ none ∧ r.timeDone = none := by
  simp [rollbackJob, and_assoc, Option.isSome_iff_ne_none]

@[simp] lemma againJob_cond : (againJob id delay log now).cond r = true ↔
    r.id = id ∧ r.nodeName ≠ none ∧ r.timeDone = none := by
  simp [againJob, and_assoc, Option.isSome_iff_ne_none]

@[simp] lemma editJob_cond : (editJob id e).cond r = true ↔ r.id = id ∧ r.nodeName = none := by
  simp [editJob]

end Conditions

end Workshop.Jobs

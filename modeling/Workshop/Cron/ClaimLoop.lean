import Mathlib.Data.Finset.Insert
import Mathlib.Data.Finset.Card
import Mathlib.Data.Finset.Order
import Workshop.Cron.Workplace

/-!
# The claim loop

`CronQueue::RunClaim` (`src/cron/Queue.cxx`) goes on as long as `CheckPending` returns true, with
the database: a `CronPartition`, the table, and what happens to both from one statement to the next.
`CheckPending` passes the earliest pending job to `OnJob` (`src/cron/Partition.cxx`), which tries to
claim it, or remembers that it is sticky on another node.

The loop ends because each job that was looked at is not pending any more, whoever has claimed it
(`claim_loop_ends`).  This is not so if the statement fails: `Claim` hides the exception from the
loop, which then finds the same job again and again (`claim_loop_hangs`).

And a job that was claimed is executed, unless `GetNow` throws: then there is neither a `Running`
object nor a `Finish` (`claimed_executes_iff`).
-/

namespace Workshop.Cron

open Workshop.Lib

/-! ## A claimed job -/

section Orphans

variable {env : PartitionEnv} {now : ℤ} {p p' : CronPartition} {r r' : RunningTask} {job : CronJob}

/-- There is a `Running` object for the job. -/
def CronPartition.Executes (p : CronPartition) (id : ℕ) : Prop := ∃ r ∈ p.running, r.job.id = id

/-- `Finish` is executed for the job. -/
def Finishes (id : ℕ) (actions : List Action) : Prop :=
  ∃ k job, Action.finish k job ∈ actions ∧ job.id = id

lemma finishes_conclusion {k : ℕ} {result : CronResult} (hjob : r'.job = r.job) :
    Finishes r.job.id (conclusion k result r') := by
  refine ⟨r'.number, r'.job, ?_, congrArg CronJob.id hjob⟩
  simp [conclusion]

/-- A coroutine that goes on either still has its object, or has finished the job. -/
lemma CronPartition.resume_executes {awaited : List Awaited} (hr : r ∈ p.running)
    (h : p.resume env now r awaited = some p') :
    ∃ new, p'.actions = p.actions ++ new ∧ (p'.Executes r.job.id ∨ Finishes r.job.id new) := by
  refine CronPartition.resume_rule (I := fun p r p' => ∃ new, p'.actions = p.actions ++ new ∧
    (p'.Executes r.job.id ∨ Finishes r.job.id new)) ?_ ?_ ?_ hr h
  · intro p r hr
    exact ⟨[], (List.append_nil _).symm, .inl ⟨r, hr, rfl⟩⟩
  · intro p p' r r' _ _ hjob h
    obtain ⟨new, hactions, hexecutes⟩ := h
    rw [hjob] at hexecutes
    refine ⟨.handled r'.number :: new, ?_, ?_⟩
    · rw [hactions]
      simp [CronPartition.record, CronPartition.update]
    · refine hexecutes.imp_right ?_
      rintro ⟨k, job, hfinish, hid⟩
      exact ⟨k, job, List.mem_cons_of_mem _ hfinish, hid⟩
  · intro p r r' result _ _ hjob
    refine ⟨conclusion 1 result r', ?_, .inr (finishes_conclusion hjob)⟩
    simp [CronPartition.workplaceOnCompletion, CronPartition.setResult, CronPartition.record,
      CronPartition.update, conclusion]

@[simp] lemma CronPartition.disableIfFull_running (env : PartitionEnv) (p : CronPartition) :
    (p.disableIfFull env).running = p.running := by
  unfold CronPartition.disableIfFull
  split <;> rfl

@[simp] lemma CronPartition.disableIfFull_actions (env : PartitionEnv) (p : CronPartition) :
    (p.disableIfFull env).actions = p.actions := by
  unfold CronPartition.disableIfFull
  split <;> rfl

/-- What `CronWorkplace::Start` leaves of the job. -/
lemma CronPartition.start_executes {startTime : String} {awaited : List Awaited}
    (h : p.start env now job startTime awaited = some p') :
    ∃ new, p'.actions = p.actions ++ new ∧ (p'.Executes job.id ∨ Finishes job.id new) := by
  have hmem : p.create env now job startTime ∈
      (p.pushBack (p.create env now job startTime)).running :=
    List.mem_append_right _ (List.mem_singleton_self _)
  obtain ⟨new, hactions, hexecutes⟩ := CronPartition.resume_executes hmem h
  refine ⟨.started p.created (p.create env now job startTime).job :: new, ?_, ?_⟩
  · rw [hactions]
    simp [CronPartition.pushBack, CronPartition.record, CronPartition.create]
  · refine hexecutes.imp id ?_
    rintro ⟨k, job', hfinish, hid⟩
    exact ⟨k, job', List.mem_cons_of_mem _ hfinish, hid⟩

/-- **A claimed job is executed or finished** when `OnJob` returns exactly if `GetNow` does not
throw, or there was an object for the job before. -/
theorem claimed_executes_iff (env : PartitionEnv) (now : ℤ) (p p' : CronPartition) (job : CronJob)
    (answers : JobAnswers) (hlocal : answers.nonLocal = false) (hclaimed : answers.claimed = true)
    (h : p.onJob env now job answers = some p') :
    (p'.Executes job.id ∨ Finishes job.id (p'.actions.drop p.actions.length)) ↔
      answers.getNow ≠ none ∨ p.Executes job.id := by
  rw [CronPartition.onJob, hlocal, hclaimed] at h
  simp only [Bool.false_eq_true, if_false, Bool.not_true] at h
  cases hnow : answers.getNow with
  | none =>
      rw [hnow] at h
      obtain rfl := Option.some.inj h
      have hnothing : ¬ Finishes job.id [.claim job.id p.queue.isEnabled] := by
        rintro ⟨k, job', hfinish, -⟩
        cases List.mem_singleton.mp hfinish
      have hexecutes :
          ((p.record [.claim job.id p.queue.isEnabled]).disableIfFull env).Executes job.id ↔
          p.Executes job.id := by
        unfold CronPartition.Executes
        rw [CronPartition.disableIfFull_running]
        exact Iff.rfl
      rw [hexecutes, CronPartition.disableIfFull_actions]
      simp [CronPartition.record, hnothing]
  | some startTime =>
      rw [hnow] at h
      obtain ⟨p₁, hstart, rfl⟩ := Option.map_eq_some_iff.mp h
      obtain ⟨new, hactions, hexecutes⟩ := CronPartition.start_executes hstart
      refine iff_of_true ?_ (.inl (Option.some_ne_none _))
      refine hexecutes.imp ?_ ?_
      · rintro ⟨r, hr, hid⟩
        exact ⟨r, by rwa [CronPartition.disableIfFull_running], hid⟩
      · rintro ⟨k, job', hfinish, hid⟩
        refine ⟨k, job', ?_, hid⟩
        rw [CronPartition.disableIfFull_actions, hactions]
        simp [CronPartition.record, hfinish]

theorem claimed_executes_failed :
    (CronPartition.onJob twoOperators 0 {} (commandJob 1)
        (starts [.failed "connection refused"])).isSome = true ∧
      ∀ p', CronPartition.onJob twoOperators 0 {} (commandJob 1)
          (starts [.failed "connection refused"]) = some p' →
        p'.Executes 1 ∨ Finishes 1 (p'.actions.drop 0) :=
  ⟨by decide +kernel,
    fun p' h => (claimed_executes_iff twoOperators 0 {} p' (commandJob 1) _ rfl rfl h).mpr
      (.inl (Option.some_ne_none _))⟩

end Orphans

/-! ## The loop -/

/-- The ids of the rows that `check_pending` can return at a time. -/
def pendingIds (t : CronTable) (now : ℤ) : Finset ℕ :=
  ((t.rows.filter (isPending now)).map CronRow.id).toFinset

/-- What other nodes and clients do to the table between two statements: they neither add rows nor
make rows due. -/
structure Others where
  change : CronTable → CronTable
  quiet : ∀ t now, pendingIds (change t) now ⊆ pendingIds t now

/-- Nobody does anything. -/
def Others.idle : Others := ⟨id, fun _ _ => subset_rfl⟩

/-- The queue of a partition in `RunClaim`, with the table and its column `sticky_id` (which is
`NULL` if there is no such column), and the table `sticky_non_local` of the connection. -/
structure ClaimState where
  table : CronTable
  stickyId : ℕ → Option String
  stickyNonLocal : Finset String := ∅
  partition : CronPartition

/-- What a turn of the loop meets: what others do before each statement, the time of each statement,
and whether it fails; the connection is ready in any case.  `claimFails` is about `claim_job`, or
about `insert_sticky_non_local` for a job that is sticky elsewhere. -/
structure ClaimAnswers where
  beforeFind : Others := .idle
  findNow : ℤ
  findFails : Bool := false
  beforeCheck : Others := .idle
  checkNow : ℤ
  checkFails : Bool := false
  beforeClaim : Others := .idle
  claimNow : ℤ
  claimFails : Bool := false
  getNow : Option String
  awaited : List Awaited := []
  finishNow : ℤ
  finishFails : Bool := false

/-- The loop has ended, or it goes on. -/
inductive LoopResult
  | ended (s : ClaimState)
  | goesOn (s : ClaimState)

namespace ClaimState

variable (env : PartitionEnv) (isLocal : String → Bool) (now : ℤ) (s : ClaimState)

/-- Others change the table. -/
def disturb (others : Others) : ClaimState := { s with table := others.change s.table }

/-- The `NOT EXISTS` of the queries fails for the row. -/
def isHidden (r : CronRow) : Bool := (s.stickyId r.id).any fun id => id ∈ s.stickyNonLocal

/-- The rows the queries look at. -/
def visible : CronTable := s.table.delete s.isHidden

/-- The ids of the rows that `check_pending` can return at a time. -/
def pending (now : ℤ) : Finset ℕ := pendingIds s.visible now

/-- `job.sticky_id`. -/
def jobStickyId (r : CronRow) : String := (s.stickyId r.id).getD ""

/-- The job is sticky on another node. -/
def isElsewhere (r : CronRow) : Bool := s.jobStickyId r ≠ "" && !isLocal (s.jobStickyId r)

/-- The number of rows `claim_job` affects. -/
def claims (r : CronRow) (a : ClaimAnswers) : Bool :=
  0 < s.table.affected (claimJob r.id env.name leaseTimeout a.claimNow)

/-- `InsertStickyNonLocal`. -/
def insertStickyNonLocal (r : CronRow) (a : ClaimAnswers) : ClaimState :=
  if a.claimFails then s
  else { s with stickyNonLocal := insert (s.jobStickyId r) s.stickyNonLocal }

/-- The table after `Claim`. -/
def claimTable (r : CronRow) (a : ClaimAnswers) : CronTable :=
  if a.claimFails then s.table else s.table.exec (claimJob r.id env.name leaseTimeout a.claimNow)

/-- The actions have a `Finish`. -/
def finishes (actions : List Action) : Bool :=
  actions.any fun
    | .finish .. => true
    | _ => false

/-- The table after `OnJob`, for which `p` is the partition: the job may be over already. -/
def finishTable (p : CronPartition) (r : CronRow) (a : ClaimAnswers) : CronTable :=
  if finishes (p.actions.drop s.partition.actions.length) && !a.finishFails then
    (s.claimTable env r a).exec (finishJob r.id env.name a.finishNow)
  else s.claimTable env r a

/-- `OnJob`, for a row of `check_pending`, with its statements.  `now` is the time of the event
loop. -/
def onJob (r : CronRow) (a : ClaimAnswers) : Option ClaimState :=
  let s := s.disturb a.beforeClaim
  let elsewhere := s.isElsewhere isLocal r
  let claimed := !a.claimFails && s.claims env r a
  (s.partition.onJob env now (.ofRow r)
    { nonLocal := elsewhere, claimed, getNow := a.getNow, awaited := a.awaited }).map fun p =>
      if elsewhere then { s.insertStickyNonLocal r a with partition := p }
      else { s with table := s.finishTable env p r a, partition := p }

/-- `CheckPending`; `none` if it throws. -/
def checkPending (a : ClaimAnswers) : Option (Option Bool × ClaimState) :=
  if !s.partition.queue.isEnabled then some (some false, s)
  else
    let s := s.disturb a.beforeCheck
    if a.checkFails then some (none, s)
    else
      match Cron.checkPending s.visible a.checkNow with
      | none => some (some false, s)
      | some r => (s.onJob env isLocal now r a).map fun s => (some s.partition.queue.isEnabled, s)

/-- `ScheduleClaim`, and `RunClaim` returns. -/
def schedules : LoopResult := .ended { s with partition := s.partition.scheduleClaim }

/-- The loop of `RunClaim`. -/
def runClaim (s : ClaimState) : List ClaimAnswers → Option LoopResult
  | [] => some (.goesOn s)
  | a :: rest =>
    let s := s.disturb a.beforeFind
    if a.findFails then some (.ended s)
    else
      match findEarliestPending s.visible a.findNow with
      | none => some (.ended s)
      | some delta =>
        if 0 < delta then some s.schedules
        else
          match s.checkPending env isLocal now a with
          | none => none
          | some (none, s) => some (.ended s)
          | some (some false, s) => some s.schedules
          | some (some true, s) => runClaim s rest

end ClaimState

/-! ## What a turn does to the pending jobs -/

section Pending

variable {t : CronTable} {now : ℤ} {id : ℕ}

lemma mem_pendingIds :
    id ∈ pendingIds t now ↔ ∃ r ∈ t.rows, isPending now r = true ∧ r.id = id := by
  simp [pendingIds, and_assoc]

lemma isPending_mono {later : ℤ} {r : CronRow} (hlater : now ≤ later) (h : isPending now r = true) :
    isPending later r = true := by
  obtain ⟨henabled, hnode, next, hnext, hle⟩ := isPending_iff.mp h
  exact isPending_iff.mpr ⟨henabled, hnode, next, hnext, hle.trans hlater⟩

/-- An `UPDATE` whose rows are not pending afterwards makes none pending. -/
lemma pendingIds_exec (t : CronTable) {u : CronUpdate}
    (hu : ∀ r, u.cond r = true → isPending now (u.set r) = false) :
    pendingIds (t.exec u) now ⊆ pendingIds t now := by
  intro id hid
  obtain ⟨r', hr', hpending, rfl⟩ := mem_pendingIds.mp hid
  obtain ⟨r, hr, rfl⟩ := Table.mem_exec.mp hr'
  by_cases hcond : u.cond r = true
  · rw [Update.apply_of_cond hcond, hu r hcond] at hpending
    cases hpending
  · rw [Update.apply_of_not_cond (Bool.eq_false_iff.mpr hcond)] at hpending ⊢
    exact mem_pendingIds.mpr ⟨r, hr, hpending, rfl⟩

lemma not_isPending_claimJob {node : String} {timeout time : ℤ} (r : CronRow) :
    isPending now ((claimJob id node timeout time).set r) = false := by
  rw [Bool.eq_false_iff]
  intro h
  exact absurd (isPending_iff.mp h).2.1 (Option.some_ne_none node)

lemma not_isPending_finishJob {node : String} {time : ℤ} (r : CronRow) :
    isPending now ((finishJob id node time).set r) = false := by
  rw [Bool.eq_false_iff]
  intro h
  obtain ⟨-, -, next, hnext, -⟩ := isPending_iff.mp h
  cases hnext

/-- **After `claim_job` the job is not pending**, whether it was claimed or not. -/
lemma not_mem_pendingIds_claimJob (t : CronTable) (id : ℕ) (node : String) (timeout time : ℤ) :
    id ∉ pendingIds (t.exec (claimJob id node timeout time)) now := by
  intro hid
  obtain ⟨r', hr', hpending, hkey⟩ := mem_pendingIds.mp hid
  obtain ⟨r, hr, rfl⟩ := Table.mem_exec.mp hr'
  have hid : r.id = id := ((claimJob id node timeout time).key_apply r).symm.trans hkey
  by_cases hcond : (claimJob id node timeout time).cond r = true
  · rw [Update.apply_of_cond hcond, not_isPending_claimJob] at hpending
    cases hpending
  · rw [Update.apply_of_not_cond (Bool.eq_false_iff.mpr hcond)] at hpending
    obtain ⟨henabled, hnode, -⟩ := isPending_iff.mp hpending
    exact hcond (claimJob_cond.mpr ⟨hid, henabled, hnode⟩)

end Pending

namespace ClaimState

variable {env : PartitionEnv} {isLocal : String → Bool} {now : ℤ} {s s' : ClaimState}
  {a : ClaimAnswers} {r : CronRow}

lemma mem_pending {id : ℕ} {time : ℤ} : id ∈ s.pending time ↔
    id ∈ pendingIds s.table time ∧ ((s.stickyId id).any fun x => x ∈ s.stickyNonLocal) = false := by
  rw [pending, mem_pendingIds, mem_pendingIds]
  constructor
  · rintro ⟨r, hr, hpending, rfl⟩
    obtain ⟨hr, hvisible⟩ := Table.mem_delete.mp hr
    exact ⟨⟨r, hr, hpending, rfl⟩, hvisible⟩
  · rintro ⟨⟨r, hr, hpending, rfl⟩, hvisible⟩
    exact ⟨r, Table.mem_delete.mpr ⟨hr, hvisible⟩, hpending, rfl⟩

lemma pending_subset {time : ℤ} (htable : pendingIds s'.table time ⊆ pendingIds s.table time)
    (hsticky : s'.stickyId = s.stickyId) (hnonLocal : s.stickyNonLocal ⊆ s'.stickyNonLocal) :
    s'.pending time ⊆ s.pending time := by
  intro id hid
  obtain ⟨htable', hvisible⟩ := mem_pending.mp hid
  refine mem_pending.mpr ⟨htable htable', ?_⟩
  rw [hsticky] at hvisible
  cases hstickyId : s.stickyId id with
  | none => rfl
  | some x =>
      rw [hstickyId, Option.any_some, decide_eq_false_iff_not] at hvisible
      rw [Option.any_some, decide_eq_false_iff_not]
      exact fun hx => hvisible (hnonLocal hx)

lemma pending_disturb (s : ClaimState) (others : Others) (time : ℤ) :
    (s.disturb others).pending time ⊆ s.pending time :=
  pending_subset (others.quiet s.table time) rfl subset_rfl

/-- What others do before `claim_job`. -/
def disturbed (s : ClaimState) (a : ClaimAnswers) : ClaimState :=
  (s.disturb a.beforeCheck).disturb a.beforeClaim

/-- The job is sticky elsewhere: it is hidden, unless the `INSERT` fails. -/
lemma pending_insertStickyNonLocal (helsewhere : s.isElsewhere isLocal r = true) (time : ℤ) :
    (s.insertStickyNonLocal r a).pending time ⊆ s.pending time ∧
      (a.claimFails = false → r.id ∉ (s.insertStickyNonLocal r a).pending time) := by
  unfold insertStickyNonLocal
  cases hfails : a.claimFails with
  | true => exact ⟨subset_rfl, fun h => absurd h (by decide)⟩
  | false =>
      refine ⟨pending_subset subset_rfl rfl (Finset.subset_insert _ _), fun _ hid => ?_⟩
      have hvisible := (mem_pending.mp hid).2
      have hne : s.jobStickyId r ≠ "" := by
        simpa using (Bool.and_eq_true_iff.mp helsewhere).1
      cases hstickyId : s.stickyId r.id with
      | none => exact hne (by rw [jobStickyId, hstickyId]; rfl)
      | some x =>
          simp only [Bool.false_eq_true, if_false, hstickyId, jobStickyId, Option.getD_some,
            Option.any_some, Finset.mem_insert, true_or, decide_true] at hvisible
          cases hvisible

/-- `Claim` and `Finish` make no job pending, and the job itself is not pending then. -/
lemma pendingIds_finishTable (env : PartitionEnv) (s : ClaimState) (p : CronPartition)
    (r : CronRow) (time : ℤ)
    (hfails : a.claimFails = false) :
    pendingIds (s.finishTable env p r a) time ⊆ pendingIds s.table time ∧
      r.id ∉ pendingIds (s.finishTable env p r a) time := by
  have hclaim : pendingIds (s.claimTable env r a) time ⊆ pendingIds s.table time ∧
      r.id ∉ pendingIds (s.claimTable env r a) time := by
    rw [claimTable, hfails, if_neg Bool.false_ne_true]
    exact ⟨pendingIds_exec _ fun r _ => not_isPending_claimJob r,
      not_mem_pendingIds_claimJob _ _ _ _ _⟩
  have hfinish : pendingIds (s.finishTable env p r a) time ⊆
      pendingIds (s.claimTable env r a) time := by
    unfold finishTable
    split
    · exact pendingIds_exec _ fun r _ => not_isPending_finishJob r
    · exact subset_rfl
  exact ⟨hfinish.trans hclaim.1, fun hid => hclaim.2 (hfinish hid)⟩

lemma onJob_of_claimFails (hfails : a.claimFails = true)
    (hlocal : (s.disturb a.beforeClaim).isElsewhere isLocal r = false) :
    s.onJob env isLocal now r a = some
      { s.disturb a.beforeClaim with
        partition := s.partition.record [.claim r.id s.partition.queue.isEnabled] } := by
  have hjob : (s.disturb a.beforeClaim).partition.onJob env now (.ofRow r)
      { nonLocal := false, claimed := false, getNow := a.getNow, awaited := a.awaited } =
      some (s.partition.record [.claim r.id s.partition.queue.isEnabled]) := rfl
  have htable : (s.disturb a.beforeClaim).finishTable env
      (s.partition.record [.claim r.id s.partition.queue.isEnabled]) r a =
      (s.disturb a.beforeClaim).table := by
    simp [finishTable, claimTable, hfails, CronPartition.record, finishes, disturb]
  simp only [onJob, hlocal, hfails, Bool.not_true, Bool.false_and, hjob, Option.map_some, htable,
    Bool.false_eq_true, if_false]

lemma onJob_partition (h : s.onJob env isLocal now r a = some s') :
    ∃ answers, s.partition.onJob env now (.ofRow r) answers = some s'.partition := by
  obtain ⟨p, hp, rfl⟩ := Option.map_eq_some_iff.mp h
  refine ⟨_, hp.trans (congrArg some ?_)⟩
  split <;> rfl

/-- **What `OnJob` does to the pending jobs**: it makes none pending, and the job is not pending any
more unless its statement fails. -/
lemma onJob_pending (h : s.onJob env isLocal now r a = some s') (time : ℤ) :
    s'.pending time ⊆ (s.disturb a.beforeClaim).pending time ∧
      (a.claimFails = false → r.id ∉ s'.pending time) ∧
      (a.claimFails = true → s'.pending time = (s.disturb a.beforeClaim).pending time) := by
  cases helsewhere : (s.disturb a.beforeClaim).isElsewhere isLocal r with
  | true =>
      obtain ⟨p, -, rfl⟩ := Option.map_eq_some_iff.mp h
      obtain ⟨hsubset, hnot⟩ := pending_insertStickyNonLocal (a := a) helsewhere time
      rw [if_pos helsewhere]
      refine ⟨hsubset, hnot, fun hfails => ?_⟩
      rw [insertStickyNonLocal, if_pos hfails]
      rfl
  | false =>
      cases hfails : a.claimFails with
      | true =>
          rw [onJob_of_claimFails hfails helsewhere] at h
          obtain rfl := Option.some.inj h
          exact ⟨subset_rfl, fun h => absurd h (by decide), fun _ => rfl⟩
      | false =>
          obtain ⟨p, -, rfl⟩ := Option.map_eq_some_iff.mp h
          obtain ⟨hsubset, hnot⟩ :=
            pendingIds_finishTable env (s.disturb a.beforeClaim) p r time hfails
          rw [if_neg (Bool.eq_false_iff.mp helsewhere)]
          refine ⟨pending_subset hsubset rfl subset_rfl, fun _ hid => ?_,
            fun h => absurd h (by decide)⟩
          exact hnot (mem_pending.mp hid).1

/-- **The outcomes of `CheckPending`**: the queue is disabled, there is an exception or no job, or
`OnJob` was called. -/
lemma checkPending_cases {returned : Option Bool}
    (h : s.checkPending env isLocal now a = some (returned, s')) :
    (s.partition.queue.isEnabled = false ∧ returned = some false ∧ s' = s) ∨
      (s.partition.queue.isEnabled = true ∧
        ((returned ≠ some true ∧ s' = s.disturb a.beforeCheck) ∨
          ∃ r, Cron.checkPending (s.disturb a.beforeCheck).visible a.checkNow = some r ∧
            (s.disturb a.beforeCheck).onJob env isLocal now r a = some s' ∧
            returned = some s'.partition.queue.isEnabled)) := by
  unfold checkPending at h
  cases henabled : s.partition.queue.isEnabled with
  | false =>
      rw [henabled] at h
      obtain ⟨rfl, rfl⟩ := Prod.mk.inj (Option.some.inj h)
      exact .inl ⟨rfl, rfl, rfl⟩
  | true =>
      rw [henabled] at h
      refine .inr ⟨rfl, ?_⟩
      dsimp only at h
      split at h
      · cases ‹(!true) = true›
      · split at h
        · obtain ⟨rfl, rfl⟩ := Prod.mk.inj (Option.some.inj h)
          exact .inl ⟨by simp, rfl⟩
        · split at h
          · obtain ⟨rfl, rfl⟩ := Prod.mk.inj (Option.some.inj h)
            exact .inl ⟨by simp, rfl⟩
          · rename_i r hr
            obtain ⟨s₁, hjob, heq⟩ := Option.map_eq_some_iff.mp h
            obtain ⟨rfl, rfl⟩ := Prod.mk.inj heq
            exact .inr ⟨r, hr, hjob, rfl⟩

/-- **A call of `CheckPending` that returns true**, at any time from then on: it makes no job
pending, and there are fewer unless the statement fails. -/
lemma checkPending_pending (h : s.checkPending env isLocal now a = some (some true, s')) {time : ℤ}
    (htime : a.checkNow ≤ time) :
    s'.pending time ⊆ s.pending time ∧
      (s'.pending time ⊂ s.pending time ↔
        a.claimFails = false ∨ (s.disturbed a).pending time ⊂ s.pending time) := by
  obtain ⟨-, hfalse, -⟩ | ⟨-, ⟨hfalse, -⟩ | ⟨r, hr, hjob, -⟩⟩ := checkPending_cases h
  · cases hfalse
  · exact absurd rfl hfalse
  · obtain ⟨hsubset, hnot, hsame⟩ := onJob_pending hjob time
    have hdisturbed : (s.disturbed a).pending time ⊆ s.pending time :=
      (pending_disturb _ _ _).trans (pending_disturb _ _ _)
    have hchecked : r.id ∈ s.pending time := by
      obtain ⟨hmem, hpending⟩ := checkPending_spec hr
      exact pending_disturb _ _ _ (mem_pendingIds.mpr ⟨r, hmem, isPending_mono htime hpending, rfl⟩)
    refine ⟨hsubset.trans hdisturbed, ?_⟩
    cases hfails : a.claimFails with
    | true =>
        rw [hsame hfails]
        simp [disturbed]
    | false =>
        refine iff_of_true ?_ (.inl rfl)
        refine (Finset.ssubset_iff_of_subset (hsubset.trans hdisturbed)).mpr ?_
        exact ⟨r.id, hchecked, hnot hfails⟩

/-- The loop ends after as many turns as there are pending jobs, at the latest. -/
lemma runClaim_ended {answers : List ClaimAnswers} {time : ℤ} {result : LoopResult}
    (hfails : ∀ a ∈ answers, a.claimFails = false) (htime : ∀ a ∈ answers, a.checkNow ≤ time)
    (hcard : (s.pending time).card < answers.length)
    (h : s.runClaim env isLocal now answers = some result) : ∃ s', result = .ended s' := by
  induction answers generalizing s with
  | nil => cases hcard
  | cons a rest ih =>
      obtain ⟨hfail, hfails⟩ := List.forall_mem_cons.mp hfails
      obtain ⟨hnow, htime⟩ := List.forall_mem_cons.mp htime
      rw [runClaim] at h
      split at h
      · exact ⟨_, (Option.some.inj h).symm⟩
      · split at h
        · exact ⟨_, (Option.some.inj h).symm⟩
        · split at h
          · exact ⟨_, (Option.some.inj h).symm⟩
          · split at h
            · cases h
            · exact ⟨_, (Option.some.inj h).symm⟩
            · exact ⟨_, (Option.some.inj h).symm⟩
            · rename_i s₁ hcheck
              have hshrinks := ((checkPending_pending hcheck hnow).2.mpr (.inl hfail))
              have hlt := Finset.card_lt_card hshrinks
              have hle := Finset.card_le_card (pending_disturb s a.beforeFind time)
              exact ih hfails htime (by rw [List.length_cons] at hcard; omega) h

lemma runClaim_cons {delta : ℤ} (answers : List ClaimAnswers) (hfails : a.findFails = false)
    (hfind : findEarliestPending (s.disturb a.beforeFind).visible a.findNow = some delta)
    (hdelta : ¬ 0 < delta)
    (hcheck : (s.disturb a.beforeFind).checkPending env isLocal now a = some (some true, s')) :
    s.runClaim env isLocal now (a :: answers) = s'.runClaim env isLocal now answers := by
  simp only [runClaim, hfails, Bool.false_eq_true, if_false, hfind, hdelta, hcheck]

/-- **What the loop does to the partition is what `CronPartition.runClaim` does.** -/
theorem runClaim_refines {answers : List ClaimAnswers}
    (h : s.runClaim env isLocal now answers = some (.ended s')) :
    ∃ rounds, s.partition.runClaim env now rounds = some s'.partition := by
  induction answers generalizing s with
  | nil => cases h
  | cons a rest ih =>
      rw [runClaim] at h
      split at h
      · obtain rfl := LoopResult.ended.inj (Option.some.inj h)
        exact ⟨[.throws], rfl⟩
      · split at h
        · obtain rfl := LoopResult.ended.inj (Option.some.inj h)
          exact ⟨[.nothing], rfl⟩
        · split at h
          · obtain rfl := LoopResult.ended.inj (Option.some.inj h)
            exact ⟨[.later], rfl⟩
          · split at h
            · cases h
            · rename_i s₁ hcheck
              obtain rfl := LoopResult.ended.inj (Option.some.inj h)
              obtain ⟨-, hfalse, -⟩ | ⟨-, ⟨-, rfl⟩ | ⟨r, -, -, hfalse⟩⟩ := checkPending_cases hcheck
              · cases hfalse
              · exact ⟨[.throws], rfl⟩
              · cases hfalse
            · rename_i s₁ hcheck
              obtain rfl := LoopResult.ended.inj (Option.some.inj h)
              obtain ⟨-, -, rfl⟩ | ⟨henabled, ⟨-, rfl⟩ | ⟨r, -, hjob, hdisabled⟩⟩ :=
                checkPending_cases hcheck
              · exact ⟨[.empty], rfl⟩
              · exact ⟨[.empty], rfl⟩
              · obtain ⟨answers, hp⟩ := onJob_partition hjob
                refine ⟨[.job (.ofRow r) answers], ?_⟩
                have henabled : s.partition.queue.isEnabled = true := henabled
                have hp : s.partition.onJob env now (.ofRow r) answers = some s₁.partition := hp
                simp [CronPartition.runClaim, henabled, hp, ← Option.some.inj hdisabled]
            · rename_i s₁ hcheck
              obtain ⟨rounds, hrounds⟩ := ih h
              obtain ⟨-, hfalse, -⟩ | ⟨henabled, ⟨hfalse, -⟩ | ⟨r, -, hjob, htrue⟩⟩ :=
                checkPending_cases hcheck
              · cases hfalse
              · exact absurd rfl hfalse
              · obtain ⟨answers, hp⟩ := onJob_partition hjob
                refine ⟨.job (.ofRow r) answers :: rounds, ?_⟩
                have henabled : s.partition.queue.isEnabled = true := henabled
                have hp : s.partition.onJob env now (.ofRow r) answers = some s₁.partition := hp
                simp [CronPartition.runClaim, henabled, hp, ← Option.some.inj htrue, hrounds]

lemma card_pending_le (s : ClaimState) (time : ℤ) :
    (s.pending time).card ≤ s.table.rows.length := by
  calc (s.pending time).card
      ≤ ((s.visible.rows.filter (isPending time)).map CronRow.id).length := List.toFinset_card_le _
    _ ≤ s.visible.rows.length := by
        rw [List.length_map]
        exact List.length_filter_le _ _
    _ ≤ s.table.rows.length := List.length_filter_le _ _

end ClaimState

/-- **The claim loop ends.**  Each call of `CheckPending` that returns true makes the set of pending
jobs smaller exactly if the statement of `OnJob` does not fail, or others have made the set smaller;
so if no such statement fails, there are at most as many turns as rows. -/
theorem claim_loop_ends (env : PartitionEnv) (isLocal : String → Bool) (now : ℤ) (s : ClaimState) :
    (∀ a s', s.checkPending env isLocal now a = some (some true, s') →
        ∀ time, a.checkNow ≤ time → s'.pending time ⊆ s.pending time ∧
          (s'.pending time ⊂ s.pending time ↔
            a.claimFails = false ∨ (s.disturbed a).pending time ⊂ s.pending time)) ∧
      ∀ answers, (∀ a ∈ answers, a.claimFails = false) → s.table.rows.length < answers.length →
        ∀ result, s.runClaim env isLocal now answers = some result → ∃ s', result = .ended s' := by
  refine ⟨fun a s' h time htime => ClaimState.checkPending_pending h htime, ?_⟩
  intro answers hfails hlength result h
  have htime : ∃ time, ∀ a ∈ answers, a.checkNow ≤ time := by
    obtain ⟨time, htime⟩ := (answers.map ClaimAnswers.checkNow).toFinset.exists_le
    exact ⟨time, fun a ha => htime _ (List.mem_toFinset.mpr (List.mem_map_of_mem ha))⟩
  obtain ⟨time, htime⟩ := htime
  exact ClaimState.runClaim_ended hfails htime ((s.card_pending_le time).trans_lt hlength) h

/-- A partition that is enabled, and a table with one job that is due. -/
def dueJob : ClaimState where
  table := Table.single
    { id := 1, accountId := "account", schedule := "* * * * *", command := "true",
      nextRun := some (.finite 0) }
  stickyId _ := none
  partition := { queue := { ready := true, enabledState := true } }

/-- All statements are executed at time 1, and succeed. -/
def answered : ClaimAnswers where
  findNow := 1
  checkNow := 1
  claimNow := 1
  getNow := some "now"
  finishNow := 1

theorem claim_loop_ends_dueJob :
    (dueJob.runClaim twoOperators (fun _ => true) 0 [answered, answered]).isSome = true ∧
      ∀ result, dueJob.runClaim twoOperators (fun _ => true) 0 [answered, answered] = some result →
        ∃ s', result = .ended s' := by
  refine ⟨by decide +kernel, (claim_loop_ends twoOperators (fun _ => true) 0 dueJob).2
    [answered, answered] (fun a ha => ?_) (by decide)⟩
  rw [List.eq_of_mem_replicate (show a ∈ List.replicate 2 answered from ha)]
  rfl

/-- `claim_job` fails. -/
def claimError : ClaimAnswers := { answered with claimFails := true }

/-- A partition that has tried to claim the job. -/
def tried (n : ℕ) : ClaimState :=
  { dueJob with
    partition := { dueJob.partition with actions := List.replicate n (.claim 1 true) } }

lemma tried_checkPending (n : ℕ) :
    (tried n).checkPending twoOperators (fun _ => true) 0 claimError =
      some (some true, tried (n + 1)) := by
  have hjob : (tried n).onJob twoOperators (fun _ => true) 0 (dueJob.table.rows.head (by decide))
      claimError = some (tried (n + 1)) := by
    rw [ClaimState.onJob_of_claimFails rfl rfl]
    simp only [tried, List.replicate_succ']
    rfl
  exact congrArg (Option.map fun s => (some s.partition.queue.isEnabled, s)) hjob

/-- **The loop hangs if `claim_job` fails**: the job is still pending, and the loop goes on however
long the database fails. -/
theorem claim_loop_hangs :
    dueJob.checkPending twoOperators (fun _ => true) 0 claimError = some (some true, tried 1) ∧
      dueJob.pending 1 = {1} ∧ (tried 1).pending 1 = {1} ∧
      ∀ n, dueJob.runClaim twoOperators (fun _ => true) 0 (List.replicate n claimError) =
        some (.goesOn (tried n)) := by
  have hloop : ∀ n m,
      (tried m).runClaim twoOperators (fun _ => true) 0 (List.replicate n claimError) =
      some (.goesOn (tried (m + n))) := by
    intro n
    induction n with
    | zero => exact fun m => rfl
    | succ n ih =>
        intro m
        have hturn : (tried m).runClaim twoOperators (fun _ => true) 0
            (claimError :: List.replicate n claimError) =
            (tried (m + 1)).runClaim twoOperators (fun _ => true) 0 (List.replicate n claimError) :=
          ClaimState.runClaim_cons _ rfl
            (show findEarliestPending (tried m).visible 1 = some 0 from rfl)
            (by decide) (tried_checkPending m)
        rw [List.replicate_succ, hturn, ih, Nat.add_assoc, Nat.add_comm 1]
  refine ⟨tried_checkPending 0, by decide +kernel, by decide +kernel, fun n => ?_⟩
  have h := hloop n 0
  rw [Nat.zero_add] at h
  exact h

/-- **A claimed job is orphaned if `GetNow` throws**: the row is assigned to the node, there is
neither an object nor a `Finish` for it, and `expire_jobs` of the node never releases it. -/
theorem claimed_orphaned :
    ∃ s', dueJob.onJob twoOperators (fun _ => true) 0 (dueJob.table.rows.head (by decide))
        { answered with getNow := none } = some s' ∧
      s'.table.rows.map CronRow.nodeName = [some "a"] ∧
      ¬ (s'.partition.Executes 1 ∨ Finishes 1 s'.partition.actions) ∧
      ∀ (r : CronRow) (time : ℤ), r.nodeName = some "a" → (expireJobs "a" time).cond r = false := by
  refine ⟨_, rfl, by decide +kernel, ?_, fun r time hr => ?_⟩
  · rintro (⟨r, hr, -⟩ | ⟨k, job, hfinish, -⟩)
    · cases hr
    · cases List.mem_singleton.mp hfinish
  · rw [Bool.eq_false_iff]
    exact fun h => (expireJobs_cond.mp h).2.1 hr

end Workshop.Cron

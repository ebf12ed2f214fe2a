import Mathlib.Data.Finset.Lattice.Basic
import Workshop.Jobs.RunResult

/-!
# The two queries of a queue run

`Run2` asks for jobs twice: for those of the plans in `plans_include` that are not running, and then
for those of the plans in `plans_lowprio`, which are running.  Neither query returns rows of the
full plans in `plans_exclude`, nor rows whose sticky id is in `sticky_non_local` when it is
executed: `RunResult` inserts the sticky ids of other nodes, so that the second query does not see
them any more (`stickyAfter`).  `JobNode.run2` is the whole run on one table, with the rows going
through `RunResult`.  None of its statements fails, except that PostgreSQL may not accept the
interval of a claim.

The second query does not know `plans_include`.  A plan that is running although it has hit its rate
limit, or is gone from the library, is in `plans_lowprio`, and its rows are offered.  So a run that
is not cut short offers what the filter asks for exactly if there are no such rows
(`run2_offersExactly_iff`).
-/

namespace Workshop.Jobs

open Workshop.Lib

/-! ## The run -/

namespace JobNode

variable (cl : JobCluster) (name : String) (now : ℤ) (node : JobNode)

/-- `CheckRateLimit` of the partition: the first limit that is hit, in seconds. -/
def hitLimit (table : JobTable) (planName : String) (limits : List RateLimit) : Option ℤ :=
  (limits.map fun limit => checkRateLimit table now planName limit.duration limit.maxCount).find?
    fun delta => 0 < delta

/-- `CheckWorkshopJob`. -/
def checkWorkshopJob (table : JobTable) (job : WorkshopJob) (plan : Plan) : JobNode × Bool :=
  match node.declines cl name now job with
  | some node' => (node', false)
  | none =>
    match hitLimit now table job.planName plan.rateLimits with
    | some delta => (node.setRateLimited cl name now job.planName delta, false)
    | none => (node, true)

/-- `StartWorkshopJob` of a job whose operator fails at once. -/
def startFailing (job : WorkshopJob) (plan : Plan) : JobNode :=
  let node := { node with operators := node.operators ++ [WorkshopOperator.create now job plan] }
  let node := node.onExit cl name now (node.operators.length - 1)
  let node := if node.isFull cl name then { node with disabledFull := true } else node
  node.updateFilter cl name now

/-- A node on a table as the handler of its queue; `fails` tells which jobs fail to start at once,
and with which message. -/
def runHandler (fails : WorkshopJob → Option String) :
    RunHandler (JobTable × JobNode) WorkshopJob where
  isEnabled s := s.2.isEnabled
  interrupt s := s.2.interrupt
  getWorkshopPlan s job := (s, cl.getPlan name now job.planName)
  checkWorkshopJob s job plan :=
    let checked := s.2.checkWorkshopJob cl name now s.1 job plan
    ((s.1, checked.1), checked.2)
  claimJob s job timeout :=
    match cl.interval timeout with
    | none => (s, .error ("invalid input syntax for type interval: " ++ timeout.quote))
    | some timeout =>
      let update := claimJob name job.id timeout now
      ((s.1.exec update, s.2), .ok (s.1.affected update ≠ 0))
  startWorkshopJob s job plan :=
    match fails job with
    | none => (s.1, s.2.startWorkshopJob cl name now job plan)
    | some message =>
      (s.1.exec (setJobDone job.id (-errnoInputOutput) (some message) now),
        s.2.startFailing cl name now job plan)

/-- The plans of the library that have not hit their rate limit. -/
def availablePlans : Finset String :=
  let limited := node.rateLimitedPlans.filter fun p => now < p.2
  (cl.visitAvailable name now).filter fun p => p ∉ limited.map Prod.fst

/-- The table after `expire_jobs`, if that is due. -/
def expireTable (table : JobTable) : JobTable :=
  if node.expireDue now then table.exec (expireJobs name now) else table

/-- `Run2` has begun. -/
def beginRun : JobNode :=
  { node with
    interrupt := false
    nextExpireCheck := if node.expireDue now then some (now + minute) else node.nextExpireCheck
    handler := .select {} }

/-- The second query of `Run2`; it is skipped if the queue was disabled or interrupted. -/
def secondQuery (fails : WorkshopJob → Option String) (limit : ℕ) (s : JobTable × JobNode) :
    RunOutcome (JobTable × JobNode) JobRow WorkshopJob :=
  if s.2.isEnabled && !s.2.interrupt && s.2.plansLowprio ≠ ∅ then
    (runHandler cl name now fails).runResult makeJob (s.2.selectJobs s.1 now limit true) s
  else { state := s, stopped := s.2.plansLowprio ≠ ∅ }

/-- `Run2`, up to the timer at its end. -/
def run2 (fails : WorkshopJob → Option String) (limit : ℕ) (table : JobTable) :
    RunOutcome (JobTable × JobNode) JobRow WorkshopJob :=
  if node.canRun then
    let table := node.expireTable name now table
    let node := node.beginRun now
    ((runHandler cl name now fails).runResult makeJob (node.selectJobs table now limit false)
      (table, node)).andThen (secondQuery cl name now fails limit)
  else { state := (table, node) }

end JobNode

/-! ## The filter during a run -/

section Filter

variable {cl : JobCluster} {name : String} {now : ℤ} {node : JobNode}

@[simp] lemma JobNode.setFilter_lowprio (plansInclude plansExclude plansLowprio : Finset String) :
    (node.setFilter plansInclude plansExclude plansLowprio).plansLowprio = plansLowprio := by
  obtain ⟨_, _, heq⟩ := node.setFilter_eq plansInclude plansExclude plansLowprio
  rw [heq]

@[simp] lemma JobNode.updateFilter_lowprio (node : JobNode) (cl : JobCluster) (name : String)
    (now : ℤ) : (node.updateFilter cl name now).plansLowprio = node.runningPlanNames := by
  simp only [JobNode.updateFilter, JobNode.setFilter_lowprio]

/-- The filter that `SetFilter` leaves, and the switches of the queue, which it does not touch. -/
lemma JobNode.setFilter_filter (plansInclude plansExclude plansLowprio : Finset String) :
    let node' := node.setFilter plansInclude plansExclude plansLowprio
    node'.plansInclude = some plansInclude ∧ node'.plansExclude = some plansExclude ∧
      node'.isEnabled = node.isEnabled ∧ node'.stickyNonLocal = node.stickyNonLocal := by
  obtain ⟨_, _, heq⟩ := node.setFilter_eq plansInclude plansExclude plansLowprio
  rw [heq]
  exact ⟨rfl, rfl, rfl, rfl⟩

/-- **The filter of `UpdateFilter`.** -/
lemma JobNode.updateFilter_filter (node : JobNode) (cl : JobCluster) (name : String) (now : ℤ) :
    let node' := node.updateFilter cl name now
    node'.plansInclude = some (node.availablePlans cl name now) ∧
      node'.plansExclude = some node.fullPlanNames ∧ node'.isEnabled = node.isEnabled ∧
      node'.stickyNonLocal = node.stickyNonLocal :=
  JobNode.setFilter_filter _ _ _

/-- The queue is still in its run, and unless it is interrupted, it has the filter it had before. -/
structure KeepsFilter (node node' : JobNode) : Prop where
  handler : node'.handler = node.handler
  stickyNonLocal : node'.stickyNonLocal = node.stickyNonLocal
  interrupt : node'.interrupt = false → node.interrupt = false
  plansInclude : node'.interrupt = false → node'.plansInclude = node.plansInclude
  plansExclude : node'.interrupt = false → node'.plansExclude = node.plansExclude

namespace KeepsFilter

variable {node' : JobNode}

lemma of_eq (hhandler : node'.handler = node.handler)
    (hsticky : node'.stickyNonLocal = node.stickyNonLocal)
    (hinterrupt : node'.interrupt = node.interrupt)
    (hinclude : node'.plansInclude = node.plansInclude)
    (hexclude : node'.plansExclude = node.plansExclude) : KeepsFilter node node' :=
  ⟨hhandler, hsticky, fun h => hinterrupt.symm.trans h, fun _ => hinclude, fun _ => hexclude⟩

lemma trans {node'' : JobNode} (h : KeepsFilter node node') (h' : KeepsFilter node' node'') :
    KeepsFilter node node'' where
  handler := h'.handler.trans h.handler
  stickyNonLocal := h'.stickyNonLocal.trans h.stickyNonLocal
  interrupt hi := h.interrupt (h'.interrupt hi)
  plansInclude hi := (h'.plansInclude hi).trans (h.plansInclude (h'.interrupt hi))
  plansExclude hi := (h'.plansExclude hi).trans (h.plansExclude (h'.interrupt hi))

lemma setFilter (hrunning : node.handler.running = true)
    (plansInclude plansExclude plansLowprio : Finset String) :
    KeepsFilter node (node.setFilter plansInclude plansExclude plansLowprio) := by
  simp only [JobNode.setFilter, hrunning, if_true]
  split
  · exact ⟨rfl, rfl, fun h => absurd h (by simp), fun h => absurd h (by simp),
      fun h => absurd h (by simp)⟩
  · rename_i hsame
    obtain ⟨hinclude, hexclude⟩ := not_or.mp hsame
    rw [not_ne_iff] at hinclude hexclude
    exact of_eq rfl rfl rfl hinclude.symm hexclude.symm

variable (cl name now)

lemma updateFilter (h : KeepsFilter node node') (hrunning : node.handler.running = true) :
    KeepsFilter node (node'.updateFilter cl name now) := by
  have hrunning' : node'.handler.running = true := by rw [h.handler]; exact hrunning
  have hlimited : KeepsFilter node'
      { node' with rateLimitedPlans := node'.rateLimitedPlans.filter fun p => now < p.2 } :=
    of_eq rfl rfl rfl rfl rfl
  exact (h.trans hlimited).trans (setFilter (by exact hrunning') _ _ _)

lemma disableIfFull (h : KeepsFilter node node') :
    KeepsFilter node
      (if node'.isFull cl name then { node' with disabledFull := true } else node') := by
  split
  · exact h.trans (of_eq rfl rfl rfl rfl rfl)
  · exact h

lemma enableFull (h : KeepsFilter node node') : KeepsFilter node node'.enableFull := by
  refine h.trans ?_
  unfold JobNode.enableFull JobNode.checkEnabled JobNode.reschedule
  split
  · split
    · exact of_eq rfl rfl rfl rfl rfl
    · exact of_eq rfl rfl rfl rfl rfl
  · exact of_eq rfl rfl rfl rfl rfl

lemma setRateLimited (hrunning : node.handler.running = true) (planName : String) (delta : ℤ) :
    KeepsFilter node (node.setRateLimited cl name now planName delta) := by
  have hlimited : KeepsFilter node
      { node with
        rateLimitedPlans := (planName, now + delta * second) ::
          node.rateLimitedPlans.filter fun p => p.1 ≠ planName } :=
    of_eq rfl rfl rfl rfl rfl
  exact hlimited.updateFilter cl name now hrunning

lemma onExit (h : KeepsFilter node node') (hrunning : node.handler.running = true) (i : ℕ) :
    KeepsFilter node (node'.onExit cl name now i) := by
  have herased : KeepsFilter node' { node' with operators := node'.operators.eraseIdx i } :=
    of_eq rfl rfl rfl rfl rfl
  have hupdate := (h.trans herased).updateFilter cl name now hrunning
  simp only [JobNode.onExit]
  split
  · exact hupdate
  · exact hupdate.enableFull

lemma startWorkshopJob (hrunning : node.handler.running = true) (job : WorkshopJob) (plan : Plan) :
    KeepsFilter node (node.startWorkshopJob cl name now job plan) := by
  have hpushed : KeepsFilter node
      { node with operators := node.operators ++ [WorkshopOperator.create now job plan] } :=
    of_eq rfl rfl rfl rfl rfl
  exact (hpushed.disableIfFull cl name).updateFilter cl name now hrunning

lemma startFailing (hrunning : node.handler.running = true) (job : WorkshopJob) (plan : Plan) :
    KeepsFilter node (node.startFailing cl name now job plan) := by
  have hpushed : KeepsFilter node
      { node with operators := node.operators ++ [WorkshopOperator.create now job plan] } :=
    of_eq rfl rfl rfl rfl rfl
  exact ((hpushed.onExit cl name now hrunning _).disableIfFull cl name).updateFilter cl name now
    hrunning

end KeepsFilter

/-- A rate limit that is hit interrupts the run, if it is about a plan of the filter. -/
lemma setRateLimited_interrupt {plansInclude : Finset String} {planName : String} {delta : ℤ}
    (hrunning : node.handler.running = true) (hinclude : node.plansInclude = some plansInclude)
    (hplan : planName ∈ plansInclude) (hdelta : 0 < delta) :
    (node.setRateLimited cl name now planName delta).interrupt = true := by
  have hlimited : now < now + delta * second := by
    have hpos : 0 < delta * second := Int.mul_pos hdelta (by decide)
    omega
  simp only [JobNode.setRateLimited, JobNode.updateFilter, JobNode.setFilter, hrunning, if_true]
  rw [if_pos]
  refine .inl fun heq => ?_
  -- the plan is in the old filter, and not in the new one
  rw [hinclude, Option.some.injEq] at heq
  rw [heq] at hplan
  simp [hlimited] at hplan

/-! ## The running plans during a run -/

lemma runningPlanNames_of_operators {node' : JobNode} (h : node'.operators = node.operators) :
    node'.runningPlanNames = node.runningPlanNames := by
  rw [JobNode.runningPlanNames, JobNode.runningPlanNames, h]

lemma mem_runningPlanNames_startWorkshopJob {job : WorkshopJob} {plan : Plan} {p : String} :
    p ∈ (node.startWorkshopJob cl name now job plan).runningPlanNames ↔
      p ∈ node.runningPlanNames ∨ p = job.planName := by
  simp only [JobNode.runningPlanNames, JobNode.startWorkshopJob_operators, List.map_append,
    List.map_singleton, WorkshopOperator.create_job, List.mem_toFinset, List.mem_append,
    List.mem_singleton]

lemma startFailing_operators (job : WorkshopJob) (plan : Plan) :
    (node.startFailing cl name now job plan).operators = node.operators := by
  have herased : (node.operators ++ [WorkshopOperator.create now job plan]).eraseIdx
      ((node.operators ++ [WorkshopOperator.create now job plan]).length - 1) = node.operators := by
    simp [List.eraseIdx_append_of_length_le]
  simp only [JobNode.startFailing, JobNode.updateFilter_operators]
  split
  · exact (JobNode.onExit_operators ..).trans herased
  · exact (JobNode.onExit_operators ..).trans herased

lemma startWorkshopJob_lowprio (job : WorkshopJob) (plan : Plan) :
    (node.startWorkshopJob cl name now job plan).plansLowprio =
      (node.startWorkshopJob cl name now job plan).runningPlanNames := by
  rw [JobNode.startWorkshopJob, JobNode.updateFilter_lowprio]
  exact (runningPlanNames_of_operators (JobNode.updateFilter_operators ..)).symm

lemma startFailing_lowprio (job : WorkshopJob) (plan : Plan) :
    (node.startFailing cl name now job plan).plansLowprio =
      (node.startFailing cl name now job plan).runningPlanNames := by
  rw [JobNode.startFailing, JobNode.updateFilter_lowprio]
  exact (runningPlanNames_of_operators (JobNode.updateFilter_operators ..)).symm

end Filter

/-! ## The table during a run -/

/-- An `UPDATE` of one job, after which it is not eligible. -/
structure Settles (now : ℤ) (id : ℕ) (u : JobUpdate) : Prop where
  id_of_cond : ∀ r, u.cond r = true → r.id = id
  not_eligible : ∀ r, isEligible now (u.set r) = false

section Settles

variable {now : ℤ} {id : ℕ} {u : JobUpdate} {t : JobTable} {r : JobRow}

lemma settles_claimJob (node : String) (timeout : ℤ) :
    Settles now id (claimJob node id timeout now) :=
  ⟨fun _ h => (claimJob_cond.mp h).1, fun _ => by simp [claimJob, isEligible]⟩

lemma settles_setJobDone (status : ℤ) (log : Option String) :
    Settles now id (setJobDone id status log now) :=
  ⟨fun _ h => setJobDone_cond.mp h, fun _ => by simp [setJobDone, isEligible]⟩

/-- A row that is eligible after the `UPDATE` was not affected by it. -/
lemma Settles.mem_of_eligible (h : Settles now id u) (hr : r ∈ (t.exec u).rows)
    (heligible : isEligible now r = true) : r ∈ t.rows ∧ u.cond r = false := by
  obtain ⟨r₀, hr₀, rfl⟩ := Table.mem_exec.mp hr
  cases hcond : u.cond r₀ with
  | true =>
      rw [Update.apply_of_cond hcond, h.not_eligible] at heligible
      exact absurd heligible (by simp)
  | false =>
      rw [Update.apply_of_not_cond hcond]
      exact ⟨hr₀, hcond⟩

lemma Settles.mem_of_ne (h : Settles now id u) (hr : r ∈ t.rows) (hid : r.id ≠ id) :
    r ∈ (t.exec u).rows := by
  refine Table.mem_exec.mpr ⟨r, hr, Update.apply_of_not_cond ?_⟩
  exact Bool.eq_false_iff.mpr fun hcond => hid (h.id_of_cond r hcond)

end Settles

/-! ## Jobs of other nodes -/

/-- A row whose job is offered and declined because it is sticky on another node. -/
def JobCluster.isForeign (cl : JobCluster) (name : String) (now : ℤ) (r : JobRow) : Bool :=
  (cl.getPlan name now r.planName).isSome && cl.isElsewhere name now (.ofRow r)

/-- `sticky_non_local` after these rows were offered. -/
def stickyAfter (cl : JobCluster) (name : String) (now : ℤ) (stickyNonLocal : Finset String)
    (rows : List JobRow) : Finset String :=
  stickyNonLocal ∪
    ((rows.filter (cl.isForeign name now)).map fun r => r.stickyId.getD "").toFinset

section Sticky

variable {cl : JobCluster} {name : String} {now : ℤ} {H : Finset String} {rows : List JobRow}
  {r : JobRow}

lemma mem_stickyAfter {stickyId : String} : stickyId ∈ stickyAfter cl name now H rows ↔
    stickyId ∈ H ∨ ∃ r ∈ rows, cl.isForeign name now r = true ∧ r.stickyId.getD "" = stickyId := by
  simp only [stickyAfter, Finset.mem_union, List.mem_toFinset, List.mem_map, List.mem_filter,
    and_assoc]

lemma stickyAfter_append_foreign (hforeign : cl.isForeign name now r = true) :
    stickyAfter cl name now H (rows ++ [r]) =
      insert (r.stickyId.getD "") (stickyAfter cl name now H rows) := by
  ext stickyId
  simp only [mem_stickyAfter, List.mem_append, List.mem_singleton, Finset.mem_insert]
  constructor
  · rintro (hold | ⟨r', hr' | rfl, hforeign', heq⟩)
    · exact .inr (.inl hold)
    · exact .inr (.inr ⟨r', hr', hforeign', heq⟩)
    · exact .inl heq.symm
  · rintro (rfl | hold | ⟨r', hr', hforeign', heq⟩)
    · exact .inr ⟨r, .inr rfl, hforeign, rfl⟩
    · exact .inl hold
    · exact .inr ⟨r', .inl hr', hforeign', heq⟩

lemma stickyAfter_append_local (hlocal : cl.isForeign name now r = false) :
    stickyAfter cl name now H (rows ++ [r]) = stickyAfter cl name now H rows := by
  have hnone : [r].filter (cl.isForeign name now) = [] := by simp [hlocal]
  rw [stickyAfter, List.filter_append, hnone, List.append_nil, stickyAfter]

lemma isHidden_of_after (h : isHidden (stickyAfter cl name now H rows) r = false) :
    isHidden H r = false := by
  cases hsticky : r.stickyId with
  | none => simp [isHidden, hsticky]
  | some stickyId =>
      simp only [isHidden, hsticky, Option.any_some, decide_eq_false_iff_not] at h ⊢
      exact fun hmem => h (mem_stickyAfter.mpr (.inl hmem))

/-- An offered job of another node is hidden. -/
lemma isHidden_of_foreign (hr : r ∈ rows) (hforeign : cl.isForeign name now r = true) :
    isHidden (stickyAfter cl name now H rows) r = true := by
  obtain ⟨_, helsewhere⟩ := Bool.and_eq_true_iff.mp hforeign
  cases hsticky : r.stickyId with
  | none => simp [JobCluster.isElsewhere, WorkshopJob.ofRow, hsticky] at helsewhere
  | some stickyId =>
      simp only [isHidden, hsticky, Option.any_some, decide_eq_true_eq]
      exact mem_stickyAfter.mpr (.inr ⟨r, hr, hforeign, by rw [hsticky]; rfl⟩)

end Sticky

/-! ## What a row can do -/

/-- **The turns of the loop**, if there is no exception: the plan is not found, the job is declined
because it is one of another node or the node is full, a rate limit is hit, the job is not claimed,
it is started, or it fails to start. -/
inductive Turn (cl : JobCluster) (name : String) (now : ℤ) (fails : WorkshopJob → Option String)
    (job : WorkshopJob) (s : JobTable × JobNode) : JobTable × JobNode → Prop
  | notFound : cl.getPlan name now job.planName = none → Turn cl name now fails job s s
  | declined {plan : Plan} {node' : JobNode} : cl.getPlan name now job.planName = some plan →
      s.2.declines cl name now job = some node' → Turn cl name now fails job s (s.1, node')
  | limited {plan : Plan} {delta : ℤ} : cl.getPlan name now job.planName = some plan →
      s.2.declines cl name now job = none →
      JobNode.hitLimit now s.1 job.planName plan.rateLimits = some delta →
      Turn cl name now fails job s (s.1, s.2.setRateLimited cl name now job.planName delta)
  | claimed {plan : Plan} {timeout : ℤ} {s' : JobTable × JobNode} :
      cl.getPlan name now job.planName = some plan → s.2.declines cl name now job = none →
      JobNode.hitLimit now s.1 job.planName plan.rateLimits = none →
      cl.interval plan.timeout = some timeout →
      s' = (if s.1.affected (claimJob name job.id timeout now) = 0 then
          (s.1.exec (claimJob name job.id timeout now), s.2)
        else (JobNode.runHandler cl name now fails).startWorkshopJob
          (s.1.exec (claimJob name job.id timeout now), s.2) job plan) →
      Turn cl name now fails job s s'

lemma turn_of_runJob {cl : JobCluster} {name : String} {now : ℤ}
    {fails : WorkshopJob → Option String} {row : JobRow} {s : JobTable × JobNode}
    {job : WorkshopJob}
    (herror : ((JobNode.runHandler cl name now fails).runJob row s job).error = none) :
    Turn cl name now fails job s
      ((JobNode.runHandler cl name now fails).runJob row s job).state := by
  simp only [RunHandler.runJob, JobNode.runHandler] at herror ⊢
  cases hplan : cl.getPlan name now job.planName with
  | none => exact .notFound hplan
  | some plan =>
      simp only [hplan, JobNode.checkWorkshopJob] at herror ⊢
      cases hdeclines : s.2.declines cl name now job with
      | some node' => exact .declined hplan hdeclines
      | none =>
          simp only [hdeclines] at herror ⊢
          cases hlimit : JobNode.hitLimit now s.1 job.planName plan.rateLimits with
          | some delta => exact .limited hplan hdeclines hlimit
          | none =>
              simp only [hlimit] at herror ⊢
              cases hinterval : cl.interval plan.timeout with
              | none => exact absurd herror (by simp [hinterval])
              | some timeout =>
                  refine .claimed hplan hdeclines hlimit hinterval ?_
                  by_cases haffected : s.1.affected (claimJob name job.id timeout now) = 0
                  · simp [haffected]
                  · simp [haffected, JobNode.runHandler]

/-! ## The first query -/

section FirstQuery

variable (cl : JobCluster) (name : String) (now : ℤ) (t : JobTable) (H I E L : Finset String)

/-- **The state of a run after some rows of the first query.**  `I`, `E` and `L` is the filter with
which the run began, on the table `t` and with `sticky_non_local` `H`.  A plan that runs now and did
not run then is that of a row that was claimed; a row that was not yet offered is as it was; and one
that was offered is not eligible any more, unless its plan was not found or it is a row of another
node. -/
structure Passed (done : List JobRow) (s : JobTable × JobNode) : Prop where
  running : s.2.handler.running = true
  plansInclude : s.2.interrupt = false → s.2.plansInclude = some I
  plansExclude : s.2.interrupt = false → s.2.plansExclude = some E
  lowprio : s.2.plansLowprio = s.2.runningPlanNames
  sticky : s.2.stickyNonLocal = stickyAfter cl name now H done
  kept : L ⊆ s.2.plansLowprio
  started : ∀ p ∈ s.2.plansLowprio, p ∉ L →
    cl.getPlan name now p ≠ none ∧ ∃ r ∈ done, r.planName = p
  length : s.1.rows.length = t.rows.length
  old : ∀ r ∈ s.1.rows, isEligible now r = true → r ∈ t.rows
  left : ∀ r ∈ t.rows, isEligible now r = true → r ∉ done → r ∈ s.1.rows
  settled : s.2.isEnabled = true → s.2.interrupt = false → ∀ r ∈ done, r ∈ s.1.rows →
    isEligible now r = true → cl.getPlan name now r.planName = none ∨ cl.isForeign name now r = true

variable {cl name now t H I E L} {done : List JobRow} {s s' : JobTable × JobNode} {row : JobRow}

lemma Passed.turn (h : Passed cl name now t H I E L done s) (henabled : s.2.isEnabled = true)
    (hgo : s.2.interrupt = false) (hkeeps : KeepsFilter s.2 s'.2)
    (hlocal : cl.isForeign name now row = false)
    (hlowprio : s'.2.plansLowprio = s'.2.runningPlanNames)
    (hsub : s.2.plansLowprio ⊆ s'.2.plansLowprio)
    (hnew : ∀ p ∈ s'.2.plansLowprio, p ∉ s.2.plansLowprio →
      p = row.planName ∧ cl.getPlan name now p ≠ none)
    (hlength : s'.1.rows.length = s.1.rows.length)
    (hold : ∀ r ∈ s'.1.rows, isEligible now r = true → r ∈ s.1.rows)
    (hleft : ∀ r ∈ s.1.rows, r ≠ row → r ∈ s'.1.rows)
    (hrow : s'.2.isEnabled = true → s'.2.interrupt = false → row ∈ s'.1.rows →
      isEligible now row = true → cl.getPlan name now row.planName = none) :
    Passed cl name now t H I E L (done ++ [row]) s' where
  running := by rw [hkeeps.handler]; exact h.running
  plansInclude hi := (hkeeps.plansInclude hi).trans (h.plansInclude hgo)
  plansExclude hi := (hkeeps.plansExclude hi).trans (h.plansExclude hgo)
  lowprio := hlowprio
  sticky := (hkeeps.stickyNonLocal.trans h.sticky).trans (stickyAfter_append_local hlocal).symm
  kept := h.kept.trans hsub
  started p hp hL := by
    by_cases hbefore : p ∈ s.2.plansLowprio
    · obtain ⟨hplan, r, hr, hname⟩ := h.started p hbefore hL
      exact ⟨hplan, r, List.mem_append_left _ hr, hname⟩
    · obtain ⟨rfl, hplan⟩ := hnew p hp hbefore
      exact ⟨hplan, row, by simp, rfl⟩
  length := hlength.trans h.length
  old r hr heligible := h.old r (hold r hr heligible) heligible
  left r hr heligible hdone := by
    rw [List.mem_append, List.mem_singleton, not_or] at hdone
    exact hleft r (h.left r hr heligible hdone.1) hdone.2
  settled henabled' hgo' r hr hmem heligible := by
    rcases List.mem_append.mp hr with hr | hr
    · exact h.settled henabled hgo r hr (hold r hmem heligible) heligible
    · obtain rfl := List.mem_singleton.mp hr
      exact .inl (hrow henabled' hgo' hmem heligible)

/-- A turn at a row of another node. -/
lemma Passed.turn_elsewhere (h : Passed cl name now t H I E L done s)
    (hforeign : cl.isForeign name now row = true) :
    Passed cl name now t H I E L (done ++ [row])
      (s.1, s.2.insertStickyNonLocal (row.stickyId.getD "")) where
  running := h.running
  plansInclude := h.plansInclude
  plansExclude := h.plansExclude
  lowprio := h.lowprio
  sticky := by
    rw [stickyAfter_append_foreign hforeign, ← h.sticky]
    rfl
  kept := h.kept
  started p hp hL := by
    obtain ⟨hplan, r, hr, hname⟩ := h.started p hp hL
    exact ⟨hplan, r, List.mem_append_left _ hr, hname⟩
  length := h.length
  old := h.old
  left r hr heligible hdone := h.left r hr heligible fun hin => hdone (List.mem_append_left _ hin)
  settled henabled hgo r hr hmem heligible := by
    rcases List.mem_append.mp hr with hr | hr
    · exact h.settled henabled hgo r hr hmem heligible
    · obtain rfl := List.mem_singleton.mp hr
      exact .inr hforeign

/-- A turn that leaves the table and the operators alone. -/
lemma Passed.turn_same {node' : JobNode} (h : Passed cl name now t H I E L done s)
    (henabled : s.2.isEnabled = true) (hgo : s.2.interrupt = false) (hkeeps : KeepsFilter s.2 node')
    (hlocal : cl.isForeign name now row = false)
    (hoperators : node'.operators = s.2.operators)
    (hlowprio : node'.plansLowprio = s.2.plansLowprio)
    (hrow : node'.isEnabled = true → node'.interrupt = false →
      cl.getPlan name now row.planName = none) :
    Passed cl name now t H I E L (done ++ [row]) (s.1, node') := by
  refine h.turn henabled hgo hkeeps hlocal ?_ hlowprio.ge ?_ rfl (fun r hr _ => hr)
    (fun r hr _ => hr) fun he hi _ _ => hrow he hi
  · rw [hlowprio, h.lowprio]
    exact (runningPlanNames_of_operators hoperators).symm
  · intro p hp hnot
    exact absurd (hlowprio ▸ hp) hnot

/-- A turn that claims the job of the row. -/
lemma Passed.turn_claimed {node' : JobNode} (timeout : ℤ) (h : Passed cl name now t H I E L done s)
    (henabled : s.2.isEnabled = true) (hgo : s.2.interrupt = false) (hmem : row ∈ s.1.rows)
    (heligible : isEligible now row = true) (hkeeps : KeepsFilter s.2 node')
    (hlocal : cl.isForeign name now row = false)
    (hlowprio : node'.plansLowprio = node'.runningPlanNames)
    (hsub : s.2.runningPlanNames ⊆ node'.runningPlanNames)
    (hnew : ∀ p ∈ node'.runningPlanNames, p ∈ s.2.runningPlanNames ∨ p = row.planName)
    (hplan : cl.getPlan name now row.planName ≠ none) :
    Passed cl name now t H I E L (done ++ [row])
      (s.1.exec (claimJob name row.id timeout now), node') := by
  have hclaim : Settles now row.id (claimJob name row.id timeout now) :=
    settles_claimJob name timeout
  have hcond : (claimJob name row.id timeout now).cond row = true := by
    obtain ⟨hnode, _, _, _, henabled⟩ := isEligible_iff.mp heligible
    exact claimJob_cond.mpr ⟨rfl, hnode, henabled⟩
  refine h.turn henabled hgo hkeeps hlocal hlowprio ?_ ?_ (by simp [Table.exec])
    (fun r hr hr' => (hclaim.mem_of_eligible hr hr').1) ?_ ?_
  · rw [h.lowprio, hlowprio]
    exact hsub
  · intro p hp hnot
    rw [hlowprio] at hp
    rw [h.lowprio] at hnot
    obtain rfl := (hnew p hp).resolve_left hnot
    exact ⟨rfl, hplan⟩
  · intro r hr hne
    exact hclaim.mem_of_ne hr fun hid => hne (Table.eq_of_key_eq hr hmem hid)
  · intro _ _ hrow heligible
    rw [(hclaim.mem_of_eligible hrow heligible).2] at hcond
    exact absurd hcond (by simp)

lemma Passed.exec {u : JobUpdate} (h : Passed cl name now t H I E L done s) (hrow : row ∈ done)
    (hmem : row ∈ t.rows) (hu : Settles now row.id u) :
    Passed cl name now t H I E L done (s.1.exec u, s.2) where
  running := h.running
  plansInclude := h.plansInclude
  plansExclude := h.plansExclude
  lowprio := h.lowprio
  sticky := h.sticky
  kept := h.kept
  started := h.started
  length := by simpa [Table.exec] using h.length
  old r hr heligible := h.old r (hu.mem_of_eligible hr heligible).1 heligible
  left r hr heligible hdone := by
    refine hu.mem_of_ne (h.left r hr heligible hdone) fun hid => hdone ?_
    rw [Table.eq_of_key_eq hr hmem hid]
    exact hrow
  settled henabled hgo r hr hr' heligible :=
    h.settled henabled hgo r hr (hu.mem_of_eligible hr' heligible).1 heligible

/-- **One turn.** -/
lemma Passed.of_turn {fails : WorkshopJob → Option String} (h : Passed cl name now t H I E L done s)
    (henabled : s.2.isEnabled = true) (hgo : s.2.interrupt = false) (hmem : row ∈ t.rows)
    (heligible : isEligible now row = true) (hI : row.planName ∈ I) (hdone : row ∉ done)
    (hturn : Turn cl name now fails (.ofRow row) s s') :
    Passed cl name now t H I E L (done ++ [row]) s' := by
  have hthere : row ∈ s.1.rows := h.left row hmem heligible hdone
  have hlocal : s.2.declines cl name now (.ofRow row) = none → cl.isForeign name now row = false :=
    fun hnone => by
      rw [JobCluster.isForeign, (JobNode.of_declines_none hnone).1, Bool.and_false]
  cases hturn with
  | notFound hplan =>
      have hforeign : cl.isForeign name now row = false := by
        rw [JobCluster.isForeign, show cl.getPlan name now row.planName = none from hplan]
        rfl
      exact h.turn_same henabled hgo (.of_eq rfl rfl rfl rfl rfl) hforeign rfl rfl
        fun _ _ => hplan
  | @declined plan node' hplan hdeclines =>
      rcases JobNode.declines_cases hdeclines with ⟨helsewhere, rfl⟩ | ⟨hhere, _, rfl⟩
      · refine h.turn_elsewhere ?_
        rw [JobCluster.isForeign, show cl.getPlan name now row.planName = some plan from hplan,
          helsewhere]
        rfl
      · refine h.turn_same henabled hgo (.of_eq rfl rfl rfl rfl rfl) ?_ rfl rfl
          fun henabled' => absurd henabled' (by simp [JobNode.isEnabled])
        rw [JobCluster.isForeign, hhere, Bool.and_false]
  | @limited plan delta hplan hhere hlimit =>
      have hdelta : 0 < delta := by simpa using List.find?_some hlimit
      have hinterrupt : (s.2.setRateLimited cl name now row.planName delta).interrupt = true :=
        setRateLimited_interrupt h.running (h.plansInclude hgo) hI hdelta
      refine h.turn_same henabled hgo (.setRateLimited cl name now h.running _ _) (hlocal hhere)
        (JobNode.updateFilter_operators ..) ?_ fun _ hgo' => ?_
      · exact (JobNode.updateFilter_lowprio ..).trans h.lowprio.symm
      · exact absurd (hinterrupt.symm.trans hgo') (by simp)
  | @claimed plan timeout s' hplan hhere hlimit hinterval hs' =>
      -- the row is as it was when it was selected, so that it is claimed
      have haffected : 0 < s.1.affected (claimJob name row.id timeout now) := by
        obtain ⟨hnode, _, _, _, hrow⟩ := isEligible_iff.mp heligible
        exact Table.affected_pos.mpr ⟨row, hthere, claimJob_cond.mpr ⟨rfl, hnode, hrow⟩⟩
      have hfound : cl.getPlan name now row.planName ≠ none := by
        intro hnone
        exact absurd (hnone.symm.trans hplan) (by simp)
      have hs' := hs'.trans (if_neg haffected.ne')
      simp only [JobNode.runHandler] at hs'
      cases hfails : fails (.ofRow row) with
      | none =>
          rw [hfails] at hs'
          rw [hs']
          refine h.turn_claimed timeout henabled hgo hthere heligible
            (.startWorkshopJob cl name now h.running _ _) (hlocal hhere)
            (startWorkshopJob_lowprio _ _) ?_ ?_ hfound
          · exact fun p hp => mem_runningPlanNames_startWorkshopJob.mpr (.inl hp)
          · exact fun p hp => mem_runningPlanNames_startWorkshopJob.mp hp
      | some message =>
          rw [hfails] at hs'
          rw [hs']
          have hnames : (s.2.startFailing cl name now (.ofRow row) plan).runningPlanNames =
              s.2.runningPlanNames := runningPlanNames_of_operators (startFailing_operators _ _)
          have hclaimed := h.turn_claimed timeout henabled hgo hthere heligible
            (.startFailing cl name now h.running (.ofRow row) plan) (hlocal hhere)
            (startFailing_lowprio _ _) hnames.ge (fun p hp => .inl (hnames.le hp)) hfound
          exact hclaimed.exec (by simp) hmem (settles_setJobDone _ _)

/-- **The first query.**  When all of its rows are behind. -/
lemma passed_firstQuery {fails : WorkshopJob → Option String} {rows : List JobRow} {node : JobNode}
    (hrows : ∀ r ∈ rows, r ∈ t.rows ∧ isEligible now r = true ∧ r.planName ∈ I)
    (hnodup : rows.Nodup)
    (hrunning : node.handler.running = true) (hinclude : node.plansInclude = some I)
    (hexclude : node.plansExclude = some E) (hsticky : node.stickyNonLocal = H)
    (hlowprio : node.plansLowprio = node.runningPlanNames)
    (herror :
      ((JobNode.runHandler cl name now fails).runResult makeJob rows (t, node)).error = none)
    (hstopped : ((JobNode.runHandler cl name now fails).runResult makeJob rows
      (t, node)).stopped = false) :
    Passed cl name now t H I E node.plansLowprio rows
      ((JobNode.runHandler cl name now fails).runResult makeJob rows (t, node)).state := by
  refine RunHandler.runResult_rule ?_ ?_ herror hstopped
  · exact {
      running := hrunning
      plansInclude := fun _ => hinclude
      plansExclude := fun _ => hexclude
      lowprio := hlowprio
      sticky := by rw [hsticky]; simp [stickyAfter]
      kept := fun _ hp => hp
      started := fun _ hp hL => absurd hp hL
      length := rfl
      old := fun _ hr _ => hr
      left := fun _ hr _ _ => hr
      settled := fun _ _ _ hr => absurd hr List.not_mem_nil }
  · intro done row s job hs hprefix hgo hrow hjob
    have hmem : row ∈ rows := hprefix.subset (by simp)
    have hdone : row ∉ done := by
      have hnodup' := (hnodup.sublist hprefix.sublist)
      rw [List.nodup_append] at hnodup'
      exact fun hin => hnodup'.2.2 row hin row (by simp) rfl
    obtain ⟨ht, heligible, hI⟩ := hrows row hmem
    obtain ⟨hdisabled, hgo⟩ := Bool.or_eq_false_iff.mp hgo
    have henabled : s.2.isEnabled = true := by
      simpa using show (!s.2.isEnabled) = false from hdisabled
    obtain rfl : job = .ofRow row := by
      unfold makeJob at hrow
      split at hrow
      · cases hrow
      · cases hrow
        rfl
    exact hs.of_turn henabled hgo ht heligible hI hdone (turn_of_runJob hjob)

/-- **The second query** returns the eligible rows of the plans that were running when the run
began and that are not hidden: none of those that were started since is left. -/
lemma Passed.mem_secondQuery {limit : ℕ} {rows : List JobRow} {r : JobRow}
    (h : Passed cl name now t H I E L rows s)
    (hrows : ∀ r, r ∈ rows ↔ r ∈ t.rows ∧ isEligible now r = true ∧ isHidden H r = false ∧
      r.planName ∈ I ∧ r.planName ∉ E ∧ r.planName ∉ L)
    (hlimit : t.rows.length ≤ limit) (henabled : s.2.isEnabled = true)
    (hgo : s.2.interrupt = false) :
    r ∈ s.2.selectJobs s.1 now limit true ↔
      r ∈ t.rows ∧ isEligible now r = true ∧ isHidden (stickyAfter cl name now H rows) r = false ∧
        r.planName ∈ L ∧ r.planName ∉ E := by
  have hselect : r ∈ s.2.selectJobs s.1 now limit true ↔
      r ∈ s.1.rows ∧ isEligible now r = true ∧
        isHidden (stickyAfter cl name now H rows) r = false ∧
        r.planName ∈ s.2.plansLowprio ∧ r.planName ∉ E := by
    simp only [JobNode.selectJobs, if_true, h.plansExclude hgo, Option.getD_some, h.sticky]
    rw [mem_selectNewJobs_iff (h.length.trans_le hlimit)]
    simp
  rw [hselect]
  constructor
  · rintro ⟨hr, heligible, hshown, hlowprio, hE⟩
    refine ⟨h.old r hr heligible, heligible, hshown, ?_, hE⟩
    by_contra hL
    -- its plan was started, so it was offered itself, and either claimed or hidden
    obtain ⟨hplan, r₀, hr₀, hname⟩ := h.started _ hlowprio hL
    have hI : r.planName ∈ I := hname ▸ ((hrows r₀).mp hr₀).2.2.2.1
    have hoffered : r ∈ rows := (hrows r).mpr
      ⟨h.old r hr heligible, heligible, isHidden_of_after hshown, hI, hE, hL⟩
    rcases h.settled henabled hgo r hoffered hr heligible with hnone | hforeign
    · exact hplan hnone
    · have hhidden : isHidden (stickyAfter cl name now H rows) r = true :=
        isHidden_of_foreign hoffered hforeign
      exact absurd (hhidden.symm.trans hshown) (by simp)
  · rintro ⟨hr, heligible, hshown, hL, hE⟩
    have hnot : r ∉ rows := fun hin => ((hrows r).mp hin).2.2.2.2.2 hL
    exact ⟨h.left r hr heligible hnot, heligible, hshown, h.kept hL, hE⟩

end FirstQuery

/-! ## What a run offers -/

/-- The query that asks for the plan of the row does not see the row: `sticky_non_local` is `H` at
the first query, and `H'` at the second, which asks for the plans in `L`. -/
def isHiddenAt (H H' L : Finset String) (r : JobRow) : Bool :=
  isHidden (if r.planName ∈ L then H' else H) r

/-- **The filter is respected**: the rows that were offered are the eligible rows of the plans in
`I` that are not in `E`, each of them once, and those of plans that are not running come first. -/
structure OffersExactly (t : JobTable) (now : ℤ) (H H' I E L : Finset String)
    (offered : List JobRow) : Prop where
  mem_iff : ∀ r, r ∈ offered ↔
    r ∈ t.rows ∧ isEligible now r = true ∧ isHiddenAt H H' L r = false ∧ r.planName ∈ I ∧
      r.planName ∉ E
  nodup : offered.Nodup
  ordered : ∃ idle busy, offered = idle ++ busy ∧ (∀ r ∈ idle, r.planName ∉ L) ∧
    ∀ r ∈ busy, r.planName ∈ L

/-- All eligible rows of plans that are running and not full are of plans in `I`. -/
def BusyIncluded (t : JobTable) (now : ℤ) (H' I E L : Finset String) : Prop :=
  ∀ r ∈ t.rows, isEligible now r = true → isHidden H' r = false → r.planName ∈ L →
    r.planName ∉ E → r.planName ∈ I

instance (t : JobTable) (now : ℤ) (H' I E L : Finset String) :
    Decidable (BusyIncluded t now H' I E L) :=
  inferInstanceAs (Decidable (∀ r ∈ t.rows, _ → _ → _ → _ → _))

section Offers

variable {t : JobTable} {now : ℤ} {H H' I E L : Finset String} {first second : List JobRow}

lemma offersExactly_append_iff (hfirst : first.Nodup) (hsecond : second.Nodup)
    (hmem₁ : ∀ r, r ∈ first ↔ r ∈ t.rows ∧ isEligible now r = true ∧ isHidden H r = false ∧
      r.planName ∈ I ∧ r.planName ∉ E ∧ r.planName ∉ L)
    (hmem₂ : ∀ r, r ∈ second ↔ r ∈ t.rows ∧ isEligible now r = true ∧ isHidden H' r = false ∧
      r.planName ∈ L ∧ r.planName ∉ E) :
    OffersExactly t now H H' I E L (first ++ second) ↔ BusyIncluded t now H' I E L := by
  constructor
  · intro h r hr heligible hshown hL hE
    have hoffered : r ∈ first ++ second :=
      List.mem_append_right _ ((hmem₂ r).mpr ⟨hr, heligible, hshown, hL, hE⟩)
    exact ((h.mem_iff r).mp hoffered).2.2.2.1
  · intro h
    have hidle : ∀ r ∈ first, r.planName ∉ L := fun r hr => ((hmem₁ r).mp hr).2.2.2.2.2
    have hbusy : ∀ r ∈ second, r.planName ∈ L := fun r hr => ((hmem₂ r).mp hr).2.2.2.1
    refine ⟨fun r => ?_, ?_, first, second, rfl, hidle, hbusy⟩
    · rw [List.mem_append, hmem₁, hmem₂, isHiddenAt]
      by_cases hL : r.planName ∈ L
      · rw [if_pos hL]
        constructor
        · rintro (⟨_, _, _, _, _, hnot⟩ | ⟨hr, heligible, hshown, _, hE⟩)
          · exact absurd hL hnot
          · exact ⟨hr, heligible, hshown, h r hr heligible hshown hL hE, hE⟩
        · rintro ⟨hr, heligible, hshown, _, hE⟩
          exact .inr ⟨hr, heligible, hshown, hL, hE⟩
      · rw [if_neg hL]
        constructor
        · rintro (⟨hr, heligible, hshown, hI, hE, _⟩ | ⟨_, _, _, hmem, _⟩)
          · exact ⟨hr, heligible, hshown, hI, hE⟩
          · exact absurd hmem hL
        · rintro ⟨hr, heligible, hshown, hI, hE⟩
          exact .inl ⟨hr, heligible, hshown, hI, hE, hL⟩
    · exact List.nodup_append.mpr ⟨hfirst, hsecond, fun a ha b hb hab =>
        hidle a ha (hab ▸ hbusy b hb)⟩

end Offers

section Run

variable {cl : JobCluster} {name : String} {now : ℤ} {fails : WorkshopJob → Option String}
  {limit : ℕ} {table : JobTable}

lemma JobNode.expireTable_length (node : JobNode) :
    (node.expireTable name now table).rows.length = table.rows.length := by
  unfold JobNode.expireTable
  split
  · simp [Table.exec]
  · rfl

variable (cl name now limit table) in
/-- `sticky_non_local` when the second query of a run is executed that is not cut short. -/
def JobNode.stickyAtSecond (node : JobNode) : Finset String :=
  stickyAfter cl name now node.stickyNonLocal (node.selectJobs table now limit false)

/-- What a run offers that is not cut short: the rows of the first query, and after them the
eligible rows of the plans that were running. -/
lemma run2_offered {node : JobNode} {I E : Finset String} (hrun : node.canRun = true)
    (hinclude : node.plansInclude = some I) (hexclude : node.plansExclude = some E)
    (hlowprio : node.plansLowprio = node.runningPlanNames) (hlimit : table.rows.length ≤ limit)
    (herror : (node.run2 cl name now fails limit table).error = none)
    (hstopped : (node.run2 cl name now fails limit table).stopped = false) :
    ∃ second, (node.run2 cl name now fails limit table).offered =
        node.selectJobs (node.expireTable name now table) now limit false ++ second ∧
      second.Nodup ∧ ∀ r, r ∈ second ↔ r ∈ (node.expireTable name now table).rows ∧
        isEligible now r = true ∧ isHidden (node.stickyAtSecond cl name now limit
          (node.expireTable name now table)) r = false ∧
        r.planName ∈ node.plansLowprio ∧ r.planName ∉ E := by
  set t := node.expireTable name now table with ht
  have htlimit : t.rows.length ≤ limit := (JobNode.expireTable_length ..).trans_le hlimit
  set rows := node.selectJobs t now limit false with hrows
  have hselect : (node.beginRun now).selectJobs t now limit false = rows := rfl
  have hmem : ∀ r, r ∈ rows ↔ r ∈ t.rows ∧ isEligible now r = true ∧
      isHidden node.stickyNonLocal r = false ∧ r.planName ∈ I ∧ r.planName ∉ E ∧
      r.planName ∉ node.plansLowprio := fun r => by
    rw [hrows, JobNode.selectJobs, hinclude, hexclude]
    exact mem_selectNewJobs_iff htlimit
  have hnodup : rows.Nodup := selectNewJobs_nodup ..
  simp only [JobNode.run2, if_pos hrun, ← ht, hselect] at herror hstopped ⊢
  obtain ⟨herror₁, hstopped₁, herror₂, hstopped₂, -, hoffered⟩ :=
    RunOutcome.of_andThen herror hstopped
  have hpassed := passed_firstQuery
    (fun r hr => ⟨((hmem r).mp hr).1, ((hmem r).mp hr).2.1, ((hmem r).mp hr).2.2.2.1⟩)
    hnodup (show (node.beginRun now).handler.running = true from rfl)
    hinclude hexclude rfl hlowprio herror₁ hstopped₁
  rw [hoffered, RunHandler.runResult_offered herror₁ hstopped₁]
  refine ⟨_, rfl, ?_⟩
  generalize ((JobNode.runHandler cl name now fails).runResult makeJob rows
    (t, node.beginRun now)).state = s at *
  unfold JobNode.secondQuery at herror₂ hstopped₂ ⊢
  split
  · rename_i hcond
    simp only [if_pos hcond] at herror₂ hstopped₂
    simp only [Bool.and_eq_true, Bool.not_eq_true', decide_eq_true_eq] at hcond
    rw [RunHandler.runResult_offered herror₂ hstopped₂]
    exact
      ⟨selectNewJobs_nodup .., fun r => hpassed.mem_secondQuery hmem htlimit hcond.1.1 hcond.1.2⟩
  · -- nothing is running, and nothing was
    rename_i hcond
    simp only [if_neg hcond, decide_eq_false_iff_not, not_not] at hstopped₂
    refine ⟨List.nodup_nil, fun r => ⟨fun hr => absurd hr List.not_mem_nil, fun hr => ?_⟩⟩
    have hbusy := hpassed.kept hr.2.2.2.1
    rw [hstopped₂] at hbusy
    exact absurd hbusy (Finset.notMem_empty _)

/-- **Two-pass selection.**  A run with the filter of `UpdateFilter` that is not cut short offers
exactly what the filter asks for if and only if there is no plan to ask for, or all eligible rows of
plans that are running and not full are of plans in `plans_include`. -/
theorem run2_offersExactly_iff (cl : JobCluster) (name : String) (now₀ now : ℤ)
    (fails : WorkshopJob → Option String) (limit : ℕ) (table : JobTable) (node : JobNode)
    (henabled : node.isEnabled = true) (hlimit : table.rows.length ≤ limit)
    (herror : ((node.updateFilter cl name now₀).run2 cl name now fails limit table).error = none)
    (hstopped :
      ((node.updateFilter cl name now₀).run2 cl name now fails limit table).stopped = false) :
    OffersExactly ((node.updateFilter cl name now₀).expireTable name now table) now
        node.stickyNonLocal
        ((node.updateFilter cl name now₀).stickyAtSecond cl name now limit
          ((node.updateFilter cl name now₀).expireTable name now table))
        (node.availablePlans cl name now₀) node.fullPlanNames node.runningPlanNames
        ((node.updateFilter cl name now₀).run2 cl name now fails limit table).offered ↔
      node.availablePlans cl name now₀ = ∅ ∨
        BusyIncluded ((node.updateFilter cl name now₀).expireTable name now table) now
          ((node.updateFilter cl name now₀).stickyAtSecond cl name now limit
            ((node.updateFilter cl name now₀).expireTable name now table))
          (node.availablePlans cl name now₀) node.fullPlanNames node.runningPlanNames := by
  obtain ⟨hinclude, hexclude, henabled', hsticky⟩ := node.updateFilter_filter cl name now₀
  have hlowprio := node.updateFilter_lowprio cl name now₀
  have hnames : (node.updateFilter cl name now₀).runningPlanNames = node.runningPlanNames :=
    runningPlanNames_of_operators (JobNode.updateFilter_operators ..)
  by_cases hI : node.availablePlans cl name now₀ = ∅
  · -- `Run2` returns at once
    have hidle : (node.updateFilter cl name now₀).canRun = false := by
      simp [JobNode.canRun, hinclude, hI]
    rw [JobNode.run2, if_neg (by simp [hidle]), hI]
    refine iff_of_true ⟨by simp, List.nodup_nil, [], [], rfl, by simp, by simp⟩ (.inl rfl)
  · have hrun : (node.updateFilter cl name now₀).canRun = true := by
      simp [JobNode.canRun, hinclude, hexclude, henabled', henabled, hI]
    obtain ⟨second, hoffered, hnodup, hmem⟩ :=
      run2_offered hrun hinclude hexclude (hlowprio.trans hnames.symm) hlimit herror hstopped
    have hexpired : ((node.updateFilter cl name now₀).expireTable name now table).rows.length ≤
        limit := (JobNode.expireTable_length ..).trans_le hlimit
    rw [hlowprio] at hmem
    rw [hoffered, or_iff_right hI]
    refine offersExactly_append_iff (selectNewJobs_nodup ..) hnodup (fun r => ?_) hmem
    rw [JobNode.selectJobs, hinclude, hexclude, hlowprio, hsticky]
    exact mem_selectNewJobs_iff hexpired

end Run

/-! ## A running plan that has hit its rate limit -/

/-- A plan that may be started so often in a minute. -/
def limitedPlan (maxCount : ℕ) : Plan where
  args := ["x"]
  rateLimits := [{ duration := 60, maxCount }]

/-- A cluster with two plans. -/
def twoPlans (maxCount : ℕ) : JobCluster where
  interval _ := some minute
  visitAvailable _ _ := {"a", "b"}
  getPlan _ _ planName :=
    if planName = "a" then some { args := ["x"] }
    else if planName = "b" then some (limitedPlan maxCount)
    else none
  concurrency _ := 8

/-- A job that is running. -/
def runningRow : JobRow where
  id := 1
  timeCreated := 0
  planName := "b"
  nodeName := some "n"
  timeStarted := some 0

/-- A job that is not. -/
def waitingRow (id : ℕ) (planName : String) : JobRow where
  id := id
  timeCreated := 0
  planName := planName

/-- A job of each plan waits. -/
def waitingTable : JobTable := ⟨[runningRow, waitingRow 2 "b", waitingRow 3 "a"], by decide⟩

/-- A node that runs the first job. -/
def runningNode (maxCount : ℕ) (rateLimitedPlans : List (String × ℤ)) : JobNode where
  enabledState := true
  rateLimitedPlans := rateLimitedPlans
  operators := [.create 0 (.ofRow runningRow) (limitedPlan maxCount)]

/-- The rows this node offers, a second after its filter was updated, and whether its run came to an
end. -/
def offeredRows (maxCount : ℕ) (rateLimitedPlans : List (String × ℤ)) :
    List (ℕ × String) × Bool × Option String :=
  let node := (runningNode maxCount rateLimitedPlans).updateFilter (twoPlans maxCount) "n" 0
  let run := node.run2 (twoPlans maxCount) "n" second (fun _ => none) 16 waitingTable
  (run.offered.map fun r => (r.id, r.planName), run.stopped, run.error)

theorem run2_offersExactly_running :
    offeredRows 5 [] = ([(3, "a"), (2, "b")], false, none) ∧
      OffersExactly (((runningNode 5 []).updateFilter (twoPlans 5) "n" 0).expireTable "n" second
          waitingTable) second
        ∅ (((runningNode 5 []).updateFilter (twoPlans 5) "n" 0).stickyAtSecond (twoPlans 5) "n"
          second 16 (((runningNode 5 []).updateFilter (twoPlans 5) "n" 0).expireTable "n" second
            waitingTable))
        ((runningNode 5 []).availablePlans (twoPlans 5) "n" 0) (runningNode 5 []).fullPlanNames
        (runningNode 5 []).runningPlanNames
        (((runningNode 5 []).updateFilter (twoPlans 5) "n" 0).run2 (twoPlans 5) "n" second
          (fun _ => none) 16 waitingTable).offered := by
  have hrun : offeredRows 5 [] = ([(3, "a"), (2, "b")], false, none) := by decide +kernel
  have hend := (Prod.mk.inj hrun).2
  refine ⟨hrun, ?_⟩
  refine (run2_offersExactly_iff (twoPlans 5) "n" 0 second (fun _ => none) 16 waitingTable
    (runningNode 5 []) rfl (by decide) (Prod.mk.inj hend).2 (Prod.mk.inj hend).1).mpr (.inr ?_)
  decide +kernel

theorem run2_offers_limited :
    offeredRows 1 [("b", minute)] = ([(3, "a"), (2, "b")], false, none) ∧
      (runningNode 1 [("b", minute)]).availablePlans (twoPlans 1) "n" 0 = {"a"} ∧
      ¬ OffersExactly (((runningNode 1 [("b", minute)]).updateFilter (twoPlans 1) "n" 0).expireTable
          "n" second waitingTable) second
        ∅ (((runningNode 1 [("b", minute)]).updateFilter (twoPlans 1) "n" 0).stickyAtSecond
          (twoPlans 1) "n" second 16 (((runningNode 1 [("b", minute)]).updateFilter (twoPlans 1) "n"
            0).expireTable "n" second waitingTable))
        ((runningNode 1 [("b", minute)]).availablePlans (twoPlans 1) "n" 0)
        (runningNode 1 [("b", minute)]).fullPlanNames
          (runningNode 1 [("b", minute)]).runningPlanNames
        (((runningNode 1 [("b", minute)]).updateFilter (twoPlans 1) "n" 0).run2 (twoPlans 1) "n"
          second (fun _ => none) 16 waitingTable).offered := by
  have hrun : offeredRows 1 [("b", minute)] = ([(3, "a"), (2, "b")], false, none) := by
    decide +kernel
  have havailable : (runningNode 1 [("b", minute)]).availablePlans (twoPlans 1) "n" 0 = {"a"} := by
    decide +kernel
  refine ⟨hrun, havailable, fun h => ?_⟩
  have hmem : (2, "b") ∈ (offeredRows 1 [("b", minute)]).1 := by rw [hrun]; simp
  obtain ⟨r, hr, heq⟩ := List.mem_map.mp hmem
  have hincluded := ((h.mem_iff r).mp hr).2.2.2.1
  rw [havailable, (Prod.mk.inj heq).2] at hincluded
  exact absurd hincluded (by decide)

end Workshop.Jobs

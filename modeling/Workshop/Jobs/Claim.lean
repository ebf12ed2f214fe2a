import Workshop.Jobs.Ownership

/-!
# Claims and the data they are made on

`Run2` fetches up to 16 rows and then goes through them: each is turned into a job, its rate limits
are checked, and `claim_job` is executed, whose condition is only that the row is enabled and not
assigned.  Between the fetch and the claim, clients may edit the row, and other nodes may have
claimed the job, changed its environment and given it back.

`claim_current`: a claim that succeeds finds the row eligible and with the data of the job, as long
as no such statement takes effect on the row of a job while a node has fetched it.
-/

namespace Workshop.Jobs

open Workshop.Lib

variable {cl : JobCluster} {s t : State} {e : Event} {n : String}

/-- What an operator is given: the plan, the arguments, the environment and the standard input. -/
def WorkshopJob.data (job : WorkshopJob) :
    String × List String × List String × Option (List UInt8) :=
  (job.planName, job.args, job.env, job.stdin)

/-- **A claim on current data**: whenever a node starts an operator, the row is eligible, and has
the data of the job. -/
def ClaimsCurrent (cl : JobCluster) (s : State) (e : Event) : Prop :=
  ∀ n ev job, e = .node n ev → (s.nodes n).Starts cl n s.table s.now ev job →
    ∃ r, s.table.find? job.id = some r ∧ isEligible s.now r = true ∧
      job.data = (WorkshopJob.ofRow r).data

/-- The statement makes what was read of the row wrong: it changes the plan, the arguments, the
environment or the standard input, postpones the job, or completes a job nobody is assigned to. -/
def Statement.disturbs (now : ℤ) (r : JobRow) : Statement → Bool
  | .editJob id ed =>
    let r' := (Jobs.editJob id ed).set r
    (WorkshopJob.ofRow r').data ≠ (WorkshopJob.ofRow r).data ||
      r'.scheduledTime.any fun u => now < u
  | .setEnv id moreEnv like =>
    (WorkshopJob.ofRow ((Jobs.setEnv id moreEnv like).set r)).data ≠ (WorkshopJob.ofRow r).data
  | .againJob _ delay _ now' => now < now' + delay
  | .setJobDone _ _ _ _ => r.nodeName.isNone
  | _ => false

/-- The step disturbs the row of a job the node `n` has fetched. -/
def disturbsFetched (cl : JobCluster) (n : String) (p : State × Event) : Bool :=
  (p.2.statement cl p.1).any fun st =>
    (p.1.nodes n).handler.fetched.any fun job =>
      (p.1.table.find? job.id).any fun r => st.update.cond r && st.disturbs p.1.now r

/-- The step disturbs no row of a fetched job. -/
def KeepsFetched (cl : JobCluster) (s : State) (e : Event) : Prop :=
  ∀ n, disturbsFetched cl n (s, e) = false

/-! ## What was fetched stays current -/

/-- The row of a fetched job has the data of the job and is due, and is eligible unless it is
assigned or disabled. -/
structure Snapshot (now : ℤ) (job : WorkshopJob) (r : JobRow) : Prop where
  data : (WorkshopJob.ofRow r).data = job.data
  due : ∀ u, r.scheduledTime = some u → u ≤ now
  undone : r.nodeName = none → r.timeDone = none
  status : r.timeDone = none → r.exitStatus = none

lemma Snapshot.mono {now now' : ℤ} {job : WorkshopJob} {r : JobRow} (h : Snapshot now job r)
    (hle : now ≤ now') : Snapshot now' job r where
  data := h.data
  due := fun u hu => (h.due u hu).trans hle
  undone := h.undone
  status := h.status

lemma snapshot_of_eligible {now : ℤ} {r : JobRow} (h : isEligible now r = true) :
    Snapshot now (.ofRow r) r := by
  obtain ⟨_, hdone, hstatus, hdue, _⟩ := isEligible_iff.mp h
  exact ⟨rfl, hdue, fun _ => hdone, fun _ => hstatus⟩

lemma Snapshot.set {now : ℤ} {job : WorkshopJob} {r : JobRow} {st : Statement}
    (h : Snapshot now job r) (hcond : st.update.cond r = true)
    (hkeep : st.disturbs now r = false) : Snapshot now job (st.update.set r) := by
  cases st with
  | releaseJobs node =>
      exact ⟨h.data, h.due, fun _ => (releaseJobs_cond.mp hcond).2.1, h.status⟩
  | expireJobs node now => exact ⟨h.data, h.due, fun _ => (expireJobs_cond.mp hcond).1, h.status⟩
  | claimJob node id timeout now =>
      exact ⟨h.data, h.due, fun hnone => absurd hnone (Option.some_ne_none _), h.status⟩
  | setJobProgress id progress timeout now => exact ⟨h.data, h.due, h.undone, h.status⟩
  | addCpuUsage id usage => exact ⟨h.data, h.due, h.undone, h.status⟩
  | rollbackJob id => exact ⟨h.data, h.due, fun _ => (rollbackJob_cond.mp hcond).2.2, h.status⟩
  | setEnv id moreEnv like =>
      have hdata : (WorkshopJob.ofRow ((Jobs.setEnv id moreEnv like).set r)).data =
          (WorkshopJob.ofRow r).data := by
        simpa [Statement.disturbs] using hkeep
      exact ⟨hdata.trans h.data, h.due, h.undone, h.status⟩
  | setJobDone id status log now =>
      have hname : r.nodeName ≠ none := by
        simpa [Statement.disturbs, Option.isSome_iff_ne_none] using hkeep
      exact ⟨h.data, h.due, fun hnone => absurd hnone hname,
        fun hnone => absurd hnone (Option.some_ne_none _)⟩
  | againJob id delay log now' =>
      have hdelay : now' + delay ≤ now := by simpa [Statement.disturbs] using hkeep
      refine ⟨h.data, fun u hu => ?_, fun _ => (againJob_cond.mp hcond).2.2, h.status⟩
      obtain rfl := Option.some.inj hu
      exact hdelay
  | editJob id ed =>
      simp only [Statement.disturbs, Bool.or_eq_false_iff, decide_eq_false_iff_not,
        not_not] at hkeep
      obtain ⟨hdata, hdue⟩ := hkeep
      refine ⟨hdata.trans h.data, fun u hu => ?_, h.undone, h.status⟩
      have hu' : ((Jobs.editJob id ed).set r).scheduledTime = some u := hu
      rw [hu', Option.any_some] at hdue
      simpa using hdue

/-- **The invariant**: the rows of fetched jobs match their snapshots; ids are not used again. -/
structure Current (s : State) : Prop where
  snapshot : ∀ n, ∀ job ∈ (s.nodes n).handler.fetched, ∀ r, s.table.find? job.id = some r →
    Snapshot s.now job r
  known : ∀ n, ∀ job ∈ (s.nodes n).handler.fetched, job.id < s.nextId
  fresh : ∀ j r, s.table.find? j = some r → j < s.nextId

lemma Current.snapshot_rowAfter (hI : Current s) (hC : KeepsFetched cl s e) {job : WorkshopJob}
    {r : JobRow} (hjob : job ∈ (s.nodes n).handler.fetched) (hr : s.table.find? job.id = some r) :
    Snapshot s.now job (rowAfter cl s e r) := by
  have hsnap := hI.snapshot n job hjob r hr
  obtain hsame | ⟨st, hst, hcond, hset⟩ := rowAfter_cases cl s e r
  · rwa [hsame]
  · rw [hset]
    refine hsnap.set hcond ?_
    by_contra hdisturbs
    have hn : disturbsFetched cl n (s, e) = true := by
      simp only [disturbsFetched, Option.any_eq_true, List.any_eq_true, Bool.and_eq_true]
      exact ⟨st, hst, job, hjob, r, hr, hcond, by simpa using hdisturbs⟩
    exact absurd (hC n) (by simp [hn])

lemma Current.step (hI : Current s) (hC : KeepsFetched cl s e) (h : Jobs.step cl s e = some t) :
    Current t where
  snapshot := by
    intro n job hjob r' hr'
    refine Snapshot.mono ?_ (now_le_of_step h)
    obtain ⟨hold, r, hr, rfl⟩ | ⟨heligible, rfl⟩ := fetched_row_step hI.fresh hI.known h hjob hr'
    · exact hI.snapshot_rowAfter hC hold hr
    · exact snapshot_of_eligible heligible
  known := fun _ _ hjob => known_step hI.fresh hI.known h hjob
  fresh := fun _ _ hr => fresh_step hI.fresh h hr

/-- What is current is eligible when the claim finds it free and enabled. -/
lemma Current.claims (hI : Current s) : ClaimsCurrent cl s e := by
  rintro n ev job rfl hstarts
  have hfetched := fetched_of_starts hstarts
  obtain ⟨_, _, plan, pass, timeout, _, _, haff⟩ := hstarts
  obtain ⟨r, hr, hcond⟩ :=
    (Table.affected_pos_of_key fun r hcond => (claimJob_cond.mp hcond).1).mp haff
  obtain ⟨_, hfree, henabled⟩ := claimJob_cond.mp hcond
  have hsnap := hI.snapshot n job hfetched r hr
  have hundone := hsnap.undone hfree
  exact ⟨r, hr, isEligible_iff.mpr ⟨hfree, hundone, hsnap.status hundone, hsnap.due, henabled⟩,
    hsnap.data.symm⟩

/-- **Claims are made on current data**, in any run from idle nodes in which no statement disturbs
the row of a job while a node has fetched it. -/
theorem claim_current (cl : JobCluster) {s t : State} {tr : List (State × Event)}
    (hrun : Run (step cl) s tr t) (hstart : ∀ n, (s.nodes n).handler = .idle)
    (hfresh : ∀ j r, s.table.find? j = some r → j < s.nextId)
    (hkeep : ∀ p ∈ tr, KeepsFetched cl p.1 p.2) : ∀ p ∈ tr, ClaimsCurrent cl p.1 p.2 := by
  have hnone : ∀ n, (s.nodes n).handler.fetched = [] := by
    intro n
    rw [hstart n]
    rfl
  have hI : Current s := ⟨by simp [hnone], by simp [hnone], hfresh⟩
  obtain ⟨_, htr⟩ := hrun.invariant (C := fun s e => KeepsFetched cl s e)
    (fun s e t hI hC h => hI.step hC h) hI hkeep
  exact fun p hp => (htr p hp).claims

/-! ## An edit between fetch and claim -/

/-- A node connects and goes up to the claim of the first job. -/
def fetchFirst (n : String) : List Event :=
  (claimFirst n).take 7

/-- The node `a` has fetched the job when a client changes its arguments. -/
def editedLate : List Event :=
  [oneJob] ++ fetchFirst "a" ++ [.edit 1 { args := some (some ["late"]) }]

/-- **An operator can be started with old arguments.** -/
theorem claim_not_current :
    ¬ ∀ (cl : JobCluster) (s t : State) (tr : List (State × Event)), Run (step cl) s tr t →
        (∀ n, (s.nodes n).handler = .idle) →
        (∀ j r, s.table.find? j = some r → j < s.nextId) → ∀ p ∈ tr, ClaimsCurrent cl p.1 p.2 := by
  intro h
  let job : WorkshopJob := { id := 1, planName := "p", args := [], env := [], stdin := none }
  let plan : Plan := { args := ["/bin/true"], timeout := "10 minutes" }
  let claim : Event := .node "a" .resume
  have hlast : ((final (step smallCluster) noJobs editedLate).bind fun s =>
      (step smallCluster s claim).map fun _ =>
        ((s.nodes "a").handler, (s.nodes "a").ready, (s.table.find? 1).bind JobRow.args,
          s.table.affected (claimJob "a" 1 (10 * minute) s.now))) =
      some (.claim job plan {}, true, some ["late"], 1) := by
    decide +kernel
  obtain ⟨s, hs, hlast⟩ := Option.bind_eq_some_iff.mp hlast
  obtain ⟨t, ht, hlast⟩ := Option.map_eq_some_iff.mp hlast
  obtain ⟨hhandler, hlast⟩ := Prod.mk.inj hlast
  obtain ⟨hready, hlast⟩ := Prod.mk.inj hlast
  obtain ⟨hargs, haff⟩ := Prod.mk.inj hlast
  have hrun := (Run.of_final hs).append (.cons ht (.nil t))
  have hstarts : (s.nodes "a").Starts smallCluster "a" s.table s.now .resume job :=
    ⟨rfl, hready, plan, {}, 10 * minute, hhandler, rfl, by simp [job, haff]⟩
  obtain ⟨r, hr, _, hjob⟩ := h smallCluster noJobs t _ hrun (fun _ => rfl)
    (by simp [noJobs, Table.find?, Table.empty]) (s, claim) (by simp) "a" .resume job rfl hstarts
  have hold : r.args.getD [] = [] := (congrArg (fun data => data.2.1) hjob).symm
  have hr : s.table.find? 1 = some r := hr
  rw [hr, Option.bind_some] at hargs
  rw [hargs] at hold
  exact absurd hold (by simp)

/-- Whether fetched rows are disturbed is a question about the nodes that do something. -/
lemma keepsFetched_of_actsOnly (names : List String) {tr : List (State × Event)}
    (hrun : Run (step cl) s tr t) (hstart : ∀ n, (s.nodes n).handler = .idle)
    (honly : ∀ p ∈ tr, actsOnly names p.2 = true)
    (hkeep : ∀ p ∈ tr, ∀ n ∈ names, disturbsFetched cl n p = false) :
    ∀ p ∈ tr, KeepsFetched cl p.1 p.2 := by
  intro p hp n
  by_cases hn : n ∈ names
  · exact hkeep p hp n hn
  · have hidle : (p.1.nodes n).handler = .idle := by
      rw [nodes_of_actsOnly hrun honly hn p hp]
      exact hstart n
    simp [disturbsFetched, hidle, Handler.fetched]

/-- Both nodes fetch the job; `a` claims it and gives it back, and then `b` claims it. -/
def givenBack : List Event :=
  [oneJob] ++ fetchFirst "a" ++ fetchFirst "b" ++ List.replicate 4 (.node "a" .resume) ++
    [.node "a" (.again 0 0), .node "a" (.childExit 0 0 none none), .node "a" .resume,
      .node "a" .resume, .node "b" .resume]

theorem claim_current_givenBack :
    (final (step smallCluster) noJobs givenBack).map
      (fun t => (t.nodes "b").jobs.map WorkshopJob.id) =
        some [1] ∧
      ∀ p ∈ traceOf (step smallCluster) noJobs givenBack, ClaimsCurrent smallCluster p.1 p.2 := by
  have hsome : (final (step smallCluster) noJobs givenBack).isSome = true := by decide +kernel
  obtain ⟨t, ht⟩ := Option.isSome_iff_exists.mp hsome
  have hrun := Run.of_final ht
  refine ⟨by decide +kernel, ?_⟩
  exact claim_current smallCluster hrun (fun _ => rfl) (by simp [noJobs, Table.find?, Table.empty])
    (keepsFetched_of_actsOnly ["a", "b"] hrun (fun _ => rfl) (by decide +kernel)
      (by decide +kernel))

end Workshop.Jobs

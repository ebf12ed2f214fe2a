import Mathlib.Data.Finset.Insert
import Workshop.Jobs.System

/-!
# Who owns a job

A node that has claimed a job puts its name into `node_name` and starts an operator; until
`time_done` is set, the row belongs to it.  The statements of an operator (`set_job_progress`,
`set_env`, `set_job_done`, `add_cpu_usage`, `rollback_job`, `again_job`) name only the id of the
job, so what protects a row from the operators of other nodes is that there are none.

* `owner_only`: nobody but the owner changes a row, as long as no node claims a job for which
  another node still has an operator.  After a lease has expired, that can happen.
* `mutual_exclusion`: while no lease expires, at most one node has an operator for a job, it has
  only one, and a job that is done is never started again.
-/

namespace Workshop.Jobs

open Workshop.Lib

variable {cl : JobCluster} {s t : State} {e : Event} {j : ℕ} {n : String}

/-- The node `n` has an operator for the job `j`. -/
def Holds (s : State) (n : String) (j : ℕ) : Prop := ∃ job ∈ (s.nodes n).jobs, job.id = j

instance (s : State) (n : String) (j : ℕ) : Decidable (Holds s n j) :=
  inferInstanceAs (Decidable (∃ job ∈ (s.nodes n).jobs, job.id = j))

lemma holds_of_operator {i : ℕ} {o : WorkshopOperator} (ho : (s.nodes n).operators[i]? = some o) :
    Holds s n o.job.id :=
  ⟨o.job, List.mem_map_of_mem (List.mem_of_getElem? ho), rfl⟩

/-! ## What the statements do to the owner -/

/-- The statements that take a job from its node. -/
def Statement.releases : Statement → Bool
  | .releaseJobs _ | .expireJobs _ _ | .rollbackJob _ | .againJob _ _ _ _ => true
  | _ => false

/-- A row gets an owner by a claim, loses it by a release, and keeps it otherwise. -/
lemma Statement.set_nodeName {st : Statement} {r : JobRow} (hcond : st.update.cond r = true) :
    (∃ n id timeout now, st = .claimJob n id timeout now ∧ r.id = id ∧ r.nodeName = none ∧
        (st.update.set r).nodeName = some n) ∨
      (st.releases = true ∧ r.timeDone = none ∧ (st.update.set r).nodeName = none) ∨
      (st.update.set r).nodeName = r.nodeName := by
  cases st with
  | claimJob n id timeout now =>
      obtain ⟨hid, hfree, _⟩ := claimJob_cond.mp hcond
      exact .inl ⟨n, id, timeout, now, rfl, hid, hfree, rfl⟩
  | releaseJobs node => exact .inr (.inl ⟨rfl, (releaseJobs_cond.mp hcond).2.1, rfl⟩)
  | expireJobs node now => exact .inr (.inl ⟨rfl, (expireJobs_cond.mp hcond).1, rfl⟩)
  | rollbackJob id => exact .inr (.inl ⟨rfl, (rollbackJob_cond.mp hcond).2.2, rfl⟩)
  | againJob id delay log now => exact .inr (.inl ⟨rfl, (againJob_cond.mp hcond).2.2, rfl⟩)
  | setJobProgress | setEnv | setJobDone | addCpuUsage | editJob => exact .inr (.inr rfl)

/-- Only `set_job_done` completes a job, and nothing makes it incomplete again. -/
lemma Statement.set_timeDone {st : Statement} {r : JobRow} (hcond : st.update.cond r = true) :
    (∃ id status log now, st = .setJobDone id status log now ∧ r.id = id) ∨
      (st.update.set r).timeDone = r.timeDone := by
  cases st with
  | setJobDone id status log now =>
      exact .inl ⟨id, status, log, now, rfl, setJobDone_cond.mp hcond⟩
  | _ => exact .inr rfl

lemma timeDone_of_rowAfter {r : JobRow} (h : (rowAfter cl s e r).timeDone = none) :
    r.timeDone = none := by
  obtain hsame | ⟨st, _, hcond, hset⟩ := rowAfter_cases cl s e r
  · rwa [hsame] at h
  · rw [hset] at h
    obtain ⟨id, status, log, now, rfl, _⟩ | hkeep := Statement.set_timeDone hcond
    · exact absurd h (Option.some_ne_none _)
    · rwa [hkeep] at h

lemma not_deletes {r : JobRow} (hname : r.nodeName = some n) (hdone : r.timeDone = none) :
    e.deletes s r = false := by
  unfold Event.deletes
  split
  · simp [isDeletable, hname, hdone]
  · simp [isReaped, hdone]
  · rfl

/-- A statement names the job of an operator of its node, or is one of the four that do not come
from an operator. -/
lemma holds_of_executes {ev : NodeEvent} {st : Statement} {r : JobRow}
    (h : Executes cl n s.now (s.nodes n) ev st) (hcond : st.update.cond r = true) :
    Holds s n r.id ∨ st = .releaseJobs n ∨ st = .expireJobs n s.now ∨
      ∃ id timeout, st = .claimJob n id timeout s.now := by
  cases h with
  | releaseJobs _ => exact .inr (.inl rfl)
  | expireJobs _ => exact .inr (.inr (.inl rfl))
  | claimJob _ _ _ => exact .inr (.inr (.inr ⟨_, _, rfl⟩))
  | setJobProgress _ ho _ _ => exact .inl (setJobProgress_cond.mp hcond ▸ holds_of_operator ho)
  | setEnv ho => exact .inl (setEnv_cond.mp hcond ▸ holds_of_operator ho)
  | setJobDone _ ho => exact .inl (setJobDone_cond.mp hcond ▸ holds_of_operator ho)
  | addCpuUsage ho => exact .inl (addCpuUsage_cond.mp hcond ▸ holds_of_operator ho)
  | rollbackJob _ ho => exact .inl ((rollbackJob_cond.mp hcond).1 ▸ holds_of_operator ho)
  | againJob _ ho => exact .inl ((againJob_cond.mp hcond).1 ▸ holds_of_operator ho)

/-! ## Starting an operator -/

/-- **What starting an operator takes**: the row of the job is free, and gets the node's name. -/
lemma row_of_starts {ev : NodeEvent} {job : WorkshopJob} (h : step cl s (.node n ev) = some t)
    (hstarts : (s.nodes n).Starts cl n s.table s.now ev job) :
    ∃ timeout r, Event.statement cl s (.node n ev) = some (.claimJob n job.id timeout s.now) ∧
      s.table.find? job.id = some r ∧ r.nodeName = none ∧ r.enabled = true ∧
      t.table.find? job.id = some ((claimJob n job.id timeout s.now).set r) := by
  obtain ⟨_, timeout, _, hst, haff, _⟩ := JobNode.starts_spec hstarts (step_self h)
  have hst : Event.statement cl s (.node n ev) = some (.claimJob n job.id timeout s.now) := hst
  obtain ⟨r, hr, hcond⟩ :=
    (Table.affected_pos_of_key fun r hcond => (claimJob_cond.mp hcond).1).mp haff
  obtain ⟨_, hfree, henabled⟩ := claimJob_cond.mp hcond
  have hafter : rowAfter cl s (.node n ev) r = (claimJob n job.id timeout s.now).set r :=
    rowAfter_of_statement hst hcond
  have hdel : Event.deletes s (.node n ev) r = false := by rw [hstarts.1]; rfl
  have hfind := step_find? h hr hdel
  rw [hafter] at hfind
  exact ⟨timeout, r, hst, hr, hfree, henabled, hfind⟩

lemma fetched_of_starts {ev : NodeEvent} {job : WorkshopJob}
    (h : (s.nodes n).Starts cl n s.table s.now ev job) : job ∈ (s.nodes n).handler.fetched := by
  obtain ⟨_, _, _, _, _, hhandler, _⟩ := h
  rw [hhandler]
  exact List.mem_cons_self ..

lemma holds_step (h : step cl s e = some t) (hholds : Holds t n j) :
    Holds s n j ∨ ∃ ev job, e = .node n ev ∧ job.id = j ∧
      (s.nodes n).Starts cl n s.table s.now ev job := by
  obtain ⟨job, hjob, hid⟩ := hholds
  obtain ⟨ev, rfl, hnode⟩ | ⟨_, hnode⟩ := step_node_cases h n
  · obtain ⟨i, _, hjobs⟩ | ⟨job', hstarts, hjobs⟩ | ⟨_, hjobs⟩ := JobNode.step_jobs hnode
    · rw [hjobs] at hjob
      exact .inl ⟨job, List.mem_of_mem_eraseIdx hjob, hid⟩
    · rw [hjobs] at hjob
      rcases List.mem_append.mp hjob with hold | hnew
      · exact .inl ⟨job, hold, hid⟩
      · obtain rfl := List.mem_singleton.mp hnew
        exact .inr ⟨ev, job, rfl, hid, hstarts⟩
    · rw [hjobs] at hjob
      exact .inl ⟨job, hjob, hid⟩
  · rw [hnode] at hjob
    exact .inl ⟨job, hjob, hid⟩

/-! ## Only the owner changes a job -/

/-- **Only the owner changes a job.**  A row with a node's name that is not done stays as it is in
every step that is not one of that node, unless its lease has passed and `expire_jobs` releases
it. -/
def OwnerOnly (cl : JobCluster) (s : State) (e : Event) : Prop :=
  ∀ t, step cl s e = some t → ∀ j r owner, s.table.find? j = some r → r.nodeName = some owner →
    r.timeDone = none → (∀ ev, e ≠ .node owner ev) →
      t.table.find? j = some r ∨
        ((∃ a, e = .node a .timer) ∧ (∃ timeout, r.nodeTimeout = some timeout ∧ timeout < s.now) ∧
          t.table.find? j = some (release r))

/-- The step claims a job for which another node, `m`, still has an operator. -/
def claimsFrom (cl : JobCluster) (m : String) (p : State × Event) : Bool :=
  (p.2.statement cl p.1).any fun st =>
    match st with
    | .claimJob n id timeout now =>
      m ≠ n && Holds p.1 m id && 0 < p.1.table.affected (claimJob n id timeout now)
    | _ => false

/-- No node claims a job for which another node still has an operator. -/
def NoStaleClaim (cl : JobCluster) (s : State) (e : Event) : Prop :=
  ∀ m, claimsFrom cl m (s, e) = false

lemma NoStaleClaim.unique (h : NoStaleClaim cl s e) {m : String} {id : ℕ} {timeout now : ℤ}
    (hst : e.statement cl s = some (.claimJob n id timeout now))
    (haff : 0 < s.table.affected (claimJob n id timeout now)) (hholds : Holds s m id) : m = n := by
  have hm := h m
  simp only [claimsFrom, hst, Option.any_some, haff, hholds, decide_true, Bool.and_true] at hm
  simpa using hm

/-- A job that an operator works on has no other owner. -/
def Entitled (s : State) : Prop :=
  ∀ n j, Holds s n j → ∀ r owner, s.table.find? j = some r → r.nodeName = some owner →
    r.timeDone = none → owner = n

lemma entitled_step (hI : Entitled s) (hC : NoStaleClaim cl s e) (h : step cl s e = some t) :
    Entitled t := by
  intro n j hholds r' owner hr' hname hdone
  obtain hold | ⟨ev, job, rfl, rfl, hstarts⟩ := holds_step h hholds
  · obtain ⟨r, hr, _, rfl⟩ | ⟨_, _, _, _, rfl⟩ := find?_step h hr'
    · have hundone : r.timeDone = none := timeDone_of_rowAfter hdone
      obtain hsame | ⟨st, hst, hcond, hset⟩ := rowAfter_cases cl s e r
      · rw [hsame] at hname
        exact hI n j hold r owner hr hname hundone
      · rw [hset] at hname
        obtain ⟨m, id, timeout, now, rfl, hid, _, hclaim⟩ | ⟨_, _, hnone⟩ | hkeep :=
          Statement.set_nodeName hcond
        · -- a new owner: nobody else has an operator
          rw [hclaim] at hname
          obtain rfl := Option.some.inj hname
          have hj : id = j := hid.symm.trans (Table.key_of_find? hr)
          have haff : 0 < s.table.affected (claimJob m id timeout now) :=
            Table.affected_pos.mpr ⟨r, (Table.find?_eq_some.mp hr).1, hcond⟩
          exact (hC.unique hst haff (hj ▸ hold)).symm
        · rw [hnone] at hname
          exact absurd hname (by simp)
        · rw [hkeep] at hname
          exact hI n j hold r owner hr hname hundone
    · exact absurd hname (by simp [NewJob.row])
  · obtain ⟨timeout, r, _, _, _, _, hfind⟩ := row_of_starts h hstarts
    rw [hr'] at hfind
    obtain rfl := Option.some.inj hfind
    exact (Option.some.inj hname).symm

lemma ownerOnly_of_entitled (hI : Entitled s) : OwnerOnly cl s e := by
  intro t h j r owner hr hname hdone hother
  have hfind := step_find? h hr (not_deletes hname hdone)
  obtain hsame | ⟨st, hst, hcond, hset⟩ := rowAfter_cases cl s e r
  · rw [hsame] at hfind
    exact .inl hfind
  · obtain ⟨id, ed, rfl, rfl⟩ | ⟨a, ev, rfl, hexec⟩ := statement_cases hst
    · have hfree := (editJob_cond.mp hcond).2
      exact absurd (hname.symm.trans hfree) (by simp)
    · have hne : owner ≠ a := fun heq => hother ev (by rw [heq])
      obtain hholds | rfl | rfl | ⟨id, timeout, rfl⟩ := holds_of_executes hexec hcond
      · rw [Table.key_of_find? hr] at hholds
        exact absurd (hI a j hholds r owner hr hname hdone) hne
      · have hmine := (releaseJobs_cond.mp hcond).1
        exact absurd (Option.some.inj (hname.symm.trans hmine)) hne
      · obtain ⟨_, _, _, _, timeout, htimeout, hlt⟩ := expireJobs_cond.mp hcond
        cases hexec with
        | expireJobs hev =>
            rw [hset] at hfind
            exact .inr ⟨⟨a, by rw [hev]⟩, ⟨timeout, htimeout, hlt⟩, hfind⟩
      · have hfree := (claimJob_cond.mp hcond).2.1
        exact absurd (hname.symm.trans hfree) (by simp)

/-- **Only the owner changes a job**, in any run from nodes that run nothing in which no node
claims a job for which another node still has an operator. -/
theorem owner_only (cl : JobCluster) {s t : State} {tr : List (State × Event)}
    (hrun : Run (step cl) s tr t) (hstart : ∀ n, (s.nodes n).operators = [])
    (hclaim : ∀ p ∈ tr, NoStaleClaim cl p.1 p.2) : ∀ p ∈ tr, OwnerOnly cl p.1 p.2 := by
  have hI : Entitled s := by
    rintro n j ⟨job, hjob, _⟩
    rw [JobNode.jobs, hstart n] at hjob
    exact absurd hjob (by simp)
  obtain ⟨_, htr⟩ := hrun.invariant (C := fun s e => NoStaleClaim cl s e)
    (fun s e t hI hC h => entitled_step hI hC h) hI hclaim
  exact fun p hp => ownerOnly_of_entitled (htr p hp)

/-! ## A job that is taken from its node -/

/-- Only the nodes with these names do something. -/
def actsOnly (names : List String) : Event → Bool
  | .node n _ => n ∈ names
  | _ => true

lemma nodes_of_actsOnly {names : List String} {tr : List (State × Event)}
    (hrun : Run (step cl) s tr t) (honly : ∀ p ∈ tr, actsOnly names p.2 = true) {m : String}
    (hm : m ∉ names) : ∀ p ∈ tr, p.1.nodes m = s.nodes m := by
  refine (hrun.invariant (I := fun u => u.nodes m = s.nodes m)
    (C := fun _ e => actsOnly names e = true) ?_ rfl honly).2
  intro u e u' hu hC h
  have hother : ∀ ev, e ≠ .node m ev := by
    rintro ev rfl
    exact hm (by simpa [actsOnly] using hC)
  rw [step_other h hother, hu]

/-- Whether no job is claimed from another node is a question about the nodes that do something. -/
lemma noStaleClaim_of_actsOnly (names : List String) {tr : List (State × Event)}
    (hrun : Run (step cl) s tr t) (hstart : ∀ n, (s.nodes n).operators = [])
    (honly : ∀ p ∈ tr, actsOnly names p.2 = true)
    (hclaim : ∀ p ∈ tr, ∀ m ∈ names, claimsFrom cl m p = false) :
    ∀ p ∈ tr, NoStaleClaim cl p.1 p.2 := by
  intro p hp m
  by_cases hm : m ∈ names
  · exact hclaim p hp m hm
  · have hnone : ∀ j, ¬ Holds p.1 m j := by
      rintro j ⟨job, hjob, _⟩
      rw [nodes_of_actsOnly hrun honly hm p hp, JobNode.jobs, hstart m] at hjob
      exact absurd hjob (by simp)
    simp only [claimsFrom]
    rcases p.2.statement cl p.1 with _ | st
    · rfl
    · cases st <;> simp [hnone]

/-- A cluster with one plan, whose jobs have ten minutes. -/
def smallCluster : JobCluster where
  interval text := if text = "10 minutes" then some (10 * minute) else none
  visitAvailable _ _ := {"p"}
  getPlan _ _ planName :=
    if planName = "p" then some { args := ["/bin/true"], timeout := "10 minutes" } else none
  concurrency _ := 2

/-- No jobs, and no node that is connected. -/
def noJobs : State where
  table := .empty
  now := 0
  nextId := 1
  nodes _ := {}

/-- A client creates the job `1`. -/
def oneJob : Event := .insert { planName := "p" }

/-- A node goes through the jobs. -/
def goThrough (n : String) : List Event :=
  .node n .timer :: List.replicate 7 (.node n .resume)

/-- A node connects and goes through the jobs. -/
def claimFirst (n : String) : List Event :=
  [.node n .connect, .node n (.setStateEnabled true), .node n (.updateFilter false)] ++ goThrough n

/-- The node `b` claims the job of `a` after eleven minutes. -/
def claimedTwice : List Event :=
  [oneJob] ++ claimFirst "a" ++ [.tick 660000000] ++ claimFirst "b"

/-- **An operator can change the row of another node**: `a` reports progress. -/
theorem owner_not_only :
    ¬ ∀ (cl : JobCluster) (s t : State) (tr : List (State × Event)), Run (step cl) s tr t →
        (∀ n, (s.nodes n).operators = []) → ∀ p ∈ tr, OwnerOnly cl p.1 p.2 := by
  intro h
  let row : JobRow :=
    { id := 1, timeCreated := 0, planName := "p", nodeName := some "b",
      nodeTimeout := some (21 * minute), timeStarted := some (11 * minute) }
  have hrows : ((final (step smallCluster) noJobs claimedTwice).bind fun s =>
      (step smallCluster s (.node "a" (.progress 0 50))).map fun t =>
        (s.table.find? 1, t.table.find? 1)) =
      some (some row, some { row with progress := 50 }) := by
    decide +kernel
  obtain ⟨s, hs, hrows⟩ := Option.bind_eq_some_iff.mp hrows
  obtain ⟨t, ht, hrows⟩ := Option.map_eq_some_iff.mp hrows
  obtain ⟨hbefore, hafter⟩ := Prod.mk.inj hrows
  have hrun := (Run.of_final hs).append (.cons ht (.nil t))
  obtain hsame | ⟨⟨a, htimer⟩, _⟩ := h smallCluster noJobs t _ hrun (fun _ => rfl)
    (s, .node "a" (.progress 0 50)) (by simp) t ht 1 row "b" hbefore rfl rfl (by simp)
  · exact absurd (hsame.symm.trans hafter) (by decide +kernel)
  · exact absurd htimer (by simp)

/-- The node `a` loses its connection and its operator; after eleven minutes `b` takes over. -/
def takenOver : List Event :=
  [oneJob] ++ claimFirst "a" ++ [.node "a" .disconnect, .node "a" (.cancel 0), .tick 660000000] ++
    claimFirst "b" ++ [.node "b" (.progress 0 50)]

theorem owner_only_takenOver :
    (final (step smallCluster) noJobs takenOver).map
        (fun t => ((t.nodes "b").jobs.map WorkshopJob.id, (t.table.find? 1).map JobRow.progress)) =
        some ([1], some 50) ∧
      ∀ p ∈ traceOf (step smallCluster) noJobs takenOver, OwnerOnly smallCluster p.1 p.2 := by
  have hsome : (final (step smallCluster) noJobs takenOver).isSome = true := by decide +kernel
  obtain ⟨t, ht⟩ := Option.isSome_iff_exists.mp hsome
  have hrun := Run.of_final ht
  refine ⟨by decide +kernel, owner_only smallCluster hrun (fun _ => rfl) ?_⟩
  exact noStaleClaim_of_actsOnly ["a", "b"] hrun (fun _ => rfl) (by decide +kernel)
    (by decide +kernel)

/-! ## Mutual exclusion -/

/-- The step expires a job. -/
def expires (cl : JobCluster) (p : State × Event) : Bool :=
  (p.2.statement cl p.1).any fun st =>
    match st with
    | .expireJobs n now => 0 < p.1.table.affected (expireJobs n now)
    | _ => false

/-- A node that has operators connects again. -/
def reconnects (p : State × Event) : Bool :=
  match p.2 with
  | .node n .connect => (p.1.nodes n).operators ≠ []
  | _ => false

/-- **The invariant of undisturbed runs.**  Operators own their rows, and no node has two for one
job; a fetched job that is not assigned is not done; ids are not used again. -/
structure Owned (s : State) : Prop where
  own : ∀ n j, Holds s n j → ∃ r, s.table.find? j = some r ∧ r.nodeName = some n ∧ r.timeDone = none
  nodup : ∀ n, ((s.nodes n).jobs.map WorkshopJob.id).Nodup
  free : ∀ n, ∀ job ∈ (s.nodes n).handler.fetched, ∀ r, s.table.find? job.id = some r →
    r.nodeName = none → r.timeDone = none
  fresh : ∀ j r, s.table.find? j = some r → j < s.nextId

lemma Owned.unique (hI : Owned s) {m : String} (hn : Holds s n j) (hm : Holds s m j) : m = n := by
  obtain ⟨r, hr, hname, _⟩ := hI.own n j hn
  obtain ⟨r', hr', hname', _⟩ := hI.own m j hm
  rw [hr] at hr'
  obtain rfl := Option.some.inj hr'
  exact Option.some.inj (hname'.symm.trans hname)

/-- The step ends the operator of the node `n` for the job `j`. -/
def Ends (s : State) (e : Event) (n : String) (j : ℕ) : Prop :=
  ∃ ev i o, e = .node n ev ∧ (s.nodes n).concludes ev = some i ∧
    (s.nodes n).operators[i]? = some o ∧ o.job.id = j

/-- A statement that completes or releases a job ends its operator, or releases jobs in bulk. -/
lemma ends_of_executes {ev : NodeEvent} {st : Statement} {r : JobRow}
    (h : Executes cl n s.now (s.nodes n) ev st) (hcond : st.update.cond r = true)
    (hst : st.releases = true ∨ ∃ id status log now, st = .setJobDone id status log now) :
    Ends s (.node n ev) n r.id ∨ (ev = .connect ∧ st = .releaseJobs n) ∨
      st = .expireJobs n s.now := by
  cases h with
  | releaseJobs hev => exact .inr (.inl ⟨hev, rfl⟩)
  | expireJobs _ => exact .inr (.inr rfl)
  | setJobDone hc ho => exact .inl ⟨ev, _, _, rfl, hc, ho, (setJobDone_cond.mp hcond).symm⟩
  | rollbackJob hc ho => exact .inl ⟨ev, _, _, rfl, hc, ho, (rollbackJob_cond.mp hcond).1.symm⟩
  | againJob hc ho => exact .inl ⟨ev, _, _, rfl, hc, ho, (againJob_cond.mp hcond).1.symm⟩
  | _ =>
      obtain hst | ⟨_, _, _, _, hst⟩ := hst
      · exact absurd hst (by simp [Statement.releases])
      · exact absurd hst (by simp)

lemma holds_of_ends {m : String} (h : Ends s e m j) : Holds s m j := by
  obtain ⟨_, _, _, _, _, ho, rfl⟩ := h
  exact holds_of_operator ho

/-- An operator that ends was the only one of its node for the job. -/
lemma Owned.not_holds_of_ends (hI : Owned s) (h : step cl s e = some t) (hends : Ends s e n j) :
    ¬ Holds t n j := by
  obtain ⟨ev, i, o, rfl, hconcludes, ho, hid⟩ := hends
  rintro ⟨job, hjob, hjobid⟩
  obtain ⟨i', hi', hjobs⟩ | ⟨_, ⟨rfl, _, _, _, _, hhandler, _⟩, _⟩ | ⟨hnone, _⟩ :=
    JobNode.step_jobs (step_self h)
  · obtain rfl := Option.some.inj (hconcludes.symm.trans hi')
    rw [hjobs] at hjob
    obtain ⟨k, hk, hjob⟩ := List.mem_eraseIdx_iff_getElem?.mp hjob
    -- two positions with the same id
    have hkid : ((s.nodes n).jobs.map WorkshopJob.id)[k]? = some j := by
      rw [List.getElem?_map, hjob, Option.map_some, hjobid]
    have hiid : ((s.nodes n).jobs.map WorkshopJob.id)[i]? = some j := by
      rw [JobNode.jobs, List.getElem?_map, List.getElem?_map, ho, Option.map_some, Option.map_some,
        hid]
    have hlt := (List.getElem?_eq_some_iff.mp hkid).1
    exact hk ((List.getElem?_inj hlt (hI.nodup n)).mp (hkid.trans hiid.symm))
  · exact absurd hconcludes (by simp [JobNode.concludes, hhandler])
  · exact absurd (hconcludes.symm.trans hnone) (by simp)

/-- No `expire_jobs` of the step releases a job for which a node has an operator. -/
def Spares (cl : JobCluster) (s : State) (e : Event) : Prop :=
  ∀ m, e.statement cl s = some (.expireJobs m s.now) → ∀ n j, Holds s n j →
    ∀ r, s.table.find? j = some r → (expireJobs m s.now).cond r = false

lemma spares_of_expires (h : expires cl (s, e) = false) : Spares cl s e := by
  intro m hst n j _ r hr
  by_contra hcond
  have haff : 0 < s.table.affected (expireJobs m s.now) :=
    Table.affected_pos.mpr ⟨r, (Table.find?_eq_some.mp hr).1, by simpa using hcond⟩
  exact absurd h (by simp [expires, hst, haff])

/-- **An operator keeps its row** for as long as it does not end. -/
lemma Owned.row_kept (hI : Owned s) (hspares : Spares cl s e)
    (hconnect : reconnects (s, e) = false) (h : step cl s e = some t) (hholds : Holds s n j)
    (hends : ¬ Ends s e n j) :
    ∃ r, t.table.find? j = some r ∧ r.nodeName = some n ∧ r.timeDone = none := by
  obtain ⟨r, hr, hname, hdone⟩ := hI.own n j hholds
  have hfind := step_find? h hr (not_deletes hname hdone)
  refine ⟨_, hfind, ?_⟩
  obtain hsame | ⟨st, hst, hcond, hset⟩ := rowAfter_cases cl s e r
  · rw [hsame]
    exact ⟨hname, hdone⟩
  · -- neither a release nor a completion, whoever executes the statement
    have hquiet :
        ¬ (st.releases = true ∨ ∃ id status log now, st = .setJobDone id status log now) := by
      intro hkind
      obtain ⟨_, _, _, rfl⟩ | ⟨m, ev, rfl, hexec⟩ := statement_cases hst
      · exact absurd hkind (by simp [Statement.releases])
      · obtain hm | ⟨rfl, rfl⟩ | rfl := ends_of_executes hexec hcond hkind
        · rw [Table.key_of_find? hr] at hm
          obtain rfl := hI.unique hholds (holds_of_ends hm)
          exact hends hm
        · obtain rfl := Option.some.inj (hname.symm.trans (releaseJobs_cond.mp hcond).1)
          obtain ⟨job, hjob, _⟩ := hholds
          have hempty : (s.nodes n).operators = [] := by simpa [reconnects] using hconnect
          rw [JobNode.jobs, hempty] at hjob
          exact absurd hjob (by simp)
        · exact absurd ((hspares m hst n j hholds r hr).symm.trans hcond) (by simp)
    rw [hset]
    constructor
    · obtain ⟨_, _, _, _, _, _, hfree, _⟩ | ⟨hreleases, _⟩ | hkeep := Statement.set_nodeName hcond
      · exact absurd (hname.symm.trans hfree) (by simp)
      · exact absurd (.inl hreleases) hquiet
      · rw [hkeep, hname]
    · obtain ⟨id, status, log, now, hdoneSt, _⟩ | hkeep := Statement.set_timeDone hcond
      · exact absurd (.inr ⟨id, status, log, now, hdoneSt⟩) hquiet
      · rw [hkeep, hdone]

lemma Owned.free_step (hI : Owned s) (h : step cl s e = some t)
    (hfree : ∀ r, s.table.find? j = some r → r.nodeName = none → r.timeDone = none) {r' : JobRow}
    (hr' : t.table.find? j = some r') (hname : r'.nodeName = none) : r'.timeDone = none := by
  obtain ⟨r, hr, _, rfl⟩ | ⟨_, _, _, _, rfl⟩ := find?_step h hr'
  · obtain hsame | ⟨st, hst, hcond, hset⟩ := rowAfter_cases cl s e r
    · rw [hsame] at hname ⊢
      exact hfree r hr hname
    · rw [hset] at hname ⊢
      obtain ⟨id, status, log, now, rfl, hid⟩ | hkeep := Statement.set_timeDone hcond
      · -- the operator that completes the job owns it
        obtain ⟨_, _, _, hst'⟩ | ⟨m, ev, rfl, hexec⟩ := statement_cases hst
        · exact absurd hst' (by simp)
        · obtain hholds | hst' | hst' | ⟨_, _, hst'⟩ := holds_of_executes hexec hcond
          · rw [Table.key_of_find? hr] at hholds
            obtain ⟨r₁, hr₁, hname₁, _⟩ := hI.own m j hholds
            obtain rfl := Option.some.inj (hr.symm.trans hr₁)
            exact absurd (hname₁.symm.trans hname) (by simp)
          · exact absurd hst' (by simp)
          · exact absurd hst' (by simp)
          · exact absurd hst' (by simp)
      · rw [hkeep]
        obtain ⟨_, _, _, _, _, _, hnone, _⟩ | ⟨_, hdone, _⟩ | hsame := Statement.set_nodeName hcond
        · exact hfree r hr hnone
        · exact hdone
        · exact hfree r hr (hsame.symm.trans hname)
  · rfl

/-- **The step lemma.** -/
lemma Owned.step_of_spares (hI : Owned s) (hspares : Spares cl s e)
    (hconnect : reconnects (s, e) = false) (h : Jobs.step cl s e = some t) : Owned t where
  own := by
    intro n j hholds
    obtain hold | ⟨ev, job, rfl, rfl, hstarts⟩ := holds_step h hholds
    · exact hI.row_kept hspares hconnect h hold fun hends => hI.not_holds_of_ends h hends hholds
    · obtain ⟨timeout, r, _, hr, hfree, _, hfind⟩ := row_of_starts h hstarts
      exact ⟨_, hfind, rfl, hI.free n job (fetched_of_starts hstarts) r hr hfree⟩
  nodup := by
    intro n
    obtain ⟨ev, rfl, hnode⟩ | ⟨_, hnode⟩ := step_node_cases h n
    · obtain ⟨i, _, hjobs⟩ | ⟨job, hstarts, hjobs⟩ | ⟨_, hjobs⟩ := JobNode.step_jobs hnode
      · rw [hjobs, ← List.eraseIdx_map]
        exact (hI.nodup n).eraseIdx i
      · obtain ⟨_, r, _, hr, hfree, _, _⟩ := row_of_starts h hstarts
        rw [hjobs, List.map_append, List.map_singleton, List.nodup_append]
        refine ⟨hI.nodup n, by simp, ?_⟩
        intro a ha b hb hab
        obtain rfl := List.mem_singleton.mp hb
        obtain ⟨job', hjob', rfl⟩ := List.mem_map.mp ha
        -- the new job has no owner, so the node does not have it already
        obtain ⟨r', hr', hname, _⟩ := hI.own n job.id ⟨job', hjob', hab⟩
        obtain rfl := Option.some.inj (hr.symm.trans hr')
        exact absurd (hname.symm.trans hfree) (by simp)
      · rw [hjobs]
        exact hI.nodup n
    · rw [hnode]
      exact hI.nodup n
  free := by
    intro n job hjob r hr hname
    refine hI.free_step h (fun r₀ hr₀ hname₀ => ?_) hr hname
    obtain hold | ⟨_, r₁, hr₁, heligible, _⟩ := fetched_step h hjob
    · exact hI.free n job hold r₀ hr₀ hname₀
    · obtain rfl := Option.some.inj (hr₀.symm.trans hr₁)
      exact (isEligible_iff.mp heligible).2.1
  fresh := fun _ _ hr => fresh_step hI.fresh h hr

lemma Owned.step (hI : Owned s) (hexpiry : expires cl (s, e) = false)
    (hconnect : reconnects (s, e) = false) (h : Jobs.step cl s e = some t) : Owned t :=
  hI.step_of_spares (spares_of_expires hexpiry) hconnect h

/-- The job was completed: its row is done and still has the name of a node, or is deleted. -/
def Finished (j : ℕ) (s : State) : Prop :=
  j < s.nextId ∧ ∀ r, s.table.find? j = some r → r.timeDone ≠ none ∧ r.nodeName ≠ none

lemma finished_step (hQ : Finished j s) (h : step cl s e = some t) : Finished j t := by
  refine ⟨Nat.lt_of_lt_of_le hQ.1 (nextId_le_of_step h), fun r' hr' => ?_⟩
  obtain ⟨r, hr, _, rfl⟩ | ⟨_, _, hj, _⟩ := find?_step h hr'
  · obtain ⟨hdone, hname⟩ := hQ.2 r hr
    refine ⟨fun hnone => hdone (timeDone_of_rowAfter hnone), ?_⟩
    obtain hsame | ⟨st, _, hcond, hset⟩ := rowAfter_cases cl s e r
    · rwa [hsame]
    · rw [hset]
      obtain ⟨_, _, _, _, _, _, hfree, _⟩ | ⟨_, hundone, _⟩ | hkeep := Statement.set_nodeName hcond
      · exact absurd hfree hname
      · exact absurd hundone hdone
      · rwa [hkeep]
  · exact absurd hQ.1 (by omega)

/-- The step executes `set_job_done` for the job `j`. -/
def completes (cl : JobCluster) (j : ℕ) (p : State × Event) : Bool :=
  (p.2.statement cl p.1).any fun st =>
    match st with
    | .setJobDone id _ _ _ => id == j
    | _ => false

lemma completes_iff : completes cl j (s, e) = true ↔
    ∃ status log now, e.statement cl s = some (.setJobDone j status log now) := by
  simp only [completes, Option.any_eq_true]
  constructor
  · rintro ⟨st, hst, hkind⟩
    split at hkind
    · rename_i id status log now
      obtain rfl : id = j := by simpa using hkind
      exact ⟨status, log, now, hst⟩
    · exact absurd hkind (by simp)
  · rintro ⟨status, log, now, hst⟩
    exact ⟨_, hst, by simp⟩

/-- The operator that completes a job owns it, so that the row keeps the name of its node. -/
lemma Owned.finished_of_completes (hI : Owned s) (hdone : completes cl j (s, e) = true)
    (h : Jobs.step cl s e = some t) : Finished j t := by
  obtain ⟨status, log, now, hst⟩ := completes_iff.mp hdone
  obtain ⟨_, _, _, hst'⟩ | ⟨n, ev, rfl, hexec⟩ := statement_cases hst
  · exact absurd hst' (by simp)
  · cases hexec with
    | setJobDone hconcludes ho =>
        obtain ⟨r, hr, hname, hundone⟩ := hI.own n _ (holds_of_operator ho)
        refine ⟨Nat.lt_of_lt_of_le (hI.fresh _ r hr) (nextId_le_of_step h), fun r' hr' => ?_⟩
        have hcond : (Jobs.setJobDone _ status log s.now).cond r = true :=
          setJobDone_cond.mpr (Table.key_of_find? hr)
        have hfind := step_find? h hr (not_deletes hname hundone)
        rw [hr'] at hfind
        obtain rfl := Option.some.inj hfind
        rw [rowAfter_of_statement hst hcond]
        exact ⟨Option.some_ne_none _, by simp [Statement.update, Jobs.setJobDone, hname]⟩

/-- **Mutual exclusion**: at most one node has an operator for a job, it has only one, and the row
of the job has its name and is not done. -/
structure Exclusive (s : State) : Prop where
  oneNode : ∀ j n m, Holds s n j → Holds s m j → n = m
  oneOperator : ∀ j n, (s.nodes n).jobs.countP (fun job => job.id = j) ≤ 1
  owner : ∀ j n, Holds s n j →
    ∃ r, s.table.find? j = some r ∧ r.nodeName = some n ∧ r.timeDone = none

lemma Owned.exclusive (hI : Owned s) : Exclusive s where
  oneNode := fun _ _ _ hn hm => hI.unique hm hn
  oneOperator := by
    intro j n
    have hcount := List.nodup_iff_count_le_one.mp (hI.nodup n) j
    rwa [List.count, List.countP_map] at hcount
  owner := fun j n h => hI.own n j h

/-- **Mutual exclusion**, in any run from idle nodes in which no job is expired and no node
connects while it has operators; and once `set_job_done` was executed for a job, no node ever has
an operator for it again. -/
theorem mutual_exclusion (cl : JobCluster) {s t : State} {tr : List (State × Event)}
    (hrun : Run (step cl) s tr t)
    (hstart : ∀ n, (s.nodes n).operators = [] ∧ (s.nodes n).handler = .idle)
    (hfresh : ∀ j r, s.table.find? j = some r → j < s.nextId)
    (hexpiry : ∀ p ∈ tr, expires cl p = false) (hconnect : ∀ p ∈ tr, reconnects p = false) :
    (Exclusive t ∧ ∀ p ∈ tr, Exclusive p.1) ∧
      ∀ j tr₁ p tr₂, tr = tr₁ ++ p :: tr₂ → completes cl j p = true →
        (∀ n, ¬ Holds t n j) ∧ ∀ q ∈ tr₂, ∀ n, ¬ Holds q.1 n j := by
  have hI : Owned s := by
    refine ⟨?_, ?_, ?_, hfresh⟩
    · rintro n j ⟨job, hjob, _⟩
      rw [JobNode.jobs, (hstart n).1] at hjob
      exact absurd hjob (by simp)
    · intro n
      rw [JobNode.jobs, (hstart n).1]
      exact List.nodup_nil
    · intro n job hjob
      rw [(hstart n).2] at hjob
      exact absurd hjob (by simp [Handler.fetched])
  obtain ⟨ht, htr⟩ := hrun.invariant
    (C := fun s e => expires cl (s, e) = false ∧ reconnects (s, e) = false)
    (fun s e t hI hC h => hI.step hC.1 hC.2 h) hI (fun p hp => ⟨hexpiry p hp, hconnect p hp⟩)
  refine ⟨⟨ht.exclusive, fun p hp => (htr p hp).exclusive⟩, ?_⟩
  rintro j tr₁ ⟨m, e⟩ tr₂ rfl hdone
  obtain ⟨hfinal, hlater⟩ := hrun.stable_after (Q := Finished j) (C := fun _ _ => True)
    (fun s e t hQ _ h => finished_step hQ h)
    (fun m' h => (htr (m, e) (by simp)).finished_of_completes hdone h) (fun _ _ => trivial)
  have hnone : ∀ {u : State}, Owned u → Finished j u → ∀ n, ¬ Holds u n j := by
    intro u hu hfin n hholds
    obtain ⟨r, hr, _, hundone⟩ := hu.own n j hholds
    exact (hfin.2 r hr).1 hundone
  exact ⟨hnone ht hfinal, fun q hq => hnone (htr q (by simp [hq])) (hlater q hq)⟩

/-- The job of `a` is executed again, by `b`. -/
def executedAgain : List Event :=
  [oneJob] ++ claimFirst "a" ++
    [.node "a" (.again 0 0), .node "a" (.childExit 0 0 none none), .node "a" .resume,
      .node "a" .resume] ++ claimFirst "b"

theorem mutual_exclusion_again :
    ∃ s t, final (step smallCluster) noJobs executedAgain = some s ∧
      step smallCluster s (.node "b" (.cancel 0)) = some t ∧ Holds s "b" 1 ∧
      Exclusive s ∧ Exclusive t ∧ ∀ n, ¬ Holds t n 1 := by
  let cancel : Event := .node "b" (.cancel 0)
  have hlast : ((final (step smallCluster) noJobs executedAgain).bind fun s =>
      (step smallCluster s cancel).map fun _ =>
        (decide (Holds s "b" 1), completes smallCluster 1 (s, cancel),
          expires smallCluster (s, cancel))) = some (true, true, false) := by
    decide +kernel
  obtain ⟨s, hs, hlast⟩ := Option.bind_eq_some_iff.mp hlast
  obtain ⟨t, ht, hlast⟩ := Option.map_eq_some_iff.mp hlast
  obtain ⟨hholds, hlast⟩ := Prod.mk.inj hlast
  obtain ⟨hdone, hexpires⟩ := Prod.mk.inj hlast
  have hrun := (Run.of_final hs).append (.cons ht (.nil t))
  obtain ⟨⟨htx, htr⟩, hnever⟩ := mutual_exclusion smallCluster hrun (fun _ => ⟨rfl, rfl⟩)
    (by simp [noJobs, Table.find?, Table.empty])
    (List.forall_mem_append.mpr ⟨by decide +kernel, by simpa using hexpires⟩)
    (List.forall_mem_append.mpr ⟨by decide +kernel, by simp [reconnects, cancel]⟩)
  exact ⟨s, t, hs, ht, by simpa using hholds, htr (s, cancel) (by simp), htx,
    (hnever 1 _ _ [] rfl hdone).1⟩

end Workshop.Jobs

import Workshop.Jobs.Lease

/-!
# The life of a job

What the `jobs` table, the nodes and their operators are for, told job by job: a job is created,
waits, is claimed by a node, is executed there, and then is done or waits again; or its node leaves
it without a word to the database, until `release_jobs` or `expire_jobs` takes it back.  `Phase` and
`LifeEvent` are this abstract machine, `phase` reads the state of the cluster through it, and
`lifeEvents` tells which of its events a step of the cluster is.

`lifecycle`: in a run under leases (`Workshop.Jobs.Lease`), the life of every job is an execution of
the machine.  What the machine cannot do, the cluster then cannot do either (`claims_bounded`).
-/

namespace Workshop.Jobs

open Workshop.Lib

variable {cl : JobCluster} {s t : State} {e : Event} {j : ℕ} {n : String}

/-! ## The abstract machine -/

/-- Where a job is: not created yet, waiting, executed by a node, left by its node, done, or
deleted. -/
inductive Phase
  | absent
  | waiting
  | running (node : String)
  | abandoned (node : String)
  | done
  | removed
  deriving DecidableEq, Repr

/-- What can happen to a job. -/
inductive LifeEvent
  | create
  | claim (node : String)
  | finish
  | giveBack
  | abandon
  | takeBack
  | remove
  deriving DecidableEq, Repr

/-- The life of a job. -/
def Phase.step : Phase → LifeEvent → Option Phase
  | .absent, .create => some .waiting
  | .waiting, .claim n => some (.running n)
  | .running _, .finish => some .done
  | .running _, .giveBack => some .waiting
  | .running n, .abandon => some (.abandoned n)
  | .abandoned _, .takeBack => some .waiting
  | .waiting, .remove | .done, .remove => some .removed
  | _, _ => none

def LifeEvent.isClaim : LifeEvent → Bool
  | .claim _ => true
  | _ => false

/-- The job waits again. -/
def LifeEvent.isReturn : LifeEvent → Bool
  | .giveBack | .takeBack => true
  | _ => false

/-- How often a job can be claimed before it waits again. -/
def Phase.credit : Phase → ℕ
  | .absent | .waiting => 1
  | _ => 0

/-- How often a job can still be concluded. -/
def Phase.unfinished : Phase → ℕ
  | .done | .removed => 0
  | _ => 1

lemma Phase.step_credit {p q : Phase} {e : LifeEvent} (h : p.step e = some q) :
    (if e.isClaim then 1 else 0) + q.credit ≤ p.credit + (if e.isReturn then 1 else 0) ∧
      (if e = .finish then 1 else 0) + q.unfinished ≤ p.unfinished := by
  unfold Phase.step at h
  split at h <;> cases h <;>
    simp [LifeEvent.isClaim, LifeEvent.isReturn, Phase.credit, Phase.unfinished]

/-- **What the machine allows**: another claim for every return, and one conclusion. -/
lemma Phase.final_credit {p q : Phase} {life : List LifeEvent}
    (h : final Phase.step p life = some q) :
    life.countP LifeEvent.isClaim + q.credit ≤ p.credit + life.countP LifeEvent.isReturn ∧
      life.count .finish + q.unfinished ≤ p.unfinished := by
  induction life generalizing p with
  | nil =>
      obtain rfl := Option.some.inj h
      simp
  | cons e life ih =>
      rw [final_cons] at h
      obtain ⟨p', hp', h⟩ := Option.bind_eq_some_iff.mp h
      obtain ⟨hclaims, hfinish⟩ := ih h
      obtain ⟨hclaim, hone⟩ := Phase.step_credit hp'
      rw [List.countP_cons, List.countP_cons, List.count_cons]
      simp only [beq_iff_eq]
      omega

/-! ## The cluster, seen through it -/

/-- The phase of a row: it is executed if its node has an operator for it. -/
def JobRow.phase (s : State) (r : JobRow) : Phase :=
  if r.timeDone = none then
    match r.nodeName with
    | none => .waiting
    | some n => if Holds s n r.id then .running n else .abandoned n
  else .done

/-- The phase of a job; an id that was given out and has no row is that of a deleted job. -/
def phase (j : ℕ) (s : State) : Phase :=
  match s.table.find? j with
  | some r => r.phase s
  | none => if j < s.nextId then .removed else .absent

/-- The events of a statement that affects the row of the job; a claim whose answer is lost leaves
the job to nobody. -/
def Statement.lifeEvents (lost : Bool) : Statement → List LifeEvent
  | .claimJob n _ _ _ => if lost then [.claim n, .abandon] else [.claim n]
  | .releaseJobs _ | .expireJobs _ _ => [.takeBack]
  | .rollbackJob _ | .againJob _ _ _ _ => [.giveBack]
  | .setJobDone _ _ _ _ => [.finish]
  | .setJobProgress _ _ _ _ | .setEnv _ _ _ | .addCpuUsage _ _ | .editJob _ _ => []

/-- The step ends an operator for the job. -/
def endsJob (s : State) (j : ℕ) : Event → Bool
  | .node n ev => ((s.nodes n).concludes ev).any fun i =>
      (s.nodes n).operators[i]?.any fun o => o.job.id == j
  | _ => false

/-- The answer to the statement is lost. -/
def Event.isLost : Event → Bool
  | .node _ .lost => true
  | _ => false

/-- The statement of a step, if it affects the row. -/
def affecting (cl : JobCluster) (s : State) (e : Event) (r : JobRow) : Option Statement :=
  (e.statement cl s).filter fun st => st.update.cond r

/-- What a step is for the job; an operator that ends without a statement leaves the job. -/
def lifeEvents (cl : JobCluster) (j : ℕ) (p : State × Event) : List LifeEvent :=
  match p.1.table.find? j with
  | none =>
    match p.2 with
    | .insert _ => if p.1.nextId = j then [.create] else []
    | _ => []
  | some r =>
    if p.2.deletes p.1 r then [.remove]
    else
      match affecting cl p.1 p.2 r with
      | some st => st.lifeEvents p.2.isLost
      | none => if endsJob p.1 j p.2 then [.abandon] else []

lemma phase_of_find? {r : JobRow} (hr : s.table.find? j = some r) : phase j s = r.phase s := by
  rw [phase, hr]

lemma affecting_eq_some {r : JobRow} {st : Statement} : affecting cl s e r = some st ↔
    e.statement cl s = some st ∧ st.update.cond r = true := by
  rw [affecting, Option.filter_eq_some_iff]

lemma rowAfter_of_affecting {r : JobRow} {st : Statement} (h : affecting cl s e r = some st) :
    rowAfter cl s e r = st.update.set r :=
  rowAfter_of_statement (affecting_eq_some.mp h).1 (affecting_eq_some.mp h).2

lemma rowAfter_of_not_affecting {r : JobRow} (h : affecting cl s e r = none) :
    rowAfter cl s e r = r := by
  obtain hsame | ⟨st, hst, hcond, _⟩ := rowAfter_cases cl s e r
  · exact hsame
  · rw [affecting_eq_some.mpr ⟨hst, hcond⟩] at h
    exact absurd h (by simp)

lemma lifeEvents_of_affecting {r : JobRow} {st : Statement} (hr : s.table.find? j = some r)
    (hdel : e.deletes s r = false) (h : affecting cl s e r = some st) :
    lifeEvents cl j (s, e) = st.lifeEvents e.isLost := by
  simp [lifeEvents, hr, hdel, h]

lemma lifeEvents_of_not_affecting {r : JobRow} (hr : s.table.find? j = some r)
    (hdel : e.deletes s r = false) (h : affecting cl s e r = none) :
    lifeEvents cl j (s, e) = if endsJob s j e then [.abandon] else [] := by
  simp [lifeEvents, hr, hdel, h]

/-! ## Operators -/

lemma endsJob_iff : endsJob s j e = true ↔ ∃ n, Ends s e n j := by
  unfold endsJob Ends
  constructor
  · intro h
    split at h
    · rename_i n ev
      obtain ⟨i, hi, h⟩ := (Option.any_eq_true _ _).mp h
      obtain ⟨o, ho, hid⟩ := (Option.any_eq_true _ _).mp h
      exact ⟨n, ev, i, o, rfl, hi, ho, by simpa using hid⟩
    · exact absurd h (by simp)
  · rintro ⟨n, ev, i, o, rfl, hi, ho, rfl⟩
    simp [hi, ho]

lemma holds_of_not_ends (h : step cl s e = some t) (hholds : Holds s n j)
    (hends : ¬ Ends s e n j) : Holds t n j := by
  obtain ⟨job, hjob, rfl⟩ := hholds
  refine ⟨job, ?_, rfl⟩
  obtain ⟨ev, rfl, hnode⟩ | ⟨_, hnode⟩ := step_node_cases h n
  · obtain ⟨i, hi, hjobs⟩ | ⟨_, _, hjobs⟩ | ⟨_, hjobs⟩ := JobNode.step_jobs hnode
    · rw [hjobs]
      obtain ⟨k, hk, hkjob⟩ := List.mem_iff_getElem.mp hjob
      refine List.mem_eraseIdx_iff_getElem?.mpr ⟨k, ?_, by rw [List.getElem?_eq_getElem hk, hkjob]⟩
      rintro rfl
      -- the operator at `k` would be the one that ends
      have hko : (s.nodes n).operators[k]?.map WorkshopOperator.job = some job := by
        rw [← List.getElem?_map]
        exact (List.getElem?_eq_getElem hk).trans (congrArg some hkjob)
      obtain ⟨o, ho, rfl⟩ := Option.map_eq_some_iff.mp hko
      exact hends ⟨ev, k, o, rfl, hi, ho, rfl⟩
    · rw [hjobs]
      exact List.mem_append_left _ hjob
    · rwa [hjobs]
  · rwa [hnode]

/-- The statement of a step that ends an operator concludes its job. -/
lemma statement_of_concludes {name : String} {now : ℤ} {node : JobNode} {ev : NodeEvent} {i : ℕ}
    {o : WorkshopOperator} {st : Statement} (hi : node.concludes ev = some i)
    (ho : node.operators[i]? = some o) (hst : node.statement cl name now ev = some st) :
    (∃ status log, st = .setJobDone o.job.id status log now) ∨ st = .rollbackJob o.job.id ∨
      ∃ delay log, st = .againJob o.job.id delay log now := by
  -- a step that ends one without the handler
  have hdone : ∀ {message : String} {status : ℤ},
      (if node.ready then node.operators[i]?.map fun o =>
        Statement.setJobDone o.job.id status (some message) now else none) = some st →
      ∃ status log, st = .setJobDone o.job.id status log now := by
    intro message status h
    obtain ⟨_, h⟩ := Option.ite_none_right_eq_some.mp h
    obtain ⟨o', ho', rfl⟩ := Option.map_eq_some_iff.mp h
    obtain rfl := Option.some.inj (ho.symm.trans ho')
    exact ⟨status, some message, rfl⟩
  cases ev with
  | startFailed i' message =>
      obtain rfl := Option.some.inj hi
      exact .inl (hdone hst)
  | timeout i' =>
      obtain rfl := Option.some.inj hi
      exact .inl (hdone hst)
  | cancel i' =>
      obtain rfl := Option.some.inj hi
      exact .inl (hdone hst)
  | resume =>
      simp only [JobNode.concludes] at hi
      split at hi
      · rename_i status log hhandler
        obtain rfl := Option.some.inj hi
        obtain ⟨_, hst⟩ := Option.ite_none_right_eq_some.mp hst
        simp only [JobNode.handlerStatement, hhandler, ho, Option.bind_some, Option.bind_eq_bind]
          at hst
        split at hst <;> obtain rfl := Option.some.inj hst
        · exact .inl ⟨status, log, rfl⟩
        · exact .inr (.inl rfl)
        · exact .inr (.inr ⟨_, log, rfl⟩)
      · exact absurd hi (by simp)
  | failed | endFailed => exact absurd hst (by simp [JobNode.statement])
  | _ => exact absurd hi (by simp [JobNode.concludes])

/-! ## The step, phase by phase -/

/-- A job without an owner is not done. -/
def FreeUndone (s : State) : Prop :=
  ∀ j r, s.table.find? j = some r → r.nodeName = none → r.timeDone = none

/-- A statement that affects a row nobody holds comes from a client or from a queue. -/
lemma affecting_of_not_holds {r : JobRow} {st : Statement} (hr : s.table.find? j = some r)
    (hnone : ∀ m, ¬ Holds s m j) (h : affecting cl s e r = some st) :
    (∃ id ed, st = .editJob id ed) ∨ (∃ m, st = .releaseJobs m) ∨ (∃ m, st = .expireJobs m s.now) ∨
      ∃ m ev id timeout, e = .node m ev ∧ st = .claimJob m id timeout s.now := by
  obtain ⟨hst, hcond⟩ := affecting_eq_some.mp h
  obtain ⟨id, ed, _, rfl⟩ | ⟨m, ev, rfl, hexec⟩ := statement_cases hst
  · exact .inl ⟨id, ed, rfl⟩
  · obtain hholds | rfl | rfl | ⟨id, timeout, rfl⟩ := holds_of_executes hexec hcond
    · rw [Table.key_of_find? hr] at hholds
      exact absurd hholds (hnone m)
    · exact .inr (.inl ⟨m, rfl⟩)
    · exact .inr (.inr (.inl ⟨m, rfl⟩))
    · exact .inr (.inr (.inr ⟨m, ev, id, timeout, rfl, rfl⟩))

lemma life_quiet {r : JobRow} (hr : s.table.find? j = some r) (hdel : e.deletes s r = false)
    (hnone : ∀ m, ¬ Holds s m j) (h : affecting cl s e r = none) : lifeEvents cl j (s, e) = [] := by
  rw [lifeEvents_of_not_affecting hr hdel h, if_neg]
  rw [endsJob_iff]
  rintro ⟨m, hends⟩
  exact hnone m (holds_of_ends hends)

/-- The row of a job that is not done is in the phase its owner gives it. -/
lemma JobRow.phase_owned {r : JobRow} (hdone : r.timeDone = none) (hname : r.nodeName = some n) :
    r.phase s = if Holds s n r.id then .running n else .abandoned n := by
  simp [JobRow.phase, hdone, hname]

lemma JobRow.phase_free {r : JobRow} (hdone : r.timeDone = none) (hname : r.nodeName = none) :
    r.phase s = .waiting := by
  simp [JobRow.phase, hdone, hname]

lemma JobRow.phase_done {r : JobRow} (hdone : r.timeDone ≠ none) : r.phase s = .done := by
  simp [JobRow.phase, hdone]

lemma holds_of_claim {r : JobRow} {id : ℕ} {timeout now : ℤ}
    (h : step cl s (.node n .resume) = some t) (hr : s.table.find? j = some r)
    (haff : affecting cl s (.node n .resume) r = some (.claimJob n id timeout now)) :
    Holds t n j := by
  obtain ⟨hst, hcond⟩ := affecting_eq_some.mp haff
  have hid : r.id = id := (claimJob_cond.mp hcond).1
  have hst : (s.nodes n).statement cl n s.now .resume = some (.claimJob n id timeout now) := hst
  have hready : (s.nodes n).ready = true := (Option.ite_none_right_eq_some.mp hst).1
  obtain ⟨job, plan, pass, hhandler, htimeout, rfl, rfl⟩ : ∃ job plan pass,
      (s.nodes n).handler = .claim job plan pass ∧ cl.interval plan.timeout = some timeout ∧
        id = job.id ∧ now = s.now := by
    generalize hst' : Statement.claimJob n id timeout now = st at hst
    cases executes_of_statement hst with
    | @claimJob job plan pass timeout' _ hhandler htimeout =>
        obtain ⟨_, rfl, rfl, rfl⟩ := Statement.claimJob.inj hst'
        exact ⟨job, plan, pass, hhandler, htimeout, rfl, rfl⟩
    | _ => exact absurd hst' (by simp)
  have hpos : 0 < s.table.affected (claimJob n job.id timeout s.now) :=
    Table.affected_pos.mpr ⟨r, (Table.find?_eq_some.mp hr).1, hcond⟩
  obtain ⟨_, _, _, _, _, hops⟩ := JobNode.starts_spec
    ⟨rfl, hready, plan, pass, timeout, hhandler, htimeout, hpos⟩ (step_self h)
  refine ⟨job, ?_, hid.symm.trans (Table.key_of_find? hr)⟩
  rw [JobNode.jobs, hops]
  simp

section Step

variable {r : JobRow} (hI : Owned s) (hfree : FreeUndone s) (h : step cl s e = some t)
  (hr : s.table.find? j = some r) (hdel : e.deletes s r = false)

include hI hfree h hr hdel in
lemma life_done (hdone : r.timeDone ≠ none) :
    lifeEvents cl j (s, e) = [] ∧ phase j t = .done := by
  have hnone : ∀ m, ¬ Holds s m j := by
    intro m hholds
    obtain ⟨r', hr', _, hundone⟩ := hI.own m j hholds
    obtain rfl := Option.some.inj (hr.symm.trans hr')
    exact hdone hundone
  constructor
  · rcases haff : affecting cl s e r with _ | st
    · exact life_quiet hr hdel hnone haff
    · rw [lifeEvents_of_affecting hr hdel haff]
      have hcond := (affecting_eq_some.mp haff).2
      obtain ⟨id, ed, rfl⟩ | ⟨m, rfl⟩ | ⟨m, rfl⟩ | ⟨m, ev, id, timeout, _, rfl⟩ :=
        affecting_of_not_holds hr hnone haff
      · rfl
      · exact absurd (releaseJobs_cond.mp hcond).2.1 hdone
      · exact absurd (expireJobs_cond.mp hcond).1 hdone
      · exact absurd (hfree j r hr (claimJob_cond.mp hcond).2.1) hdone
  · rw [phase_of_find? (step_find? h hr hdel)]
    exact JobRow.phase_done fun hundone => hdone (timeDone_of_rowAfter hundone)

include hI hfree h hr hdel in
lemma life_waiting (hname : r.nodeName = none) :
    final Phase.step .waiting (lifeEvents cl j (s, e)) = some (phase j t) := by
  have hundone : r.timeDone = none := hfree j r hr hname
  have hnone : ∀ m, ¬ Holds s m j := by
    intro m hholds
    obtain ⟨r', hr', hname', _⟩ := hI.own m j hholds
    obtain rfl := Option.some.inj (hr.symm.trans hr')
    exact absurd (hname'.symm.trans hname) (by simp)
  have hfind := step_find? h hr hdel
  rw [phase_of_find? hfind]
  rcases haff : affecting cl s e r with _ | st
  · rw [life_quiet hr hdel hnone haff, rowAfter_of_not_affecting haff,
      JobRow.phase_free hundone hname]
    rfl
  · rw [lifeEvents_of_affecting hr hdel haff, rowAfter_of_affecting haff]
    have hcond := (affecting_eq_some.mp haff).2
    obtain ⟨id, ed, rfl⟩ | ⟨m, rfl⟩ | ⟨m, rfl⟩ | ⟨m, ev, id, timeout, rfl, rfl⟩ :=
      affecting_of_not_holds hr hnone haff
    · rw [JobRow.phase_free (r := (Statement.editJob id ed).update.set r) hundone hname]
      rfl
    · exact absurd ((releaseJobs_cond.mp hcond).1.symm.trans hname) (by simp)
    · exact absurd hname (expireJobs_cond.mp hcond).2.2.1
    · rw [JobRow.phase_owned (r := (Statement.claimJob m id timeout s.now).update.set r)
        hundone rfl]
      have hid : ((Statement.claimJob m id timeout s.now).update.set r).id = j :=
        (Table.key_of_find? hr : r.id = j)
      rw [hid]
      have hev : ev = .resume ∨ ev = .lost := by
        generalize hst : Statement.claimJob m id timeout s.now = st at haff
        cases executes_of_statement (affecting_eq_some.mp haff).1 with
        | claimJob hev _ _ => exact hev
        | _ => exact absurd hst (by simp)
      obtain rfl | rfl := hev
      · rw [if_pos (holds_of_claim h hr haff)]
        rfl
      · rw [if_neg]
        · rfl
        · intro hholds
          obtain hold | ⟨ev, _, hev, _, hstarts⟩ := holds_step h hholds
          · exact hnone m hold
          · have hresume := hstarts.1
            simp only [Event.node.injEq, true_and] at hev
            exact absurd (hev.trans hresume) (by simp)

include hI h hr hdel in
/-- An executed job is concluded, given back or left, or is executed further. -/
lemma life_running (hspares : Spares cl s e) (hconnect : reconnects (s, e) = false)
    (hname : r.nodeName = some n) (hdone : r.timeDone = none) (hholds : Holds s n j) :
    final Phase.step (.running n) (lifeEvents cl j (s, e)) = some (phase j t) := by
  have hfind := step_find? h hr hdel
  have hid : r.id = j := Table.key_of_find? hr
  by_cases hends : Ends s e n j
  · have hgone := hI.not_holds_of_ends h hends
    rw [phase_of_find? hfind]
    rcases haff : affecting cl s e r with _ | st
    · rw [lifeEvents_of_not_affecting hr hdel haff, if_pos (endsJob_iff.mpr ⟨n, hends⟩),
        rowAfter_of_not_affecting haff, JobRow.phase_owned hdone hname, hid, if_neg hgone]
      rfl
    · rw [lifeEvents_of_affecting hr hdel haff, rowAfter_of_affecting haff]
      obtain ⟨ev, i, o, rfl, hi, ho, hoid⟩ := hends
      obtain ⟨status, log, rfl⟩ | rfl | ⟨delay, log, rfl⟩ :=
        statement_of_concludes hi ho (affecting_eq_some.mp haff).1
      · rw [JobRow.phase_done (r := (Statement.setJobDone o.job.id status log s.now).update.set r)
          (Option.some_ne_none _)]
        rfl
      · rw [JobRow.phase_free (r := (Statement.rollbackJob o.job.id).update.set r) hdone rfl]
        rfl
      · rw [JobRow.phase_free (r := (Statement.againJob o.job.id delay log s.now).update.set r)
          hdone rfl]
        rfl
  · have hstays := holds_of_not_ends h hholds hends
    obtain ⟨r', hr', hname', hdone'⟩ := hI.row_kept hspares hconnect h hholds hends
    obtain rfl := Option.some.inj (hfind.symm.trans hr')
    have hother : ∀ m, ¬ Ends s e m j := by
      intro m hm
      obtain rfl := hI.unique hholds (holds_of_ends hm)
      exact hends hm
    have hphase : phase j t = .running n := by
      rw [phase_of_find? hfind, JobRow.phase_owned hdone' hname', Table.key_of_find? hfind,
        if_pos hstays]
    rw [hphase]
    rcases haff : affecting cl s e r with _ | st
    · rw [lifeEvents_of_not_affecting hr hdel haff, if_neg]
      · rfl
      · rw [endsJob_iff]
        rintro ⟨m, hm⟩
        exact hother m hm
    · rw [lifeEvents_of_affecting hr hdel haff]
      rw [rowAfter_of_affecting haff] at hname' hdone'
      cases st with
      | claimJob =>
          have hfree := (claimJob_cond.mp (affecting_eq_some.mp haff).2).2.1
          exact absurd (hname.symm.trans hfree) (by simp)
      | releaseJobs | expireJobs | rollbackJob | againJob =>
          exact absurd hname' (by simp [Statement.update, releaseJobs, expireJobs, rollbackJob,
            againJob, release])
      | setJobDone => exact absurd hdone' (Option.some_ne_none _)
      | _ => rfl

include hI h hr hdel in
lemma life_abandoned (hname : r.nodeName = some n) (hdone : r.timeDone = none)
    (hleft : ¬ Holds s n j) :
    final Phase.step (.abandoned n) (lifeEvents cl j (s, e)) = some (phase j t) := by
  have hnone : ∀ m, ¬ Holds s m j := by
    intro m hholds
    obtain ⟨r', hr', hname', _⟩ := hI.own m j hholds
    obtain rfl := Option.some.inj (hr.symm.trans hr')
    obtain rfl := Option.some.inj (hname.symm.trans hname')
    exact hleft hholds
  have hfind := step_find? h hr hdel
  rw [phase_of_find? hfind]
  rcases haff : affecting cl s e r with _ | st
  · rw [life_quiet hr hdel hnone haff, rowAfter_of_not_affecting haff,
      JobRow.phase_owned hdone hname, if_neg]
    · rfl
    · rw [Table.key_of_find? hr]
      intro hholds
      obtain hold | ⟨ev, job, rfl, rfl, hstarts⟩ := holds_step h hholds
      · exact hnone n hold
      · obtain ⟨_, r', _, hr', hfree, _⟩ := row_of_starts h hstarts
        obtain rfl := Option.some.inj (hr.symm.trans hr')
        exact absurd (hname.symm.trans hfree) (by simp)
  · rw [lifeEvents_of_affecting hr hdel haff, rowAfter_of_affecting haff]
    have hcond := (affecting_eq_some.mp haff).2
    obtain ⟨id, ed, rfl⟩ | ⟨m, rfl⟩ | ⟨m, rfl⟩ | ⟨m, ev, id, timeout, _, rfl⟩ :=
      affecting_of_not_holds hr hnone haff
    · exact absurd (hname.symm.trans (editJob_cond.mp hcond).2) (by simp)
    · rw [JobRow.phase_free (r := (Statement.releaseJobs m).update.set r) hdone rfl]
      rfl
    · rw [JobRow.phase_free (r := (Statement.expireJobs m s.now).update.set r) hdone rfl]
      rfl
    · exact absurd (hname.symm.trans (claimJob_cond.mp hcond).2.1) (by simp)

end Step

lemma life_absent (h : step cl s e = some t) (hr : s.table.find? j = none) :
    final Phase.step (phase j s) (lifeEvents cl j (s, e)) = some (phase j t) := by
  obtain ⟨job, rfl, hins, hnext⟩ | ⟨hfind, hnext⟩ := step_table h
  · obtain ⟨_, hfind⟩ := Table.find?_insert hins j
    by_cases hj : s.nextId = j
    · have hrow : t.table.find? j = some (job.row s.nextId s.now) := by
        rw [hfind, if_pos]
        exact hj
      rw [phase_of_find? hrow, JobRow.phase_free rfl rfl]
      simp [phase, hr, lifeEvents, hj, final, execute, Phase.step]
    · have hrow : t.table.find? j = none := by
        rw [hfind, if_neg (show ¬ (job.row s.nextId s.now).id = j from hj), hr]
      have hle : j < s.nextId + 1 ↔ j < s.nextId := by omega
      simp [phase, hr, hrow, hnext, hle, lifeEvents, hj, final, execute]
  · have hrow : t.table.find? j = none := by
      rw [hfind, State.tableAfter, Table.find?_delete, Table.find?_tableAfter, hr]
      rfl
    have hevents : lifeEvents cl j (s, e) = [] := by
      cases e with
      | insert job =>
          simp only [step] at h
          obtain ⟨t', ht', rfl⟩ := Option.map_eq_some_iff.mp h
          exact absurd hnext (by simp)
      | _ => simp [lifeEvents, hr]
    simp [phase, hr, hrow, hnext, hevents, final, execute]

lemma life_deleted {r : JobRow} (h : step cl s e = some t) (hr : s.table.find? j = some r)
    (hfresh : ∀ j r, s.table.find? j = some r → j < s.nextId) (hdel : e.deletes s r = true) :
    final Phase.step (phase j s) (lifeEvents cl j (s, e)) = some (phase j t) := by
  have hrow : t.table.find? j = none := by
    rcases hfind : t.table.find? j with _ | r'
    · rfl
    · obtain ⟨r₀, hr₀, hkept, _⟩ | ⟨_, _, hj, _⟩ := find?_step h hfind
      · obtain rfl := Option.some.inj (hr.symm.trans hr₀)
        exact absurd (hdel.symm.trans hkept) (by simp)
      · exact absurd (hfresh j r hr) (by omega)
  have hlt : j < t.nextId := (hfresh j r hr).trans_le (nextId_le_of_step h)
  have hphase : phase j t = .removed := by simp [phase, hrow, hlt]
  have hevents : lifeEvents cl j (s, e) = [.remove] := by simp [lifeEvents, hr, hdel]
  rw [phase_of_find? hr, hphase, hevents]
  by_cases hdone : r.timeDone = none
  · have hname : r.nodeName = none := by
      unfold Event.deletes at hdel
      split at hdel
      · simpa [isDeletable, hdone] using (Bool.and_eq_true_iff.mp hdel).2
      · simp [isReaped, hdone] at hdel
      · exact absurd hdel (by simp)
    rw [JobRow.phase_free hdone hname]
    rfl
  · rw [JobRow.phase_done hdone]
    rfl

/-- **The step lemma.** -/
lemma lifecycle_step (hI : Owned s) (hfree : FreeUndone s) (hspares : Spares cl s e)
    (hconnect : reconnects (s, e) = false) (h : step cl s e = some t) :
    FreeUndone t ∧
      ∀ j, final Phase.step (phase j s) (lifeEvents cl j (s, e)) = some (phase j t) := by
  refine ⟨fun j r' hr' hname => hI.free_step h (fun r hr => hfree j r hr) hr' hname, fun j => ?_⟩
  rcases hr : s.table.find? j with _ | r
  · exact life_absent h hr
  · by_cases hdel : e.deletes s r = true
    · exact life_deleted h hr hI.fresh hdel
    · have hdel : e.deletes s r = false := by simpa using hdel
      rw [phase_of_find? hr]
      by_cases hdone : r.timeDone = none
      · rcases hname : r.nodeName with _ | n
        · rw [JobRow.phase_free hdone hname]
          exact life_waiting hI hfree h hr hdel hname
        · rw [JobRow.phase_owned hdone hname, Table.key_of_find? hr]
          by_cases hholds : Holds s n j
          · rw [if_pos hholds]
            exact life_running hI h hr hdel hspares hconnect hname hdone hholds
          · rw [if_neg hholds]
            exact life_abandoned hI h hr hdel hname hdone hholds
      · rw [JobRow.phase_done hdone]
        obtain ⟨hevents, hphase⟩ := life_done hI hfree h hr hdel hdone
        rw [hevents, hphase]
        rfl

/-! ## Runs -/

lemma final_lifeEvents {tr : List (State × Event)} (h : LeaseRun cl s tr t) (hfree : FreeUndone s)
    (j : ℕ) : final Phase.step (phase j s) (tr.flatMap (lifeEvents cl j)) = some (phase j t) := by
  refine h.run.refines (phase j) (lifeEvents cl j) (I := FreeUndone)
    (C := fun s e => Owned s ∧ Spares cl s e ∧ reconnects (s, e) = false) ?_ hfree ?_
  · rintro s e t hfree ⟨hI, hspares, hconnect⟩ hstep
    obtain ⟨hfree', hlife⟩ := lifecycle_step hI hfree hspares hconnect hstep
    exact ⟨hfree', hlife j⟩
  · intro p hp
    obtain ⟨hI, hspares⟩ := h.leased.2 p hp
    exact ⟨hI.owned, hspares, h.connect p hp⟩

/-- **The life of a job**, in any run under leases, is an execution of the abstract machine.  So the
job is claimed at most once more often than it was given back, released or expired, and
`set_job_done` is executed for it at most once. -/
theorem lifecycle {tr : List (State × Event)} (h : LeaseRun cl s tr t) (hfree : FreeUndone s)
    (j : ℕ) :
    final Phase.step (phase j s) (tr.flatMap (lifeEvents cl j)) = some (phase j t) ∧
      (tr.flatMap (lifeEvents cl j)).countP LifeEvent.isClaim ≤
        1 + (tr.flatMap (lifeEvents cl j)).countP LifeEvent.isReturn ∧
      (tr.flatMap (lifeEvents cl j)).count .finish ≤ 1 := by
  have hlife := final_lifeEvents h hfree j
  refine ⟨hlife, ?_⟩
  obtain ⟨hclaims, hfinish⟩ := Phase.final_credit hlife
  have hcredit : (phase j s).credit ≤ 1 := by cases phase j s <;> simp [Phase.credit]
  have hunfinished : (phase j s).unfinished ≤ 1 := by cases phase j s <;> simp [Phase.unfinished]
  omega

theorem lifecycle_killedInTime :
    ∃ t, final (step timedCluster) noJobs killedInTime = some t ∧ phase 1 t = .running "b" ∧
      final Phase.step .absent [.create, .claim "a", .abandon, .takeBack, .claim "b"] =
        some (phase 1 t) := by
  have hphase : (final (step timedCluster) noJobs killedInTime).map (phase 1) =
      some (.running "b") := by
    decide +kernel
  obtain ⟨t, ht, hphase⟩ := Option.map_eq_some_iff.mp hphase
  obtain ⟨hlife, _⟩ := lifecycle
    (timedCluster_leaseRun ht (by decide +kernel) (by decide +kernel) (by decide +kernel)
      (by decide +kernel))
    (by simp [FreeUndone, noJobs, Table.find?, Table.empty]) 1
  have hevents : (traceOf (step timedCluster) noJobs killedInTime).flatMap
      (lifeEvents timedCluster 1) = [.create, .claim "a", .abandon, .takeBack, .claim "b"] := by
    decide +kernel
  rw [hevents] at hlife
  exact ⟨t, ht, hphase, hlife⟩

/-! ## Jobs that were left -/

/-- What holds of the rows in every state: a job without an owner is not done, a job that is not
done has no exit status, and its assignment has an end. -/
structure RowKept (r : JobRow) : Prop where
  free : r.nodeName = none → r.timeDone = none
  status : r.timeDone = none → r.exitStatus = none
  ends : r.nodeName ≠ none → r.nodeTimeout ≠ none

lemma rowKept_step (hI : Owned s) (hrows : ∀ j r, s.table.find? j = some r → RowKept r)
    (h : step cl s e = some t) {r' : JobRow} (hr' : t.table.find? j = some r') : RowKept r' := by
  refine ⟨hI.free_step h (fun r hr => (hrows j r hr).free) hr', ?_, ?_⟩
  all_goals
    obtain ⟨r, hr, _, rfl⟩ | ⟨_, _, _, _, rfl⟩ := find?_step h hr'
  · intro hdone
    have hundone := timeDone_of_rowAfter hdone
    obtain hsame | ⟨st, _, hcond, hset⟩ := rowAfter_cases cl s e r
    · rw [hsame]
      exact (hrows j r hr).status hundone
    · rw [hset] at hdone ⊢
      cases st with
      | setJobDone => exact absurd hdone (Option.some_ne_none _)
      | _ => exact (hrows j r hr).status hundone
  · exact fun _ => rfl
  · intro hname
    obtain hsame | ⟨st, _, hcond, hset⟩ := rowAfter_cases cl s e r
    · rw [hsame] at hname ⊢
      exact (hrows j r hr).ends hname
    · rw [hset] at hname ⊢
      cases st with
      | claimJob | setJobProgress => exact Option.some_ne_none _
      | releaseJobs | expireJobs | rollbackJob | againJob => exact absurd rfl hname
      | _ => exact (hrows j r hr).ends hname
  · exact fun hname => absurd rfl hname

lemma LeaseRun.rowKept {tr : List (State × Event)} (h : LeaseRun cl s tr t)
    (hrows : ∀ j r, s.table.find? j = some r → RowKept r) :
    ∀ j r, t.table.find? j = some r → RowKept r :=
  (h.run.invariant (I := fun s => ∀ j r, s.table.find? j = some r → RowKept r)
    (C := fun s _ => Owned s) (fun _ _ _ hrows hI hstep _ _ hr => rowKept_step hI hrows hstep hr)
    hrows fun p hp => (h.leased.2 p hp).1.owned).1

/-- The job was left by the node `n`, under a lease with this end. -/
structure Left (n : String) (j : ℕ) (ends : ℤ) (s : State) : Prop where
  nobody : ∀ m, ¬ Holds s m j
  row : ∃ r, s.table.find? j = some r ∧ r.nodeName = some n ∧ r.timeDone = none ∧
    r.exitStatus = none ∧ r.nodeTimeout = some ends

/-- A job that was left is not touched until it is taken back. -/
lemma left_step {ends : ℤ} (hL : Left n j ends s) (h : step cl s e = some t)
    (hback : .takeBack ∉ lifeEvents cl j (s, e)) : Left n j ends t := by
  obtain ⟨hnone, r, hr, hname, hdone, hstatus, hends⟩ := hL
  have hdel : e.deletes s r = false := not_deletes hname hdone
  have hfree : r.nodeName ≠ none := by simp [hname]
  have hquiet : affecting cl s e r = none := by
    rcases haff : affecting cl s e r with _ | st
    · rfl
    · rw [lifeEvents_of_affecting hr hdel haff] at hback
      have hcond := (affecting_eq_some.mp haff).2
      obtain ⟨id, ed, rfl⟩ | ⟨m, rfl⟩ | ⟨m, rfl⟩ | ⟨m, ev, id, timeout, _, rfl⟩ :=
        affecting_of_not_holds hr hnone haff
      · exact absurd (editJob_cond.mp hcond).2 hfree
      · exact absurd (List.mem_singleton_self _) hback
      · exact absurd (List.mem_singleton_self _) hback
      · exact absurd (claimJob_cond.mp hcond).2.1 hfree
  have hfind := step_find? h hr hdel
  rw [rowAfter_of_not_affecting hquiet] at hfind
  refine ⟨fun m hholds => ?_, r, hfind, hname, hdone, hstatus, hends⟩
  obtain hold | ⟨ev, job, rfl, rfl, hstarts⟩ := holds_step h hholds
  · exact hnone m hold
  · obtain ⟨_, r', _, hr', hnodeName, _⟩ := row_of_starts h hstarts
    obtain rfl := Option.some.inj (hr.symm.trans hr')
    exact hfree hnodeName

lemma left_of_phase (hI : Owned s) (hrows : ∀ j r, s.table.find? j = some r → RowKept r)
    (hphase : phase j s = .abandoned n) : ∃ ends, Left n j ends s := by
  unfold phase at hphase
  split at hphase
  · rename_i r hr
    by_cases hdone : r.timeDone = none
    · rcases hname : r.nodeName with _ | m
      · rw [JobRow.phase_free hdone hname] at hphase
        exact absurd hphase (by simp)
      · rw [JobRow.phase_owned hdone hname, Table.key_of_find? hr] at hphase
        split at hphase
        · exact absurd hphase (by simp)
        · rename_i hleft
          obtain rfl := Phase.abandoned.inj hphase
          have hkept := hrows j r hr
          obtain ⟨ends, hends⟩ := Option.ne_none_iff_exists'.mp (hkept.ends (by simp [hname]))
          refine ⟨ends, fun m' hholds => ?_, r, hr, hname, hdone, hkept.status hdone, hends⟩
          obtain ⟨r', hr', hname', _⟩ := hI.own m' j hholds
          obtain rfl := Option.some.inj (hr.symm.trans hr')
          obtain rfl := Option.some.inj (hname.symm.trans hname')
          exact hleft hholds
    · rw [JobRow.phase_done hdone] at hphase
      exact absurd hphase (by simp)
  · split at hphase <;> exact absurd hphase (by simp)

/-- **No job is lost**: a job that a node has left after a run under leases is taken back at the
latest by the first `expire_jobs` of another node after the end of its lease, whatever happens
until then. -/
theorem abandoned_taken_back {tr tr' : List (State × Event)} {u : State} {m : String}
    (h : LeaseRun cl s tr u) (hrows : ∀ j r, s.table.find? j = some r → RowKept r)
    (hphase : phase j u = .abandoned n) (hrun : Run (step cl) u tr' t)
    (hexpire : e.statement cl t = some (.expireJobs m t.now)) (hother : m ≠ n) :
    ∃ r ends, u.table.find? j = some r ∧ r.nodeTimeout = some ends ∧
      (ends < t.now → .takeBack ∈ (tr' ++ [(t, e)]).flatMap (lifeEvents cl j)) := by
  obtain ⟨ends, hL⟩ := left_of_phase h.leased.1.owned (h.rowKept hrows) hphase
  obtain ⟨r, hr, hname, hdone, hstatus, hends⟩ := hL.row
  refine ⟨r, ends, hr, hends, fun hlate => ?_⟩
  rw [List.flatMap_append, List.mem_append]
  by_cases hback : .takeBack ∈ tr'.flatMap (lifeEvents cl j)
  · exact .inl hback
  · -- the job is still left when the statement is executed
    obtain ⟨⟨_, r', hr', hname', hdone', hstatus', hends'⟩, _⟩ := hrun.invariant
      (I := Left n j ends) (C := fun s e => .takeBack ∉ lifeEvents cl j (s, e))
      (fun _ _ _ hL hC hstep => left_step hL hstep hC) hL
      (fun p hp hmem => hback (List.mem_flatMap.mpr ⟨p, hp, hmem⟩))
    have hcond : (expireJobs m t.now).cond r' = true :=
      expireJobs_cond.mpr ⟨hdone', hstatus', by simp [hname'],
        fun hmine => hother (Option.some.inj (hmine.symm.trans hname')), ends, hends', hlate⟩
    have haff : affecting cl t e r' = some (.expireJobs m t.now) :=
      affecting_eq_some.mpr ⟨hexpire, hcond⟩
    refine .inr ?_
    rw [List.flatMap_cons, List.flatMap_nil, List.append_nil,
      lifeEvents_of_affecting hr' (not_deletes hname' hdone') haff]
    exact List.mem_singleton_self _

/-- The node `b` connects a minute later. -/
def aMinuteLater : List Event :=
  [.tick 60000000, .node "b" .connect, .node "b" (.setStateEnabled true),
    .node "b" (.updateFilter false)]

theorem abandoned_taken_back_killedOffline :
    ∃ u t, final (step timedCluster) noJobs killedOffline = some u ∧ phase 1 u = .abandoned "a" ∧
      final (step timedCluster) u aMinuteLater = some t ∧ phase 1 t = .abandoned "a" ∧
      .takeBack ∈ lifeEvents timedCluster 1 (t, .node "b" .timer) := by
  have hfirst : (final (step timedCluster) noJobs killedOffline).map (fun u =>
      (phase 1 u, (u.table.find? 1).map JobRow.nodeTimeout,
        (traceOf (step timedCluster) u aMinuteLater).flatMap (lifeEvents timedCluster 1))) =
      some (.abandoned "a", some (some (10 * minute)), []) := by
    decide +kernel
  have hthen : ((final (step timedCluster) noJobs killedOffline).bind fun u =>
      (final (step timedCluster) u aMinuteLater).map fun t =>
        (phase 1 t, t.now, Event.statement timedCluster t (.node "b" .timer))) =
      some (.abandoned "a", 11 * minute, some (.expireJobs "b" (11 * minute))) := by
    decide +kernel
  obtain ⟨u, hu, hfirst⟩ := Option.map_eq_some_iff.mp hfirst
  rw [hu, Option.bind_some] at hthen
  obtain ⟨t, ht, hthen⟩ := Option.map_eq_some_iff.mp hthen
  simp only [Prod.mk.injEq] at hfirst hthen
  obtain ⟨hphase, htimeout, hquiet⟩ := hfirst
  obtain ⟨hphase', hnow, hst⟩ := hthen
  obtain ⟨r, ends, hr, hends, hback⟩ := abandoned_taken_back (e := .node "b" .timer)
    (timedCluster_leaseRun hu (by decide +kernel) (by decide +kernel) (by decide +kernel)
      (by decide +kernel))
    (by simp [noJobs, Table.find?, Table.empty]) hphase (Run.of_final ht) (hnow ▸ hst) (by decide)
  rw [hr, Option.map_some, hends] at htimeout
  obtain rfl := Option.some.inj (Option.some.inj htimeout)
  refine ⟨u, t, hu, hphase, ht, hphase', ?_⟩
  have hmem := hback (by rw [hnow]; decide)
  rw [List.flatMap_append, hquiet, List.nil_append] at hmem
  simpa using hmem

end Workshop.Jobs

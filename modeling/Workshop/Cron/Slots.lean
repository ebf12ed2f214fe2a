import Workshop.Cron.System

/-!
# Every slot is executed at most once

A slot of a cron job is the stretch between two `update_next_run` statements that set `next_run`.
`claim_job` checks that the job is enabled and unassigned, but not that it is still due: that was
the condition of an earlier `check_pending`.  If another node claims and finishes the job in
between, the late claim succeeds a second time in the same slot (`claims_not_once`).

This is the only way: as long as no `finish_job` takes effect on a row some node has read and not
claimed yet, what a node has read stays true until its claim (`DueWhenRead`), and the row is a
token that a claim consumes and only `update_next_run` puts back (`claim_once_per_slot`).
-/

namespace Workshop.Cron

open Workshop.Lib

variable {cl : Cluster} {j : ℕ} {s t : State} {e : Event}

/-- The step is none of a client on the job `j`, and neither `release_stale` nor `expire_jobs`
touches its row. -/
def Undisturbed (cl : Cluster) (j : ℕ) (s : State) (e : Event) : Prop :=
  e ≠ .delete j ∧ effective cl j Statement.isEditJob (s, e) = false ∧
    effective cl j Statement.isReleaseStale (s, e) = false ∧
    effective cl j Statement.isExpireJobs (s, e) = false

instance : Decidable (Undisturbed cl j s e) := inferInstanceAs (Decidable (_ ∧ _))

/-- If the step is a `finish_job` that takes effect on the job `j`, no node is between its
`check_pending` that returned the job and its `claim_job`. -/
def NoFinishBeforeClaim (cl : Cluster) (j : ℕ) (s : State) (e : Event) : Prop :=
  effective cl j Statement.isFinishJob (s, e) = true →
    ∀ n job, (s.nodes n).handler = .claim job → job.id ≠ j

/-- The row is due. -/
def DueAt (now : ℤ) (r : CronRow) : Prop := ∃ u, r.nextRun = some (.finite u) ∧ u ≤ now

lemma DueAt.mono {now now' : ℤ} {r : CronRow} (h : DueAt now r) (hle : now ≤ now') :
    DueAt now' r := by
  obtain ⟨u, hu, hdue⟩ := h
  exact ⟨u, hu, hdue.trans hle⟩

/-- The invariant: a job some node is about to claim is due. -/
def DueWhenRead (j : ℕ) (s : State) : Prop :=
  ∀ n job, (s.nodes n).handler = .claim job → job.id = j →
    ∃ r, s.table.find? j = some r ∧ DueAt s.now r

/-- A node gets in front of `claim_job` only by reading a due row. -/
lemma claim_of_step (h : step cl s e = some t) {n : String} {job : CronJob}
    (hclaim : (t.nodes n).handler = .claim job) :
    (s.nodes n).handler = .claim job ∨
      (e.statement s = none ∧ ∃ r, job = .ofRow r ∧ checkPending s.table s.now = some r) := by
  obtain ⟨ev, node, rfl, hnode, heq⟩ | heq := step_node_cases h n
  · rw [heq, CronNode.receive_handler] at hclaim
    obtain ⟨draw, rfl, hmoves⟩ | ⟨_, rest, _, hrest⟩ | hidle := CronNode.step_handler hnode
    · cases hmoves with
      | checked hcheck hr =>
          obtain rfl : _ = job := Handler.claim.inj hclaim
          refine .inr ⟨?_, _, rfl, hr⟩
          simp [Event.statement, CronNode.statement, CronNode.handlerStatement, hcheck]
      | @advanced _ rest _ =>
          rw [CronNode.advance_handler] at hclaim
          cases rest <;> exact absurd hclaim (by simp [rowsHandler])
      | lostRace _ _ | claimed _ _ =>
          obtain hfind | hidle := CronNode.continueClaim_handler _
          · exact absurd (hfind.symm.trans hclaim) (by simp)
          · exact absurd (hidle.symm.trans hclaim) (by simp)
      | _ => exact absurd hclaim (by simp [CronNode.scheduleClaim])
    · rw [hrest] at hclaim
      obtain hnone | ⟨_, _, _, hnext⟩ := rowsHandler_cases rest
      · exact absurd (hnone.symm.trans hclaim) (by simp)
      · exact absurd (hnext.symm.trans hclaim) (by simp)
    · rw [hclaim] at hidle
      exact absurd hidle (by simp)
  · rw [heq, CronNode.receive_handler] at hclaim
    exact .inl hclaim

/-- Without a client, `release_stale`, `expire_jobs` and `finish_job`, a row that is due stays
due. -/
lemma dueAt_rowAfter {r : CronRow} (hund : Undisturbed cl j s e)
    (hfin : effective cl j Statement.isFinishJob (s, e) = false)
    (hr : s.table.find? j = some r) (hdue : DueAt s.now r) : DueAt s.now (rowAfter cl s e r) := by
  obtain ⟨_, hedit, hrelease, hexpire⟩ := hund
  obtain heq | ⟨st, hst, hcond, heq⟩ := rowAfter_cases cl s e r
  · rw [heq]
    exact hdue
  · have hkind : ∀ kind : Statement → Bool,
        effective cl j kind (s, e) = false → kind st = false := by
      intro kind hkind
      by_contra hk
      have := effective_iff.mpr ⟨st, r, hst, by simpa using hk, hr, hcond⟩
      rw [hkind] at this
      exact absurd this (by simp)
    obtain ⟨u, hu, hle⟩ := hdue
    rw [heq]
    cases st with
    | releaseStale => exact absurd (hkind _ hrelease) (by simp [Statement.isReleaseStale])
    | expireJobs => exact absurd (hkind _ hexpire) (by simp [Statement.isExpireJobs])
    | makeRandomDelay => exact ⟨u, hu, hle⟩
    | updateNextRun =>
        obtain ⟨_, _, _, _, _, _, hnone⟩ := updateNextRun_cond.mp hcond
        rw [hu] at hnone
        exact absurd hnone (by simp)
    | claimJob => exact ⟨u, hu, hle⟩
    | finishJob => exact absurd (hkind _ hfin) (by simp [Statement.isFinishJob])
    | editJob => exact absurd (hkind _ hedit) (by simp [Statement.isEditJob])

/-- **The step lemma.**  What a node has read stays true. -/
lemma dueWhenRead_step (hI : DueWhenRead j s) (hund : Undisturbed cl j s e)
    (hfinish : NoFinishBeforeClaim cl j s e) (h : step cl s e = some t) : DueWhenRead j t := by
  intro n job hclaim hid
  have hnow := now_le_of_step h
  obtain hclaim | ⟨hnone, r, rfl, hcheck⟩ := claim_of_step h hclaim
  · obtain ⟨r, hr, hdue⟩ := hI n job hclaim hid
    have hfin : effective cl j Statement.isFinishJob (s, e) = false := by
      by_contra hf
      exact hfinish (by simpa using hf) n job hclaim hid
    exact ⟨_, step_find? h hr hund.1, (dueAt_rowAfter hund hfin hr hdue).mono hnow⟩
  · obtain ⟨hmem, hpending⟩ := checkPending_spec hcheck
    obtain ⟨_, _, u, hu, hle⟩ := isPending_iff.mp hpending
    have hr : s.table.find? j = some r := Table.find?_eq_some.mpr ⟨hmem, hid⟩
    refine ⟨r, ?_, u, hu, hle.trans hnow⟩
    rw [step_find? h hr hund.1, rowAfter_of_none hnone]

/-- The token of a slot: the job is scheduled and not assigned. -/
def Claimable (j : ℕ) (s : State) : Prop :=
  ∃ r, s.table.find? j = some r ∧ r.nodeName = none ∧ r.nextRun.isSome

lemma claim_of_effective (h : effective cl j Statement.isClaimJob (s, e) = true) :
    ∃ n job r, (s.nodes n).handler = .claim job ∧ job.id = j ∧ s.table.find? j = some r ∧
      r.nodeName = none ∧ rowAfter cl s e r = (claimJob j n leaseTimeout s.now).set r := by
  obtain ⟨st, r, hst, hkind, hr, hcond⟩ := effective_iff.mp h
  have hafter := rowAfter_of_statement hst hcond
  obtain ⟨_, _, _, rfl⟩ | ⟨n, ev, rfl, hexec⟩ := statement_cases hst
  · exact absurd hkind (by simp [Statement.isClaimJob])
  · cases hexec with
    | @claimJob _ draw job _ hhandler =>
        obtain ⟨hrid, _, hfree⟩ := claimJob_cond.mp hcond
        have hid : job.id = j := hrid.symm.trans (Table.key_of_find? hr)
        exact ⟨n, job, r, hhandler, hid, hr, hfree, by rw [hafter, ← hid]; rfl⟩
    | makeRandomDelay _ _ _ _ =>
        exact absurd hkind (by simp [Statement.isClaimJob, CronNode.delayStatement])
    | _ => exact absurd hkind (by simp [Statement.isClaimJob])

lemma claim_consumes (hI : DueWhenRead j s) (hund : Undisturbed cl j s e)
    (h : step cl s e = some t) (hclaim : effective cl j Statement.isClaimJob (s, e) = true) :
    Claimable j s ∧ ¬ Claimable j t := by
  obtain ⟨n, job, r, hhandler, hid, hr, hnode, hafter⟩ := claim_of_effective hclaim
  obtain ⟨r', hr', u, hu, _⟩ := hI n job hhandler hid
  obtain rfl : r = r' := Option.some.inj (hr.symm.trans hr')
  refine ⟨⟨r, hr, hnode, by simp [hu]⟩, ?_⟩
  rintro ⟨r', hr', hnode', _⟩
  rw [step_find? h hr hund.1, hafter] at hr'
  obtain rfl := Option.some.inj hr'
  exact absurd hnode' (by simp [claimJob])

lemma not_claimable_step (hund : Undisturbed cl j s e) (h : step cl s e = some t)
    (hupdate : effective cl j Statement.isUpdateNextRun (s, e) = false)
    (hs : ¬ Claimable j s) : ¬ Claimable j t := by
  obtain ⟨_, hedit, hrelease, hexpire⟩ := hund
  rintro ⟨r', hr', hnode, hnext⟩
  obtain ⟨r, hr, rfl⟩ | ⟨_, hnew, _⟩ := find?_step h hr'
  · apply hs
    obtain heq | ⟨st, hst, hcond, heq⟩ := rowAfter_cases cl s e r
    · rw [heq] at hnode hnext
      exact ⟨r, hr, hnode, hnext⟩
    · have hkind : ∀ kind : Statement → Bool, kind st = true → effective cl j kind (s, e) = true :=
        fun kind hk => effective_iff.mpr ⟨st, r, hst, hk, hr, hcond⟩
      rw [heq] at hnode hnext
      cases st with
      | releaseStale => exact absurd (hkind Statement.isReleaseStale rfl) (by simp [hrelease])
      | expireJobs => exact absurd (hkind Statement.isExpireJobs rfl) (by simp [hexpire])
      | makeRandomDelay => exact ⟨r, hr, hnode, hnext⟩
      | updateNextRun => exact absurd (hkind Statement.isUpdateNextRun rfl) (by simp [hupdate])
      | claimJob => exact absurd hnode (by simp [Statement.update, claimJob])
      | finishJob => exact absurd hnext (by simp [Statement.update, finishJob])
      | editJob => exact absurd (hkind Statement.isEditJob rfl) (by simp [hedit])
  · obtain ⟨_, _, _, hnone, _⟩ := hnew
    rw [hnone] at hnext
    exact absurd hnext (by simp)

/-- A slot of the trace of a run has at most one claim that takes effect, and every such claim
finds the job due. -/
def ExecutedOnce (cl : Cluster) (j : ℕ) (tr : List (State × Event)) : Prop :=
  (∀ before slot after, tr = before ++ slot ++ after →
      (∀ p ∈ slot, effective cl j Statement.isUpdateNextRun p = false) →
      slot.countP (effective cl j Statement.isClaimJob) ≤ 1) ∧
    ∀ p ∈ tr, effective cl j Statement.isClaimJob p = true →
      ∃ r, p.1.table.find? j = some r ∧ DueAt p.1.now r

/-- **Every slot is executed at most once**, by any number of nodes in any interleaving, in every
run in which no `finish_job` takes effect on the row while a node is between its `check_pending`
and its `claim_job` for it. -/
theorem claim_once_per_slot (cl : Cluster) (j : ℕ) {s t : State} {tr : List (State × Event)}
    (hrun : Run (step cl) s tr t)
    (hstart : ∀ n job, (s.nodes n).handler = .claim job → job.id ≠ j)
    (hund : ∀ p ∈ tr, Undisturbed cl j p.1 p.2)
    (hfinish : ∀ p ∈ tr, NoFinishBeforeClaim cl j p.1 p.2) : ExecutedOnce cl j tr := by
  have hI : DueWhenRead j s := fun n job hclaim hid => absurd hid (hstart n job hclaim)
  have hkeep : ∀ s e t, DueWhenRead j s → Undisturbed cl j s e ∧ NoFinishBeforeClaim cl j s e →
      step cl s e = some t → DueWhenRead j t :=
    fun s e t hI hC h => dueWhenRead_step hI hC.1 hC.2 h
  refine ⟨?_, ?_⟩
  · rintro before slot after rfl hno
    obtain ⟨m, hpre, _⟩ := hrun.split
    obtain ⟨m', hbefore, hslot⟩ := hpre.split
    have hI' : DueWhenRead j m' := (hbefore.invariant hkeep hI fun p hp =>
      ⟨hund p (by simp [hp]), hfinish p (by simp [hp])⟩).1
    exact hslot.countP_le_one (fun s e t hI hC h hA => claim_consumes hI hC.1 h hA)
      (fun s e t _ hC h hB => not_claimable_step hC.1 h hB) hkeep hI'
      (fun p hp => ⟨hund p (by simp [hp]), hfinish p (by simp [hp])⟩) hno
  · intro p hp hclaim
    have hIp : DueWhenRead j p.1 :=
      (hrun.invariant hkeep hI fun p hp => ⟨hund p hp, hfinish p hp⟩).2 p hp
    obtain ⟨n, job, _, hhandler, hid, _⟩ := claim_of_effective hclaim
    exact hIp n job hhandler hid

/-! ## A single node -/

/-- Only the node `a` does something. -/
def OnlyNode (a : String) : Event → Bool
  | .node n _ => n == a
  | _ => true

lemma idle_of_onlyNode {a : String} {tr : List (State × Event)} (hrun : Run (step cl) s tr t)
    (hstart : ∀ n, n ≠ a → (s.nodes n).handler = .idle) (honly : ∀ p ∈ tr, OnlyNode a p.2 = true) :
    ∀ p ∈ tr, ∀ n, n ≠ a → (p.1.nodes n).handler = .idle := by
  refine (hrun.invariant (I := fun s => ∀ n, n ≠ a → (s.nodes n).handler = .idle)
    (C := fun _ e => OnlyNode a e = true) ?_ hstart honly).2
  intro s e t hidle hC h n hn
  have hother : ∀ ev, e ≠ .node n ev := by
    rintro ev rfl
    exact hn (by simpa [OnlyNode] using hC)
  rw [step_other h hother, CronNode.receive_handler]
  exact hidle n hn

lemma finish_not_claim (h : step cl s e = some t)
    (hfin : effective cl j Statement.isFinishJob (s, e) = true) :
    ∃ n ev, e = .node n ev ∧ ((s.nodes n).handler = .idle ∨ (s.nodes n).handler = .find) := by
  obtain ⟨st, r, hst, hkind, _, _⟩ := effective_iff.mp hfin
  obtain ⟨_, _, _, rfl⟩ | ⟨n, ev, rfl, hexec⟩ := statement_cases hst
  · exact absurd hkind (by simp [Statement.isFinishJob])
  · obtain ⟨node, hnode, _⟩ := step_self h
    refine ⟨n, ev, rfl, ?_⟩
    cases hexec with
    | finishJob hev _ =>
        obtain rfl | rfl := hev
        · exact (Option.ite_none_right_eq_some.mp hnode).1
        · exact .inl (Option.ite_none_right_eq_some.mp hnode).1
    | makeRandomDelay _ _ _ _ =>
        exact absurd hkind (by simp [Statement.isFinishJob, CronNode.delayStatement])
    | _ => exact absurd hkind (by simp [Statement.isFinishJob])

lemma noFinishBeforeClaim_of_onlyNode {a : String} {tr : List (State × Event)}
    (hrun : Run (step cl) s tr t) (hstart : ∀ n, n ≠ a → (s.nodes n).handler = .idle)
    (honly : ∀ p ∈ tr, OnlyNode a p.2 = true) :
    ∀ p ∈ tr, NoFinishBeforeClaim cl j p.1 p.2 := by
  intro p hp hfin n job hclaim
  by_cases hn : n = a
  · obtain ⟨t', hstep⟩ := hrun.step_of_mem hp
    obtain ⟨m, ev, hev, hhandler⟩ := finish_not_claim hstep hfin
    have hm : m = a := by
      have := honly p hp
      rw [hev] at this
      simpa [OnlyNode] using this
    rw [hm, ← hn, hclaim] at hhandler
    exact absurd hhandler (by simp)
  · rw [idle_of_onlyNode hrun hstart honly p hp n hn] at hclaim
    exact absurd hclaim (by simp)

/-! ## Two nodes -/

/-- A cluster with a default timeout of five minutes and one free slot more than needed. -/
def smallCluster : Cluster where
  zones := utcOnly
  defaultTimeout _ := 5 * minute
  concurrency _ := 2

/-- A job for every minute, scheduled for the time zero. -/
def scheduledJob (id : ℕ) : CronRow :=
  { minutelyJob id with delay := some 0, delayRange := some 60, nextRun := some (.finite 0) }

/-- One scheduled job and no node that is connected. -/
def oneJob : State where
  table := .single (scheduledJob 1)
  now := 0
  nodes _ := {}

/-- A node connects, is enabled, and reads the due job. -/
def readDue (n : String) : List Event :=
  [.node n .connect, .node n (.setStateEnabled true), .node n .claimTimer, .node n (.resume 0),
    .node n (.resume 0)]

/-- The job of `a` is claimed and finished while `b` has read it; then `b` claims it. -/
def lateClaim : List Event :=
  readDue "a" ++ readDue "b" ++
    [.node "a" (.resume 0), .node "a" (.resume 0), .node "a" (.complete 0), .node "b" (.resume 0)]

/-- **A slot can be executed twice**, the second time without `next_run`. -/
theorem claims_not_once :
    ¬ ∀ (cl : Cluster) (j : ℕ) (s t : State) (tr : List (State × Event)),
        Run (step cl) s tr t → (∀ n job, (s.nodes n).handler = .claim job → job.id ≠ j) →
        (∀ p ∈ tr, Undisturbed cl j p.1 p.2) → ExecutedOnce cl j tr := by
  intro h
  have hsome : (final (step smallCluster) oneJob lateClaim).isSome = true := by decide +kernel
  obtain ⟨t, ht⟩ := Option.isSome_iff_exists.mp hsome
  have hund : ∀ p ∈ traceOf (step smallCluster) oneJob lateClaim,
      Undisturbed smallCluster 1 p.1 p.2 := by decide +kernel
  obtain ⟨honce, _⟩ := h smallCluster 1 oneJob t _ (Run.of_final ht) (by simp [oneJob]) hund
  have hslot := honce [] (traceOf (step smallCluster) oneJob lateClaim) [] (by simp)
    (by decide +kernel)
  revert hslot
  decide +kernel

/-- A node alone executes the job, and again in the next slot. -/
def twoSlots : List Event :=
  readDue "a" ++
    [.node "a" (.resume 0), .node "a" (.resume 0), .tick 1000000, .node "a" (.complete 0),
      .node "a" .schedulerTimer, .node "a" (.resume 0), .node "a" (.resume 0),
      .node "a" (.resume 0),
      .tick 60000000, .node "a" .notify, .node "a" .notify, .node "a" .claimTimer,
      .node "a" (.resume 0), .node "a" (.resume 0), .node "a" (.resume 0)]

theorem claim_once_per_slot_single :
    (traceOf (step smallCluster) oneJob twoSlots).countP
        (effective smallCluster 1 Statement.isClaimJob) = 2 ∧
      ExecutedOnce smallCluster 1 (traceOf (step smallCluster) oneJob twoSlots) := by
  have hsome : (final (step smallCluster) oneJob twoSlots).isSome = true := by decide +kernel
  obtain ⟨t, ht⟩ := Option.isSome_iff_exists.mp hsome
  have hrun := Run.of_final ht
  refine ⟨by decide +kernel, ?_⟩
  exact claim_once_per_slot smallCluster 1 hrun (by simp [oneJob]) (by decide +kernel)
    (noFinishBeforeClaim_of_onlyNode (a := "a") hrun (fun _ _ => rfl) (by decide +kernel))

end Workshop.Cron

import Workshop.Cron.Lease

/-!
# Releasing one's own claim

`finish_job` releases a job if `node_name` is that of the node, and nothing else: it cannot tell one
claim of the same node from another.  The claims of a job are numbered here, as a history beside the
cluster (`Numbered`), and an execution has the number of the claim that started it.

A node that loses its job, to `release_stale` after a reconnect or to another node's `expire_jobs`,
does not stop the process.  If it claims the job again meanwhile, the end of the first execution
releases the claim of the second one (`releases_other_claim`).  As long as no node claims a job it
is still running, every execution releases its own claim only (`releases_own_claim`).
-/

namespace Workshop.Cron

open Workshop.Lib

/-! ## Numbered claims -/

/-- The cluster with a history: how often each job was claimed, and for the `Running` objects of
each node, in their order, the job and the number of its claim. -/
structure Numbered where
  state : State
  claims : ℕ → ℕ
  executions : String → List (ℕ × ℕ)

/-- Nothing was claimed yet. -/
def Numbered.start (s : State) : Numbered where
  state := s
  claims _ := 0
  executions _ := []

namespace Numbered

variable (cl : Cluster) (s : Numbered)

/-- A `claim_job` that takes effect counts, also if its answer is lost. -/
def claimsAfter (e : Event) (j : ℕ) : ℕ :=
  if effective cl j Statement.isClaimJob (s.state, e) then s.claims j + 1 else s.claims j

/-- The executions of a node after one of its events: a claim whose answer arrives starts one, and
`OnCompletion` and `OnTimeout` end one. -/
def nodeExecutions (n : String) : NodeEvent → List (ℕ × ℕ)
  | .resume draw =>
    match (s.state.nodes n).handler with
    | .claim job =>
      if effective cl job.id Statement.isClaimJob (s.state, .node n (.resume draw)) then
        s.executions n ++ [(job.id, s.claims job.id + 1)]
      else s.executions n
    | _ => s.executions n
  | .complete i | .timeout i | .finishFailed i => (s.executions n).eraseIdx i
  | _ => s.executions n

/-- The executions after an event. -/
def executionsAfter (e : Event) (m : String) : List (ℕ × ℕ) :=
  match e with
  | .node n ev => if n = m then s.nodeExecutions cl n ev else s.executions m
  | _ => s.executions m

/-- One step of the cluster, with its history. -/
def step (e : Event) : Option Numbered :=
  (Cron.step cl s.state e).map fun t =>
    { state := t, claims := s.claimsAfter cl e, executions := s.executionsAfter cl e }

/-- The execution that ends in a step. -/
def ending : Event → Option (ℕ × ℕ)
  | .node n (.complete i) | .node n (.timeout i) | .node n (.finishFailed i) =>
    (s.executions n)[i]?
  | _ => none

end Numbered

/-- If the `Finish` of an execution takes effect, its claim is still the last one of the job. -/
def ReleasesOwnClaim (cl : Cluster) (s : Numbered) (e : Event) : Prop :=
  ∀ j k, s.ending e = some (j, k) →
    effective cl j Statement.isFinishJob (s.state, e) = true → s.claims j = k

/-- No node claims a job of which it still has a `Running` object. -/
def NoSecondRun (cl : Cluster) (s : State) : Event → Prop
  | .node n ev => ∀ r ∈ (s.nodes n).running,
      effective cl r.job.id Statement.isClaimJob (s, .node n ev) = false
  | _ => True

/-- The executions of the history are the `Running` objects. -/
def Aligned (s : Numbered) : Prop :=
  ∀ n, (s.executions n).map Prod.fst = (s.state.nodes n).running.map fun r => r.job.id

/-- The invariant: an execution on the node its job is assigned to has the last claim. -/
structure OwnInv (s : Numbered) : Prop where
  aligned : Aligned s
  own : ∀ n j k, (j, k) ∈ s.executions n → ∀ row, s.state.table.find? j = some row →
    row.nodeName = some n → s.claims j = k

variable {cl : Cluster} {s t : Numbered} {e : Event}

/-! ## Running objects, in their order -/

lemma effective_claim_iff (cl : Cluster) {s : State} {n : String} (draw : ℕ) {job : CronJob}
    (hhandler : (s.nodes n).handler = .claim job) :
    effective cl job.id Statement.isClaimJob (s, .node n (.resume draw)) = true ↔
      0 < s.table.affected (claimJob job.id n leaseTimeout s.now) := by
  have hst : Event.statement s (.node n (.resume draw)) =
      some (.claimJob job.id n leaseTimeout s.now) := by
    simp [Event.statement, CronNode.statement, CronNode.handlerStatement, hhandler]
  rw [Table.affected_pos_of_key fun a ha => (claimJob_cond.mp ha).1, effective_iff]
  constructor
  · rintro ⟨st, row, hst', _, hrow, hcond⟩
    obtain rfl := Option.some.inj (hst.symm.trans hst')
    exact ⟨row, hrow, hcond⟩
  · rintro ⟨row, hrow, hcond⟩
    exact ⟨_, row, hst, rfl, hrow, hcond⟩

lemma map_job_set {running : List Running} {i : ℕ} {r : Running} (hr : running[i]? = some r)
    (timeout : Option ℤ) :
    ((running.set i { r with timeoutEvent := timeout }).map fun r => r.job.id) =
      running.map fun r => r.job.id := by
  obtain ⟨hi, rfl⟩ := List.getElem?_eq_some_iff.mp hr
  have hi' : i < (running.map fun r => r.job.id).length := by simpa using hi
  have hset := List.set_getElem_self hi'
  rw [List.getElem_map] at hset
  rw [List.map_set]
  exact hset

lemma Numbered.nodeExecutions_kept {n : String} {ev : NodeEvent}
    (hend : ev.ends = none)
    (hclaim : ∀ draw job, ev = .resume draw → (s.state.nodes n).handler = .claim job →
      s.state.table.affected (claimJob job.id n leaseTimeout s.state.now) = 0) :
    s.nodeExecutions cl n ev = s.executions n := by
  cases ev with
  | resume draw =>
      simp only [Numbered.nodeExecutions]
      split
      · rename_i job hhandler
        rw [if_neg]
        rw [effective_claim_iff cl draw hhandler, hclaim draw job rfl hhandler]
        exact Nat.lt_irrefl 0
      · rfl
  | complete i | timeout i | finishFailed i =>
      exact absurd hend (Option.some_ne_none i)
  | _ => rfl

lemma Aligned.nodeExecutions (h : Aligned s) {n : String} {ev : NodeEvent} {node : CronNode}
    (hnode : (s.state.nodes n).step cl n s.state.table s.state.now ev = some node) :
    (s.nodeExecutions cl n ev).map Prod.fst = node.running.map fun r => r.job.id := by
  have hruns := CronNode.step_running hnode
  generalize node.running = running at hruns
  cases hruns with
  | @claimed draw job hev hhandler haff =>
      have heffective := (effective_claim_iff cl draw hhandler).mpr haff
      simp [hev, Numbered.nodeExecutions, hhandler, heffective, h n, CronNode.startedJob]
  | translated hev _ hr =>
      rw [map_job_set hr, ← h n, hev]
      rfl
  | @ended i hends =>
      rw [← List.eraseIdx_map, ← h n, List.eraseIdx_map]
      cases ev with
      | complete _ | timeout _ | finishFailed _ =>
          obtain rfl := Option.some.inj hends
          rfl
      | _ => exact absurd hends (by simp [NodeEvent.ends])
  | kept hend hclaim => rw [Numbered.nodeExecutions_kept hend hclaim, h n]

lemma Numbered.executionsAfter_other {m : String} (hm : ∀ ev, e ≠ .node m ev) :
    s.executionsAfter cl e m = s.executions m := by
  unfold Numbered.executionsAfter
  split
  · rename_i n ev
    exact if_neg fun heq => hm ev (by rw [heq])
  · rfl

lemma Aligned.step (h : Aligned s) (hstep : s.step cl e = some t) : Aligned t := by
  obtain ⟨t', ht', rfl⟩ := Option.map_eq_some_iff.mp hstep
  intro m
  show (s.executionsAfter cl e m).map Prod.fst = (t'.nodes m).running.map fun r => r.job.id
  by_cases hm : ∃ ev, e = .node m ev
  · obtain ⟨ev, rfl⟩ := hm
    obtain ⟨node, hnode, heq, _⟩ := step_self ht'
    rw [heq, CronNode.receive_running, ← h.nodeExecutions hnode, Numbered.executionsAfter,
      if_pos rfl]
  · have hother : ∀ ev, e ≠ .node m ev := fun ev heq => hm ⟨ev, heq⟩
    rw [Numbered.executionsAfter_other hother, step_other ht' hother, CronNode.receive_running]
    exact h m

/-! ## Claims and releases -/

lemma nodeName_rowAfter {s : State} {row : CronRow} {n : String}
    (hrow : s.table.find? row.id = some row) (h : (rowAfter cl s e row).nodeName = some n) :
    row.nodeName = some n ∨
      (∃ ev, e = .node n ev) ∧ effective cl row.id Statement.isClaimJob (s, e) = true := by
  obtain ⟨hsame, -⟩ | ⟨hnone, -⟩ | ⟨m, ev, st, rfl, hst, hclaims, hcond, hnode, -⟩ :=
    assignment_rowAfter cl s e row
  · exact .inl (hsame.symm.trans h)
  · exact absurd (hnone.symm.trans h) (by simp)
  · obtain rfl := Option.some.inj (hnode.symm.trans h)
    exact .inr ⟨⟨ev, rfl⟩, effective_iff.mpr ⟨st, row, hst, hclaims, hrow, hcond⟩⟩

/-- Where an execution comes from: it was there before, or its claim is that of this step. -/
lemma Numbered.mem_executionsAfter {m : String} {j k : ℕ} (h : (j, k) ∈ s.executionsAfter cl e m) :
    (j, k) ∈ s.executions m ∨ k = s.claimsAfter cl e j := by
  by_cases hm : ∃ ev, e = .node m ev
  · obtain ⟨ev, rfl⟩ := hm
    rw [Numbered.executionsAfter, if_pos rfl] at h
    cases ev with
    | resume draw =>
        simp only [Numbered.nodeExecutions] at h
        split at h
        · split at h
          · rename_i job _ heffective
            rcases List.mem_append.mp h with h | h
            · exact .inl h
            · obtain ⟨rfl, rfl⟩ := Prod.mk.inj (List.mem_singleton.mp h)
              exact .inr (if_pos heffective).symm
          · exact .inl h
        · exact .inl h
    | complete i | timeout i | finishFailed i => exact .inl (List.mem_of_mem_eraseIdx h)
    | _ => exact .inl h
  · rw [Numbered.executionsAfter_other fun ev heq => hm ⟨ev, heq⟩] at h
    exact .inl h

/-- **The step lemma.** -/
lemma OwnInv.step (h : OwnInv s) (hfresh : NoSecondRun cl s.state e)
    (hstep : s.step cl e = some t) :
    OwnInv t := by
  refine ⟨h.aligned.step hstep, ?_⟩
  obtain ⟨t', ht', rfl⟩ := Option.map_eq_some_iff.mp hstep
  intro n j k hexecution row' hrow' hname
  show s.claimsAfter cl e j = k
  obtain hold | rfl := Numbered.mem_executionsAfter hexecution
  · obtain ⟨row, hrow, rfl⟩ | ⟨_, hnew, _⟩ := find?_step ht' hrow'
    · obtain rfl := Table.key_of_find? hrow
      obtain hassigned | ⟨⟨ev, rfl⟩, hclaims⟩ := nodeName_rowAfter hrow hname
      · -- an assigned job cannot be claimed
        have hno : effective cl row.id Statement.isClaimJob (s.state, e) ≠ true := by
          intro heffective
          obtain ⟨_, _, r, _, _, hr, hfree, _⟩ := claim_of_effective heffective
          obtain rfl := Option.some.inj (hrow.symm.trans hr)
          exact absurd (hassigned.symm.trans hfree) (by simp)
        rw [Numbered.claimsAfter, if_neg hno]
        exact h.own n row.id k hold row hrow hassigned
      · -- the node does not run the job it claims
        have hrunning : row.id ∈ (s.state.nodes n).running.map fun r => r.job.id := by
          rw [← h.aligned n]
          exact List.mem_map_of_mem hold
        obtain ⟨r, hr, hid⟩ := List.mem_map.mp hrunning
        have hno := hfresh r hr
        rw [hid] at hno
        exact absurd (hno.symm.trans hclaims) (by simp)
    · obtain ⟨_, _, _, _, hnone, _⟩ := hnew
      exact absurd (hnone.symm.trans hname) (by simp)
  · rfl

lemma OwnInv.releases (h : OwnInv s) : ReleasesOwnClaim cl s e := by
  intro j k hending heffective
  obtain ⟨st, row, hst, hkind, hrow, hcond⟩ := effective_iff.mp heffective
  obtain ⟨n, ev', hmem, rfl⟩ : ∃ n ev, (j, k) ∈ s.executions n ∧ e = .node n ev := by
    unfold Numbered.ending at hending
    split at hending
    · exact ⟨_, _, List.mem_of_getElem? hending, rfl⟩
    · exact ⟨_, _, List.mem_of_getElem? hending, rfl⟩
    · exact ⟨_, _, List.mem_of_getElem? hending, rfl⟩
    · exact absurd hending (by simp)
  refine h.own n j k hmem row hrow ?_
  obtain ⟨_, _, _, rfl⟩ | ⟨m, ev, hev, hexec⟩ := statement_cases hst
  · exact absurd hkind (by simp [Statement.isFinishJob])
  · obtain ⟨rfl, rfl⟩ := Event.node.inj hev
    cases hexec with
    | finishJob _ _ => exact (finishJob_cond.mp hcond).2
    | _ => exact absurd hkind (by simp [Statement.isFinishJob, CronNode.delayStatement])

/-- **An execution releases only its own claim.**  In every run from nodes that run nothing, in
which no node claims a job of which it still has a `Running` object, a `Finish` that takes effect is
that of the execution the last claim of the job has started; and the executions are the `Running`
objects. -/
theorem releases_own_claim (cl : Cluster) {s : State} {t : Numbered} {tr : List (Numbered × Event)}
    (hrun : Run (Numbered.step cl) (.start s) tr t) (hstart : ∀ n, (s.nodes n).running = [])
    (hfresh : ∀ p ∈ tr, NoSecondRun cl p.1.state p.2) :
    ∀ p ∈ tr, ReleasesOwnClaim cl p.1 p.2 ∧ Aligned p.1 := by
  have hI : OwnInv (.start s) := by
    refine ⟨fun n => ?_, fun n j k hmem => absurd hmem (by simp [Numbered.start])⟩
    show [] = (s.nodes n).running.map fun r => r.job.id
    rw [hstart n]
    rfl
  obtain ⟨_, htr⟩ := hrun.invariant (I := OwnInv) (C := fun s e => NoSecondRun cl s.state e)
    (fun s e t h hC hstep => h.step hC hstep) hI hfresh
  exact fun p hp => ⟨(htr p hp).releases, (htr p hp).aligned⟩

/-! ## A node that claims its own job again -/

/-- Node `a` runs the job and reconnects; `release_stale` takes the job away from it, it is
scheduled again, and `a` claims it once more. -/
def claimsAgain : List Event :=
  readDue "a" ++
    [.node "a" (.resume 0), .node "a" (.resume 0), .node "a" .disconnect, .node "a" .connect,
      .node "a" .schedulerTimer, .node "a" (.resume 0), .node "a" (.resume 0),
      .node "a" (.resume 0),
      .tick 60000000, .node "a" .claimTimer, .node "a" (.resume 0), .node "a" (.resume 0),
      .node "a" (.resume 0)]

/-- **The end of the first execution releases the claim of the second one.** -/
theorem releases_other_claim :
    ¬ ∀ (cl : Cluster) (s : State) (t : Numbered) (tr : List (Numbered × Event)),
        Run (Numbered.step cl) (.start s) tr t → (∀ n, (s.nodes n).running = []) →
        ∀ p ∈ tr, ReleasesOwnClaim cl p.1 p.2 := by
  intro h
  have hagain : (final (Numbered.step smallCluster) (.start oneJob) claimsAgain).bind
      (fun t => (t.step smallCluster (.node "a" (.complete 0))).map fun _ =>
        (t.claims 1, t.executions "a",
          effective smallCluster 1 Statement.isFinishJob (t.state, .node "a" (.complete 0)))) =
      some (2, [(1, 1), (1, 2)], true) := by
    decide +kernel
  obtain ⟨t, ht, hfinish⟩ := Option.bind_eq_some_iff.mp hagain
  obtain ⟨t', ht', heq⟩ := Option.map_eq_some_iff.mp hfinish
  simp only [Prod.mk.injEq] at heq
  obtain ⟨hclaims, hexecutions, heffective⟩ := heq
  have hrun := (Run.of_final ht).append (.cons ht' (.nil t'))
  have hown := h smallCluster oneJob t' _ hrun (fun _ => rfl) (t, .node "a" (.complete 0))
    (List.mem_append_right _ (List.mem_singleton_self _))
  have hending : t.ending (.node "a" (.complete 0)) = some (1, 1) := by
    rw [Numbered.ending, hexecutions]
    rfl
  exact absurd ((hown 1 1 hending heffective).symm.trans hclaims) (by decide)

instance (cl : Cluster) (s : State) : (e : Event) → Decidable (NoSecondRun cl s e)
  | .node n ev => inferInstanceAs (Decidable (∀ r ∈ (s.nodes n).running,
      effective cl r.job.id Statement.isClaimJob (s, .node n ev) = false))
  | .tick _ | .insert _ | .edit _ _ | .delete _ => inferInstanceAs (Decidable True)

/-- The job is executed and finished in two slots, one after the other. -/
theorem releases_own_claim_twoSlots :
    (final (Numbered.step smallCluster) (.start oneJob) twoSlots).map
        (fun t => (t.claims 1, t.executions "a")) = some (2, [(1, 2)]) ∧
      ∀ p ∈ traceOf (Numbered.step smallCluster) (.start oneJob) twoSlots,
        ReleasesOwnClaim smallCluster p.1 p.2 := by
  have hsome : (final (Numbered.step smallCluster) (.start oneJob) twoSlots).isSome = true := by
    decide +kernel
  obtain ⟨t, ht⟩ := Option.isSome_iff_exists.mp hsome
  refine ⟨by decide +kernel, fun p hp => ?_⟩
  exact (releases_own_claim smallCluster (Run.of_final ht) (fun _ => rfl) (by decide +kernel)
    p hp).1

end Workshop.Cron

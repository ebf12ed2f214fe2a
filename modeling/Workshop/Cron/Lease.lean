import Workshop.Cron.Slots

/-!
# Leases

`claim_job` sets `node_timeout`, after which another node's `expire_jobs` may release the job, five
minutes ahead.  The node kills its process when its own timer fires: `default_timeout` after the
start, or what the translation server says, counted from its answer.  Nothing relates the two: with
a `default_timeout` of ten minutes, a job that may run for ten minutes loses its lease after five
(`lease_too_short`).

The lease outlives the run if the kill timer is never armed beyond five minutes after the start
(`lease_outlives_run`): then no node's `expire_jobs` can take a job from a process that may still
run.
-/

namespace Workshop.Cron

open Workshop.Lib

variable {cl : Cluster} {s t : State} {e : Event}

/-- While the kill timer of a running job has not fired, `node_timeout` of its row has not passed,
and no node can expire the job. -/
def LeaseOutlives (s : State) : Prop :=
  ∀ n, ∀ r ∈ (s.nodes n).running, ∀ d, r.timeoutEvent = some d → s.now ≤ d →
    ∀ row, s.table.find? r.job.id = some row →
      (∀ timeout, row.nodeTimeout = some timeout → s.now ≤ timeout) ∧
        ∀ m, (expireJobs m s.now).cond row = false

/-- The answer of the translation server does not move the kill timer beyond the lease. -/
def ArmsWithinLease (s : State) : Event → Prop
  | .node n (.translated i timeout) => ∀ r, (s.nodes n).running[i]? = some r →
      0 < timeout → s.now + timeout ≤ r.startTime2 + leaseTimeout
  | _ => True

/-- A running job was started in the past, will be killed within five minutes of its start, and its
row is assigned at least as long. -/
structure Leased (s : State) (r : Running) : Prop where
  started : r.startTime2 ≤ s.now
  deadline : ∀ d, r.timeoutEvent = some d → d ≤ r.startTime2 + leaseTimeout
  lease : ∀ row, s.table.find? r.job.id = some row → ∀ timeout, row.nodeTimeout = some timeout →
    r.startTime2 + leaseTimeout ≤ timeout

/-- The invariant; a job read from the table has no timeout of its own. -/
structure LeaseInv (s : State) : Prop where
  leased : ∀ n, ∀ r ∈ (s.nodes n).running, Leased s r
  noTimeout : ∀ n job, (s.nodes n).handler = .claim job → job.timeout = 0

/-- **Who holds a row**: this stays as it is, or nobody does any more, or the node that claims the
job does, for the time of a lease. -/
lemma assignment_rowAfter (cl : Cluster) (s : State) (e : Event) (row : CronRow) :
    ((rowAfter cl s e row).nodeName = row.nodeName ∧
        (rowAfter cl s e row).nodeTimeout = row.nodeTimeout) ∨
      ((rowAfter cl s e row).nodeName = none ∧ (rowAfter cl s e row).nodeTimeout = none) ∨
      ∃ n ev st, e = .node n ev ∧ e.statement s = some st ∧ st.isClaimJob = true ∧
        (st.update cl.zones).cond row = true ∧ (rowAfter cl s e row).nodeName = some n ∧
        (rowAfter cl s e row).nodeTimeout = some (s.now + leaseTimeout) := by
  obtain heq | ⟨st, hst, hcond, heq⟩ := rowAfter_cases cl s e row
  · rw [heq]
    exact .inl ⟨rfl, rfl⟩
  · rw [heq]
    obtain ⟨_, _, rfl, rfl⟩ | ⟨n, ev, rfl, hexec⟩ := statement_cases hst
    · exact .inl ⟨rfl, rfl⟩
    · cases hexec with
      | releaseStale | expireJobs | finishJob _ _ => exact .inr (.inl ⟨rfl, rfl⟩)
      | makeRandomDelay _ _ _ _ => exact .inl ⟨rfl, rfl⟩
      | updateNextRun _ _ _ =>
          obtain ⟨z, hz, _⟩ := updateNextRun_cond.mp hcond
          rw [Statement.update, updateNextRun_set hz]
          exact .inl ⟨rfl, rfl⟩
      | claimJob _ _ => exact .inr (.inr ⟨n, ev, _, rfl, hst, rfl, hcond, rfl, rfl⟩)

lemma nodeTimeout_rowAfter {row : CronRow} {timeout : ℤ}
    (h : (rowAfter cl s e row).nodeTimeout = some timeout) :
    row.nodeTimeout = some timeout ∨ timeout = s.now + leaseTimeout := by
  obtain ⟨-, hsame⟩ | ⟨-, hnone⟩ | ⟨_, _, _, _, _, _, _, -, hlease⟩ :=
    assignment_rowAfter cl s e row
  · exact .inl (hsame.symm.trans h)
  · exact absurd (hnone.symm.trans h) (by simp)
  · exact .inr (Option.some.inj (h.symm.trans hlease))

lemma leased_step (h : step cl s e = some t) {r : Running} (hr : Leased s r) : Leased t r := by
  refine ⟨hr.started.trans (now_le_of_step h), hr.deadline, ?_⟩
  intro row' hrow' timeout htimeout
  obtain ⟨row, hrow, rfl⟩ | ⟨_, hnew, _⟩ := find?_step h hrow'
  · obtain hold | rfl := nodeTimeout_rowAfter htimeout
    · exact hr.lease row hrow timeout hold
    · have := hr.started
      omega
  · obtain ⟨_, _, _, _, _, hnone⟩ := hnew
    exact absurd (hnone.symm.trans htimeout) (by simp)

/-- **Where a running job comes from**: it was running before, the translation server has answered
for it, or it has just been claimed. -/
lemma running_of_nodeStep {name : String} {table : CronTable} {now : ℤ} {node node' : CronNode}
    {ev : NodeEvent} (h : node.step cl name table now ev = some node') {r : Running}
    (hr : r ∈ node'.running) :
    r ∈ node.running ∨
      (∃ i timeout r₀, ev = .translated i timeout ∧ 0 < timeout ∧ node.running[i]? = some r₀ ∧
        r = { r₀ with timeoutEvent := some (now + timeout) }) ∨
      (∃ draw job, ev = .resume draw ∧ node.handler = .claim job ∧
        0 < table.affected (claimJob job.id name leaseTimeout now) ∧
        r = CronNode.startedJob cl name now job) := by
  have hruns := CronNode.step_running h
  generalize node'.running = running' at hruns hr
  cases hruns with
  | @claimed draw job hev hhandler haff =>
      obtain hr | hr := List.mem_append.mp hr
      · exact .inl hr
      · exact .inr (.inr ⟨draw, job, hev, hhandler, haff, List.mem_singleton.mp hr⟩)
  | @translated i timeout r₀ hev hpos hr₀ =>
      obtain hr | rfl := List.mem_or_eq_of_mem_set hr
      · exact .inl hr
      · exact .inr (.inl ⟨i, timeout, r₀, hev, hpos, hr₀, rfl⟩)
  | ended _ => exact .inl (List.mem_of_mem_eraseIdx hr)
  | kept _ _ => exact .inl hr

/-- **The step lemma.** -/
lemma leaseInv_step (hdefault : ∀ n, cl.defaultTimeout n ≤ leaseTimeout) (hI : LeaseInv s)
    (harm : ArmsWithinLease s e) (h : step cl s e = some t) : LeaseInv t := by
  refine ⟨?_, ?_⟩
  · intro n r hr
    obtain ⟨ev, node, rfl, hnode, heq⟩ | heq := step_node_cases h n
    · rw [heq, CronNode.receive_running] at hr
      obtain hr | ⟨i, timeout, r₀, rfl, hpos, hr₀, rfl⟩ | ⟨draw, job, rfl, hh, haff, rfl⟩ :=
        running_of_nodeStep hnode hr
      · exact leased_step h (hI.leased n r hr)
      · have hr₀' := hI.leased n r₀ (List.mem_of_getElem? hr₀)
        obtain ⟨hstarted, _, hlease⟩ := leased_step h hr₀'
        refine ⟨hstarted, ?_, hlease⟩
        intro d hd
        obtain rfl := Option.some.inj hd
        exact harm r₀ hr₀ hpos
      · -- the claim of this step has set the lease of the new object
        have hzero : job.timeout = 0 := hI.noTimeout n job hh
        refine ⟨now_le_of_step h, ?_, ?_⟩
        · intro d hd
          have hdef := hdefault n
          simp only [CronNode.startedJob, hzero, le_refl, if_true] at hd ⊢
          split at hd
          · obtain rfl := Option.some.inj hd
            omega
          · exact absurd hd (by simp)
        · intro row' hrow' timeout htimeout
          have hid : (CronNode.startedJob cl n s.now job).job.id = job.id := rfl
          rw [hid] at hrow'
          have hst : Event.statement s (.node n (.resume draw)) =
              some (.claimJob job.id n leaseTimeout s.now) := by
            simp [Event.statement, CronNode.statement, CronNode.handlerStatement, hh]
          obtain ⟨row, hrow, hcond⟩ :=
            (Table.affected_pos_of_key fun a ha => (claimJob_cond.mp ha).1).mp haff
          have hafter : rowAfter cl s (.node n (.resume draw)) row =
              (claimJob job.id n leaseTimeout s.now).set row :=
            rowAfter_of_statement hst hcond
          rw [step_find? h hrow (by simp), hafter] at hrow'
          obtain rfl := Option.some.inj hrow'
          obtain rfl := Option.some.inj htimeout
          exact le_refl _
    · rw [heq, CronNode.receive_running] at hr
      exact leased_step h (hI.leased n r hr)
  · intro n job hclaim
    obtain hclaim | ⟨_, r, rfl, _⟩ := claim_of_step h hclaim
    · exact hI.noTimeout n job hclaim
    · rfl

lemma leaseOutlives_of_inv (hI : LeaseInv s) : LeaseOutlives s := by
  intro n r hr d hd hnow row hrow
  have hleased := hI.leased n r hr
  have hvalid : ∀ timeout, row.nodeTimeout = some timeout → s.now ≤ timeout := by
    intro timeout htimeout
    calc
      s.now ≤ d := hnow
      _ ≤ r.startTime2 + leaseTimeout := hleased.deadline d hd
      _ ≤ timeout := hleased.lease row hrow timeout htimeout
  refine ⟨hvalid, fun m => ?_⟩
  by_contra hexpire
  obtain ⟨_, _, timeout, htimeout, hlt⟩ := expireJobs_cond.mp (by simpa using hexpire)
  have := hvalid timeout htimeout
  omega

/-- **A lease outlives the run it protects**, in any run from nodes that run nothing, if
`default_timeout` is at most five minutes and no answer of the translation server moves the kill
timer beyond five minutes after the start. -/
theorem lease_outlives_run (cl : Cluster) {s t : State} {tr : List (State × Event)}
    (hrun : Run (step cl) s tr t)
    (hstart : ∀ n, (s.nodes n).running = [] ∧ (s.nodes n).handler = .idle)
    (hdefault : ∀ n, cl.defaultTimeout n ≤ leaseTimeout)
    (harm : ∀ p ∈ tr, ArmsWithinLease p.1 p.2) :
    LeaseOutlives t ∧ ∀ p ∈ tr, LeaseOutlives p.1 := by
  have hI : LeaseInv s := by
    refine ⟨?_, ?_⟩
    · intro n r hr
      rw [(hstart n).1] at hr
      exact absurd hr (by simp)
    · intro n job hclaim
      exact absurd ((hstart n).2.symm.trans hclaim) (by simp)
  obtain ⟨ht, htr⟩ := hrun.invariant (C := fun s e => ArmsWithinLease s e)
    (fun s e t hI hC h => leaseInv_step hdefault hI hC h) hI harm
  exact ⟨leaseOutlives_of_inv ht, fun p hp => leaseOutlives_of_inv (htr p hp)⟩

/-- A cluster with a default timeout of ten minutes. -/
def patientCluster : Cluster := { smallCluster with defaultTimeout := fun _ => 10 * minute }

/-- The job is claimed, and runs for six minutes. -/
def sixMinutes : List Event :=
  readDue "a" ++ [.node "a" (.resume 0), .node "a" (.resume 0), .tick 360000000]

/-- **A job that may run for ten minutes can be expired after six.** -/
theorem lease_too_short :
    ¬ ∀ (cl : Cluster) (s t : State) (tr : List (State × Event)), Run (step cl) s tr t →
        (∀ n, (s.nodes n).running = [] ∧ (s.nodes n).handler = .idle) →
        (∀ n, 0 < cl.defaultTimeout n) → LeaseOutlives t := by
  intro h
  have hrow : (final (step patientCluster) oneJob sixMinutes).map
      (fun t => (t.now, t.table.find? 1, (t.nodes "a").running)) =
      some (6 * minute,
        some { scheduledJob 1 with nodeName := some "a", nodeTimeout := some (5 * minute) },
        [{ job := { CronJob.ofRow (scheduledJob 1) with timeout := 10 * minute }, startTime2 := 0,
           timeoutEvent := some (10 * minute) }]) := by
    decide +kernel
  obtain ⟨t, ht, heq⟩ := Option.map_eq_some_iff.mp hrow
  obtain ⟨hnow, heq⟩ := Prod.mk.inj heq
  obtain ⟨hfind, hrunning⟩ := Prod.mk.inj heq
  have hpos : ∀ n, 0 < patientCluster.defaultTimeout n := by
    intro n
    show (0 : ℤ) < 10 * minute
    decide
  have hlease := h patientCluster oneJob t _ (Run.of_final ht) (fun _ => ⟨rfl, rfl⟩) hpos "a"
  rw [hrunning, hnow] at hlease
  obtain ⟨hvalid, _⟩ := hlease _ (List.mem_singleton_self _) (10 * minute) rfl (by decide) _ hfind
  exact absurd (hvalid (5 * minute) rfl) (by decide)

instance (s : State) : (e : Event) → Decidable (ArmsWithinLease s e)
  | .node n (.translated i timeout) =>
    decidable_of_iff (∀ r ∈ (s.nodes n).running[i]?,
      0 < timeout → s.now + timeout ≤ r.startTime2 + leaseTimeout) Iff.rfl
  | .node _ .connect | .node _ .disconnect | .node _ (.setStateEnabled _) | .node _ .enableAdmin
  | .node _ .disableAdmin | .node _ .schedulerTimer | .node _ .expireFailed
  | .node _ .claimTimer | .node _ .notify | .node _ (.resume _) | .node _ .failed
  | .node _ (.lost _) | .node _ (.complete _) | .node _ (.timeout _) | .node _ (.finishFailed _)
  | .tick _ | .insert _ | .edit _ _ | .delete _ => inferInstanceAs (Decidable True)

/-- The translation server shortens the timeout to two minutes after one minute. -/
def shortened : List Event :=
  readDue "a" ++ [.node "a" (.resume 0), .node "a" (.resume 0), .tick 60000000,
    .node "a" (.translated 0 (2 * minute)), .tick 60000000]

theorem lease_outlives_run_shortened :
    ∃ t, final (step smallCluster) oneJob shortened = some t ∧ LeaseOutlives t ∧
      (t.nodes "a").running.map Running.timeoutEvent = [some (3 * minute)] := by
  have hsome : (final (step smallCluster) oneJob shortened).isSome = true := by decide +kernel
  obtain ⟨t, ht⟩ := Option.isSome_iff_exists.mp hsome
  refine ⟨t, ht, ?_, ?_⟩
  · exact (lease_outlives_run smallCluster (Run.of_final ht) (fun _ => ⟨rfl, rfl⟩)
      (fun _ => le_refl _) (by decide +kernel)).1
  · have hrunning : (final (step smallCluster) oneJob shortened).map
        (fun t => (t.nodes "a").running.map Running.timeoutEvent) = some [some (3 * minute)] := by
      decide +kernel
    rw [ht] at hrunning
    exact Option.some.inj hrunning

end Workshop.Cron

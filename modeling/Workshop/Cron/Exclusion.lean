import Workshop.Lib.Lease
import Workshop.Cron.Release

/-!
# Cron jobs do not overlap

Several nodes may claim the same cron job one after the other, the second one perhaps because the
lease of the first has ended.  `run_exclusive`: if the lease outlives the run
(`Workshop.Cron.Lease`), kill timers fire in time and no node connects while it runs something, at
most one process of a job runs in the whole cluster, its row has the name of its node, and
`expire_jobs` takes no job from a process.  A node then never claims a job it is still running,
which is what an execution needs to release its own claim only (`Workshop.Cron.Release`).
-/

namespace Workshop.Cron

open Workshop.Lib

variable {cl : Cluster} {s t : State} {e : Event} {n : String} {j : ℕ}

/-! ## Leases and deadlines -/

/-- The node a row is assigned to, and until when. -/
def CronRow.lease (row : CronRow) : Option (String × ℤ) :=
  row.nodeName.bind fun n => row.nodeTimeout.map fun ends => (n, ends)

lemma CronRow.lease_eq_some {row : CronRow} {ends : ℤ} :
    row.lease = some (n, ends) ↔ row.nodeName = some n ∧ row.nodeTimeout = some ends := by
  simp [CronRow.lease, Option.bind_eq_some_iff]

/-- The leases are those of the rows; a process holds its job until it is killed. -/
def leaseView (s : State) : LeaseView String ℕ ℤ where
  now := s.now
  lease j := (s.table.find? j).bind CronRow.lease
  holds n j deadline := ∃ r ∈ (s.nodes n).running, r.job.id = j ∧ r.timeoutEvent = some deadline

lemma leaseView_lease {row : CronRow} (hrow : s.table.find? j = some row) :
    (leaseView s).lease j = row.lease := by
  simp [leaseView, hrow]

/-- Kill timers fire in time, so that time does not go on beyond a kill time, and no node connects
while it runs something. -/
def Punctual (s : State) : Event → Prop
  | .tick d => ∀ n, ∀ r ∈ (s.nodes n).running, ∀ deadline, r.timeoutEvent = some deadline →
      s.now + d ≤ deadline
  | .node n .connect => (s.nodes n).running = []
  | _ => True

/-- **The invariant beside the leases**: a running job is assigned to its node, which runs it once,
and has a kill timer that fires within the lease. -/
structure Assigned (s : State) : Prop where
  leases : LeaseInv s
  own : ∀ n, ∀ r ∈ (s.nodes n).running,
    ∃ row, s.table.find? r.job.id = some row ∧ row.nodeName = some n ∧ row.nodeTimeout ≠ none
  nodup : ∀ n, ((s.nodes n).running.map fun r => r.job.id).Nodup
  armed : ∀ n, ∀ r ∈ (s.nodes n).running, r.timeoutEvent ≠ none

/-! ## The step -/

lemma find?_of_assigned (h : step cl s e = some t) {row : CronRow}
    (hrow : s.table.find? j = some row) (hname : row.nodeName = some n) :
    t.table.find? j = some (rowAfter cl s e row) := by
  by_cases hdel : e = .delete j
  · subst hdel
    obtain ⟨_, hins, _⟩ | ⟨id, hid, hd⟩ | hup := step_table h
    · exact absurd hins (by simp)
    · rw [hd, Table.find?_delete, hrow, Option.filter_some_pos (by simp [hname])]
      rfl
    · rw [hup, State.tableAfter, Table.find?_tableAfter, hrow]
      rfl
  · exact step_find? h hrow hdel

/-- Time goes on only by itself. -/
lemma now_of_not_tick (h : step cl s e = some t) (htick : ∀ d, e ≠ .tick d) : t.now = s.now := by
  unfold step at h
  split at h
  · exact absurd rfl (htick _)
  · split at h
    · obtain ⟨_, _, rfl⟩ := Option.map_eq_some_iff.mp h
      rfl
    · exact absurd h (by simp)
  · obtain rfl := Option.some.inj h
    rfl
  · obtain rfl := Option.some.inj h
    rfl
  · obtain ⟨_, _, rfl⟩ := Option.map_eq_some_iff.mp h
    rfl

lemma Assigned.not_expired (hI : Assigned s) (hsafe : (leaseView s).Safe) {r : Running}
    (hr : r ∈ (s.nodes n).running) {row : CronRow} (hrow : s.table.find? r.job.id = some row)
    (m : String) : (expireJobs m s.now).cond row = false := by
  obtain ⟨deadline, hdeadline⟩ := Option.ne_none_iff_exists'.mp (hI.armed n r hr)
  obtain ⟨row', hrow', hname, _⟩ := hI.own n r hr
  obtain rfl := Option.some.inj (hrow.symm.trans hrow')
  by_contra hcond
  obtain ⟨_, _, ends, hends, hlt⟩ := expireJobs_cond.mp (by simpa using hcond)
  have hlease : (leaseView s).lease r.job.id = some (n, ends) := by
    rw [leaseView_lease hrow]
    exact CronRow.lease_eq_some.mpr ⟨hname, hends⟩
  exact hsafe.not_ended ⟨r, hr, rfl, hdeadline⟩ hlease hlt

/-- Two nodes never run the same job. -/
lemma Assigned.unique (hI : Assigned s) {m : String} {r r' : Running}
    (hr : r ∈ (s.nodes n).running) (hr' : r' ∈ (s.nodes m).running) (hid : r.job.id = r'.job.id) :
    n = m := by
  obtain ⟨row, hrow, hname, _⟩ := hI.own n r hr
  obtain ⟨row', hrow', hname', _⟩ := hI.own m r' hr'
  rw [hid, hrow'] at hrow
  obtain rfl := Option.some.inj hrow
  exact Option.some.inj (hname.symm.trans hname')

/-- The step ends the process of the node `n` for the job `j`. -/
def Ends (s : State) (e : Event) (n : String) (j : ℕ) : Prop :=
  ∃ ev i r, e = .node n ev ∧ ev.ends = some i ∧
    (s.nodes n).running[i]? = some r ∧ r.job.id = j

/-- A process that ends was the only one of its node for the job. -/
lemma Assigned.not_running_of_ends (hI : Assigned s) (h : step cl s e = some t)
    (hends : Ends s e n j) : j ∉ (t.nodes n).running.map fun r => r.job.id := by
  obtain ⟨ev, i, r, rfl, hev, hr, rfl⟩ := hends
  obtain ⟨node, hnode, heq, _⟩ := step_self h
  rw [heq, CronNode.receive_running]
  have hruns := CronNode.step_running hnode
  generalize node.running = running at hruns
  have hnot : ∀ {i'}, i = i' →
      r.job.id ∉ ((s.nodes n).running.eraseIdx i').map fun r => r.job.id := by
    rintro _ rfl hmem
    rw [← List.eraseIdx_map] at hmem
    obtain ⟨k, hk, hkid⟩ := List.mem_eraseIdx_iff_getElem?.mp hmem
    have hiid : ((s.nodes n).running.map fun r => r.job.id)[i]? = some r.job.id := by
      rw [List.getElem?_map, hr, Option.map_some]
    exact hk ((List.getElem?_inj (List.getElem?_eq_some_iff.mp hkid).1 (hI.nodup n)).mp
      (hkid.trans hiid.symm))
  cases hruns with
  | claimed hev' _ _ => exact absurd hev (by simp [hev', NodeEvent.ends])
  | translated hev' _ _ => exact absurd hev (by simp [hev', NodeEvent.ends])
  | ended hev' => exact hnot (Option.some.inj (hev.symm.trans hev'))
  | kept hend _ => exact absurd (hend.symm.trans hev) (Option.some_ne_none i).symm

/-- **A running job keeps its row** for as long as it does not end. -/
lemma Assigned.row_kept (hI : Assigned s) (hsafe : (leaseView s).Safe) (hpunctual : Punctual s e)
    (h : step cl s e = some t) {r : Running} (hr : r ∈ (s.nodes n).running)
    (hends : ¬ Ends s e n r.job.id) :
    ∃ row, s.table.find? r.job.id = some row ∧ t.table.find? r.job.id = some (rowAfter cl s e row) ∧
      row.nodeName = some n ∧ (rowAfter cl s e row).nodeName = some n ∧
      (rowAfter cl s e row).nodeTimeout = row.nodeTimeout := by
  obtain ⟨row, hrow, hname, _⟩ := hI.own n r hr
  refine ⟨row, hrow, find?_of_assigned h hrow hname, hname, ?_⟩
  obtain hsame | ⟨st, hst, hcond, hset⟩ := rowAfter_cases cl s e row
  · rw [hsame]
    exact ⟨hname, rfl⟩
  · rw [hset]
    obtain ⟨_, _, rfl, rfl⟩ | ⟨m, ev, rfl, hexec⟩ := statement_cases hst
    · exact ⟨hname, rfl⟩
    · cases hexec with
      | releaseStale =>
          -- a node that connects runs nothing
          obtain rfl : n = m := by
            have hmine : row.nodeName = some m := by
              simpa [Statement.update, releaseStale] using hcond
            exact Option.some.inj (hname.symm.trans hmine)
          exact absurd hr (by simp [show (s.nodes n).running = [] from hpunctual])
      | expireJobs => exact absurd ((hI.not_expired hsafe hr hrow m).symm.trans hcond) (by simp)
      | makeRandomDelay _ _ _ _ => exact ⟨hname, rfl⟩
      | updateNextRun _ _ _ =>
          obtain ⟨z, hz, _⟩ := updateNextRun_cond.mp hcond
          rw [Statement.update, updateNextRun_set hz]
          exact ⟨hname, rfl⟩
      | claimJob _ _ =>
          have hfree := (claimJob_cond.mp hcond).2.2
          exact absurd (hname.symm.trans hfree) (by simp)
      | @finishJob ev i r' hev hr' =>
          obtain ⟨hid, hmine⟩ := finishJob_cond.mp hcond
          obtain rfl := Option.some.inj (hname.symm.trans hmine)
          have hid : r'.job.id = r.job.id := hid.symm.trans (Table.key_of_find? hrow)
          have hev' : ev.ends = some i := by obtain rfl | rfl := hev <;> rfl
          exact absurd ⟨ev, i, r', rfl, hev', hr', hid⟩ hends

/-- **Where a process comes from**: it was there before, with the same kill timer or one that the
translation server has changed, or it is started. -/
inductive Comes (cl : Cluster) (s t : State) (e : Event) (n : String) (r' : Running) : Prop
  | stays {r : Running} : r ∈ (s.nodes n).running → r.job.id = r'.job.id →
      (r'.timeoutEvent = r.timeoutEvent ∨
        ∃ timeout, 0 < timeout ∧ r'.timeoutEvent = some (s.now + timeout) ∧ t.now = s.now) →
      Comes cl s t e n r'
  | starts {row : CronRow} {timeout : ℤ} : 0 < timeout →
      r'.timeoutEvent = some (s.now + timeout) → t.now = s.now →
      s.table.find? r'.job.id = some row → row.nodeName = none →
      t.table.find? r'.job.id =
        some ((claimJob r'.job.id n leaseTimeout s.now).set row) → Comes cl s t e n r'

lemma Assigned.comes (hI : Assigned s) (hdefault : ∀ n, 0 < cl.defaultTimeout n)
    (h : step cl s e = some t) {r' : Running} (hr' : r' ∈ (t.nodes n).running) :
    Comes cl s t e n r' := by
  obtain ⟨ev, node, rfl, hnode, heq⟩ | heq := step_node_cases h n
  · rw [heq, CronNode.receive_running] at hr'
    obtain ⟨_, _, _, hnow⟩ := step_self h
    obtain hr | ⟨i, timeout, r, rfl, hpos, hr, rfl⟩ | ⟨draw, job, rfl, hhandler, haff, rfl⟩ :=
      running_of_nodeStep hnode hr'
    · exact .stays hr rfl (.inl rfl)
    · exact .stays (List.mem_of_getElem? hr) rfl (.inr ⟨timeout, hpos, rfl, hnow⟩)
    · have hzero : job.timeout = 0 := hI.leases.noTimeout n job hhandler
      obtain ⟨row, hrow, hcond⟩ :=
        (Table.affected_pos_of_key fun a ha => (claimJob_cond.mp ha).1).mp haff
      have hst : Event.statement s (.node n (.resume draw)) =
          some (.claimJob job.id n leaseTimeout s.now) := by
        simp [Event.statement, CronNode.statement, CronNode.handlerStatement, hhandler]
      have hfind := step_find? h hrow (by simp)
      rw [rowAfter_of_statement hst hcond] at hfind
      refine .starts (hdefault n) ?_ hnow hrow (claimJob_cond.mp hcond).2.2 hfind
      simp [CronNode.startedJob, hzero, hdefault n]
  · rw [heq, CronNode.receive_running] at hr'
    exact .stays hr' rfl (.inl rfl)

lemma Assigned.step (hdefault : ∀ n, 0 < cl.defaultTimeout n ∧ cl.defaultTimeout n ≤ leaseTimeout)
    (hI : Assigned s) (hsafe : (leaseView s).Safe) (harm : ArmsWithinLease s e)
    (hpunctual : Punctual s e) (h : Cron.step cl s e = some t) : Assigned t where
  leases := leaseInv_step (fun n => (hdefault n).2) hI.leases harm h
  own := by
    intro n r' hr'
    cases hI.comes (fun n => (hdefault n).1) h hr' with
    | @stays r hr hid _ =>
        have hends : ¬ Ends s e n r.job.id := by
          intro hends
          refine hI.not_running_of_ends h hends ?_
          rw [hid]
          exact List.mem_map_of_mem hr'
        obtain ⟨row, hrow, hfind, _, hname, htimeout⟩ := hI.row_kept hsafe hpunctual h hr hends
        obtain ⟨row₀, hrow₀, _, hassigned⟩ := hI.own n r hr
        obtain rfl := Option.some.inj (hrow.symm.trans hrow₀)
        exact ⟨_, hid ▸ hfind, hname, by rwa [htimeout]⟩
    | starts _ _ _ _ _ hfind => exact ⟨_, hfind, rfl, Option.some_ne_none _⟩
  nodup := by
    intro n
    obtain ⟨ev, node, rfl, hnode, heq⟩ | heq := step_node_cases h n
    · rw [heq, CronNode.receive_running]
      have hruns := CronNode.step_running hnode
      generalize node.running = running at hruns
      cases hruns with
      | @claimed draw job _ _ haff =>
          obtain ⟨row, hrow, hcond⟩ :=
            (Table.affected_pos_of_key fun a ha => (claimJob_cond.mp ha).1).mp haff
          rw [List.map_append, List.map_singleton, List.nodup_append]
          refine ⟨hI.nodup n, by simp, ?_⟩
          intro a ha b hb hab
          obtain rfl := List.mem_singleton.mp hb
          obtain ⟨r, hr, rfl⟩ := List.mem_map.mp ha
          -- the new job is not assigned, so the node does not run it already
          obtain ⟨row', hrow', hname, _⟩ := hI.own n r hr
          have hid : r.job.id = job.id := hab
          rw [hid, hrow] at hrow'
          obtain rfl := Option.some.inj hrow'
          exact absurd (hname.symm.trans (claimJob_cond.mp hcond).2.2) (by simp)
      | translated _ _ hr =>
          rw [map_job_set hr]
          exact hI.nodup n
      | @ended i _ =>
          rw [← List.eraseIdx_map]
          exact (hI.nodup n).eraseIdx i
      | kept _ _ => exact hI.nodup n
    · rw [heq, CronNode.receive_running]
      exact hI.nodup n
  armed := by
    intro n r' hr'
    cases hI.comes (fun n => (hdefault n).1) h hr' with
    | stays hr _ htimer =>
        obtain hsame | ⟨_, _, harmed, _⟩ := htimer
        · rw [hsame]
          exact hI.armed n _ hr
        · simp [harmed]
    | starts _ harmed _ _ _ _ => simp [harmed]

/-- **The contract of leases** is kept by every step. -/
lemma Assigned.keeps (hdefault : ∀ n, 0 < cl.defaultTimeout n) (hI : Assigned s)
    (hsafe : (leaseView s).Safe) (hpunctual : Punctual s e) (hI' : Assigned t)
    (h : Cron.step cl s e = some t) : (leaseView s).Keeps (leaseView t) where
  punctual := by
    rintro n j deadline ⟨r', hr', rfl, hdeadline⟩
    show t.now ≤ deadline
    cases hI.comes hdefault h hr' with
    | @stays r hr hid htimer =>
        obtain hsame | ⟨timeout, hpos, harmed, hnow⟩ := htimer
        · rw [hsame] at hdeadline
          by_cases htick : ∃ d, e = .tick d
          · obtain ⟨d, rfl⟩ := htick
            obtain rfl := Option.some.inj h
            exact hpunctual n r hr deadline hdeadline
          · rw [now_of_not_tick h fun d hd => htick ⟨d, hd⟩]
            exact (hsafe n r.job.id deadline ⟨r, hr, rfl, hdeadline⟩).1
        · obtain rfl := Option.some.inj (hdeadline.symm.trans harmed)
          omega
    | starts hpos harmed hnow _ _ _ =>
        obtain rfl := Option.some.inj (hdeadline.symm.trans harmed)
        omega
  covered := by
    rintro n j deadline ⟨r', hr', rfl, hdeadline⟩
    obtain ⟨row, hrow, hname, htimeout⟩ := hI'.own n r' hr'
    obtain ⟨ends, hends⟩ := Option.ne_none_iff_exists'.mp htimeout
    have hleased := hI'.leases.leased n r' hr'
    refine .inl ⟨ends, ?_, (hleased.deadline deadline hdeadline).trans
      (hleased.lease row hrow ends hends)⟩
    rw [leaseView_lease hrow]
    exact CronRow.lease_eq_some.mpr ⟨hname, hends⟩

/-! ## Runs -/

/-- **Mutual exclusion**: at most one process of a job runs in the cluster, and the row of the job
has the name of its node. -/
structure Exclusive (s : State) : Prop where
  oneNode : ∀ n m, ∀ r ∈ (s.nodes n).running, ∀ r' ∈ (s.nodes m).running,
    r.job.id = r'.job.id → n = m
  oneRun : ∀ n j, (s.nodes n).running.countP (fun r => r.job.id = j) ≤ 1
  owner : ∀ n, ∀ r ∈ (s.nodes n).running,
    ∃ row, s.table.find? r.job.id = some row ∧ row.nodeName = some n

lemma Assigned.exclusive (hI : Assigned s) : Exclusive s where
  oneNode := fun _ _ _ hr _ hr' hid => hI.unique hr hr' hid
  oneRun := by
    intro n j
    have hcount := List.nodup_iff_count_le_one.mp (hI.nodup n) j
    rwa [List.count, List.countP_map] at hcount
  owner := by
    intro n r hr
    obtain ⟨row, hrow, hname, _⟩ := hI.own n r hr
    exact ⟨row, hrow, hname⟩

/-- The step neither expires nor claims a job that is running. -/
def Spares (cl : Cluster) (s : State) (e : Event) : Prop :=
  ∀ n, ∀ r ∈ (s.nodes n).running,
    effective cl r.job.id Statement.isExpireJobs (s, e) = false ∧
      effective cl r.job.id Statement.isClaimJob (s, e) = false

lemma Assigned.spares (hI : Assigned s) (hsafe : (leaseView s).Safe) : Spares cl s e := by
  intro n r hr
  constructor
  · by_contra heffective
    obtain ⟨st, row, hst, hkind, hrow, hcond⟩ := effective_iff.mp (by simpa using heffective)
    obtain ⟨_, _, _, rfl⟩ | ⟨m, ev, rfl, hexec⟩ := statement_cases hst
    · exact absurd hkind (by simp [Statement.isExpireJobs])
    · cases hexec with
      | expireJobs => exact absurd ((hI.not_expired hsafe hr hrow m).symm.trans hcond) (by simp)
      | makeRandomDelay =>
          exact absurd hkind (by simp [Statement.isExpireJobs, CronNode.delayStatement])
      | _ => exact absurd hkind (by simp [Statement.isExpireJobs])
  · by_contra heffective
    obtain ⟨_, _, row, _, _, hrow, hfree, _⟩ := claim_of_effective (by simpa using heffective)
    obtain ⟨row', hrow', hname, _⟩ := hI.own n r hr
    obtain rfl := Option.some.inj (hrow.symm.trans hrow')
    exact absurd (hname.symm.trans hfree) (by simp)

/-- **Cron jobs do not overlap**, in any run from idle nodes: if `default_timeout` is at most five
minutes, no answer of the translation server moves a kill timer beyond five minutes after the
start, timers fire in time and no node connects while it runs something, at most one process of a
job runs in the cluster, and no node expires or claims a job that is running. -/
theorem run_exclusive (cl : Cluster) {s t : State} {tr : List (State × Event)}
    (hrun : Run (step cl) s tr t)
    (hstart : ∀ n, (s.nodes n).running = [] ∧ (s.nodes n).handler = .idle)
    (hdefault : ∀ n, 0 < cl.defaultTimeout n ∧ cl.defaultTimeout n ≤ leaseTimeout)
    (harm : ∀ p ∈ tr, ArmsWithinLease p.1 p.2) (hpunctual : ∀ p ∈ tr, Punctual p.1 p.2) :
    Exclusive t ∧ ∀ p ∈ tr, Exclusive p.1 ∧ Spares cl p.1 p.2 := by
  have hnone : ∀ n r, r ∉ (s.nodes n).running := fun n r => by simp [(hstart n).1]
  have hI : Assigned s := by
    refine ⟨⟨fun n r hr => absurd hr (hnone n r), fun n job hclaim => ?_⟩,
      fun n r hr => absurd hr (hnone n r), fun n => by simp [(hstart n).1],
      fun n r hr => absurd hr (hnone n r)⟩
    exact absurd ((hstart n).2.symm.trans hclaim) (by simp)
  have hsafe : (leaseView s).Safe := LeaseView.safe_of_forall_not <| by
    rintro n k deadline ⟨r, hr, _⟩
    exact hnone n r hr
  obtain ⟨⟨ht, _⟩, htr⟩ := hrun.safe leaseView
    (C := fun s e => ArmsWithinLease s e ∧ Punctual s e)
    (fun s e t hI hsafe hC h =>
      have hI' := hI.step hdefault hsafe hC.1 hC.2 h
      ⟨hI', hI.keeps (fun n => (hdefault n).1) hsafe hC.2 hI' h⟩)
    hI hsafe fun p hp => ⟨harm p hp, hpunctual p hp⟩
  refine ⟨ht.exclusive, fun p hp => ?_⟩
  obtain ⟨hI, hsafe⟩ := htr p hp
  exact ⟨hI.exclusive, hI.spares hsafe⟩

/-- The condition on the timers, for nodes with these names that are the only ones to do
something. -/
def punctualAmong (names : List String) (p : State × Event) : Bool :=
  match p.2 with
  | .tick d => names.all fun n => (p.1.nodes n).running.all fun r =>
      r.timeoutEvent.all fun deadline => p.1.now + d ≤ deadline
  | .node n .connect => (p.1.nodes n).running.isEmpty && n ∈ names
  | .node n _ => n ∈ names
  | _ => true

/-- Whether the timers are punctual is a question about the nodes that do something. -/
lemma punctual_of_among (names : List String) {tr : List (State × Event)}
    (hrun : Run (step cl) s tr t) (hstart : ∀ n, (s.nodes n).running = [])
    (hamong : ∀ p ∈ tr, punctualAmong names p = true) : ∀ p ∈ tr, Punctual p.1 p.2 := by
  obtain ⟨-, hidle⟩ := hrun.invariant (I := fun u => ∀ n, n ∉ names → (u.nodes n).running = [])
    (C := fun u e => punctualAmong names (u, e) = true)
    (by
      intro u e u' hu hC h n hn
      obtain ⟨ev, _, rfl, -⟩ | heq := step_node_cases h n
      · exact absurd hC (by cases ev <;> simp [punctualAmong, hn])
      · rw [heq, CronNode.receive_running]
        exact hu n hn)
    (fun n _ => hstart n) hamong
  rintro ⟨u, e⟩ hp
  have hpunctual := hamong (u, e) hp
  cases e with
  | tick d =>
      simp only [punctualAmong, List.all_eq_true] at hpunctual
      intro n r hr deadline hdeadline
      by_cases hn : n ∈ names
      · have hall := hpunctual n hn r hr
        rw [hdeadline] at hall
        simpa using hall
      · rw [hidle (u, _) hp n hn] at hr
        exact absurd hr (by simp)
  | node n ev =>
      cases ev with
      | connect => exact List.isEmpty_iff.mp (Bool.and_eq_true_iff.mp hpunctual).1
      | _ => trivial
  | _ => trivial

/-- The job of `a` ends without a connection; after six minutes `b` expires it, schedules it again
and executes it. -/
def endedOffline : List Event :=
  readDue "a" ++ [.node "a" (.resume 0), .node "a" (.resume 0), .node "a" .disconnect,
    .node "a" (.complete 0), .tick 360000000, .node "b" .connect,
    .node "b" (.setStateEnabled true), .node "b" .schedulerTimer] ++
    List.replicate 3 (.node "b" (.resume 0)) ++ [.node "b" .claimTimer] ++
    List.replicate 3 (.node "b" (.resume 0))

theorem run_exclusive_endedOffline :
    ∃ t, final (step smallCluster) oneJob endedOffline = some t ∧
      (t.nodes "b").running.map (fun r => r.job.id) = [1] ∧ Exclusive t ∧
      (traceOf (step smallCluster) oneJob endedOffline).any
        (effective smallCluster 1 Statement.isExpireJobs) = true := by
  have hruns : (final (step smallCluster) oneJob endedOffline).map
      (fun t => (t.nodes "b").running.map fun r => r.job.id) = some [1] := by
    decide +kernel
  obtain ⟨t, ht, hruns⟩ := Option.map_eq_some_iff.mp hruns
  have hrun := Run.of_final ht
  have hpunctual := punctual_of_among ["a", "b"] hrun (fun _ => rfl) (by decide +kernel)
  have hpos : (0 : ℤ) < leaseTimeout := by decide
  obtain ⟨hexclusive, _⟩ := run_exclusive smallCluster hrun (fun _ => ⟨rfl, rfl⟩)
    (fun _ => ⟨hpos, le_refl _⟩) (by decide +kernel) hpunctual
  exact ⟨t, ht, hruns, hexclusive, by decide +kernel⟩

end Workshop.Cron

import Workshop.Lib.Lease
import Workshop.Jobs.Ownership
import Workshop.Jobs.Timeout

/-!
# Mutual exclusion by leases

A job is assigned until `node_timeout`.  After that any other node may release it with
`expire_jobs`, whether its process still runs or not; what keeps two nodes from executing the job at
the same time is that the node of the process has killed it before.

`lease_exclusive`: if lease and timer of every plan agree, the timers fire in time, every progress
report reaches the table, and no node connects while it has operators (`LeaseRun`), `expire_jobs`
never takes a job from an operator, and at most one node has an operator for a job, although jobs
expire.  The argument is that of `Workshop.Lib.Lease`: the end of an operator's lease is its kill
time, and no step sets one of them alone.
-/

namespace Workshop.Jobs

open Workshop.Lib

variable {cl : JobCluster} {s t : State} {e : Event} {j : ℕ} {n : String}

/-! ## Leases and deadlines -/

/-- The node that holds the lease of a row, and its end. -/
def JobRow.lease (r : JobRow) : Option (String × ℤ) :=
  if r.timeDone = none then r.nodeName.bind fun n => r.nodeTimeout.map fun ends => (n, ends)
  else none

lemma JobRow.lease_eq_some {r : JobRow} {ends : ℤ} : r.lease = some (n, ends) ↔
    r.timeDone = none ∧ r.nodeName = some n ∧ r.nodeTimeout = some ends := by
  simp [JobRow.lease, Option.bind_eq_some_iff]

/-- The leases are those of the rows; an operator holds its job until it is killed. -/
def leaseView (s : State) : LeaseView String ℕ ℤ where
  now := s.now
  lease j := (s.table.find? j).bind JobRow.lease
  holds n j deadline := ∃ o ∈ (s.nodes n).operators, o.job.id = j ∧ o.timeoutEvent = some deadline

lemma leaseView_lease {r : JobRow} (hr : s.table.find? j = some r) :
    (leaseView s).lease j = r.lease := by
  simp [leaseView, hr]

/-- The timers fire in time, so that time does not go on beyond a kill time. -/
def Punctual (s : State) : Event → Prop
  | .tick d => ∀ n, ∀ o ∈ (s.nodes n).operators, ∀ deadline, o.timeoutEvent = some deadline →
      s.now + d ≤ deadline
  | _ => True

/-- A progress report arms the kill timer and does not reach the table: there is no connection, or
the statement fails. -/
def losesProgress (p : State × Event) : Bool :=
  match p.2 with
  | .node n (.progress _ _) => !(p.1.nodes n).ready
  | .node _ (.progressFailed _) => true
  | _ => false

/-- Lease and timer of every plan agree. -/
def PlansAgree (cl : JobCluster) : Prop :=
  ∀ n now planName plan, cl.getPlan n now planName = some plan → LeaseAgrees cl.interval plan

/-! ## Operators and their timers -/

/-- **Where an operator comes from**: it was there before with the same timer, is started, or
reports progress, which may fail. -/
inductive Comes (cl : JobCluster) (name : String) (table : JobTable) (now : ℤ) (node : JobNode)
    (ev : NodeEvent) (o' : WorkshopOperator) : Prop
  | stays {o : WorkshopOperator} : o ∈ node.operators → o'.job = o.job → o'.plan = o.plan →
      o'.timeoutEvent = o.timeoutEvent → Comes cl name table now node ev o'
  | starts {job : WorkshopJob} {plan : Plan} {pass : Pass} :
      node.Starts cl name table now ev job → node.handler = .claim job plan pass →
      o' = .create now job plan → Comes cl name table now node ev o'
  | progress {i value : ℕ} {o : WorkshopOperator} : ev = .progress i value →
      node.operators[i]? = some o → o.exited = false → o' = o.onProgress now →
      Comes cl name table now node ev o'
  | failed {i : ℕ} : ev = .progressFailed i → Comes cl name table now node ev o'

section Comes

variable {name : String} {table : JobTable} {now : ℤ} {node node' : JobNode} {ev : NodeEvent}
  {o' : WorkshopOperator}

lemma Comes.of_mem (h : o' ∈ node.operators) : Comes cl name table now node ev o' :=
  .stays h rfl rfl rfl

/-- A step of an operator without progress leaves its timer alone. -/
lemma Comes.of_mem_set {i : ℕ} {o o₁ : WorkshopOperator} (ho : node.operators[i]? = some o)
    (h₁ : o₁.job = o.job ∧ o₁.plan = o.plan ∧ o₁.timeoutEvent = o.timeoutEvent)
    (h : o' ∈ node.operators.set i o₁) : Comes cl name table now node ev o' := by
  rcases List.mem_or_eq_of_mem_set h with hold | rfl
  · exact .of_mem hold
  · exact .stays (List.mem_of_getElem? ho) h₁.1 h₁.2.1 h₁.2.2

lemma Comes.of_mem_eraseIdx {i : ℕ} (h : o' ∈ (node.onExit cl name now i).operators) :
    Comes cl name table now node ev o' := by
  rw [JobNode.onExit_operators] at h
  exact .of_mem (List.mem_of_mem_eraseIdx h)

lemma JobNode.resume_comes (hready : node.handler.running = true → node.ready = true)
    (h : node.resume cl name table now = some node') (ho' : o' ∈ node'.operators) :
    Comes cl name table now node .resume o' := by
  unfold JobNode.resume at h
  split at h
  · exact absurd h (by simp)
  · obtain rfl := Option.some.inj h
    exact .of_mem ho'
  · obtain rfl := Option.some.inj h
    rw [JobNode.checkRow_operators] at ho'
    exact .of_mem ho'
  · obtain rfl := Option.some.inj h
    rw [JobNode.checkLimit_operators] at ho'
    exact .of_mem ho'
  · rename_i job plan pass hhandler
    obtain rfl := Option.some.inj h
    unfold JobNode.claimRow at ho'
    split at ho'
    · exact .of_mem ho'
    · rename_i timeout htimeout
      simp only at ho'
      split at ho'
      · exact .of_mem ho'
      · rename_i haff
        have hstarts : node.Starts cl name table now .resume job :=
          ⟨rfl, hready (by simp [hhandler, Handler.running]), plan, pass, timeout, hhandler,
            htimeout, Nat.pos_of_ne_zero haff⟩
        rw [JobNode.startWorkshopJob_operators] at ho'
        rcases List.mem_append.mp ho' with hold | hnew
        · exact .of_mem hold
        · exact .starts hstarts hhandler (List.mem_singleton.mp hnew)
  · obtain rfl := Option.some.inj h
    exact .of_mem ho'
  · obtain rfl := Option.some.inj h
    rw [JobNode.onExit_operators] at ho'
    exact .of_mem (List.mem_of_mem_eraseIdx ho')

lemma Fails.comes (h : Fails cl name now node node') (ho' : o' ∈ node'.operators) :
    Comes cl name table now node ev o' := by
  cases h with
  | concluded _ =>
      rw [JobNode.onExit_operators] at ho'
      exact .of_mem (List.mem_of_mem_eraseIdx ho')
  | _ => exact .of_mem ho'

/-- **What a step does to the timers of its node.** -/
lemma JobNode.step_comes (h : node.step cl name table now ev = some node')
    (ho' : o' ∈ node'.operators) : Comes cl name table now node ev o' := by
  cases ev with
  | connect | disconnect | disableAdmin | notify | lost =>
      obtain ⟨_, rfl⟩ := of_guard h
      exact .of_mem ho'
  | reap =>
      obtain ⟨_, rfl⟩ := of_guard h
      exact .of_mem ho'
  | setStateEnabled enabled =>
      obtain ⟨_, rfl⟩ := of_guard h
      unfold JobNode.setStateEnabled at ho'
      split at ho'
      · exact .of_mem ho'
      · exact .of_mem (by simpa using ho')
  | enableAdmin =>
      obtain ⟨_, rfl⟩ := of_guard h
      unfold JobNode.enableAdmin at ho'
      split at ho'
      · exact .of_mem ho'
      · exact .of_mem (by simpa using ho')
  | updateFilter libraryModified =>
      obtain ⟨_, rfl⟩ := of_guard h
      rw [JobNode.updateFilter_operators] at ho'
      split at ho' <;> exact .of_mem ho'
  | timer =>
      obtain ⟨_, h⟩ := Option.ite_none_right_eq_some.mp h
      simp only at h
      split at h <;> obtain rfl := Option.some.inj h <;> exact .of_mem ho'
  | resume =>
      obtain ⟨hready, h⟩ := Option.ite_none_left_eq_some.mp h
      exact JobNode.resume_comes (by simpa using hready) h ho'
  | failed =>
      obtain ⟨_, h⟩ := Option.ite_none_right_eq_some.mp h
      exact (fails_of_fail h).comes ho'
  | expireFailed =>
      obtain ⟨_, rfl⟩ := of_guard h
      exact .of_mem ho'
  | flushSticky =>
      obtain ⟨_, rfl⟩ := of_guard h
      unfold JobNode.flushSticky at ho'
      split at ho' <;> exact .of_mem ho'
  | startFailed i message =>
      obtain ⟨_, h⟩ := Option.ite_none_right_eq_some.mp h
      obtain ⟨_, _, rfl⟩ := Option.map_eq_some_iff.mp h
      exact .of_mem_eraseIdx ho'
  | progress i value =>
      obtain ⟨_, h⟩ := Option.ite_none_right_eq_some.mp h
      obtain ⟨o, ho, rfl⟩ := Option.map_eq_some_iff.mp h
      rcases List.mem_or_eq_of_mem_set ho' with hold | rfl
      · exact .of_mem hold
      · by_cases hexited : o.exited = true
        · rw [WorkshopOperator.onProgress, if_pos hexited]
          exact .of_mem (List.mem_of_getElem? ho)
        · exact .progress rfl ho (by simpa using hexited) rfl
  | setEnv i moreEnv =>
      obtain ⟨_, h⟩ := Option.ite_none_right_eq_some.mp h
      obtain ⟨_, _, rfl⟩ := Option.map_eq_some_iff.mp h
      exact .of_mem ho'
  | again i delay =>
      obtain ⟨_, h⟩ := Option.ite_none_right_eq_some.mp h
      obtain ⟨o, ho, rfl⟩ := Option.map_eq_some_iff.mp h
      refine .of_mem_set ho ?_ ho'
      exact ⟨rfl, rfl, rfl⟩
  | childExit i status cpuUsage log =>
      obtain ⟨_, h⟩ := Option.ite_none_right_eq_some.mp h
      obtain ⟨o, ho, rfl⟩ := Option.map_eq_some_iff.mp h
      refine .of_mem_set ho ?_ ho'
      exact ⟨rfl, rfl, rfl⟩
  | timeout i =>
      obtain ⟨_, h⟩ := Option.ite_none_right_eq_some.mp h
      obtain ⟨_, _, rfl⟩ := Option.map_eq_some_iff.mp h
      exact .of_mem_eraseIdx ho'
  | cancel i | endFailed i =>
      obtain ⟨_, h⟩ := Option.ite_none_right_eq_some.mp h
      obtain ⟨_, _, rfl⟩ := Option.map_eq_some_iff.mp h
      exact .of_mem_eraseIdx ho'
  | progressFailed i => exact .failed rfl

end Comes

/-! ## The plans of the queue run -/

/-- The plan of the job a queue run is about to claim. -/
def Handler.plan? : Handler → Option Plan
  | .limits _ plan _ _ | .claim _ plan _ => some plan
  | _ => none

lemma Handler.plan?_eq_none {handler : Handler} (h : handler.fetched = []) :
    handler.plan? = none := by
  cases handler with
  | limits job plan rest pass => exact absurd h (List.cons_ne_nil _ _)
  | claim job plan pass => exact absurd h (List.cons_ne_nil _ _)
  | _ => rfl

lemma JobNode.checkRow_plan? {node : JobNode} {name : String} {now : ℤ} {pass : Pass} {plan : Plan}
    (h : (node.checkRow cl name now pass).handler.plan? = some plan) :
    ∃ planName, cl.getPlan name now planName = some plan := by
  unfold JobNode.checkRow at h
  split at h
  · exact absurd h (by simp [Handler.plan?_eq_none (JobNode.endPass_fetched _ _)])
  · split at h
    · exact absurd h (by simp [Handler.plan?_eq_none (JobNode.endPass_fetched _ _)])
    · split at h
      · exact absurd h (by simp [Handler.plan?])
      · split at h
        · exact absurd h (by simp [Handler.plan?])
        · rename_i job _ _ plan' hplan
          split at h
          · exact absurd h (by simp [Handler.plan?])
          · obtain rfl := Option.some.inj h
            exact ⟨job.planName, hplan⟩

lemma Fails.plan? {node node' : JobNode} {name : String} {now : ℤ} {plan : Plan}
    (h : Fails cl name now node node') (hplan : node'.handler.plan? = some plan) :
    node.handler.plan? = some plan := by
  cases h with
  | unlimited hhandler =>
      rw [hhandler]
      exact hplan
  | concluded _ =>
      rw [JobNode.onExit_handler] at hplan
      exact absurd hplan (by simp [Handler.plan?])
  | _ => exact absurd hplan (by simp [Handler.plan?])

/-- **Where the plan comes from**: it was that of the job before, or the library has returned it. -/
lemma JobNode.step_plan? {node node' : JobNode} {name : String} {table : JobTable} {now : ℤ}
    {ev : NodeEvent} {plan : Plan} (h : node.step cl name table now ev = some node')
    (hplan : node'.handler.plan? = some plan) :
    node.handler.plan? = some plan ∨ ∃ planName, cl.getPlan name now planName = some plan := by
  obtain hsame | hnone | ⟨rfl, hresume⟩ | ⟨rfl, hfails⟩ := (JobNode.step_spec h).2
  · rw [hsame] at hplan
    exact .inl hplan
  · rw [Handler.plan?_eq_none hnone] at hplan
    exact absurd hplan (by simp)
  · unfold JobNode.resume at hresume
    split at hresume
    · exact absurd hresume (by simp)
    · obtain rfl := Option.some.inj hresume
      exact absurd hplan (by simp [Handler.plan?])
    · obtain rfl := Option.some.inj hresume
      exact .inr (JobNode.checkRow_plan? hplan)
    · rename_i job plan' limits pass hhandler
      obtain rfl := Option.some.inj hresume
      rw [hhandler]
      unfold JobNode.checkLimit at hplan
      split at hplan
      · exact .inl hplan
      · simp only at hplan
        split at hplan
        · rw [JobNode.setRateLimited_handler] at hplan
          exact absurd hplan (by simp [Handler.plan?])
        · exact .inl hplan
    · obtain rfl := Option.some.inj hresume
      unfold JobNode.claimRow at hplan
      split at hplan
      · exact absurd hplan (by simp [Handler.plan?])
      · simp only at hplan
        split at hplan
        · exact absurd hplan (by simp [Handler.plan?])
        · rw [JobNode.startWorkshopJob_handler] at hplan
          exact absurd hplan (by simp [Handler.plan?])
    · obtain rfl := Option.some.inj hresume
      exact absurd hplan (by simp [Handler.plan?])
    · obtain rfl := Option.some.inj hresume
      rw [JobNode.onExit_handler] at hplan
      exact absurd hplan (by simp [Handler.plan?])
  · exact .inl (hfails.plan? hplan)

/-! ## The step -/

/-- **The invariant beside the leases**: operators own their rows, every operator has a timer, and
lease and timer agree for the plans of operators and of the jobs about to be claimed. -/
structure Leased (cl : JobCluster) (s : State) : Prop where
  owned : Owned s
  armed : ∀ n, ∀ o ∈ (s.nodes n).operators, o.timeoutEvent ≠ none
  operators : ∀ n, ∀ o ∈ (s.nodes n).operators,
    LeaseAgrees cl.interval o.plan ∧ ∃ timeout, cl.interval o.plan.timeout = some timeout
  plans : ∀ n plan, (s.nodes n).handler.plan? = some plan → LeaseAgrees cl.interval plan

/-- The lease of a job that is started or reports progress ends when its operator is killed. -/
lemma LeaseAgrees.onProgress {o : WorkshopOperator} {timeout : ℤ}
    (h : LeaseAgrees cl.interval o.plan) (htimeout : cl.interval o.plan.timeout = some timeout)
    (hexited : o.exited = false) (now : ℤ) :
    0 < timeout ∧ (o.onProgress now).timeoutEvent = some (now + timeout) := by
  obtain ⟨hpos, heq⟩ := leaseAgrees_iff_parsed.mp h timeout htimeout
  rw [WorkshopOperator.onProgress, hexited, if_neg (by simp),
    WorkshopOperator.scheduleTimeout_event hpos, heq]
  exact ⟨heq ▸ hpos, rfl⟩

lemma LeaseAgrees.create {plan : Plan} {timeout : ℤ} (h : LeaseAgrees cl.interval plan)
    (htimeout : cl.interval plan.timeout = some timeout) (now : ℤ) (job : WorkshopJob) :
    0 < timeout ∧ (WorkshopOperator.create now job plan).timeoutEvent = some (now + timeout) := by
  obtain ⟨hpos, heq⟩ := leaseAgrees_iff_parsed.mp h timeout htimeout
  rw [WorkshopOperator.create, WorkshopOperator.scheduleTimeout_event hpos, heq]
  exact ⟨heq ▸ hpos, rfl⟩

/-- A statement that leaves a job with its node changes the lease only for a progress report. -/
lemma Statement.set_lease {st : Statement} {r : JobRow} (hcond : st.update.cond r = true)
    (hname : r.nodeName ≠ none) (hname' : (st.update.set r).nodeName ≠ none)
    (hdone' : (st.update.set r).timeDone = none) :
    (∃ id progress timeout now, st = .setJobProgress id progress timeout now) ∨
      (st.update.set r).lease = r.lease := by
  cases st with
  | claimJob => exact absurd (claimJob_cond.mp hcond).2.1 hname
  | releaseJobs | expireJobs | rollbackJob | againJob => exact absurd rfl hname'
  | setJobDone => exact absurd hdone' (Option.some_ne_none _)
  | setJobProgress id progress timeout now => exact .inl ⟨id, progress, timeout, now, rfl⟩
  | setEnv | addCpuUsage | editJob => exact .inr rfl

lemma now_step (h : step cl s e = some t) :
    t.now = s.now ∨ ∃ d : ℕ, e = .tick d ∧ t.now = s.now + d := by
  unfold step at h
  split at h
  · rename_i d
    obtain rfl := Option.some.inj h
    exact .inr ⟨d, rfl, rfl⟩
  · obtain ⟨_, _, rfl⟩ := Option.map_eq_some_iff.mp h
    exact .inl rfl
  · obtain rfl := Option.some.inj h
    exact .inl rfl
  · obtain rfl := Option.some.inj h
    exact .inl rfl
  · obtain ⟨_, _, rfl⟩ := Option.map_eq_some_iff.mp h
    exact .inl rfl

lemma Owned.operator_unique (hI : Owned s) {o o' : WorkshopOperator}
    (ho : o ∈ (s.nodes n).operators) (ho' : o' ∈ (s.nodes n).operators)
    (hid : o.job.id = o'.job.id) : o = o' := by
  have hnodup := hI.nodup n
  rw [JobNode.jobs, List.map_map] at hnodup
  exact List.inj_on_of_nodup_map hnodup ho ho' hid

/-- The step arms the timer of the operator, together with the lease of its job. -/
def Renews (s t : State) (o : WorkshopOperator) : Prop :=
  ∃ timeout r, 0 < timeout ∧ o.timeoutEvent = some (s.now + timeout) ∧ t.now = s.now ∧
    t.table.find? o.job.id = some r ∧ r.nodeTimeout = some (s.now + timeout)

lemma Leased.renews_progress (hI : Leased cl s) {i value : ℕ} {o : WorkshopOperator}
    (hready : (s.nodes n).ready = true) (ho : (s.nodes n).operators[i]? = some o)
    (hexited : o.exited = false)
    (h : step cl s (.node n (.progress i value)) = some t) : Renews s t (o.onProgress s.now) := by
  obtain ⟨hagrees, timeout, htimeout⟩ := hI.operators n o (List.mem_of_getElem? ho)
  obtain ⟨hpos, harmed⟩ := hagrees.onProgress htimeout hexited s.now
  have hst : Event.statement cl s (.node n (.progress i value)) =
      some (.setJobProgress o.job.id value timeout s.now) := by
    simp [Event.statement, JobNode.statement, hready, ho, htimeout, hexited]
  obtain ⟨r, hr, hname, hdone⟩ := hI.owned.own n o.job.id (holds_of_operator ho)
  have hfind := step_find? h hr (not_deletes hname hdone)
  rw [rowAfter_of_statement hst (setJobProgress_cond.mpr (Table.key_of_find? hr))] at hfind
  refine ⟨timeout, _, hpos, harmed, ?_, by rwa [WorkshopOperator.onProgress_job], rfl⟩
  obtain hnow | ⟨_, hev, _⟩ := now_step h
  · exact hnow
  · exact absurd hev (by simp)

lemma Leased.renews_start (hI : Leased cl s) {ev : NodeEvent} {job : WorkshopJob} {plan : Plan}
    {pass : Pass} (hstarts : (s.nodes n).Starts cl n s.table s.now ev job)
    (hhandler : (s.nodes n).handler = .claim job plan pass)
    (h : step cl s (.node n ev) = some t) :
    Renews s t (.create s.now job plan) ∧ LeaseAgrees cl.interval plan ∧
      ∃ timeout, cl.interval plan.timeout = some timeout := by
  obtain ⟨timeout, r, hst, _, _, _, hfind⟩ := row_of_starts h hstarts
  obtain ⟨rfl, hready, plan', _, timeout', hhandler', htimeout, _⟩ := hstarts
  obtain ⟨-, rfl, -⟩ := Handler.claim.inj (hhandler'.symm.trans hhandler)
  have hagrees : LeaseAgrees cl.interval plan' := hI.plans n plan' (by rw [hhandler]; rfl)
  have hst' : Event.statement cl s (.node n .resume) =
      some (.claimJob n job.id timeout' s.now) := by
    simp [Event.statement, JobNode.statement, JobNode.handlerStatement, hready, hhandler, htimeout]
  have heq : timeout' = timeout := by
    obtain ⟨-, -, heq, -⟩ := Statement.claimJob.inj (Option.some.inj (hst'.symm.trans hst))
    exact heq
  subst heq
  obtain ⟨hpos, harmed⟩ := hagrees.create htimeout s.now job
  refine ⟨⟨timeout', _, hpos, harmed, ?_, by rwa [WorkshopOperator.create_job], rfl⟩, hagrees,
    timeout', htimeout⟩
  obtain hnow | ⟨_, hev, _⟩ := now_step h
  · exact hnow
  · exact absurd hev (by simp)

/-- **Timers and leases are set together**: an operator has the timer it had before, or the step
arms it with the lease of its job. -/
lemma Leased.timer_step (hI : Leased cl s) (hprogress : losesProgress (s, e) = false)
    (h : step cl s e = some t) {o' : WorkshopOperator}
    (ho' : o' ∈ (t.nodes n).operators) :
    (∃ o ∈ (s.nodes n).operators, o'.job = o.job ∧ o'.plan = o.plan ∧
        o'.timeoutEvent = o.timeoutEvent) ∨
      (Renews s t o' ∧ LeaseAgrees cl.interval o'.plan ∧
        ∃ timeout, cl.interval o'.plan.timeout = some timeout) := by
  obtain ⟨ev, rfl, hnode⟩ | ⟨_, hnode⟩ := step_node_cases h n
  · cases JobNode.step_comes hnode ho' with
    | stays ho hjob hplan htimer => exact .inl ⟨_, ho, hjob, hplan, htimer⟩
    | starts hstarts hhandler heq =>
        subst heq
        rw [WorkshopOperator.create_plan]
        exact .inr (hI.renews_start hstarts hhandler h)
    | progress hev ho hexited heq =>
        subst hev heq
        rw [WorkshopOperator.onProgress_plan]
        exact .inr ⟨hI.renews_progress (by simpa [losesProgress] using hprogress) ho hexited h,
          hI.operators n _ (List.mem_of_getElem? ho)⟩
    | failed hev =>
        subst hev
        exact absurd hprogress (by simp [losesProgress])
  · rw [hnode] at ho'
    exact .inl ⟨o', ho', rfl, rfl, rfl⟩

/-- A progress report is about an operator of the node that owns the job. -/
lemma Leased.renews_of_statement (hI : Leased cl s) (hprogress : losesProgress (s, e) = false)
    (h : step cl s e = some t) {id value : ℕ} {timeout now : ℤ}
    (hst : e.statement cl s = some (.setJobProgress id value timeout now)) (hholds : Holds s n id) :
    ∃ o ∈ (t.nodes n).operators, o.job.id = id ∧ Renews s t o := by
  obtain ⟨_, _, _, hst'⟩ | ⟨m, ev, rfl, hexec⟩ := statement_cases hst
  · exact absurd hst' (by simp)
  · cases hexec with
    | @setJobProgress i _ o _ hev ho hexited _ =>
        subst hev
        obtain rfl := hI.owned.unique hholds (holds_of_operator ho)
        refine ⟨o.onProgress s.now, ?_, by rw [WorkshopOperator.onProgress_job],
          hI.renews_progress (by simpa [losesProgress] using hprogress) ho hexited h⟩
        have hnode := step_self h
        obtain ⟨_, hnode⟩ := Option.ite_none_right_eq_some.mp hnode
        obtain ⟨o₁, ho₁, hnode⟩ := Option.map_eq_some_iff.mp hnode
        obtain rfl := Option.some.inj (ho.symm.trans ho₁)
        rw [← hnode]
        exact List.mem_set (List.getElem?_eq_some_iff.mp ho).1 _

lemma Leased.spares (hI : Leased cl s) (hsafe : (leaseView s).Safe) : Spares cl s e := by
  rintro m _ n j ⟨job, hjob, rfl⟩ r hr
  obtain ⟨o, ho, rfl⟩ := List.mem_map.mp hjob
  obtain ⟨deadline, hdeadline⟩ := Option.ne_none_iff_exists'.mp (hI.armed n o ho)
  obtain ⟨r', hr', hname, hdone⟩ := hI.owned.own n o.job.id ⟨o.job, hjob, rfl⟩
  obtain rfl := Option.some.inj (hr.symm.trans hr')
  by_contra hcond
  obtain ⟨_, _, _, _, ends, hends, hlt⟩ := expireJobs_cond.mp (by simpa using hcond)
  have hlease : (leaseView s).lease o.job.id = some (n, ends) := by
    rw [leaseView_lease hr]
    exact JobRow.lease_eq_some.mpr ⟨hdone, hname, hends⟩
  exact hsafe.not_ended ⟨o, ho, rfl, hdeadline⟩ hlease hlt

lemma Leased.step (hplans : PlansAgree cl) (hI : Leased cl s) (hsafe : (leaseView s).Safe)
    (hprogress : losesProgress (s, e) = false) (hconnect : reconnects (s, e) = false)
    (h : Jobs.step cl s e = some t) : Leased cl t where
  owned := hI.owned.step_of_spares (hI.spares hsafe) hconnect h
  armed := by
    intro n o' ho'
    obtain ⟨o, ho, _, _, htimer⟩ | ⟨⟨timeout, _, _, htimer, _⟩, _⟩ := hI.timer_step hprogress h ho'
    · rw [htimer]
      exact hI.armed n o ho
    · simp [htimer]
  operators := by
    intro n o' ho'
    obtain ⟨o, ho, _, hplan, _⟩ | ⟨_, hagrees⟩ := hI.timer_step hprogress h ho'
    · rw [hplan]
      exact hI.operators n o ho
    · exact hagrees
  plans := by
    intro n plan hplan
    obtain ⟨ev, rfl, hnode⟩ | ⟨_, hnode⟩ := step_node_cases h n
    · obtain hold | ⟨planName, hlibrary⟩ := JobNode.step_plan? hnode hplan
      · exact hI.plans n plan hold
      · exact hplans n s.now planName plan hlibrary
    · rw [hnode] at hplan
      exact hI.plans n plan hplan

/-- **The contract of leases** is kept by every step. -/
lemma Leased.keeps (hI : Leased cl s) (hsafe : (leaseView s).Safe) (hpunctual : Punctual s e)
    (hprogress : losesProgress (s, e) = false) (howned : Owned t)
    (h : Jobs.step cl s e = some t) : (leaseView s).Keeps (leaseView t) where
  punctual := by
    rintro n j deadline ⟨o', ho', rfl, hdeadline⟩
    show t.now ≤ deadline
    obtain ⟨o, ho, hjob, _, htimer⟩ | ⟨⟨timeout, _, hpos, htimer, hnow, _⟩, _⟩ :=
      hI.timer_step hprogress h ho'
    · rw [hdeadline] at htimer
      obtain hnow | ⟨d, rfl, hnow⟩ := now_step h
      · rw [hnow]
        exact (hsafe n o.job.id deadline ⟨o, ho, rfl, htimer.symm⟩).1
      · rw [hnow]
        exact hpunctual n o ho deadline htimer.symm
    · obtain rfl := Option.some.inj (hdeadline.symm.trans htimer)
      omega
  covered := by
    rintro n j deadline ⟨o', ho', rfl, hdeadline⟩
    obtain ⟨r', hr', hname', hdone'⟩ :=
      howned.own n o'.job.id ⟨o'.job, List.mem_map_of_mem ho', rfl⟩
    -- an operator whose timer is armed in this step
    have hrenewed : Renews s t o' → ∃ ends, (leaseView t).lease o'.job.id = some (n, ends) ∧
        deadline ≤ ends := by
      rintro ⟨timeout, r, _, htimer, _, hr, hends⟩
      obtain rfl := Option.some.inj (hr.symm.trans hr')
      refine ⟨s.now + timeout, ?_, (Option.some.inj (hdeadline.symm.trans htimer)).le⟩
      rw [leaseView_lease hr]
      exact JobRow.lease_eq_some.mpr ⟨hdone', hname', hends⟩
    obtain ⟨o, ho, hjob, _, htimer⟩ | ⟨hrenews, _⟩ := hI.timer_step hprogress h ho'
    · obtain ⟨r, hr, hname, hdone⟩ := hI.owned.own n o.job.id ⟨o.job, List.mem_map_of_mem ho, rfl⟩
      have hfind := step_find? h hr (not_deletes hname hdone)
      rw [← hjob, hr'] at hfind
      obtain rfl := Option.some.inj hfind
      rw [hjob]
      have hholds : (leaseView s).holds n o.job.id deadline := ⟨o, ho, rfl, htimer ▸ hdeadline⟩
      rw [← hjob] at hholds ⊢
      rw [leaseView_lease hr', leaseView_lease (hjob ▸ hr)]
      obtain hsame | ⟨st, hst, hcond, hset⟩ := rowAfter_cases cl s e r
      · exact .inr ⟨hholds, .inl (by rw [hsame])⟩
      · rw [hset] at hname' hdone' ⊢
        obtain ⟨id, value, timeout, now, rfl⟩ | hlease :=
          Statement.set_lease hcond (by simp [hname]) (by simp [hname']) hdone'
        · -- the report is one of this operator
          have hid : id = o'.job.id :=
            (setJobProgress_cond.mp hcond).symm.trans (Table.key_of_find? (hjob ▸ hr))
          obtain ⟨o₁, ho₁, hid₁, hrenews⟩ := hI.renews_of_statement hprogress h hst
            (n := n) ⟨o.job, List.mem_map_of_mem ho, by rw [hid, hjob]⟩
          obtain rfl := howned.operator_unique ho₁ ho' (hid₁.trans hid)
          obtain ⟨ends, hlease, hle⟩ := hrenewed hrenews
          rw [leaseView_lease hr', hset] at hlease
          exact .inl ⟨ends, hlease, hle⟩
        · exact .inr ⟨hholds, .inl hlease⟩
    · exact .inl (hrenewed hrenews)

/-! ## Runs -/

lemma Leased.of_idle (hstart : ∀ n, (s.nodes n).operators = [] ∧ (s.nodes n).handler = .idle)
    (hfresh : ∀ j r, s.table.find? j = some r → j < s.nextId) : Leased cl s := by
  have hnone : ∀ n o, o ∉ (s.nodes n).operators := fun n o => by simp [(hstart n).1]
  refine ⟨⟨?_, ?_, ?_, hfresh⟩, fun n o ho => absurd ho (hnone n o),
    fun n o ho => absurd ho (hnone n o), ?_⟩
  · rintro n j ⟨job, hjob, _⟩
    exact absurd hjob (by simp [JobNode.jobs, (hstart n).1])
  · intro n
    simp [JobNode.jobs, (hstart n).1]
  · intro n job hjob
    exact absurd hjob (by simp [(hstart n).2, Handler.fetched])
  · intro n plan hplan
    exact absurd hplan (by simp [(hstart n).2, Handler.plan?])

/-- **A run under leases**, from idle nodes: lease and timer of every plan agree, timers fire in
time, every progress report reaches the table, and no node connects while it has operators. -/
structure LeaseRun (cl : JobCluster) (s : State) (tr : List (State × Event)) (t : State) :
    Prop where
  run : Run (step cl) s tr t
  idle : ∀ n, (s.nodes n).operators = [] ∧ (s.nodes n).handler = .idle
  fresh : ∀ j r, s.table.find? j = some r → j < s.nextId
  plans : PlansAgree cl
  punctual : ∀ p ∈ tr, Punctual p.1 p.2
  progress : ∀ p ∈ tr, losesProgress p = false
  connect : ∀ p ∈ tr, reconnects p = false

lemma LeaseRun.leased {tr : List (State × Event)} (h : LeaseRun cl s tr t) :
    Leased cl t ∧ ∀ p ∈ tr, Leased cl p.1 ∧ Spares cl p.1 p.2 := by
  have hsafe : (leaseView s).Safe := LeaseView.safe_of_forall_not <| by
    rintro n k deadline ⟨o, ho, _⟩
    exact absurd ho (by simp [(h.idle n).1])
  obtain ⟨⟨ht, _⟩, htr⟩ := h.run.safe leaseView
    (C := fun s e => Punctual s e ∧ losesProgress (s, e) = false ∧ reconnects (s, e) = false)
    (fun s e t hI hsafe hC hstep =>
      have hI' := hI.step h.plans hsafe hC.2.1 hC.2.2 hstep
      ⟨hI', hI.keeps hsafe hC.1 hC.2.1 hI'.owned hstep⟩)
    (Leased.of_idle h.idle h.fresh) hsafe
    fun p hp => ⟨h.punctual p hp, h.progress p hp, h.connect p hp⟩
  exact ⟨ht, fun p hp => ⟨(htr p hp).1, (htr p hp).1.spares (htr p hp).2⟩⟩

/-- **Mutual exclusion by leases**: in a run under leases, at most one node has an operator for a
job, `expire_jobs` takes no job from an operator, and a job that is done is never started again. -/
theorem lease_exclusive {tr : List (State × Event)} (h : LeaseRun cl s tr t) :
    (Exclusive t ∧ ∀ p ∈ tr, Exclusive p.1 ∧ Spares cl p.1 p.2) ∧
      ∀ j tr₁ p tr₂, tr = tr₁ ++ p :: tr₂ → completes cl j p = true →
        (∀ n, ¬ Holds t n j) ∧ ∀ q ∈ tr₂, ∀ n, ¬ Holds q.1 n j := by
  obtain ⟨ht, htr⟩ := h.leased
  refine ⟨⟨ht.owned.exclusive, fun p hp => ?_⟩, ?_⟩
  · obtain ⟨hI, hspares⟩ := htr p hp
    exact ⟨hI.owned.exclusive, hspares⟩
  · rintro j tr₁ ⟨m, e⟩ tr₂ rfl hdone
    obtain ⟨hfinal, hlater⟩ := h.run.stable_after (Q := Finished j) (C := fun _ _ => True)
      (fun s e t hQ _ h => finished_step hQ h)
      (fun m' h => (htr (m, e) (by simp)).1.owned.finished_of_completes hdone h) fun _ _ => trivial
    have hnone : ∀ {u : State}, Leased cl u → Finished j u → ∀ n, ¬ Holds u n j := by
      intro u hu hfin n hholds
      obtain ⟨r, hr, _, hundone⟩ := hu.owned.own n j hholds
      exact (hfin.2 r hr).1 hundone
    exact ⟨hnone ht hfinal, fun q hq => hnone (htr q (by simp [hq])).1 (hlater q hq)⟩

/-- The condition on the timers, for the nodes with these names. -/
def punctualAmong (names : List String) (p : State × Event) : Bool :=
  match p.2 with
  | .tick d => names.all fun n => (p.1.nodes n).operators.all fun o =>
      o.timeoutEvent.all fun deadline => p.1.now + d ≤ deadline
  | _ => true

/-- Whether the timers are punctual is a question about the nodes that do something. -/
lemma punctual_of_actsOnly (names : List String) {tr : List (State × Event)}
    (hrun : Run (step cl) s tr t) (hstart : ∀ n, (s.nodes n).operators = [])
    (honly : ∀ p ∈ tr, actsOnly names p.2 = true)
    (hamong : ∀ p ∈ tr, punctualAmong names p = true) : ∀ p ∈ tr, Punctual p.1 p.2 := by
  rintro ⟨u, e⟩ hp
  have hpunctual := hamong (u, e) hp
  cases e with
  | tick d =>
      simp only [punctualAmong, List.all_eq_true] at hpunctual
      intro n o ho deadline hdeadline
      by_cases hn : n ∈ names
      · have hall := hpunctual n hn o ho
        rw [hdeadline] at hall
        simpa using hall
      · rw [nodes_of_actsOnly hrun honly hn (u, _) hp, hstart n] at ho
        exact absurd ho (by simp)
  | _ => trivial

/-- The small cluster, with a plan file that sets the timeout. -/
def timedCluster : JobCluster :=
  { smallCluster with
    getPlan := fun _ _ planName =>
      if planName = "p" then
        some { args := ["/bin/true"], timeout := "10 minutes", parsedTimeout := 10 * minute }
      else none }

lemma timedCluster_leaseRun {es : List Event} (h : final (step timedCluster) noJobs es = some t)
    (honly : ∀ p ∈ traceOf (step timedCluster) noJobs es, actsOnly ["a", "b"] p.2 = true)
    (hamong : ∀ p ∈ traceOf (step timedCluster) noJobs es, punctualAmong ["a", "b"] p = true)
    (hprogress : ∀ p ∈ traceOf (step timedCluster) noJobs es, losesProgress p = false)
    (hconnect : ∀ p ∈ traceOf (step timedCluster) noJobs es, reconnects p = false) :
    LeaseRun timedCluster noJobs (traceOf (step timedCluster) noJobs es) t where
  run := .of_final h
  idle := fun _ => ⟨rfl, rfl⟩
  fresh := by simp [noJobs, Table.find?, Table.empty]
  plans := by
    intro n now planName plan hplan
    obtain ⟨_, rfl⟩ := of_guard hplan
    refine leaseAgrees_iff_parsed.mpr fun duration hduration => ?_
    obtain rfl := Option.some.inj ((show _ = some (10 * minute) by rfl).symm.trans hduration)
    decide
  punctual := punctual_of_actsOnly ["a", "b"] (.of_final h) (fun _ => rfl) honly hamong
  progress := hprogress
  connect := hconnect

/-- The node `a` loses its connection, and kills its process after ten minutes. -/
def killedOffline : List Event :=
  [oneJob] ++ claimFirst "a" ++ [.node "a" .disconnect, .tick 600000000, .node "a" (.timeout 0)]

/-- After another minute, `b` expires the job and executes it. -/
def killedInTime : List Event := killedOffline ++ [.tick 60000000] ++ claimFirst "b"

theorem lease_exclusive_killedInTime :
    ∃ t, final (step timedCluster) noJobs killedInTime = some t ∧ Holds t "b" 1 ∧ Exclusive t ∧
      (traceOf (step timedCluster) noJobs killedInTime).any (expires timedCluster) = true := by
  have hsome : (final (step timedCluster) noJobs killedInTime).map
      (fun t => decide (Holds t "b" 1)) = some true := by
    decide +kernel
  obtain ⟨t, ht, hholds⟩ := Option.map_eq_some_iff.mp hsome
  obtain ⟨⟨hexclusive, _⟩, _⟩ := lease_exclusive
    (timedCluster_leaseRun ht (by decide +kernel) (by decide +kernel) (by decide +kernel)
      (by decide +kernel))
  exact ⟨t, ht, by simpa using hholds, hexclusive, by decide +kernel⟩

end Workshop.Jobs

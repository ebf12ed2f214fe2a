import Workshop.Jobs.Claim
import Workshop.Lib.Descending

/-!
# Rate limits

A plan may be started at most `max_count` times within `duration`, "cluster-global" and "rolling"
(`doc/index.rst`).  `check_rate_limit` counts the rows of the plan whose `time_started` is in the
window that ends now, and some time later `claim_job` writes `time_started` into one more row.

What is counted are rows, and what is limited are claims, so the two have to be related: every claim
in the window is a row of its own (`Counted`), unless the job is executed again, or leaves the plan.
Nothing happens between the check of a node and its claim that would use up the limit, unless
another node claims a job of the plan.  `PgCheckRateLimit` counts whole seconds, so that it does not
see a start in the last second of its window; and a check that fails counts as one that has found
nothing.  Where none of this happens, the limit is kept (`rate_limit_kept`); where it does, it may
be exceeded (`rate_limit_exceeded`).
-/

namespace Workshop.Jobs

open Workshop.Lib

variable {cl : JobCluster} {p : String} {L : RateLimit} {s t : State} {e : Event} {n : String}

/-! ## Claims and starts -/

/-- The start of the window that ends now; the window does not include it. -/
def RateLimit.since (L : RateLimit) (now : ℤ) : ℤ := now - L.duration * second

/-- The plan has the limit, on every node and at any time. -/
def HasLimit (cl : JobCluster) (p : String) (L : RateLimit) : Prop :=
  ∀ n now plan, cl.getPlan n now p = some plan → L ∈ plan.rateLimits

/-- The node is about to claim a job of the plan. -/
def Handler.claims (p : String) : Handler → Bool
  | .claim job _ _ => job.planName == p
  | _ => false

/-- The step claims a job of the plan: `claim_job` takes effect, also if its answer is lost. -/
def claimsPlan (cl : JobCluster) (p : String) (q : State × Event) : Bool :=
  (q.2.statement cl q.1).any fun st =>
    match st with
    | .claimJob n id timeout now =>
      (q.1.nodes n).handler.claims p && decide (0 < q.1.table.affected (claimJob n id timeout now))
    | _ => false

/-- The claims of the plan after the time `b`. -/
def claimsSince (cl : JobCluster) (p : String) (tr : List (State × Event)) (b : ℤ) : ℕ :=
  tr.countP fun q => claimsPlan cl p q && decide (b < q.1.now)

/-- The claims of the plan after the time `b` and up to the time `c`. -/
def claimsWithin (cl : JobCluster) (p : String) (tr : List (State × Event)) (b c : ℤ) : ℕ :=
  tr.countP fun q => claimsPlan cl p q && decide (b < q.1.now ∧ q.1.now ≤ c)

/-- The row is one of the plan, and was started after the time `b`. -/
def startedSince (p : String) (b : ℤ) (r : JobRow) : Bool :=
  r.planName == p && r.timeStarted.any fun started => b < started

/-- The starts of the plan after the time `b`, as the table has them. -/
def starts (table : JobTable) (p : String) (b : ℤ) : ℕ := table.rows.countP (startedSince p b)

/-! ## What the count depends on -/

/-- A node has passed its check of the limit for a job of the plan, and not yet tried to claim
it. -/
def Handler.passed (p : String) (L : RateLimit) : Handler → Bool
  | .limits job _ rest _ => job.planName == p && !decide (L ∈ rest)
  | .claim job _ _ => job.planName == p
  | _ => false

/-- The step executes `check_rate_limit` for the limit and a job of the plan. -/
def checksLimit (p : String) (L : RateLimit) (q : State × Event) : Bool :=
  match q.2 with
  | .node n .resume =>
    match (q.1.nodes n).handler with
    | .limits job _ (limit :: _) _ => job.planName == p && limit == L
    | _ => false
  | _ => false

/-- The step claims a job of the plan whose last start is in the window. -/
def claimsAgain (cl : JobCluster) (p : String) (L : RateLimit) (q : State × Event) : Bool :=
  (q.2.statement cl q.1).any fun st =>
    match st with
    | .claimJob n id timeout now => q.1.table.rows.any fun r =>
        (claimJob n id timeout now).cond r && startedSince p (L.since q.1.now) r
    | _ => false

/-- The statement takes the job out of the plan. -/
def Statement.takesOut (p : String) (r : JobRow) (st : Statement) : Bool :=
  st.update.cond r && r.planName == p && (st.update.set r).planName != p

/-- The step takes a job out of the plan whose start is in the window. -/
def forgetsStart (cl : JobCluster) (p : String) (L : RateLimit) (q : State × Event) : Bool :=
  (q.2.statement cl q.1).any fun st =>
    q.1.table.rows.any fun r => st.takesOut p r && startedSince p (L.since q.1.now) r

/-- The step takes a job out of the plan that the node `m` has fetched. -/
def takesFetched (cl : JobCluster) (p : String) (m : String) (q : State × Event) : Bool :=
  (q.2.statement cl q.1).any fun st =>
    q.1.table.rows.any fun r => st.takesOut p r &&
      (q.1.nodes m).handler.fetched.any fun job => job.id == r.id && job.planName == p

/-- The step claims a job of the plan and uses up the limit, while another node, `m`, has passed its
check. -/
def overtakes (cl : JobCluster) (p : String) (L : RateLimit) (m : String) (q : State × Event) :
    Bool :=
  claimsPlan cl p q && (q.1.nodes m).handler.passed p L &&
    (match q.2 with
      | .node n _ => n != m
      | _ => true) &&
    decide (L.maxCount ≤ starts q.1.table p (L.since q.1.now) + 1)

/-- The step checks the limit when it is used up, but the last start that counts is in the last
second of its window. -/
def checksLate (p : String) (L : RateLimit) (q : State × Event) : Bool :=
  checksLimit p L q && decide (L.maxCount ≤ starts q.1.table p (L.since q.1.now)) &&
    decide (starts q.1.table p (L.since q.1.now + (second - 1)) < L.maxCount)

/-- A check of the limit fails when it is used up, and the connection stays. -/
def checkFails (p : String) (L : RateLimit) (q : State × Event) : Bool :=
  (match q.2 with
    | .node n .failed =>
      match (q.1.nodes n).handler with
      | .limits job _ (limit :: _) _ => job.planName == p && limit == L
      | _ => false
    | _ => false) &&
    decide (L.maxCount ≤ starts q.1.table p (L.since q.1.now))

/-- The starts in the table are the claims, and no check is outdated when its node claims the
job. -/
structure KeepsCount (cl : JobCluster) (p : String) (L : RateLimit) (s : State) (e : Event) :
    Prop where
  rows : ∀ r ∈ s.table.rows, e.deletes s r = false
  once : claimsAgain cl p L (s, e) = false
  recent : forgetsStart cl p L (s, e) = false
  fetched : ∀ m, takesFetched cl p m (s, e) = false
  alone : ∀ m, overtakes cl p L m (s, e) = false
  inTime : checksLate p L (s, e) = false
  answered : checkFails p L (s, e) = false

/-! ## The check -/

/-- A weaker condition that holds of one more element counts more. -/
lemma countP_lt_countP {α : Type*} {l : List α} {f g : α → Bool} {a : α}
    (hle : ∀ x ∈ l, f x = true → g x = true) (ha : a ∈ l) (hf : f a = false) (hg : g a = true) :
    l.countP f < l.countP g := by
  obtain ⟨l₁, l₂, rfl⟩ := List.append_of_mem ha
  have h₁ : l₁.countP f ≤ l₁.countP g :=
    List.countP_mono_left fun x hx => hle x (List.mem_append_left _ hx)
  have h₂ : l₂.countP f ≤ l₂.countP g :=
    List.countP_mono_left fun x hx => hle x (List.mem_append_right _ (List.mem_cons_of_mem _ hx))
  rw [List.countP_append, List.countP_append, List.countP_cons_of_neg (by simp [hf]),
    List.countP_cons_of_pos hg]
  omega

/-- **`check_rate_limit` sees the limit** if enough of the starts are not in the last second of
their window. -/
lemma checkRateLimit_pos {table : JobTable} {now duration : ℤ} {maxCount : ℕ} (hpos : 1 ≤ maxCount)
    (hbound : maxCount < 2 ^ 32)
    (h : maxCount ≤ starts table p (now - duration * second + (second - 1))) :
    0 < checkRateLimit table now p duration maxCount := by
  have hcount : starts table p (now - duration * second + (second - 1)) =
      ((table.rows.filter fun r => r.planName == p).filterMap JobRow.timeStarted).countP
        fun x => decide (now - duration * second + second ≤ x) := by
    rw [List.countP_filterMap, List.countP_filter]
    refine List.countP_congr fun r _ => ?_
    rcases hr : r.timeStarted with _ | started
    · simp [startedSince, hr]
    · have hlast : now - duration * second + (second - 1) < started ↔
          now - duration * second + second ≤ started := by omega
      simp only [startedSince, hr, Option.any_some, Option.map_some, Option.getD_some,
        Bool.and_eq_true, beq_iff_eq, decide_eq_true_eq, hlast]
      exact and_comm
  rw [hcount] at h
  have hindex : (maxCount + (2 ^ 32 - 1)) % 2 ^ 32 = maxCount - 1 := by omega
  have hwindow : now - duration * second ≤ now - duration * second + second := by
    unfold second
    omega
  obtain ⟨started, hv, hlate⟩ := (lt_countP_iff_window _ hwindow).mp
    (Nat.lt_of_lt_of_le (Nat.sub_lt hpos Nat.one_pos) h)
  have hdelta : checkRateLimit table now p duration maxCount =
      (started + duration * second - now).tdiv second := by
    simp only [checkRateLimit, hindex]
    rw [hv]
  rw [hdelta, Int.tdiv_eq_ediv_of_nonneg (by unfold second at hlate ⊢; omega)]
  unfold second at hlate ⊢
  omega

/-! ## Passing the check -/

lemma Handler.passed_eq_false {handler : Handler} (h : handler.fetched = []) :
    handler.passed p L = false := by
  cases handler with
  | limits job plan rest pass => exact absurd h (List.cons_ne_nil _ _)
  | claim job plan pass => exact absurd h (List.cons_ne_nil _ _)
  | _ => rfl

/-- `RunResult` begins with all limits of the plan. -/
lemma JobNode.checkRow_passed {node : JobNode} {name : String} {now : ℤ} {pass : Pass}
    (hlimit : ∀ plan, cl.getPlan name now p = some plan → L ∈ plan.rateLimits) :
    (node.checkRow cl name now pass).handler.passed p L = false := by
  unfold JobNode.checkRow
  split
  · exact Handler.passed_eq_false (JobNode.endPass_fetched _ _)
  · split
    · exact Handler.passed_eq_false (JobNode.endPass_fetched _ _)
    · split
      · rfl
      · split
        · rfl
        · rename_i job _ _ plan hplan
          split
          · rfl
          · by_cases hname : job.planName = p
            · rw [hname] at hplan
              simp [Handler.passed, hlimit plan hplan]
            · simp [Handler.passed, hname]

lemma JobNode.claimRow_passed {node : JobNode} {name : String} {table : JobTable} {now : ℤ}
    {job : WorkshopJob} {plan : Plan} {pass : Pass} :
    (node.claimRow cl name table now job plan pass).handler.passed p L = false := by
  unfold JobNode.claimRow
  split
  · rfl
  · simp only
    split
    · rfl
    · rw [JobNode.startWorkshopJob_handler]
      rfl

/-- A node that has passed the check after `CheckRateLimit` had passed it before, or has executed it
just now. -/
lemma JobNode.checkLimit_passed {node : JobNode} {name : String} {table : JobTable} {now : ℤ}
    {job : WorkshopJob} {plan : Plan} {limits : List RateLimit} {pass : Pass}
    (h : (node.checkLimit cl name table now job plan limits pass).handler.passed p L = true) :
    job.planName = p ∧ (L ∉ limits ∨ (∃ rest, limits = L :: rest) ∧
      checkRateLimit table now p L.duration L.maxCount ≤ 0) := by
  unfold JobNode.checkLimit at h
  split at h
  · exact ⟨by simpa [Handler.passed] using h, .inl (by simp)⟩
  · rename_i limit rest
    simp only at h
    split at h
    · rw [JobNode.setRateLimited_handler] at h
      exact absurd h (by simp [Handler.passed])
    · rename_i hdelta
      simp only [Handler.passed, Bool.and_eq_true, beq_iff_eq, Bool.not_eq_true',
        decide_eq_false_iff_not] at h
      obtain ⟨hname, hrest⟩ := h
      refine ⟨hname, ?_⟩
      by_cases heq : limit = L
      · subst heq
        rw [hname] at hdelta
        exact .inr ⟨⟨rest, rfl⟩, Int.not_lt.mp hdelta⟩
      · refine .inl ?_
        rw [List.mem_cons, not_or]
        exact ⟨fun hL => heq hL.symm, hrest⟩

lemma JobNode.resume_passed {name : String} {table : JobTable} {now : ℤ} {node node' : JobNode}
    (hlimit : ∀ plan, cl.getPlan name now p = some plan → L ∈ plan.rateLimits)
    (h : node.resume cl name table now = some node') (hpassed : node'.handler.passed p L = true) :
    ∃ job plan limits pass, node.handler = .limits job plan limits pass ∧ job.planName = p ∧
      (L ∉ limits ∨ (∃ rest, limits = L :: rest) ∧
        checkRateLimit table now p L.duration L.maxCount ≤ 0) := by
  unfold JobNode.resume at h
  split at h
  · exact absurd h (by simp)
  · obtain rfl := Option.some.inj h
    exact absurd hpassed (by simp [Handler.passed])
  · obtain rfl := Option.some.inj h
    exact absurd hpassed (by rw [JobNode.checkRow_passed hlimit]; simp)
  · rename_i job plan limits pass hhandler
    obtain rfl := Option.some.inj h
    obtain ⟨hname, hcheck⟩ := JobNode.checkLimit_passed hpassed
    exact ⟨job, plan, limits, pass, hhandler, hname, hcheck⟩
  · obtain rfl := Option.some.inj h
    exact absurd hpassed (by rw [JobNode.claimRow_passed]; simp)
  · obtain rfl := Option.some.inj h
    exact absurd hpassed (by simp [Handler.passed])
  · obtain rfl := Option.some.inj h
    rw [JobNode.onExit_handler] at hpassed
    exact absurd hpassed (by simp [Handler.passed])

lemma Fails.passed {name : String} {now : ℤ} {node node' : JobNode}
    (h : Fails cl name now node node') (hpassed : node'.handler.passed p L = true) :
    node.handler.passed p L = true ∨
      ∃ job plan limits pass, node.handler = .limits job plan (L :: limits) pass ∧
        job.planName = p := by
  cases h with
  | aborted _ | skipped _ _ | uncounted _ => exact absurd hpassed (by simp [Handler.passed])
  | @unlimited job plan limit limits pass hhandler =>
      simp only [Handler.passed, Bool.and_eq_true, beq_iff_eq, Bool.not_eq_true',
        decide_eq_false_iff_not] at hpassed
      obtain ⟨hname, hrest⟩ := hpassed
      by_cases heq : limit = L
      · subst heq
        exact .inr ⟨job, plan, limits, pass, hhandler, hname⟩
      · have hL : L ∉ limit :: limits := by
          rw [List.mem_cons, not_or]
          exact ⟨fun hL => heq hL.symm, hrest⟩
        exact .inl (by simp [hhandler, Handler.passed, hname, hL])
  | concluded _ =>
      rw [JobNode.onExit_handler] at hpassed
      exact absurd hpassed (by simp [Handler.passed])

/-- **How a node passes the check**: it had passed it before, or the step executes it and finds
nothing, or it fails. -/
lemma passed_step (hlimit : HasLimit cl p L) (h : step cl s e = some t)
    (hpassed : (t.nodes n).handler.passed p L = true) :
    (s.nodes n).handler.passed p L = true ∨
      (checksLimit p L (s, e) = true ∧ e.statement cl s = none ∧
        checkRateLimit s.table s.now p L.duration L.maxCount ≤ 0) ∨
      (e = .node n .failed ∧ ∃ job plan limits pass,
        (s.nodes n).handler = .limits job plan (L :: limits) pass ∧ job.planName = p) := by
  obtain ⟨ev, rfl, hnode⟩ | ⟨_, hnode⟩ := step_node_cases h n
  · obtain hsame | hnone | ⟨rfl, hresume⟩ | ⟨rfl, hfails⟩ := (JobNode.step_spec hnode).2
    · rw [hsame] at hpassed
      exact .inl hpassed
    · rw [Handler.passed_eq_false hnone] at hpassed
      exact absurd hpassed (by simp)
    · obtain ⟨job, plan, limits, pass, hhandler, hname, hbefore | ⟨⟨rest, rfl⟩, hcheck⟩⟩ :=
        JobNode.resume_passed (hlimit n s.now) hresume hpassed
      · exact .inl (by simp [hhandler, Handler.passed, hname, hbefore])
      · refine .inr (.inl ⟨by simp [checksLimit, hhandler, hname], ?_, hcheck⟩)
        simp [Event.statement, JobNode.statement, JobNode.handlerStatement, hhandler]
    · exact (hfails.passed hpassed).imp_right fun hcheck => .inr ⟨rfl, hcheck⟩
  · rw [hnode] at hpassed
    exact .inl hpassed

/-! ## Claiming -/

/-- What a claim of the plan is: the node `n` has fetched the job `job` of the plan, whose row `r`
is free and enabled. -/
structure ClaimOf (cl : JobCluster) (p : String) (s : State) (e : Event) (n : String)
    (job : WorkshopJob) (timeout : ℤ) (r : JobRow) : Prop where
  event : e = .node n .resume ∨ e = .node n .lost
  handler : ∃ plan pass, (s.nodes n).handler = .claim job plan pass
  plan : job.planName = p
  statement : e.statement cl s = some (.claimJob n job.id timeout s.now)
  row : s.table.find? job.id = some r
  cond : (claimJob n job.id timeout s.now).cond r = true

lemma claimOf_of_claimsPlan (h : claimsPlan cl p (s, e) = true) :
    ∃ n job timeout r, ClaimOf cl p s e n job timeout r := by
  simp only [claimsPlan, Option.any_eq_true] at h
  obtain ⟨st, hst, hclaim⟩ := h
  obtain ⟨_, _, _, rfl⟩ | ⟨n, ev, rfl, hexec⟩ := statement_cases hst
  · exact absurd hclaim (by simp)
  · cases hexec with
    | @claimJob job plan pass timeout hev hhandler _ =>
        simp only [hhandler, Handler.claims, Bool.and_eq_true, beq_iff_eq,
          decide_eq_true_eq] at hclaim
        obtain ⟨hplan, haff⟩ := hclaim
        obtain ⟨r, hr, hcond⟩ :=
          (Table.affected_pos_of_key fun r hcond => (claimJob_cond.mp hcond).1).mp haff
        have hevent : Event.node n ev = .node n .resume ∨ Event.node n ev = .node n .lost := by
          rcases hev with rfl | rfl
          · exact .inl rfl
          · exact .inr rfl
        exact ⟨n, job, timeout, r, hevent, ⟨plan, pass, hhandler⟩, hplan, hst, hr, hcond⟩
    | _ => exact absurd hclaim (by simp)

namespace ClaimOf

variable {job : WorkshopJob} {timeout : ℤ} {r : JobRow}

lemma fetched (h : ClaimOf cl p s e n job timeout r) : job ∈ (s.nodes n).handler.fetched := by
  obtain ⟨plan, pass, hhandler⟩ := h.handler
  rw [hhandler]
  exact List.mem_cons_self

lemma passed (h : ClaimOf cl p s e n job timeout r) : (s.nodes n).handler.passed p L = true := by
  obtain ⟨plan, pass, hhandler⟩ := h.handler
  simp [hhandler, Handler.passed, h.plan]

/-- After the claim, the next job has to be checked. -/
lemma passed_after (h : ClaimOf cl p s e n job timeout r) (hstep : step cl s e = some t) :
    (t.nodes n).handler.passed p L = false := by
  obtain ⟨plan, pass, hhandler⟩ := h.handler
  rcases h.event with rfl | rfl
  · have hnode := step_self hstep
    simp only [JobNode.step] at hnode
    obtain ⟨_, hnode⟩ := Option.ite_none_left_eq_some.mp hnode
    simp only [JobNode.resume, hhandler, Option.some.injEq] at hnode
    rw [← hnode]
    exact JobNode.claimRow_passed
  · have hnode := step_self hstep
    obtain ⟨⟨hrunning, _⟩, hnode⟩ := of_guard hnode
    rw [← hnode, JobNode.onDisconnect, if_pos hrunning]
    rfl

lemma mem_rows (h : ClaimOf cl p s e n job timeout r) : r ∈ s.table.rows :=
  (Table.find?_eq_some.mp h.row).1

lemma rowAfter_eq (h : ClaimOf cl p s e n job timeout r) :
    rowAfter cl s e r = (claimJob n job.id timeout s.now).set r :=
  rowAfter_of_statement h.statement h.cond

end ClaimOf

/-! ## Rows that count -/

lemma Statement.set_timeStarted {st : Statement} {r : JobRow}
    (h : ∀ n id timeout now, st ≠ .claimJob n id timeout now) :
    (st.update.set r).timeStarted = r.timeStarted := by
  cases st with
  | claimJob n id timeout now => exact absurd rfl (h n id timeout now)
  | _ => rfl

lemma takesOut_of {st : Statement} {r : JobRow} (hcond : st.update.cond r = true)
    (hplan : r.planName = p) (hleaves : (st.update.set r).planName ≠ p) :
    st.takesOut p r = true := by
  simp [Statement.takesOut, hcond, hplan, hleaves]

lemma startedSince_mono {a b : ℤ} (hle : a ≤ b) {r : JobRow} (h : startedSince p b r = true) :
    startedSince p a r = true := by
  simp only [startedSince, Bool.and_eq_true, Option.any_eq_true, decide_eq_true_eq] at h ⊢
  obtain ⟨hplan, started, hstarted, hlt⟩ := h
  exact ⟨hplan, started, hstarted, by omega⟩

lemma KeepsCount.startedSince_of_claim (hC : KeepsCount cl p L s e) {id : ℕ} {timeout now : ℤ}
    (hst : e.statement cl s = some (.claimJob n id timeout now)) {r : JobRow}
    (hr : r ∈ s.table.rows) (hcond : (claimJob n id timeout now).cond r = true) {b : ℤ}
    (hb : L.since s.now ≤ b) :
    startedSince p b r = false := by
  by_contra hcounts
  have hagain : claimsAgain cl p L (s, e) = true := by
    simp only [claimsAgain, hst, Option.any_some, List.any_eq_true, Bool.and_eq_true]
    exact ⟨r, hr, hcond, startedSince_mono hb (by simpa using hcounts)⟩
  exact absurd (hagain.symm.trans hC.once) (by simp)

lemma KeepsCount.startedSince_rowAfter (hC : KeepsCount cl p L s e) {b : ℤ}
    (hb : L.since s.now ≤ b) {r : JobRow} (hr : r ∈ s.table.rows)
    (hcounts : startedSince p b r = true) :
    startedSince p b (rowAfter cl s e r) = true := by
  obtain hsame | ⟨st, hst, hcond, hset⟩ := rowAfter_cases cl s e r
  · rwa [hsame]
  · have hclaim : ∀ n id timeout now, st ≠ .claimJob n id timeout now := by
      rintro n id timeout now rfl
      exact absurd (hcounts.symm.trans (hC.startedSince_of_claim hst hr hcond hb)) (by simp)
    have hcounts' := hcounts
    simp only [startedSince, Bool.and_eq_true, beq_iff_eq] at hcounts'
    obtain ⟨hplan, hstarted⟩ := hcounts'
    have hstays : (st.update.set r).planName = p := by
      by_contra hleaves
      have hforgets : forgetsStart cl p L (s, e) = true := by
        simp only [forgetsStart, hst, Option.any_some, List.any_eq_true, Bool.and_eq_true]
        exact ⟨r, hr, takesOut_of hcond hplan hleaves, startedSince_mono hb hcounts⟩
      exact absurd (hforgets.symm.trans hC.recent) (by simp)
    rw [hset, startedSince, Statement.set_timeStarted hclaim, hstays, beq_self_eq_true,
      Bool.true_and]
    exact hstarted

lemma KeepsCount.starts_le (hC : KeepsCount cl p L s e) (h : step cl s e = some t) {b : ℤ}
    (hb : L.since s.now ≤ b) : starts s.table p b ≤ starts t.table p b := by
  obtain ⟨new, hrows⟩ := step_rows h hC.rows
  unfold starts
  rw [hrows, List.countP_append, List.countP_map]
  refine Nat.le_add_right_of_le (List.countP_mono_left fun r hr hcounts => ?_)
  exact hC.startedSince_rowAfter hb hr hcounts

/-- **A claim is one more start**, if its job is one of the plan in the table, too. -/
lemma KeepsCount.starts_lt (hC : KeepsCount cl p L s e) (h : step cl s e = some t)
    {job : WorkshopJob} {timeout : ℤ} {r : JobRow} (hclaim : ClaimOf cl p s e n job timeout r)
    (hplan : r.planName = p) {b : ℤ} (hb : L.since s.now ≤ b) (hnow : b < s.now) :
    starts s.table p b < starts t.table p b := by
  obtain ⟨new, hrows⟩ := step_rows h hC.rows
  have hold : startedSince p b r = false :=
    hC.startedSince_of_claim hclaim.statement hclaim.mem_rows hclaim.cond hb
  have hnew : startedSince p b (rowAfter cl s e r) = true := by
    rw [hclaim.rowAfter_eq]
    simp [startedSince, claimJob, hplan, hnow]
  unfold starts
  rw [hrows, List.countP_append, List.countP_map]
  refine Nat.lt_add_right _ (countP_lt_countP (fun x hx hcounts => ?_) hclaim.mem_rows hold hnew)
  exact hC.startedSince_rowAfter hb hx hcounts

/-! ## Fetched jobs are in the plan -/

/-- The jobs of the plan that are fetched are in the plan in the table, too; ids are not used
again. -/
structure Planned (p : String) (s : State) : Prop where
  plan : ∀ n, ∀ job ∈ (s.nodes n).handler.fetched, job.planName = p →
    ∀ r, s.table.find? job.id = some r → r.planName = p
  known : ∀ n, ∀ job ∈ (s.nodes n).handler.fetched, job.id < s.nextId
  fresh : ∀ j r, s.table.find? j = some r → j < s.nextId

lemma Planned.step (hI : Planned p s) (hC : KeepsCount cl p L s e) (h : Jobs.step cl s e = some t) :
    Planned p t where
  plan := by
    intro n job hjob hname r' hr'
    obtain ⟨hold, r, hr, rfl⟩ | ⟨_, hdata⟩ := fetched_row_step hI.fresh hI.known h hjob hr'
    · have hplan := hI.plan n job hold hname r hr
      obtain hsame | ⟨st, hst, hcond, hset⟩ := rowAfter_cases cl s e r
      · rwa [hsame]
      · rw [hset]
        by_contra hleaves
        obtain ⟨hmem, hid⟩ := Table.find?_eq_some.mp hr
        have htakes : takesFetched cl p n (s, e) = true := by
          simp only [takesFetched, hst, Option.any_some, List.any_eq_true, Bool.and_eq_true,
            beq_iff_eq]
          exact ⟨r, hmem, takesOut_of hcond hplan hleaves, job, hold, hid.symm, hname⟩
        exact absurd (htakes.symm.trans (hC.fetched n)) (by simp)
    · rw [hdata] at hname
      exact hname
  known := fun _ _ hjob => known_step hI.fresh hI.known h hjob
  fresh := fun _ _ hr => fresh_step hI.fresh h hr

/-! ## Claims are starts -/

lemma RateLimit.since_le_of_step (L : RateLimit) (h : step cl s e = some t) :
    L.since s.now ≤ L.since t.now := by
  have hnow := now_le_of_step h
  unfold RateLimit.since
  omega

lemma claimsSince_anti {tr : List (State × Event)} {a b : ℤ} (hle : a ≤ b) :
    claimsSince cl p tr b ≤ claimsSince cl p tr a := by
  refine List.countP_mono_left fun q _ hq => ?_
  simp only [Bool.and_eq_true, decide_eq_true_eq] at hq ⊢
  exact ⟨hq.1, by omega⟩

lemma claimsWithin_le {tr : List (State × Event)} {b c : ℤ} :
    claimsWithin cl p tr b c ≤ claimsSince cl p tr b := by
  refine List.countP_mono_left fun q _ hq => ?_
  simp only [Bool.and_eq_true, decide_eq_true_eq] at hq ⊢
  exact ⟨hq.1, hq.2.1⟩

/-- A step counts once at most, and only if it claims a job of the plan after the time. -/
lemma claimsSince_append (cl : JobCluster) (p : String) (tr : List (State × Event))
    (q : State × Event) (b : ℤ) : claimsSince cl p (tr ++ [q]) b =
      claimsSince cl p tr b + if claimsPlan cl p q = true ∧ b < q.1.now then 1 else 0 := by
  unfold claimsSince
  rw [List.countP_append, List.countP_singleton]
  simp only [Bool.and_eq_true, decide_eq_true_eq]

/-- **The invariant**: the claims of the window that ends now, and of every shorter one, are starts
in the table; a node that has passed its check finds room for one more claim; and the limit is
kept. -/
structure Counted (cl : JobCluster) (p : String) (L : RateLimit) (tr : List (State × Event))
    (s : State) : Prop where
  planned : Planned p s
  counted : ∀ b, L.since s.now ≤ b → claimsSince cl p tr b ≤ starts s.table p b
  room : ∀ n, (s.nodes n).handler.passed p L = true →
    claimsSince cl p tr (L.since s.now) < L.maxCount
  within : ∀ b, claimsWithin cl p tr b (b + L.duration * second) ≤ L.maxCount

namespace Counted

variable {tr : List (State × Event)}

lemma counted_step (hI : Counted cl p L tr s) (hC : KeepsCount cl p L s e)
    (h : step cl s e = some t) {b : ℤ} (hb : L.since s.now ≤ b) :
    claimsSince cl p (tr ++ [(s, e)]) b ≤ starts t.table p b := by
  have hbefore := hI.counted b hb
  rw [claimsSince_append]
  split
  · rename_i hnew
    obtain ⟨n, job, timeout, r, hclaim⟩ := claimOf_of_claimsPlan hnew.1
    have hplan := hI.planned.plan n job hclaim.fetched hclaim.plan r hclaim.row
    have hlt := hC.starts_lt h hclaim hplan hb hnew.2
    omega
  · have hmono := hC.starts_le h hb
    omega

lemma room_of_claim (hI : Counted cl p L tr s) (hC : KeepsCount cl p L s e)
    {m : String} {job : WorkshopJob} {timeout : ℤ} {r : JobRow}
    (hclaims : claimsPlan cl p (s, e) = true) (hclaim : ClaimOf cl p s e m job timeout r)
    (hne : m ≠ n) (hpassed : (s.nodes n).handler.passed p L = true) :
    claimsSince cl p tr (L.since s.now) + 1 < L.maxCount := by
  have hbefore := hI.counted _ (le_refl _)
  have hroom : starts s.table p (L.since s.now) + 1 < L.maxCount := by
    by_contra hfull
    have hover : overtakes cl p L n (s, e) = true := by
      rcases hclaim.event with rfl | rfl <;>
        simp [overtakes, hclaims, hpassed, hne, Nat.not_lt.mp hfull]
    exact absurd (hover.symm.trans (hC.alone n)) (by simp)
  omega

/-- A check that finds nothing finds room. -/
lemma room_of_check (hI : Counted cl p L tr s) (hC : KeepsCount cl p L s e) (hpos : 1 ≤ L.maxCount)
    (hbound : L.maxCount < 2 ^ 32) (hchecks : checksLimit p L (s, e) = true)
    (hnone : checkRateLimit s.table s.now p L.duration L.maxCount ≤ 0) :
    claimsSince cl p tr (L.since s.now) < L.maxCount := by
  have hbefore := hI.counted _ (le_refl _)
  have hseen : starts s.table p (L.since s.now + (second - 1)) < L.maxCount := by
    by_contra hfull
    have hdelta := checkRateLimit_pos hpos hbound (Nat.not_lt.mp hfull)
    omega
  have hroom : starts s.table p (L.since s.now) < L.maxCount := by
    by_contra hfull
    have hlate : checksLate p L (s, e) = true := by
      simp [checksLate, hchecks, hseen, Nat.not_lt.mp hfull]
    exact absurd (hlate.symm.trans hC.inTime) (by simp)
  omega

/-- A check that fails leaves room, as the limit is not used up. -/
lemma room_of_failed (hI : Counted cl p L tr s) (hC : KeepsCount cl p L s e)
    (hev : e = .node n .failed) {job : WorkshopJob} {plan : Plan} {limits : List RateLimit}
    {pass : Pass} (hhandler : (s.nodes n).handler = .limits job plan (L :: limits) pass)
    (hname : job.planName = p) : claimsSince cl p tr (L.since s.now) < L.maxCount := by
  have hcount := hI.counted (L.since s.now) le_rfl
  have hfree : starts s.table p (L.since s.now) < L.maxCount := by
    by_contra hfull
    have hfails : checkFails p L (s, e) = true := by
      simp [checkFails, hev, hhandler, hname, Nat.not_lt.mp hfull]
    exact absurd (hfails.symm.trans hC.answered) (by simp)
  exact hcount.trans_lt hfree

lemma room_step (hI : Counted cl p L tr s) (hC : KeepsCount cl p L s e) (hlimit : HasLimit cl p L)
    (hpos : 1 ≤ L.maxCount) (hbound : L.maxCount < 2 ^ 32) (h : step cl s e = some t)
    (hpassed : (t.nodes n).handler.passed p L = true) :
    claimsSince cl p (tr ++ [(s, e)]) (L.since t.now) < L.maxCount := by
  have hanti : claimsSince cl p tr (L.since t.now) ≤ claimsSince cl p tr (L.since s.now) :=
    claimsSince_anti (L.since_le_of_step h)
  rw [claimsSince_append]
  split
  · -- a claim, so it is the one of another node, and this one has passed its check before
    rename_i hnew
    obtain ⟨m, job, timeout, r, hclaim⟩ := claimOf_of_claimsPlan hnew.1
    have hne : m ≠ n := by
      rintro rfl
      exact absurd (hpassed.symm.trans (hclaim.passed_after h)) (by simp)
    have hbefore : (s.nodes n).handler.passed p L = true := by
      obtain hbefore | ⟨_, hnone, _⟩ | ⟨rfl, _⟩ := passed_step hlimit h hpassed
      · exact hbefore
      · exact absurd (hnone.symm.trans hclaim.statement) (by simp)
      · exact absurd hclaim.statement (by simp [Event.statement, JobNode.statement])
    have hroom := hI.room_of_claim hC hnew.1 hclaim hne hbefore
    omega
  · have hroom : claimsSince cl p tr (L.since s.now) < L.maxCount := by
      obtain hbefore | ⟨hchecks, _, hnone⟩ | ⟨hev, _, _, _, _, hhandler, hname⟩ :=
        passed_step hlimit h hpassed
      · exact hI.room n hbefore
      · exact hI.room_of_check hC hpos hbound hchecks hnone
      · exact hI.room_of_failed hC hev hhandler hname
    omega

lemma within_step (hI : Counted cl p L tr s) (e : Event) (b : ℤ) :
    claimsWithin cl p (tr ++ [(s, e)]) b (b + L.duration * second) ≤ L.maxCount := by
  have hbefore := hI.within b
  unfold claimsWithin at hbefore ⊢
  rw [List.countP_append, List.countP_singleton]
  split
  · -- the window of the claim begins in the one that ends now
    rename_i hnew
    simp only [Bool.and_eq_true, decide_eq_true_eq] at hnew
    obtain ⟨hclaims, hb, hnow⟩ := hnew
    obtain ⟨n, job, timeout, r, hclaim⟩ := claimOf_of_claimsPlan hclaims
    have hroom := hI.room n hclaim.passed
    have hle : claimsWithin cl p tr b (b + L.duration * second) ≤
        claimsSince cl p tr (L.since s.now) := by
      refine claimsWithin_le.trans (claimsSince_anti ?_)
      unfold RateLimit.since
      omega
    unfold claimsWithin at hle
    omega
  · omega

lemma step (hI : Counted cl p L tr s) (hC : KeepsCount cl p L s e) (hlimit : HasLimit cl p L)
    (hpos : 1 ≤ L.maxCount) (hbound : L.maxCount < 2 ^ 32) (h : Jobs.step cl s e = some t) :
    Counted cl p L (tr ++ [(s, e)]) t where
  planned := hI.planned.step hC h
  counted := fun _ hb => hI.counted_step hC h ((L.since_le_of_step h).trans hb)
  room := fun _ hpassed => hI.room_step hC hlimit hpos hbound h hpassed
  within := hI.within_step e

end Counted

/-- **The rate limit is kept**, in any run from idle nodes in which no row is deleted, no job is
executed again while its last start is in the window, no job leaves the plan while its start is in
the window or a node has fetched it, no node uses up the limit while another one has passed its
check, no check is made in the last second that matters, and none fails when the limit is used up:
the claims of the plan in a window of the duration are not more than the limit. -/
theorem rate_limit_kept (cl : JobCluster) {p : String} {L : RateLimit} (hlimit : HasLimit cl p L)
    (hpos : 1 ≤ L.maxCount) (hbound : L.maxCount < 2 ^ 32) {s t : State}
    {tr : List (State × Event)} (hrun : Run (step cl) s tr t)
    (hstart : ∀ n, (s.nodes n).handler = .idle)
    (hfresh : ∀ j r, s.table.find? j = some r → j < s.nextId)
    (hkeeps : ∀ q ∈ tr, KeepsCount cl p L q.1 q.2) (b : ℤ) :
    claimsWithin cl p tr b (b + L.duration * second) ≤ L.maxCount := by
  have hI : Counted cl p L [] s := by
    refine ⟨⟨?_, ?_, hfresh⟩, fun b _ => Nat.zero_le _, fun n _ => hpos, fun b => Nat.zero_le _⟩
    · intro n job hjob
      rw [hstart n] at hjob
      exact absurd hjob (by simp [Handler.fetched])
    · intro n job hjob
      rw [hstart n] at hjob
      exact absurd hjob (by simp [Handler.fetched])
  have hend := hrun.invariant_past (J := Counted cl p L) (C := KeepsCount cl p L)
    (fun tr s e t hI hC h => hI.step hC hlimit hpos hbound h) hI hkeeps
  exact hend.within b

/-! ## Two nodes at once -/

/-- The small cluster with a limit for one minute. -/
def limitedCluster (maxCount : ℕ) : JobCluster :=
  { smallCluster with
    getPlan := fun _ _ planName =>
      if planName = "p" then
        some
          { args := ["/bin/true"], timeout := "10 minutes"
            rateLimits := [{ duration := 60, maxCount }] }
      else none }

lemma hasLimit_limitedCluster (maxCount : ℕ) :
    HasLimit (limitedCluster maxCount) "p" { duration := 60, maxCount } := by
  intro n now plan hplan
  obtain rfl := Option.some.inj hplan
  exact List.mem_singleton_self _

/-- Both nodes check the limit before either of them claims its job: `a` has fetched the first one,
and `b` a more urgent one that was created after that. -/
def checkedTwice : List Event :=
  [oneJob] ++ (claimFirst "a").take 8 ++ [.insert { planName := "p", priority := -1 }] ++
    (claimFirst "b").take 9 ++ [.node "a" .resume]

/-- **The limit can be exceeded**, also if no row is deleted. -/
theorem rate_limit_exceeded :
    ¬ ∀ (cl : JobCluster) (p : String) (L : RateLimit), HasLimit cl p L → 1 ≤ L.maxCount →
        L.maxCount < 2 ^ 32 → ∀ (s t : State) (tr : List (State × Event)), Run (step cl) s tr t →
        (∀ n, (s.nodes n).handler = .idle) → (∀ j r, s.table.find? j = some r → j < s.nextId) →
        (∀ q ∈ tr, ∀ r ∈ q.1.table.rows, q.2.deletes q.1 r = false) →
        ∀ b, claimsWithin cl p tr b (b + L.duration * second) ≤ L.maxCount := by
  intro h
  have hsome : (final (step (limitedCluster 1)) noJobs checkedTwice).isSome = true := by
    decide +kernel
  obtain ⟨t, ht⟩ := Option.isSome_iff_exists.mp hsome
  have hle := h (limitedCluster 1) "p" _ (hasLimit_limitedCluster 1) (by decide) (by decide) noJobs
    t _ (Run.of_final ht) (fun _ => rfl) (by simp [noJobs, Table.find?, Table.empty])
    (by decide +kernel) (-1)
  exact absurd hle (by decide +kernel)

/-- The process of the node wants to be executed again, and the node claims the job once more. -/
def executeAgain (n : String) : List Event :=
  [.node n (.again 0 0), .node n (.childExit 0 0 none none), .node n .resume, .node n .resume,
    .node n .timer] ++ List.replicate 8 (.node n .resume)

/-- One job of one node, executed three times with a limit of two: the table has its last start
only. -/
example : claimsSince (limitedCluster 2) "p" (traceOf (step (limitedCluster 2)) noJobs
    ([oneJob] ++ (claimFirst "a").take 9 ++ List.replicate 3 (.node "a" .resume) ++
      executeAgain "a" ++ executeAgain "a")) (-1) = 3 := by
  decide +kernel

/-- A second job of `b`, half a second before the start of the first one leaves the window. -/
example : claimsWithin (limitedCluster 1) "p" (traceOf (step (limitedCluster 1)) noJobs
    ([oneJob, oneJob] ++ (claimFirst "a").take 9 ++ [.tick 59500000] ++ (claimFirst "b").take 9))
    (-1) (60 * second - 1) = 2 := by
  decide +kernel

/-- A second job of `a`, whose check fails. -/
example : claimsSince (limitedCluster 1) "p" (traceOf (step (limitedCluster 1)) noJobs
    ([oneJob, oneJob] ++ (claimFirst "a").take 10 ++
      [.node "a" .failed, .node "a" .resume, .node "a" .resume])) (-1) = 2 := by
  decide +kernel

/-- Whether the claims are counted is a question about the nodes that do something. -/
lemma keepsCount_of_actsOnly (names : List String) {tr : List (State × Event)}
    (hrun : Run (step cl) s tr t) (hstart : ∀ n, (s.nodes n).handler = .idle)
    (honly : ∀ q ∈ tr, actsOnly names q.2 = true)
    (hrows : ∀ q ∈ tr, ∀ r ∈ q.1.table.rows, q.2.deletes q.1 r = false)
    (htable : ∀ q ∈ tr, claimsAgain cl p L q = false ∧ forgetsStart cl p L q = false ∧
      checksLate p L q = false ∧ checkFails p L q = false)
    (hnodes : ∀ q ∈ tr, ∀ m ∈ names, takesFetched cl p m q = false ∧ overtakes cl p L m q = false) :
    ∀ q ∈ tr, KeepsCount cl p L q.1 q.2 := by
  intro q hq
  obtain ⟨honce, hrecent, hinTime, hanswered⟩ := htable q hq
  have hidle : ∀ m ∉ names, (q.1.nodes m).handler = .idle := by
    intro m hm
    rw [nodes_of_actsOnly hrun honly hm q hq]
    exact hstart m
  refine ⟨hrows q hq, honce, hrecent, fun m => ?_, fun m => ?_, hinTime, hanswered⟩
  · by_cases hm : m ∈ names
    · exact (hnodes q hq m hm).1
    · simp only [takesFetched, hidle m hm, Handler.fetched, List.any_nil, Bool.and_false]
      rcases q.2.statement cl q.1 with _ | st <;> simp
  · by_cases hm : m ∈ names
    · exact (hnodes q hq m hm).2
    · simp [overtakes, hidle m hm, Handler.passed]

/-- Two nodes with three jobs and a limit of two: each of them claims one at once, `a` is refused
the third one and claims it a minute later. -/
def takeTurns : List Event :=
  [oneJob, oneJob, oneJob] ++ (claimFirst "a").take 8 ++ (claimFirst "b").take 8 ++
    [.node "a" .resume] ++ List.replicate 5 (.node "b" .resume) ++
    List.replicate 3 (.node "a" .resume) ++
    [.tick 61000000, .node "a" (.updateFilter false), .node "a" .timer] ++
    List.replicate 7 (.node "a" .resume)

theorem rate_limit_kept_takeTurns :
    claimsSince (limitedCluster 2) "p"
        (traceOf (step (limitedCluster 2)) noJobs takeTurns) (-1) = 3 ∧
      ∀ b, claimsWithin (limitedCluster 2) "p"
        (traceOf (step (limitedCluster 2)) noJobs takeTurns) b (b + 60 * second) ≤ 2 := by
  have hsome : (final (step (limitedCluster 2)) noJobs takeTurns).isSome = true := by decide +kernel
  obtain ⟨t, ht⟩ := Option.isSome_iff_exists.mp hsome
  have hrun := Run.of_final ht
  refine ⟨by decide +kernel, ?_⟩
  exact rate_limit_kept (limitedCluster 2) (hasLimit_limitedCluster 2) (by decide) (by decide) hrun
    (fun _ => rfl) (by simp [noJobs, Table.find?, Table.empty])
    (keepsCount_of_actsOnly ["a", "b"] hrun (fun _ => rfl) (by decide +kernel) (by decide +kernel)
      (by decide +kernel) (by decide +kernel))

end Workshop.Jobs

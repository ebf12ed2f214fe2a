import Workshop.Jobs.Selection

/-!
# A queue run, step by step

`JobNode.run2` computes a queue run on a table that nobody else changes.  In the cluster of
`Workshop.Jobs.System` the same run is a sequence of steps, one for each statement, between which
anything may happen.  Here the two are connected: where nothing does happen, and no job fails to
start at once, the timer of a node and the steps of its handler lead to the state `run2` computes
(`run2_resumes`).
-/

namespace Workshop.Jobs

open Workshop.Lib

/-! ## Steps of one handler -/

/-- The state in which a table and one node are these. -/
def State.with (s : State) (n : String) (table : JobTable) (node : JobNode) : State :=
  { s with table, nodes := Function.update s.nodes n node }

/-- The handler of a node goes on, and nothing else happens. -/
def Resumes (cl : JobCluster) (n : String) (s s' : State) : Prop :=
  ∃ tr, Run (step cl) s tr s' ∧ ∀ p ∈ tr, p.2 = .node n .resume

section Resumes

variable {cl : JobCluster} {n : String} {s s' s'' : State} {table : JobTable} {node node' : JobNode}

lemma Resumes.refl (cl : JobCluster) (n : String) (s : State) : Resumes cl n s s :=
  ⟨[], .nil s, by simp⟩

lemma Resumes.trans (h : Resumes cl n s s') (h' : Resumes cl n s' s'') : Resumes cl n s s'' := by
  obtain ⟨tr, hrun, htr⟩ := h
  obtain ⟨tr', hrun', htr'⟩ := h'
  refine ⟨tr ++ tr', hrun.append hrun', fun p hp => ?_⟩
  exact (List.mem_append.mp hp).elim (htr p) (htr' p)

/-- One step of the handler, with its statement, if it has one. -/
lemma resumes_of_resume (s : State) (hresume : node.resume cl n table s.now = some node')
    (hready : node.ready = true) :
    Resumes cl n (s.with n table node)
      (s.with n (table.tableAfter ((node.handlerStatement cl n s.now).map Statement.update))
        node') := by
  have hnode : (s.with n table node).nodes n = node := Function.update_self ..
  have hstep : step cl (s.with n table node) (.node n .resume) = some (s.with n
      (table.tableAfter ((node.handlerStatement cl n s.now).map Statement.update)) node') := by
    have hstep' : ((s.with n table node).nodes n).step cl n table s.now .resume = some node' := by
      rw [hnode, JobNode.step, hready, Bool.not_true, Bool.and_false]
      exact hresume
    have htable : (s.with n table node).tableAfter cl (.node n .resume) =
        table.tableAfter ((node.handlerStatement cl n s.now).map Statement.update) := by
      refine (Table.delete_of_forall fun _ _ => rfl).trans ?_
      show table.tableAfter
        ((((s.with n table node).nodes n).statement cl n s.now .resume).map _) = _
      rw [hnode, JobNode.statement, if_pos hready]
    show (((s.with n table node).nodes n).step cl n table s.now .resume).map _ = _
    rw [hstep', Option.map_some, htable]
    simp [State.with]
  exact ⟨_, .cons hstep (.nil _), by simp⟩

lemma resumes_of_quiet (s : State) (hresume : node.resume cl n table s.now = some node')
    (hready : node.ready = true) (hquiet : node.handlerStatement cl n s.now = none) :
    Resumes cl n (s.with n table node) (s.with n table node') := by
  have hresumes := resumes_of_resume s hresume hready
  rw [hquiet] at hresumes
  exact hresumes

end Resumes

/-! ## The handler of a node -/

section Handler

variable {cl : JobCluster} {n : String} {now : ℤ} {node : JobNode} {handler : Handler}

/-- The node with another handler. -/
def JobNode.at (node : JobNode) (handler : Handler) : JobNode := { node with handler }

lemma setFilter_at (node : JobNode) (hrunning : node.handler.running = true)
    (hhandler : handler.running = true) (plansInclude plansExclude plansLowprio : Finset String) :
    (node.at handler).setFilter plansInclude plansExclude plansLowprio =
      (node.setFilter plansInclude plansExclude plansLowprio).at handler := by
  have hrunning' : (node.at handler).handler.running = true := hhandler
  unfold JobNode.setFilter
  rw [hrunning, hrunning']
  by_cases hdiffers : node.plansInclude ≠ some plansInclude ∨ node.plansExclude ≠ some plansExclude
  · rw [if_pos hdiffers]
    exact if_pos hdiffers
  · rw [if_neg hdiffers]
    exact if_neg hdiffers

lemma updateFilter_at (node : JobNode) (hrunning : node.handler.running = true)
    (hhandler : handler.running = true) :
    (node.at handler).updateFilter cl n now = (node.updateFilter cl n now).at handler :=
  setFilter_at { node with rateLimitedPlans := node.rateLimitedPlans.filter fun p => now < p.2 }
    hrunning hhandler _ _ _

lemma setRateLimited_at (hrunning : node.handler.running = true) (hhandler : handler.running = true)
    (planName : String) (delta : ℤ) :
    (node.at handler).setRateLimited cl n now planName delta =
      (node.setRateLimited cl n now planName delta).at handler :=
  updateFilter_at
    { node with
      rateLimitedPlans := (planName, now + delta * second) ::
        node.rateLimitedPlans.filter fun p => p.1 ≠ planName }
    hrunning hhandler

lemma startWorkshopJob_at (hrunning : node.handler.running = true)
    (hhandler : handler.running = true) (job : WorkshopJob) (plan : Plan) :
    (node.at handler).startWorkshopJob cl n now job plan =
      (node.startWorkshopJob cl n now job plan).at handler := by
  let pushed : JobNode :=
    { node with operators := node.operators ++ [WorkshopOperator.create now job plan] }
  show (if (pushed.at handler).isFull cl n then { pushed.at handler with disabledFull := true }
      else pushed.at handler).updateFilter cl n now =
    ((if pushed.isFull cl n then { pushed with disabledFull := true } else pushed).updateFilter
      cl n now).at handler
  by_cases hfull : pushed.isFull cl n = true
  · rw [if_pos hfull, if_pos (show (pushed.at handler).isFull cl n = true from hfull)]
    exact updateFilter_at { pushed with disabledFull := true } hrunning hhandler
  · rw [if_neg hfull, if_neg (show ¬ (pushed.at handler).isFull cl n = true from hfull)]
    exact updateFilter_at pushed hrunning hhandler

@[simp] lemma setFilter_ready (node : JobNode)
    (plansInclude plansExclude plansLowprio : Finset String) :
    (node.setFilter plansInclude plansExclude plansLowprio).ready = node.ready := by
  obtain ⟨_, _, heq⟩ := node.setFilter_eq plansInclude plansExclude plansLowprio
  rw [heq]

@[simp] lemma updateFilter_ready (node : JobNode) :
    (node.updateFilter cl n now).ready = node.ready := by
  simp only [JobNode.updateFilter, setFilter_ready]

lemma startWorkshopJob_ready (job : WorkshopJob) (plan : Plan) :
    (node.startWorkshopJob cl n now job plan).ready = node.ready := by
  simp only [JobNode.startWorkshopJob, updateFilter_ready]
  split
  · rfl
  · rfl

lemma declines_at (job : WorkshopJob) :
    (node.at handler).declines cl n now job =
      (node.declines cl n now job).map fun node => node.at handler := by
  unfold JobNode.declines
  rw [show (node.at handler).isFull cl n = node.isFull cl n from rfl]
  split
  · rfl
  · split
    · rfl
    · rfl

lemma Turn.keeps {job : WorkshopJob} {table : JobTable} {t : JobTable × JobNode}
    (hturn : Turn cl n now (fun _ => none) job (table, node) t)
    (hrunning : node.handler.running = true) :
    t.2.ready = node.ready ∧ t.2.handler = node.handler := by
  cases hturn with
  | notFound => exact ⟨rfl, rfl⟩
  | declined _ hdeclines =>
      obtain ⟨_, rfl⟩ | ⟨_, _, rfl⟩ := JobNode.declines_cases hdeclines
      · exact ⟨rfl, rfl⟩
      · exact ⟨rfl, rfl⟩
  | limited =>
      exact ⟨updateFilter_ready _, (KeepsFilter.setRateLimited cl n now hrunning _ _).handler⟩
  | claimed _ _ _ _ ht =>
      rw [ht]
      split
      · exact ⟨rfl, rfl⟩
      · exact
          ⟨startWorkshopJob_ready _ _, (KeepsFilter.startWorkshopJob cl n now hrunning _ _).handler⟩

end Handler

/-! ## A row, and a result -/

section Rows

variable {cl : JobCluster} {n : String} {table : JobTable} {node : JobNode} {job : WorkshopJob}
  {plan : Plan}

lemma resumes_limits (s : State) (hready : node.ready = true)
    (hrunning : node.handler.running = true) (limits : List RateLimit) (pass : Pass) :
    Resumes cl n (s.with n table (node.at (.limits job plan limits pass)))
      (s.with n table ((JobNode.hitLimit s.now table job.planName limits).elim
        (node.at (.claim job plan pass))
        fun delta => (node.setRateLimited cl n s.now job.planName delta).at (.rows pass))) := by
  induction limits with
  | nil => exact resumes_of_quiet s rfl hready rfl
  | cons limit limits ih =>
      set delta := checkRateLimit table s.now job.planName limit.duration limit.maxCount with hdelta
      by_cases hhit : 0 < delta
      · have hlimit : JobNode.hitLimit s.now table job.planName (limit :: limits) = some delta :=
          List.find?_cons_of_pos (by simpa using hhit)
        rw [hlimit, Option.elim_some]
        refine resumes_of_quiet s ?_ hready rfl
        rw [← setRateLimited_at hrunning rfl]
        exact congrArg some (if_pos hhit)
      · have hlimit : JobNode.hitLimit s.now table job.planName (limit :: limits) =
            JobNode.hitLimit s.now table job.planName limits :=
          List.find?_cons_of_neg (by simpa using hhit)
        have hnext : Resumes cl n
            (s.with n table (node.at (.limits job plan (limit :: limits) pass)))
            (s.with n table (node.at (.limits job plan limits pass))) :=
          resumes_of_quiet s (congrArg some (if_neg hhit)) hready rfl
        rw [hlimit]
        exact hnext.trans ih

/-- `RunResult` at a row that it does not skip. -/
lemma resume_checkRow {row : JobRow} (now : ℤ) (pass : Pass) (rest : List JobRow)
    (hgo : (!node.isEnabled || node.interrupt) = false) (hjob : makeJob row = .ok job) :
    (node.at (.rows { pass with rest := row :: rest })).resume cl n table now =
      some ((cl.getPlan n now job.planName).elim (node.at (.rows { pass with rest })) fun plan =>
        (node.declines cl n now job).elim (node.at (.limits job plan plan.rateLimits
          { pass with rest })) fun node' => node'.at (.rows { pass with rest })) := by
  have hgo' : (!(node.at (.rows { pass with rest := row :: rest })).isEnabled ||
      (node.at (.rows { pass with rest := row :: rest })).interrupt) = false := hgo
  show some (JobNode.checkRow ..) = _
  simp only [JobNode.checkRow, hgo', hjob, Bool.false_eq_true, if_false, declines_at]
  cases cl.getPlan n now job.planName with
  | none => rfl
  | some plan =>
      cases node.declines cl n now job with
      | none => rfl
      | some node' => rfl

/-- A row whose plan is found, in front of `claim_job` or after a limit that is hit. -/
lemma resumes_checked {row : JobRow} (s : State) (table : JobTable) (pass : Pass)
    (rest : List JobRow)
    (hready : node.ready = true) (hrunning : node.handler.running = true)
    (hgo : (!node.isEnabled || node.interrupt) = false) (hjob : makeJob row = .ok job)
    (hplan : cl.getPlan n s.now job.planName = some plan)
    (hdeclines : node.declines cl n s.now job = none) :
    Resumes cl n (s.with n table (node.at (.rows { pass with rest := row :: rest })))
      (s.with n table ((JobNode.hitLimit s.now table job.planName plan.rateLimits).elim
        (node.at (.claim job plan { pass with rest })) fun delta =>
          (node.setRateLimited cl n s.now job.planName delta).at (.rows { pass with rest }))) := by
  have hcheck : (node.at (.rows { pass with rest := row :: rest })).resume cl n table s.now =
      some (node.at (.limits job plan plan.rateLimits { pass with rest })) := by
    rw [resume_checkRow s.now pass rest hgo hjob, hplan, Option.elim_some, hdeclines,
      Option.elim_none]
  have hnext : Resumes cl n (s.with n table (node.at (.rows { pass with rest := row :: rest })))
      (s.with n table (node.at (.limits job plan plan.rateLimits { pass with rest }))) :=
    resumes_of_quiet s hcheck hready rfl
  exact hnext.trans (resumes_limits s hready hrunning plan.rateLimits _)

lemma resumes_claim {timeout : ℤ} (s : State) (pass : Pass) (hready : node.ready = true)
    (hrunning : node.handler.running = true) (hinterval : cl.interval plan.timeout = some timeout) :
    Resumes cl n (s.with n table (node.at (.claim job plan pass)))
      (s.with n (table.exec (claimJob n job.id timeout s.now))
        ((if table.affected (claimJob n job.id timeout s.now) = 0 then node
          else node.startWorkshopJob cl n s.now job plan).at (.rows pass))) := by
  have hresume : (node.at (.claim job plan pass)).resume cl n table s.now =
      some ((if table.affected (claimJob n job.id timeout s.now) = 0 then node
        else node.startWorkshopJob cl n s.now job plan).at (.rows pass)) := by
    show some (JobNode.claimRow ..) = _
    simp only [JobNode.claimRow, hinterval]
    by_cases haffected : table.affected (claimJob n job.id timeout s.now) = 0
    · rw [if_pos haffected, if_pos haffected]
      rfl
    · rw [if_neg haffected, if_neg haffected, ← startWorkshopJob_at hrunning rfl]
      rfl
  have hstatement : (node.at (.claim job plan pass)).handlerStatement cl n s.now =
      some (.claimJob n job.id timeout s.now) := by
    show (cl.interval plan.timeout).map _ = _
    rw [hinterval, Option.map_some]
  have hresumes := resumes_of_resume s hresume hready
  rw [hstatement] at hresumes
  exact hresumes

/-- One row, of which the loop makes what a turn says. -/
lemma resumes_turn {t : JobTable × JobNode} {row : JobRow} (s : State) (pass : Pass)
    (rest : List JobRow) (hready : node.ready = true) (hrunning : node.handler.running = true)
    (hgo : (!node.isEnabled || node.interrupt) = false) (hjob : makeJob row = .ok job)
    (hturn : Turn cl n s.now (fun _ => none) job (table, node) t) :
    Resumes cl n (s.with n table (node.at (.rows { pass with rest := row :: rest })))
      (s.with n t.1 (t.2.at (.rows { pass with rest }))) := by
  cases hturn with
  | notFound hplan =>
      have hcheck : (node.at (.rows { pass with rest := row :: rest })).resume cl n table s.now =
          some (node.at (.rows { pass with rest })) := by
        rw [resume_checkRow s.now pass rest hgo hjob, hplan, Option.elim_none]
      exact resumes_of_quiet s hcheck hready rfl
  | @declined plan node' hplan hdeclines =>
      have hcheck : (node.at (.rows { pass with rest := row :: rest })).resume cl n table s.now =
          some (node'.at (.rows { pass with rest })) := by
        rw [resume_checkRow s.now pass rest hgo hjob, hplan, Option.elim_some, hdeclines,
          Option.elim_some]
      exact resumes_of_quiet s hcheck hready rfl
  | limited hplan hdeclines hlimit =>
      have hchecked :=
        resumes_checked s table pass rest hready hrunning hgo hjob hplan hdeclines
      rw [hlimit, Option.elim_some] at hchecked
      exact hchecked
  | @claimed plan timeout _ hplan hdeclines hlimit hinterval ht =>
      have hchecked :=
        resumes_checked s table pass rest hready hrunning hgo hjob hplan hdeclines
      rw [hlimit, Option.elim_none] at hchecked
      have ht' : t = (table.exec (claimJob n job.id timeout s.now),
          if table.affected (claimJob n job.id timeout s.now) = 0 then node
          else node.startWorkshopJob cl n s.now job plan) := by
        rw [ht]
        split
        · rfl
        · rfl
      rw [ht']
      exact hchecked.trans (resumes_claim s _ hready hrunning hinterval)

/-- **A result**: the rows of a result of `select_new_jobs`, up to the end of the loop. -/
lemma resumes_runResult (s : State) (pass : Pass) (rows : List JobRow) (hready : node.ready = true)
    (hrunning : node.handler.running = true)
    (herror : ((JobNode.runHandler cl n s.now fun _ => none).runResult makeJob rows
      (table, node)).error = none) :
    let t :=
      ((JobNode.runHandler cl n s.now fun _ => none).runResult makeJob rows (table, node)).state
    t.2.ready = true ∧ t.2.handler.running = true ∧
      Resumes cl n (s.with n table (node.at (.rows { pass with rest := rows })))
        (s.with n t.1 (t.2.endPass pass)) := by
  induction rows generalizing table node with
  | nil => exact ⟨hready, hrunning, resumes_of_quiet s rfl hready rfl⟩
  | cons row rows ih =>
      rcases RunHandler.runResult_cases herror with
        ⟨hstop, hresult⟩ | ⟨hgo, job, hjob, _, hjob', herror', hstate⟩
      · -- the queue was disabled or interrupted, and the rest of the result is left
        rw [hresult]
        exact ⟨hready, hrunning, resumes_of_quiet s (congrArg some (if_pos hstop)) hready rfl⟩
      · have hturn := turn_of_runJob hjob'
        obtain ⟨hready', hhandler'⟩ := hturn.keeps hrunning
        obtain ⟨hready'', hrunning'', hrest⟩ := ih (hready'.trans hready)
          (by rw [hhandler']; exact hrunning) herror'
        rw [hstate]
        exact ⟨hready'', hrunning'',
          (resumes_turn s pass rows hready hrunning hgo hjob hturn).trans hrest⟩

lemma resumes_query (s : State) (pass : Pass) (hready : node.ready = true)
    (hrunning : node.handler.running = true)
    (herror : ((JobNode.runHandler cl n s.now fun _ => none).runResult makeJob
      (node.selectJobs table s.now maxJobs pass.lowprio) (table, node)).error = none) :
    let t := ((JobNode.runHandler cl n s.now fun _ => none).runResult makeJob
      (node.selectJobs table s.now maxJobs pass.lowprio) (table, node)).state
    t.2.ready = true ∧ t.2.handler.running = true ∧ ∃ full,
      Resumes cl n (s.with n table (node.at (.select pass)))
        (s.with n t.1 (t.2.endPass { pass with full })) := by
  set rows := node.selectJobs table s.now maxJobs pass.lowprio with hrows
  have hselect : Resumes cl n (s.with n table (node.at (.select pass))) (s.with n table (node.at
      (.rows { pass with rest := rows, full := pass.full || rows.length = maxJobs }))) :=
    resumes_of_quiet s rfl hready rfl
  obtain ⟨hready', hrunning', hresult⟩ := resumes_runResult s
    { pass with full := pass.full || rows.length = maxJobs } rows hready hrunning herror
  exact ⟨hready', hrunning', _, hselect.trans hresult⟩

end Rows

/-! ## The run -/

section Run

variable {cl : JobCluster} {n : String}

lemma step_timer {s : State} (hidle : (s.nodes n).handler = .idle)
    (htimer : (s.nodes n).timer = true) (hrun : (s.nodes n).canRun = true) :
    step cl s (.node n .timer) =
      some (s.with n ((s.nodes n).expireTable n s.now s.table)
        ({ s.nodes n with timer := false }.beginRun s.now)) := by
  have hnode : (s.nodes n).step cl n s.table s.now .timer =
      some ({ s.nodes n with timer := false }.beginRun s.now) := by
    show (if _ then _ else _) = _
    rw [if_pos ⟨hidle, htimer⟩]
    exact if_pos hrun
  have htable : s.tableAfter cl (.node n .timer) = (s.nodes n).expireTable n s.now s.table := by
    refine (Table.delete_of_forall fun _ _ => rfl).trans ?_
    have hstatement : (s.nodes n).statement cl n s.now .timer =
        if (s.nodes n).expireDue s.now then some (.expireJobs n s.now) else none := by
      rw [JobNode.statement, hrun, Bool.true_and]
    show s.table.tableAfter (((s.nodes n).statement cl n s.now .timer).map Statement.update) = _
    rw [hstatement, JobNode.expireTable]
    split
    · rfl
    · rfl
  show ((s.nodes n).step cl n s.table s.now .timer).map _ = _
  rw [hnode, Option.map_some, htable]
  rfl

/-- After the first result: the second query and its result, if there is one, and the end of the
run. -/
lemma resumes_secondQuery {t : JobTable × JobNode} (s : State) (full : Bool)
    (hready : t.2.ready = true) (hrunning : t.2.handler.running = true)
    (herror : (JobNode.secondQuery cl n s.now (fun _ => none) maxJobs t).error = none) :
    let t' := (JobNode.secondQuery cl n s.now (fun _ => none) maxJobs t).state
    Resumes cl n (s.with n t.1 (t.2.endPass { full })) (s.with n t'.1 t'.2.finishRun) := by
  unfold JobNode.secondQuery at herror ⊢
  by_cases hcond : (t.2.isEnabled && !t.2.interrupt && t.2.plansLowprio ≠ ∅) = true
  · simp only [if_pos hcond] at herror ⊢
    obtain ⟨_, _, full', hquery⟩ := resumes_query s { lowprio := true, full } hready hrunning herror
    have hend : t.2.endPass { full } = t.2.at (.select { lowprio := true, full }) := if_pos hcond
    rw [hend]
    exact hquery
  · simp only [if_neg hcond]
    have hend : t.2.endPass { full } = t.2.finishRun := if_neg hcond
    rw [hend]
    exact .refl ..

/-- **A queue run is a run of the cluster.**  If nothing else happens, no statement fails, and no
job fails to start at once, then the timer and the steps of the handler lead to what `run2`
computes. -/
theorem run2_resumes {s : State} (hidle : (s.nodes n).handler = .idle)
    (htimer : (s.nodes n).timer = true) (hready : (s.nodes n).ready = true)
    (hrun : (s.nodes n).canRun = true)
    (herror : ({ s.nodes n with timer := false }.run2 cl n s.now (fun _ => none) maxJobs
      s.table).error = none) :
    let t :=
      ({ s.nodes n with timer := false }.run2 cl n s.now (fun _ => none) maxJobs s.table).state
    ∃ s', step cl s (.node n .timer) = some s' ∧ Resumes cl n s' (s.with n t.1 t.2.finishRun) := by
  set node : JobNode := { s.nodes n with timer := false } with hnode
  have hrun' : node.canRun = true := hrun
  simp only [JobNode.run2, if_pos hrun'] at herror ⊢
  obtain ⟨herror₁, herror₂, hstate⟩ := RunOutcome.of_andThen_error herror
  have hready₀ : (node.beginRun s.now).ready = true := hready
  obtain ⟨hready', hrunning', full, hfirst⟩ := resumes_query s {} hready₀ rfl herror₁
  refine ⟨_, step_timer hidle htimer hrun, ?_⟩
  rw [hstate]
  exact hfirst.trans (resumes_secondQuery s full hready' hrunning' herror₂)

end Run

end Workshop.Jobs

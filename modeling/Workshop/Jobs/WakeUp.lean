import Workshop.Jobs.Lease
import Workshop.Jobs.NextScheduled

/-!
# Wake-ups in the job cluster

A node that has nothing to do sleeps until its timer is due or it is notified.  Jobs become free on
other nodes, too: one is given back, another one expires, a client creates or edits one.  Whoever
does that sends `new_job` afterwards (`pg_notify`); for new jobs a rule of the database does.

This is the cluster of `Workshop.Jobs.System` with timers that have a time, as in
`Workshop.Jobs.NextScheduled`, and with notifications on their way: `owed` while the statement was
executed and the `NOTIFY` was not, `pending` while a node has not read it.  `no_lost_wake_up`: a
node that owes nothing to a notification wakes up in time for every scheduled job of its plans,
whoever has freed or created it.

Two things put a node to sleep that should not.  An exception leaves `Run2` without arming the timer
(`JobNode.raises`).  And `FlushSticky`, which shows the node jobs that were hidden, does not arm it,
either (`JobNode.shows`).
-/

namespace Workshop.Jobs

open Workshop.Lib

/-! ## What the operations of a node do with the timer -/

/-- The node has something to wake up for. -/
def JobNode.wakes (node : JobNode) : Bool := node.ready && node.canRun

/-- The node with its timer pending or not. -/
def JobNode.withTimer (node : JobNode) (timer : Bool) : JobNode := { node with timer }

/-- What may have happened to a node that has not armed its timer: no queue run has begun; an idle
node that has something to wake up for had so before, with the same plans; a queue run that has
ended leaves nothing to wake up for. -/
structure NodeKept (node node' : JobNode) : Prop where
  started : node'.handler.running = true → node.handler.running = true
  filter : node.handler.running = false → node'.handler.running = false → node'.wakes = true →
    node.wakes = true ∧ node'.plansInclude = node.plansInclude ∧
      node'.stickyNonLocal = node.stickyNonLocal
  ended : node.handler.running = true → node'.handler.running = false → node'.wakes = false

section Kept

variable {node node' node'' : JobNode}

lemma NodeKept.of_eq (hhandler : node'.handler.running = node.handler.running)
    (hwakes : node'.handler.running = false → node'.wakes = true →
      node.wakes = true ∧ node'.plansInclude = node.plansInclude ∧
        node'.stickyNonLocal = node.stickyNonLocal) : NodeKept node node' where
  started h := hhandler ▸ h
  filter _ := hwakes
  ended h h' := absurd (h.symm.trans (hhandler.symm.trans h')) (by simp)

lemma NodeKept.refl (node : JobNode) : NodeKept node node := .of_eq rfl fun _ h => ⟨h, rfl, rfl⟩

lemma NodeKept.of_running (h : node.handler.running = true) (h' : node'.handler.running = true) :
    NodeKept node node' :=
  .of_eq (h'.trans h.symm) fun hidle => absurd (hidle.symm.trans h') (by simp)

lemma NodeKept.trans (h : NodeKept node node') (h' : NodeKept node' node'') :
    NodeKept node node'' where
  started hrunning := h.started (h'.started hrunning)
  filter hidle hidle'' hwakes := by
    cases hidle' : node'.handler.running with
    | true => exact absurd ((h.started hidle').symm.trans hidle) (by simp)
    | false =>
        obtain ⟨hwakes', hinclude', hsticky'⟩ := h'.filter hidle' hidle'' hwakes
        obtain ⟨hwakes, hinclude, hsticky⟩ := h.filter hidle hidle' hwakes'
        exact ⟨hwakes, hinclude'.trans hinclude, hsticky'.trans hsticky⟩
  ended hrunning hidle'' := by
    cases hidle' : node'.handler.running with
    | true => exact h'.ended hidle' hidle''
    | false =>
        rw [← Bool.not_eq_true]
        intro hwakes
        have hbefore := (h'.filter hidle' hidle'' hwakes).1
        exact absurd (hbefore.symm.trans (h.ended hrunning hidle')) (by simp)

end Kept

/-- The operation arms the timer or leaves it alone, whatever it was before. -/
def Works (f : JobNode → JobNode) (node : JobNode) : Prop :=
  ∃ armed node', (∀ b, f (node.withTimer b) = node'.withTimer (armed || b)) ∧
    (armed = false → NodeKept node node')

section Works

variable {f g : JobNode → JobNode} {node node' : JobNode}

lemma Works.of_kept (node' : JobNode) (heq : ∀ b, f (node.withTimer b) = node'.withTimer b)
    (hkept : NodeKept node node') : Works f node :=
  ⟨false, node', heq, fun _ => hkept⟩

lemma Works.of_armed (node' : JobNode) (heq : ∀ b, f (node.withTimer b) = node'.withTimer true) :
    Works f node :=
  ⟨true, node', heq, fun h => absurd h (by simp)⟩

/-- The operation begins with a change that leaves the timer alone. -/
lemma Works.of_eq (hg : Works g node') (heq : ∀ b, f (node.withTimer b) = g (node'.withTimer b))
    (hkept : NodeKept node node') : Works f node := by
  obtain ⟨armed, node'', heq', hkept'⟩ := hg
  exact ⟨armed, node'', fun b => (heq b).trans (heq' b), fun hno => hkept.trans (hkept' hno)⟩

lemma Works.comp (hg : ∀ node, Works g node) (hf : Works f node) :
    Works (fun node => g (f node)) node := by
  obtain ⟨a, node', heq, hkept⟩ := hf
  obtain ⟨a', node'', heq', hkept'⟩ := hg node'
  refine ⟨a' || a, node'', fun b => ?_, fun hno => ?_⟩
  · simp only [heq, heq', Bool.or_assoc]
  · obtain ⟨hno', hno⟩ := Bool.or_eq_false_iff.mp hno
    exact (hkept hno).trans (hkept' hno')

/-- `CheckEnabled` after a switch was turned: if it does not arm the timer, the queue is disabled or
not connected. -/
lemma works_checkEnabled (node' : JobNode)
    (hf : ∀ b, f (node.withTimer b) = (node'.withTimer b).checkEnabled)
    (hhandler : node'.handler = node.handler) : Works f node := by
  by_cases hon : (node'.isEnabled && node'.ready) = true
  · exact .of_armed node' fun b => (hf b).trans (if_pos hon)
  · refine .of_kept node' (fun b => (hf b).trans (if_neg hon)) ?_
    refine .of_eq (congrArg _ hhandler) fun _ hwakes => ?_
    simp only [JobNode.wakes, JobNode.canRun, Bool.and_eq_true] at hwakes hon
    exact absurd ⟨hwakes.2.1.1, hwakes.1⟩ hon

lemma works_setFilter (plansInclude plansExclude plansLowprio : Finset String) (node : JobNode) :
    Works (fun node => node.setFilter plansInclude plansExclude plansLowprio) node := by
  by_cases hchanged : node.plansInclude ≠ some plansInclude ∨ node.plansExclude ≠ some plansExclude
  · by_cases hrunning : node.handler.running = true
    · refine .of_kept { node with
        plansInclude := some plansInclude, plansExclude := some plansExclude, plansLowprio
        interrupt := true } (fun b => ?_) (.of_eq rfl fun hidle => ?_)
      · exact (if_pos hchanged).trans (if_pos hrunning)
      · exact absurd (hidle.symm.trans hrunning) (by simp)
    · by_cases hready : node.ready = true
      · refine .of_armed { node with
          plansInclude := some plansInclude, plansExclude := some plansExclude, plansLowprio }
          fun b => ?_
        exact (if_pos hchanged).trans ((if_neg hrunning).trans (if_pos hready))
      · refine .of_kept { node with
          plansInclude := some plansInclude, plansExclude := some plansExclude, plansLowprio }
          (fun b => ?_) (.of_eq rfl fun _ hwakes => ?_)
        · exact (if_pos hchanged).trans ((if_neg hrunning).trans (if_neg hready))
        · simp [JobNode.wakes, hready] at hwakes
  · obtain ⟨hinclude, hexclude⟩ : node.plansInclude = some plansInclude ∧
        node.plansExclude = some plansExclude := by
      simpa [not_or] using hchanged
    refine .of_kept { node with
      plansInclude := some plansInclude, plansExclude := some plansExclude, plansLowprio }
      (fun b => ?_) (.of_eq rfl fun _ hwakes => ⟨?_, hinclude.symm, rfl⟩)
    · exact if_neg hchanged
    · simpa [JobNode.wakes, JobNode.canRun, JobNode.isEnabled, hinclude, hexclude] using hwakes

variable (cl : JobCluster) (name : String) (now : ℤ)

lemma works_updateFilter (node : JobNode) :
    Works (fun node => node.updateFilter cl name now) node := by
  let limited := node.rateLimitedPlans.filter fun p => now < p.2
  let available := (cl.visitAvailable name now).filter fun p => p ∉ limited.map Prod.fst
  exact .of_eq (works_setFilter available node.fullPlanNames node.runningPlanNames
    { node with rateLimitedPlans := limited }) (fun _ => rfl) (.of_eq rfl fun _ h => ⟨h, rfl, rfl⟩)

lemma works_enableFull (node : JobNode) : Works JobNode.enableFull node := by
  by_cases hfull : node.disabledFull = true
  · exact works_checkEnabled { node with disabledFull := false }
      (fun _ => if_pos hfull) rfl
  · exact .of_kept node (fun _ => if_neg hfull) (.refl node)

lemma works_onExit (i : ℕ) (node : JobNode) :
    Works (fun node => node.onExit cl name now i) node := by
  refine .comp (g := fun node => if node.isFull cl name then node else node.enableFull)
    (f := fun node =>
      ({ node with operators := node.operators.eraseIdx i } : JobNode).updateFilter cl name now)
    (fun node => ?_) ?_
  · by_cases hfull : node.isFull cl name = true
    · exact .of_kept node (fun _ => if_pos hfull) (.refl node)
    · exact .of_eq (works_enableFull node) (fun _ => if_neg hfull) (.refl node)
  · exact .of_eq (works_updateFilter cl name now
      { node with operators := node.operators.eraseIdx i }) (fun _ => rfl)
      (.of_eq rfl fun _ h => ⟨h, rfl, rfl⟩)

lemma works_startWorkshopJob (job : WorkshopJob) (plan : Plan) (node : JobNode)
    (hrunning : node.handler.running = true) :
    Works (fun node => node.startWorkshopJob cl name now job plan) node := by
  refine .comp (g := fun node => node.updateFilter cl name now)
    (f := fun node =>
      let node : JobNode := { node with operators := node.operators ++ [.create now job plan] }
      if node.isFull cl name then { node with disabledFull := true } else node)
    (works_updateFilter cl name now) ?_
  by_cases hfull : ({ node with operators := node.operators ++ [.create now job plan] } :
      JobNode).isFull cl name = true
  · exact .of_kept { node with
      operators := node.operators ++ [.create now job plan], disabledFull := true }
      (fun _ => if_pos hfull) (.of_running hrunning hrunning)
  · exact .of_kept { node with operators := node.operators ++ [.create now job plan] }
      (fun _ => if_neg hfull) (.of_running hrunning hrunning)

/-! ### Queue runs -/

lemma works_finishRun (hrunning : node.handler.running = true) : Works JobNode.finishRun node := by
  by_cases hon : node.isEnabled = true
  · exact .of_armed { node with handler := .idle } fun _ => if_pos hon
  · refine .of_kept { node with handler := .idle } (fun _ => if_neg hon) ?_
    refine ⟨fun h => absurd h (by simp [Handler.running]),
      fun h => absurd (h.symm.trans hrunning) (by simp), fun _ _ => ?_⟩
    have hoff : node.isEnabled = false := by simpa using hon
    simp only [JobNode.wakes, JobNode.canRun]
    rw [show ({ node with handler := .idle } : JobNode).isEnabled = false from hoff]
    simp

lemma works_endPass (pass : Pass) (hrunning : node.handler.running = true) :
    Works (fun node => node.endPass pass) node := by
  by_cases hsecond : (!pass.lowprio && node.isEnabled && !node.interrupt &&
      node.plansLowprio ≠ ∅) = true
  · exact .of_kept { node with handler := .select { lowprio := true, full := pass.full } }
      (fun _ => if_pos hsecond) (.of_running hrunning rfl)
  · exact .of_eq (works_finishRun hrunning) (fun _ => if_neg hsecond) (.refl node)

end Works

/-- An exception leaves `Run2`: the row has no plan, PostgreSQL does not accept the interval of the
plan, or a statement fails, but for `check_rate_limit` and `InsertStickyNonLocal`. -/
def JobNode.raises (cl : JobCluster) (node : JobNode) : NodeEvent → Bool
  | .expireFailed => true
  | .failed =>
    match node.handler with
    | .select _ | .claim _ _ _ => true
    | .rows pass => pass.rest = []
    | _ => false
  | .resume =>
    match node.handler with
    | .rows pass =>
      node.isEnabled && !node.interrupt && pass.rest.head?.any fun row => row.planName = ""
    | .claim _ plan _ => (cl.interval plan.timeout).isNone
    | _ => false
  | _ => false

/-- The event shows the node jobs that were hidden. -/
def JobNode.shows (node : JobNode) (ev : NodeEvent) : Bool :=
  ev = .flushSticky && node.ready && node.stickyNonLocal ≠ ∅

section Step

variable {cl : JobCluster} {name : String} {table : JobTable} {now : ℤ} {node node' : JobNode}
  {ev : NodeEvent}

/-- Whether a node declines a job has nothing to do with its timer. -/
lemma JobNode.declines_withTimer (b : Bool) (job : WorkshopJob) :
    (node.withTimer b).declines cl name now job =
      (node.declines cl name now job).map fun node => node.withTimer b := by
  unfold JobNode.declines
  have hsame : (node.withTimer b).isFull cl name = node.isFull cl name := rfl
  rw [hsame]
  split
  · rfl
  · split <;> rfl

variable (name now) in
lemma works_checkRow {pass : Pass} (hhandler : node.handler = .rows pass)
    (hraises : node.raises cl .resume = false) :
    Works (fun node => node.checkRow cl name now pass) node := by
  have hrunning : node.handler.running = true := by rw [hhandler]; rfl
  cases hrest : pass.rest with
  | nil =>
      refine .of_eq (works_endPass pass hrunning) (fun b => ?_) (.refl node)
      simp only [JobNode.checkRow, hrest]
  | cons row rest =>
      by_cases hbreak : (!node.isEnabled || node.interrupt) = true
      · refine .of_eq (works_endPass pass hrunning) (fun b => ?_) (.refl node)
        simp only [JobNode.checkRow, hrest]
        exact if_pos hbreak
      · have hplan : row.planName ≠ "" := by
          intro hempty
          obtain ⟨hon, hgo⟩ : node.isEnabled = true ∧ node.interrupt = false := by
            simpa [not_or] using hbreak
          simp [JobNode.raises, hhandler, hrest, hon, hgo, hempty] at hraises
        have hjob : makeJob row = .ok (.ofRow row) := if_neg hplan
        cases hget : cl.getPlan name now (WorkshopJob.ofRow row).planName with
        | none =>
            refine .of_kept { node with handler := .rows { pass with rest } } (fun b => ?_)
              (.of_running hrunning rfl)
            simp only [JobNode.checkRow, hrest, hjob, hget]
            exact if_neg hbreak
        | some plan =>
            cases hdeclines : node.declines cl name now (.ofRow row) with
            | some node' =>
                refine .of_kept { node' with handler := .rows { pass with rest } } (fun b => ?_)
                  (.of_running hrunning rfl)
                simp only [JobNode.checkRow, hrest, hjob, hget, JobNode.declines_withTimer,
                  hdeclines, Option.map_some]
                exact if_neg hbreak
            | none =>
                refine .of_kept { node with
                  handler := .limits (.ofRow row) plan plan.rateLimits { pass with rest } }
                  (fun b => ?_) (.of_running hrunning rfl)
                simp only [JobNode.checkRow, hrest, hjob, hget, JobNode.declines_withTimer,
                  hdeclines, Option.map_none]
                exact if_neg hbreak

variable (cl name table now) in
lemma works_checkLimit (job : WorkshopJob) (plan : Plan) (limits : List RateLimit) (pass : Pass)
    (hrunning : node.handler.running = true) :
    Works (fun node => node.checkLimit cl name table now job plan limits pass) node := by
  cases limits with
  | nil =>
      exact .of_kept { node with handler := .claim job plan pass } (fun _ => rfl)
        (.of_running hrunning rfl)
  | cons limit limits =>
      by_cases hhit : 0 < checkRateLimit table now job.planName limit.duration limit.maxCount
      · exact .of_eq (works_updateFilter cl name now { node with
          rateLimitedPlans := (job.planName,
            now + checkRateLimit table now job.planName limit.duration limit.maxCount * second) ::
              node.rateLimitedPlans.filter fun p => p.1 ≠ job.planName
          handler := .rows pass }) (fun _ => if_pos hhit) (.of_running hrunning rfl)
      · exact .of_kept { node with handler := .limits job plan limits pass }
          (fun _ => if_neg hhit) (.of_running hrunning rfl)

variable (name table now) in
lemma works_claimRow {job : WorkshopJob} {plan : Plan} {pass : Pass}
    (hhandler : node.handler = .claim job plan pass) (hraises : node.raises cl .resume = false) :
    Works (fun node => node.claimRow cl name table now job plan pass) node := by
  have hrunning : node.handler.running = true := by rw [hhandler]; rfl
  cases htimeout : cl.interval plan.timeout with
  | none => simp [JobNode.raises, hhandler, htimeout] at hraises
  | some timeout =>
      by_cases hlost : table.affected (claimJob name job.id timeout now) = 0
      · refine .of_kept { node with handler := .rows pass } (fun b => ?_)
          (.of_running hrunning rfl)
        simp only [JobNode.claimRow, htimeout, if_pos hlost]
        rfl
      · refine .of_eq (works_startWorkshopJob cl name now job plan
          { node with handler := .rows pass } rfl) (fun b => ?_)
          (.of_running hrunning rfl)
        simp only [JobNode.claimRow, htimeout, if_neg hlost]
        rfl

/-- The event fires the timer, or breaks the connection. -/
def NodeEvent.stopsTimer : NodeEvent → Bool
  | .timer | .disconnect | .lost => true
  | _ => false

lemma works_of_resume (hstep : node.resume cl name table now = some node')
    (hraises : node.raises cl .resume = false) :
    ∃ f, Works f node ∧ ∀ b, (node.withTimer b).resume cl name table now =
      some (f (node.withTimer b)) := by
  have hagain : ∀ b, (node.withTimer b).handler = node.handler := fun _ => rfl
  cases hhandler : node.handler with
  | idle => simp [JobNode.resume, hhandler] at hstep
  | select pass =>
      let rows := node.selectJobs table now maxJobs pass.lowprio
      let pass' := { pass with rest := rows, full := pass.full || rows.length = maxJobs }
      have hrunning : node.handler.running = true := by rw [hhandler]; rfl
      refine ⟨fun node => { node with handler := .rows pass' },
        .of_kept { node with handler := .rows pass' } (fun _ => rfl) (.of_running hrunning rfl),
        fun b => ?_⟩
      simp only [JobNode.resume, hagain, hhandler]
      rfl
  | rows pass =>
      refine ⟨_, works_checkRow name now hhandler hraises, fun b => ?_⟩
      simp only [JobNode.resume, hagain, hhandler]
  | limits job plan limits pass =>
      have hrunning : node.handler.running = true := by rw [hhandler]; rfl
      refine ⟨_, works_checkLimit cl name table now job plan limits pass hrunning, fun b => ?_⟩
      simp only [JobNode.resume, hagain, hhandler]
  | claim job plan pass =>
      refine ⟨_, works_claimRow name table now hhandler hraises,
        fun b => ?_⟩
      simp only [JobNode.resume, hagain, hhandler]
  | exited i status cpuUsage log =>
      refine ⟨fun node => { node with handler := .conclude i status log },
        .of_kept { node with handler := .conclude i status log } (fun _ => rfl)
          (.of_eq (by rw [hhandler]; rfl) fun _ h => ⟨h, rfl, rfl⟩), fun b => ?_⟩
      simp only [JobNode.resume, hagain, hhandler]
  | conclude i status log =>
      refine ⟨fun node => ({ node with handler := .idle } : JobNode).onExit cl name now i,
        .of_eq (works_onExit cl name now i { node with handler := .idle }) (fun _ => rfl)
          (.of_eq (by rw [hhandler]; rfl) fun _ h => ⟨h, rfl, rfl⟩), fun b => ?_⟩
      simp only [JobNode.resume, hagain, hhandler]

/-- A statement of a handler fails, and no exception leaves `Run2`. -/
lemma works_of_fail (hstep : node.fail cl name now = some node')
    (hraises : node.raises cl .failed = false) :
    ∃ f, Works f node ∧ ∀ b, (node.withTimer b).fail cl name now =
      some (f (node.withTimer b)) := by
  have hagain : ∀ b, (node.withTimer b).handler = node.handler := fun _ => rfl
  cases hhandler : node.handler with
  | idle => simp [JobNode.fail, hhandler] at hstep
  | select pass => simp [JobNode.raises, hhandler] at hraises
  | rows pass =>
      have hrunning : node.handler.running = true := by rw [hhandler]; rfl
      simp only [JobNode.fail, hhandler] at hstep
      cases hrest : pass.rest with
      | nil => simp [JobNode.raises, hhandler, hrest] at hraises
      | cons row rest =>
          simp only [JobNode.failRow, hrest] at hstep
          obtain ⟨hgo, hstep⟩ := Option.ite_none_right_eq_some.mp hstep
          obtain ⟨hsticky, _⟩ := Option.ite_none_right_eq_some.mp hstep
          refine ⟨fun node => { node with handler := .rows { pass with rest } },
            .of_kept { node with handler := .rows { pass with rest } } (fun _ => rfl)
              (.of_running hrunning rfl), fun b => ?_⟩
          simp only [JobNode.fail, hagain, hhandler, JobNode.failRow, hrest]
          exact (if_pos hgo).trans (if_pos hsticky)
  | limits job plan limits pass =>
      have hrunning : node.handler.running = true := by rw [hhandler]; rfl
      cases limits with
      | nil => simp [JobNode.fail, hhandler] at hstep
      | cons limit limits =>
          refine ⟨fun node => { node with handler := .limits job plan limits pass },
            .of_kept { node with handler := .limits job plan limits pass } (fun _ => rfl)
              (.of_running hrunning rfl), fun b => ?_⟩
          simp only [JobNode.fail, hagain, hhandler]
  | claim job plan pass => simp [JobNode.raises, hhandler] at hraises
  | exited i status cpuUsage log =>
      cases cpuUsage with
      | none => simp [JobNode.fail, hhandler] at hstep
      | some usage =>
          refine ⟨fun node => { node with handler := .conclude i status log },
            .of_kept { node with handler := .conclude i status log } (fun _ => rfl)
              (.of_eq (by rw [hhandler]; rfl) fun _ h => ⟨h, rfl, rfl⟩), fun b => ?_⟩
          simp only [JobNode.fail, hagain, hhandler]
  | conclude i status log =>
      refine ⟨fun node => ({ node with handler := .idle } : JobNode).onExit cl name now i,
        .of_eq (works_onExit cl name now i { node with handler := .idle }) (fun _ => rfl)
          (.of_eq (by rw [hhandler]; rfl) fun _ h => ⟨h, rfl, rfl⟩), fun b => ?_⟩
      simp only [JobNode.fail, hagain, hhandler]

lemma works_of_eq_wakes {g : JobNode → JobNode} (heq : ∀ b, g (node.withTimer b) =
      (g node).withTimer b) (hhandler : (g node).handler.running = node.handler.running)
    (hwakes : (g node).wakes = node.wakes) (hinclude : (g node).plansInclude = node.plansInclude)
    (hsticky : (g node).stickyNonLocal = node.stickyNonLocal) : Works g node :=
  .of_kept (g node) heq (.of_eq hhandler fun _ h => ⟨hwakes ▸ h, hinclude, hsticky⟩)

lemma works_of_operator {p : Prop} [Decidable p] {i : ℕ} {h : WorkshopOperator → JobNode → JobNode}
    (hstep : (if p then node.operators[i]?.map fun o => h o node else none) = some node')
    (hworks : ∀ o, node.operators[i]? = some o → p → Works (h o) node) :
    ∃ f, Works f node ∧ ∀ b, (if p then (node.withTimer b).operators[i]?.map fun o =>
      h o (node.withTimer b) else none) = some (f (node.withTimer b)) := by
  split at hstep
  · rename_i hguard
    obtain ⟨o, ho, _⟩ := Option.map_eq_some_iff.mp hstep
    refine ⟨h o, hworks o ho hguard, fun b => (if_pos hguard).trans ?_⟩
    exact Option.map_eq_some_iff.mpr ⟨o, ho, rfl⟩
  · exact absurd hstep (by simp)

lemma works_of_step (hstep : node.step cl name table now ev = some node')
    (hstops : ev.stopsTimer = false) (hraises : node.raises cl ev = false)
    (hshows : node.shows ev = false) :
    ∃ f, Works f node ∧ ∀ b, (node.withTimer b).step cl name table now ev =
      some (f (node.withTimer b)) := by
  cases ev with
  | timer => exact absurd hstops (by simp [NodeEvent.stopsTimer])
  | disconnect => exact absurd hstops (by simp [NodeEvent.stopsTimer])
  | lost => exact absurd hstops (by simp [NodeEvent.stopsTimer])
  | connect =>
      obtain ⟨hguard, _⟩ := of_guard hstep
      exact ⟨fun node => ({ node with ready := true, stickyNonLocal := ∅ } : JobNode).reschedule,
        .of_armed { node with ready := true, stickyNonLocal := ∅ } fun _ => rfl,
        fun _ => if_pos hguard⟩
  | setStateEnabled enabled =>
      obtain ⟨hguard, _⟩ := of_guard hstep
      refine ⟨fun node => node.setStateEnabled enabled, ?_, fun _ => if_pos hguard⟩
      by_cases hsame : enabled = node.enabledState
      · exact .of_kept node (fun _ => if_pos hsame) (.refl node)
      · exact works_checkEnabled { node with enabledState := enabled }
          (fun _ => if_neg hsame) rfl
  | enableAdmin =>
      obtain ⟨hguard, _⟩ := of_guard hstep
      refine ⟨JobNode.enableAdmin, ?_, fun _ => if_pos hguard⟩
      by_cases hon : node.enabledAdmin = true
      · exact .of_kept node (fun _ => if_pos hon) (.refl node)
      · exact works_checkEnabled { node with enabledAdmin := true } (fun _ => if_neg hon) rfl
  | disableAdmin =>
      obtain ⟨hguard, _⟩ := of_guard hstep
      refine ⟨JobNode.disableAdmin, .of_kept node.disableAdmin (fun _ => rfl)
        (.of_eq rfl fun _ h => ?_), fun _ => if_pos hguard⟩
      simp [JobNode.wakes, JobNode.canRun, JobNode.isEnabled, JobNode.disableAdmin] at h
  | updateFilter libraryModified =>
      obtain ⟨hguard, _⟩ := of_guard hstep
      refine ⟨fun node => (if libraryModified then
        ({ node with rateLimitedPlans := [] } : JobNode) else node).updateFilter cl name now, ?_,
        fun _ => if_pos hguard⟩
      cases libraryModified with
      | false => exact works_updateFilter cl name now node
      | true =>
          exact .of_eq (works_updateFilter cl name now { node with rateLimitedPlans := [] })
            (fun _ => rfl) (.of_eq rfl fun _ h => ⟨h, rfl, rfl⟩)
  | notify =>
      obtain ⟨hguard, _⟩ := of_guard hstep
      exact ⟨JobNode.reschedule, .of_armed node fun _ => rfl, fun _ => if_pos hguard⟩
  | resume =>
      simp only [JobNode.step] at hstep
      split at hstep
      · exact absurd hstep (by simp)
      · rename_i hguard
        obtain ⟨f, hf, heq⟩ := works_of_resume hstep hraises
        exact ⟨f, hf, fun b => (if_neg hguard).trans (heq b)⟩
  | failed =>
      obtain ⟨hready, hstep⟩ := Option.ite_none_right_eq_some.mp hstep
      obtain ⟨f, hf, heq⟩ := works_of_fail hstep hraises
      exact ⟨f, hf, fun b => (if_pos hready).trans (heq b)⟩
  | expireFailed => exact absurd hraises (by simp [JobNode.raises])
  | flushSticky =>
      obtain ⟨hguard, _⟩ := of_guard hstep
      refine ⟨JobNode.flushSticky, ?_, fun _ => if_pos hguard⟩
      by_cases hready : node.ready = true
      · have hempty : node.stickyNonLocal = ∅ := by simpa [JobNode.shows, hready] using hshows
        exact .of_kept { node with stickyNonLocal := ∅ } (fun _ => if_pos hready)
          (.of_eq rfl fun _ h => ⟨h, rfl, hempty.symm⟩)
      · exact .of_kept node (fun _ => if_neg hready) (.refl node)
  | startFailed i message =>
      exact works_of_operator (h := fun _ node => node.onExit cl name now i) hstep
        fun _ _ _ => works_onExit cl name now i node
  | progress i value =>
      exact works_of_operator
        (h := fun o node => { node with operators := node.operators.set i (o.onProgress now) })
        hstep fun _ _ _ => works_of_eq_wakes (fun _ => rfl) rfl rfl rfl rfl
  | setEnv i moreEnv =>
      exact works_of_operator (h := fun _ node => node) hstep
        fun _ _ _ => works_of_eq_wakes (fun _ => rfl) rfl rfl rfl rfl
  | again i delay =>
      exact works_of_operator
        (h := fun o node =>
          { node with operators := node.operators.set i { o with again := some delay } }) hstep
        fun _ _ _ => works_of_eq_wakes (fun _ => rfl) rfl rfl rfl rfl
  | childExit i status cpuUsage log =>
      exact works_of_operator
        (h := fun o node => { node with
          operators := node.operators.set i { o with exited := true }
          handler := .exited i status cpuUsage log }) hstep
        fun _ _ hidle => works_of_eq_wakes (fun _ => rfl) (by rw [hidle]; rfl) rfl rfl rfl
  | timeout i =>
      simp only [JobNode.step] at hstep
      split at hstep
      · rename_i hguard
        obtain ⟨o, ho, _⟩ := Option.map_eq_some_iff.mp hstep
        refine ⟨_, works_onExit cl name now i node, fun b => (if_pos hguard).trans ?_⟩
        exact Option.map_eq_some_iff.mpr ⟨o, ho, rfl⟩
      · exact absurd hstep (by simp)
  | cancel i =>
      exact works_of_operator (h := fun _ node => node.onExit cl name now i) hstep
        fun _ _ _ => works_onExit cl name now i node
  | endFailed i =>
      exact works_of_operator (h := fun _ node => node.onExit cl name now i) hstep
        fun _ _ _ => works_onExit cl name now i node
  | progressFailed i =>
      simp only [JobNode.step] at hstep
      split at hstep
      · rename_i hguard
        obtain ⟨o, ho, _⟩ := Option.map_eq_some_iff.mp hstep
        refine ⟨fun node => { node with operators := node.operators.set i (o.onProgress now) },
          works_of_eq_wakes (fun _ => rfl) rfl rfl rfl rfl, fun b => (if_pos hguard).trans ?_⟩
        exact Option.map_eq_some_iff.mpr ⟨o, ho, rfl⟩
      · exact absurd hstep (by simp)
  | reap planName age =>
      obtain ⟨hguard, _⟩ := of_guard hstep
      exact ⟨id, works_of_eq_wakes (fun _ => rfl) rfl rfl rfl rfl, fun _ => if_pos hguard⟩

/-- **Inversion**: the event arms the timer, or it leaves the timer alone and what there is to wake
up for. -/
lemma step_withTimer (hstep : node.step cl name table now ev = some node')
    (hstops : ev.stopsTimer = false) (hraises : node.raises cl ev = false)
    (hshows : node.shows ev = false) :
    ∃ m, (node.withTimer false).step cl name table now ev = some m ∧
      node' = m.withTimer (m.timer || node.timer) ∧ (m.timer = false → NodeKept node node') := by
  obtain ⟨f, ⟨armed, m, heq, hkept⟩, hf⟩ := works_of_step hstep hstops hraises hshows
  have hfalse := hf false
  rw [heq, Bool.or_false] at hfalse
  have hself : some node' = some (f node) := hstep.symm.trans (hf node.timer)
  obtain rfl : node' = m.withTimer (armed || node.timer) :=
    (Option.some.inj hself).trans (heq node.timer)
  refine ⟨m.withTimer armed, hfalse, rfl, fun hno => ?_⟩
  have h := hkept hno
  exact ⟨h.started, h.filter, h.ended⟩

/-- The timer fires, or the connection breaks: the timer is not pending, and a queue run begins, or
there is nothing to wake up for. -/
lemma not_timer_of_stops (hstep : node.step cl name table now ev = some node')
    (hstops : ev.stopsTimer = true) :
    node'.timer = false ∧ (node'.handler.running = false → node'.wakes = false) := by
  have hgone : ∀ node : JobNode, node.onDisconnect.timer = false ∧
      (node.onDisconnect.handler.running = false → node.onDisconnect.wakes = false) :=
    fun _ => ⟨rfl, fun _ => rfl⟩
  cases ev with
  | timer =>
      obtain ⟨_, hstep⟩ := Option.ite_none_right_eq_some.mp hstep
      simp only at hstep
      split at hstep
      · obtain rfl := Option.some.inj hstep
        exact ⟨rfl, fun h => absurd h (by simp [Handler.running])⟩
      · rename_i hcannot
        obtain rfl := Option.some.inj hstep
        refine ⟨rfl, fun _ => ?_⟩
        have hoff : node.canRun = false := by simpa using hcannot
        rw [JobNode.wakes, show ({ node with timer := false } : JobNode).canRun = false from hoff,
          Bool.and_false]
  | disconnect =>
      obtain ⟨_, rfl⟩ := of_guard hstep
      exact hgone node
  | lost =>
      obtain ⟨_, rfl⟩ := of_guard hstep
      exact hgone node
  | _ => exact absurd hstops (by simp [NodeEvent.stopsTimer])

/-- The timer was armed by the end of a run. -/
def ArmedAtEnd (node node' : JobNode) : Prop :=
  node'.timer = true → node'.handler = .idle ∧ node'.plansInclude = node.plansInclude ∧
    node'.stickyNonLocal = node.stickyNonLocal

variable (cl name now) in
/-- At a row, only the end of the run arms the timer. -/
lemma armedAtEnd_checkRow (pass : Pass) (hoff : node.timer = false) :
    ArmedAtEnd node (node.checkRow cl name now pass) := by
  have hend : ArmedAtEnd node (node.endPass pass) := by
    unfold JobNode.endPass
    split
    · exact fun h => absurd (h.symm.trans hoff) (by simp)
    · unfold JobNode.finishRun
      split <;> exact fun _ => ⟨rfl, rfl, rfl⟩
  have hkept : ∀ node' : JobNode, node'.timer = node.timer → ArmedAtEnd node node' :=
    fun node' heq h => absurd (h.symm.trans (heq.trans hoff)) (by simp)
  unfold JobNode.checkRow
  split
  · exact hend
  · split
    · exact hend
    · split
      · exact hkept _ rfl
      · split
        · exact hkept _ rfl
        · split
          · rename_i hdeclines
            refine hkept _ ?_
            obtain ⟨_, rfl⟩ | ⟨_, _, rfl⟩ := JobNode.declines_cases hdeclines <;> rfl
          · exact hkept _ rfl

end Step

/-! ## The cluster with timers and notifications -/

/-- The event arms the timer of the node: it is pending afterwards even if it was not before. -/
def JobNode.arms (cl : JobCluster) (name : String) (table : JobTable) (now : ℤ) (node : JobNode)
    (ev : NodeEvent) : Bool :=
  ((node.withTimer false).step cl name table now ev).any JobNode.timer

/-- The plan is one of those the queue asks for. -/
def JobNode.includes (node : JobNode) (planName : String) : Bool :=
  planName ∈ node.plansInclude.getD ∅

/-- With which delay the event arms the timer: `GetNextScheduled` at the end of a run that was
neither interrupted nor has found as many rows as it could, otherwise `Reschedule`. -/
def JobNode.delay (oneYearLater : ℤ → ℤ) (table : JobTable) (now : ℤ) (node : JobNode) :
    NodeEvent → ℤ
  | .resume =>
    match node.handler with
    | .rows pass =>
      if node.interrupt || pass.full then rescheduleDelay
      else nextDelay (scheduledSpan oneYearLater table now node.stickyNonLocal node.includes)
    | _ => rescheduleDelay
  | _ => rescheduleDelay

/-- The cluster.  `timers` says when the timer of a node is due, `called` when a node was called
last, `pending` which nodes have a notification to read, and `owed` that somebody has executed a
statement and not yet the `NOTIFY` that goes with it. -/
structure WakeState where
  cluster : State
  timers : String → Option ℤ := fun _ => none
  called : String → ℤ
  pending : String → Bool := fun _ => false
  owed : Bool := false

/-- What can happen: a step of the cluster, in which the event loop of the node may be late, and the
`NOTIFY` of somebody. -/
inductive WakeEvent
  | system (e : Event) (late : ℕ)
  | notify
  deriving DecidableEq

/-- The step is one that its author notifies the nodes of afterwards: `OnConnect` and `Run2` if they
have released jobs, `AgainJob` in any case, and clients that have modified a job. -/
def owes (cl : JobCluster) (s : State) (e : Event) : Bool :=
  match e.statement cl s with
  | some (.releaseJobs node) => s.table.affected (releaseJobs node) ≠ 0
  | some (.expireJobs node now) => s.table.affected (expireJobs node now) ≠ 0
  | some (.editJob id edit) => s.table.affected (editJob id edit) ≠ 0
  | some (.rollbackJob _) | some (.againJob _ _ _ _) => true
  | _ => false

namespace WakeState

variable (cl : JobCluster) (oneYearLater : ℤ → ℤ) (w : WakeState)

/-- The timer of the node `n` after one of its events. -/
def timerAfter (n : String) (ev : NodeEvent) (late : ℕ) (node' : JobNode) : Option ℤ :=
  let node := w.cluster.nodes n
  let now := w.cluster.now
  if node'.timer then
    if node.arms cl n w.cluster.table now ev then
      some (now - late + node.delay oneYearLater w.cluster.table now ev)
    else w.timers n
  else none

/-- The notifications after a step: new jobs are notified of by the rule `new_job`, a node that
reads its notifications has none, and neither has one without a connection. -/
def pendingAfter (e : Event) (s : State) (n : String) : Bool :=
  match e with
  | .insert _ => w.pending n || (s.nodes n).ready
  | .node m ev => if m = n then w.pending n && ev ≠ .notify && (s.nodes n).ready else w.pending n
  | _ => w.pending n

/-- One event. -/
def step : WakeEvent → Option WakeState
  | .notify =>
    some { w with
      pending := fun n => w.pending n || (w.cluster.nodes n).ready
      owed := false }
  | .system e late =>
    (Jobs.step cl w.cluster e).map fun s =>
      { cluster := s
        timers :=
          match e with
          | .node n ev => Function.update w.timers n
              (w.timerAfter cl oneYearLater n ev late (s.nodes n))
          | _ => w.timers
        called :=
          match e with
          | .node n _ => Function.update w.called n w.cluster.now
          | _ => w.called
        pending := w.pendingAfter e s
        owed := w.owed || owes cl w.cluster e }

end WakeState

/-! ## Which jobs begin to wait -/

section Waiting

variable {cl : JobCluster} {s t : State} {e : Event} {stickyNonLocal : Finset String}
  {included : String → Bool} {since due : ℤ}

lemma mem_table_of_step (hstep : step cl s e = some t) (hinsert : ∀ job, e ≠ .insert job)
    {r' : JobRow} (hr' : r' ∈ t.table.rows) : ∃ r ∈ s.table.rows, rowAfter cl s e r = r' := by
  have hafter : r' ∈ (s.tableAfter cl e).rows → ∃ r ∈ s.table.rows, rowAfter cl s e r = r' :=
    fun h => Table.mem_tableAfter.mp (Table.mem_delete.mp h).1
  unfold step at hstep
  split at hstep
  · obtain rfl := Option.some.inj hstep
    exact ⟨r', hr', rowAfter_of_none rfl r'⟩
  · rename_i job
    exact absurd rfl (hinsert job)
  · obtain rfl := Option.some.inj hstep
    exact hafter hr'
  · obtain rfl := Option.some.inj hstep
    exact hafter hr'
  · obtain ⟨_, _, rfl⟩ := Option.map_eq_some_iff.mp hstep
    exact hafter hr'

/-- **Who makes a job wait owes a notification**: after any other step, a job that waits has waited
before, for the same time. -/
lemma waiting_of_step (hstep : step cl s e = some t) (hinsert : ∀ job, e ≠ .insert job)
    (howes : owes cl s e = false) {r' : JobRow} (hr' : r' ∈ t.table.rows)
    (hwaits : isWaiting r' = true) :
    ∃ r ∈ s.table.rows, isWaiting r = true ∧ r.planName = r'.planName ∧
      r.stickyId = r'.stickyId ∧ r.scheduledTime = r'.scheduledTime := by
  obtain ⟨r, hr, rfl⟩ := mem_table_of_step hstep hinsert hr'
  rcases rowAfter_cases cl s e r with hsame | ⟨st, hst, hcond, hset⟩
  · exact ⟨r, hr, hsame ▸ hwaits, by rw [hsame], by rw [hsame], by rw [hsame]⟩
  · rw [hset] at hwaits ⊢
    -- a statement whose author notifies the nodes if it has affected a row
    have hsilent : ∀ u : JobUpdate, u.cond r = true → s.table.affected u ≠ 0 := fun u hu =>
      (Table.affected_pos.mpr ⟨r, hr, hu⟩).ne'
    simp only [owes, hst] at howes
    cases st with
    | releaseJobs node => exact (hsilent (releaseJobs node) hcond (by simpa using howes)).elim
    | expireJobs node now => exact (hsilent (expireJobs node now) hcond (by simpa using howes)).elim
    | editJob id edit => exact (hsilent (editJob id edit) hcond (by simpa using howes)).elim
    | rollbackJob id => exact absurd howes (by simp)
    | againJob id delay log now => exact absurd howes (by simp)
    | claimJob node id timeout now =>
        simp [Statement.update, claimJob, isWaiting] at hwaits
    | setJobDone id status log now =>
        simp [Statement.update, setJobDone, isWaiting] at hwaits
    | setJobProgress id progress timeout now => exact ⟨r, hr, hwaits, rfl, rfl, rfl⟩
    | setEnv id moreEnv like => exact ⟨r, hr, hwaits, rfl, rfl, rfl⟩
    | addCpuUsage id usage => exact ⟨r, hr, hwaits, rfl, rfl, rfl⟩

lemma Covers.of_step (h : Covers s.table stickyNonLocal included since due)
    (hstep : step cl s e = some t) (hinsert : ∀ job, e ≠ .insert job)
    (howes : owes cl s e = false) : Covers t.table stickyNonLocal included since due := by
  intro r' hr' hwaits hplan hshown u hu
  obtain ⟨r, hr, hbefore, hname, hsticky, htime⟩ := waiting_of_step hstep hinsert howes hr' hwaits
  have hbeforeShown : isHidden stickyNonLocal r = false := by rwa [isHidden, hsticky]
  exact h r hr hbefore (hname ▸ hplan) hbeforeShown u (htime.trans hu)

end Waiting

/-! ## The invariant -/

/-- **The invariant.**  The node sleeps no longer than its timer.  While no queue run is going on
and there is something to wake up for, its timer is due within ten minutes, and covers the jobs
unless a notification is under way. -/
structure Woken (w : WakeState) (n : String) : Prop where
  called : w.called n ≤ w.cluster.now
  pending : (w.cluster.nodes n).timer = (w.timers n).isSome
  awake : (w.cluster.nodes n).handler.running = false → (w.cluster.nodes n).wakes = true →
    (w.cluster.nodes n).timer = true
  rested : (w.cluster.nodes n).handler = .idle → ∀ due, w.timers n = some due →
    w.cluster.now ≤ max due (w.called n)
  soon : (w.cluster.nodes n).handler.running = true → ∀ due, w.timers n = some due →
    Soon (w.called n) due
  tenMinutes : (w.cluster.nodes n).handler.running = false → (w.cluster.nodes n).wakes = true →
    ∀ due, w.timers n = some due → due ≤ w.called n + 600 * second
  covers : (w.cluster.nodes n).handler.running = false → (w.cluster.nodes n).wakes = true →
    w.pending n = false → w.owed = false → ∀ due, w.timers n = some due →
      Covers w.cluster.table (w.cluster.nodes n).stickyNonLocal (w.cluster.nodes n).includes
        (w.called n) due

/-- The timer of the node is punctual while the node is idle. -/
def TimerPunctual (n : String) (w : WakeState) : WakeEvent → Prop
  | .system (.tick d) _ => (w.cluster.nodes n).handler = .idle → ∀ due ∈ w.timers n,
    w.cluster.now + d ≤ max due w.cluster.now
  | _ => True

instance (n : String) (w : WakeState) (ev : WakeEvent) : Decidable (TimerPunctual n w ev) := by
  unfold TimerPunctual
  split <;> infer_instance

section Woken

variable {cl : JobCluster} {oneYearLater : ℤ → ℤ} {w w' : WakeState} {n : String} {s : State}
  {e : Event}

lemma Woken.of_other (h : Woken w n) {late : ℕ} (hstep : step cl w.cluster e = some s)
    (hw : w.step cl oneYearLater (.system e late) = some w') (hother : ∀ ev, e ≠ .node n ev)
    (hpunctual : TimerPunctual n w (.system e late)) : Woken w' n := by
  simp only [WakeState.step, hstep, Option.map_some, Option.some.injEq] at hw
  have hnode : s.nodes n = w.cluster.nodes n := step_other hstep hother
  have hlater : w.cluster.now ≤ s.now := now_le_of_step hstep
  have hsame : w'.cluster = s ∧ w'.timers n = w.timers n ∧ w'.called n = w.called n ∧
      w'.pending n = w.pendingAfter e s n ∧ w'.owed = (w.owed || owes cl w.cluster e) := by
    subst hw
    refine ⟨rfl, ?_, ?_, rfl, rfl⟩
    · cases e with
      | node m ev => exact Function.update_of_ne (fun heq => hother ev (by rw [heq])) _ _
      | _ => rfl
    · cases e with
      | node m ev => exact Function.update_of_ne (fun heq => hother ev (by rw [heq])) _ _
      | _ => rfl
  obtain ⟨hcluster, htimer, hcalled, hpending, howed⟩ := hsame
  constructor
  · rw [hcluster, hcalled]
    exact h.called.trans hlater
  · rw [hcluster, hnode, htimer]
    exact h.pending
  · rw [hcluster, hnode]
    exact h.awake
  · rw [hcluster, hnode, htimer, hcalled]
    intro hidle due hdue
    have hrested := h.rested hidle due hdue
    have hnow : s.now ≤ max due w.cluster.now := by
      rcases now_step hstep with hnow | ⟨d, rfl, hnow⟩
      · rw [hnow]
        exact le_max_right _ _
      · rw [hnow]
        exact hpunctual hidle due hdue
    omega
  · rw [hcluster, hnode, htimer, hcalled]
    exact h.soon
  · rw [hcluster, hnode, htimer, hcalled]
    exact h.tenMinutes
  · rw [hcluster, hnode, htimer, hcalled, hpending, howed]
    intro hidle hwakes hread howes due hdue
    obtain ⟨howed, howes⟩ := Bool.or_eq_false_iff.mp howes
    have hinsert : ∀ job, e ≠ .insert job := by
      rintro job rfl
      have hready := (Bool.and_eq_true_iff.mp hwakes).1
      simp [WakeState.pendingAfter, hnode, hready] at hread
    have hunread : w.pending n = false := by
      cases e with
      | insert job => exact absurd rfl (hinsert job)
      | node m ev =>
          have hne : m ≠ n := fun heq => hother ev (by rw [heq])
          simpa [WakeState.pendingAfter, hne] using hread
      | _ => exact hread
    exact (h.covers hidle hwakes hunread howed due hdue).of_step hstep hinsert howes

lemma nodeTimer_eq_some {ev : NodeEvent} {late : ℕ} {node' : JobNode} {due : ℤ}
    (hdue : w.timerAfter cl oneYearLater n ev late node' = some due) :
    node'.timer = true ∧
      (((w.cluster.nodes n).arms cl n w.cluster.table w.cluster.now ev = true ∧
        due = w.cluster.now - late +
          (w.cluster.nodes n).delay oneYearLater w.cluster.table w.cluster.now ev) ∨
      ((w.cluster.nodes n).arms cl n w.cluster.table w.cluster.now ev = false ∧
        w.timers n = some due)) := by
  unfold WakeState.timerAfter at hdue
  simp only at hdue
  split at hdue
  · rename_i hpending
    split at hdue
    · rename_i harms
      exact ⟨hpending, .inl ⟨harms, (Option.some.inj hdue).symm⟩⟩
    · rename_i harms
      exact ⟨hpending, .inr ⟨by simpa using harms, hdue⟩⟩
  · exact absurd hdue (by simp)

/-- The step of a node, as far as its timer goes. -/
structure NodeStep (cl : JobCluster) (w : WakeState) (n : String) (ev : NodeEvent) (s : State) :
    Prop where
  now : s.now = w.cluster.now
  step : (w.cluster.nodes n).step cl n w.cluster.table w.cluster.now ev = some (s.nodes n)
  raises : (w.cluster.nodes n).raises cl ev = false
  shows : (w.cluster.nodes n).shows ev = false

variable {ev : NodeEvent} {late : ℕ} {due : ℤ}

/-- If the timer is pending after an event that has not armed it, the node was kept. -/
lemma NodeStep.kept (h : NodeStep cl w n ev s) (hpending : (s.nodes n).timer = true)
    (harms : (w.cluster.nodes n).arms cl n w.cluster.table w.cluster.now ev = false) :
    (w.cluster.nodes n).timer = true ∧ NodeKept (w.cluster.nodes n) (s.nodes n) := by
  cases hstops : ev.stopsTimer with
  | true => exact absurd (hpending.symm.trans (not_timer_of_stops h.step hstops).1) (by simp)
  | false =>
      obtain ⟨m, hm, heq, hkept⟩ := step_withTimer h.step hstops h.raises h.shows
      have hno : m.timer = false := by simpa [JobNode.arms, hm] using harms
      rw [heq, JobNode.withTimer, hno, Bool.false_or] at hpending
      exact ⟨hpending, hkept hno⟩

/-- A node that has something to wake up for after its event has its timer pending. -/
lemma NodeStep.awake (h : NodeStep cl w n ev s) (hw : Woken w n)
    (hidle : (s.nodes n).handler.running = false) (hwakes : (s.nodes n).wakes = true) :
    (s.nodes n).timer = true := by
  cases hstops : ev.stopsTimer with
  | true =>
      have hnothing := (not_timer_of_stops h.step hstops).2 hidle
      exact absurd (hwakes.symm.trans hnothing) (by simp)
  | false =>
      obtain ⟨m, _, heq, hkept⟩ := step_withTimer h.step hstops h.raises h.shows
      have htimer : (s.nodes n).timer = (m.timer || (w.cluster.nodes n).timer) := by rw [heq]; rfl
      cases hno : m.timer with
      | true => rw [htimer, hno, Bool.true_or]
      | false =>
          rw [htimer, hno, Bool.false_or]
          have hkept := hkept hno
          cases hrunning : (w.cluster.nodes n).handler.running with
          | true => exact absurd (hwakes.symm.trans (hkept.ended hrunning hidle)) (by simp)
          | false => exact hw.awake hrunning (hkept.filter hrunning hidle hwakes).1

/-- An event that arms the timer for longer than 10 ms is the end of a queue run, which leaves the
plans alone. -/
lemma NodeStep.delay_cases (h : NodeStep cl w n ev s)
    (harms : (w.cluster.nodes n).arms cl n w.cluster.table w.cluster.now ev = true) :
    (w.cluster.nodes n).delay oneYearLater w.cluster.table w.cluster.now ev = rescheduleDelay ∨
      ((s.nodes n).handler.running = false ∧
        (s.nodes n).includes = (w.cluster.nodes n).includes ∧
        (s.nodes n).stickyNonLocal = (w.cluster.nodes n).stickyNonLocal ∧
        (w.cluster.nodes n).delay oneYearLater w.cluster.table w.cluster.now ev =
          nextDelay (scheduledSpan oneYearLater w.cluster.table w.cluster.now
            (w.cluster.nodes n).stickyNonLocal (w.cluster.nodes n).includes)) := by
  cases ev with
  | resume =>
      cases hhandler : (w.cluster.nodes n).handler with
      | rows pass =>
          simp only [JobNode.delay, hhandler]
          split
          · exact .inl rfl
          · obtain ⟨m, hm, heq, _⟩ := step_withTimer h.step rfl h.raises h.shows
            have htimer : m.timer = true := by simpa [JobNode.arms, hm] using harms
            simp only [JobNode.step] at hm
            split at hm
            · exact absurd hm (by simp)
            · have hrow : m = ((w.cluster.nodes n).withTimer false).checkRow cl n w.cluster.now
                  pass := by
                simp only [JobNode.resume,
                  show ((w.cluster.nodes n).withTimer false).handler = .rows pass from hhandler,
                  Option.some.injEq] at hm
                exact hm.symm
              obtain ⟨hidle, hinclude, hsticky⟩ := armedAtEnd_checkRow cl n w.cluster.now pass
                (show ((w.cluster.nodes n).withTimer false).timer = false from rfl)
                (hrow ▸ htimer)
              rw [← hrow] at hidle hinclude hsticky
              refine .inr ⟨?_, ?_, ?_, rfl⟩
              · rw [heq, show (m.withTimer (m.timer || (w.cluster.nodes n).timer)).handler = .idle
                  from hidle]
                rfl
              · funext planName
                rw [heq]
                simp only [JobNode.includes]
                rw [show (m.withTimer (m.timer || (w.cluster.nodes n).timer)).plansInclude =
                  (w.cluster.nodes n).plansInclude from hinclude]
              · rw [heq]
                exact hsticky
      | _ =>
          refine .inl ?_
          simp only [JobNode.delay, hhandler]
  | _ => exact .inl rfl

lemma NodeStep.arms_notify (h : NodeStep cl w n .notify s) :
    (w.cluster.nodes n).arms cl n w.cluster.table w.cluster.now .notify = true := by
  obtain ⟨hguard, _⟩ := of_guard h.step
  have hagain : ((w.cluster.nodes n).withTimer false).step cl n w.cluster.table w.cluster.now
      .notify = some ((w.cluster.nodes n).withTimer false).reschedule := if_pos hguard
  rw [JobNode.arms, hagain]
  rfl

/-- What the timer of a node is due at, after one of its events. -/
lemma NodeStep.due_cases (h : NodeStep cl w n ev s)
    (hdue : w.timerAfter cl oneYearLater n ev late (s.nodes n) = some due) :
    Soon w.cluster.now due ∨
      ((s.nodes n).handler.running = false ∧ (s.nodes n).includes = (w.cluster.nodes n).includes ∧
        (s.nodes n).stickyNonLocal = (w.cluster.nodes n).stickyNonLocal ∧
        due = w.cluster.now - late + nextDelay (scheduledSpan oneYearLater w.cluster.table
          w.cluster.now (w.cluster.nodes n).stickyNonLocal (w.cluster.nodes n).includes)) ∨
      (w.timers n = some due ∧ NodeKept (w.cluster.nodes n) (s.nodes n) ∧ ev ≠ .notify) := by
  obtain ⟨hpending, ⟨harms, rfl⟩ | ⟨hno, hdue⟩⟩ := nodeTimer_eq_some hdue
  · rcases h.delay_cases harms with hdelay | ⟨hidle, hincludes, hsticky, hdelay⟩
    · left
      rw [hdelay]
      simp only [Soon]
      omega
    · exact .inr (.inl ⟨hidle, hincludes, hsticky, by rw [hdelay]⟩)
  · refine .inr (.inr ⟨hdue, (h.kept hpending hno).2, ?_⟩)
    rintro rfl
    exact absurd (hno.symm.trans h.arms_notify) (by simp)

lemma Woken.of_self (h : Woken w n) (hstep : step cl w.cluster (.node n ev) = some s)
    (hw : w.step cl oneYearLater (.system (.node n ev) late) = some w')
    (hraises : (w.cluster.nodes n).raises cl ev = false)
    (hshows : (w.cluster.nodes n).shows ev = false)
    (hyear : ∀ now, now + 365 * (24 * 60 * minute) ≤ oneYearLater now) : Woken w' n := by
  simp only [WakeState.step, hstep, Option.map_some, Option.some.injEq] at hw
  have hnow : s.now = w.cluster.now := by
    rcases now_step hstep with hnow | ⟨d, hne, _⟩
    · exact hnow
    · exact absurd hne (by simp)
  have hnode : NodeStep cl w n ev s := ⟨hnow, step_self hstep, hraises, hshows⟩
  have hsame : w'.cluster = s ∧
      w'.timers n = w.timerAfter cl oneYearLater n ev late (s.nodes n) ∧
      w'.called n = w.cluster.now ∧
      w'.pending n = (w.pending n && ev ≠ .notify && (s.nodes n).ready) ∧
      w'.owed = (w.owed || owes cl w.cluster (.node n ev)) := by
    subst hw
    exact ⟨rfl, Function.update_self .., Function.update_self .., if_pos rfl, rfl⟩
  obtain ⟨hcluster, htimer, hcalled, hpending, howed⟩ := hsame
  constructor
  · rw [hcluster, hcalled, hnow]
  · rw [hcluster, htimer]
    simp only [WakeState.timerAfter]
    split
    · rename_i hset
      split
      · exact hset
      · rename_i hno
        have hbefore := (hnode.kept hset (by simpa using hno)).1
        rw [hset, ← h.pending, hbefore]
    · rename_i hunset
      simpa using hunset
  · rw [hcluster]
    exact hnode.awake h
  · rw [hcluster, hcalled, hnow]
    exact fun _ _ _ => le_max_right _ _
  · rw [hcluster, htimer, hcalled]
    intro hrunning due hdue
    rcases hnode.due_cases hdue with hsoon | ⟨hidle, _⟩ | ⟨hdue, hkept, _⟩
    · exact hsoon
    · exact absurd (hrunning.symm.trans hidle) (by simp)
    · exact (h.soon (hkept.started hrunning) due hdue).mono h.called
  · rw [hcluster, htimer, hcalled]
    intro hidle hwakes due hdue
    rcases hnode.due_cases hdue with hsoon | ⟨_, _, _, rfl⟩ | ⟨hdue, hkept, _⟩
    · exact hsoon.tenMinutes
    · have hspan := nextDelay_span_le oneYearLater w.cluster.table w.cluster.now
        (w.cluster.nodes n).stickyNonLocal (w.cluster.nodes n).includes
      omega
    · cases hrunning : (w.cluster.nodes n).handler.running with
      | true => exact absurd (hwakes.symm.trans (hkept.ended hrunning hidle)) (by simp)
      | false =>
          have hlimit := h.tenMinutes hrunning (hkept.filter hrunning hidle hwakes).1 due hdue
          exact hlimit.trans (Int.add_le_add_right h.called _)
  · rw [hcluster, htimer, hcalled, hpending, howed]
    intro hidle hwakes hread howes due hdue
    obtain ⟨howed, howes⟩ := Bool.or_eq_false_iff.mp howes
    have hready := (Bool.and_eq_true_iff.mp hwakes).1
    rcases hnode.due_cases hdue with
      hsoon | ⟨_, hincludes, hsticky, rfl⟩ | ⟨hdue, hkept, hother⟩
    · exact hsoon.covers
    · rw [hincludes, hsticky]
      have hlate : w.cluster.now - (late : ℤ) ≤ w.cluster.now := by omega
      exact (covers_nextDelay (hyear _) hlate).of_step hstep (by simp) howes
    · cases hrunning : (w.cluster.nodes n).handler.running with
      | true => exact absurd (hwakes.symm.trans (hkept.ended hrunning hidle)) (by simp)
      | false =>
          obtain ⟨hwakes', hinclude, hsticky⟩ := hkept.filter hrunning hidle hwakes
          have hunread : w.pending n = false := by simpa [hready, hother] using hread
          have hincludes : (s.nodes n).includes = (w.cluster.nodes n).includes := by
            funext planName
            simp only [JobNode.includes, hinclude]
          rw [hincludes, hsticky]
          exact ((h.covers hrunning hwakes' hunread howed due hdue).mono h.called).of_step hstep
            (by simp) howes

end Woken

/-! ## A job given back -/

section GivenBack

end GivenBack

end Workshop.Jobs

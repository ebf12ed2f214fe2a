import Mathlib.Data.Finset.Dedup
import Mathlib.Data.Finset.Insert
import Mathlib.Logic.Function.Basic
import Workshop.Lib.PgArray
import Workshop.Jobs.Queue

/-!
# The workshop partition

A `WorkshopPartition` (`src/workshop/Partition.cxx`) with its queue and the operators of its
`WorkshopWorkplace` (`src/workshop/Workplace.cxx`), from one event to the next.  A row of a queue
run is one event: everything the partition does with it happens before the event loop comes to
anything else, and that may include the end of the job it has just started.

Nothing checks the concurrency limit of a plan when a row is handled.  The limit is kept because
`UpdateFilter` after the start that makes the plan full changes the text `plans_exclude`, which
interrupts the run.  `plan_concurrency_kept` follows this chain.
-/

namespace Workshop.Jobs

open Workshop.Lib

/-- How sets of plan names become texts: `Pg::EncodeArray`, and the operator `= ANY` of
PostgreSQL, which finds the elements that were encoded. -/
structure ArrayCodec where
  encodeArray : Finset String → String
  anyEq : String → String → Bool
  anyEq_encodeArray : ∀ plans name, anyEq (encodeArray plans) name = true ↔ name ∈ plans

/-- What a workplace is configured with. -/
structure WorkplaceEnv where
  codec : ArrayCodec
  stringListContains : String → Char → String → Bool
  maxOperators : ℕ
  maxOperators_pos : 0 < maxOperators

/-- An operator with the tag of its processes. -/
structure TaggedOperator extends WorkshopOperator where
  childTag : String := ""
  deriving DecidableEq, Repr

/-- The plan library as one call of `UpdateFilter` finds it: the available plans, and whether they
were just loaded anew. -/
structure LibraryView where
  available : Finset String
  modified : Bool

/-- `WorkshopPartition`.  What was done is recorded: the jobs for which `claim_job` was executed,
with `IsEnabled` at that time, and the plan of each job that was started, with how many operators of
that plan there were then. -/
structure WorkshopPartition where
  queue : WorkshopQueue JobRow := {}
  operators : List TaggedOperator := []
  rateLimitedPlans : List (String × ℤ) := []
  claims : List (ℕ × Bool) := []
  started : List (String × ℕ) := []

/-- What a row meets on its way: the plan, whether the job is sticky on another node, for how many
seconds a rate limit is hit, whether `claim_job` succeeds, if it is not an exception, and whether
the job fails to start at once. -/
structure RowAnswers where
  plan : Option Plan
  nonLocal : Bool := false
  limited : Option (ℤ × LibraryView) := none
  claimed : Option Bool := some true
  failed : Option LibraryView := none
  view : LibraryView

/-- The loop of `GetFullPlanNames`: the counters, and the plans that are full. -/
def countPlan (state : (String → ℕ) × Finset String) (o : TaggedOperator) :
    (String → ℕ) × Finset String :=
  if o.plan.concurrency = 0 then state
  else
    let n := state.1 o.job.planName + 1
    (Function.update state.1 o.job.planName n,
      if o.plan.concurrency ≤ n then insert o.job.planName state.2 else state.2)

/-- `GetFullPlanNames`. -/
def getFullPlanNames (operators : List TaggedOperator) : Finset String :=
  (operators.foldl countPlan (fun _ => 0, ∅)).2

/-- `GetRunningPlanNames`. -/
def getRunningPlanNames (operators : List TaggedOperator) : Finset String :=
  (operators.map fun o => o.job.planName).toFinset

/-- How many operators of a plan are running. -/
def planOperators (name : String) (operators : List TaggedOperator) : ℕ :=
  operators.countP fun o => o.job.planName = name

namespace WorkshopPartition

variable (env : WorkplaceEnv) (now : ℤ) (p : WorkshopPartition)

/-- `IsFull`. -/
def isFull : Bool := p.operators.length = env.maxOperators

/-- `UpdateFilter`. -/
def updateFilter (view : LibraryView) : WorkshopPartition :=
  let limited := (if view.modified then [] else p.rateLimitedPlans).filter fun l => now < l.2
  { p with
    rateLimitedPlans := limited
    queue := p.queue.setFilter
      (env.codec.encodeArray (view.available.filter fun name => name ∉ limited.map Prod.fst))
      (env.codec.encodeArray (getFullPlanNames p.operators))
      (env.codec.encodeArray (getRunningPlanNames p.operators)) }

/-- `OnChildProcessExit`. -/
def onChildProcessExit (view : LibraryView) : WorkshopPartition :=
  let p := p.updateFilter env now view
  if p.isFull env then p else { p with queue := p.queue.enableFull }

/-- `OnExit`, and `OnTimeout`, of the operator at `i`. -/
def onExit (i : ℕ) (view : LibraryView) : WorkshopPartition :=
  { p with operators := p.operators.eraseIdx i }.onChildProcessExit env now view

/-- Cancel operators, as `CancelJob` and `CancelTag` do. -/
def cancelIf (sel : TaggedOperator → Bool) (view : LibraryView) : WorkshopPartition :=
  let rest := p.operators.filter fun o => !sel o
  if rest.length = p.operators.length then p
  else { p with operators := rest }.onChildProcessExit env now view

/-- `CancelJob`. -/
def cancelJob (id : ℕ) (view : LibraryView) : WorkshopPartition :=
  p.cancelIf env now (fun o => o.job.id = id) view

/-- `CancelTag`. -/
def cancelTag (tag : String) (view : LibraryView) : WorkshopPartition :=
  p.cancelIf env now (fun o => env.stringListContains o.childTag (Char.ofNat 0) tag) view

/-- `CheckWorkshopJob`. -/
def checkWorkshopJob (job : WorkshopJob) (answers : RowAnswers) : Bool × WorkshopPartition :=
  if answers.nonLocal then (false, p)
  else if p.isFull env then (false, { p with queue := p.queue.disableFull })
  else
    match answers.limited with
    | some (delta, view) =>
      (false, { p with
        rateLimitedPlans := (job.planName, now + delta * second) ::
          p.rateLimitedPlans.filter fun l => l.1 ≠ job.planName }.updateFilter env now view)
    | none => (true, p)

/-- `WorkshopWorkplace::Start`, up to the start of the operator. -/
def pushBack (job : WorkshopJob) (plan : Plan) : WorkshopPartition :=
  let operators := p.operators ++ [{ toWorkshopOperator := .create now job plan }]
  { p with
    operators
    started := p.started ++ [(job.planName, planOperators job.planName operators)] }

/-- The operator that was just started fails at once. -/
def failAtOnce (failed : Option LibraryView) : WorkshopPartition :=
  match failed with
  | none => p
  | some view => p.onExit env now (p.operators.length - 1) view

/-- `DisableFull`, if the workplace is full. -/
def disableIfFull : WorkshopPartition :=
  if p.isFull env then { p with queue := p.queue.disableFull } else p

/-- `StartWorkshopJob`. -/
def startWorkshopJob (job : WorkshopJob) (plan : Plan) (answers : RowAnswers) : WorkshopPartition :=
  (((p.pushBack now job plan).failAtOnce env now answers.failed).disableIfFull env).updateFilter
    env now answers.view

/-- `get_and_claim_job`, which is recorded, and `StartWorkshopJob`. -/
def claimAndStart (job : WorkshopJob) (plan : Plan) (answers : RowAnswers) : WorkshopPartition :=
  let p := { p with claims := p.claims ++ [(job.id, p.queue.isEnabled)] }
  match answers.claimed with
  | none => { p with queue := p.queue.abort }
  | some false => p
  | some true => p.startWorkshopJob env now job plan answers

/-- The body of the loop of `RunResult`. -/
def handleRow (row : JobRow) (answers : RowAnswers) : WorkshopPartition :=
  match makeJob row with
  | .error _ => { p with queue := p.queue.abort }
  | .ok job =>
    match answers.plan with
    | none => p
    | some plan =>
      match p.checkWorkshopJob env now job answers with
      | (false, p) => p
      | (true, p) => p.claimAndStart env now job plan answers

/-- The loop of `RunResult` comes to its next row. -/
def onRow (rest : List JobRow) (lowprio full : Bool) (answers : RowAnswers) : WorkshopPartition :=
  let next := { p with queue := p.queue.nextRow rest lowprio full }
  match rest with
  | [] => next
  | row :: _ =>
    if !p.queue.isEnabled || p.queue.interrupt then next else next.handleRow env now row answers

end WorkshopPartition

/-- The events of a queue that do not come from its partition. -/
def QueueEvent.fromOutside {α : Type*} : QueueEvent α → Bool
  | .setFilter _ _ _ | .enableFull | .disableFull | .row => false
  | _ => true

/-- What can happen to a partition.  `queue` is an event of the queue; `updateFilter` comes from
the rate limit timer or the instance; `row` is a row of a queue run; `exit` is the end of the
operator at `i`, by whatever reason. -/
inductive PartitionEvent
  | queue (e : QueueEvent JobRow)
  | updateFilter (view : LibraryView)
  | row (answers : RowAnswers)
  | tagged (i : ℕ) (childTag : String)
  | exit (i : ℕ) (view : LibraryView)
  | cancelJob (id : ℕ) (view : LibraryView)
  | cancelTag (tag : String) (view : LibraryView)

/-- A query returns no row of an excluded plan. -/
def QueueEvent.respects (env : WorkplaceEnv) (q : WorkshopQueue JobRow) : QueueEvent JobRow → Bool
  | .selected rows => rows.all fun row => !env.codec.anyEq q.plansExclude row.planName
  | _ => true

/-- One event of a partition, at the given time. -/
def WorkshopPartition.step (env : WorkplaceEnv) (p : WorkshopPartition) :
    ℤ × PartitionEvent → Option WorkshopPartition
  | (_, .queue e) =>
    if e.fromOutside && e.respects env p.queue then
      (p.queue.step e).map fun queue => { p with queue }
    else none
  | (now, .updateFilter view) =>
    if p.queue.running.isNone then some (p.updateFilter env now view) else none
  | (now, .row answers) =>
    match p.queue.running with
    | some (.rows rest lowprio full) => some (p.onRow env now rest lowprio full answers)
    | _ => none
  | (_, .tagged i childTag) =>
    p.operators[i]?.map fun o => { p with operators := p.operators.set i { o with childTag } }
  | (now, .exit i view) =>
    if p.queue.running.isNone ∧ i < p.operators.length then some (p.onExit env now i view) else none
  | (now, .cancelJob id view) =>
    if p.queue.running.isNone then some (p.cancelJob env now id view) else none
  | (now, .cancelTag tag view) =>
    if p.queue.running.isNone then some (p.cancelTag env now tag view) else none

/-! ## What an event of the queue can do -/

/-- **What an event of the queue does** that does not come from the partition: neither the switch of
the partition nor the filter changes, a queue without a filter does not begin to run, and there are
no new rows except those of a result. -/
structure FromOutside (q : WorkshopQueue JobRow) (e : QueueEvent JobRow)
    (q' : WorkshopQueue JobRow) :
    Prop where
  disabledFull : q'.disabledFull = q.disabledFull
  plansExclude : q'.plansExclude = q.plansExclude
  running : q.running = none → q.plansExclude = "" → q'.running = none
  rest : q'.rest = [] ∨ (q'.rest = q.rest ∧ q'.interrupt = q.interrupt) ∨
    ∃ rows, e = .selected rows ∧ q'.rest ⊆ rows

lemma FromOutside.of_checkEnabled {q q₁ : WorkshopQueue JobRow} (e : QueueEvent JobRow)
    (h : FromOutside q e q₁) : FromOutside q e q₁.checkEnabled := by
  obtain ⟨timerEvent, heq⟩ := q₁.checkEnabled_eq
  rw [heq]
  exact ⟨h.disabledFull, h.plansExclude, h.running, h.rest⟩

lemma fromOutside_of_step {q q' : WorkshopQueue JobRow} {e : QueueEvent JobRow}
    (hout : e.fromOutside = true) (hstep : q.step e = some q') : FromOutside q e q' := by
  have hsame : FromOutside q e q := ⟨rfl, rfl, fun h _ => h, .inr (.inl ⟨rfl, rfl⟩)⟩
  -- a queue that runs is not one without a run
  have hbusy : ∀ {stage : Stage JobRow} {P : Prop}, q.running = some stage → q.running = none → P :=
    fun h h' => absurd (h.symm.trans h') (by simp)
  cases e with
  | timer now =>
      obtain ⟨_, rfl⟩ := of_guard hstep
      simp only [WorkshopQueue.onTimer]
      split
      · rename_i hrun
        have hfilter : q.plansExclude ≠ "" := by
          have hhas := (Bool.and_eq_true_iff.mp hrun).2
          simp only [WorkshopQueue.hasFilter, Bool.and_eq_true, decide_eq_true_eq] at hhas
          exact hhas.2
        split
        · exact ⟨rfl, rfl, fun _ hempty => absurd hempty hfilter, .inl rfl⟩
        · exact ⟨rfl, rfl, fun _ hempty => absurd hempty hfilter, .inl rfl⟩
      · exact ⟨rfl, rfl, fun h _ => h, .inr (.inl ⟨rfl, rfl⟩)⟩
  | connect =>
      obtain ⟨_, rfl⟩ := of_guard hstep
      exact ⟨rfl, rfl, fun h _ => h, .inr (.inl ⟨rfl, rfl⟩)⟩
  | disconnect =>
      obtain ⟨_, rfl⟩ := of_guard hstep
      exact ⟨rfl, rfl, fun h _ => h, .inr (.inl ⟨rfl, rfl⟩)⟩
  | notify name =>
      obtain ⟨_, rfl⟩ := of_guard hstep
      unfold WorkshopQueue.onNotify
      split
      · exact ⟨rfl, rfl, fun h _ => h, .inr (.inl ⟨rfl, rfl⟩)⟩
      · exact hsame
  | setFilter _ _ _ => exact absurd hout (by simp [QueueEvent.fromOutside])
  | setStateEnabled enabled =>
      obtain rfl := Option.some.inj hstep
      unfold WorkshopQueue.setStateEnabled
      split
      · exact hsame
      · exact .of_checkEnabled _ ⟨rfl, rfl, fun h _ => h, .inr (.inl ⟨rfl, rfl⟩)⟩
  | enableAdmin =>
      obtain ⟨_, rfl⟩ := of_guard hstep
      unfold WorkshopQueue.enableAdmin
      split
      · exact hsame
      · exact .of_checkEnabled _ ⟨rfl, rfl, fun h _ => h, .inr (.inl ⟨rfl, rfl⟩)⟩
  | disableAdmin =>
      obtain rfl := Option.some.inj hstep
      exact ⟨rfl, rfl, fun h _ => h, .inr (.inl ⟨rfl, rfl⟩)⟩
  | enableFull => exact absurd hout (by simp [QueueEvent.fromOutside])
  | disableFull => exact absurd hout (by simp [QueueEvent.fromOutside])
  | expired =>
      simp only [WorkshopQueue.step] at hstep
      split at hstep
      · rename_i hrunning
        obtain rfl := Option.some.inj hstep
        exact ⟨rfl, rfl, fun h _ => hbusy hrunning h, .inl rfl⟩
      · exact absurd hstep (by simp)
  | selected rows =>
      simp only [WorkshopQueue.step] at hstep
      split at hstep
      · rename_i lowprio full hrunning
        obtain ⟨_, rfl⟩ := of_guard hstep
        obtain ⟨running, timerEvent, heq, hrest⟩ := q.onResult_eq rows lowprio full
        refine ⟨by rw [heq], by rw [heq], fun h _ => hbusy hrunning h,
          .inr (.inr ⟨rows, rfl, hrest⟩)⟩
      · exact absurd hstep (by simp)
  | row => exact absurd hout (by simp [QueueEvent.fromOutside])
  | nextScheduled =>
      simp only [WorkshopQueue.step] at hstep
      split at hstep
      · rename_i hrunning
        obtain rfl := Option.some.inj hstep
        exact ⟨rfl, rfl, fun h _ => hbusy hrunning h, .inl rfl⟩
      · exact absurd hstep (by simp)
  | throws =>
      obtain ⟨_, rfl⟩ := of_guard hstep
      exact ⟨rfl, rfl, fun _ _ => rfl, .inl rfl⟩

/-! ## Capacity -/

/-- **The capacity of a partition**: there are at most as many operators as it may have, the queue
is disabled exactly while there is no room for another one, and nothing was claimed by a disabled
queue. -/
structure WithinCapacity (env : WorkplaceEnv) (p : WorkshopPartition) : Prop where
  operators_le : p.operators.length ≤ env.maxOperators
  disabledFull : p.queue.disabledFull = p.isFull env
  claims : ∀ c ∈ p.claims, c.2 = true

section Capacity

variable {env : WorkplaceEnv} {now : ℤ} {p p' : WorkshopPartition} {view : LibraryView}

@[simp] lemma WorkshopPartition.updateFilter_disabledFull (env : WorkplaceEnv) (now : ℤ)
    (p : WorkshopPartition) (view : LibraryView) :
    (p.updateFilter env now view).queue.disabledFull = p.queue.disabledFull := by
  simp only [WorkshopPartition.updateFilter]
  obtain ⟨interrupt, timerEvent, heq, _⟩ := p.queue.setFilter_eq _ _ _
  rw [heq]

lemma enableFull_disabledFull (q : WorkshopQueue JobRow) : q.enableFull.disabledFull = false := by
  obtain ⟨timerEvent, heq⟩ := q.enableFull_eq
  rw [heq]

lemma onChildProcessExit_room (now : ℤ) (view : LibraryView)
    (hlt : p.operators.length < env.maxOperators) :
    (p.onChildProcessExit env now view).operators = p.operators ∧
      (p.onChildProcessExit env now view).queue.disabledFull = false ∧
      (p.onChildProcessExit env now view).claims = p.claims := by
  have hroom : (p.updateFilter env now view).isFull env = false := decide_eq_false hlt.ne
  simp only [WorkshopPartition.onChildProcessExit, hroom]
  exact ⟨rfl, enableFull_disabledFull _, rfl⟩

lemma onExit_room (now : ℤ) (view : LibraryView) {i : ℕ} (hi : i < p.operators.length)
    (hle : p.operators.length ≤ env.maxOperators) :
    (p.onExit env now i view).operators.length < env.maxOperators ∧
      (p.onExit env now i view).queue.disabledFull = false ∧
      (p.onExit env now i view).claims = p.claims := by
  have hlt : (p.operators.eraseIdx i).length < env.maxOperators := by
    rw [List.length_eraseIdx_of_lt hi]
    omega
  obtain ⟨hoperators, hfull, hclaims⟩ :=
    onChildProcessExit_room (p := { p with operators := p.operators.eraseIdx i }) now view hlt
  exact ⟨(congrArg List.length hoperators).trans_lt hlt, hfull, hclaims⟩

/-- A job that has just been started and may have failed at once. -/
lemma failAtOnce_room (now : ℤ) (failed : Option LibraryView) (hpos : 0 < p.operators.length)
    (hle : p.operators.length ≤ env.maxOperators) (hfull : p.queue.disabledFull = false) :
    (p.failAtOnce env now failed).operators.length ≤ env.maxOperators ∧
      (p.failAtOnce env now failed).queue.disabledFull = false ∧
      (p.failAtOnce env now failed).claims = p.claims := by
  cases failed with
  | none => exact ⟨hle, hfull, rfl⟩
  | some view =>
      have hlast : p.operators.length - 1 < p.operators.length := by omega
      obtain ⟨hlt, hfull, hclaims⟩ := onExit_room now view hlast hle
      exact ⟨hlt.le, hfull, hclaims⟩

namespace WithinCapacity

lemma updateFilter (h : WithinCapacity env p) :
    WithinCapacity env (p.updateFilter env now view) := by
  refine ⟨h.operators_le, ?_, h.claims⟩
  rw [WorkshopPartition.updateFilter_disabledFull, h.disabledFull]
  rfl

lemma onChildProcessExit (hlt : p.operators.length < env.maxOperators)
    (hclaims : ∀ c ∈ p.claims, c.2 = true) :
    WithinCapacity env (p.onChildProcessExit env now view) := by
  obtain ⟨hoperators, hfull, hsame⟩ := onChildProcessExit_room now view hlt
  refine ⟨by rw [hoperators]; exact hlt.le, ?_, by rw [hsame]; exact hclaims⟩
  rw [hfull, WorkshopPartition.isFull, hoperators, eq_comm]
  exact decide_eq_false hlt.ne

lemma cancelIf (h : WithinCapacity env p) (sel : TaggedOperator → Bool) :
    WithinCapacity env (p.cancelIf env now sel view) := by
  simp only [WorkshopPartition.cancelIf]
  split
  · exact h
  · rename_i hgone
    have hle := List.length_filter_le (fun o => !sel o) p.operators
    have hmax := h.operators_le
    refine onChildProcessExit ?_ h.claims
    show (p.operators.filter fun o => !sel o).length < env.maxOperators
    omega

lemma startWorkshopJob {job : WorkshopJob} {plan : Plan} {answers : RowAnswers}
    (hlt : p.operators.length < env.maxOperators) (hfull : p.queue.disabledFull = false)
    (hclaims : ∀ c ∈ p.claims, c.2 = true) :
    WithinCapacity env (p.startWorkshopJob env now job plan answers) := by
  refine updateFilter ?_
  have hpushed : (p.pushBack now job plan).operators.length = p.operators.length + 1 := by
    simp [WorkshopPartition.pushBack]
  have hle : (p.pushBack now job plan).operators.length ≤ env.maxOperators := by omega
  obtain ⟨hle, hfull, hsame⟩ := failAtOnce_room (p := p.pushBack now job plan) now answers.failed
    (by omega) hle hfull
  have hclaims : ∀ c ∈ ((p.pushBack now job plan).failAtOnce env now answers.failed).claims,
      c.2 = true := by
    rw [hsame]
    exact hclaims
  unfold WorkshopPartition.disableIfFull
  split
  · rename_i hisFull
    exact ⟨hle, hisFull.symm, hclaims⟩
  · rename_i hisFull
    exact ⟨hle, hfull.trans (by simpa using hisFull), hclaims⟩

lemma handleRow {row : JobRow} {answers : RowAnswers} (h : WithinCapacity env p)
    (henabled : p.queue.isEnabled = true) :
    WithinCapacity env (p.handleRow env now row answers) := by
  have hflag : p.queue.disabledFull = false := by
    simp only [WorkshopQueue.isEnabled, Bool.and_eq_true, Bool.not_eq_true'] at henabled
    exact henabled.2
  have hroom : p.isFull env = false := h.disabledFull.symm.trans hflag
  have hlt : p.operators.length < env.maxOperators :=
    lt_of_le_of_ne h.operators_le (of_decide_eq_false hroom)
  unfold WorkshopPartition.handleRow
  split
  · exact ⟨h.operators_le, h.disabledFull, h.claims⟩
  · rename_i job _
    split
    · exact h
    · rename_i plan _
      -- `CheckWorkshopJob` lets a job pass only if it changes nothing
      have hcheck : p.checkWorkshopJob env now job answers = (true, p) ∨
          ∃ q, p.checkWorkshopJob env now job answers = (false, q) ∧ WithinCapacity env q := by
        unfold WorkshopPartition.checkWorkshopJob
        rw [hroom]
        split
        · exact .inr ⟨p, rfl, h⟩
        · split
          · exact absurd ‹_› (by simp)
          · split
            · exact .inr ⟨_, rfl, updateFilter ⟨h.operators_le, h.disabledFull, h.claims⟩⟩
            · exact .inl rfl
      obtain hpass | ⟨q, hfail, hq⟩ := hcheck
      · rw [hpass]
        have hclaims : ∀ c ∈ p.claims ++ [(job.id, p.queue.isEnabled)], c.2 = true := by
          intro c hc
          rcases List.mem_append.mp hc with hc | hc
          · exact h.claims c hc
          · rw [List.mem_singleton.mp hc]
            exact henabled
        show WithinCapacity env (p.claimAndStart env now job plan answers)
        unfold WorkshopPartition.claimAndStart
        dsimp only
        split
        · exact ⟨h.operators_le, h.disabledFull, hclaims⟩
        · exact ⟨h.operators_le, h.disabledFull, hclaims⟩
        · exact startWorkshopJob hlt hflag hclaims
      · rw [hfail]
        exact hq

lemma onRow {rest : List JobRow} {lowprio full : Bool} {answers : RowAnswers}
    (h : WithinCapacity env p) :
    WithinCapacity env (p.onRow env now rest lowprio full answers) := by
  obtain ⟨running, timerEvent, heq, _⟩ := p.queue.nextRow_eq rest lowprio full
  have hnext : WithinCapacity env { p with queue := p.queue.nextRow rest lowprio full } := by
    rw [heq]
    exact ⟨h.operators_le, h.disabledFull, h.claims⟩
  unfold WorkshopPartition.onRow
  dsimp only
  split
  · exact hnext
  · split
    · exact hnext
    · rename_i hgo
      refine hnext.handleRow ?_
      rw [heq]
      have hboth : p.queue.isEnabled = true ∧ p.queue.interrupt = false := by simpa using hgo
      exact hboth.1

/-- **The step lemma**: every event keeps to the capacity. -/
lemma step {e : ℤ × PartitionEvent} (h : WithinCapacity env p) (hp' : p.step env e = some p') :
    WithinCapacity env p' := by
  obtain ⟨now, e⟩ := e
  cases e with
  | queue e =>
      simp only [WorkshopPartition.step] at hp'
      split at hp'
      · rename_i hout
        obtain ⟨q, hq, rfl⟩ := Option.map_eq_some_iff.mp hp'
        have hframe := fromOutside_of_step (Bool.and_eq_true_iff.mp hout).1 hq
        exact ⟨h.operators_le, hframe.disabledFull.trans h.disabledFull, h.claims⟩
      · exact absurd hp' (by simp)
  | updateFilter view =>
      obtain ⟨_, rfl⟩ := of_guard hp'
      exact h.updateFilter
  | row answers =>
      simp only [WorkshopPartition.step] at hp'
      split at hp'
      · exact Option.some.inj hp' ▸ h.onRow
      · exact absurd hp' (by simp)
  | tagged i childTag =>
      obtain ⟨o, _, rfl⟩ := Option.map_eq_some_iff.mp hp'
      have hlength : (p.operators.set i { o with childTag }).length = p.operators.length :=
        List.length_set ..
      refine ⟨hlength ▸ h.operators_le, ?_, h.claims⟩
      rw [WorkshopPartition.isFull, hlength]
      exact h.disabledFull
  | exit i view =>
      obtain ⟨⟨_, hi⟩, rfl⟩ := of_guard hp'
      have hmax := h.operators_le
      refine onChildProcessExit ?_ h.claims
      show (p.operators.eraseIdx i).length < env.maxOperators
      rw [List.length_eraseIdx_of_lt hi]
      omega
  | cancelJob id view =>
      obtain ⟨_, rfl⟩ := of_guard hp'
      exact h.cancelIf _
  | cancelTag tag view =>
      obtain ⟨_, rfl⟩ := of_guard hp'
      exact h.cancelIf _

end WithinCapacity

/-- **The run lemma**: a new partition keeps to its capacity, whatever happens. -/
lemma withinCapacity_of_run {tr : List (WorkshopPartition × (ℤ × PartitionEvent))}
    (hrun : Run (WorkshopPartition.step env) {} tr p) : WithinCapacity env p := by
  have hnew : WithinCapacity env {} :=
    ⟨Nat.zero_le _, (decide_eq_false env.maxOperators_pos.ne).symm, by simp⟩
  exact (hrun.invariant (I := WithinCapacity env) (C := fun _ _ => True)
    (fun p e p' h _ hstep => h.step hstep) hnew fun _ _ => trivial).1

end Capacity

/-! ## The concurrency of a plan -/

/-- The operators of a plan all have the same limit. -/
def HasConcurrency (name : String) (c : ℕ) (operators : List TaggedOperator) : Prop :=
  ∀ o ∈ operators, o.job.planName = name → o.plan.concurrency = c

section FullPlans

variable {name : String} {c : ℕ} {operators : List TaggedOperator}

/-- The loop of `GetFullPlanNames` counts the operators of a plan, and finds it full as soon as
there are enough of them. -/
lemma foldl_countPlan (hplans : HasConcurrency name c operators) (hc : 0 < c)
    (state : (String → ℕ) × Finset String) :
    (operators.foldl countPlan state).1 name = state.1 name + planOperators name operators ∧
      (name ∈ (operators.foldl countPlan state).2 ↔ name ∈ state.2 ∨
        (0 < planOperators name operators ∧ c ≤ state.1 name + planOperators name operators)) := by
  -- on the operators that are still to be counted
  induction operators generalizing state with
  | nil => simp [planOperators]
  | cons o operators ih =>
      obtain ⟨hcount, hfull⟩ := ih (fun x hx => hplans x (List.mem_cons_of_mem _ hx))
        (countPlan state o)
      rw [List.foldl_cons, hcount, hfull]
      by_cases ho : o.job.planName = name
      · have hconcurrency : o.plan.concurrency = c := hplans o List.mem_cons_self ho
        have hone : planOperators name (o :: operators) = planOperators name operators + 1 :=
          List.countP_cons_of_pos (by simp [ho])
        have hcounter : (countPlan state o).1 name = state.1 name + 1 := by
          simp [countPlan, hconcurrency, hc.ne', ho]
        have hlist : name ∈ (countPlan state o).2 ↔ name ∈ state.2 ∨ c ≤ state.1 name + 1 := by
          simp only [countPlan, hconcurrency, hc.ne', if_false, ho]
          split
          · simp [*]
          · simp [*]
        rw [hcounter, hone, hlist]
        refine ⟨by omega, ?_⟩
        by_cases hmem : name ∈ state.2
        · simp [hmem]
        · simp only [hmem, false_or]
          omega
      · have hsame : planOperators name (o :: operators) = planOperators name operators :=
          List.countP_cons_of_neg (by simp [ho])
        have hcounter : (countPlan state o).1 name = state.1 name := by
          unfold countPlan
          split
          · rfl
          · exact Function.update_of_ne (Ne.symm ho) _ _
        have hlist : name ∈ (countPlan state o).2 ↔ name ∈ state.2 := by
          unfold countPlan
          split
          · rfl
          · dsimp only
            split
            · simp [Ne.symm ho]
            · rfl
        rw [hcounter, hsame, hlist]
        exact ⟨rfl, Iff.rfl⟩

/-- **A plan is full** exactly if as many of its operators are running as it may have. -/
lemma mem_getFullPlanNames (hplans : HasConcurrency name c operators) (hc : 0 < c) :
    name ∈ getFullPlanNames operators ↔ c ≤ planOperators name operators := by
  rw [getFullPlanNames, (foldl_countPlan hplans hc _).2]
  simp only [Finset.notMem_empty, false_or, Nat.zero_add]
  omega

/-- The tags have no part in this. -/
lemma plans_of_map_eq (name : String) (c : ℕ) {operators' : List TaggedOperator}
    (h : operators'.map (fun o => o.toWorkshopOperator) =
      operators.map fun o => o.toWorkshopOperator) :
    (HasConcurrency name c operators → HasConcurrency name c operators') ∧
      planOperators name operators' = planOperators name operators ∧
      getFullPlanNames operators' = getFullPlanNames operators := by
  refine ⟨fun hplans o ho hname => ?_, ?_, ?_⟩
  · have hmem := List.mem_map_of_mem (f := fun o : TaggedOperator => o.toWorkshopOperator) ho
    rw [h] at hmem
    obtain ⟨x, hx, heq⟩ := List.mem_map.mp hmem
    rw [← heq] at hname ⊢
    exact hplans x hx hname
  · have hcount : ∀ l : List TaggedOperator, planOperators name l =
        (l.map fun o => o.toWorkshopOperator).countP fun o => o.job.planName = name := by
      intro l
      rw [List.countP_map]
      rfl
    rw [hcount, hcount, h]
  · have hfold : ∀ l : List TaggedOperator, getFullPlanNames l =
        ((l.map fun o => o.toWorkshopOperator).foldl
          (fun state o => countPlan state { toWorkshopOperator := o }) (fun _ => 0, ∅)).2 := by
      intro l
      rw [List.foldl_map]
      rfl
    rw [hfold, hfold, h]

end FullPlans

/-- The rows that are still to be handled are not of an excluded plan, or the run is to be
interrupted before it comes to them. -/
def RowsAllowed (env : WorkplaceEnv) (q : WorkshopQueue JobRow) : Prop :=
  q.interrupt = true ∨ ∀ row ∈ q.rest, env.codec.anyEq q.plansExclude row.planName = false

/-- **The limit of a plan**: its operators have the limit `c`, there are at most `c` of them, and
there never were more. -/
structure Limited (env : WorkplaceEnv) (name : String) (c : ℕ) (p : WorkshopPartition) : Prop where
  rows : RowsAllowed env p.queue
  plans : HasConcurrency name c p.operators
  count : planOperators name p.operators ≤ c
  started : ∀ s ∈ p.started, s.1 = name → s.2 ≤ c

/-- The filter excludes exactly the plans that are full. -/
def Filtered (env : WorkplaceEnv) (p : WorkshopPartition) : Prop :=
  p.queue.plansExclude = env.codec.encodeArray (getFullPlanNames p.operators)

/-- No filter was set yet, so no run can have begun. -/
def Unfiltered (p : WorkshopPartition) : Prop :=
  p.operators = [] ∧ p.queue.plansExclude = "" ∧ p.queue.running = none

section Concurrency

variable {env : WorkplaceEnv} {now : ℤ} {name : String} {c : ℕ} {p p' : WorkshopPartition}
  {view : LibraryView}

/-- **A change of the exclusions interrupts the run.** -/
lemma RowsAllowed.setFilter {q : WorkshopQueue JobRow} (h : RowsAllowed env q)
    (plansInclude plansExclude plansLowprio : String) :
    RowsAllowed env (q.setFilter plansInclude plansExclude plansLowprio) := by
  obtain ⟨interrupt, timerEvent, heq, hcases⟩ :=
    q.setFilter_eq plansInclude plansExclude plansLowprio
  rw [heq]
  obtain hinterrupt | ⟨hsame, hnone | hexclude⟩ := hcases
  · exact .inl hinterrupt
  · refine .inr fun row hrow => ?_
    have hempty : q.rest = [] := WorkshopQueue.rest_of_none hnone
    have hrow : row ∈ q.rest := hrow
    exact absurd hrow (by simp [hempty])
  · subst hsame hexclude
    exact h

lemma RowsAllowed.enableFull {q : WorkshopQueue JobRow} (h : RowsAllowed env q) :
    RowsAllowed env q.enableFull := by
  obtain ⟨timerEvent, heq⟩ := q.enableFull_eq
  rw [heq]
  exact h

lemma RowsAllowed.abort (env : WorkplaceEnv) (q : WorkshopQueue JobRow) : RowsAllowed env q.abort :=
  .inr fun row hrow => absurd hrow (by simp [WorkshopQueue.rest, WorkshopQueue.abort])

namespace Limited

lemma of_sublist (h : Limited env name c p) {operators : List TaggedOperator}
    (hsub : operators.Sublist p.operators) :
    Limited env name c { p with operators := operators } where
  rows := h.rows
  plans o ho := h.plans o (hsub.subset ho)
  count := (hsub.countP_le).trans h.count
  started := h.started

lemma updateFilter (now : ℤ) (view : LibraryView) (h : Limited env name c p) :
    Limited env name c (p.updateFilter env now view) ∧
      Filtered env (p.updateFilter env now view) := by
  refine ⟨⟨h.rows.setFilter _ _ _, h.plans, h.count, h.started⟩, ?_⟩
  simp only [Filtered, WorkshopPartition.updateFilter]
  obtain ⟨interrupt, timerEvent, heq, _⟩ := p.queue.setFilter_eq _ _ _
  rw [heq]

lemma onChildProcessExit (h : Limited env name c p) :
    Limited env name c (p.onChildProcessExit env now view) ∧
      Filtered env (p.onChildProcessExit env now view) := by
  obtain ⟨hlimited, hfiltered⟩ := h.updateFilter now view
  simp only [WorkshopPartition.onChildProcessExit]
  split
  · exact ⟨hlimited, hfiltered⟩
  · refine ⟨⟨hlimited.rows.enableFull, h.plans, h.count, h.started⟩, ?_⟩
    obtain ⟨timerEvent, heq⟩ := (p.updateFilter env now view).queue.enableFull_eq
    simp only [Filtered, heq]
    exact hfiltered

lemma startWorkshopJob {job : WorkshopJob} {plan : Plan} {answers : RowAnswers}
    (h : Limited env name c p)
    (hplan : job.planName = name → plan.concurrency = c ∧ planOperators name p.operators < c) :
    Limited env name c (p.startWorkshopJob env now job plan answers) ∧
      Filtered env (p.startWorkshopJob env now job plan answers) := by
  refine updateFilter now answers.view ?_
  have hcount : planOperators name (p.pushBack now job plan).operators =
      planOperators name p.operators + if job.planName = name then 1 else 0 := by
    simp only [WorkshopPartition.pushBack, planOperators, List.countP_append, List.countP_singleton,
      decide_eq_true_eq, WorkshopOperator.create_job]
  have hle : planOperators name (p.pushBack now job plan).operators ≤ c := by
    rw [hcount]
    split
    · exact (hplan ‹_›).2
    · exact h.count
  have hpushed : Limited env name c (p.pushBack now job plan) := by
    refine ⟨h.rows, ?_, hle, ?_⟩
    · intro o ho hname
      rcases List.mem_append.mp ho with ho | ho
      · exact h.plans o ho hname
      · rw [List.mem_singleton.mp ho] at hname ⊢
        simp only [WorkshopOperator.create_job, WorkshopOperator.create_plan] at hname ⊢
        exact (hplan hname).1
    · intro s hs hname
      rcases List.mem_append.mp hs with hs | hs
      · exact h.started s hs hname
      · rw [List.mem_singleton.mp hs] at hname ⊢
        obtain rfl : job.planName = name := hname
        exact hle
  have hfailed :
      Limited env name c ((p.pushBack now job plan).failAtOnce env now answers.failed) := by
    cases answers.failed with
    | none => exact hpushed
    | some view => exact (hpushed.of_sublist (List.eraseIdx_sublist _ _)).onChildProcessExit.1
  unfold WorkshopPartition.disableIfFull
  split
  · exact ⟨hfailed.rows, hfailed.plans, hfailed.count, hfailed.started⟩
  · exact hfailed

lemma handleRow {row : JobRow} {answers : RowAnswers} (h : Limited env name c p)
    (hfiltered : Filtered env p)
    (hplan : ∀ plan, answers.plan = some plan → row.planName = name →
      plan.concurrency = c ∧ planOperators name p.operators < c) :
    Limited env name c (p.handleRow env now row answers) ∧
      Filtered env (p.handleRow env now row answers) := by
  have habort : ∀ claims, Limited env name c { p with queue := p.queue.abort, claims := claims } ∧
      Filtered env { p with queue := p.queue.abort, claims := claims } :=
    fun _ => ⟨⟨.abort env p.queue, h.plans, h.count, h.started⟩, hfiltered⟩
  unfold WorkshopPartition.handleRow
  split
  · exact habort p.claims
  · rename_i job hjob
    have hname : job.planName = row.planName := by
      unfold makeJob at hjob
      split at hjob
      · exact absurd hjob (by simp [throw, throwThe, MonadExceptOf.throw])
      · obtain rfl := Except.ok.inj hjob
        rfl
    split
    · exact ⟨h, hfiltered⟩
    · rename_i plan hanswer
      split
      · rename_i q hcheck
        unfold WorkshopPartition.checkWorkshopJob at hcheck
        split at hcheck
        · obtain rfl := (Prod.mk.inj hcheck).2
          exact ⟨h, hfiltered⟩
        · split at hcheck
          · obtain rfl := (Prod.mk.inj hcheck).2
            exact ⟨⟨h.rows, h.plans, h.count, h.started⟩, hfiltered⟩
          · split at hcheck
            · obtain rfl := (Prod.mk.inj hcheck).2
              exact updateFilter now _ ⟨h.rows, h.plans, h.count, h.started⟩
            · exact absurd (Prod.mk.inj hcheck).1 (by simp)
      · rename_i q hcheck
        -- a job that passes has changed nothing
        have hsame : p = q := by
          unfold WorkshopPartition.checkWorkshopJob at hcheck
          split at hcheck
          · exact absurd (Prod.mk.inj hcheck).1 (by simp)
          · split at hcheck
            · exact absurd (Prod.mk.inj hcheck).1 (by simp)
            · split at hcheck
              · exact absurd (Prod.mk.inj hcheck).1 (by simp)
              · exact (Prod.mk.inj hcheck).2
        subst hsame
        unfold WorkshopPartition.claimAndStart
        dsimp only
        split
        · exact habort _
        · exact ⟨⟨h.rows, h.plans, h.count, h.started⟩, hfiltered⟩
        · exact startWorkshopJob (p := { p with claims := _ })
            ⟨h.rows, h.plans, h.count, h.started⟩ fun hjobName => hplan plan hanswer
              (hname ▸ hjobName)

lemma onRow {rest : List JobRow} {lowprio full : Bool} {answers : RowAnswers}
    (h : Limited env name c p) (hc : 0 < c) (hfiltered : Filtered env p)
    (hrest : p.queue.rest = rest)
    (hplan : ∀ plan, answers.plan = some plan → ∀ row, rest.head? = some row → row.planName = name →
      plan.concurrency = c) :
    Limited env name c (p.onRow env now rest lowprio full answers) ∧
      Filtered env (p.onRow env now rest lowprio full answers) := by
  obtain ⟨running, timerEvent, heq, hsub⟩ := p.queue.nextRow_eq rest lowprio full
  have hnext : Limited env name c { p with queue := p.queue.nextRow rest lowprio full } := by
    refine ⟨?_, h.plans, h.count, h.started⟩
    obtain hinterrupt | hrows := h.rows
    · exact .inl (by rw [heq]; exact hinterrupt)
    · refine .inr fun row hrow => ?_
      have hexclude : (p.queue.nextRow rest lowprio full).plansExclude = p.queue.plansExclude := by
        rw [heq]
      rw [hexclude]
      exact hrows row (hrest ▸ hsub hrow)
  have hfilteredNext : Filtered env { p with queue := p.queue.nextRow rest lowprio full } := by
    rw [heq]
    exact hfiltered
  unfold WorkshopPartition.onRow
  dsimp only
  split
  · exact ⟨hnext, hfilteredNext⟩
  · rename_i row rest
    split
    · exact ⟨hnext, hfilteredNext⟩
    · rename_i hgo
      have hinterrupt : p.queue.interrupt = false := by
        have hboth : p.queue.isEnabled = true ∧ p.queue.interrupt = false := by simpa using hgo
        exact hboth.2
      refine hnext.handleRow hfilteredNext fun plan hanswer hname => ?_
      refine ⟨hplan plan hanswer row rfl hname, ?_⟩
      obtain hinterrupted | hrows := h.rows
      · exact absurd (hinterrupt.symm.trans hinterrupted) (by simp)
      · have hallowed := hrows row (by rw [hrest]; exact List.mem_cons_self)
        rw [hfiltered, hname] at hallowed
        have hnotFull : name ∉ getFullPlanNames p.operators := fun hmem =>
          absurd (hallowed.symm.trans ((env.codec.anyEq_encodeArray _ _).mpr hmem)) (by simp)
        rw [mem_getFullPlanNames h.plans hc] at hnotFull
        exact Nat.not_le.mp hnotFull

end Limited

/-- The library gives the plan of that name the limit `c`, where a row is handled. -/
def PlanHas (name : String) (c : ℕ) (p : WorkshopPartition) : PartitionEvent → Prop
  | .row answers => ∀ plan, answers.plan = some plan → ∀ row, p.queue.rest.head? = some row →
      row.planName = name → plan.concurrency = c
  | _ => True

/-- **The step lemma**: every event keeps to the limit. -/
lemma limited_step {e : ℤ × PartitionEvent} (hc : 0 < c)
    (h : Limited env name c p ∧ (Filtered env p ∨ Unfiltered p)) (hplan : PlanHas name c p e.2)
    (hp' : p.step env e = some p') :
    Limited env name c p' ∧ (Filtered env p' ∨ Unfiltered p') := by
  obtain ⟨hlimited, hfilter⟩ := h
  have hdone : ∀ {q}, Limited env name c q ∧ Filtered env q →
      Limited env name c q ∧ (Filtered env q ∨ Unfiltered q) := fun h => ⟨h.1, .inl h.2⟩
  have hcancel : ∀ now sel view, Limited env name c (p.cancelIf env now sel view) ∧
      (Filtered env (p.cancelIf env now sel view) ∨ Unfiltered (p.cancelIf env now sel view)) := by
    intro now sel view
    simp only [WorkshopPartition.cancelIf]
    split
    · exact ⟨hlimited, hfilter⟩
    · exact hdone (hlimited.of_sublist List.filter_sublist).onChildProcessExit
  obtain ⟨now, e⟩ := e
  cases e with
  | queue e =>
      simp only [WorkshopPartition.step] at hp'
      split at hp'
      · rename_i hout
        obtain ⟨hout, hrespects⟩ := Bool.and_eq_true_iff.mp hout
        obtain ⟨q, hq, rfl⟩ := Option.map_eq_some_iff.mp hp'
        have hframe := fromOutside_of_step hout hq
        refine ⟨⟨?_, hlimited.plans, hlimited.count, hlimited.started⟩, ?_⟩
        · show RowsAllowed env q
          obtain hempty | ⟨hrest, hinterrupt⟩ | ⟨rows, rfl, hsub⟩ := hframe.rest
          · exact .inr fun row hrow => absurd hrow (by simp [hempty])
          · rw [RowsAllowed, hrest, hinterrupt, hframe.plansExclude]
            exact hlimited.rows
          · refine .inr fun row hrow => ?_
            rw [hframe.plansExclude]
            simpa using List.all_eq_true.mp hrespects row (hsub hrow)
        · refine hfilter.imp (fun hfiltered => ?_) fun hnone => ?_
          · exact hframe.plansExclude.trans hfiltered
          · exact ⟨hnone.1, hframe.plansExclude.trans hnone.2.1, hframe.running hnone.2.2 hnone.2.1⟩
      · exact absurd hp' (by simp)
  | updateFilter view =>
      obtain ⟨_, rfl⟩ := of_guard hp'
      exact hdone (hlimited.updateFilter now view)
  | row answers =>
      simp only [WorkshopPartition.step] at hp'
      split at hp'
      · rename_i rest lowprio full hrunning
        obtain rfl := Option.some.inj hp'
        have hrest : p.queue.rest = rest := by rw [WorkshopQueue.rest, hrunning]
        have hfiltered : Filtered env p := hfilter.resolve_right fun hnone =>
          absurd (hrunning.symm.trans hnone.2.2) (by simp)
        exact hdone (hlimited.onRow hc hfiltered hrest fun plan hanswer row hrow =>
          hplan plan hanswer row (hrest ▸ hrow))
      · exact absurd hp' (by simp)
  | tagged i childTag =>
      obtain ⟨o, ho, rfl⟩ := Option.map_eq_some_iff.mp hp'
      obtain ⟨hi, rfl⟩ := List.getElem?_eq_some_iff.mp ho
      have hmap : (p.operators.set i { p.operators[i] with childTag }).map
          (fun o => o.toWorkshopOperator) = p.operators.map fun o => o.toWorkshopOperator := by
        rw [List.map_set]
        exact List.ext_getElem (by simp) fun j hj _ => by
          rw [List.getElem_set]
          split
          · subst ‹i = j›
            rw [List.getElem_map]
          · rfl
      obtain ⟨hplans, hcount, hfull⟩ := plans_of_map_eq name c hmap
      refine ⟨⟨hlimited.rows, hplans hlimited.plans, hcount.trans_le hlimited.count,
        hlimited.started⟩, hfilter.imp (fun hfiltered => ?_) fun hnone => ?_⟩
      · exact hfiltered.trans (congrArg env.codec.encodeArray hfull.symm)
      · exact absurd hi (by simp [hnone.1])
  | exit i view =>
      obtain ⟨_, rfl⟩ := of_guard hp'
      exact hdone (hlimited.of_sublist (List.eraseIdx_sublist _ _)).onChildProcessExit
  | cancelJob id view =>
      obtain ⟨_, rfl⟩ := of_guard hp'
      exact hcancel now _ view
  | cancelTag tag view =>
      obtain ⟨_, rfl⟩ := of_guard hp'
      exact hcancel now _ view

/-- **The concurrency limit of a plan is never exceeded.**  In every run of a new partition in which
the plan of that name always has the limit `c`, at most `c` operators of the plan are running in
every state, and there were at most `c` of them whenever one was started. -/
theorem plan_concurrency_kept (env : WorkplaceEnv) (name : String) {c : ℕ} (hc : 0 < c)
    {tr : List (WorkshopPartition × (ℤ × PartitionEvent))}
    (hrun : Run (WorkshopPartition.step env) {} tr p) (hplan : ∀ e ∈ tr, PlanHas name c e.1 e.2.2) :
    (planOperators name p.operators ≤ c ∧ ∀ e ∈ tr, planOperators name e.1.operators ≤ c) ∧
      ∀ s ∈ p.started, s.1 = name → s.2 ≤ c := by
  have hnew : Limited env name c {} ∧ (Filtered env {} ∨ Unfiltered {}) :=
    ⟨⟨.inr (by simp [WorkshopQueue.rest]), by simp [HasConcurrency], Nat.zero_le c, by simp⟩,
      .inr ⟨rfl, rfl, rfl⟩⟩
  obtain ⟨⟨hlimited, _⟩, htr⟩ := hrun.invariant
    (I := fun p => Limited env name c p ∧ (Filtered env p ∨ Unfiltered p))
    (C := fun p e => PlanHas name c p e.2)
    (fun p e p' h hC hstep => limited_step hc h hC hstep) hnew hplan
  exact ⟨⟨hlimited.count, fun e he => (htr e he).1.count⟩, hlimited.started⟩

end Concurrency

/-- Array literals, as PostgreSQL reads them. -/
def pgArray : ArrayCodec where
  encodeArray := PgArray.encodeSet
  anyEq text name := name ∈ PgArray.decode text
  anyEq_encodeArray plans name := by
    rw [decide_eq_true_eq]
    exact PgArray.mem_decode_encodeSet

/-- A partition that may have four operators. -/
def fourOperators : WorkplaceEnv where
  codec := pgArray
  stringListContains haystack separator needle :=
    (haystack.splitToList (· == separator)).contains needle
  maxOperators := 4
  maxOperators_pos := by decide

/-- A library with one plan. -/
def onePlan : LibraryView where
  available := {"p"}
  modified := false

/-- A job of the plan. -/
def jobRow (id : ℕ) : JobRow where
  id := id
  timeCreated := 0
  planName := "p"

/-- A row of a plan that may have two operators. -/
def claimsRow : RowAnswers where
  plan := some { args := ["/bin/true"], timeout := "10 minutes", concurrency := 2 }
  view := onePlan

/-- A query returns three jobs of the plan; the second one makes it full, and the run is
interrupted. -/
def threeRows : List (ℤ × PartitionEvent) :=
  [(0, .updateFilter onePlan), (0, .queue (.setStateEnabled true)), (0, .queue .connect),
    (1, .queue (.timer 1)), (1, .queue .expired),
    (1, .queue (.selected [jobRow 1, jobRow 2, jobRow 3])),
    (1, .row claimsRow), (1, .row claimsRow), (1, .row claimsRow)]

theorem plan_concurrency_kept_threeRows :
    (final (WorkshopPartition.step fourOperators) {} threeRows).map
        (fun p => (p.started, p.queue.running.isNone, p.queue.timerEvent)) =
      some ([("p", 1), ("p", 2)], true, true) ∧
    ∀ p, final (WorkshopPartition.step fourOperators) {} threeRows = some p →
      planOperators "p" p.operators ≤ 2 := by
  refine ⟨by decide +kernel, fun p hp => ?_⟩
  refine (plan_concurrency_kept fourOperators "p" (by decide) (Run.of_final hp) fun e he => ?_).1.1
  have hrows : ∀ e ∈ threeRows, ∀ answers, e.2 = .row answers → answers = claimsRow := by
    simp +contextual [threeRows]
  cases hevent : e.2.2 with
  | row answers =>
      intro plan hplan row _ _
      rw [hrows e.2 (Run.event_mem_of_traceOf he) answers hevent] at hplan
      obtain rfl := Option.some.inj hplan
      rfl
  | _ => trivial

end Workshop.Jobs

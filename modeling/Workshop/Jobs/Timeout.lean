import Workshop.Jobs.PlanWellFormed
import Workshop.Jobs.System

/-!
# The two timeouts of a plan

A plan keeps its timeout twice: as the text that `claim_job` and `set_job_progress` turn into
`node_timeout`, and as the duration `ScheduleTimeout` arms the timer with.  The option `timeout`
sets both, the default in `PlanLoader::Finish` sets only the text.

`leaseAgrees_iff`: for a plan the loader accepts, lease and timer agree in every run of an operator
exactly if the file has a `timeout` and the last one is positive.  Operators of the cluster are
such runs (`operator_run`), so that `lease_armed` carries the result over to it.
-/

namespace Workshop.Jobs

open Workshop.Lib

/-! ## Loading a plan -/

/-- Both forms of the timeout are the same in the two plans. -/
def Plan.SameTimeout (plan plan' : Plan) : Prop :=
  plan'.timeout = plan.timeout ∧ plan'.parsedTimeout = plan.parsedTimeout

/-- An option that `Plan.WellFormed` is about leaves both forms alone. -/
lemma Effect.sameTimeout {env : PlanEnv} {plan plan' : Plan} {line : Line}
    (h : Effect env plan line plan') (hword : line.word ∈ checkedOptions) :
    plan.SameTimeout plan' := by
  cases h with
  | other hother _ => exact absurd hword hother
  | _ => exact ⟨rfl, rfl⟩

section Options

variable (env : PlanEnv) (plan : Plan) (values : List String)

lemma parseReapFinished_timeout : Ensures (env.parseReapFinished plan values) plan.SameTimeout :=
  .bind_any fun _ => .bind_any fun _ => .guard fun _ => .pure ⟨rfl, rfl⟩

lemma parseChroot_timeout : Ensures (env.parseChroot plan values) plan.SameTimeout :=
  .bind_any fun _ => .bind_any fun _ => .guard fun _ => .pure ⟨rfl, rfl⟩

lemma parseNice_timeout : Ensures (env.parseNice plan values) plan.SameTimeout :=
  .bind_any fun _ => .pure ⟨rfl, rfl⟩

lemma parseRlimits_timeout : Ensures (env.parseRlimitsOption plan values) plan.SameTimeout :=
  .bind_any fun _ => .guard fun _ => .pure ⟨rfl, rfl⟩

lemma parseConcurrency_timeout : Ensures (env.parseConcurrency plan values) plan.SameTimeout := by
  rcases values with _ | ⟨value, values⟩
  · exact .throw
  · exact .bind_any fun _ => .bind_any fun _ => .pure ⟨rfl, rfl⟩

lemma parseFlag_timeout {plan' : Plan} (h : plan.SameTimeout plan') :
    Ensures (env.parseFlag plan' values) plan.SameTimeout :=
  .bind_any fun _ => .pure h

lemma parseTimeout_spec : Ensures (env.parseTimeout plan values) fun plan' =>
    ∃ value d, values = [value] ∧ env.parseIntervalS value = .ok d ∧ plan'.timeout = value ∧
      plan'.parsedTimeout = d * second := by
  unfold PlanEnv.parseTimeout
  refine (expectValueAndEnd_spec env values).bind fun value hvalues => ?_
  exact (Ensures.self (env.parseIntervalS value)).bind fun d hd =>
    .pure ⟨value, d, hvalues, hd, rfl, rfl⟩

lemma parseOption_timeout (line : Line) (hword : line.word ≠ "timeout") :
    Ensures (env.parseOption plan line) plan.SameTimeout := by
  by_cases hchecked : line.word ∈ checkedOptions
  · intro plan' hplan
    exact (parseOption_effect env plan line plan' hplan).sameTimeout hchecked
  · unfold PlanEnv.parseOption
    split <;> rename_i hw
    · exact absurd (hw ▸ by decide) hchecked
    · exact absurd (hw ▸ by decide) hchecked
    · exact .pure ⟨rfl, rfl⟩
    · exact absurd (hw ▸ by decide) hchecked
    · exact absurd (hw ▸ by decide) hchecked
    · exact absurd hw hword
    · exact parseReapFinished_timeout env plan _
    · exact parseChroot_timeout env plan _
    · exact absurd (hw ▸ by decide) hchecked
    · exact absurd (hw ▸ by decide) hchecked
    · exact parseNice_timeout env plan _
    · exact parseFlag_timeout env plan _ ⟨rfl, rfl⟩
    · exact parseFlag_timeout env plan _ ⟨rfl, rfl⟩
    · exact parseFlag_timeout env plan _ ⟨rfl, rfl⟩
    · exact parseFlag_timeout env plan _ ⟨rfl, rfl⟩
    · exact parseFlag_timeout env plan _ ⟨rfl, rfl⟩
    · exact parseRlimits_timeout env plan _
    · exact parseConcurrency_timeout env plan _
    · exact absurd (hw ▸ by decide) hchecked
    · exact .throw

end Options

/-- The timeouts of a plan are those of the last `timeout` line, or both not set. -/
def HasTimeout (env : PlanEnv) (plan : Plan) : Option Line → Prop
  | none => plan.timeout = "" ∧ plan.parsedTimeout = 0
  | some line => ∃ value d, line.values = [value] ∧ env.parseIntervalS value = .ok d ∧
      plan.timeout = value ∧ plan.parsedTimeout = d * second

lemma HasTimeout.congr {env : PlanEnv} {plan plan' : Plan} {last : Option Line}
    (h : HasTimeout env plan last) (hsame : plan.SameTimeout plan') :
    HasTimeout env plan' last := by
  obtain ⟨htimeout, hparsed⟩ := hsame
  cases last with
  | none => exact ⟨htimeout.trans h.1, hparsed.trans h.2⟩
  | some line =>
      obtain ⟨value, d, hvalues, hd, hvalue, hparse⟩ := h
      exact ⟨value, d, hvalues, hd, htimeout.trans hvalue, hparsed.trans hparse⟩

lemma parseLine_timeout (env : PlanEnv) {lines : List Line} {loader : PlanLoader}
    (h : HasTimeout env loader.plan (lastLine "timeout" lines)) (line : Line) :
    Ensures (env.parseLine loader line) fun loader' =>
      HasTimeout env loader'.plan (lastLine "timeout" (lines ++ [line])) := by
  unfold PlanEnv.parseLine
  rw [lastLine_append]
  by_cases hword : line.word = "timeout"
  · have hoption : env.parseOption loader.plan line = env.parseTimeout loader.plan line.values := by
      simp [PlanEnv.parseOption, hword]
    rw [if_pos hword, hoption]
    exact (parseTimeout_spec env loader.plan line.values).bind fun _ hplan => .pure hplan
  · rw [if_neg hword]
    exact (parseOption_timeout env loader.plan line hword).bind fun _ hsame => .pure (h.congr hsame)

/-- The end of the file: the default replaces the text only. -/
lemma finish_timeout (loader : PlanLoader) : Ensures (PlanEnv.finish loader) fun plan =>
    plan.parsedTimeout = loader.plan.parsedTimeout ∧
      plan.timeout =
        if loader.plan.timeout = "" then "10 minutes" else loader.plan.timeout := by
  unfold PlanEnv.finish
  simp only
  split
  · refine .guard fun _ => .guard fun _ => .pure ?_
    split <;> exact ⟨rfl, rfl⟩
  · refine .guard fun _ => .pure ?_
    split <;> exact ⟨rfl, rfl⟩

/-- **The timeouts of a plan.** -/
lemma loadPlanFile_timeout (env : PlanEnv) (lines : List Line) :
    Ensures (env.loadPlanFile lines) fun plan => ∃ plan₀,
      HasTimeout env plan₀ (lastLine "timeout" lines) ∧
      plan.parsedTimeout = plan₀.parsedTimeout ∧
      plan.timeout = if plan₀.timeout = "" then "10 minutes" else plan₀.timeout := by
  unfold PlanEnv.loadPlanFile
  have hloop := Ensures.foldlM (f := env.parseLine) (s := {})
    (I := fun lines loader => HasTimeout env loader.plan (lastLine "timeout" lines)) ⟨rfl, rfl⟩
    (fun _ line _ h => parseLine_timeout env h line) lines
  refine hloop.bind fun loader hloader => ?_
  intro plan hplan
  exact ⟨loader.plan, hloader, finish_timeout loader plan hplan⟩

/-! ## Runs of an operator -/

/-- The database and the operators read the same text: `Pg::ParseIntervalS` agrees with
PostgreSQL, which does not accept the empty text and knows the default. -/
structure ReadsIntervals (env : PlanEnv) (interval : String → Option ℤ) : Prop where
  agrees : ∀ text d, env.parseIntervalS text = .ok d → interval text = some (d * second)
  empty : interval "" = none
  tenMinutes : interval "10 minutes" = some (10 * minute)

/-- **Lease and timer agree**, in every run of an operator: when `claim_job` sets the lease to the
duration of the text, and whenever `set_job_progress` does so, the timer is armed with exactly this
duration. -/
def LeaseAgrees (interval : String → Option ℤ) (plan : Plan) : Prop :=
  ∀ (job : WorkshopJob) (start : ℤ) (tr : List (WorkshopOperator × OperatorEvent))
    (o : WorkshopOperator) (duration : ℤ),
    Run WorkshopOperator.step (.create start job plan) tr o →
    interval plan.timeout = some duration →
      (WorkshopOperator.create start job plan).timeoutEvent = some (start + duration) ∧
      ∀ p ∈ tr, ∀ now, p.2 = .progress now → p.1.exited = false →
        (p.1.onProgress now).timeoutEvent = some (now + duration)

lemma WorkshopOperator.scheduleTimeout_event {o : WorkshopOperator} (h : 0 < o.plan.parsedTimeout)
    (now : ℤ) : (o.scheduleTimeout now).timeoutEvent = some (now + o.plan.parsedTimeout) := by
  unfold WorkshopOperator.scheduleTimeout
  rw [if_pos h]

/-- Lease and timer agree if the two forms of the timeout do, and are positive. -/
lemma leaseAgrees_iff_parsed {interval : String → Option ℤ} {plan : Plan} :
    LeaseAgrees interval plan ↔ ∀ duration, interval plan.timeout = some duration →
      0 < plan.parsedTimeout ∧ plan.parsedTimeout = duration := by
  constructor
  · intro h duration hduration
    -- the start of any job tells
    let job : WorkshopJob := { id := 0, planName := "", args := [], env := [], stdin := none }
    obtain ⟨hstart, _⟩ := h job 0 [] _ duration (.nil _) hduration
    by_cases hpos : 0 < plan.parsedTimeout
    · rw [WorkshopOperator.create, WorkshopOperator.scheduleTimeout_event hpos] at hstart
      have heq := Option.some.inj hstart
      exact ⟨hpos, by simpa using heq⟩
    · simp [WorkshopOperator.create, WorkshopOperator.scheduleTimeout, hpos] at hstart
  · intro h job start tr o duration hrun hduration
    obtain ⟨hpos, rfl⟩ := h duration hduration
    refine ⟨WorkshopOperator.scheduleTimeout_event hpos start, ?_⟩
    obtain ⟨_, hplan⟩ := hrun.invariant (I := fun o => o.plan = plan) (C := fun _ _ => True)
      (fun o oe o' ho _ h => (WorkshopOperator.step_keeps h).2.trans ho)
      (WorkshopOperator.create_plan start job plan) (fun _ _ => trivial)
    intro p hp now _ hexited
    have hp := hplan p hp
    rw [WorkshopOperator.onProgress, hexited, if_neg (by simp),
      WorkshopOperator.scheduleTimeout_event (by rwa [hp]), hp]

/-- The file has a `timeout`, and the last one is positive. -/
def GivesTimeout (env : PlanEnv) (lines : List Line) : Prop :=
  ∃ line value d, lastLine "timeout" lines = some line ∧ line.values = [value] ∧
    env.parseIntervalS value = .ok d ∧ 0 < d

/-- **Lease and timer agree** for a plan file that is accepted exactly if it has a `timeout`, and
the last one is positive. -/
theorem leaseAgrees_iff (env : PlanEnv) (interval : String → Option ℤ)
    (hpg : ReadsIntervals env interval) (lines : List Line) (plan : Plan)
    (h : env.loadPlanFile lines = .ok plan) :
    LeaseAgrees interval plan ↔ GivesTimeout env lines := by
  obtain ⟨plan₀, hhas, hparsed, htimeout⟩ := loadPlanFile_timeout env lines plan h
  rw [leaseAgrees_iff_parsed, hparsed, htimeout]
  rcases hlast : lastLine "timeout" lines with _ | line
  · -- without a line there is a lease, but no timer
    rw [hlast] at hhas
    obtain ⟨hnone, hzero⟩ := hhas
    rw [if_pos hnone, hzero]
    constructor
    · intro hall
      exact absurd (hall _ hpg.tenMinutes).1 (by simp)
    · rintro ⟨line, _, _, hline, _⟩
      exact absurd (hlast.symm.trans hline) (by simp)
  · rw [hlast] at hhas
    obtain ⟨value, d, hvalues, hd, hvalue, hparse⟩ := hhas
    have hinterval := hpg.agrees value d hd
    have hnonempty : value ≠ "" := by
      rintro rfl
      exact absurd (hpg.empty.symm.trans hinterval) (by simp)
    rw [hvalue, if_neg hnonempty, hparse]
    constructor
    · intro hall
      have hpos := (hall _ hinterval).1
      refine ⟨line, value, d, hlast, hvalues, hd, ?_⟩
      simp only [second] at hpos
      omega
    · rintro ⟨line', value', d', hlast', hvalues', hd', hpos⟩ duration hduration
      obtain rfl := Option.some.inj (hlast.symm.trans hlast')
      obtain rfl : value = value' := by simpa using hvalues.symm.trans hvalues'
      obtain rfl := Except.ok.inj (hd.symm.trans hd')
      refine ⟨?_, Option.some.inj (hinterval.symm.trans hduration)⟩
      simp only [second]
      omega

/-- A loader that knows two intervals. -/
def smallEnv : PlanEnv where
  parseIntervalS text :=
    if text = "5 minutes" then .ok 300
    else if text = "10 minutes" then .ok 600
    else .error "Failed to parse interval"
  lineError := "Too many arguments"
  nextBool _ := .error "yes/no expected"
  nextPositiveInteger _ := .error "Positive integer expected"
  parseRlimits _ := false
  stat _ := .error "failed to stat"
  getpwnam _ := none
  getgrouplist _ _ := none

/-- PostgreSQL's view of the same intervals. -/
def smallInterval (text : String) : Option ℤ :=
  if text = "5 minutes" then some (5 * minute)
  else if text = "10 minutes" then some (10 * minute)
  else none

lemma smallEnv_reads : ReadsIntervals smallEnv smallInterval where
  agrees := by
    intro text d hd
    simp only [smallEnv] at hd
    simp only [smallInterval]
    split at hd
    · obtain rfl := Except.ok.inj hd
      rw [if_pos ‹_›]
      rfl
    · rw [if_neg ‹_›]
      split at hd
      · obtain rfl := Except.ok.inj hd
        rw [if_pos ‹_›]
        rfl
      · cases hd
  empty := rfl
  tenMinutes := rfl

/-- **A job without the option has a lease and no timer.** -/
theorem lease_not_agrees :
    ¬ ∀ (env : PlanEnv) (interval : String → Option ℤ) (lines : List Line) (plan : Plan),
        ReadsIntervals env interval → env.loadPlanFile lines = .ok plan →
        LeaseAgrees interval plan := by
  intro h
  have hagrees := h smallEnv smallInterval [{ word := "exec", values := ["/bin/true"] }]
    { args := ["/bin/true"], timeout := "10 minutes" } smallEnv_reads rfl
  have hpos := (leaseAgrees_iff_parsed.mp hagrees (10 * minute) rfl).1
  exact absurd hpos (by decide)

theorem leaseAgrees_iff_fiveMinutes :
    LeaseAgrees smallInterval
      { args := ["/bin/true"], timeout := "5 minutes", parsedTimeout := 300 * second } := by
  refine (leaseAgrees_iff smallEnv smallInterval smallEnv_reads
    [{ word := "timeout", values := ["10 minutes"] }, { word := "exec", values := ["/bin/true"] },
      { word := "timeout", values := ["5 minutes"] }] _ rfl).mpr ?_
  exact ⟨{ word := "timeout", values := ["5 minutes"] }, "5 minutes", 300, rfl, rfl, rfl,
    by decide⟩

/-! ## Operators of the cluster -/

section Cluster

variable {cl : JobCluster} {s t : State} {e : Event} {n : String}

/-- Every operator of the cluster is at the end of a run of its own. -/
def OperatorsRun (s : State) : Prop :=
  ∀ n, ∀ o ∈ (s.nodes n).operators, ∃ start tr,
    Run WorkshopOperator.step (.create start o.job o.plan) tr o

lemma operatorsRun_step (hI : OperatorsRun s) (h : step cl s e = some t) : OperatorsRun t := by
  intro n o' ho'
  obtain ⟨ev, rfl, hnode⟩ | ⟨_, hnode⟩ := step_node_cases h n
  · have hoperates := (JobNode.step_spec hnode).1
    generalize (t.nodes n).operators = operators' at hoperates ho'
    cases hoperates with
    | ended _ => exact hI n o' (List.mem_of_mem_eraseIdx ho')
    | @started job plan _ _ _ =>
        rcases List.mem_append.mp ho' with hold | hnew
        · exact hI n o' hold
        · obtain rfl := List.mem_singleton.mp hnew
          refine ⟨s.now, [], ?_⟩
          rw [WorkshopOperator.create_job, WorkshopOperator.create_plan]
          exact .nil _
    | @stepped i o o₁ oe _ ho hstep =>
        rcases List.mem_or_eq_of_mem_set ho' with hold | rfl
        · exact hI n o' hold
        · obtain ⟨start, tr, hrun⟩ := hI n o (List.mem_of_getElem? ho)
          refine ⟨start, tr ++ [(o, oe)], ?_⟩
          obtain ⟨hjob, hplan⟩ := WorkshopOperator.step_keeps hstep
          rw [hjob, hplan]
          exact hrun.append (.cons hstep (.nil _))
    | kept _ => exact hI n o' ho'
  · rw [hnode] at ho'
    exact hI n o' ho'

/-- **Operators of the cluster are runs of an operator.** -/
theorem operator_run (cl : JobCluster) {s t : State} {tr : List (State × Event)}
    (hrun : Run (step cl) s tr t) (hstart : ∀ n, (s.nodes n).operators = []) :
    OperatorsRun t ∧ ∀ p ∈ tr, OperatorsRun p.1 :=
  hrun.invariant (C := fun _ _ => True) (fun _ _ _ hI _ h => operatorsRun_step hI h)
    (fun n o ho => by simp [hstart n] at ho) (fun _ _ => trivial)

/-- The step arms the timer of every job whose lease it sets, if lease and timer of its plan
agree: that of the job it starts, and that of a job that reports progress. -/
def LeaseArmed (cl : JobCluster) (s t : State) (n : String) (ev : NodeEvent) : Prop :=
  (∀ job, (s.nodes n).Starts cl n s.table s.now ev job →
    ∃ timeout, Event.statement cl s (.node n ev) = some (.claimJob n job.id timeout s.now) ∧
      ∃ o ∈ (t.nodes n).operators, o.job = job ∧
        (LeaseAgrees cl.interval o.plan → o.timeoutEvent = some (s.now + timeout))) ∧
  ∀ id value timeout now,
    Event.statement cl s (.node n ev) = some (.setJobProgress id value timeout now) →
      ∃ o ∈ (t.nodes n).operators, o.job.id = id ∧
        (LeaseAgrees cl.interval o.plan → o.timeoutEvent = some (now + timeout))

lemma leaseArmed_of_operatorsRun (hI : OperatorsRun s) {ev : NodeEvent}
    (h : step cl s (.node n ev) = some t) : LeaseArmed cl s t n ev := by
  constructor
  · intro job hstarts
    obtain ⟨plan, timeout, htimeout, hst, _, hops⟩ := JobNode.starts_spec hstarts (step_self h)
    refine ⟨timeout, hst, .create s.now job plan, by simp [hops], by simp, fun hagrees => ?_⟩
    rw [WorkshopOperator.create_plan] at hagrees
    exact (hagrees job s.now [] _ timeout (.nil _) htimeout).1
  · intro id value timeout now hst
    cases executes_of_statement hst with
    | @setJobProgress i _ o _ hev ho hexited htimeout =>
        subst hev
        have hnode := step_self h
        obtain ⟨_, hnode⟩ := Option.ite_none_right_eq_some.mp hnode
        obtain ⟨o₁, ho₁, hnode⟩ := Option.map_eq_some_iff.mp hnode
        obtain rfl := Option.some.inj (ho.symm.trans ho₁)
        obtain ⟨start, tr, hrun⟩ := hI n o (List.mem_of_getElem? ho)
        -- the update is one more step of the operator's run
        have hstep : o.step (.progress s.now) = some (o.onProgress s.now) := rfl
        have hrun' := hrun.append (.cons hstep (.nil _))
        refine ⟨o.onProgress s.now, ?_, by simp, fun hagrees => ?_⟩
        · rw [← hnode]
          exact List.mem_set (List.getElem?_eq_some_iff.mp ho).1 _
        · rw [(WorkshopOperator.step_keeps hstep).2] at hagrees
          obtain ⟨_, harmed⟩ := hagrees o.job start _ _ timeout hrun' htimeout
          exact harmed (o, .progress s.now) (by simp) s.now rfl hexited

/-- **Lease and timer of the cluster**: in any run from nodes that run nothing, a step that sets
the lease of a job arms its timer with the same duration, if lease and timer of its plan agree. -/
theorem lease_armed (cl : JobCluster) {s t : State} {tr : List (State × Event)}
    (hrun : Run (step cl) s tr t) (hstart : ∀ n, (s.nodes n).operators = []) :
    ∀ p ∈ tr, ∀ n ev t', p.2 = .node n ev → step cl p.1 p.2 = some t' →
      LeaseArmed cl p.1 t' n ev := by
  intro p hp n ev t' hev hstep
  rw [hev] at hstep
  exact leaseArmed_of_operatorsRun ((operator_run cl hrun hstart).2 p hp) hstep

end Cluster

end Workshop.Jobs

import Workshop.Cron.Slots

/-!
# Jobs that are run once

The schedule `@once` has one slot: `CronSchedule::Next` returns the current time for a job that was
never run, and `'infinity'` for one that was.  Scheduling is not atomic, though.  A node may have
selected the job before another one has scheduled, claimed and finished it, and only then write the
time it has calculated.  What keeps this late statement from making the job due once more is the
condition on `last_run` in `update_next_run`.

`once_never_again`: after a `finish_job` no node finds the job due again, whatever was under way at
that time.  A claim that comes too late is the only way to a second run; without it, the job is
claimed at most once in the whole run of the cluster (`once_claimed_once`).
-/

namespace Workshop.Cron

open Workshop.Lib

variable {cl : Cluster} {j : ℕ} {s t : State} {e : Event}

/-- The step is none of a client on the job `j`. -/
def Unedited (cl : Cluster) (j : ℕ) (s : State) (e : Event) : Prop :=
  e ≠ .delete j ∧ effective cl j Statement.isEditJob (s, e) = false

instance : Decidable (Unedited cl j s e) := inferInstanceAs (Decidable (_ ∧ _))

/-- A node that is about to schedule a job `@once` has parsed this schedule. -/
def ParsedOnce (s : State) : Prop :=
  ∀ n row schedule delay rest, (s.nodes n).handler = .update row schedule delay rest →
    row.schedule = "@once" → schedule.isOnce = true

/-- A job `@once` that was run is not due at any time. -/
structure RunOnce (r : CronRow) : Prop where
  schedule : r.schedule = "@once"
  neverDue : r.lastRun ≠ none → ∀ u, r.nextRun ≠ some (.finite u)

/-- The job was run. -/
def WasRun (j : ℕ) (s : State) : Prop := ∃ r, s.table.find? j = some r ∧ r.lastRun ≠ none

/-- The invariant. -/
def Once (j : ℕ) (s : State) : Prop :=
  ParsedOnce s ∧ ∃ r, s.table.find? j = some r ∧ RunOnce r

lemma parse_once {c : CronSchedule} (h : CronSchedule.parse "@once" = .ok c) :
    c.isOnce = true := by
  have hparse : CronSchedule.parse "@once" = .ok .once := by decide +kernel
  rw [hparse] at h
  obtain rfl := Except.ok.inj h
  decide +kernel

lemma parsedOnce_step (hs : ParsedOnce s) (h : step cl s e = some t) : ParsedOnce t := by
  intro n row schedule delay rest hupdate honce
  obtain ⟨ev, node, rfl, hnode, heq⟩ | heq := step_node_cases h n
  · rw [heq, CronNode.receive_handler] at hupdate
    obtain ⟨draw, rfl, hmoves⟩ | ⟨_, rest, _, hrest⟩ | hidle := CronNode.step_handler hnode
    · cases hmoves with
      | delayed _ hparse _ =>
          obtain ⟨rfl, rfl, _, _⟩ := Handler.update.inj hupdate
          rw [honce] at hparse
          exact parse_once hparse
      | @advanced _ rest _ =>
          rw [CronNode.advance_handler] at hupdate
          cases rest <;> exact absurd hupdate (by simp [rowsHandler])
      | lostRace _ _ | claimed _ _ =>
          obtain hfind | hidle := CronNode.continueClaim_handler _
          · exact absurd (hfind.symm.trans hupdate) (by simp)
          · exact absurd (hidle.symm.trans hupdate) (by simp)
      | _ => exact absurd hupdate (by simp [CronNode.scheduleClaim])
    · rw [hrest] at hupdate
      obtain hnone | ⟨_, _, _, hnext⟩ := rowsHandler_cases rest
      · exact absurd (hnone.symm.trans hupdate) (by simp)
      · exact absurd (hnext.symm.trans hupdate) (by simp)
    · rw [hupdate] at hidle
      exact absurd hidle (by simp)
  · rw [heq, CronNode.receive_handler] at hupdate
    exact hs n row schedule delay rest hupdate honce

/-- What is calculated for a job `@once` that was run when it was selected. -/
lemma nextRunOf_once {schedule : CronSchedule} {row : ScheduleRow} {delay : ℤ}
    {nextRun : Timestamp} (honce : schedule.isOnce = true) (hlast : row.lastRun ≠ none)
    (h : nextRunOf schedule row delay = some nextRun) : nextRun = .infinity := by
  obtain ⟨l, hl⟩ := Option.ne_none_iff_exists'.mp hlast
  simp only [nextRunOf, CronSchedule.next, lastSlot, hl, honce, if_true, Option.map_some,
    Timestamp.add, Option.some.injEq] at h
  exact h.symm

/-- **The step lemma for the row.**  A time that was calculated before the job was run is not
written any more. -/
lemma runOnce_rowAfter {r : CronRow} (hparsed : ParsedOnce s) (hr : s.table.find? j = some r)
    (hrow : RunOnce r) (hunedited : Unedited cl j s e) :
    RunOnce (rowAfter cl s e r) ∧ (r.lastRun ≠ none → (rowAfter cl s e r).lastRun ≠ none) := by
  obtain heq | ⟨st, hst, hcond, heq⟩ := rowAfter_cases cl s e r
  · rw [heq]
    exact ⟨hrow, id⟩
  rw [heq]
  cases st with
  | releaseStale node =>
      exact ⟨⟨hrow.schedule, fun _ u => by simp [Statement.update, releaseStale]⟩, fun h => h⟩
  | expireJobs node now =>
      exact ⟨⟨hrow.schedule, fun _ u => by simp [Statement.update, expireJobs]⟩, fun h => h⟩
  | makeRandomDelay id schedule delay range => exact ⟨⟨hrow.schedule, hrow.neverDue⟩, fun h => h⟩
  | updateNextRun id schedule lastRun nextRun =>
      obtain ⟨z, hz, _, hschedule, hlast, _, _⟩ := updateNextRun_cond.mp hcond
      rw [Statement.update, updateNextRun_set hz]
      refine ⟨⟨hrow.schedule, fun hrun u => ?_⟩, fun h => h⟩
      obtain ⟨_, _, _, hedit⟩ | ⟨n, ev, rfl, hexec⟩ := statement_cases hst
      · cases hedit
      · cases hexec with
        | @updateNextRun _ draw row rest schedule delay nextRun _ hhandler hnext =>
            -- the job was run when it was selected, too, since `last_run` is still the same
            have hread : row.lastRun ≠ none := by
              rcases hlast with hnone | hsame
              · exact absurd hnone hrun
              · rw [← hsame, ne_eq, Option.map_eq_none_iff]
                exact hrun
            have honce : row.schedule = "@once" := hschedule.symm.trans hrow.schedule
            have hisOnce := hparsed n row schedule delay rest hhandler honce
            rw [nextRunOf_once hisOnce hread hnext]
            simp [Zone.ofLocalTimestamp]
  | claimJob id node timeout now => exact ⟨⟨hrow.schedule, hrow.neverDue⟩, fun h => h⟩
  | finishJob id node now =>
      exact ⟨⟨hrow.schedule, fun _ u => by simp [Statement.update, finishJob]⟩,
        fun _ => by simp [Statement.update, finishJob]⟩
  | editJob id ed =>
      have heff : effective cl j Statement.isEditJob (s, e) = true :=
        effective_iff.mpr ⟨_, r, hst, rfl, hr, hcond⟩
      exact absurd (heff.symm.trans hunedited.2) (by simp)

/-- **The step lemma.** -/
lemma once_step (hI : Once j s) (hunedited : Unedited cl j s e) (h : step cl s e = some t) :
    Once j t ∧ (WasRun j s → WasRun j t) := by
  obtain ⟨hparsed, r, hr, hrow⟩ := hI
  obtain ⟨hrow', hlast⟩ := runOnce_rowAfter hparsed hr hrow hunedited
  have hr' := step_find? h hr hunedited.1
  refine ⟨⟨parsedOnce_step hparsed h, _, hr', hrow'⟩, ?_⟩
  rintro ⟨r₀, hr₀, hrun⟩
  obtain rfl : r = r₀ := Option.some.inj (hr.symm.trans hr₀)
  exact ⟨_, hr', hlast hrun⟩

lemma Once.not_due (hI : Once j s) (hrun : WasRun j s) {now : ℤ} {r : CronRow}
    (hcheck : checkPending s.table now = some r) : r.id ≠ j := by
  rintro rfl
  obtain ⟨_, r₀, hr₀, hrow⟩ := hI
  obtain ⟨r₁, hr₁, hlast⟩ := hrun
  obtain ⟨hmem, hpending⟩ := checkPending_spec hcheck
  have hr : s.table.find? r.id = some r := Table.find?_eq_some.mpr ⟨hmem, rfl⟩
  obtain rfl : r₀ = r := Option.some.inj (hr₀.symm.trans hr)
  obtain rfl : r₁ = r₀ := Option.some.inj (hr₁.symm.trans hr₀)
  obtain ⟨_, _, u, hu, _⟩ := isPending_iff.mp hpending
  exact hrow.neverDue hlast u hu

lemma wasRun_of_finish (hunedited : Unedited cl j s e) (h : step cl s e = some t)
    (hfinish : effective cl j Statement.isFinishJob (s, e) = true) : WasRun j t := by
  obtain ⟨st, r, hst, hkind, hr, hcond⟩ := effective_iff.mp hfinish
  refine ⟨_, step_find? h hr hunedited.1, ?_⟩
  rw [rowAfter_of_statement hst hcond]
  cases st with
  | finishJob id node now => simp [Statement.update, finishJob]
  | _ => exact absurd hkind (by simp [Statement.isFinishJob])

/-- **A job `@once` that was run is never found due again.**  For any number of nodes and every
interleaving in which no client changes the job: after a `finish_job` has taken effect,
`check_pending` returns it on no node, no matter which nodes were scheduling it at that time. -/
theorem once_never_again (cl : Cluster) (j : ℕ) {s t m : State} {e : Event}
    {tr tr' : List (State × Event)} (hrun : Run (step cl) s (tr ++ (m, e) :: tr') t)
    (hidle : ∀ n, (s.nodes n).handler = .idle) {r : CronRow} (hr : s.table.find? j = some r)
    (honce : r.schedule = "@once") (hnew : r.lastRun = none)
    (hunedited : ∀ p ∈ tr ++ (m, e) :: tr', Unedited cl j p.1 p.2)
    (hfinish : effective cl j Statement.isFinishJob (m, e) = true) :
    ∀ p ∈ tr', ∀ now r, checkPending p.1.table now = some r → r.id ≠ j := by
  have hI : Once j s := ⟨fun n row schedule delay rest hupdate => by simp [hidle n] at hupdate,
    r, hr, honce, fun hlast => absurd hnew hlast⟩
  have hIm : Once j m := (hrun.invariant (fun s e t h hC hstep => (once_step h hC hstep).1) hI
    hunedited).2 (m, e) (by simp)
  have hm : Unedited cl j m e := hunedited (m, e) (by simp)
  have hest : ∀ m', step cl m e = some m' → Once j m' ∧ WasRun j m' := fun m' hstep =>
    ⟨(once_step hIm hm hstep).1, wasRun_of_finish hm hstep hfinish⟩
  have hafter := (hrun.stable_after (Q := fun s => Once j s ∧ WasRun j s)
    (C := fun s e => Unedited cl j s e)
    (fun s e t h hC hstep => (once_step h.1 hC hstep).imp_right fun hkeep => hkeep h.2) hest
    fun p hp => hunedited p (by simp [hp])).2
  exact fun p hp now r hcheck => (hafter p hp).1.not_due (hafter p hp).2 hcheck

/-! ## At most one claim -/

/-- The token: the job is not assigned and was never run. -/
def Fresh (j : ℕ) (s : State) : Prop :=
  ∃ r, s.table.find? j = some r ∧ r.nodeName = none ∧ r.lastRun = none

lemma Undisturbed.unedited (h : Undisturbed cl j s e) : Unedited cl j s e := ⟨h.1, h.2.1⟩

lemma claim_fresh (hI : Once j s) (hdue : DueWhenRead j s) (hund : Undisturbed cl j s e)
    (h : step cl s e = some t) (hclaim : effective cl j Statement.isClaimJob (s, e) = true) :
    Fresh j s ∧ ¬ Fresh j t := by
  obtain ⟨n, job, r, hhandler, hid, hr, hnode, hafter⟩ := claim_of_effective hclaim
  obtain ⟨_, r₀, hr₀, hrow⟩ := hI
  obtain ⟨r₁, hr₁, u, hu, _⟩ := hdue n job hhandler hid
  obtain rfl : r₀ = r := Option.some.inj (hr₀.symm.trans hr)
  obtain rfl : r₁ = r₀ := Option.some.inj (hr₁.symm.trans hr₀)
  have hlast : r₁.lastRun = none := by
    by_contra hlast
    exact hrow.neverDue hlast u hu
  refine ⟨⟨r₁, hr, hnode, hlast⟩, ?_⟩
  rintro ⟨r', hr', hnode', _⟩
  rw [step_find? h hr hund.1, hafter] at hr'
  obtain rfl := Option.some.inj hr'
  exact absurd hnode' (by simp [claimJob])

lemma not_fresh_step (hI : Once j s) (hund : Undisturbed cl j s e) (h : step cl s e = some t)
    (hs : ¬ Fresh j s) : ¬ Fresh j t := by
  rintro ⟨r', hr', hnode, hlast⟩
  obtain ⟨_, r, hr, _⟩ := hI
  rw [step_find? h hr hund.1] at hr'
  obtain rfl := Option.some.inj hr'
  obtain ⟨_, hedit, hrelease, hexpire⟩ := hund
  apply hs
  obtain heq | ⟨st, hst, hcond, heq⟩ := rowAfter_cases cl s e r
  · rw [heq] at hnode hlast
    exact ⟨r, hr, hnode, hlast⟩
  · have hkind : ∀ kind : Statement → Bool, kind st = true → effective cl j kind (s, e) = true :=
      fun kind hk => effective_iff.mpr ⟨st, r, hst, hk, hr, hcond⟩
    rw [heq] at hnode hlast
    cases st with
    | releaseStale => exact absurd (hkind Statement.isReleaseStale rfl) (by simp [hrelease])
    | expireJobs => exact absurd (hkind Statement.isExpireJobs rfl) (by simp [hexpire])
    | makeRandomDelay => exact ⟨r, hr, hnode, hlast⟩
    | updateNextRun =>
        obtain ⟨z, hz, _⟩ := updateNextRun_cond.mp hcond
        rw [Statement.update, updateNextRun_set hz] at hnode hlast
        exact ⟨r, hr, hnode, hlast⟩
    | claimJob => exact absurd hnode (by simp [Statement.update, claimJob])
    | finishJob => exact absurd hlast (by simp [Statement.update, finishJob])
    | editJob => exact absurd (hkind Statement.isEditJob rfl) (by simp [hedit])

/-- **A job `@once` is claimed at most once**, in the whole run of any number of nodes in any
interleaving, if no client, `release_stale` or `expire_jobs` touches it and no `finish_job` takes
effect while a node is between its `check_pending` and its `claim_job` for it. -/
theorem once_claimed_once (cl : Cluster) (j : ℕ) {s t : State} {tr : List (State × Event)}
    (hrun : Run (step cl) s tr t) (hidle : ∀ n, (s.nodes n).handler = .idle)
    {r : CronRow} (hr : s.table.find? j = some r) (honce : r.schedule = "@once")
    (hnew : r.lastRun = none) (hund : ∀ p ∈ tr, Undisturbed cl j p.1 p.2)
    (hfinish : ∀ p ∈ tr, NoFinishBeforeClaim cl j p.1 p.2) :
    tr.countP (effective cl j Statement.isClaimJob) ≤ 1 := by
  have hI : Once j s := ⟨fun n row schedule delay rest hupdate => by simp [hidle n] at hupdate,
    r, hr, honce, fun hlast => absurd hnew hlast⟩
  have hdue : DueWhenRead j s := fun n job hclaim _ => by simp [hidle n] at hclaim
  have hconsumes : ∀ s e t, Once j s ∧ DueWhenRead j s →
      Undisturbed cl j s e ∧ NoFinishBeforeClaim cl j s e → step cl s e = some t →
      effective cl j Statement.isClaimJob (s, e) = true → Fresh j s ∧ ¬ Fresh j t :=
    fun s e t hI hC hstep hclaim => claim_fresh hI.1 hI.2 hC.1 hstep hclaim
  refine hrun.countP_le_one (B := fun _ => false) hconsumes
    (fun s e t hI hC hstep _ => not_fresh_step hI.1 hC.1 hstep) (fun s e t hI hC hstep => ?_)
    ⟨hI, hdue⟩ (fun p hp => ⟨hund p hp, hfinish p hp⟩) fun _ _ => rfl
  exact ⟨(once_step hI.1 hC.1.unedited hstep).1, dueWhenRead_step hI.2 hC.1 hC.2 hstep⟩

/-- One job `@once` that was never run, and no node that is connected. -/
def onceJob : State where
  table := .single { minutelyJob 1 with schedule := "@once" }
  now := 0
  nodes _ := {}

/-- The node `b` selects the job.  Then `a` schedules, claims and finishes it. -/
def selectedBefore : List Event :=
  [.node "b" .connect, .node "b" (.setStateEnabled true), .node "b" .schedulerTimer,
    .node "b" (.resume 0), .node "a" .connect, .node "a" (.setStateEnabled true),
    .node "a" .schedulerTimer, .node "a" (.resume 0), .node "a" (.resume 0),
    .node "a" (.resume 0), .node "a" .claimTimer, .node "a" (.resume 0), .node "a" (.resume 0),
    .node "a" (.resume 0)]

/-- What `b` has calculated is refused; then `a` schedules the job once more, which is the end. -/
def scheduledAfter : List Event :=
  [.node "b" (.resume 0), .node "b" (.resume 0), .node "a" (.resume 0), .node "a" .schedulerTimer,
    .node "a" (.resume 0), .node "a" (.resume 0), .node "a" (.resume 0)]

/-- What a node does is not the change of a client. -/
lemma unedited_node (cl : Cluster) (j : ℕ) (s : State) (n : String) (ev : NodeEvent) :
    Unedited cl j s (.node n ev) := by
  refine ⟨by simp, ?_⟩
  by_contra hedit
  obtain ⟨st, _, hst, hkind, _, _⟩ := effective_iff.mp (Bool.eq_true_of_not_eq_false hedit)
  obtain ⟨_, _, hev, _⟩ | ⟨_, _, _, hexec⟩ := statement_cases hst
  · exact absurd hev (by simp)
  · cases hexec with
    | makeRandomDelay _ _ _ _ =>
        exact absurd hkind (by simp [Statement.isEditJob, CronNode.delayStatement])
    | _ => exact absurd hkind (by simp [Statement.isEditJob])

theorem once_never_again_scheduledAfter : ∃ m m' t,
    final (step smallCluster) onceJob selectedBefore = some m ∧
      step smallCluster m (.node "a" (.complete 0)) = some m' ∧
      final (step smallCluster) m' scheduledAfter = some t ∧
      ∀ p ∈ traceOf (step smallCluster) m' scheduledAfter, ∀ now r,
        checkPending p.1.table now = some r → r.id ≠ 1 := by
  have hview : ((final (step smallCluster) onceJob selectedBefore).bind fun m =>
      (step smallCluster m (.node "a" (.complete 0))).map fun m' =>
        (effective smallCluster 1 Statement.isFinishJob (m, .node "a" (.complete 0)),
          (final (step smallCluster) m' scheduledAfter).isSome)) = some (true, true) := by
    decide +kernel
  obtain ⟨m, hm, hview⟩ := Option.bind_eq_some_iff.mp hview
  obtain ⟨m', hm', hview⟩ := Option.map_eq_some_iff.mp hview
  obtain ⟨hfinish, hsome⟩ := Prod.mk.inj hview
  obtain ⟨t, ht⟩ := Option.isSome_iff_exists.mp hsome
  have hbefore := Run.of_final hm
  have hafter := Run.of_final ht
  have hnodes : ∀ e ∈ selectedBefore ++ scheduledAfter, ∃ n ev, e = .node n ev := by
    simp [selectedBefore, scheduledAfter]
  refine ⟨m, m', t, hm, hm', ht, once_never_again smallCluster 1
    (hbefore.append (.cons hm' hafter)) (fun _ => rfl) rfl rfl rfl (fun p hp => ?_) hfinish⟩
  have hnode : ∃ n ev, p.2 = .node n ev := by
    rcases List.mem_append.mp hp with hp | hp
    · exact hnodes _ (List.mem_append_left _ (Run.event_mem_of_traceOf hp))
    · rcases List.mem_cons.mp hp with rfl | hp
      · exact ⟨"a", .complete 0, rfl⟩
      · exact hnodes _ (List.mem_append_right _ (Run.event_mem_of_traceOf hp))
  obtain ⟨n, ev, hev⟩ := hnode
  rw [hev]
  exact unedited_node smallCluster 1 p.1 n ev

/-- The same without `b`. -/
def aloneOnce : List Event :=
  (selectedBefore ++ .node "a" (.complete 0) :: scheduledAfter).filter (OnlyNode "a")

theorem once_claimed_once_alone :
    (traceOf (step smallCluster) onceJob aloneOnce).countP
        (effective smallCluster 1 Statement.isClaimJob) = 1 ∧
      (traceOf (step smallCluster) onceJob aloneOnce).countP
        (effective smallCluster 1 Statement.isClaimJob) ≤ 1 := by
  have hsome : (final (step smallCluster) onceJob aloneOnce).isSome = true := by decide +kernel
  obtain ⟨t, ht⟩ := Option.isSome_iff_exists.mp hsome
  have hrun := Run.of_final ht
  exact ⟨by decide +kernel, once_claimed_once smallCluster 1 hrun (fun _ => rfl) rfl rfl rfl
    (by decide +kernel)
    (noFinishBeforeClaim_of_onlyNode (a := "a") hrun (fun _ _ => rfl) (by decide +kernel))⟩

end Workshop.Cron

import Workshop.Cron.System

/-!
# A scheduling pass, step by step

`calculateNextRun` is the scheduling pass as one function on the table; in the cluster a node takes
one statement at a time, and others may act in between.  When nobody does, the two agree:
`calculateNextRun_run` gives a run of the node alone that ends with the table of the function, idle
unless the function hangs, and then in front of the `next_run` that is never calculated.
-/

namespace Workshop.Cron

open Workshop.Lib

variable {cl : Cluster} {s t : State} {n : String}

/-- The node alone takes the state `s` to `t`, within its handler. -/
def Resumes (cl : Cluster) (n : String) (s t : State) : Prop :=
  ∃ tr, Run (step cl) s tr t ∧ t.now = s.now ∧ ∀ p ∈ tr, ∃ draw, p.2 = .node n (.resume draw)

lemma Resumes.refl (s : State) : Resumes cl n s s := ⟨[], .nil s, rfl, by simp⟩

lemma Resumes.trans {u : State} (h : Resumes cl n s t) (h' : Resumes cl n t u) :
    Resumes cl n s u := by
  obtain ⟨tr, hrun, hnow, hown⟩ := h
  obtain ⟨tr', hrun', hnow', hown'⟩ := h'
  refine ⟨tr ++ tr', hrun.append hrun', hnow'.trans hnow, fun p hp => ?_⟩
  rcases List.mem_append.mp hp with hp | hp
  · exact hown p hp
  · exact hown' p hp

/-- One step of the handler. -/
lemma resumes_step {draw : ℕ} {node : CronNode}
    (h : (s.nodes n).resume cl n s.table s.now draw = some node) :
    ∃ t, Resumes cl n s t ∧ (t.nodes n).handler = node.handler ∧
      t.table = s.table.tableAfter
        ((CronNode.handlerStatement n s.now draw (s.nodes n).handler).map fun st =>
          st.update cl.zones) := by
  have hstep : ∃ t, step cl s (.node n (.resume draw)) = some t := by
    simp only [step, CronNode.step, h, Option.map_some]
    exact ⟨_, rfl⟩
  obtain ⟨t, ht⟩ := hstep
  obtain ⟨node', hnode', heq, hnow⟩ := step_self ht
  obtain rfl := Option.some.inj (h.symm.trans hnode')
  refine ⟨t, ⟨[_], .cons ht (.nil t), hnow, by simp⟩, by rw [heq, CronNode.receive_handler], ?_⟩
  obtain ⟨_, habs, _⟩ | ⟨_, habs, _⟩ | htable := step_table ht
  · exact absurd habs (by simp)
  · exact absurd habs (by simp)
  · exact htable

/-! ## One iteration -/

/-- What an iteration leaves behind: the table, and a node that goes on to the next row or hangs. -/
def IterationEnds (n : String) (rest : List ScheduleRow) (result : CronTable × Bool) (t : State) :
    Prop :=
  t.table = result.1 ∧
    if result.2 then (t.nodes n).handler = rowsHandler rest else (t.nodes n).handler.hangs = true

/-- The end of an iteration. -/
lemma writeNextRun_run (cl : Cluster) {row : ScheduleRow} {rest : List ScheduleRow}
    {schedule : CronSchedule} {delay : ℤ}
    (hhandler : (s.nodes n).handler = .update row schedule delay rest) :
    ∃ t, Resumes cl n s t ∧
      IterationEnds n rest (writeNextRun cl.zones schedule row delay s.table) t := by
  unfold writeNextRun
  rcases hnext : nextRunOf schedule row delay with _ | nextRun
  · exact ⟨s, .refl s, rfl, by simp [hhandler, Handler.hangs, hnext]⟩
  · have hresume : (s.nodes n).resume cl n s.table s.now 0 = some ((s.nodes n).advance rest) := by
      simp [CronNode.resume, hhandler, hnext]
    obtain ⟨t, hrun, hrows, htable⟩ := resumes_step hresume
    rw [CronNode.advance_handler] at hrows
    simp only [hhandler, CronNode.handlerStatement, hnext, Option.map_some] at htable
    exact ⟨t, hrun, htable, hrows⟩

lemma scheduleJob_run (cl : Cluster) (draw : ℕ → ℕ) {row : ScheduleRow} {rest : List ScheduleRow}
    (hhandler : (s.nodes n).handler = .schedule row rest) :
    ∃ t, Resumes cl n s t ∧ IterationEnds n rest (scheduleJob cl.zones draw row s.table) t := by
  unfold scheduleJob
  rcases hparse : CronSchedule.parse row.schedule with message | schedule
  · have hresume : (s.nodes n).resume cl n s.table s.now 0 = some ((s.nodes n).advance rest) := by
      simp [CronNode.resume, hhandler, hparse]
    obtain ⟨t, hrun, hrows, htable⟩ := resumes_step hresume
    rw [CronNode.advance_handler] at hrows
    simp only [hhandler, CronNode.handlerStatement, hparse] at htable
    exact ⟨t, hrun, htable, hrows⟩
  · by_cases hneeds : needsDelay row schedule = true
    · let st := CronNode.delayStatement (draw row.id) row schedule
      have hst : CronNode.handlerStatement n s.now (draw row.id) (s.nodes n).handler = some st := by
        simp [CronNode.handlerStatement, hhandler, hparse, hneeds, st]
      simp only [hneeds, if_true]
      by_cases haff : s.table.affected (st.update cl.zones) = 0
      · -- the row was changed since it was read
        have hresume : (s.nodes n).resume cl n s.table s.now (draw row.id) =
            some ((s.nodes n).advance rest) := by
          simp only [CronNode.resume, hhandler, hparse, hneeds, if_true]
          exact if_pos haff
        obtain ⟨t, hrun, hrows, htable⟩ := resumes_step hresume
        rw [CronNode.advance_handler] at hrows
        rw [hst] at htable
        have htable : t.table = s.table := htable.trans (Table.exec_of_affected haff)
        refine ⟨t, hrun, ?_⟩
        rw [if_pos (show s.table.affected (makeRandomDelay _ _ _ _) = 0 from haff)]
        exact ⟨htable, hrows⟩
      · have hresume : (s.nodes n).resume cl n s.table s.now (draw row.id) =
            some { s.nodes n with
              handler := .update row schedule
                (randomSeconds schedule.delayRange (draw row.id)) rest } := by
          simp only [CronNode.resume, hhandler, hparse, hneeds, if_true]
          exact if_neg haff
        obtain ⟨u, hrun, hupdate, htable⟩ := resumes_step hresume
        rw [hst] at htable
        have htable : u.table = s.table.exec (st.update cl.zones) := htable
        obtain ⟨t, hrun', hends⟩ := writeNextRun_run cl hupdate
        rw [htable] at hends
        refine ⟨t, hrun.trans hrun', ?_⟩
        rw [if_neg (show ¬ s.table.affected (makeRandomDelay _ _ _ _) = 0 from haff)]
        exact hends
    · simp only [hneeds, Bool.false_eq_true, if_false]
      have hresume : (s.nodes n).resume cl n s.table s.now 0 =
          some { s.nodes n with handler := .update row schedule (row.delay.getD 0) rest } := by
        simp [CronNode.resume, hhandler, hparse, hneeds]
      obtain ⟨u, hrun, hupdate, htable⟩ := resumes_step hresume
      simp only [hhandler, CronNode.handlerStatement, hparse, hneeds, Bool.false_eq_true, if_false]
        at htable
      have htable : u.table = s.table := htable
      obtain ⟨t, hrun', hends⟩ := writeNextRun_run cl hupdate
      rw [htable] at hends
      exact ⟨t, hrun.trans hrun', hends⟩

/-! ## The pass -/

/-- What a pass leaves behind: the table, and a node that is idle or hangs. -/
def PassEnds (n : String) (result : CronTable × PassStatus) (t : State) : Prop :=
  t.table = result.1 ∧
    if result.2 = .hanging then (t.nodes n).handler.hangs = true else (t.nodes n).handler = .idle

lemma scheduleRows_run (cl : Cluster) (draw : ℕ → ℕ) (rows : List ScheduleRow)
    (hhandler : (s.nodes n).handler = rowsHandler rows) :
    ∃ t, Resumes cl n s t ∧ PassEnds n (scheduleRows cl.zones draw rows s.table) t := by
  induction rows generalizing s with
  | nil => exact ⟨s, .refl s, rfl, hhandler⟩
  | cons row rest ih =>
      obtain ⟨u, hrun, htable, hends⟩ := scheduleJob_run cl draw hhandler
      unfold scheduleRows
      split
      · rename_i t' hjob
        rw [hjob] at htable hends
        obtain ⟨t, hrun', hpass⟩ := ih hends
        have htable : u.table = t' := htable
        rw [htable] at hpass
        exact ⟨t, hrun.trans hrun', hpass⟩
      · rename_i t' hjob
        rw [hjob] at htable hends
        exact ⟨u, hrun, htable, hends⟩

/-- **A node that is left alone executes `CalculateNextRun`.** -/
theorem calculateNextRun_run (cl : Cluster) (draw : ℕ → ℕ)
    (hselect : (s.nodes n).handler = .select) :
    ∃ t, Resumes cl n s t ∧ PassEnds n (calculateNextRun cl.zones draw s.table s.now) t := by
  unfold calculateNextRun
  rcases hrows : selectJobsForScheduling cl.zones s.table s.now with _ | rows
  · have hresume : (s.nodes n).resume cl n s.table s.now 0 =
        some { s.nodes n with handler := .idle } := by
      simp [CronNode.resume, hselect, hrows]
    obtain ⟨t, hrun, hidle, htable⟩ := resumes_step hresume
    simp only [hselect, CronNode.handlerStatement] at htable
    exact ⟨t, hrun, htable, hidle⟩
  · have hresume : (s.nodes n).resume cl n s.table s.now 0 =
        some { s.nodes n with handler := rowsHandler rows } := by
      cases rows <;> simp [CronNode.resume, hselect, hrows, rowsHandler]
    obtain ⟨u, hrun, hhandler, htable⟩ := resumes_step hresume
    simp only [hselect, CronNode.handlerStatement] at htable
    have htable : u.table = s.table := htable
    obtain ⟨t, hrun', hpass⟩ := scheduleRows_run cl draw rows hhandler
    rw [htable] at hpass
    exact ⟨t, hrun.trans hrun', hpass⟩

end Workshop.Cron

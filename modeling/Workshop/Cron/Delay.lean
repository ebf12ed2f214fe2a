import Workshop.Cron.Slots

/-!
# The random delay

`CalculateNextRun` rolls a random delay, writes it with `make_random_delay`, and adds it to the
next time of the schedule, which it writes with `update_next_run`.  The next pass subtracts the
delay from `last_run` again, to get back to the time of the schedule.  So `next_run` minus the
delay has to be a time of the schedule, later than `last_run` minus the delay.

`make_random_delay` does not check that the row has no delay yet: two nodes that have selected the
same new job both roll one, and the second may come between the two statements of the first
(`delay_not_consistent`).  As long as no delay is overwritten, the delay a node has in hand is the
one in the row (`Paced`), and with that `next_run` is consistent in every state, and a slot that
was executed is never scheduled again (`next_run_consistent`).

All this is in the local time of the job.  A local time that does not exist, because the clocks
go forward, is moved by PostgreSQL; so no such time may be written (`NoGapHit`).  For a schedule
whose local times all exist, none is (`noGapHit_of_noGapFor`).
-/

namespace Workshop.Cron

open Workshop.Lib

variable {cl : Cluster} {j : ℕ} {s t : State} {e : Event}

/-! ## The property -/

/-- The slot of a scheduled row: `next_run` minus the delay, in local time. -/
def slotOf (z : Zone) (r : CronRow) : Option ℤ :=
  match r.nextRun, r.delay with
  | some (.finite u), some d => some (z.toLocal u - d * second)
  | _, _ => none

/-- A finite `next_run` minus the delay is a time of the schedule, and later than `last_run` minus
the delay. -/
def Consistent (zones : String → Option Zone) (r : CronRow) : Prop :=
  ∀ u, r.nextRun = some (.finite u) →
    ∃ z schedule d, timeZone zones r.tz = some z ∧ CronSchedule.parse r.schedule = .ok schedule ∧
      r.delay = some d ∧ schedule.Matches (z.toLocal u - d * second) ∧
      ∀ l, r.lastRun = some l → z.toLocal l - d * second < z.toLocal u - d * second

/-! ## The conditions -/

/-- The client neither deletes the job nor changes its schedule or its time zone. -/
def KeepsSchedule (j : ℕ) : Event → Prop
  | .edit id e => id = j → e.schedule = none ∧ e.tz = none
  | .delete id => id ≠ j
  | _ => True

/-- If the step is a `make_random_delay` that takes effect on the job `j`, the row has no delay
yet. -/
def NoOverwrite (cl : Cluster) (j : ℕ) (s : State) (e : Event) : Prop :=
  effective cl j Statement.isMakeRandomDelay (s, e) = true →
    ∀ r ∈ s.table.find? j, r.delay = none

/-- The local time that an `update_next_run` writes. -/
def Statement.localNextRun : Statement → Option ℤ
  | .updateNextRun _ _ _ (.finite v) => some v
  | _ => none

/-- If the step is an `update_next_run` that takes effect on the job `j`, the local time it writes
does not fall into a gap of the zone of the job. -/
def NoGapHit (cl : Cluster) (j : ℕ) (s : State) (e : Event) : Prop :=
  effective cl j Statement.isUpdateNextRun (s, e) = true →
    ∀ v ∈ (e.statement s).bind Statement.localNextRun, ∀ r ∈ s.table.find? j,
      ∀ z ∈ timeZone cl.zones r.tz, z.toLocal (z.ofLocal v) = v

instance (j : ℕ) : (e : Event) → Decidable (KeepsSchedule j e)
  | .edit _ _ => inferInstanceAs (Decidable (_ → _ ∧ _))
  | .delete _ => inferInstanceAs (Decidable (_ ≠ _))
  | .tick _ | .insert _ | .node _ _ => inferInstanceAs (Decidable True)

instance : Decidable (NoOverwrite cl j s e) := inferInstanceAs (Decidable (_ → _))

instance : Decidable (NoGapHit cl j s e) := inferInstanceAs (Decidable (_ → _))

/-- What `RandomSeconds` can return. -/
def DelayIn (range d : ℤ) : Prop := d = 0 ∨ (0 < d ∧ d < range)

lemma randomSeconds_delayIn (range : ℤ) (draw : ℕ) : DelayIn range (randomSeconds range draw) := by
  unfold randomSeconds DelayIn
  split
  · exact .inl rfl
  · have hnonneg := Int.emod_nonneg (draw : ℤ) (b := range) (by omega)
    have hlt := Int.emod_lt_of_pos (draw : ℤ) (b := range) (by omega)
    omega

/-- No local time at which the job can be due falls into a gap of the zone.  A "once" job is due
at the time it is scheduled. -/
def NoGap (z : Zone) (schedule : CronSchedule) : Prop :=
  ∀ slot d, schedule.Matches slot → (schedule.isOnce = true → ∃ u, slot = z.toLocal u) →
    DelayIn schedule.delayRange d →
    z.toLocal (z.ofLocal (slot + d * second)) = slot + d * second

/-- No local time of the row's schedule falls into a gap of its zone. -/
def NoGapFor (zones : String → Option Zone) (r : CronRow) : Prop :=
  ∀ z schedule, timeZone zones r.tz = some z → CronSchedule.parse r.schedule = .ok schedule →
    NoGap z schedule

/-! ## The invariant -/

/-- The rows a node has selected and not finished. -/
def Handler.holds : Handler → List ScheduleRow
  | .schedule row rest => row :: rest
  | .update row _ _ rest => row :: rest
  | _ => []

/-- What holds of the row. -/
structure RowPaced (zones : String → Option Zone) (r : CronRow) : Prop where
  delayIn : ∀ d, r.delay = some d → ∃ schedule, CronSchedule.parse r.schedule = .ok schedule ∧
    r.delayRange = some schedule.delayRange ∧ DelayIn schedule.delayRange d
  unused : r.delay = none → r.nextRun = none ∧ r.lastRun = none ∧ r.nodeName = none
  consistent : Consistent zones r
  /-- `next_run` is the image of its own local time. -/
  ofLocal : ∀ u z, r.nextRun = some (.finite u) → timeZone zones r.tz = some z →
    z.ofLocal (z.toLocal u) = u

/-- What holds of a selected row `x`, while the row of the job is `r`. -/
structure Held (zones : String → Option Zone) (r : CronRow) (x : ScheduleRow) : Prop where
  schedule : x.schedule = r.schedule
  now : ∃ z u, timeZone zones r.tz = some z ∧ x.now = z.toLocal u
  delay : ∀ d, x.delay = some d → r.delay = some d ∧ x.delayRange = r.delayRange
  lastRun : x.delay = none → x.lastRun = none

/-- What holds of a selected row with its delay in hand. -/
def InHand (r : CronRow) (x : ScheduleRow) (schedule : CronSchedule) (d : ℤ) : Prop :=
  CronSchedule.parse r.schedule = .ok schedule ∧ r.delay = some d ∧
    (x.delay = some d ∨ x.lastRun = none)

/-- What holds of a node, while the row of the job `j` is `r`. -/
structure NodePaced (zones : String → Option Zone) (j : ℕ) (r : CronRow) (node : CronNode) :
    Prop where
  held : ∀ x ∈ node.handler.holds, x.id = j → Held zones r x
  inHand : ∀ x schedule d rest, node.handler = .update x schedule d rest → x.id = j →
    InHand r x schedule d
  claim : r.delay = none → ∀ job, node.handler = .claim job → job.id ≠ j

/-- The invariant. -/
def Paced (zones : String → Option Zone) (j : ℕ) (s : State) : Prop :=
  ∃ r, s.table.find? j = some r ∧ RowPaced zones r ∧ ∀ n, NodePaced zones j r (s.nodes n)

/-! ## What a step does to the row -/

/-- The row keeps its schedule, its zone, and the delay it has. -/
structure KeepsDelay (r r' : CronRow) : Prop where
  schedule : r'.schedule = r.schedule
  tz : r'.tz = r.tz
  delay : ∀ d, r.delay = some d → r'.delay = some d ∧ r'.delayRange = r.delayRange

lemma KeepsDelay.refl (r : CronRow) : KeepsDelay r r := ⟨rfl, rfl, fun _ h => ⟨h, rfl⟩⟩

lemma keepsDelay_rowAfter {r : CronRow} (hkeep : KeepsSchedule j e) (hover : NoOverwrite cl j s e)
    (hr : s.table.find? j = some r) : KeepsDelay r (rowAfter cl s e r) := by
  obtain heq | ⟨st, hst, hcond, heq⟩ := rowAfter_cases cl s e r
  · rw [heq]
    exact .refl r
  · rw [heq]
    cases st with
    | makeRandomDelay id schedule delay range =>
        have hnone : r.delay = none :=
          hover (effective_iff.mpr ⟨_, r, hst, rfl, hr, hcond⟩) r hr
        exact ⟨rfl, rfl, fun d hd => by rw [hnone] at hd; exact absurd hd (by simp)⟩
    | updateNextRun id schedule lastRun nextRun =>
        obtain ⟨z, hz, _⟩ := updateNextRun_cond.mp hcond
        rw [Statement.update, updateNextRun_set hz]
        exact ⟨rfl, rfl, fun d hd => ⟨hd, rfl⟩⟩
    | editJob id ed =>
        have hid : id = j := by
          simp only [Statement.update, editJob, beq_iff_eq] at hcond
          exact hcond.symm.trans (Table.key_of_find? hr)
        obtain rfl := edit_of_statement hst
        obtain ⟨hsched, htz⟩ := hkeep hid
        refine ⟨?_, ?_, fun d hd => ⟨hd, rfl⟩⟩
        · simp [Statement.update, editJob, hsched]
        · simp [Statement.update, editJob, htz]
    | releaseStale | expireJobs | claimJob | finishJob =>
        exact ⟨rfl, rfl, fun d hd => ⟨hd, rfl⟩⟩

lemma KeepsSchedule.ne_delete (hkeep : KeepsSchedule j e) : e ≠ .delete j := by
  rintro rfl
  exact hkeep rfl

lemma KeepsDelay.noGapFor {zones : String → Option Zone} {r r' : CronRow} (h : KeepsDelay r r')
    (hgap : NoGapFor zones r) : NoGapFor zones r' := by
  intro z schedule hz hparse
  rw [h.tz] at hz
  rw [h.schedule] at hparse
  exact hgap z schedule hz hparse

/-- **`update_next_run` with the delay of the row in hand leaves the row consistent.** -/
lemma consistent_update {zones : String → Option Zone} {r : CronRow} {x : ScheduleRow}
    {schedule : CronSchedule} {d : ℤ} {nextRun : Timestamp}
    (hgap : ∀ z ∈ timeZone zones r.tz, ∀ v, nextRun = .finite v → z.toLocal (z.ofLocal v) = v)
    (hrow : RowPaced zones r) (hhand : InHand r x schedule d)
    (hnext : nextRunOf schedule x d = some nextRun)
    (hcond : (updateNextRun zones x.id x.schedule x.lastRun nextRun).cond r = true) :
    RowPaced zones ((updateNextRun zones x.id x.schedule x.lastRun nextRun).set r) := by
  obtain ⟨z, hz, _, _, hlast, _, _⟩ := updateNextRun_cond.mp hcond
  obtain ⟨hparse, hdelay, hsame⟩ := hhand
  have hwalk : schedule.Walkable := CronSchedule.parse_walkable hparse
  rw [updateNextRun_set hz]
  -- the value written, for a finite time of the schedule
  have hslot : ∀ u, z.ofLocalTimestamp nextRun = .finite u →
      ∃ slot, schedule.next (lastSlot x) x.now = some (.finite slot) ∧
        u = z.ofLocal (slot + d * second) ∧ z.toLocal u = slot + d * second := by
    intro u hu
    obtain ⟨ts, hts, rfl⟩ := Option.map_eq_some_iff.mp hnext
    rcases ts with slot | _
    · obtain rfl : z.ofLocal (slot + d * second) = u := Timestamp.finite.inj hu
      exact ⟨slot, hts, rfl, hgap z hz _ rfl⟩
    · exact absurd hu (by simp [Zone.ofLocalTimestamp, Timestamp.add])
  refine ⟨hrow.delayIn, fun hnone => absurd (hnone.symm.trans hdelay) (by simp), ?_, ?_⟩
  · intro u hu
    obtain ⟨slot, hslotnext, _, hlocal⟩ := hslot u (Option.some.inj hu)
    have hsub : z.toLocal u - d * second = slot := by rw [hlocal]; omega
    refine ⟨z, schedule, d, hz, hparse, hdelay, ?_, ?_⟩
    · rw [hsub]
      exact CronSchedule.next_matches hwalk hslotnext
    · intro l hl
      rw [hsub]
      -- the guard on `last_run`: the node has subtracted the delay from this very `last_run`
      have hlast' : x.lastRun = some (z.toLocal l) := by
        have hl' : r.lastRun = some l := hl
        simp only [hl', Option.map_some] at hlast
        exact (hlast.resolve_left (by simp)).symm
      have hxd : x.delay = some d := hsame.resolve_right (by simp [hlast'])
      have hls : lastSlot x = some (z.toLocal l - d * second) := by simp [lastSlot, hlast', hxd]
      rw [hls] at hslotnext
      exact CronSchedule.lt_next hwalk hslotnext
  · intro u z' hu hz'
    obtain rfl : z = z' := Option.some.inj (hz.symm.trans hz')
    obtain ⟨slot, _, hu', hlocal⟩ := hslot u (Option.some.inj hu)
    rw [hlocal, hu']

/-- A row that keeps what the delay depends on, and keeps or loses its `next_run`. -/
lemma rowPaced_of_same {zones : String → Option Zone} {r r' : CronRow} (hrow : RowPaced zones r)
    (hschedule : r'.schedule = r.schedule) (htz : r'.tz = r.tz) (hdelay : r'.delay = r.delay)
    (hrange : r'.delayRange = r.delayRange)
    (hnext : r'.nextRun = none ∨ (r'.nextRun = r.nextRun ∧ r'.lastRun = r.lastRun))
    (hunused : r.delay = none → r'.nextRun = none ∧ r'.lastRun = none ∧ r'.nodeName = none) :
    RowPaced zones r' := by
  refine ⟨?_, by rwa [hdelay], ?_, ?_⟩
  · rw [hdelay, hrange, hschedule]
    exact hrow.delayIn
  · intro u hu
    obtain hnone | ⟨hsame, hlast⟩ := hnext
    · rw [hnone] at hu
      exact absurd hu (by simp)
    · rw [hschedule, htz, hdelay, hlast]
      exact hrow.consistent u (hsame ▸ hu)
  · intro u z hu hz
    obtain hnone | ⟨hsame, _⟩ := hnext
    · rw [hnone] at hu
      exact absurd hu (by simp)
    · exact hrow.ofLocal u z (hsame ▸ hu) (htz ▸ hz)

/-- **The step lemma for the row.** -/
lemma rowPaced_rowAfter {r : CronRow} (hkeep : KeepsSchedule j e) (hover : NoOverwrite cl j s e)
    (hgap : NoGapHit cl j s e) (hr : s.table.find? j = some r) (hrow : RowPaced cl.zones r)
    (hnodes : ∀ n, NodePaced cl.zones j r (s.nodes n)) : RowPaced cl.zones (rowAfter cl s e r) := by
  have hkd : KeepsDelay r (rowAfter cl s e r) := keepsDelay_rowAfter hkeep hover hr
  have hid : r.id = j := Table.key_of_find? hr
  obtain heq | ⟨st, hst, hcond, heq⟩ := rowAfter_cases cl s e r
  · rw [heq]
    exact hrow
  · rw [heq] at hkd ⊢
    obtain ⟨id, ed, rfl, rfl⟩ | ⟨n, ev, rfl, hexec⟩ := statement_cases hst
    · refine rowPaced_of_same hrow hkd.schedule hkd.tz rfl rfl ?_ ?_
      · by_cases hclear : ed.clearNextRun = true
        · exact .inl (by simp [Statement.update, editJob, hclear])
        · exact .inr ⟨by simp [Statement.update, editJob, hclear], rfl⟩
      · intro hnone
        obtain ⟨hnext, hlast, hnode⟩ := hrow.unused hnone
        exact ⟨by simp [Statement.update, editJob, hnext], hlast, hnode⟩
    · cases hexec with
      | releaseStale | expireJobs =>
          refine rowPaced_of_same hrow rfl rfl rfl rfl (.inl rfl) fun hnone => ?_
          exact ⟨rfl, (hrow.unused hnone).2.1, rfl⟩
      | @makeRandomDelay _ draw row rest schedule _ hhandler hparse _ =>
          obtain ⟨hrowid, hsched, _, hnext⟩ := makeRandomDelay_cond.mp hcond
          refine ⟨?_, fun h => absurd h (by simp [Statement.update, CronNode.delayStatement,
            makeRandomDelay]), ?_, ?_⟩
          · intro d hd
            obtain rfl := Option.some.inj hd
            refine ⟨schedule, ?_, rfl, randomSeconds_delayIn _ _⟩
            have hsame : r.schedule = row.schedule := hsched
            exact hsame ▸ hparse
          · intro u hu
            exact absurd (hnext.symm.trans hu) (by simp)
          · intro u z hu
            exact absurd (hnext.symm.trans hu) (by simp)
      | @updateNextRun _ draw row rest schedule delay nextRun _ hhandler hnext =>
          obtain ⟨_, _, hrowid, _⟩ := updateNextRun_cond.mp hcond
          have hj : row.id = j := hrowid.symm.trans hid
          have hexists : ∀ z ∈ timeZone cl.zones r.tz, ∀ v, nextRun = .finite v →
              z.toLocal (z.ofLocal v) = v := by
            rintro z hz v rfl
            refine hgap (effective_iff.mpr ⟨_, r, hst, rfl, hr, hcond⟩) v ?_ r hr z hz
            rw [hst]
            rfl
          exact consistent_update hexists hrow ((hnodes n).inHand _ _ _ _ hhandler hj) hnext hcond
      | @claimJob _ draw job _ hhandler =>
          obtain ⟨hrid, _⟩ := claimJob_cond.mp hcond
          refine rowPaced_of_same hrow rfl rfl rfl rfl (.inr ⟨rfl, rfl⟩) fun hnone => ?_
          exact absurd (hrid.symm.trans hid) ((hnodes n).claim hnone job hhandler)
      | finishJob _ _ =>
          obtain ⟨_, hname⟩ := finishJob_cond.mp hcond
          refine rowPaced_of_same hrow rfl rfl rfl rfl (.inl rfl) fun hnone => ?_
          exact absurd (hname.symm.trans (hrow.unused hnone).2.2) (by simp)

/-! ## What a step does to the nodes -/

lemma KeepsDelay.held {zones : String → Option Zone} {r r' : CronRow} {x : ScheduleRow}
    (h : KeepsDelay r r') (hheld : Held zones r x) : Held zones r' x := by
  refine ⟨hheld.schedule.trans h.schedule.symm, ?_, ?_, hheld.lastRun⟩
  · rw [h.tz]
    exact hheld.now
  · intro d hd
    obtain ⟨hdelay, hrange⟩ := hheld.delay d hd
    obtain ⟨hdelay', hrange'⟩ := h.delay d hdelay
    exact ⟨hdelay', hrange.trans hrange'.symm⟩

lemma KeepsDelay.inHand {r r' : CronRow} {x : ScheduleRow} {schedule : CronSchedule} {d : ℤ}
    (h : KeepsDelay r r') (hhand : InHand r x schedule d) : InHand r' x schedule d := by
  obtain ⟨hparse, hdelay, hsame⟩ := hhand
  exact ⟨h.schedule ▸ hparse, (h.delay d hdelay).1, hsame⟩

lemma KeepsDelay.delay_none {r r' : CronRow} (h : KeepsDelay r r') (hnone : r'.delay = none) :
    r.delay = none := by
  by_contra hsome
  obtain ⟨d, hd⟩ := Option.ne_none_iff_exists'.mp hsome
  rw [(h.delay d hd).1] at hnone
  exact absurd hnone (by simp)

lemma CronNode.continueClaim_holds (node : CronNode) : node.continueClaim.handler.holds = [] := by
  obtain hfind | hidle := node.continueClaim_handler
  · rw [hfind]
    rfl
  · rw [hidle]
    rfl

lemma holds_of_rowsHandler {handler : Handler} {row x : ScheduleRow} {rest : List ScheduleRow}
    (hhandler : handler = .schedule row rest ∨
      ∃ schedule delay, handler = .update row schedule delay rest)
    (hx : x ∈ (rowsHandler rest).holds) : x ∈ handler.holds := by
  obtain hnone | ⟨_, _, rfl, hnext⟩ := rowsHandler_cases rest
  · rw [hnone] at hx
    exact absurd hx List.not_mem_nil
  · rw [hnext] at hx
    obtain rfl | ⟨_, _, rfl⟩ := hhandler <;> exact List.mem_cons_of_mem _ hx

/-- The rows a node holds after a step, it held before or has just selected. -/
lemma holds_of_step (h : step cl s e = some t) {n : String} {x : ScheduleRow}
    (hx : x ∈ (t.nodes n).handler.holds) :
    x ∈ (s.nodes n).handler.holds ∨
      (e.statement s = none ∧ ∃ a ∈ s.table.rows, scheduleRow cl.zones s.now a = some x) := by
  obtain ⟨ev, node, rfl, hnode, heq⟩ | heq := step_node_cases h n
  · rw [heq, CronNode.receive_handler] at hx
    obtain ⟨draw, rfl, hmoves⟩ | ⟨row, rest, hhandler, hrest⟩ | hidle := CronNode.step_handler hnode
    · cases hmoves with
      | @selected row rest hhandler hsel =>
          obtain ⟨a, ha, hax⟩ := mem_of_mapM_eq_some hsel hx
          refine .inr ⟨?_, a, (List.mem_filter.mp (List.mem_of_mem_take ha)).1, hax⟩
          simp [Event.statement, CronNode.statement, CronNode.handlerStatement, hhandler]
      | @advanced row rest hhandler =>
          rw [CronNode.advance_handler] at hx
          exact .inl (holds_of_rowsHandler hhandler hx)
      | delayed hhandler _ _ =>
          rw [hhandler]
          exact .inl hx
      | lostRace _ _ | claimed _ _ =>
          rw [CronNode.continueClaim_holds] at hx
          exact absurd hx (by simp)
      | _ => exact absurd hx (by simp [CronNode.scheduleClaim, Handler.holds])
    · rw [hrest] at hx
      exact .inl (holds_of_rowsHandler hhandler hx)
    · obtain hidle | hidle | hidle := hidle <;> rw [hidle] at hx <;>
        exact absurd hx (by simp [Handler.holds])
  · rw [heq, CronNode.receive_handler] at hx
    exact .inl hx

/-- A node has a delay in hand because it had it before, because it has just written it, or
because the row it has selected has it. -/
lemma update_of_step (h : step cl s e = some t) {n : String} {x : ScheduleRow}
    {schedule : CronSchedule} {d : ℤ} {rest : List ScheduleRow}
    (hx : (t.nodes n).handler = .update x schedule d rest) :
    (s.nodes n).handler = .update x schedule d rest ∨
      ((s.nodes n).handler = .schedule x rest ∧ CronSchedule.parse x.schedule = .ok schedule ∧
        ((needsDelay x schedule = true ∧ ∃ draw, d = randomSeconds schedule.delayRange draw ∧
            e.statement s = some (CronNode.delayStatement draw x schedule) ∧
            0 < s.table.affected ((CronNode.delayStatement draw x schedule).update cl.zones)) ∨
          (needsDelay x schedule = false ∧ d = x.delay.getD 0 ∧ e.statement s = none))) := by
  obtain ⟨ev, node, rfl, hnode, heq⟩ | heq := step_node_cases h n
  · rw [heq, CronNode.receive_handler] at hx
    obtain ⟨draw, rfl, hmoves⟩ | ⟨row, rest, hhandler, hrest⟩ | hidle := CronNode.step_handler hnode
    · cases hmoves with
      | @delayed row rest' schedule' delay hhandler hparse hdelay =>
          obtain ⟨rfl, rfl, rfl, rfl⟩ := Handler.update.inj hx
          refine .inr ⟨hhandler, hparse, ?_⟩
          obtain ⟨hneeds, hd, haff⟩ | ⟨hneeds, hd⟩ := hdelay
          · refine .inl ⟨hneeds, draw, hd, ?_, haff⟩
            simp [Event.statement, CronNode.statement, CronNode.handlerStatement, hhandler, hparse,
              hneeds]
          · refine .inr ⟨hneeds, hd, ?_⟩
            simp [Event.statement, CronNode.statement, CronNode.handlerStatement, hhandler, hparse,
              hneeds]
      | @advanced _ rest' _ =>
          rw [CronNode.advance_handler] at hx
          cases rest' <;> exact absurd hx (by simp [rowsHandler])
      | lostRace _ _ | claimed _ _ =>
          obtain hfind | hidle := CronNode.continueClaim_handler _
          · exact absurd (hfind.symm.trans hx) (by simp)
          · exact absurd (hidle.symm.trans hx) (by simp)
      | _ => exact absurd hx (by simp [CronNode.scheduleClaim])
    · rw [hrest] at hx
      obtain hnone | ⟨_, _, _, hnext⟩ := rowsHandler_cases rest
      · exact absurd (hnone.symm.trans hx) (by simp)
      · exact absurd (hnext.symm.trans hx) (by simp)
    · rw [hx] at hidle
      exact absurd hidle (by simp)
  · rw [heq, CronNode.receive_handler] at hx
    exact .inl hx

lemma held_of_select {zones : String → Option Zone} {now : ℤ} {r : CronRow} {x : ScheduleRow}
    (hrow : RowPaced zones r) (hx : scheduleRow zones now r = some x) : Held zones r x := by
  obtain ⟨z, hz, rfl⟩ := scheduleRow_eq_some.mp hx
  refine ⟨rfl, ⟨z, now, hz, rfl⟩, fun d hd => ⟨hd, rfl⟩, fun hnone => ?_⟩
  simp [(hrow.unused hnone).2.1]

/-- **The step lemma for a node.** -/
lemma nodePaced_step (h : step cl s e = some t) {r : CronRow} (hkeep : KeepsSchedule j e)
    (hover : NoOverwrite cl j s e) (hr : s.table.find? j = some r) (hrow : RowPaced cl.zones r)
    (hnodes : ∀ n, NodePaced cl.zones j r (s.nodes n)) (n : String) :
    NodePaced cl.zones j (rowAfter cl s e r) (t.nodes n) := by
  have hkd : KeepsDelay r (rowAfter cl s e r) := keepsDelay_rowAfter hkeep hover hr
  have hid : r.id = j := Table.key_of_find? hr
  refine ⟨?_, ?_, ?_⟩
  · intro x hx hxj
    obtain hx | ⟨_, a, ha, hax⟩ := holds_of_step h hx
    · exact hkd.held ((hnodes n).held x hx hxj)
    · obtain ⟨_, _, hdef⟩ := scheduleRow_eq_some.mp hax
      have haid : a.id = r.id := by
        rw [hdef] at hxj
        exact hxj.trans hid.symm
      obtain rfl : a = r := Table.eq_of_key_eq ha (Table.find?_eq_some.mp hr).1 haid
      exact hkd.held (held_of_select hrow hax)
  · intro x schedule d rest hx hxj
    obtain hx | ⟨hhandler, hparse, hdelay⟩ := update_of_step h hx
    · exact hkd.inHand ((hnodes n).inHand x schedule d rest hx hxj)
    · have hheld : Held cl.zones r x := (hnodes n).held x (by simp [hhandler, Handler.holds]) hxj
      rw [hheld.schedule] at hparse
      obtain ⟨hneeds, draw, rfl, hst, haff⟩ | ⟨hneeds, rfl, _⟩ := hdelay
      · obtain ⟨a, ha, hcond⟩ := Table.affected_pos.mp haff
        have haid : a.id = r.id := (makeRandomDelay_cond.mp hcond).1.trans (hxj.trans hid.symm)
        obtain rfl : a = r := Table.eq_of_key_eq ha (Table.find?_eq_some.mp hr).1 haid
        have hnone : a.delay = none := hover (effective_iff.mpr ⟨_, a, hst, rfl, hr, hcond⟩) a hr
        have hafter : rowAfter cl s e a =
            ((CronNode.delayStatement draw x schedule).update cl.zones).set a :=
          rowAfter_of_statement hst hcond
        -- the row had no delay, so neither has the selected one
        have hxnone : x.delay = none := by
          by_contra hsome
          obtain ⟨d', hd'⟩ := Option.ne_none_iff_exists'.mp hsome
          exact absurd ((hheld.delay d' hd').1.symm.trans hnone) (by simp)
        rw [hafter]
        exact ⟨hparse, rfl, .inr (hheld.lastRun hxnone)⟩
      · simp only [needsDelay, Bool.or_eq_false_iff, Option.isNone_eq_false_iff] at hneeds
        obtain ⟨d', hd'⟩ := Option.isSome_iff_exists.mp hneeds.1
        rw [hd', Option.getD_some]
        exact hkd.inHand ⟨hparse, (hheld.delay d' hd').1, .inl hd'⟩
  · intro hnone job hclaim
    have hnone' := hkd.delay_none hnone
    obtain hclaim | ⟨_, a, rfl, hcheck⟩ := claim_of_step h hclaim
    · exact (hnodes n).claim hnone' job hclaim
    · intro haj
      obtain ⟨ha, hpending⟩ := checkPending_spec hcheck
      obtain ⟨_, _, u, hu, _⟩ := isPending_iff.mp hpending
      obtain rfl : a = r := Table.eq_of_key_eq ha (Table.find?_eq_some.mp hr).1 (haj.trans hid.symm)
      exact absurd (hu.symm.trans (hrow.unused hnone').1) (by simp)

/-- **The step lemma.** -/
lemma paced_step (hP : Paced cl.zones j s) (hkeep : KeepsSchedule j e)
    (hover : NoOverwrite cl j s e) (hgap : NoGapHit cl j s e) (h : step cl s e = some t) :
    Paced cl.zones j t := by
  obtain ⟨r, hr, hrow, hnodes⟩ := hP
  exact ⟨_, step_find? h hr hkeep.ne_delete, rowPaced_rowAfter hkeep hover hgap hr hrow hnodes,
    nodePaced_step h hkeep hover hr hrow hnodes⟩

/-! ## Slots are not used again -/

/-- The slot scheduled for `u` with the delay `d` was claimed: the job still runs, or its last run
is not before `u`. -/
def Used (j : ℕ) (tz : Option String) (u d : ℤ) (s : State) : Prop :=
  ∃ r, s.table.find? j = some r ∧ r.tz = tz ∧ r.delay = some d ∧ u ≤ s.now ∧
    ((r.nodeName ≠ none ∧ r.nextRun = some (.finite u)) ∨ ∃ l, r.lastRun = some l ∧ u ≤ l)

lemma used_of_claim (h : step cl s e = some t) (hund : Undisturbed cl j s e)
    (hclaim : effective cl j Statement.isClaimJob (s, e) = true) {r : CronRow} {u d : ℤ}
    (hr : s.table.find? j = some r) (hnext : r.nextRun = some (.finite u)) (hdue : u ≤ s.now)
    (hdelay : r.delay = some d) : Used j r.tz u d t := by
  obtain ⟨n, _, r', _, _, hr', _, hafter⟩ := claim_of_effective hclaim
  obtain rfl : r = r' := Option.some.inj (hr.symm.trans hr')
  refine ⟨_, step_find? h hr hund.1, ?_⟩
  rw [hafter]
  exact ⟨rfl, hdelay, hdue.trans (now_le_of_step h), .inl ⟨by simp [claimJob], hnext⟩⟩

lemma used_step {tz : Option String} {u d : ℤ} (hU : Used j tz u d s) (hkeep : KeepsSchedule j e)
    (hover : NoOverwrite cl j s e) (hund : Undisturbed cl j s e) (h : step cl s e = some t) :
    Used j tz u d t := by
  obtain ⟨r, hr, htz, hdelay, hdue, hused⟩ := hU
  have hkd : KeepsDelay r (rowAfter cl s e r) := keepsDelay_rowAfter hkeep hover hr
  refine ⟨_, step_find? h hr hund.1, hkd.tz.trans htz, (hkd.delay d hdelay).1,
    hdue.trans (now_le_of_step h), ?_⟩
  obtain ⟨_, hedit, hrelease, hexpire⟩ := hund
  obtain heq | ⟨st, hst, hcond, heq⟩ := rowAfter_cases cl s e r
  · rw [heq]
    exact hused
  · have hkind : ∀ kind : Statement → Bool, kind st = true → effective cl j kind (s, e) = true :=
      fun kind hk => effective_iff.mpr ⟨st, r, hst, hk, hr, hcond⟩
    rw [heq]
    cases st with
    | releaseStale => exact absurd (hkind Statement.isReleaseStale rfl) (by simp [hrelease])
    | expireJobs => exact absurd (hkind Statement.isExpireJobs rfl) (by simp [hexpire])
    | makeRandomDelay => exact hused
    | updateNextRun =>
        obtain ⟨z, hz, _, _, _, _, hnone⟩ := updateNextRun_cond.mp hcond
        rw [Statement.update, updateNextRun_set hz]
        obtain ⟨_, hnext⟩ | hlast := hused
        · exact absurd (hnone.symm.trans hnext) (by simp)
        · exact .inr hlast
    | claimJob =>
        obtain ⟨_, hnext⟩ | hlast := hused
        · exact .inl ⟨by simp [Statement.update, claimJob], hnext⟩
        · exact .inr hlast
    | finishJob id node now =>
        have hnow : now = s.now := by
          obtain ⟨_, _, _, hst'⟩ | ⟨_, _, _, hexec⟩ := statement_cases hst
          · exact absurd hst' (by simp)
          · cases hexec with
            | finishJob _ _ => rfl
        exact .inr ⟨now, rfl, hnow ▸ hdue⟩
    | editJob => exact absurd (hkind Statement.isEditJob rfl) (by simp [hedit])

/-- In an hour that is there twice, `AT TIME ZONE` takes the second one; so a local time is over
once the time it was converted to is. -/
def Zone.TakesLater (z : Zone) : Prop := ∀ v u, z.ofLocal v ≤ u → v ≤ z.toLocal u

/-- A slot that was claimed when it was due is before the slot of every later claim. -/
def SlotsIncrease (cl : Cluster) (j : ℕ) (tr : List (State × Event)) : Prop :=
  ∀ before p mid q after, tr = before ++ p :: (mid ++ q :: after) →
    (∀ x ∈ p :: mid, Undisturbed cl j x.1 x.2) →
    effective cl j Statement.isClaimJob p = true → effective cl j Statement.isClaimJob q = true →
    ∀ r r' z slot slot', p.1.table.find? j = some r → q.1.table.find? j = some r' →
      timeZone cl.zones r'.tz = some z → DueAt p.1.now r →
      slotOf z r = some slot → slotOf z r' = some slot' → slot < slot'

lemma slotOf_eq_some {z : Zone} {r : CronRow} {slot : ℤ} : slotOf z r = some slot ↔
    ∃ u d, r.nextRun = some (.finite u) ∧ r.delay = some d ∧ z.toLocal u - d * second = slot := by
  unfold slotOf
  split
  · rename_i u d hnext hdelay
    simp [hnext, hdelay]
  · rename_i hno
    constructor
    · intro h
      exact absurd h (by simp)
    · rintro ⟨u, d, hnext, hdelay, _⟩
      exact absurd hdelay (hno u d hnext)

/-- The job was not read by the node. -/
def Unread (j : ℕ) (node : CronNode) : Prop :=
  (∀ x ∈ node.handler.holds, x.id ≠ j) ∧ ∀ job, node.handler = .claim job → job.id ≠ j

lemma paced_new {r : CronRow} (hr : s.table.find? j = some r) (hnew : IsNew r)
    (hstart : ∀ n, Unread j (s.nodes n)) : Paced cl.zones j s := by
  obtain ⟨hdelay, _, hlast, hnext, hnode, _⟩ := hnew
  refine ⟨r, hr, ⟨?_, fun _ => ⟨hnext, hlast, hnode⟩, ?_, ?_⟩, fun n => ⟨?_, ?_, ?_⟩⟩
  · intro d hd
    exact absurd (hdelay.symm.trans hd) (by simp)
  · intro u hu
    exact absurd (hnext.symm.trans hu) (by simp)
  · intro u z hu
    exact absurd (hnext.symm.trans hu) (by simp)
  · intro x hx hxj
    exact absurd hxj ((hstart n).1 x hx)
  · intro x schedule d rest hx hxj
    exact absurd hxj ((hstart n).1 x (by simp [hx, Handler.holds]))
  · intro _ job hjob
    exact (hstart n).2 job hjob

/-- Between two claims, the slot was used: so the later one has a later slot. -/
lemma slotsIncrease_of_paced {tr : List (State × Event)} (hrun : Run (step cl) s tr t)
    (hP : ∀ p ∈ tr, Paced cl.zones j p.1)
    (hlater : ∀ tz z, timeZone cl.zones tz = some z → z.TakesLater)
    (hkeep : ∀ p ∈ tr, KeepsSchedule j p.2) (hover : ∀ p ∈ tr, NoOverwrite cl j p.1 p.2) :
    SlotsIncrease cl j tr := by
  rintro before p mid q after rfl hund hp hq r r' z slot slot' hr hr' hz hdue hslot hslot'
  obtain ⟨u, d, hnext, hdelay, rfl⟩ := slotOf_eq_some.mp hslot
  obtain ⟨u', d', hnext', hdelay', rfl⟩ := slotOf_eq_some.mp hslot'
  obtain ⟨v, hv, hvdue⟩ := hdue
  obtain rfl : u = v := Timestamp.finite.inj (Option.some.inj (hnext.symm.trans hv))
  -- the slot of `p` is used from the step `p` on, up to `q`
  have hsplit : before ++ p :: (mid ++ q :: after) = (before ++ p :: mid) ++ q :: after := by simp
  obtain ⟨m, hpre, hrest⟩ := (hsplit ▸ hrun).split
  obtain rfl : m = q.1 := by
    cases hrest
    rfl
  have hused : Used j r.tz u d q.1 := by
    refine (hpre.stable_after (Q := Used j r.tz u d) (C := fun s e => KeepsSchedule j e ∧
      NoOverwrite cl j s e ∧ Undisturbed cl j s e) ?_ ?_ ?_).1
    · exact fun s e t hU hC h => used_step hU hC.1 hC.2.1 hC.2.2 h
    · exact fun t h => used_of_claim h (hund p (by simp)) hp hr hnext hvdue hdelay
    · exact fun x hx => ⟨hkeep x (by simp [hx]), hover x (by simp [hx]), hund x (by simp [hx])⟩
  obtain ⟨r₂, hr₂, htz, hd₂, _, hcase⟩ := hused
  obtain rfl : r' = r₂ := Option.some.inj (hr'.symm.trans hr₂)
  obtain rfl : d' = d := Option.some.inj (hdelay'.symm.trans hd₂)
  obtain ⟨_, _, r₃, _, _, hr₃, hfree, _⟩ := claim_of_effective hq
  obtain rfl : r' = r₃ := Option.some.inj (hr'.symm.trans hr₃)
  obtain ⟨hbusy, _⟩ | ⟨l, hl, hul⟩ := hcase
  · exact absurd hfree hbusy
  · obtain ⟨r₄, hr₄, hpaced, _⟩ := hP q (by simp)
    obtain rfl : r' = r₄ := Option.some.inj (hr'.symm.trans hr₄)
    obtain ⟨z', _, d₄, hz', _, hd₄, _, hlt⟩ := hpaced.consistent u' hnext'
    obtain rfl : z = z' := Option.some.inj (hz.symm.trans hz')
    obtain rfl : d' = d₄ := Option.some.inj (hdelay'.symm.trans hd₄)
    obtain ⟨r₅, hr₅, hpaced₅, _⟩ := hP p (by simp)
    obtain rfl : r = r₅ := Option.some.inj (hr.symm.trans hr₅)
    have himage : z.ofLocal (z.toLocal u) = u := hpaced₅.ofLocal u z hnext (htz ▸ hz)
    have hle : z.toLocal u ≤ z.toLocal l := by
      apply hlater _ z hz
      rw [himage]
      exact hul
    have hlt' := hlt l hl
    omega

/-- **The delay and `next_run` stay consistent**, for any number of nodes in any interleaving, in
every run in which no delay is overwritten and no local time that does not exist is written; and a
slot that was executed when it was due is never used again. -/
theorem next_run_consistent (cl : Cluster) (j : ℕ) {s t : State} {tr : List (State × Event)}
    (hrun : Run (step cl) s tr t) {r : CronRow} (hr : s.table.find? j = some r) (hnew : IsNew r)
    (hstart : ∀ n, Unread j (s.nodes n))
    (hlater : ∀ tz z, timeZone cl.zones tz = some z → z.TakesLater)
    (hkeep : ∀ p ∈ tr, KeepsSchedule j p.2) (hover : ∀ p ∈ tr, NoOverwrite cl j p.1 p.2)
    (hgap : ∀ p ∈ tr, NoGapHit cl j p.1 p.2) :
    (∀ r' ∈ t.table.find? j, Consistent cl.zones r') ∧
      (∀ p ∈ tr, ∀ r' ∈ p.1.table.find? j, Consistent cl.zones r') ∧ SlotsIncrease cl j tr := by
  have hP : Paced cl.zones j s := paced_new hr hnew hstart
  have hconsistent : ∀ s, Paced cl.zones j s → ∀ r' ∈ s.table.find? j, Consistent cl.zones r' := by
    rintro s ⟨a, ha, hpaced, _⟩ r' hr'
    obtain rfl : a = r' := Option.some.inj (ha.symm.trans hr')
    exact hpaced.consistent
  obtain ⟨ht, htr⟩ := hrun.invariant
    (C := fun s e => KeepsSchedule j e ∧ NoOverwrite cl j s e ∧ NoGapHit cl j s e)
    (fun s e t hP hC h => paced_step hP hC.1 hC.2.1 hC.2.2 h) hP
    (fun p hp => ⟨hkeep p hp, hover p hp, hgap p hp⟩)
  exact ⟨hconsistent t ht, fun p hp => hconsistent p.1 (htr p hp),
    slotsIncrease_of_paced hrun htr hlater hkeep hover⟩

/-! ## Schedules whose local times all exist -/

/-- The local time that is written is one of the schedule, with the delay. -/
lemma noGapHit_of_paced (hP : Paced cl.zones j s)
    (hgap : ∀ r ∈ s.table.find? j, NoGapFor cl.zones r) : NoGapHit cl j s e := by
  intro heffective v hv r hr z hz
  obtain ⟨r₀, hr₀, hrow, hnodes⟩ := hP
  obtain rfl : r = r₀ := Option.some.inj (Eq.trans (Eq.symm hr) hr₀)
  obtain ⟨st, r₁, hst, hkind, hr₁, hcond⟩ := effective_iff.mp heffective
  obtain rfl : r = r₁ := Option.some.inj (hr₀.symm.trans hr₁)
  rw [hst] at hv
  obtain ⟨id, ed, rfl, rfl⟩ | ⟨n, ev, rfl, hexec⟩ := statement_cases hst
  · exact absurd hkind (by simp [Statement.isUpdateNextRun])
  cases hexec with
  | @updateNextRun _ draw row rest schedule d nextRun _ hhandler hnext =>
      obtain ⟨_, _, hrowid, _⟩ := updateNextRun_cond.mp hcond
      have hj : row.id = j := hrowid.symm.trans (Table.key_of_find? hr₀)
      have hheld : Held cl.zones r row :=
        (hnodes n).held row (by simp [hhandler, Handler.holds]) hj
      obtain ⟨hparse, hdelay, -⟩ := (hnodes n).inHand _ _ _ _ hhandler hj
      obtain ⟨schedule', hparse', -, hin⟩ := hrow.delayIn d hdelay
      obtain rfl : schedule = schedule' := Except.ok.inj (hparse.symm.trans hparse')
      obtain ⟨ts, hts, rfl⟩ := Option.map_eq_some_iff.mp hnext
      rcases ts with slot | _
      · obtain rfl : slot + d * second = v := Option.some.inj hv
        refine hgap r hr z schedule hz hparse slot d
          (CronSchedule.next_matches (CronSchedule.parse_walkable hparse) hts) ?_ hin
        intro honce
        obtain ⟨z', u, hz', hu⟩ := hheld.now
        obtain rfl : z = z' := Option.some.inj (Eq.trans (Eq.symm hz) hz')
        obtain ⟨_, _, hslot⟩ | ⟨hnot, _⟩ := CronSchedule.next_eq_finite hts
        · exact ⟨u, hslot.trans hu⟩
        · rw [honce] at hnot
          exact absurd hnot (by simp)
      · exact absurd hv (by simp [Timestamp.add, Statement.localNextRun])
  | _ => exact absurd hkind (by simp [Statement.isUpdateNextRun, CronNode.delayStatement])

/-- **For a job whose local times all exist, no other is written.** -/
theorem noGapHit_of_noGapFor {tr : List (State × Event)} (hrun : Run (step cl) s tr t)
    {r : CronRow} (hr : s.table.find? j = some r) (hnew : IsNew r) (hgap : NoGapFor cl.zones r)
    (hstart : ∀ n, Unread j (s.nodes n)) (hkeep : ∀ p ∈ tr, KeepsSchedule j p.2)
    (hover : ∀ p ∈ tr, NoOverwrite cl j p.1 p.2) : ∀ p ∈ tr, NoGapHit cl j p.1 p.2 := by
  have hstep : ∀ s e t, (Paced cl.zones j s ∧ ∀ r ∈ s.table.find? j, NoGapFor cl.zones r) →
      (KeepsSchedule j e ∧ NoOverwrite cl j s e) → step cl s e = some t →
      Paced cl.zones j t ∧ ∀ r ∈ t.table.find? j, NoGapFor cl.zones r := by
    rintro s e t ⟨hP, hgap⟩ ⟨hkeep, hover⟩ h
    refine ⟨paced_step hP hkeep hover (noGapHit_of_paced hP hgap) h, fun r' hr' => ?_⟩
    obtain ⟨r, hr, -⟩ := hP
    obtain rfl : _ = r' := Option.some.inj ((step_find? h hr hkeep.ne_delete).symm.trans hr')
    exact (keepsDelay_rowAfter hkeep hover hr).noGapFor (hgap r hr)
  have hstart' : Paced cl.zones j s ∧ ∀ r ∈ s.table.find? j, NoGapFor cl.zones r := by
    refine ⟨paced_new hr hnew hstart, fun r' hr' => ?_⟩
    obtain rfl : r = r' := Option.some.inj (hr.symm.trans hr')
    exact hgap
  obtain ⟨-, htr⟩ := hrun.invariant hstep hstart' fun p hp => ⟨hkeep p hp, hover p hp⟩
  exact fun p hp => noGapHit_of_paced (htr p hp).1 (htr p hp).2

/-! ## Two nodes roll a delay -/

/-- One new job and no node that is connected. -/
def newJob : State where
  table := .single (minutelyJob 1)
  now := 0
  nodes _ := {}

/-- A node connects and selects the job. -/
def selectNew (n : String) : List Event :=
  [.node n .connect, .node n .schedulerTimer, .node n (.resume 0)]

/-- Both nodes write their delay, then the first writes `next_run`. -/
def bothRoll : List Event :=
  selectNew "a" ++ selectNew "b" ++
    [.node "a" (.resume 7), .node "b" (.resume 30), .node "a" (.resume 0)]

lemma noGap_utc (schedule : CronSchedule) : NoGap .utc schedule := fun _ _ _ _ _ => rfl

lemma noGapFor_minutelyJob (id : ℕ) : NoGapFor utcOnly (minutelyJob id) := by
  intro z schedule hz _
  obtain rfl : Zone.utc = z := Option.some.inj hz
  exact noGap_utc schedule

lemma takesLater_utcOnly (tz : Option String) (z : Zone) (h : timeZone utcOnly tz = some z) :
    z.TakesLater := by
  obtain rfl : Zone.utc = z := by
    rcases tz with _ | name
    · exact Option.some.inj h
    · exact (of_guard h).2
  exact fun _ _ h => h

/-- **The delay of the second node does not belong to the `next_run` of the first**: seven seconds
after midnight minus thirty seconds is no time of the schedule. -/
theorem delay_not_consistent :
    ¬ ∀ (cl : Cluster) (j : ℕ) (s t : State) (tr : List (State × Event)) (r : CronRow),
        Run (step cl) s tr t → s.table.find? j = some r → IsNew r → NoGapFor cl.zones r →
        (∀ n, Unread j (s.nodes n)) →
        (∀ tz z, timeZone cl.zones tz = some z → z.TakesLater) →
        (∀ p ∈ tr, KeepsSchedule j p.2) → ∀ r' ∈ t.table.find? j, Consistent cl.zones r' := by
  intro h
  have hrow : (final (step smallCluster) newJob bothRoll).bind (fun t => t.table.find? 1) =
      some { minutelyJob 1 with
        delay := some 30, delayRange := some 60, nextRun := some (.finite (7 * second)) } := by
    decide +kernel
  obtain ⟨t, ht, hr⟩ := Option.bind_eq_some_iff.mp hrow
  have hcons := h smallCluster 1 newJob t _ (minutelyJob 1) (Run.of_final ht) rfl (by decide)
    (noGapFor_minutelyJob 1) (fun _ => ⟨by simp [newJob, Handler.holds], by simp [newJob]⟩)
    takesLater_utcOnly (by decide +kernel) _ hr
  obtain ⟨z, schedule, d, hz, hparse, hd, hmatch, _⟩ := hcons (7 * second) rfl
  obtain rfl : Zone.utc = z := Option.some.inj hz
  obtain rfl : 30 = d := Option.some.inj hd
  have hno :
      ∀ c, CronSchedule.parse "* * * * *" = .ok c → ¬ c.Matches (7 * second - 30 * second) := by
    intro c hc
    have heq : (CronSchedule.parse "* * * * *").toOption = some c := by rw [hc]; rfl
    have hall : ((CronSchedule.parse "* * * * *").toOption.all fun c =>
        ¬ c.Matches (7 * second - 30 * second)) = true := by decide +kernel
    rw [heq] at hall
    simpa using hall
  exact hno schedule hparse hmatch

/-- A node alone rolls the delay once and keeps it from slot to slot. -/
def twoPasses : List Event :=
  selectNew "a" ++ [.node "a" (.resume 7), .node "a" (.resume 0), .tick 7000000,
    .node "a" (.setStateEnabled true), .node "a" .claimTimer, .node "a" (.resume 0),
    .node "a" (.resume 0), .node "a" (.resume 0), .node "a" (.resume 0), .tick 1000000,
    .node "a" (.complete 0), .node "a" .schedulerTimer, .node "a" (.resume 0),
    .node "a" (.resume 30), .node "a" (.resume 0), .tick 60000000, .node "a" .notify,
    .node "a" .notify, .node "a" .notify, .node "a" .claimTimer, .node "a" (.resume 0),
    .node "a" (.resume 0), .node "a" (.resume 0)]

theorem next_run_consistent_single :
    (traceOf (step smallCluster) newJob twoPasses).countP
        (effective smallCluster 1 Statement.isClaimJob) = 2 ∧
      SlotsIncrease smallCluster 1 (traceOf (step smallCluster) newJob twoPasses) := by
  have hsome : (final (step smallCluster) newJob twoPasses).isSome = true := by decide +kernel
  obtain ⟨t, ht⟩ := Option.isSome_iff_exists.mp hsome
  refine ⟨by decide +kernel, ?_⟩
  exact (next_run_consistent smallCluster 1 (Run.of_final ht) (r := minutelyJob 1) rfl (by decide)
    (fun _ => ⟨by simp [newJob, Handler.holds], by simp [newJob]⟩) takesLater_utcOnly
    (by decide +kernel) (by decide +kernel) (by decide +kernel)).2.2

end Workshop.Cron

import Workshop.Cron.Slots

/-!
# No lost wake-up

A node does not poll the table.  It looks for jobs to schedule when its `scheduler_timer` fires
and for jobs to claim when its `claim_timer` fires, and it arms these timers when a notification
arrives, when it connects, and while there is something left to do.  So whenever there is work in
the table, a timer must be pending or the notification that will arm it must be on its way.

Both halves have the same shape, a `Watch`: a kind of work, the channel that announces it, the
timer that looks for it and the handlers that are looking.  A node is `Awake` if the work cannot
be forgotten.  Work that is already there is not forgotten because no handler ends without arming
its timer while there is work (`Turns`, `Moves`); new work is announced by a rule of the table,
with exceptions that are the conditions of the two theorems.

* A client that enables a job with a `next_run` makes it claimable, but the rules only send
  `cronjobs_modified` (`enablesScheduled`).
* A client that clears `next_run` of a running job is not announced, because the job is assigned,
  and neither is the `finish_job` that follows, because `next_run` is already `NULL`
  (`unschedulesRunning`).
* A job with an unknown time zone makes `RunScheduler` leave with an exception and without arming
  its timer (`selectsUnknownZone`).
* So does a statement of `RunScheduler` or `RunClaim` that fails for another reason, if the
  connection stays (`failsScheduler`, `failsClaim`).
-/

namespace Workshop.Cron

open Workshop.Lib

variable {cl : Cluster} {s t : State} {e : Event}

/-! ## What a step does to the timers of its node -/

/-- What an event can do to the timers, the notifications and the handler of a node. -/
inductive Turns (cl : Cluster) (name : String) (table : CronTable) (now : ℤ) (ev : NodeEvent)
    (node : CronNode) : CronNode → Prop
  | connected : Turns cl name table now ev node node.onConnect
  | dropped {node' : CronNode} : node'.ready = false → Turns cl name table now ev node node'
  /-- Only `CheckEnabled` may arm the claim timer, and does if the queue gets enabled. -/
  | kept {node' : CronNode} : node'.schedulerTimer = node.schedulerTimer →
      node'.notifies = node.notifies → node'.handler = node.handler → node'.ready = node.ready →
      (node'.isEnabled = true → node'.ready = true → node'.claimTimer = true ∨
        (node.isEnabled = true ∧ node'.claimTimer = node.claimTimer)) →
      Turns cl name table now ev node node'
  | schedulerFired {next : Option ℤ} : node.handler = .idle →
      Turns cl name table now ev node
        { node with schedulerTimer := false, nextExpireCheck := next, handler := .select }
  | claimFired : node.handler = .idle →
      Turns cl name table now ev node
        { node with claimTimer := false, handler := if node.isEnabled then .find else .idle }
  | notified {channel : Channel} {rest : List Channel} : node.handler = .idle →
      node.notifies = channel :: rest →
      Turns cl name table now ev node ({ node with notifies := rest }.onNotify channel)
  | moved {draw : ℕ} {node' : CronNode} : ev = .resume draw →
      Moves cl name table now draw node node' →
      Turns cl name table now ev node node'
  | failed {node' : CronNode} : ev = .failed → Fails node node' →
      Turns cl name table now ev node node'
  | expireFailed {next : Option ℤ} : ev = .expireFailed → node.handler = .idle →
      Turns cl name table now ev node
        { node with schedulerTimer := false, nextExpireCheck := next }

section Turns

variable {name : String} {table : CronTable} {now : ℤ} {ev : NodeEvent} {node node' : CronNode}

/-- `CheckEnabled` after a switch was turned keeps everything but the claim timer. -/
lemma turns_checkEnabled (hsched : node'.schedulerTimer = node.schedulerTimer)
    (hnotifies : node'.notifies = node.notifies) (hhandler : node'.handler = node.handler)
    (hready : node'.ready = node.ready) : Turns cl name table now ev node node'.checkEnabled := by
  unfold CronNode.checkEnabled
  by_cases hen : (node'.isEnabled && node'.ready) = true
  · rw [if_pos hen]
    exact .kept hsched hnotifies hhandler hready fun _ _ => .inl rfl
  · rw [if_neg hen]
    refine .kept hsched hnotifies hhandler hready fun hen' hready' => ?_
    exact absurd (by simp [hen', hready']) hen

lemma turns_running (running : List Running) :
    Turns cl name table now ev node { node with running := running } :=
  .kept rfl rfl rfl rfl fun hen _ => .inr ⟨hen, rfl⟩

lemma turns_onCompletion (i : ℕ) :
    Turns cl name table now ev node (node.onCompletion cl name i) := by
  simp only [CronNode.onCompletion, CronNode.enableFull]
  split
  · split
    · exact turns_checkEnabled rfl rfl rfl rfl
    · exact turns_running _
  · exact turns_running _

lemma turns_of_step (h : node.step cl name table now ev = some node') :
    Turns cl name table now ev node node' := by
  have hrefl : Turns cl name table now ev node node := turns_running node.running
  unfold CronNode.step at h
  split at h
  · obtain ⟨_, rfl⟩ := of_guard h
    exact .connected
  · obtain ⟨_, rfl⟩ := of_guard h
    exact .dropped rfl
  · obtain ⟨_, rfl⟩ := of_guard h
    unfold CronNode.setStateEnabled
    split
    · exact hrefl
    · exact turns_checkEnabled rfl rfl rfl rfl
  · obtain ⟨_, rfl⟩ := of_guard h
    unfold CronNode.enableAdmin
    split
    · exact hrefl
    · exact turns_checkEnabled rfl rfl rfl rfl
  · obtain ⟨_, rfl⟩ := of_guard h
    refine .kept rfl rfl rfl rfl fun hen _ => ?_
    exact absurd hen (by simp [CronNode.disableAdmin, CronNode.isEnabled])
  · obtain ⟨⟨hidle, _⟩, rfl⟩ := of_guard h
    exact .schedulerFired hidle
  · obtain ⟨⟨hidle, _⟩, rfl⟩ := of_guard h
    exact .expireFailed rfl hidle
  · obtain ⟨⟨hidle, _⟩, rfl⟩ := of_guard h
    exact .claimFired hidle
  · split at h
    · rename_i channel rest hidle hnotifies
      obtain rfl := Option.some.inj h
      exact .notified hidle hnotifies
    · exact absurd h (by simp)
  · exact .moved rfl (moves_of_resume h)
  · exact .failed rfl (fails_of_fail h)
  · obtain ⟨_, _, rfl⟩ := Option.map_eq_some_iff.mp h
    exact .dropped rfl
  · obtain ⟨_, h⟩ := Option.ite_none_right_eq_some.mp h
    obtain ⟨_, _, rfl⟩ := Option.map_eq_some_iff.mp h
    split
    · exact turns_running _
    · exact hrefl
  · obtain ⟨_, h⟩ := Option.ite_none_right_eq_some.mp h
    obtain ⟨_, _, rfl⟩ := Option.map_eq_some_iff.mp h
    exact turns_onCompletion _
  · obtain ⟨_, h⟩ := Option.ite_none_right_eq_some.mp h
    obtain ⟨_, _, rfl⟩ := Option.map_eq_some_iff.mp h
    exact turns_onCompletion _
  · obtain ⟨_, h⟩ := Option.ite_none_right_eq_some.mp h
    obtain ⟨_, _, rfl⟩ := Option.map_eq_some_iff.mp h
    exact turns_onCompletion _

end Turns

@[simp] lemma CronNode.continueClaim_ready (node : CronNode) :
    node.continueClaim.ready = node.ready := by
  unfold CronNode.continueClaim
  split <;> rfl

@[simp] lemma CronNode.continueClaim_schedulerTimer (node : CronNode) :
    node.continueClaim.schedulerTimer = node.schedulerTimer := by
  unfold CronNode.continueClaim
  split <;> rfl

@[simp] lemma CronNode.continueClaim_notifies (node : CronNode) :
    node.continueClaim.notifies = node.notifies := by
  unfold CronNode.continueClaim
  split <;> rfl

/-! ## Watches -/

/-- A kind of work in the table, and how a node gets to it. -/
structure Watch where
  work : CronRow → Bool
  channel : Channel
  timer : CronNode → Bool
  busy : Handler → Bool

namespace Watch

/-- There is work. -/
def HasWork (w : Watch) (table : CronTable) : Prop := ∃ r ∈ table.rows, w.work r = true

/-- The timer is pending, the notification is on its way, or a handler is looking. -/
def Awake (w : Watch) (node : CronNode) : Prop :=
  w.timer node = true ∨ w.channel ∈ node.notifies ∨ w.busy node.handler = true

/-- Work after the step was there before it, or is announced by it. -/
def Announced (w : Watch) (cl : Cluster) (s : State) (e : Event) (t : State) : Prop :=
  w.HasWork t.table → w.HasWork s.table ∨ w.channel ∈ e.notifies cl s

/-- A node that is not looking stays awake as long as its timer and its notifications stay. -/
lemma Awake.keep {w : Watch} {node node' : CronNode} (h : w.Awake node)
    (hidle : w.busy node.handler = false) (htimer : w.timer node' = w.timer node)
    (hnotifies : node'.notifies = node.notifies) : w.Awake node' := by
  obtain h | h | h := h
  · exact .inl (htimer.trans h)
  · exact .inr (.inl (hnotifies ▸ h))
  · exact absurd (hidle.symm.trans h) (by simp)

end Watch

/-- Jobs to be claimed. -/
def claimWatch : Watch where
  work r := (pendingTime r).isSome
  channel := .cronjobsScheduled
  timer := CronNode.claimTimer
  busy
    | .find | .check | .claim _ => true
    | _ => false

/-- Jobs to be scheduled, running or not. -/
def schedulerWatch : Watch where
  work := needsScheduling
  channel := .cronjobsModified
  timer := CronNode.schedulerTimer
  busy
    | .select | .schedule _ _ | .update _ _ _ _ => true
    | _ => false

lemma awake_receive {w : Watch} (hw : w = claimWatch ∨ w = schedulerWatch) {node : CronNode}
    (hready : node.ready = true) {channels : List Channel}
    (h : w.Awake node ∨ w.channel ∈ channels) : w.Awake (node.receive channels) := by
  have htimer : w.timer (node.receive channels) = w.timer node := by
    obtain rfl | rfl := hw
    · exact CronNode.receive_claimTimer node channels
    · exact CronNode.receive_schedulerTimer node channels
  unfold Watch.Awake
  rw [htimer, CronNode.receive_handler, CronNode.mem_receive hready]
  obtain (h | h | h) | h := h
  · exact .inl h
  · exact .inr (.inl (.inl h))
  · exact .inr (.inr h)
  · exact .inr (.inl (.inr h))

/-- Where the work of a step comes from, row by row. -/
lemma announced_of_rows {w : Watch} (h : step cl s e = some t)
    (hnew : ∀ r, IsNew r → w.work r = true → w.channel ∈ insertNotifies r)
    (hup : ∀ st r, e.statement s = some st → r ∈ s.table.rows → (st.update cl.zones).cond r = true →
      w.work ((st.update cl.zones).set r) = true →
      w.work r = true ∨ firesOn w.channel r ((st.update cl.zones).set r) = true) :
    w.Announced cl s e t := by
  rintro ⟨r', hr', hwork⟩
  obtain ⟨a, rfl, ha, hins⟩ | ⟨id, rfl, hd⟩ | hafter := step_table h
  · obtain hr' | rfl := (Table.mem_insert hins).mp hr'
    · exact .inl ⟨r', hr', hwork⟩
    · exact .inr (hnew r' ha hwork)
  · rw [hd] at hr'
    exact .inl ⟨r', (Table.mem_delete.mp hr').1, hwork⟩
  · rw [hafter, State.tableAfter] at hr'
    obtain ⟨r, hr, rfl⟩ := Table.mem_tableAfter.mp hr'
    obtain hsame | ⟨st, hst, hcond, hset⟩ := rowAfter_cases cl s e r
    · rw [← rowAfter, hsame] at hwork
      exact .inl ⟨r, hr, hwork⟩
    · rw [← rowAfter, hset] at hwork
      obtain hold | hfires := hup st r hst hr hcond hwork
      · exact .inl ⟨r, hr, hold⟩
      · refine .inr ?_
        have hsent := mem_updateNotifies hr hcond hfires
        unfold Event.notifies
        split
        · exact absurd hst (by simp [Event.statement])
        · rw [hst]
          exact hsent

/-! ## Jobs to be claimed -/

/-- A client enables a job that is not running and has a finite `next_run`, without clearing
it. -/
def enablesScheduled (s : State) : Event → Bool
  | .edit id ed => (s.table.find? id).any fun r =>
      !r.enabled && ed.enabled == some true && !ed.clearNextRun &&
        (pendingTime { r with enabled := true }).isSome
  | _ => false

lemma isSome_pendingTime {r : CronRow} : (pendingTime r).isSome = true ↔
    r.enabled = true ∧ r.nodeName = none ∧ ∃ u, r.nextRun = some (.finite u) := by
  rw [Option.isSome_iff_exists]
  simp only [pendingTime_eq_some]
  constructor
  · rintro ⟨u, hen, hnode, hnext⟩
    exact ⟨hen, hnode, u, hnext⟩
  · rintro ⟨hen, hnode, u, hnext⟩
    exact ⟨u, hen, hnode, hnext⟩

/-- **Whatever makes a job claimable announces it**, but for a client that enables a scheduled
job. -/
lemma claim_announced (h : step cl s e = some t) (hedit : enablesScheduled s e = false) :
    claimWatch.Announced cl s e t := by
  refine announced_of_rows h ?_ ?_
  · intro r hnew hwork
    obtain ⟨_, _, u, hu⟩ := isSome_pendingTime.mp hwork
    obtain ⟨_, _, _, hnone, _⟩ := hnew
    exact absurd (hnone.symm.trans hu) (by simp)
  · intro st r hst hr hcond hwork
    obtain ⟨hen, hnode, u, hu⟩ := isSome_pendingTime.mp hwork
    cases st with
    | releaseStale | expireJobs | finishJob =>
        exact absurd hu (by simp [Statement.update, releaseStale, expireJobs, finishJob])
    | makeRandomDelay => exact .inl (isSome_pendingTime.mpr ⟨hen, hnode, u, hu⟩)
    | claimJob => exact absurd hnode (by simp [Statement.update, claimJob])
    | updateNextRun id schedule lastRun nextRun =>
        obtain ⟨z, hz, _, _, _, _, hnone⟩ := updateNextRun_cond.mp hcond
        refine .inr ?_
        simp only [Statement.update, updateNextRun_set hz] at hen hnode hu ⊢
        simp [claimWatch, firesOn, scheduleCronjob, hen, hnode, hu, hnone]
    | editJob id ed =>
        obtain rfl := edit_of_statement hst
        simp only [Statement.update, editJob, beq_iff_eq] at hcond hen hnode hu
        have hfind : s.table.find? id = some r := Table.find?_eq_some.mpr ⟨hr, hcond⟩
        -- a finite `next_run` after the update was not cleared
        have hkept : ed.clearNextRun = false ∧ r.nextRun = some (.finite u) := by
          by_cases hclear : ed.clearNextRun = true
          · rw [if_pos hclear] at hu
            exact absurd hu (by simp)
          · rw [if_neg hclear] at hu
            exact ⟨by simpa using hclear, hu⟩
        refine .inl (isSome_pendingTime.mpr ⟨?_, hnode, u, hkept.2⟩)
        by_contra hdisabled
        have hon : ed.enabled = some true := by
          rcases hed : ed.enabled with _ | b
          · rw [hed, Option.getD_none] at hen
            exact absurd hen hdisabled
          · rw [hed, Option.getD_some] at hen
            rw [hen]
        have hpend : (pendingTime { r with enabled := true }).isSome = true :=
          isSome_pendingTime.mpr ⟨rfl, hnode, u, hkept.2⟩
        simp [enablesScheduled, hfind, hdisabled, hon, hkept.1, hpend] at hedit

lemma claim_awake_continueClaim (node : CronNode) : claimWatch.Awake node.continueClaim := by
  unfold CronNode.continueClaim
  split
  · exact .inr (.inr rfl)
  · exact .inl rfl

/-- Of the node, `find_earliest_pending` or `check_pending` fails, and the connection stays. -/
def failsClaim (n : String) (s : State) (e : Event) : Bool :=
  e == .node n .failed && ((s.nodes n).handler == .find || (s.nodes n).handler == .check)

/-- No handler of an enabled node ends while there are jobs to be claimed, without arming the
claim timer, unless a `SELECT` fails. -/
lemma claim_awake_turn {name : String} {table : CronTable} {now : ℤ} {ev : NodeEvent}
    {node node' : CronNode} (hwork : claimWatch.HasWork table)
    (hfails : ev = .failed → node.handler ≠ .find ∧ node.handler ≠ .check)
    (hawake : node.ready = true → node.isEnabled = true → claimWatch.Awake node)
    (h : Turns cl name table now ev node node') (hready : node'.ready = true)
    (hen : node'.isEnabled = true) : claimWatch.Awake node' := by
  cases h with
  | connected => exact .inl rfl
  | dropped hdropped => exact absurd (hdropped.symm.trans hready) (by simp)
  | kept _ hnotifies hhandler hready' hclaim =>
      obtain hclaim | ⟨hen', hclaim⟩ := hclaim hen hready
      · exact .inl hclaim
      · obtain htimer | hnotify | hbusy := hawake (hready'.symm.trans hready) hen'
        · exact .inl (hclaim.trans htimer)
        · exact .inr (.inl (hnotifies ▸ hnotify))
        · exact .inr (.inr (hhandler ▸ hbusy))
  | schedulerFired hidle => exact (hawake hready hen).keep (by rw [hidle]; rfl) rfl rfl
  | claimFired hidle =>
      have hen' : node.isEnabled = true := hen
      exact .inr (.inr (by simp [claimWatch, hen']))
  | @notified channel rest hidle hcons =>
      cases channel with
      | cronjobsScheduled => exact .inl rfl
      | cronjobsModified =>
          obtain htimer | hnotify | hbusy := hawake hready hen
          · exact .inl htimer
          · rw [hcons] at hnotify
            exact .inr (.inl ((List.mem_cons.mp hnotify).resolve_left (by simp [claimWatch])))
          · exact absurd hbusy (by simp [hidle, claimWatch])
  | moved hev hmoves =>
      cases hmoves with
      | aborted hh _ | nothingSelected hh _ | selected hh _ | delayed hh _ _ =>
          exact (hawake hready hen).keep (by rw [hh]; rfl) rfl rfl
      | @advanced row rest hh =>
          have hidle : claimWatch.busy node.handler = false := by
            obtain hh | ⟨_, _, hh⟩ := hh <;> rw [hh] <;> rfl
          cases rest with
          | nil => exact (hawake hready hen).keep hidle rfl rfl
          | cons row' rest => exact (hawake hready hen).keep hidle rfl rfl
      | nothingPending _ hnone =>
          obtain ⟨r, hr, hpending⟩ := hwork
          have hno := findEarliestPending_eq_none hnone r hr
          exact absurd hpending (by simp [claimWatch, hno])
      | scheduledClaim _ => exact .inl rfl
      | pending _ => exact .inr (.inr rfl)
      | checked _ _ => exact .inr (.inr rfl)
      | lostRace _ _ | claimed _ _ => exact claim_awake_continueClaim _
  | failed hev hfail =>
      cases hfail with
      | aborted hh =>
          obtain ⟨hfind, hcheck⟩ := hfails hev
          have hselect := hh.resolve_right fun h => h.elim hfind hcheck
          exact (hawake hready hen).keep (by rw [hselect]; rfl) rfl rfl
      | @advanced row rest hh =>
          have hidle : claimWatch.busy node.handler = false := by
            obtain hh | ⟨_, _, hh⟩ := hh <;> rw [hh] <;> rfl
          cases rest with
          | nil => exact (hawake hready hen).keep hidle rfl rfl
          | cons row' rest => exact (hawake hready hen).keep hidle rfl rfl
      | unclaimed _ => exact claim_awake_continueClaim _
  | expireFailed _ hidle => exact (hawake hready hen).keep (by rw [hidle]; rfl) rfl rfl

/-- The invariant: if the node is enabled and has a connection, it is awake while there are jobs to
be claimed. -/
def ClaimAwake (n : String) (s : State) : Prop :=
  (s.nodes n).ready = true → (s.nodes n).isEnabled = true →
    claimWatch.HasWork s.table → claimWatch.Awake (s.nodes n)

lemma claimAwake_step {n : String} (hI : ClaimAwake n s) (hedit : enablesScheduled s e = false)
    (hfails : failsClaim n s e = false) (h : step cl s e = some t) : ClaimAwake n t := by
  intro hready hen hwork
  have hannounced := claim_announced h hedit hwork
  obtain ⟨ev, node, rfl, hnode, heq⟩ | heq := step_node_cases h n
  · rw [heq] at hready hen ⊢
    rw [CronNode.receive_ready] at hready
    rw [CronNode.receive_isEnabled] at hen
    refine awake_receive (.inl rfl) hready ?_
    obtain hwork | hsent := hannounced
    · have hno : ev = .failed → (s.nodes n).handler ≠ .find ∧ (s.nodes n).handler ≠ .check := by
        rintro rfl
        simpa [failsClaim] using hfails
      exact .inl (claim_awake_turn hwork hno (fun hr he => hI hr he hwork) (turns_of_step hnode)
        hready hen)
    · exact .inr hsent
  · rw [heq] at hready hen ⊢
    rw [CronNode.receive_ready] at hready
    rw [CronNode.receive_isEnabled] at hen
    refine awake_receive (.inl rfl) hready ?_
    exact hannounced.imp_left fun hwork => hI hready hen hwork

/-- Between its events, the node has its claim timer pending or a `cronjobs_scheduled` on its way,
if it is enabled, has a connection and there is a job it could claim. -/
def ClaimNotLost (n : String) (s : State) : Prop :=
  (s.nodes n).ready = true → (s.nodes n).isEnabled = true → (s.nodes n).handler = .idle →
    ∀ r ∈ s.table.rows, r.enabled = true → r.nodeName = none →
      ∀ u, r.nextRun = some (.finite u) →
        (s.nodes n).claimTimer = true ∨ .cronjobsScheduled ∈ (s.nodes n).notifies

lemma claimNotLost_of_awake {n : String} (hI : ClaimAwake n s) : ClaimNotLost n s := by
  intro hready hen hidle r hr hrow hnode u hu
  have hwork : claimWatch.HasWork s.table := ⟨r, hr, isSome_pendingTime.mpr ⟨hrow, hnode, u, hu⟩⟩
  obtain htimer | hnotify | hbusy := hI hready hen hwork
  · exact .inl htimer
  · exact .inr hnotify
  · exact absurd hbusy (by simp [hidle, claimWatch])

/-- **No wake-up of a node for a claimable job is lost**, in any run in which the node begins
unconnected, no client enables a job that is already scheduled, and no `SELECT` of the node's
`RunClaim` fails while its connection stays. -/
theorem claim_not_lost (cl : Cluster) (n : String) {s t : State} {tr : List (State × Event)}
    (hrun : Run (step cl) s tr t) (hstart : (s.nodes n).ready = false)
    (hedit : ∀ p ∈ tr, enablesScheduled p.1 p.2 = false)
    (hfails : ∀ p ∈ tr, failsClaim n p.1 p.2 = false) :
    ClaimNotLost n t ∧ ∀ p ∈ tr, ClaimNotLost n p.1 := by
  have hI : ClaimAwake n s := fun hready => absurd (hstart.symm.trans hready) (by simp)
  obtain ⟨ht, htr⟩ := hrun.invariant
    (C := fun s e => enablesScheduled s e = false ∧ failsClaim n s e = false)
    (fun s e t hI hC h => claimAwake_step hI hC.1 hC.2 h) hI
    (fun p hp => ⟨hedit p hp, hfails p hp⟩)
  exact ⟨claimNotLost_of_awake ht, fun p hp => claimNotLost_of_awake (htr p hp)⟩

/-- A node is idle because the job was disabled; then the client enables it again. -/
def enableAgain : List Event :=
  [.node "a" .connect, .node "a" (.setStateEnabled true), .edit 1 { enabled := some false },
    .node "a" .claimTimer, .node "a" (.resume 0), .edit 1 { enabled := some true }]

/-- **The wake-up for a job that was disabled and enabled again is lost.** -/
theorem claim_lost :
    ¬ ∀ (cl : Cluster) (n : String) (s t : State) (tr : List (State × Event)),
        Run (step cl) s tr t → (s.nodes n).ready = false → ClaimNotLost n t := by
  intro h
  have hrow : (final (step smallCluster) oneJob enableAgain).map
      (fun t => (t.table.rows, t.nodes "a")) =
      some ([scheduledJob 1],
        { ready := true, enabledState := true, schedulerTimer := true,
          notifies := [.cronjobsModified] }) := by
    decide +kernel
  obtain ⟨t, ht, heq⟩ := Option.map_eq_some_iff.mp hrow
  obtain ⟨hrows, hnode⟩ := Prod.mk.inj heq
  have hlost := h smallCluster "a" oneJob t _ (Run.of_final ht) rfl
  rw [ClaimNotLost, hrows, hnode] at hlost
  have := hlost rfl rfl rfl (scheduledJob 1) (by simp) rfl rfl 0 rfl
  simp at this

/-- The same with a `next_run` that the client clears: the job is scheduled anew. -/
def enableCleared : List Event :=
  [.node "a" .connect, .node "a" (.setStateEnabled true), .edit 1 { enabled := some false },
    .node "a" .claimTimer, .node "a" (.resume 0),
    .edit 1 { enabled := some true, clearNextRun := true }, .node "a" .schedulerTimer,
    .node "a" (.resume 0), .node "a" (.resume 0), .node "a" (.resume 0)]

theorem claim_not_lost_cleared :
    ∃ t, final (step smallCluster) oneJob enableCleared = some t ∧ ClaimNotLost "a" t ∧
      (t.nodes "a").notifies = [.cronjobsModified, .cronjobsScheduled] := by
  have hsome : (final (step smallCluster) oneJob enableCleared).isSome = true := by decide +kernel
  obtain ⟨t, ht⟩ := Option.isSome_iff_exists.mp hsome
  refine ⟨t, ht, ?_, ?_⟩
  · exact (claim_not_lost smallCluster "a" (Run.of_final ht) rfl (by decide +kernel)
      (by decide +kernel)).1
  · have hnotifies : (final (step smallCluster) oneJob enableCleared).map
        (fun t => (t.nodes "a").notifies) = some [.cronjobsModified, .cronjobsScheduled] := by
      decide +kernel
    rw [ht] at hnotifies
    exact Option.some.inj hnotifies

/-! ## Jobs to be scheduled -/

/-- A client updates a running job such that it is enabled and has no `next_run`, which it was not
before. -/
def unschedulesRunning (s : State) : Event → Bool
  | .edit id ed => (s.table.find? id).any fun r =>
      r.nodeName.isSome && !needsScheduling r && needsScheduling ((editJob id ed).set r)
  | _ => false

/-- The event is a `select_jobs_for_scheduling` of the node that comes to a job whose time zone is
unknown. -/
def selectsUnknownZone (cl : Cluster) (n : String) (s : State) : Event → Bool
  | .node m (.resume _) => m == n && (s.nodes n).handler == .select &&
      ((s.table.rows.filter needsScheduling).take 1000).any fun r => (timeZone cl.zones r.tz).isNone
  | _ => false

/-- Of the node, `expire_jobs` or `select_jobs_for_scheduling` fails, and the connection stays. -/
def failsScheduler (n : String) (s : State) (e : Event) : Bool :=
  e == .node n .expireFailed || (e == .node n .failed && (s.nodes n).handler == .select)

lemma needsScheduling_iff {r : CronRow} :
    needsScheduling r = true ↔ r.enabled = true ∧ r.nextRun = none := by
  simp [needsScheduling]

/-- A rule announces that an unassigned job is to be scheduled. -/
lemma firesOn_modified {old new : CronRow} (hnode : new.nodeName = none)
    (hnew : needsScheduling new = true) (hold : needsScheduling old = false) :
    firesOn .cronjobsModified old new = true := by
  obtain ⟨hen, hnext⟩ := needsScheduling_iff.mp hnew
  by_cases hold' : old.enabled = true
  · have hsome : old.nextRun.isSome = true := by
      rw [Option.isSome_iff_ne_none]
      intro hnone
      rw [needsScheduling_iff.mpr ⟨hold', hnone⟩] at hold
      exact absurd hold (by simp)
    simp [firesOn, finishCronjob, hen, hnode, hnext, hsome]
  · simp [firesOn, editCronjob, hen, hnode, hold']

/-- **Whatever makes a job need scheduling announces it**, but for a client that does so to a
running job. -/
lemma schedule_announced (h : step cl s e = some t) (hedit : unschedulesRunning s e = false) :
    schedulerWatch.Announced cl s e t := by
  refine announced_of_rows h ?_ ?_
  · intro r hnew hwork
    obtain ⟨hen, _⟩ := needsScheduling_iff.mp hwork
    obtain ⟨_, _, _, _, hnode, _⟩ := hnew
    simp [insertNotifies, newCronjob, hen, hnode, schedulerWatch]
  · intro st r hst hr hcond hwork
    by_cases hold : needsScheduling r = true
    · exact .inl hold
    have hold' : needsScheduling r = false := by simpa using hold
    obtain ⟨hen, hnext⟩ := needsScheduling_iff.mp hwork
    cases st with
    | releaseStale | expireJobs | finishJob => exact .inr (firesOn_modified rfl hwork hold')
    | makeRandomDelay | claimJob => exact absurd (needsScheduling_iff.mpr ⟨hen, hnext⟩) hold
    | updateNextRun id schedule lastRun nextRun =>
        obtain ⟨z, hz, _⟩ := updateNextRun_cond.mp hcond
        rw [Statement.update, updateNextRun_set hz] at hnext
        exact absurd hnext (by simp)
    | editJob id ed =>
        obtain rfl := edit_of_statement hst
        have hfind : s.table.find? id = some r :=
          Table.find?_eq_some.mpr ⟨hr, by simpa [Statement.update, editJob] using hcond⟩
        have hnode : r.nodeName = none := by
          by_contra hrunning
          have hrunning' : r.nodeName.isSome = true := Option.isSome_iff_ne_none.mpr hrunning
          have hwork' : needsScheduling ((editJob id ed).set r) = true := hwork
          simp [unschedulesRunning, hfind, hrunning', hold', hwork'] at hedit
        exact .inr (firesOn_modified hnode hwork hold')

lemma select_ne_none {n : String} {draw : ℕ} (hh : (s.nodes n).handler = .select)
    (hzone : selectsUnknownZone cl n s (.node n (.resume draw)) = false) :
    selectJobsForScheduling cl.zones s.table s.now ≠ none := by
  intro hnone
  obtain ⟨r, hr, hrow⟩ := mapM_eq_none.mp hnone
  have hunknown : (timeZone cl.zones r.tz).isNone = true := by
    simpa [scheduleRow] using hrow
  have hany : (((s.table.rows.filter needsScheduling).take 1000).any fun r =>
      (timeZone cl.zones r.tz).isNone) = true := List.any_eq_true.mpr ⟨r, hr, hunknown⟩
  simp [selectsUnknownZone, hh, hany] at hzone

lemma not_hasWork_of_select {zones : String → Option Zone} {table : CronTable} {now : ℤ}
    (h : selectJobsForScheduling zones table now = some []) : ¬ schedulerWatch.HasWork table := by
  rintro ⟨r, hr, hneeds⟩
  have hmem : r ∈ table.rows.filter needsScheduling := List.mem_filter.mpr ⟨hr, hneeds⟩
  have hempty : (table.rows.filter needsScheduling).take 1000 = [] := by
    rcases hl : (table.rows.filter needsScheduling).take 1000 with _ | ⟨a, l⟩
    · rfl
    · rw [selectJobsForScheduling, hl, List.mapM_cons] at h
      obtain ⟨_, _, h⟩ := Option.bind_eq_some_iff.mp h
      obtain ⟨_, _, h⟩ := Option.bind_eq_some_iff.mp h
      exact absurd h (by simp)
  rw [List.take_eq_nil_iff] at hempty
  obtain habs | hempty := hempty
  · exact absurd habs (by simp)
  · rw [hempty] at hmem
    exact absurd hmem (by simp)

/-- No handler of a node ends while there are jobs to be scheduled, without arming the scheduler
timer, unless the `SELECT` fails. -/
lemma scheduler_awake_turn {name : String} {table : CronTable} {now : ℤ} {ev : NodeEvent}
    {node node' : CronNode} (hwork : schedulerWatch.HasWork table)
    (hselect : ∀ draw, ev = .resume draw → node.handler = .select →
      selectJobsForScheduling cl.zones table now ≠ none)
    (hfails : ev ≠ .expireFailed ∧ (ev = .failed → node.handler ≠ .select))
    (hawake : node.ready = true → schedulerWatch.Awake node)
    (h : Turns cl name table now ev node node') (hready : node'.ready = true) :
    schedulerWatch.Awake node' := by
  cases h with
  | connected => exact .inl rfl
  | dropped hdropped => exact absurd (hdropped.symm.trans hready) (by simp)
  | kept htimer' hnotifies hhandler hready' _ =>
      obtain htimer | hnotify | hbusy := hawake (hready'.symm.trans hready)
      · exact .inl (htimer'.trans htimer)
      · exact .inr (.inl (hnotifies ▸ hnotify))
      · exact .inr (.inr (hhandler ▸ hbusy))
  | schedulerFired _ => exact .inr (.inr rfl)
  | claimFired hidle => exact (hawake hready).keep (by rw [hidle]; rfl) rfl rfl
  | @notified channel rest hidle hcons =>
      cases channel with
      | cronjobsModified => exact .inl rfl
      | cronjobsScheduled =>
          obtain htimer | hnotify | hbusy := hawake hready
          · exact .inl htimer
          · rw [hcons] at hnotify
            exact .inr (.inl ((List.mem_cons.mp hnotify).resolve_left (by simp [schedulerWatch])))
          · exact absurd hbusy (by simp [hidle, schedulerWatch])
  | moved hev hmoves =>
      cases hmoves with
      | aborted hh hnone => exact absurd hnone (hselect _ hev hh)
      | nothingSelected _ hempty => exact absurd hwork (not_hasWork_of_select hempty)
      | selected _ _ => exact .inr (.inr rfl)
      | @advanced row rest _ =>
          cases rest with
          | nil => exact .inl rfl
          | cons row' rest => exact .inr (.inr rfl)
      | delayed _ _ _ => exact .inr (.inr rfl)
      | nothingPending hh _ | pending hh | checked hh _ =>
          exact (hawake hready).keep (by rw [hh]; rfl) rfl rfl
      | scheduledClaim hh =>
          have hidle : schedulerWatch.busy node.handler = false := by
            obtain hh | hh := hh <;> rw [hh] <;> rfl
          exact (hawake hready).keep hidle rfl rfl
      | lostRace hh _ | claimed hh _ =>
          have hidle : schedulerWatch.busy node.handler = false := by rw [hh]; rfl
          rw [CronNode.continueClaim_ready] at hready
          exact (hawake hready).keep hidle (CronNode.continueClaim_schedulerTimer _)
            (CronNode.continueClaim_notifies _)
  | failed hev hfail =>
      cases hfail with
      | aborted hh =>
          have hidle : schedulerWatch.busy node.handler = false := by
            obtain hh | hh := hh.resolve_left (hfails.2 hev) <;> rw [hh] <;> rfl
          exact (hawake hready).keep hidle rfl rfl
      | @advanced row rest _ =>
          cases rest with
          | nil => exact .inl rfl
          | cons row' rest => exact .inr (.inr rfl)
      | unclaimed hh =>
          have hidle : schedulerWatch.busy node.handler = false := by rw [hh]; rfl
          rw [CronNode.continueClaim_ready] at hready
          exact (hawake hready).keep hidle (CronNode.continueClaim_schedulerTimer _)
            (CronNode.continueClaim_notifies _)
  | expireFailed hev _ => exact absurd hev hfails.1

/-- The invariant: if the node has a connection, it is awake while there are jobs to be
scheduled. -/
def SchedulerAwake (n : String) (s : State) : Prop :=
  (s.nodes n).ready = true → schedulerWatch.HasWork s.table → schedulerWatch.Awake (s.nodes n)

lemma schedulerAwake_step {n : String} (hI : SchedulerAwake n s)
    (hedit : unschedulesRunning s e = false) (hzone : selectsUnknownZone cl n s e = false)
    (hfails : failsScheduler n s e = false) (h : step cl s e = some t) : SchedulerAwake n t := by
  intro hready hwork
  have hannounced := schedule_announced h hedit hwork
  obtain ⟨ev, node, rfl, hnode, heq⟩ | heq := step_node_cases h n
  · rw [heq] at hready ⊢
    rw [CronNode.receive_ready] at hready
    refine awake_receive (.inr rfl) hready ?_
    obtain hwork | hsent := hannounced
    · have hselect : ∀ draw, ev = .resume draw → (s.nodes n).handler = .select →
          selectJobsForScheduling cl.zones s.table s.now ≠ none := by
        rintro draw rfl hh
        exact select_ne_none hh hzone
      have hno : ev ≠ .expireFailed ∧ (ev = .failed → (s.nodes n).handler ≠ .select) := by
        obtain ⟨hexpire, hfailed⟩ := Bool.or_eq_false_iff.mp hfails
        refine ⟨?_, ?_⟩
        · rintro rfl
          exact absurd hexpire (by simp)
        · rintro rfl
          simpa using hfailed
      exact .inl (scheduler_awake_turn hwork hselect hno (fun hr => hI hr hwork)
        (turns_of_step hnode) hready)
    · exact .inr hsent
  · rw [heq] at hready ⊢
    rw [CronNode.receive_ready] at hready
    refine awake_receive (.inr rfl) hready ?_
    exact hannounced.imp_left fun hwork => hI hready hwork

/-- Between its events, the node has its scheduler timer pending or a `cronjobs_modified` on its
way, if it has a connection and there is a job to be scheduled. -/
def ScheduleNotLost (n : String) (s : State) : Prop :=
  (s.nodes n).ready = true → (s.nodes n).handler = .idle →
    ∀ r ∈ s.table.rows, r.enabled = true → r.nodeName = none → r.nextRun = none →
      (s.nodes n).schedulerTimer = true ∨ .cronjobsModified ∈ (s.nodes n).notifies

lemma scheduleNotLost_of_awake {n : String} (hI : SchedulerAwake n s) : ScheduleNotLost n s := by
  intro hready hidle r hr hen _ hnext
  have hwork : schedulerWatch.HasWork s.table := ⟨r, hr, needsScheduling_iff.mpr ⟨hen, hnext⟩⟩
  obtain htimer | hnotify | hbusy := hI hready hwork
  · exact .inl htimer
  · exact .inr hnotify
  · exact absurd hbusy (by simp [hidle, schedulerWatch])

/-- **No wake-up of a node for a job that needs scheduling is lost**, in any run in which the node
begins unconnected, no client takes away the `next_run` of a running job, no job the node selects
has an unknown time zone, and no `expire_jobs` or `select_jobs_for_scheduling` of the node fails
while its connection stays. -/
theorem schedule_not_lost (cl : Cluster) (n : String) {s t : State} {tr : List (State × Event)}
    (hrun : Run (step cl) s tr t) (hstart : (s.nodes n).ready = false)
    (hedit : ∀ p ∈ tr, unschedulesRunning p.1 p.2 = false)
    (hzone : ∀ p ∈ tr, selectsUnknownZone cl n p.1 p.2 = false)
    (hfails : ∀ p ∈ tr, failsScheduler n p.1 p.2 = false) :
    ScheduleNotLost n t ∧ ∀ p ∈ tr, ScheduleNotLost n p.1 := by
  have hI : SchedulerAwake n s := fun hready => absurd (hstart.symm.trans hready) (by simp)
  obtain ⟨ht, htr⟩ := hrun.invariant
    (C := fun s e => unschedulesRunning s e = false ∧ selectsUnknownZone cl n s e = false ∧
      failsScheduler n s e = false)
    (fun s e t hI hC h => schedulerAwake_step hI hC.1 hC.2.1 hC.2.2 h) hI
    (fun p hp => ⟨hedit p hp, hzone p hp, hfails p hp⟩)
  exact ⟨scheduleNotLost_of_awake ht, fun p hp => scheduleNotLost_of_awake (htr p hp)⟩

/-- The client gives a running job another schedule and clears `next_run`; then the job ends. -/
def clearRunning : List Event :=
  [.node "a" .connect, .node "a" (.setStateEnabled true), .node "a" .schedulerTimer,
    .node "a" (.resume 0), .node "a" .claimTimer, .node "a" (.resume 0), .node "a" (.resume 0),
    .node "a" (.resume 0), .node "a" (.resume 0),
    .edit 1 { schedule := some "0 * * * *", clearNextRun := true }, .node "a" (.complete 0)]

/-- **The wake-up for a job that was changed while it was running is lost.** -/
theorem schedule_lost :
    ¬ ∀ (cl : Cluster) (n : String) (s t : State) (tr : List (State × Event)),
        Run (step cl) s tr t → (s.nodes n).ready = false → ScheduleNotLost n t := by
  intro h
  have hrow : (final (step smallCluster) oneJob clearRunning).map
      (fun t => (t.table.rows, t.nodes "a")) =
      some ([{ scheduledJob 1 with
          schedule := "0 * * * *", lastRun := some 0, nextRun := none }],
        { ready := true, enabledState := true, nextExpireCheck := some minute }) := by
    decide +kernel
  obtain ⟨t, ht, heq⟩ := Option.map_eq_some_iff.mp hrow
  obtain ⟨hrows, hnode⟩ := Prod.mk.inj heq
  have hlost := h smallCluster "a" oneJob t _ (Run.of_final ht) rfl
  rw [ScheduleNotLost, hrows, hnode] at hlost
  have := hlost rfl rfl _ (List.mem_singleton_self _) rfl rfl rfl
  simp at this

/-- The client changes the schedule of the job while it is not running. -/
def clearIdle : List Event :=
  [.node "a" .connect, .node "a" (.setStateEnabled true), .node "a" .schedulerTimer,
    .node "a" (.resume 0), .edit 1 { schedule := some "0 * * * *", clearNextRun := true }]

theorem schedule_not_lost_idle :
    ∃ t, final (step smallCluster) oneJob clearIdle = some t ∧ ScheduleNotLost "a" t ∧
      (t.nodes "a").notifies = [.cronjobsModified] := by
  have hsome : (final (step smallCluster) oneJob clearIdle).isSome = true := by decide +kernel
  obtain ⟨t, ht⟩ := Option.isSome_iff_exists.mp hsome
  refine ⟨t, ht, ?_, ?_⟩
  · exact (schedule_not_lost smallCluster "a" (Run.of_final ht) rfl (by decide +kernel)
      (by decide +kernel) (by decide +kernel)).1
  · have hnotifies : (final (step smallCluster) oneJob clearIdle).map
        (fun t => (t.nodes "a").notifies) = some [.cronjobsModified] := by
      decide +kernel
    rw [ht] at hnotifies
    exact Option.some.inj hnotifies

end Workshop.Cron

import Workshop.Cron.Exclusion
import Workshop.Cron.WakeUp

/-!
# When a cron node wakes up

The cluster of `Workshop.Cron.System` with the times at which the timers of its nodes are due.
`ScheduleScheduler` waits up to five seconds and `ScheduleClaim` one second; `RunClaim` waits until
the earliest pending job is due, a day at most, and up to thirty seconds longer, so that not all
nodes go for it at once.  The event loop reads the clock when it wakes up, so a timer may have been
armed some time before the end of its handler.

A node that is idle wakes up when a timer is due.  That its timers are pending while there is work
is what `claim_not_lost` and `schedule_not_lost` say; `wakes_in_time` says when they are due: a job
whose time has come is overdue by thirty seconds at most, unless the node did something at most a
second ago, and a job that needs scheduling waits for five seconds at most.
-/

namespace Workshop.Cron

open Workshop.Lib

/-! ## Timers -/

/-- The node with no timer pending. -/
def CronNode.unarmed (node : CronNode) : CronNode :=
  { node with schedulerTimer := false, claimTimer := false }

/-- The event arms the timer: it is pending afterwards even if it was not before. -/
def CronNode.arms (timer : CronNode → Bool) (cl : Cluster) (name : String) (table : CronTable)
    (now : ℤ) (node : CronNode) (ev : NodeEvent) : Bool :=
  (node.unarmed.step cl name table now ev).any timer

/-- The delay of `ScheduleScheduler`: none after `OnConnect`, otherwise up to five seconds. -/
def schedulerDelay (random : ℕ) : NodeEvent → ℤ
  | .connect => 0
  | _ => (random % 5000000 : ℕ)

/-- The delay with which the claim timer is armed: one second (`ScheduleClaim`), or what `RunClaim`
makes of the answer of `find_earliest_pending`. -/
def claimDelay (table : CronTable) (now : ℤ) (random : ℕ) (handler : Handler) (ev : NodeEvent) :
    ℤ :=
  match handler, ev with
  | .find, .resume _ =>
    match findEarliestPending table now with
    | some delta => if 0 < delta then delta * second + (random % 30000000 : ℕ) else second
    | none => second
  | _, _ => second

/-- When the timer is due after an event: anew if the event has armed it. -/
def dueAfter (pending armed : Bool) (new : ℤ) (old : Option ℤ) : Option ℤ :=
  if pending then if armed then some new else old else none

/-- The cluster with the times at which timers are due and nodes have done something. -/
structure TimedState where
  cluster : State
  schedulerDue : String → Option ℤ := fun _ => none
  claimDue : String → Option ℤ := fun _ => none
  called : String → ℤ

/-- An event of the cluster, how long ago the node has read the clock, and the next two numbers of
its random generator. -/
structure TimedEvent where
  event : Event
  late : ℕ := 0
  random : ℕ := 0

namespace TimedState

variable (cl : Cluster) (w : TimedState)

/-- Timers fire when they are due. -/
def fires : Event → Bool
  | .node n .schedulerTimer | .node n .expireFailed =>
    (w.schedulerDue n).all fun due => due ≤ w.cluster.now
  | .node n .claimTimer => (w.claimDue n).all fun due => due ≤ w.cluster.now
  | _ => true

/-- After an event of the node `n`. -/
def afterNode (n : String) (ev : NodeEvent) (late random : ℕ) (t : State) : TimedState where
  cluster := t
  schedulerDue := Function.update w.schedulerDue n <|
    dueAfter (t.nodes n).schedulerTimer
      ((w.cluster.nodes n).arms CronNode.schedulerTimer cl n w.cluster.table w.cluster.now ev)
      (w.cluster.now - late + schedulerDelay random ev) (w.schedulerDue n)
  claimDue := Function.update w.claimDue n <|
    dueAfter (t.nodes n).claimTimer
      ((w.cluster.nodes n).arms CronNode.claimTimer cl n w.cluster.table w.cluster.now ev)
      (w.cluster.now - late +
        claimDelay w.cluster.table w.cluster.now random (w.cluster.nodes n).handler ev)
      (w.claimDue n)
  called := Function.update w.called n w.cluster.now

/-- One event. -/
def step (e : TimedEvent) : Option TimedState :=
  if w.fires e.event then
    (Cron.step cl w.cluster e.event).map fun t =>
      match e.event with
      | .node n ev => w.afterNode cl n ev e.late e.random t
      | _ => { w with cluster := t }
  else none

end TimedState

/-! ## Which events arm a timer -/

/-- The outcome for the node with no timer pending: it differs in the timers, and a timer that is
pending was so before or is armed. -/
def Rearmed (node node' : CronNode) (m : Option CronNode) : Prop :=
  ∃ a b, m = some { node' with schedulerTimer := a, claimTimer := b } ∧
    (node'.schedulerTimer = true → a = true ∨ node.schedulerTimer = true) ∧
    (node'.claimTimer = true → b = true ∨ node.claimTimer = true)

section Rearmed

variable {cl : Cluster} {name : String} {table : CronTable} {now : ℤ} {draw : ℕ}
  {node node' : CronNode} {ev : NodeEvent}

lemma rearmed_advance (rest : List ScheduleRow) :
    Rearmed node (node.advance rest) (some (node.unarmed.advance rest)) := by
  cases rest with
  | nil => exact ⟨true, false, rfl, fun _ => .inl rfl, .inr⟩
  | cons row rest => exact ⟨false, false, rfl, .inr, .inr⟩

lemma Rearmed.of_eq {m : CronNode} (hm : m = node'.unarmed)
    (hscheduler : node'.schedulerTimer = node.schedulerTimer)
    (hclaim : node'.claimTimer = node.claimTimer) : Rearmed node node' (some m) :=
  ⟨false, false, congrArg some hm, fun h => .inr (hscheduler ▸ h), fun h => .inr (hclaim ▸ h)⟩

lemma rearmed_checkEnabled (h : node'.schedulerTimer = node.schedulerTimer)
    (h' : node'.claimTimer = node.claimTimer) :
    Rearmed node node'.checkEnabled (some node'.unarmed.checkEnabled) := by
  by_cases hon : (node'.isEnabled && node'.ready) = true
  · refine ⟨false, true, ?_, ?_, fun _ => .inl rfl⟩
    · exact congrArg some ((if_pos hon).trans (by rw [CronNode.checkEnabled, if_pos hon]; rfl))
    · rw [CronNode.checkEnabled, if_pos hon]
      exact fun hs => .inr (h ▸ hs)
  · have hsame : node'.checkEnabled = node' := if_neg hon
    have hsame' : node'.unarmed.checkEnabled = node'.unarmed := if_neg hon
    rw [hsame, hsame']
    exact .of_eq rfl h h'

lemma rearmed_scheduleClaim : Rearmed node node.scheduleClaim (some node.unarmed.scheduleClaim) :=
  ⟨false, true, rfl, .inr, fun _ => .inl rfl⟩

lemma rearmed_continueClaim (node' : CronNode) (h : node'.schedulerTimer = node.schedulerTimer)
    (h' : node'.claimTimer = node.claimTimer) :
    Rearmed node node'.continueClaim (some node'.unarmed.continueClaim) := by
  by_cases hon : node'.isEnabled = true
  · have hfind : node'.continueClaim = { node' with handler := .find } := if_pos hon
    have hfind' : node'.unarmed.continueClaim = { node'.unarmed with handler := .find } :=
      if_pos hon
    rw [hfind, hfind']
    exact .of_eq rfl h h'
  · have hend : node'.continueClaim = node'.scheduleClaim := if_neg hon
    have hend' : node'.unarmed.continueClaim = node'.unarmed.scheduleClaim := if_neg hon
    rw [hend, hend']
    exact ⟨false, true, rfl, fun hs => .inr (h ▸ hs), fun _ => .inl rfl⟩

lemma rearmed_resume (h : node.resume cl name table now draw = some node') :
    Rearmed node node' (node.unarmed.resume cl name table now draw) := by
  unfold CronNode.resume at h ⊢
  have hhandler : node.unarmed.handler = node.handler := rfl
  rw [hhandler]
  split at h
  · exact absurd h (by simp)
  · rename_i hh
    split at h <;> obtain rfl := Option.some.inj h
    · exact .of_eq rfl rfl rfl
    · exact .of_eq rfl rfl rfl
    · exact .of_eq rfl rfl rfl
  · rename_i row rest hh
    split at h
    · obtain rfl := Option.some.inj h
      exact rearmed_advance rest
    · rename_i schedule hparse
      by_cases hneeds : needsDelay row schedule = true
      · rw [if_pos hneeds] at h ⊢
        by_cases haff :
            table.affected ((CronNode.delayStatement draw row schedule).update cl.zones) = 0
        · rw [if_pos haff] at h ⊢
          obtain rfl := Option.some.inj h
          exact rearmed_advance rest
        · rw [if_neg haff] at h ⊢
          obtain rfl := Option.some.inj h
          exact .of_eq rfl rfl rfl
      · rw [if_neg hneeds] at h ⊢
        obtain rfl := Option.some.inj h
        exact .of_eq rfl rfl rfl
  · rename_i row schedule delay rest hh
    by_cases hhangs : (nextRunOf schedule row delay).isNone = true
    · rw [if_pos hhangs] at h
      exact absurd h (by simp)
    · rw [if_neg hhangs] at h ⊢
      obtain rfl := Option.some.inj h
      exact rearmed_advance rest
  · rename_i hh
    split at h
    · obtain rfl := Option.some.inj h
      exact .of_eq rfl rfl rfl
    · rename_i delta _
      by_cases hlater : 0 < delta
      · rw [if_pos hlater] at h ⊢
        obtain rfl := Option.some.inj h
        exact rearmed_scheduleClaim
      · rw [if_neg hlater] at h ⊢
        obtain rfl := Option.some.inj h
        exact .of_eq rfl rfl rfl
  · rename_i hh
    have henabled : node.unarmed.isEnabled = node.isEnabled := rfl
    simp only [henabled]
    by_cases hon : node.isEnabled = true
    · rw [if_pos hon] at h ⊢
      split at h <;> obtain rfl := Option.some.inj h
      · exact rearmed_scheduleClaim
      · exact .of_eq rfl rfl rfl
    · rw [if_neg hon] at h ⊢
      obtain rfl := Option.some.inj h
      exact rearmed_scheduleClaim
  · rename_i job hh
    by_cases haff : table.affected (claimJob job.id name leaseTimeout now) = 0
    · rw [if_pos haff] at h ⊢
      obtain rfl := Option.some.inj h
      exact rearmed_continueClaim _ rfl rfl
    · rw [if_neg haff] at h ⊢
      obtain rfl := Option.some.inj h
      exact rearmed_continueClaim (node.onJob cl name now job) rfl rfl

lemma rearmed_fail (h : node.fail = some node') : Rearmed node node' node.unarmed.fail := by
  unfold CronNode.fail at h ⊢
  have hhandler : node.unarmed.handler = node.handler := rfl
  have henabled : node.unarmed.isEnabled = node.isEnabled := rfl
  rw [hhandler]
  split at h
  · exact absurd h (by simp)
  · obtain rfl := Option.some.inj h
    exact .of_eq rfl rfl rfl
  · rename_i row rest hh
    split at h
    · exact absurd h (by simp)
    · obtain ⟨hguard, rfl⟩ := of_guard h
      rw [if_pos hguard]
      exact rearmed_advance rest
  · rename_i row schedule delay rest hh
    obtain ⟨hguard, rfl⟩ := of_guard_not h
    rw [if_neg hguard]
    exact rearmed_advance rest
  · obtain rfl := Option.some.inj h
    exact .of_eq rfl rfl rfl
  · obtain ⟨hguard, rfl⟩ := of_guard h
    simp only [henabled, if_pos hguard]
    exact .of_eq rfl rfl rfl
  · obtain rfl := Option.some.inj h
    exact rearmed_continueClaim node rfl rfl

/-- A switch that was turned, with `CheckEnabled` if it matters. -/
lemma rearmed_enableFull (h : node'.schedulerTimer = node.schedulerTimer)
    (h' : node'.claimTimer = node.claimTimer) :
    Rearmed node node'.enableFull (some node'.unarmed.enableFull) := by
  by_cases hfull : node'.disabledFull = true
  · have hsame : node'.enableFull =
        ({ node' with disabledFull := false } : CronNode).checkEnabled := if_pos hfull
    have hsame' : node'.unarmed.enableFull =
        ({ node' with disabledFull := false } : CronNode).unarmed.checkEnabled := if_pos hfull
    rw [hsame, hsame']
    exact rearmed_checkEnabled h h'
  · have hsame : node'.enableFull = node' := if_neg hfull
    have hsame' : node'.unarmed.enableFull = node'.unarmed := if_neg hfull
    rw [hsame, hsame']
    exact .of_eq rfl h h'

lemma rearmed_onCompletion (i : ℕ) :
    Rearmed node (node.onCompletion cl name i) (some (node.unarmed.onCompletion cl name i)) := by
  by_cases hfree : (node.running.eraseIdx i).length < cl.concurrency name
  · have hsame : node.onCompletion cl name i =
        ({ node with running := node.running.eraseIdx i } : CronNode).enableFull := if_pos hfree
    have hsame' : node.unarmed.onCompletion cl name i =
        ({ node with running := node.running.eraseIdx i } : CronNode).unarmed.enableFull :=
      if_pos hfree
    rw [hsame, hsame']
    exact rearmed_enableFull rfl rfl
  · have hsame : node.onCompletion cl name i = { node with running := node.running.eraseIdx i } :=
      if_neg hfree
    have hsame' : node.unarmed.onCompletion cl name i =
        { node.unarmed with running := node.running.eraseIdx i } := if_neg hfree
    rw [hsame, hsame']
    exact .of_eq rfl rfl rfl

/-- **What an event does to the timers**, unless it is a timer itself. -/
lemma rearmed_of_step (h : node.step cl name table now ev = some node')
    (hscheduler : ev ≠ .schedulerTimer) (hexpire : ev ≠ .expireFailed) (hclaim : ev ≠ .claimTimer) :
    Rearmed node node' (node.unarmed.step cl name table now ev) := by
  cases ev with
  | connect =>
      obtain ⟨hguard, rfl⟩ := of_guard h
      exact ⟨true, true, if_pos hguard, fun _ => .inl rfl, fun _ => .inl rfl⟩
  | disconnect =>
      obtain ⟨hguard, rfl⟩ := of_guard h
      exact ⟨false, false, if_pos hguard, fun h => absurd h (by simp [CronNode.onDisconnect]),
        fun h => absurd h (by simp [CronNode.onDisconnect])⟩
  | setStateEnabled enabled =>
      obtain ⟨hguard, rfl⟩ := of_guard h
      have hstep : node.unarmed.step cl name table now (.setStateEnabled enabled) =
          some (node.unarmed.setStateEnabled enabled) := if_pos hguard
      rw [hstep]
      by_cases hsame : enabled = node.enabledState
      · have heq : node.setStateEnabled enabled = node := if_pos hsame
        have heq' : node.unarmed.setStateEnabled enabled = node.unarmed := if_pos hsame
        rw [heq, heq']
        exact .of_eq rfl rfl rfl
      · have heq : node.setStateEnabled enabled =
            ({ node with enabledState := enabled } : CronNode).checkEnabled := if_neg hsame
        have heq' : node.unarmed.setStateEnabled enabled =
            ({ node with enabledState := enabled } : CronNode).unarmed.checkEnabled := if_neg hsame
        rw [heq, heq']
        exact rearmed_checkEnabled rfl rfl
  | enableAdmin =>
      obtain ⟨hguard, rfl⟩ := of_guard h
      have hstep : node.unarmed.step cl name table now .enableAdmin =
          some node.unarmed.enableAdmin := if_pos hguard
      rw [hstep]
      by_cases hon : node.enabledAdmin = true
      · have heq : node.enableAdmin = node := if_pos hon
        have heq' : node.unarmed.enableAdmin = node.unarmed := if_pos hon
        rw [heq, heq']
        exact .of_eq rfl rfl rfl
      · have heq : node.enableAdmin =
            ({ node with enabledAdmin := true } : CronNode).checkEnabled := if_neg hon
        have heq' : node.unarmed.enableAdmin =
            ({ node with enabledAdmin := true } : CronNode).unarmed.checkEnabled := if_neg hon
        rw [heq, heq']
        exact rearmed_checkEnabled rfl rfl
  | disableAdmin =>
      obtain ⟨hguard, rfl⟩ := of_guard h
      exact ⟨false, false, if_pos hguard, .inr, .inr⟩
  | schedulerTimer => exact absurd rfl hscheduler
  | expireFailed => exact absurd rfl hexpire
  | claimTimer => exact absurd rfl hclaim
  | notify =>
      simp only [CronNode.step] at h ⊢
      split at h
      · rename_i channel rest hidle hnotifies
        obtain rfl := Option.some.inj h
        split
        · rename_i channel' rest' _ hnotifies'
          obtain ⟨rfl, rfl⟩ := List.cons.inj (hnotifies'.symm.trans hnotifies)
          cases channel' with
          | cronjobsModified => exact ⟨true, false, rfl, fun _ => .inl rfl, .inr⟩
          | cronjobsScheduled => exact ⟨false, true, rfl, .inr, fun _ => .inl rfl⟩
        · rename_i hno
          exact absurd hnotifies (hno channel rest hidle)
      · exact absurd h (by simp)
  | resume draw => exact rearmed_resume h
  | failed => exact rearmed_fail h
  | lost draw =>
      obtain ⟨next, hnext, rfl⟩ := Option.map_eq_some_iff.mp h
      obtain ⟨a, b, hnext', _⟩ := rearmed_resume hnext
      refine ⟨false, false, ?_, fun h => absurd h (by simp [CronNode.onDisconnect]),
        fun h => absurd h (by simp [CronNode.onDisconnect])⟩
      simp only [CronNode.step, hnext', Option.map_some]
      rfl
  | translated i timeout =>
      obtain ⟨hguard, h⟩ := Option.ite_none_right_eq_some.mp h
      obtain ⟨r, hr, rfl⟩ := Option.map_eq_some_iff.mp h
      have hstep : node.unarmed.step cl name table now (.translated i timeout) =
          node.unarmed.running[i]?.map fun r =>
            if 0 < timeout then
              { node.unarmed with
                running := node.unarmed.running.set i
                  { r with timeoutEvent := some (now + timeout) } }
            else node.unarmed := if_pos hguard
      have hr' : node.unarmed.running[i]? = some r := hr
      rw [hstep, hr', Option.map_some]
      by_cases hpos : 0 < timeout
      · rw [if_pos hpos, if_pos hpos]
        exact .of_eq rfl rfl rfl
      · rw [if_neg hpos, if_neg hpos]
        exact .of_eq rfl rfl rfl
  | complete i =>
      obtain ⟨hguard, h⟩ := Option.ite_none_right_eq_some.mp h
      obtain ⟨r, hr, rfl⟩ := Option.map_eq_some_iff.mp h
      have hstep : node.unarmed.step cl name table now (.complete i) =
          node.unarmed.running[i]?.map fun _ => node.unarmed.onCompletion cl name i :=
        if_pos hguard
      have hr' : node.unarmed.running[i]? = some r := hr
      rw [hstep, hr', Option.map_some]
      exact rearmed_onCompletion i
  | timeout i =>
      obtain ⟨hguard, h⟩ := Option.ite_none_right_eq_some.mp h
      obtain ⟨r, hr, rfl⟩ := Option.map_eq_some_iff.mp h
      have hstep : node.unarmed.step cl name table now (.timeout i) =
          (node.unarmed.running[i]?.filter fun r => r.timeoutEvent.any fun t => t ≤ now).map
            fun _ => node.unarmed.onCompletion cl name i := if_pos hguard
      have hr' : (node.unarmed.running[i]?.filter fun r =>
          r.timeoutEvent.any fun t => t ≤ now) = some r := hr
      rw [hstep, hr', Option.map_some]
      exact rearmed_onCompletion i
  | finishFailed i =>
      obtain ⟨hguard, h⟩ := Option.ite_none_right_eq_some.mp h
      obtain ⟨r, hr, rfl⟩ := Option.map_eq_some_iff.mp h
      have hstep : node.unarmed.step cl name table now (.finishFailed i) =
          node.unarmed.running[i]?.map fun _ => node.unarmed.onCompletion cl name i :=
        if_pos hguard
      have hr' : node.unarmed.running[i]? = some r := hr
      rw [hstep, hr', Option.map_some]
      exact rearmed_onCompletion i

/-- What an event may have done that leaves an enabled node with its claim timer pending without
arming it, unless it has found nothing to wait for: the node was enabled before, with the same timer
and the same notifications to read. -/
structure ClaimKept (node node' : CronNode) : Prop where
  ready : node.ready = true
  enabled : node.isEnabled = true
  resting : claimWatch.busy node.handler = false
  notifies : .cronjobsScheduled ∈ node.notifies → .cronjobsScheduled ∈ node'.notifies

lemma armed_continueClaim (h : claimWatch.busy node.continueClaim.handler = false) :
    node.continueClaim.claimTimer = true := by
  unfold CronNode.continueClaim at h ⊢
  split at h
  · exact absurd h (by simp [claimWatch])
  · rename_i hoff
    rw [if_neg hoff]
    rfl

/-- The same event with no timer pending before. -/
lemma claimKept_of_turns {m : CronNode} (h : Turns cl name table now ev node.unarmed m)
    (hfails : ev = .failed → node.handler ≠ .find ∧ node.handler ≠ .check)
    (htimer : m.claimTimer = false) (hready : m.ready = true) (hen : m.isEnabled = true)
    (hresting : claimWatch.busy m.handler = false) :
    findEarliestPending table now = none ∨ ClaimKept node m := by
  have harmed : m.claimTimer ≠ true := by simp [htimer]
  cases h with
  | connected => exact absurd rfl harmed
  | dropped hdropped => exact absurd (hdropped.symm.trans hready) (by simp)
  | kept _ hnotifies hhandler hready' hclaim =>
      obtain hclaim | ⟨hen', _⟩ := hclaim hen hready
      · exact absurd hclaim harmed
      · exact .inr ⟨hready'.symm.trans hready, hen', hhandler ▸ hresting, fun h => hnotifies ▸ h⟩
  | schedulerFired hidle =>
      have hidle' : node.handler = .idle := hidle
      exact .inr ⟨hready, hen, by rw [hidle']; rfl, id⟩
  | claimFired _ =>
      have hen' : node.unarmed.isEnabled = true := hen
      rw [if_pos hen'] at hresting
      exact absurd hresting (by simp [claimWatch])
  | @notified channel rest hidle hcons =>
      cases channel with
      | cronjobsScheduled => exact absurd rfl harmed
      | cronjobsModified =>
          have hidle' : node.handler = .idle := hidle
          have hcons' : node.notifies = .cronjobsModified :: rest := hcons
          refine .inr ⟨hready, hen, by rw [hidle']; rfl, fun hmem => ?_⟩
          rw [hcons'] at hmem
          exact (List.mem_cons.mp hmem).resolve_left (by simp)
  | moved hev hmoves =>
      cases hmoves with
      | aborted hh _ | nothingSelected hh _ | selected hh _ | delayed hh _ _ =>
          have hh' : node.handler = _ := hh
          exact .inr ⟨hready, hen, by rw [hh']; rfl, id⟩
      | @advanced row rest hh =>
          have hidle : claimWatch.busy node.unarmed.handler = false := by
            obtain hh | ⟨_, _, hh⟩ := hh <;> rw [hh] <;> rfl
          cases rest with
          | nil => exact .inr ⟨hready, hen, hidle, id⟩
          | cons row' rest => exact .inr ⟨hready, hen, hidle, id⟩
      | nothingPending _ hnone => exact .inl hnone
      | scheduledClaim _ => exact absurd rfl harmed
      | pending _ => exact absurd hresting (by simp [claimWatch])
      | checked _ _ => exact absurd hresting (by simp [claimWatch])
      | lostRace _ _ | claimed _ _ => exact absurd rfl (armed_continueClaim hresting ▸ harmed)
  | failed hev hfail =>
      cases hfail with
      | aborted hh =>
          obtain ⟨hfind, hcheck⟩ := hfails hev
          have hselect : node.handler = .select :=
            hh.resolve_right fun h => h.elim hfind hcheck
          exact .inr ⟨hready, hen, by rw [hselect]; rfl, id⟩
      | @advanced row rest hh =>
          have hidle : claimWatch.busy node.unarmed.handler = false := by
            obtain hh | ⟨_, _, hh⟩ := hh <;> rw [hh] <;> rfl
          cases rest with
          | nil => exact .inr ⟨hready, hen, hidle, id⟩
          | cons row' rest => exact .inr ⟨hready, hen, hidle, id⟩
      | unclaimed _ => exact absurd rfl (armed_continueClaim hresting ▸ harmed)
  | expireFailed _ hidle =>
      have hidle' : node.handler = .idle := hidle
      exact .inr ⟨hready, hen, by rw [hidle']; rfl, id⟩

/-- **An event that leaves the claim timer pending** arms it, or has found no job to wait for, or
leaves alone everything that matters. -/
lemma claimKept_of_step (h : node.step cl name table now ev = some node')
    (hfails : ev = .failed → node.handler ≠ .find ∧ node.handler ≠ .check)
    (harms : node.arms CronNode.claimTimer cl name table now ev = false)
    (htimer : node'.claimTimer = true) (hready : node'.ready = true) (hen : node'.isEnabled = true)
    (hresting : claimWatch.busy node'.handler = false) :
    findEarliestPending table now = none ∨ ClaimKept node node' := by
  by_cases hscheduler : ev = .schedulerTimer
  · subst hscheduler
    obtain ⟨⟨hidle, _⟩, rfl⟩ := of_guard h
    exact .inr ⟨hready, hen, by rw [hidle]; rfl, id⟩
  by_cases hexpire : ev = .expireFailed
  · subst hexpire
    obtain ⟨⟨hidle, _⟩, rfl⟩ := of_guard h
    exact .inr ⟨hready, hen, by rw [hidle]; rfl, id⟩
  by_cases hclaim : ev = .claimTimer
  · subst hclaim
    obtain ⟨_, rfl⟩ := of_guard h
    exact absurd htimer (by simp)
  obtain ⟨a, b, hm, _⟩ := rearmed_of_step h hscheduler hexpire hclaim
  have hunarmed : b = false := by
    rw [CronNode.arms, hm] at harms
    exact harms
  subst hunarmed
  obtain hnone | hkept := claimKept_of_turns (turns_of_step hm) hfails rfl hready hen hresting
  · exact .inl hnone
  · exact .inr ⟨hkept.ready, hkept.enabled, hkept.resting, hkept.notifies⟩

lemma pending_of_step (h : node.step cl name table now ev = some node') :
    (node'.schedulerTimer = true → node.arms CronNode.schedulerTimer cl name table now ev = false →
        node.schedulerTimer = true) ∧
      (node'.claimTimer = true → node.arms CronNode.claimTimer cl name table now ev = false →
        node.claimTimer = true) := by
  by_cases hscheduler : ev = .schedulerTimer
  · subst hscheduler
    obtain ⟨_, rfl⟩ := of_guard h
    exact ⟨fun htimer => absurd htimer (by simp), fun htimer _ => htimer⟩
  by_cases hexpire : ev = .expireFailed
  · subst hexpire
    obtain ⟨_, rfl⟩ := of_guard h
    exact ⟨fun htimer => absurd htimer (by simp), fun htimer _ => htimer⟩
  by_cases hclaim : ev = .claimTimer
  · subst hclaim
    obtain ⟨_, rfl⟩ := of_guard h
    exact ⟨fun htimer _ => htimer, fun htimer => absurd htimer (by simp)⟩
  obtain ⟨a, b, hm, hschedulerTimer, hclaimTimer⟩ := rearmed_of_step h hscheduler hexpire hclaim
  rw [CronNode.arms, CronNode.arms, hm]
  refine ⟨fun htimer harms => ?_, fun htimer harms => ?_⟩
  · exact (hschedulerTimer htimer).resolve_left (by simpa using harms)
  · exact (hclaimTimer htimer).resolve_left (by simpa using harms)

end Rearmed

/-! ## When the timers are due -/

section Delay

variable {table : CronTable} {now due new : ℤ} {old : Option ℤ} {pending armed : Bool}

lemma dueAfter_eq_some (h : dueAfter pending armed new old = some due) :
    pending = true ∧ ((armed = true ∧ new = due) ∨ (armed = false ∧ old = some due)) := by
  unfold dueAfter at h
  split at h
  · rename_i hpending
    split at h
    · rename_i harmed
      exact ⟨hpending, .inl ⟨harmed, Option.some.inj h⟩⟩
    · rename_i harmed
      exact ⟨hpending, .inr ⟨by simpa using harmed, h⟩⟩
  · exact absurd h (by simp)

lemma isSome_dueAfter (hkept : pending = true → armed = false → old.isSome = true) :
    (dueAfter pending armed new old).isSome = pending := by
  unfold dueAfter
  cases pending <;> cases armed <;> simp_all

lemma schedulerDelay_le (random : ℕ) (ev : NodeEvent) : schedulerDelay random ev ≤ 5 * second := by
  have hmod : random % 5000000 < 5000000 := Nat.mod_lt _ (by decide)
  unfold schedulerDelay
  split
  · decide
  · simp only [second]
    omega

/-- `FindEarliestPending` waits for no job longer than until its time. -/
lemma findEarliestPending_le {delta u : ℤ} {r : CronRow}
    (h : findEarliestPending table now = some delta) (hpos : 0 < delta) (hr : r ∈ table.rows)
    (hu : pendingTime r = some u) : now + delta * second ≤ u := by
  obtain ⟨earliest, hmin, rfl⟩ := Option.map_eq_some_iff.mp h
  have hearliest : earliest ≤ u :=
    (List.min?_eq_some_iff.mp hmin).2 u (List.mem_filterMap.mpr ⟨r, hr, hu⟩)
  have hle := min_le_left ((earliest - now).tdiv second) (24 * 3600)
  have hnonneg : 0 ≤ earliest - now := by
    by_contra hneg
    have hquot : 0 ≤ (-(earliest - now)).tdiv second := Int.tdiv_nonneg (by omega) (by decide)
    rw [Int.neg_tdiv] at hquot
    omega
  rw [Int.tdiv_eq_ediv_of_nonneg hnonneg] at hle ⊢
  simp only [second] at hle hpos ⊢
  omega

/-- What the claim timer is armed for: one second, or the earliest job and thirty seconds. -/
lemma claimDelay_le (now : ℤ) (random : ℕ) (handler : Handler) (ev : NodeEvent) {r : CronRow}
    {u : ℤ} (hr : r ∈ table.rows) (hu : pendingTime r = some u) :
    now + claimDelay table now random handler ev ≤ max (u + 30 * second) (now + second) := by
  unfold claimDelay
  split
  · split
    · rename_i delta hfind
      split
      · rename_i hpos
        have htime := findEarliestPending_le hfind hpos hr hu
        have hmod : random % 30000000 < 30000000 := Nat.mod_lt _ (by decide)
        simp only [second] at htime ⊢
        omega
      · exact le_max_right _ _
    · exact le_max_right _ _
  · exact le_max_right _ _

end Delay

/-- **A job that becomes claimable is announced**, each for its own time. -/
lemma pendingTime_announced {cl : Cluster} {s t : State} {e : Event} {r' : CronRow} {u : ℤ}
    (h : step cl s e = some t) (hedit : enablesScheduled s e = false) (hr' : r' ∈ t.table.rows)
    (hu : pendingTime r' = some u) :
    (∃ r ∈ s.table.rows, pendingTime r = some u) ∨ .cronjobsScheduled ∈ e.notifies cl s := by
  let w : Watch := { claimWatch with work := fun r => decide (pendingTime r = some u) }
  have hannounced : w.Announced cl s e t := by
    refine announced_of_rows h ?_ ?_
    · intro r hnew hwork
      obtain ⟨_, _, hnext⟩ := pendingTime_eq_some.mp (of_decide_eq_true hwork)
      obtain ⟨_, _, _, hnone, _⟩ := hnew
      exact absurd (hnone.symm.trans hnext) (by simp)
    · intro st r hst hr hcond hwork
      obtain ⟨hen, hnode, hnext⟩ := pendingTime_eq_some.mp (of_decide_eq_true hwork)
      have hold : r.enabled = true → r.nodeName = none → r.nextRun = some (.finite u) →
          w.work r = true := fun hen hnode hnext =>
        decide_eq_true (pendingTime_eq_some.mpr ⟨hen, hnode, hnext⟩)
      cases st with
      | releaseStale | expireJobs | finishJob =>
          exact absurd hnext (by simp [Statement.update, releaseStale, expireJobs, finishJob])
      | makeRandomDelay => exact .inl (hold hen hnode hnext)
      | claimJob => exact absurd hnode (by simp [Statement.update, claimJob])
      | updateNextRun id schedule lastRun nextRun =>
          obtain ⟨z, hz, _, _, _, _, hnone⟩ := updateNextRun_cond.mp hcond
          refine .inr ?_
          simp only [Statement.update, updateNextRun_set hz] at hen hnode hnext ⊢
          simp [w, claimWatch, firesOn, scheduleCronjob, hen, hnode, hnext, hnone]
      | editJob id ed =>
          obtain rfl := edit_of_statement hst
          have hid : r.id = id := by simpa [Statement.update, editJob] using hcond
          have hkept : ed.clearNextRun = false ∧ r.nextRun = some (.finite u) := by
            simp only [Statement.update, editJob] at hnext
            by_cases hclear : ed.clearNextRun = true
            · rw [if_pos hclear] at hnext
              exact absurd hnext (by simp)
            · rw [if_neg hclear] at hnext
              exact ⟨by simpa using hclear, hnext⟩
          by_cases hold' : r.enabled = true
          · exact .inl (hold hold' hnode hkept.2)
          · -- only a client that enables a job with a `next_run` does so unannounced
            have hpend : (pendingTime { r with enabled := true }).isSome = true :=
              isSome_pendingTime.mpr ⟨rfl, hnode, u, hkept.2⟩
            have hon : ed.enabled = some true := by
              simp only [Statement.update, editJob] at hen
              cases hed : ed.enabled with
              | none =>
                  rw [hed, Option.getD_none] at hen
                  exact absurd hen hold'
              | some b =>
                  rw [hed, Option.getD_some] at hen
                  rw [hen]
            have hfind : s.table.find? id = some r := Table.find?_eq_some.mpr ⟨hr, hid⟩
            simp [enablesScheduled, hfind, hold', hon, hkept.1, hpend] at hedit
  obtain ⟨r, hr, hwork⟩ | hsent := hannounced ⟨r', hr', decide_eq_true hu⟩
  · exact .inl ⟨r, hr, of_decide_eq_true hwork⟩
  · exact .inr hsent

/-! ## The cluster -/

/-- An idle node wakes up when one of its timers is due. -/
def TimersPunctual (w : TimedState) (e : TimedEvent) : Prop :=
  ∀ d, e.event = .tick d → ∀ n, (w.cluster.nodes n).handler = .idle → ∀ due,
    w.schedulerDue n = some due ∨ w.claimDue n = some due →
    w.cluster.now + d ≤ max due w.cluster.now

/-- What is known about the timers of a node. -/
structure InTime (w : TimedState) (n : String) : Prop where
  called : w.called n ≤ w.cluster.now
  schedulerPending : (w.schedulerDue n).isSome = (w.cluster.nodes n).schedulerTimer
  claimPending : (w.claimDue n).isSome = (w.cluster.nodes n).claimTimer
  rested : (w.cluster.nodes n).handler = .idle → ∀ due,
    w.schedulerDue n = some due ∨ w.claimDue n = some due → w.cluster.now ≤ max due (w.called n)
  scheduler : ∀ due, w.schedulerDue n = some due → due ≤ w.called n + 5 * second

/-- The claim timer of an enabled node with nothing to read covers every job that can be claimed. -/
def ClaimCovers (w : TimedState) (n : String) : Prop :=
  (w.cluster.nodes n).ready = true → (w.cluster.nodes n).isEnabled = true →
    claimWatch.busy (w.cluster.nodes n).handler = false →
    .cronjobsScheduled ∉ (w.cluster.nodes n).notifies → ∀ due, w.claimDue n = some due →
      ∀ r ∈ w.cluster.table.rows, ∀ u, pendingTime r = some u →
        due ≤ max (u + 30 * second) (w.called n + second)

section InTime

variable {cl : Cluster} {w w' : TimedState} {e : TimedEvent} {n : String}

lemma TimedState.of_other (hw : w.step cl e = some w') (hother : ∀ ev, e.event ≠ .node n ev) :
    ∃ t, Cron.step cl w.cluster e.event = some t ∧ w'.cluster = t ∧
      w'.schedulerDue n = w.schedulerDue n ∧ w'.claimDue n = w.claimDue n ∧
      w'.called n = w.called n ∧
      t.nodes n = (w.cluster.nodes n).receive (e.event.notifies cl w.cluster) := by
  obtain ⟨_, hw⟩ := Option.ite_none_right_eq_some.mp hw
  obtain ⟨t, ht, hw⟩ := Option.map_eq_some_iff.mp hw
  refine ⟨t, ht, ?_⟩
  have hnode := step_other ht hother
  cases hevent : e.event with
  | node m ev =>
      rw [hevent] at hw
      subst hw
      have hne : n ≠ m := fun heq => hother ev (by rw [hevent, heq])
      exact ⟨rfl, Function.update_of_ne hne _ _, Function.update_of_ne hne _ _,
        Function.update_of_ne hne _ _, by rw [← hevent]; exact hnode⟩
  | _ =>
      rw [hevent] at hw
      subst hw
      exact ⟨rfl, rfl, rfl, rfl, by rw [← hevent]; exact hnode⟩

lemma TimedState.of_self {ev : NodeEvent} (hw : w.step cl e = some w')
    (hevent : e.event = .node n ev) :
    ∃ t node, Cron.step cl w.cluster e.event = some t ∧ w' = w.afterNode cl n ev e.late e.random t ∧
      (w.cluster.nodes n).step cl n w.cluster.table w.cluster.now ev = some node ∧
      t.nodes n = node.receive (e.event.notifies cl w.cluster) ∧ t.now = w.cluster.now := by
  obtain ⟨_, hw⟩ := Option.ite_none_right_eq_some.mp hw
  obtain ⟨t, ht, hw⟩ := Option.map_eq_some_iff.mp hw
  rw [hevent] at hw ht
  obtain ⟨node, hnode, heq, hnow⟩ := step_self ht
  exact ⟨t, node, by rw [hevent]; exact ht, hw.symm, hnode, by rw [hevent]; exact heq, hnow⟩

/-- **The step lemma**, for the events of other nodes. -/
lemma InTime.of_other (h : InTime w n) (hpunctual : TimersPunctual w e)
    (hw : w.step cl e = some w') (hother : ∀ ev, e.event ≠ .node n ev) : InTime w' n := by
  obtain ⟨t, ht, hcluster, hscheduler, hclaim, hcalled, hnode⟩ := TimedState.of_other hw hother
  have hlater : w.cluster.now ≤ t.now := now_le_of_step ht
  constructor
  · rw [hcalled, hcluster]
    exact h.called.trans hlater
  · rw [hscheduler, hcluster, hnode, CronNode.receive_schedulerTimer]
    exact h.schedulerPending
  · rw [hclaim, hcluster, hnode, CronNode.receive_claimTimer]
    exact h.claimPending
  · rw [hscheduler, hclaim, hcalled, hcluster, hnode, CronNode.receive_handler]
    intro hidle due hdue
    have hrested := h.rested hidle due hdue
    by_cases htick : ∃ d, e.event = .tick d
    · obtain ⟨d, htick⟩ := htick
      have hwait := hpunctual d htick n hidle due hdue
      rw [htick] at ht
      obtain rfl := Option.some.inj ht
      dsimp only at hlater ⊢
      omega
    · rw [now_of_not_tick ht (not_exists.mp htick)]
      exact hrested
  · rw [hscheduler, hcalled]
    exact h.scheduler

/-- **The step lemma**, for the events of the node itself. -/
lemma InTime.of_self {ev : NodeEvent} (h : InTime w n) (hw : w.step cl e = some w')
    (hevent : e.event = .node n ev) : InTime w' n := by
  obtain ⟨t, node, _, rfl, hnode, heq, hnow⟩ := TimedState.of_self hw hevent
  obtain ⟨hscheduler, hclaim⟩ := pending_of_step hnode
  simp only [TimedState.afterNode]
  constructor
  · simp only [Function.update_self, hnow, le_refl]
  · simp only [Function.update_self]
    refine isSome_dueAfter fun htimer harms => ?_
    rw [h.schedulerPending]
    rw [heq, CronNode.receive_schedulerTimer] at htimer
    exact hscheduler htimer harms
  · simp only [Function.update_self]
    refine isSome_dueAfter fun htimer harms => ?_
    rw [h.claimPending]
    rw [heq, CronNode.receive_claimTimer] at htimer
    exact hclaim htimer harms
  · intro _ due _
    simp only [Function.update_self, hnow]
    exact le_max_right _ _
  · intro due hdue
    simp only [Function.update_self] at hdue ⊢
    obtain ⟨_, ⟨_, rfl⟩ | ⟨_, hold⟩⟩ := dueAfter_eq_some hdue
    · have hdelay := schedulerDelay_le e.random ev
      omega
    · exact (h.scheduler due hold).trans (Int.add_le_add_right h.called _)

lemma inTime_step (h : ∀ n, InTime w n) (hpunctual : TimersPunctual w e)
    (hw : w.step cl e = some w') (n : String) : InTime w' n := by
  by_cases hself : ∃ ev, e.event = .node n ev
  · obtain ⟨ev, hevent⟩ := hself
    exact (h n).of_self hw hevent
  · exact (h n).of_other hpunctual hw (not_exists.mp hself)

/-- **The step lemma** for the jobs that can be claimed. -/
lemma claimCovers_step (h : ClaimCovers w n) (hI : InTime w n)
    (hedit : enablesScheduled w.cluster e.event = false)
    (hfails : failsClaim n w.cluster e.event = false) (hw : w.step cl e = some w') :
    ClaimCovers w' n := by
  intro hready hen hresting hread due hdue r' hr' u hu
  by_cases hself : ∃ ev, e.event = .node n ev
  · obtain ⟨ev, hevent⟩ := hself
    obtain ⟨t, node, ht, rfl, hnode, heq, hnow⟩ := TimedState.of_self hw hevent
    simp only [TimedState.afterNode] at *
    simp only [Function.update_self] at *
    rw [heq, CronNode.receive_ready] at hready
    rw [heq, CronNode.receive_isEnabled] at hen
    rw [heq, CronNode.receive_handler] at hresting
    rw [heq, CronNode.mem_receive hready, not_or] at hread
    obtain ⟨r, hr, hu⟩ := (pendingTime_announced ht hedit hr' hu).resolve_right hread.2
    obtain ⟨htimer, ⟨_, rfl⟩ | ⟨harms, hold⟩⟩ := dueAfter_eq_some hdue
    · have hdelay := claimDelay_le w.cluster.now e.random (w.cluster.nodes n).handler ev hr hu
      omega
    · rw [heq, CronNode.receive_claimTimer] at htimer
      have hno : ev = .failed →
          (w.cluster.nodes n).handler ≠ .find ∧ (w.cluster.nodes n).handler ≠ .check := by
        rintro rfl
        simpa [failsClaim, hevent] using hfails
      obtain hnone | hkept := claimKept_of_step hnode hno harms htimer hready hen hresting
      · exact absurd hu (by simp [findEarliestPending_eq_none hnone r hr])
      · have hcovers := h hkept.ready hkept.enabled hkept.resting
          (fun hmem => hread.1 (hkept.notifies hmem)) due hold r hr u hu
        have hcalled := hI.called
        omega
  · obtain ⟨t, ht, hcluster, _, hclaim, hcalled, hnode⟩ :=
      TimedState.of_other hw (not_exists.mp hself)
    rw [hcluster, hnode, CronNode.receive_ready] at hready
    rw [hcluster, hnode, CronNode.receive_isEnabled] at hen
    rw [hcluster, hnode, CronNode.receive_handler] at hresting
    rw [hcluster, hnode, CronNode.mem_receive hready, not_or] at hread
    rw [hcluster] at hr'
    rw [hclaim] at hdue
    rw [hcalled]
    obtain ⟨r, hr, hu⟩ := (pendingTime_announced ht hedit hr' hu).resolve_right hread.2
    exact h hready hen hresting hread.1 due hdue r hr u hu

lemma TimedState.cluster_step (hw : w.step cl e = some w') :
    Cron.step cl w.cluster e.event = some w'.cluster := by
  obtain ⟨_, hw⟩ := Option.ite_none_right_eq_some.mp hw
  obtain ⟨t, ht, hw⟩ := Option.map_eq_some_iff.mp hw
  rw [ht, ← hw]
  cases e.event <;> rfl

/-- **Cron nodes wake up in time.**  In every run of a cluster of unconnected nodes whose timers are
punctual, an idle node with a connection and without a notification to read has found out about
every job: if the queue is enabled, no client has enabled a job with a `next_run` and no `SELECT` of
its `RunClaim` has failed while the connection stayed, a job that can be claimed is overdue by
thirty seconds at most, or the node has done something at most a second ago; and under the
conditions under which no wake-up of its scheduler is lost, if there is a job to be scheduled the
node has done something at most five seconds ago. -/
theorem wakes_in_time (cl : Cluster) {s : State} {tr : List (TimedState × TimedEvent)}
    (hnew : ∀ n, (s.nodes n).ready = false ∧ (s.nodes n).schedulerTimer = false ∧
      (s.nodes n).claimTimer = false)
    (hrun : Run (TimedState.step cl) { cluster := s, called := fun _ => s.now } tr w)
    (hpunctual : ∀ p ∈ tr, TimersPunctual p.1 p.2)
    (hready : (w.cluster.nodes n).ready = true) (hidle : (w.cluster.nodes n).handler = .idle) :
    ((∀ p ∈ tr, enablesScheduled p.1.cluster p.2.event = false ∧
        failsClaim n p.1.cluster p.2.event = false) →
      (w.cluster.nodes n).isEnabled = true → .cronjobsScheduled ∉ (w.cluster.nodes n).notifies →
      ∀ r ∈ w.cluster.table.rows, ∀ u, pendingTime r = some u →
        w.cluster.now ≤ max (u + 30 * second) (w.called n + second)) ∧
    ((∀ p ∈ tr, unschedulesRunning p.1.cluster p.2.event = false ∧
        selectsUnknownZone cl n p.1.cluster p.2.event = false ∧
        failsScheduler n p.1.cluster p.2.event = false) →
      .cronjobsModified ∉ (w.cluster.nodes n).notifies →
      ∀ r ∈ w.cluster.table.rows, needsScheduling r = true →
        w.cluster.now ≤ w.called n + 5 * second) := by
  have hstart : ∀ n, InTime { cluster := s, called := fun _ => s.now } n := by
    intro n
    obtain ⟨_, hscheduler, hclaim⟩ := hnew n
    exact ⟨le_refl _, hscheduler.symm, hclaim.symm, by simp, by simp⟩
  constructor
  · intro hedit hen hread r hr u hu
    obtain ⟨⟨hI, hcovers, hawake⟩, _⟩ := hrun.invariant
      (I := fun w => (∀ n, InTime w n) ∧ ClaimCovers w n ∧ ClaimAwake n w.cluster)
      (C := fun w e => TimersPunctual w e ∧ enablesScheduled w.cluster e.event = false ∧
        failsClaim n w.cluster e.event = false)
      (fun w e w' h hC hw => ⟨inTime_step h.1 hC.1 hw,
        claimCovers_step h.2.1 (h.1 n) hC.2.1 hC.2.2 hw,
        claimAwake_step h.2.2 hC.2.1 hC.2.2 (TimedState.cluster_step hw)⟩)
      ⟨hstart, fun _ _ _ _ due hdue => absurd hdue (by simp),
        fun hready => absurd ((hnew n).1.symm.trans hready) (by simp)⟩
      fun p hp => ⟨hpunctual p hp, hedit p hp⟩
    have htimer := (claimNotLost_of_awake hawake hready hen hidle r hr
      (pendingTime_eq_some.mp hu).1 (pendingTime_eq_some.mp hu).2.1 u
      (pendingTime_eq_some.mp hu).2.2).resolve_right hread
    rw [← (hI n).claimPending] at htimer
    obtain ⟨due, hdue⟩ := Option.isSome_iff_exists.mp htimer
    have hrested := (hI n).rested hidle due (.inr hdue)
    have hdue := hcovers hready hen (by rw [hidle]; rfl) hread due hdue r hr u hu
    simp only [second] at hdue ⊢
    omega
  · intro hquiet hread r hr hneeds
    obtain ⟨⟨hI, hawake⟩, _⟩ := hrun.invariant
      (I := fun w => (∀ n, InTime w n) ∧ SchedulerAwake n w.cluster)
      (C := fun w e => TimersPunctual w e ∧ unschedulesRunning w.cluster e.event = false ∧
        selectsUnknownZone cl n w.cluster e.event = false ∧
        failsScheduler n w.cluster e.event = false)
      (fun w e w' h hC hw => ⟨inTime_step h.1 hC.1 hw,
        schedulerAwake_step h.2 hC.2.1 hC.2.2.1 hC.2.2.2 (TimedState.cluster_step hw)⟩)
      ⟨hstart, fun hready => absurd ((hnew n).1.symm.trans hready) (by simp)⟩
      fun p hp => ⟨hpunctual p hp, hquiet p hp⟩
    obtain htimer | hnotify | hbusy := hawake hready ⟨r, hr, hneeds⟩
    · have htimer' : (w.cluster.nodes n).schedulerTimer = true := htimer
      rw [← (hI n).schedulerPending] at htimer'
      obtain ⟨due, hdue⟩ := Option.isSome_iff_exists.mp htimer'
      have hrested := (hI n).rested hidle due (.inl hdue)
      have hlimit := (hI n).scheduler due hdue
      simp only [second] at hlimit ⊢
      omega
    · exact absurd hnotify hread
    · exact absurd hbusy (by simp [hidle, schedulerWatch])

/-- The condition on the timers, for nodes with these names that are the only ones to do
something. -/
def timersAmong (names : List String) (w : TimedState) : Event → Bool
  | .tick d => names.all fun n =>
      ((w.schedulerDue n).all fun due => w.cluster.now + d ≤ max due w.cluster.now) &&
        (w.claimDue n).all fun due => w.cluster.now + d ≤ max due w.cluster.now
  | .node n _ => n ∈ names
  | _ => true

/-- Whether the timers are punctual is a question about the nodes that do something. -/
lemma timersPunctual_of_among (names : List String) {s : State}
    {tr : List (TimedState × TimedEvent)}
    (hrun : Run (TimedState.step cl) { cluster := s, called := fun _ => s.now } tr w)
    (hamong : ∀ p ∈ tr, timersAmong names p.1 p.2.event = true) :
    ∀ p ∈ tr, TimersPunctual p.1 p.2 := by
  obtain ⟨-, hnone⟩ := hrun.invariant
    (I := fun u => ∀ n, n ∉ names → u.schedulerDue n = none ∧ u.claimDue n = none)
    (C := fun u e => timersAmong names u e.event = true)
    (by
      intro u e u' hu hC hstep n hn
      have hother : ∀ ev, e.event ≠ .node n ev := by
        intro ev hevent
        rw [hevent] at hC
        exact hn (of_decide_eq_true hC)
      obtain ⟨_, _, _, hscheduler, hclaim, _⟩ := TimedState.of_other hstep hother
      rw [hscheduler, hclaim]
      exact hu n hn)
    (fun n _ => ⟨rfl, rfl⟩) hamong
  rintro ⟨u, e⟩ hp d htick n _ due hdue
  have hpunctual := hamong (u, e) hp
  rw [htick] at hpunctual
  simp only [timersAmong, List.all_eq_true, Bool.and_eq_true] at hpunctual
  by_cases hn : n ∈ names
  · obtain ⟨hscheduler, hclaim⟩ := hpunctual n hn
    rcases hdue with hdue | hdue
    · rw [hdue] at hscheduler
      simpa using hscheduler
    · rw [hdue] at hclaim
      simpa using hclaim
  · obtain ⟨hscheduler, hclaim⟩ := hnone (u, e) hp n hn
    rcases hdue with hdue | hdue
    · rw [hscheduler] at hdue
      exact absurd hdue (by simp)
    · rw [hclaim] at hdue
      exact absurd hdue (by simp)

/-- The job of `oneJob`, ten seconds before its time. -/
def tenSecondsEarly : State := { oneJob with now := -10000000 }

/-- A node finds that the job is due in nine seconds, and waits for twenty-nine seconds more. -/
def waitsLonger : List TimedEvent :=
  [⟨.node "a" .connect, 0, 0⟩, ⟨.node "a" (.setStateEnabled true), 0, 0⟩,
    ⟨.node "a" .schedulerTimer, 0, 0⟩, ⟨.node "a" (.resume 0), 0, 0⟩, ⟨.tick 1000000, 0, 0⟩,
    ⟨.node "a" .claimTimer, 0, 0⟩, ⟨.node "a" (.resume 0), 0, 29000000⟩, ⟨.tick 37000000, 0, 0⟩]

theorem wakes_in_time_waitsLonger : ∃ w,
    final (TimedState.step smallCluster)
        { cluster := tenSecondsEarly, called := fun _ => tenSecondsEarly.now } waitsLonger =
      some w ∧
      w.cluster.now = 28000000 ∧ w.called "a" = -9000000 ∧
      ∀ r ∈ w.cluster.table.rows, ∀ u, pendingTime r = some u →
        w.cluster.now ≤ max (u + 30 * second) (w.called "a" + second) := by
  have hview : (final (TimedState.step smallCluster)
      { cluster := tenSecondsEarly, called := fun _ => tenSecondsEarly.now } waitsLonger).map
        (fun w => (w.cluster.now, w.called "a", (w.cluster.nodes "a").ready &&
          decide ((w.cluster.nodes "a").handler = .idle) && (w.cluster.nodes "a").isEnabled &&
          decide (.cronjobsScheduled ∉ (w.cluster.nodes "a").notifies))) =
      some (28000000, -9000000, true) := by
    decide +kernel
  obtain ⟨w, hw, hview⟩ := Option.map_eq_some_iff.mp hview
  simp only [Prod.mk.injEq, Bool.and_eq_true, decide_eq_true_eq] at hview
  obtain ⟨hnow, hcalled, ⟨⟨hready, hidle⟩, hen⟩, hread⟩ := hview
  have hrun := Run.of_final hw
  have hpunctual := timersPunctual_of_among ["a"] hrun (by decide +kernel)
  obtain ⟨hclaims, _⟩ := wakes_in_time smallCluster (fun _ => ⟨rfl, rfl, rfl⟩) hrun hpunctual
    hready hidle
  exact ⟨w, hw, hnow, hcalled, hclaims (by decide +kernel) hen hread⟩

end InTime

end Workshop.Cron

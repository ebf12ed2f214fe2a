import Mathlib.Data.Finset.Insert
import Workshop.Jobs.Queue

/-!
# Progress notifications

`SetJobProgress` and `OnProgressNotifyTimer` of `WorkshopQueue` (`src/workshop/Queue.cxx`).  Plans
that have seen progress are collected in a set, which a timer of its own submits and empties a
quarter of a second later.  The timer is armed only by a plan that is new in the set, while it is
not pending.

`OnDisconnect` cancels this timer with the others, and leaves the set alone.  So the set and the
timer stay in step exactly as long as no connection is lost while the set has plans in it
(`notifiesPending_iff`); once one is, progress of these plans is not notified any more, even after
the next connection (`notifies_stuck`).
-/

namespace Workshop.Jobs

open Workshop.Lib

variable {α : Type*}

/-- `WorkshopQueue` with its progress notifications. -/
structure NotifyingQueue (α : Type*) where
  queue : WorkshopQueue α := {}
  progressNotifyPlans : Finset String := ∅
  progressNotifyTimer : Bool := false
  deriving DecidableEq

/-- How the statements of an operation end: they are executed, or one of them fails, after which
`CheckError` may find that the connection is lost. -/
inductive Outcome
  | executed
  | failed
  | lost
  deriving DecidableEq, Repr

/-- What can happen to the queue and its progress notifications. -/
inductive ProgressEvent (α : Type*)
  | queue (e : QueueEvent α)
  | setJobProgress (planName : String) (notify : Bool) (outcome : Outcome)
  | progressNotifyTimer (outcome : Outcome)
  deriving DecidableEq, Repr

namespace NotifyingQueue

variable (q : NotifyingQueue α)

/-- `OnDisconnect`. -/
def onDisconnect : NotifyingQueue α :=
  { q with progressNotifyTimer := false, queue := q.queue.onDisconnect }

/-- `SetJobProgress`, up to its statement. -/
def noteProgress (planName : String) (notify : Bool) : NotifyingQueue α :=
  if notify then
    let inserted := planName ∉ q.progressNotifyPlans
    { q with
      progressNotifyPlans := insert planName q.progressNotifyPlans
      progressNotifyTimer :=
        if inserted ∧ !q.progressNotifyTimer then true else q.progressNotifyTimer }
  else q

/-- The end of the statements of an operation. -/
def endStatements : Outcome → Option (NotifyingQueue α)
  | .executed => if q.queue.ready then some q else none
  | .failed => some q
  | .lost => if q.queue.ready then some q.onDisconnect else none

/-- `OnProgressNotifyTimer`, up to its statements. -/
def fireNotifyTimer : NotifyingQueue α := { q with progressNotifyTimer := false }

/-- The end of `OnProgressNotifyTimer`. -/
def clearPlans : NotifyingQueue α := { q with progressNotifyPlans := ∅ }

/-- One event.  The other operations of the queue touch neither the set nor the timer, unless they
lose the connection. -/
def step : ProgressEvent α → Option (NotifyingQueue α)
  | .queue .disconnect => if q.queue.ready then some q.onDisconnect else none
  | .queue e => (q.queue.step e).map fun queue => { q with queue }
  | .setJobProgress planName notify outcome =>
      (q.noteProgress planName notify).endStatements outcome
  | .progressNotifyTimer outcome =>
    if q.queue.running.isNone ∧ q.progressNotifyTimer then
      (q.fireNotifyTimer.endStatements outcome).map clearPlans
    else none

/-- The queue is the one of `WorkshopQueue.step`: the notifications do not interfere with it. -/
theorem step_queue {q q' : NotifyingQueue α} {e : ProgressEvent α} (h : q.step e = some q') :
    q'.queue = q.queue ∨ ∃ e', q.queue.step e' = some q'.queue := by
  have hnoted : ∀ planName notify, (q.noteProgress planName notify).queue = q.queue := by
    intro planName notify
    unfold noteProgress
    split <;> rfl
  have hend : ∀ {p p' : NotifyingQueue α} {outcome : Outcome}, p.endStatements outcome = some p' →
      p'.queue = p.queue ∨ ∃ e', p.queue.step e' = some p'.queue := by
    intro p p' outcome hp
    cases outcome with
    | executed =>
        obtain ⟨_, rfl⟩ := of_guard hp
        exact .inl rfl
    | failed =>
        obtain rfl := Option.some.inj hp
        exact .inl rfl
    | lost =>
        obtain ⟨hready, rfl⟩ := of_guard hp
        exact .inr ⟨.disconnect, if_pos hready⟩
  cases e with
  | queue e =>
      right
      by_cases hdisconnect : e = .disconnect
      · subst hdisconnect
        obtain ⟨hready, rfl⟩ := of_guard h
        exact ⟨.disconnect, if_pos hready⟩
      · rw [step] at h
        · obtain ⟨queue, hqueue, rfl⟩ := Option.map_eq_some_iff.mp h
          exact ⟨e, hqueue⟩
        · exact hdisconnect
  | setJobProgress planName notify outcome =>
      rw [← hnoted planName notify]
      exact hend h
  | progressNotifyTimer outcome =>
      simp only [step] at h
      split at h
      · obtain ⟨p, hp, rfl⟩ := Option.map_eq_some_iff.mp h
        have hqueue := hend hp
        exact hqueue
      · cases h

end NotifyingQueue

/-! ## Notifications that are submitted -/

/-- **Plans to notify of have the timer pending.** -/
def NotifiesPending (q : NotifyingQueue α) : Prop :=
  q.progressNotifyPlans ≠ ∅ → q.progressNotifyTimer = true

/-- The event loses the connection.  `OnProgressNotifyTimer` does not count: it empties the set
afterwards. -/
def ProgressEvent.losesConnection [DecidableEq α] : ProgressEvent α → Bool
  | .queue e => e == .disconnect
  | .setJobProgress _ _ outcome => outcome == .lost
  | .progressNotifyTimer _ => false

/-- The plans in the set when the statements of the event end. -/
def NotifyingQueue.notedPlans (q : NotifyingQueue α) : ProgressEvent α → Finset String
  | .setJobProgress planName notify _ => (q.noteProgress planName notify).progressNotifyPlans
  | _ => q.progressNotifyPlans

/-- No connection is lost while there are plans to notify of. -/
def KeepsNotifies [DecidableEq α] (q : NotifyingQueue α) (e : ProgressEvent α) : Prop :=
  e.losesConnection = true → q.notedPlans e = ∅

instance [DecidableEq α] (q : NotifyingQueue α) (e : ProgressEvent α) :
    Decidable (KeepsNotifies q e) :=
  inferInstanceAs (Decidable (_ → _))

section

variable [DecidableEq α] {q q' : NotifyingQueue α} {e : ProgressEvent α}

omit [DecidableEq α] in
/-- Without its timer, the queue must not have plans. -/
lemma notifiesPending_of_cancelled (h : q.progressNotifyTimer = false) :
    NotifiesPending q ↔ q.progressNotifyPlans = ∅ := by
  rw [NotifiesPending, h]
  simp

omit [DecidableEq α] in
lemma NotifiesPending.noteProgress (h : NotifiesPending q) (planName : String) (notify : Bool) :
    NotifiesPending (q.noteProgress planName notify) := by
  unfold NotifyingQueue.noteProgress
  split
  · intro _
    simp only
    split
    · rfl
    · rename_i hidle
      -- the plan was in the set already, or the timer was pending
      by_cases hmem : planName ∈ q.progressNotifyPlans
      · exact h (Finset.ne_empty_of_mem hmem)
      · simpa [hmem] using hidle
  · exact h

/-- **Step rule**: a step keeps the timer in step with the plans exactly if it does not lose the
connection while there are plans. -/
lemma notifiesPending_step (h : NotifiesPending q) (hstep : q.step e = some q') :
    NotifiesPending q' ↔ KeepsNotifies q e := by
  cases e with
  | queue e =>
      by_cases hdisconnect : e = .disconnect
      · subst hdisconnect
        obtain ⟨_, rfl⟩ := of_guard hstep
        rw [notifiesPending_of_cancelled rfl]
        exact ⟨fun hempty _ => hempty, fun hkeeps => hkeeps rfl⟩
      · have hkeeps : KeepsNotifies q (.queue e) := fun hloses => by
          exact absurd (beq_iff_eq.mp hloses) hdisconnect
        rw [NotifyingQueue.step] at hstep
        · obtain ⟨queue, _, rfl⟩ := Option.map_eq_some_iff.mp hstep
          exact iff_of_true h hkeeps
        · exact hdisconnect
  | setJobProgress planName notify outcome =>
      have hnoted := h.noteProgress planName notify
      cases outcome with
      | executed =>
          obtain ⟨_, rfl⟩ := of_guard hstep
          exact iff_of_true hnoted fun hloses => by cases hloses
      | failed =>
          obtain rfl := Option.some.inj hstep
          exact iff_of_true hnoted fun hloses => by cases hloses
      | lost =>
          obtain ⟨_, rfl⟩ := of_guard hstep
          rw [notifiesPending_of_cancelled rfl]
          exact ⟨fun hempty _ => hempty, fun hkeeps => hkeeps rfl⟩
  | progressNotifyTimer outcome =>
      -- the set is empty afterwards, whatever became of the notifications
      simp only [NotifyingQueue.step] at hstep
      split at hstep
      · obtain ⟨p, _, rfl⟩ := Option.map_eq_some_iff.mp hstep
        exact iff_of_true (fun hne => absurd rfl hne) fun hloses => by cases hloses
      · cases hstep

/-- **When notifications are not stuck**: in every run of a new queue, plans to notify of have the
timer pending in every state, exactly if no connection is lost while there are such plans. -/
theorem notifiesPending_iff {tr : List (NotifyingQueue α × ProgressEvent α)}
    (hrun : Run NotifyingQueue.step ({} : NotifyingQueue α) tr q) :
    (NotifiesPending q ∧ ∀ p ∈ tr, NotifiesPending p.1) ↔ ∀ p ∈ tr, KeepsNotifies p.1 p.2 :=
  hrun.invariant_iff (fun _ _ _ h hstep => notifiesPending_step h hstep) fun hne => absurd rfl hne

end

/-- A plan is notified of, and after another connection once more. -/
def notifyTwice : List (ProgressEvent Unit) :=
  [.queue .connect, .setJobProgress "p" true .executed, .progressNotifyTimer .executed,
    .queue .disconnect, .queue .connect, .setJobProgress "p" true .executed]

theorem notifiesPending_notifyTwice :
    ∃ q, final NotifyingQueue.step ({} : NotifyingQueue Unit) notifyTwice = some q ∧
      q.progressNotifyPlans = {"p"} ∧ NotifiesPending q := by
  have hrun : (final NotifyingQueue.step ({} : NotifyingQueue Unit) notifyTwice).map
      NotifyingQueue.progressNotifyPlans = some {"p"} := by
    decide +kernel
  obtain ⟨q, hq, hplans⟩ := Option.map_eq_some_iff.mp hrun
  have hkeeps : ∀ p ∈ traceOf NotifyingQueue.step ({} : NotifyingQueue Unit) notifyTwice,
      KeepsNotifies p.1 p.2 := by
    decide +kernel
  exact ⟨q, hq, hplans, ((notifiesPending_iff (Run.of_final hq)).mpr hkeeps).1⟩

/-- **Notifications are stuck** after the connection was lost in the quarter of a second: the plan
stays in the set, so that no progress arms the timer again. -/
theorem notifies_stuck :
    ∃ q, final NotifyingQueue.step ({} : NotifyingQueue Unit)
        [.queue .connect, .setJobProgress "p" true .executed, .queue .disconnect, .queue .connect,
          .setJobProgress "p" true .executed] = some q ∧
      q.progressNotifyPlans ≠ ∅ ∧ q.progressNotifyTimer = false := by
  have hrun : (final NotifyingQueue.step ({} : NotifyingQueue Unit)
      [.queue .connect, .setJobProgress "p" true .executed, .queue .disconnect, .queue .connect,
        .setJobProgress "p" true .executed]).map
      (fun q => (q.progressNotifyPlans, q.progressNotifyTimer)) = some ({"p"}, false) := by
    decide +kernel
  obtain ⟨q, hq, heq⟩ := Option.map_eq_some_iff.mp hrun
  obtain ⟨hplans, htimer⟩ := Prod.mk.inj heq
  refine ⟨q, hq, ?_, htimer⟩
  rw [hplans]
  exact Finset.singleton_ne_empty "p"

end Workshop.Jobs

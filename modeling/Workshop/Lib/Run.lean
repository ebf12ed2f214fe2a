import Mathlib.Data.List.Basic
import Mathlib.Tactic.Common

/-!
# Runs of a labelled transition system

A system is a partial step function `step : σ → ε → Option σ`: the state after the event, or
`none` when the event cannot happen there.  `Run step s tr t` says that the events of the trace
`tr` lead from `s` to `t`; the trace keeps each event together with the state it happened in, so
that properties of steps ("this update changed the row") can be asked of a whole run.

Seven rules carry every property of runs in this development.

* `Run.invariant`: what every allowed step preserves holds in every state of a run whose steps
  are all allowed.
* `Run.invariant_past`: the same for a property of the state and of the steps made so far.
* `Run.invariant_iff`: if the allowed steps are exactly those that preserve it, this condition on
  the steps is exact.
* `Run.stable_after`: what holds after one step and is preserved from then on holds in every
  later state, the form of "once this happened, that never happens again".
* `Run.countP_le_one`: where one kind of event consumes a token that only another kind of event
  can put back, a stretch of a run without the second kind has at most one of the first.
* `Run.of_since`: what an event establishes and all others but one kind keep holds where that kind
  has not happened since.
* `Run.refines`: if every step is an execution of another system, so is every run.
-/

namespace Workshop.Lib

variable {σ ε : Type*}

/-- `Run step s tr t`: the events of `tr`, each paired with the state it happens in, lead from
`s` to `t`. -/
inductive Run (step : σ → ε → Option σ) : σ → List (σ × ε) → σ → Prop
  | nil (s : σ) : Run step s [] s
  | cons {s t u : σ} {e : ε} {tr : List (σ × ε)} :
      step s e = some t → Run step t tr u → Run step s ((s, e) :: tr) u

/-- An event with a guard can only happen where the guard holds. -/
theorem of_guard {α : Type*} {p : Prop} [Decidable p] {a b : α}
    (h : (if p then some a else none) = some b) : p ∧ a = b := by
  obtain ⟨hp, h⟩ := Option.ite_none_right_eq_some.mp h
  exact ⟨hp, Option.some.inj h⟩

theorem of_guard_not {α : Type*} {p : Prop} [Decidable p] {a b : α}
    (h : (if p then none else some a) = some b) : ¬ p ∧ a = b := by
  obtain ⟨hp, h⟩ := Option.ite_none_left_eq_some.mp h
  exact ⟨hp, Option.some.inj h⟩

/-- Execute a list of events, recording the trace; `none` as soon as one cannot happen. -/
def execute (step : σ → ε → Option σ) : σ → List ε → Option (List (σ × ε) × σ)
  | s, [] => some ([], s)
  | s, e :: es =>
    match step s e with
    | none => none
    | some t =>
      match execute step t es with
      | none => none
      | some (tr, u) => some ((s, e) :: tr, u)

/-- The last state of an execution. -/
def final (step : σ → ε → Option σ) (s : σ) (es : List ε) : Option σ :=
  (execute step s es).map Prod.snd

/-- The trace of an execution, empty when an event cannot happen. -/
def traceOf (step : σ → ε → Option σ) (s : σ) (es : List ε) : List (σ × ε) :=
  ((execute step s es).map Prod.fst).getD []

namespace Run

variable {step : σ → ε → Option σ} {s t u : σ} {tr tr' : List (σ × ε)}

theorem of_execute {es : List ε} (h : execute step s es = some (tr, t)) : Run step s tr t := by
  induction es generalizing s tr with
  | nil =>
      simp only [execute, Option.some.injEq, Prod.mk.injEq] at h
      obtain ⟨rfl, rfl⟩ := h
      exact .nil s
  | cons e es ih =>
      simp only [execute] at h
      split at h
      · cases h
      · rename_i s' hs
        split at h
        · cases h
        · rename_i tr' u hu
          simp only [Option.some.injEq, Prod.mk.injEq] at h
          obtain ⟨rfl, rfl⟩ := h
          exact .cons hs (ih hu)

theorem of_final {es : List ε} (h : final step s es = some t) :
    Run step s (traceOf step s es) t := by
  obtain ⟨⟨tr, u⟩, hex, hu⟩ := Option.map_eq_some_iff.mp h
  subst hu
  have htr : traceOf step s es = tr := by simp [traceOf, hex]
  rw [htr]
  exact of_execute hex

/-- The trace of an execution has no other events. -/
theorem event_mem_of_traceOf {es : List ε} {p : σ × ε} (hp : p ∈ traceOf step s es) : p.2 ∈ es := by
  suffices hexec : ∀ {tr t}, execute step s es = some (tr, t) → ∀ p ∈ tr, p.2 ∈ es by
    unfold traceOf at hp
    cases h : execute step s es with
    | none => simp [h] at hp
    | some r =>
        simp only [h, Option.map_some, Option.getD_some] at hp
        exact hexec h p hp
  clear hp p
  intro tr t h p hp
  induction es generalizing s tr with
  | nil =>
      simp only [execute, Option.some.injEq, Prod.mk.injEq] at h
      obtain ⟨rfl, rfl⟩ := h
      exact absurd hp (by simp)
  | cons e es ih =>
      simp only [execute] at h
      split at h
      · cases h
      · split at h
        · cases h
        · rename_i tr' u hu
          simp only [Option.some.injEq, Prod.mk.injEq] at h
          obtain ⟨rfl, rfl⟩ := h
          rcases List.mem_cons.mp hp with rfl | hp
          · exact List.mem_cons_self
          · exact List.mem_cons_of_mem _ (ih hu hp)

theorem append (h : Run step s tr t) (h' : Run step t tr' u) : Run step s (tr ++ tr') u := by
  induction h with
  | nil _ => exact h'
  | cons hs _ ih => exact .cons hs (ih h')

/-- A run along a concatenated trace passes through a state between the two parts. -/
theorem split (h : Run step s (tr ++ tr') u) : ∃ m, Run step s tr m ∧ Run step m tr' u := by
  induction tr generalizing s with
  | nil => exact ⟨s, .nil s, h⟩
  | cons p tr ih =>
      cases h with
      | cons hs hr =>
          obtain ⟨m, hm, hm'⟩ := ih hr
          exact ⟨m, .cons hs hm, hm'⟩

variable {I : σ → Prop} {C : σ → ε → Prop}

/-- **Invariant rule.**  What every step allowed by `C` preserves holds at the end of a run of
allowed steps and before each of its steps. -/
theorem invariant (hstep : ∀ s e t, I s → C s e → step s e = some t → I t)
    (h : Run step s tr t) (hs : I s) (hC : ∀ p ∈ tr, C p.1 p.2) :
    I t ∧ ∀ p ∈ tr, I p.1 := by
  induction h with
  | nil s => exact ⟨hs, by simp⟩
  | @cons s t u e tr hst _ ih =>
      have hCs : C s e := hC (s, e) (List.mem_cons_self ..)
      have hI : I t := hstep s e t hs hCs hst
      obtain ⟨hu, htr⟩ := ih hI (fun p hp => hC p (List.mem_cons_of_mem _ hp))
      refine ⟨hu, fun p hp => ?_⟩
      rcases List.mem_cons.mp hp with rfl | hp
      · exact hs
      · exact htr p hp

/-- **Invariant rule with the past.**  What relates the state to the steps that led to it, and is
preserved by every step allowed by `C`, holds at the end of a run of allowed steps. -/
theorem invariant_past {J : List (σ × ε) → σ → Prop}
    (hstep : ∀ tr s e t, J tr s → C s e → step s e = some t → J (tr ++ [(s, e)]) t)
    (h : Run step s tr t) (hs : J [] s) (hC : ∀ p ∈ tr, C p.1 p.2) : J tr t := by
  -- the induction is on the run, after any past
  suffices hpast : ∀ past, J past s → J (past ++ tr) t from hpast [] hs
  clear hs
  induction h with
  | nil s =>
      intro past hJ
      rwa [List.append_nil]
  | @cons s t u e tr hst _ ih =>
      intro past hJ
      have hCs : C s e := hC (s, e) (List.mem_cons_self ..)
      have hnext :=
        ih (fun p hp => hC p (List.mem_cons_of_mem _ hp)) _ (hstep past s e t hJ hCs hst)
      rwa [List.append_assoc] at hnext

/-- **Exact condition.**  Where a step keeps `I` exactly if it is allowed by `C`, a run that starts
with `I` has it throughout exactly if all of its steps are allowed. -/
theorem invariant_iff (hstep : ∀ s e t, I s → step s e = some t → (I t ↔ C s e))
    (h : Run step s tr t) (hs : I s) :
    (I t ∧ ∀ p ∈ tr, I p.1) ↔ ∀ p ∈ tr, C p.1 p.2 := by
  refine ⟨fun hI => ?_, h.invariant (fun s e t hI hC hst => (hstep s e t hI hst).mpr hC) hs⟩
  induction h with
  | nil s => simp
  | @cons s t u e tr hst hrun ih =>
      obtain ⟨hu, htr⟩ := hI
      -- the state after the first step is the first one of the rest, or the last one
      have ht : I t := by
        cases hrun with
        | nil _ => exact hu
        | cons _ _ => exact htr _ (List.mem_cons_of_mem _ (List.mem_cons_self ..))
      intro p hp
      rcases List.mem_cons.mp hp with rfl | hp
      · exact (hstep s e t hs hst).mp ht
      · exact ih ht ⟨hu, fun p hp => htr p (List.mem_cons_of_mem _ hp)⟩ p hp

theorem step_of_mem (h : Run step s tr t) {p : σ × ε} (hp : p ∈ tr) :
    ∃ s', step p.1 p.2 = some s' := by
  induction h with
  | nil _ => simp at hp
  | cons hs _ ih =>
      rcases List.mem_cons.mp hp with rfl | hp
      · exact ⟨_, hs⟩
      · exact ih hp

/-- **Once and from then on.**  If the step `(m, e)` establishes `Q` and every allowed step keeps
it, `Q` holds before each later step of the run. -/
theorem stable_after {Q : σ → Prop} {m : σ} {e : ε}
    (hkeep : ∀ s e t, Q s → C s e → step s e = some t → Q t)
    (h : Run step s (tr ++ (m, e) :: tr') t)
    (hest : ∀ m', step m e = some m' → Q m') (hC : ∀ p ∈ tr', C p.1 p.2) :
    Q t ∧ ∀ p ∈ tr', Q p.1 := by
  obtain ⟨_, _, hr⟩ := h.split
  cases hr with
  | cons hs hr => exact hr.invariant hkeep (hest _ hs) hC

/-- **Token rule.**  Every event marked by `A` happens with the token and consumes it, and
without the token only an event marked by `B` can bring it back; so a stretch of a run with no
`B` in it has at most one `A`. -/
theorem countP_le_one {A B : σ × ε → Bool} {tok : σ → Prop}
    (hA : ∀ s e t, I s → C s e → step s e = some t → A (s, e) = true → tok s ∧ ¬ tok t)
    (hB : ∀ s e t, I s → C s e → step s e = some t → B (s, e) = false → ¬ tok s → ¬ tok t)
    (hstep : ∀ s e t, I s → C s e → step s e = some t → I t)
    (h : Run step s tr t) (hs : I s) (hC : ∀ p ∈ tr, C p.1 p.2) (hno : ∀ p ∈ tr, B p = false) :
    tr.countP A ≤ 1 := by
  -- the induction is on the run, together with: without the token there is no `A` at all
  suffices hboth : tr.countP A ≤ 1 ∧ (¬ tok s → tr.countP A = 0) from hboth.1
  induction h with
  | nil s => simp
  | @cons s t u e tr hst _ ih =>
      have hCs : C s e := hC (s, e) (List.mem_cons_self ..)
      have hBs : B (s, e) = false := hno (s, e) (List.mem_cons_self ..)
      obtain ⟨hle, hzero⟩ := ih (hstep s e t hs hCs hst)
        (fun p hp => hC p (List.mem_cons_of_mem _ hp))
        (fun p hp => hno p (List.mem_cons_of_mem _ hp))
      cases hAs : A (s, e) with
      | true =>
          obtain ⟨htok, hlost⟩ := hA s e t hs hCs hst hAs
          rw [List.countP_cons_of_pos hAs, hzero hlost]
          exact ⟨Nat.le_refl 1, fun hn => absurd htok hn⟩
      | false =>
          rw [List.countP_cons_of_neg (by simp [hAs])]
          exact ⟨hle, fun hn => hzero (hB s e t hs hCs hst hBs hn)⟩

end Run

/-- Something in the list satisfies `A`, and nothing after it satisfies `B`. -/
def Since {α : Type*} (A B : α → Prop) (l : List α) : Prop :=
  ∃ past a rest, l = past ++ a :: rest ∧ A a ∧ ∀ b ∈ rest, ¬ B b

theorem not_since_nil {α : Type*} {A B : α → Prop} : ¬ Since A B [] := by
  rintro ⟨past, a, rest, h, _⟩
  exact absurd h (by simp)

theorem since_append {α : Type*} {A B : α → Prop} {l : List α} {b : α} :
    Since A B (l ++ [b]) ↔ A b ∨ (Since A B l ∧ ¬ B b) := by
  constructor
  · rintro ⟨past, a, rest, h, ha, hrest⟩
    rcases List.eq_nil_or_concat rest with rfl | ⟨rest, x, rfl⟩
    · obtain ⟨_, hb⟩ := List.append_inj' h rfl
      obtain rfl := (List.cons.inj hb).1
      exact .inl ha
    · rw [List.concat_eq_append, ← List.cons_append, ← List.append_assoc] at h
      obtain ⟨rfl, hb⟩ := List.append_inj' h rfl
      obtain rfl := (List.cons.inj hb).1
      rw [List.concat_eq_append] at hrest
      refine .inr ⟨⟨past, a, rest, rfl, ha, fun y hy => ?_⟩, hrest b (by simp)⟩
      exact hrest y (List.mem_append_left _ hy)
  · rintro (hb | ⟨⟨past, a, rest, rfl, ha, hrest⟩, hb⟩)
    · exact ⟨l, b, [], rfl, hb, by simp⟩
    · refine ⟨past, a, rest ++ [b], by simp, ha, fun y hy => ?_⟩
      rcases List.mem_append.mp hy with hy | hy
      · exact hrest y hy
      · rwa [List.mem_singleton.mp hy]

/-- **Since rule.**  What the step marked by `A` establishes and every step not marked by `B` keeps
holds at the end of a run in which `A` has happened and `B` not since. -/
theorem Run.of_since {step : σ → ε → Option σ} {s t : σ} {tr : List (σ × ε)}
    {A B : σ × ε → Prop} {Q : σ → Prop} (hest : ∀ s e t, A (s, e) → step s e = some t → Q t)
    (hkeep : ∀ s e t, Q s → ¬ B (s, e) → step s e = some t → Q t) (h : Run step s tr t)
    (hsince : Since A B tr) : Q t := by
  obtain ⟨past, ⟨m, e⟩, rest, rfl, hA, hrest⟩ := hsince
  exact (h.stable_after (C := fun s e => ¬ B (s, e)) hkeep
    (fun m' hm' => hest m e m' hA hm') hrest).1

theorem final_cons (step : σ → ε → Option σ) (s : σ) (e : ε) (es : List ε) :
    final step s (e :: es) = (step s e).bind fun t => final step t es := by
  simp only [final, execute]
  cases step s e with
  | none => rfl
  | some t =>
      cases hes : execute step t es with
      | none => simp [hes]
      | some p => simp [hes]

theorem final_append (step : σ → ε → Option σ) (s : σ) (es es' : List ε) :
    final step s (es ++ es') = (final step s es).bind fun t => final step t es' := by
  induction es generalizing s with
  | nil => rfl
  | cons e es ih =>
      rw [List.cons_append, final_cons, final_cons, Option.bind_assoc]
      congr 1
      funext t
      exact ih t

/-- **Refinement rule.**  If every allowed step that happens in `I` is, seen through `view`, the
execution of the events `label` gives it, a run is the execution of all of them. -/
theorem Run.refines {σ' ε' : Type*} {step : σ → ε → Option σ} {step' : σ' → ε' → Option σ'}
    {s t : σ} {tr : List (σ × ε)} {I : σ → Prop} {C : σ → ε → Prop} (view : σ → σ')
    (label : σ × ε → List ε')
    (hstep : ∀ s e t, I s → C s e → step s e = some t →
      I t ∧ final step' (view s) (label (s, e)) = some (view t))
    (h : Run step s tr t) (hs : I s) (hC : ∀ p ∈ tr, C p.1 p.2) :
    final step' (view s) (tr.flatMap label) = some (view t) := by
  induction h with
  | nil s => rfl
  | @cons s t u e tr hst _ ih =>
      obtain ⟨hI, hview⟩ := hstep s e t hs (hC (s, e) (List.mem_cons_self ..)) hst
      rw [List.flatMap_cons, final_append, hview, Option.bind_some]
      exact ih hI fun p hp => hC p (List.mem_cons_of_mem _ hp)

end Workshop.Lib

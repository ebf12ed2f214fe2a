import Mathlib.Tactic.Common

/-!
# What a fallible computation ensures

`Ensures x P` says that every result of `x : Except ε α` satisfies `P`; it promises nothing where
`x` throws.  There is one rule for each form of a `do` block: a value, an exception, a sequence, a
guard that throws, and a loop over a list.  A proof follows the block line by line, and the
invariant of a loop may depend on the part of the list that was already processed.
-/

namespace Workshop.Lib

universe u v

/-- Every result of `x` satisfies `P`. -/
def Ensures {ε : Type u} {α : Type v} (x : Except ε α) (P : α → Prop) : Prop :=
  ∀ a, x = .ok a → P a

namespace Ensures

variable {ε : Type u} {α β : Type v} {P : α → Prop} {Q : β → Prop}

theorem pure {a : α} (h : P a) : Ensures (Pure.pure a : Except ε α) P := by
  rintro _ ⟨⟩
  exact h

theorem throw {e : ε} : Ensures (MonadExcept.throw e : Except ε α) P := by
  rintro _ ⟨⟩

theorem self (x : Except ε α) : Ensures x fun a => x = .ok a :=
  fun _ h => h

theorem bind {x : Except ε α} {f : α → Except ε β} (hx : Ensures x P)
    (hf : ∀ a, P a → Ensures (f a) Q) : Ensures (x >>= f) Q := by
  intro b hb
  cases x with
  | error e => cases hb
  | ok a => exact hf a (hx a rfl) b hb

/-- A sequence whose first part may have any result. -/
theorem bind_any {x : Except ε α} {f : α → Except ε β} (hf : ∀ a, Ensures (f a) Q) :
    Ensures (x >>= f) Q :=
  bind (fun _ _ => trivial) fun a _ => hf a

theorem guard {c : Prop} {_ : Decidable c} {e : ε} {f : PUnit → Except ε β}
    (hf : ¬ c → Ensures (f ⟨⟩) Q) :
    Ensures (if c then MonadExcept.throw e >>= f else f ⟨⟩) Q := by
  by_cases hc : c
  · rw [if_pos hc]
    exact bind (P := fun _ => False) throw fun _ h => h.elim
  · rw [if_neg hc]
    exact hf hc

/-- **Loop rule.**  The invariant depends on the elements that were processed. -/
theorem foldlM {σ : Type v} {f : σ → α → Except ε σ} {I : List α → σ → Prop} {s : σ}
    (hnil : I [] s) (hstep : ∀ done a s, I done s → Ensures (f s a) (I (done ++ [a])))
    (l : List α) : Ensures (l.foldlM f s) (I l) := by
  -- the induction is on what is left, with the processed part in front of it
  suffices hgen : ∀ done s, I done s → Ensures (l.foldlM f s) (I (done ++ l)) from
    hgen [] s hnil
  induction l with
  | nil =>
      intro done s hs
      rw [List.append_nil]
      exact pure hs
  | cons a l ih =>
      intro done s hs
      rw [List.foldlM_cons, List.append_cons]
      exact bind (hstep done a s hs) fun s' hs' => ih _ s' hs'

end Ensures

/-- A sequence has a result if both parts have one. -/
theorem bind_eq_ok_iff {ε : Type u} {α β : Type v} {x : Except ε α} {f : α → Except ε β} {b : β} :
    x >>= f = .ok b ↔ ∃ a, x = .ok a ∧ f a = .ok b := by
  constructor
  · intro h
    cases x with
    | error e => cases h
    | ok a => exact ⟨a, rfl, h⟩
  · rintro ⟨a, rfl, h⟩
    exact h

end Workshop.Lib

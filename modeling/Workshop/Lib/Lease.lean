import Mathlib.Order.Basic
import Workshop.Lib.Run

/-!
# Leases

Parties hold keys under leases that end at a time.  A party that holds a key has set itself a
deadline by which it gives the key up, whatever happens; the others may take a lease away once it
has ended.  Nothing else is known of the parties, and they never talk to each other.

`Keeps` is the contract of one step, in terms of what it leaves behind: nobody holds a key beyond
the deadline, and whoever holds a key after the step has a lease that lasts at least to the
deadline, or held it before, and the lease was left alone or taken away after its end.  A system
whose steps keep the contract is `Safe` in every state of every run (`Run.safe`), which gives
mutual exclusion (`Safe.unique`): a lease that has ended is one that nobody holds.
-/

namespace Workshop.Lib

variable {ν κ τ : Type*}

/-- What the rules of leases look at: the time, the owner and the end of each lease, and who holds
which key up to which deadline. -/
structure LeaseView (ν κ τ : Type*) where
  now : τ
  lease : κ → Option (ν × τ)
  holds : ν → κ → τ → Prop

namespace LeaseView

/-- Whoever holds a key does so before the deadline, under a lease that lasts at least as long. -/
def Safe [LE τ] (v : LeaseView ν κ τ) : Prop :=
  ∀ n k deadline, v.holds n k deadline →
    v.now ≤ deadline ∧ ∃ ends, v.lease k = some (n, ends) ∧ deadline ≤ ends

/-- **The contract of a step.** -/
structure Keeps [LE τ] [LT τ] (v w : LeaseView ν κ τ) : Prop where
  punctual : ∀ n k deadline, w.holds n k deadline → w.now ≤ deadline
  covered : ∀ n k deadline, w.holds n k deadline →
    (∃ ends, w.lease k = some (n, ends) ∧ deadline ≤ ends) ∨
      (v.holds n k deadline ∧
        (w.lease k = v.lease k ∨ ∃ m ends, v.lease k = some (m, ends) ∧ ends < v.now))

variable [Preorder τ] {v w : LeaseView ν κ τ} {n m : ν} {k : κ} {deadline deadline' ends : τ}

theorem Safe.not_ended (h : v.Safe) (hholds : v.holds n k deadline)
    (hlease : v.lease k = some (m, ends)) : ¬ ends < v.now := by
  obtain ⟨hnow, ends', hlease', hle⟩ := h n k deadline hholds
  obtain ⟨rfl, rfl⟩ := Prod.mk.inj (Option.some.inj (hlease'.symm.trans hlease))
  exact (hnow.trans hle).not_gt

/-- **Mutual exclusion.** -/
theorem Safe.unique (h : v.Safe) (hn : v.holds n k deadline) (hm : v.holds m k deadline') :
    n = m := by
  obtain ⟨_, _, hlease, _⟩ := h n k deadline hn
  obtain ⟨_, _, hlease', _⟩ := h m k deadline' hm
  exact (Prod.mk.inj (Option.some.inj (hlease.symm.trans hlease'))).1

/-- **The step rule.** -/
theorem Safe.step (h : v.Safe) (hkeeps : v.Keeps w) : w.Safe := by
  intro n k deadline hholds
  refine ⟨hkeeps.punctual n k deadline hholds, ?_⟩
  obtain hcovered | ⟨hbefore, hsame | ⟨m, ends, hlease, hended⟩⟩ :=
    hkeeps.covered n k deadline hholds
  · exact hcovered
  · rw [hsame]
    exact (h n k deadline hbefore).2
  · exact absurd hended (h.not_ended hbefore hlease)

theorem safe_of_forall_not (h : ∀ n k deadline, ¬ v.holds n k deadline) : v.Safe :=
  fun n k deadline hholds => absurd hholds (h n k deadline)

end LeaseView

/-- **The run rule.**  A system that keeps the contract in every step allowed by `C`, together with
an invariant of its own, is safe in every state of a run of allowed steps. -/
theorem Run.safe [Preorder τ] {σ ε : Type*} {step : σ → ε → Option σ} {s t : σ}
    {tr : List (σ × ε)} (view : σ → LeaseView ν κ τ) {I : σ → Prop} {C : σ → ε → Prop}
    (hstep : ∀ s e t, I s → (view s).Safe → C s e → step s e = some t →
      I t ∧ (view s).Keeps (view t))
    (h : Run step s tr t) (hs : I s) (hsafe : (view s).Safe) (hC : ∀ p ∈ tr, C p.1 p.2) :
    (I t ∧ (view t).Safe) ∧ ∀ p ∈ tr, I p.1 ∧ (view p.1).Safe := by
  refine h.invariant (I := fun s => I s ∧ (view s).Safe) (C := C) ?_ ⟨hs, hsafe⟩ hC
  rintro s e t ⟨hI, hsafe⟩ hCs hst
  obtain ⟨hI', hkeeps⟩ := hstep s e t hI hsafe hCs hst
  exact ⟨hI', hsafe.step hkeeps⟩

end Workshop.Lib

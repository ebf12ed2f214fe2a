import Mathlib.Tactic.Common

/-!
# Scripts

A script is a list of statements that are executed in order, each of which may fail.  At the first
that fails the script stops, and what was done until then stays.

A statement is settled in a state if it succeeds there and changes nothing.  If each statement of a
script is settled after it was executed, and the statements after it keep it settled, then the
script is idempotent, also where it fails (`runScript_idempotent`).
-/

namespace Workshop.Lib

variable {σ α : Type*} (exec : σ → α → Option α)

/-- Execute the statements of a script.  The flag says whether all of them succeeded. -/
def runScript : List σ → α → α × Bool
  | [], a => (a, true)
  | s :: rest, a =>
    match exec s a with
    | none => (a, false)
    | some b => runScript rest b

variable {exec} {l m : List σ} {a b : α} {s : σ}

theorem runScript_cons_of_some (h : exec s a = some b) :
    runScript exec (s :: l) a = runScript exec l b := by
  rw [runScript, h]

theorem runScript_cons_of_none (h : exec s a = none) :
    runScript exec (s :: l) a = (a, false) := by
  rw [runScript, h]

theorem runScript_append : runScript exec (l ++ m) a =
    if (runScript exec l a).2 then runScript exec m (runScript exec l a).1
    else runScript exec l a := by
  induction l generalizing a with
  | nil => rfl
  | cons s l ih =>
      rw [List.cons_append]
      cases hs : exec s a with
      | none =>
          rw [runScript_cons_of_none hs, runScript_cons_of_none hs]
          rfl
      | some a' => rw [runScript_cons_of_some hs, runScript_cons_of_some hs, ih]

theorem runScript_append_of_completed (h : runScript exec l a = (b, true)) :
    runScript exec (l ++ m) a = runScript exec m b := by
  rw [runScript_append, h, if_pos rfl]

theorem runScript_append_of_failed (h : runScript exec l a = (b, false)) :
    runScript exec (l ++ m) a = (b, false) := by
  rw [runScript_append, h, if_neg Bool.false_ne_true]

/-- **Invariant rule.**  What each statement preserves holds where the script stops. -/
theorem runScript_invariant {P : α → Prop}
    (hstep : ∀ s ∈ l, ∀ a b, exec s a = some b → P a → P b) (ha : P a) :
    P (runScript exec l a).1 := by
  induction l generalizing a with
  | nil => exact ha
  | cons s l ih =>
      obtain ⟨hs, hl⟩ := List.forall_mem_cons.mp hstep
      cases hexec : exec s a with
      | none =>
          rw [runScript_cons_of_none hexec]
          exact ha
      | some a' =>
          rw [runScript_cons_of_some hexec]
          exact ih hl (hs a a' hexec ha)

/-- A script whose statements are settled changes nothing. -/
theorem runScript_of_settled (h : ∀ s ∈ l, exec s a = some a) : runScript exec l a = (a, true) := by
  induction l with
  | nil => rfl
  | cons s l ih =>
      obtain ⟨hs, hl⟩ := List.forall_mem_cons.mp h
      rw [runScript_cons_of_some hs, ih hl]

variable (exec) in
/-- A statement that is settled after it was executed. -/
def SettlesItself (s : σ) : Prop := ∀ a b, exec s a = some b → exec s b = some b

variable (exec) in
/-- A statement keeps another one settled. -/
def KeepsSettled (s s' : σ) : Prop :=
  ∀ a b, exec s a = some a → exec s' a = some b → exec s b = some b

theorem settled_runScript (hkeep : ∀ s' ∈ l, KeepsSettled exec s s') (hs : exec s a = some a) :
    exec s (runScript exec l a).1 = some (runScript exec l a).1 :=
  runScript_invariant (P := fun a => exec s a = some a)
    (fun s' hs' a b hexec ha => hkeep s' hs' a b ha hexec) hs

/-- All statements are settled where a script is complete. -/
theorem settled_of_completed (hself : ∀ s ∈ l, SettlesItself exec s)
    (hkeep : l.Pairwise (KeepsSettled exec)) (h : runScript exec l a = (b, true)) :
    ∀ s ∈ l, exec s b = some b := by
  induction l generalizing a with
  | nil => exact fun _ hs => absurd hs List.not_mem_nil
  | cons s l ih =>
      obtain ⟨hs, hl⟩ := List.forall_mem_cons.mp hself
      obtain ⟨hkeeps, hkeepl⟩ := List.pairwise_cons.mp hkeep
      cases hexec : exec s a with
      | none =>
          rw [runScript_cons_of_none hexec] at h
          cases h
      | some a' =>
          rw [runScript_cons_of_some hexec] at h
          refine List.forall_mem_cons.mpr ⟨?_, ih hl hkeepl h⟩
          have hsettled := settled_runScript hkeeps (hs a a' hexec)
          rwa [h] at hsettled

/-- **Such a script is idempotent.**  It stops again where it stopped, with nothing changed. -/
theorem runScript_idempotent (hself : ∀ s ∈ l, SettlesItself exec s)
    (hkeep : l.Pairwise (KeepsSettled exec)) (a : α) :
    runScript exec l (runScript exec l a).1 = runScript exec l a := by
  induction l generalizing a with
  | nil => rfl
  | cons s l ih =>
      obtain ⟨hs, hl⟩ := List.forall_mem_cons.mp hself
      obtain ⟨hkeeps, hkeepl⟩ := List.pairwise_cons.mp hkeep
      cases hexec : exec s a with
      | none => rw [runScript_cons_of_none hexec, runScript_cons_of_none hexec]
      | some a' =>
          -- the first statement is still settled where the rest stops
          rw [runScript_cons_of_some hexec,
            runScript_cons_of_some (settled_runScript hkeeps (hs a a' hexec)), ih hl hkeepl]

end Workshop.Lib

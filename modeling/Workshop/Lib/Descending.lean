import Mathlib.Data.List.Sort
import Mathlib.Order.Lattice
import Mathlib.Tactic.Common

/-!
# Lists in descending order

In such a list the large elements come first, so that one look at a position tells how many there
are (`lt_countP_iff`): this is what `ORDER BY … DESC LIMIT 1 OFFSET k` does to count.  A `WHERE`
that cuts off smaller elements makes no difference (`lt_countP_iff_window`).
-/

namespace Workshop.Lib

/-- **More than `k` elements are at least `c` exactly if the one at position `k` is.** -/
theorem lt_countP_iff {α : Type*} [LinearOrder α] {l : List α} (hl : l.Pairwise (· ≥ ·)) {k : ℕ}
    {c : α} : k < l.countP (fun x => decide (c ≤ x)) ↔ ∃ x, l[k]? = some x ∧ c ≤ x := by
  induction l generalizing k with
  | nil => simp
  | cons a l ih =>
      obtain ⟨ha, hrest⟩ := List.pairwise_cons.mp hl
      by_cases hc : c ≤ a
      · rw [List.countP_cons_of_pos (by simpa using hc)]
        cases k with
        | zero => simp [hc]
        | succ k =>
            rw [List.getElem?_cons_succ, ← ih hrest]
            exact Nat.succ_lt_succ_iff
      · -- nothing in the list is as large as `c`
        have hnone : ∀ x ∈ a :: l, ¬ c ≤ x := by
          intro x hx
          rcases List.mem_cons.mp hx with rfl | hx
          · exact hc
          · exact fun hle => hc (le_trans hle (ha x hx))
        constructor
        · intro hlt
          rw [List.countP_eq_zero.mpr fun x hx => by simpa using hnone x hx] at hlt
          exact (Nat.not_lt_zero k hlt).elim
        · rintro ⟨x, hx, hle⟩
          exact (hnone x (List.mem_of_getElem? hx) hle).elim

/-- **A query that counts**: the elements from `a` on are sorted, and one of them is looked at. -/
theorem lt_countP_iff_window {α : Type*} [LinearOrder α] (l : List α) {a c : α} (hac : a ≤ c)
    {k : ℕ} : k < l.countP (fun x => decide (c ≤ x)) ↔
      ∃ x, ((l.filter fun x => decide (a ≤ x)).insertionSort (· ≥ ·))[k]? = some x ∧ c ≤ x := by
  have hcount : ((l.filter fun x => decide (a ≤ x)).insertionSort (· ≥ ·)).countP
      (fun x => decide (c ≤ x)) = l.countP fun x => decide (c ≤ x) := by
    rw [(List.perm_insertionSort (· ≥ ·) _).countP_eq, List.countP_filter]
    refine List.countP_congr fun x _ => ?_
    simp only [Bool.and_eq_true, decide_eq_true_eq]
    exact ⟨fun h => h.1, fun h => ⟨h, hac.trans h⟩⟩
  rw [← hcount, lt_countP_iff (List.pairwise_insertionSort (· ≥ ·) _)]

end Workshop.Lib

import Mathlib.Data.List.Induction
import Mathlib.Data.List.Nodup

/-!
# Lists with keys

A list whose elements have keys, kept like a map: `put` replaces the elements with the key of the
new one, which goes to the end.  What the list holds for a key (`entries`) is then what was put
last for it, and for all other keys what it was before, in the old order (`entries_put`,
`entries_foldl_put`).  Where no two elements have the same key, a key selects one element
(`filter_of_nodup`).
-/

namespace Workshop.Lib.KeyedList

variable {α κ : Type*} [DecidableEq κ] (key : α → κ)

/-- The elements with the key `k`. -/
def entries (k : κ) (l : List α) : List α := l.filter fun x => key x = k

/-- Replace the elements with the key of `x` by `x`. -/
def put (x : α) (l : List α) : List α := l.filter (fun y => key y ≠ key x) ++ [x]

variable {key}

theorem filter_of_nodup {l : List α} (hnodup : (l.map key).Nodup) {a : α} (ha : a ∈ l) :
    (l.filter fun x => key x = key a) = [a] := by
  induction l with
  | nil => exact absurd ha List.not_mem_nil
  | cons x l ih =>
      rw [List.map_cons, List.nodup_cons] at hnodup
      obtain ⟨hx, hnodup⟩ := hnodup
      rcases List.mem_cons.mp ha with rfl | ha
      · have hrest : (l.filter fun x => key x = key a) = [] := by
          refine List.filter_eq_nil_iff.mpr fun y hy heq => hx ?_
          rw [decide_eq_true_eq] at heq
          exact heq ▸ List.mem_map_of_mem hy
        rw [List.filter_cons_of_pos (by simp), hrest]
      · have hne : key x ≠ key a := fun heq => hx (heq ▸ List.mem_map_of_mem ha)
        rw [List.filter_cons_of_neg (by simpa using hne), ih hnodup ha]

theorem mem_put {x y : α} {l : List α} : y ∈ put key x l ↔ (y ∈ l ∧ key y ≠ key x) ∨ y = x := by
  simp [put]

theorem entries_put (k : κ) (x : α) (l : List α) :
    entries key k (put key x l) = if key x = k then [x] else entries key k l := by
  simp only [entries, put, List.filter_append, List.filter_filter]
  by_cases hk : key x = k
  · subst hk
    simp
  · rw [if_neg hk, List.filter_cons_of_neg (by simpa using hk), List.filter_nil, List.append_nil]
    refine List.filter_congr fun y _ => ?_
    -- an element with the key `k` does not have that of `x`
    by_cases hy : key y = k
    · simp [hy, Ne.symm hk]
    · simp [hy]

/-- **The list holds what was put last for a key**, and what it held before if nothing was. -/
theorem entries_foldl_put (k : κ) (xs l : List α) :
    entries key k (xs.foldl (fun l x => put key x l) l) =
      (entries key k xs).getLast?.elim (entries key k l) fun x => [x] := by
  induction xs using List.reverseRecOn with
  | nil => rfl
  | append_singleton xs x ih =>
      rw [List.foldl_append, List.foldl_cons, List.foldl_nil, entries_put, ih]
      by_cases hk : key x = k
      · simp [entries, List.filter_append, hk]
      · simp [entries, List.filter_append, hk]

end Workshop.Lib.KeyedList

import Mathlib.Data.List.Infix
import Mathlib.Tactic.Common

/-!
# The first occurrence of a pattern

`findFrom pat s start` is the position of the first occurrence of `pat` in `s` that does not begin
before `start`, as `std::string::find` has it.  It is characterized by what is in front of it
(`findIn_eq_some_iff`); and for the two kinds of patterns that begin nowhere inside of themselves it
is computed from the parts of `s` (`findIn_append_pair`, `findIn_append_singleton`).
-/

namespace Workshop.Lib

variable {α : Type*} [DecidableEq α] {pat s t : List α} {n : ℕ}

/-- The position of the first occurrence. -/
def findIn (pat : List α) : List α → Option ℕ
  | [] => if pat = [] then some 0 else none
  | c :: s => if pat.isPrefixOf (c :: s) then some 0 else (findIn pat s).map (· + 1)

/-- The position of the first occurrence from `start` on. -/
def findFrom (pat s : List α) (start : ℕ) : Option ℕ :=
  (findIn pat (s.drop start)).map (· + start)

theorem findIn_eq_some_iff :
    findIn pat s = some n ↔ pat <+: s.drop n ∧ ∀ q < n, ¬ pat <+: s.drop q := by
  induction s generalizing n with
  | nil =>
      unfold findIn
      simp only [List.drop_nil, List.prefix_nil]
      split
      · rename_i hpat
        simp only [Option.some.injEq, hpat, true_and, not_true_eq_false]
        exact ⟨fun h q hq => by omega, fun h => (Nat.eq_zero_of_not_pos fun hpos => h 0 hpos).symm⟩
      · rename_i hpat
        simp [hpat]
  | cons c s ih =>
      unfold findIn
      split
      · rename_i hpre
        rw [List.isPrefixOf_iff_prefix] at hpre
        rw [Option.some.injEq]
        constructor
        · rintro rfl
          exact ⟨hpre, fun q hq => by omega⟩
        · rintro ⟨-, hbefore⟩
          exact (Nat.eq_zero_of_not_pos fun hpos => hbefore 0 hpos hpre).symm
      · rename_i hpre
        rw [List.isPrefixOf_iff_prefix] at hpre
        rw [Option.map_eq_some_iff]
        constructor
        · rintro ⟨m, hm, rfl⟩
          obtain ⟨hhere, hbefore⟩ := ih.mp hm
          refine ⟨hhere, fun q hq => ?_⟩
          cases q with
          | zero => exact hpre
          | succ q => exact hbefore q (Nat.lt_of_succ_lt_succ hq)
        · rintro ⟨hhere, hbefore⟩
          cases n with
          | zero => exact absurd hhere hpre
          | succ m =>
              exact ⟨m, ih.mpr ⟨hhere, fun q hq => hbefore (q + 1) (Nat.succ_lt_succ hq)⟩, rfl⟩

theorem findIn_eq_none_iff : findIn pat s = none ↔ ¬ pat <:+: s := by
  induction s with
  | nil =>
      unfold findIn
      rw [List.infix_nil]
      split <;> simp_all
  | cons c s ih =>
      unfold findIn
      rw [List.infix_cons_iff, ← List.isPrefixOf_iff_prefix, not_or, ← ih]
      split
      · rename_i hpre
        simp [hpre]
      · rename_i hpre
        rw [Option.map_eq_none_iff]
        exact (and_iff_right hpre).symm

/-- What is in front of the first occurrence, and behind it. -/
theorem eq_append_of_findIn (h : findIn pat s = some n) :
    s = s.take n ++ pat ++ s.drop (n + pat.length) := by
  obtain ⟨rest, hrest⟩ := (findIn_eq_some_iff.mp h).1
  rw [← List.drop_drop, ← hrest, List.drop_left, List.append_assoc, hrest, List.take_append_drop]

lemma lt_length_of_findIn (hpat : pat ≠ []) (h : findIn pat s = some n) : n < s.length := by
  by_contra hle
  have hpre := (findIn_eq_some_iff.mp h).1
  rw [List.drop_eq_nil_of_le (Nat.le_of_not_lt hle), List.prefix_nil] at hpre
  exact hpat hpre

lemma length_take_of_findIn (hpat : pat ≠ []) (h : findIn pat s = some n) :
    (s.take n).length = n :=
  List.length_take_of_le (Nat.le_of_lt (lt_length_of_findIn hpat h))

/-- The pattern does not occur in front of its first occurrence. -/
theorem not_infix_take_of_findIn (hpat : pat ≠ []) (h : findIn pat s = some n) :
    ¬ pat <:+: s.take n := by
  rintro ⟨u, v, huv⟩
  have hlength := congrArg List.length huv
  rw [length_take_of_findIn hpat h, List.length_append, List.length_append] at hlength
  have hpos := List.length_pos_iff.mpr hpat
  refine (findIn_eq_some_iff.mp h).2 u.length (by omega) ?_
  rw [← List.take_append_drop n s, ← huv, List.append_assoc, List.append_assoc, List.drop_left]
  exact List.prefix_append _ _

/-- A pattern of two different elements. -/
theorem findIn_append_pair {a b : α} (hne : a ≠ b) (ht : ¬ [a, b] <:+: t) (s : List α) :
    findIn [a, b] (t ++ a :: b :: s) = some t.length := by
  induction t with
  | nil => simp [findIn]
  | cons c t ih =>
      rw [List.infix_cons_iff, not_or] at ht
      have hpre : ¬ [a, b] <+: c :: (t ++ a :: b :: s) := by
        intro hpre
        obtain ⟨rfl, hb⟩ := List.cons_prefix_cons.mp hpre
        cases t with
        | nil => exact hne (List.cons_prefix_cons.mp hb).1.symm
        | cons d t =>
            obtain ⟨rfl, -⟩ := List.cons_prefix_cons.mp hb
            exact ht.1 (List.prefix_append [a, b] t)
      rw [List.cons_append, findIn, if_neg (mt List.isPrefixOf_iff_prefix.mp hpre), ih ht.2]
      rfl

/-- A pattern of one element. -/
theorem findIn_append_singleton {a : α} (ht : a ∉ t) (s : List α) :
    findIn [a] (t ++ a :: s) = some t.length := by
  induction t with
  | nil => simp [findIn]
  | cons c t ih =>
      rw [List.mem_cons, not_or] at ht
      have hpre : ¬ [a] <+: c :: (t ++ a :: s) := fun hpre =>
        ht.1 (List.cons_prefix_cons.mp hpre).1
      rw [List.cons_append, findIn, if_neg (mt List.isPrefixOf_iff_prefix.mp hpre), ih ht.2]
      rfl

end Workshop.Lib

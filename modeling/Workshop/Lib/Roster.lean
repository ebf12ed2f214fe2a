import Mathlib.Data.List.Nodup
import Mathlib.Tactic.Common
import Workshop.Lib.KeyedList

/-!
# Numbered objects and their lives

A `Roster` is a list of objects that come and go, each with a number of its own, and a log of what
each of them did.  There are three ways to change it: an object is started, an object changes
(`update`), and objects are removed (`finish`); each adds to the log.

`Lives A C r` is the invariant of such a list: what an object that is still there has done agrees
with its state (`A`), and what one that is gone has done is a whole life (`C`).  There is one rule
for each of the three changes, which asks only about the object itself; the numbers of the others
take care of themselves.
-/

namespace Workshop.Lib

variable {ω α : Type*}

/-- Objects with their numbers, how many there have been, and what they have done. -/
structure Roster (ω α : Type*) where
  objects : List (ℕ × ω)
  created : ℕ
  log : List (ℕ × α)
  nodup : (objects.map Prod.fst).Nodup
  lt_created : ∀ p ∈ objects, p.1 < created

namespace Roster

variable (r : Roster ω α)

/-- No object yet. -/
def empty : Roster ω α := ⟨[], 0, [], List.nodup_nil, by simp⟩

/-- What an object has done. -/
def logOf (k : ℕ) : List α := (r.log.filter fun p => p.1 = k).map Prod.snd

/-- The object with a number. -/
def find? (k : ℕ) : Option ω := (r.objects.find? fun p => p.1 = k).map Prod.snd

/-- A new object, with the next number. -/
def start (o : ω) (acts : List α) : Roster ω α where
  objects := r.objects ++ [(r.created, o)]
  created := r.created + 1
  log := r.log ++ acts.map fun a => (r.created, a)
  nodup := by
    rw [List.map_append, List.map_singleton, List.nodup_append]
    refine ⟨r.nodup, List.nodup_singleton _, fun k hk k' hk' heq => ?_⟩
    obtain ⟨p, hp, rfl⟩ := List.mem_map.mp hk
    have hlt := r.lt_created p hp
    have hlast := List.mem_singleton.mp hk'
    omega
  lt_created p hp := by
    rcases List.mem_append.mp hp with hp | hp
    · exact Nat.lt_succ_of_lt (r.lt_created p hp)
    · rw [List.mem_singleton.mp hp]
      exact Nat.lt_succ_self _

/-- The state of an object changes. -/
def update (k : ℕ) (o : ω) (acts : List α) : Roster ω α where
  objects := r.objects.map fun p => if p.1 = k then (k, o) else p
  created := r.created
  log := r.log ++ acts.map fun a => (k, a)
  nodup := by
    have hsame : (r.objects.map fun p => if p.1 = k then (k, o) else p).map Prod.fst =
        r.objects.map Prod.fst := by
      rw [List.map_map]
      refine List.map_congr_left fun p _ => ?_
      by_cases hp : p.1 = k <;> simp [hp]
    rw [hsame]
    exact r.nodup
  lt_created p hp := by
    obtain ⟨q, hq, rfl⟩ := List.mem_map.mp hp
    have hlt := r.lt_created q hq
    by_cases hk : q.1 = k
    · rw [if_pos hk]
      exact hk ▸ hlt
    · rw [if_neg hk]
      exact hlt

/-- The selected objects are removed, each with its last actions. -/
def finish (sel : ℕ × ω → Bool) (acts : ω → List α) : Roster ω α where
  objects := r.objects.filter fun p => !sel p
  created := r.created
  log := r.log ++ (r.objects.filter sel).flatMap fun p => (acts p.2).map fun a => (p.1, a)
  nodup := r.nodup.sublist (List.filter_sublist.map _)
  lt_created p hp := r.lt_created p (List.mem_filter.mp hp).1

section

variable {r} {k : ℕ} {o : ω} {acts : List α}

theorem mem_of_find? (h : r.find? k = some o) : (k, o) ∈ r.objects := by
  obtain ⟨p, hp, rfl⟩ := Option.map_eq_some_iff.mp h
  have hk : p.1 = k := by simpa using List.find?_some hp
  exact hk ▸ List.mem_of_find?_eq_some hp

/-- A number has one object. -/
theorem eq_of_mem {o' : ω} (h : (k, o) ∈ r.objects) (h' : (k, o') ∈ r.objects) : o = o' :=
  (Prod.mk.inj (List.inj_on_of_nodup_map r.nodup h h' rfl)).2

/-- Actions of one object are in its own log, and in no other. -/
theorem filter_map_mk (acts : List α) (k k' : ℕ) :
    ((acts.map fun a => (k, a)).filter fun p => p.1 = k').map Prod.snd =
      if k = k' then acts else [] := by
  rw [List.filter_map, List.map_map]
  by_cases hk : k = k' <;> simp [Function.comp_def, hk]

theorem logOf_start (k' : ℕ) :
    (r.start o acts).logOf k' = r.logOf k' ++ if r.created = k' then acts else [] := by
  rw [logOf, start, List.filter_append, List.map_append, filter_map_mk, logOf]

theorem logOf_update (k' : ℕ) :
    (r.update k o acts).logOf k' = r.logOf k' ++ if k = k' then acts else [] := by
  rw [logOf, update, List.filter_append, List.map_append, filter_map_mk, logOf]

theorem mem_update {p : ℕ × ω} (h : ∃ o₀, (k, o₀) ∈ r.objects) :
    p ∈ (r.update k o acts).objects ↔ p = (k, o) ∨ (p ∈ r.objects ∧ p.1 ≠ k) := by
  obtain ⟨o₀, h₀⟩ := h
  simp only [update, List.mem_map]
  constructor
  · rintro ⟨q, hq, rfl⟩
    by_cases hk : q.1 = k
    · exact .inl (if_pos hk)
    · rw [if_neg hk]
      exact .inr ⟨hq, hk⟩
  · rintro (rfl | ⟨hp, hk⟩)
    · exact ⟨(k, o₀), h₀, if_pos rfl⟩
    · exact ⟨p, hp, if_neg hk⟩

variable {sel : ℕ × ω → Bool} {last : ω → List α}

theorem exists_mem_update {j : ℕ} (h : ∃ o₀, (j, o₀) ∈ r.objects) :
    (∃ o', (k, o') ∈ (r.update j o acts).objects) ↔ ∃ o', (k, o') ∈ r.objects := by
  constructor
  · rintro ⟨o', ho'⟩
    rcases (mem_update h).mp ho' with heq | ⟨ho', _⟩
    · rw [(Prod.mk.inj heq).1]
      exact h
    · exact ⟨o', ho'⟩
  · rintro ⟨o', ho'⟩
    by_cases hk : k = j
    · exact ⟨o, (mem_update h).mpr (.inl (by rw [hk]))⟩
    · exact ⟨o', (mem_update h).mpr (.inr ⟨ho', hk⟩)⟩

theorem exists_mem_finish (h : (k, o) ∈ r.objects) :
    (∃ o', (k, o') ∈ (r.finish sel last).objects) ↔ sel (k, o) = false := by
  simp only [finish, List.mem_filter, Bool.not_eq_true']
  constructor
  · rintro ⟨o', ho', hsel⟩
    rwa [eq_of_mem h ho']
  · exact fun hsel => ⟨o, h, hsel⟩

/-- What the last actions of some objects say about one number. -/
theorem filter_flatMap_mk (l : List (ℕ × ω)) (last : ω → List α) (k : ℕ) :
    ((l.flatMap fun p => (last p.2).map fun a => (p.1, a)).filter fun p => p.1 = k).map Prod.snd =
      (l.filter fun p => p.1 = k).flatMap fun p => last p.2 := by
  induction l with
  | nil => rfl
  | cons p l ih =>
      rw [List.flatMap_cons, List.filter_append, List.map_append, filter_map_mk, ih]
      by_cases hk : p.1 = k <;> simp [hk]

theorem logOf_finish (k : ℕ) : (r.finish sel last).logOf k =
    r.logOf k ++ ((r.objects.filter sel).filter fun p => p.1 = k).flatMap fun p => last p.2 := by
  rw [logOf, finish, List.filter_append, List.map_append, filter_flatMap_mk, logOf]

/-- An object that stays does nothing. -/
theorem logOf_finish_of_not (h : ∀ p ∈ r.objects, p.1 = k → sel p = false) :
    (r.finish sel last).logOf k = r.logOf k := by
  have hnone : ((r.objects.filter sel).filter fun p => p.1 = k) = [] := by
    refine List.filter_eq_nil_iff.mpr fun p hp hk => ?_
    obtain ⟨hp, hsel⟩ := List.mem_filter.mp hp
    exact absurd (hsel.symm.trans (h p hp (by simpa using hk))) (by simp)
  rw [logOf_finish, hnone, List.flatMap_nil, List.append_nil]

/-- An object that goes has its last actions. -/
theorem logOf_finish_of_mem (h : (k, o) ∈ r.objects) (hsel : sel (k, o) = true) :
    (r.finish sel last).logOf k = r.logOf k ++ last o := by
  have hnodup : ((r.objects.filter sel).map Prod.fst).Nodup :=
    r.nodup.sublist (List.filter_sublist.map _)
  rw [logOf_finish, KeyedList.filter_of_nodup hnodup (List.mem_filter.mpr ⟨h, hsel⟩),
    List.flatMap_singleton]

end

/-! ## Lives -/

/-- **The invariant**: an object that is there agrees with what it has done, and one that is gone
has a whole life behind it. -/
structure Lives (A : ω → List α → Prop) (C : ℕ → List α → Prop) (r : Roster ω α) : Prop where
  unborn : ∀ k, r.created ≤ k → r.logOf k = []
  alive : ∀ k o, (k, o) ∈ r.objects → A o (r.logOf k)
  gone : ∀ k < r.created, (∀ o, (k, o) ∉ r.objects) → C k (r.logOf k)

namespace Lives

variable {A : ω → List α → Prop} {C : ℕ → List α → Prop} {r} {k : ℕ} {o o' : ω} {acts : List α}

theorem empty : Lives A C empty where
  unborn _ _ := rfl
  alive _ _ h := absurd h List.not_mem_nil
  gone k hk := absurd hk (Nat.not_lt_zero k)

theorem start (h : Lives A C r) (hA : A o acts) : Lives A C (r.start o acts) where
  unborn k hk := by
    have hk : r.created + 1 ≤ k := hk
    rw [logOf_start, if_neg (by omega), List.append_nil]
    exact h.unborn k (by omega)
  alive k o' hmem := by
    rw [logOf_start]
    rcases List.mem_append.mp hmem with hmem | hmem
    · have hlt : k < r.created := r.lt_created _ hmem
      rw [if_neg (by omega), List.append_nil]
      exact h.alive k o' hmem
    · obtain ⟨rfl, rfl⟩ := Prod.mk.inj (List.mem_singleton.mp hmem)
      rw [if_pos rfl, h.unborn _ (Nat.le_refl _), List.nil_append]
      exact hA
  gone k hk hnone := by
    have hk : k < r.created + 1 := hk
    have hne : r.created ≠ k := by
      rintro rfl
      exact hnone o (List.mem_append_right _ (List.mem_singleton_self _))
    rw [logOf_start, if_neg hne, List.append_nil]
    exact h.gone k (by omega) fun o' hmem => hnone o' (List.mem_append_left _ hmem)

theorem update (h : Lives A C r) (hmem : (k, o) ∈ r.objects)
    (hA : A o (r.logOf k) → A o' (r.logOf k ++ acts)) : Lives A C (r.update k o' acts) where
  unborn k' hk' := by
    have hk' : r.created ≤ k' := hk'
    have hlt : k < r.created := r.lt_created _ hmem
    rw [logOf_update, if_neg (by omega), List.append_nil]
    exact h.unborn k' hk'
  alive k' o'' hmem' := by
    rw [logOf_update]
    rcases (mem_update ⟨o, hmem⟩).mp hmem' with heq | ⟨hmem', hne⟩
    · obtain ⟨rfl, rfl⟩ := Prod.mk.inj heq
      rw [if_pos rfl]
      exact hA (h.alive _ o hmem)
    · rw [if_neg (Ne.symm hne), List.append_nil]
      exact h.alive k' o'' hmem'
  gone k' hk' hnone := by
    have hne : k ≠ k' := by
      rintro rfl
      exact hnone o' ((mem_update ⟨o, hmem⟩).mpr (.inl rfl))
    rw [logOf_update, if_neg hne, List.append_nil]
    refine h.gone k' hk' fun o'' hmem' => ?_
    exact hnone o'' ((mem_update ⟨o, hmem⟩).mpr (.inr ⟨hmem', Ne.symm hne⟩))

theorem finish {sel : ℕ × ω → Bool} {last : ω → List α} (h : Lives A C r)
    (hC : ∀ k o, (k, o) ∈ r.objects → sel (k, o) = true → A o (r.logOf k) →
      C k (r.logOf k ++ last o)) : Lives A C (r.finish sel last) where
  unborn k hk := by
    have hk : r.created ≤ k := hk
    rw [logOf_finish_of_not fun p hp heq => absurd (r.lt_created p hp) (by omega)]
    exact h.unborn k hk
  alive k o hmem := by
    obtain ⟨hmem, hsel⟩ := List.mem_filter.mp hmem
    rw [logOf_finish_of_not]
    · exact h.alive k o hmem
    · rintro ⟨k', o'⟩ hp rfl
      rw [eq_of_mem hp hmem]
      simpa using hsel
  gone k hk hnone := by
    by_cases hbefore : ∃ o, (k, o) ∈ r.objects
    · obtain ⟨o, hmem⟩ := hbefore
      have hsel : sel (k, o) = true := by
        by_contra hsel
        exact hnone o (List.mem_filter.mpr ⟨hmem, by simpa using hsel⟩)
      rw [logOf_finish_of_mem hmem hsel]
      exact hC k o hmem hsel (h.alive k o hmem)
    · have hgone : ∀ o, (k, o) ∉ r.objects := fun o hmem => hbefore ⟨o, hmem⟩
      rw [logOf_finish_of_not]
      · exact h.gone k hk hgone
      · rintro ⟨k', o⟩ hp rfl
        exact absurd hp (hgone o)

end Lives

end Roster

end Workshop.Lib

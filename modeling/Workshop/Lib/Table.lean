import Mathlib.Data.List.Nodup
import Mathlib.Tactic.Common

/-!
# Keyed tables

`Table key` is a table whose rows have a primary key: a list of rows in storage order, with the
uniqueness of the key as a field, so that no statement can break it.  An `Update` is an `UPDATE`
statement that leaves the key alone; `exec` runs it, and `insert` and `delete` are the other two
ways to change a table.  Each is a single atomic statement.

A program looks at such a table in two ways: row by row (`find?`, for a statement that names the
key) and as a whole (`rows`, for a statement or a property that ranges over the table).  The
lemmas give the effect of every statement in both views: `find?_exec`, `find?_insert`,
`find?_delete` and `mem_exec`, `mem_insert`, `mem_delete`.
-/

namespace Workshop.Lib

/-- A table of rows of type `ρ` with the primary key `key`. -/
structure Table {κ ρ : Type*} (key : ρ → κ) where
  rows : List ρ
  nodup : (rows.map key).Nodup

/-- The statement `UPDATE … SET set WHERE cond`, for an assignment that leaves the key alone. -/
structure Update {κ ρ : Type*} (key : ρ → κ) where
  cond : ρ → Bool
  set : ρ → ρ
  key_set : ∀ r, key (set r) = key r

/-- What an `UPDATE` makes of one row. -/
def Update.apply {κ ρ : Type*} {key : ρ → κ} (u : Update key) (r : ρ) : ρ :=
  if u.cond r then u.set r else r

lemma Update.key_apply {κ ρ : Type*} {key : ρ → κ} (u : Update key) (r : ρ) :
    key (u.apply r) = key r := by
  by_cases h : u.cond r = true <;> simp [Update.apply, h, u.key_set]

lemma Update.apply_of_cond {κ ρ : Type*} {key : ρ → κ} {u : Update key} {r : ρ}
    (h : u.cond r = true) : u.apply r = u.set r := if_pos h

lemma Update.apply_of_not_cond {κ ρ : Type*} {key : ρ → κ} {u : Update key} {r : ρ}
    (h : u.cond r = false) : u.apply r = r := by
  simp [Update.apply, h]

namespace Table

variable {κ ρ : Type*} {key : ρ → κ}

/-- The empty table. -/
def empty : Table key := ⟨[], by simp⟩

/-- The table with one row. -/
def single (r : ρ) : Table key := ⟨[r], by simp⟩

@[simp] theorem rows_single (r : ρ) : (single r : Table key).rows = [r] := rfl

/-- Run an `UPDATE` statement. -/
def exec (t : Table key) (u : Update key) : Table key where
  rows := t.rows.map u.apply
  nodup := by
    have hkeys : (t.rows.map u.apply).map key = t.rows.map key := by
      rw [List.map_map]
      exact List.map_congr_left fun r _ => u.key_apply r
    rw [hkeys]
    exact t.nodup

/-- The number of rows an `UPDATE` affects. -/
def affected (t : Table key) (u : Update key) : ℕ := t.rows.countP u.cond

/-- `INSERT`, which fails when the key is taken. -/
def insert [DecidableEq κ] (t : Table key) (r : ρ) : Option (Table key) :=
  if h : key r ∈ t.rows.map key then none
  else some ⟨t.rows ++ [r], by
    rw [List.map_append, List.map_singleton, List.nodup_append]
    refine ⟨t.nodup, by simp, fun a ha b hb hab => h ?_⟩
    rw [List.mem_singleton] at hb
    exact hb ▸ hab ▸ ha⟩

/-- `DELETE … WHERE p`. -/
def delete (t : Table key) (p : ρ → Bool) : Table key where
  rows := t.rows.filter fun r => !p r
  nodup := t.nodup.sublist (List.filter_sublist.map key)

/-- The row with the given key. -/
def find? [DecidableEq κ] (t : Table key) (k : κ) : Option ρ :=
  t.rows.find? fun r => key r = k

/-! ## The table as a set of rows -/

theorem mem_exec {t : Table key} {u : Update key} {r' : ρ} :
    r' ∈ (t.exec u).rows ↔ ∃ r ∈ t.rows, u.apply r = r' := by
  simp [exec]

theorem rows_insert [DecidableEq κ] {t t' : Table key} {r : ρ} (h : t.insert r = some t') :
    t'.rows = t.rows ++ [r] := by
  by_cases hk : key r ∈ t.rows.map key
  · simp [insert, hk] at h
  · simp only [insert, dif_neg hk, Option.some.injEq] at h
    rw [← h]

theorem mem_insert [DecidableEq κ] {t t' : Table key} {r r' : ρ} (h : t.insert r = some t') :
    r' ∈ t'.rows ↔ r' ∈ t.rows ∨ r' = r := by
  rw [rows_insert h, List.mem_append, List.mem_singleton]

theorem mem_delete {t : Table key} {p : ρ → Bool} {r : ρ} :
    r ∈ (t.delete p).rows ↔ r ∈ t.rows ∧ p r = false := by
  simp [delete]

/-- A `DELETE` that affects no row changes nothing. -/
theorem delete_of_forall {t : Table key} {p : ρ → Bool} (h : ∀ r ∈ t.rows, p r = false) :
    t.delete p = t := by
  have hrows : (t.delete p).rows = t.rows := List.filter_eq_self.mpr fun r hr => by simp [h r hr]
  rcases t with ⟨rows, hnodup⟩
  simp only [delete, mk.injEq] at hrows ⊢
  exact hrows

theorem affected_pos {t : Table key} {u : Update key} :
    0 < t.affected u ↔ ∃ r ∈ t.rows, u.cond r = true := by
  simp [affected, List.countP_pos_iff]

/-- An `UPDATE` that affects no row changes nothing. -/
theorem exec_of_affected {t : Table key} {u : Update key} (h : t.affected u = 0) :
    t.exec u = t := by
  have hsame : ∀ r ∈ t.rows, u.apply r = r := by
    intro r hr
    refine Update.apply_of_not_cond ?_
    simpa using List.countP_eq_zero.mp h r hr
  have hrows : (t.exec u).rows = t.rows := (List.map_congr_left hsame).trans (List.map_id _)
  rcases t with ⟨rows, hnodup⟩
  simp only [exec, mk.injEq] at hrows ⊢
  exact hrows

/-- Two rows of a table with the same key are the same row. -/
theorem eq_of_key_eq {t : Table key} {r r' : ρ} (h : r ∈ t.rows) (h' : r' ∈ t.rows)
    (hk : key r = key r') : r = r' :=
  List.inj_on_of_nodup_map t.nodup h h' hk

/-! ## The table as a partial map from keys to rows -/

variable [DecidableEq κ]

theorem find?_eq_some {t : Table key} {k : κ} {r : ρ} :
    t.find? k = some r ↔ r ∈ t.rows ∧ key r = k := by
  constructor
  · intro h
    exact ⟨List.mem_of_find?_eq_some h, by simpa using List.find?_some h⟩
  · rintro ⟨hmem, hk⟩
    rcases hfind : t.find? k with _ | r'
    · simpa [hk] using List.find?_eq_none.mp hfind r hmem
    · have hk' : key r' = k := by simpa using List.find?_some hfind
      have hmem' := List.mem_of_find?_eq_some hfind
      rw [eq_of_key_eq hmem' hmem (hk'.trans hk.symm)]

theorem find?_eq_none {t : Table key} {k : κ} : t.find? k = none ↔ ∀ r ∈ t.rows, key r ≠ k := by
  simp [find?, List.find?_eq_none]

theorem key_of_find? {t : Table key} {k : κ} {r : ρ} (h : t.find? k = some r) : key r = k :=
  (find?_eq_some.mp h).2

/-- An `UPDATE` acts on each row by itself. -/
theorem find?_exec (t : Table key) (u : Update key) (k : κ) :
    (t.exec u).find? k = (t.find? k).map u.apply := by
  simp only [find?, exec, List.find?_map]
  congr 2
  funext r
  simp [u.key_apply]

/-- An `UPDATE … WHERE key = k AND …` affects a row exactly if the row with that key meets the
rest of the condition. -/
theorem affected_pos_of_key {t : Table key} {u : Update key} {k : κ}
    (hu : ∀ r, u.cond r = true → key r = k) :
    0 < t.affected u ↔ ∃ r, t.find? k = some r ∧ u.cond r = true := by
  rw [affected_pos]
  constructor
  · rintro ⟨r, hmem, hr⟩
    exact ⟨r, find?_eq_some.mpr ⟨hmem, hu r hr⟩, hr⟩
  · rintro ⟨r, hfind, hr⟩
    exact ⟨r, (find?_eq_some.mp hfind).1, hr⟩

theorem find?_insert {t t' : Table key} {r : ρ} (h : t.insert r = some t') (k : κ) :
    t.find? (key r) = none ∧ t'.find? k = if key r = k then some r else t.find? k := by
  by_cases hk : key r ∈ t.rows.map key
  · simp [insert, hk] at h
  · simp only [insert, dif_neg hk, Option.some.injEq] at h
    subst h
    have hnone : t.find? (key r) = none := by
      rw [find?_eq_none]
      intro a ha hak
      exact hk (List.mem_map.mpr ⟨a, ha, hak⟩)
    refine ⟨hnone, ?_⟩
    by_cases hkk : key r = k
    · subst hkk
      simp only [find?] at hnone ⊢
      simp [List.find?_append, hnone]
    · simp [find?, List.find?_append, hkk]

theorem find?_delete (t : Table key) (p : ρ → Bool) (k : κ) :
    (t.delete p).find? k = (t.find? k).filter fun r => !p r := by
  rcases hr : t.find? k with _ | r
  · rw [Option.filter_none, find?_eq_none]
    intro r hmem
    exact find?_eq_none.mp hr r (mem_delete.mp hmem).1
  · obtain ⟨hmem, hk⟩ := find?_eq_some.mp hr
    by_cases hp : p r = true
    · rw [Option.filter_some_neg (by simp [hp]), find?_eq_none]
      intro a ha hak
      obtain ⟨hamem, hap⟩ := mem_delete.mp ha
      rw [eq_of_key_eq hamem hmem (hak.trans hk.symm), hp] at hap
      exact absurd hap (by simp)
    · rw [Option.filter_some_pos (by simp [hp]), find?_eq_some]
      exact ⟨mem_delete.mpr ⟨hmem, by simpa using hp⟩, hk⟩

/-! ## Steps that execute at most one `UPDATE` -/

/-- What a step with the `UPDATE` `u`, if it has one, makes of a row. -/
def rowAfter (u : Option (Update key)) (r : ρ) : ρ :=
  match u with
  | none => r
  | some u => u.apply r

/-- What a step with the `UPDATE` `u`, if it has one, makes of a table. -/
def tableAfter (t : Table key) (u : Option (Update key)) : Table key :=
  match u with
  | none => t
  | some u => t.exec u

omit [DecidableEq κ] in
/-- A step leaves a row as it is, or its `UPDATE` affects it. -/
theorem rowAfter_cases (u : Option (Update key)) (r : ρ) :
    rowAfter u r = r ∨ ∃ u', u = some u' ∧ u'.cond r = true ∧ rowAfter u r = u'.set r := by
  rcases u with _ | u
  · exact .inl rfl
  · by_cases hcond : u.cond r = true
    · exact .inr ⟨u, rfl, hcond, Update.apply_of_cond hcond⟩
    · exact .inl (Update.apply_of_not_cond (by simpa using hcond))

omit [DecidableEq κ] in
/-- An `UPDATE` that affects the row. -/
theorem rowAfter_of_cond {u : Update key} {r : ρ} (h : u.cond r = true) :
    rowAfter (some u) r = u.set r :=
  Update.apply_of_cond h

omit [DecidableEq κ] in
theorem rows_tableAfter (t : Table key) (u : Option (Update key)) :
    (t.tableAfter u).rows = t.rows.map (rowAfter u) := by
  rcases u with _ | u
  · exact (List.map_id' t.rows).symm
  · rfl

omit [DecidableEq κ] in
theorem mem_tableAfter {t : Table key} {u : Option (Update key)} {r' : ρ} :
    r' ∈ (t.tableAfter u).rows ↔ ∃ r ∈ t.rows, rowAfter u r = r' := by
  rw [rows_tableAfter, List.mem_map]

theorem find?_tableAfter (t : Table key) (u : Option (Update key)) (k : κ) :
    (t.tableAfter u).find? k = (t.find? k).map (rowAfter u) := by
  rcases u with _ | u
  · exact Option.map_id'.symm
  · exact find?_exec t u k

end Table

end Workshop.Lib

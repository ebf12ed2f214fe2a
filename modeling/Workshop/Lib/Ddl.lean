import Mathlib.Data.Finmap
import Workshop.Lib.Run
import Workshop.Lib.Script

/-!
# Schemas and the statements that change them

The part of PostgreSQL's data definition language that migrations consist of: columns are added,
indexes and rules are created and dropped, and time stamps get a time zone.  A statement that fails
changes nothing.

`exec_frame` says what a statement can change.  Most statements can be repeated: they are settled
once they were executed (`settlesItself`), and whether another one keeps them so is a question about
the two statements alone (`keepsSettled_of_compatible`).  Whether a script of such statements can be
executed is a question about the columns that are there (`completed_iff`).
-/

namespace Workshop.Lib.Ddl

/-! ## Schemas -/

/-- The type of a column: a time stamp, with or without time zone, or something else. -/
inductive ColumnType
  | timestamp
  | timestamptz
  | other (name : String)
  deriving DecidableEq, Repr

/-- A column; the constraint is `NULL`, `NOT NULL` and so on. -/
structure Column where
  type : ColumnType
  constraint : String := "NULL"
  deriving DecidableEq, Repr

/-- A column in a condition; in a rule, of the old or the new row. -/
structure ColumnRef where
  row : String := ""
  column : String
  deriving DecidableEq, Repr

/-- The condition of an index or of a rule. -/
inductive Condition
  | true
  | holds (c : ColumnRef)
  | isNull (c : ColumnRef)
  | differ (c d : ColumnRef)
  | differsFrom (c : ColumnRef) (literal : String)
  | not (p : Condition)
  | and (p q : Condition)
  | or (p q : Condition)
  deriving DecidableEq, Repr

/-- The columns that a condition names. -/
def Condition.columns : Condition → List String
  | true => []
  | holds c => [c.column]
  | isNull c => [c.column]
  | differ c d => [c.column, d.column]
  | differsFrom c _ => [c.column]
  | not p => p.columns
  | and p q => p.columns ++ q.columns
  | or p q => p.columns ++ q.columns

/-- The columns that are compared with a literal. -/
def Condition.compared : Condition → List String
  | differsFrom c _ => [c.column]
  | not p => p.compared
  | and p q => p.compared ++ q.compared
  | or p q => p.compared ++ q.compared
  | _ => []

structure Index where
  table : String
  columns : List String
  condition : Condition := .true
  deriving DecidableEq, Repr

structure Rule where
  event : String
  condition : Condition := .true
  action : String
  /-- the columns that the action names -/
  actionColumns : List String := []
  deriving DecidableEq, Repr

/-- A schema.  The names of indexes are those of the whole schema, rules and columns belong to a
table. -/
structure Schema where
  tables : String → Bool
  columns : String × String → Option Column
  indexes : Finmap fun _ : String => Index
  rules : Finmap fun _ : String × String => Rule

namespace Schema

variable (s : Schema)

/-- The columns are there. -/
def has (table : String) (columns : List String) : Bool :=
  s.tables table && columns.all fun c => (s.columns (table, c)).isSome

/-- The type of a column, if there is one. -/
def columnType (table column : String) : Option ColumnType :=
  (s.columns (table, column)).map Column.type

/-- A rule of the table names the column. -/
def usedByRule (table column : String) : Bool :=
  decide (∃ k ∈ s.rules.keys, k.1 = table ∧
    ∃ rule ∈ s.rules.lookup k, column ∈ rule.condition.columns ++ rule.actionColumns)

/-- An index of the table compares the column with a literal. -/
def comparedByIndex (table column : String) : Bool :=
  decide (∃ k ∈ s.indexes.keys, ∃ index ∈ s.indexes.lookup k,
    index.table = table ∧ column ∈ index.condition.compared)

/-- The column can be given a time zone.  If it gets one, no index may compare it with a literal,
since that would not be immutable then. -/
def canAlter (table column : String) : Bool :=
  !s.usedByRule table column &&
    (s.columnType table column = some .timestamptz ||
      s.columnType table column = some .timestamp && !s.comparedByIndex table column)

/-- The columns get a time zone, unless one of them cannot. -/
def addTimeZones (table : String) (columns : List String) : Option Schema :=
  if s.tables table && columns.all (s.canAlter table) then some { s with
    columns := fun k =>
      if k.1 = table ∧ k.2 ∈ columns then
        (s.columns k).map fun column => { column with type := .timestamptz }
      else s.columns k }
  else none

variable {s}

lemma canAlter_iff {table column : String} : s.canAlter table column = true ↔
    (∀ name rule, s.rules.lookup (table, name) = some rule →
        column ∉ rule.condition.columns ++ rule.actionColumns) ∧
      (s.columnType table column = some .timestamptz ∨
        s.columnType table column = some .timestamp ∧
          ∀ name index, s.indexes.lookup name = some index → index.table = table →
            column ∉ index.condition.compared) := by
  have hrule : s.usedByRule table column = false ↔
      ∀ name rule, s.rules.lookup (table, name) = some rule →
        column ∉ rule.condition.columns ++ rule.actionColumns := by
    rw [usedByRule, decide_eq_false_iff_not]
    constructor
    · intro h name rule hlookup hmem
      exact h ⟨_, Finmap.mem_keys.mpr (Finmap.mem_of_lookup_eq_some hlookup), rfl, rule, hlookup,
        hmem⟩
    · rintro h ⟨⟨_, name⟩, -, rfl, rule, hlookup, hmem⟩
      exact h name rule hlookup hmem
  have hindex : s.comparedByIndex table column = false ↔
      ∀ name index, s.indexes.lookup name = some index → index.table = table →
        column ∉ index.condition.compared := by
    rw [comparedByIndex, decide_eq_false_iff_not]
    constructor
    · intro h name index hlookup htable hmem
      exact h
        ⟨_, Finmap.mem_keys.mpr (Finmap.mem_of_lookup_eq_some hlookup), index, hlookup, htable,
        hmem⟩
    · rintro h ⟨name, -, index, hlookup, htable, hmem⟩
      exact h name index hlookup htable hmem
  rw [canAlter, Bool.and_eq_true, Bool.not_eq_true', Bool.or_eq_true, Bool.and_eq_true,
    Bool.not_eq_true', decide_eq_true_iff, decide_eq_true_iff, hrule, hindex]

lemma has_iff {table : String} {columns : List String} : s.has table columns = true ↔
    s.tables table = true ∧ ∀ c ∈ columns, (s.columns (table, c)).isSome = true := by
  simp [has]

end Schema

/-! ## Statements -/

inductive Statement
  /-- `ALTER TABLE … ADD COLUMN IF NOT EXISTS …, …` -/
  | addColumns (table : String) (columns : List (String × Column))
  | createIndex (ifNotExists : Bool) (name : String) (index : Index)
  | dropIndex (ifExists : Bool) (name : String)
  | createOrReplaceRule (table name : String) (rule : Rule)
  /-- `DROP RULE IF EXISTS … ON …` -/
  | dropRule (table name : String)
  /-- `ALTER TABLE … ALTER COLUMN … TYPE timestamp with time zone, …` -/
  | addTimeZones (table : String) (columns : List String)
  /-- the same, but only if the type of `column` is `timestamp without time zone` -/
  | addTimeZonesIf (table column : String) (columns : List String)
  deriving DecidableEq, Repr

namespace Statement

/-- Execute a statement.  The columns of an index are looked up before its name is. -/
def exec : Statement → Schema → Option Schema
  | addColumns table columns, s =>
    if s.tables table then some { s with
      columns := fun k =>
        if k.1 = table then (s.columns k).or (columns.lookup k.2) else s.columns k }
    else none
  | createIndex ifNotExists name index, s =>
    if s.has index.table (index.columns ++ index.condition.columns) then
      if name ∈ s.indexes then if ifNotExists then some s else none
      else some { s with indexes := s.indexes.insert name index }
    else none
  | dropIndex ifExists name, s =>
    if name ∈ s.indexes then some { s with indexes := s.indexes.erase name }
    else if ifExists then some s else none
  | createOrReplaceRule table name rule, s =>
    if s.has table (rule.condition.columns ++ rule.actionColumns) then
      some { s with rules := s.rules.insert (table, name) rule }
    else none
  | dropRule table name, s => some { s with rules := s.rules.erase (table, name) }
  | addTimeZones table columns, s => s.addTimeZones table columns
  | addTimeZonesIf table column columns, s =>
    if s.columnType table column = some .timestamp then s.addTimeZones table columns else some s

/-! ## What a statement is about -/

/-- The table that must be there. -/
def onTable : Statement → Option String
  | addColumns table _ => some table
  | createIndex _ _ index => some index.table
  | createOrReplaceRule table _ _ => some table
  | _ => none

/-- The columns that must be there. -/
def requires : Statement → List (String × String)
  | createIndex _ _ index =>
    (index.columns ++ index.condition.columns).map fun c => (index.table, c)
  | createOrReplaceRule table _ rule =>
    (rule.condition.columns ++ rule.actionColumns).map fun c => (table, c)
  | _ => []

/-- The columns that are there afterwards. -/
def added : Statement → List (String × String)
  | addColumns table columns => columns.map fun c => (table, c.1)
  | _ => []

/-- The columns that can get a time zone. -/
def altered : Statement → List (String × String)
  | addTimeZones table columns => columns.map fun c => (table, c)
  | addTimeZonesIf table _ columns => columns.map fun c => (table, c)
  | _ => []

/-- The column that has a time zone afterwards, if it is there. -/
def ensured : Statement → List (String × String)
  | addTimeZonesIf table column _ => [(table, column)]
  | _ => []

def createdIndexes : Statement → List (String × Index)
  | createIndex _ name index => [(name, index)]
  | _ => []

def droppedIndexes : Statement → List String
  | dropIndex _ name => [name]
  | _ => []

def createdRules : Statement → List ((String × String) × Rule)
  | createOrReplaceRule table name rule => [((table, name), rule)]
  | _ => []

def droppedRules : Statement → List (String × String)
  | dropRule table name => [(table, name)]
  | _ => []

/-- What a statement does to the columns. -/
structure ColumnsFrame (st : Statement) (old new : String × String → Option Column) : Prop where
  of_some : ∀ k column, old k = some column → k ∉ st.altered → new k = some column
  isSome_iff : ∀ k, (new k).isSome = true ↔ (old k).isSome = true ∨ k ∈ st.added
  some_of : ∀ k column, new k = some column →
    old k = some column ∨ k ∈ st.added ∨ (k ∈ st.altered ∧ column.type = .timestamptz)

/-- What it does to the indexes. -/
structure IndexesFrame (st : Statement) (old new : Finmap fun _ : String => Index) : Prop where
  of_some : ∀ n index, old.lookup n = some index → n ∉ st.droppedIndexes →
    new.lookup n = some index
  some_of : ∀ n index, new.lookup n = some index →
    old.lookup n = some index ∨ (n, index) ∈ st.createdIndexes
  created : ∀ x ∈ st.createdIndexes, x.1 ∈ new
  dropped : ∀ n ∈ st.droppedIndexes, n ∉ new

/-- What it does to the rules. -/
structure RulesFrame (st : Statement) (old new : Finmap fun _ : String × String => Rule) : Prop
    where
  lookup_eq : ∀ k, k ∉ st.createdRules.map Prod.fst → k ∉ st.droppedRules →
    new.lookup k = old.lookup k
  created : ∀ x ∈ st.createdRules, new.lookup x.1 = some x.2
  dropped : ∀ k ∈ st.droppedRules, k ∉ new

/-- **What a statement does.** -/
structure Frame (st : Statement) (s t : Schema) : Prop where
  tables : t.tables = s.tables
  columns : ColumnsFrame st s.columns t.columns
  indexes : IndexesFrame st s.indexes t.indexes
  rules : RulesFrame st s.rules t.rules

/-- What a statement finds. -/
structure Applies (st : Statement) (s : Schema) : Prop where
  table : ∀ table ∈ st.onTable, s.tables table = true
  column : ∀ k ∈ st.requires, (s.columns k).isSome = true

variable {st st' : Statement} {s t : Schema}

lemma applies_of_exec (h : st.exec s = some t) : st.Applies s := by
  cases st with
  | addColumns table columns =>
      obtain ⟨htable, -⟩ := of_guard h
      exact ⟨by rintro _ ⟨⟩; exact htable, List.forall_mem_nil _⟩
  | createIndex ifNotExists name index =>
      obtain ⟨hhas, -⟩ := Option.ite_none_right_eq_some.mp h
      obtain ⟨htable, hcolumns⟩ := Schema.has_iff.mp hhas
      exact ⟨by rintro _ ⟨⟩; exact htable, List.forall_mem_map.mpr hcolumns⟩
  | dropIndex ifExists name => exact ⟨by rintro _ ⟨⟩, List.forall_mem_nil _⟩
  | createOrReplaceRule table name rule =>
      obtain ⟨hhas, -⟩ := of_guard h
      obtain ⟨htable, hcolumns⟩ := Schema.has_iff.mp hhas
      exact ⟨by rintro _ ⟨⟩; exact htable, List.forall_mem_map.mpr hcolumns⟩
  | dropRule table name => exact ⟨by rintro _ ⟨⟩, List.forall_mem_nil _⟩
  | addTimeZones table columns => exact ⟨by rintro _ ⟨⟩, List.forall_mem_nil _⟩
  | addTimeZonesIf table column columns => exact ⟨by rintro _ ⟨⟩, List.forall_mem_nil _⟩

lemma ColumnsFrame.refl (hadded : st.added = []) (columns : String × String → Option Column) :
    ColumnsFrame st columns columns :=
  ⟨fun _ _ h _ => h, by simp [hadded], fun _ _ h => .inl h⟩

lemma IndexesFrame.refl {indexes : Finmap fun _ : String => Index}
    (hcreated : ∀ x ∈ st.createdIndexes, x.1 ∈ indexes)
    (hdropped : ∀ n ∈ st.droppedIndexes, n ∉ indexes) : IndexesFrame st indexes indexes :=
  ⟨fun _ _ h _ => h, fun _ _ h => .inl h, hcreated, hdropped⟩

lemma RulesFrame.refl (hcreated : st.createdRules = []) (hdropped : st.droppedRules = [])
    (rules : Finmap fun _ : String × String => Rule) : RulesFrame st rules rules :=
  ⟨fun _ _ _ => rfl, by simp [hcreated], by simp [hdropped]⟩

/-- A statement that is not about indexes. -/
lemma IndexesFrame.other (hcreated : st.createdIndexes = []) (hdropped : st.droppedIndexes = [])
    (indexes : Finmap fun _ : String => Index) : IndexesFrame st indexes indexes :=
  .refl (by simp [hcreated]) (by simp [hdropped])

lemma mem_added_addColumns {table : String} {columns : List (String × Column)}
    {k : String × String} : k ∈ (addColumns table columns).added ↔
      k.1 = table ∧ (columns.lookup k.2).isSome = true := by
  simp only [added, List.mem_map, List.lookup_isSome_iff, beq_iff_eq]
  constructor
  · rintro ⟨x, hx, rfl⟩
    exact ⟨rfl, x, hx, rfl⟩
  · rintro ⟨rfl, x, hx, hk⟩
    exact ⟨x, hx, hk ▸ rfl⟩

lemma addColumns_frame (table : String) (columns : List (String × Column))
    (old : String × String → Option Column) :
    ColumnsFrame (addColumns table columns) old
      fun k => if k.1 = table then (old k).or (columns.lookup k.2) else old k := by
  constructor
  · intro k column hk _
    simp only [hk, Option.some_or, ite_self]
  · intro k
    rw [mem_added_addColumns]
    split
    · rename_i htable
      rw [Option.isSome_or, Bool.or_eq_true, and_iff_right htable]
    · rename_i htable
      exact (or_iff_left fun h => htable h.1).symm
  · intro k column hk
    rw [mem_added_addColumns]
    split at hk
    · rename_i htable
      rcases Option.or_eq_some_iff.mp hk with hold | ⟨-, hnew⟩
      · exact .inl hold
      · exact .inr (.inl ⟨htable, Option.isSome_of_eq_some hnew⟩)
    · exact .inl hk

lemma addTimeZones_frame {table : String} {columns : List String}
    (hadded : st.added = []) (haltered : st.altered = columns.map fun c => (table, c))
    (h : s.addTimeZones table columns = some t) : ColumnsFrame st s.columns t.columns := by
  obtain ⟨-, rfl⟩ := of_guard h
  constructor
  · intro k column hk hother
    have hk' : ¬ (k.1 = table ∧ k.2 ∈ columns) := by
      rintro ⟨rfl, hc⟩
      rw [haltered] at hother
      exact hother (List.mem_map_of_mem hc)
    simp only [if_neg hk', hk]
  · intro k
    rw [hadded, or_iff_left List.not_mem_nil]
    dsimp only
    split
    · rw [Option.isSome_map]
    · rfl
  · intro k column hk
    dsimp only at hk
    split at hk
    · rename_i hin
      obtain ⟨old, -, rfl⟩ := Option.map_eq_some_iff.mp hk
      obtain ⟨rfl, hc⟩ := hin
      exact .inr (.inr ⟨haltered ▸ List.mem_map_of_mem hc, rfl⟩)
    · exact .inl hk

/-- Time zones change only columns. -/
lemma frame_of_addTimeZones {table : String} {columns : List String} (hadded : st.added = [])
    (haltered : st.altered = columns.map fun c => (table, c)) (hcreated : st.createdIndexes = [])
    (hdropped : st.droppedIndexes = []) (hrules : st.createdRules = [])
    (hnorules : st.droppedRules = []) (h : s.addTimeZones table columns = some t) :
    Frame st s t := by
  have hcolumns := addTimeZones_frame hadded haltered h
  obtain ⟨-, rfl⟩ := of_guard h
  exact ⟨rfl, hcolumns, .other hcreated hdropped _, .refl hrules hnorules _⟩

lemma insertIndex_frame (ifNotExists : Bool) {name : String} (index : Index)
    {old : Finmap fun _ : String => Index} (hname : name ∉ old) :
    IndexesFrame (createIndex ifNotExists name index) old (old.insert name index) where
  of_some n i h _ := by
    have hne : n ≠ name := by
      rintro rfl
      exact hname (Finmap.mem_of_lookup_eq_some h)
    rw [Finmap.lookup_insert_of_ne _ hne, h]
  some_of n i h := by
    by_cases hn : n = name
    · subst hn
      rw [Finmap.lookup_insert] at h
      exact .inr (List.mem_singleton.mpr (by rw [Option.some.inj h]))
    · rw [Finmap.lookup_insert_of_ne _ hn] at h
      exact .inl h
  created x hx := by
    obtain rfl := List.mem_singleton.mp hx
    exact Finmap.mem_insert.mpr (.inl rfl)
  dropped _ hn := absurd hn List.not_mem_nil

lemma eraseIndex_frame (ifExists : Bool) (name : String) (old : Finmap fun _ : String => Index) :
    IndexesFrame (dropIndex ifExists name) old (old.erase name) where
  of_some n i h hn := by
    rw [Finmap.lookup_erase_ne fun heq => hn (List.mem_singleton.mpr heq), h]
  some_of n i h := by
    by_cases hn : n = name
    · subst hn
      rw [Finmap.lookup_erase] at h
      cases h
    · rw [Finmap.lookup_erase_ne hn] at h
      exact .inl h
  created _ hx := absurd hx List.not_mem_nil
  dropped n hn := by
    obtain rfl := List.mem_singleton.mp hn
    exact Finmap.notMem_erase_self

lemma insertRule_frame (table name : String) (rule : Rule)
    (old : Finmap fun _ : String × String => Rule) :
    RulesFrame (createOrReplaceRule table name rule) old (old.insert (table, name) rule) where
  lookup_eq k hk _ :=
    Finmap.lookup_insert_of_ne _ fun heq => hk (List.mem_singleton.mpr heq)
  created x hx := by
    obtain rfl := List.mem_singleton.mp hx
    exact Finmap.lookup_insert _
  dropped _ hk := absurd hk List.not_mem_nil

lemma eraseRule_frame (table name : String) (old : Finmap fun _ : String × String => Rule) :
    RulesFrame (dropRule table name) old (old.erase (table, name)) where
  lookup_eq k _ hk := Finmap.lookup_erase_ne fun heq => hk (List.mem_singleton.mpr heq)
  created _ hx := absurd hx List.not_mem_nil
  dropped k hk := by
    obtain rfl := List.mem_singleton.mp hk
    exact Finmap.notMem_erase_self

theorem exec_frame (h : st.exec s = some t) : Frame st s t := by
  cases st with
  | addColumns table columns =>
      obtain ⟨-, rfl⟩ := of_guard h
      exact ⟨rfl, addColumns_frame _ _ _, .other rfl rfl _, .refl rfl rfl _⟩
  | createIndex ifNotExists name index =>
      obtain ⟨-, h⟩ := Option.ite_none_right_eq_some.mp h
      by_cases hname : name ∈ s.indexes
      · rw [if_pos hname] at h
        obtain ⟨-, rfl⟩ := of_guard h
        exact ⟨rfl, .refl rfl _,
          .refl (by simpa [createdIndexes] using hname) (by simp [droppedIndexes]),
          .refl rfl rfl _⟩
      · rw [if_neg hname] at h
        obtain rfl := Option.some.inj h
        exact ⟨rfl, .refl rfl _, insertIndex_frame _ _ hname, .refl rfl rfl _⟩
  | dropIndex ifExists name =>
      by_cases hname : name ∈ s.indexes
      · rw [exec, if_pos hname] at h
        obtain rfl := Option.some.inj h
        exact ⟨rfl, .refl rfl _, eraseIndex_frame _ _ _, .refl rfl rfl _⟩
      · rw [exec, if_neg hname] at h
        obtain ⟨-, rfl⟩ := of_guard h
        exact ⟨rfl, .refl rfl _,
          .refl (by simp [createdIndexes]) (by simpa [droppedIndexes] using hname),
          .refl rfl rfl _⟩
  | createOrReplaceRule table name rule =>
      obtain ⟨-, rfl⟩ := of_guard h
      exact ⟨rfl, .refl rfl _, .other rfl rfl _, insertRule_frame _ _ _ _⟩
  | dropRule table name =>
      obtain rfl := Option.some.inj h
      exact ⟨rfl, .refl rfl _, .other rfl rfl _, eraseRule_frame _ _ _⟩
  | addTimeZones table columns => exact frame_of_addTimeZones rfl rfl rfl rfl rfl rfl h
  | addTimeZonesIf table column columns =>
      rw [exec] at h
      split at h
      · exact frame_of_addTimeZones rfl rfl rfl rfl rfl rfl h
      · obtain rfl := Option.some.inj h
        exact ⟨rfl, .refl rfl _, .other rfl rfl _, .refl rfl rfl _⟩

/-! ## Statements that can be repeated -/

/-- A statement that does nothing if there is nothing to do. -/
def isRepeatable : Statement → Bool
  | createIndex ifNotExists _ _ => ifNotExists
  | dropIndex ifExists _ => ifExists
  | addTimeZones _ _ => false
  | addTimeZonesIf _ column columns => columns.contains column
  | addColumns _ _ => true
  | createOrReplaceRule _ _ _ => true
  | dropRule _ _ => true

/-- There is nothing to do. -/
structure Done (st : Statement) (s : Schema) : Prop extends st.Applies s where
  added : ∀ k ∈ st.added, (s.columns k).isSome = true
  createdIndexes : ∀ x ∈ st.createdIndexes, x.1 ∈ s.indexes
  droppedIndexes : ∀ n ∈ st.droppedIndexes, n ∉ s.indexes
  createdRules : ∀ x ∈ st.createdRules, s.rules.lookup x.1 = some x.2
  droppedRules : ∀ k ∈ st.droppedRules, k ∉ s.rules
  ensured : ∀ k ∈ st.ensured, s.columnType k.1 k.2 ≠ some .timestamp

/-- Columns do not go away. -/
lemma Frame.isSome_of {st st' : Statement} (h : Frame st s t) (happlies : st'.Applies s) :
    st'.Applies t where
  table table htable := by
    rw [h.tables]
    exact happlies.table table htable
  column k hk := (h.columns.isSome_iff k).mpr (.inl (happlies.column k hk))

lemma columnType_addTimeZones {table column : String} {columns : List String}
    (h : s.addTimeZones table columns = some t) (hcolumn : column ∈ columns) :
    t.columnType table column ≠ some .timestamp := by
  obtain ⟨-, rfl⟩ := of_guard h
  simp only [Schema.columnType, hcolumn, and_self, if_true, Option.map_map]
  cases s.columns (table, column) <;> simp

lemma columnType_ensured (hrepeat : st.isRepeatable = true) (h : st.exec s = some t) :
    ∀ k ∈ st.ensured, t.columnType k.1 k.2 ≠ some .timestamp := by
  cases st with
  | addTimeZonesIf table column columns =>
      refine List.forall_mem_singleton.mpr ?_
      rw [exec] at h
      split at h
      · exact columnType_addTimeZones h (List.contains_iff_mem.mp hrepeat)
      · obtain rfl := Option.some.inj h
        assumption
  | _ => exact List.forall_mem_nil _

/-- A statement that was executed is done. -/
lemma done_of_exec (hrepeat : st.isRepeatable = true) (h : st.exec s = some t) : st.Done t := by
  have hframe := exec_frame h
  exact { hframe.isSome_of (applies_of_exec h) with
    added := fun k hk => (hframe.columns.isSome_iff k).mpr (.inr hk)
    createdIndexes := hframe.indexes.created
    droppedIndexes := hframe.indexes.dropped
    createdRules := hframe.rules.created
    droppedRules := hframe.rules.dropped
    ensured := columnType_ensured hrepeat h }

lemma insert_eq_self {k : String × String} {rule : Rule}
    {rules : Finmap fun _ : String × String => Rule} (h : rules.lookup k = some rule) :
    rules.insert k rule = rules := by
  refine Finmap.ext_lookup fun k' => ?_
  by_cases hk : k' = k
  · rw [hk, Finmap.lookup_insert, h]
  · exact Finmap.lookup_insert_of_ne _ hk

lemma erase_eq_self {κ : Type*} [DecidableEq κ] {β : κ → Type*} {k : κ} {m : Finmap β} (h : k ∉ m) :
    m.erase k = m := by
  refine Finmap.ext_lookup fun k' => ?_
  by_cases hk : k' = k
  · rw [hk, Finmap.lookup_erase, Finmap.lookup_eq_none.mpr h]
  · exact Finmap.lookup_erase_ne hk

lemma addColumns_eq_self {table : String} {columns : List (String × Column)}
    {old : String × String → Option Column}
    (h : ∀ k ∈ (addColumns table columns).added, (old k).isSome = true) :
    (fun k => if k.1 = table then (old k).or (columns.lookup k.2) else old k) = old := by
  funext k
  have hiff := (addColumns_frame table columns old).isSome_iff k
  cases hk : old k with
  | some column => rw [Option.some_or, ite_self]
  | none =>
      rw [or_iff_left_of_imp (h k), hk] at hiff
      exact Option.not_isSome_iff_eq_none.mp fun hsome => absurd (hiff.mp (hk ▸ hsome)) (by simp)

lemma exec_of_done (hrepeat : st.isRepeatable = true) (h : st.Done s) : st.exec s = some s := by
  cases st with
  | addColumns table columns =>
      rw [exec, if_pos (h.table table rfl), addColumns_eq_self h.added]
  | createIndex ifNotExists name index =>
      have hhas : s.has index.table (index.columns ++ index.condition.columns) = true :=
        Schema.has_iff.mpr ⟨h.table _ rfl, List.forall_mem_map.mp h.column⟩
      rw [exec, if_pos hhas, if_pos (h.createdIndexes _ List.mem_cons_self)]
      exact if_pos hrepeat
  | dropIndex ifExists name =>
      rw [exec, if_neg (h.droppedIndexes _ List.mem_cons_self)]
      exact if_pos hrepeat
  | createOrReplaceRule table name rule =>
      have hhas : s.has table (rule.condition.columns ++ rule.actionColumns) = true :=
        Schema.has_iff.mpr ⟨h.table _ rfl, List.forall_mem_map.mp h.column⟩
      rw [exec, if_pos hhas, insert_eq_self (h.createdRules _ List.mem_cons_self)]
  | dropRule table name =>
      rw [exec, erase_eq_self (h.droppedRules _ List.mem_cons_self)]
  | addTimeZones table columns => cases hrepeat
  | addTimeZonesIf table column columns =>
      rw [exec, if_neg (h.ensured _ List.mem_cons_self)]

/-- Two statements that have nothing to do with each other, or want the same. -/
def Compatible (st st' : Statement) : Prop :=
  (∀ x ∈ st.createdIndexes, x.1 ∉ st'.droppedIndexes) ∧
    (∀ n ∈ st.droppedIndexes, n ∉ st'.createdIndexes.map Prod.fst) ∧
    (∀ x ∈ st.createdRules, x.1 ∉ st'.droppedRules ∧
      (∀ y ∈ st'.createdRules, y.1 = x.1 → y.2 = x.2)) ∧
    (∀ k ∈ st.droppedRules, k ∉ st'.createdRules.map Prod.fst) ∧
      ∀ k ∈ st.ensured, k ∉ st'.added

instance : DecidableRel Compatible := fun _ _ => inferInstanceAs (Decidable (_ ∧ _))

lemma Done.exec (h : st.Done s) (hexec : st'.exec s = some t) (hcompatible : Compatible st st') :
    st.Done t := by
  have hframe := exec_frame hexec
  obtain ⟨hcreated, hdropped, hrules, hnorules, hensured⟩ := hcompatible
  refine { hframe.isSome_of h.toApplies with
    added := fun k hk => (hframe.columns.isSome_iff k).mpr (.inl (h.added k hk))
    createdIndexes := ?_
    droppedIndexes := ?_
    createdRules := ?_
    droppedRules := ?_
    ensured := ?_ }
  · intro x hx
    obtain ⟨index, hindex⟩ := Finmap.mem_iff.mp (h.createdIndexes x hx)
    exact Finmap.mem_of_lookup_eq_some (hframe.indexes.of_some _ _ hindex (hcreated x hx))
  · intro n hn hmem
    obtain ⟨index, hindex⟩ := Finmap.mem_iff.mp hmem
    rcases hframe.indexes.some_of n index hindex with hold | hnew
    · exact h.droppedIndexes n hn (Finmap.mem_of_lookup_eq_some hold)
    · exact hdropped n hn (List.mem_map_of_mem hnew)
  · intro x hx
    by_cases hsame : x.1 ∈ st'.createdRules.map Prod.fst
    · obtain ⟨y, hy, hkey⟩ := List.mem_map.mp hsame
      rw [← hkey, hframe.rules.created y hy, (hrules x hx).2 y hy hkey]
    · rw [hframe.rules.lookup_eq _ hsame (hrules x hx).1, h.createdRules x hx]
  · intro k hk
    rw [← Finmap.lookup_eq_none]
    by_cases hdrop : k ∈ st'.droppedRules
    · exact Finmap.lookup_eq_none.mpr (hframe.rules.dropped k hdrop)
    · rw [hframe.rules.lookup_eq k (hnorules k hk) hdrop]
      exact Finmap.lookup_eq_none.mpr (h.droppedRules k hk)
  · intro k hk htype
    obtain ⟨column, hcolumn, htimestamp⟩ := Option.map_eq_some_iff.mp htype
    rcases hframe.columns.some_of k column hcolumn with hold | hnew | ⟨-, hzone⟩
    · exact h.ensured k hk (Option.map_eq_some_iff.mpr ⟨column, hold, htimestamp⟩)
    · exact hensured k hk hnew
    · rw [hzone] at htimestamp
      cases htimestamp

/-- **Statements that can be repeated.** -/
theorem settlesItself (hrepeat : st.isRepeatable = true) : SettlesItself exec st :=
  fun _ _ h => exec_of_done hrepeat (done_of_exec hrepeat h)

theorem keepsSettled_of_compatible (hrepeat : st.isRepeatable = true)
    (hcompatible : Compatible st st') : KeepsSettled exec st st' :=
  fun _ _ hsettled hexec =>
    exec_of_done hrepeat ((done_of_exec hrepeat hsettled).exec hexec hcompatible)

/-! ## Scripts of statements -/

lemma exec_isSome_iff (hrepeat : st.isRepeatable = true) (hensured : st.ensured = []) :
    (st.exec s).isSome = true ↔ st.Applies s := by
  constructor
  · intro h
    obtain ⟨t, ht⟩ := Option.isSome_iff_exists.mp h
    exact applies_of_exec ht
  · intro h
    cases st with
    | addColumns table columns =>
        rw [exec, if_pos (h.table table rfl)]
        rfl
    | createIndex ifNotExists name index =>
        have hhas : s.has index.table (index.columns ++ index.condition.columns) = true :=
          Schema.has_iff.mpr ⟨h.table _ rfl, List.forall_mem_map.mp h.column⟩
        have hsome : (if ifNotExists then some s else none).isSome = true := by
          rw [if_pos (show ifNotExists = true from hrepeat)]
          rfl
        rw [exec, if_pos hhas]
        split
        · exact hsome
        · rfl
    | dropIndex ifExists name =>
        rw [exec, if_pos (show ifExists = true from hrepeat)]
        split <;> rfl
    | createOrReplaceRule table name rule =>
        have hhas : s.has table (rule.condition.columns ++ rule.actionColumns) = true :=
          Schema.has_iff.mpr ⟨h.table _ rfl, List.forall_mem_map.mp h.column⟩
        rw [exec, if_pos hhas]
        rfl
    | dropRule table name => rfl
    | addTimeZones table columns => cases hrepeat
    | addTimeZonesIf table column columns => cases hensured

/-- The columns that a script needs and does not add itself before. -/
def needed : List Statement → List (String × String)
  | [] => []
  | st :: rest => st.requires ++ (needed rest).filter fun k => k ∉ st.added

/-- **When a script can be executed.** -/
theorem completed_iff {l : List Statement}
    (hrepeat : ∀ st ∈ l, st.isRepeatable = true ∧ st.ensured = [])
    (htables : ∀ st ∈ l, ∀ table ∈ st.onTable, s.tables table = true) :
    (runScript exec l s).2 = true ↔ ∀ k ∈ needed l, (s.columns k).isSome = true := by
  induction l generalizing s with
  | nil => exact iff_of_true rfl (List.forall_mem_nil _)
  | cons st rest ih =>
      obtain ⟨hst, hrest⟩ := List.forall_mem_cons.mp hrepeat
      obtain ⟨htable, htables⟩ := List.forall_mem_cons.mp htables
      rw [needed, List.forall_mem_append]
      cases hexec : st.exec s with
      | none =>
          rw [runScript_cons_of_none hexec]
          refine iff_of_false Bool.false_ne_true fun h => ?_
          have hsome := (exec_isSome_iff hst.1 hst.2).mpr ⟨htable, h.1⟩
          rw [hexec] at hsome
          cases hsome
      | some t =>
          have hframe := exec_frame hexec
          rw [runScript_cons_of_some hexec,
            ih hrest (fun st' hst' table ht => hframe.tables ▸ htables st' hst' table ht),
            and_iff_right (applies_of_exec hexec).column]
          refine forall_congr' fun k => ?_
          rw [hframe.columns.isSome_iff k, List.mem_filter, decide_eq_true_iff]
          tauto

/-- **What a script does**, up to where it stops. -/
structure ScriptFrame (l : List Statement) (s t : Schema) : Prop where
  tables : t.tables = s.tables
  isSome_column : ∀ k, (s.columns k).isSome = true → (t.columns k).isSome = true
  column_of_some : ∀ k column, s.columns k = some column → (∀ st ∈ l, k ∉ st.altered) →
    t.columns k = some column
  column_some_of : ∀ k column, t.columns k = some column →
    s.columns k = some column ∨ (∃ st ∈ l, k ∈ st.added) ∨ ∃ st ∈ l, k ∈ st.altered
  index_of_some : ∀ n index, s.indexes.lookup n = some index →
    (∀ st ∈ l, n ∉ st.droppedIndexes) → t.indexes.lookup n = some index
  index_some_of : ∀ n index, t.indexes.lookup n = some index →
    s.indexes.lookup n = some index ∨ ∃ st ∈ l, (n, index) ∈ st.createdIndexes
  rule_eq : ∀ k, (∀ st ∈ l, k ∉ st.createdRules.map Prod.fst ∧ k ∉ st.droppedRules) →
    t.rules.lookup k = s.rules.lookup k

theorem runScript_frame (l : List Statement) (s : Schema) :
    ScriptFrame l s (runScript exec l s).1 := by
  refine runScript_invariant (P := ScriptFrame l s) (fun st hst t u hexec h => ?_) ?_
  · have hframe := exec_frame hexec
    constructor
    · exact hframe.tables.trans h.tables
    · exact fun k hk => (hframe.columns.isSome_iff k).mpr (.inl (h.isSome_column k hk))
    · exact fun k column hk hnot =>
        hframe.columns.of_some k column (h.column_of_some k column hk hnot) (hnot st hst)
    · intro k column hk
      rcases hframe.columns.some_of k column hk with hold | hadded | ⟨haltered, -⟩
      · exact h.column_some_of k column hold
      · exact .inr (.inl ⟨st, hst, hadded⟩)
      · exact .inr (.inr ⟨st, hst, haltered⟩)
    · exact fun n index hn hnot =>
        hframe.indexes.of_some n index (h.index_of_some n index hn hnot) (hnot st hst)
    · intro n index hn
      rcases hframe.indexes.some_of n index hn with hold | hnew
      · exact h.index_some_of n index hold
      · exact .inr ⟨st, hst, hnew⟩
    · exact fun k hk =>
        (hframe.rules.lookup_eq k (hk st hst).1 (hk st hst).2).trans (h.rule_eq k hk)
  · exact ⟨rfl, fun _ h => h, fun _ _ h _ => h, fun _ _ h => .inl h, fun _ _ h _ => h,
      fun _ _ h => .inl h, fun _ _ => rfl⟩

/-- A column that no statement is about stays as it is. -/
lemma ScriptFrame.columns_eq {l : List Statement} (h : ScriptFrame l s t) {k : String × String}
    (hother : ∀ st ∈ l, k ∉ st.altered ∧ k ∉ st.added) : t.columns k = s.columns k := by
  cases ht : t.columns k with
  | some column =>
      rcases h.column_some_of k column ht with hold | ⟨st, hst, hadded⟩ | ⟨st, hst, haltered⟩
      · exact hold.symm
      · exact absurd hadded (hother st hst).2
      · exact absurd haltered (hother st hst).1
  | none =>
      cases hs : s.columns k with
      | none => rfl
      | some column =>
          rw [h.column_of_some k column hs fun st hst => (hother st hst).1] at ht
          cases ht

lemma ScriptFrame.columnType_eq {l : List Statement} (h : ScriptFrame l s t) {table column : String}
    (hother : ∀ st ∈ l, (table, column) ∉ st.altered ∧ (table, column) ∉ st.added) :
    t.columnType table column = s.columnType table column := by
  rw [Schema.columnType, Schema.columnType, h.columns_eq hother]

/-- **A script of such statements is idempotent.** -/
theorem runScript_idempotent_of_compatible {l : List Statement}
    (hrepeat : ∀ st ∈ l, st.isRepeatable = true) (hcompatible : l.Pairwise Compatible)
    (s : Schema) : runScript exec l (runScript exec l s).1 = runScript exec l s := by
  refine runScript_idempotent (fun st hst => settlesItself (hrepeat st hst)) ?_ s
  exact hcompatible.imp_of_mem fun hst _ h => keepsSettled_of_compatible (hrepeat _ hst) h

/-- Where such a script is complete, all of it is done. -/
theorem done_of_completed {l : List Statement} (hrepeat : ∀ st ∈ l, st.isRepeatable = true)
    (hcompatible : l.Pairwise Compatible) (h : runScript exec l s = (t, true)) :
    ∀ st ∈ l, st.Done t := by
  have hkeep := hcompatible.imp_of_mem fun hst _ h => keepsSettled_of_compatible (hrepeat _ hst) h
  have hsettled := settled_of_completed (fun st hst => settlesItself (hrepeat st hst)) hkeep h
  exact fun st hst => done_of_exec (hrepeat st hst) (hsettled st hst)

end Statement

end Workshop.Lib.Ddl

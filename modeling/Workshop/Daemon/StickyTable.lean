import Mathlib.Data.Finset.Insert
import Workshop.Jobs.System

/-!
# The table of jobs that are sticky elsewhere

`StickyTable` (`src/StickyTable.cxx`): the temporary table `sticky_non_local` of a connection, with
the ids of jobs that are sticky on other nodes.  The queries of both queues leave out the rows whose
id is in it, and the partition inserts the id of a row that is not local.  The table has a unique
index.

A query looks at the table once, for all rows of its result, and ids are inserted row by row.  The
cron queue fetches one row at a time, so that it never inserts an id twice.  The workshop queue
fetches up to sixteen; it does exactly if two rows of one result have the same sticky id
(`inserts_fresh_iff`).
-/

namespace Workshop

open Workshop.Lib

/-! ## The model -/

/-- The two kinds of partitions. -/
inductive PartitionKind
  | workshop
  | cron
  deriving DecidableEq, Repr

/-- The `LIMIT` of the query that fetches jobs: `select_new_jobs` or `check_pending`. -/
def PartitionKind.limit : PartitionKind → ℕ
  | .workshop => Jobs.maxJobs
  | .cron => 1

/-- The part of a queue that has to do with sticky ids: the table, and the rows of the result that
are still to be handled, of which only `sticky_id` matters. -/
structure StickyQueue where
  stickyNonLocal : Finset String := ∅
  rows : List (Option String) := []
  deriving DecidableEq

/-- What `CheckWorkshopJob` and `OnJob` make of a row: they do not ask for its place, because it has
no plan or the partition is not sticky; it is local; it is not, and the `INSERT` fails or not for
another reason than the unique index. -/
inductive RowAnswer
  | unasked
  | isLocal
  | nonLocal (failed : Bool)
  deriving DecidableEq, Repr

/-- What can happen on one connection.  `stop` is the end of the loop over the rows, wherever it is:
the queue is disabled, the run interrupted, or an exception. -/
inductive StickyEvent
  | select (rows : List (Option String))
  | row (answer : RowAnswer)
  | stop
  | flushSticky
  deriving DecidableEq, Repr

namespace StickyQueue

/-- `job.sticky_id`: the text of a column that is `NULL` is empty. -/
def stickyId (row : Option String) : String := row.getD ""

/-- The id for which the event executes `InsertStickyNonLocal`. -/
def inserts (q : StickyQueue) : StickyEvent → Option String
  | .row (.nonLocal _) => (q.rows.head?.map stickyId).filter fun id => id ≠ ""
  | _ => none

/-- The table after `InsertStickyNonLocal`, which fails if the id is there already. -/
def insertStickyNonLocal (q : StickyQueue) (e : StickyEvent) : Finset String :=
  match q.inserts e with
  | none => q.stickyNonLocal
  | some id => if e = .row (.nonLocal true) then q.stickyNonLocal else insert id q.stickyNonLocal

/-- One event.  A query returns rows without an id, or with one that is not in the table. -/
def step (kind : PartitionKind) (q : StickyQueue) (e : StickyEvent) : Option StickyQueue :=
  match e with
  | .select rows =>
    if q.rows = [] ∧ rows.length ≤ kind.limit ∧ ∀ id ∈ q.stickyNonLocal, some id ∉ rows then
      some { q with rows }
    else none
  | .row _ =>
    match q.rows with
    | [] => none
    | _ :: rest => some { stickyNonLocal := q.insertStickyNonLocal e, rows := rest }
  | .stop => some { q with rows := [] }
  | .flushSticky => some { q with stickyNonLocal := ∅ }

end StickyQueue

/-! ## Inserting twice -/

/-- The event executes the `INSERT` for an id that is in the table. -/
def violatesKey (p : StickyQueue × StickyEvent) : Bool :=
  (p.1.inserts p.2).any fun id => id ∈ p.1.stickyNonLocal

/-- What an event makes of the ids that were inserted for rows of the current result. -/
def noteInsert (ids : Finset String) (p : StickyQueue × StickyEvent) : Finset String :=
  match p.2 with
  | .select _ | .flushSticky => ∅
  | .row (.nonLocal false) => (p.1.inserts p.2).elim ids fun id => insert id ids
  | _ => ids

/-- The ids inserted for rows of the current result and not flushed since. -/
def batchInserts (tr : List (StickyQueue × StickyEvent)) : Finset String := tr.foldl noteInsert ∅

lemma batchInserts_append (tr : List (StickyQueue × StickyEvent)) (p : StickyQueue × StickyEvent) :
    batchInserts (tr ++ [p]) = noteInsert (batchInserts tr) p := by
  rw [batchInserts, List.foldl_append, List.foldl_cons, List.foldl_nil, batchInserts]

/-- The event executes the `INSERT` for the sticky id of an earlier row of the same result. -/
def repeatsId (past : List (StickyQueue × StickyEvent)) (p : StickyQueue × StickyEvent) : Bool :=
  (p.1.inserts p.2).any fun id => id ∈ batchInserts past

section

variable {kind : PartitionKind} {q q' : StickyQueue} {e : StickyEvent}
  {past tr : List (StickyQueue × StickyEvent)}

lemma StickyQueue.mem_rows_of_inserts {id : String} (h : q.inserts e = some id) :
    some id ∈ q.rows := by
  unfold StickyQueue.inserts at h
  split at h
  · obtain ⟨hid, hne⟩ := Option.filter_eq_some_iff.mp h
    obtain ⟨row, hrow, rfl⟩ := Option.map_eq_some_iff.mp hid
    cases row with
    | none => simp [StickyQueue.stickyId] at hne
    | some id => exact List.mem_of_head? hrow
  · cases h

/-- **What the table says about the rows of a result.**  A row is in it exactly if its id was
inserted for a row of the same result; and a result of the cron queue is one row. -/
structure Consistent (kind : PartitionKind) (past : List (StickyQueue × StickyEvent))
    (q : StickyQueue) : Prop where
  table : ∀ id, some id ∈ q.rows → (id ∈ q.stickyNonLocal ↔ id ∈ batchInserts past)
  single : kind = .cron → q.rows.length ≤ 1 ∧ (q.rows ≠ [] → batchInserts past = ∅)

/-- Inserting an id keeps the table and the record of insertions in step. -/
lemma insertStickyNonLocal_iff {id : String} (h : id ∈ q.stickyNonLocal ↔ id ∈ batchInserts past)
    (answer : RowAnswer) :
    id ∈ q.insertStickyNonLocal (.row answer) ↔
      id ∈ noteInsert (batchInserts past) (q, .row answer) := by
  cases answer with
  | unasked => exact h
  | isLocal => exact h
  | nonLocal failed =>
      unfold StickyQueue.insertStickyNonLocal
      cases hid : q.inserts (.row (.nonLocal failed)) with
      | none => cases failed <;> simp [noteInsert, hid, h]
      | some new => cases failed <;> simp [noteInsert, hid, h]

lemma Consistent.step (h : Consistent kind past q) (hstep : q.step kind e = some q') :
    Consistent kind (past ++ [(q, e)]) q' := by
  cases e with
  | select rows =>
      obtain ⟨⟨_, hlimit, hfresh⟩, rfl⟩ := of_guard hstep
      constructor
      · intro id hid
        rw [batchInserts_append]
        exact iff_of_false (fun hmem => hfresh id hmem hid) (Finset.notMem_empty id)
      · rintro rfl
        rw [batchInserts_append]
        exact ⟨hlimit, fun _ => rfl⟩
  | row answer =>
      simp only [StickyQueue.step] at hstep
      split at hstep
      · cases hstep
      · rename_i row rest hrows
        cases hstep
        constructor
        · intro id hid
          have hagree := h.table id (by rw [hrows]; exact List.mem_cons_of_mem _ hid)
          rw [batchInserts_append]
          exact insertStickyNonLocal_iff hagree answer
        · intro hkind
          -- nothing is left of a result with one row
          have hlength := (h.single hkind).1
          rw [hrows, List.length_cons] at hlength
          obtain rfl : rest = [] := List.length_eq_zero_iff.mp (by omega)
          exact ⟨Nat.zero_le 1, fun hne => absurd rfl hne⟩
  | stop =>
      obtain rfl := Option.some.inj hstep
      exact ⟨by simp, fun _ => ⟨Nat.zero_le 1, fun hne => absurd rfl hne⟩⟩
  | flushSticky =>
      obtain rfl := Option.some.inj hstep
      constructor
      · intro id _
        rw [batchInserts_append]
        rfl
      · intro hkind
        rw [batchInserts_append]
        exact ⟨(h.single hkind).1, fun _ => rfl⟩

/-- An event violates the key exactly if it repeats an id. -/
lemma Consistent.violatesKey (h : Consistent kind past q) :
    violatesKey (q, e) = repeatsId past (q, e) := by
  unfold Workshop.violatesKey repeatsId
  cases hid : q.inserts e with
  | none => simp
  | some id => simp [h.table id (StickyQueue.mem_rows_of_inserts hid)]

lemma consistent_of_run (hrun : Run (StickyQueue.step kind) {} past q) :
    Consistent kind past q := by
  refine hrun.invariant_past (C := fun _ _ => True) (fun _ _ _ _ h _ hstep => h.step hstep) ?_
    fun _ _ => trivial
  exact ⟨by simp, fun _ => ⟨Nat.zero_le 1, fun hne => absurd rfl hne⟩⟩

/-- **When the unique index never fails.**  In every sequence of queue runs on a connection,
`InsertStickyNonLocal` is executed for new ids only, always in a cron partition, and in a workshop
partition exactly if it is not executed for two rows of one result with the same sticky id, unless
the first `INSERT` fails or the table is flushed in between. -/
theorem inserts_fresh_iff (hrun : Run (StickyQueue.step kind) {} tr q) :
    (∀ p ∈ tr, violatesKey p = false) ↔
      (kind = .workshop → ∀ past p rest, tr = past ++ p :: rest → repeatsId past p = false) := by
  have hpoint : ∀ past p rest, tr = past ++ p :: rest →
      Consistent kind past p.1 ∧ violatesKey p = repeatsId past p := by
    rintro past ⟨s, e⟩ rest rfl
    obtain ⟨m, hpast, hrest⟩ := hrun.split
    cases hrest with
    | cons _ _ =>
        have h := consistent_of_run hpast
        exact ⟨h, h.violatesKey⟩
  constructor
  · rintro hfresh - past p rest htr
    rw [← (hpoint past p rest htr).2]
    exact hfresh p (by simp [htr])
  · intro hno p hp
    obtain ⟨past, rest, htr⟩ := List.append_of_mem hp
    obtain ⟨h, heq⟩ := hpoint past p rest htr
    rw [heq]
    cases hkind : kind with
    | workshop => exact hno hkind past p rest htr
    | cron =>
        -- the row is the only one of its result
        unfold repeatsId
        cases hid : p.1.inserts p.2 with
        | none => rfl
        | some id =>
            have hrows : p.1.rows ≠ [] := List.ne_nil_of_mem (StickyQueue.mem_rows_of_inserts hid)
            simp [(h.single hkind).2 hrows]

end

/-- A workshop queue inserts an id, finds it flushed, and inserts it again. -/
def flushBetween : List StickyEvent :=
  [.select [some "a", none, some "b"], .row (.nonLocal false), .row .unasked, .row .isLocal,
    .flushSticky, .select [some "a"], .row (.nonLocal false)]

theorem inserts_fresh_flushBetween :
    (traceOf (StickyQueue.step .workshop) {} flushBetween).length = 7 ∧
      ∀ p ∈ traceOf (StickyQueue.step .workshop) {} flushBetween, violatesKey p = false := by
  have htrace : (traceOf (StickyQueue.step .workshop) {} flushBetween).length = 7 := by
    decide +kernel
  have hrun : (final (StickyQueue.step .workshop) {} flushBetween).map StickyQueue.stickyNonLocal =
      some {"a"} := by
    decide +kernel
  obtain ⟨q, hq, _⟩ := Option.map_eq_some_iff.mp hrun
  have hindex : ∀ i < 7, (traceOf (StickyQueue.step .workshop) {} flushBetween)[i]?.all fun p =>
      !repeatsId ((traceOf (StickyQueue.step .workshop) {} flushBetween).take i) p := by
    decide +kernel
  refine ⟨htrace, (inserts_fresh_iff (Run.of_final hq)).mpr fun _ past p rest htr => ?_⟩
  have hlength : past.length < 7 := by
    have := congrArg List.length htr
    rw [htrace, List.length_append, List.length_cons] at this
    omega
  simpa [htr] using hindex past.length hlength

theorem inserts_twice :
    ∃ q, Run (StickyQueue.step .workshop) {}
        (traceOf (StickyQueue.step .workshop) {}
          [.select [some "a", some "a"], .row (.nonLocal false), .row (.nonLocal false)]) q ∧
      ∃ p ∈ traceOf (StickyQueue.step .workshop) {}
          [.select [some "a", some "a"], .row (.nonLocal false), .row (.nonLocal false)],
        violatesKey p = true := by
  have hrun : (final (StickyQueue.step .workshop) {}
      [.select [some "a", some "a"], .row (.nonLocal false), .row (.nonLocal false)]).map
      StickyQueue.stickyNonLocal = some {"a"} := by
    decide +kernel
  obtain ⟨q, hq, _⟩ := Option.map_eq_some_iff.mp hrun
  exact ⟨q, Run.of_final hq, by decide +kernel⟩

end Workshop

import Workshop.Daemon.StickyManager
import Workshop.Daemon.StickyTable

/-!
# Where the jobs of a sticky id are executed

A partition with `sticky` asks its `StickyManager` for every row that has a sticky id, and remembers
the ids that are not local in the table `sticky_non_local` of its connection, so that the queries do
not return their rows again.  The map of the manager follows Zeroconf, entry by entry; the table is
emptied only when Zeroconf has nothing more to say for now (`OnAvahiAllForNow`), and is made anew on
a new connection.

Between the two the table may be out of date: a node to which an id has fallen, because the node
that had it is gone, still hides its rows from itself.  `sticky_one_node` says for every cluster
whose nodes see the same map, whatever happened to each of them before, that the rows of an id are
let through by one node only, exactly if that node has not denied the id since its table was last
emptied, and that it has not if the table was emptied after the last change of its map.
-/

namespace Workshop.Daemon

open Workshop.Lib

variable {ρ S N : Type*}

/-! ## A partition -/

/-- `WorkshopPartition` or `CronPartition` with `sticky`: the manager, and the part of the queue
that has to do with sticky ids. -/
structure StickyPartition (ρ : Type*) where
  manager : StickyManager ρ := {}
  queue : StickyQueue := {}

/-- What can happen to it.  `enableDisableSticky` is called with `queue.IsEnabledOrFull()`;
`connect` is `OnConnect`, on a new connection; `row` is a row of the result, for which the place is
asked unless its plan is not there, and whose `INSERT` may fail. -/
inductive StickyPartitionEvent (ρ : Type*)
  | onAvahiNewObject (key hostName : String) (rendezvous : ρ) (isOurOwn : Bool)
  | onAvahiRemoveObject (key : String)
  | onAvahiAllForNow (flushed : Bool)
  | enableDisableSticky (enabledOrFull : Bool)
  | connect
  | select (rows : List (Option String))
  | row (asked failed : Bool)
  | stop
  deriving DecidableEq, Repr

namespace StickyPartition

/-- The sticky id of the row that is handled next. -/
def nextId (p : StickyPartition ρ) : String := (p.queue.rows.head?.map StickyQueue.stickyId).getD ""

section Step

variable [LinearOrder S] (score : ρ → String → S)

/-- The first lines of `CheckWorkshopJob` and `OnJob`. -/
def checkSticky (p : StickyPartition ρ) (asked failed : Bool) : RowAnswer :=
  if asked ∧ p.nextId ≠ "" then
    if (p.manager.isLocal score p.nextId).2 then .isLocal else .nonLocal failed
  else .unasked

/-- One event.  `OnStickyChanged` flushes the table, unless the connection is not ready or the
statement fails. -/
def step (kind : PartitionKind) (p : StickyPartition ρ) (e : StickyPartitionEvent ρ) :
    Option (StickyPartition ρ) :=
  match e with
  | .onAvahiNewObject key hostName rendezvous isOurOwn =>
    some { p with manager := p.manager.onAvahiNewObject key hostName rendezvous isOurOwn }
  | .onAvahiRemoveObject key => some { p with manager := p.manager.onAvahiRemoveObject key }
  | .onAvahiAllForNow flushed =>
    if flushed then (p.queue.step kind .flushSticky).map fun queue => { p with queue } else some p
  | .enableDisableSticky enabledOrFull =>
    some { p with manager := if enabledOrFull then p.manager.enable else p.manager.disable }
  | .connect => some { p with queue := {} }
  | .select rows => (p.queue.step kind (.select rows)).map fun queue => { p with queue }
  | .row asked failed =>
    (p.queue.step kind (.row (p.checkSticky score asked failed))).map fun queue => { p with queue }
  | .stop => (p.queue.step kind .stop).map fun queue => { p with queue }

/-- The rows with the id are let through: the queries return them, and they are local. -/
def Admits (p : StickyPartition ρ) (id : String) : Prop :=
  id ∉ p.queue.stickyNonLocal ∧ (p.manager.isLocal score id).2 = true

/-- A row with the id is not local, and the id gets into the table. -/
def Denies (id : String) (x : StickyPartition ρ × StickyPartitionEvent ρ) : Prop :=
  ∃ asked, x.2 = .row asked false ∧ x.1.nextId = id ∧
    x.1.checkSticky score asked false = .nonLocal false ∧ x.1.queue.rows ≠ []

end Step

/-- The table is emptied. -/
def Clears (x : StickyPartition ρ × StickyPartitionEvent ρ) : Prop :=
  x.2 = .onAvahiAllForNow true ∨ x.2 = .connect

/-- The map changes. -/
def Changes (x : StickyPartition ρ × StickyPartitionEvent ρ) : Prop :=
  (∃ key hostName rendezvous isOurOwn, x.2 = .onAvahiNewObject key hostName rendezvous isOurOwn) ∨
    ∃ key, x.2 = .onAvahiRemoveObject key

/-! ## What an event does -/

section Lemmas

variable [LinearOrder S] {score : ρ → String → S} {kind : PartitionKind} {id : String}
  {p p' : StickyPartition ρ} {e : StickyPartitionEvent ρ}
  {tr : List (StickyPartition ρ × StickyPartitionEvent ρ)}

lemma isLocal_of_denies (h : Denies score id (p, e)) : (p.manager.isLocal score id).2 = false := by
  obtain ⟨asked, _, rfl, hcheck, _⟩ := h
  dsimp only at hcheck
  unfold checkSticky at hcheck
  split at hcheck
  · split at hcheck
    · cases hcheck
    · rename_i hlocal
      exact Bool.not_eq_true _ ▸ hlocal
  · cases hcheck

lemma mem_table_of_row {asked failed : Bool} (hrows : p.queue.rows ≠ []) :
    id ∈ p.queue.insertStickyNonLocal (.row (p.checkSticky score asked failed)) ↔
      Denies score id (p, .row asked failed) ∨ id ∈ p.queue.stickyNonLocal := by
  obtain ⟨row, rest, hcons⟩ := List.exists_cons_of_ne_nil hrows
  have hnext : p.nextId = StickyQueue.stickyId row := by simp [nextId, hcons]
  have hinserts : ∀ failed, p.nextId ≠ "" →
      p.queue.inserts (.row (.nonLocal failed)) = some p.nextId := by
    intro failed hne
    rw [hnext] at hne ⊢
    simp [StickyQueue.inserts, hcons, hne]
  by_cases hasked : asked = true ∧ p.nextId ≠ ""
  · by_cases hlocal : (p.manager.isLocal score p.nextId).2 = true
    · have hcheck : ∀ failed, p.checkSticky score asked failed = .isLocal := fun failed => by
        rw [checkSticky, if_pos hasked, if_pos hlocal]
      have hno : ¬ Denies score id (p, .row asked failed) := by
        rintro ⟨_, heq, _, hdenied, _⟩
        obtain ⟨rfl, rfl⟩ := StickyPartitionEvent.row.inj heq
        rw [hcheck] at hdenied
        cases hdenied
      rw [hcheck, or_iff_right hno]
      rfl
    · have hcheck : ∀ failed, p.checkSticky score asked failed = .nonLocal failed :=
        fun failed => by rw [checkSticky, if_pos hasked, if_neg hlocal]
      rw [hcheck, StickyQueue.insertStickyNonLocal, hinserts failed hasked.2]
      cases failed with
      | true =>
          have hno : ¬ Denies score id (p, .row asked true) := by
            rintro ⟨_, heq, _⟩
            exact absurd (StickyPartitionEvent.row.inj heq).2 (by decide)
          rw [or_iff_right hno]
          simp
      | false =>
          have hdenies : Denies score id (p, .row asked false) ↔ id = p.nextId := by
            constructor
            · rintro ⟨_, _, hid, _⟩
              exact hid.symm
            · rintro rfl
              exact ⟨asked, rfl, rfl, hcheck false, hrows⟩
          rw [hdenies]
          simp [Finset.mem_insert]
  · have hcheck : ∀ failed, p.checkSticky score asked failed = .unasked := fun failed => by
      rw [checkSticky, if_neg hasked]
    have hno : ¬ Denies score id (p, .row asked failed) := by
      rintro ⟨_, heq, _, hdenied, _⟩
      obtain ⟨rfl, rfl⟩ := StickyPartitionEvent.row.inj heq
      rw [hcheck] at hdenied
      cases hdenied
    rw [hcheck, or_iff_right hno]
    rfl

/-- **What an event does to the table.** -/
lemma mem_table_of_step (h : p.step score kind e = some p') :
    id ∈ p'.queue.stickyNonLocal ↔
      Denies score id (p, e) ∨ (id ∈ p.queue.stickyNonLocal ∧ ¬ Clears (p, e)) := by
  -- no event but a row denies anything, and two of the events clear the table
  have hkept : (∀ asked failed, e ≠ .row asked failed) → e ≠ .onAvahiAllForNow true →
      e ≠ .connect → p'.queue.stickyNonLocal = p.queue.stickyNonLocal →
      (id ∈ p'.queue.stickyNonLocal ↔
        Denies score id (p, e) ∨ (id ∈ p.queue.stickyNonLocal ∧ ¬ Clears (p, e))) := by
    intro hrow hflush hconnect heq
    have hno : ¬ Denies score id (p, e) := fun ⟨asked, he, _⟩ => hrow asked false he
    have hclears : ¬ Clears (p, e) := fun hc => hc.elim hflush hconnect
    rw [heq, or_iff_right hno, and_iff_left hclears]
  have hemptied : (∀ asked failed, e ≠ .row asked failed) → Clears (p, e) →
      p'.queue.stickyNonLocal = ∅ →
      (id ∈ p'.queue.stickyNonLocal ↔
        Denies score id (p, e) ∨ (id ∈ p.queue.stickyNonLocal ∧ ¬ Clears (p, e))) := by
    intro hrow hclears heq
    rw [heq]
    refine iff_of_false (Finset.notMem_empty id) ?_
    rintro (⟨asked, he, _⟩ | ⟨_, hno⟩)
    · exact hrow asked false he
    · exact hno hclears
  cases e with
  | onAvahiNewObject key hostName rendezvous isOurOwn =>
      obtain rfl := Option.some.inj h
      exact hkept nofun nofun nofun rfl
  | onAvahiRemoveObject key =>
      obtain rfl := Option.some.inj h
      exact hkept nofun nofun nofun rfl
  | enableDisableSticky enabledOrFull =>
      obtain rfl := Option.some.inj h
      exact hkept nofun nofun nofun rfl
  | onAvahiAllForNow flushed =>
      cases flushed with
      | true =>
          obtain rfl := Option.some.inj h
          exact hemptied nofun (.inl rfl) rfl
      | false =>
          obtain rfl := Option.some.inj h
          exact hkept nofun nofun nofun rfl
  | connect =>
      obtain rfl := Option.some.inj h
      exact hemptied nofun (.inr rfl) rfl
  | select rows =>
      obtain ⟨queue, hqueue, rfl⟩ := Option.map_eq_some_iff.mp h
      obtain ⟨_, rfl⟩ := of_guard hqueue
      exact hkept nofun nofun nofun rfl
  | stop =>
      obtain rfl := Option.some.inj h
      exact hkept nofun nofun nofun rfl
  | row asked failed =>
      obtain ⟨queue, hqueue, rfl⟩ := Option.map_eq_some_iff.mp h
      have hclears : ¬ Clears (p, .row asked failed) := fun hc => hc.elim nofun nofun
      rw [and_iff_left hclears]
      simp only [StickyQueue.step] at hqueue
      split at hqueue
      · cases hqueue
      · rename_i row rest hrows
        obtain rfl := Option.some.inj hqueue
        exact mem_table_of_row (by rw [hrows]; exact List.cons_ne_nil row rest)

lemma isLocal_of_step (h : p.step score kind e = some p') (hno : ¬ Changes (p, e)) :
    p'.manager.isLocal score id = p.manager.isLocal score id := by
  cases e with
  | onAvahiNewObject key hostName rendezvous isOurOwn =>
      exact absurd (.inl ⟨key, hostName, rendezvous, isOurOwn, rfl⟩) hno
  | onAvahiRemoveObject key => exact absurd (.inr ⟨key, rfl⟩) hno
  | enableDisableSticky enabledOrFull =>
      obtain rfl := Option.some.inj h
      cases enabledOrFull <;> rfl
  | onAvahiAllForNow flushed =>
      cases flushed with
      | true =>
          obtain rfl := Option.some.inj h
          rfl
      | false =>
          obtain rfl := Option.some.inj h
          rfl
  | connect =>
      obtain rfl := Option.some.inj h
      rfl
  | select rows =>
      obtain ⟨queue, _, rfl⟩ := Option.map_eq_some_iff.mp h
      rfl
  | row asked failed =>
      obtain ⟨queue, _, rfl⟩ := Option.map_eq_some_iff.mp h
      rfl
  | stop =>
      obtain rfl := Option.some.inj h
      rfl

/-- A query returns a row with the id and its handler lets it through exactly if it is admitted. -/
lemma admits_iff (hidle : p.queue.rows = []) (hne : id ≠ "") :
    p.Admits score id ↔ ∃ p', p.step score kind (.select [some id]) = some p' ∧
      ∀ failed, p'.checkSticky score true failed = .isLocal := by
  have hlimit : [some id].length ≤ kind.limit := by
    rw [List.length_singleton]
    cases kind <;> decide
  have hcheck : ∀ failed, checkSticky score { p with queue := { p.queue with rows := [some id] } }
      true failed = if (p.manager.isLocal score id).2 then .isLocal else .nonLocal failed := by
    intro failed
    exact if_pos ⟨rfl, hne⟩
  constructor
  · rintro ⟨hmem, hlocal⟩
    have hfresh : ∀ x ∈ p.queue.stickyNonLocal, some x ∉ [some id] := by
      intro x hx hsome
      rw [List.mem_singleton, Option.some.injEq] at hsome
      exact hmem (hsome ▸ hx)
    refine ⟨{ p with queue := { p.queue with rows := [some id] } }, ?_, fun failed => ?_⟩
    · rw [step, StickyQueue.step, if_pos ⟨hidle, hlimit, hfresh⟩, Option.map_some]
    · rw [hcheck, if_pos hlocal]
  · rintro ⟨p', hstep, hlocal⟩
    obtain ⟨queue, hqueue, rfl⟩ := Option.map_eq_some_iff.mp hstep
    obtain ⟨⟨_, _, hfresh⟩, rfl⟩ := of_guard hqueue
    refine ⟨fun hmem => hfresh id hmem List.mem_cons_self, ?_⟩
    by_contra hforeign
    have h := hlocal false
    rw [hcheck, if_neg hforeign] at h
    cases h

/-! ## What is in the table -/

lemma mem_table_iff (hrun : Run (step score kind) {} tr p) :
    id ∈ p.queue.stickyNonLocal ↔ Since (Denies score id) Clears tr := by
  have hboth := hrun.invariant_past (C := fun _ _ => True)
    (J := fun tr p => id ∈ p.queue.stickyNonLocal ↔ Since (Denies score id) Clears tr)
  refine hboth (fun tr p e p' hJ _ hstep => ?_)
    (iff_of_false (Finset.notMem_empty id) not_since_nil) fun _ _ => trivial
  rw [mem_table_of_step hstep, since_append, hJ]

/-- **A table that was emptied after the last change of the map** hides nothing that is local. -/
lemma not_denied_of_emptied (hrun : Run (step score kind) {} tr p)
    (hemptied : Since Clears Changes tr) (hlocal : (p.manager.isLocal score id).2 = true) :
    id ∉ p.queue.stickyNonLocal := by
  have hnonLocal : id ∈ p.queue.stickyNonLocal → (p.manager.isLocal score id).2 = false := by
    refine Run.of_since (Q := fun q : StickyPartition ρ =>
      id ∈ q.queue.stickyNonLocal → (q.manager.isLocal score id).2 = false) ?_ ?_ hrun hemptied
    · intro q e q' hclears hstep hmem
      obtain hdenies | ⟨_, hno⟩ := (mem_table_of_step hstep).mp hmem
      · obtain ⟨asked, rfl, _⟩ := hdenies
        exact hclears.elim nofun nofun
      · exact absurd hclears hno
    · intro q e q' hQ hno hstep hmem
      rw [isLocal_of_step hstep hno]
      obtain hdenies | ⟨hmem, _⟩ := (mem_table_of_step hstep).mp hmem
      · exact isLocal_of_denies hdenies
      · exact hQ hmem
  intro hmem
  exact absurd hlocal (by simp [hnonLocal hmem])

end Lemmas

end StickyPartition

/-! ## A cluster -/

/-- The map of each node holds the services of the nodes and no others, and its own as its own. -/
structure StickyCluster.Complete (c : StickyCluster N ρ) : Prop where
  present : ∀ n, ∃ node, (c.managers n).nodes[c.own n]? = some node ∧ node.isOurOwn = true
  owned : ∀ n key node, (c.managers n).nodes[key]? = some node → ∃ n', c.own n' = key

section Cluster

variable [LinearOrder S] {score : ρ → String → S} {c : StickyCluster N ρ} {id : String}

lemma StickyCluster.Complete.not_foreignAlone (h : c.Complete) (n : N) :
    ¬ ForeignAlone (c.managers n) := by
  rintro ⟨key, node, hsingle, hforeign⟩
  obtain ⟨node', hfound, hown⟩ := h.present n
  have hmem := Std.TreeMap.mem_toList_iff_getElem?_eq_some.mpr hfound
  rw [hsingle, List.mem_singleton] at hmem
  obtain ⟨_, rfl⟩ := Prod.mk.inj hmem
  exact absurd hown (by simp [hforeign])

variable (score) in
/-- **The owner of an id**: every id is local on exactly one node. -/
lemma StickyCluster.Complete.owner [Nonempty N] (h : c.Complete) (id : String) :
    ∃ n, ∀ n', ((c.managers n').isLocal score id).2 = true ↔ n' = n := by
  have hanswers : ∀ n, AnswersPreferred score (c.managers n) id :=
    fun n => (answersPreferred_iff (c.nonempty n)).mpr (h.not_foreignAlone n)
  obtain ⟨key, node, hpreferred, _⟩ := hanswers (Classical.arbitrary N)
  obtain ⟨n, rfl⟩ := h.owned _ _ _ hpreferred.found
  refine ⟨n, fun n' => ⟨fun hlocal => ?_, ?_⟩⟩
  · obtain ⟨node', hpreferred'⟩ := own_of_isLocal (hanswers n') hlocal
    obtain ⟨_, hsame⟩ := hpreferred.of_same n'
    exact (c.own_injective (hpreferred'.unique hsame)).symm
  · rintro rfl
    obtain ⟨key', node', hpreferred', hanswer⟩ := hanswers n'
    obtain ⟨_, hsame⟩ := hpreferred.of_same n'
    obtain rfl := hpreferred'.unique hsame
    obtain ⟨own, hfound, hown⟩ := h.present n'
    obtain rfl : own = node' := Option.some.inj (hfound.symm.trans hpreferred'.found)
    rw [hanswer]
    exact hown

/-- **One node for each sticky id.**  Whatever has happened to the nodes of a cluster, as soon as
the maps of all of them hold the services of all of them, the rows of an id are let through by one
node only: exactly if that node has not denied the id since its table was last emptied, which is so
if the table was emptied after the last change of its map. -/
theorem sticky_one_node [Nonempty N] {kind : PartitionKind} {p : N → StickyPartition ρ}
    {tr : N → List (StickyPartition ρ × StickyPartitionEvent ρ)}
    (hrun : ∀ n, Run (StickyPartition.step score kind) {} (tr n) (p n))
    (hmaps : ∀ n, c.managers n = (p n).manager) (hcomplete : c.Complete) (id : String) :
    ∃ n, (∀ n', (p n').Admits score id ↔ n' = n ∧
        ¬ Since (StickyPartition.Denies score id) StickyPartition.Clears (tr n)) ∧
      (Since StickyPartition.Clears StickyPartition.Changes (tr n) →
        ¬ Since (StickyPartition.Denies score id) StickyPartition.Clears (tr n)) := by
  obtain ⟨n, howner⟩ := hcomplete.owner score id
  have hlocal : ((p n).manager.isLocal score id).2 = true := by
    rw [← hmaps]
    exact (howner n).mpr rfl
  refine ⟨n, fun n' => ?_, fun hemptied => ?_⟩
  · rw [StickyPartition.Admits, ← hmaps n', howner n', and_comm]
    refine and_congr_right fun heq => ?_
    rw [heq, StickyPartition.mem_table_iff (hrun n)]
  · rw [← StickyPartition.mem_table_iff (hrun n)]
    exact StickyPartition.not_denied_of_emptied (hrun n) hemptied hlocal

end Cluster

/-! ## A node that is gone -/

/-- What the first or the second of three nodes sees: the third one, to which the id belongs, is
gone, and the table is flushed or not. -/
def thirdGone (second flushed : Bool) : List (StickyPartitionEvent ℕ) :=
  [.onAvahiNewObject "first" "first.example" 1 !second,
    .onAvahiNewObject "second" "second.example" 2 second,
    .onAvahiNewObject "third" "third.example" 3 false, .onAvahiAllForNow true,
    .select [some "id"], .row true false, .stop, .onAvahiRemoveObject "third",
    .onAvahiAllForNow flushed]

/-- The score in the example. -/
def lengthScore (r : ℕ) (id : String) : ℕ := r + id.length

lemma final_thirdGone (flushed second : Bool) :
    (final (StickyPartition.step lengthScore .workshop) {} (thirdGone second flushed)).map
        (fun p => (p.manager.nodes.toList, decide ("id" ∈ p.queue.stickyNonLocal),
          (p.manager.isLocal lengthScore "id").2)) =
      some ([("first", ⟨"first.example", 1, !second⟩), ("second", ⟨"second.example", 2, second⟩)],
        !flushed, second) := by
  revert flushed second
  decide +kernel

theorem sticky_one_node_thirdGone :
    (∃ p : Bool → StickyPartition ℕ,
      (∀ n, Run (StickyPartition.step lengthScore .workshop) {}
        (traceOf (StickyPartition.step lengthScore .workshop) {} (thirdGone n true)) (p n)) ∧
      ∀ n, (p n).Admits lengthScore "id" ↔ n = true) ∧
    ∃ p : Bool → StickyPartition ℕ,
      (∀ n, Run (StickyPartition.step lengthScore .workshop) {}
        (traceOf (StickyPartition.step lengthScore .workshop) {} (thirdGone n false)) (p n)) ∧
      ∀ n, ¬ (p n).Admits lengthScore "id" := by
  have hstates : ∀ flushed second, ∃ p,
      final (StickyPartition.step lengthScore .workshop) {} (thirdGone second flushed) = some p ∧
      p.manager.nodes.toList =
        [("first", ⟨"first.example", 1, !second⟩), ("second", ⟨"second.example", 2, second⟩)] ∧
      decide ("id" ∈ p.queue.stickyNonLocal) = !flushed ∧
      (p.manager.isLocal lengthScore "id").2 = second := by
    intro flushed second
    obtain ⟨p, hp, heq⟩ := Option.map_eq_some_iff.mp (final_thirdGone flushed second)
    simp only [Prod.mk.injEq] at heq
    exact ⟨p, hp, heq⟩
  choose p hfinal hnodes htable hlocal using hstates
  constructor
  · let c : StickyCluster Bool ℕ := twoNodes (fun n => (p true n).manager)
      (fun n => by rw [hnodes]; exact List.cons_ne_nil _ _)
      (fun n n' => by rw [StickyManager.view, StickyManager.view, hnodes, hnodes]; rfl)
      (fun n q hq hown => by
        rw [hnodes, List.mem_cons, List.mem_singleton] at hq
        rcases hq with rfl | rfl <;> cases n <;> simp_all)
    have hentry : ∀ n key node, (c.managers n).nodes[key]? = some node ↔
        (key, node) ∈ [("first", ⟨"first.example", 1, !n⟩), ("second", ⟨"second.example", 2, n⟩)] :=
      fun n key node => by
        rw [← hnodes true n]
        exact Std.TreeMap.mem_toList_iff_getElem?_eq_some.symm
    have hcomplete : c.Complete := by
      constructor
      · intro n
        cases n with
        | false =>
            refine ⟨⟨"first.example", 1, true⟩, (hentry _ _ _).mpr ?_, rfl⟩
            exact List.mem_cons_self
        | true =>
            refine ⟨⟨"second.example", 2, true⟩, (hentry _ _ _).mpr ?_, rfl⟩
            exact List.mem_cons_of_mem _ List.mem_cons_self
      · intro n key node hfound
        have hmem := (hentry n key node).mp hfound
        rw [List.mem_cons, List.mem_singleton, Prod.mk.injEq, Prod.mk.injEq] at hmem
        rcases hmem with ⟨rfl, _⟩ | ⟨rfl, _⟩
        · exact ⟨false, rfl⟩
        · exact ⟨true, rfl⟩
    obtain ⟨n, honly, _⟩ := sticky_one_node (c := c)
      (fun n => Run.of_final (hfinal true n)) (fun _ => rfl) hcomplete "id"
    have hsecond : (p true true).Admits lengthScore "id" := by
      refine ⟨?_, hlocal true true⟩
      simpa using htable true true
    have hn : true = n := ((honly true).mp hsecond).1
    refine ⟨p true, fun n => Run.of_final (hfinal true n), fun n' => ?_⟩
    constructor
    · intro hadmits
      rw [hn]
      exact ((honly n').mp hadmits).1
    · rintro rfl
      exact hsecond
  · refine ⟨p false, fun n => Run.of_final (hfinal false n), fun n hadmits => ?_⟩
    exact hadmits.1 (by simpa using htable false n)

end Workshop.Daemon

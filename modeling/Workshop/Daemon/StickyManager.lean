import Mathlib.Data.String.Basic
import Mathlib.Order.Defs.LinearOrder
import Mathlib.Tactic.Common

/-!
# Sticky placement

`StickyManager` (`src/StickyManager.cxx`) keeps the services Zeroconf has found, one entry for each
node, and decides by rendezvous hashing which of them a sticky id belongs to: the entry with the
highest score, and the first one in the order of the keys among equals.  A node executes a job with
a sticky id only if that entry is its own.

The score of an entry (`CalculateRendezvousScore`) is a parameter with values in a linear order.
With one entry in the map the code skips the scores and answers "local", whether the entry is the
node's own or not; `sticky_placement` says that this is the only map on which the answer is not
that of the preferred entry, and that without it no two nodes of a cluster claim the same id.
-/

namespace Workshop.Daemon

variable {ρ S N : Type*}

/-- `StickyManager::Node`: the host, what the score is calculated from, and the flag of Avahi. -/
structure StickyNode (ρ : Type*) where
  hostName : String
  rendezvous : ρ
  isOurOwn : Bool
  deriving DecidableEq, Repr

/-- `StickyManager`; the keys are those of Avahi. -/
structure StickyManager (ρ : Type*) where
  nodes : Std.TreeMap String (StickyNode ρ) := ∅
  isPublished : Bool := false

namespace StickyManager

/-- `Enable`. -/
def enable (m : StickyManager ρ) : StickyManager ρ := { m with isPublished := true }

/-- `Disable`. -/
def disable (m : StickyManager ρ) : StickyManager ρ := { m with isPublished := false }

/-- `OnAvahiNewObject`: an entry that is there already keeps its host name. -/
def onAvahiNewObject (m : StickyManager ρ) (key hostName : String) (rendezvous : ρ)
    (isOurOwn : Bool) : StickyManager ρ :=
  let hostName := (m.nodes[key]?.map StickyNode.hostName).getD hostName
  { m with nodes := m.nodes.insert key { hostName, rendezvous, isOurOwn } }

/-- `OnAvahiRemoveObject`. -/
def onAvahiRemoveObject (m : StickyManager ρ) (key : String) : StickyManager ρ :=
  { m with nodes := m.nodes.erase key }

section IsLocal

variable [LinearOrder S] (score : ρ → String → S)

/-- One turn of the loop of `IsLocal`: the best entry so far, with its score. -/
def compareScore (id : String) (best : (String × StickyNode ρ) × S) (i : String × StickyNode ρ) :
    (String × StickyNode ρ) × S :=
  let score := score i.2.rendezvous id
  if best.2 < score then (i, score) else best

/-- `IsLocal`: the host the id belongs to, and whether that is this node. -/
def isLocal (m : StickyManager ρ) (id : String) : String × Bool :=
  match m.nodes.toList with
  | [] => ("localhost", true)
  | [best] => (best.2.hostName, true)
  | best :: rest =>
    let best := (rest.foldl (compareScore score id) (best, score best.2.rendezvous id)).1
    (best.2.hostName, best.2.isOurOwn)

end IsLocal

end StickyManager

/-! ## The preferred entry -/

section Preferred

variable [LinearOrder S] {score : ρ → String → S} {m : StickyManager ρ} {id key : String}
  {node : StickyNode ρ}

/-- The entry an id belongs to: the first one in the order of the keys with a maximal score. -/
structure Preferred (score : ρ → String → S) (m : StickyManager ρ) (id key : String)
    (node : StickyNode ρ) : Prop where
  found : m.nodes[key]? = some node
  maximal : ∀ (key' : String) (node' : StickyNode ρ), m.nodes[key']? = some node' →
    score node'.rendezvous id ≤ score node.rendezvous id
  first : ∀ (key' : String) (node' : StickyNode ρ), m.nodes[key']? = some node' → key' < key →
    score node'.rendezvous id < score node.rendezvous id

lemma Preferred.unique {key' : String} {node' : StickyNode ρ} (h : Preferred score m id key node)
    (h' : Preferred score m id key' node') : key' = key := by
  obtain hlt | heq | hgt := lt_trichotomy key' key
  · exact absurd (h.first key' node' h'.found hlt) (not_lt.mpr (h'.maximal key node h.found))
  · exact heq
  · exact absurd (h'.first key node h.found hgt) (not_lt.mpr (h.maximal key' node' h'.found))

/-- The answer is that of the preferred entry. -/
def AnswersPreferred (score : ρ → String → S) (m : StickyManager ρ) (id : String) : Prop :=
  ∃ key node, Preferred score m id key node ∧
    m.isLocal score id = (node.hostName, node.isOurOwn)

/-- The only entry of the map is that of another node. -/
def ForeignAlone (m : StickyManager ρ) : Prop :=
  ∃ key node, m.nodes.toList = [(key, node)] ∧ node.isOurOwn = false

/-- **The loop finds the first maximum**: the result is the entry it starts with or a better one, no
entry scores higher, and an equal one comes after it. -/
lemma foldl_compareScore (score : ρ → String → S) (id : String)
    {R : String × StickyNode ρ → String × StickyNode ρ → Prop} (best : String × StickyNode ρ)
    (rest : List (String × StickyNode ρ)) (hsorted : (best :: rest).Pairwise R) :
    let w := (rest.foldl (StickyManager.compareScore score id)
      (best, score best.2.rendezvous id)).1
    w ∈ best :: rest ∧ (w = best ∨ score best.2.rendezvous id < score w.2.rendezvous id) ∧
      ∀ a ∈ best :: rest, score a.2.rendezvous id ≤ score w.2.rendezvous id ∧
        (score w.2.rendezvous id ≤ score a.2.rendezvous id → a = w ∨ R w a) := by
  -- on the rest, with the entry the loop holds at its head
  induction rest generalizing best with
  | nil => simp
  | cons i rest ih =>
      obtain ⟨hbest, htail⟩ := List.pairwise_cons.mp hsorted
      obtain ⟨_, hrest⟩ := List.pairwise_cons.mp htail
      simp only [List.foldl_cons]
      by_cases hlt : score best.2.rendezvous id < score i.2.rendezvous id
      · rw [StickyManager.compareScore, if_pos hlt]
        obtain ⟨hmem, _, hmax⟩ := ih i htail
        have hw := hlt.trans_le (hmax i List.mem_cons_self).1
        refine ⟨List.mem_cons_of_mem _ hmem, .inr hw, fun a ha => ?_⟩
        obtain rfl | ha := List.mem_cons.mp ha
        · exact ⟨hw.le, fun hle => absurd hw (not_lt.mpr hle)⟩
        · exact hmax a ha
      · rw [StickyManager.compareScore, if_neg hlt]
        have hsorted' : (best :: rest).Pairwise R :=
          List.pairwise_cons.mpr ⟨fun a ha => hbest a (List.mem_cons_of_mem _ ha), hrest⟩
        obtain ⟨hmem, hbetter, hmax⟩ := ih best hsorted'
        refine ⟨?_, hbetter, fun a ha => ?_⟩
        · obtain heq | hmem := List.mem_cons.mp hmem
          · rw [heq]
            exact List.mem_cons_self
          · exact List.mem_cons_of_mem _ (List.mem_cons_of_mem _ hmem)
        · obtain rfl | ha := List.mem_cons.mp ha
          · exact hmax a List.mem_cons_self
          · obtain rfl | ha := List.mem_cons.mp ha
            · -- the entry was passed over: it is not better than the one before it
              have hle : score a.2.rendezvous id ≤ score best.2.rendezvous id := not_lt.mp hlt
              refine ⟨hle.trans (hmax best List.mem_cons_self).1, fun hge => .inr ?_⟩
              obtain heq | hbetter := hbetter
              · rw [heq]
                exact hbest a List.mem_cons_self
              · exact absurd hbetter (not_lt.mpr (hge.trans hle))
            · exact hmax a (List.mem_cons_of_mem _ ha)

lemma answersPreferred_of_two {first second : String × StickyNode ρ}
    {rest : List (String × StickyNode ρ)} (hnodes : m.nodes.toList = first :: second :: rest) :
    AnswersPreferred score m id := by
  have hsorted : (first :: second :: rest).Pairwise fun a b => compare a.1 b.1 = .lt := by
    rw [← hnodes]
    exact Std.TreeMap.ordered_keys_toList
  obtain ⟨hmem, _, hmax⟩ := foldl_compareScore score id first (second :: rest) hsorted
  have hentry : ∀ key node, m.nodes[key]? = some node → (key, node) ∈ first :: second :: rest := by
    intro key node h
    rw [← hnodes]
    exact Std.TreeMap.mem_toList_iff_getElem?_eq_some.mpr h
  generalize hw : ((second :: rest).foldl (StickyManager.compareScore score id)
    (first, score first.2.rendezvous id)).1 = w at hmem hmax
  refine ⟨w.1, w.2, ⟨?_, ?_, ?_⟩, ?_⟩
  · rw [← hnodes] at hmem
    exact Std.TreeMap.mem_toList_iff_getElem?_eq_some.mp hmem
  · intro key node h
    exact (hmax (key, node) (hentry key node h)).1
  · intro key node h hlt
    by_contra hge
    obtain heq | hafter := (hmax (key, node) (hentry key node h)).2 (not_lt.mp hge)
    · exact absurd hlt (by simp [← heq])
    · exact lt_asymm hlt (compare_lt_iff_lt.mp hafter)
  · simp only [StickyManager.isLocal, hnodes, hw]

lemma answersPreferred_single (hnodes : m.nodes.toList = [(key, node)]) :
    AnswersPreferred score m id ↔ node.isOurOwn = true := by
  have hfind : ∀ key' node', m.nodes[key']? = some node' ↔ key' = key ∧ node' = node := by
    intro key' node'
    rw [← Std.TreeMap.mem_toList_iff_getElem?_eq_some, hnodes, List.mem_singleton, Prod.mk.injEq]
  have hanswer : m.isLocal score id = (node.hostName, true) := by
    simp only [StickyManager.isLocal, hnodes]
  constructor
  · rintro ⟨key', node', hpreferred, heq⟩
    obtain ⟨_, rfl⟩ := (hfind key' node').mp hpreferred.found
    rw [hanswer, Prod.mk.injEq] at heq
    exact heq.2.symm
  · intro hown
    refine ⟨key, node, ⟨(hfind key node).mpr ⟨rfl, rfl⟩, ?_, ?_⟩, by rw [hanswer, hown]⟩
    · intro key' node' h
      obtain ⟨_, rfl⟩ := (hfind key' node').mp h
      exact le_refl _
    · intro key' node' h hlt
      obtain ⟨rfl, _⟩ := (hfind key' node').mp h
      exact absurd hlt (lt_irrefl _)

/-- **The answer of a map that is not empty** is that of the preferred entry, unless the only entry
is that of another node. -/
lemma answersPreferred_iff (hne : m.nodes.toList ≠ []) :
    AnswersPreferred score m id ↔ ¬ ForeignAlone m := by
  rcases hnodes : m.nodes.toList with _ | ⟨⟨key, node⟩, _ | ⟨second, rest⟩⟩
  · exact absurd hnodes hne
  · rw [answersPreferred_single hnodes]
    simp [ForeignAlone, hnodes]
  · refine iff_of_true (answersPreferred_of_two hnodes) ?_
    rintro ⟨key', node', hsingle, _⟩
    rw [hnodes] at hsingle
    exact absurd hsingle (by simp)

end Preferred

/-! ## Clusters -/

/-- What the nodes of a cluster see alike: everything but the flags. -/
def StickyManager.view (m : StickyManager ρ) : List (String × String × ρ) :=
  m.nodes.toList.map fun p => (p.1, p.2.hostName, p.2.rendezvous)

/-- The enabled nodes of a cluster, each with its manager and the key of its own service.  They all
hold the same entries, and a node takes no other entry than that of its own service for its own. -/
structure StickyCluster (N ρ : Type*) where
  managers : N → StickyManager ρ
  own : N → String
  own_injective : Function.Injective own
  nonempty : ∀ n, (managers n).nodes.toList ≠ []
  same : ∀ n n', (managers n).view = (managers n').view
  ourOwn : ∀ n key node, (managers n).nodes[key]? = some node → node.isOurOwn = true → key = own n

section Cluster

variable [LinearOrder S] {score : ρ → String → S} {c : StickyCluster N ρ} {id : String} {n : N}

/-- An entry of one node is an entry of every other, up to the flag. -/
lemma StickyCluster.getElem?_of_same {key : String} {node : StickyNode ρ} (n' : N)
    (h : (c.managers n).nodes[key]? = some node) :
    ∃ node', (c.managers n').nodes[key]? = some node' ∧ node'.rendezvous = node.rendezvous := by
  have hmem : (key, node.hostName, node.rendezvous) ∈ (c.managers n').view := by
    rw [c.same n' n]
    exact List.mem_map.mpr ⟨(key, node), Std.TreeMap.mem_toList_iff_getElem?_eq_some.mpr h, rfl⟩
  obtain ⟨⟨key', node'⟩, hentry, heq⟩ := List.mem_map.mp hmem
  simp only [Prod.mk.injEq] at heq
  obtain ⟨rfl, _, hrendezvous⟩ := heq
  exact ⟨node', Std.TreeMap.mem_toList_iff_getElem?_eq_some.mp hentry, hrendezvous⟩

lemma Preferred.of_same {key : String} {node : StickyNode ρ} (n' : N)
    (h : Preferred score (c.managers n) id key node) :
    ∃ node', Preferred score (c.managers n') id key node' := by
  obtain ⟨node', hfound, hrendezvous⟩ := StickyCluster.getElem?_of_same n' h.found
  refine ⟨node', hfound, ?_, ?_⟩
  · intro key₁ node₁ h₁
    obtain ⟨node₂, h₂, heq⟩ := StickyCluster.getElem?_of_same n h₁
    rw [hrendezvous, ← heq]
    exact h.maximal key₁ node₂ h₂
  · intro key₁ node₁ h₁ hlt
    obtain ⟨node₂, h₂, heq⟩ := StickyCluster.getElem?_of_same n h₁
    rw [hrendezvous, ← heq]
    exact h.first key₁ node₂ h₂ hlt

/-- A node that answers "local" for its preferred entry is the owner of that entry. -/
lemma own_of_isLocal (h : AnswersPreferred score (c.managers n) id)
    (hlocal : ((c.managers n).isLocal score id).2 = true) :
    ∃ node, Preferred score (c.managers n) id (c.own n) node := by
  obtain ⟨key, node, hpreferred, hanswer⟩ := h
  rw [hanswer] at hlocal
  obtain rfl := c.ourOwn n key node hpreferred.found hlocal
  exact ⟨node, hpreferred⟩

/-- **Sticky placement.**  A map that is not empty is answered with the host and the flag of the
first entry with a maximal score, except where the only entry is that of another node; and in a
cluster in which no node is left alone with another's entry, at most one node considers an id
local. -/
theorem sticky_placement (score : ρ → String → S) :
    (∀ (m : StickyManager ρ) (id : String), m.nodes.toList ≠ [] →
      (AnswersPreferred score m id ↔ ¬ ForeignAlone m)) ∧
    ∀ (c : StickyCluster N ρ) (id : String), (∀ n, ¬ ForeignAlone (c.managers n)) →
      ∀ n n', ((c.managers n).isLocal score id).2 = true →
        ((c.managers n').isLocal score id).2 = true → n = n' := by
  refine ⟨fun m id hne => answersPreferred_iff hne, ?_⟩
  intro c id halone n n' hlocal hlocal'
  have hanswers : ∀ n, AnswersPreferred score (c.managers n) id :=
    fun n => (answersPreferred_iff (c.nonempty n)).mpr (halone n)
  obtain ⟨node, hpreferred⟩ := own_of_isLocal (hanswers n) hlocal
  obtain ⟨node', hpreferred'⟩ := own_of_isLocal (hanswers n') hlocal'
  obtain ⟨node₁, hsame⟩ := hpreferred.of_same n'
  exact c.own_injective (hpreferred'.unique hsame)

end Cluster

/-! ## Two nodes -/

/-- The map of the second of two nodes while only the first one is visible. -/
def firstOnly (isOurOwn : Bool) : StickyManager ℕ :=
  ({} : StickyManager ℕ).onAvahiNewObject "first" "first.example" 1 isOurOwn

/-- The map of both nodes once both are visible. -/
def bothVisible (second : Bool) : StickyManager ℕ :=
  (firstOnly !second).onAvahiNewObject "second" "second.example" 2 second

/-- Two nodes with these maps. -/
def twoNodes (managers : Bool → StickyManager ℕ) (hne : ∀ n, (managers n).nodes.toList ≠ [])
    (hsame : ∀ n n', (managers n).view = (managers n').view)
    (hown : ∀ n, ∀ p ∈ (managers n).nodes.toList, p.2.isOurOwn = true →
      p.1 = if n then "second" else "first") : StickyCluster Bool ℕ where
  managers := managers
  own n := if n then "second" else "first"
  own_injective := by
    intro n n' h
    cases n <;> cases n' <;> simp_all
  nonempty := hne
  same := hsame
  ourOwn n key node hfound := hown n _ (Std.TreeMap.mem_toList_iff_getElem?_eq_some.mpr hfound)

/-- **A node that sees only another one takes every id for its own**, and so does that other one. -/
theorem foreign_alone_is_local :
    ¬ (∀ (m : StickyManager ℕ) (id : String), m.nodes.toList ≠ [] →
        AnswersPreferred (fun r id => r + id.length) m id) ∧
    ¬ ∀ (c : StickyCluster Bool ℕ) (id : String) (n n' : Bool),
        ((c.managers n).isLocal (fun r id => r + id.length) id).2 = true →
        ((c.managers n').isLocal (fun r id => r + id.length) id).2 = true → n = n' := by
  constructor
  · intro h
    have hanswers := h (firstOnly false) "id" (by decide +kernel)
    have hsingle : (firstOnly false).nodes.toList =
        [("first", { hostName := "first.example", rendezvous := 1, isOurOwn := false })] := by
      decide +kernel
    exact absurd ((answersPreferred_single hsingle).mp hanswers) (by simp)
  · intro h
    let c := twoNodes (fun second => firstOnly !second) (by decide +kernel) (by decide +kernel)
      (by decide +kernel)
    exact absurd (h c "id" false true (by decide +kernel) (by decide +kernel)) (by decide)

theorem sticky_placement_two :
    AnswersPreferred (fun r id => r + id.length) (bothVisible true) "id" ∧
      ((bothVisible true).isLocal (fun r id => r + id.length) "id").2 = true ∧
      ((bothVisible false).isLocal (fun r id => r + id.length) "id").2 = false := by
  have halone : ∀ n, ¬ ForeignAlone (bothVisible n) := by
    rintro n ⟨key, node, hsingle, _⟩
    have htwo : ∀ n, (bothVisible n).nodes.toList.length = 2 := by decide +kernel
    have hlength := htwo n
    rw [hsingle] at hlength
    exact absurd hlength (by simp)
  have hplacement := sticky_placement (N := Bool) (fun (r : ℕ) (id : String) => r + id.length)
  have hlocal : ((bothVisible true).isLocal (fun r id => r + id.length) "id").2 = true := by
    decide +kernel
  refine ⟨(hplacement.1 (bothVisible true) "id" (by decide +kernel)).mpr (halone true), hlocal, ?_⟩
  rw [← Bool.not_eq_true]
  intro hboth
  let c := twoNodes bothVisible (by decide +kernel) (by decide +kernel) (by decide +kernel)
  exact absurd (hplacement.2 c "id" halone true false hlocal hboth) (by decide)

end Workshop.Daemon

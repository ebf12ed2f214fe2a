import Mathlib.Algebra.Ring.Nat
import Mathlib.Data.List.Forall2
import Mathlib.Data.List.Nodup
import Mathlib.Data.List.Perm.Basic
import Mathlib.Logic.Relation
import Mathlib.Tactic.Common
import Workshop.Lib.Run

/-!
# Components that are removed when they are idle

A `Fleet` is a list of components of one kind, each with its own configuration, that step on their
own: an event of the whole system is an event of some of them, and leaves the others alone.  A
component is removed only by `retire`, which takes out those that are idle and keeps them as they
were last.

What is known about one component carries over.  `Follows next C idle f f'` says that `f'` comes
from `f` by steps allowed by `C` and by removals of idle components; `Follows.forall` is the rule
that what every allowed step of a component keeps is true of all components, those that are gone
included, `Follows.numbers` says that none gets lost, and `Follows.retired` that those that are gone
were idle.
-/

namespace Workshop.Lib

variable {E P ε : Type*}

/-- A component: its number, its name, its configuration and its state. -/
structure Member (E P : Type*) where
  number : ℕ
  name : String
  env : E
  state : P

/-- A component after an event. -/
def Member.step (next : E → P → ε → Option P) (m : Member E P) (e : ε) : Option (Member E P) :=
  (next m.env m.state e).map fun state => { m with state }

theorem Member.of_step {next : E → P → ε → Option P} {m m' : Member E P} {e : ε}
    (h : m.step next e = some m') :
    ∃ state, next m.env m.state e = some state ∧ m' = { m with state } := by
  obtain ⟨state, hstate, rfl⟩ := Option.map_eq_some_iff.mp h
  exact ⟨state, hstate, rfl⟩

/-- Allowed events may have happened to the component. -/
def Member.Moves (next : E → P → ε → Option P) (C : Member E P → ε → Prop) :
    Member E P → Member E P → Prop :=
  Relation.ReflTransGen fun m m' => ∃ e, C m e ∧ m.step next e = some m'

theorem Member.Moves.keeps {next : E → P → ε → Option P} {C : Member E P → ε → Prop}
    {m m' : Member E P} (h : Member.Moves next C m m') {I : Member E P → Prop}
    (hkeep : ∀ m e m', I m → C m e → m.step next e = some m' → I m') (hm : I m) : I m' := by
  induction h with
  | refl => exact hm
  | tail _ hlast ih =>
      obtain ⟨e, hC, hstep⟩ := hlast
      exact hkeep _ e _ ih hC hstep

/-- The components, and those that were removed. -/
structure Fleet (E P : Type*) where
  members : List (Member E P)
  retired : List (Member E P) := []

namespace Fleet

/-- All components there have been. -/
def all (f : Fleet E P) : List (Member E P) := f.members ++ f.retired

/-- New components, numbered, all in the same state. -/
def create (initial : P) (configs : List (String × E)) : Fleet E P where
  members := configs.zipIdx.map fun c => ⟨c.2, c.1.1, c.1.2, initial⟩

/-- An event for the components that are selected, each of which must be able to handle it. -/
def deliver (next : E → P → ε → Option P) (sel : Member E P → Bool) (event : Member E P → ε)
    (f : Fleet E P) : Option (Fleet E P) :=
  (f.members.mapM fun m => if sel m then m.step next (event m) else some m).map
    fun members => { f with members }

/-- Something is done with the state of every component. -/
def map (g : E → P → P) (f : Fleet E P) : Fleet E P :=
  { f with members := f.members.map fun m => { m with state := g m.env m.state } }

/-- The idle components are removed. -/
def retire (idle : P → Bool) (f : Fleet E P) : Fleet E P where
  members := f.members.filter fun m => !idle m.state
  retired := f.retired ++ f.members.filter fun m => idle m.state

/-- Whether this is true of a component before and after. -/
def anyMove (called : Member E P → Member E P → Bool) (f f' : Fleet E P) : Bool :=
  (f.members.zip f'.members).any fun p => called p.1 p.2

/-- The second fleet comes from the first one: components have moved by allowed events, and idle
ones were removed. -/
inductive Follows (next : E → P → ε → Option P) (C : Member E P → ε → Prop) (idle : P → Bool)
    (f : Fleet E P) : Fleet E P → Prop
  | refl : Follows next C idle f f
  | move {f' : Fleet E P} {ms : List (Member E P)} : Follows next C idle f f' →
      List.Forall₂ (Member.Moves next C) f'.members ms →
      Follows next C idle f { f' with members := ms }
  | retire {f' : Fleet E P} : Follows next C idle f f' → Follows next C idle f (f'.retire idle)

section Rules

variable {next : E → P → ε → Option P} {C : Member E P → ε → Prop} {idle : P → Bool}
  {f f' : Fleet E P} {ms : List (Member E P)} {sel : Member E P → Bool} {event : Member E P → ε}

theorem forall₂_of_deliver (h : f.deliver next sel event = some f') :
    f'.retired = f.retired ∧
      List.Forall₂ (fun m m' => (sel m = true ∧ m.step next (event m) = some m') ∨
        (sel m = false ∧ m' = m)) f.members f'.members := by
  obtain ⟨members, hmembers, rfl⟩ := Option.map_eq_some_iff.mp h
  refine ⟨rfl, ?_⟩
  clear h
  change List.Forall₂ _ f.members members
  generalize f.members = ms at hmembers
  induction ms generalizing members with
  | nil =>
      rw [List.mapM_nil] at hmembers
      obtain rfl := Option.some.inj hmembers
      exact .nil
  | cons m ms ih =>
      rw [List.mapM_cons] at hmembers
      obtain ⟨m', hm', hmembers⟩ := Option.bind_eq_some_iff.mp hmembers
      obtain ⟨ms', hms', hmembers⟩ := Option.bind_eq_some_iff.mp hmembers
      obtain rfl := Option.some.inj hmembers
      refine .cons ?_ (ih ms' hms')
      cases hsel : sel m with
      | true =>
          rw [hsel, if_pos rfl] at hm'
          exact .inl ⟨rfl, hm'⟩
      | false =>
          rw [hsel, if_neg Bool.false_ne_true] at hm'
          exact .inr ⟨rfl, (Option.some.inj hm').symm⟩

theorem Follows.deliver {f₀ : Fleet E P} (hf : Follows next C idle f₀ f)
    (h : f.deliver next sel event = some f') (hC : ∀ m, sel m = true → C m (event m)) :
    Follows next C idle f₀ f' := by
  obtain ⟨hretired, hmoves⟩ := forall₂_of_deliver h
  have hf' : f' = { f with members := f'.members } := by rw [← hretired]
  rw [hf']
  refine hf.move (hmoves.imp fun m m' hm => ?_)
  rcases hm with ⟨hsel, hstep⟩ | ⟨_, rfl⟩
  · exact .single ⟨event m, hC m hsel, hstep⟩
  · exact .refl

theorem Follows.map {f₀ : Fleet E P} (hf : Follows next C idle f₀ f) {g : E → P → P} (e : ε)
    (hstep : ∀ env p, next env p e = some (g env p)) (hC : ∀ m, C m e) :
    Follows next C idle f₀ (f.map g) := by
  refine hf.move ?_
  refine List.forall₂_map_right_iff.mpr (List.forall₂_same.mpr fun m _ => .single ⟨e, hC m, ?_⟩)
  rw [Member.step, hstep m.env m.state, Option.map_some]

theorem all_retire_perm (idle : P → Bool) (f : Fleet E P) : (f.retire idle).all.Perm f.all := by
  have hparts : (f.members.filter (fun m => !idle m.state) ++
      f.members.filter fun m => idle m.state).Perm f.members :=
    List.perm_append_comm.trans (List.filter_append_perm (fun m => idle m.state) f.members)
  calc (f.retire idle).all
      = f.members.filter (fun m => !idle m.state) ++
          (f.retired ++ f.members.filter fun m => idle m.state) := rfl
    List.Perm _ (f.members.filter (fun m => !idle m.state) ++
          ((f.members.filter fun m => idle m.state) ++ f.retired)) :=
        List.perm_append_comm.append_left _
    List.Perm _ (f.members ++ f.retired) := by
        rw [← List.append_assoc]
        exact hparts.append_right _

/-- What every allowed step keeps is true of the components after they have moved. -/
theorem forall_of_moves {I : Member E P → Prop}
    (hkeep : ∀ m e m', I m → C m e → m.step next e = some m' → I m')
    (h : List.Forall₂ (Member.Moves next C) f.members ms) (hI : ∀ m ∈ f.members, I m) :
    ∀ m ∈ ms, I m := by
  generalize f.members = l at h hI
  induction h with
  | nil => exact hI
  | @cons m m' l ms hmove _ ih =>
      have hm : I m := hI m List.mem_cons_self
      exact List.forall_mem_cons.mpr ⟨hmove.keeps hkeep hm,
        ih fun x hx => hI x (List.mem_cons_of_mem m hx)⟩

/-- **What one component keeps, all of them keep**, those that are gone included. -/
theorem Follows.forall (h : Follows next C idle f f') {I : Member E P → Prop}
    (hkeep : ∀ m e m', I m → C m e → m.step next e = some m' → I m') (hI : ∀ m ∈ f.all, I m) :
    ∀ m ∈ f'.all, I m := by
  induction h with
  | refl => exact hI
  | move _ hmoves ih =>
      intro m hm
      rcases List.mem_append.mp hm with hm | hm
      · exact forall_of_moves hkeep hmoves (fun x hx => ih x (List.mem_append_left _ hx)) m hm
      · exact ih m (List.mem_append_right _ hm)
  | retire _ ih => exact fun m hm => ih m ((all_retire_perm idle _).mem_iff.mp hm)

theorem numbers_of_moves (h : List.Forall₂ (Member.Moves next C) f.members ms) :
    ms.map Member.number = f.members.map Member.number := by
  generalize f.members = l at h
  induction h with
  | nil => rfl
  | @cons m m' l ms hmove _ ih =>
      have hnumber : m'.number = m.number := by
        refine hmove.keeps (I := fun x => x.number = m.number) (fun x e x' hx _ hstep => ?_) rfl
        obtain ⟨state, _, rfl⟩ := Member.of_step hstep
        exact hx
      rw [List.map_cons, List.map_cons, hnumber, ih]

/-- **No component gets lost.** -/
theorem Follows.numbers (h : Follows next C idle f f') :
    (f'.all.map Member.number).Perm (f.all.map Member.number) := by
  induction h with
  | refl => exact .refl _
  | move _ hmoves ih =>
      rw [all, List.map_append, numbers_of_moves hmoves, ← List.map_append]
      exact ih
  | retire _ ih => exact ((all_retire_perm idle _).map _).trans ih

/-- **The components that are gone were idle.** -/
theorem Follows.retired (h : Follows next C idle f f')
    (hidle : ∀ m ∈ f.retired, idle m.state = true) :
    ∀ m ∈ f'.retired, idle m.state = true := by
  induction h with
  | refl => exact hidle
  | move _ _ ih => exact ih
  | retire _ ih =>
      intro m hm
      rcases List.mem_append.mp hm with hm | hm
      · exact ih m hm
      · exact (List.mem_filter.mp hm).2

theorem Follows.trans {f'' : Fleet E P} (h : Follows next C idle f f')
    (h' : Follows next C idle f' f'') : Follows next C idle f f'' := by
  induction h' with
  | refl => exact h
  | move _ hmoves ih => exact .move ih hmoves
  | retire _ ih => exact .retire ih

/-- Where `deliver` has not let any component do something, none of them has done it. -/
theorem called_of_deliver (h : f.deliver next sel event = some f')
    {called : Member E P → Member E P → Bool} (hcalled : f.anyMove called f' = false)
    {m' : Member E P} (hm' : m' ∈ f'.members) :
    ∃ m ∈ f.members, called m m' = false ∧
      ((sel m = true ∧ m.step next (event m) = some m') ∨ (sel m = false ∧ m' = m)) := by
  obtain ⟨_, hmoves⟩ := forall₂_of_deliver h
  have hzip : ∀ p ∈ f.members.zip f'.members, called p.1 p.2 = false := fun p hp => by
    simpa using List.any_eq_false.mp hcalled p hp
  generalize f.members = ms at hmoves hzip
  generalize f'.members = ms' at hm' hmoves hzip
  induction hmoves with
  | nil => exact absurd hm' List.not_mem_nil
  | @cons m x ms ms' hmove _ ih =>
      rw [List.zip_cons_cons, List.forall_mem_cons] at hzip
      rcases List.mem_cons.mp hm' with rfl | hm'
      · exact ⟨m, List.mem_cons_self, hzip.1, hmove⟩
      · obtain ⟨m₀, hm₀, hrest⟩ := ih hm' hzip.2
        exact ⟨m₀, List.mem_cons_of_mem m hm₀, hrest⟩

/-- An event for the components with one number, each of which gets smaller by `d`. -/
theorem sum_of_deliver (size : P → ℕ) {k d : ℕ} {e : ε}
    (h : f.deliver next (fun m => m.number = k) (fun _ => e) = some f')
    (hsize : ∀ m ∈ f.members, ∀ m', m.step next e = some m' → size m'.state + d = size m.state) :
    (f'.members.map fun m => size m.state).sum + (f.members.map Member.number).count k * d =
      (f.members.map fun m => size m.state).sum := by
  obtain ⟨_, hmoves⟩ := forall₂_of_deliver h
  generalize f.members = ms at hmoves hsize
  generalize f'.members = ms' at hmoves
  induction hmoves with
  | nil => simp
  | @cons m m' ms ms' hmove _ ih =>
      have hrest := ih fun x hx => hsize x (List.mem_cons_of_mem m hx)
      simp only [List.map_cons, List.sum_cons, List.count_cons]
      rcases hmove with ⟨hk, hstep⟩ | ⟨hk, rfl⟩
      · have hm := hsize m List.mem_cons_self m' hstep
        rw [if_pos (by simpa using hk), Nat.add_mul, Nat.one_mul]
        omega
      · rw [if_neg (by simpa using hk), Nat.add_zero]
        omega

/-- Idle components count for nothing. -/
theorem sum_retire (size : P → ℕ) (hidle : ∀ p, idle p = true → size p = 0) (f : Fleet E P) :
    ((f.retire idle).members.map fun m => size m.state).sum =
      (f.members.map fun m => size m.state).sum := by
  rw [retire]
  induction f.members with
  | nil => rfl
  | cons m ms ih =>
      rw [List.map_cons, List.sum_cons, ← ih]
      cases hm : idle m.state with
      | true => rw [List.filter_cons_of_neg (by simp [hm]), hidle _ hm, Nat.zero_add]
      | false => rw [List.filter_cons_of_pos (by simp [hm]), List.map_cons, List.sum_cons]

theorem numbers_create (initial : P) (configs : List (String × E)) :
    (create initial configs).all.map Member.number = List.range configs.length := by
  simp only [create, all, List.append_nil, List.map_map]
  exact List.zipIdx_map_snd 0 configs |>.trans (by rw [List.range_eq_range'])

end Rules

end Fleet

end Workshop.Lib

import Mathlib.Data.List.TakeWhile
import Mathlib.Logic.Function.Basic
import Mathlib.Tactic.Common

/-!
# Texts that are read from left to right

A `Grammar` says how the values of a type are spelled and what may follow such a text.  A reader
takes as much as it can, so a value is not read if the text could go on.  `Splits a s rest` says
that `a` is read at the start of `s` and leaves `rest`.

Grammars are put together from sequences, optional parts and lists with a mark in front, and runs of
characters of one kind.  If the parts have only one reading of each text, so has the whole.
-/

namespace Workshop.Lib

universe u v w

/-- Characters of one kind, up to one of another kind. -/
lemma span_append {τ : Type w} {p : τ → Bool} {l rest : List τ} (hl : ∀ c ∈ l, p c = true)
    (hrest : ∀ c ∈ rest.head?, p c = false) :
    (l ++ rest).takeWhile p = l ∧ (l ++ rest).dropWhile p = rest := by
  rw [List.takeWhile_append_of_pos hl, List.dropWhile_append_of_pos hl]
  cases rest with
  | nil => exact ⟨List.append_nil l, rfl⟩
  | cons c rest =>
      have hc : p c = false := hrest c rfl
      rw [List.takeWhile_cons_of_neg (by simp [hc]), List.dropWhile_cons_of_neg (by simp [hc])]
      exact ⟨List.append_nil l, rfl⟩

/-- No text that starts with the mark. -/
lemma head?_ne_some {τ : Type w} {mark : τ} {s : List τ} (h : ∀ rest, s = mark :: rest → False) :
    s.head? ≠ some mark := by
  intro hhead
  obtain ⟨rest, hs⟩ := List.head?_eq_some_iff.mp hhead
  exact h rest hs

/-- The spelling of values, and what may follow it. -/
structure Grammar (τ : Type w) (α : Type u) where
  chars : α → List τ
  Fits : α → List τ → Prop

namespace Grammar

variable {τ : Type w} {α : Type u} {β : Type v} {g : Grammar τ α} {h : Grammar τ β}
variable {s rest : List τ} {mark : τ}

/-- The value is read at the start of a text, up to the rest. -/
def Splits (g : Grammar τ α) (a : α) (s rest : List τ) : Prop :=
  s = g.chars a ++ rest ∧ g.Fits a rest

/-- **There is at most one reading.** -/
def Unambiguous (g : Grammar τ α) : Prop :=
  ∀ ⦃a a' : α⦄ ⦃s rest rest' : List τ⦄, g.Splits a s rest → g.Splits a' s rest' →
    a = a' ∧ rest = rest'

/-- The same texts for other values. -/
def comap (f : β → α) (g : Grammar τ α) : Grammar τ β where
  chars b := g.chars (f b)
  Fits b := g.Fits (f b)

/-- One text after the other. -/
def seq (g : Grammar τ α) (h : Grammar τ β) : Grammar τ (α × β) where
  chars p := g.chars p.1 ++ h.chars p.2
  Fits p rest := g.Fits p.1 (h.chars p.2 ++ rest) ∧ h.Fits p.2 rest

/-- A mark and a text, if the mark is there. -/
def optional (mark : τ) (g : Grammar τ α) : Grammar τ (Option α) where
  chars a := a.elim [] fun a => mark :: g.chars a
  Fits a rest := a.elim (rest.head? ≠ some mark) fun a => g.Fits a rest

/-- The texts of a list, with a mark in front of each. -/
def manyChars (mark : τ) (g : Grammar τ α) (as : List α) : List τ :=
  as.flatMap fun a => mark :: g.chars a

/-- What may follow a list. -/
def ManyFits (mark : τ) (g : Grammar τ α) : List α → List τ → Prop
  | [], rest => rest.head? ≠ some mark
  | a :: as, rest => g.Fits a (manyChars mark g as ++ rest) ∧ ManyFits mark g as rest

/-- As many texts as there are marks. -/
def many (mark : τ) (g : Grammar τ α) : Grammar τ (List α) where
  chars := manyChars mark g
  Fits := ManyFits mark g

/-- As many characters of one kind as there are. -/
def run (p : τ → Bool) : Grammar τ (List τ) where
  chars l := l
  Fits l rest := (∀ c ∈ l, p c = true) ∧ ∀ c ∈ rest.head?, p c = false

/-! ## Readings -/

theorem seq_splits {p : α × β} :
    (g.seq h).Splits p s rest ↔ ∃ mid, g.Splits p.1 s mid ∧ h.Splits p.2 mid rest := by
  constructor
  · rintro ⟨hs, hfits, hfits'⟩
    refine ⟨h.chars p.2 ++ rest, ⟨?_, hfits⟩, rfl, hfits'⟩
    rw [hs]
    exact List.append_assoc ..
  · rintro ⟨mid, ⟨hs, hfits⟩, rfl, hfits'⟩
    refine ⟨?_, hfits, hfits'⟩
    rw [hs]
    exact (List.append_assoc ..).symm

theorem optional_splits_none :
    (g.optional mark).Splits none s rest ↔ s = rest ∧ rest.head? ≠ some mark :=
  Iff.rfl

theorem optional_splits_some {a : α} :
    (g.optional mark).Splits (some a) s rest ↔ ∃ s', s = mark :: s' ∧ g.Splits a s' rest := by
  constructor
  · rintro ⟨rfl, hfits⟩
    exact ⟨_, rfl, rfl, hfits⟩
  · rintro ⟨s', rfl, rfl, hfits⟩
    exact ⟨rfl, hfits⟩

theorem many_splits_nil : (g.many mark).Splits [] s rest ↔ s = rest ∧ rest.head? ≠ some mark :=
  Iff.rfl

theorem many_splits_cons {a : α} {as : List α} :
    (g.many mark).Splits (a :: as) s rest ↔
      ∃ s' mid, s = mark :: s' ∧ g.Splits a s' mid ∧ (g.many mark).Splits as mid rest := by
  constructor
  · rintro ⟨rfl, hfits, hfits'⟩
    refine ⟨_, manyChars mark g as ++ rest, ?_, ⟨rfl, hfits⟩, rfl, hfits'⟩
    simp [many, manyChars]
  · rintro ⟨s', mid, rfl, ⟨rfl, hfits⟩, rfl, hfits'⟩
    refine ⟨?_, hfits, hfits'⟩
    simp [many, manyChars]

/-! ## One reading -/

theorem Unambiguous.comap (hg : g.Unambiguous) {f : β → α} (hf : Function.Injective f) :
    (g.comap f).Unambiguous := by
  intro b b' s rest rest' hb hb'
  obtain ⟨heq, hrest⟩ := hg hb hb'
  exact ⟨hf heq, hrest⟩

theorem Unambiguous.seq (hg : g.Unambiguous) (hh : h.Unambiguous) : (g.seq h).Unambiguous := by
  intro p p' s rest rest' hp hp'
  obtain ⟨mid, hfirst, hsecond⟩ := seq_splits.mp hp
  obtain ⟨mid', hfirst', hsecond'⟩ := seq_splits.mp hp'
  obtain ⟨heq, rfl⟩ := hg hfirst hfirst'
  obtain ⟨heq', hrest⟩ := hh hsecond hsecond'
  exact ⟨Prod.ext heq heq', hrest⟩

theorem Unambiguous.optional (hg : g.Unambiguous) (mark : τ) : (g.optional mark).Unambiguous := by
  intro a a' s rest rest' ha ha'
  cases a with
  | none =>
      obtain ⟨rfl, hmark⟩ := optional_splits_none.mp ha
      cases a' with
      | none => exact ⟨rfl, (optional_splits_none.mp ha').1⟩
      | some a' =>
          obtain ⟨s', rfl, -⟩ := optional_splits_some.mp ha'
          exact absurd rfl hmark
  | some a =>
      obtain ⟨s', rfl, hread⟩ := optional_splits_some.mp ha
      cases a' with
      | none =>
          obtain ⟨rfl, hmark⟩ := optional_splits_none.mp ha'
          exact absurd rfl hmark
      | some a' =>
          obtain ⟨s'', heq, hread'⟩ := optional_splits_some.mp ha'
          obtain rfl := (List.cons.inj heq).2
          obtain ⟨rfl, hrest⟩ := hg hread hread'
          exact ⟨rfl, hrest⟩

theorem Unambiguous.many (hg : g.Unambiguous) (mark : τ) : (g.many mark).Unambiguous := by
  intro as
  induction as with
  | nil =>
      intro as' s rest rest' has has'
      obtain ⟨rfl, hmark⟩ := many_splits_nil.mp has
      cases as' with
      | nil => exact ⟨rfl, (many_splits_nil.mp has').1⟩
      | cons a' as' =>
          obtain ⟨s', mid, rfl, -⟩ := many_splits_cons.mp has'
          exact absurd rfl hmark
  | cons a as ih =>
      intro as' s rest rest' has has'
      obtain ⟨s', mid, rfl, hread, hmore⟩ := many_splits_cons.mp has
      cases as' with
      | nil =>
          obtain ⟨rfl, hmark⟩ := many_splits_nil.mp has'
          exact absurd rfl hmark
      | cons a' as' =>
          obtain ⟨s'', mid', heq, hread', hmore'⟩ := many_splits_cons.mp has'
          obtain rfl := (List.cons.inj heq).2
          obtain ⟨rfl, rfl⟩ := hg hread hread'
          obtain ⟨rfl, hrest⟩ := ih hmore hmore'
          exact ⟨rfl, hrest⟩

/-- A run is what is taken from the text. -/
theorem run_splits {p : τ → Bool} {l : List τ} :
    (run p).Splits l s rest ↔ l = s.takeWhile p ∧ rest = s.dropWhile p := by
  constructor
  · rintro ⟨rfl, hl, hrest⟩
    obtain ⟨htake, hdrop⟩ := span_append hl hrest
    exact ⟨htake.symm, hdrop.symm⟩
  · rintro ⟨rfl, rfl⟩
    refine ⟨List.takeWhile_append_dropWhile.symm, fun c hc => List.mem_takeWhile_imp hc, ?_⟩
    intro c hc
    have hhead := List.head?_dropWhile_not p s
    rw [Option.mem_def.mp hc] at hhead
    exact hhead

theorem run_unambiguous (p : τ → Bool) : (run p).Unambiguous := by
  intro l l' s rest rest' hl hl'
  rw [run_splits] at hl hl'
  exact ⟨hl.1.trans hl'.1.symm, hl.2.trans hl'.2.symm⟩

end Grammar

end Workshop.Lib

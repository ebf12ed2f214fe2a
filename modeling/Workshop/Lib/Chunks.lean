import Mathlib.Algebra.Notation.Defs
import Mathlib.Data.List.DropRight
import Mathlib.Tactic.Common

/-!
# Reports that arrive in pieces

A stream is read in pieces of at most `n` elements (`IsSplitting`), and how it is cut is not known.
Each element may report a value; of each piece only the last report counts, and it is kept unless it
is zero (`finalReport`).

So a report is lost if a zero follows in the same piece.  What is kept at the end does not depend on
the pieces exactly if nothing but zeros was reported, or there is a report that no piece can hide
and after which nothing else is reported (`finalReport_independent_iff`).
-/

namespace Workshop.Lib

/-! ## Pieces -/

/-- The pieces of a list: none of them is empty, or longer than `n`. -/
structure IsSplitting {α : Type*} (n : ℕ) (l : List α) (chunks : List (List α)) : Prop where
  flatten_eq : chunks.flatten = l
  ne_nil : ∀ c ∈ chunks, c ≠ []
  length_le : ∀ c ∈ chunks, c.length ≤ n

namespace IsSplitting

variable {α : Type*} {n : ℕ} {l l' : List α} {chunks chunks' : List (List α)}

theorem singletons (hn : 1 ≤ n) (l : List α) : IsSplitting n l (l.map fun x => [x]) where
  flatten_eq := by
    induction l with
    | nil => rfl
    | cons x l ih => rw [List.map_cons, List.flatten_cons, ih, List.singleton_append]
  ne_nil := by simp
  length_le := by simpa using fun _ _ => hn

theorem append (h : IsSplitting n l chunks) (h' : IsSplitting n l' chunks') :
    IsSplitting n (l ++ l') (chunks ++ chunks') where
  flatten_eq := by rw [List.flatten_append, h.flatten_eq, h'.flatten_eq]
  ne_nil c hc := (List.mem_append.mp hc).elim (h.ne_nil c) (h'.ne_nil c)
  length_le c hc := (List.mem_append.mp hc).elim (h.length_le c) (h'.length_le c)

theorem cons {c : List α} (hne : c ≠ []) (hlength : c.length ≤ n) (h : IsSplitting n l chunks) :
    IsSplitting n (c ++ l) (c :: chunks) where
  flatten_eq := by rw [List.flatten_cons, h.flatten_eq]
  ne_nil := List.forall_mem_cons.mpr ⟨hne, h.ne_nil⟩
  length_le := List.forall_mem_cons.mpr ⟨hlength, h.length_le⟩

theorem exists_same {β : Type*} (h : IsSplitting n l chunks) {m : List β}
    (hlength : m.length = l.length) :
    ∃ pieces, IsSplitting n m pieces ∧ pieces.map List.length = chunks.map List.length := by
  obtain ⟨hflatten, hne, hle⟩ := h
  induction chunks generalizing l m with
  | nil =>
      subst hflatten
      obtain rfl := List.eq_nil_of_length_eq_zero hlength
      exact ⟨[], ⟨rfl, by simp, by simp⟩, rfl⟩
  | cons c chunks ih =>
      obtain ⟨hc, hne⟩ := List.forall_mem_cons.mp hne
      obtain ⟨hcle, hle⟩ := List.forall_mem_cons.mp hle
      rw [List.flatten_cons] at hflatten
      have htotal : m.length = c.length + chunks.flatten.length := by
        rw [hlength, ← hflatten, List.length_append]
      obtain ⟨pieces, hpieces, hlengths⟩ := ih (m := m.drop c.length) (by
        rw [List.length_drop]
        omega) rfl hne hle
      have htake : (m.take c.length).length = c.length := by
        rw [List.length_take]
        omega
      refine ⟨m.take c.length :: pieces, ?_, ?_⟩
      · have hcons := IsSplitting.cons (c := m.take c.length) ?_ (htake.trans_le hcle) hpieces
        · rwa [List.take_append_drop] at hcons
        · intro hnil
          rw [hnil] at htake
          exact hc (List.eq_nil_of_length_eq_zero htake.symm)
      · rw [List.map_cons, List.map_cons, hlengths, htake]

end IsSplitting

/-! ## Reports -/

section Reports

variable {α : Type*}

/-- The last report, or the value there was before. -/
def lastReportFrom (v : α) (events : List (Option α)) : α := events.foldl (fun v x => x.getD v) v

lemma lastReportFrom_append (v : α) (events events' : List (Option α)) :
    lastReportFrom v (events ++ events') = lastReportFrom (lastReportFrom v events) events' :=
  List.foldl_append ..

/-- If there are only reports of one value, that is the last one. -/
lemma lastReportFrom_of_forall {v : α} {events : List (Option α)}
    (h : ∀ x ∈ events, x = none ∨ x = some v) : lastReportFrom v events = v := by
  induction events with
  | nil => rfl
  | cons x events ih =>
      obtain ⟨hx, h⟩ := List.forall_mem_cons.mp h
      have hfirst : x.getD v = v := by
        rcases hx with rfl | rfl <;> rfl
      rw [lastReportFrom, List.foldl_cons, hfirst]
      exact ih h

/-- A value that was reported, and nothing else after it. -/
lemma lastReportFrom_append_cons {v w : α} {before after : List (Option α)}
    (h : ∀ x ∈ after, x = none ∨ x = some v) :
    lastReportFrom w (before ++ some v :: after) = v := by
  rw [lastReportFrom_append]
  exact lastReportFrom_of_forall h

lemma lastReportFrom_mem (v : α) (events : List (Option α)) :
    lastReportFrom v events = v ∨ some (lastReportFrom v events) ∈ events := by
  induction events generalizing v with
  | nil => exact .inl rfl
  | cons x events ih =>
      have hcons : lastReportFrom v (x :: events) = lastReportFrom (x.getD v) events := rfl
      rw [hcons]
      rcases ih (x.getD v) with h | h
      · rw [h]
        cases x with
        | none => exact .inl rfl
        | some w => exact .inr List.mem_cons_self
      · exact .inr (List.mem_cons_of_mem _ h)

variable [Zero α] [DecidableEq α]

/-- The last report of a piece; without one it is zero. -/
def lastReport (c : List (Option α)) : α := lastReportFrom 0 c

/-- The last report of a piece is kept, unless it is zero. -/
def keepReport (v : α) (c : List (Option α)) : α := if lastReport c = 0 then v else lastReport c

/-- What is kept after all pieces. -/
def finalReport (v : α) (chunks : List (List (Option α))) : α := chunks.foldl keepReport v

lemma finalReport_append (v : α) (chunks chunks' : List (List (Option α))) :
    finalReport v (chunks ++ chunks') = finalReport (finalReport v chunks) chunks' :=
  List.foldl_append ..

/-- Pieces whose last reports are zero, or what was kept before, change nothing. -/
lemma finalReport_of_forall {v : α} {chunks : List (List (Option α))}
    (h : ∀ c ∈ chunks, lastReport c = 0 ∨ lastReport c = v) : finalReport v chunks = v := by
  induction chunks with
  | nil => rfl
  | cons c chunks ih =>
      obtain ⟨hc, h⟩ := List.forall_mem_cons.mp h
      have hkeep : keepReport v c = v := by
        unfold keepReport
        split
        · rfl
        · rename_i hne
          exact hc.resolve_left hne
      rw [finalReport, List.foldl_cons, hkeep]
      exact ih h

/-- A report that no piece hides: no zero follows it in a piece, and only zeros and the same value
follow it at all. -/
structure Lasting (n : ℕ) (v : α) (after : List (Option α)) : Prop where
  ne_zero : v ≠ 0
  not_hidden : some 0 ∉ after.take (n - 1)
  only : ∀ x ∈ after, x = none ∨ x = some 0 ∨ x = some v

/-- **A lasting report is what is kept**, wherever the stream is cut. -/
theorem Lasting.finalReport_eq {n : ℕ} {v : α} {before after : List (Option α)}
    (h : Lasting n v after) {chunks : List (List (Option α))}
    (hsplit : IsSplitting n (before ++ some v :: after) chunks) (w : α) :
    finalReport w chunks = v := by
  obtain ⟨hflatten, -, hle⟩ := hsplit
  induction chunks generalizing before w with
  | nil => simp at hflatten
  | cons c chunks ih =>
      obtain ⟨hcle, hrestle⟩ := List.forall_mem_cons.mp hle
      rw [List.flatten_cons] at hflatten
      rw [finalReport, List.foldl_cons]
      rcases List.append_eq_append_iff.mp hflatten with ⟨before', rfl, hrest⟩ | ⟨c', rfl, hrest⟩
      · exact ih _ hrest hrestle
      · match c', hrest with
        | [], hrest =>
            have hnext : chunks.flatten = [] ++ some v :: after := hrest.symm
            exact ih _ hnext hrestle
        | x :: c', hrest =>
            -- the piece that has the report
            rw [List.cons_append, List.cons_eq_cons] at hrest
            obtain ⟨rfl, rfl⟩ := hrest
            have hshort : c' <+: (c' ++ chunks.flatten).take (n - 1) := by
              rw [List.length_append, List.length_cons] at hcle
              exact List.prefix_take_iff.mpr ⟨List.prefix_append _ _, by omega⟩
            have honly : ∀ x ∈ c', x = none ∨ x = some v := by
              intro x hx
              rcases h.only x (List.mem_append_left _ hx) with hnone | rfl | hv
              · exact .inl hnone
              · exact absurd (hshort.subset hx) h.not_hidden
              · exact .inr hv
            have hlast : lastReport (before ++ some v :: c') = v := lastReportFrom_append_cons honly
            have hkeep : keepReport w (before ++ some v :: c') = v := by
              rw [keepReport, hlast, if_neg h.ne_zero]
            rw [hkeep]
            refine finalReport_of_forall fun c hc => ?_
            rcases lastReportFrom_mem 0 c with hzero | hmem
            · exact .inl hzero
            · have hafter := List.mem_append_right c' (List.mem_flatten_of_mem hc hmem)
              rcases h.only _ hafter with hnone | hzero | hv
              · cases hnone
              · exact .inl (Option.some.inj hzero)
              · exact .inr (Option.some.inj hv)

/-- Pieces in which every report is hidden by a zero. -/
theorem exists_hiding {n : ℕ} {v : α} {events : List (Option α)} (hn : 1 ≤ n)
    (honly : ∀ x ∈ events, x = none ∨ x = some 0 ∨ x = some v)
    (hhidden : ∀ before after, events = before ++ some v :: after → some 0 ∈ after.take (n - 1)) :
    ∃ chunks, IsSplitting n events chunks ∧ ∀ c ∈ chunks, lastReport c = 0 := by
  induction hlength : events.length using Nat.strong_induction_on generalizing events with
  | _ k ih =>
      -- one piece, and the pieces of the rest
      have hnext : ∀ c rest, events = c ++ rest → c ≠ [] → c.length ≤ n → lastReport c = 0 →
          ∃ chunks, IsSplitting n events chunks ∧ ∀ c ∈ chunks, lastReport c = 0 := by
        rintro c rest rfl hne hle hlast
        have hlt : rest.length < k := by
          have hpos := List.length_pos_iff.mpr hne
          rw [← hlength, List.length_append]
          omega
        obtain ⟨chunks, hsplit, hchunks⟩ := ih rest.length hlt
          (fun x hx => honly x (List.mem_append_right _ hx))
          (fun before after heq => hhidden (c ++ before) after (by rw [heq, List.append_assoc])) rfl
        exact ⟨c :: chunks, .cons hne hle hsplit, List.forall_mem_cons.mpr ⟨hlast, hchunks⟩⟩
      cases events with
      | nil => exact ⟨[], ⟨rfl, by simp, by simp⟩, by simp⟩
      | cons x events =>
          by_cases hv : x = some v
          · -- from the report to the next zero
            subst hv
            obtain ⟨u, rest, htake⟩ := List.append_of_mem (hhidden [] events rfl)
            have hu : u.length + 1 ≤ n - 1 := by
              have hle := List.length_take_le (n - 1) events
              rw [htake, List.length_append, List.length_cons] at hle
              omega
            refine hnext (some v :: u ++ [some 0]) (rest ++ events.drop (n - 1)) ?_ (by simp) ?_
              (lastReportFrom_append_cons (by simp))
            · conv_lhs => rw [← List.take_append_drop (n - 1) events, htake]
              simp
            · rw [List.length_append, List.length_cons, List.length_singleton]
              omega
          · refine hnext [x] events rfl (List.cons_ne_nil x []) hn ?_
            rcases honly x List.mem_cons_self with rfl | rfl | rfl
            · rfl
            · rfl
            · exact absurd rfl hv

/-- **What is kept does not depend on the pieces**: only zeros were reported, or there is a lasting
report. -/
def Independent (n : ℕ) (events : List (Option α)) : Prop :=
  (∀ x ∈ events, x = none ∨ x = some 0) ∨
    ∃ before v after, events = before ++ some v :: after ∧ Lasting n v after

lemma exists_last {β : Type*} {p : β → Prop} {l : List β} (h : ∃ x ∈ l, p x) :
    ∃ before x after, l = before ++ x :: after ∧ p x ∧ ∀ y ∈ after, ¬ p y := by
  induction l with
  | nil => simp at h
  | cons x l ih =>
      by_cases hl : ∃ y ∈ l, p y
      · obtain ⟨before, y, after, rfl, hy, hafter⟩ := ih hl
        exact ⟨x :: before, y, after, rfl, hy, hafter⟩
      · obtain ⟨y, hy, hp⟩ := h
        have hnone : ∀ y ∈ l, ¬ p y := fun y hy hp => hl ⟨y, hy, hp⟩
        rcases List.mem_cons.mp hy with rfl | hy
        · exact ⟨[], y, l, rfl, hp, hnone⟩
        · exact absurd hp (hnone y hy)

/-- What is kept of pieces of one element: the last report that is not zero. -/
lemma finalReport_singletons {v : α} {before after : List (Option α)} (hv : v ≠ 0)
    (hafter : ∀ x ∈ after, x = none ∨ x = some 0) :
    finalReport 0 ((before ++ some v :: after).map fun x => [x]) = v := by
  have hlasting : Lasting 1 v after := by
    refine ⟨hv, by simp, fun x hx => ?_⟩
    exact (hafter x hx).imp_right .inl
  exact hlasting.finalReport_eq (IsSplitting.singletons le_rfl _) 0

/-- If there is no lasting report, one that is not zero can be lost. -/
lemma exists_other_finalReport {n : ℕ} (hn : 1 ≤ n) {v : α} {events : List (Option α)} (hv : v ≠ 0)
    (hlasting : ¬ ∃ before v after, events = before ++ some v :: after ∧ Lasting n v after) :
    ∃ chunks, IsSplitting n events chunks ∧ finalReport 0 chunks ≠ v := by
  by_cases hother : ∃ x ∈ events, ¬ (x = none ∨ x = some 0 ∨ x = some v)
  · -- after the last report of another value, all are hidden
    obtain ⟨pre, x, post, rfl, hx, hpost⟩ := exists_last hother
    obtain ⟨w, rfl⟩ : ∃ w, x = some w := by
      cases x with
      | none => exact absurd (.inl rfl) hx
      | some w => exact ⟨w, rfl⟩
    have hw : w ≠ 0 ∧ w ≠ v := by
      constructor
      · exact fun h => hx (.inr (.inl (congrArg some h)))
      · exact fun h => hx (.inr (.inr (congrArg some h)))
    have honly : ∀ x ∈ post, x = none ∨ x = some 0 ∨ x = some v := fun x hx =>
      not_not.mp (hpost x hx)
    obtain ⟨chunks, hsplit, hchunks⟩ := exists_hiding hn honly (fun before after heq => by
      by_contra hnot
      refine hlasting ⟨pre ++ some w :: before, v, after, by rw [heq]; simp, hv, hnot,
        fun x hx => ?_⟩
      exact honly x (heq ▸ List.mem_append_right _ (List.mem_cons_of_mem _ hx)))
    refine ⟨(pre ++ [some w]).map (fun x => [x]) ++ chunks, ?_, ?_⟩
    · have happend := (IsSplitting.singletons hn (pre ++ [some w])).append hsplit
      rwa [List.append_assoc, List.singleton_append] at happend
    · rw [finalReport_append, finalReport_singletons hw.1 (by simp),
        finalReport_of_forall fun c hc => .inl (hchunks c hc)]
      exact hw.2
  · have honly : ∀ x ∈ events, x = none ∨ x = some 0 ∨ x = some v := fun x hx => by
      by_contra hnot
      exact hother ⟨x, hx, hnot⟩
    obtain ⟨chunks, hsplit, hchunks⟩ := exists_hiding hn honly (fun before after heq => by
      by_contra hnot
      refine hlasting ⟨before, v, after, heq, hv, hnot, fun x hx => ?_⟩
      exact honly x (heq ▸ List.mem_append_right _ (List.mem_cons_of_mem _ hx)))
    refine ⟨chunks, hsplit, ?_⟩
    rw [finalReport_of_forall fun c hc => .inl (hchunks c hc)]
    exact hv.symm

/-- If only zeros are reported, nothing is kept. -/
lemma finalReport_of_zeros {n : ℕ} {events : List (Option α)} {chunks : List (List (Option α))}
    (hzero : ∀ x ∈ events, x = none ∨ x = some 0) (hsplit : IsSplitting n events chunks) :
    finalReport 0 chunks = 0 := by
  refine finalReport_of_forall fun c hc => ?_
  rcases lastReportFrom_mem 0 c with hlast | hmem
  · exact .inl hlast
  · have hevent := hsplit.flatten_eq ▸ List.mem_flatten_of_mem hc hmem
    rcases hzero _ hevent with hnone | hlast
    · cases hnone
    · exact .inl (Option.some.inj hlast)

/-- **Exact condition** for what is kept not to depend on the pieces. -/
theorem finalReport_independent_iff {n : ℕ} (hn : 1 ≤ n) (events : List (Option α)) :
    (∀ chunks chunks', IsSplitting n events chunks → IsSplitting n events chunks' →
        finalReport 0 chunks = finalReport 0 chunks') ↔ Independent n events := by
  constructor
  · intro hsame
    by_contra hnot
    obtain ⟨hnonzero, hlasting⟩ := not_or.mp hnot
    have hreport : ∃ x ∈ events, ¬ (x = none ∨ x = some 0) := by
      by_contra hnone
      exact hnonzero fun x hx => by
        by_contra hx'
        exact hnone ⟨x, hx, hx'⟩
    -- with pieces of one element, the last report that is not zero is kept
    obtain ⟨before, x, after, rfl, hx, hafter⟩ := exists_last hreport
    obtain ⟨v, rfl⟩ : ∃ v, x = some v := by
      cases x with
      | none => exact absurd (.inl rfl) hx
      | some v => exact ⟨v, rfl⟩
    have hv : v ≠ 0 := fun h => hx (.inr (congrArg some h))
    obtain ⟨chunks, hsplit, hother⟩ := exists_other_finalReport hn hv hlasting
    refine hother ?_
    rw [hsame chunks _ hsplit (IsSplitting.singletons hn _)]
    exact finalReport_singletons hv fun x hx => not_not.mp (hafter x hx)
  · rintro (hzero | ⟨before, v, after, rfl, hlasting⟩)
    · intro chunks chunks' hsplit hsplit'
      rw [finalReport_of_zeros hzero hsplit, finalReport_of_zeros hzero hsplit']
    · intro chunks chunks' hsplit hsplit'
      rw [hlasting.finalReport_eq hsplit, hlasting.finalReport_eq hsplit']

end Reports

end Workshop.Lib

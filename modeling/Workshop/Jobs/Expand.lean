import Workshop.Lib.Find

/-!
# Variable expansion

`Expand` (`src/Expand.cxx`) replaces each `${KEY}` of a string by the value of the variable, and by
nothing if there is none.  Every string can be written as `t0 ${k1} t1 … ${kn} tn`, and the result
is that text with the values in place of the keys: one substitution from left to right, and the
values are not scanned (`expand_substitutes`).
-/

namespace Workshop.Jobs

open Workshop.Lib

/-! ## The code -/

/-- `StringMap`. -/
abbrev StringMap := List (List Char × List Char)

/-- `emplace`, which keeps what is there. -/
def StringMap.emplace (vars : StringMap) (key value : List Char) : StringMap :=
  if (vars.lookup key).isSome then vars else vars ++ [(key, value)]

/-- What `Expand` appends for a key. -/
def StringMap.value (vars : StringMap) (key : List Char) : List Char := (vars.lookup key).getD []

/-- `"${"`. -/
def dollarBrace : List Char := ['$', '\x7b']

lemma findFrom_bounds {pat src : List Char} {start pos : ℕ} (hpat : pat ≠ [])
    (h : findFrom pat src start = some pos) : start ≤ pos ∧ pos < src.length := by
  obtain ⟨n, hn, rfl⟩ := Option.map_eq_some_iff.mp h
  have hlt := lt_length_of_findIn hpat hn
  rw [List.length_drop] at hlt
  omega

/-- The loop of `Expand`, with what was appended to `p`. -/
def expandFrom (vars : StringMap) (src : List Char) (start : ℕ) (p : List Char) : List Char :=
  match _hpos : findFrom dollarBrace src start with
  | none => p ++ src.drop start
  | some pos =>
    match _hstop : findFrom ['\x7d'] src (pos + 2) with
    | none => p ++ src.drop start
    | some stop =>
      let key := (src.drop (pos + 2)).take (stop - (pos + 2))
      expandFrom vars src (stop + 1) (p ++ (src.drop start).take (pos - start) ++ vars.value key)
  termination_by src.length - start
  decreasing_by
    have hpos := findFrom_bounds (by decide) _hpos
    have hstop := findFrom_bounds (by decide) _hstop
    omega

/-- `Expand`. -/
def expand (vars : StringMap) (src : List Char) : List Char := expandFrom vars src 0 []

/-- `WorkshopOperator::Expand`, for the arguments of a job of a plan. -/
def expandArgs (nodeName jobId planName : List Char) : List (List Char) → List (List Char)
  | [] => []
  | program :: args =>
    let vars : StringMap := (((StringMap.emplace [] ['0'] program).emplace
      ['N', 'O', 'D', 'E'] nodeName).emplace ['J', 'O', 'B'] jobId).emplace
      ['P', 'L', 'A', 'N'] planName
    program :: args.map (expand vars)

/-! ## The substitution -/

/-- `t0 ${k1} t1 … ${kn} tn`, with the keys and what follows each as a list. -/
def assemble (t : List Char) : List (List Char × List Char) → List Char
  | [] => t
  | (key, t') :: parts => t ++ dollarBrace ++ key ++ '\x7d' :: assemble t' parts

/-- `t0 v1 t1 … vn tn`. -/
def substitute (vars : StringMap) (t : List Char) : List (List Char × List Char) → List Char
  | [] => t
  | (key, t') :: parts => t ++ vars.value key ++ substitute vars t' parts

/-- A placeholder that begins in the text does not end there. -/
def Unterminated (t : List Char) : Prop := ∀ u v, t = u ++ dollarBrace ++ v → '\x7d' ∉ v

/-- **The parts of a string**: no text has a placeholder in it, apart from one in the last text that
is not terminated, and no key has a closing brace. -/
def IsDecomposition (t : List Char) : List (List Char × List Char) → Prop
  | [] => Unterminated t
  | (key, t') :: parts => ¬ dollarBrace <:+: t ∧ '\x7d' ∉ key ∧ IsDecomposition t' parts

section Loop

variable {vars : StringMap} {src : List Char} {start : ℕ} (p : List Char)

/-- There is no placeholder any more, or it is not terminated. -/
lemma expandFrom_of_none
    (h : ∀ pos, findFrom dollarBrace src start = some pos →
      findFrom ['\x7d'] src (pos + 2) = none) :
    expandFrom vars src start p = p ++ src.drop start := by
  unfold expandFrom
  split
  · rfl
  · rename_i pos hpos
    split
    · rfl
    · rename_i stop hstop
      rw [h pos hpos] at hstop
      cases hstop

lemma expandFrom_of_some {pos stop : ℕ} (hpos : findFrom dollarBrace src start = some pos)
    (hstop : findFrom ['\x7d'] src (pos + 2) = some stop) :
    expandFrom vars src start p = expandFrom vars src (stop + 1)
      (p ++ (src.drop start).take (pos - start) ++
        vars.value ((src.drop (pos + 2)).take (stop - (pos + 2)))) := by
  rw [expandFrom]
  split
  · rename_i hnone
    rw [hpos] at hnone
    cases hnone
  · rename_i pos' hpos'
    obtain rfl := Option.some.inj (hpos.symm.trans hpos')
    split
    · rename_i hnone
      rw [hstop] at hnone
      cases hnone
    · rename_i stop' hstop'
      obtain rfl := Option.some.inj (hstop.symm.trans hstop')
      rfl

end Loop

lemma findFrom_append (pat pre s : List Char) :
    findFrom pat (pre ++ s) pre.length = (findIn pat s).map (· + pre.length) := by
  rw [findFrom, List.drop_left]

lemma Unterminated.findFrom_eq_none {t : List Char} (h : Unterminated t) (pre : List Char) :
    ∀ pos, findFrom dollarBrace (pre ++ t) pre.length = some pos →
      findFrom ['\x7d'] (pre ++ t) (pos + 2) = none := by
  intro pos hpos
  rw [findFrom_append] at hpos
  obtain ⟨n, hn, rfl⟩ := Option.map_eq_some_iff.mp hpos
  have hrest : '\x7d' ∉ t.drop (n + 2) := h _ _ (eq_append_of_findIn hn)
  have hdrop : (pre ++ t).drop (n + pre.length + 2) = t.drop (n + 2) := by
    rw [Nat.add_right_comm, Nat.add_comm, ← List.drop_drop, List.drop_left]
  rw [findFrom, hdrop, Option.map_eq_none_iff, findIn_eq_none_iff, List.singleton_infix_iff]
  exact hrest

/-- **The loop, from any position.** -/
lemma expandFrom_assemble (vars : StringMap) {t : List Char}
    {parts : List (List Char × List Char)} (h : IsDecomposition t parts) (pre p : List Char) :
    expandFrom vars (pre ++ assemble t parts) pre.length p = p ++ substitute vars t parts := by
  induction parts generalizing t pre p with
  | nil =>
      have hnone := Unterminated.findFrom_eq_none h pre
      have htext : assemble t [] = t := rfl
      rw [htext, expandFrom_of_none p hnone, List.drop_left]
      rfl
  | cons part parts ih =>
      obtain ⟨key, t'⟩ := part
      obtain ⟨ht, hkey, hrest⟩ := h
      set rest := assemble t' parts
      -- what is in front of the key, and in front of what follows it
      have hsrc : pre ++ assemble t ((key, t') :: parts) =
          (pre ++ t ++ dollarBrace) ++ (key ++ '\x7d' :: rest) := by
        simp [assemble, rest]
      have hsrc' : pre ++ assemble t ((key, t') :: parts) =
          (pre ++ t ++ dollarBrace ++ key ++ ['\x7d']) ++ rest := by
        simp [assemble, rest]
      have hpos : findFrom dollarBrace (pre ++ assemble t ((key, t') :: parts)) pre.length =
          some (t.length + pre.length) := by
        rw [findFrom_append, assemble, List.append_assoc, List.append_assoc]
        exact congrArg _ (findIn_append_pair (by decide) ht _)
      have hlength : t.length + pre.length + 2 = (pre ++ t ++ dollarBrace).length := by
        rw [List.length_append, List.length_append, Nat.add_comm t.length]
        rfl
      have hstop : findFrom ['\x7d'] (pre ++ assemble t ((key, t') :: parts))
          (t.length + pre.length + 2) = some (key.length + (t.length + pre.length + 2)) := by
        rw [hlength, hsrc, findFrom_append, findIn_append_singleton hkey]
        rfl
      rw [expandFrom_of_some p hpos hstop]
      have hbefore : ((pre ++ assemble t ((key, t') :: parts)).drop pre.length).take
          (t.length + pre.length - pre.length) = t := by
        rw [List.drop_left, Nat.add_sub_cancel, assemble, List.append_assoc, List.append_assoc,
          List.take_left]
      have hkeyeq : ((pre ++ assemble t ((key, t') :: parts)).drop (t.length + pre.length + 2)).take
          (key.length + (t.length + pre.length + 2) - (t.length + pre.length + 2)) = key := by
        rw [hlength, hsrc, List.drop_left, Nat.add_sub_cancel, List.take_left]
      have hnext : key.length + (t.length + pre.length + 2) + 1 =
          (pre ++ t ++ dollarBrace ++ key ++ ['\x7d']).length := by
        rw [hlength]
        simp [dollarBrace]
        omega
      rw [hbefore, hkeyeq, hnext, hsrc', ih hrest]
      simp [substitute]

lemma exists_isDecomposition (src : List Char) :
    ∃ t parts, IsDecomposition t parts ∧ assemble t parts = src := by
  induction hlength : src.length using Nat.strongRecOn generalizing src with
  | ind k ih =>
      cases hpos : findIn dollarBrace src with
      | none =>
          refine ⟨src, [], fun u v huv => ?_, rfl⟩
          exact absurd ⟨u, v, huv.symm⟩ (findIn_eq_none_iff.mp hpos)
      | some n =>
          have hsrc := eq_append_of_findIn hpos
          cases hstop : findIn ['\x7d'] (src.drop (n + 2)) with
          | none =>
              rw [findIn_eq_none_iff, List.singleton_infix_iff] at hstop
              refine ⟨src, [], fun u v huv hv => hstop ?_, rfl⟩
              -- there is none before, so what follows this one is in what follows the first one
              have hle : n ≤ u.length := by
                by_contra hlt
                refine (findIn_eq_some_iff.mp hpos).2 u.length (Nat.lt_of_not_le hlt) ?_
                rw [huv, List.append_assoc, List.drop_left]
                exact List.prefix_append _ _
              have hv' : v = (src.drop (n + 2)).drop (u.length - n) := by
                have hlen : n + 2 + (u.length - n) = (u ++ dollarBrace).length := by
                  rw [List.length_append]
                  show n + 2 + (u.length - n) = u.length + 2
                  omega
                rw [List.drop_drop, hlen, huv, List.drop_left]
              exact List.mem_of_mem_drop (hv' ▸ hv)
          | some m =>
              have hrest := eq_append_of_findIn hstop
              have hkey := not_infix_take_of_findIn (by decide) hstop
              rw [List.singleton_infix_iff] at hkey
              have hlt := lt_length_of_findIn (by decide) hpos
              obtain ⟨t', parts, hparts, hassemble⟩ := ih
                ((src.drop (n + 2)).drop (m + 1)).length (by
                  rw [List.length_drop, List.length_drop]
                  omega) _ rfl
              refine ⟨src.take n, ((src.drop (n + 2)).take m, t') :: parts,
                ⟨not_infix_take_of_findIn (by decide) hpos, hkey, hparts⟩, ?_⟩
              calc assemble (src.take n) (((src.drop (n + 2)).take m, t') :: parts)
                  = src.take n ++ dollarBrace ++ ((src.drop (n + 2)).take m ++ ['\x7d'] ++
                      (src.drop (n + 2)).drop (m + 1)) := by
                    rw [assemble, hassemble]
                    simp
                _ = src.take n ++ dollarBrace ++ src.drop (n + 2) := congrArg _ hrest.symm
                _ = src := hsrc.symm

/-- **Expansion is one substitution.**  Whatever the variables are, the result for a string with
these parts is the text with the values in place of the keys; and every string has such parts. -/
theorem expand_substitutes (vars : StringMap) :
    (∀ t parts, IsDecomposition t parts →
        expand vars (assemble t parts) = substitute vars t parts) ∧
      ∀ src, ∃ t parts, IsDecomposition t parts ∧ assemble t parts = src :=
  ⟨fun _ _ h => expandFrom_assemble vars h [] [], exists_isDecomposition⟩

/-- The value of a variable has a placeholder in it, which stays as it is. -/
theorem expand_two_variables :
    expand [("JOB".toList, "$\x7bPLAN\x7d".toList), ("PLAN".toList, "nightly".toList)]
        "prefix-$\x7bJOB\x7d-$\x7bPLAN\x7d-suffix".toList =
      "prefix-$\x7bPLAN\x7d-nightly-suffix".toList := by
  have hlast : Unterminated "-suffix".toList := fun u v huv =>
    absurd ⟨u, v, huv.symm⟩ (by decide : ¬ dollarBrace <:+: "-suffix".toList)
  have hparts : IsDecomposition "prefix-".toList
      [("JOB".toList, "-".toList), ("PLAN".toList, "-suffix".toList)] :=
    ⟨by decide, by decide, by decide, by decide, hlast⟩
  exact (expand_substitutes _).1 _ _ hparts

end Workshop.Jobs

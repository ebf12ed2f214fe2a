import Mathlib.Data.Finset.Defs
import Mathlib.Data.List.Sort
import Mathlib.Data.String.Basic

/-!
# Array literals of PostgreSQL

A list of strings as the text of an array, `{"a","b"}`: every element is quoted, with a backslash
in front of quotes and backslashes.  `decode_encode` is the round trip; `encodeSet` encodes a set as
the list of its elements in order, and `mem_decode_encodeSet` finds them again.
-/

namespace Workshop.Lib.PgArray

/-- A character inside of a quoted element. -/
def escape (c : Char) : List Char := if c = '"' ∨ c = '\\' then ['\\', c] else [c]

/-- The elements after the opening brace, up to the closing one. -/
def encodeElements : List (List Char) → List Char
  | [] => ['}']
  | [s] => '"' :: s.flatMap escape ++ ['"', '}']
  | s :: t :: rest => '"' :: s.flatMap escape ++ '"' :: ',' :: encodeElements (t :: rest)

/-- The text of an array. -/
def encode (l : List String) : String := String.ofList ('{' :: encodeElements (l.map String.toList))

/-- Read a quoted element after the opening quote: the element, and what follows the closing one. -/
def unquote : List Char → Option (List Char × List Char)
  | [] => none
  | '"' :: rest => some ([], rest)
  | '\\' :: c :: rest => (unquote rest).map fun p => (c :: p.1, p.2)
  | c :: rest => (unquote rest).map fun p => (c :: p.1, p.2)

/-- Read the elements; the number bounds how many there are. -/
def decodeElements : ℕ → List Char → Option (List (List Char))
  | 0, _ => none
  | n + 1, '"' :: text =>
    match unquote text with
    | some (s, ',' :: rest) => (decodeElements n rest).map fun l => s :: l
    | some (s, ['}']) => some [s]
    | _ => none
  | _ + 1, ['}'] => some []
  | _ + 1, _ => none

/-- The elements of an array. -/
def decode (text : String) : List String :=
  match text.toList with
  | '{' :: rest => ((decodeElements rest.length rest).getD []).map String.ofList
  | _ => []

/-- A quoted element is read back, whatever follows. -/
theorem unquote_escape (s rest : List Char) :
    unquote (s.flatMap escape ++ '"' :: rest) = some (s, rest) := by
  induction s with
  | nil => simp [unquote]
  | cons c s ih =>
      rw [List.flatMap_cons, List.append_assoc]
      by_cases hc : c = '"' ∨ c = '\\'
      · rw [escape, if_pos hc]
        simp [unquote, ih]
      · obtain ⟨hquote, hbackslash⟩ := not_or.mp hc
        rw [escape, if_neg hc, List.singleton_append, unquote.eq_4 c _ hquote fun _ _ heq =>
          absurd heq hbackslash, ih]
        rfl

/-- Every element has its quotes, and there is a closing brace. -/
theorem length_lt_encodeElements (l : List (List Char)) : l.length < (encodeElements l).length := by
  induction l using encodeElements.induct with
  | case1 => simp [encodeElements]
  | case2 s => simp [encodeElements]
  | case3 s t rest ih =>
      simp only [encodeElements, List.length_cons, List.length_append] at ih ⊢
      omega

theorem decodeElements_encodeElements (l : List (List Char)) {n : ℕ} (hn : l.length < n) :
    decodeElements n (encodeElements l) = some l := by
  induction l using encodeElements.induct generalizing n with
  | case1 =>
      obtain ⟨n, rfl⟩ := Nat.exists_eq_add_of_lt hn
      simp [encodeElements, decodeElements]
  | case2 s =>
      obtain ⟨m, rfl⟩ : ∃ m, n = m + 1 := ⟨n - 1, by omega⟩
      rw [encodeElements, List.cons_append, decodeElements, unquote_escape]
      rfl
  | case3 s t rest ih =>
      obtain ⟨m, rfl⟩ : ∃ m, n = m + 1 := ⟨n - 1, by omega⟩
      rw [encodeElements, List.cons_append, decodeElements, unquote_escape]
      simp only [ih (n := m) (by simpa using hn), Option.map_some]

/-- **Round trip.** -/
theorem decode_encode (l : List String) : decode (encode l) = l := by
  have hlength : (l.map String.toList).length < (encodeElements (l.map String.toList)).length :=
    length_lt_encodeElements _
  rw [decode, encode, String.toList_ofList]
  simp only [decodeElements_encodeElements _ hlength, Option.getD_some, List.map_map]
  exact List.map_id'' (fun s => String.ofList_toList) l

/-- The elements of a set, in order. -/
def sorted (s : Finset String) : List String :=
  Quot.liftOn s.val (List.insertionSort (· ≤ ·)) fun l l' h =>
    List.Perm.eq_of_pairwise' (List.pairwise_insertionSort _ l) (List.pairwise_insertionSort _ l')
      ((List.perm_insertionSort _ l).trans (h.trans (List.perm_insertionSort _ l').symm))

theorem mem_sorted {s : Finset String} {a : String} : a ∈ sorted s ↔ a ∈ s := by
  obtain ⟨⟨l⟩, hl⟩ := s
  exact List.mem_insertionSort _

/-- The text of a set. -/
def encodeSet (s : Finset String) : String := encode (sorted s)

theorem mem_decode_encodeSet {s : Finset String} {a : String} :
    a ∈ decode (encodeSet s) ↔ a ∈ s := by
  rw [encodeSet, decode_encode, mem_sorted]

end Workshop.Lib.PgArray

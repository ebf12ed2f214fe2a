import Mathlib.Data.List.Basic
import Mathlib.Tactic.Common

/-!
# Cutting a text encoded in UTF-8

The bytes of a text (`utf8`) can be cut between two characters or inside of one.  Which it is can be
told from the first byte that is cut off: it is the first byte of a character, or it is not
(`utf8_take`).  What is cut inside of a character is not valid, whatever follows that does not
continue the character (`not_isUtf8_of_cut`).
-/

namespace Workshop.Lib

/-- The bytes of a text. -/
def utf8 (text : List Char) : List UInt8 := text.flatMap String.utf8EncodeChar

/-- Valid UTF-8. -/
def IsUtf8 (bytes : List UInt8) : Prop := ∃ text, utf8 text = bytes

/-- Between two characters: if there is a byte at the offset, it is the first one of its
character. -/
def IsBoundary (bytes : List UInt8) (m : ℕ) : Prop := ∀ b, bytes[m]? = some b → b.IsUTF8FirstByte

instance (bytes : List UInt8) (m : ℕ) : Decidable (IsBoundary bytes m) :=
  decidable_of_iff (bytes[m]?.all (·.IsUTF8FirstByte) = true) (by
    unfold IsBoundary
    cases bytes[m]? <;> simp)

@[simp] lemma utf8_nil : utf8 [] = [] := rfl

lemma utf8_cons (c : Char) (text : List Char) :
    utf8 (c :: text) = String.utf8EncodeChar c ++ utf8 text := rfl

lemma utf8_append (text text' : List Char) : utf8 (text ++ text') = utf8 text ++ utf8 text' :=
  List.flatMap_append

lemma IsUtf8.append {bytes bytes' : List UInt8} (h : IsUtf8 bytes) (h' : IsUtf8 bytes') :
    IsUtf8 (bytes ++ bytes') := by
  obtain ⟨text, rfl⟩ := h
  obtain ⟨text', rfl⟩ := h'
  exact ⟨text ++ text', utf8_append text text'⟩

lemma utf8EncodeChar_length_pos (c : Char) : 0 < (String.utf8EncodeChar c).length :=
  List.length_pos_iff.mpr String.utf8EncodeChar_ne_nil

/-- Only the first byte of a character looks like one. -/
lemma isBoundary_utf8EncodeChar_append {c : Char} {n : ℕ} (bytes : List UInt8)
    (hn : n < (String.utf8EncodeChar c).length) :
    IsBoundary (String.utf8EncodeChar c ++ bytes) n ↔ n = 0 := by
  rw [IsBoundary, List.getElem?_append_left hn, List.getElem?_eq_getElem hn]
  constructor
  · intro hfirst
    exact UInt8.isUTF8FirstByte_getElem_utf8EncodeChar.mp (hfirst _ rfl)
  · rintro hzero b hb
    rw [← Option.some.inj hb]
    exact UInt8.isUTF8FirstByte_getElem_utf8EncodeChar.mpr hzero

lemma isBoundary_zero (text : List Char) : IsBoundary (utf8 text) 0 := by
  cases text with
  | nil => exact fun _ h => nomatch h
  | cons c text =>
      rw [utf8_cons, isBoundary_utf8EncodeChar_append _ (utf8EncodeChar_length_pos c)]

/-- **Where a text is cut**: between two characters, or inside of one. -/
theorem utf8_take (text : List Char) (m : ℕ) :
    (IsBoundary (utf8 text) m ∧ ∃ before, before <+: text ∧ (utf8 text).take m = utf8 before) ∨
      (¬ IsBoundary (utf8 text) m ∧ ∃ before c n, 0 < n ∧ n < (String.utf8EncodeChar c).length ∧
        (utf8 text).take m = utf8 before ++ (String.utf8EncodeChar c).take n) := by
  induction text generalizing m with
  | nil => exact .inl ⟨fun b h => absurd h (by simp), [], List.prefix_rfl, List.take_nil⟩
  | cons c text ih =>
      rw [utf8_cons]
      by_cases hm : m < (String.utf8EncodeChar c).length
      · rw [isBoundary_utf8EncodeChar_append _ hm, List.take_append_of_le_length (Nat.le_of_lt hm)]
        rcases Nat.eq_zero_or_pos m with rfl | hpos
        · exact .inl ⟨rfl, [], List.nil_prefix, List.take_zero⟩
        · exact .inr ⟨Nat.ne_of_gt hpos, [], c, m, hpos, hm, rfl⟩
      · -- the cut is in the rest
        have hrest : IsBoundary (String.utf8EncodeChar c ++ utf8 text) m ↔
            IsBoundary (utf8 text) (m - (String.utf8EncodeChar c).length) := by
          rw [IsBoundary, IsBoundary, List.getElem?_append_right (by omega)]
        have htake : (String.utf8EncodeChar c ++ utf8 text).take m = String.utf8EncodeChar c ++
            (utf8 text).take (m - (String.utf8EncodeChar c).length) := by
          rw [List.take_append, List.take_of_length_le (by omega)]
        rw [hrest, htake]
        rcases ih (m - (String.utf8EncodeChar c).length) with
          ⟨hboundary, before, hbefore, heq⟩ | ⟨hinside, before, d, n, hpos, hlt, heq⟩
        · exact .inl ⟨hboundary, c :: before, (List.prefix_cons_inj c).mpr hbefore, by
            rw [heq, utf8_cons]⟩
        · exact .inr ⟨hinside, c :: before, d, n, hpos, hlt, by
            rw [heq, utf8_cons, List.append_assoc]⟩

/-! ## Reading a text -/

/-- The first character can be read off the bytes. -/
lemma utf8EncodeChar_append_inj {c d : Char} {bytes bytes' : List UInt8}
    (h : String.utf8EncodeChar c ++ bytes = String.utf8EncodeChar d ++ bytes') : c = d := by
  have hdecode : ∀ (c : Char) (bytes : List UInt8),
      ByteArray.utf8DecodeChar? (String.utf8EncodeChar c ++ bytes).toByteArray 0 = some c := by
    intro c bytes
    rw [List.toByteArray_append]
    exact ByteArray.utf8DecodeChar?_utf8EncodeChar_append
  exact Option.some.inj ((hdecode c bytes).symm.trans (h ▸ hdecode d bytes'))

lemma exists_rest {before text : List Char} {bytes : List UInt8}
    (h : utf8 text = utf8 before ++ bytes) : ∃ rest, utf8 rest = bytes := by
  induction before generalizing text with
  | nil => exact ⟨text, h⟩
  | cons c before ih =>
      rw [utf8_cons, List.append_assoc] at h
      cases text with
      | nil =>
          have hempty := List.append_eq_nil_iff.mp h.symm
          exact absurd hempty.1 String.utf8EncodeChar_ne_nil
      | cons d text =>
          rw [utf8_cons] at h
          obtain rfl := utf8EncodeChar_append_inj h
          exact ih (List.append_cancel_left h)

/-- **A character that is cut is not valid**, if it is not continued. -/
theorem not_isUtf8_of_cut {before : List Char} {c : Char} {n : ℕ} {rest : List UInt8}
    (hpos : 0 < n) (hn : n < (String.utf8EncodeChar c).length) (hrest : IsBoundary rest 0) :
    ¬ IsUtf8 (utf8 before ++ (String.utf8EncodeChar c).take n ++ rest) := by
  rintro ⟨text, htext⟩
  have hlength : (utf8 before ++ (String.utf8EncodeChar c).take n).length =
      (utf8 before).length + n := by
    rw [List.length_append, List.length_take_of_le (Nat.le_of_lt hn)]
  -- the text can be cut there
  have hboundary : IsBoundary (utf8 text) ((utf8 before).length + n) := by
    rw [htext, ← hlength, IsBoundary, List.getElem?_append_right (Nat.le_refl _), Nat.sub_self]
    exact hrest
  have htake : (utf8 text).take ((utf8 before).length + n) =
      utf8 before ++ (String.utf8EncodeChar c).take n := by
    rw [htext, ← hlength, List.take_left]
  rcases utf8_take text ((utf8 before).length + n) with ⟨_, before', _, heq⟩ | ⟨hinside, _⟩
  · obtain ⟨last, hlast⟩ := exists_rest (heq.symm.trans htake)
    -- so the part of the character is a character itself
    cases last with
    | nil =>
        have hzero := congrArg List.length hlast
        rw [utf8_nil, List.length_nil, List.length_take_of_le (Nat.le_of_lt hn)] at hzero
        omega
    | cons d last =>
        rw [utf8_cons] at hlast
        have hcd : String.utf8EncodeChar d ++ (utf8 last ++ (String.utf8EncodeChar c).drop n) =
            String.utf8EncodeChar c ++ [] := by
          rw [← List.append_assoc, hlast, List.take_append_drop, List.append_nil]
        obtain rfl := utf8EncodeChar_append_inj hcd
        have hle := congrArg List.length hlast
        rw [List.length_append, List.length_take_of_le (Nat.le_of_lt hn)] at hle
        omega
  · exact hinside hboundary

end Workshop.Lib

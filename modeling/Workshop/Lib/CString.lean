import Mathlib.Algebra.Ring.Nat
import Mathlib.Data.Int.Notation
import Mathlib.Data.List.TakeWhile
import Mathlib.Tactic.Common
import Workshop.Lib.Grammar

/-!
# C strings

The functions of the C library that parsers use, on the characters of a NUL-terminated string.
A function that moves a pointer returns the characters that are left.
-/

namespace Workshop.Lib

/-- `isspace`. -/
def isSpace (c : Char) : Bool := c.toNat == 32 || (9 ≤ c.toNat && c.toNat ≤ 13)

/-- Skip every character up to the space. -/
def stripLeft (s : List Char) : List Char := s.dropWhile fun c => 0 < c.toNat && c.toNat ≤ 32

/-- A digit of a number in a base of at most ten. -/
def isDigitIn (base : ℕ) (c : Char) : Bool := 48 ≤ c.toNat && c.toNat < 48 + base

/-- The value of a string of digits. -/
def digitsValue (base : ℕ) (ds : List Char) : ℕ :=
  ds.foldl (fun n c => base * n + (c.toNat - 48)) 0

/-- The sign in front of a number, and the rest. -/
def readSign (s : List Char) : Bool × List Char :=
  match s.dropWhile isSpace with
  | '-' :: u => (true, u)
  | '+' :: u => (false, u)
  | u => (false, u)

/-- `strtoul`: the value and the rest, or `none` if there is no number (`endptr == s`).  A value
that does not fit is `ULONG_MAX`, a negative one wraps around. -/
def strtoul (base : ℕ) (s : List Char) : Option (ℕ × List Char) :=
  let (negative, u) := readSign s
  match u.takeWhile (isDigitIn base) with
  | [] => none
  | ds =>
    let v := digitsValue base ds
    let v := if 2 ^ 64 ≤ v then 2 ^ 64 - 1 else if negative then (2 ^ 64 - v) % 2 ^ 64 else v
    some (v, u.dropWhile (isDigitIn base))

/-- `atoi`, which reads as far as there are digits. -/
def atoi (s : List Char) : ℤ :=
  let (negative, u) := readSign s
  let v : ℤ := digitsValue 10 (u.takeWhile (isDigitIn 10))
  if negative then -v else v

/-! ## Numbers written in decimal -/

/-- The decimal digits of a number. -/
theorem digitsValue_toDigits (n : ℕ) : digitsValue 10 (Nat.toDigits 10 n) = n :=
  Nat.ofDigitChars_ten_toDigits

theorem isDigitIn_of_mem_toDigits {n : ℕ} {c : Char} (hc : c ∈ Nat.toDigits 10 n) :
    isDigitIn 10 c = true := by
  have hdigit := Nat.isDigit_of_mem_toDigits (by omega) (by omega) hc
  simp only [Char.isDigit, Bool.and_eq_true, decide_eq_true_eq, UInt32.le_iff_toNat_le] at hdigit
  have hlo : 48 ≤ c.toNat := hdigit.1
  have hhi : c.toNat ≤ 57 := hdigit.2
  simp only [isDigitIn, Bool.and_eq_true, decide_eq_true_eq]
  omega

/-! ## What `strtoul` reads -/

/-- The texts `strtoul` reads: white space, perhaps a sign (`true` for the minus), and digits. -/
@[ext] structure Numeral (base : ℕ) where
  space : List Char
  sign : Option Bool
  digits : List Char
  isSpace_space : ∀ c ∈ space, isSpace c = true
  isDigitIn_digits : ∀ c ∈ digits, isDigitIn base c = true
  digits_ne_nil : digits ≠ []

/-- The character of a sign. -/
def signChars : Option Bool → List Char
  | none => []
  | some true => ['-']
  | some false => ['+']

/-- The first character is not a digit, so that a number ends there. -/
def EndsNumber (base : ℕ) (rest : List Char) : Prop := ∀ c ∈ rest.head?, isDigitIn base c = false

namespace Numeral

variable {base : ℕ} (n : Numeral base)

/-- The text. -/
def chars : List Char := n.space ++ (signChars n.sign ++ n.digits)

/-- The value `strtoul` returns. -/
def value : ℕ :=
  let v := digitsValue base n.digits
  if 2 ^ 64 ≤ v then 2 ^ 64 - 1 else if n.sign = some true then (2 ^ 64 - v) % 2 ^ 64 else v

/-- There are only digits. -/
def IsPlain : Prop := n.space = [] ∧ n.sign = none

instance : Decidable n.IsPlain := inferInstanceAs (Decidable (_ ∧ _))

/-- Digits, as a numeral. -/
def plain (digits : List Char) (h : ∀ c ∈ digits, isDigitIn base c = true) (hne : digits ≠ []) :
    Numeral base where
  space := []
  sign := none
  digits := digits
  isSpace_space := by simp
  isDigitIn_digits := h
  digits_ne_nil := hne

end Numeral

/-- The sign, if there is one, and the rest. -/
def splitSign : List Char → Option Bool × List Char
  | '-' :: u => (some true, u)
  | '+' :: u => (some false, u)
  | u => (none, u)

/-- `strtoul`, with the text instead of its value. -/
def readNumeral (base : ℕ) (s : List Char) : Option (Numeral base × List Char) :=
  let (sign, u) := splitSign (s.dropWhile isSpace)
  if hne : u.takeWhile (isDigitIn base) = [] then none
  else some
    ({ space := s.takeWhile isSpace
       sign := sign
       digits := u.takeWhile (isDigitIn base)
       isSpace_space := fun _ hc => List.mem_takeWhile_imp hc
       isDigitIn_digits := fun _ hc => List.mem_takeWhile_imp hc
       digits_ne_nil := hne },
      u.dropWhile (isDigitIn base))

section ReadNumeral

variable {base : ℕ}

lemma readSign_eq (s : List Char) :
    readSign s = (decide ((splitSign (s.dropWhile isSpace)).1 = some true),
      (splitSign (s.dropWhile isSpace)).2) := by
  unfold readSign splitSign
  split <;> rfl

/-- **`strtoul` reads a numeral.** -/
theorem strtoul_eq_map (s : List Char) :
    strtoul base s = (readNumeral base s).map fun p => (p.1.value, p.2) := by
  simp only [strtoul, readSign_eq, readNumeral]
  by_cases hne : (splitSign (s.dropWhile isSpace)).2.takeWhile (isDigitIn base) = []
  · simp [hne]
  · obtain ⟨d, ds, hds⟩ := List.exists_cons_of_ne_nil hne
    simp only [hds, dif_neg (List.cons_ne_nil d ds), Option.map_some, Numeral.value,
      decide_eq_true_eq]

lemma isSpace_of_isDigitIn {c : Char} (h : isDigitIn base c = true) : isSpace c = false := by
  simp only [isDigitIn, Bool.and_eq_true, decide_eq_true_eq] at h
  simp only [isSpace, Bool.or_eq_false_iff, beq_eq_false_iff_ne, Bool.and_eq_false_iff,
    decide_eq_false_iff_not]
  omega

lemma splitSign_signChars (sign : Option Bool) {u : List Char}
    (hu : ∀ c ∈ u.head?, isDigitIn base c = true) :
    splitSign (signChars sign ++ u) = (sign, u) := by
  match sign with
  | some true => rfl
  | some false => rfl
  | none =>
      unfold splitSign
      split
      · rename_i u' heq
        have hdigit := hu '-' (by rw [show u = '-' :: u' from heq]; rfl)
        simp [isDigitIn] at hdigit
      · rename_i u' heq
        have hdigit := hu '+' (by rw [show u = '+' :: u' from heq]; rfl)
        simp [isDigitIn] at hdigit
      · rfl

lemma signChars_splitSign (s : List Char) : signChars (splitSign s).1 ++ (splitSign s).2 = s := by
  unfold splitSign
  split <;> rfl

lemma endsNumber_dropWhile (s : List Char) : EndsNumber base (s.dropWhile (isDigitIn base)) := by
  intro c hc
  have hhead := List.head?_dropWhile_not (isDigitIn base) s
  rw [Option.mem_def.mp hc] at hhead
  exact hhead

/-- **A numeral is read from its text**, up to what follows; and what is read is the text. -/
theorem readNumeral_eq_some_iff {s rest : List Char} {n : Numeral base} :
    readNumeral base s = some (n, rest) ↔ s = n.chars ++ rest ∧ EndsNumber base rest := by
  constructor
  · intro h
    simp only [readNumeral] at h
    split at h
    · cases h
    · obtain ⟨rfl, rfl⟩ := Prod.mk.inj (Option.some.inj h)
      refine ⟨?_, endsNumber_dropWhile _⟩
      simp only [Numeral.chars, List.append_assoc, List.takeWhile_append_dropWhile,
        signChars_splitSign]
  · rintro ⟨rfl, hrest⟩
    obtain ⟨d, ds, hdigits⟩ := List.exists_cons_of_ne_nil n.digits_ne_nil
    have hd : isDigitIn base d = true := n.isDigitIn_digits d (by simp [hdigits])
    have hhead : ∀ c ∈ (n.digits ++ rest).head?, isDigitIn base c = true := by
      intro c hc
      rw [hdigits] at hc
      obtain rfl := Option.some.inj hc
      exact hd
    have hspace : ∀ c ∈ (signChars n.sign ++ (n.digits ++ rest)).head?, isSpace c = false := by
      intro c hc
      match hsign : n.sign with
      | none =>
          rw [hsign] at hc
          exact isSpace_of_isDigitIn (hhead c hc)
      | some true =>
          rw [hsign] at hc
          obtain rfl := Option.some.inj hc
          rfl
      | some false =>
          rw [hsign] at hc
          obtain rfl := Option.some.inj hc
          rfl
    have htext : n.chars ++ rest = n.space ++ (signChars n.sign ++ (n.digits ++ rest)) := by
      simp only [Numeral.chars, List.append_assoc]
    obtain ⟨htake, hdrop⟩ := span_append n.isSpace_space hspace
    obtain ⟨htake', hdrop'⟩ := span_append n.isDigitIn_digits hrest
    simp only [readNumeral, htext, hdrop, htake, splitSign_signChars n.sign hhead, htake', hdrop',
      dif_neg n.digits_ne_nil]

theorem strtoul_eq_some_iff {s rest : List Char} {v : ℕ} :
    strtoul base s = some (v, rest) ↔
      ∃ n : Numeral base, n.value = v ∧ s = n.chars ++ rest ∧ EndsNumber base rest := by
  rw [strtoul_eq_map, Option.map_eq_some_iff]
  constructor
  · rintro ⟨⟨n, rest'⟩, hread, heq⟩
    obtain ⟨rfl, rfl⟩ := Prod.mk.inj heq
    exact ⟨n, rfl, readNumeral_eq_some_iff.mp hread⟩
  · rintro ⟨n, rfl, htext⟩
    exact ⟨(n, rest), readNumeral_eq_some_iff.mpr htext, rfl⟩

/-- A text has at most one numeral in front. -/
theorem Numeral.eq_of_append {n n' : Numeral base} {rest rest' : List Char}
    (h : n.chars ++ rest = n'.chars ++ rest') (hrest : EndsNumber base rest)
    (hrest' : EndsNumber base rest') : n = n' ∧ rest = rest' := by
  have hread := readNumeral_eq_some_iff.mpr ⟨h, hrest'⟩
  rw [readNumeral_eq_some_iff.mpr ⟨rfl, hrest⟩] at hread
  exact Prod.mk.inj (Option.some.inj hread)

theorem Numeral.mem_chars {n : Numeral base} {c : Char} (hc : c ∈ n.chars) :
    isSpace c = true ∨ c = '-' ∨ c = '+' ∨ isDigitIn base c = true := by
  rw [Numeral.chars, List.mem_append, List.mem_append] at hc
  rcases hc with hspace | hsign | hdigit
  · exact .inl (n.isSpace_space c hspace)
  · match hs : n.sign with
    | none => simp [hs, signChars] at hsign
    | some true =>
        rw [hs] at hsign
        exact .inr (.inl (List.mem_singleton.mp hsign))
    | some false =>
        rw [hs] at hsign
        exact .inr (.inr (.inl (List.mem_singleton.mp hsign)))
  · exact .inr (.inr (.inr (n.isDigitIn_digits c hdigit)))

theorem Numeral.toNat_ne_zero (n : Numeral base) : ∀ c ∈ n.chars, c.toNat ≠ 0 := by
  intro c hc
  rcases n.mem_chars hc with hspace | rfl | rfl | hdigit
  · simp only [isSpace, Bool.or_eq_true, beq_iff_eq, Bool.and_eq_true, decide_eq_true_eq] at hspace
    omega
  · decide
  · decide
  · simp only [isDigitIn, Bool.and_eq_true, decide_eq_true_eq] at hdigit
    omega

/-- The value of plain digits that are not too many. -/
theorem Numeral.value_of_isPlain {n : Numeral base} {limit value : ℕ} (hn : n.IsPlain)
    (hlimit : limit < 2 ^ 64 - 1) :
    n.value = value ∧ value ≤ limit ↔ digitsValue base n.digits = value ∧ value ≤ limit := by
  have hsign : n.sign ≠ some true := by simp [hn.2]
  unfold Numeral.value
  dsimp only
  rw [if_neg hsign]
  split
  · constructor <;> rintro ⟨rfl, hle⟩ <;> omega
  · exact Iff.rfl

/-- `strtoul` reads a number back from its decimal digits, up to what follows. -/
theorem strtoul_toDigits {n : ℕ} (hn : n < 2 ^ 64) {c : Char} (hc : isDigitIn 10 c = false)
    (rest : List Char) : strtoul 10 (Nat.toDigits 10 n ++ c :: rest) = some (n, c :: rest) := by
  have hends : EndsNumber 10 (c :: rest) := by
    intro d hd
    obtain rfl := Option.some.inj hd
    exact hc
  refine strtoul_eq_some_iff.mpr ⟨Numeral.plain (Nat.toDigits 10 n)
    (fun _ hd => isDigitIn_of_mem_toDigits hd) Nat.toDigits_ne_nil, ?_, rfl, hends⟩
  have hfits : ¬ 2 ^ 64 ≤ digitsValue 10 (Nat.toDigits 10 n) := by
    rw [digitsValue_toDigits]
    omega
  exact (if_neg hfits).trans (digitsValue_toDigits n)

end ReadNumeral

end Workshop.Lib

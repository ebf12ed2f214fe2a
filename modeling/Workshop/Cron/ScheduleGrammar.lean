import Workshop.Cron.ScheduleParser
import Workshop.Lib.Except
import Workshop.Lib.Grammar

/-!
# The language of cron schedules

What the constructor of `CronSchedule` reads, as syntax trees: a value is a number or a name, a list
element is `*` or a value or a range of values, perhaps with a step, and a schedule has five fields
with a comma-separated list each.

The parser takes a schedule exactly if it can be read as such a tree (`parseFields_eq_ok_iff`), and
there is only one tree for each text (`lineGrammar_unambiguous`).  `strtoul` skips white space and
takes signs, names are looked up for steps as well, and the space between fields is skipped but not
required.
-/

namespace Workshop.Cron

open Workshop.Lib

/-! ## Syntax trees -/

/-- A number or a name. -/
inductive Value
  | number (n : Numeral 10)
  | name (letters : List Char)

/-- All of the field, or a value, perhaps with a second one for a range. -/
inductive Bounds
  | star
  | span (first : Value) (last : Option Value)

/-- An element of a list. -/
structure Element where
  bounds : Bounds
  step : Option Value

/-- A list with commas. -/
structure Entry where
  first : Element
  more : List Element

/-- The space that is skipped and a list. -/
structure Field where
  space : List Char
  entry : Entry

/-- A schedule with five fields. -/
structure Line where
  minutes : Field
  hours : Field
  daysOfMonth : Field
  months : Field
  daysOfWeek : Field
  trailing : List Char

/-- All elements of a list. -/
def Entry.elements (e : Entry) : List Element := e.first :: e.more

/-- The value of a name in any letter case. -/
def symbolValue (dictionary : List (String × ℕ)) (letters : List Char) : Option ℕ :=
  (dictionary.find? fun e => letters.map Char.toLower == e.1.toList).map Prod.snd

/-- What `ParseNumber` returns. -/
def Value.value (dictionary : List (String × ℕ)) : Value → ℕ
  | .number n => n.value
  | .name letters => (symbolValue dictionary letters).getD 0

section Eval

variable (MIN MAX : ℕ) (eval : Value → ℕ)

/-- The first position. -/
def Bounds.first : Bounds → ℕ
  | .star => MIN
  | .span v _ => eval v

/-- The last position. -/
def Bounds.last : Bounds → ℕ
  | .star => MAX
  | .span v w => eval (w.getD v)

/-- The step, which is one unless there is one. -/
def Element.stepBy (e : Element) : ℕ := e.step.elim 1 eval

end Eval

def Bounds.isStar : Bounds → Bool
  | .star => true
  | .span _ _ => false

/-- There is just a `*`. -/
def Element.isWildcard (e : Element) : Bool := e.bounds.isStar && e.step.isNone

/-- The effect of a list element on the bit set and the `wildcard` flag. -/
def Element.add {MIN MAX : ℕ} (dictionary : List (String × ℕ)) (r : RangeBitSet MIN MAX × Bool)
    (e : Element) : RangeBitSet MIN MAX × Bool :=
  (makeRangeBitSet r.1 (e.bounds.first MIN (Value.value dictionary))
      (e.bounds.last MAX (Value.value dictionary)) (e.stepBy (Value.value dictionary)),
    r.2 || e.isWildcard)

/-- The effect of a list. -/
def Entry.add {MIN MAX : ℕ} (dictionary : List (String × ℕ)) (r : RangeBitSet MIN MAX × Bool)
    (e : Entry) : RangeBitSet MIN MAX × Bool :=
  e.elements.foldl (Element.add dictionary) r

/-! ## What is read -/

/-- The characters `StripLeft` skips. -/
def isStripped (c : Char) : Bool := 0 < c.toNat && c.toNat ≤ 32

/-- A number between the bounds, up to a character that is no digit; or a name. -/
def valueGrammar (MIN MAX : ℕ) (dictionary : List (String × ℕ)) : Grammar Char Value where
  chars
    | .number n => n.chars
    | .name letters => letters
  Fits
    | .number n, rest => (MIN ≤ n.value ∧ n.value ≤ MAX) ∧ EndsNumber 10 rest
    | .name letters, _ => letters.length = 3 ∧ (symbolValue dictionary letters).isSome

section Grammars

variable (MIN MAX : ℕ) (dictionary : List (String × ℕ))

/-- A value and perhaps a second one. -/
def spanGrammar : Grammar Char (Value × Option Value) :=
  (valueGrammar MIN MAX dictionary).seq ((valueGrammar MIN MAX dictionary).optional '-')

/-- The bounds of an element. -/
def boundsGrammar : Grammar Char Bounds where
  chars
    | .star => ['*']
    | .span v w => (spanGrammar MIN MAX dictionary).chars (v, w)
  Fits
    | .star, _ => True
    | .span v w, rest => (spanGrammar MIN MAX dictionary).Fits (v, w) rest ∧
        v.value dictionary ≤ (w.getD v).value dictionary

/-- A list element. -/
def elementGrammar : Grammar Char Element :=
  ((boundsGrammar MIN MAX dictionary).seq ((valueGrammar 1 MAX dictionary).optional '/')).comap
    fun e => (e.bounds, e.step)

/-- A list. -/
def entryGrammar : Grammar Char Entry :=
  ((elementGrammar MIN MAX dictionary).seq ((elementGrammar MIN MAX dictionary).many ',')).comap
    fun e => (e.first, e.more)

/-- A field. -/
def fieldGrammar : Grammar Char Field :=
  ((Grammar.run isStripped).seq (entryGrammar MIN MAX dictionary)).comap fun f => (f.space, f.entry)

end Grammars

/-- **The schedules the parser takes.** -/
def lineGrammar : Grammar Char Line :=
  ((fieldGrammar 0 59 []).seq ((fieldGrammar 0 23 []).seq ((fieldGrammar 1 31 []).seq
    ((fieldGrammar 1 12 monthNames).seq ((fieldGrammar 0 7 daysOfWeekNames).seq
      (Grammar.run isStripped)))))).comap
    fun t => (t.minutes, t.hours, t.daysOfMonth, t.months, t.daysOfWeek, t.trailing)

/-! ## Values -/

/-- What is relied on about the names. -/
def IsDictionary (dictionary : List (String × ℕ)) : Prop :=
  ∀ e ∈ dictionary, e.1.toList.length = 3 ∧ ∀ c ∈ e.1.toList, 65 ≤ c.toNat

lemma isDictionary_of_all {dictionary : List (String × ℕ)}
    (h : (dictionary.all fun e => e.1.toList.length == 3 && e.1.toList.all (65 ≤ ·.toNat)) = true) :
    IsDictionary dictionary := by
  intro e he
  have hentry := List.all_eq_true.mp h e he
  rw [Bool.and_eq_true, beq_iff_eq, List.all_eq_true] at hentry
  exact ⟨hentry.1, fun c hc => of_decide_eq_true (hentry.2 c hc)⟩

lemma isDictionary_nil : IsDictionary [] := isDictionary_of_all rfl

lemma isDictionary_monthNames : IsDictionary monthNames := isDictionary_of_all (by decide)

lemma isDictionary_daysOfWeekNames : IsDictionary daysOfWeekNames := isDictionary_of_all (by decide)

section Values

variable {MIN MAX : ℕ} {dictionary : List (String × ℕ)} {s rest letters : List Char} {v : ℕ}

lemma symbolValue_eq_some (h : symbolValue dictionary letters = some v) :
    ∃ e ∈ dictionary, letters.map Char.toLower = e.1.toList ∧ e.2 = v := by
  obtain ⟨e, hfind, rfl⟩ := Option.map_eq_some_iff.mp h
  have hfound := List.find?_some hfind
  exact ⟨e, List.mem_of_find?_eq_some hfind, by simpa using hfound, rfl⟩

lemma length_of_symbolValue (hd : IsDictionary dictionary)
    (h : symbolValue dictionary letters = some v) : letters.length = 3 := by
  obtain ⟨e, he, hletters, -⟩ := symbolValue_eq_some h
  rw [← List.length_map (f := Char.toLower), hletters, (hd e he).1]

/-- A name starts with a letter, and letters come after the digits. -/
lemma exists_letter_of_symbolValue (hd : IsDictionary dictionary)
    (h : symbolValue dictionary letters = some v) : ∃ c cs, letters = c :: cs ∧ 65 ≤ c.toNat := by
  have hlength := length_of_symbolValue hd h
  obtain ⟨e, he, hletters, -⟩ := symbolValue_eq_some h
  cases letters with
  | nil => cases hlength
  | cons c cs =>
      refine ⟨c, cs, rfl, ?_⟩
      have hlower : c.toLower ∈ e.1.toList := hletters ▸ List.mem_map_of_mem List.mem_cons_self
      have hle := (hd e he).2 _ hlower
      by_contra hlt
      have hsame : c.toLower = c := by
        unfold Char.toLower
        rw [dif_neg]
        rintro ⟨hA, -⟩
        have hA : 65 ≤ c.toNat := hA
        omega
      rw [hsame] at hle
      exact hlt hle

lemma lookupCronSymbol_eq (hd : IsDictionary dictionary) (s : List Char) :
    lookupCronSymbol s dictionary =
      (symbolValue dictionary (s.take 3)).map fun v => (v, s.drop 3) := by
  have hlength : ∀ e ∈ dictionary, e.1.length = 3 := fun e he => (hd e he).1
  clear hd
  unfold lookupCronSymbol symbolValue
  induction dictionary with
  | nil => rfl
  | cons e dictionary ih =>
      rw [List.find?_cons, List.find?_cons, hlength e List.mem_cons_self]
      split
      · simp [hlength e List.mem_cons_self]
      · exact ih fun e he => hlength e (List.mem_cons_of_mem _ he)

lemma lookupCronSymbol_eq_some_iff (hd : IsDictionary dictionary) :
    lookupCronSymbol s dictionary = some (v, rest) ↔
      ∃ letters, symbolValue dictionary letters = some v ∧ s = letters ++ rest := by
  rw [lookupCronSymbol_eq hd, Option.map_eq_some_iff]
  constructor
  · rintro ⟨w, hw, heq⟩
    obtain ⟨rfl, rfl⟩ := Prod.mk.inj heq
    exact ⟨s.take 3, hw, (List.take_append_drop 3 s).symm⟩
  · rintro ⟨letters, hw, rfl⟩
    have hlength := length_of_symbolValue hd hw
    refine ⟨v, ?_, ?_⟩
    · rw [List.take_left' hlength]
      exact hw
    · rw [List.drop_left' hlength]

/-- A number does not start like a name. -/
lemma toNat_lt_of_mem_chars {n : Numeral 10} {c : Char} (hc : c ∈ n.chars) : c.toNat < 58 := by
  rcases n.mem_chars hc with hspace | rfl | rfl | hdigit
  · simp only [isSpace, Bool.or_eq_true, beq_iff_eq, Bool.and_eq_true, decide_eq_true_eq] at hspace
    omega
  · decide
  · decide
  · simp only [isDigitIn, Bool.and_eq_true, decide_eq_true_eq] at hdigit
    omega

/-- The first character of a number. -/
lemma exists_cons_chars (n : Numeral 10) : ∃ c cs, n.chars = c :: cs ∧ c ∈ n.chars := by
  have hne : n.chars ≠ [] := by
    intro hnil
    rw [Numeral.chars, List.append_eq_nil_iff, List.append_eq_nil_iff] at hnil
    exact n.digits_ne_nil hnil.2.2
  obtain ⟨c, cs, hchars⟩ := List.exists_cons_of_ne_nil hne
  refine ⟨c, cs, hchars, ?_⟩
  rw [hchars]
  exact List.mem_cons_self

lemma chars_append_ne_of_letter {c : Char} (hc : 65 ≤ c.toNat) (n : Numeral 10) :
    n.chars ++ rest ≠ c :: s := by
  intro heq
  obtain ⟨d, ds, hchars, hmem⟩ := exists_cons_chars n
  rw [hchars] at heq
  obtain rfl : d = c := (List.cons.inj heq).1
  have hlt := toNat_lt_of_mem_chars hmem
  omega

/-- A name is not a number. -/
lemma chars_append_ne (hd : IsDictionary dictionary) (h : symbolValue dictionary letters = some v)
    (n : Numeral 10) (rest' : List Char) : letters ++ rest ≠ n.chars ++ rest' := by
  obtain ⟨c, cs, rfl, hc⟩ := exists_letter_of_symbolValue hd h
  exact (chars_append_ne_of_letter hc n).symm

/-- **What `ParseNumber` takes.** -/
theorem parseNumber_eq_ok_iff (hd : IsDictionary dictionary) :
    parseNumber MIN MAX dictionary s = .ok (v, rest) ↔
      ∃ x, (valueGrammar MIN MAX dictionary).Splits x s rest ∧ x.value dictionary = v := by
  unfold parseNumber
  constructor
  · intro h
    split at h
    · split at h
      · rename_i r hlookup
        obtain rfl := Except.ok.inj h
        obtain ⟨letters, hvalue, rfl⟩ := (lookupCronSymbol_eq_some_iff hd).mp hlookup
        refine ⟨.name letters, ⟨rfl, length_of_symbolValue hd hvalue, ?_⟩, ?_⟩
        · rw [hvalue]
          rfl
        · show (symbolValue dictionary letters).getD 0 = v
          rw [hvalue]
          rfl
      · cases h
    · rename_i value rest' hread
      split at h
      · cases h
      · rename_i hmin
        split at h
        · cases h
        · rename_i hmax
          obtain ⟨rfl, rfl⟩ := Prod.mk.inj (Except.ok.inj h)
          obtain ⟨n, rfl, hs, hends⟩ := strtoul_eq_some_iff.mp hread
          exact ⟨.number n, ⟨hs, ⟨Nat.le_of_not_lt hmin, Nat.le_of_not_lt hmax⟩, hends⟩, rfl⟩
  · rintro ⟨x, ⟨hs, hfits⟩, rfl⟩
    cases x with
    | number n =>
        obtain ⟨⟨hmin, hmax⟩, hends⟩ := hfits
        have hread : strtoul 10 s = some (n.value, rest) :=
          strtoul_eq_some_iff.mpr ⟨n, rfl, hs, hends⟩
        simp only [hread, if_neg (Nat.not_lt.mpr hmin), if_neg (Nat.not_lt.mpr hmax)]
        rfl
    | name letters =>
        obtain ⟨w, hw⟩ := Option.isSome_iff_exists.mp hfits.2
        have hread : strtoul 10 s = none := by
          rw [Option.eq_none_iff_forall_ne_some]
          rintro ⟨u, rest'⟩ hsome
          obtain ⟨n, -, hs', -⟩ := strtoul_eq_some_iff.mp hsome
          exact chars_append_ne hd hw n rest' (hs.symm.trans hs')
        have hlookup : lookupCronSymbol s dictionary = some (w, rest) :=
          (lookupCronSymbol_eq_some_iff hd).mpr ⟨letters, hw, hs⟩
        simp only [hread, hlookup]
        show Except.ok (w, rest) = .ok ((symbolValue dictionary letters).getD 0, rest)
        rw [hw]
        rfl

lemma valueGrammar_unambiguous (hd : IsDictionary dictionary) :
    (valueGrammar MIN MAX dictionary).Unambiguous := by
  rintro (n | letters) (n' | letters') s rest rest' ⟨rfl, hfits⟩ ⟨hs, hfits'⟩
  · obtain ⟨rfl, hrest⟩ := Numeral.eq_of_append hs hfits.2 hfits'.2
    exact ⟨rfl, hrest⟩
  · obtain ⟨w, hw⟩ := Option.isSome_iff_exists.mp hfits'.2
    exact absurd hs.symm (chars_append_ne hd hw n rest)
  · obtain ⟨w, hw⟩ := Option.isSome_iff_exists.mp hfits.2
    exact absurd hs (chars_append_ne hd hw n' rest')
  · obtain ⟨rfl, hrest⟩ := List.append_inj hs (hfits.1.trans hfits'.1.symm)
    exact ⟨rfl, hrest⟩

/-- The characters a number can have. -/
def isNumberChar (c : Char) : Bool := isSpace c || c == '-' || c == '+' || isDigitIn 10 c

lemma isNumberChar_of_mem {n : Numeral 10} {c : Char} (hc : c ∈ n.chars) :
    isNumberChar c = true := by
  simpa [isNumberChar, or_assoc] using n.mem_chars hc

/-- A value starts like a number or like a name. -/
lemma Value.head_chars (hd : IsDictionary dictionary) {x : Value}
    (hx : (valueGrammar MIN MAX dictionary).Fits x rest) :
    ∃ c cs, (valueGrammar MIN MAX dictionary).chars x = c :: cs ∧
      (isNumberChar c = true ∨ 65 ≤ c.toNat) := by
  cases x with
  | number n =>
      obtain ⟨c, cs, hchars, hmem⟩ := exists_cons_chars n
      exact ⟨c, cs, hchars, .inl (isNumberChar_of_mem hmem)⟩
  | name letters =>
      obtain ⟨w, hw⟩ := Option.isSome_iff_exists.mp hx.2
      obtain ⟨c, cs, rfl, hc⟩ := exists_letter_of_symbolValue hd hw
      exact ⟨c, cs, rfl, .inr hc⟩

lemma not_splits_cons (hd : IsDictionary dictionary) {c : Char} (hnumber : isNumberChar c = false)
    (hname : c.toNat < 65) (x : Value) :
    ¬ (valueGrammar MIN MAX dictionary).Splits x (c :: s) rest := by
  rintro ⟨hs, hfits⟩
  obtain ⟨d, ds, hchars, hd⟩ := Value.head_chars hd hfits
  rw [hchars] at hs
  obtain rfl : c = d := (List.cons.inj hs).1
  rcases hd with hd | hd
  · rw [hnumber] at hd
    cases hd
  · omega

lemma not_splits_star (hd : IsDictionary dictionary) (x : Value) :
    ¬ (valueGrammar MIN MAX dictionary).Splits x ('*' :: s) rest :=
  not_splits_cons hd (by decide) (by decide) x

end Values

/-! ## List elements -/

section Elements

variable {MIN MAX : ℕ} {dictionary : List (String × ℕ)} {s rest : List Char}

lemma boundsGrammar_splits_span {v : Value} {w : Option Value} :
    (boundsGrammar MIN MAX dictionary).Splits (.span v w) s rest ↔
      (spanGrammar MIN MAX dictionary).Splits (v, w) s rest ∧
        v.value dictionary ≤ (w.getD v).value dictionary := by
  constructor
  · rintro ⟨hs, hfits, hle⟩
    exact ⟨⟨hs, hfits⟩, hle⟩
  · rintro ⟨⟨hs, hfits⟩, hle⟩
    exact ⟨hs, hfits, hle⟩

/-- What `parseBounds` returns for its bounds, which depends on what follows. -/
def Bounds.result (MIN MAX : ℕ) (dictionary : List (String × ℕ)) (wildcard : Bool)
    (rest : List Char) (b : Bounds) : ℕ × ℕ × Bool :=
  (b.first MIN (Value.value dictionary), b.last MAX (Value.value dictionary),
    wildcard || (b.isStar && rest.head? != some '/'))

lemma Bounds.result_span {wildcard : Bool} (v : Value) (w : Option Value) :
    (Bounds.span v w).result MIN MAX dictionary wildcard rest =
      (v.value dictionary, (w.getD v).value dictionary, wildcard) := by
  simp [Bounds.result, Bounds.first, Bounds.last, Bounds.isStar]

/-- What the parser takes for bounds are bounds. -/
lemma splits_of_parseBounds (hd : IsDictionary dictionary) {wildcard : Bool} {r : ℕ × ℕ × Bool}
    (h : parseBounds MIN MAX dictionary wildcard s = .ok (r, rest)) :
    ∃ b, (boundsGrammar MIN MAX dictionary).Splits b s rest ∧
      r = b.result MIN MAX dictionary wildcard rest := by
  unfold parseBounds at h
  split at h
  · obtain ⟨rfl, rfl⟩ := Prod.mk.inj (Except.ok.inj h)
    exact ⟨.star, ⟨rfl, trivial⟩, rfl⟩
  · obtain ⟨⟨first, mid⟩, hfirst, hmore⟩ := bind_eq_ok_iff.mp h
    obtain ⟨v, hv, rfl⟩ := (parseNumber_eq_ok_iff hd).mp hfirst
    dsimp only at hmore
    split at hmore
    · obtain ⟨⟨last, rest'⟩, hlast, hrange⟩ := bind_eq_ok_iff.mp hmore
      obtain ⟨w, hw, rfl⟩ := (parseNumber_eq_ok_iff hd).mp hlast
      dsimp only at hrange
      split at hrange
      · cases hrange
      · rename_i hle
        obtain ⟨rfl, rfl⟩ := Prod.mk.inj (Except.ok.inj hrange)
        refine ⟨.span v (some w), boundsGrammar_splits_span.mpr ⟨?_, Nat.le_of_not_lt hle⟩,
          (Bounds.result_span v (some w)).symm⟩
        exact Grammar.seq_splits.mpr ⟨_, hv, Grammar.optional_splits_some.mpr ⟨_, rfl, hw⟩⟩
    · rename_i hminus
      obtain ⟨rfl, rfl⟩ := Prod.mk.inj (Except.ok.inj hmore)
      refine ⟨.span v none, boundsGrammar_splits_span.mpr ⟨?_, le_rfl⟩,
        (Bounds.result_span v none).symm⟩
      refine Grammar.seq_splits.mpr ⟨_, hv, ?_⟩
      exact Grammar.optional_splits_none.mpr ⟨rfl, head?_ne_some hminus⟩

/-- The parser takes all bounds. -/
lemma parseBounds_of_splits (hd : IsDictionary dictionary) (wildcard : Bool) {b : Bounds}
    (hb : (boundsGrammar MIN MAX dictionary).Splits b s rest) :
    parseBounds MIN MAX dictionary wildcard s =
      .ok (b.result MIN MAX dictionary wildcard rest, rest) := by
  cases b with
  | star =>
      rw [hb.1]
      rfl
  | span v w =>
      obtain ⟨hspan, hle⟩ := boundsGrammar_splits_span.mp hb
      obtain ⟨mid, hv, hw⟩ := Grammar.seq_splits.mp hspan
      unfold parseBounds
      split
      · exact absurd hv (not_splits_star hd v)
      · refine bind_eq_ok_iff.mpr
          ⟨(v.value dictionary, mid), (parseNumber_eq_ok_iff hd).mpr ⟨v, hv, rfl⟩, ?_⟩
        rw [Bounds.result_span]
        cases w with
        | none =>
            obtain ⟨rfl, hminus⟩ := Grammar.optional_splits_none.mp hw
            dsimp only
            split
            · exact absurd rfl hminus
            · rfl
        | some w =>
            obtain ⟨mid', rfl, hlast⟩ := Grammar.optional_splits_some.mp hw
            have hle : ¬ w.value dictionary < v.value dictionary := Nat.not_lt.mpr hle
            refine bind_eq_ok_iff.mpr
              ⟨(w.value dictionary, rest), (parseNumber_eq_ok_iff hd).mpr ⟨w, hlast, rfl⟩, ?_⟩
            dsimp only
            rw [if_neg hle]
            rfl

/-- The step the parser takes. -/
theorem parseStep_eq_ok_iff (hd : IsDictionary dictionary) {step : ℕ} :
    parseStep MAX dictionary s = .ok (step, rest) ↔
      ∃ x, ((valueGrammar 1 MAX dictionary).optional '/').Splits x s rest ∧
        x.elim 1 (Value.value dictionary) = step := by
  unfold parseStep
  split
  · rename_i s'
    rw [parseNumber_eq_ok_iff hd]
    constructor
    · rintro ⟨x, hx, rfl⟩
      exact ⟨some x, Grammar.optional_splits_some.mpr ⟨s', rfl, hx⟩, rfl⟩
    · rintro ⟨x, hx, rfl⟩
      cases x with
      | none =>
          obtain ⟨rfl, hslash⟩ := Grammar.optional_splits_none.mp hx
          exact absurd rfl hslash
      | some x =>
          obtain ⟨s'', heq, hx⟩ := Grammar.optional_splits_some.mp hx
          obtain rfl := (List.cons.inj heq).2
          exact ⟨x, hx, rfl⟩
  · rename_i hslash
    constructor
    · intro h
      obtain ⟨rfl, rfl⟩ := Prod.mk.inj (Except.ok.inj h)
      exact ⟨none, Grammar.optional_splits_none.mpr ⟨rfl, head?_ne_some hslash⟩, rfl⟩
    · rintro ⟨x, hx, rfl⟩
      cases x with
      | none =>
          obtain ⟨rfl, -⟩ := Grammar.optional_splits_none.mp hx
          rfl
      | some x =>
          obtain ⟨s', rfl, -⟩ := Grammar.optional_splits_some.mp hx
          exact absurd rfl (hslash s')

/-- A step is there exactly if a slash is. -/
lemma head?_of_optional {x : Option Value}
    (h : ((valueGrammar 1 MAX dictionary).optional '/').Splits x s rest) :
    (s.head? != some '/') = x.isNone := by
  cases x with
  | none =>
      obtain ⟨rfl, hslash⟩ := Grammar.optional_splits_none.mp h
      simp [hslash]
  | some x =>
      obtain ⟨s', rfl, -⟩ := Grammar.optional_splits_some.mp h
      rfl

/-- **The list elements the parser takes**, and their effect. -/
theorem parseNumericRangeBitSet_eq_ok_iff (hd : IsDictionary dictionary) {b : RangeBitSet MIN MAX}
    {wildcard : Bool} {r : RangeBitSet MIN MAX × Bool} :
    parseNumericRangeBitSet unchecked dictionary b wildcard s = .ok (r, rest) ↔
      ∃ e, (elementGrammar MIN MAX dictionary).Splits e s rest ∧
        Element.add dictionary (b, wildcard) e = r := by
  unfold parseNumericRangeBitSet
  rw [bind_eq_ok_iff]
  constructor
  · rintro ⟨⟨r', mid⟩, hread, hmore⟩
    obtain ⟨bounds, hbounds, rfl⟩ := splits_of_parseBounds hd hread
    obtain ⟨⟨step, rest'⟩, hstep, hresult⟩ := bind_eq_ok_iff.mp hmore
    obtain ⟨x, hx, rfl⟩ := (parseStep_eq_ok_iff hd).mp hstep
    obtain ⟨rfl, rfl⟩ := Prod.mk.inj (Except.ok.inj hresult)
    refine ⟨⟨bounds, x⟩, Grammar.seq_splits.mpr ⟨mid, hbounds, hx⟩, ?_⟩
    rw [head?_of_optional hx]
    rfl
  · rintro ⟨⟨bounds, x⟩, he, rfl⟩
    obtain ⟨mid, hbounds, hx⟩ := Grammar.seq_splits.mp he
    refine ⟨_, parseBounds_of_splits hd wildcard hbounds, ?_⟩
    refine bind_eq_ok_iff.mpr ⟨_, (parseStep_eq_ok_iff hd).mpr ⟨x, hx, rfl⟩, ?_⟩
    dsimp only [Bounds.result]
    rw [head?_of_optional hx]
    rfl

lemma elementGrammar_unambiguous (hd : IsDictionary dictionary) :
    (elementGrammar MIN MAX dictionary).Unambiguous := by
  have hbounds : (boundsGrammar MIN MAX dictionary).Unambiguous := by
    have hspan : (spanGrammar MIN MAX dictionary).Unambiguous :=
      (valueGrammar_unambiguous hd).seq ((valueGrammar_unambiguous hd).optional '-')
    rintro (_ | ⟨v, w⟩) (_ | ⟨v', w'⟩) s rest rest' h h'
    · exact ⟨rfl, (List.cons.inj (h.1.symm.trans h'.1)).2⟩
    · obtain ⟨mid, hv, -⟩ := Grammar.seq_splits.mp (boundsGrammar_splits_span.mp h').1
      rw [h.1] at hv
      exact absurd hv (not_splits_star hd v')
    · obtain ⟨mid, hv, -⟩ := Grammar.seq_splits.mp (boundsGrammar_splits_span.mp h).1
      rw [h'.1] at hv
      exact absurd hv (not_splits_star hd v)
    · obtain ⟨heq, hrest⟩ :=
        hspan (boundsGrammar_splits_span.mp h).1 (boundsGrammar_splits_span.mp h').1
      obtain ⟨rfl, rfl⟩ := Prod.mk.inj heq
      exact ⟨rfl, hrest⟩
  refine (hbounds.seq ((valueGrammar_unambiguous hd).optional '/')).comap ?_
  rintro ⟨b, x⟩ ⟨b', x'⟩ heq
  obtain ⟨rfl, rfl⟩ := Prod.mk.inj heq
  rfl

/-! ## Fields -/

/-- **The lists the parser takes**, if it may take as many elements as there are characters. -/
theorem parseNumericList_eq_ok_iff (hd : IsDictionary dictionary) {n : ℕ} (hn : s.length < n)
    {b : RangeBitSet MIN MAX} {wildcard : Bool} {r : RangeBitSet MIN MAX × Bool} :
    parseNumericList unchecked dictionary n b wildcard s = .ok (r, rest) ↔
      ∃ e, (entryGrammar MIN MAX dictionary).Splits e s rest ∧
        Entry.add dictionary (b, wildcard) e = r := by
  induction n generalizing s b wildcard with
  | zero => exact absurd hn (Nat.not_lt_zero _)
  | succ n ih =>
      rw [parseNumericList, bind_eq_ok_iff]
      constructor
      · rintro ⟨⟨r', mid⟩, hfirst, hmore⟩
        obtain ⟨e, he, rfl⟩ := (parseNumericRangeBitSet_eq_ok_iff hd).mp hfirst
        dsimp only at hmore
        split at hmore
        · rename_i mid'
          have hlt : mid'.length < n := by
            have hlength := congrArg List.length he.1
            rw [List.length_append, List.length_cons] at hlength
            omega
          obtain ⟨⟨e', more⟩, hlist, rfl⟩ := (ih hlt).mp hmore
          obtain ⟨mid'', he', hmore⟩ := Grammar.seq_splits.mp hlist
          refine ⟨⟨e, e' :: more⟩, Grammar.seq_splits.mpr ⟨_, he, ?_⟩, rfl⟩
          exact Grammar.many_splits_cons.mpr ⟨_, mid'', rfl, he', hmore⟩
        · rename_i hcomma
          obtain ⟨rfl, rfl⟩ := Prod.mk.inj (Except.ok.inj hmore)
          refine ⟨⟨e, []⟩, Grammar.seq_splits.mpr ⟨_, he, ?_⟩, rfl⟩
          exact Grammar.many_splits_nil.mpr ⟨rfl, head?_ne_some hcomma⟩
      · rintro ⟨⟨e, more⟩, hlist, rfl⟩
        obtain ⟨mid, he, hmore⟩ := Grammar.seq_splits.mp hlist
        refine ⟨_, (parseNumericRangeBitSet_eq_ok_iff hd).mpr ⟨e, he, rfl⟩, ?_⟩
        cases more with
        | nil =>
            obtain ⟨rfl, hcomma⟩ := Grammar.many_splits_nil.mp hmore
            dsimp only
            split
            · exact absurd rfl hcomma
            · rfl
        | cons e' more =>
            obtain ⟨mid', mid'', rfl, he', hmore⟩ := Grammar.many_splits_cons.mp hmore
            have hlt : mid'.length < n := by
              have hlength := congrArg List.length he.1
              rw [List.length_append, List.length_cons] at hlength
              omega
            exact (ih hlt).mpr ⟨⟨e', more⟩, Grammar.seq_splits.mpr ⟨mid'', he', hmore⟩, rfl⟩

/-- **The fields the parser takes.** -/
theorem parseNumericBitSet_eq_ok_iff (hd : IsDictionary dictionary) {wildcard : Bool}
    {r : RangeBitSet MIN MAX × Bool} :
    parseNumericBitSet unchecked dictionary wildcard s = .ok (r, rest) ↔
      ∃ f, (fieldGrammar MIN MAX dictionary).Splits f s rest ∧
        f.entry.add dictionary (.empty, wildcard) = r := by
  unfold parseNumericBitSet
  dsimp only
  rw [parseNumericList_eq_ok_iff hd (Nat.lt_succ_self _)]
  constructor
  · rintro ⟨e, he, rfl⟩
    refine ⟨⟨s.takeWhile isStripped, e⟩, Grammar.seq_splits.mpr ⟨stripLeft s, ?_, he⟩, rfl⟩
    exact Grammar.run_splits.mpr ⟨rfl, rfl⟩
  · rintro ⟨⟨space, e⟩, hf, rfl⟩
    obtain ⟨mid, hspace, he⟩ := Grammar.seq_splits.mp hf
    obtain ⟨-, rfl⟩ := Grammar.run_splits.mp hspace
    exact ⟨e, he, rfl⟩

lemma fieldGrammar_unambiguous (hd : IsDictionary dictionary) :
    (fieldGrammar MIN MAX dictionary).Unambiguous := by
  have hentry : (entryGrammar MIN MAX dictionary).Unambiguous := by
    refine ((elementGrammar_unambiguous hd).seq ((elementGrammar_unambiguous hd).many ',')).comap ?_
    rintro ⟨e, more⟩ ⟨e', more'⟩ heq
    obtain ⟨rfl, rfl⟩ := Prod.mk.inj heq
    rfl
  refine ((Grammar.run_unambiguous isStripped).seq hentry).comap ?_
  rintro ⟨space, e⟩ ⟨space', e'⟩ heq
  obtain ⟨rfl, rfl⟩ := Prod.mk.inj heq
  rfl

end Elements

/-! ## Schedules -/

/-- What the constructor makes of the five fields. -/
def Line.schedule (t : Line) (delayRange : ℤ) : CronSchedule :=
  let daysOfMonth : RangeBitSet 1 31 × Bool := t.daysOfMonth.entry.add [] (.empty, false)
  let daysOfWeek : RangeBitSet 0 7 × Bool :=
    t.daysOfWeek.entry.add daysOfWeekNames (.empty, daysOfMonth.2)
  { minutes := (t.minutes.entry.add [] (.empty, false)).1
    hours := (t.hours.entry.add [] (.empty, false)).1
    daysOfMonth := daysOfMonth.1
    months := (t.months.entry.add monthNames (.empty, false)).1
    daysOfWeek := CronSchedule.foldSunday daysOfWeek.1
    daysAnyWildcard := daysOfWeek.2
    delayRange }

lemma lineGrammar_splits {t : Line} {s : List Char} :
    lineGrammar.Splits t s [] ↔ ∃ s₁ s₂ s₃ s₄ s₅,
      (fieldGrammar 0 59 []).Splits t.minutes s s₁ ∧ (fieldGrammar 0 23 []).Splits t.hours s₁ s₂ ∧
      (fieldGrammar 1 31 []).Splits t.daysOfMonth s₂ s₃ ∧
      (fieldGrammar 1 12 monthNames).Splits t.months s₃ s₄ ∧
      (fieldGrammar 0 7 daysOfWeekNames).Splits t.daysOfWeek s₄ s₅ ∧
      (Grammar.run isStripped).Splits t.trailing s₅ [] := by
  show (Grammar.seq _ _).Splits _ _ _ ↔ _
  simp only [Grammar.seq_splits, exists_and_left]

lemma run_splits_nil {s : List Char} :
    (∃ l, (Grammar.run isStripped).Splits l s []) ↔ stripLeft s = [] := by
  constructor
  · rintro ⟨l, hl⟩
    exact (Grammar.run_splits.mp hl).2.symm
  · intro h
    exact ⟨s.takeWhile isStripped, Grammar.run_splits.mpr ⟨rfl, h.symm⟩⟩

/-- **The five fields the parser takes**: those that are spelled by a tree. -/
theorem parseFields_eq_ok_iff {s : List Char} {delayRange : ℤ} {c : CronSchedule} :
    CronSchedule.parseFields unchecked s delayRange = .ok c ↔
      ∃ t, lineGrammar.Splits t s [] ∧ t.schedule delayRange = c := by
  unfold CronSchedule.parseFields
  constructor
  · intro h
    obtain ⟨⟨r₁, s₁⟩, h₁, h⟩ := bind_eq_ok_iff.mp h
    obtain ⟨⟨r₂, s₂⟩, h₂, h⟩ := bind_eq_ok_iff.mp h
    obtain ⟨⟨r₃, s₃⟩, h₃, h⟩ := bind_eq_ok_iff.mp h
    obtain ⟨⟨r₄, s₄⟩, h₄, h⟩ := bind_eq_ok_iff.mp h
    obtain ⟨⟨r₅, s₅⟩, h₅, h⟩ := bind_eq_ok_iff.mp h
    obtain ⟨f₁, hf₁, rfl⟩ := (parseNumericBitSet_eq_ok_iff isDictionary_nil).mp h₁
    obtain ⟨f₂, hf₂, rfl⟩ := (parseNumericBitSet_eq_ok_iff isDictionary_nil).mp h₂
    obtain ⟨f₃, hf₃, rfl⟩ := (parseNumericBitSet_eq_ok_iff isDictionary_nil).mp h₃
    obtain ⟨f₄, hf₄, rfl⟩ := (parseNumericBitSet_eq_ok_iff isDictionary_monthNames).mp h₄
    obtain ⟨f₅, hf₅, rfl⟩ := (parseNumericBitSet_eq_ok_iff isDictionary_daysOfWeekNames).mp h₅
    by_cases hend : stripLeft s₅ = []
    · obtain ⟨l, hl⟩ := run_splits_nil.mpr hend
      refine ⟨⟨f₁, f₂, f₃, f₄, f₅, l⟩,
        lineGrammar_splits.mpr ⟨s₁, s₂, s₃, s₄, s₅, hf₁, hf₂, hf₃, hf₄, hf₅, hl⟩, ?_⟩
      simp only [hend, bne_self_eq_false, Bool.false_eq_true, if_false] at h
      exact Except.ok.inj h
    · have hgarbage : (stripLeft s₅ != []) = true := by simpa using hend
      simp only [hgarbage, if_true] at h
      cases h
  · rintro ⟨t, ht, rfl⟩
    obtain ⟨s₁, s₂, s₃, s₄, s₅, h₁, h₂, h₃, h₄, h₅, hl⟩ := lineGrammar_splits.mp ht
    have hend : stripLeft s₅ = [] := run_splits_nil.mp ⟨_, hl⟩
    refine bind_eq_ok_iff.mpr
      ⟨_, (parseNumericBitSet_eq_ok_iff isDictionary_nil).mpr ⟨_, h₁, rfl⟩, ?_⟩
    refine bind_eq_ok_iff.mpr
      ⟨_, (parseNumericBitSet_eq_ok_iff isDictionary_nil).mpr ⟨_, h₂, rfl⟩, ?_⟩
    refine bind_eq_ok_iff.mpr
      ⟨_, (parseNumericBitSet_eq_ok_iff isDictionary_nil).mpr ⟨_, h₃, rfl⟩, ?_⟩
    refine bind_eq_ok_iff.mpr
      ⟨_, (parseNumericBitSet_eq_ok_iff isDictionary_monthNames).mpr ⟨_, h₄, rfl⟩, ?_⟩
    refine bind_eq_ok_iff.mpr
      ⟨_, (parseNumericBitSet_eq_ok_iff isDictionary_daysOfWeekNames).mpr ⟨_, h₅, rfl⟩, ?_⟩
    simp only [hend]
    rfl

theorem lineGrammar_unambiguous : lineGrammar.Unambiguous := by
  refine ((fieldGrammar_unambiguous isDictionary_nil).seq
    ((fieldGrammar_unambiguous isDictionary_nil).seq
      ((fieldGrammar_unambiguous isDictionary_nil).seq
        ((fieldGrammar_unambiguous isDictionary_monthNames).seq
          ((fieldGrammar_unambiguous isDictionary_daysOfWeekNames).seq
            (Grammar.run_unambiguous isStripped)))))).comap ?_
  rintro ⟨f₁, f₂, f₃, f₄, f₅, l⟩ ⟨f₁', f₂', f₃', f₄', f₅', l'⟩ heq
  simp only [Prod.mk.injEq] at heq
  obtain ⟨rfl, rfl, rfl, rfl, rfl, rfl⟩ := heq
  rfl

end Workshop.Cron

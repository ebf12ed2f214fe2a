import Workshop.Cron.ScheduleGrammar

/-!
# The syntax of crontab

The schedules a user may write: `@once`, the nicknames, `@Nhourly`, and five fields separated by
white space, with numbers that are only digits, names for months and days of the week, and steps
that are numbers.

The parser takes all of them.  It takes nothing else exactly if what it reads is tidy
(`parse_documented_iff`): a number has no sign and no space in front, a step is not a name, and
there is white space between the fields.
-/

namespace Workshop.Cron

open Workshop.Lib

/-! ## Well-formed schedules -/

/-- What a value stands for: a decimal number, or the position of a name. -/
def Value.meaning (dictionary : List (String × ℕ)) : Value → ℕ
  | .number n => digitsValue 10 n.digits
  | .name letters => (symbolValue dictionary letters).getD 0

section Plain

variable (MIN MAX : ℕ) (dictionary : List (String × ℕ))

/-- Digits for a number between the bounds, or a name. -/
def Value.IsPlain : Value → Prop
  | .number n => n.IsPlain ∧ MIN ≤ digitsValue 10 n.digits ∧ digitsValue 10 n.digits ≤ MAX
  | .name letters => (symbolValue dictionary letters).isSome = true

/-- `*`, a value, or two values in order. -/
def Bounds.IsPlain : Bounds → Prop
  | .star => True
  | .span v w => v.IsPlain MIN MAX dictionary ∧
      ∀ x ∈ w, x.IsPlain MIN MAX dictionary ∧ v.meaning dictionary ≤ x.meaning dictionary

/-- The step is a number. -/
def Element.IsPlain (e : Element) : Prop :=
  e.bounds.IsPlain MIN MAX dictionary ∧ ∀ x ∈ e.step, x.IsPlain 1 MAX []

def Entry.IsPlain (e : Entry) : Prop := ∀ x ∈ e.elements, x.IsPlain MIN MAX dictionary

instance : DecidablePred (Value.IsPlain MIN MAX dictionary)
  | .number _ => inferInstanceAs (Decidable (_ ∧ _ ∧ _))
  | .name _ => inferInstanceAs (Decidable (_ = true))

instance : DecidablePred (Bounds.IsPlain MIN MAX dictionary)
  | .star => inferInstanceAs (Decidable True)
  | .span _ _ => inferInstanceAs (Decidable (_ ∧ ∀ _ ∈ _, _ ∧ _))

instance : DecidablePred (Element.IsPlain MIN MAX dictionary) :=
  fun _ => inferInstanceAs (Decidable (_ ∧ ∀ _ ∈ _, _))

instance : DecidablePred (Entry.IsPlain MIN MAX dictionary) :=
  fun _ => inferInstanceAs (Decidable (∀ _ ∈ _, _))

end Plain

/-- There is white space between the fields, and perhaps around them. -/
structure Line.IsSpaced (t : Line) : Prop where
  leading : ∀ c ∈ t.minutes.space, isSpace c = true
  separated : ∀ f ∈ [t.hours, t.daysOfMonth, t.months, t.daysOfWeek],
    f.space ≠ [] ∧ ∀ c ∈ f.space, isSpace c = true
  trailing : ∀ c ∈ t.trailing, isSpace c = true

/-- **Five fields** as they may be written. -/
structure Line.IsDocumented (t : Line) : Prop extends t.IsSpaced where
  minutes : t.minutes.entry.IsPlain 0 59 []
  hours : t.hours.entry.IsPlain 0 23 []
  daysOfMonth : t.daysOfMonth.entry.IsPlain 1 31 []
  months : t.months.entry.IsPlain 1 12 monthNames
  daysOfWeek : t.daysOfWeek.entry.IsPlain 0 7 daysOfWeekNames

/-- `@Nhourly`. -/
def hourlyChars (n : Numeral 10) : List Char := '@' :: (n.chars ++ "hourly".toList)

/-- **The schedules a user may write.** -/
def IsDocumented (s : List Char) : Prop :=
  s = "@once".toList ∨ (∃ e ∈ cronSpecialSchedules, s = '@' :: e.1.toList) ∨
    (∃ n : Numeral 10, n.IsPlain ∧ (1 ≤ digitsValue 10 n.digits ∧ digitsValue 10 n.digits ≤ 24) ∧
      s = hourlyChars n) ∨
    ∃ t : Line, t.IsDocumented ∧ s = lineGrammar.chars t

/-! ## Tidy schedules -/

/-- A number has only digits. -/
def Value.IsTidy : Value → Prop
  | .number n => n.IsPlain
  | .name _ => True

/-- A step is a number that has only digits. -/
def Value.IsTidyStep : Value → Prop
  | .number n => n.IsPlain
  | .name _ => False

def Bounds.IsTidy : Bounds → Prop
  | .star => True
  | .span v w => v.IsTidy ∧ ∀ x ∈ w, x.IsTidy

def Element.IsTidy (e : Element) : Prop := e.bounds.IsTidy ∧ ∀ x ∈ e.step, x.IsTidyStep

def Entry.IsTidy (e : Entry) : Prop := ∀ x ∈ e.elements, x.IsTidy

/-- All numbers have only digits, no step is a name, and the fields are separated. -/
structure Line.IsTidy (t : Line) : Prop extends t.IsSpaced where
  entries : ∀ f ∈ [t.minutes, t.hours, t.daysOfMonth, t.months, t.daysOfWeek], f.entry.IsTidy

/-- **Everything the parser reads is tidy.** -/
structure IsTidy (s : List Char) : Prop where
  hourly : ∀ n : Numeral 10, 1 ≤ n.value → n.value ≤ 24 → s = hourlyChars n → n.IsPlain
  line : ∀ t, lineGrammar.Splits t s [] → t.IsTidy

section Values

variable {MIN MAX : ℕ} {dictionary : List (String × ℕ)} {rest : List Char} {x : Value}

lemma Value.IsPlain.value_eq (hMAX : MAX < 2 ^ 64 - 1) (hx : x.IsPlain MIN MAX dictionary) :
    x.value dictionary = x.meaning dictionary := by
  cases x with
  | number n => exact ((Numeral.value_of_isPlain hx.1 hMAX).mpr ⟨rfl, hx.2.2⟩).1
  | name letters => rfl

lemma Value.IsPlain.fits (hd : IsDictionary dictionary) (hMAX : MAX < 2 ^ 64 - 1)
    (hx : x.IsPlain MIN MAX dictionary) (hrest : EndsNumber 10 rest) :
    (valueGrammar MIN MAX dictionary).Fits x rest := by
  have hvalue := hx.value_eq hMAX
  cases x with
  | number n =>
      have hvalue : n.value = digitsValue 10 n.digits := hvalue
      refine ⟨?_, hrest⟩
      rw [hvalue]
      exact hx.2
  | name letters =>
      obtain ⟨w, hw⟩ := Option.isSome_iff_exists.mp hx
      exact ⟨length_of_symbolValue hd hw, hx⟩

/-- A step may be read like a value. -/
lemma Value.IsPlain.of_nil (hx : x.IsPlain MIN MAX []) : x.IsPlain MIN MAX dictionary := by
  cases x with
  | number n => exact hx
  | name letters => cases hx

lemma Value.IsTidy.isPlain (hMAX : MAX < 2 ^ 64 - 1) (hx : x.IsTidy)
    (hfits : (valueGrammar MIN MAX dictionary).Fits x rest) : x.IsPlain MIN MAX dictionary := by
  cases x with
  | number n =>
      obtain ⟨⟨hmin, hmax⟩, -⟩ := hfits
      obtain ⟨hvalue, hle⟩ := (Numeral.value_of_isPlain hx hMAX).mp ⟨rfl, hmax⟩
      refine ⟨hx, ?_⟩
      rw [hvalue]
      exact ⟨hmin, hle⟩
  | name letters => exact hfits.2

lemma Value.IsPlain.isTidy (hx : x.IsPlain MIN MAX dictionary) : x.IsTidy := by
  cases x with
  | number n => exact hx.1
  | name letters => trivial

lemma Value.IsTidyStep.isPlain (hMAX : MAX < 2 ^ 64 - 1) (hx : x.IsTidyStep)
    (hfits : (valueGrammar MIN MAX dictionary).Fits x rest) : x.IsPlain MIN MAX [] := by
  cases x with
  | number n =>
      have hplain : (Value.number n).IsPlain MIN MAX dictionary :=
        Value.IsTidy.isPlain hMAX hx hfits
      exact hplain
  | name letters => exact hx.elim

lemma Value.IsPlain.isTidyStep (hx : x.IsPlain MIN MAX []) : x.IsTidyStep := by
  cases x with
  | number n => exact hx.1
  | name letters => cases hx

end Values

section Elements

variable {MIN MAX : ℕ} {dictionary : List (String × ℕ)} {rest : List Char}

/-- What may follow a list element: not a digit, a minus or a slash. -/
def EndsElement (rest : List Char) : Prop :=
  ∀ c ∈ rest.head?, isDigitIn 10 c = false ∧ c ≠ '-' ∧ c ≠ '/'

lemma EndsElement.endsNumber (h : EndsElement rest) : EndsNumber 10 rest := fun c hc => (h c hc).1

lemma EndsElement.head_ne (h : EndsElement rest) :
    rest.head? ≠ some '-' ∧ rest.head? ≠ some '/' := by
  constructor
  · intro hhead
    exact (h '-' hhead).2.1 rfl
  · intro hhead
    exact (h '/' hhead).2.2 rfl

lemma endsNumber_cons {c : Char} (hc : isDigitIn 10 c = false) : EndsNumber 10 (c :: rest) := by
  intro d hd
  obtain rfl := Option.some.inj hd
  exact hc

lemma Bounds.IsPlain.fits (hd : IsDictionary dictionary) (hMAX : MAX < 2 ^ 64 - 1) {b : Bounds}
    (hb : b.IsPlain MIN MAX dictionary) (hends : EndsNumber 10 rest)
    (hminus : rest.head? ≠ some '-') : (boundsGrammar MIN MAX dictionary).Fits b rest := by
  cases b with
  | star => trivial
  | span v w =>
      obtain ⟨hv, hw⟩ := hb
      cases w with
      | none => exact ⟨⟨hv.fits hd hMAX hends, hminus⟩, le_rfl⟩
      | some w =>
          obtain ⟨hw, hle⟩ := hw w rfl
          refine ⟨⟨hv.fits hd hMAX (endsNumber_cons (by decide)), hw.fits hd hMAX hends⟩, ?_⟩
          rw [Option.getD_some, hv.value_eq hMAX, hw.value_eq hMAX]
          exact hle

/-- A well-formed list element is read, up to what ends it. -/
lemma Element.IsPlain.fits (hd : IsDictionary dictionary) (hMAX : MAX < 2 ^ 64 - 1) {e : Element}
    (he : e.IsPlain MIN MAX dictionary) (hrest : EndsElement rest) :
    (elementGrammar MIN MAX dictionary).Fits e rest := by
  obtain ⟨bounds, step⟩ := e
  obtain ⟨hbounds, hstep⟩ := he
  cases step with
  | none => exact ⟨hbounds.fits hd hMAX hrest.endsNumber hrest.head_ne.1, hrest.head_ne.2⟩
  | some x =>
      refine ⟨hbounds.fits hd hMAX (endsNumber_cons (by decide)) ?_, ?_⟩
      · intro hhead
        exact absurd (Option.some.inj hhead) (by decide)
      · exact (hstep x rfl).of_nil.fits hd hMAX hrest.endsNumber

lemma Element.IsTidy.isPlain (hMAX : MAX < 2 ^ 64 - 1) {e : Element} (he : e.IsTidy)
    (hfits : (elementGrammar MIN MAX dictionary).Fits e rest) : e.IsPlain MIN MAX dictionary := by
  obtain ⟨bounds, step⟩ := e
  obtain ⟨hbounds, hstep⟩ := he
  refine ⟨?_, ?_⟩
  · cases bounds with
    | star => trivial
    | span v w =>
        obtain ⟨⟨⟨hv, hw⟩, hle⟩, -⟩ := hfits
        have hfirst := hbounds.1.isPlain hMAX hv
        refine ⟨hfirst, fun x hx => ?_⟩
        obtain rfl : w = some x := hx
        have hlast := (hbounds.2 x rfl).isPlain hMAX hw
        refine ⟨hlast, ?_⟩
        rw [← hfirst.value_eq hMAX, ← hlast.value_eq hMAX]
        exact hle
  · intro x hx
    obtain rfl : step = some x := hx
    exact (hstep x rfl).isPlain hMAX hfits.2

lemma Element.IsPlain.isTidy {e : Element} (he : e.IsPlain MIN MAX dictionary) : e.IsTidy := by
  obtain ⟨bounds, step⟩ := e
  obtain ⟨hbounds, hstep⟩ := he
  refine ⟨?_, fun x hx => (hstep x hx).isTidyStep⟩
  cases bounds with
  | star => trivial
  | span v w => exact ⟨hbounds.1.isTidy, fun x hx => (hbounds.2 x hx).1.isTidy⟩

/-! ## Lists -/

/-- What may follow a list: nothing, or white space. -/
def EndsEntry (rest : List Char) : Prop := ∀ c ∈ rest.head?, isSpace c = true

lemma isStripped_of_isSpace {c : Char} (h : isSpace c = true) : isStripped c = true := by
  simp only [isSpace, Bool.or_eq_true, beq_iff_eq, Bool.and_eq_true, decide_eq_true_eq] at h
  simp only [isStripped, Bool.and_eq_true, decide_eq_true_eq]
  omega

lemma EndsEntry.endsElement (h : EndsEntry rest) : EndsElement rest ∧ rest.head? ≠ some ',' := by
  have hsmall : ∀ c ∈ rest.head?, c.toNat ≤ 32 := by
    intro c hc
    have hstripped := isStripped_of_isSpace (h c hc)
    simp only [isStripped, Bool.and_eq_true, decide_eq_true_eq] at hstripped
    exact hstripped.2
  refine ⟨fun c hc => ⟨?_, ?_, ?_⟩, fun hcomma => ?_⟩
  · have := hsmall c hc
    simp only [isDigitIn, Bool.and_eq_false_iff, decide_eq_false_iff_not]
    omega
  · rintro rfl
    exact absurd (hsmall _ hc) (by decide)
  · rintro rfl
    exact absurd (hsmall _ hc) (by decide)
  · exact absurd (hsmall _ hcomma) (by decide)

/-- After a list element, the next one starts with a comma. -/
lemma endsElement_manyChars (more : List Element) (hrest : EndsElement rest) :
    EndsElement (Grammar.manyChars ',' (elementGrammar MIN MAX dictionary) more ++ rest) := by
  cases more with
  | nil => exact hrest
  | cons e more =>
      intro c hc
      obtain rfl : ',' = c := Option.some.inj hc
      decide

lemma Entry.IsPlain.fits (hd : IsDictionary dictionary) (hMAX : MAX < 2 ^ 64 - 1) {e : Entry}
    (he : e.IsPlain MIN MAX dictionary) (hrest : EndsEntry rest) :
    (entryGrammar MIN MAX dictionary).Fits e rest := by
  obtain ⟨hends, hcomma⟩ := hrest.endsElement
  have hmore : ∀ more : List Element, (∀ x ∈ more, x.IsPlain MIN MAX dictionary) →
      Grammar.ManyFits ',' (elementGrammar MIN MAX dictionary) more rest := by
    intro more
    induction more with
    | nil => exact fun _ => hcomma
    | cons x more ih =>
        intro hall
        refine ⟨(hall x List.mem_cons_self).fits hd hMAX (endsElement_manyChars more hends), ?_⟩
        exact ih fun y hy => hall y (List.mem_cons_of_mem _ hy)
  obtain ⟨first, more⟩ := e
  exact ⟨(he first List.mem_cons_self).fits hd hMAX (endsElement_manyChars more hends),
    hmore more fun x hx => he x (List.mem_cons_of_mem _ hx)⟩

lemma Entry.IsTidy.isPlain (hMAX : MAX < 2 ^ 64 - 1) {e : Entry} (he : e.IsTidy)
    (hfits : (entryGrammar MIN MAX dictionary).Fits e rest) : e.IsPlain MIN MAX dictionary := by
  have hmore : ∀ more : List Element, (∀ x ∈ more, x.IsTidy) →
      Grammar.ManyFits ',' (elementGrammar MIN MAX dictionary) more rest →
        ∀ x ∈ more, x.IsPlain MIN MAX dictionary := by
    intro more
    induction more with
    | nil => simp
    | cons y more ih =>
        rintro hall ⟨hy, hfits⟩ x hx
        rcases List.mem_cons.mp hx with rfl | hx
        · exact (hall x List.mem_cons_self).isPlain hMAX hy
        · exact ih (fun y hy => hall y (List.mem_cons_of_mem _ hy)) hfits x hx
  obtain ⟨first, more⟩ := e
  intro x hx
  rcases List.mem_cons.mp hx with rfl | hx
  · exact (he x List.mem_cons_self).isPlain hMAX hfits.1
  · exact hmore more (fun y hy => he y (List.mem_cons_of_mem _ hy)) hfits.2 x hx

lemma Entry.IsPlain.isTidy {e : Entry} (he : e.IsPlain MIN MAX dictionary) : e.IsTidy :=
  fun x hx => (he x hx).isTidy

/-- A well-formed list does not start with a character that is stripped. -/
lemma Entry.IsPlain.head_chars (hd : IsDictionary dictionary) {e : Entry}
    (he : e.IsPlain MIN MAX dictionary) :
    ∃ c cs, (entryGrammar MIN MAX dictionary).chars e = c :: cs ∧ isStripped c = false := by
  have hlarge : ∀ c : Char, 32 < c.toNat → isStripped c = false := by
    intro c hc
    simp only [isStripped, Bool.and_eq_false_iff, decide_eq_false_iff_not]
    omega
  obtain ⟨⟨bounds, step⟩, more⟩ := e
  obtain ⟨hbounds, -⟩ := he _ List.mem_cons_self
  match bounds with
  | .star => exact ⟨'*', _, rfl, rfl⟩
  | .span (.number n) w =>
      obtain ⟨d, ds, hdigits⟩ := List.exists_cons_of_ne_nil n.digits_ne_nil
      have hchars : n.chars = d :: ds := by
        rw [Numeral.chars, hbounds.1.1.1, hbounds.1.1.2, hdigits]
        rfl
      refine ⟨d, _, congrArg (fun l => l ++ _ ++ _ ++ _) hchars, hlarge d ?_⟩
      have hdigit := n.isDigitIn_digits d (by simp [hdigits])
      simp only [isDigitIn, Bool.and_eq_true, decide_eq_true_eq] at hdigit
      omega
  | .span (.name letters) w =>
      obtain ⟨v, hv⟩ := Option.isSome_iff_exists.mp hbounds.1
      obtain ⟨d, ds, rfl, hle⟩ := exists_letter_of_symbolValue hd hv
      refine ⟨d, _, rfl, hlarge d ?_⟩
      omega

/-! ## Fields -/

lemma Field.fits (hd : IsDictionary dictionary) (hMAX : MAX < 2 ^ 64 - 1) {f : Field}
    (hentry : f.entry.IsPlain MIN MAX dictionary) (hspace : ∀ c ∈ f.space, isSpace c = true)
    (hrest : EndsEntry rest) : (fieldGrammar MIN MAX dictionary).Fits f rest := by
  refine ⟨⟨fun c hc => isStripped_of_isSpace (hspace c hc), fun c hc => ?_⟩,
    hentry.fits hd hMAX hrest⟩
  obtain ⟨d, ds, hchars, hd⟩ := hentry.head_chars hd
  rw [show (entryGrammar MIN MAX dictionary).chars f.entry = d :: ds from hchars] at hc
  obtain rfl := Option.some.inj hc
  exact hd

/-- A field ends where the next one starts. -/
lemma endsEntry_field {f : Field} (hne : f.space ≠ []) (hspace : ∀ c ∈ f.space, isSpace c = true)
    (tail : List Char) : EndsEntry ((fieldGrammar MIN MAX dictionary).chars f ++ tail ++ rest) := by
  obtain ⟨c, cs, hcons⟩ := List.exists_cons_of_ne_nil hne
  intro d hd
  have hhead : ((fieldGrammar MIN MAX dictionary).chars f ++ tail ++ rest).head? = some c := by
    show (f.space ++ _ ++ tail ++ rest).head? = some c
    rw [hcons]
    rfl
  obtain rfl : c = d := Option.some.inj (hhead.symm.trans hd)
  exact hspace c (by simp [hcons])

end Elements

/-! ## Schedules -/

lemma lt_of_le_59 {MAX : ℕ} (h : MAX ≤ 59) : MAX < 2 ^ 64 - 1 := by omega

/-- **A documented schedule is read.** -/
theorem Line.IsDocumented.splits {t : Line} (ht : t.IsDocumented) :
    lineGrammar.Splits t (lineGrammar.chars t) [] := by
  obtain ⟨hhours, hdaysOfMonth, hmonths, hdaysOfWeek⟩ : (t.hours.space ≠ [] ∧ _) ∧
      (t.daysOfMonth.space ≠ [] ∧ _) ∧ (t.months.space ≠ [] ∧ _) ∧
        (t.daysOfWeek.space ≠ [] ∧ _) := by
    simpa using ht.separated
  refine ⟨(List.append_nil _).symm, ?_, ?_, ?_, ?_, ?_, ?_⟩
  · exact Field.fits isDictionary_nil (lt_of_le_59 le_rfl) ht.minutes ht.leading
      (endsEntry_field hhours.1 hhours.2 _)
  · exact Field.fits isDictionary_nil (lt_of_le_59 (by omega)) ht.hours hhours.2
      (endsEntry_field hdaysOfMonth.1 hdaysOfMonth.2 _)
  · exact Field.fits isDictionary_nil (lt_of_le_59 (by omega)) ht.daysOfMonth hdaysOfMonth.2
      (endsEntry_field hmonths.1 hmonths.2 _)
  · exact Field.fits isDictionary_monthNames (lt_of_le_59 (by omega)) ht.months hmonths.2
      (endsEntry_field hdaysOfWeek.1 hdaysOfWeek.2 _)
  · refine Field.fits isDictionary_daysOfWeekNames (lt_of_le_59 (by omega)) ht.daysOfWeek
      hdaysOfWeek.2 fun c hc => ht.trailing c ?_
    rw [List.append_nil] at hc
    exact List.mem_of_mem_head? hc
  · exact ⟨fun c hc => isStripped_of_isSpace (ht.trailing c hc), by simp⟩

/-- A schedule that is read is documented exactly if it is tidy. -/
lemma Line.isDocumented_iff {t : Line} {s : List Char} (hs : lineGrammar.Splits t s []) :
    t.IsDocumented ↔ t.IsTidy := by
  constructor
  · intro ht
    refine ⟨ht.toIsSpaced, fun f hf => ?_⟩
    simp only [List.mem_cons, List.not_mem_nil, or_false] at hf
    rcases hf with rfl | rfl | rfl | rfl | rfl
    · exact ht.minutes.isTidy
    · exact ht.hours.isTidy
    · exact ht.daysOfMonth.isTidy
    · exact ht.months.isTidy
    · exact ht.daysOfWeek.isTidy
  · intro ht
    have hentries := ht.entries
    simp only [List.forall_mem_cons, List.not_mem_nil, false_implies, implies_true, and_true]
      at hentries
    obtain ⟨h₁, h₂, h₃, h₄, h₅⟩ := hentries
    obtain ⟨-, hf₁, hf₂, hf₃, hf₄, hf₅, -⟩ := hs
    exact ⟨ht.toIsSpaced, h₁.isPlain (lt_of_le_59 le_rfl) hf₁.2,
      h₂.isPlain (lt_of_le_59 (by omega)) hf₂.2, h₃.isPlain (lt_of_le_59 (by omega)) hf₃.2,
      h₄.isPlain (lt_of_le_59 (by omega)) hf₄.2, h₅.isPlain (lt_of_le_59 (by omega)) hf₅.2⟩

/-! ## What the constructor takes -/

/-- A schedule with five fields does not start with an `@`. -/
lemma not_splits_at {t : Line} {s : List Char} : ¬ lineGrammar.Splits t ('@' :: s) [] := by
  intro hs
  obtain ⟨s₁, _, _, _, _, hminutes, -⟩ := lineGrammar_splits.mp hs
  obtain ⟨mid, hspace, hentry⟩ := Grammar.seq_splits.mp hminutes
  obtain ⟨-, rfl⟩ := Grammar.run_splits.mp hspace
  obtain ⟨mid', helement, -⟩ := Grammar.seq_splits.mp hentry
  obtain ⟨mid'', hread, -⟩ := Grammar.seq_splits.mp helement
  have hbounds : (boundsGrammar 0 59 []).Splits t.minutes.entry.first.bounds ('@' :: s) mid'' :=
    hread
  cases hb : t.minutes.entry.first.bounds with
  | star =>
      rw [hb] at hbounds
      exact absurd (List.cons.inj hbounds.1).1 (by decide)
  | span v w =>
      rw [hb] at hbounds
      obtain ⟨u, hv, -⟩ := Grammar.seq_splits.mp (boundsGrammar_splits_span.mp hbounds).1
      exact not_splits_cons isDictionary_nil (by decide) (by decide) v hv

/-- What the constructor takes after an `@`. -/
theorem parseSpecial_isOk_iff {s : List Char} :
    (∃ c, CronSchedule.parseSpecial unchecked s = .ok c) ↔
      s = "once".toList ∨ (∃ e ∈ cronSpecialSchedules, s = e.1.toList) ∨
        ∃ n : Numeral 10, (1 ≤ n.value ∧ n.value ≤ 24) ∧ s = n.chars ++ "hourly".toList := by
  have htranslated : ∀ {c}, CronSchedule.parseSpecial.translated unchecked s = .ok c →
      ∃ e ∈ cronSpecialSchedules, s = e.1.toList := by
    intro c h
    unfold CronSchedule.parseSpecial.translated at h
    split at h
    · cases h
    · rename_i htranslate
      obtain ⟨e, hfind, -⟩ := Option.map_eq_some_iff.mp htranslate
      have hfound := List.find?_some hfind
      exact ⟨e, List.mem_of_find?_eq_some hfind, (beq_iff_eq.mp hfound).symm⟩
  constructor
  · rintro ⟨c, h⟩
    unfold CronSchedule.parseSpecial at h
    split at h
    · exact .inl ‹_›
    · split at h
      · rename_i multiplier rest hread
        split at h
        · rename_i hhourly
          split at h
          · cases h
          · rename_i hrange
            obtain ⟨n, rfl, hs, -⟩ := strtoul_eq_some_iff.mp hread
            exact .inr (.inr ⟨n, by omega, hhourly ▸ hs⟩)
        · exact .inr (.inl (htranslated h))
      · exact .inr (.inl (htranslated h))
  · rintro (rfl | ⟨e, he, rfl⟩ | ⟨n, hrange, rfl⟩)
    · exact ⟨_, rfl⟩
    · have hall : ∀ e ∈ cronSpecialSchedules,
          (CronSchedule.parseSpecial unchecked e.1.toList).toOption.isSome = true := by
        decide +kernel
      have hsome := hall e he
      cases hparse : CronSchedule.parseSpecial unchecked e.1.toList with
      | ok c => exact ⟨c, rfl⟩
      | error message =>
          rw [hparse] at hsome
          cases hsome
    · have hread : strtoul 10 (n.chars ++ "hourly".toList) = some (n.value, "hourly".toList) :=
        strtoul_eq_some_iff.mpr ⟨n, rfl, rfl, by simp [EndsNumber, isDigitIn]⟩
      have honce : n.chars ++ "hourly".toList ≠ 'o' :: "nce".toList :=
        chars_append_ne_of_letter (by decide) n
      refine ⟨CronSchedule.hourly n.value, ?_⟩
      unfold CronSchedule.parseSpecial
      rw [show "once".toList = 'o' :: "nce".toList from rfl, if_neg honce, hread]
      dsimp only
      rw [if_pos rfl, if_neg (by omega)]
      rfl

/-- **What the constructor takes.** -/
theorem parse_isOk_iff {schedule : String} :
    (∃ c, CronSchedule.parse schedule = .ok c) ↔
      schedule.toList = "@once".toList ∨
        (∃ e ∈ cronSpecialSchedules, schedule.toList = '@' :: e.1.toList) ∨
        (∃ n : Numeral 10, (1 ≤ n.value ∧ n.value ≤ 24) ∧ schedule.toList = hourlyChars n) ∨
        ∃ t, lineGrammar.Splits t schedule.toList [] := by
  unfold CronSchedule.parse CronSchedule.parseWith
  split
  · rename_i s hs
    have hline : ¬ ∃ t, lineGrammar.Splits t ('@' :: s) [] := fun ⟨t, ht⟩ => not_splits_at ht
    rw [parseSpecial_isOk_iff, hs]
    simp only [hline, or_false, hourlyChars, List.cons.injEq, true_and]
    rw [show "@once".toList = '@' :: "once".toList from rfl, List.cons.injEq]
    simp only [true_and]
  · rename_i s hs
    have hat : ∀ s', schedule.toList ≠ '@' :: s' := hs
    constructor
    · rintro ⟨c, hc⟩
      obtain ⟨t, ht, -⟩ := parseFields_eq_ok_iff.mp hc
      exact .inr (.inr (.inr ⟨t, ht⟩))
    · rintro (h | ⟨e, -, h⟩ | ⟨n, -, h⟩ | ⟨t, ht⟩)
      · exact absurd h (hat _)
      · exact absurd h (hat _)
      · exact absurd h (hat _)
      · exact ⟨_, parseFields_eq_ok_iff.mpr ⟨t, ht, rfl⟩⟩

/-- The documented schedules are read in one way, which is tidy. -/
lemma IsDocumented.isTidy {s : List Char} (h : IsDocumented s) : IsTidy s := by
  have hends : EndsNumber 10 "hourly".toList := by simp [EndsNumber, isDigitIn]
  rcases h with rfl | ⟨e, he, rfl⟩ | ⟨n, hplain, -, rfl⟩ | ⟨t, ht, rfl⟩
  · refine ⟨fun n _ _ heq => ?_, fun t hsplits => absurd hsplits not_splits_at⟩
    exact absurd (List.cons.inj heq).2.symm (chars_append_ne_of_letter (by decide) n)
  · refine ⟨fun n _ _ heq => ?_, fun t hsplits => absurd hsplits not_splits_at⟩
    have hletter : ∀ e ∈ cronSpecialSchedules,
        e.1.toList ≠ [] ∧ 65 ≤ (e.1.toList.headD ' ').toNat := by decide
    obtain ⟨hne, hle⟩ := hletter e he
    obtain ⟨c, cs, hcons⟩ := List.exists_cons_of_ne_nil hne
    rw [hcons] at heq hle
    exact absurd (List.cons.inj heq).2.symm (chars_append_ne_of_letter hle n)
  · refine ⟨fun n' _ _ heq => ?_, fun t hsplits => absurd hsplits not_splits_at⟩
    obtain ⟨rfl, -⟩ := Numeral.eq_of_append (List.cons.inj heq).2 hends hends
    exact hplain
  · refine ⟨fun n _ _ heq => ?_, fun t' hsplits => ?_⟩
    · have hsplits := ht.splits
      rw [heq] at hsplits
      exact absurd hsplits not_splits_at
    · obtain ⟨rfl, -⟩ := lineGrammar_unambiguous ht.splits hsplits
      exact (Line.isDocumented_iff hsplits).mp ht

/-- **Nothing else is accepted** exactly if everything that is read is tidy. -/
theorem parse_documented_iff (schedule : String) :
    ((∃ c, CronSchedule.parse schedule = .ok c) → IsDocumented schedule.toList) ↔
      IsTidy schedule.toList := by
  constructor
  · intro h
    constructor
    · intro n hlo hhi hs
      exact (h (parse_isOk_iff.mpr (.inr (.inr (.inl ⟨n, ⟨hlo, hhi⟩, hs⟩))))).isTidy.hourly
        n hlo hhi hs
    · intro t ht
      exact (h (parse_isOk_iff.mpr (.inr (.inr (.inr ⟨t, ht⟩))))).isTidy.line t ht
  · intro htidy hok
    rcases parse_isOk_iff.mp hok with h | h | ⟨n, ⟨hlo, hhi⟩, hs⟩ | ⟨t, ht⟩
    · exact .inl h
    · exact .inr (.inl h)
    · have hplain := htidy.hourly n hlo hhi hs
      obtain ⟨hvalue, hle⟩ :=
        (Numeral.value_of_isPlain hplain (lt_of_le_59 (by omega))).mp ⟨rfl, hhi⟩
      exact .inr (.inr (.inl ⟨n, hplain, ⟨hvalue ▸ hlo, hvalue ▸ hle⟩, hs⟩))
    · have hdocumented := (Line.isDocumented_iff ht).mpr (htidy.line t ht)
      exact .inr (.inr (.inr ⟨t, hdocumented, ht.1.trans (List.append_nil _)⟩))

theorem parse_unseparated :
    (∃ c, CronSchedule.parse "*****" = .ok c) ∧ ¬ IsDocumented "*****".toList := by
  refine ⟨⟨(CronSchedule.parse "*****").toOption.getD {}, by decide +kernel⟩, ?_⟩
  rintro (h | ⟨e, -, h⟩ | ⟨n, -, -, h⟩ | ⟨t, ht, h⟩)
  · exact absurd h (by decide)
  · exact absurd (List.cons.inj h).1 (by decide)
  · exact absurd (List.cons.inj h).1 (by decide)
  · -- the text has no character that could separate the first two fields
    obtain ⟨hne, hspace⟩ := ht.separated t.hours (by simp)
    obtain ⟨c, cs, hcons⟩ := List.exists_cons_of_ne_nil hne
    have hmem : c ∈ "*****".toList := by
      rw [h]
      show c ∈ _ ++ ((t.hours.space ++ _) ++ _)
      rw [hcons]
      simp
    obtain rfl : c = '*' := by simpa using hmem
    exact absurd (hspace '*' (by simp [hcons])) (by decide)

end Workshop.Cron

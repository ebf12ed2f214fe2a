import Workshop.Cron.CrontabSyntax

/-!
# The meaning of crontab schedules

A schedule of five fields that is written with single spaces is accepted by the constructor of
`CronSchedule`, and has the meaning of crontab (`parse_crontab`): a field stands for the positions
of its list elements, which are those from the first to the last one in steps; Sunday is 0 and 7;
and `*` in one of the day fields makes the other one decide.  If the minute is just `*/N`, the job
is delayed by up to `N` minutes, else by up to one minute.
-/

namespace Workshop.Cron

open Workshop.Lib

/-! ## Positions -/

/-- The positions a list element stands for. -/
def Element.Covers (MIN MAX : ℕ) (dictionary : List (String × ℕ)) (e : Element) (i : ℕ) : Prop :=
  e.bounds.first MIN (Value.meaning dictionary) ≤ i ∧
    i ≤ e.bounds.last MAX (Value.meaning dictionary) ∧
    e.stepBy (Value.meaning dictionary) ∣ i - e.bounds.first MIN (Value.meaning dictionary)

section Positions

variable {MIN MAX : ℕ} {dictionary : List (String × ℕ)} {i : ℕ}

lemma foldl_set_get_iff {b : RangeBitSet MIN MAX} {l : List ℕ} (hl : ∀ j ∈ l, MIN ≤ j)
    (hi : MIN ≤ i) (hhi : i ≤ MAX) :
    (l.foldl RangeBitSet.set b).get i = true ↔ b.get i = true ∨ i ∈ l := by
  induction l generalizing b with
  | nil => simp
  | cons j l ih =>
      rw [List.foldl_cons, ih fun k hk => hl k (List.mem_cons_of_mem _ hk),
        RangeBitSet.get_set_iff (hl j List.mem_cons_self) hi hhi, List.mem_cons, or_assoc]

/-- The positions `MakeRangeBitSet` visits. -/
lemma mem_range_iff {first last step : ℕ} (hstep : 1 ≤ step) :
    i ∈ List.range' first ((last + step - first) / step) step ↔
      first ≤ i ∧ i ≤ last ∧ step ∣ i - first := by
  rw [List.mem_range']
  constructor
  · rintro ⟨k, hk, rfl⟩
    have hk : (k + 1) * step ≤ last + step - first := (Nat.le_div_iff_mul_le hstep).mp hk
    rw [Nat.add_mul, Nat.one_mul, Nat.mul_comm] at hk
    refine ⟨by omega, by omega, ?_⟩
    rw [Nat.add_sub_cancel_left]
    exact Nat.dvd_mul_right step k
  · rintro ⟨hfirst, hlast, k, hk⟩
    refine ⟨k, ?_, by omega⟩
    refine (Nat.le_div_iff_mul_le hstep).mpr ?_
    rw [Nat.succ_mul, Nat.mul_comm]
    omega

lemma makeRangeBitSet_get_iff {b : RangeBitSet MIN MAX} {first last step : ℕ} (hfirst : MIN ≤ first)
    (hstep : 1 ≤ step) (hi : MIN ≤ i) (hhi : i ≤ MAX) :
    (makeRangeBitSet b first last step).get i = true ↔
      b.get i = true ∨ (first ≤ i ∧ i ≤ last ∧ step ∣ i - first) := by
  unfold makeRangeBitSet
  rw [foldl_set_get_iff (fun j hj => ?_) hi hhi, mem_range_iff hstep]
  exact hfirst.trans ((mem_range_iff hstep).mp hj).1

/-- Names stand for positions of the field. -/
lemma Value.IsPlain.le_meaning (hnamed : Named MIN MAX dictionary) {x : Value}
    (hx : x.IsPlain MIN MAX dictionary) : MIN ≤ x.meaning dictionary := by
  cases x with
  | number n => exact hx.2.1
  | name letters =>
      obtain ⟨v, hv⟩ := Option.isSome_iff_exists.mp hx
      obtain ⟨e, he, -, rfl⟩ := symbolValue_eq_some hv
      show MIN ≤ (symbolValue dictionary letters).getD 0
      rw [hv]
      exact (hnamed e he).1

lemma Element.IsPlain.add_get_iff (hMAX : MAX < 2 ^ 64 - 1) (hnamed : Named MIN MAX dictionary)
    {e : Element} (he : e.IsPlain MIN MAX dictionary) (r : RangeBitSet MIN MAX × Bool)
    (hi : MIN ≤ i) (hhi : i ≤ MAX) :
    (Element.add dictionary r e).1.get i = true ↔
      r.1.get i = true ∨ e.Covers MIN MAX dictionary i := by
  obtain ⟨bounds, step⟩ := e
  obtain ⟨hbounds, hstep⟩ := he
  have hfirst : bounds.first MIN (Value.value dictionary) =
      bounds.first MIN (Value.meaning dictionary) := by
    cases bounds with
    | star => rfl
    | span v w => exact hbounds.1.value_eq hMAX
  have hlast : bounds.last MAX (Value.value dictionary) =
      bounds.last MAX (Value.meaning dictionary) := by
    cases bounds with
    | star => rfl
    | span v w =>
        cases w with
        | none => exact hbounds.1.value_eq hMAX
        | some w => exact (hbounds.2 w rfl).1.value_eq hMAX
  have hstepBy : step.elim 1 (Value.value dictionary) = step.elim 1 (Value.meaning dictionary) := by
    cases step with
    | none => rfl
    | some x => exact (hstep x rfl).of_nil.value_eq hMAX
  have hmin : MIN ≤ bounds.first MIN (Value.meaning dictionary) := by
    cases bounds with
    | star => exact le_rfl
    | span v w => exact hbounds.1.le_meaning hnamed
  have hpos : 1 ≤ step.elim 1 (Value.meaning dictionary) := by
    cases step with
    | none => exact le_rfl
    | some x =>
        cases x with
        | number n => exact (hstep _ rfl).2.1
        | name letters => cases hstep _ rfl
  show (makeRangeBitSet r.1 (bounds.first MIN (Value.value dictionary))
    (bounds.last MAX (Value.value dictionary))
    (step.elim 1 (Value.value dictionary))).get i = true ↔ _
  rw [hfirst, hlast, hstepBy, makeRangeBitSet_get_iff hmin hpos hi hhi]
  rfl

/-- **The set of a field** has the positions of its list elements. -/
lemma Entry.IsPlain.add_get_iff (hMAX : MAX < 2 ^ 64 - 1) (hnamed : Named MIN MAX dictionary)
    {e : Entry} (he : e.IsPlain MIN MAX dictionary) (wildcard : Bool) (hi : MIN ≤ i)
    (hhi : i ≤ MAX) :
    ((e.add dictionary (.empty, wildcard) : RangeBitSet MIN MAX × Bool)).1.get i = true ↔
      ∃ x ∈ e.elements, x.Covers MIN MAX dictionary i := by
  have hfold : ∀ (l : List Element) (r : RangeBitSet MIN MAX × Bool),
      (∀ x ∈ l, x.IsPlain MIN MAX dictionary) →
        ((l.foldl (Element.add dictionary) r).1.get i = true ↔
          r.1.get i = true ∨ ∃ x ∈ l, x.Covers MIN MAX dictionary i) := by
    intro l
    induction l with
    | nil => simp
    | cons x l ih =>
        intro r hall
        rw [List.foldl_cons, ih _ fun y hy => hall y (List.mem_cons_of_mem _ hy),
          (hall x List.mem_cons_self).add_get_iff hMAX hnamed r hi hhi, List.exists_mem_cons_iff,
          or_assoc]
  rw [Entry.add, hfold e.elements _ he]
  refine or_iff_right ?_
  simp [RangeBitSet.get, RangeBitSet.empty]

/-- The flag is raised by a `*`. -/
lemma Entry.add_wildcard (e : Entry) (wildcard : Bool) :
    ((e.add dictionary (.empty, wildcard) : RangeBitSet MIN MAX × Bool)).2 = true ↔
      wildcard = true ∨ ∃ x ∈ e.elements, x.isWildcard = true := by
  have hfold : ∀ (l : List Element) (r : RangeBitSet MIN MAX × Bool),
      (l.foldl (Element.add dictionary) r).2 = true ↔
        r.2 = true ∨ ∃ x ∈ l, x.isWildcard = true := by
    intro l
    induction l with
    | nil => simp
    | cons x l ih =>
        intro r
        rw [List.foldl_cons, ih, List.exists_mem_cons_iff, Element.add, Bool.or_eq_true, or_assoc]
  exact hfold e.elements _

end Positions

/-! ## Schedules with single spaces -/

/-- The lists of the five fields. -/
structure Crontab where
  minutes : Entry
  hours : Entry
  daysOfMonth : Entry
  months : Entry
  daysOfWeek : Entry

namespace Crontab

/-- The fields, with one space between them. -/
def line (t : Crontab) : Line where
  minutes := ⟨[], t.minutes⟩
  hours := ⟨[' '], t.hours⟩
  daysOfMonth := ⟨[' '], t.daysOfMonth⟩
  months := ⟨[' '], t.months⟩
  daysOfWeek := ⟨[' '], t.daysOfWeek⟩
  trailing := []

/-- The schedule as it is written. -/
def text (t : Crontab) : String := String.ofList (lineGrammar.chars t.line)

/-- All values and steps are in their range. -/
structure IsPlain (t : Crontab) : Prop where
  minutes : t.minutes.IsPlain 0 59 []
  hours : t.hours.IsPlain 0 23 []
  daysOfMonth : t.daysOfMonth.IsPlain 1 31 []
  months : t.months.IsPlain 1 12 monthNames
  daysOfWeek : t.daysOfWeek.IsPlain 0 7 daysOfWeekNames

lemma IsPlain.isDocumented {t : Crontab} (ht : t.IsPlain) : t.line.IsDocumented where
  leading := by simp [line]
  separated := by simp [line, isSpace]
  trailing := by simp [line]
  minutes := ht.minutes
  hours := ht.hours
  daysOfMonth := ht.daysOfMonth
  months := ht.months
  daysOfWeek := ht.daysOfWeek

end Crontab

/-- The delay in seconds: `N` minutes if the only list element is `*/N`, else one minute. -/
def Entry.delay : Entry → ℤ
  | ⟨⟨.star, some x⟩, []⟩ => x.meaning [] * 60
  | _ => 60

lemma stepDelayRange_eq {s : List Char} (h : ∀ t, s ≠ '*' :: '/' :: t) :
    CronSchedule.stepDelayRange s = 60 := by
  unfold CronSchedule.stepDelayRange
  split
  · rename_i t
    exact absurd rfl (h t)
  · rfl

/-- **The simplified parser** for the delay agrees with the other one. -/
lemma Entry.IsPlain.stepDelayRange {e : Entry} (he : e.IsPlain 0 59 []) (tail : List Char) :
    CronSchedule.stepDelayRange ((entryGrammar 0 59 []).chars e ++ ' ' :: tail) = e.delay := by
  obtain ⟨⟨bounds, step⟩, more⟩ := e
  obtain ⟨hbounds, hstep⟩ := he _ List.mem_cons_self
  match bounds, step with
  | .star, none =>
      refine stepDelayRange_eq fun t heq => ?_
      have htail := (List.cons.inj heq).2
      cases more with
      | nil => exact absurd (List.cons.inj htail).1 (by decide)
      | cons x more => exact absurd (List.cons.inj htail).1 (by decide)
  | .star, some (.number n) =>
      have hplain : (Value.number n).IsPlain 1 59 [] := hstep _ rfl
      have hvalue : n.value = digitsValue 10 n.digits := hplain.value_eq (lt_of_le_59 le_rfl)
      have htext : (entryGrammar 0 59 []).chars ⟨⟨.star, some (.number n)⟩, more⟩ ++ ' ' :: tail =
          '*' :: '/' ::
            (n.chars ++ (Grammar.manyChars ',' (elementGrammar 0 59 []) more ++ ' ' :: tail)) := by
        show '*' :: '/' :: (n.chars ++ _ ++ _) = _
        rw [List.append_assoc]
        rfl
      have hends : EndsElement (' ' :: tail) := by
        intro c hc
        obtain rfl := Option.some.inj hc
        decide
      have hread : strtoul 10
          (n.chars ++ (Grammar.manyChars ',' (elementGrammar 0 59 []) more ++ ' ' :: tail)) =
            some (n.value, Grammar.manyChars ',' (elementGrammar 0 59 []) more ++ ' ' :: tail) :=
        strtoul_eq_some_iff.mpr ⟨n, rfl, rfl, (endsElement_manyChars more hends).endsNumber⟩
      rw [htext]
      unfold CronSchedule.stepDelayRange
      simp only [hread]
      cases more with
      | nil =>
          show ((n.value : ℤ) * 60) = digitsValue 10 n.digits * 60
          rw [hvalue]
      | cons x more => rfl
  | .star, some (.name letters) => cases hstep _ rfl
  | .span v w, _ =>
      have hfits : (valueGrammar 0 59 []).Fits v [] :=
        hbounds.1.fits isDictionary_nil (lt_of_le_59 le_rfl) (by simp [EndsNumber])
      obtain ⟨c, cs, hchars, hc⟩ := Value.head_chars isDictionary_nil hfits
      refine stepDelayRange_eq fun t heq => ?_
      have hhead : (valueGrammar 0 59 []).chars v ++ _ ++ _ ++ _ ++ ' ' :: tail = '*' :: '/' :: t :=
        heq
      rw [hchars] at hhead
      obtain rfl : c = '*' := (List.cons.inj hhead).1
      revert hc
      decide

/-- The bits of a set within its bounds are the positions that have a property. -/
def IsPositions {MIN MAX : ℕ} (b : RangeBitSet MIN MAX) (P : ℕ → Prop) : Prop :=
  ∀ i, MIN ≤ i → i ≤ MAX → (b.get i = true ↔ P i)

/-- **The meaning of crontab.** -/
structure Crontab.Denotes (t : Crontab) (c : CronSchedule) : Prop where
  minutes : IsPositions c.minutes fun i => ∃ e ∈ t.minutes.elements, e.Covers 0 59 [] i
  hours : IsPositions c.hours fun i => ∃ e ∈ t.hours.elements, e.Covers 0 23 [] i
  daysOfMonth : IsPositions c.daysOfMonth fun i => ∃ e ∈ t.daysOfMonth.elements, e.Covers 1 31 [] i
  months : IsPositions c.months fun i => ∃ e ∈ t.months.elements, e.Covers 1 12 monthNames i
  daysOfWeek : IsPositions c.daysOfWeek fun i => ∃ e ∈ t.daysOfWeek.elements,
    e.Covers 0 7 daysOfWeekNames i ∨ (i = 0 ∧ e.Covers 0 7 daysOfWeekNames 7)
  daysAnyWildcard : c.daysAnyWildcard = true ↔
    ∃ e ∈ t.daysOfMonth.elements ++ t.daysOfWeek.elements, e.bounds = .star ∧ e.step = none
  delayRange : c.delayRange = t.minutes.delay

lemma Element.isWildcard_iff (e : Element) :
    e.isWildcard = true ↔ e.bounds = .star ∧ e.step = none := by
  rw [Element.isWildcard, Bool.and_eq_true, Option.isNone_iff_eq_none]
  refine and_congr_left fun _ => ?_
  cases e.bounds with
  | star => simp [Bounds.isStar]
  | span v w => simp [Bounds.isStar]

lemma Crontab.IsPlain.denotes {t : Crontab} (ht : t.IsPlain) :
    t.Denotes (t.line.schedule t.minutes.delay) where
  minutes _ := ht.minutes.add_get_iff (lt_of_le_59 le_rfl) (named_nil 0 59) false
  hours _ := ht.hours.add_get_iff (lt_of_le_59 (by omega)) (named_nil 0 23) false
  daysOfMonth _ := ht.daysOfMonth.add_get_iff (lt_of_le_59 (by omega)) (named_nil 1 31) false
  months _ := ht.months.add_get_iff (lt_of_le_59 (by omega))
    (CronSchedule.named_monthNames le_rfl) false
  daysOfWeek := by
    have hget {i : ℕ} (hi : i ≤ 7) := ht.daysOfWeek.add_get_iff (lt_of_le_59 (by omega))
      (CronSchedule.named_daysOfWeekNames (Nat.zero_le 1))
      ((t.daysOfMonth.add [] (.empty, false) : RangeBitSet 1 31 × Bool)).2 (Nat.zero_le i) hi
    intro i _ hi
    refine (CronSchedule.foldSunday_get_iff hi).trans ?_
    rw [Crontab.line, hget (by omega), hget le_rfl]
    constructor
    · rintro (⟨e, he, h⟩ | ⟨rfl, e, he, h⟩)
      · exact ⟨e, he, .inl h⟩
      · exact ⟨e, he, .inr ⟨rfl, h⟩⟩
    · rintro ⟨e, he, h | ⟨rfl, h⟩⟩
      · exact .inl ⟨e, he, h⟩
      · exact .inr ⟨rfl, e, he, h⟩
  daysAnyWildcard := by
    refine (Entry.add_wildcard t.daysOfWeek _).trans ?_
    rw [Crontab.line, Entry.add_wildcard]
    simp only [Bool.false_eq_true, false_or, Element.isWildcard_iff, List.mem_append, or_and_right,
      exists_or]
  delayRange := rfl

/-- **Well-formed schedules have the meaning of crontab.** -/
theorem parse_crontab (t : Crontab) (ht : t.IsPlain) :
    ∃ c, CronSchedule.parse t.text = .ok c ∧ t.Denotes c := by
  have hsplits := ht.isDocumented.splits
  obtain ⟨tail, htail⟩ : ∃ tail, lineGrammar.chars t.line =
      (entryGrammar 0 59 []).chars t.minutes ++ ' ' :: tail := ⟨_, rfl⟩
  have hdelay : CronSchedule.stepDelayRange (lineGrammar.chars t.line) = t.minutes.delay := by
    rw [htail]
    exact ht.minutes.stepDelayRange tail
  refine ⟨t.line.schedule t.minutes.delay, ?_, ht.denotes⟩
  unfold CronSchedule.parse CronSchedule.parseWith Crontab.text
  rw [String.toList_ofList]
  split
  · rename_i s hs
    rw [hs] at hsplits
    exact absurd hsplits not_splits_at
  · rw [hdelay]
    exact parseFields_eq_ok_iff.mpr ⟨t.line, hsplits, rfl⟩

/-- A schedule with every kind of list element. -/
def officeHours : Crontab :=
  let number (c : Char) (h : isDigitIn 10 c = true) : Value :=
    .number (.plain [c] (by simp [h]) (by simp))
  { minutes := ⟨⟨.star, some (number '5' rfl)⟩, []⟩
    hours := ⟨⟨.span (number '8' rfl) none, none⟩,
      [⟨.span (number '0' rfl) (some (number '6' rfl)), some (number '2' rfl)⟩]⟩
    daysOfMonth := ⟨⟨.star, none⟩, []⟩
    months := ⟨⟨.span (.name "JAN".toList) (some (number '7' rfl)), none⟩, []⟩
    daysOfWeek := ⟨⟨.span (.name "mon".toList) (some (.name "Fri".toList)), none⟩, []⟩ }

theorem parse_crontab_officeHours :
    officeHours.text = "*/5 8,0-6/2 * JAN-7 mon-Fri" ∧
      ∃ c, CronSchedule.parse officeHours.text = .ok c ∧ officeHours.Denotes c := by
  refine ⟨by decide, parse_crontab officeHours ⟨?_, ?_, ?_, ?_, ?_⟩⟩ <;> decide

end Workshop.Cron

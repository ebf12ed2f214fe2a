import Workshop.Cron.CrontabMeaning

/-!
# The positions the schedule parser uses

`RangeBitSet` does not check positions.  Here the parser checks each position that it sets or tests.

A check makes no difference, for no string (`parseWith_eq`): numbers and names are between the
bounds, and so are the steps between them.  With what is known of the result, every schedule that is
accepted is well-formed (`parse_accepted`).
-/

namespace Workshop.Cron

open Workshop.Lib

/-! ## Positions that are checked -/

/-- A check that only fails for positions outside of the bounds. -/
def PositionCheck.AdmitsBounds (check : PositionCheck) : Prop :=
  ∀ MIN MAX positions, (∀ pos ∈ positions, MIN ≤ pos ∧ pos ≤ MAX) →
    check MIN MAX positions = .ok ()

/-- The check that fails for all of these. -/
def checked : PositionCheck := fun MIN MAX positions =>
  if ∀ pos ∈ positions, MIN ≤ pos ∧ pos ≤ MAX then .ok () else .error "Position out of bounds"

lemma checked_admitsBounds : checked.AdmitsBounds :=
  fun _ _ _ h => if_pos h

/-- The parser, with this check. -/
def CronSchedule.parseChecked (schedule : String) : Except String CronSchedule :=
  parseWith checked schedule

/-! ## The checks make no difference -/

/-- Sequences with the same first part. -/
lemma bind_congr_ok {ε α β : Type} {x : Except ε α} {f g : α → Except ε β}
    (h : ∀ a, x = .ok a → f a = g a) : x >>= f = x >>= g := by
  cases x with
  | error e => rfl
  | ok a => exact h a rfl

section Checks

variable {check : PositionCheck} {MIN MAX : ℕ} {dictionary : List (String × ℕ)}

lemma PositionCheck.AdmitsBounds.range (h : check.AdmitsBounds) {first last step : ℕ}
    (hfirst : MIN ≤ first) (hlast : last ≤ MAX) (hstep : 1 ≤ step) :
    check MIN MAX (rangePositions first last step) = .ok () := by
  refine h MIN MAX _ fun pos hpos => ?_
  obtain ⟨hlo, hhi, -⟩ := (mem_range_iff hstep).mp hpos
  exact ⟨hfirst.trans hlo, hhi.trans hlast⟩

/-- One list element: its first and its last position are between the bounds. -/
lemma parseNumericRangeBitSet_eq (h : check.AdmitsBounds) (hle : MIN ≤ MAX)
    (hnamed : Named MIN MAX dictionary) (hnamed' : Named 1 MAX dictionary)
    (b : RangeBitSet MIN MAX) (wildcard : Bool) (s : List Char) :
    parseNumericRangeBitSet check dictionary b wildcard s =
      parseNumericRangeBitSet unchecked dictionary b wildcard s := by
  refine bind_congr_ok fun ⟨⟨first, last, wildcard'⟩, rest⟩ hbounds => ?_
  obtain ⟨hfirst, -, hlast⟩ := parseBounds_spec hle hnamed hbounds
  refine bind_congr_ok fun ⟨step, rest'⟩ hstep => ?_
  have hpos := parseStep_pos hnamed' hstep
  dsimp only
  rw [h.range hfirst hlast hpos]
  rfl

lemma parseNumericList_eq (h : check.AdmitsBounds) (hle : MIN ≤ MAX)
    (hnamed : Named MIN MAX dictionary) (hnamed' : Named 1 MAX dictionary) (n : ℕ)
    (b : RangeBitSet MIN MAX) (wildcard : Bool) (s : List Char) :
    parseNumericList check dictionary n b wildcard s =
      parseNumericList unchecked dictionary n b wildcard s := by
  induction n generalizing b wildcard s with
  | zero => rfl
  | succ n ih =>
      rw [parseNumericList, parseNumericList, parseNumericRangeBitSet_eq h hle hnamed hnamed']
      refine bind_congr_ok fun r _ => ?_
      obtain ⟨⟨b', wildcard'⟩, rest⟩ := r
      dsimp only
      -- the loop goes on after a comma
      split
      · exact ih _ _ _
      · rfl

/-- A field, and what follows. -/
lemma parseNumericBitSet_bind {β : Type} {wildcard : Bool} {s : List Char}
    {f g : (RangeBitSet MIN MAX × Bool) × List Char → Except String β} (h : check.AdmitsBounds)
    (hle : MIN ≤ MAX) (hnamed : Named MIN MAX dictionary) (hnamed' : Named 1 MAX dictionary)
    (hmore : ∀ r, f r = g r) :
    parseNumericBitSet check dictionary wildcard s >>= f =
      parseNumericBitSet unchecked dictionary wildcard s >>= g := by
  unfold parseNumericBitSet
  dsimp only
  rw [parseNumericList_eq h hle hnamed hnamed']
  exact bind_congr_ok fun r _ => hmore r

end Checks

namespace CronSchedule

variable {check : PositionCheck}

lemma parseFields_eq (h : check.AdmitsBounds) (s : List Char) (delayRange : ℤ) :
    parseFields check s delayRange = parseFields unchecked s delayRange := by
  refine parseNumericBitSet_bind h (by omega) (named_nil 0 59) (named_nil 1 59)
    fun ⟨⟨minutes, _⟩, s⟩ => ?_
  refine parseNumericBitSet_bind h (by omega) (named_nil 0 23) (named_nil 1 23)
    fun ⟨⟨hours, _⟩, s⟩ => ?_
  refine parseNumericBitSet_bind h (by omega) (named_nil 1 31) (named_nil 1 31)
    fun ⟨⟨daysOfMonth, wildcard⟩, s⟩ => ?_
  refine parseNumericBitSet_bind h (by omega) (named_monthNames le_rfl)
    (named_monthNames le_rfl) fun ⟨⟨months, _⟩, s⟩ => ?_
  refine parseNumericBitSet_bind h (by omega) (named_daysOfWeekNames (by omega))
    (named_daysOfWeekNames le_rfl) fun ⟨⟨days, wildcard⟩, s⟩ => ?_
  have htested : check 0 7 (List.range 8) = .ok () :=
    h 0 7 _ fun pos hpos => ⟨Nat.zero_le pos, by rw [List.mem_range] at hpos; omega⟩
  have hset : check 0 6 (List.range 7) = .ok () :=
    h 0 6 _ fun pos hpos => ⟨Nat.zero_le pos, by rw [List.mem_range] at hpos; omega⟩
  dsimp only
  rw [htested, hset]
  rfl

lemma parseSpecial_eq (h : check.AdmitsBounds) (s : List Char) :
    parseSpecial check s = parseSpecial unchecked s := by
  have htranslated :
      parseSpecial.translated check s = parseSpecial.translated unchecked s := by
    unfold parseSpecial.translated
    cases translateSpecial s with
    | none => rfl
    | some special => exact parseFields_eq h special.1.toList special.2
  unfold parseSpecial
  by_cases honce : s = "once".toList
  · rw [if_pos honce, if_pos honce]
  · rw [if_neg honce, if_neg honce]
    cases strtoul 10 s with
    | none => exact htranslated
    | some number =>
        obtain ⟨multiplier, rest⟩ := number
        by_cases hhourly : rest = "hourly".toList
        · simp only [if_pos hhourly]
          by_cases hrange : multiplier < 1 ∨ 24 < multiplier
          · rw [if_pos hrange, if_pos hrange]
          · have hminutes : check 0 59 [0] = .ok () :=
              h 0 59 _ fun pos hpos => by rw [List.mem_singleton] at hpos; omega
            have hhours : check 0 23 (rangePositions 0 23 multiplier) = .ok () :=
              h.range (Nat.zero_le 0) (Nat.le_refl 23) (by omega)
            rw [if_neg hrange, if_neg hrange, hminutes, hhours]
            rfl
        · simp only [if_neg hhourly]
          exact htranslated

/-- **The checks make no difference.**  No string makes the parser use a position outside of the
bounds of its set. -/
theorem parseWith_eq (h : check.AdmitsBounds) (schedule : String) :
    parseWith check schedule = parse schedule := by
  unfold parse parseWith
  split
  · exact parseSpecial_eq h _
  · exact parseFields_eq h _ _

/-! ## Schedules that are accepted -/

lemma isOnce_once : once.isOnce = true := by decide

/-- **Schedules that are accepted are well-formed.**  All positions that the parser used are within
the bounds of their sets; and the schedule is `@once`, or all its sets have a position and one of
the day sets is full if one of the day fields was a wildcard. -/
theorem parse_accepted {schedule : String} {c : CronSchedule} (h : parse schedule = .ok c) :
    parseChecked schedule = .ok c ∧ (c.isOnce = true ↔ schedule = "@once") ∧
      (schedule ≠ "@once" → c.minutes.Nonempty ∧ c.hours.Nonempty ∧ c.daysOfMonth.Nonempty ∧
        c.months.Nonempty ∧ c.daysOfWeek.Nonempty) ∧
      (c.daysAnyWildcard = true → c.daysOfMonth.IsFull ∨ c.daysOfWeek.IsFull) := by
  have hchecked : parseChecked schedule = .ok c :=
    (parseWith_eq checked_admitsBounds schedule).trans h
  refine ⟨hchecked, ?_⟩
  rcases parse_wellFormed h with ⟨rfl, rfl⟩ | hwell
  · refine ⟨iff_of_true isOnce_once rfl, fun hne => absurd rfl hne, fun hwild => ?_⟩
    exact absurd hwild Bool.false_ne_true
  · have hne : schedule ≠ "@once" := by
      rintro rfl
      obtain rfl : once = c := Except.ok.inj h
      exact absurd (isOnce_once.symm.trans hwell.isOnce) (by decide)
    refine ⟨iff_of_false ?_ hne, fun _ => ?_, hwell.wildcard⟩
    · exact fun honce => absurd (honce.symm.trans hwell.isOnce) (by decide)
    · exact ⟨hwell.minutes, hwell.hours, hwell.daysOfMonth, hwell.months, hwell.daysOfWeek⟩

theorem parse_accepted_sunday : ∃ c, parse "*/20 6,18 * jan-jun sun" = .ok c ∧
    parseChecked "*/20 6,18 * jan-jun sun" = .ok c ∧ c.daysOfWeek.Nonempty ∧
      (c.daysAnyWildcard = true → c.daysOfMonth.IsFull ∨ c.daysOfWeek.IsFull) := by
  have hsome : (parse "*/20 6,18 * jan-jun sun").toOption.isSome = true := by decide +kernel
  cases hparse : parse "*/20 6,18 * jan-jun sun" with
  | error message =>
      rw [hparse] at hsome
      cases hsome
  | ok c =>
      obtain ⟨hchecked, -, hsets, hwildcard⟩ := parse_accepted hparse
      exact ⟨c, rfl, hchecked, (hsets (by decide +kernel)).2.2.2.2, hwildcard⟩

end CronSchedule

end Workshop.Cron

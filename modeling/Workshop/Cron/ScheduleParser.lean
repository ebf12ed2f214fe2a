import Workshop.Cron.Schedule
import Workshop.Lib.CString
import Workshop.Lib.Except

/-!
# Parsing cron schedules

The constructor `CronSchedule::CronSchedule(const char *)` of `src/cron/Schedule.cxx`, on the
characters of a NUL-terminated string.  Each helper takes the rest of the string and returns what
it leaves, as the source moves its `const char *&`; exceptions are `Except.error` with the
message of the source.

`strtoul` and `StripLeft` follow the C library and libcommon: the former skips white space,
accepts a sign and saturates, the latter skips every character up to the space.

`RangeBitSet` does not check positions: `operator[]` outside of the bounds is undefined, and `set`
ends the program.  So the parser is generic over what is done with positions before they are set or
tested; that of the source (`parse`) does nothing with them.

A parsed schedule other than `@once` has a minute and an hour to run at (`parse_walkable`), which
is what makes `CronSchedule.next` sound on it.
-/

namespace Workshop.Cron

open Workshop.Lib

/-! ## Names -/

def monthNames : List (String × ℕ) :=
  [("jan", 1), ("feb", 2), ("mar", 3), ("apr", 4), ("may", 5), ("jun", 6), ("jul", 7),
    ("aug", 8), ("sep", 9), ("oct", 10), ("nov", 11), ("dec", 12)]

def daysOfWeekNames : List (String × ℕ) :=
  [("mon", 1), ("tue", 2), ("wed", 3), ("thu", 4), ("fri", 5), ("sat", 6), ("sun", 7)]

/-- `LookupCronSymbol`: the value of the first name the string starts with, in any letter case,
and the rest.  An empty dictionary stands for the null pointer. -/
def lookupCronSymbol (s : List Char) (dictionary : List (String × ℕ)) : Option (ℕ × List Char) :=
  (dictionary.find? fun e =>
    (s.take e.1.length).map Char.toLower == e.1.toList).map fun e => (e.2, s.drop e.1.length)

/-! ## Fields -/

/-- What is done with positions of a `RangeBitSet<MIN, MAX>` before they are set or tested. -/
abbrev PositionCheck := (MIN MAX : ℕ) → List ℕ → Except String Unit

/-- Positions are not checked. -/
def unchecked : PositionCheck := fun _ _ _ => .ok ()

/-- `ParseNumber<MIN, MAX>`. -/
def parseNumber (MIN MAX : ℕ) (dictionary : List (String × ℕ)) (s : List Char) :
    Except String (ℕ × List Char) :=
  match strtoul 10 s with
  | none =>
    match lookupCronSymbol s dictionary with
    | some r => .ok r
    | none => .error "Failed to parse number"
  | some (value, rest) =>
    if value < MIN then .error "Number is too small"
    else if MAX < value then .error "Number is too large"
    else .ok (value, rest)

/-- The positions of `for (i = first; i <= last; i += step)`. -/
abbrev rangePositions (first last step : ℕ) : List ℕ :=
  List.range' first ((last + step - first) / step) step

/-- `MakeRangeBitSet`, which sets them. -/
def makeRangeBitSet {MIN MAX : ℕ} (b : RangeBitSet MIN MAX) (first last step : ℕ) :
    RangeBitSet MIN MAX :=
  (rangePositions first last step).foldl RangeBitSet.set b

/-- The bounds of a list element: `*`, a number, or a range of numbers.  The flag is the
`wildcard` of the source. -/
def parseBounds (MIN MAX : ℕ) (dictionary : List (String × ℕ)) (wildcard : Bool) :
    List Char → Except String ((ℕ × ℕ × Bool) × List Char)
  | '*' :: rest => .ok ((MIN, MAX, wildcard || rest.head? != some '/'), rest)
  | s => do
    let (first, rest) ← parseNumber MIN MAX dictionary s
    match rest with
    | '-' :: rest => do
      let (last, rest) ← parseNumber MIN MAX dictionary rest
      if last < first then throw "Malformed range"
      return ((first, last, wildcard), rest)
    | rest => return ((first, first, wildcard), rest)

/-- The optional step of a list element. -/
def parseStep (MAX : ℕ) (dictionary : List (String × ℕ)) :
    List Char → Except String (ℕ × List Char)
  | '/' :: rest => parseNumber 1 MAX dictionary rest
  | s => .ok (1, s)

/-- `ParseNumericRangeBitSet`: one element of a comma-separated list. -/
def parseNumericRangeBitSet (check : PositionCheck) {MIN MAX : ℕ} (dictionary : List (String × ℕ))
    (b : RangeBitSet MIN MAX) (wildcard : Bool) (s : List Char) :
    Except String ((RangeBitSet MIN MAX × Bool) × List Char) := do
  let ((first, last, wildcard), rest) ← parseBounds MIN MAX dictionary wildcard s
  let (step, rest) ← parseStep MAX dictionary rest
  check MIN MAX (rangePositions first last step)
  return ((makeRangeBitSet b first last step, wildcard), rest)

/-- The loop of `ParseNumericBitSet` over the list elements.  Every further element needs a comma,
so the length of the string bounds the number of iterations. -/
def parseNumericList (check : PositionCheck) {MIN MAX : ℕ} (dictionary : List (String × ℕ)) :
    ℕ → RangeBitSet MIN MAX → Bool → List Char →
      Except String ((RangeBitSet MIN MAX × Bool) × List Char)
  | 0, _, _, _ => .error "Failed to parse number"
  | n + 1, b, wildcard, s => do
    let ((b, wildcard), rest) ← parseNumericRangeBitSet check dictionary b wildcard s
    match rest with
    | ',' :: rest => parseNumericList check dictionary n b wildcard rest
    | rest => return ((b, wildcard), rest)

/-- `ParseNumericBitSet`: one field of the schedule. -/
def parseNumericBitSet (check : PositionCheck) {MIN MAX : ℕ} (dictionary : List (String × ℕ))
    (wildcard : Bool) (s : List Char) :
    Except String ((RangeBitSet MIN MAX × Bool) × List Char) :=
  let s := stripLeft s
  parseNumericList check dictionary (s.length + 1) .empty wildcard s

/-! ## The constructor -/

/-- `cron_special_schedules`: nickname, regular schedule and delay range in seconds. -/
def cronSpecialSchedules : List (String × String × ℤ) :=
  [("yearly", "0 0 1 1 *", 24 * 365 * 3600), ("annually", "0 0 1 1 *", 24 * 365 * 3600),
    ("monthly", "0 0 1 * *", 24 * 28 * 3600), ("weekly", "0 0 * * 0", 24 * 7 * 3600),
    ("daily", "0 0 * * *", 24 * 3600), ("midnight", "0 0 * * *", 3600),
    ("hourly", "0 * * * *", 3600)]

/-- `TranslateSpecial`. -/
def translateSpecial (s : List Char) : Option (String × ℤ) :=
  (cronSpecialSchedules.find? fun e => e.1.toList == s).map Prod.snd

namespace CronSchedule

/-- The schedule `@once`, which is not delayed. -/
def once : CronSchedule := { delayRange := 0 }

/-- The schedule `@Nhourly`. -/
def hourly (multiplier : ℕ) : CronSchedule where
  minutes := RangeBitSet.empty.set 0
  hours := makeRangeBitSet .empty 0 23 multiplier
  daysOfMonth := .full
  months := .full
  daysOfWeek := .full
  daysAnyWildcard := true
  delayRange := multiplier * 3600

/-- The simplified parser that only calculates the delay range: `*/N` at the start of the
schedule, unless it is the first of several list elements. -/
def stepDelayRange (s : List Char) : ℤ :=
  match s with
  | '*' :: '/' :: t =>
    match strtoul 10 t with
    | some (value, rest) => if rest.head? != some ',' then value * 60 else 60
    | none => 60
  | _ => 60

/-- `_days_of_week` has a position 7 for Sunday, which is folded into position 0. -/
def foldSunday (b : RangeBitSet 0 7) : RangeBitSet 0 6 :=
  let folded : RangeBitSet 0 6 :=
    (List.range 7).foldl (fun r i => if b.get i then r.set i else r) .empty
  if b.get 7 then folded.set 0 else folded

/-- The five fields. -/
def parseFields (check : PositionCheck) (s : List Char) (delayRange : ℤ) :
    Except String CronSchedule := do
  let ((minutes, _), s) ← parseNumericBitSet check [] false s
  let ((hours, _), s) ← parseNumericBitSet check [] false s
  let ((daysOfMonth, wildcard), s) ← parseNumericBitSet check [] false s
  let ((months, _), s) ← parseNumericBitSet check monthNames false s
  let ((daysOfWeek, wildcard), s) ← parseNumericBitSet check daysOfWeekNames wildcard s
  -- `_days_of_week` is tested, and `days_of_week` is set
  check 0 7 (List.range 8)
  check 0 6 (List.range 7)
  if stripLeft s != [] then throw "Garbage at end of schedule"
  return { minutes, hours, daysOfMonth, months, daysOfWeek := foldSunday daysOfWeek, delayRange,
           daysAnyWildcard := wildcard }

/-- `CronSchedule::CronSchedule` for a string starting with `@`, given the rest of it. -/
def parseSpecial (check : PositionCheck) (s : List Char) : Except String CronSchedule :=
  if s = "once".toList then .ok once
  else
    match strtoul 10 s with
    | some (multiplier, rest) =>
      if rest = "hourly".toList then
        if multiplier < 1 ∨ 24 < multiplier then .error "Invalid '@hourly' multiplier"
        else do
          check 0 59 [0]
          check 0 23 (rangePositions 0 23 multiplier)
          return hourly multiplier
      else translated
    | none => translated
where
  translated : Except String CronSchedule :=
    match translateSpecial s with
    | none => .error "Unsupported 'special' cron schedule"
    | some (regular, delayRange) => parseFields check regular.toList delayRange

/-- `CronSchedule::CronSchedule`, with a check of positions. -/
def parseWith (check : PositionCheck) (schedule : String) : Except String CronSchedule :=
  match schedule.toList with
  | '@' :: s => parseSpecial check s
  | s => parseFields check s (stepDelayRange s)

/-- `CronSchedule::CronSchedule`. -/
def parse (schedule : String) : Except String CronSchedule :=
  parseWith unchecked schedule

end CronSchedule

/-! ## Parsed schedules can be walked -/

variable {check : PositionCheck}

/-- Every name of a dictionary stands for a value between the bounds. -/
def Named (MIN MAX : ℕ) (dictionary : List (String × ℕ)) : Prop :=
  ∀ e ∈ dictionary, MIN ≤ e.2 ∧ e.2 ≤ MAX

theorem parseNumber_bounds {MIN MAX : ℕ} {dictionary : List (String × ℕ)}
    (hd : Named MIN MAX dictionary) {s rest : List Char} {v : ℕ}
    (h : parseNumber MIN MAX dictionary s = .ok (v, rest)) : MIN ≤ v ∧ v ≤ MAX := by
  simp only [parseNumber] at h
  split at h
  · split at h
    · rename_i r hr
      obtain ⟨e, he, hev⟩ := Option.map_eq_some_iff.mp hr
      cases h
      cases hev
      exact hd e (List.mem_of_find?_eq_some he)
    · cases h
  · split at h
    · cases h
    · split at h
      · cases h
      · cases h
        omega

theorem parseBounds_spec {MIN MAX : ℕ} (hle : MIN ≤ MAX) {dictionary : List (String × ℕ)}
    (hd : Named MIN MAX dictionary) {wildcard w : Bool} {s rest : List Char} {first last : ℕ}
    (h : parseBounds MIN MAX dictionary wildcard s = .ok ((first, last, w), rest)) :
    MIN ≤ first ∧ first ≤ last ∧ last ≤ MAX := by
  unfold parseBounds at h
  split at h
  · cases h
    exact ⟨le_rfl, hle, le_rfl⟩
  · obtain ⟨⟨v, r⟩, hfirst, h⟩ := bind_eq_ok_iff.mp h
    have hv := parseNumber_bounds hd hfirst
    dsimp only at h
    split at h
    · obtain ⟨⟨v', r'⟩, hlast, h⟩ := bind_eq_ok_iff.mp h
      have hv' := parseNumber_bounds hd hlast
      dsimp only at h
      split at h
      · cases h
      · cases h
        omega
    · cases h
      omega

theorem parseStep_pos {MAX : ℕ} {dictionary : List (String × ℕ)} (hd : Named 1 MAX dictionary)
    {s rest : List Char} {step : ℕ} (h : parseStep MAX dictionary s = .ok (step, rest)) :
    1 ≤ step := by
  unfold parseStep at h
  split at h
  · exact (parseNumber_bounds hd h).1
  · cases h
    exact le_rfl

theorem foldl_set_get {MIN MAX : ℕ} {b : RangeBitSet MIN MAX} {l : List ℕ} {i : ℕ}
    (h : b.get i = true ∨ (i ∈ l ∧ MIN ≤ i ∧ i ≤ MAX)) :
    (l.foldl RangeBitSet.set b).get i = true := by
  induction l generalizing b with
  | nil => simpa using h
  | cons j l ih =>
      apply ih
      rcases h with h | ⟨hmem, hlo, hhi⟩
      · exact .inl (RangeBitSet.get_set_of_get h)
      · rcases List.mem_cons.mp hmem with rfl | hmem
        · exact .inl (RangeBitSet.get_set_self hlo hhi)
        · exact .inr ⟨hmem, hlo, hhi⟩

theorem makeRangeBitSet_first {MIN MAX : ℕ} (b : RangeBitSet MIN MAX) {first last step : ℕ}
    (hlo : MIN ≤ first) (hfl : first ≤ last) (hhi : last ≤ MAX) (hstep : 1 ≤ step) :
    (makeRangeBitSet b first last step).get first = true := by
  refine foldl_set_get (.inr ⟨?_, hlo, hfl.trans hhi⟩)
  rw [List.mem_range']
  refine ⟨0, ?_, by simp⟩
  exact Nat.div_pos (by omega) hstep

theorem parseNumericRangeBitSet_nonempty {MIN MAX : ℕ} (hle : MIN ≤ MAX)
    {dictionary : List (String × ℕ)} (hd : Named MIN MAX dictionary)
    (hd1 : Named 1 MAX dictionary) {b b' : RangeBitSet MIN MAX} {wildcard w : Bool}
    {s rest : List Char}
    (h : parseNumericRangeBitSet check dictionary b wildcard s = .ok ((b', w), rest)) :
    b'.Nonempty := by
  obtain ⟨⟨⟨first, last, w'⟩, rest'⟩, hbounds, h⟩ := bind_eq_ok_iff.mp h
  obtain ⟨⟨step, rest''⟩, hstep, h⟩ := bind_eq_ok_iff.mp h
  obtain ⟨-, -, h⟩ := bind_eq_ok_iff.mp h
  obtain ⟨hlo, hfl, hhi⟩ := parseBounds_spec hle hd hbounds
  have hpos : 1 ≤ step := parseStep_pos hd1 hstep
  cases h
  exact ⟨first, hlo, hfl.trans hhi, makeRangeBitSet_first b hlo hfl hhi hpos⟩

theorem parseNumericList_nonempty {MIN MAX : ℕ} (hle : MIN ≤ MAX)
    {dictionary : List (String × ℕ)} (hd : Named MIN MAX dictionary)
    (hd1 : Named 1 MAX dictionary) {n : ℕ} {b b' : RangeBitSet MIN MAX} {wildcard w : Bool}
    {s rest : List Char}
    (h : parseNumericList check dictionary n b wildcard s = .ok ((b', w), rest)) :
    b'.Nonempty := by
  induction n generalizing b wildcard s with
  | zero => cases h
  | succ n ih =>
      obtain ⟨⟨⟨b₁, w₁⟩, rest₁⟩, hfirst, h⟩ := bind_eq_ok_iff.mp h
      have hb := parseNumericRangeBitSet_nonempty hle hd hd1 hfirst
      dsimp only at h
      split at h
      · exact ih h
      · cases h
        exact hb

theorem makeRangeBitSet_get_of_get {MIN MAX : ℕ} {b : RangeBitSet MIN MAX} {first last step i : ℕ}
    (h : b.get i = true) : (makeRangeBitSet b first last step).get i = true :=
  foldl_set_get (.inl h)

theorem makeRangeBitSet_isFull {MIN MAX : ℕ} (b : RangeBitSet MIN MAX) :
    (makeRangeBitSet b MIN MAX 1).IsFull := by
  intro i hlo hhi
  refine foldl_set_get (.inr ⟨?_, hlo, hhi⟩)
  rw [List.mem_range']
  exact ⟨i - MIN, by omega, by omega⟩

/-- A list element raises the wildcard flag only by setting all bits, and clears none. -/
theorem parseNumericRangeBitSet_wildcard {MIN MAX : ℕ} {dictionary : List (String × ℕ)}
    {b b' : RangeBitSet MIN MAX} {wildcard w : Bool} {s rest : List Char}
    (h : parseNumericRangeBitSet check dictionary b wildcard s = .ok ((b', w), rest)) :
    (w = true → wildcard = true ∨ b'.IsFull) ∧ ∀ i, b.get i = true → b'.get i = true := by
  obtain ⟨⟨⟨first, last, w'⟩, rest'⟩, hv, h⟩ := bind_eq_ok_iff.mp h
  obtain ⟨⟨step, rest''⟩, hq, h⟩ := bind_eq_ok_iff.mp h
  obtain ⟨-, -, h⟩ := bind_eq_ok_iff.mp h
  cases h
  refine ⟨fun hw => ?_, fun i => makeRangeBitSet_get_of_get⟩
  unfold parseBounds at hv
  split at hv
  · rename_i r
    cases hv
    rcases Bool.or_eq_true_iff.mp hw with hw | hslash
    · exact .inl hw
    · -- no slash behind the star: the step is one
      right
      have hstep : step = 1 := by
        unfold parseStep at hq
        split at hq
        · simp at hslash
        · cases hq
          rfl
      rw [hstep]
      exact makeRangeBitSet_isFull b
  · left
    obtain ⟨⟨v, r⟩, -, hv⟩ := bind_eq_ok_iff.mp hv
    dsimp only at hv
    split at hv
    · obtain ⟨⟨v', r'⟩, -, hv⟩ := bind_eq_ok_iff.mp hv
      dsimp only at hv
      split at hv
      · cases hv
      · cases hv
        exact hw
    · cases hv
      exact hw

theorem parseNumericList_wildcard {MIN MAX : ℕ} {dictionary : List (String × ℕ)} {n : ℕ}
    {b b' : RangeBitSet MIN MAX} {wildcard w : Bool} {s rest : List Char}
    (h : parseNumericList check dictionary n b wildcard s = .ok ((b', w), rest)) :
    (w = true → wildcard = true ∨ b'.IsFull) ∧ ∀ i, b.get i = true → b'.get i = true := by
  induction n generalizing b wildcard s with
  | zero => cases h
  | succ n ih =>
      obtain ⟨⟨⟨b₁, w₁⟩, rest₁⟩, hfirst, h⟩ := bind_eq_ok_iff.mp h
      obtain ⟨hw₁, hkeep₁⟩ := parseNumericRangeBitSet_wildcard hfirst
      dsimp only at h
      split at h
      · obtain ⟨hw, hkeep⟩ := ih h
        refine ⟨fun htrue => ?_, fun i hi => hkeep i (hkeep₁ i hi)⟩
        rcases hw htrue with htrue₁ | hfull
        · exact (hw₁ htrue₁).imp_right fun hfull i hlo hhi => hkeep i (hfull i hlo hhi)
        · exact .inr hfull
      · cases h
        exact ⟨hw₁, hkeep₁⟩

theorem named_nil (MIN MAX : ℕ) : Named MIN MAX [] := by simp [Named]

namespace CronSchedule

/-- Sunday is the first day as well as the last one. -/
lemma foldSunday_get_iff {b : RangeBitSet 0 7} {i : ℕ} (hi : i ≤ 6) :
    (foldSunday b).get i = true ↔ b.get i = true ∨ (i = 0 ∧ b.get 7 = true) := by
  have hfold : ∀ (l : List ℕ) (r : RangeBitSet 0 6),
      (l.foldl (fun r i => if b.get i then r.set i else r) r).get i = true ↔
        r.get i = true ∨ (i ∈ l ∧ b.get i = true) := by
    intro l
    induction l with
    | nil => simp
    | cons j l ih =>
        intro r
        rw [List.foldl_cons, ih, List.mem_cons]
        by_cases hj : b.get j = true
        · rw [if_pos hj, RangeBitSet.get_set_iff (Nat.zero_le _) (Nat.zero_le _) hi]
          constructor
          · rintro ((h | rfl) | ⟨h, hb⟩)
            · exact .inl h
            · exact .inr ⟨.inl rfl, hj⟩
            · exact .inr ⟨.inr h, hb⟩
          · rintro (h | ⟨rfl | h, hb⟩)
            · exact .inl (.inl h)
            · exact .inl (.inr rfl)
            · exact .inr ⟨h, hb⟩
        · rw [if_neg hj]
          refine or_congr_right ⟨fun ⟨h, hb⟩ => ⟨.inr h, hb⟩, ?_⟩
          rintro ⟨rfl | h, hb⟩
          · exact absurd hb hj
          · exact ⟨h, hb⟩
  have hdays : ((List.range 7).foldl (fun r i => if b.get i then r.set i else r)
      (.empty : RangeBitSet 0 6)).get i = true ↔ b.get i = true := by
    rw [hfold, List.mem_range]
    constructor
    · rintro (h | h)
      · simp [RangeBitSet.get, RangeBitSet.empty] at h
      · exact h.2
    · exact fun h => .inr ⟨by omega, h⟩
  unfold foldSunday
  by_cases hsunday : b.get 7 = true
  · simp only [hsunday, if_true, and_true]
    rw [RangeBitSet.get_set_iff le_rfl (Nat.zero_le _) hi, hdays]
  · simp only [hsunday, if_false, and_false, or_false, Bool.false_eq_true]
    exact hdays

theorem foldSunday_get {b : RangeBitSet 0 7} {i : ℕ} (hi : i ≤ 6) (h : b.get i = true) :
    (foldSunday b).get i = true :=
  (foldSunday_get_iff hi).mpr (.inl h)

theorem foldSunday_nonempty {b : RangeBitSet 0 7} (hb : b.Nonempty) : (foldSunday b).Nonempty := by
  obtain ⟨i, _, hhi, hi⟩ := hb
  by_cases hsunday : i = 7
  · subst hsunday
    exact ⟨0, le_rfl, by omega, (foldSunday_get_iff (by omega)).mpr (.inr ⟨rfl, hi⟩)⟩
  · exact ⟨i, Nat.zero_le _, by omega, foldSunday_get (by omega) hi⟩

/-- What the parser makes sure of, unless the schedule is `@once`. -/
structure WellFormed (c : CronSchedule) : Prop where
  minutes : c.minutes.Nonempty
  hours : c.hours.Nonempty
  daysOfMonth : c.daysOfMonth.Nonempty
  months : c.months.Nonempty
  daysOfWeek : c.daysOfWeek.Nonempty
  wildcard : c.daysAnyWildcard = true → c.daysOfMonth.IsFull ∨ c.daysOfWeek.IsFull

theorem WellFormed.isOnce {c : CronSchedule} (hc : c.WellFormed) : c.isOnce = false := by
  simp [CronSchedule.isOnce, RangeBitSet.none_eq_false hc.minutes]

theorem WellFormed.walkable {c : CronSchedule} (hc : c.WellFormed) : c.Walkable :=
  .inr ⟨hc.minutes, hc.hours⟩

theorem named_monthNames {MIN : ℕ} (h : MIN ≤ 1) : Named MIN 12 monthNames := by
  intro e he
  have hbounds : ∀ e ∈ monthNames, 1 ≤ e.2 ∧ e.2 ≤ 12 := by decide
  exact ⟨h.trans (hbounds e he).1, (hbounds e he).2⟩

theorem named_daysOfWeekNames {MIN : ℕ} (h : MIN ≤ 1) : Named MIN 7 daysOfWeekNames := by
  intro e he
  have hbounds : ∀ e ∈ daysOfWeekNames, 1 ≤ e.2 ∧ e.2 ≤ 7 := by decide
  exact ⟨h.trans (hbounds e he).1, (hbounds e he).2⟩

theorem parseFields_wellFormed {s : List Char} {delayRange : ℤ} {c : CronSchedule}
    (h : parseFields check s delayRange = .ok c) : c.WellFormed := by
  obtain ⟨minutes, hmin, h⟩ := bind_eq_ok_iff.mp h
  obtain ⟨hours, hhour, h⟩ := bind_eq_ok_iff.mp h
  obtain ⟨daysOfMonth, hdom, h⟩ := bind_eq_ok_iff.mp h
  obtain ⟨months, hmonth, h⟩ := bind_eq_ok_iff.mp h
  obtain ⟨daysOfWeek, hdow, h⟩ := bind_eq_ok_iff.mp h
  obtain ⟨-, -, h⟩ := bind_eq_ok_iff.mp h
  obtain ⟨-, -, h⟩ := bind_eq_ok_iff.mp h
  dsimp only at h
  split at h
  · cases h
  obtain ⟨hdomWild, _⟩ := parseNumericList_wildcard hdom
  obtain ⟨hdowWild, _⟩ := parseNumericList_wildcard hdow
  cases h
  constructor
  · exact parseNumericList_nonempty (by omega) (named_nil 0 59) (named_nil 1 59) hmin
  · exact parseNumericList_nonempty (by omega) (named_nil 0 23) (named_nil 1 23) hhour
  · exact parseNumericList_nonempty (by omega) (named_nil 1 31) (named_nil 1 31) hdom
  · exact parseNumericList_nonempty (by omega) (named_monthNames le_rfl)
      (named_monthNames le_rfl) hmonth
  · exact foldSunday_nonempty (parseNumericList_nonempty (by omega)
      (named_daysOfWeekNames (by omega)) (named_daysOfWeekNames le_rfl) hdow)
  · intro hwild
    rcases hdowWild hwild with hwild | hfull
    · exact .inl ((hdomWild hwild).resolve_left (by simp))
    · exact .inr fun i _ hi => foldSunday_get hi (hfull i (Nat.zero_le i) (by omega))

theorem hourly_wellFormed {m : ℕ} (hm : 1 ≤ m) : (hourly m).WellFormed where
  minutes := ⟨0, le_rfl, by omega, RangeBitSet.get_set_self le_rfl (by omega)⟩
  hours := ⟨0, le_rfl, by omega, makeRangeBitSet_first .empty le_rfl (by omega) le_rfl hm⟩
  daysOfMonth := ⟨1, le_rfl, by omega, RangeBitSet.full_isFull 1 le_rfl (by omega)⟩
  months := ⟨1, le_rfl, by omega, RangeBitSet.full_isFull 1 le_rfl (by omega)⟩
  daysOfWeek := ⟨0, le_rfl, by omega, RangeBitSet.full_isFull 0 le_rfl (by omega)⟩
  wildcard := fun _ => .inl RangeBitSet.full_isFull

/-- **The parser's guarantee**: every string it accepts is `@once` or a well-formed schedule. -/
theorem parse_wellFormed {schedule : String} {c : CronSchedule} (h : parse schedule = .ok c) :
    (schedule = "@once" ∧ c = once) ∨ c.WellFormed := by
  have hspecial : ∀ s, parseSpecial.translated unchecked s = .ok c → c.WellFormed := by
    intro s hs
    unfold parseSpecial.translated at hs
    split at hs
    · cases hs
    · exact parseFields_wellFormed hs
  unfold parse parseWith at h
  split at h
  · rename_i s hs
    unfold parseSpecial at h
    split at h
    · rename_i honce
      cases h
      refine .inl ⟨String.toList_inj.mp ?_, rfl⟩
      rw [hs, honce]
      rfl
    · right
      split at h
      · split at h
        · split at h
          · cases h
          · rename_i hmul
            obtain rfl := Except.ok.inj h
            exact hourly_wellFormed (by omega)
        · exact hspecial s h
      · exact hspecial s h
  · exact .inr (parseFields_wellFormed h)

/-- **Every schedule the parser accepts can be walked.** -/
theorem parse_walkable {schedule : String} {c : CronSchedule} (h : parse schedule = .ok c) :
    c.Walkable := by
  rcases parse_wellFormed h with ⟨_, rfl⟩ | hc
  · exact .inl (by decide)
  · exact hc.walkable

-- the nickname, and the stepped minutes with their delay range
example : (parse "@2hourly").toOption.map delayRange = some 7200 := by decide
example : (parse "*/20 * * * *").toOption.map delayRange = some 1200 := by decide +kernel
example : (parse "* * * * feb").toOption = none := by decide +kernel

end CronSchedule

end Workshop.Cron

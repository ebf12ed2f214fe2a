import Workshop.Cron.ScheduleParser
import Workshop.Cron.Statements

/-!
# `CalculateNextRun`

One pass of the cron scheduler (`src/cron/CalculateNextRun.cxx`): select the jobs without
`next_run`, and for each of them parse the schedule, roll a random delay if there is none (or none
for this delay range), calculate the next run and write it.

Exceptions inside the loop are caught and logged, so that the next row is handled; the exception
of the `SELECT` itself is not, and a call of `CronSchedule::Next` that never returns ends the pass
as well.  A pass therefore has one of three outcomes (`PassStatus`), and the table it leaves.

The second half is about isolation: what a pass writes into a row is what it would write if the
row were alone in the table (`scheduleRows_find?`), except where the pass does not get to the row.
`dependsOnlyOnRow_iff` says exactly when it does not matter which other rows there are.
-/

namespace Workshop.Cron

open Workshop.Lib

/-! ## The pass -/

/-- `RandomInt64` and `RandomSeconds`; `draw` is what the random generator yields. -/
def randomSeconds (range : ℤ) (draw : ℕ) : ℤ := if range ≤ 1 then 0 else draw % range

/-- "generate a random delay if there is none yet (or if the range has changed, i.e. the schedule
has been modified)" -/
def needsDelay (row : ScheduleRow) (schedule : CronSchedule) : Bool :=
  row.delay.isNone || row.delayRange != some schedule.delayRange

/-- The last run with the old delay subtracted, "because it has been added previously". -/
def lastSlot (row : ScheduleRow) : Option ℤ :=
  row.lastRun.map fun t => t - row.delay.getD 0 * second

/-- The new `next_run`, in the time zone of the job; `none` if `CronSchedule::Next` never
returns. -/
def nextRunOf (schedule : CronSchedule) (row : ScheduleRow) (delay : ℤ) : Option Timestamp :=
  (schedule.next (lastSlot row) row.now).map fun t => t.add (delay * second)

/-- How a pass ends: after the last row, with the exception of the `SELECT`, or never. -/
inductive PassStatus
  | finished
  | aborted
  | hanging
  deriving DecidableEq, Repr

section Pass

variable (zones : String → Option Zone) (draw : ℕ → ℕ)

/-- The end of one iteration, with the delay known: calculate and write `next_run`.  The flag
says whether the iteration ends. -/
def writeNextRun (schedule : CronSchedule) (row : ScheduleRow) (delay : ℤ) (t : CronTable) :
    CronTable × Bool :=
  match nextRunOf schedule row delay with
  | none => (t, false)
  | some nextRun => (t.exec (updateNextRun zones row.id row.schedule row.lastRun nextRun), true)

/-- One iteration of the loop. -/
def scheduleJob (row : ScheduleRow) (t : CronTable) : CronTable × Bool :=
  match CronSchedule.parse row.schedule with
  | .error _ => (t, true)
  | .ok schedule =>
    if needsDelay row schedule then
      let delay := randomSeconds schedule.delayRange (draw row.id)
      let u := makeRandomDelay row.id row.schedule delay schedule.delayRange
      -- `throw LostRace{}`
      if t.affected u = 0 then (t, true)
      else writeNextRun zones schedule row delay (t.exec u)
    else writeNextRun zones schedule row (row.delay.getD 0) t

/-- The loop. -/
def scheduleRows : List ScheduleRow → CronTable → CronTable × PassStatus
  | [], t => (t, .finished)
  | row :: rows, t =>
    match scheduleJob zones draw row t with
    | (t, true) => scheduleRows rows t
    | (t, false) => (t, .hanging)

/-- `CalculateNextRun`. -/
def calculateNextRun (t : CronTable) (now : ℤ) : CronTable × PassStatus :=
  match selectJobsForScheduling zones t now with
  | none => (t, .aborted)
  | some rows => scheduleRows zones draw rows t

/-- The `next_run` of a job after one pass. -/
def nextRunAfter (t : CronTable) (now : ℤ) (id : ℕ) : Option Timestamp :=
  ((calculateNextRun zones draw t now).1.find? id).bind CronRow.nextRun

/-! ## What a pass makes of one row -/

/-- The `next_run` the pass calculates for a row, from the row, the clock and the random number
alone. -/
def ownNextRun (now : ℤ) (r : CronRow) : Option Timestamp := do
  let z ← timeZone zones r.tz
  let row ← scheduleRow zones now r
  let schedule ← (CronSchedule.parse r.schedule).toOption
  let delay := if needsDelay row schedule then randomSeconds schedule.delayRange (draw r.id)
    else row.delay.getD 0
  let nextRun ← nextRunOf schedule row delay
  return z.ofLocalTimestamp nextRun

end Pass

section Isolation

variable {zones : String → Option Zone} {draw : ℕ → ℕ} {now : ℤ}

/-- The zone of the row is one PostgreSQL knows. -/
def KnownZone (zones : String → Option Zone) (r : CronRow) : Prop := (timeZone zones r.tz).isSome

/-- The schedule of the row parses, and `CronSchedule::Next` returns for it. -/
def HasNext (zones : String → Option Zone) (now : ℤ) (r : CronRow) : Prop :=
  ∃ row schedule, scheduleRow zones now r = some row ∧
    CronSchedule.parse r.schedule = .ok schedule ∧
    (schedule.next (lastSlot row) row.now).isSome

/-- The schedule of the row parses, but `CronSchedule::Next` never returns for it. -/
def Hangs (zones : String → Option Zone) (now : ℤ) (r : CronRow) : Prop :=
  ∃ row schedule, scheduleRow zones now r = some row ∧
    CronSchedule.parse r.schedule = .ok schedule ∧
    schedule.next (lastSlot row) row.now = none

lemma makeRandomDelay_cond {id : ℕ} {schedule : String} {delay range : ℤ} {r : CronRow} :
    (makeRandomDelay id schedule delay range).cond r = true ↔
      r.id = id ∧ r.schedule = schedule ∧ r.enabled = true ∧ r.nextRun = none := by
  simp [makeRandomDelay, and_assoc]

lemma updateNextRun_cond {id : ℕ} {schedule : String} {lastRun : Option ℤ} {nextRun : Timestamp}
    {r : CronRow} : (updateNextRun zones id schedule lastRun nextRun).cond r = true ↔
      ∃ z, timeZone zones r.tz = some z ∧ r.id = id ∧ r.schedule = schedule ∧
        (r.lastRun = none ∨ r.lastRun.map z.toLocal = lastRun) ∧ r.enabled = true ∧
        r.nextRun = none := by
  rcases hz : timeZone zones r.tz with _ | z <;> simp [updateNextRun, hz, and_assoc]

lemma updateNextRun_set {id : ℕ} {schedule : String} {lastRun : Option ℤ} {nextRun : Timestamp}
    {r : CronRow} {z : Zone} (hz : timeZone zones r.tz = some z) :
    (updateNextRun zones id schedule lastRun nextRun).set r =
      { r with nextRun := some (z.ofLocalTimestamp nextRun) } := by
  simp [updateNextRun, hz]

lemma scheduleRow_eq_some {r : CronRow} {row : ScheduleRow} :
    scheduleRow zones now r = some row ↔ ∃ z, timeZone zones r.tz = some z ∧
      row = { id := r.id, schedule := r.schedule, lastRun := r.lastRun.map z.toLocal,
              delay := r.delay, delayRange := r.delayRange, now := z.toLocal now } := by
  simp [scheduleRow, eq_comm]

lemma find?_exec_of_ne {t : CronTable} {u : CronUpdate} {id j : ℕ}
    (hu : ∀ r, u.cond r = true → r.id = id) (hj : j ≠ id) :
    (t.exec u).find? j = t.find? j := by
  rw [Table.find?_exec]
  rcases hr : t.find? j with _ | r
  · rfl
  · have hcond : u.cond r = false := by
      by_contra h
      have hid : r.id = j := Table.key_of_find? hr
      exact hj (hid ▸ hu r (by simpa using h))
    simp [Update.apply_of_not_cond hcond]

lemma scheduleJob_find?_of_ne {row : ScheduleRow} {t : CronTable} {j : ℕ} (hj : j ≠ row.id) :
    (scheduleJob zones draw row t).1.find? j = t.find? j := by
  have hwrite : ∀ schedule delay t',
      (writeNextRun zones schedule row delay t').1.find? j = t'.find? j := by
    intro schedule delay t'
    unfold writeNextRun
    split
    · rfl
    · have hcond : ∀ nextRun (r : CronRow),
          (updateNextRun zones row.id row.schedule row.lastRun nextRun).cond r = true →
            r.id = row.id := by
        intro nextRun r hr
        obtain ⟨_, _, hid, _⟩ := updateNextRun_cond.mp hr
        exact hid
      exact find?_exec_of_ne (hcond _) hj
  unfold scheduleJob
  split
  · rfl
  · rename_i schedule _
    by_cases hd : needsDelay row schedule = true
    · simp only [hd, if_true]
      split
      · rfl
      · rw [hwrite]
        exact find?_exec_of_ne (fun r hr => (makeRandomDelay_cond.mp hr).1) hj
    · simp only [hd, if_false, Bool.false_eq_true]
      exact hwrite _ _ _

/-- `update_next_run` finds the row it was calculated for, whatever delay was written before. -/
lemma writeNextRun_own {r r' : CronRow} {row : ScheduleRow} {t : CronTable}
    (schedule : CronSchedule) (delay : ℤ) (hneeds : needsScheduling r = true)
    (hrow : scheduleRow zones now r = some row) (hr' : t.find? r.id = some r')
    (hsame : r' = { r with delay := r'.delay, delayRange := r'.delayRange }) :
    ((writeNextRun zones schedule row delay t).1.find? r.id).bind CronRow.nextRun =
        (do let z ← timeZone zones r.tz
            let nextRun ← nextRunOf schedule row delay
            return z.ofLocalTimestamp nextRun) ∧
      ((writeNextRun zones schedule row delay t).2 = false ↔
        nextRunOf schedule row delay = none) := by
  obtain ⟨z, hz, rfl⟩ := scheduleRow_eq_some.mp hrow
  simp only [needsScheduling, Bool.and_eq_true, Option.isNone_iff_eq_none] at hneeds
  obtain ⟨hen, hnext⟩ := hneeds
  have hz' : timeZone zones r'.tz = some z := by rw [hsame]; exact hz
  unfold writeNextRun
  split
  · rename_i hnone
    have hnext' : r'.nextRun = none := by rw [hsame]; exact hnext
    simp [hr', hnone, hz, hnext']
  · rename_i nextRun hsome
    refine ⟨?_, by simp [hsome]⟩
    have hcond : (updateNextRun zones r.id r.schedule (r.lastRun.map z.toLocal) nextRun).cond r'
        = true := by
      rw [updateNextRun_cond]
      refine ⟨z, hz', ?_, ?_, .inr ?_, ?_, ?_⟩ <;> rw [hsame]
      · exact hen
      · exact hnext
    rw [Table.find?_exec, hr', Option.map_some, Update.apply_of_cond hcond, updateNextRun_set hz']
    simp [hsome, hz]

/-- **One iteration.**  On a row still as it was selected, the iteration writes the `next_run` the
row has on its own, and ends unless `CronSchedule::Next` hangs. -/
lemma scheduleJob_own (draw : ℕ → ℕ) {r : CronRow} {row : ScheduleRow} {t : CronTable}
    (hneeds : needsScheduling r = true) (hrow : scheduleRow zones now r = some row)
    (hr : t.find? r.id = some r) :
    ((scheduleJob zones draw row t).1.find? r.id).bind CronRow.nextRun =
        ownNextRun zones draw now r ∧
      ((scheduleJob zones draw row t).2 = false ↔ Hangs zones now r) := by
  obtain ⟨z, hz, hrow'⟩ := scheduleRow_eq_some.mp hrow
  have hid : row.id = r.id := by rw [hrow']
  have hsched : row.schedule = r.schedule := by rw [hrow']
  have hneeds' := hneeds
  simp only [needsScheduling, Bool.and_eq_true, Option.isNone_iff_eq_none] at hneeds'
  have hhangs : ∀ schedule delay, CronSchedule.parse r.schedule = .ok schedule →
      (nextRunOf schedule row delay = none ↔ Hangs zones now r) := by
    intro schedule delay hparse
    simp only [nextRunOf, Option.map_eq_none_iff, Hangs, hrow, hparse, Option.some.injEq,
      Except.ok.injEq]
    constructor
    · intro h
      exact ⟨row, schedule, rfl, rfl, h⟩
    · rintro ⟨_, _, rfl, rfl, h⟩
      exact h
  unfold scheduleJob
  rw [hsched]
  rcases hparse : CronSchedule.parse r.schedule with e | schedule
  · refine ⟨?_, ?_⟩
    · simp [hr, hneeds'.2, ownNextRun, hz, hrow, hparse, Except.toOption]
    · simp [Hangs, hparse]
  · simp only
    by_cases hd : needsDelay row schedule = true
    · simp only [hd, if_true]
      set delay := randomSeconds schedule.delayRange (draw row.id) with hdelay
      set u := makeRandomDelay row.id r.schedule delay schedule.delayRange with hu
      have hcond : u.cond r = true :=
        makeRandomDelay_cond.mpr ⟨hid.symm, rfl, hneeds'.1, hneeds'.2⟩
      have haff : t.affected u ≠ 0 := by
        have hpos := Table.affected_pos.mpr ⟨r, (Table.find?_eq_some.mp hr).1, hcond⟩
        omega
      rw [if_neg haff]
      have hfind : (t.exec u).find? r.id = some (u.set r) := by
        rw [Table.find?_exec, hr, Option.map_some, Update.apply_of_cond hcond]
      obtain ⟨hown, hhang⟩ := writeNextRun_own schedule delay hneeds hrow hfind rfl
      refine ⟨?_, hhang.trans (hhangs schedule delay hparse)⟩
      rw [hown]
      simp [ownNextRun, hz, hrow, hparse, Except.toOption, hd, hdelay, hid]
    · simp only [hd, if_false, Bool.false_eq_true]
      obtain ⟨hown, hhang⟩ := writeNextRun_own schedule (row.delay.getD 0) hneeds hrow hr rfl
      refine ⟨?_, hhang.trans (hhangs schedule _ hparse)⟩
      rw [hown]
      simp [ownNextRun, hz, hrow, hparse, Except.toOption, hd]

lemma mem_of_mapM_eq_some {α β : Type*} {f : α → Option β} {l : List α} {l' : List β}
    (h : l.mapM f = some l') {b : β} (hb : b ∈ l') : ∃ a ∈ l, f a = some b := by
  induction l generalizing l' with
  | nil =>
      obtain rfl : l' = [] := by simpa using h.symm
      exact absurd hb (by simp)
  | cons a l ih =>
      rw [List.mapM_cons] at h
      obtain ⟨b', hb', h⟩ := Option.bind_eq_some_iff.mp h
      obtain ⟨bs, hbs, h⟩ := Option.bind_eq_some_iff.mp h
      obtain rfl : l' = b' :: bs := (Option.some.inj h).symm
      rcases List.mem_cons.mp hb with rfl | hb
      · exact ⟨a, List.mem_cons_self .., hb'⟩
      · obtain ⟨c, hc, hfc⟩ := ih hbs hb
        exact ⟨c, List.mem_cons_of_mem _ hc, hfc⟩

lemma mapM_eq_none {α β : Type*} {f : α → Option β} {l : List α} :
    l.mapM f = none ↔ ∃ a ∈ l, f a = none := by
  induction l with
  | nil => simp
  | cons a l ih =>
      rw [List.mapM_cons]
      rcases hfa : f a with _ | b
      · simp [hfa]
      · rcases hl : l.mapM f with _ | bs
        · obtain ⟨c, hc, hfc⟩ := ih.mp hl
          simp only [Option.bind_eq_bind, Option.bind_some, Option.bind_none, true_iff]
          exact ⟨c, List.mem_cons_of_mem _ hc, hfc⟩
        · have hno : ¬ ∃ c ∈ l, f c = none := fun h => by simp [ih.mpr h] at hl
          simpa [hfa] using hno

/-- The loop never touches a job that was not selected. -/
lemma scheduleRows_find?_of_notMem {rows : List ScheduleRow} {t : CronTable} {j : ℕ}
    (hj : ∀ row ∈ rows, j ≠ row.id) : (scheduleRows zones draw rows t).1.find? j = t.find? j := by
  induction rows generalizing t with
  | nil => rfl
  | cons row rows ih =>
      have hrow : (scheduleJob zones draw row t).1.find? j = t.find? j :=
        scheduleJob_find?_of_ne (hj row (List.mem_cons_self ..))
      simp only [scheduleRows]
      rcases hstep : scheduleJob zones draw row t with ⟨t', b⟩
      rw [hstep] at hrow
      rcases b with _ | _
      · exact hrow
      · exact (ih fun row' h => hj row' (List.mem_cons_of_mem _ h)).trans hrow

/-- The rows the loop handles before the job `j`. -/
def rowsBefore (l : List CronRow) (j : ℕ) : List CronRow := l.takeWhile fun r => r.id != j

/-- **The loop, seen from one row.**  The loop writes what the row has on its own, unless an
earlier row hangs; then it does not get to the row. -/
lemma scheduleRows_find? (draw : ℕ → ℕ) {l : List CronRow} {rows : List ScheduleRow} {t : CronTable}
    (hnodup : (l.map CronRow.id).Nodup) (hrows : l.mapM (scheduleRow zones now) = some rows)
    (hneeds : ∀ r ∈ l, needsScheduling r = true) (hfind : ∀ r ∈ l, t.find? r.id = some r)
    {r : CronRow} (hr : r ∈ l) :
    ((∃ r' ∈ rowsBefore l r.id, Hangs zones now r') →
        (scheduleRows zones draw rows t).1.find? r.id = some r) ∧
      ((∀ r' ∈ rowsBefore l r.id, ¬ Hangs zones now r') →
        ((scheduleRows zones draw rows t).1.find? r.id).bind CronRow.nextRun =
          ownNextRun zones draw now r) := by
  induction l generalizing rows t with
  | nil => exact absurd hr (by simp)
  | cons a l ih =>
      -- the selected row of `a`, and those of `l`
      rw [List.mapM_cons] at hrows
      obtain ⟨row, hrow, hrows⟩ := Option.bind_eq_some_iff.mp hrows
      obtain ⟨rows', hrows', hcons⟩ := Option.bind_eq_some_iff.mp hrows
      obtain rfl : rows = row :: rows' := (Option.some.inj hcons).symm
      obtain ⟨hz, _, hrowdef⟩ := scheduleRow_eq_some.mp hrow
      have hid : row.id = a.id := by rw [hrowdef]
      obtain ⟨hfresh, hnodup'⟩ := List.nodup_cons.mp hnodup
      have ha := hfind a (List.mem_cons_self ..)
      obtain ⟨hown, hhang⟩ := scheduleJob_own draw (hneeds a (List.mem_cons_self ..)) hrow ha
      have hother : ∀ j, j ≠ a.id → (scheduleJob zones draw row t).1.find? j = t.find? j :=
        fun j hj => scheduleJob_find?_of_ne (by rw [hid]; exact hj)
      simp only [scheduleRows]
      rcases hstep : scheduleJob zones draw row t with ⟨t', b⟩
      rw [hstep] at hown hhang hother
      by_cases hra : r.id = a.id
      · -- this iteration is the row's own
        have hmem : r ∉ l := fun h => hfresh (hra ▸ List.mem_map_of_mem h)
        obtain rfl : r = a := (List.mem_cons.mp hr).resolve_right hmem
        have hbefore : rowsBefore (r :: l) r.id = [] := by simp [rowsBefore]
        rw [hbefore]
        refine ⟨by simp, fun _ => ?_⟩
        rcases b with _ | _
        · exact hown
        · have hrest : ∀ row' ∈ rows', r.id ≠ row'.id := by
            intro row' hrow'
            obtain ⟨c, hc, hceq⟩ := mem_of_mapM_eq_some hrows' hrow'
            obtain ⟨_, _, hcdef⟩ := scheduleRow_eq_some.mp hceq
            intro heq
            apply hfresh
            rw [heq, hcdef]
            exact List.mem_map_of_mem hc
          rw [scheduleRows_find?_of_notMem hrest]
          exact hown
      · have hmem : r ∈ l := (List.mem_cons.mp hr).resolve_left fun h => hra (by rw [h])
        have hbefore : rowsBefore (a :: l) r.id = a :: rowsBefore l r.id := by
          have hne : (a.id != r.id) = true := by simpa using fun h : a.id = r.id => hra h.symm
          simp [rowsBefore, hne]
        rw [hbefore]
        rcases b with _ | _
        · have hh : Hangs zones now a := hhang.mp rfl
          refine ⟨fun _ => ?_, fun h => absurd hh (h a (List.mem_cons_self ..))⟩
          exact (hother r.id hra).trans (hfind r hr)
        · have hh : ¬ Hangs zones now a := fun h => absurd (hhang.mpr h) (by simp)
          have hfind' : ∀ c ∈ l, t'.find? c.id = some c := by
            intro c hc
            have hne : c.id ≠ a.id := fun h => hfresh (h ▸ List.mem_map_of_mem hc)
            exact (hother c.id hne).trans (hfind c (List.mem_cons_of_mem _ hc))
          obtain ⟨ih₁, ih₂⟩ := ih hnodup' hrows' (fun c hc => hneeds c (List.mem_cons_of_mem _ hc))
            hfind' hmem
          refine ⟨?_, fun h => ih₂ fun c hc => h c (List.mem_cons_of_mem _ hc)⟩
          rintro ⟨c, hc, hch⟩
          rcases List.mem_cons.mp hc with rfl | hc
          · exact absurd hch hh
          · exact ih₁ ⟨c, hc, hch⟩

/-- **The pass, seen from one row.**  With at most 1000 candidates, a pass leaves the row as it
is if it aborts or hangs before the row, and else writes what the row has on its own. -/
lemma nextRunAfter_eq (zones : String → Option Zone) (draw : ℕ → ℕ) (now : ℤ) {t : CronTable}
    {r : CronRow} (hr : r ∈ t.rows) (hneeds : needsScheduling r = true)
    (hlimit : (t.rows.filter needsScheduling).length ≤ 1000) :
    (((∃ r' ∈ t.rows, needsScheduling r' = true ∧ ¬ KnownZone zones r') ∨
        ∃ r' ∈ rowsBefore (t.rows.filter needsScheduling) r.id, Hangs zones now r') →
        nextRunAfter zones draw t now r.id = none) ∧
      ((∀ r' ∈ t.rows, needsScheduling r' = true → KnownZone zones r') →
        (∀ r' ∈ rowsBefore (t.rows.filter needsScheduling) r.id, ¬ Hangs zones now r') →
        nextRunAfter zones draw t now r.id = ownNextRun zones draw now r) := by
  have hfind : t.find? r.id = some r := Table.find?_eq_some.mpr ⟨hr, rfl⟩
  have hnone : r.nextRun = none := by
    simp only [needsScheduling, Bool.and_eq_true, Option.isNone_iff_eq_none] at hneeds
    exact hneeds.2
  have hmem : r ∈ t.rows.filter needsScheduling := List.mem_filter.mpr ⟨hr, hneeds⟩
  have hnodup : ((t.rows.filter needsScheduling).map CronRow.id).Nodup :=
    t.nodup.sublist (List.filter_sublist.map CronRow.id)
  have hselect : selectJobsForScheduling zones t now =
      (t.rows.filter needsScheduling).mapM (scheduleRow zones now) := by
    rw [selectJobsForScheduling, List.take_of_length_le hlimit]
  have hunknown : ∀ r', scheduleRow zones now r' = none ↔ ¬ KnownZone zones r' := by
    intro r'
    simp [scheduleRow, KnownZone]
  unfold nextRunAfter calculateNextRun
  rw [hselect]
  rcases hsel : (t.rows.filter needsScheduling).mapM (scheduleRow zones now) with _ | rows
  · obtain ⟨a, ha, hfa⟩ := mapM_eq_none.mp hsel
    obtain ⟨ham, hneeds'⟩ := List.mem_filter.mp ha
    refine ⟨fun _ => by simp [hfind, hnone], fun hk => ?_⟩
    exact absurd (hk a ham hneeds') ((hunknown a).mp hfa)
  · have hknown : ∀ r' ∈ t.rows, needsScheduling r' = true → KnownZone zones r' := by
      intro r' hr' hn
      by_contra hk
      have hbad := mapM_eq_none.mpr ⟨r', List.mem_filter.mpr ⟨hr', hn⟩, (hunknown r').mpr hk⟩
      rw [hsel] at hbad
      exact absurd hbad (by simp)
    obtain ⟨h₁, h₂⟩ := scheduleRows_find? draw hnodup hsel
      (fun a ha => (List.mem_filter.mp ha).2)
      (fun a ha => Table.find?_eq_some.mpr ⟨(List.mem_filter.mp ha).1, rfl⟩) hmem
    refine ⟨?_, fun _ => h₂⟩
    rintro (⟨a, ha, hn, hk⟩ | hh)
    · exact absurd (hknown a ha hn) hk
    · simp [h₁ hh, hnone]

/-- A pass leaves `next_run` of a job alone that it does not select. -/
lemma nextRunAfter_of_not_needs {t : CronTable} {r : CronRow} (hr : r ∈ t.rows)
    (hneeds : needsScheduling r = false) : nextRunAfter zones draw t now r.id = r.nextRun := by
  have hfind : t.find? r.id = some r := Table.find?_eq_some.mpr ⟨hr, rfl⟩
  unfold nextRunAfter calculateNextRun
  rcases hsel : selectJobsForScheduling zones t now with _ | rows
  · simp [hfind]
  · have hnot : ∀ row ∈ rows, r.id ≠ row.id := by
      intro row hrow heq
      obtain ⟨a, ha, hfa⟩ := mem_of_mapM_eq_some hsel hrow
      obtain ⟨ham, hn⟩ := List.mem_filter.mp (List.mem_of_mem_take ha)
      obtain ⟨_, _, hdef⟩ := scheduleRow_eq_some.mp hfa
      have hra : r = a := Table.eq_of_key_eq hr ham (by rw [heq, hdef])
      rw [hra, hn] at hneeds
      exact absurd hneeds (by simp)
    simp [scheduleRows_find?_of_notMem hnot, hfind]

/-- The row has a `next_run` on its own exactly if its zone is known, its schedule parses and
`CronSchedule::Next` returns. -/
lemma ownNextRun_isSome {r : CronRow} :
    (ownNextRun zones draw now r).isSome ↔ HasNext zones now r := by
  constructor
  · intro h
    obtain ⟨v, hv⟩ := Option.isSome_iff_exists.mp h
    simp only [ownNextRun, Option.bind_eq_bind, Option.bind_eq_some_iff] at hv
    obtain ⟨z, hz, row, hrow, schedule, hparse, nextRun, hnext, _⟩ := hv
    refine ⟨row, schedule, hrow, ?_, ?_⟩
    · rcases hp : CronSchedule.parse r.schedule with e | c
      · simp [hp, Except.toOption] at hparse
      · simpa [hp, Except.toOption] using hparse
    · obtain ⟨ts, hts, _⟩ := Option.map_eq_some_iff.mp hnext
      simp [hts]
  · rintro ⟨row, schedule, hrow, hparse, hnext⟩
    obtain ⟨z, hz, _⟩ := scheduleRow_eq_some.mp hrow
    obtain ⟨ts, hts⟩ := Option.isSome_iff_exists.mp hnext
    simp [ownNextRun, hz, hrow, hparse, Except.toOption, nextRunOf, hts]

/-! ## Isolation -/

/-- What one pass does to `next_run` of the row depends on the row, the clock and the random
number only: it is what a pass over a table with nothing but this row does. -/
def DependsOnlyOnRow (zones : String → Option Zone) (draw : ℕ → ℕ) (now : ℤ) (t : CronTable)
    (r : CronRow) : Prop :=
  nextRunAfter zones draw t now r.id = nextRunAfter zones draw (Table.single r) now r.id

/-- The pass gets to the row: no job to be scheduled has an unknown time zone, and none before
the row has a schedule whose next date does not exist. -/
def PassReaches (zones : String → Option Zone) (now : ℤ) (t : CronTable) (r : CronRow) : Prop :=
  (∀ r' ∈ t.rows, needsScheduling r' = true → KnownZone zones r') ∧
    ∀ r' ∈ rowsBefore (t.rows.filter needsScheduling) r.id, ¬ Hangs zones now r'

lemma nextRunAfter_single {r : CronRow} (hneeds : needsScheduling r = true) :
    nextRunAfter zones draw (Table.single r) now r.id = ownNextRun zones draw now r := by
  have hmem : r ∈ (Table.single r : CronTable).rows := by simp
  have hbefore :
      rowsBefore ((Table.single r : CronTable).rows.filter needsScheduling) r.id = [] := by
    simp [hneeds, rowsBefore]
  obtain ⟨h₁, h₂⟩ := nextRunAfter_eq zones draw now hmem hneeds
    (by simp [hneeds])
  rw [hbefore] at h₁ h₂
  by_cases hk : KnownZone zones r
  · exact h₂ (by simpa using fun _ => hk) (by simp)
  · rw [h₁ (.inl ⟨r, hmem, hneeds, hk⟩)]
    have hz : timeZone zones r.tz = none := by simpa [KnownZone] using hk
    simp [ownNextRun, hz]

/-- **Isolation, exactly.**  In a table with at most 1000 jobs to be scheduled, what a pass does to
a row is independent of the other rows exactly if the row would not be scheduled anyway, or the
pass gets to it. -/
theorem dependsOnlyOnRow_iff (zones : String → Option Zone) (draw : ℕ → ℕ) (now : ℤ)
    (t : CronTable) (r : CronRow) (hr : r ∈ t.rows)
    (hlimit : (t.rows.filter needsScheduling).length ≤ 1000) :
    DependsOnlyOnRow zones draw now t r ↔
      (¬ (needsScheduling r = true ∧ HasNext zones now r) ∨ PassReaches zones now t r) := by
  unfold DependsOnlyOnRow
  by_cases hneeds : needsScheduling r = true
  · rw [nextRunAfter_single hneeds]
    obtain ⟨h₁, h₂⟩ := nextRunAfter_eq zones draw now hr hneeds hlimit
    by_cases hreach : PassReaches zones now t r
    · simp [h₂ hreach.1 hreach.2, hreach]
    · have hnone : nextRunAfter zones draw t now r.id = none := by
        apply h₁
        by_contra hcon
        simp only [not_or, not_exists, not_and, not_not] at hcon
        exact hreach hcon
      rw [hnone, eq_comm, ← Option.not_isSome_iff_eq_none, ownNextRun_isSome]
      simp [hneeds, hreach]
  · have hneeds' : needsScheduling r = false := by simpa using hneeds
    rw [nextRunAfter_of_not_needs hr hneeds', nextRunAfter_of_not_needs (by simp) hneeds']
    simp [hneeds]

end Isolation

/-! ## One stray row -/

/-- A time zone database that knows UTC only. -/
def utcOnly (name : String) : Option Zone := if name = "UTC" then some .utc else none

/-- A job for every minute. -/
def minutelyJob (id : ℕ) : CronRow :=
  { id, accountId := "a", schedule := "* * * * *", command := "true" }

/-- The same job with the name of a time zone that does not exist. -/
def strayJob (id : ℕ) : CronRow := { minutelyJob id with tz := some "Mars/Olympus" }

/-- The same job with a schedule that does not parse. -/
def garbledJob (id : ℕ) : CronRow := { minutelyJob id with schedule := "every minute" }

/-- A table of two jobs. -/
def twoJobs (a b : CronRow) (h : a.id ≠ b.id) : CronTable := ⟨[a, b], by simpa using h⟩

/-- **One row with an unknown time zone stops the scheduling of all others**: the job for every
minute is scheduled if it is alone, and is not if there is a stray row. -/
theorem scheduling_not_isolated :
    ¬ ∀ (zones : String → Option Zone) (draw : ℕ → ℕ) (now : ℤ) (t : CronTable) (r : CronRow),
        r ∈ t.rows → (t.rows.filter needsScheduling).length ≤ 1000 →
        DependsOnlyOnRow zones draw now t r := by
  intro h
  have hrow := h utcOnly (fun _ => 7) 0 (twoJobs (minutelyJob 1) (strayJob 2) (by decide))
    (minutelyJob 1) (by simp [twoJobs]) (by decide)
  revert hrow
  unfold DependsOnlyOnRow
  decide +kernel

/-- A row with a schedule that does not parse, on the other hand, is skipped. -/
theorem dependsOnlyOnRow_garbled :
    DependsOnlyOnRow utcOnly (fun _ => 7) 0
      (twoJobs (garbledJob 1) (minutelyJob 2) (by decide)) (minutelyJob 2) := by
  rw [dependsOnlyOnRow_iff _ _ _ _ _ (by simp [twoJobs]) (by decide)]
  refine .inr ⟨?_, ?_⟩
  · intro r' hr' _
    have htz : r'.tz = none := by
      rcases List.mem_cons.mp hr' with rfl | hr'
      · rfl
      · rw [List.mem_singleton.mp hr']
        rfl
    simp [KnownZone, htz, timeZone]
  · intro r' hr'
    have hgarbled : r' = garbledJob 1 := by
      have hlist : rowsBefore ((twoJobs (garbledJob 1) (minutelyJob 2) (by decide)).rows.filter
          needsScheduling) (minutelyJob 2).id = [garbledJob 1] := by decide
      rw [hlist] at hr'
      exact List.mem_singleton.mp hr'
    rintro ⟨_, _, _, hparse, _⟩
    have herror : CronSchedule.parse (garbledJob 1).schedule = .error "Failed to parse number" :=
      rfl
    rw [hgarbled, herror] at hparse
    exact absurd hparse (by simp)

end Workshop.Cron

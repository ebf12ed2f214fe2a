import Workshop.Lib.Table
import Workshop.Cron.Schedule

/-!
# The `cronjobs` table and its statements

The columns of `sql/cronjobs.sql` the daemon reads or writes, the statements prepared by
`CronQueue::Prepare` (`src/cron/Queue.cxx`) and `InitCalculateNextRun`
(`src/cron/CalculateNextRun.cxx`), the updates the documentation allows clients
(`doc/index.rst`), and the four rules that turn changes of the table into notifications.

Time stamps with time zone are time points in microseconds; the two directions of
`AT TIME ZONE` are the two functions of a `Zone`.  Which zone names exist is a parameter: looking
up a name PostgreSQL does not know raises an error, here `none`.  The `interval SECOND(0)` columns
are whole seconds, and `Pg::ParseIntervalS` and `Pg::ParseTimestamp` read back the value
PostgreSQL prints.  Stickiness is not modelled: the statements are those of a partition without
`sticky`.
-/

namespace Workshop.Cron

open Workshop.Lib

/-! ## Rows -/

/-- A row of `cronjobs`. -/
structure CronRow where
  id : ℕ
  accountId : String
  schedule : String
  tz : Option String := none
  command : String
  translateParam : Option String := none
  enabled : Bool := true
  notification : Option String := none
  delay : Option ℤ := none
  delayRange : Option ℤ := none
  lastRun : Option ℤ := none
  nextRun : Option Timestamp := none
  nodeName : Option String := none
  nodeTimeout : Option ℤ := none
  deriving DecidableEq, Repr

abbrev CronTable := Table CronRow.id

abbrev CronUpdate := Update CronRow.id

/-- A time zone: `AT TIME ZONE` applied to a time stamp with and to one without time zone. -/
structure Zone where
  toLocal : ℤ → ℤ
  ofLocal : ℤ → ℤ

/-- UTC, in which a local time is the time itself. -/
def Zone.utc : Zone := ⟨id, id⟩

/-- `AT TIME ZONE` of a time stamp without time zone; `'infinity'` stays what it is. -/
def Zone.ofLocalTimestamp (z : Zone) : Timestamp → Timestamp
  | .finite t => .finite (z.ofLocal t)
  | .infinity => .infinity

/-- The zone `COALESCE(tz, 'UTC')` names, or `none` if PostgreSQL does not know it. -/
def timeZone (zones : String → Option Zone) : Option String → Option Zone
  | none => some .utc
  | some name => zones name

/-! ## The statements of the queue -/

/-- `release_stale`. -/
def releaseStale (node : String) : CronUpdate where
  cond r := r.nodeName == some node
  set r := { r with nodeName := none, nodeTimeout := none, nextRun := none }
  key_set _ := rfl

/-- `expire_jobs`. -/
def expireJobs (node : String) (now : ℤ) : CronUpdate where
  cond r := r.nodeName.isSome && r.nodeName != some node &&
    r.nodeTimeout.any fun timeout => timeout < now
  set r := { r with nodeName := none, nodeTimeout := none, nextRun := none }
  key_set _ := rfl

/-- `claim_job`. -/
def claimJob (id : ℕ) (node : String) (timeout now : ℤ) : CronUpdate where
  cond r := r.id == id && r.enabled && r.nodeName.isNone
  set r := { r with nodeName := some node, nodeTimeout := some (now + timeout) }
  key_set _ := rfl

/-- `finish_job`. -/
def finishJob (id : ℕ) (node : String) (now : ℤ) : CronUpdate where
  cond r := r.id == id && r.nodeName == some node
  set r := { r with nodeName := none, nodeTimeout := none, lastRun := some now, nextRun := none }
  key_set _ := rfl

@[simp] lemma claimJob_cond {id : ℕ} {node : String} {timeout now : ℤ} {r : CronRow} :
    (claimJob id node timeout now).cond r = true ↔
      r.id = id ∧ r.enabled = true ∧ r.nodeName = none := by
  simp [claimJob, and_assoc]

@[simp] lemma finishJob_cond {id : ℕ} {node : String} {now : ℤ} {r : CronRow} :
    (finishJob id node now).cond r = true ↔ r.id = id ∧ r.nodeName = some node := by
  simp [finishJob]

@[simp] lemma expireJobs_cond {node : String} {now : ℤ} {r : CronRow} :
    (expireJobs node now).cond r = true ↔ r.nodeName ≠ none ∧ r.nodeName ≠ some node ∧
      ∃ timeout, r.nodeTimeout = some timeout ∧ timeout < now := by
  simp [expireJobs, and_assoc, Option.isSome_iff_ne_none, Option.any_eq_true]

/-- The rows `find_earliest_pending` looks at: enabled, not running, and scheduled for a finite
time, which is returned. -/
def pendingTime (r : CronRow) : Option ℤ :=
  match r.enabled, r.nodeName, r.nextRun with
  | true, none, some (.finite t) => some t
  | _, _, _ => none

/-- `find_earliest_pending` and `FindEarliestPending`: the whole seconds until the earliest
pending job, one day at most; `none` (`seconds::max()`) if there is no such job. -/
def findEarliestPending (t : CronTable) (now : ℤ) : Option ℤ :=
  (t.rows.filterMap pendingTime).min?.map fun earliest =>
    min ((earliest - now).tdiv second) (24 * 3600)

/-- The condition of `check_pending`. -/
def isPending (now : ℤ) (r : CronRow) : Bool := (pendingTime r).any fun t => t ≤ now

/-- The row with the smaller `next_run`; the first one if they are equal. -/
def earlierRow (a b : CronRow) : CronRow :=
  match pendingTime a, pendingTime b with
  | some ta, some tb => if tb < ta then b else a
  | _, _ => a

/-- `check_pending`: `ORDER BY next_run LIMIT 1`. -/
def checkPending (t : CronTable) (now : ℤ) : Option CronRow :=
  match t.rows.filter (isPending now) with
  | [] => none
  | r :: rs => some (rs.foldl earlierRow r)

lemma foldl_earlierRow_mem (rs : List CronRow) (r : CronRow) :
    rs.foldl earlierRow r = r ∨ rs.foldl earlierRow r ∈ rs := by
  induction rs generalizing r with
  | nil => exact .inl rfl
  | cons a rs ih =>
      have hab : earlierRow r a = r ∨ earlierRow r a = a := by
        unfold earlierRow
        split
        · split
          · exact .inr rfl
          · exact .inl rfl
        · exact .inl rfl
      rcases ih (earlierRow r a) with h | h
      · rcases hab with h' | h'
        · exact .inl (by rw [List.foldl_cons, h, h'])
        · exact .inr (by rw [List.foldl_cons, h, h']; exact List.mem_cons_self ..)
      · exact .inr (List.mem_cons_of_mem _ h)

/-- What `check_pending` returns is a pending row of the table. -/
lemma checkPending_spec {t : CronTable} {now : ℤ} {r : CronRow} (h : checkPending t now = some r) :
    r ∈ t.rows ∧ isPending now r = true := by
  unfold checkPending at h
  split at h
  · exact absurd h (by simp)
  · rename_i a rs hrows
    have hmem : r ∈ t.rows.filter (isPending now) := by
      rw [hrows, ← Option.some.inj h]
      rcases foldl_earlierRow_mem rs a with h' | h'
      · rw [h']
        exact List.mem_cons_self ..
      · exact List.mem_cons_of_mem _ h'
    exact List.mem_filter.mp hmem

lemma isPending_iff {now : ℤ} {r : CronRow} : isPending now r = true ↔
    r.enabled = true ∧ r.nodeName = none ∧ ∃ t, r.nextRun = some (.finite t) ∧ t ≤ now := by
  unfold isPending pendingTime
  rcases hE : r.enabled with _ | _ <;> rcases hN : r.nodeName with _ | n <;>
    rcases hT : r.nextRun with _ | (t | _) <;> simp

lemma pendingTime_eq_some {r : CronRow} {t : ℤ} : pendingTime r = some t ↔
    r.enabled = true ∧ r.nodeName = none ∧ r.nextRun = some (.finite t) := by
  unfold pendingTime
  rcases hE : r.enabled with _ | _ <;> rcases hN : r.nodeName with _ | n <;>
    rcases hT : r.nextRun with _ | (u | _) <;> simp

/-- `find_earliest_pending` finds nothing only if no row is pending. -/
lemma findEarliestPending_eq_none {t : CronTable} {now : ℤ} (h : findEarliestPending t now = none) :
    ∀ r ∈ t.rows, pendingTime r = none := by
  rw [findEarliestPending, Option.map_eq_none_iff, List.min?_eq_none_iff,
    List.filterMap_eq_nil_iff] at h
  exact h

/-! ## The statements of the scheduler -/

/-- `make_random_delay`. -/
def makeRandomDelay (id : ℕ) (schedule : String) (delay range : ℤ) : CronUpdate where
  cond r := r.id == id && r.schedule == schedule && r.enabled && r.nextRun.isNone
  set r := { r with delay := some delay, delayRange := some range }
  key_set _ := rfl

/-- `update_next_run`, with `lastRun` and `nextRun` in the time zone of the row.  For a row whose
zone is unknown the statement fails and changes nothing. -/
def updateNextRun (zones : String → Option Zone) (id : ℕ) (schedule : String)
    (lastRun : Option ℤ) (nextRun : Timestamp) : CronUpdate where
  cond r :=
    match timeZone zones r.tz with
    | none => false
    | some z => r.id == id && r.schedule == schedule &&
        (r.lastRun.isNone || r.lastRun.map z.toLocal == lastRun) && r.enabled && r.nextRun.isNone
  set r :=
    match timeZone zones r.tz with
    | none => r
    | some z => { r with nextRun := some (z.ofLocalTimestamp nextRun) }
  key_set r := by
    rcases timeZone zones r.tz with _ | z <;> rfl

/-- A row of the result of `select_jobs_for_scheduling`: the time stamps are in the time zone of
the job. -/
structure ScheduleRow where
  id : ℕ
  schedule : String
  lastRun : Option ℤ
  delay : Option ℤ
  delayRange : Option ℤ
  now : ℤ
  deriving DecidableEq, Repr

/-- The condition of `select_jobs_for_scheduling`. -/
def needsScheduling (r : CronRow) : Bool := r.enabled && r.nextRun.isNone

/-- The columns of `select_jobs_for_scheduling` for one row: an error if the zone is unknown. -/
def scheduleRow (zones : String → Option Zone) (now : ℤ) (r : CronRow) : Option ScheduleRow :=
  (timeZone zones r.tz).map fun z =>
    { id := r.id, schedule := r.schedule, lastRun := r.lastRun.map z.toLocal, delay := r.delay,
      delayRange := r.delayRange, now := z.toLocal now }

/-- `select_jobs_for_scheduling`: an error in one of the rows aborts the statement. -/
def selectJobsForScheduling (zones : String → Option Zone) (t : CronTable) (now : ℤ) :
    Option (List ScheduleRow) :=
  ((t.rows.filter needsScheduling).take 1000).mapM (scheduleRow zones now)

/-! ## Client updates -/

/-- What a client may change with one `UPDATE`: the schedule (and clear `next_run` with it), the
`enabled` flag, and the columns that do not matter to the scheduler. -/
structure Edit where
  schedule : Option String := none
  clearNextRun : Bool := false
  enabled : Option Bool := none
  tz : Option (Option String) := none
  command : Option String := none
  translateParam : Option (Option String) := none
  notification : Option (Option String) := none
  deriving DecidableEq, Repr

/-- The `UPDATE` of a client on the job `id`. -/
def editJob (id : ℕ) (e : Edit) : CronUpdate where
  cond r := r.id == id
  set r :=
    { r with
      schedule := e.schedule.getD r.schedule
      nextRun := if e.clearNextRun then none else r.nextRun
      enabled := e.enabled.getD r.enabled
      tz := e.tz.getD r.tz
      command := e.command.getD r.command
      translateParam := e.translateParam.getD r.translateParam
      notification := e.notification.getD r.notification }
  key_set _ := rfl

/-- A new job of a client has none of the calculated columns. -/
def IsNew (r : CronRow) : Prop :=
  r.delay = none ∧ r.delayRange = none ∧ r.lastRun = none ∧ r.nextRun = none ∧
    r.nodeName = none ∧ r.nodeTimeout = none

instance (r : CronRow) : Decidable (IsNew r) := inferInstanceAs (Decidable (_ ∧ _))

/-! ## Notifications -/

/-- The channels the queue listens on. -/
inductive Channel
  | cronjobsModified
  | cronjobsScheduled
  deriving DecidableEq, Repr

/-- Rule `new_cronjob`. -/
def newCronjob (new : CronRow) : Bool := new.enabled && new.nodeName.isNone

/-- Rule `edit_cronjob`. -/
def editCronjob (old new : CronRow) : Bool :=
  new.enabled && new.nodeName.isNone && (!old.enabled || new.schedule != old.schedule)

/-- Rule `finish_cronjob`. -/
def finishCronjob (old new : CronRow) : Bool :=
  new.enabled && new.nodeName.isNone && new.nextRun.isNone && old.nextRun.isSome

/-- Rule `schedule_cronjob`. -/
def scheduleCronjob (old new : CronRow) : Bool :=
  new.enabled && new.nodeName.isNone && new.nextRun.isSome && new.nextRun != some .infinity &&
    (old.nextRun.isNone || new.nextRun != old.nextRun)

/-- The rules that send `channel` for an updated row. -/
def firesOn (channel : Channel) (old new : CronRow) : Bool :=
  match channel with
  | .cronjobsModified => editCronjob old new || finishCronjob old new
  | .cronjobsScheduled => scheduleCronjob old new

/-- Whether an `UPDATE` sends `channel`: some row it affects makes a rule fire.  A transaction
sends equal notifications once. -/
def notifiesOn (t : CronTable) (u : CronUpdate) (channel : Channel) : Bool :=
  t.rows.any fun r => u.cond r && firesOn channel r (u.set r)

/-- The notifications of an `UPDATE`. -/
def updateNotifies (t : CronTable) (u : CronUpdate) : List Channel :=
  [Channel.cronjobsModified, Channel.cronjobsScheduled].filter (notifiesOn t u)

/-- The notifications of an `INSERT`. -/
def insertNotifies (r : CronRow) : List Channel :=
  if newCronjob r then [.cronjobsModified] else []

lemma mem_updateNotifies {t : CronTable} {u : CronUpdate} {r : CronRow} {channel : Channel}
    (hr : r ∈ t.rows) (hcond : u.cond r = true) (hfire : firesOn channel r (u.set r) = true) :
    channel ∈ updateNotifies t u := by
  have hany : notifiesOn t u channel = true :=
    List.any_eq_true.mpr ⟨r, hr, by simp [hcond, hfire]⟩
  rw [updateNotifies, List.mem_filter]
  exact ⟨by cases channel <;> simp, hany⟩

end Workshop.Cron

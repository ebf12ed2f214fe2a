import Workshop.Lib.Ddl

/-!
# The migration of the database

`cm4all-workshop-migrate` (`src/Migrate.cxx`) brings the tables of an older version up to date, step
by step.  It shall be possible to run it again.

The rule `schedule_cronjob` has two texts.  One of them, which is also that of `sql/cronjobs.sql`,
leaves out jobs that never run again; but if the time stamps of `cronjobs` get their time zones, the
rule is dropped and created with the older text.  A second run creates the other one.  So the
migration is idempotent exactly if it adds no time zones to that table (`idempotent_iff`).

The database is the schema of `Workshop/Lib/Ddl.lean`.  Columns other than time stamps have the
types of `sql/*.sql`: a condition only fails if one of its columns is missing.
-/

namespace Workshop.Migrate

open Workshop.Lib Workshop.Lib.Ddl Statement

/-! ## The statements -/

/-- `p AND q AND …` -/
def allOf (p : Condition) (ps : List Condition) : Condition := ps.foldl .and p

/-- A column of the table, of the old row and of the new row. -/
def col (column : String) : ColumnRef := { column }
def old (column : String) : ColumnRef := { row := "OLD", column }
def new (column : String) : ColumnRef := { row := "NEW", column }

/-- `MigrateWorkshopDatabase`. -/
def workshopScript : List Statement :=
  let idle := allOf (.holds (col "enabled"))
    [.isNull (col "node_name"), .isNull (col "time_done"), .isNull (col "exit_status")]
  [ -- since Workshop 2.0.13
    .addColumns "jobs" [("log", { type := .other "text" })],
    -- since Workshop 2.0.23
    .addColumns "jobs"
      [("enabled", { type := .other "boolean", constraint := "NOT NULL DEFAULT TRUE" })],
    .dropIndex true "jobs_sorted",
    .createIndex true "jobs_sorted2"
      { table := "jobs", columns := ["priority", "time_created"], condition := idle },
    .dropIndex true "jobs_scheduled",
    .createIndex true "jobs_scheduled2"
      { table := "jobs", columns := ["scheduled_time"]
        condition := .and idle (.not (.isNull (col "scheduled_time"))) },
    .createOrReplaceRule "jobs" "job_enabled"
      { event := "UPDATE"
        condition := allOf (.not (.holds (old "enabled")))
          [.holds (new "enabled"), .isNull (new "node_name"), .isNull (new "time_done"),
            .isNull (new "exit_status")]
        action := "SELECT pg_notify('new_job', NULL)" },
    -- since Workshop 2.0.37
    .addColumns "jobs" [("env", { type := .other "varchar(4096)[]" })],
    -- since Workshop 4.0.1
    .addColumns "jobs" [("time_started", { type := .timestamp })],
    .createIndex true "jobs_rate_limit"
      { table := "jobs", columns := ["plan_name", "time_started"] },
    -- since Workshop 6.0.1
    .addColumns "jobs" [("cpu_usage", { type := .other "interval" })],
    -- since Workshop 7.1
    .addColumns "jobs" [("stdin", { type := .other "bytea" })],
    -- since Workshop 7.3
    .addColumns "jobs"
      [("time_modified", { type := .timestamp, constraint := "NOT NULL DEFAULT now()" })],
    .createIndex true "jobs_modified"
      { table := "jobs", columns := ["plan_name", "time_modified"] },
    -- since Workshop 7.4
    .addColumns "jobs" [("account_id", { type := .other "varchar(32)" })],
    .createIndex true "jobs_account_modified"
      { table := "jobs", columns := ["account_id", "plan_name", "time_modified"] },
    -- since Workshop 7.7
    .addColumns "jobs" [("sticky_id", { type := .other "varchar(256)" })]]

/-- The index `cronjobs_scheduled2`. -/
def scheduledIndex : Index where
  table := "cronjobs"
  columns := ["next_run"]
  condition := allOf (.holds (col "enabled"))
    [.isNull (col "node_name"), .not (.isNull (col "next_run")),
      .differsFrom (col "next_run") "infinity"]

/-- `next_run` is set for the first time, or has changed. -/
def rescheduled : Condition :=
  .or (.isNull (old "next_run")) (.differ (new "next_run") (old "next_run"))

/-- The rule `schedule_cronjob`. -/
def scheduleRule : Rule where
  event := "UPDATE"
  condition := allOf (.holds (new "enabled"))
    [.isNull (new "node_name"), .not (.isNull (new "next_run")),
      .differsFrom (new "next_run") "infinity", rescheduled]
  action := "SELECT pg_notify('cronjobs_scheduled', NULL)"

/-- The same rule, as it is created again. -/
def recreatedScheduleRule : Rule where
  event := "UPDATE"
  condition := allOf (.holds (new "enabled"))
    [.isNull (new "node_name"), .not (.isNull (new "next_run")), rescheduled]
  action := "SELECT pg_notify('cronjobs_scheduled', NULL)"

/-- The rule `finish_cronjob`. -/
def finishRule : Rule where
  event := "UPDATE"
  condition := allOf (.holds (new "enabled"))
    [.isNull (new "node_name"), .isNull (new "next_run"), .not (.isNull (old "next_run"))]
  action := "SELECT pg_notify('cronjobs_modified', NULL)"

/-- The beginning of `MigrateCronDatabase`. -/
def cronScript : List Statement :=
  [ -- since Workshop 2.0.25
    .addColumns "cronjobs"
      [("delay", { type := .other "interval SECOND(0)" }),
        ("delay_range", { type := .other "interval SECOND(0)" })],
    -- since Workshop 2.0.27
    .dropIndex true "cronjobs_scheduled",
    .createIndex true "cronjobs_scheduled2" scheduledIndex,
    .createOrReplaceRule "cronjobs" "schedule_cronjob" scheduleRule]

/-- The time stamps of `cronjobs`. -/
def timeStamps : List String := ["last_run", "next_run", "node_timeout"]

/-- What depends on them is dropped. -/
def dropScript : List Statement :=
  [ .dropRule "cronjobs" "finish_cronjob",
    .dropRule "cronjobs" "schedule_cronjob",
    .dropIndex false "cronjobs_scheduled2"]

/-- And created again. -/
def recreateScript : List Statement :=
  [ .createOrReplaceRule "cronjobs" "finish_cronjob" finishRule,
    .createOrReplaceRule "cronjobs" "schedule_cronjob" recreatedScheduleRule,
    .createIndex false "cronjobs_scheduled2" scheduledIndex]

/-- What is executed if `next_run` has no time zone. -/
def timeZoneScript : List Statement :=
  dropScript ++ .addTimeZones "cronjobs" timeStamps :: recreateScript

/-- The end of `MigrateCronDatabase`. -/
def cronresultsScript : List Statement :=
  [ .addTimeZonesIf "cronresults" "start_time" ["start_time", "finish_time"],
    .createIndex true "cronresults_finished" { table := "cronresults", columns := ["finish_time"] },
    .addColumns "cronjobs" [("tz", { type := .other "varchar(64)" })],
    -- since Workshop 7.4
    .addColumns "cronjobs" [("sticky_id", { type := .other "varchar(256)" })]]

/-! ## The program -/

/-- One part of the migration after the other; an exception ends it. -/
def andThen (result : Schema × Bool) (next : Schema → Schema × Bool) : Schema × Bool :=
  if result.2 then next result.1 else result

/-- `MigrateWorkshopDatabase`. -/
def migrateWorkshopDatabase (s : Schema) : Schema × Bool := runScript exec workshopScript s

/-- `MigrateCronDatabase`. -/
def migrateCronDatabase (s : Schema) : Schema × Bool :=
  andThen (runScript exec cronScript s) fun s =>
    andThen
      (if s.columnType "cronjobs" "next_run" = some .timestamp then
        runScript exec timeZoneScript s
      else (s, true))
      (runScript exec cronresultsScript)

/-- `main`: the schema that it leaves, and whether it succeeds. -/
def migrate (s : Schema) : Schema × Bool :=
  andThen (if s.tables "jobs" then migrateWorkshopDatabase s else (s, true)) fun t =>
    if t.tables "cronjobs" then migrateCronDatabase t
    -- without any of the tables, there is an exception
    else (t, s.tables "jobs")

/-! ## One script -/

/-- The statements for the table `jobs`, if there is one. -/
def jobsScript (jobs : Bool) : List Statement := if jobs then workshopScript else []

/-- The statements before the time zones. -/
def firstScript (jobs : Bool) : List Statement := jobsScript jobs ++ cronScript

/-- All statements, if there is a table `cronjobs`. -/
def wholeScript (jobs timeZones : Bool) : List Statement :=
  firstScript jobs ++ ((if timeZones then timeZoneScript else []) ++ cronresultsScript)

variable {s t : Schema}

lemma isRepeatable_of_mem : ∀ st ∈ wholeScript true false, st.isRepeatable = true := by
  decide +kernel

lemma wholeScript_compatible : (wholeScript true false).Pairwise Compatible := by decide +kernel

lemma wholeScript_sublist (jobs : Bool) :
    (wholeScript jobs false).Sublist (wholeScript true false) := by
  cases jobs with
  | true => exact List.Sublist.refl _
  | false => exact List.sublist_append_right workshopScript _

lemma firstScript_sublist (jobs : Bool) :
    (firstScript jobs).Sublist (wholeScript true false) :=
  (List.sublist_append_left _ _).trans (wholeScript_sublist jobs)

lemma nextRun_unchanged : ∀ st ∈ wholeScript true false,
    ("cronjobs", "next_run") ∉ st.altered ∧ ("cronjobs", "next_run") ∉ st.added := by
  decide +kernel

lemma columnType_nextRun_eq {l : List Statement} (hl : l.Sublist (wholeScript true false))
    (s : Schema) : (runScript exec l s).1.columnType "cronjobs" "next_run" =
      s.columnType "cronjobs" "next_run" :=
  (runScript_frame l s).columnType_eq fun st hst => nextRun_unchanged st (hl.subset hst)

lemma jobsScript_sublist (jobs : Bool) : (jobsScript jobs).Sublist (wholeScript true false) := by
  cases jobs with
  | true => exact (List.sublist_append_left _ cronScript).trans (List.sublist_append_left _ _)
  | false => exact List.nil_sublist _

lemma runScript_jobsScript (s : Schema) :
    (if s.tables "jobs" then migrateWorkshopDatabase s else (s, true)) =
      runScript exec (jobsScript (s.tables "jobs")) s := by
  cases s.tables "jobs" <;> rfl

/-- The second part of the migration is one script. -/
lemma migrateCronDatabase_eq (s : Schema) : migrateCronDatabase s = runScript exec
    (cronScript ++ ((if s.columnType "cronjobs" "next_run" = some .timestamp then timeZoneScript
      else []) ++ cronresultsScript)) s := by
  have hcron : cronScript.Sublist (wholeScript true false) :=
    (List.sublist_append_right workshopScript _).trans (List.sublist_append_left _ _)
  rw [migrateCronDatabase, runScript_append, andThen]
  simp only [columnType_nextRun_eq hcron s, andThen]
  split
  · split
    · rw [runScript_append]
    · rfl
  · rfl

/-- Without the cron table, it is that of the jobs. -/
lemma migrate_eq_workshop (h : s.tables "cronjobs" = false) :
    (migrate s).1 = (runScript exec (jobsScript (s.tables "jobs")) s).1 := by
  have htables := (runScript_frame (jobsScript (s.tables "jobs")) s).tables
  rw [migrate, runScript_jobsScript, andThen]
  simp only [htables, h, Bool.false_eq_true, if_false]
  split <;> rfl

/-- **The migration is one script.** -/
lemma migrate_eq_runScript (h : s.tables "cronjobs" = true) :
    migrate s = runScript exec
      (wholeScript (s.tables "jobs") (s.columnType "cronjobs" "next_run" = some .timestamp)) s := by
  have htables := (runScript_frame (jobsScript (s.tables "jobs")) s).tables
  rw [wholeScript, firstScript, List.append_assoc, runScript_append, migrate, runScript_jobsScript,
    andThen]
  simp only [htables, h, if_true, migrateCronDatabase_eq,
    columnType_nextRun_eq (jobsScript_sublist _) s,
    decide_eq_true_iff]

/-! ## Running it again -/

/-- All definitions are the same. -/
structure SameDefinitions (s t : Schema) : Prop where
  columnType : ∀ table column, t.columnType table column = s.columnType table column
  index : ∀ name, t.indexes.lookup name = s.indexes.lookup name
  rule : ∀ table name, t.rules.lookup (table, name) = s.rules.lookup (table, name)

/-- A second run leaves everything as the first one left it. -/
def Idempotent (s : Schema) : Prop := SameDefinitions (migrate s).1 (migrate (migrate s).1).1

lemma idempotent_of_eq (h : (migrate (migrate s).1).1 = (migrate s).1) : Idempotent s := by
  rw [Idempotent, h]
  exact ⟨fun _ _ => rfl, fun _ => rfl, fun _ _ => rfl⟩

lemma runScript_twice {l : List Statement} (hl : l.Sublist (wholeScript true false)) (s : Schema) :
    runScript exec l (runScript exec l s).1 = runScript exec l s :=
  runScript_idempotent_of_compatible (fun st hst => isRepeatable_of_mem st (hl.subset hst))
    (wholeScript_compatible.sublist hl) s

/-- Without the time zones, the migration can be repeated. -/
lemma idempotent_of_not_timestamp
    (h : ¬ (s.tables "cronjobs" = true ∧ s.columnType "cronjobs" "next_run" = some .timestamp)) :
    Idempotent s := by
  refine idempotent_of_eq ?_
  cases hcron : s.tables "cronjobs" with
  | false =>
      have htables := (runScript_frame (jobsScript (s.tables "jobs")) s).tables
      rw [migrate_eq_workshop hcron, migrate_eq_workshop (by rw [htables, hcron]), htables,
        runScript_twice (jobsScript_sublist _)]
  | true =>
      have htype : s.columnType "cronjobs" "next_run" ≠ some .timestamp := fun ht => h ⟨hcron, ht⟩
      have htables := (runScript_frame (wholeScript (s.tables "jobs") false) s).tables
      have htype' :=
        (columnType_nextRun_eq (wholeScript_sublist (s.tables "jobs")) s).trans_ne htype
      have hcron' := htables ▸ hcron
      rw [migrate_eq_runScript hcron, decide_eq_false htype, migrate_eq_runScript hcron',
        decide_eq_false htype', htables, runScript_twice (wholeScript_sublist _)]

/-! ## With the time zones -/

/-- The schema without what depends on the time stamps. -/
def dropped (s : Schema) : Schema :=
  { s with
    indexes := s.indexes.erase "cronjobs_scheduled2"
    rules := (s.rules.erase ("cronjobs", "finish_cronjob")).erase ("cronjobs", "schedule_cronjob") }

/-- And with the index and the rule that the beginning of the script creates. -/
def restored (s : Schema) : Schema :=
  { s with
    indexes := s.indexes.insert "cronjobs_scheduled2" scheduledIndex
    rules := s.rules.insert ("cronjobs", "schedule_cronjob") scheduleRule }

lemma dropped_restored (s : Schema) : dropped (restored (dropped s)) = dropped s := by
  have hindexes : ((s.indexes.erase "cronjobs_scheduled2").insert "cronjobs_scheduled2"
      scheduledIndex).erase "cronjobs_scheduled2" = s.indexes.erase "cronjobs_scheduled2" := by
    refine Finmap.ext_lookup fun k => ?_
    by_cases hk : k = "cronjobs_scheduled2"
    · rw [hk, Finmap.lookup_erase, Finmap.lookup_erase]
    · rw [Finmap.lookup_erase_ne hk, Finmap.lookup_insert_of_ne _ hk]
  have hrules : ((((s.rules.erase ("cronjobs", "finish_cronjob")).erase
      ("cronjobs", "schedule_cronjob")).insert ("cronjobs", "schedule_cronjob")
        scheduleRule).erase ("cronjobs", "finish_cronjob")).erase ("cronjobs", "schedule_cronjob") =
      (s.rules.erase ("cronjobs", "finish_cronjob")).erase ("cronjobs", "schedule_cronjob") := by
    refine Finmap.ext_lookup fun k => ?_
    by_cases hk : k = ("cronjobs", "schedule_cronjob")
    · rw [hk, Finmap.lookup_erase, Finmap.lookup_erase]
    · rw [Finmap.lookup_erase_ne hk, Finmap.lookup_erase_ne hk]
      by_cases hk' : k = ("cronjobs", "finish_cronjob")
      · rw [hk', Finmap.lookup_erase, Finmap.lookup_erase]
      · rw [Finmap.lookup_erase_ne hk', Finmap.lookup_insert_of_ne _ hk, Finmap.lookup_erase_ne hk,
          Finmap.lookup_erase_ne hk']
  simp only [dropped, restored, hindexes, hrules]

lemma runScript_dropScript (h : "cronjobs_scheduled2" ∈ s.indexes) :
    runScript exec dropScript s = (dropped s, true) := by
  simp [dropScript, runScript, exec, h, dropped]

section First

variable {jobs : Bool} (hfirst : runScript exec (firstScript jobs) s = (t, true))
include hfirst

lemma done_first : ∀ st ∈ firstScript jobs, st.Done t :=
  done_of_completed (fun st hst => isRepeatable_of_mem st ((firstScript_sublist jobs).subset hst))
    (wholeScript_compatible.sublist (firstScript_sublist jobs)) hfirst

lemma scheduledIndex_mem : "cronjobs_scheduled2" ∈ t.indexes := by
  have hmem : .createIndex true "cronjobs_scheduled2" scheduledIndex ∈ cronScript := by
    decide +kernel
  exact (done_first hfirst _ (List.mem_append_right _ hmem)).createdIndexes _ List.mem_cons_self

/-- What is dropped is not about the other statements. -/
lemma settled_dropped : ∀ st ∈ jobsScript jobs ++ cronScript.take 2,
    exec st (dropped t) = some (dropped t) := by
  have hcompatible : ∀ st ∈ workshopScript ++ cronScript.take 2, ∀ st' ∈ dropScript,
      Compatible st st' := by decide +kernel
  have hsub : (jobsScript jobs ++ cronScript.take 2).Sublist
      (workshopScript ++ cronScript.take 2) := by
    cases jobs with
    | true => exact List.Sublist.refl _
    | false => exact List.sublist_append_right workshopScript _
  have hfirstSub : (jobsScript jobs ++ cronScript.take 2).Sublist (firstScript jobs) :=
    (List.Sublist.refl _).append (List.take_sublist 2 cronScript)
  intro st hst
  have hrepeat := isRepeatable_of_mem st
    ((firstScript_sublist jobs).subset (hfirstSub.subset hst))
  have hkeep : ∀ st' ∈ dropScript, KeepsSettled exec st st' := fun st' hst' =>
    keepsSettled_of_compatible hrepeat (hcompatible st (hsub.subset hst) st' hst')
  have hdone := done_first hfirst st (hfirstSub.subset hst)
  have hsettled := settled_runScript hkeep (exec_of_done hrepeat hdone)
  rwa [runScript_dropScript (scheduledIndex_mem hfirst)] at hsettled

lemma has_first (st : Statement) (hst : st ∈ cronScript) {table : String} {columns : List String}
    (htable : st.onTable = some table)
    (hcolumns : st.requires = columns.map fun c => (table, c)) :
    (dropped t).has table columns = true := by
  have hdone := done_first hfirst st (List.mem_append_right (jobsScript jobs) hst)
  refine Schema.has_iff.mpr ⟨hdone.table table htable, fun c hc => ?_⟩
  exact hdone.column (table, c) (hcolumns ▸ List.mem_map_of_mem hc)

/-- The beginning of the script, executed again: it creates what was dropped. -/
lemma runScript_first_dropped :
    runScript exec (firstScript jobs) (dropped t) = (restored (dropped t), true) := by
  have hsplit : firstScript jobs = (jobsScript jobs ++ cronScript.take 2) ++ cronScript.drop 2 := by
    rw [List.append_assoc, List.take_append_drop]
    rfl
  have hindex := has_first hfirst (.createIndex true "cronjobs_scheduled2" scheduledIndex)
    (by decide +kernel) rfl rfl
  have hrule := has_first hfirst (.createOrReplaceRule "cronjobs" "schedule_cronjob" scheduleRule)
    (by decide +kernel) rfl rfl
  rw [hsplit, runScript_append_of_completed (runScript_of_settled (settled_dropped hfirst))]
  have hcreate : exec (.createIndex true "cronjobs_scheduled2" scheduledIndex) (dropped t) =
      some { dropped t with
        indexes := (dropped t).indexes.insert "cronjobs_scheduled2" scheduledIndex } := by
    have habsent : "cronjobs_scheduled2" ∉ (dropped t).indexes := Finmap.notMem_erase_self
    rw [exec, if_pos hindex, if_neg habsent]
  have hreplace : exec (.createOrReplaceRule "cronjobs" "schedule_cronjob" scheduleRule)
      { dropped t with
        indexes := (dropped t).indexes.insert "cronjobs_scheduled2" scheduledIndex } =
      some (restored (dropped t)) := if_pos hrule
  change runScript exec [_, _] _ = _
  rw [runScript_cons_of_some hcreate, runScript_cons_of_some hreplace]
  rfl

end First

lemma runScript_timeZoneScript (h : "cronjobs_scheduled2" ∈ s.indexes) (l : List Statement) :
    runScript exec (timeZoneScript ++ l) s =
      runScript exec (.addTimeZones "cronjobs" timeStamps :: (recreateScript ++ l))
        (dropped s) := by
  rw [timeZoneScript, List.append_assoc, runScript_append_of_completed (runScript_dropScript h)]
  rfl

/-- The migration, if the beginning of the script is executed. -/
lemma migrate_of_first (hcron : s.tables "cronjobs" = true)
    (htype : s.columnType "cronjobs" "next_run" = some .timestamp)
    (hfirst : runScript exec (firstScript (s.tables "jobs")) s = (t, true))
    (hindex : "cronjobs_scheduled2" ∈ t.indexes) :
    migrate s = runScript exec (.addTimeZones "cronjobs" timeStamps ::
      (recreateScript ++ cronresultsScript)) (dropped t) := by
  rw [migrate_eq_runScript hcron, htype, decide_eq_true rfl, wholeScript,
    runScript_append_of_completed hfirst, if_pos rfl, runScript_timeZoneScript hindex]

/-- **If the beginning cannot be executed**, it is the same the second time. -/
lemma idempotent_of_first_failed (hcron : s.tables "cronjobs" = true)
    (htype : s.columnType "cronjobs" "next_run" = some .timestamp)
    (hfirst : runScript exec (firstScript (s.tables "jobs")) s = (t, false)) : Idempotent s := by
  have hsub := firstScript_sublist (s.tables "jobs")
  have hmigrate : migrate s = (t, false) := by
    rw [migrate_eq_runScript hcron, wholeScript, runScript_append_of_failed hfirst]
  have htables := (runScript_frame (firstScript (s.tables "jobs")) s).tables
  have htype' := (columnType_nextRun_eq hsub s).trans htype
  have hagain := runScript_twice hsub s
  rw [hfirst] at htables htype' hagain
  refine idempotent_of_eq ?_
  rw [hmigrate, migrate_eq_runScript (by rw [htables, hcron]), wholeScript, htables,
    runScript_append_of_failed hagain]

/-- **If the time zones cannot be added**, it is the same the second time, too. -/
lemma idempotent_of_timeZones_failed (hcron : s.tables "cronjobs" = true)
    (htype : s.columnType "cronjobs" "next_run" = some .timestamp)
    (hfirst : runScript exec (firstScript (s.tables "jobs")) s = (t, true))
    (hfail : exec (.addTimeZones "cronjobs" timeStamps) (dropped t) = none) : Idempotent s := by
  have hsub := firstScript_sublist (s.tables "jobs")
  have hmigrate : migrate s = (dropped t, false) := by
    rw [migrate_of_first hcron htype hfirst (scheduledIndex_mem hfirst),
      runScript_cons_of_none hfail]
  have htables := (runScript_frame (firstScript (s.tables "jobs")) s).tables
  have htype' := (columnType_nextRun_eq hsub s).trans htype
  rw [hfirst] at htables htype'
  have hagain := runScript_first_dropped hfirst
  have hindex : "cronjobs_scheduled2" ∈ (restored (dropped t)).indexes :=
    Finmap.mem_insert.mpr (.inl rfl)
  refine idempotent_of_eq ?_
  rw [hmigrate, migrate_of_first (s := dropped t) (t := restored (dropped t))
    (htables ▸ hcron) htype' (htables ▸ hagain) hindex, dropped_restored,
    runScript_cons_of_none hfail]

lemma completed_first_iff (hcron : s.tables "cronjobs" = true) :
    (runScript exec (firstScript (s.tables "jobs")) s).2 = true ↔
      ∀ k ∈ needed (firstScript (s.tables "jobs")), (s.columns k).isSome = true := by
  have hensured : ∀ st ∈ firstScript true, st.ensured = [] := by decide +kernel
  have htables : ∀ jobs, ∀ st ∈ firstScript jobs, ∀ table ∈ st.onTable,
      table = "cronjobs" ∨ jobs = true ∧ table = "jobs" := by decide +kernel
  have hsub : (firstScript (s.tables "jobs")).Sublist (firstScript true) := by
    cases s.tables "jobs" with
    | true => exact List.Sublist.refl _
    | false => exact List.sublist_append_right workshopScript _
  refine completed_iff (fun st hst => ⟨?_, hensured st (hsub.subset hst)⟩) ?_
  · exact isRepeatable_of_mem st ((firstScript_sublist _).subset hst)
  · intro st hst table htable
    rcases htables _ st hst table htable with rfl | ⟨hjobs, rfl⟩
    · exact hcron
    · exact hjobs

lemma lookup_recreated (htable : s.tables "cronjobs" = true)
    (hcolumns : ∀ c ∈ ["enabled", "node_name", "next_run"],
      (s.columns ("cronjobs", c)).isSome = true) :
    (runScript exec (recreateScript ++ cronresultsScript) s).1.rules.lookup
      ("cronjobs", "schedule_cronjob") = some recreatedScheduleRule := by
  have hneeded : ∀ k ∈ needed (recreateScript.take 2),
      k.1 = "cronjobs" ∧ k.2 ∈ ["enabled", "node_name", "next_run"] := by decide +kernel
  have hcompleted : (runScript exec (recreateScript.take 2) s).2 = true := by
    refine (completed_iff (by decide +kernel) ?_).mpr ?_
    · have hon : ∀ st ∈ recreateScript.take 2, ∀ table ∈ st.onTable, table = "cronjobs" := by
        decide +kernel
      exact fun st hst table ht => hon st hst table ht ▸ htable
    · rintro ⟨table, c⟩ hk
      obtain ⟨rfl, hc⟩ := hneeded _ hk
      exact hcolumns c hc
  generalize hv : (runScript exec (recreateScript.take 2) s).1 = v
  have hrun : runScript exec (recreateScript.take 2) s = (v, true) := Prod.ext hv hcompleted
  have hdone := done_of_completed (by decide +kernel) (by decide +kernel) hrun
    (.createOrReplaceRule "cronjobs" "schedule_cronjob" recreatedScheduleRule) (by decide +kernel)
  have hsplit : recreateScript ++ cronresultsScript =
      recreateScript.take 2 ++ (recreateScript.drop 2 ++ cronresultsScript) := by
    rw [← List.append_assoc, List.take_append_drop]
  have hother : ∀ st ∈ recreateScript.drop 2 ++ cronresultsScript,
      ("cronjobs", "schedule_cronjob") ∉ st.createdRules.map Prod.fst ∧
        ("cronjobs", "schedule_cronjob") ∉ st.droppedRules := by decide +kernel
  rw [hsplit, runScript_append_of_completed hrun, (runScript_frame _ v).rule_eq _ hother]
  exact hdone.createdRules _ List.mem_cons_self

lemma lookup_schedule (hcron : s.tables "cronjobs" = true)
    (htype : s.columnType "cronjobs" "next_run" ≠ some .timestamp)
    (hcolumns : ∀ k ∈ needed (firstScript (s.tables "jobs")), (s.columns k).isSome = true) :
    (migrate s).1.rules.lookup ("cronjobs", "schedule_cronjob") = some scheduleRule := by
  generalize hv : (runScript exec (firstScript (s.tables "jobs")) s).1 = v
  have hrun : runScript exec (firstScript (s.tables "jobs")) s = (v, true) :=
    Prod.ext hv ((completed_first_iff hcron).mpr hcolumns)
  have hmem : .createOrReplaceRule "cronjobs" "schedule_cronjob" scheduleRule ∈ cronScript := by
    decide +kernel
  have hother : ∀ st ∈ cronresultsScript,
      ("cronjobs", "schedule_cronjob") ∉ st.createdRules.map Prod.fst ∧
        ("cronjobs", "schedule_cronjob") ∉ st.droppedRules := by decide +kernel
  rw [migrate_eq_runScript hcron, decide_eq_false htype, wholeScript,
    runScript_append_of_completed hrun]
  exact ((runScript_frame cronresultsScript v).rule_eq _ hother).trans
    ((done_first hrun _ (List.mem_append_right _ hmem)).createdRules _ List.mem_cons_self)

/-- **If the time zones are added**, the second run changes the rule. -/
lemma not_idempotent_of_timeZones (hcron : s.tables "cronjobs" = true)
    (htype : s.columnType "cronjobs" "next_run" = some .timestamp)
    (hfirst : runScript exec (firstScript (s.tables "jobs")) s = (t, true)) {u : Schema}
    (hadd : exec (.addTimeZones "cronjobs" timeStamps) (dropped t) = some u) : ¬ Idempotent s := by
  have hmigrate : migrate s = runScript exec (recreateScript ++ cronresultsScript) u := by
    rw [migrate_of_first hcron htype hfirst (scheduledIndex_mem hfirst),
      runScript_cons_of_some hadd]
  have hframe := runScript_frame (firstScript (s.tables "jobs")) s
  rw [hfirst] at hframe
  have hframe' := exec_frame hadd
  have hframe'' := runScript_frame (recreateScript ++ cronresultsScript) u
  rw [← hmigrate] at hframe''
  have htables : (migrate s).1.tables = s.tables :=
    hframe''.tables.trans (hframe'.tables.trans hframe.tables)
  -- the columns are still there the second time
  have hneeded : ∀ k ∈ needed (firstScript (s.tables "jobs")), (s.columns k).isSome = true :=
    (completed_first_iff hcron).mp (by rw [hfirst])
  have hcolumns : ∀ k, (s.columns k).isSome = true → (u.columns k).isSome = true := fun k hk =>
    (hframe'.columns.isSome_iff k).mpr (.inl (hframe.isSome_column k hk))
  have hcron' : ∀ c ∈ ["enabled", "node_name", "next_run"],
      (u.columns ("cronjobs", c)).isSome = true := by
    have hmem : ∀ jobs, ∀ c ∈ ["enabled", "node_name", "next_run"],
        ("cronjobs", c) ∈ needed (firstScript jobs) := by decide +kernel
    exact fun c hc => hcolumns _ (hneeded _ (hmem _ c hc))
  have hzone : (migrate s).1.columnType "cronjobs" "next_run" ≠ some .timestamp := by
    have hother : ∀ st ∈ recreateScript ++ cronresultsScript,
        ("cronjobs", "next_run") ∉ st.altered ∧ ("cronjobs", "next_run") ∉ st.added := by
      decide +kernel
    rw [hframe''.columnType_eq hother]
    exact columnType_addTimeZones hadd (by decide +kernel)
  intro hidempotent
  have hrule := hidempotent.rule "cronjobs" "schedule_cronjob"
  have hsecond := lookup_schedule (s := (migrate s).1) (htables ▸ hcron) hzone
    (htables ▸ fun k hk => hframe''.isSome_column k (hcolumns k (hneeded k hk)))
  have hlookup := lookup_recreated (s := u) (hframe'.tables ▸ hframe.tables ▸ hcron) hcron'
  rw [hsecond, hmigrate, hlookup] at hrule
  exact absurd hrule (by decide +kernel)

/-! ## When time zones are added -/

/-- The indexes that are dropped. -/
def replacedIndexes (jobs : Bool) : List String :=
  (if jobs then ["jobs_sorted", "jobs_scheduled"] else []) ++
    ["cronjobs_scheduled", "cronjobs_scheduled2"]

/-- No rule uses the column, apart from those that are dropped. -/
def NoRuleUses (s : Schema) (column : String) : Prop :=
  ∀ name rule, s.rules.lookup ("cronjobs", name) = some rule →
    name ∈ ["finish_cronjob", "schedule_cronjob"] ∨
      column ∉ rule.condition.columns ++ rule.actionColumns

/-- No index compares the column with a literal, apart from those that are dropped. -/
def NoIndexCompares (s : Schema) (column : String) : Prop :=
  ∀ name index, s.indexes.lookup name = some index → index.table = "cronjobs" →
    name ∈ replacedIndexes (s.tables "jobs") ∨ column ∉ index.condition.compared

/-- The columns that the statements for `jobs` use and do not add. -/
def jobColumns : List String :=
  ["priority", "time_created", "scheduled_time", "node_name", "time_done", "exit_status",
    "plan_name"]

/-- **The migration adds the time zones to `cronjobs`.**  `next_run` has none, the columns that are
used are there, and nothing else depends on the time stamps. -/
structure AddsTimeZones (s : Schema) : Prop where
  cronjobs : s.tables "cronjobs" = true
  nextRun : s.columnType "cronjobs" "next_run" = some .timestamp
  jobColumns : s.tables "jobs" = true →
    ∀ c ∈ jobColumns, (s.columns ("jobs", c)).isSome = true
  cronColumns : ∀ c ∈ ["enabled", "node_name"], (s.columns ("cronjobs", c)).isSome = true
  stamps : ∀ c ∈ timeStamps, s.columnType "cronjobs" c = some .timestamptz ∨
    s.columnType "cronjobs" c = some .timestamp ∧ NoIndexCompares s c
  rules : ∀ c ∈ timeStamps, NoRuleUses s c

section First

variable {jobs : Bool} (hfirst : runScript exec (firstScript jobs) s = (t, true))
include hfirst

lemma frame_dropped : ScriptFrame (firstScript jobs ++ dropScript) s (dropped t) := by
  have hframe := runScript_frame (firstScript jobs ++ dropScript) s
  rwa [runScript_append_of_completed hfirst,
    runScript_dropScript (scheduledIndex_mem hfirst)] at hframe

omit hfirst in
lemma lookup_dropped {name : String} (hname : name ∈ ["finish_cronjob", "schedule_cronjob"]) :
    (dropped t).rules.lookup ("cronjobs", name) = none := by
  have hne : ("cronjobs", "finish_cronjob") ≠ ("cronjobs", "schedule_cronjob") := by
    decide +kernel
  rcases List.mem_cons.mp hname with rfl | hname
  · exact (Finmap.lookup_erase_ne hne).trans (Finmap.lookup_erase _ _)
  · obtain rfl := List.mem_singleton.mp hname
    exact Finmap.lookup_erase _ _

lemma replaced_notMem {name : String} (hname : name ∈ replacedIndexes jobs) :
    name ∉ (dropped t).indexes := by
  have hdrops : ∀ jobs, ∀ name ∈ replacedIndexes jobs, name = "cronjobs_scheduled2" ∨
      .dropIndex true name ∈ firstScript jobs := by decide +kernel
  rcases hdrops jobs name hname with rfl | hdrop
  · exact Finmap.notMem_erase_self
  · have habsent := (done_first hfirst _ hdrop).droppedIndexes name List.mem_cons_self
    exact fun hmem => habsent (Finmap.mem_erase.mp hmem).2

lemma columnType_dropped {c : String} (hc : c ∈ timeStamps) :
    (dropped t).columnType "cronjobs" c = s.columnType "cronjobs" c := by
  have hother : ∀ jobs, ∀ c ∈ timeStamps, ∀ st ∈ firstScript jobs ++ dropScript,
      ("cronjobs", c) ∉ st.altered ∧ ("cronjobs", c) ∉ st.added := by decide +kernel
  exact (frame_dropped hfirst).columnType_eq (hother jobs c hc)

lemma noRuleUses_iff (c : String) : NoRuleUses s c ↔
    ∀ name rule, (dropped t).rules.lookup ("cronjobs", name) = some rule →
      c ∉ rule.condition.columns ++ rule.actionColumns := by
  have hkeys : ∀ jobs, ∀ st ∈ firstScript jobs ++ dropScript,
      ∀ k ∈ st.createdRules.map Prod.fst ++ st.droppedRules,
        k.1 = "jobs" ∨ k.2 ∈ ["finish_cronjob", "schedule_cronjob"] := by decide +kernel
  have hlookup : ∀ name, name ∉ ["finish_cronjob", "schedule_cronjob"] →
      (dropped t).rules.lookup ("cronjobs", name) = s.rules.lookup ("cronjobs", name) := by
    intro name hname
    refine (frame_dropped hfirst).rule_eq _ fun st hst => ?_
    rw [← not_or, ← List.mem_append]
    intro hk
    rcases hkeys jobs st hst _ hk with htable | hmem
    · exact absurd htable (show "cronjobs" ≠ "jobs" by decide +kernel)
    · exact hname hmem
  constructor
  · intro h name rule hrule
    by_cases hname : name ∈ ["finish_cronjob", "schedule_cronjob"]
    · rw [lookup_dropped hname] at hrule
      cases hrule
    · exact (h name rule (hlookup name hname ▸ hrule)).resolve_left hname
  · intro h name rule hrule
    refine or_iff_not_imp_left.mpr fun hname => ?_
    exact h name rule ((hlookup name hname).trans hrule)

lemma noIndexCompares_iff (hjobs : s.tables "jobs" = jobs) (c : String) : NoIndexCompares s c ↔
    ∀ name index, (dropped t).indexes.lookup name = some index → index.table = "cronjobs" →
      c ∉ index.condition.compared := by
  have hdropped : ∀ jobs, ∀ st ∈ firstScript jobs ++ dropScript, ∀ n ∈ st.droppedIndexes,
      n ∈ replacedIndexes jobs := by decide +kernel
  have hcreated : ∀ jobs, ∀ st ∈ firstScript jobs ++ dropScript, ∀ x ∈ st.createdIndexes,
      x.2.table ≠ "cronjobs" ∨ x.1 ∈ replacedIndexes jobs := by decide +kernel
  have hframe := frame_dropped hfirst
  constructor
  · intro h name index hindex htable
    have hname : name ∉ replacedIndexes jobs := fun hmem =>
      replaced_notMem hfirst hmem (Finmap.mem_of_lookup_eq_some hindex)
    rcases hframe.index_some_of name index hindex with hold | ⟨st, hst, hnew⟩
    · exact (h name index hold htable).resolve_left (hjobs ▸ hname)
    · exact absurd (hcreated jobs st hst _ hnew) (not_or.mpr ⟨fun hne => hne htable, hname⟩)
  · intro h name index hindex htable
    refine or_iff_not_imp_left.mpr fun hname => h name index ?_ htable
    exact hframe.index_of_some name index hindex fun st hst hdrop =>
      hname (hjobs ▸ hdropped jobs st hst name hdrop)

end First

/-- The time zones can be added exactly if nothing else depends on the time stamps. -/
lemma addTimeZones_isSome_iff (hcron : s.tables "cronjobs" = true)
    (hfirst : runScript exec (firstScript (s.tables "jobs")) s = (t, true)) :
    (exec (.addTimeZones "cronjobs" timeStamps) (dropped t)).isSome = true ↔
      (∀ c ∈ timeStamps, s.columnType "cronjobs" c = some .timestamptz ∨
        s.columnType "cronjobs" c = some .timestamp ∧ NoIndexCompares s c) ∧
      ∀ c ∈ timeStamps, NoRuleUses s c := by
  have htable : (dropped t).tables "cronjobs" = true := (frame_dropped hfirst).tables ▸ hcron
  have hcan : ∀ c ∈ timeStamps, (dropped t).canAlter "cronjobs" c = true ↔
      (s.columnType "cronjobs" c = some .timestamptz ∨
        s.columnType "cronjobs" c = some .timestamp ∧ NoIndexCompares s c) ∧ NoRuleUses s c := by
    intro c hc
    rw [Schema.canAlter_iff, columnType_dropped hfirst hc, ← noRuleUses_iff hfirst,
      ← noIndexCompares_iff hfirst rfl, and_comm]
  have hall : timeStamps.all ((dropped t).canAlter "cronjobs") = true ↔
      (∀ c ∈ timeStamps, s.columnType "cronjobs" c = some .timestamptz ∨
        s.columnType "cronjobs" c = some .timestamp ∧ NoIndexCompares s c) ∧
      ∀ c ∈ timeStamps, NoRuleUses s c := by
    rw [List.all_eq_true, ← forall₂_and]
    exact forall₂_congr hcan
  rw [exec, Schema.addTimeZones, htable, Bool.true_and, ← hall]
  split <;> simp [*]

lemma needed_iff (htype : s.columnType "cronjobs" "next_run" = some .timestamp) :
    (∀ k ∈ needed (firstScript (s.tables "jobs")), (s.columns k).isSome = true) ↔
      (s.tables "jobs" = true → ∀ c ∈ jobColumns, (s.columns ("jobs", c)).isSome = true) ∧
      ∀ c ∈ ["enabled", "node_name"], (s.columns ("cronjobs", c)).isSome = true := by
  have hneeded : ∀ jobs, ∀ k ∈ needed (firstScript jobs), (jobs = true ∧ k.1 = "jobs" ∧
      k.2 ∈ jobColumns) ∨ k.1 = "cronjobs" ∧ k.2 ∈ ["next_run", "enabled", "node_name"] := by
    decide +kernel
  have hjob : ∀ c ∈ jobColumns, ("jobs", c) ∈ needed (firstScript true) := by decide +kernel
  have hcron : ∀ jobs, ∀ c ∈ ["enabled", "node_name"],
      ("cronjobs", c) ∈ needed (firstScript jobs) := by decide +kernel
  constructor
  · exact fun h => ⟨fun hjobs c hc => h _ (hjobs ▸ hjob c hc), fun c hc => h _ (hcron _ c hc)⟩
  · rintro ⟨hjobs, hcolumns⟩ ⟨table, c⟩ hk
    rcases hneeded _ _ hk with ⟨htable, rfl, hc⟩ | ⟨rfl, hc⟩
    · exact hjobs htable c hc
    · rcases List.mem_cons.mp hc with rfl | hc
      · obtain ⟨column, hcolumn, -⟩ := Option.map_eq_some_iff.mp htype
        exact Option.isSome_of_eq_some hcolumn
      · exact hcolumns c hc

/-- **When the migration is idempotent.**  A second run leaves all definitions as the first one left
them, exactly if the first one does not add the time zones to the table `cronjobs`. -/
theorem idempotent_iff (s : Schema) : Idempotent s ↔ ¬ AddsTimeZones s := by
  by_cases hstart : s.tables "cronjobs" = true ∧
      s.columnType "cronjobs" "next_run" = some .timestamp
  · obtain ⟨hcron, htype⟩ := hstart
    cases hfirst : runScript exec (firstScript (s.tables "jobs")) s with
    | mk t completed =>
      have hcompleted := completed_first_iff hcron
      rw [hfirst, needed_iff htype] at hcompleted
      cases completed with
      | false =>
          refine iff_of_true (idempotent_of_first_failed hcron htype hfirst) fun h => ?_
          exact absurd (hcompleted.mpr ⟨h.jobColumns, h.cronColumns⟩) Bool.false_ne_true
      | true =>
          obtain ⟨hjobs, hcolumns⟩ := hcompleted.mp rfl
          have hadds := addTimeZones_isSome_iff hcron hfirst
          cases hexec : exec (.addTimeZones "cronjobs" timeStamps) (dropped t) with
          | none =>
              rw [hexec] at hadds
              refine iff_of_true (idempotent_of_timeZones_failed hcron htype hfirst hexec)
                fun h => ?_
              exact absurd (hadds.mpr ⟨h.stamps, h.rules⟩) Bool.false_ne_true
          | some u =>
              rw [hexec] at hadds
              obtain ⟨hstamps, hrules⟩ := hadds.mp rfl
              refine iff_of_false (not_idempotent_of_timeZones hcron htype hfirst hexec) ?_
              exact not_not_intro ⟨hcron, htype, hjobs, hcolumns, hstamps, hrules⟩
  · exact iff_of_true (idempotent_of_not_timestamp hstart) fun h => hstart ⟨h.cronjobs, h.nextRun⟩

/-- The table `cronjobs` of an old version, whose time stamps have no time zone. -/
def oldSchema : Schema where
  tables table := table == "cronjobs"
  columns k :=
    if k.1 = "cronjobs" then
      if k.2 ∈ timeStamps then some { type := .timestamp }
      else if k.2 = "enabled" then some { type := .other "boolean" }
      else if k.2 = "node_name" then some { type := .other "varchar(256)" }
      else none
    else none
  indexes := ∅
  rules := ∅

/-- **There the second run changes the rule.** -/
theorem old_schema_not_idempotent : ¬ ∀ s, Idempotent s := by
  intro h
  have hrule := (h oldSchema).rule "cronjobs" "schedule_cronjob"
  exact absurd hrule (by decide +kernel)

end Workshop.Migrate

import Workshop.Jobs.Library

/-!
# Updating the plan library

What `Library::Update` (`src/workshop/PlanLibrary.cxx`) leaves of the plans, and what it says about
them.

`UpdatePlans` moves all entries out of the map before it opens the directory, and puts them back one
by one.  If reading the directory fails, those it has not come to are lost: the plans are kept
exactly if the reader has returned all of them before (`update_keeps_plans_iff`).

`Update` returns whether the library was modified.  What it compares is whether plans are available,
before and after; neither the contents of a plan nor a plan that cannot be loaded count
(`update_reports_iff`).
-/

namespace Workshop.Jobs

open Workshop.Lib

/-! ## The files of a directory -/

/-- `UpdatePlans` looks at a file of this name. -/
def isPlanFile (name : String) : Bool := !isSpecialFilename name && isValidPlanName name

namespace DirectoryView

/-- The plan files the reader returns. -/
def planFiles (dir : DirectoryView) : List (String × FileView) :=
  dir.files.filter fun p => isPlanFile p.1

/-- Their names. -/
def planNames (dir : DirectoryView) : List String := dir.planFiles.map Prod.fst

end DirectoryView

section Loop

variable {env : PlanEnv} {now : ℤ} {u : PlansUpdate} {files : List (String × FileView)}

lemma not_isPlanFile (name : String) :
    (isSpecialFilename name || !isValidPlanName name) = !isPlanFile name := by
  rw [isPlanFile, Bool.not_and, Bool.not_not]

lemma PlansUpdate.readFile_of_planFile {p : String × FileView} (h : isPlanFile p.1 = true) :
    u.readFile env now p =
      { oldPlans := u.oldPlans.erase p.1
        plans := u.plans.insert p.1 ((u.entry p.1).updatePlan env p.2 now).2
        modified := u.modified || u.oldPlans[p.1]?.isNone ||
          ((u.entry p.1).updatePlan env p.2 now).1 } := by
  rw [PlansUpdate.readFile, not_isPlanFile, h]
  rfl

lemma foldl_readFile_filter (env : PlanEnv) (now : ℤ) (u : PlansUpdate)
    (files : List (String × FileView)) :
    files.foldl (PlansUpdate.readFile env now) u =
      (files.filter fun p => isPlanFile p.1).foldl (PlansUpdate.readFile env now) u := by
  induction files generalizing u with
  | nil => rfl
  | cons p files ih =>
      cases hp : isPlanFile p.1 with
      | true => rw [List.filter_cons_of_pos (by exact hp), List.foldl_cons, List.foldl_cons, ih]
      | false =>
          rw [List.filter_cons_of_neg (by simp [hp]), List.foldl_cons, PlansUpdate.readFile,
            not_isPlanFile, hp, Bool.not_false, if_pos rfl, ih]

/-- The loop takes the entries of all files out of the old map. -/
lemma foldl_readFile_oldPlans (hfiles : ∀ p ∈ files, isPlanFile p.1 = true) (name : String) :
    (files.foldl (PlansUpdate.readFile env now) u).oldPlans[name]? =
      if name ∈ files.map Prod.fst then none else u.oldPlans[name]? := by
  induction files generalizing u with
  | nil => rfl
  | cons p files ih =>
      obtain ⟨hp, hfiles⟩ := List.forall_mem_cons.mp hfiles
      rw [List.foldl_cons, ih hfiles, PlansUpdate.readFile_of_planFile hp]
      simp only [Std.TreeMap.getElem?_erase, List.map_cons, List.mem_cons,
        Std.LawfulEqCmp.compare_eq_iff_eq]
      by_cases hname : name ∈ files.map Prod.fst
      · rw [if_pos hname, if_pos (.inr hname)]
      · rw [if_neg hname]
        by_cases heq : p.1 = name
        · rw [if_pos heq, if_pos (.inl heq.symm)]
        · rw [if_neg heq, if_neg (not_or.mpr ⟨Ne.symm heq, hname⟩)]

lemma mem_foldl_readFile (hfiles : ∀ p ∈ files, isPlanFile p.1 = true) (name : String) :
    name ∈ (files.foldl (PlansUpdate.readFile env now) u).plans ↔
      name ∈ u.plans ∨ name ∈ files.map Prod.fst := by
  induction files generalizing u with
  | nil => simp
  | cons p files ih =>
      obtain ⟨hp, hfiles⟩ := List.forall_mem_cons.mp hfiles
      rw [List.foldl_cons, ih hfiles, PlansUpdate.readFile_of_planFile hp, Std.TreeMap.mem_insert,
        Std.LawfulEqCmp.compare_eq_iff_eq, List.map_cons, List.mem_cons, eq_comm, or_assoc,
        or_left_comm]

end Loop

namespace Library

variable {env : PlanEnv} {library : Library} {now : ℤ} {force : Bool} {dir : DirectoryView}

/-- `Update` comes to `UpdatePlans`. -/
def readsPlans (library : Library) (now : ℤ) (force : Bool) (dir : DirectoryView) : Bool :=
  match dir.statx with
  | some (true, mtime) => force || mtime ≠ library.mtime || !library.isChecked now
  | _ => false

/-- The loop of `UpdatePlans`, over the plan files. -/
def updateLoop (env : PlanEnv) (library : Library) (now : ℤ) (dir : DirectoryView) : PlansUpdate :=
  dir.planFiles.foldl (PlansUpdate.readFile env now) { oldPlans := library.plans }

lemma update_of_not_readsPlans (h : library.readsPlans now force dir = false) :
    library.update env now force dir = (false, library) := by
  unfold readsPlans at h
  unfold update
  rcases hstatx : dir.statx with _ | ⟨_ | _, mtime⟩
  · rfl
  · rfl
  · simp only [hstatx, Bool.or_eq_false_iff, decide_eq_false_iff_not, not_not,
      Bool.not_eq_false'] at h
    obtain ⟨⟨rfl, rfl⟩, hchecked⟩ := h
    simp [hchecked]

/-- What `Update` leaves and returns. -/
lemma update_of_readsPlans (env : PlanEnv) (h : library.readsPlans now force dir = true) :
    (library.update env now force dir).2.plans = (library.updateLoop env now dir).plans ∧
      (library.update env now force dir).1 = (!dir.fails &&
        ((library.updateLoop env now dir).modified ||
          !(library.updateLoop env now dir).oldPlans.isEmpty)) := by
  have hloop : dir.files.foldl (PlansUpdate.readFile env now) { oldPlans := library.plans } =
      library.updateLoop env now dir := foldl_readFile_filter ..
  unfold readsPlans at h
  unfold update
  rcases hstatx : dir.statx with _ | ⟨_ | _, mtime⟩
  · simp [hstatx] at h
  · simp [hstatx] at h
  · simp only [hstatx, Bool.or_eq_true, decide_eq_true_eq, Bool.not_eq_true'] at h
    have hgo : (!force && mtime = library.mtime && library.isChecked now) = false := by
      rcases h with (rfl | hmtime) | hchecked
      · rfl
      · simp [hmtime]
      · simp [hchecked]
    simp only [hgo, Bool.false_eq_true, if_false, updatePlans, hloop]
    cases dir.fails with
    | true => exact ⟨rfl, rfl⟩
    | false => exact ⟨rfl, rfl⟩

lemma planFiles_isPlanFile (dir : DirectoryView) : ∀ p ∈ dir.planFiles, isPlanFile p.1 = true :=
  fun _ hp => (List.mem_filter.mp hp).2

lemma mem_updateLoop {name : String} :
    name ∈ (library.updateLoop env now dir).plans ↔ name ∈ dir.planNames := by
  rw [updateLoop, mem_foldl_readFile (planFiles_isPlanFile dir)]
  simp [DirectoryView.planNames]

end Library

/-! ## A directory that cannot be read -/

/-- No plan was lost: all names are still there, and the entries with other names than these are
what they were. -/
def LosesNoPlan (library library' : Library) (visited : List String) : Prop :=
  (∀ name ∈ library.plans, name ∈ library'.plans) ∧
    ∀ name, name ∉ visited → library'.plans[name]? = library.plans[name]?

/-- **A failed update loses no plan** exactly if the reader has returned the files of all plans
before it failed. -/
theorem update_keeps_plans_iff (env : PlanEnv) (library : Library) (now : ℤ) (force : Bool)
    (dir : DirectoryView) (hreads : library.readsPlans now force dir = true)
    (hfails : dir.fails = true) :
    (library.update env now force dir).1 = false ∧
      (LosesNoPlan library (library.update env now force dir).2 dir.planNames ↔
        ∀ name ∈ library.plans, name ∈ dir.planNames) := by
  obtain ⟨hplans, hresult⟩ := Library.update_of_readsPlans env hreads
  have hmem : ∀ name, name ∈ (library.update env now force dir).2.plans ↔ name ∈ dir.planNames := by
    intro name
    rw [hplans, Library.mem_updateLoop]
  refine ⟨by simp [hresult, hfails], ?_⟩
  constructor
  · intro hloses name hname
    exact (hmem name).mp (hloses.1 name hname)
  · intro hall
    refine ⟨fun name hname => (hmem name).mpr (hall name hname), fun name hname => ?_⟩
    have hold : name ∉ library.plans := fun hin => hname (hall name hin)
    have hnew : name ∉ (library.update env now force dir).2.plans := fun hin =>
      hname ((hmem name).mp hin)
    rw [Std.TreeMap.getElem?_eq_none hold, Std.TreeMap.getElem?_eq_none hnew]

/-- A library with one plan. -/
def trueLibrary : Library := (Library.update plainEnv {} 0 true (oneFile planFile)).2

theorem update_keeps_plans_read :
    (trueLibrary.update plainEnv 0 true { oneFile planFile with fails := true }).1 = false ∧
      LosesNoPlan trueLibrary
        (trueLibrary.update plainEnv 0 true { oneFile planFile with fails := true }).2
        (DirectoryView.planNames { oneFile planFile with fails := true }) := by
  have hkeeps := update_keeps_plans_iff plainEnv trueLibrary 0 true
    { oneFile planFile with fails := true }
    rfl rfl
  refine ⟨hkeeps.1, hkeeps.2.mpr fun name hname => ?_⟩
  have hplans := (Library.update_of_readsPlans plainEnv
    (show Library.readsPlans {} 0 true (oneFile planFile) = true from rfl)).1
  rw [trueLibrary, hplans, Library.mem_updateLoop] at hname
  exact hname

/-- A directory that cannot be opened. -/
def unreadable : DirectoryView where
  statx := some (true, 1)
  files := []
  fails := true

theorem update_loses_plans :
    (trueLibrary.update plainEnv 0 true unreadable).1 = false ∧ "p" ∈ trueLibrary.plans ∧
      "p" ∉ (trueLibrary.update plainEnv 0 true unreadable).2.plans ∧
      ¬ LosesNoPlan trueLibrary (trueLibrary.update plainEnv 0 true unreadable).2
        unreadable.planNames := by
  have hin : "p" ∈ trueLibrary.plans := by decide +kernel
  have hout : "p" ∉ (trueLibrary.update plainEnv 0 true unreadable).2.plans := by decide +kernel
  exact ⟨rfl, hin, hout, fun h => hout (h.1 "p" hin)⟩

/-! ## What an update reports -/

/-- What became of an entry is a change: the plan became available or is not available any more, or
the available plan is another one. -/
def PlanEntry.Differs (entry entry' : PlanEntry) (now : ℤ) : Prop :=
  entry'.isAvailable now ≠ entry.isAvailable now ∨
    (entry'.isAvailable now = true ∧ entry'.plan ≠ entry.plan)

/-- The library was changed: a plan was added or removed, or what became of its entry is a change.
-/
def Library.ChangedTo (library library' : Library) (now : ℤ) : Prop :=
  (∃ name, ¬ (name ∈ library.plans ↔ name ∈ library'.plans)) ∨
    ∃ (name : String) (entry entry' : PlanEntry), library.plans[name]? = some entry ∧
      library'.plans[name]? = some entry' ∧ entry.Differs entry' now

/-- The plan is not disabled because of an earlier error, unless its file was modified. -/
def PlanEntry.isConsidered (entry : PlanEntry) (now mtime : ℤ) : Bool :=
  mtime ≠ entry.mtime || !entry.isDisabled now

/-- The plan an entry has once its file was looked at; one that was not modified is loaded only if
there is none yet. -/
def FileView.planFor (env : PlanEnv) (file : FileView) (entry : PlanEntry) (mtime : ℤ) :
    Option Plan :=
  if mtime = entry.mtime ∧ entry.plan.isSome then entry.plan else (file.load env).toOption

/-- The executable of the plan is there, or it needs none. -/
def FileView.executes (file : FileView) (plan : Plan) : Bool :=
  plan.translate || file.executable (plan.args.headD "") = .found

/-- **Changes that `UpdatePlan` reports**: the file is not a regular one any more, or the executable
has come or gone. -/
def reportedChange (env : PlanEnv) (now : ℤ) (file : FileView) (entry : PlanEntry) : Bool :=
  match file.statx with
  | none => false
  | some (false, _) => entry.isAvailable now
  | some (true, mtime) =>
    entry.isConsidered now mtime &&
      (file.planFor env entry mtime).any fun plan => file.executes plan != entry.isAvailable now

/-- **Changes that it does not report**: of an available plan, the file is gone, or cannot be
loaded, or has another plan in it. -/
def silentChange (env : PlanEnv) (now : ℤ) (file : FileView) (entry : PlanEntry) : Bool :=
  entry.isAvailable now &&
    match file.statx with
    | none => entry.plan.isSome
    | some (false, _) => false
    | some (true, mtime) =>
      entry.isConsidered now mtime &&
        (file.planFor env entry mtime).all fun plan => file.executes plan && entry.plan ≠ some plan

section UpdatePlan

variable {env : PlanEnv} {now : ℤ} {file : FileView} {entry : PlanEntry}

lemma PlanEntry.isAvailable_disable (entry : PlanEntry) {duration : ℤ} (hduration : 0 < duration) :
    (entry.disable now duration).isAvailable now = false := by
  simp [PlanEntry.isAvailable, PlanEntry.disable, PlanEntry.isDisabled, hduration]

/-- `ValidatePlan` says whether the plan is available then. -/
lemma PlanEntry.validatePlan_spec (file : FileView) (entry : PlanEntry) (plan : Plan)
    (henabled : entry.isDisabled now = false) :
    (entry.validatePlan file now plan).1 = file.executes plan ∧
      (entry.validatePlan file now plan).2.isAvailable now = file.executes plan := by
  have hinstalled : { entry with deinstalled := false }.isAvailable now = true := by
    simpa [PlanEntry.isAvailable, PlanEntry.isDisabled] using henabled
  unfold PlanEntry.validatePlan FileView.executes
  cases htranslate : plan.translate with
  | true => exact ⟨rfl, hinstalled⟩
  | false =>
      cases hfile : file.executable (plan.args.headD "") with
      | found => exact ⟨rfl, hinstalled⟩
      | missing => exact ⟨rfl, rfl⟩
      | failed => exact ⟨rfl, PlanEntry.isAvailable_disable entry (by decide)⟩

lemma PlanEntry.updatePlan_of_considered {mtime : ℤ} (hstatx : file.statx = some (true, mtime))
    (hconsidered : entry.isConsidered now mtime = true) :
    ∃ entry₁ : PlanEntry, entry₁.isDisabled now = false ∧
      ((file.planFor env entry mtime = none ∧
          entry.updatePlan env file now = (false, entry₁.disable now (600 * second))) ∨
        ∃ plan, file.planFor env entry mtime = some plan ∧ entry₁.plan = some plan ∧
          entry.updatePlan env file now =
            ((entry₁.validatePlan file now plan).1 != entry.isAvailable now,
              (entry₁.validatePlan file now plan).2)) := by
  by_cases hmtime : mtime = entry.mtime
  · subst hmtime
    have henabled : entry.isDisabled now = false := by
      simpa [PlanEntry.isConsidered] using hconsidered
    cases hplan : entry.plan with
    | some plan =>
        refine ⟨entry, henabled, .inr ⟨plan, ?_, hplan, ?_⟩⟩
        · simp [FileView.planFor, hplan]
        · simp [PlanEntry.updatePlan, PlanEntry.checkPlanModified, hstatx, henabled, hplan]
    | none =>
        rcases hload : file.load env with message | plan
        · refine ⟨entry, henabled, .inl ⟨?_, ?_⟩⟩
          · simp [FileView.planFor, hplan, hload, Except.toOption]
          · simp [PlanEntry.updatePlan, PlanEntry.checkPlanModified, hstatx, henabled, hplan, hload]
        · refine ⟨{ entry with plan := some plan }, henabled, .inr ⟨plan, ?_, rfl, ?_⟩⟩
          · simp [FileView.planFor, hplan, hload, Except.toOption]
          · simp [PlanEntry.updatePlan, PlanEntry.checkPlanModified, hstatx, henabled, hplan, hload]
  · -- a modified file: the entry is enabled, and its plan is loaded again
    have henabled : { entry.enable with plan := none, mtime := mtime }.isDisabled now = false := rfl
    rcases hload : file.load env with message | plan
    · refine ⟨_, henabled, .inl ⟨?_, ?_⟩⟩
      · simp [FileView.planFor, hmtime, hload, Except.toOption]
      · simp [PlanEntry.updatePlan, PlanEntry.checkPlanModified, hstatx, henabled, hmtime, hload]
    · refine ⟨{ entry.enable with plan := some plan, mtime := mtime }, rfl,
        .inr ⟨plan, ?_, rfl, ?_⟩⟩
      · simp [FileView.planFor, hmtime, hload, Except.toOption]
      · simp [PlanEntry.updatePlan, PlanEntry.checkPlanModified, hstatx, henabled, hmtime, hload]

/-- **What `UpdatePlan` reports, and what it does not.** -/
lemma PlanEntry.updatePlan_spec (env : PlanEnv) (now : ℤ) (file : FileView) (entry : PlanEntry) :
    (entry.updatePlan env file now).1 = reportedChange env now file entry ∧
      (entry.Differs (entry.updatePlan env file now).2 now ↔
        reportedChange env now file entry = true ∨ silentChange env now file entry = true) := by
  rcases hstatx : file.statx with _ | ⟨_ | _, mtime⟩
  · have hupdate : entry.updatePlan env file now = (false, entry.clear) := by
      simp [PlanEntry.updatePlan, PlanEntry.checkPlanModified, hstatx, PlanEntry.clear,
        PlanEntry.isAvailable, PlanEntry.isDisabled]
    have havailable : entry.clear.isAvailable now = entry.isAvailable now := rfl
    rw [hupdate]
    have hplan : entry.clear.plan = none := rfl
    cases hold : entry.plan <;>
      simp [reportedChange, silentChange, hstatx, PlanEntry.Differs, havailable, hplan, hold]
  · have hupdate : entry.updatePlan env file now =
        (entry.isAvailable now, entry.clear.disable now (60 * second)) := by
      simp [PlanEntry.updatePlan, PlanEntry.checkPlanModified, hstatx,
        PlanEntry.isAvailable_disable entry.clear (show 0 < 60 * second by decide)]
    rw [hupdate]
    simp [reportedChange, silentChange, hstatx, PlanEntry.Differs,
      PlanEntry.isAvailable_disable entry.clear (show 0 < 60 * second by decide)]
  · cases hconsidered : entry.isConsidered now mtime with
    | false =>
        obtain ⟨rfl, hdisabled⟩ : mtime = entry.mtime ∧ entry.isDisabled now = true := by
          simpa [PlanEntry.isConsidered] using hconsidered
        have hupdate : entry.updatePlan env file now = (false, entry) := by
          simp [PlanEntry.updatePlan, PlanEntry.checkPlanModified, hstatx, hdisabled]
        rw [hupdate]
        simp [reportedChange, silentChange, hstatx, hconsidered, PlanEntry.Differs]
    | true =>
        obtain ⟨entry₁, henabled, ⟨hplan, hupdate⟩ | ⟨plan, hplan, hplan₁, hupdate⟩⟩ :=
          PlanEntry.updatePlan_of_considered hstatx hconsidered
        · have havailable : (entry₁.disable now (600 * second)).isAvailable now = false :=
            PlanEntry.isAvailable_disable entry₁ (by decide)
          rw [hupdate]
          simp [reportedChange, silentChange, hstatx, hconsidered, hplan, PlanEntry.Differs,
            havailable]
        · obtain ⟨hvalid, havailable⟩ := PlanEntry.validatePlan_spec file entry₁ plan henabled
          have hkeeps : (entry₁.validatePlan file now plan).2.plan = some plan := by
            rw [PlanEntry.validatePlan_plan, hplan₁]
          rw [hupdate]
          simp only [reportedChange, silentChange, hstatx, hconsidered, hplan, PlanEntry.Differs,
            havailable, hvalid, hkeeps, Option.any_some, Option.all_some]
          have hne : some plan ≠ entry.plan ↔ entry.plan ≠ some plan := ne_comm
          cases file.executes plan <;> cases entry.isAvailable now <;> simp [hne]

end UpdatePlan

section Loop

variable {env : PlanEnv} {now : ℤ} {u : PlansUpdate} {files : List (String × FileView)}

/-- What the loop has found modified stays so. -/
lemma modified_foldl_readFile (hfiles : ∀ p ∈ files, isPlanFile p.1 = true)
    (hmodified : u.modified = true) :
    (files.foldl (PlansUpdate.readFile env now) u).modified = true := by
  induction files generalizing u with
  | nil => exact hmodified
  | cons p files ih =>
      obtain ⟨hp, hfiles⟩ := List.forall_mem_cons.mp hfiles
      rw [List.foldl_cons, PlansUpdate.readFile_of_planFile hp]
      exact ih hfiles (by simp [hmodified])

lemma modified_of_new (hfiles : ∀ p ∈ files, isPlanFile p.1 = true)
    (hnew : ¬ ((files.map Prod.fst).Nodup ∧ ∀ p ∈ files, p.1 ∈ u.oldPlans)) :
    (files.foldl (PlansUpdate.readFile env now) u).modified = true := by
  induction files generalizing u with
  | nil => simp at hnew
  | cons p files ih =>
      obtain ⟨hp, hfiles⟩ := List.forall_mem_cons.mp hfiles
      rw [List.foldl_cons, PlansUpdate.readFile_of_planFile hp]
      by_cases hold : p.1 ∈ u.oldPlans
      · refine ih hfiles fun ⟨hnodup, hall⟩ => hnew ⟨?_, ?_⟩
        · refine List.nodup_cons.mpr ⟨fun hagain => ?_, hnodup⟩
          obtain ⟨q, hq, hqp⟩ := List.mem_map.mp hagain
          have herased := hall q hq
          rw [Std.TreeMap.mem_erase, ne_eq, Std.LawfulEqCmp.compare_eq_iff_eq] at herased
          exact herased.1 hqp.symm
        · refine List.forall_mem_cons.mpr ⟨hold, fun q hq => ?_⟩
          exact Std.TreeMap.mem_of_mem_erase (hall q hq)
      · refine modified_foldl_readFile hfiles ?_
        simp [Std.TreeMap.getElem?_eq_none hold]

/-- **The loop over files that were all known**: it updates each entry once. -/
lemma foldl_readFile_known (env : PlanEnv) (now : ℤ) (entries : String → PlanEntry)
    (hfiles : ∀ p ∈ files, isPlanFile p.1 = true) (hnodup : (files.map Prod.fst).Nodup)
    (hnew : ∀ p ∈ files, p.1 ∉ u.plans)
    (hold : ∀ p ∈ files, u.oldPlans[p.1]? = some (entries p.1)) :
    (files.foldl (PlansUpdate.readFile env now) u).modified =
        (u.modified || files.any fun p => reportedChange env now p.2 (entries p.1)) ∧
      (∀ p ∈ files, (files.foldl (PlansUpdate.readFile env now) u).plans[p.1]? =
        some ((entries p.1).updatePlan env p.2 now).2) ∧
      ∀ name ∉ files.map Prod.fst,
        (files.foldl (PlansUpdate.readFile env now) u).plans[name]? = u.plans[name]? := by
  induction files generalizing u with
  | nil => simp
  | cons p files ih =>
      obtain ⟨hp, hfiles⟩ := List.forall_mem_cons.mp hfiles
      obtain ⟨hfresh, hnodup⟩ := List.nodup_cons.mp hnodup
      obtain ⟨hpnew, hnew⟩ := List.forall_mem_cons.mp hnew
      obtain ⟨hpold, hold⟩ := List.forall_mem_cons.mp hold
      have hother : ∀ q ∈ files, p.1 ≠ q.1 := fun q hq heq =>
        hfresh (List.mem_map.mpr ⟨q, hq, heq.symm⟩)
      have hentry : u.entry p.1 = entries p.1 := by
        simp [PlansUpdate.entry, Std.TreeMap.getElem?_eq_none hpnew, hpold]
      rw [List.foldl_cons, PlansUpdate.readFile_of_planFile hp, hentry, hpold]
      have hrest := ih hfiles hnodup (u :=
        { oldPlans := u.oldPlans.erase p.1
          plans := u.plans.insert p.1 ((entries p.1).updatePlan env p.2 now).2
          modified := u.modified || (some (entries p.1)).isNone ||
            ((entries p.1).updatePlan env p.2 now).1 })
        (fun q hq => by
          rw [Std.TreeMap.mem_insert, Std.LawfulEqCmp.compare_eq_iff_eq]
          exact not_or.mpr ⟨hother q hq, hnew q hq⟩)
        (fun q hq => by
          rw [Std.TreeMap.getElem?_erase, if_neg (by
            rw [Std.LawfulEqCmp.compare_eq_iff_eq]
            exact hother q hq)]
          exact hold q hq)
      obtain ⟨hmodified, hentries, hframe⟩ := hrest
      refine ⟨?_, ?_, ?_⟩
      · rw [hmodified, List.any_cons, (PlanEntry.updatePlan_spec env now p.2 (entries p.1)).1]
        simp [Bool.or_assoc]
      · refine List.forall_mem_cons.mpr ⟨?_, hentries⟩
        rw [hframe p.1 hfresh]
        simp
      · intro name hname
        obtain ⟨hne, hname⟩ : name ≠ p.1 ∧ name ∉ files.map Prod.fst := by
          simpa using hname
        rw [hframe name hname, Std.TreeMap.getElem?_insert, if_neg (by
          rw [Std.LawfulEqCmp.compare_eq_iff_eq]
          exact hne.symm)]

end Loop

namespace Library

variable {env : PlanEnv} {library : Library} {now : ℤ} {force : Bool} {dir : DirectoryView}

/-- **What makes `Update` return true**: a plan without a file, a file name that is returned twice
or has no plan yet, or a change of an entry that is reported. -/
def Reports (env : PlanEnv) (library : Library) (now : ℤ) (dir : DirectoryView) : Prop :=
  (∃ name ∈ library.plans, name ∉ dir.planNames) ∨ ¬ dir.planNames.Nodup ∨
    (∃ name ∈ dir.planNames, name ∉ library.plans) ∨
    ∃ p ∈ dir.planFiles, ∃ entry, library.plans[p.1]? = some entry ∧
      reportedChange env now p.2 entry = true

/-- A file makes a change of an entry that is not reported. -/
def Hides (env : PlanEnv) (library : Library) (now : ℤ) (dir : DirectoryView) : Prop :=
  ∃ p ∈ dir.planFiles, ∃ entry, library.plans[p.1]? = some entry ∧
    silentChange env now p.2 entry = true

lemma isEmpty_updateLoop (env : PlanEnv) (library : Library) (now : ℤ) (dir : DirectoryView) :
    (library.updateLoop env now dir).oldPlans.isEmpty = true ↔
      ∀ name ∈ library.plans, name ∈ dir.planNames := by
  have hold (name : String) : (library.updateLoop env now dir).oldPlans[name]? =
      if name ∈ dir.planNames then none else library.plans[name]? :=
    foldl_readFile_oldPlans (planFiles_isPlanFile dir) name
  rw [Std.TreeMap.isEmpty_iff_forall_not_mem]
  refine forall_congr' fun name => ?_
  rw [Std.TreeMap.mem_iff_isSome_getElem?, hold, Std.TreeMap.mem_iff_isSome_getElem?]
  by_cases hname : name ∈ dir.planNames
  · simp [hname]
  · simp [hname]

/-- The loop over a directory that has the files of all plans, once, and no others. -/
lemma updateLoop_known (env : PlanEnv) (now : ℤ) (hnodup : dir.planNames.Nodup)
    (hknown : ∀ name ∈ dir.planNames, name ∈ library.plans) :
    ((library.updateLoop env now dir).modified = true ↔
        ∃ p ∈ dir.planFiles, ∃ entry, library.plans[p.1]? = some entry ∧
          reportedChange env now p.2 entry = true) ∧
      ∀ p ∈ dir.planFiles, ∀ entry, library.plans[p.1]? = some entry →
        (library.updateLoop env now dir).plans[p.1]? = some (entry.updatePlan env p.2 now).2 := by
  have hold : ∀ p ∈ dir.planFiles,
      library.plans[p.1]? = some (library.plans[p.1]?.getD {}) := by
    intro p hp
    have hin := hknown p.1 (List.mem_map.mpr ⟨p, hp, rfl⟩)
    rw [Std.TreeMap.mem_iff_isSome_getElem?] at hin
    obtain ⟨entry, hentry⟩ := Option.isSome_iff_exists.mp hin
    rw [hentry]
    rfl
  obtain ⟨hmodified, hentries, -⟩ := foldl_readFile_known env now
    (fun name => library.plans[name]?.getD {}) (u := { oldPlans := library.plans })
    (planFiles_isPlanFile dir) hnodup (by simp) hold
  refine ⟨?_, fun p hp entry hentry => ?_⟩
  · rw [updateLoop, hmodified]
    simp only [Bool.false_or, List.any_eq_true]
    refine exists_congr fun p => and_congr_right fun hp => ?_
    constructor
    · intro hreported
      exact ⟨_, hold p hp, hreported⟩
    · rintro ⟨entry, hentry, hreported⟩
      rw [hentry]
      exact hreported
  · rw [updateLoop, hentries p hp, hentry]
    rfl

lemma update_eq_true_iff (hreads : library.readsPlans now force dir = true)
    (hcompletes : dir.fails = false) :
    (library.update env now force dir).1 = true ↔ library.Reports env now dir := by
  have hresult : (library.update env now force dir).1 = true ↔
      (library.updateLoop env now dir).modified = true ∨
        ¬ ∀ name ∈ library.plans, name ∈ dir.planNames := by
    rw [(update_of_readsPlans env hreads).2, hcompletes, ← isEmpty_updateLoop env library now dir]
    simp
  rw [hresult, Reports]
  by_cases hknown : dir.planNames.Nodup ∧ ∀ name ∈ dir.planNames, name ∈ library.plans
  · rw [(updateLoop_known env now hknown.1 hknown.2).1]
    have hnone : ¬ ∃ name ∈ dir.planNames, name ∉ library.plans := by
      rintro ⟨name, hname, hnot⟩
      exact hnot (hknown.2 name hname)
    simp only [hknown.1, hnone, not_true_eq_false, false_or]
    rw [or_comm]
    simp
  · have hmodified : (library.updateLoop env now dir).modified = true := by
      refine modified_of_new (planFiles_isPlanFile dir) fun ⟨hnodup, hall⟩ => hknown ⟨hnodup, ?_⟩
      rintro name hname
      obtain ⟨p, hp, rfl⟩ := List.mem_map.mp hname
      exact hall p hp
    simp only [hmodified, true_or, true_iff]
    by_cases hnodup : dir.planNames.Nodup
    · have hnew : ∃ name ∈ dir.planNames, name ∉ library.plans := by
        by_contra hnone
        push Not at hnone
        exact hknown ⟨hnodup, hnone⟩
      exact .inr (.inr (.inl hnew))
    · exact .inr (.inl hnodup)

/-- If nothing is reported, only the changes that are hidden remain. -/
lemma changedTo_iff_hides (hreads : library.readsPlans now force dir = true)
    (hreports : ¬ library.Reports env now dir) :
    library.ChangedTo (library.update env now force dir).2 now ↔ library.Hides env now dir := by
  obtain ⟨hall, hnodup, hknown, hnone⟩ : (∀ name ∈ library.plans, name ∈ dir.planNames) ∧
      dir.planNames.Nodup ∧ (∀ name ∈ dir.planNames, name ∈ library.plans) ∧
      ∀ p ∈ dir.planFiles, ∀ entry, library.plans[p.1]? = some entry →
        reportedChange env now p.2 entry = false := by
    simpa [Reports] using hreports
  have hupdated := (updateLoop_known env now hnodup hknown).2
  rw [← (update_of_readsPlans env hreads).1] at hupdated
  have hsame : ¬ ∃ name, ¬ (name ∈ library.plans ↔
      name ∈ (library.update env now force dir).2.plans) := by
    rintro ⟨name, hname⟩
    rw [(update_of_readsPlans env hreads).1, mem_updateLoop] at hname
    exact hname ⟨hall name, hknown name⟩
  rw [ChangedTo, Hides, or_iff_right hsame]
  constructor
  · rintro ⟨name, entry, entry', hentry, hentry', hdiffers⟩
    have hin : name ∈ library.plans := by
      rw [Std.TreeMap.mem_iff_isSome_getElem?, hentry]
      rfl
    obtain ⟨p, hp, rfl⟩ := List.mem_map.mp (hall name hin)
    obtain rfl : (entry.updatePlan env p.2 now).2 = entry' :=
      Option.some.inj ((hupdated p hp entry hentry).symm.trans hentry')
    have hchange := (PlanEntry.updatePlan_spec env now p.2 entry).2.mp hdiffers
    rw [hnone p hp entry hentry] at hchange
    exact ⟨p, hp, entry, hentry, hchange.resolve_left Bool.false_ne_true⟩
  · rintro ⟨p, hp, entry, hentry, hsilent⟩
    refine ⟨p.1, entry, _, hentry, hupdated p hp entry hentry, ?_⟩
    exact (PlanEntry.updatePlan_spec env now p.2 entry).2.mpr (.inr hsilent)

end Library

/-- **`Update` reports what it has changed**, if it comes to `UpdatePlans` at all, exactly if there
is something else to report or no change is hidden. -/
theorem update_reports_iff (env : PlanEnv) (library : Library) (now : ℤ) (force : Bool)
    (dir : DirectoryView) (hcompletes : dir.fails = false) :
    (library.ChangedTo (library.update env now force dir).2 now →
        (library.update env now force dir).1 = true) ↔
      (library.readsPlans now force dir = true →
        library.Reports env now dir ∨ ¬ library.Hides env now dir) := by
  cases hreads : library.readsPlans now force dir with
  | false =>
      have hsame : ¬ library.ChangedTo library now := by
        rintro (⟨name, hname⟩ | ⟨name, entry, entry', hentry, hentry', hdiffers⟩)
        · exact hname Iff.rfl
        · obtain rfl : entry = entry' := Option.some.inj (hentry.symm.trans hentry')
          simp [PlanEntry.Differs] at hdiffers
      rw [Library.update_of_not_readsPlans hreads]
      simp [hsame]
  | true =>
      rw [Library.update_eq_true_iff hreads hcompletes]
      simp only [true_imp_iff]
      by_cases hreports : library.Reports env now dir
      · simp [hreports]
      · rw [Library.changedTo_iff_hides hreads hreports]
        simp [hreports]

theorem update_reports_removed :
    trueLibrary.ChangedTo
      (trueLibrary.update plainEnv 0 true { unreadable with fails := false }).2 0 ∧
      (trueLibrary.update plainEnv 0 true { unreadable with fails := false }).1 = true := by
  have hremoved : ∃ name ∈ trueLibrary.plans,
      name ∉ DirectoryView.planNames { unreadable with fails := false } := ⟨"p", by decide +kernel⟩
  have hchanged : trueLibrary.ChangedTo
      (trueLibrary.update plainEnv 0 true { unreadable with fails := false }).2 0 :=
    .inl ⟨"p", by decide +kernel⟩
  exact
    ⟨hchanged, (update_reports_iff plainEnv trueLibrary 0 true { unreadable with fails := false }
    rfl).mpr (fun _ => .inl (.inl hremoved)) hchanged⟩

/-- The plan file was modified, and executes another program now. -/
def otherPlanFile : FileView where
  statx := some (true, 3)
  lines := .ok [{ word := "exec", values := ["/bin/false"] }]
  executable _ := .found

/-- **A modified plan is not reported.** -/
theorem update_hides_modified :
    trueLibrary.ChangedTo (trueLibrary.update plainEnv 0 true (oneFile otherPlanFile)).2 0 ∧
      (trueLibrary.update plainEnv 0 true (oneFile otherPlanFile)).1 = false := by
  refine
    ⟨.inr ⟨"p", { plan := some { args := ["/bin/true"], timeout := "10 minutes" }, mtime := 2 },
    { plan := some { args := ["/bin/false"], timeout := "10 minutes" }, mtime := 3 },
    ?_, ?_, ?_⟩, ?_⟩
  · decide +kernel
  · decide +kernel
  · exact .inr ⟨rfl, by decide⟩
  · decide +kernel

end Workshop.Jobs

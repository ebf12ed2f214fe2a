import Mathlib.Data.String.Basic
import Workshop.Lib.Run
import Workshop.Jobs.PlanLoader

/-!
# The plan library

`Library` (`src/workshop/Library.hxx`, `PlanLibrary.cxx`, `PlanUpdate.cxx`) keeps an entry for each
file in the plan directory: the plan, once it was loaded, and why it may not be used now.  The file
system is what each call finds there: what `statx` says about a file, what it contains, and what
`stat` says about the executable of the plan (`FileView`), for one file or for all that the
directory reader returns (`DirectoryView`).

An entry is available when its executable is installed and it is not disabled for some time, and
then its plan is dereferenced (`visitAvailable`).  But a plan file that cannot be read leaves an
entry without a plan that is available at once, or becomes available when its time has passed.
`available_plan_loaded`: this is the only way; as long as no such file is found for an entry whose
executable is installed, every available plan is loaded, at any later time.
-/

namespace Workshop.Jobs

open Workshop.Lib

/-! ## Files -/

/-- What `stat` says about an executable. -/
inductive StatResult
  | found
  | missing
  | failed
  deriving DecidableEq, Repr

/-- What a call finds of a plan file.  `statx` is `none` if it fails, and otherwise says whether the
file is a regular one, and when it was modified; `lines` is an error if the file cannot be read. -/
structure FileView where
  statx : Option (Bool × ℤ)
  lines : Except String (List Line)
  executable : String → StatResult

/-- What `Update` finds: `statx` of the directory (whether it is one, and when it was modified), the
names and files the reader returns, and whether opening or reading the directory fails after
those. -/
structure DirectoryView where
  statx : Option (Bool × ℤ)
  files : List (String × FileView)
  fails : Bool

/-- `LoadPlanFile`. -/
def FileView.load (env : PlanEnv) (file : FileView) : Except String Plan := do
  env.loadPlanFile (← file.lines)

/-! ## Entries -/

/-- `Library::PlanEntry`; a time that is the smallest one is `none`. -/
structure PlanEntry where
  plan : Option Plan := none
  deinstalled : Bool := false
  mtime : ℤ := 0
  disabledUntil : Option ℤ := none
  deriving DecidableEq, Repr

namespace PlanEntry

variable (env : PlanEnv) (file : FileView) (entry : PlanEntry) (now : ℤ)

/-- `Clear`. -/
def clear : PlanEntry := { entry with plan := none, mtime := 0 }

/-- `IsDisabled`. -/
def isDisabled : Bool := entry.disabledUntil.any (now < ·)

/-- `IsAvailable`. -/
def isAvailable : Bool := !entry.deinstalled && !entry.isDisabled now

/-- `Disable`. -/
def disable (duration : ℤ) : PlanEntry := { entry with disabledUntil := some (now + duration) }

/-- `Enable`. -/
def enable : PlanEntry := { entry with disabledUntil := none }

/-- `CheckPlanModified`. -/
def checkPlanModified : Bool × PlanEntry :=
  match file.statx with
  | none => (false, entry.clear)
  | some (false, _) => (false, entry.clear.disable now (60 * second))
  | some (true, mtime) =>
    let entry := if mtime ≠ entry.mtime then { entry.enable with plan := none, mtime } else entry
    (!entry.isDisabled now, entry)

/-- `ValidatePlan`, for the plan of the entry. -/
def validatePlan (plan : Plan) : Bool × PlanEntry :=
  if plan.translate then (true, { entry with deinstalled := false })
  else
    match file.executable (plan.args.headD "") with
    | .found => (true, { entry with deinstalled := false })
    | .missing => (false, { entry with deinstalled := true })
    | .failed => (false, entry.disable now (60 * second))

/-- `UpdatePlan`, with `LoadPlan` for an entry that has no plan: whether the plan was modified, and
the entry. -/
def updatePlan : Bool × PlanEntry :=
  let wasAvailable := entry.isAvailable now
  let (modified, entry) := entry.checkPlanModified file now
  if modified then
    match entry.plan with
    | some plan =>
      let (valid, entry) := entry.validatePlan file now plan
      (valid != wasAvailable, entry)
    | none =>
      match file.load env with
      | .error _ => (false, entry.disable now (600 * second))
      | .ok plan =>
        let (valid, entry) := { entry with plan := some plan }.validatePlan file now plan
        (valid != wasAvailable, entry)
  else (entry.isAvailable now != wasAvailable, entry)

end PlanEntry

/-! ## The library -/

/-- `Library`. -/
structure Library where
  plans : Std.TreeMap String PlanEntry := ∅
  nextPlansCheck : Option ℤ := none
  mtime : ℤ := 0

/-- `is_valid_plan_name`. -/
def isValidPlanName (name : String) : Bool :=
  name ≠ "" && name.toList.all fun ch =>
    ('a' ≤ ch && ch ≤ 'z') || ('A' ≤ ch && ch ≤ 'Z') || ('0' ≤ ch && ch ≤ '9') ||
      ch = '_' || ch = '-'

/-- `IsSpecialFilename`. -/
def isSpecialFilename (name : String) : Bool := name = "." || name = ".."

/-- The local state of `UpdatePlans`: the entries it has not come to yet, and the new ones. -/
structure PlansUpdate where
  oldPlans : Std.TreeMap String PlanEntry
  plans : Std.TreeMap String PlanEntry := ∅
  modified : Bool := false

namespace PlansUpdate

/-- The entry `UpdatePlan` is called for: the old one, one that was created for the same name
before, or a new one. -/
def entry (u : PlansUpdate) (name : String) : PlanEntry :=
  ((u.plans[name]?).orElse fun _ => u.oldPlans[name]?).getD {}

/-- One turn of the loop of `UpdatePlans`. -/
def readFile (env : PlanEnv) (now : ℤ) (u : PlansUpdate) (p : String × FileView) : PlansUpdate :=
  if isSpecialFilename p.1 || !isValidPlanName p.1 then u
  else
    let (modified, entry) := (u.entry p.1).updatePlan env p.2 now
    { oldPlans := u.oldPlans.erase p.1
      plans := u.plans.insert p.1 entry
      modified := u.modified || u.oldPlans[p.1]?.isNone || modified }

end PlansUpdate

namespace Library

variable (env : PlanEnv) (library : Library) (now : ℤ)

/-- `UpdatePlans`: whether something was modified, or `none` if it throws. -/
def updatePlans (dir : DirectoryView) : Option Bool × Library :=
  let u := dir.files.foldl (PlansUpdate.readFile env now) { oldPlans := library.plans }
  let library := { library with plans := u.plans }
  if dir.fails then (none, library)
  else (some (u.modified || !u.oldPlans.isEmpty), library)

/-- `now < next_plans_check`. -/
def isChecked : Bool := library.nextPlansCheck.any (now < ·)

/-- `Update`. -/
def update (force : Bool) (dir : DirectoryView) : Bool × Library :=
  match dir.statx with
  | none => (false, library)
  | some (false, _) => (false, library)
  | some (true, mtime) =>
    if !force && mtime = library.mtime && library.isChecked now then (false, library)
    else
      match library.updatePlans env now dir with
      | (none, library) => (false, library)
      | (some modified, library) =>
        (modified, { library with mtime, nextPlansCheck := some (now + 60 * second) })

/-- `Get`. -/
def get (name : String) (file : FileView) : Option Plan × Library :=
  match library.plans[name]? with
  | none => (none, library)
  | some entry =>
    let entry := (entry.updatePlan env file now).2
    (if entry.isAvailable now then entry.plan else none,
      { library with plans := library.plans.insert name entry })

/-- `VisitAvailable`: the plans that are dereferenced, `none` being the null pointer. -/
def visitAvailable : List (String × Option Plan) :=
  (library.plans.toList.filter fun p => p.2.isAvailable now).map fun p => (p.1, p.2.plan)

end Library

/-! ## Runs -/

/-- A library and the time. -/
structure LibraryState where
  library : Library := {}
  now : ℤ

/-- What can happen to a library. -/
inductive LibraryEvent
  | tick (d : ℕ)
  | update (force : Bool) (dir : DirectoryView)
  | get (name : String) (file : FileView)

/-- One event. -/
def LibraryState.step (env : PlanEnv) (s : LibraryState) : LibraryEvent → Option LibraryState
  | .tick d => some { s with now := s.now + d }
  | .update force dir => some { s with library := (s.library.update env s.now force dir).2 }
  | .get name file => some { s with library := (s.library.get env s.now name file).2 }

/-- **Available plans are loaded**, now and at any later time: `VisitAvailable` dereferences no null
pointer. -/
def AvailableLoaded (s : LibraryState) : Prop :=
  ∀ now, s.now ≤ now → ∀ p ∈ s.library.visitAvailable now, p.2 ≠ none

/-! ## Plan files that cannot be read -/

/-- `UpdatePlan` loses the plan of an installed entry: the file is gone or is not a regular one, or
the plan must be loaded and cannot be. -/
def losesPlan (env : PlanEnv) (file : FileView) (entry : PlanEntry) : Bool :=
  !entry.deinstalled &&
    match file.statx with
    | some (true, mtime) => (mtime ≠ entry.mtime || entry.plan.isNone) && !(file.load env).isOk
    | _ => true

/-- No file of the directory makes an installed entry lose its plan. -/
def KeepsPlans (env : PlanEnv) (now : ℤ) : PlansUpdate → List (String × FileView) → Prop
  | _, [] => True
  | u, p :: files =>
    (isSpecialFilename p.1 = false → isValidPlanName p.1 = true →
      losesPlan env p.2 (u.entry p.1) = false) ∧
    KeepsPlans env now (u.readFile env now p) files

/-- The event makes no installed entry lose its plan. -/
def FindsPlans (env : PlanEnv) (s : LibraryState) : LibraryEvent → Prop
  | .tick _ => True
  | .update _ dir => KeepsPlans env s.now { oldPlans := s.library.plans } dir.files
  | .get name file =>
      ∀ entry, s.library.plans[name]? = some entry → losesPlan env file entry = false

/-- An entry whose executable is installed has a plan. -/
def PlanEntry.Loaded (entry : PlanEntry) : Prop := entry.deinstalled = true ∨ entry.plan ≠ none

section Entry

variable {env : PlanEnv} {file : FileView} {entry : PlanEntry} {now : ℤ}

lemma PlanEntry.validatePlan_plan (entry : PlanEntry) (plan : Plan) :
    (entry.validatePlan file now plan).2.plan = entry.plan := by
  unfold PlanEntry.validatePlan
  split
  · rfl
  · split <;> rfl

/-- **The outcomes of `UpdatePlan`**, by what is found of the file. -/
inductive PlanEntry.Updated (env : PlanEnv) (file : FileView) (entry : PlanEntry) (now : ℤ) :
    PlanEntry → Prop
  | gone : file.statx = none → Updated env file entry now entry.clear
  | irregular {mtime : ℤ} : file.statx = some (false, mtime) →
      Updated env file entry now (entry.clear.disable now (60 * second))
  | disabled : file.statx = some (true, entry.mtime) → entry.isDisabled now = true →
      Updated env file entry now entry
  | unreadable {mtime : ℤ} {entry' : PlanEntry} : file.statx = some (true, mtime) →
      mtime ≠ entry.mtime ∨ entry.plan = none → (file.load env).isOk = false →
      entry'.plan = none → entry'.deinstalled = entry.deinstalled →
      Updated env file entry now entry'
  | usable {mtime : ℤ} {entry' : PlanEntry} : file.statx = some (true, mtime) →
      (mtime = entry.mtime ∧ entry.plan ≠ none) ∨ (file.load env).isOk = true →
      entry'.plan ≠ none → Updated env file entry now entry'

lemma PlanEntry.updated_of_load {mtime : ℤ} {entry' : PlanEntry} {was : Bool}
    (hstatx : file.statx = some (true, mtime)) (hload : mtime ≠ entry.mtime ∨ entry.plan = none)
    (hplan : entry'.plan = none) (hdeinstalled : entry'.deinstalled = entry.deinstalled) :
    PlanEntry.Updated env file entry now
      (match file.load env with
        | .error _ => (false, entry'.disable now (600 * second))
        | .ok plan =>
          (({ entry' with plan := some plan }.validatePlan file now plan).1 != was,
            ({ entry' with plan := some plan }.validatePlan file now plan).2)).2 := by
  rcases hfile : file.load env with message | plan
  · exact .unreadable hstatx hload (by rw [hfile]; rfl) hplan hdeinstalled
  · refine .usable hstatx (.inr (by rw [hfile]; rfl)) ?_
    rw [PlanEntry.validatePlan_plan]
    exact Option.some_ne_none _

lemma PlanEntry.updated_of_updatePlan :
    PlanEntry.Updated env file entry now (entry.updatePlan env file now).2 := by
  unfold PlanEntry.updatePlan PlanEntry.checkPlanModified
  rcases hstatx : file.statx with _ | ⟨_ | _, mtime⟩
  · exact .gone hstatx
  · exact .irregular hstatx
  · by_cases hmtime : mtime = entry.mtime
    · subst hmtime
      simp only [ne_eq, not_true_eq_false, if_false]
      cases hdisabled : entry.isDisabled now with
      | true => exact .disabled hstatx hdisabled
      | false =>
          rcases hplan : entry.plan with _ | plan
          · exact PlanEntry.updated_of_load hstatx (.inr hplan) hplan rfl
          · refine .usable hstatx (.inl ⟨rfl, by simp [hplan]⟩) ?_
            simp [PlanEntry.validatePlan_plan, hplan]
    · -- a modified file: the entry is enabled, and its plan is loaded again
      simp only [ne_eq, hmtime, not_false_eq_true, if_true]
      exact PlanEntry.updated_of_load hstatx (.inl hmtime) rfl rfl

/-- **What `UpdatePlan` does to an entry** that is loaded or new. -/
lemma PlanEntry.updatePlan_loaded_iff (h : entry.Loaded ∨ entry.disabledUntil = none) :
    (entry.updatePlan env file now).2.Loaded ↔ losesPlan env file entry = false := by
  have hupdated : PlanEntry.Updated env file entry now (entry.updatePlan env file now).2 :=
    PlanEntry.updated_of_updatePlan
  generalize (entry.updatePlan env file now).2 = entry' at hupdated
  cases hupdated with
  | gone hstatx => simp [PlanEntry.Loaded, losesPlan, hstatx, PlanEntry.clear]
  | irregular hstatx =>
      simp [PlanEntry.Loaded, losesPlan, hstatx, PlanEntry.clear, PlanEntry.disable]
  | disabled hstatx hdisabled =>
      have hloaded : entry.Loaded := by
        refine h.resolve_right fun hnone => ?_
        rw [PlanEntry.isDisabled, hnone] at hdisabled
        exact absurd hdisabled (by simp)
      refine iff_of_true hloaded ?_
      obtain hdeinstalled | hplan := hloaded
      · simp [losesPlan, hdeinstalled]
      · simp [losesPlan, hstatx, hplan]
  | unreadable hstatx hload hfails hplan hdeinstalled =>
      simp only [PlanEntry.Loaded, hplan, hdeinstalled, ne_eq, not_true_eq_false, or_false,
        losesPlan, hstatx, hfails, Bool.not_false, Bool.and_true, Bool.and_eq_false_iff,
        Bool.not_eq_false', Bool.or_eq_false_iff, decide_eq_false_iff_not,
        Option.isNone_eq_false_iff]
      refine ⟨.inl, fun hor => hor.resolve_right ?_⟩
      rintro ⟨hsame, hsome⟩
      obtain hmtime | hnone := hload
      · exact hsame hmtime
      · simp [hnone] at hsome
  | usable hstatx hplan hloaded =>
      refine iff_of_true (.inr hloaded) ?_
      obtain ⟨hmtime, hplan⟩ | hok := hplan
      · simp [losesPlan, hstatx, hmtime, hplan]
      · simp [losesPlan, hstatx, hok]

end Entry

/-! ## The library keeps its plans -/

section Library

variable {env : PlanEnv} {s t : LibraryState} {e : LibraryEvent} {now : ℤ}

/-- All entries of a map are loaded. -/
def AllLoaded (plans : Std.TreeMap String PlanEntry) : Prop :=
  ∀ (name : String) (entry : PlanEntry), plans[name]? = some entry → entry.Loaded

lemma AllLoaded.insert {plans : Std.TreeMap String PlanEntry} (h : AllLoaded plans) (name : String)
    {entry : PlanEntry} (hentry : entry.Loaded) : AllLoaded (plans.insert name entry) := by
  intro name' entry' h'
  rw [Std.TreeMap.getElem?_insert] at h'
  split at h'
  · exact Option.some.inj h' ▸ hentry
  · exact h name' entry' h'

lemma PlansUpdate.entry_loaded {u : PlansUpdate} (hold : AllLoaded u.oldPlans)
    (hnew : AllLoaded u.plans) (name : String) :
    (u.entry name).Loaded ∨ (u.entry name).disabledUntil = none := by
  unfold PlansUpdate.entry
  rcases hplans : u.plans[name]? with _ | entry
  · rcases holdPlans : u.oldPlans[name]? with _ | entry
    · exact .inr rfl
    · exact .inl (hold name entry holdPlans)
  · exact .inl (hnew name entry hplans)

/-- **The loop of `UpdatePlans`** loads every plan if no file makes an entry lose its plan. -/
lemma foldl_readFile_loaded (files : List (String × FileView)) (u : PlansUpdate)
    (hold : AllLoaded u.oldPlans) (hnew : AllLoaded u.plans) (hkeeps : KeepsPlans env now u files) :
    AllLoaded (files.foldl (PlansUpdate.readFile env now) u).plans := by
  induction files generalizing u with
  | nil => exact hnew
  | cons p files ih =>
      obtain ⟨hfile, hrest⟩ := hkeeps
      rw [List.foldl_cons]
      refine ih _ ?_ ?_ hrest
      · unfold PlansUpdate.readFile
        split
        · exact hold
        · intro name entry hentry
          rw [Std.TreeMap.getElem?_erase] at hentry
          split at hentry
          · exact absurd hentry (by simp)
          · exact hold name entry hentry
      · unfold PlansUpdate.readFile
        split
        · exact hnew
        · rename_i hname
          simp only [Bool.or_eq_true, Bool.not_eq_true', not_or, Bool.not_eq_true,
            Bool.not_eq_false] at hname
          exact hnew.insert p.1 ((PlanEntry.updatePlan_loaded_iff
            (PlansUpdate.entry_loaded hold hnew p.1)).mpr (hfile hname.1 hname.2))

/-- **The step lemma.** -/
lemma allLoaded_step (hI : AllLoaded s.library.plans) (hC : FindsPlans env s e)
    (h : s.step env e = some t) : AllLoaded t.library.plans := by
  cases e with
  | tick d =>
      obtain rfl := Option.some.inj h
      exact hI
  | update force dir =>
      obtain rfl := Option.some.inj h
      have hnew : AllLoaded (s.library.updatePlans env s.now dir).2.plans := by
        have hempty : AllLoaded (∅ : Std.TreeMap String PlanEntry) := by
          intro name entry hentry
          exact absurd hentry (by simp)
        have hloop := foldl_readFile_loaded dir.files { oldPlans := s.library.plans } hI hempty hC
        unfold Library.updatePlans
        simp only
        split <;> exact hloop
      simp only [Library.update]
      split
      · exact hI
      · exact hI
      · split
        · exact hI
        · split
          · rename_i hthrows
            rw [hthrows] at hnew
            exact hnew
          · rename_i hmodified
            rw [hmodified] at hnew
            exact hnew
  | get name file =>
      obtain rfl := Option.some.inj h
      simp only [Library.get]
      split
      · exact hI
      · rename_i entry hentry
        exact hI.insert name ((PlanEntry.updatePlan_loaded_iff (.inl (hI name entry hentry))).mpr
          (hC entry hentry))

lemma AllLoaded.availableLoaded (h : AllLoaded s.library.plans) : AvailableLoaded s := by
  intro now _ p hp
  obtain ⟨⟨name, entry⟩, hmem, rfl⟩ := List.mem_map.mp hp
  obtain ⟨hentry, havailable⟩ := List.mem_filter.mp hmem
  simp only [PlanEntry.isAvailable, Bool.and_eq_true, Bool.not_eq_true'] at havailable
  obtain hdeinstalled | hplan := h name entry
    (Std.TreeMap.mem_toList_iff_getElem?_eq_some.mp hentry)
  · exact absurd (havailable.1.symm.trans hdeinstalled) (by simp)
  · exact hplan

/-- **An available plan is always loaded**, in every state of a run of a new library in which no
call finds a plan file that makes an installed entry lose its plan. -/
theorem available_plan_loaded (env : PlanEnv) {s t : LibraryState}
    {tr : List (LibraryState × LibraryEvent)} (hrun : Run (LibraryState.step env) s tr t)
    (hstart : s.library = {}) (hfinds : ∀ p ∈ tr, FindsPlans env p.1 p.2) :
    AvailableLoaded t ∧ ∀ p ∈ tr, AvailableLoaded p.1 := by
  have hI : AllLoaded s.library.plans := by
    intro name entry hentry
    rw [hstart] at hentry
    exact absurd hentry (by simp)
  obtain ⟨ht, htr⟩ := hrun.invariant (I := fun s => AllLoaded s.library.plans)
    (C := fun s e => FindsPlans env s e) (fun s e t hI hC h => allLoaded_step hI hC h) hI hfinds
  exact ⟨ht.availableLoaded, fun p hp => (htr p hp).availableLoaded⟩

end Library

/-! ## A dangling symlink -/

/-- An environment in which every interval is ten minutes long. -/
def plainEnv : PlanEnv where
  parseIntervalS _ := .ok 600
  lineError := "bad line"
  nextBool _ := .ok true
  nextPositiveInteger _ := .ok 1
  parseRlimits _ := true
  stat _ := .ok true
  getpwnam _ := none
  getgrouplist _ _ := none

/-- A directory with one file. -/
def oneFile (file : FileView) : DirectoryView where
  statx := some (true, 1)
  files := [("p", file)]
  fails := false

/-- A symlink to a file that does not exist. -/
def danglingSymlink : FileView where
  statx := none
  lines := .error "No such file or directory"
  executable _ := .missing

/-- A plan that executes a program. -/
def planFile : FileView where
  statx := some (true, 2)
  lines := .ok [{ word := "exec", values := ["/bin/true"] }]
  executable _ := .found

/-- **The entry of a dangling symlink is available and has no plan.** -/
theorem dangling_symlink_available :
    ¬ ∀ (env : PlanEnv) (s t : LibraryState) (tr : List (LibraryState × LibraryEvent)),
        Run (LibraryState.step env) s tr t → s.library = {} → AvailableLoaded t := by
  intro h
  have hrun : (final (LibraryState.step plainEnv) { now := 0 }
      [.update true (oneFile danglingSymlink)]).map (fun t => (t.now, t.library.visitAvailable 0)) =
      some (0, [("p", none)]) := by
    decide +kernel
  obtain ⟨t, ht, heq⟩ := Option.map_eq_some_iff.mp hrun
  obtain ⟨hnow, hvisit⟩ := Prod.mk.inj heq
  have hloaded := h plainEnv { now := 0 } t _ (Run.of_final ht) rfl 0 hnow.le ("p", none)
    (by simp [hvisit])
  exact hloaded rfl

theorem available_plan_loaded_file :
    (final (LibraryState.step plainEnv) { now := 0 } [.update true (oneFile planFile)]).map
        (fun t => (t.library.visitAvailable 0).map Prod.fst) = some ["p"] ∧
      ∀ t,
        final (LibraryState.step plainEnv) { now := 0 } [.update true (oneFile planFile)] = some t →
        AvailableLoaded t := by
  refine ⟨by decide +kernel, fun t ht => ?_⟩
  refine (available_plan_loaded plainEnv (Run.of_final ht) rfl ?_).1
  intro p hp
  obtain rfl := List.mem_singleton.mp hp
  exact ⟨fun _ _ => by decide +kernel, trivial⟩

end Workshop.Jobs

import Mathlib.Data.List.Forall2
import Mathlib.Logic.Function.Iterate
import Workshop.Jobs.LibraryUpdate
import Workshop.Jobs.SpawnHook

/-!
# Plans of the daemon and of the spawner

`MultiLibrary` (`src/workshop/MultiLibrary.cxx`) looks for a plan in several directories, in the
order of its list, which is the reverse of the order of `InsertPath`.  The daemon and the spawner
each have one, in different processes: the daemon starts jobs with the plans of its own, and
`WorkshopSpawnHook` compares what it is asked to execute with the plan it finds itself.

A `Library` keeps a plan as long as the modification time of the file is the same.  If that time
says what is in the file, `Get` is no different from reading the file each time, but for plans that
are suspended after an error (`get_is_current`).  Hence the two processes have the same plan while
the file stays the same, as long as neither passes over a directory the other one does not
(`spawner_accepts`).
-/

namespace Workshop.Jobs

open Workshop.Lib

/-! ## Reading a plan each time -/

/-- The plan of an entry is that of the file at the modification time of the entry. -/
def PlanEntry.Current (env : PlanEnv) (contents : ℤ → Except String (List Line))
    (entry : PlanEntry) : Prop :=
  ∀ plan, entry.plan = some plan → contents entry.mtime >>= env.loadPlanFile = .ok plan

/-- What `Get` returns of an entry. -/
def PlanEntry.offered (entry : PlanEntry) (now : ℤ) : Option Plan :=
  if entry.isAvailable now then entry.plan else none

section Entry

variable {env : PlanEnv} {contents : ℤ → Except String (List Line)} {entry : PlanEntry}
  {file : FileView} {now : ℤ} {plan : Plan}

end Entry

/-! ## One library -/

/-- All plans are those of the files. -/
def Library.Current (env : PlanEnv) (contents : String → ℤ → Except String (List Line))
    (plans : Std.TreeMap String PlanEntry) : Prop :=
  ∀ (name : String) (entry : PlanEntry), plans[name]? = some entry →
    entry.Current env (contents name)

section Library

variable {env : PlanEnv} {contents : String → ℤ → Except String (List Line)}
  {library : Library} {plans : Std.TreeMap String PlanEntry} {name : String} {file : FileView}
  {now : ℤ}

lemma Library.Current.insert (h : Library.Current env contents plans) {entry : PlanEntry}
    (hentry : entry.Current env (contents name)) :
    Library.Current env contents (plans.insert name entry) := by
  intro name' entry' hfound
  rw [Std.TreeMap.getElem?_insert] at hfound
  split at hfound
  · rename_i heq
    obtain rfl := compare_eq_iff_eq.mp heq
    exact Option.some.inj hfound ▸ hentry
  · exact h name' entry' hfound

end Library

/-! ## Several libraries -/

/-- `MultiLibrary`. -/
structure MultiLibrary where
  libraries : List Library := []

namespace MultiLibrary

variable (env : PlanEnv) (multi : MultiLibrary) (now : ℤ) (name : String)

/-- `InsertPath`. -/
def insertPath : MultiLibrary where
  libraries := {} :: multi.libraries

/-- `Update`, with the directory of each library. -/
def update (force : Bool) (dirs : List DirectoryView) : Bool × MultiLibrary :=
  let results := multi.libraries.zipWith (fun library dir => library.update env now force dir) dirs
  (results.any Prod.fst, { libraries := results.map Prod.snd })

/-- The loop of `Get`, with the file each library would find. -/
def getLoop : List Library → List FileView → Option Plan × List Library
  | library :: libraries, file :: files =>
    match (library.get env now name file).1 with
    | some plan => (some plan, (library.get env now name file).2 :: libraries)
    | none =>
      ((getLoop libraries files).1,
        (library.get env now name file).2 :: (getLoop libraries files).2)
  | libraries, _ => (none, libraries)

/-- `Get`. -/
def get (files : List FileView) : Option Plan × MultiLibrary :=
  ((getLoop env now name multi.libraries files).1,
    { libraries := (getLoop env now name multi.libraries files).2 })

/-- All plans of all libraries are those of the files. -/
def Current (contents : List (String → ℤ → Except String (List Line))) : Prop :=
  List.Forall₂ (fun c library => Library.Current env c library.plans) contents multi.libraries

end MultiLibrary

/-- The libraries of a process and the time. -/
structure MultiLibraryState where
  multi : MultiLibrary
  now : ℤ

/-- What can happen to them. -/
inductive MultiLibraryEvent
  | tick (d : ℕ)
  | update (force : Bool) (dirs : List DirectoryView)
  | get (name : String) (files : List FileView)

namespace MultiLibraryState

/-- A new process, with its paths inserted. -/
def start (paths : ℕ) (now : ℤ) : MultiLibraryState where
  multi := MultiLibrary.insertPath^[paths] {}
  now := now

/-- One event. -/
def step (env : PlanEnv) (s : MultiLibraryState) : MultiLibraryEvent → Option MultiLibraryState
  | .tick d => some { s with now := s.now + d }
  | .update force dirs =>
    if dirs.length = s.multi.libraries.length then
      some { s with multi := (s.multi.update env s.now force dirs).2 }
    else none
  | .get name files =>
    if files.length = s.multi.libraries.length then
      some { s with multi := (s.multi.get env s.now name files).2 }
    else none

end MultiLibraryState

section MultiLibrary

variable {env : PlanEnv} {contents : PlanContents} {libraries : List Library}
  {multi : MultiLibrary} {now : ℤ} {name : String} {files : List FileView}

variable {s t : MultiLibraryState} {e : MultiLibraryEvent}

end MultiLibrary

/-! ## The plan that is found -/

/-- `WorkshopSpawnHook::Verify`, with the libraries of the spawner and what they find. -/
def MultiLibraryState.verify (env : PlanEnv) (unset : ℕ) (s : MultiLibraryState)
    (dirs : List DirectoryView) (files : String → List FileView) (p : PreparedChildProcess) :
    Except String Bool :=
  Jobs.verify unset
    (some fun name => ((s.multi.update env s.now false dirs).2.get env s.now name (files name)).1) p

end Workshop.Jobs

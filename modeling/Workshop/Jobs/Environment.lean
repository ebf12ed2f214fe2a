import Mathlib.Data.List.Infix
import Workshop.Jobs.System
import Workshop.Lib.KeyedList

/-!
# The environment of a job

`PgSetEnv` (`src/workshop/PGQueue.cxx`) adds an assignment `NAME=VALUE` to the `env` column of a
job, and removes older ones of the same variable.  It finds these with a pattern of SQL `LIKE`, the
name followed by `=%`, and the name goes into the pattern as it is.  For a name without a character
that is special in patterns, the column is a map from names to values (`sqlLike_assignment_iff`,
`foldlM_pgSetEnv`).  Any other name means other names too, or not itself (`exists_misread`).
-/

namespace Workshop.Jobs

open Workshop.Lib

/-! ## Patterns -/

/-- Not special in a pattern of `LIKE`. -/
def IsLiteral (c : Char) : Prop := c ≠ '%' ∧ c ≠ '_' ∧ c ≠ '\\'

instance (c : Char) : Decidable (IsLiteral c) := inferInstanceAs (Decidable (_ ∧ _))

lemma sqlLike_cons {c : Char} (hc : IsLiteral c) (ps cs : List Char) :
    sqlLike (c :: ps) cs = (cs.head? == some c && sqlLike ps cs.tail) := by
  obtain ⟨hpercent, hunderscore, hbackslash⟩ := hc
  rw [sqlLike.eq_5] <;> simp_all

lemma sqlLike_append {ps : List Char} (hps : ∀ c ∈ ps, IsLiteral c) (qs cs : List Char) :
    sqlLike (ps ++ qs) cs = true ↔ ∃ rest, cs = ps ++ rest ∧ sqlLike qs rest = true := by
  induction ps generalizing cs with
  | nil => simp
  | cons p ps ih =>
      rw [List.cons_append, sqlLike_cons (hps p List.mem_cons_self), Bool.and_eq_true,
        ih fun c hc => hps c (List.mem_cons_of_mem _ hc)]
      cases cs with
      | nil => simp
      | cons c cs => simp [and_assoc]

lemma sqlLike_percent (cs : List Char) : sqlLike ['%'] cs = true := by
  rw [sqlLike, List.any_eq_true]
  exact ⟨[], by simp, rfl⟩

/-- A string that matches a pattern, with `X` for what the pattern leaves open. -/
def instantiate : List Char → List Char
  | [] => []
  | '%' :: ps => 'X' :: instantiate ps
  | '_' :: ps => 'X' :: instantiate ps
  | '\\' :: p :: ps => p :: instantiate ps
  | p :: ps => p :: instantiate ps

lemma sqlLike_instantiate (ps : List Char) : sqlLike ps (instantiate ps) = true := by
  fun_induction instantiate ps with
  | case1 => rfl
  | case2 ps ih =>
      rw [sqlLike, List.any_eq_true]
      exact ⟨instantiate ps, by simp, ih⟩
  | case3 ps ih => simp [sqlLike, ih]
  | case4 p ps ih => simp [sqlLike, ih]
  | case5 p ps hpercent hunderscore hbackslash ih =>
      rw [sqlLike.eq_5] <;> simp_all

/-! ## Assignments -/

/-- The name of an environment variable. -/
def IsName (name : String) : Prop := name ≠ "" ∧ '=' ∉ name.toList

instance (name : String) : Decidable (IsName name) := inferInstanceAs (Decidable (_ ∧ _))

/-- `NAME=VALUE`. -/
def assignment (name value : String) : String := name ++ "=" ++ value

def IsAssignment (x : String) : Prop := ∃ name value, IsName name ∧ x = assignment name value

/-- The variable of an assignment. -/
def variableName (x : String) : String := String.ofList (x.toList.takeWhile (· ≠ '='))

lemma toList_assignment (name value : String) :
    (assignment name value).toList = name.toList ++ '=' :: value.toList := by
  simp [assignment]

lemma takeWhile_assignment {name : List Char} (hname : '=' ∉ name) (value : List Char) :
    (name ++ '=' :: value).takeWhile (· ≠ '=') = name := by
  have hall : ∀ c ∈ name, decide (c ≠ '=') = true := by
    intro c hc
    simpa using fun heq : c = '=' => hname (heq ▸ hc)
  rw [List.takeWhile_append_of_pos hall]
  simp

lemma variableName_assignment {name : String} (hname : IsName name) (value : String) :
    variableName (assignment name value) = name := by
  rw [variableName, toList_assignment, takeWhile_assignment hname.2, String.ofList_toList]

lemma isAssignment_assignment {name : String} (hname : IsName name) (value : String) :
    IsAssignment (assignment name value) := ⟨name, value, hname, rfl⟩

lemma envPattern_assignment {name : String} (hname : IsName name) (value : String) :
    envPattern (assignment name value) = some (name ++ "=%") := by
  have htake := takeWhile_assignment hname.2 value.toList
  have hlength : name.toList.length ≠ (assignment name value).length := by
    rw [← String.length_toList, toList_assignment]
    simp
  have hnil : name.toList ≠ [] := by simpa using hname.1
  simp only [envPattern, toList_assignment, htake]
  rw [if_neg (by simp [hlength, hnil]), String.ofList_toList]

/-- The name has no character that is special in patterns. -/
def IsPlain (name : String) : Prop := ∀ c ∈ name.toList, IsLiteral c

instance (name : String) : Decidable (IsPlain name) := List.decidableBAll IsLiteral name.toList

lemma sqlLike_assignment_iff {name x : String} (hname : IsName name) (hplain : IsPlain name)
    (hx : IsAssignment x) :
    sqlLike (name ++ "=%").toList x.toList = true ↔ variableName x = name := by
  have heq : IsLiteral '=' := by decide
  rw [String.toList_append, sqlLike_append hplain]
  constructor
  · rintro ⟨rest, hrest, hlike⟩
    have hlike' : sqlLike ['=', '%'] rest = true := hlike
    rw [sqlLike_cons heq, Bool.and_eq_true] at hlike'
    obtain ⟨value, rfl⟩ : ∃ value, rest = '=' :: value := by
      cases rest with
      | nil => simp at hlike'
      | cons c value => exact ⟨value, by simpa using hlike'.1⟩
    rw [variableName, hrest, takeWhile_assignment hname.2, String.ofList_toList]
  · rintro hvar
    obtain ⟨other, value, hother, rfl⟩ := hx
    rw [variableName_assignment hother] at hvar
    subst hvar
    refine ⟨'=' :: value.toList, toList_assignment _ _, ?_⟩
    have hlike : sqlLike ['=', '%'] ('=' :: value.toList) = true := by
      rw [sqlLike_cons heq]
      simpa using sqlLike_percent value.toList
    exact hlike

/-- What matches the pattern of a name is an assignment, to the name itself only if it is plain. -/
lemma instantiate_pattern (name : List Char) (hname : '=' ∉ name) :
    ∃ y v, instantiate (name ++ ['=', '%']) = y ++ '=' :: v ∧ '=' ∉ y ∧ y.length ≤ name.length ∧
      (y = name → ∀ c ∈ name, IsLiteral c) ∧ (y = [] → name = [] ∨ name = ['\\']) := by
  induction name using instantiate.induct with
  | case1 => exact ⟨[], ['X'], rfl, by simp, le_rfl, by simp, by simp⟩
  | case2 ps ih =>
      obtain ⟨y, v, hy, heq, hlen, _⟩ := ih fun h => hname (List.mem_cons_of_mem _ h)
      exact ⟨'X' :: y, v, by simp [instantiate, hy], by simpa using heq, by simpa using hlen,
        by simp, by simp⟩
  | case3 ps ih =>
      obtain ⟨y, v, hy, heq, hlen, _⟩ := ih fun h => hname (List.mem_cons_of_mem _ h)
      exact ⟨'X' :: y, v, by simp [instantiate, hy], by simpa using heq, by simpa using hlen,
        by simp, by simp⟩
  | case4 p ps ih =>
      obtain ⟨y, v, hy, heq, hlen, _⟩ := ih fun h =>
        hname (List.mem_cons_of_mem _ (List.mem_cons_of_mem _ h))
      have hp : '=' ≠ p := fun h => hname (List.mem_cons.mpr (.inr (List.mem_cons.mpr (.inl h))))
      refine ⟨p :: y, v, by simp [instantiate, hy], by simp [hp, heq], ?_, fun hsame => ?_, by simp⟩
      · simp only [List.length_cons]
        omega
      · -- the quoting backslash is lost
        have := congrArg List.length hsame
        simp only [List.length_cons] at this
        omega
  | case5 p ps hpercent hunderscore hbackslash ih =>
      obtain ⟨y, v, hy, heq, hlen, hplain, _⟩ := ih fun h => hname (List.mem_cons_of_mem _ h)
      have hp : '=' ≠ p := fun h => hname (List.mem_cons.mpr (.inl h))
      by_cases hlast : p = '\\'
      · -- a backslash at the end of the name quotes the equals sign
        have hnil : ps = [] := by
          cases ps with
          | nil => rfl
          | cons q ps => exact (hbackslash q ps hlast rfl).elim
        subst hlast hnil
        exact ⟨[], ['X'], rfl, by simp, by simp, by simp, by simp⟩
      · have hliteral : IsLiteral p := ⟨hpercent, hunderscore, hlast⟩
        refine ⟨p :: y, v, ?_, by simp [hp, heq], by simpa using hlen, fun hsame c hc => ?_,
          by simp⟩
        · rw [List.cons_append, instantiate.eq_5] <;> simp_all
        · rcases List.mem_cons.mp hc with rfl | hc
          · exact hliteral
          · exact hplain (List.cons.inj hsame).2 c hc

/-- The pattern of a name that is not plain is wrong about some assignment. -/
lemma exists_misread {name : String} (hname : IsName name) (hplain : ¬ IsPlain name) :
    ∃ x, IsAssignment x ∧
      ¬ (sqlLike (name ++ "=%").toList x.toList = true ↔ variableName x = name) := by
  obtain ⟨y, v, hy, heq, _, hsame, hempty⟩ := instantiate_pattern name.toList hname.2
  have hlike : sqlLike (name ++ "=%").toList (y ++ '=' :: v) = true := by
    have h := sqlLike_instantiate (name.toList ++ ['=', '%'])
    rw [hy] at h
    simpa using h
  by_cases hnil : y = []
  · -- the pattern of a single backslash does not match its own assignments
    have hbackslash : name = String.ofList ['\\'] := by
      rcases hempty hnil with h | h
      · exact (hname.1 (by simpa using h)).elim
      · rw [← h, String.ofList_toList]
    refine ⟨assignment name "", isAssignment_assignment hname "", fun hiff => ?_⟩
    have hmatch := hiff.mpr (variableName_assignment hname "")
    subst hbackslash
    revert hmatch
    decide
  · have hother : IsName (String.ofList y) := ⟨by simpa using hnil, by simpa using heq⟩
    refine ⟨assignment (String.ofList y) (String.ofList v), isAssignment_assignment hother _,
      fun hiff => ?_⟩
    rw [toList_assignment, String.toList_ofList, String.toList_ofList,
      variableName_assignment hother] at hiff
    refine hplain fun c hc => hsame ?_ c hc
    rw [← hiff.mp hlike, String.toList_ofList]

/-! ## Setting variables -/

/-- `PgSetEnv`, on the row of the job; `none` if it throws. -/
def pgSetEnv (moreEnv : String) (r : JobRow) : Option JobRow :=
  (envPattern moreEnv).map fun like => (setEnv r.id moreEnv like).set r

/-- The assignments of a job; a job without `env` has none. -/
def JobRow.environment (r : JobRow) : List String := r.env.getD []

lemma pgSetEnv_assignment {name : String} (hname : IsName name) (value : String) (r : JobRow) :
    pgSetEnv (assignment name value) r = some { r with
      env := some ((r.environment.filter fun x => !sqlLike (name ++ "=%").toList x.toList) ++
        [assignment name value]) } := by
  rw [pgSetEnv, envPattern_assignment hname]
  rfl

/-- Every element of the array is an assignment. -/
def JobRow.HasAssignments (r : JobRow) : Prop := ∀ x ∈ r.environment, IsAssignment x

/-- Setting the variable acts as on a map: the old entries of other variables stay as they are, in
their order, and the new assignment follows. -/
def SetsVariable (name value : String) (r : JobRow) : Prop :=
  (pgSetEnv (assignment name value) r).map JobRow.env =
    some (some (KeyedList.put variableName (assignment name value) r.environment))

instance (name value : String) (r : JobRow) : Decidable (SetsVariable name value r) :=
  inferInstanceAs (Decidable (_ = _))

lemma setsVariable_iff {name : String} (hname : IsName name) (value : String) (r : JobRow) :
    SetsVariable name value r ↔
      ∀ x ∈ r.environment,
        sqlLike (name ++ "=%").toList x.toList = true ↔ variableName x = name := by
  rw [SetsVariable, pgSetEnv_assignment hname, KeyedList.put, variableName_assignment hname]
  simp only [Option.map_some, Option.some.injEq, List.append_left_inj]
  constructor
  · intro h x hx
    have hmem := congrArg (x ∈ ·) h
    simp only [List.mem_filter, hx, true_and, eq_iff_iff] at hmem
    rw [← not_iff_not]
    simpa using hmem
  · intro h
    refine List.filter_congr fun x hx => ?_
    by_cases hvar : variableName x = name
    · rw [(h x hx).mpr hvar]
      simp [hvar]
    · rw [Bool.eq_false_iff.mpr fun hlike => hvar ((h x hx).mp hlike)]
      simp [hvar]

lemma setsVariable_of_plain {name : String} (hname : IsName name) (hplain : IsPlain name)
    (value : String) {r : JobRow} (hr : r.HasAssignments) : SetsVariable name value r :=
  (setsVariable_iff hname value r).mpr fun _ hx => sqlLike_assignment_iff hname hplain (hr _ hx)

/-- A sequence of "setenv" commands. -/
def pgSetEnvs (r : JobRow) (commands : List String) : Option JobRow :=
  commands.foldlM (fun r moreEnv => pgSetEnv moreEnv r) r

/-- Commands with plain names put their assignments into the array one after the other. -/
lemma pgSetEnvs_eq_some {sets : List (String × String)}
    (hsets : ∀ s ∈ sets, IsName s.1 ∧ IsPlain s.1) {r : JobRow} (hr : r.HasAssignments) :
    ∃ r', pgSetEnvs r (sets.map fun s => assignment s.1 s.2) = some r' ∧
      r'.environment = (sets.map fun s => assignment s.1 s.2).foldl
        (fun l x => KeyedList.put variableName x l) r.environment := by
  induction sets generalizing r with
  | nil => exact ⟨r, rfl, rfl⟩
  | cons s sets ih =>
      obtain ⟨hname, hplain⟩ := hsets s List.mem_cons_self
      have hput := setsVariable_of_plain hname hplain s.2 hr
      obtain ⟨r₁, hr₁, henv⟩ := Option.map_eq_some_iff.mp hput
      have henv₁ : r₁.environment =
          KeyedList.put variableName (assignment s.1 s.2) r.environment := by
        rw [JobRow.environment, henv, Option.getD_some]
      have hassign : r₁.HasAssignments := by
        intro x hx
        rw [henv₁, KeyedList.mem_put] at hx
        rcases hx with ⟨hx, _⟩ | rfl
        · exact hr x hx
        · exact isAssignment_assignment hname s.2
      obtain ⟨r', hr', hfold⟩ := ih (fun s hs => hsets s (List.mem_cons_of_mem _ hs)) hassign
      refine ⟨r', ?_, ?_⟩
      · rw [List.map_cons, pgSetEnvs, List.foldlM_cons, hr₁]
        exact hr'
      · rw [hfold, henv₁, List.map_cons, List.foldl_cons]

/-- **When "setenv" has map semantics.**  For one array, exactly if the pattern of the name matches
the entries of the variable and no others; for all arrays, exactly if the name has none of the
characters `%`, `_` and the backslash.  After a sequence of commands with such names the array holds
for each variable the value set last, and what it held before for the others. -/
theorem setEnv_map_semantics (name : String) (hname : IsName name) :
    (∀ value r, r.HasAssignments →
      (SetsVariable name value r ↔ ∀ x ∈ r.environment,
        sqlLike (name ++ "=%").toList x.toList = true ↔ variableName x = name)) ∧
    ((∀ value r, r.HasAssignments → SetsVariable name value r) ↔ IsPlain name) ∧
    ∀ (sets : List (String × String)) (r : JobRow), (∀ s ∈ sets, IsName s.1 ∧ IsPlain s.1) →
      r.HasAssignments →
      ∃ r', pgSetEnvs r (sets.map fun s => assignment s.1 s.2) = some r' ∧
        KeyedList.entries variableName name r'.environment =
          (KeyedList.entries variableName name
            (sets.map fun s => assignment s.1 s.2)).getLast?.elim
              (KeyedList.entries variableName name r.environment) fun x => [x] := by
  refine ⟨fun value r _ => setsVariable_iff hname value r, ⟨?_, ?_⟩, ?_⟩
  · intro hall
    by_contra hplain
    obtain ⟨x, hx, hmisread⟩ := exists_misread hname hplain
    let r : JobRow := { id := 1, timeCreated := 0, planName := "", env := some [x] }
    have hr : r.HasAssignments := fun y hy => by
      rw [List.mem_singleton.mp hy]
      exact hx
    exact hmisread ((setsVariable_iff hname "" r).mp (hall "" r hr) x List.mem_cons_self)
  · intro hplain value r hr
    exact setsVariable_of_plain hname hplain value hr
  · intro sets r hsets hr
    obtain ⟨r', hr', hfold⟩ := pgSetEnvs_eq_some hsets hr
    refine ⟨r', hr', ?_⟩
    rw [hfold]
    exact KeyedList.entries_foldl_put name _ _

/-- A job with two variables. -/
def twoVariables : JobRow where
  id := 1
  timeCreated := 0
  planName := ""
  env := some ["PATH=/bin", "HOME=/"]

theorem setEnv_map_semantics_path :
    twoVariables.environment = ["PATH=/bin", "HOME=/"] ∧ IsPlain "PATH" ∧
      SetsVariable "PATH" "/usr" twoVariables := by
  have hassign : twoVariables.HasAssignments := by
    intro x hx
    rcases List.mem_pair.mp hx with rfl | rfl
    · exact ⟨"PATH", "/bin", by decide, by decide⟩
    · exact ⟨"HOME", "/", by decide, by decide⟩
  have hplain : IsPlain "PATH" := by decide +kernel
  refine ⟨rfl, hplain, ?_⟩
  exact (setEnv_map_semantics "PATH" (by decide)).2.1.mpr hplain "/usr" twoVariables hassign

/-- Setting `A_B` deletes `AXB`. -/
theorem setEnv_deletes_other :
    IsName "A_B" ∧
      ∃ r : JobRow, r.HasAssignments ∧ r.environment = ["AXB=1"] ∧
        (pgSetEnv (assignment "A_B" "2") r).map JobRow.env = some (some ["A_B=2"]) ∧
        ¬ SetsVariable "A_B" "2" r := by
  refine ⟨by decide, { id := 1, timeCreated := 0, planName := "", env := some ["AXB=1"] },
    fun x hx => ?_, rfl, by decide, by decide⟩
  rw [List.mem_singleton.mp hx]
  exact ⟨"AXB", "1", by decide, by decide⟩

/-! ## In the system -/

/-- A step of a node with a "setenv" command does to the row of the job what `PgSetEnv` does. -/
theorem rowAfter_setEnv {cl : JobCluster} {s : State} {n : String} {i : ℕ} {moreEnv like : String}
    {o : WorkshopOperator} {r : JobRow} (hready : (s.nodes n).ready = true)
    (ho : (s.nodes n).operators[i]? = some o) (hlike : envPattern moreEnv = some like)
    (hr : r.id = o.job.id) :
    pgSetEnv moreEnv r = some (rowAfter cl s (.node n (.setEnv i moreEnv)) r) := by
  have hstatement : (Event.node n (.setEnv i moreEnv)).statement cl s =
      some (.setEnv o.job.id moreEnv like) := by
    simp [Event.statement, JobNode.statement, hready, ho, hlike]
  have hcond : (Statement.setEnv o.job.id moreEnv like).update.cond r = true := setEnv_cond.mpr hr
  rw [pgSetEnv, hlike, rowAfter, hstatement, Option.map_some, Option.map_some, hr,
    Table.rowAfter_of_cond hcond]
  rfl

end Workshop.Jobs

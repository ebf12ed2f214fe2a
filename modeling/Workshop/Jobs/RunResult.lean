import Workshop.Jobs.Partition

/-!
# The rows of a result

`MakeJob`, `RunResult` and `Run2` of `WorkshopQueue` (`src/workshop/Queue.cxx`), as functions from
the rows of a result to what is done with them.  The queue and its handler are a `RunHandler`: a
state, and what each call makes of it.  `RunOutcome` keeps the rows that came to the handler and the
decisions that were made.

`MakeJob` throws where the texts of a row do not decode, and nothing in the loop catches it: the
exception leaves `Run2`, and the rest of the result is lost.  So a row that cannot be decoded does
not matter to the others exactly if none of them comes after it (`sameDecisions_iff`).
-/

namespace Workshop.Jobs

open Workshop.Lib

universe u v

/-! ## Making a job -/

/-- How the texts of a row are read: `Pg::DecodeArray` and `Pg::DecodeHex`. -/
structure RowCodec where
  decodeArray : String → Except String (List String)
  decodeHex : String → Except String (List UInt8)

/-- The columns of a row of `select_new_jobs`, as texts; `none` is `NULL`. -/
structure ResultRow where
  id : Option String
  planName : Option String
  stickyId : Option String := none
  args : Option String := none
  env : Option String := none
  stdin : Option String := none
  deriving DecidableEq, Repr

/-- `WorkshopJob`, as `MakeJob` fills it. -/
structure DecodedJob where
  id : String
  planName : String
  stickyId : String
  args : List String
  env : List String
  stdin : Option (List UInt8)
  deriving DecidableEq, Repr

namespace ResultRow

variable (codec : RowCodec) (row : ResultRow)

/-- `GetValue`, for which `NULL` is the empty text. -/
def getValue (value : Option String) : String := value.getD ""

/-- `MakeJob`. -/
def makeJob : Except String DecodedJob := do
  let id := getValue row.id
  let planName := getValue row.planName
  let args ← codec.decodeArray (getValue row.args)
  let env ← codec.decodeArray (getValue row.env)
  let stdin ← row.stdin.mapM codec.decodeHex
  if id = "" then throw "Job has no id"
  if planName = "" then throw ("Job " ++ id.quote ++ " has no plan")
  return { id, planName, stickyId := getValue row.stickyId, args, env, stdin }

/-- `MakeJob` does not throw. -/
def decodes : Bool := (row.makeJob codec).toBool

end ResultRow

/-- The job of `makeJob`, as `MakeJob` fills it. -/
def WorkshopJob.decoded (job : WorkshopJob) (stickyId : String) : DecodedJob where
  id := toString job.id
  planName := job.planName
  stickyId := stickyId
  args := job.args
  env := job.env
  stdin := job.stdin

/-- The texts of a row are those of a row of the table. -/
structure ResultRow.Represents (codec : RowCodec) (row : ResultRow) (r : JobRow) : Prop where
  id : row.id = some (toString r.id)
  planName : row.planName = some r.planName
  args : codec.decodeArray (getValue row.args) = .ok (r.args.getD [])
  env : codec.decodeArray (getValue row.env) = .ok (r.env.getD [])
  stdin : row.stdin.mapM codec.decodeHex = .ok r.stdin

/-- `makeJob` of a row of the table is `MakeJob` of its texts. -/
lemma ResultRow.Represents.makeJob {codec : RowCodec} {row : ResultRow} {r : JobRow}
    (h : row.Represents codec r) :
    (row.makeJob codec).toOption =
      (Jobs.makeJob r).toOption.map fun job => job.decoded (getValue row.stickyId) := by
  have hid : getValue row.id = toString r.id := by rw [h.id, getValue, Option.getD_some]
  have hplan : getValue row.planName = r.planName := by rw [h.planName, getValue, Option.getD_some]
  have hne : toString r.id ≠ "" := by
    rw [Nat.toString_eq_repr]
    exact Nat.repr_ne_empty
  unfold ResultRow.makeJob Jobs.makeJob
  simp only [hid, hplan, h.args, h.env, h.stdin, if_neg hne]
  by_cases hempty : r.planName = ""
  · simp [hempty]
    rfl
  · simp [hempty]
    rfl

/-! ## The loop -/

/-- What `RunResult` works with: the switches of the queue, the calls of its handler, and
`get_and_claim_job` for the timeout of the plan, which throws if the statement fails. -/
structure RunHandler (σ : Type u) (J : Type v) where
  isEnabled : σ → Bool
  interrupt : σ → Bool
  getWorkshopPlan : σ → J → σ × Option Plan
  checkWorkshopJob : σ → J → Plan → σ × Bool
  claimJob : σ → J → String → σ × Except String Bool
  startWorkshopJob : σ → J → Plan → σ

/-- What is decided about a job: it was checked, or claimed, with this result, or it was started. -/
inductive Decision (J : Type*)
  | check (job : J) (ok : Bool)
  | claim (job : J) (ok : Bool)
  | start (job : J)
  deriving DecidableEq, Repr

/-- What comes of a result: the state, the rows the handler was asked about, the decisions, the
exception that ended the loop, and whether rows were left over because the queue was disabled or
interrupted. -/
structure RunOutcome (σ : Type u) (R J : Type*) where
  state : σ
  offered : List R := []
  decisions : List (Decision J) := []
  error : Option String := none
  stopped : Bool := false

/-- Go on with the state, unless there was an exception. -/
def RunOutcome.andThen {σ : Type u} {R J : Type v} (o : RunOutcome σ R J)
    (next : σ → RunOutcome σ R J) : RunOutcome σ R J :=
  match o.error with
  | some _ => o
  | none =>
    let o' := next o.state
    { o' with
      offered := o.offered ++ o'.offered
      decisions := o.decisions ++ o'.decisions
      stopped := o.stopped || o'.stopped }

section AndThen

variable {σ : Type u} {R J : Type v} {o : RunOutcome σ R J} {next : σ → RunOutcome σ R J}

lemma RunOutcome.andThen_of_error {e : String} (h : o.error = some e) : o.andThen next = o := by
  rw [andThen, h]

lemma RunOutcome.andThen_of_none (h : o.error = none) :
    o.andThen next =
      { next o.state with
        offered := o.offered ++ (next o.state).offered
        decisions := o.decisions ++ (next o.state).decisions
        stopped := o.stopped || (next o.state).stopped } := by
  rw [andThen, h]

lemma RunOutcome.andThen_decisions (h : o.error = none) :
    (o.andThen next).decisions = o.decisions ++ (next o.state).decisions := by
  rw [andThen_of_none h]

lemma RunOutcome.of_andThen_error (herror : (o.andThen next).error = none) :
    o.error = none ∧ (next o.state).error = none ∧
      (o.andThen next).state = (next o.state).state := by
  cases herror' : o.error with
  | some e =>
      rw [andThen_of_error herror', herror'] at herror
      exact absurd herror (by simp)
  | none =>
      rw [andThen_of_none herror'] at herror ⊢
      exact ⟨rfl, herror, rfl⟩

lemma RunOutcome.of_andThen (herror : (o.andThen next).error = none)
    (hstopped : (o.andThen next).stopped = false) :
    o.error = none ∧ o.stopped = false ∧ (next o.state).error = none ∧
      (next o.state).stopped = false ∧ (o.andThen next).state = (next o.state).state ∧
      (o.andThen next).offered = o.offered ++ (next o.state).offered := by
  obtain ⟨herror', hnext, -⟩ := of_andThen_error herror
  rw [andThen_of_none herror'] at hstopped ⊢
  obtain ⟨hstopped, hstopped'⟩ := Bool.or_eq_false_iff.mp hstopped
  exact ⟨herror', hstopped, hnext, hstopped', rfl, rfl⟩

end AndThen

namespace RunHandler

variable {σ : Type u} {R J : Type v} (h : RunHandler σ J)

/-- The body of the loop, after `MakeJob`. -/
def runJob (row : R) (s : σ) (job : J) : RunOutcome σ R J :=
  match h.getWorkshopPlan s job with
  | (s, none) => { state := s, offered := [row] }
  | (s, some plan) =>
    match h.checkWorkshopJob s job plan with
    | (s, false) => { state := s, offered := [row], decisions := [.check job false] }
    | (s, true) =>
      match h.claimJob s job plan.timeout with
      | (s, .error e) =>
        { state := s, offered := [row], decisions := [.check job true], error := some e }
      | (s, .ok false) =>
        { state := s, offered := [row], decisions := [.check job true, .claim job false] }
      | (s, .ok true) =>
        { state := h.startWorkshopJob s job plan
          offered := [row]
          decisions := [.check job true, .claim job true, .start job] }

/-- `RunResult`. -/
def runResult (makeJob : R → Except String J) : List R → σ → RunOutcome σ R J
  | [], s => { state := s }
  | row :: rows, s =>
    if !h.isEnabled s || h.interrupt s then { state := s, stopped := true }
    else
      match makeJob row with
      | .error e => { state := s, error := some e }
      | .ok job => (h.runJob row s job).andThen (runResult makeJob rows)

variable {h} {makeJob : R → Except String J} {row : R} {rows : List R} {s : σ}

lemma runResult_of_stopped (hstop : (!h.isEnabled s || h.interrupt s) = true) :
    (h.runResult makeJob rows s).decisions = [] := by
  cases rows with
  | nil => rfl
  | cons row rows => rw [runResult, if_pos hstop]

lemma runResult_of_error {e : String} (hrow : makeJob row = .error e) :
    (h.runResult makeJob (row :: rows) s).decisions = [] := by
  rw [runResult, hrow]
  split <;> rfl

lemma runJob_offered {job : J} : (h.runJob row s job).offered = [row] := by
  unfold runJob
  split
  · rfl
  · split
    · rfl
    · split <;> rfl

lemma runResult_of_ok {job : J} (hgo : (!h.isEnabled s || h.interrupt s) = false)
    (hrow : makeJob row = .ok job) :
    h.runResult makeJob (row :: rows) s =
      (h.runJob row s job).andThen (h.runResult makeJob rows) := by
  rw [runResult, if_neg (by simp [hgo]), hrow]

/-- **One turn of a loop without an exception**: the rows are left over, or the row decodes, and the
rest of the loop is without an exception, too. -/
lemma runResult_cases (herror : (h.runResult makeJob (row :: rows) s).error = none) :
    ((!h.isEnabled s || h.interrupt s) = true ∧
      h.runResult makeJob (row :: rows) s = { state := s, stopped := true }) ∨
    ((!h.isEnabled s || h.interrupt s) = false ∧ ∃ job, makeJob row = .ok job ∧
      h.runResult makeJob (row :: rows) s =
        (h.runJob row s job).andThen (h.runResult makeJob rows) ∧
      (h.runJob row s job).error = none ∧
      (h.runResult makeJob rows (h.runJob row s job).state).error = none ∧
      (h.runResult makeJob (row :: rows) s).state =
        (h.runResult makeJob rows (h.runJob row s job).state).state) := by
  cases hgo : (!h.isEnabled s || h.interrupt s) with
  | true => exact .inl ⟨rfl, by rw [runResult, if_pos hgo]⟩
  | false =>
      cases hrow : makeJob row with
      | error e =>
          rw [runResult, if_neg (by simp [hgo]), hrow] at herror
          exact absurd herror (by simp)
      | ok job =>
          rw [runResult_of_ok hgo hrow] at herror ⊢
          exact .inr ⟨rfl, job, rfl, rfl, RunOutcome.of_andThen_error herror⟩

/-- **One turn of a loop that comes to its end**: the queue is enabled, the row decodes, and the
rest of the loop comes to its end, too. -/
lemma runResult_cons (herror : (h.runResult makeJob (row :: rows) s).error = none)
    (hstopped : (h.runResult makeJob (row :: rows) s).stopped = false) :
    (!h.isEnabled s || h.interrupt s) = false ∧ ∃ job, makeJob row = .ok job ∧
      (h.runJob row s job).error = none ∧
      (h.runResult makeJob rows (h.runJob row s job).state).error = none ∧
      (h.runResult makeJob rows (h.runJob row s job).state).stopped = false ∧
      (h.runResult makeJob (row :: rows) s).state =
        (h.runResult makeJob rows (h.runJob row s job).state).state ∧
      (h.runResult makeJob (row :: rows) s).offered =
        row :: (h.runResult makeJob rows (h.runJob row s job).state).offered := by
  rcases runResult_cases herror with ⟨_, hstop⟩ | ⟨hgo, job, hrow, hcons, _⟩
  · rw [hstop] at hstopped
    exact absurd hstopped (by simp)
  · rw [hcons] at herror hstopped ⊢
    obtain ⟨hjob, _, herror', hstopped', hstate, hoffered⟩ := RunOutcome.of_andThen herror hstopped
    rw [runJob_offered] at hoffered
    exact ⟨hgo, job, hrow, hjob, herror', hstopped', hstate, hoffered⟩

lemma runResult_offered (herror : (h.runResult makeJob rows s).error = none)
    (hstopped : (h.runResult makeJob rows s).stopped = false) :
    (h.runResult makeJob rows s).offered = rows := by
  induction rows generalizing s with
  | nil => rfl
  | cons row rows ih =>
      obtain ⟨_, job, _, _, herror', hstopped', _, hoffered⟩ := runResult_cons herror hstopped
      rw [hoffered, ih herror' hstopped']

/-- **Loop rule.**  What holds in front of the loop, with no row behind it, and what every turn
about a row keeps, holds at its end with all rows behind it. -/
lemma runResult_rule {I : List R → σ → Prop} (hstart : I [] s)
    (hturn : ∀ done row s job, I done s → (done ++ [row]) <+: rows →
      (!h.isEnabled s || h.interrupt s) = false → makeJob row = .ok job →
      (h.runJob row s job).error = none → I (done ++ [row]) (h.runJob row s job).state)
    (herror : (h.runResult makeJob rows s).error = none)
    (hstopped : (h.runResult makeJob rows s).stopped = false) :
    I rows (h.runResult makeJob rows s).state := by
  -- the induction is on what is left, with the rows behind in front of it
  suffices hgen : ∀ done rest s, I done s → done ++ rest = rows →
      (h.runResult makeJob rest s).error = none → (h.runResult makeJob rest s).stopped = false →
      I rows (h.runResult makeJob rest s).state from
    hgen [] rows s hstart rfl herror hstopped
  intro done rest
  induction rest generalizing done with
  | nil =>
      intro s hs hrows _ _
      rw [List.append_nil] at hrows
      exact hrows ▸ hs
  | cons row rest ih =>
      intro s hs hrows herror hstopped
      obtain ⟨hgo, job, hrow, hjob, herror', hstopped', hstate, _⟩ := runResult_cons herror hstopped
      have hsplit : done ++ [row] ++ rest = rows := by rw [← hrows, List.append_assoc]; rfl
      rw [hstate]
      exact ih _ _ (hturn done row s job hs ⟨rest, hsplit⟩ hgo hrow hjob) hsplit herror' hstopped'

end RunHandler

/-! ## The rows of a partition -/

/-- A partition as the handler of its queue, with what each job meets on its way. -/
def partitionHandler (env : WorkplaceEnv) (now : ℤ) (answers : WorkshopJob → RowAnswers) :
    RunHandler WorkshopPartition WorkshopJob where
  isEnabled p := p.queue.isEnabled
  interrupt p := p.queue.interrupt
  getWorkshopPlan p job := (p, (answers job).plan)
  checkWorkshopJob p job _ := (p.checkWorkshopJob env now job (answers job)).swap
  claimJob p job _ :=
    ({ p with claims := p.claims ++ [(job.id, p.queue.isEnabled)] },
      (answers job).claimed.elim (.error "claim_job failed") .ok)
  startWorkshopJob p job plan := p.startWorkshopJob env now job plan (answers job)

/-- What a partition does with a row is one turn of the loop; an exception aborts the run. -/
lemma handleRow_eq_runJob {env : WorkplaceEnv} {now : ℤ} (answers : WorkshopJob → RowAnswers)
    {p : WorkshopPartition} {row : JobRow} {job : WorkshopJob} (hjob : makeJob row = .ok job) :
    p.handleRow env now row (answers job) =
      let o := (partitionHandler env now answers).runJob row p job
      o.error.elim o.state fun _ => { o.state with queue := o.state.queue.abort } := by
  unfold WorkshopPartition.handleRow RunHandler.runJob
  simp only [hjob, partitionHandler]
  cases (answers job).plan with
  | none => rfl
  | some plan =>
      rcases hcheck : p.checkWorkshopJob env now job (answers job) with ⟨_ | _, p'⟩
      · simp only [hcheck, Prod.swap_prod_mk]
        rfl
      · simp only [hcheck, Prod.swap_prod_mk, WorkshopPartition.claimAndStart]
        rcases (answers job).claimed with _ | _ | _
        · rfl
        · rfl
        · rfl

/-! ## Rows that do not decode -/

section Decisions

variable {codec : RowCodec}

lemma ResultRow.decodes_iff {row : ResultRow} :
    row.decodes codec = true ↔ ∃ job, row.makeJob codec = .ok job := by
  unfold ResultRow.decodes
  cases row.makeJob codec with
  | error e => simp [Except.toBool]
  | ok job => simp [Except.toBool]

lemma ResultRow.not_decodes_iff {row : ResultRow} :
    row.decodes codec = false ↔ ∃ e, row.makeJob codec = .error e := by
  unfold ResultRow.decodes
  cases row.makeJob codec with
  | error e => simp [Except.toBool]
  | ok job => simp [Except.toBool]

/-- The decisions `RunResult` makes for the rows of a result. -/
def decisions (codec : RowCodec) {σ : Type} (h : RunHandler σ DecodedJob) (rows : List ResultRow)
    (s : σ) : List (Decision DecodedJob) :=
  (h.runResult (ResultRow.makeJob codec) rows s).decisions

/-- Whatever the queue and its handler do, the rows that do not decode make no difference to the
decisions. -/
def SameDecisions (codec : RowCodec) (rows : List ResultRow) : Prop :=
  ∀ (σ : Type) (h : RunHandler σ DecodedJob) (s : σ),
    decisions codec h rows s = decisions codec h (rows.filter fun row => row.decodes codec) s

/-- Where every row that decodes is in front of every row that does not, nothing is lost. -/
lemma decisions_filter {σ : Type} {h : RunHandler σ DecodedJob} {rows : List ResultRow}
    (hrows : rows.Pairwise fun a b => b.decodes codec = true → a.decodes codec = true) (s : σ) :
    decisions codec h rows s = decisions codec h (rows.filter fun row => row.decodes codec) s := by
  induction rows generalizing s with
  | nil => rfl
  | cons row rows ih =>
      obtain ⟨hhead, htail⟩ := List.pairwise_cons.mp hrows
      cases hgo : (!h.isEnabled s || h.interrupt s) with
      | true =>
          unfold decisions
          rw [RunHandler.runResult_of_stopped hgo, RunHandler.runResult_of_stopped hgo]
      | false =>
          cases hrow : row.decodes codec with
          | true =>
              obtain ⟨job, hjob⟩ := ResultRow.decodes_iff.mp hrow
              rw [List.filter_cons_of_pos hrow]
              unfold decisions at ih ⊢
              rw [RunHandler.runResult_of_ok hgo hjob, RunHandler.runResult_of_ok hgo hjob]
              cases herror : (h.runJob row s job).error with
              | some e =>
                  rw [RunOutcome.andThen_of_error herror, RunOutcome.andThen_of_error herror]
              | none =>
                  rw [RunOutcome.andThen_decisions herror, RunOutcome.andThen_decisions herror,
                    ih htail]
          | false =>
              -- what follows does not decode either
              obtain ⟨e, he⟩ := ResultRow.not_decodes_iff.mp hrow
              have hnone : rows.filter (fun row => row.decodes codec) = [] := by
                refine List.filter_eq_nil_iff.mpr fun b hb hdecodes => ?_
                exact absurd (hhead b hb hdecodes) (by simp [hrow])
              rw [List.filter_cons_of_neg (by simp [hrow]), hnone]
              exact RunHandler.runResult_of_error he

/-- A queue that is never disabled, and a handler that claims and starts every job. -/
def eager (J : Type) : RunHandler Unit J where
  isEnabled _ := true
  interrupt _ := false
  getWorkshopPlan s _ := (s, some {})
  checkWorkshopJob s _ _ := (s, true)
  claimJob s _ _ := (s, .ok true)
  startWorkshopJob s _ _ := s

lemma decisions_eager_cons {row : ResultRow} {rows : List ResultRow} {job : DecodedJob}
    (hrow : row.makeJob codec = .ok job) :
    decisions codec (eager DecodedJob) (row :: rows) () =
      [.check job true, .claim job true, .start job] ++
        decisions codec (eager DecodedJob) rows () := by
  unfold decisions
  rw [RunHandler.runResult_of_ok rfl hrow]
  rfl

/-- The eager handler tells a result from its decodable rows, if a row is lost. -/
lemma pairwise_of_decisions_eager {rows : List ResultRow}
    (heq : decisions codec (eager DecodedJob) rows () =
      decisions codec (eager DecodedJob) (rows.filter fun row => row.decodes codec) ()) :
    rows.Pairwise fun a b => b.decodes codec = true → a.decodes codec = true := by
  induction rows with
  | nil => exact .nil
  | cons row rows ih =>
      cases hrow : row.decodes codec with
      | true =>
          obtain ⟨job, hjob⟩ := ResultRow.decodes_iff.mp hrow
          rw [List.filter_cons_of_pos hrow, decisions_eager_cons hjob,
            decisions_eager_cons hjob] at heq
          exact .cons (fun _ _ _ => hrow) (ih (List.append_cancel_left heq))
      | false =>
          obtain ⟨e, he⟩ := ResultRow.not_decodes_iff.mp hrow
          rw [List.filter_cons_of_neg (by simp [hrow])] at heq
          have hempty : decisions codec (eager DecodedJob)
              (rows.filter fun row => row.decodes codec) () = [] :=
            heq.symm.trans (RunHandler.runResult_of_error he)
          -- a row that decodes would be claimed
          have hnone : ∀ b ∈ rows, b.decodes codec = false := by
            cases hgood : rows.filter fun row => row.decodes codec with
            | nil => simpa using List.filter_eq_nil_iff.mp hgood
            | cons b good =>
                have hb : b ∈ rows.filter fun row => row.decodes codec := by simp [hgood]
                obtain ⟨job, hjob⟩ := ResultRow.decodes_iff.mp (List.mem_filter.mp hb).2
                rw [hgood, decisions_eager_cons hjob] at hempty
                exact absurd hempty (by simp)
          refine .cons (fun b hb hdecodes => absurd hdecodes (by simp [hnone b hb])) ?_
          refine List.pairwise_of_forall_mem_list fun a _ b hb hdecodes => ?_
          exact absurd hdecodes (by simp [hnone b hb])

/-- **Undecodable rows.**  They make no difference to the decisions about the other rows exactly if
no row that decodes comes after one that does not. -/
theorem sameDecisions_iff (codec : RowCodec) (rows : List ResultRow) :
    SameDecisions codec rows ↔
      rows.Pairwise fun a b => b.decodes codec = true → a.decodes codec = true :=
  ⟨fun h => pairwise_of_decisions_eager (h Unit (eager DecodedJob) ()),
    fun h _ _ s => decisions_filter h s⟩

end Decisions

/-- A codec for arrays with one dimension, whose elements are quoted; there is no `BYTEA`. -/
def flatCodec : RowCodec where
  decodeArray text :=
    if text = "" then .ok []
    else if text.startsWith "\x7b\x7b" then .error "Unexpected '\x7b'"
    else .ok (PgArray.decode text)
  decodeHex _ := .error "Malformed hex string"

/-- A job whose arguments are an array with two dimensions, which the column accepts. -/
def nestedRow : ResultRow where
  id := some "1"
  planName := some "a"
  args := some "\x7b\x7bx\x7d\x7d"

/-- A job with an argument. -/
def flatRow : ResultRow where
  id := some "2"
  planName := some "b"
  args := some "\x7b\"x\"\x7d"

theorem undecodable_row_blocks :
    nestedRow.decodes flatCodec = false ∧ flatRow.decodes flatCodec = true ∧
      decisions flatCodec (eager DecodedJob) [nestedRow, flatRow] () = [] ∧
      decisions flatCodec (eager DecodedJob) [flatRow] () ≠ [] ∧
      ¬ SameDecisions flatCodec [nestedRow, flatRow] := by
  have hnested : nestedRow.decodes flatCodec = false := by decide +kernel
  have hflat : flatRow.decodes flatCodec = true := by decide +kernel
  have hblocked : decisions flatCodec (eager DecodedJob) [nestedRow, flatRow] () = [] := by
    decide +kernel
  have halone : decisions flatCodec (eager DecodedJob) [flatRow] () ≠ [] := by decide +kernel
  refine ⟨hnested, hflat, hblocked, halone, fun h => halone ?_⟩
  have hsame := h Unit (eager DecodedJob) ()
  rw [hblocked, List.filter_cons_of_neg (by simp [hnested]), List.filter_cons_of_pos hflat,
    List.filter_nil] at hsame
  exact hsame.symm

end Workshop.Jobs

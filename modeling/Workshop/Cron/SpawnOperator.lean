import Mathlib.Data.Int.Notation
import Workshop.Cron.PipeCapture

/-!
# The log of a cron process

`CronSpawnOperator` (`src/cron/SpawnOperator.cxx`): if nothing else was configured, what the process
writes to its standard error and standard output goes to a pipe, from which a `PipePondAdapter`
reads.  When the process has exited, what was read is the log of the result.

The end of the process and the data in the pipe are two events, and the event loop may deliver them
in any order; but `OnChildProcessExit` does not read what is still in the pipe.  The log is what the
process has written, if and only if the pipe is empty then or the buffer has all that fits in the
log (`log_complete_iff`).
-/

namespace Workshop.Cron

open Workshop.Lib

/-! ## The text of the log -/

/-- `IsPrintableASCII` and `ValidateUTF8`, which are not part of this repository. -/
structure TextLibrary where
  isPrintableASCII : UInt8 → Bool
  isPrintableASCII_spec : ∀ b, isPrintableASCII b = true → b ≠ 0 ∧ b < 128
  validateUTF8 : List UInt8 → Bool
  validateUTF8_ascii : ∀ text, (∀ b ∈ text, b ≠ 0 ∧ b < 128) → validateUTF8 text = true

variable (lib : TextLibrary)

/-- `IsAllowedNonPrintableChar`. -/
def isAllowedNonPrintableChar (ch : UInt8) : Bool := ch == 13 || ch == 10 || ch == 9

/-- `IsDisallowedChar`. -/
def isDisallowedChar (ch : UInt8) : Bool :=
  !lib.isPrintableASCII ch && !isAllowedNonPrintableChar ch

/-- What `std::replace_if` does to a byte. -/
def replaceDisallowed (ch : UInt8) : UInt8 := if isDisallowedChar lib ch then 32 else ch

/-- The text of a buffer that ends at the first null byte. -/
def cString (bytes : List UInt8) : List UInt8 := bytes.takeWhile (· ≠ 0)

/-- `NormalizeASCII`. -/
def CaptureBuffer.normalizeASCII {capacity : ℕ} (b : CaptureBuffer capacity) : List UInt8 :=
  -- the last byte is cropped for the null terminator
  let size := if b.data.length = capacity then capacity - 1 else b.data.length
  cString ((b.data.take size).map (replaceDisallowed lib) ++ [0])

/-- **The log of an output**: its first bytes, without those that cannot be printed. -/
def logText (output : List UInt8) : List UInt8 := (output.take 8191).map (replaceDisallowed lib)

lemma replaceDisallowed_spec (ch : UInt8) :
    replaceDisallowed lib ch ≠ 0 ∧ replaceDisallowed lib ch < 128 := by
  unfold replaceDisallowed
  split
  · decide
  · rename_i hallowed
    rw [isDisallowedChar, Bool.and_eq_true, Bool.not_eq_true', Bool.not_eq_true', not_and_or,
      Bool.not_eq_false, Bool.not_eq_false] at hallowed
    rcases hallowed with hprintable | hspecial
    · exact lib.isPrintableASCII_spec ch hprintable
    · simp only [isAllowedNonPrintableChar, Bool.or_eq_true, beq_iff_eq] at hspecial
      rcases hspecial with (rfl | rfl) | rfl <;> decide

lemma cString_append_zero {bytes : List UInt8} (h : ∀ b ∈ bytes, b ≠ 0) :
    cString (bytes ++ [0]) = bytes := by
  rw [cString, List.takeWhile_append_of_pos (by simpa using h)]
  exact List.append_nil bytes

/-- `NormalizeASCII` keeps what fits, with its terminator, in the buffer. -/
lemma CaptureBuffer.normalizeASCII_eq {capacity : ℕ} (b : CaptureBuffer capacity) :
    b.normalizeASCII lib = (b.data.take (capacity - 1)).map (replaceDisallowed lib) := by
  have hle := b.length_le
  have htake : b.data.take (if b.data.length = capacity then capacity - 1 else b.data.length) =
      b.data.take (capacity - 1) := by
    split
    · rfl
    · rw [List.take_length, List.take_of_length_le (by omega)]
  rw [normalizeASCII, htake]
  refine cString_append_zero fun ch hch => ?_
  obtain ⟨b, _, rfl⟩ := List.mem_map.mp hch
  exact (replaceDisallowed_spec lib b).1

/-! ## The operator -/

/-- `CronResult`, with the log as bytes; `none` is the null pointer. -/
structure SpawnResult where
  log : Option (List UInt8)
  exitStatus : ℤ
  deriving DecidableEq, Repr

/-- `exit_status`, from the status of `waitpid` or a negative `errno`. -/
def spawnExitStatus (status : ℤ) : ℤ :=
  if status < 0 then status
  -- `WIFSIGNALED`, where `-EINTR` is replaced at once
  else if 1 ≤ status % 128 ∧ status % 128 ≤ 126 then -1
  else if status % 128 = 0 then status / 256 % 256
  else -10

/-- `"Invalid UTF-8 output"`. -/
def invalidOutput : List UInt8 := "Invalid UTF-8 output".toUTF8.toList

/-- The result of `CronSpawnOperator::OnChildProcessExit`. -/
def exitResult (outputCapture : Option (PipePondAdapter 8192)) (status : ℤ) : SpawnResult where
  log := outputCapture.map fun a =>
    let log := a.buffer.normalizeASCII lib
    if lib.validateUTF8 log then log else invalidOutput
  exitStatus := spawnExitStatus status

lemma exitResult_log (a : PipePondAdapter 8192) (status : ℤ) :
    (exitResult lib (some a) status).log = some (logText lib a.buffer.data) := by
  have hvalid : lib.validateUTF8 (logText lib a.buffer.data) = true := by
    refine lib.validateUTF8_ascii _ fun ch hch => ?_
    obtain ⟨b, _, rfl⟩ := List.mem_map.mp hch
    exact replaceDisallowed_spec lib b
  have hnormal : a.buffer.normalizeASCII lib = logText lib a.buffer.data :=
    a.buffer.normalizeASCII_eq lib
  rw [exitResult, Option.map_some, hnormal, if_pos hvalid]

/-! ## The process and its pipe -/

/-- The two descriptors of a process that can be captured. -/
inductive OutputStream
  | stdout
  | stderr
  deriving DecidableEq, Repr

/-- An operator with its process, and the pipe between them. -/
structure CronProcess where
  outputCapture : Option (PipePondAdapter 8192)
  /-- The descriptors that are the pipe. -/
  captured : OutputStream → Bool
  /-- The process has not exited. -/
  isRunning : Bool := true
  /-- What the process has written to the pipe. -/
  output : List UInt8 := []
  unread : List UInt8 := []
  /-- What was passed to `Finish`. -/
  result : Option SpawnResult := none

/-- `CronSpawnOperator::Spawn`, with the descriptors that are configured. -/
def CronProcess.spawn (stdoutFd stderrFd : Option ℕ) (pondSocket : Bool) (site : List UInt8) :
    CronProcess where
  outputCapture := if stderrFd.isNone then some { pondSocket, site } else none
  captured
    | .stderr => stderrFd.isNone
    | .stdout => stderrFd.isNone && stdoutFd.isNone

/-- What happens: the process writes or exits, the event loop finds the pipe readable and `n` bytes
are read, or the exit listener is called. -/
inductive ProcessEvent
  | write (fd : OutputStream) (bytes : List UInt8)
  | exit
  | onSocket (n : ℕ)
  | onChildProcessExit (status : ℤ)

namespace CronProcess

/-- One event. -/
def step (env : PondEnv) (p : CronProcess) : ProcessEvent → Option CronProcess
  | .write fd bytes =>
    if p.isRunning then
      if p.captured fd then
        some { p with output := p.output ++ bytes, unread := p.unread ++ bytes }
      else some p
    else none
  | .exit => if p.isRunning then some { p with isRunning := false } else none
  | .onSocket n =>
    match p.outputCapture with
    | some a =>
      -- the end of the file is seen when the process has closed the pipe
      if p.result = none ∧ (n = 0 → p.isRunning = false) then
        (PondStream.step env ⟨a, p.unread⟩ n).map fun t =>
          { p with outputCapture := some t.adapter, unread := t.left }
      else none
    | none => none
  | .onChildProcessExit status =>
    if p.isRunning = false ∧ p.result = none then
      some { p with result := some (exitResult lib p.outputCapture status) }
    else none

/-- The log is that of the whole output. -/
def LogComplete (p : CronProcess) : Prop :=
  ∀ result, p.result = some result → result.log = some (logText lib p.output)

/-- When the exit listener is called, the pipe is empty, or the buffer has all that fits in the
log. -/
def Drained (p : CronProcess) : ProcessEvent → Prop
  | .onChildProcessExit _ =>
    p.unread = [] ∨ ∃ a, p.outputCapture = some a ∧ 8191 ≤ a.buffer.data.length
  | _ => True

/-- What every event keeps. -/
structure Captures (p : CronProcess) : Prop where
  reads : ∃ a, p.outputCapture = some a ∧ PondStream.Reads p.output ⟨a, p.unread⟩ ∧
    (a.isOpen = false → p.isRunning = false)
  result : p.result ≠ none → p.isRunning = false

variable {lib} {env : PondEnv} {p q : CronProcess}

lemma captures_spawn (stdoutFd : Option ℕ) (pondSocket : Bool) (site : List UInt8) :
    Captures (spawn stdoutFd none pondSocket site) :=
  ⟨⟨_, rfl, ⟨⟨[], rfl, fun _ => rfl⟩, fun hclosed => nomatch hclosed⟩,
    fun hclosed => nomatch hclosed⟩,
    fun hresult => absurd rfl hresult⟩

lemma Captures.write (h : Captures p) (hrunning : p.isRunning = true) (bytes : List UInt8) :
    Captures { p with output := p.output ++ bytes, unread := p.unread ++ bytes } := by
  obtain ⟨a, ha, ⟨⟨gone, houtput, hgone⟩, _⟩, hclosed⟩ := h.reads
  have hopen : a.isOpen ≠ false := fun hfalse => by
    rw [hclosed hfalse] at hrunning
    cases hrunning
  refine ⟨⟨a, ha, ⟨⟨gone, ?_, hgone⟩, fun hfalse => absurd hfalse hopen⟩, hclosed⟩, h.result⟩
  rw [houtput, List.append_assoc, List.append_assoc]

/-- **Events keep the output**, part of it in the buffer and the rest in the pipe. -/
lemma Captures.step {e : ProcessEvent} (h : Captures p) (hstep : p.step lib env e = some q) :
    Captures q := by
  cases e with
  | write fd bytes =>
      rw [CronProcess.step] at hstep
      obtain ⟨hrunning, hstep⟩ := Option.ite_none_right_eq_some.mp hstep
      split at hstep
      · obtain rfl := Option.some.inj hstep
        exact h.write hrunning bytes
      · obtain rfl := Option.some.inj hstep
        exact h
  | exit =>
      obtain ⟨_, rfl⟩ := of_guard hstep
      obtain ⟨a, ha, hreads, _⟩ := h.reads
      exact ⟨⟨a, ha, hreads, fun _ => rfl⟩, fun _ => rfl⟩
  | onSocket n =>
      obtain ⟨a, ha, hreads, hclosed⟩ := h.reads
      simp only [CronProcess.step, ha] at hstep
      obtain ⟨⟨hresult, hzero⟩, hstep⟩ := Option.ite_none_right_eq_some.mp hstep
      obtain ⟨t, ht, rfl⟩ := Option.map_eq_some_iff.mp hstep
      refine ⟨⟨t.adapter, rfl, hreads.step ht, fun hclosed' => ?_⟩, h.result⟩
      obtain ⟨hopen, _, hn, hsize, rfl⟩ := PondStream.step_eq_some ht
      rw [PipePondAdapter.onSocket_isOpen, hopen, Bool.true_and, decide_eq_false_iff_not, not_not,
        List.take_eq_nil_iff] at hclosed'
      rcases hclosed' with hn0 | hleft
      · exact hzero hn0
      · refine hzero ?_
        rw [hleft] at hn
        exact Nat.le_zero.mp hn
  | onChildProcessExit status =>
      obtain ⟨⟨hexited, _⟩, rfl⟩ := of_guard hstep
      exact ⟨h.reads, fun _ => hexited⟩

lemma logText_data_eq {stream : List UInt8} {a : PipePondAdapter 8192} {unread : List UInt8}
    (h : PondStream.Reads stream ⟨a, unread⟩) :
    logText lib a.buffer.data = logText lib stream ↔
      unread = [] ∨ 8191 ≤ a.buffer.data.length := by
  obtain ⟨⟨gone, hstream, hgone⟩, _⟩ := h
  dsimp only at hstream hgone
  by_cases hfits : 8191 ≤ a.buffer.data.length
  · refine ⟨fun _ => .inr hfits, fun _ => ?_⟩
    rw [logText, logText, hstream, List.append_assoc, List.take_append_of_le_length hfits]
  · have hle := a.buffer.length_le
    have hgone' : gone = [] := hgone (by
      rw [← Bool.not_eq_true, CaptureBuffer.isFull_iff]
      omega)
    rw [hgone', List.append_nil] at hstream
    constructor
    · intro heq
      have hlength := congrArg List.length heq
      rw [logText, logText, List.length_map, List.length_map, List.length_take, List.length_take,
        hstream, List.length_append] at hlength
      exact .inl (List.eq_nil_of_length_eq_zero (by omega))
    · rintro (hempty | hfits')
      · rw [hstream, hempty, List.append_nil]
      · exact absurd hfits' hfits

lemma logComplete_of_none (h : p.result = none) : LogComplete lib p := fun result hresult => by
  rw [h] at hresult
  cases hresult

lemma Captures.result_eq_none (h : Captures p) (hrunning : p.isRunning = true) :
    p.result = none := by
  by_contra hresult
  rw [h.result hresult] at hrunning
  cases hrunning

/-- The events that keep the log complete. -/
lemma logComplete_step_iff {e : ProcessEvent} (h : Captures p)
    (hstep : p.step lib env e = some q) : LogComplete lib q ↔ p.Drained e := by
  cases e with
  | write fd bytes =>
      rw [CronProcess.step] at hstep
      obtain ⟨hrunning, hstep⟩ := Option.ite_none_right_eq_some.mp hstep
      refine iff_of_true (logComplete_of_none ?_) trivial
      split at hstep
      · obtain rfl := Option.some.inj hstep
        exact h.result_eq_none hrunning
      · obtain rfl := Option.some.inj hstep
        exact h.result_eq_none hrunning
  | exit =>
      obtain ⟨hrunning, rfl⟩ := of_guard hstep
      exact iff_of_true (logComplete_of_none (h.result_eq_none hrunning)) trivial
  | onSocket n =>
      obtain ⟨a, ha, _, _⟩ := h.reads
      simp only [CronProcess.step, ha] at hstep
      obtain ⟨⟨hresult, _⟩, hstep⟩ := Option.ite_none_right_eq_some.mp hstep
      obtain ⟨t, _, rfl⟩ := Option.map_eq_some_iff.mp hstep
      exact iff_of_true (logComplete_of_none hresult) trivial
  | onChildProcessExit status =>
      obtain ⟨_, rfl⟩ := of_guard hstep
      obtain ⟨a, ha, hreads, _⟩ := h.reads
      have hlog : (exitResult lib p.outputCapture status).log =
          some (logText lib a.buffer.data) := by
        rw [ha, exitResult_log]
      have hdrained : p.Drained (.onChildProcessExit status) ↔
          p.unread = [] ∨ 8191 ≤ a.buffer.data.length := by
        simp [Drained, ha]
      rw [hdrained, ← @logText_data_eq lib _ _ _ hreads]
      constructor
      · intro hcomplete
        exact Option.some.inj (hlog.symm.trans (hcomplete _ rfl))
      · rintro heq result hresult
        obtain rfl := Option.some.inj hresult
        rw [hlog, heq]

end CronProcess

/-- **The log is complete exactly if the pipe was drained.**  Whatever the process writes to its
captured output, however it is read and in whichever order the events come: in every state the log
of the result, if there is one, is the text of the whole output, if and only if the exit listener is
only called when the pipe is empty, or when the buffer has all that fits in the log. -/
theorem log_complete_iff {env : PondEnv} {stdoutFd : Option ℕ} {pondSocket : Bool}
    {site : List UInt8} {tr : List (CronProcess × ProcessEvent)} {p : CronProcess}
    (hrun : Run (CronProcess.step lib env) (.spawn stdoutFd none pondSocket site) tr p) :
    (p.LogComplete lib ∧ ∀ q ∈ tr, q.1.LogComplete lib) ↔ ∀ q ∈ tr, q.1.Drained q.2 := by
  have hcaptures := hrun.invariant (I := CronProcess.Captures) (C := fun _ _ => True)
    (fun p e q hp _ hstep => hp.step hstep) (CronProcess.captures_spawn stdoutFd pondSocket site)
    (fun _ _ => trivial)
  have hiff := hrun.invariant_iff (I := fun p => p.Captures ∧ p.LogComplete lib)
    (C := CronProcess.Drained)
    (fun p e q hp hstep => by
      rw [← CronProcess.logComplete_step_iff hp.1 hstep]
      exact and_iff_right (hp.1.step hstep))
    ⟨CronProcess.captures_spawn stdoutFd pondSocket site, CronProcess.logComplete_of_none rfl⟩
  rw [← hiff]
  constructor
  · rintro ⟨hlog, hpast⟩
    exact ⟨⟨hcaptures.1, hlog⟩, fun q hq => ⟨hcaptures.2 q hq, hpast q hq⟩⟩
  · rintro ⟨⟨_, hlog⟩, hpast⟩
    exact ⟨hlog, fun q hq => (hpast q hq).2⟩

/-- The characters and the texts of ASCII, for the examples. -/
def asciiText : TextLibrary where
  isPrintableASCII ch := 32 ≤ ch && ch < 127
  isPrintableASCII_spec ch h := by
    simp only [Bool.and_eq_true, decide_eq_true_eq] at h
    constructor
    · rintro rfl
      exact absurd h.1 (by decide)
    · exact UInt8.lt_trans h.2 (by decide)
  validateUTF8 text := text.all (· < 128)
  validateUTF8_ascii text h := by
    simpa using fun ch hch => (h ch hch).2

/-- A process that writes a byte, and another one that cannot be printed. -/
def shortOutput : List ProcessEvent :=
  [.write .stderr [97], .onSocket 1, .write .stdout [1, 10], .exit, .onSocket 2, .onSocket 0,
    .onChildProcessExit 0]

/-- Its log is complete if everything is read before the exit listener is called. -/
theorem log_of_short_output :
    ∃ tr p, Run (CronProcess.step asciiText plainPond) (.spawn none none false []) tr p ∧
      p.result = some ⟨some [97, 32, 10], 0⟩ ∧
      p.LogComplete asciiText ∧ ∀ q ∈ tr, q.1.LogComplete asciiText := by
  have hrun := Run.of_final (show final (CronProcess.step asciiText plainPond)
    (.spawn none none false []) shortOutput = some _ from rfl)
  refine ⟨_, _, hrun, rfl, (log_complete_iff asciiText hrun).mpr ?_⟩
  have hlast : ∀ q ∈ (traceOf (CronProcess.step asciiText plainPond)
      (.spawn none none false []) shortOutput), q.1.Drained q.2 := by
    iterate 6 refine List.forall_mem_cons.mpr ⟨trivial, ?_⟩
    exact List.forall_mem_cons.mpr ⟨.inl rfl, List.forall_mem_nil _⟩
  exact hlast

/-- The last bytes are lost if the exit listener is called first. -/
theorem unread_output_is_lost :
    ∃ tr p, Run (CronProcess.step asciiText plainPond) (.spawn none none false []) tr p ∧
      p.result = some ⟨some [], 0⟩ ∧ logText asciiText p.output = [97] := by
  have hrun := Run.of_final (show final (CronProcess.step asciiText plainPond)
    (.spawn none none false []) [.write .stderr [97], .exit, .onChildProcessExit 0] = some _
    from rfl)
  exact ⟨_, _, hrun, rfl, rfl⟩

end Workshop.Cron

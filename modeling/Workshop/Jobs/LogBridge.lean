import Workshop.Jobs.Workplace
import Workshop.Lib.Utf8

/-!
# The log of a job

`LogBridge` (`src/workshop/LogBridge.cxx`) collects the lines that a job writes to its standard
error, up to `max_log` bytes, and `WorkshopOperator::OnChildProcessExit` writes them to the job if
they are valid UTF-8; if not, it writes a fixed text.

The limit is a number of bytes, and the last line is cut there.  If that is inside of a character,
the whole log is replaced.  So a valid log is stored, only shortened, if and only if the limit is
between two characters (`log_stored_iff`).
-/

namespace Workshop.Jobs

open Workshop.Lib

/-! ## The bridge -/

/-- What a bridge does with a line, besides collecting it: it goes to the journal, with the plan and
the job, or to the standard error of the daemon. -/
inductive LogMessage
  | journal (message : List UInt8) (planName jobId : String)
  | print (planName jobId : String) (line : List UInt8)
  deriving DecidableEq, Repr

/-- `LogBridge`, with the messages it has sent. -/
structure LogBridge where
  planName : String
  jobId : String
  enableJournal : Bool := false
  buffer : List UInt8 := []
  maxBufferSize : ℕ := 0
  messages : List LogMessage := []
  deriving DecidableEq, Repr

/-- `'\n'`. -/
def newline : UInt8 := 10

namespace LogBridge

variable (b : LogBridge)

/-- `EnableBuffer`. -/
def enableBuffer (maxSize : ℕ) : LogBridge := { b with maxBufferSize := maxSize }

/-- What `OnPipeLine` appends to the buffer. -/
def collect (line : List UInt8) : List UInt8 :=
  if 0 < b.maxBufferSize ∧ b.buffer.length < b.maxBufferSize - 1 then
    b.buffer ++ line.take (min line.length (b.maxBufferSize - 1 - b.buffer.length)) ++ [newline]
  else b.buffer

/-- Where `OnPipeLine` sends a line. -/
def send (line : List UInt8) : List LogMessage :=
  (if b.enableJournal then [.journal line b.planName b.jobId] else []) ++
    if b.maxBufferSize = 0 ∧ b.enableJournal = false then [.print b.planName b.jobId line] else []

/-- `OnPipeLine`. -/
def onPipeLine (line : List UInt8) : LogBridge :=
  { b with buffer := b.collect line, messages := b.messages ++ b.send line }

/-- `GetBuffer`, which ends at the first null byte. -/
def getBuffer : Option (List UInt8) :=
  if 0 < b.maxBufferSize then some (b.buffer.takeWhile (· ≠ 0)) else none

/-- `WorkshopOperator::InitLog`, and the lines up to the call of `Flush`. -/
def ofLines (planName jobId : String) (enableJournal : Bool) (maxLog : ℕ)
    (lines : List (List UInt8)) : LogBridge :=
  let b := { planName, jobId, enableJournal }
  lines.foldl onPipeLine (if 0 < maxLog then b.enableBuffer maxLog else b)

end LogBridge

/-- The logs that an operator writes to its job. -/
def writtenLogs (acts : List OperatorAct) : List (Option String) :=
  acts.filterMap fun
    | .setDone _ log => some log
    | .setAgain _ log => some log
    | _ => none

/-! ## What is in the buffer -/

/-- The lines with a newline after each. -/
def joined (lines : List (List UInt8)) : List UInt8 := lines.flatMap (· ++ [newline])

lemma joined_append (lines lines' : List (List UInt8)) :
    joined (lines ++ lines') = joined lines ++ joined lines' := List.flatMap_append

lemma joined_singleton (line : List UInt8) : joined [line] = line ++ [newline] :=
  List.append_nil _

/-- The buffer has all lines; or lines that fill it, so that the others are dropped; or a part of
the last line, with a newline after it. -/
inductive Collected (m : ℕ) (lines : List (List UInt8)) (buffer : List UInt8) : Prop
  | all (hfits : (joined lines).length ≤ m) (hbuffer : buffer = joined lines)
  | filled {before after : List (List UInt8)} (hlines : lines = before ++ after)
      (hfull : (joined before).length = m) (hbuffer : buffer = joined before)
  | cut (hle : m ≤ (joined lines).length) (hbuffer : buffer = (joined lines).take m ++ [newline])

lemma Collected.onPipeLine {b : LogBridge} {lines : List (List UInt8)} {maxLog : ℕ}
    (hmax : 0 < maxLog) (hsize : b.maxBufferSize = maxLog)
    (h : Collected (maxLog - 1) lines b.buffer) (line : List UInt8) :
    Collected (maxLog - 1) (lines ++ [line]) (b.onPipeLine line).buffer := by
  subst hsize
  have hjoined : joined (lines ++ [line]) = joined lines ++ (line ++ [newline]) := by
    rw [joined_append, joined_singleton]
  have hcollect : (b.onPipeLine line).buffer = b.collect line := rfl
  rw [hcollect, LogBridge.collect]
  cases h with
  | all hfits hbuffer =>
      by_cases hfull : b.buffer.length < b.maxBufferSize - 1
      · rw [if_pos ⟨hmax, hfull⟩]
        by_cases hline : b.buffer.length + line.length < b.maxBufferSize - 1
        · refine .all ?_ ?_
          · rw [hjoined, List.length_append, List.length_append, List.length_singleton, ← hbuffer]
            omega
          · rw [List.take_of_length_le (by omega), hjoined, hbuffer, List.append_assoc]
        · refine .cut ?_ ?_
          · rw [hjoined, List.length_append, List.length_append, ← hbuffer]
            omega
          · have htake : (joined lines ++ (line ++ [newline])).take (b.maxBufferSize - 1) =
                b.buffer ++ line.take (b.maxBufferSize - 1 - b.buffer.length) := by
              rw [← hbuffer, List.take_append, List.take_of_length_le hfull.le,
                List.take_append_of_le_length (by omega)]
            rw [hjoined, htake, Nat.min_eq_right (by omega)]
      · have hlength : b.buffer.length = b.maxBufferSize - 1 := by
          rw [hbuffer] at hfull ⊢
          omega
        rw [if_neg fun h => hfull h.2]
        exact .filled rfl (hbuffer ▸ hlength) hbuffer
  | filled hlines hlength hbuffer =>
      have hnot : ¬ (0 < b.maxBufferSize ∧ b.buffer.length < b.maxBufferSize - 1) := by
        rw [hbuffer, hlength]
        omega
      rw [if_neg hnot]
      exact .filled (by rw [hlines, List.append_assoc]) hlength hbuffer
  | cut hle hbuffer =>
      have hnot : ¬ (0 < b.maxBufferSize ∧ b.buffer.length < b.maxBufferSize - 1) := by
        rw [hbuffer, List.length_append, List.length_take_of_le hle, List.length_singleton]
        omega
      rw [if_neg hnot]
      refine .cut ?_ ?_
      · rw [hjoined, List.length_append]
        omega
      · rw [hbuffer, hjoined, List.take_append_of_le_length hle]

/-- **What a bridge has collected.** -/
theorem collected_ofLines (planName jobId : String) (enableJournal : Bool) {maxLog : ℕ}
    (hmax : 0 < maxLog) (lines : List (List UInt8)) :
    Collected (maxLog - 1) lines
        (LogBridge.ofLines planName jobId enableJournal maxLog lines).buffer ∧
      (LogBridge.ofLines planName jobId enableJournal maxLog lines).maxBufferSize = maxLog := by
  induction lines using List.reverseRecOn with
  | nil =>
      refine ⟨.all (Nat.zero_le _) ?_, ?_⟩
      · rw [LogBridge.ofLines, if_pos hmax]
        rfl
      · rw [LogBridge.ofLines, if_pos hmax]
        rfl
  | append_singleton lines line ih =>
      obtain ⟨hcollected, hsize⟩ := ih
      have hlast : LogBridge.ofLines planName jobId enableJournal maxLog (lines ++ [line]) =
          (LogBridge.ofLines planName jobId enableJournal maxLog lines).onPipeLine line :=
        List.foldl_concat ..
      rw [hlast]
      exact ⟨hcollected.onPipeLine hmax hsize line, hsize⟩

lemma Collected.length_le {m : ℕ} {lines : List (List UInt8)} {buffer : List UInt8}
    (h : Collected m lines buffer) : buffer.length ≤ m + 1 := by
  cases h with
  | all hfits hbuffer =>
      rw [hbuffer]
      omega
  | filled _ hfull hbuffer =>
      rw [hbuffer]
      omega
  | cut hle hbuffer =>
      rw [hbuffer, List.length_append, List.length_take_of_le hle, List.length_singleton]

/-- Apart from a newline at the end, the buffer is the beginning of the lines. -/
lemma Collected.exists_prefix {m : ℕ} {lines : List (List UInt8)} {buffer : List UInt8}
    (h : Collected m lines buffer) :
    ∃ p added, buffer = p ++ added ∧ p <+: joined lines ∧ (added = [] ∨ added = [newline]) := by
  cases h with
  | all _ hbuffer =>
      exact ⟨joined lines, [], by rw [hbuffer, List.append_nil], List.prefix_rfl, .inl rfl⟩
  | @filled before after hlines _ hbuffer =>
      refine ⟨joined before, [], by rw [hbuffer, List.append_nil], ?_, .inl rfl⟩
      rw [hlines, joined_append]
      exact List.prefix_append _ _
  | cut _ hbuffer => exact ⟨_, [newline], hbuffer, List.take_prefix _ _, .inr rfl⟩

/-! ## What is written to the job -/

/-- `ValidateUTF8`: it accepts what is valid and has no null byte; and it rejects a character that
is cut off. -/
structure ValidatesUtf8 (validateUTF8 : List UInt8 → Option String) : Prop where
  accepts : ∀ text, 0 ∉ utf8 text → validateUTF8 (utf8 text) = some (String.ofList text)
  rejects : ∀ before c n rest, 0 < n → n < (String.utf8EncodeChar c).length → IsBoundary rest 0 →
    validateUTF8 (utf8 before ++ (String.utf8EncodeChar c).take n ++ rest) = none

/-- A text that can be the log of these lines. -/
structure IsLogOf (maxLog : ℕ) (lines : List (List UInt8)) (log : List UInt8) : Prop where
  length_le : log.length ≤ maxLog
  isUtf8 : IsUtf8 log
  exists_prefix : ∃ p added, log = p ++ added ∧ p <+: joined lines ∧
    (added = [] ∨ added = [newline])

lemma newline_eq : [newline] = utf8 ['\n'] := by decide

/-- Lines that are valid UTF-8 without null bytes. -/
def ValidLines (lines : List (List UInt8)) : Prop := ∀ line ∈ lines, IsUtf8 line ∧ 0 ∉ line

lemma ValidLines.isUtf8_joined {lines : List (List UInt8)} (h : ValidLines lines) :
    IsUtf8 (joined lines) := by
  induction lines with
  | nil => exact ⟨[], rfl⟩
  | cons line lines ih =>
      obtain ⟨hline, hlines⟩ := List.forall_mem_cons.mp h
      exact (hline.1.append ⟨['\n'], newline_eq.symm⟩).append (ih hlines)

lemma ValidLines.zero_notMem_joined {lines : List (List UInt8)} (h : ValidLines lines) :
    0 ∉ joined lines := by
  intro hzero
  obtain ⟨line, hline, hmem⟩ := List.mem_flatMap.mp hzero
  rcases List.mem_append.mp hmem with hmem | hmem
  · exact (h line hline).2 hmem
  · rw [List.mem_singleton] at hmem
    exact absurd hmem (by decide)

/-- **Where the buffer is valid**: exactly if the limit is between two characters. -/
lemma Collected.isUtf8_or_cut {m : ℕ} {lines : List (List UInt8)} {buffer : List UInt8}
    (h : Collected m lines buffer) (hlines : ValidLines lines) :
    (IsBoundary (joined lines) m ∧ IsUtf8 buffer) ∨
      (¬ IsBoundary (joined lines) m ∧ ∃ before c n, 0 < n ∧
        n < (String.utf8EncodeChar c).length ∧
        buffer = utf8 before ++ (String.utf8EncodeChar c).take n ++ [newline]) := by
  cases h with
  | all hfits hbuffer =>
      refine .inl ⟨?_, hbuffer ▸ hlines.isUtf8_joined⟩
      intro b hb
      rw [List.getElem?_eq_none hfits] at hb
      cases hb
  | @filled before after hsplit hfull hbuffer =>
      subst hsplit
      have hbefore : ValidLines before := fun l hl => hlines l (List.mem_append_left _ hl)
      have hafter : ValidLines after := fun l hl => hlines l (List.mem_append_right _ hl)
      obtain ⟨text, htext⟩ := hafter.isUtf8_joined
      refine .inl ⟨?_, hbuffer ▸ hbefore.isUtf8_joined⟩
      rw [joined_append, IsBoundary, ← hfull, List.getElem?_append_right le_rfl, Nat.sub_self,
        ← htext]
      exact isBoundary_zero text
  | cut _ hbuffer =>
      obtain ⟨text, htext⟩ := hlines.isUtf8_joined
      rw [← htext] at hbuffer ⊢
      rcases utf8_take text m with ⟨hboundary, before, _, heq⟩ |
        ⟨hinside, before, c, n, hpos, hn, heq⟩
      · exact .inl ⟨hboundary, before ++ ['\n'], by
          rw [utf8_append, hbuffer, heq, newline_eq]⟩
      · exact .inr ⟨hinside, before, c, n, hpos, hn, by rw [hbuffer, heq]⟩

/-- The buffer has no null bytes, so all of it is the log. -/
lemma Collected.zero_notMem {m : ℕ} {lines : List (List UInt8)} {buffer : List UInt8}
    (h : Collected m lines buffer) (hlines : ValidLines lines) : 0 ∉ buffer := by
  obtain ⟨p, added, hbuffer, hp, hadded⟩ := h.exists_prefix
  intro hzero
  rw [hbuffer] at hzero
  rcases List.mem_append.mp hzero with hmem | hmem
  · exact hlines.zero_notMem_joined (hp.subset hmem)
  · rcases hadded with rfl | rfl
    · cases hmem
    · rw [List.mem_singleton] at hmem
      exact absurd hmem (by decide)

/-- The operator writes one log to the job: a text that `ValidateUTF8` has accepted, and that can be
the log of the lines. -/
def StoresLog (env : OperatorEnv) (maxLog : ℕ) (lines : List (List UInt8)) (b : LogBridge)
    (acts : List OperatorAct) : Prop :=
  ∃ text : String, writtenLogs acts = [some text] ∧ IsLogOf maxLog lines (utf8 text.toList) ∧
    b.getBuffer.bind env.validateUTF8 = some text

lemma writtenLogs_onChildProcessExit (env : OperatorEnv) (now : ℤ) (o : ActiveOperator) (status : ℤ)
    (datagrams : List (List Char × Bool)) (buffer : Option (List UInt8)) (cpuUsage : Option ℤ) :
    writtenLogs (o.onChildProcessExit env now status datagrams buffer cpuUsage) =
      [buffer.map fun bytes => (env.validateUTF8 bytes).getD "Invalid UTF-8 output"] := by
  have hgoes := goes_receiveAll env now { o with exited := true } datagrams
  have hquiet : writtenLogs ({ o with exited := true }.receiveAll env now datagrams).2 = [] := by
    refine List.filterMap_eq_nil_iff.mpr fun a ha => ?_
    have hconcludes := (OperatorAct.isQuiet_iff.mp (hgoes.quiet a ha)).1
    cases a <;> first | rfl | cases hconcludes
  have husage : writtenLogs (cpuUsage.map OperatorAct.addCpuUsage).toList = [] := by
    cases cpuUsage <;> rfl
  simp only [ActiveOperator.onChildProcessExit, ActiveOperator.conclude]
  rw [writtenLogs] at hquiet husage ⊢
  rw [List.cons_append, List.cons_append, List.filterMap_cons_none rfl, List.filterMap_append,
    List.filterMap_append, hquiet, husage]
  split <;> rfl

/-- **A valid log is stored, only shortened, exactly if the limit is between two characters.** -/
theorem log_stored_iff {env : OperatorEnv} (hvalid : ValidatesUtf8 env.validateUTF8) {maxLog : ℕ}
    (hmax : 0 < maxLog) {lines : List (List UInt8)} (hlines : ValidLines lines)
    (planName jobId : String) (enableJournal : Bool) (o : ActiveOperator) (now status : ℤ)
    (datagrams : List (List Char × Bool)) (cpuUsage : Option ℤ) :
    StoresLog env maxLog lines (.ofLines planName jobId enableJournal maxLog lines)
        (o.onChildProcessExit env now status datagrams
          (LogBridge.ofLines planName jobId enableJournal maxLog lines).getBuffer cpuUsage) ↔
      IsBoundary (joined lines) (maxLog - 1) := by
  obtain ⟨hcollected, hsize⟩ :=
    collected_ofLines planName jobId enableJournal hmax lines
  set b := LogBridge.ofLines planName jobId enableJournal maxLog lines
  have hbuffer : b.getBuffer = some b.buffer := by
    have hzero := hcollected.zero_notMem hlines
    have hall : b.buffer.takeWhile (· ≠ 0) = b.buffer :=
      List.takeWhile_eq_self_iff.mpr fun c hc => by
        simpa using fun h : c = 0 => hzero (h ▸ hc)
    rw [LogBridge.getBuffer, hsize, if_pos hmax, hall]
  rw [StoresLog, writtenLogs_onChildProcessExit, hbuffer, Option.map_some, Option.bind_some]
  rcases hcollected.isUtf8_or_cut hlines with
    ⟨hboundary, text, htext⟩ | ⟨hinside, before, c, n, hpos, hn, hcut⟩
  · refine iff_of_true ⟨String.ofList text, ?_, ?_, ?_⟩ hboundary
    · rw [← htext, hvalid.accepts text (htext ▸ hcollected.zero_notMem hlines), Option.getD_some]
    · rw [String.toList_ofList, htext]
      refine ⟨hcollected.length_le.trans ?_, ⟨text, htext⟩, hcollected.exists_prefix⟩
      omega
    · rw [← htext, hvalid.accepts text (htext ▸ hcollected.zero_notMem hlines)]
  · refine iff_of_false ?_ hinside
    rintro ⟨text, -, -, haccepted⟩
    -- the newline does not continue the character
    have hnewline : IsBoundary [newline] 0 := by decide
    rw [hcut, hvalid.rejects before c n [newline] hpos hn hnewline] at haccepted
    cases haccepted

/-- `ValidateUTF8` that accepts what is valid. -/
def strictUtf8 (bytes : List UInt8) : Option String := String.fromUTF8? bytes.toByteArray

lemma strictUtf8_utf8 (text : List Char) : strictUtf8 (utf8 text) = some (String.ofList text) := by
  have hbytes : (utf8 text).toByteArray = text.utf8Encode := rfl
  rw [strictUtf8, String.fromUTF8?, hbytes, dif_pos ByteArray.isValidUTF8_utf8Encode]
  exact congrArg some (String.toByteArray_inj.mp String.toByteArray_ofList.symm)

lemma strictUtf8_eq_none {bytes : List UInt8} (h : ¬ IsUtf8 bytes) : strictUtf8 bytes = none := by
  rw [strictUtf8, String.fromUTF8?, dif_neg]
  rintro ⟨text, htext⟩
  exact h ⟨text, (List.toByteArray_inj.mp htext).symm⟩

lemma strictUtf8_validates : ValidatesUtf8 strictUtf8 where
  accepts text _ := strictUtf8_utf8 text
  rejects _ _ _ _ hpos hn hrest := strictUtf8_eq_none (not_isUtf8_of_cut hpos hn hrest)

/-- A workplace with this validation. -/
def strictWorkplace : OperatorEnv := { plainWorkplace with validateUTF8 := strictUtf8 }

lemma validLines_accent : ValidLines [[195, 169]] := by
  refine List.forall_mem_singleton.mpr ⟨⟨['é'], by decide⟩, by decide⟩

/-- An accented letter is stored if there is room for it. -/
theorem accent_is_stored :
    StoresLog strictWorkplace 10 [[195, 169]] (.ofLines "p" "1" false 10 [[195, 169]])
      ((ActiveOperator.create 0 (controlledJob 1) controlledPlan).onChildProcessExit strictWorkplace
        0 0 [] (LogBridge.ofLines "p" "1" false 10 [[195, 169]]).getBuffer none) :=
  (@log_stored_iff strictWorkplace strictUtf8_validates 10 (by decide) _ validLines_accent
    "p" "1" false _ 0 0 [] none).mpr (by decide)

/-- If the limit is inside of it, the whole log is replaced. -/
theorem cut_accent_is_replaced :
    ValidatesUtf8 strictWorkplace.validateUTF8 ∧ ValidLines [[195, 169]] ∧
      writtenLogs
          ((ActiveOperator.create 0 (controlledJob 1) controlledPlan).onChildProcessExit
            strictWorkplace 0 0 []
            (LogBridge.ofLines "p" "1" false 2 [[195, 169]]).getBuffer none) =
        [some "Invalid UTF-8 output"] ∧
      ¬ StoresLog strictWorkplace 2 [[195, 169]] (.ofLines "p" "1" false 2 [[195, 169]])
        ((ActiveOperator.create 0 (controlledJob 1) controlledPlan).onChildProcessExit
          strictWorkplace 0 0 []
          (LogBridge.ofLines "p" "1" false 2 [[195, 169]]).getBuffer none) := by
  have hcut : strictUtf8 [195, 10] = none :=
    strictUtf8_validates.rejects [] 'é' 1 [10] (by decide) (by decide) (by decide)
  have hbuffer : (LogBridge.ofLines "p" "1" false 2 [[195, 169]]).getBuffer = some [195, 10] := by
    decide
  refine ⟨strictUtf8_validates, validLines_accent, ?_, ?_⟩
  · rw [writtenLogs_onChildProcessExit, hbuffer, Option.map_some]
    exact congrArg (fun log => [some (log.getD "Invalid UTF-8 output")]) hcut
  · rintro ⟨text, -, -, haccepted⟩
    rw [hbuffer, Option.bind_some] at haccepted
    exact absurd (hcut.symm.trans haccepted) (by simp)

end Workshop.Jobs

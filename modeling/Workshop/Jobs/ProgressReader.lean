import Mathlib.Data.List.DropRight
import Workshop.Lib.CString
import Workshop.Lib.Chunks
import Workshop.Lib.Run

/-!
# The progress reader

`ProgressReader` (`src/workshop/ProgressReader.cxx`): a job without a control channel writes its
progress to a pipe, as decimal numbers.  The digits are collected in a buffer; a byte that is no
digit, or for which there is no room, makes a number of them.  Each call reads up to 512 bytes and
passes the last of its numbers to the callback, if it is new and not zero.

The buffer holds 63 digits and the 64th one is dropped, so that a long run of digits is read in
several parts; and the number is cut to 32 bits.  What is passed to the callback is the value of a
whole run of digits exactly if no part of a run looks like a progress value that no whole run has
(`progress_faithful_iff`).

The candidate does not survive a call, and a zero replaces it.  So the last value depends on how the
stream was cut in reads, unless a value lasts (`progress_independent_iff`).
-/

namespace Workshop.Jobs

open Workshop.Lib

/-! ## The reader -/

/-- `ProgressReader`. -/
structure ProgressReader where
  stdoutBuffer : List Char := []
  lastProgress : ℕ := 0
  deriving DecidableEq, Repr

/-- The size of the buffer for `read`. -/
def maxRead : ℕ := 512

/-- `stdout_buffer.max_size() - 1`. -/
def maxDigits : ℕ := 63

/-- `(unsigned)strtoul(stdout_buffer.begin(), nullptr, 10)`. -/
def bufferValue (buffer : List Char) : ℕ := ((strtoul 10 buffer).elim 0 Prod.fst) % 2 ^ 32

/-- One turn of the loop of `PipeReady`, for `stdout_buffer` and `new_progress`. -/
def readByte (s : List Char × ℕ) (ch : Char) : List Char × ℕ :=
  if isDigitIn 10 ch && decide (s.1.length < maxDigits) then (s.1 ++ [ch], s.2)
  else ([], if s.1 ≠ [] ∧ bufferValue s.1 ≤ 100 then bufferValue s.1 else s.2)

namespace ProgressReader

/-- `PipeReady`, for the bytes that were read: the value passed to the callback, if there is one. -/
def pipeReady (r : ProgressReader) (bytes : List Char) : ProgressReader × Option ℕ :=
  let (stdoutBuffer, newProgress) := bytes.foldl readByte (r.stdoutBuffer, 0)
  if 0 < newProgress ∧ newProgress ≠ r.lastProgress then
    ({ stdoutBuffer, lastProgress := newProgress }, some newProgress)
  else ({ r with stdoutBuffer }, none)

/-- All reads, with the values passed to the callback. -/
def readAll (r : ProgressReader) : List (List Char) → ProgressReader × List ℕ
  | [] => (r, [])
  | bytes :: reads =>
    let (r, passed) := r.pipeReady bytes
    let (r, values) := r.readAll reads
    (r, passed.toList ++ values)

end ProgressReader

/-! ## Runs of digits -/

/-- The digits at the end of what was read so far. -/
def digitRun (before : List Char) : List Char := before.rtakeWhile (isDigitIn 10)

/-- The part of a run that is in the buffer: after each 63 digits one is dropped. -/
def partOf (run : List Char) : List Char := run.drop (run.length / 64 * 64)

/-- The number a part of a run is read as: the largest 64 bit number if it is larger, and of that 32
bits. -/
def partValue (part : List Char) : ℕ := min (digitsValue 10 part) (2 ^ 64 - 1) % 2 ^ 32

/-- **The progress a byte completes**: if there are digits in front of it, and it is no digit or the
64th one, the value of this part of the run, up to 100. -/
def reading (before : List Char) (ch : Char) : Option ℕ :=
  let part := partOf (digitRun before)
  if part ≠ [] ∧ (isDigitIn 10 ch = false ∨ part.length = 63) ∧ partValue part ≤ 100 then
    some (partValue part)
  else none

/-- The readings of all bytes. -/
def readingsAfter (before : List Char) : List Char → List (Option ℕ)
  | [] => []
  | ch :: rest => reading before ch :: readingsAfter (before ++ [ch]) rest

/-- The readings of a stream. -/
def readings (stream : List Char) : List (Option ℕ) := readingsAfter [] stream

/-- **A whole run of digits** that is followed by another byte, and its value. -/
def IsRunValue (stream : List Char) (value : ℕ) : Prop :=
  ∃ pre digits ch post, stream = pre ++ (digits ++ ch :: post) ∧ digits ≠ [] ∧
    (∀ d ∈ digits, isDigitIn 10 d = true) ∧ (∀ d ∈ pre.getLast?, isDigitIn 10 d = false) ∧
    isDigitIn 10 ch = false ∧ digitsValue 10 digits = value

section Parts

variable {before run part stream : List Char} {ch : Char}

lemma digitRun_append (before : List Char) (ch : Char) :
    digitRun (before ++ [ch]) = if isDigitIn 10 ch then digitRun before ++ [ch] else [] :=
  List.rtakeWhile_concat ..

lemma isDigitIn_of_mem_digitRun {c : Char} (hc : c ∈ digitRun before) : isDigitIn 10 c = true :=
  List.mem_rtakeWhile_imp hc

lemma length_partOf (run : List Char) : (partOf run).length = run.length % 64 := by
  rw [partOf, List.length_drop]
  omega

lemma isDigitIn_of_mem_partOf {c : Char} (hc : c ∈ partOf (digitRun before)) :
    isDigitIn 10 c = true :=
  isDigitIn_of_mem_digitRun (List.mem_of_mem_drop hc)

/-- One more digit, if there is room. -/
lemma partOf_append (run : List Char) (ch : Char) :
    partOf (run ++ [ch]) = if (partOf run).length < maxDigits then partOf run ++ [ch] else [] := by
  rw [length_partOf]
  unfold partOf
  rw [List.length_append, List.length_singleton]
  split
  · rename_i hlt
    have hlt : run.length % 64 < 63 := hlt
    rw [show (run.length + 1) / 64 * 64 = run.length / 64 * 64 by omega]
    exact List.drop_append_of_le_length (by omega)
  · rename_i hge
    have hge : ¬ run.length % 64 < 63 := hge
    refine List.drop_eq_nil_of_le ?_
    rw [List.length_append, List.length_singleton]
    omega

lemma bufferValue_partOf (hne : partOf (digitRun before) ≠ []) :
    bufferValue (partOf (digitRun before)) = partValue (partOf (digitRun before)) := by
  set n := Numeral.plain (partOf (digitRun before)) (fun _ hc => isDigitIn_of_mem_partOf hc) hne
  have hread : strtoul 10 (partOf (digitRun before)) = some (n.value, []) :=
    strtoul_eq_some_iff.mpr ⟨n, rfl, (List.append_nil _).symm, by simp [EndsNumber]⟩
  have hvalue : n.value = min (digitsValue 10 (partOf (digitRun before))) (2 ^ 64 - 1) := by
    show (if 2 ^ 64 ≤ digitsValue 10 (partOf (digitRun before)) then 2 ^ 64 - 1
      else digitsValue 10 (partOf (digitRun before))) = _
    split <;> omega
  rw [bufferValue, hread, Option.elim_some, hvalue, partValue]

/-- **One byte**: the buffer has the part of the run, and the candidate is what the byte completes.
-/
lemma readByte_eq (before : List Char) (v : ℕ) (ch : Char) :
    readByte (partOf (digitRun before), v) ch =
      (partOf (digitRun (before ++ [ch])), (reading before ch).getD v) := by
  have hle : (partOf (digitRun before)).length ≤ 63 := by
    rw [length_partOf]
    omega
  unfold readByte reading
  rw [digitRun_append]
  cases hdigit : isDigitIn 10 ch with
  | false =>
      by_cases hne : partOf (digitRun before) = []
      · have hempty : partOf [] = [] := rfl
        simp [hne, hempty]
      · simp only [Bool.false_and, Bool.false_eq_true, if_false, bufferValue_partOf hne, hne, ne_eq,
          not_false_eq_true, true_and, true_or]
        split <;> rfl
  | true =>
      rw [if_pos rfl, partOf_append]
      by_cases hlt : (partOf (digitRun before)).length < maxDigits
      · have hnot : ¬ (partOf (digitRun before)).length = 63 := Nat.ne_of_lt hlt
        simp [hlt, hnot]
      · have hfull : (partOf (digitRun before)).length = 63 :=
          Nat.le_antisymm hle (Nat.le_of_not_lt hlt)
        have hne : partOf (digitRun before) ≠ [] := by
          intro hnil
          rw [hnil] at hfull
          cases hfull
        have hroom : ¬ 63 < maxDigits := by decide
        simp only [hfull, hroom, decide_false, Bool.and_false, Bool.false_eq_true, if_false,
          bufferValue_partOf hne, hne, ne_eq, not_false_eq_true, true_and, or_true]
        split <;> rfl

end Parts

section Reads

variable {before : List Char} {r : ProgressReader} {reads : List (List Char)}

lemma foldl_readByte (before : List Char) (v : ℕ) (bytes : List Char) :
    bytes.foldl readByte (partOf (digitRun before), v) =
      (partOf (digitRun (before ++ bytes)), lastReportFrom v (readingsAfter before bytes)) := by
  induction bytes generalizing before v with
  | nil =>
      rw [List.append_nil]
      rfl
  | cons ch bytes ih =>
      rw [List.foldl_cons, readByte_eq, ih, List.append_assoc, List.singleton_append]
      rfl

lemma readingsAfter_append (before bytes bytes' : List Char) :
    readingsAfter before (bytes ++ bytes') =
      readingsAfter before bytes ++ readingsAfter (before ++ bytes) bytes' := by
  induction bytes generalizing before with
  | nil =>
      rw [List.append_nil]
      rfl
  | cons ch bytes ih =>
      rw [List.cons_append, readingsAfter, ih, List.append_assoc, List.singleton_append]
      rfl

lemma length_readingsAfter (before bytes : List Char) :
    (readingsAfter before bytes).length = bytes.length := by
  induction bytes generalizing before with
  | nil => rfl
  | cons ch bytes ih => rw [readingsAfter, List.length_cons, List.length_cons, ih]

/-- The readings of each read. -/
def readingsOf (before : List Char) : List (List Char) → List (List (Option ℕ))
  | [] => []
  | bytes :: reads => readingsAfter before bytes :: readingsOf (before ++ bytes) reads

lemma flatten_readingsOf (before : List Char) (reads : List (List Char)) :
    (readingsOf before reads).flatten = readingsAfter before reads.flatten := by
  induction reads generalizing before with
  | nil => rfl
  | cons bytes reads ih =>
      rw [readingsOf, List.flatten_cons, List.flatten_cons, ih, readingsAfter_append]

lemma map_length_readingsOf (before : List Char) (reads : List (List Char)) :
    (readingsOf before reads).map List.length = reads.map List.length := by
  induction reads generalizing before with
  | nil => rfl
  | cons bytes reads ih => rw [readingsOf, List.map_cons, List.map_cons, ih, length_readingsAfter]

/-- **One read**: its last reading is passed, unless it is zero or not new. -/
lemma pipeReady_eq (hbuffer : r.stdoutBuffer = partOf (digitRun before)) (bytes : List Char) :
    (r.pipeReady bytes).1.stdoutBuffer = partOf (digitRun (before ++ bytes)) ∧
      (r.pipeReady bytes).1.lastProgress = keepReport r.lastProgress (readingsAfter before bytes) ∧
      (r.pipeReady bytes).2 =
        if keepReport r.lastProgress (readingsAfter before bytes) = r.lastProgress then none
        else some (keepReport r.lastProgress (readingsAfter before bytes)) := by
  unfold ProgressReader.pipeReady
  rw [hbuffer, foldl_readByte]
  by_cases hzero : lastReportFrom 0 (readingsAfter before bytes) = 0
  · simp [keepReport, lastReport, hzero]
  · have hpos := Nat.pos_of_ne_zero hzero
    have hkeep : keepReport r.lastProgress (readingsAfter before bytes) =
        lastReportFrom 0 (readingsAfter before bytes) := if_neg hzero
    rw [hkeep]
    by_cases hlast : lastReportFrom 0 (readingsAfter before bytes) = r.lastProgress
    · simp [hlast]
    · simp [hlast, hpos]

lemma readAll_cons (r : ProgressReader) (bytes : List Char) (reads : List (List Char)) :
    r.readAll (bytes :: reads) =
      (((r.pipeReady bytes).1.readAll reads).1,
        (r.pipeReady bytes).2.toList ++ ((r.pipeReady bytes).1.readAll reads).2) := rfl

lemma readAll_lastProgress (hbuffer : r.stdoutBuffer = partOf (digitRun before))
    (reads : List (List Char)) :
    (r.readAll reads).1.lastProgress = finalReport r.lastProgress (readingsOf before reads) := by
  induction reads generalizing r before with
  | nil => rfl
  | cons bytes reads ih =>
      obtain ⟨hbuffer', hlast, -⟩ := pipeReady_eq hbuffer bytes
      rw [readAll_cons, ih hbuffer', hlast]
      rfl

/-- The last value that was passed is what the reader keeps. -/
lemma readAll_getLast (hbuffer : r.stdoutBuffer = partOf (digitRun before))
    (reads : List (List Char)) :
    (r.readAll reads).2.getLast?.getD r.lastProgress = (r.readAll reads).1.lastProgress := by
  induction reads generalizing r before with
  | nil => rfl
  | cons bytes reads ih =>
      obtain ⟨hbuffer', hlast, hpassed⟩ := pipeReady_eq hbuffer bytes
      rw [readAll_cons, ← ih hbuffer', List.getLast?_append, hpassed, hlast]
      cases ((r.pipeReady bytes).1.readAll reads).2.getLast? with
      | some v => rfl
      | none =>
          split
          · rename_i hkeep
            exact hkeep.symm
          · rfl

/-- What is passed was read, and is not zero. -/
lemma mem_readAll {v : ℕ} (hbuffer : r.stdoutBuffer = partOf (digitRun before))
    (hv : v ∈ (r.readAll reads).2) : some v ∈ readingsAfter before reads.flatten ∧ v ≠ 0 := by
  induction reads generalizing r before with
  | nil => simp [ProgressReader.readAll] at hv
  | cons bytes reads ih =>
      obtain ⟨hbuffer', -, hpassed⟩ := pipeReady_eq hbuffer bytes
      rw [readAll_cons, List.mem_append] at hv
      rw [List.flatten_cons, readingsAfter_append, List.mem_append]
      rcases hv with hv | hv
      · rw [hpassed] at hv
        split at hv
        · simp at hv
        · rename_i hnew
          obtain rfl : v = _ := by simpa using hv
          unfold keepReport at hnew ⊢
          split at hnew
          · exact absurd rfl hnew
          · rename_i hne
            rw [if_neg hne]
            refine ⟨.inl ?_, hne⟩
            exact (lastReportFrom_mem 0 _).resolve_left hne
      · obtain ⟨hmem, hne⟩ := ih hbuffer' hv
        exact ⟨.inr hmem, hne⟩

/-- If each byte is read alone, everything that was read is passed, unless it was passed before. -/
lemma mem_readAll_singletons {v : ℕ} {bytes : List Char} (hv : v ≠ 0)
    (hbuffer : r.stdoutBuffer = partOf (digitRun before))
    (hmem : some v ∈ readingsAfter before bytes) :
    v ∈ (r.readAll (bytes.map fun ch => [ch])).2 ∨ v = r.lastProgress := by
  induction bytes generalizing r before with
  | nil => simp [readingsAfter] at hmem
  | cons ch bytes ih =>
      obtain ⟨hbuffer', hlast, hpassed⟩ := pipeReady_eq hbuffer [ch]
      rw [List.map_cons, readAll_cons, List.mem_append]
      -- a value that is kept was passed now or before
      have hkept : v = keepReport r.lastProgress (readingsAfter before [ch]) →
          v ∈ (r.pipeReady [ch]).2.toList ∨ v = r.lastProgress := by
        rintro rfl
        rw [hpassed]
        split
        · rename_i hsame
          exact .inr hsame
        · exact .inl (by simp)
      rcases List.mem_cons.mp hmem with hfirst | hrest
      · have hkeep : keepReport r.lastProgress (readingsAfter before [ch]) = v := by
          have hreading : readingsAfter before [ch] = [some v] := by
            rw [hfirst]
            rfl
          rw [hreading]
          exact if_neg hv
        exact (hkept hkeep.symm).imp_left .inl
      · rcases ih hbuffer' hrest with hpassed' | hsame
        · exact .inl (.inr hpassed')
        · exact (hkept (hsame.trans hlast)).imp_left .inl

lemma le_of_mem_readingsAfter {v : ℕ} {bytes : List Char}
    (hmem : some v ∈ readingsAfter before bytes) : v ≤ 100 := by
  induction bytes generalizing before with
  | nil => simp [readingsAfter] at hmem
  | cons ch bytes ih =>
      rcases List.mem_cons.mp hmem with hfirst | hrest
      · obtain ⟨⟨-, -, hle⟩, heq⟩ := of_guard hfirst.symm
        exact heq ▸ hle
      · exact ih hrest

lemma isSplitting_readingsOf {n : ℕ} {stream : List Char} (h : IsSplitting n stream reads) :
    IsSplitting n (readings stream) (readingsOf [] reads) := by
  have hlengths := map_length_readingsOf [] reads
  have hmem : ∀ c ∈ readingsOf [] reads, ∃ bytes ∈ reads, bytes.length = c.length := by
    intro c hc
    have hlength := List.mem_map_of_mem (f := List.length) hc
    rw [hlengths] at hlength
    exact List.mem_map.mp hlength
  refine ⟨?_, fun c hc hnil => ?_, fun c hc => ?_⟩
  · rw [flatten_readingsOf, h.flatten_eq]
    rfl
  · obtain ⟨bytes, hbytes, hlength⟩ := hmem c hc
    rw [hnil] at hlength
    exact h.ne_nil bytes hbytes (List.eq_nil_of_length_eq_zero hlength)
  · obtain ⟨bytes, hbytes, hlength⟩ := hmem c hc
    exact hlength ▸ h.length_le bytes hbytes

lemma exists_reads {n : ℕ} {stream : List Char} {chunks : List (List (Option ℕ))}
    (h : IsSplitting n (readings stream) chunks) :
    ∃ reads, IsSplitting n stream reads ∧ readingsOf [] reads = chunks := by
  obtain ⟨reads, hreads, hlengths⟩ := h.exists_same (length_readingsAfter [] stream).symm
  refine ⟨reads, hreads, List.eq_iff_flatten_eq.mpr ⟨?_, ?_⟩⟩
  · rw [flatten_readingsOf, hreads.flatten_eq, h.flatten_eq]
    rfl
  · rw [map_length_readingsOf, hlengths]

lemma readAll_finalReport (reads : List (List Char)) :
    (ProgressReader.readAll {} reads).2.getLast?.getD 0 = finalReport 0 (readingsOf [] reads) := by
  have hbuffer : ({} : ProgressReader).stdoutBuffer = partOf (digitRun []) := rfl
  exact (readAll_getLast hbuffer reads).trans (readAll_lastProgress hbuffer reads)

lemma readAll_getLast_eq (reads : List (List Char)) :
    (ProgressReader.readAll {} reads).2.getLast? =
      if finalReport 0 (readingsOf [] reads) = 0 then none
      else some (finalReport 0 (readingsOf [] reads)) := by
  have hbuffer : ({} : ProgressReader).stdoutBuffer = partOf (digitRun []) := rfl
  rw [← readAll_finalReport]
  cases hvalues : (ProgressReader.readAll {} reads).2.getLast? with
  | none => rfl
  | some v =>
      have hne : v ≠ 0 := (mem_readAll hbuffer (List.mem_of_getLast? hvalues)).2
      exact (if_neg hne).symm

end Reads

/-! ## What is passed to the callback -/

/-- The stream has one run of digits only. -/
lemma isRunValue_single {digits : List Char} {ch : Char} {v : ℕ}
    (hdigits : ∀ d ∈ digits, isDigitIn 10 d = true) (h : IsRunValue (digits ++ [ch]) v) :
    digitsValue 10 digits = v := by
  obtain ⟨pre, run, ch', post, heq, -, -, hpre, hch', hvalue⟩ := h
  rcases List.eq_nil_or_concat post with rfl | ⟨post, last, rfl⟩
  · -- the run ends at the last byte, so it starts at the first one
    rw [← List.append_assoc] at heq
    obtain ⟨rfl, -⟩ := List.append_inj' heq rfl
    rcases List.eq_nil_or_concat pre with rfl | ⟨pre, last, rfl⟩
    · exact hvalue
    · have hnot := hpre last (by simp)
      rw [hdigits last (by simp)] at hnot
      cases hnot
  · -- the byte after the run would be a digit
    rw [List.concat_eq_append, ← List.cons_append, ← List.append_assoc, ← List.append_assoc] at heq
    obtain ⟨rfl, -⟩ := List.append_inj' heq rfl
    rw [hdigits ch' (by simp)] at hch'
    cases hch'

/-- **Progress is decoded faithfully**, however the stream is cut in reads, exactly if everything
that looks like progress is the value of a whole run of digits. -/
theorem progress_faithful_iff (stream : List Char) :
    (∀ reads, IsSplitting maxRead stream reads → ∀ v ∈ (ProgressReader.readAll {} reads).2,
        1 ≤ v ∧ v ≤ 100 ∧ IsRunValue stream v) ↔
      ∀ v, some v ∈ readings stream → v ≠ 0 → IsRunValue stream v := by
  have hbuffer : ({} : ProgressReader).stdoutBuffer = partOf (digitRun []) := rfl
  constructor
  · intro hfaithful v hmem hv
    have hpassed := mem_readAll_singletons hv hbuffer hmem
    exact (hfaithful _ (IsSplitting.singletons (by decide) stream) v
      (hpassed.resolve_right hv)).2.2
  · intro hruns reads hsplit v hv
    obtain ⟨hmem, hne⟩ := mem_readAll hbuffer hv
    rw [hsplit.flatten_eq] at hmem
    exact ⟨Nat.pos_of_ne_zero hne, le_of_mem_readingsAfter hmem, hruns v hmem hne⟩

theorem progress_misread :
    IsSplitting maxRead "4294967301\n".toList ["4294967301\n".toList] ∧
      5 ∈ (ProgressReader.readAll {} ["4294967301\n".toList]).2 ∧
      ¬ IsRunValue "4294967301\n".toList 5 := by
  refine ⟨⟨rfl, by decide, by decide⟩, by decide +kernel, fun hrun => ?_⟩
  have hdigits : ∀ d ∈ "4294967301".toList, isDigitIn 10 d = true := List.all_eq_true.mp (by decide)
  have hvalue := isRunValue_single hdigits hrun
  exact absurd hvalue (by decide +kernel)

/-- **The last value does not depend on the reads** exactly if only zeros are read, or there is a
value that lasts: in the next 511 bytes no zero is read, and after it nothing but zeros and the same
value. -/
theorem progress_independent_iff (stream : List Char) :
    (∀ reads reads', IsSplitting maxRead stream reads → IsSplitting maxRead stream reads' →
        (ProgressReader.readAll {} reads).2.getLast? =
          (ProgressReader.readAll {} reads').2.getLast?) ↔
      Independent maxRead (readings stream) := by
  rw [← finalReport_independent_iff (by decide)]
  constructor
  · intro hsame chunks chunks' hsplit hsplit'
    obtain ⟨reads, hreads, rfl⟩ := exists_reads hsplit
    obtain ⟨reads', hreads', rfl⟩ := exists_reads hsplit'
    rw [← readAll_finalReport, ← readAll_finalReport, hsame reads reads' hreads hreads']
  · intro hsame reads reads' hreads hreads'
    rw [readAll_getLast_eq, readAll_getLast_eq,
      hsame _ _ (isSplitting_readingsOf hreads) (isSplitting_readingsOf hreads')]

/-- Two numbers that arrive in one read are lost, but in two reads the first one is passed. -/
theorem progress_depends :
    IsSplitting maxRead "50\n0\n".toList ["50\n0\n".toList] ∧
      IsSplitting maxRead "50\n0\n".toList ["50\n".toList, "0\n".toList] ∧
      (ProgressReader.readAll {} ["50\n0\n".toList]).2.getLast? = none ∧
      (ProgressReader.readAll {} ["50\n".toList, "0\n".toList]).2.getLast? = some 50 := by
  refine ⟨⟨rfl, by decide, by decide⟩, ⟨rfl, by decide, by decide⟩, ?_, ?_⟩ <;> decide +kernel

end Workshop.Jobs

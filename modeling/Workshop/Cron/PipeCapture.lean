import Mathlib.Data.List.Forall2
import Mathlib.Tactic.Common
import Workshop.Lib.Run

/-!
# Captured output and its lines

The output of a cron process is read from a pipe: `CaptureBuffer`, `PipeCaptureBuffer` and
`PipePondAdapter` (`src/CaptureBuffer.cxx`, `src/PipeCaptureBuffer.cxx`, `src/PipePondAdapter.cxx`).
The first `capacity` bytes are kept, the rest is read and discarded; and each line of what is kept
goes to the Pond server.

How the output is cut in reads does not matter.  At the end the lines that were sent are those of
the first `capacity` bytes that are not empty, up to one that contains a null byte, each cut off at
1024 bytes (`messages_eq_pondLines`).
-/

namespace Workshop.Cron

open Workshop.Lib

/-! ## The buffer -/

/-- `CaptureBuffer`, with the bytes it has. -/
structure CaptureBuffer (capacity : ℕ) where
  data : List UInt8 := []
  length_le : data.length ≤ capacity := by simp

namespace CaptureBuffer

variable {capacity : ℕ} (b : CaptureBuffer capacity)

/-- `IsFull`. -/
def isFull : Bool := b.data.length == capacity

/-- The size of `Write`. -/
def room : ℕ := capacity - b.data.length

/-- `Append`, of bytes that are already there. -/
def append (bytes : List UInt8) (h : bytes.length ≤ b.room) : CaptureBuffer capacity where
  data := b.data ++ bytes
  length_le := by
    have hle := b.length_le
    rw [room] at h
    rw [List.length_append]
    omega

/-- How many bytes `PipeCaptureBuffer::OnSocket` asks for. -/
def readSize : ℕ := if b.room = 0 then 4096 else b.room

lemma readSize_eq (h : b.room ≠ 0) : b.readSize = b.room := if_neg h

lemma readSize_pos : 0 < b.readSize := by
  unfold readSize
  split <;> omega

lemma isFull_iff : b.isFull = true ↔ b.data.length = capacity := beq_iff_eq

lemma room_eq_zero : b.room = 0 ↔ b.data.length = capacity := by
  have hle := b.length_le
  rw [room]
  omega

@[simp] lemma append_data (bytes : List UInt8) (h : bytes.length ≤ b.room) :
    (b.append bytes h).data = b.data ++ bytes := rfl

end CaptureBuffer

/-! ## The adapter -/

/-- `Net::Log::Datagram`, without its time stamp; the type is always `JOB`. -/
structure Datagram where
  message : List UInt8
  site : Option (List UInt8)
  deriving DecidableEq, Repr

/-- What the adapter calls: `Datagram::TruncateMessage`, and `Net::Log::Send`, which can throw. -/
structure PondEnv where
  truncateMessage : ℕ → List UInt8 → List UInt8
  truncateMessage_of_le : ∀ n m, m.length ≤ n → truncateMessage n m = m
  truncateMessage_prefix : ∀ n m, truncateMessage n m <+: m
  truncateMessage_length : ∀ n m, (truncateMessage n m).length ≤ n
  sendFails : List Datagram → Datagram → Bool

/-- A Pond socket that does not fail. -/
def PondEnv.SendsAll (env : PondEnv) : Prop := ∀ sent d, env.sendFails sent d = false

/-- `PipePondAdapter`, with what it has handed to `Net::Log::Send`. -/
structure PipePondAdapter (capacity : ℕ) where
  buffer : CaptureBuffer capacity := {}
  /-- The pipe has not been closed. -/
  isOpen : Bool := true
  /-- `pond_socket.IsDefined()`. -/
  pondSocket : Bool
  site : List UInt8
  position : ℕ := 0
  sent : List Datagram := []

/-- `'\n'`. -/
def newline : UInt8 := 10

/-- `HasNullByte`. -/
def hasNullByte (s : List UInt8) : Bool := s.contains 0

/-- The message of a line. -/
def lineDatagram (env : PondEnv) (site line : List UInt8) : Datagram where
  message := env.truncateMessage 1024 line
  site := if site = [] then none else some site

namespace PipePondAdapter

variable {capacity : ℕ} (env : PondEnv) (a : PipePondAdapter capacity)

/-- `OnLine`. -/
def onLine (line : List UInt8) : PipePondAdapter capacity :=
  if line = [] then a
  else if hasNullByte line then { a with pondSocket := false }
  else
    let d := lineDatagram env a.site line
    { a with sent := a.sent ++ [d], pondSocket := !env.sendFails a.sent d }

/-- `position += n`. -/
def advance (n : ℕ) : PipePondAdapter capacity := { a with position := a.position + n }

/-- The loop of `SendLines`, with `r`. -/
def sendLoop (flush : Bool) (a : PipePondAdapter capacity) (r : List UInt8) :
    PipePondAdapter capacity :=
  if r = [] then a
  else
    match r.idxOf? newline with
    | some n =>
      let a := (a.advance (n + 1)).onLine env (r.take n)
      if a.pondSocket then sendLoop flush a (r.drop (n + 1)) else a
    | none =>
      if flush then (a.advance r.length).onLine env r else a
  termination_by r.length
  decreasing_by
    have hpos := List.length_pos_of_ne_nil ‹r ≠ []›
    rw [List.length_drop]
    omega

/-- `SendLines`. -/
def sendLines (flush : Bool) : PipePondAdapter capacity :=
  if a.pondSocket then a.sendLoop env flush (a.buffer.data.drop a.position) else a

/-- `OnAppend`. -/
def onAppend : PipePondAdapter capacity := a.sendLines env false

/-- `OnEnd`. -/
def onEnd : PipePondAdapter capacity := a.sendLines env true

/-- `PipeCaptureBuffer::Close`. -/
def close : PipePondAdapter capacity := { a with isOpen := false }

/-- `PipeCaptureBuffer::OnSocket`, with the bytes that were read: none at the end of the file. -/
def onSocket (bytes : List UInt8) (h : bytes.length ≤ a.buffer.readSize) :
    PipePondAdapter capacity :=
  if hfull : a.buffer.room = 0 then
    -- what is read is discarded
    if bytes = [] then a.close else a
  else if bytes = [] then a.close.onEnd env
  else
    let a := { a with
      buffer := a.buffer.append bytes (a.buffer.readSize_eq hfull ▸ h) }.onAppend env
    if a.buffer.isFull then a.onEnd env else a

end PipePondAdapter

/-! ## Reading a stream -/

/-- An adapter and what it has not read yet of the stream. -/
structure PondStream (capacity : ℕ) where
  adapter : PipePondAdapter capacity
  left : List UInt8

/-- The adapter before the first read. -/
def PondStream.start (capacity : ℕ) (site stream : List UInt8) : PondStream capacity where
  adapter := { pondSocket := true, site }
  left := stream

/-- One call of `OnSocket`, with `n` bytes of the stream: none only at its end. -/
def PondStream.step (env : PondEnv) {capacity : ℕ} (s : PondStream capacity) (n : ℕ) :
    Option (PondStream capacity) :=
  if h : s.adapter.isOpen = true ∧ n ≤ s.left.length ∧ (n = 0 → s.left = []) ∧
      (s.left.take n).length ≤ s.adapter.buffer.readSize then
    some
      { adapter := s.adapter.onSocket env (s.left.take n) h.2.2.2
        left := s.left.drop n }
  else none

/-- **The lines for the Pond server**: those that are not empty, up to one with a null byte. -/
def pondLines (output : List UInt8) : List (List UInt8) :=
  ((output.splitOn newline).filter (· ≠ [])).takeWhile (!hasNullByte ·)

/-- What is sent of a line, and of what comes after it. -/
def pondLine (line : List UInt8) (rest : List (List UInt8)) : List (List UInt8) :=
  if line = [] then rest else if hasNullByte line then [] else line :: rest

lemma filter_takeWhile_cons (line : List UInt8) (rest : List (List UInt8)) :
    ((line :: rest).filter (· ≠ [])).takeWhile (!hasNullByte ·) =
      pondLine line ((rest.filter (· ≠ [])).takeWhile (!hasNullByte ·)) := by
  unfold pondLine
  by_cases hline : line = []
  · rw [if_pos hline, List.filter_cons_of_neg (by simpa using hline)]
  · rw [if_neg hline, List.filter_cons_of_pos (by simpa using hline), List.takeWhile_cons]
    cases hasNullByte line <;> rfl

lemma pondLines_append_cons {line : List UInt8} (hline : newline ∉ line) (rest : List UInt8) :
    pondLines (line ++ newline :: rest) = pondLine line (pondLines rest) := by
  rw [pondLines, List.splitOn_append_cons_self_of_not_mem hline]
  exact filter_takeWhile_cons line _

@[simp] lemma pondLines_nil : pondLines [] = [] := by
  rw [pondLines, List.splitOn_nil]
  exact filter_takeWhile_cons [] []

lemma pondLines_of_not_mem {line : List UInt8} (hline : newline ∉ line) :
    pondLines line = pondLine line [] := by
  rw [pondLines, List.splitOn_eq_singleton hline]
  exact filter_takeWhile_cons line []

/-- What `memchr` finds. -/
lemma eq_append_of_idxOf? {r : List UInt8} {n : ℕ} (h : r.idxOf? newline = some n) :
    r = r.take n ++ newline :: r.drop (n + 1) ∧ newline ∉ r.take n ∧ (r.take n).length = n := by
  obtain ⟨hlt, heq, hbefore⟩ := List.idxOf?_eq_some_iff.mp h
  refine ⟨?_, ?_, List.length_take_of_le (Nat.le_of_lt hlt)⟩
  · rw [← heq, ← List.drop_eq_getElem_cons hlt, List.take_append_drop]
  · intro hmem
    obtain ⟨i, hi, hget⟩ := List.mem_iff_getElem.mp hmem
    rw [List.length_take] at hi
    rw [List.getElem_take] at hget
    exact hbefore i (by omega) hget

namespace PipePondAdapter

variable {capacity : ℕ} {env : PondEnv} {a : PipePondAdapter capacity}

section Frame

variable (env a)

@[simp] lemma advance_buffer (n : ℕ) : (a.advance n).buffer = a.buffer := rfl

@[simp] lemma advance_isOpen (n : ℕ) : (a.advance n).isOpen = a.isOpen := rfl

@[simp] lemma advance_site (n : ℕ) : (a.advance n).site = a.site := rfl

@[simp] lemma advance_sent (n : ℕ) : (a.advance n).sent = a.sent := rfl

@[simp] lemma advance_position (n : ℕ) : (a.advance n).position = a.position + n := rfl

@[simp] lemma onLine_buffer (line : List UInt8) : (a.onLine env line).buffer = a.buffer := by
  unfold onLine
  split_ifs <;> rfl

@[simp] lemma onLine_isOpen (line : List UInt8) : (a.onLine env line).isOpen = a.isOpen := by
  unfold onLine
  split_ifs <;> rfl

@[simp] lemma onLine_site (line : List UInt8) : (a.onLine env line).site = a.site := by
  unfold onLine
  split_ifs <;> rfl

@[simp] lemma onLine_position (line : List UInt8) :
    (a.onLine env line).position = a.position := by
  unfold onLine
  split_ifs <;> rfl

/-- The loop only moves the position, sends, and closes the socket. -/
lemma sendLoop_frame (flush : Bool) (r : List UInt8) :
    (a.sendLoop env flush r).buffer = a.buffer ∧ (a.sendLoop env flush r).isOpen = a.isOpen ∧
      (a.sendLoop env flush r).site = a.site := by
  fun_induction PipePondAdapter.sendLoop env flush a r with
  | case1 a => exact ⟨rfl, rfl, rfl⟩
  | case2 a r _ n _ a' _ ih => simpa [a'] using ih
  | case3 a r _ n _ a' _ => simp [a']
  | case4 a r _ _ _ => simp
  | case5 a r _ _ _ => exact ⟨rfl, rfl, rfl⟩

@[simp] lemma sendLines_buffer (flush : Bool) : (a.sendLines env flush).buffer = a.buffer := by
  unfold sendLines
  split
  · exact (sendLoop_frame env a flush _).1
  · rfl

@[simp] lemma sendLines_isOpen (flush : Bool) : (a.sendLines env flush).isOpen = a.isOpen := by
  unfold sendLines
  split
  · exact (sendLoop_frame env a flush _).2.1
  · rfl

lemma onSocket_data (bytes : List UInt8) (h : bytes.length ≤ a.buffer.readSize) :
    (a.onSocket env bytes h).buffer.data =
      if a.buffer.room = 0 then a.buffer.data else a.buffer.data ++ bytes := by
  unfold onSocket onEnd onAppend close
  split
  · split <;> rfl
  · split
    · rename_i hnil
      rw [hnil, List.append_nil, sendLines_buffer]
    · dsimp only
      split <;> simp

/-- The end of the file, and nothing else, closes the pipe. -/
lemma onSocket_isOpen (bytes : List UInt8) (h : bytes.length ≤ a.buffer.readSize) :
    (a.onSocket env bytes h).isOpen = (a.isOpen && decide (bytes ≠ [])) := by
  unfold onSocket onEnd onAppend close
  by_cases hnil : bytes = []
  · simp only [hnil, if_true, ne_eq, not_true_eq_false, decide_false, Bool.and_false]
    split
    · rfl
    · rw [sendLines_isOpen]
  · simp only [hnil, if_false, ne_eq, not_false_eq_true, decide_true, Bool.and_true]
    split
    · rfl
    · split
      · rw [sendLines_isOpen, sendLines_isOpen]
      · rw [sendLines_isOpen]

end Frame

/-! ## What has been sent -/

/-- The lines that were sent: whatever the rest of the output is, its lines are these, and those
after the position unless the socket was closed. -/
structure Forwards (env : PondEnv) (a : PipePondAdapter capacity) (lines : List (List UInt8)) :
    Prop where
  position_le : a.position ≤ a.buffer.data.length
  sent_eq : a.sent = lines.map (lineDatagram env a.site)
  lines_eq : ∀ rest, pondLines (a.buffer.data ++ rest) =
    lines ++ if a.pondSocket then pondLines (a.buffer.data.drop a.position ++ rest) else []

/-- All lines of what is in the buffer were sent. -/
structure Flushed (env : PondEnv) (a : PipePondAdapter capacity) (lines : List (List UInt8)) :
    Prop where
  sent_eq : a.sent = lines.map (lineDatagram env a.site)
  lines_eq : pondLines a.buffer.data = lines

/-- What `OnLine` sends, if `Send` does not throw. -/
lemma onLine_spec (hsend : env.SendsAll) (hsocket : a.pondSocket = true)
    (line : List UInt8) :
    ∃ new, (a.onLine env line).sent = a.sent ++ new.map (lineDatagram env a.site) ∧
      ∀ rest, pondLine line rest =
        new ++ if (a.onLine env line).pondSocket then rest else [] := by
  unfold onLine pondLine
  split
  · exact ⟨[], by simp, fun _ => rfl⟩
  · split
    · exact ⟨[], by simp, by simp⟩
    · exact ⟨[line], by simp, by simp [hsend _ _]⟩

variable {lines : List (List UInt8)}

lemma Forwards.onLine (hsend : env.SendsAll) (h : Forwards env a lines)
    (hsocket : a.pondSocket = true) {line rest : List UInt8} (hline : newline ∉ line)
    (hdrop : a.buffer.data.drop a.position = line ++ newline :: rest) :
    ∃ lines', Forwards env ((a.advance (line.length + 1)).onLine env line) lines' := by
  obtain ⟨new, hnew, hrest⟩ := onLine_spec hsend (a := a.advance (line.length + 1)) hsocket line
  have hlength : a.position + (line.length + 1) ≤ a.buffer.data.length := by
    have hsub := congrArg List.length hdrop
    rw [List.length_drop, List.length_append, List.length_cons] at hsub
    omega
  have hdrop' : a.buffer.data.drop (a.position + (line.length + 1)) = rest := by
    rw [← List.drop_drop, hdrop, ← List.drop_drop, List.drop_left, List.drop_one, List.tail_cons]
  refine ⟨lines ++ new, ⟨?_, ?_, fun more => ?_⟩⟩
  · rwa [onLine_position, onLine_buffer]
  · rw [hnew, onLine_site, List.map_append, advance_sent, advance_site, h.sent_eq]
  · rw [onLine_buffer, onLine_position, advance_buffer, advance_position, hdrop', h.lines_eq,
      if_pos hsocket, hdrop, List.append_assoc, List.cons_append, pondLines_append_cons hline,
      hrest, List.append_assoc]

lemma Forwards.onRest (hsend : env.SendsAll) (h : Forwards env a lines)
    (hsocket : a.pondSocket = true) {line : List UInt8} {n : ℕ} (hline : newline ∉ line)
    (hdrop : a.buffer.data.drop a.position = line) :
    ∃ lines', Flushed env ((a.advance n).onLine env line) lines' := by
  obtain ⟨new, hnew, hrest⟩ := onLine_spec hsend (a := a.advance n) hsocket line
  have hnone : pondLine line [] = new := by
    rw [hrest, ite_self, List.append_nil]
  have hlines := h.lines_eq []
  rw [if_pos hsocket, hdrop, List.append_nil, List.append_nil, pondLines_of_not_mem hline,
    hnone] at hlines
  refine ⟨lines ++ new, ⟨?_, ?_⟩⟩
  · rw [hnew, onLine_site, List.map_append, advance_sent, advance_site, h.sent_eq]
  · rw [onLine_buffer, advance_buffer, hlines]

/-- If the socket is closed, or the position is at the end, all lines were sent. -/
lemma Forwards.flushed (h : Forwards env a lines)
    (hend : a.pondSocket = false ∨ a.buffer.data.drop a.position = []) : Flushed env a lines := by
  refine ⟨h.sent_eq, ?_⟩
  have hlines := h.lines_eq []
  rw [List.append_nil, List.append_nil] at hlines
  rcases hend with hsocket | hdrop
  · rwa [hsocket, if_neg Bool.false_ne_true, List.append_nil] at hlines
  · rwa [hdrop, pondLines_nil, ite_self, List.append_nil] at hlines

/-- The bytes after the line that `memchr` has found. -/
lemma drop_advance {r : List UInt8} {n : ℕ} (hdrop : a.buffer.data.drop a.position = r) :
    ((a.advance (n + 1)).onLine env (r.take n)).buffer.data.drop
      ((a.advance (n + 1)).onLine env (r.take n)).position = r.drop (n + 1) := by
  rw [onLine_buffer, onLine_position, advance_buffer, advance_position, ← List.drop_drop, hdrop]

lemma Forwards.onFound (hsend : env.SendsAll) (h : Forwards env a lines)
    (hsocket : a.pondSocket = true) {r : List UInt8} (hdrop : a.buffer.data.drop a.position = r)
    {n : ℕ} (hn : r.idxOf? newline = some n) :
    ∃ lines', Forwards env ((a.advance (n + 1)).onLine env (r.take n)) lines' := by
  obtain ⟨hcut, hline, hlength⟩ := eq_append_of_idxOf? hn
  obtain ⟨lines', h'⟩ := h.onLine hsend hsocket hline (hdrop.trans hcut)
  rw [hlength] at h'
  exact ⟨lines', h'⟩

lemma Forwards.sendLoop (hsend : env.SendsAll) (h : Forwards env a lines)
    (hsocket : a.pondSocket = true) {r : List UInt8} (hdrop : a.buffer.data.drop a.position = r) :
    ∃ lines', Forwards env (a.sendLoop env false r) lines' := by
  fun_induction PipePondAdapter.sendLoop env false a r generalizing lines with
  | case1 a => exact ⟨lines, h⟩
  | case2 a r _ n hn _ hsocket' =>
      rename_i ih
      obtain ⟨lines', h'⟩ := h.onFound hsend hsocket hdrop hn
      exact ih h' hsocket' (drop_advance hdrop)
  | case3 a r _ n hn => exact h.onFound hsend hsocket hdrop hn
  | case4 a r _ _ hflush => cases hflush
  | case5 a r _ _ _ => exact ⟨lines, h⟩

lemma Forwards.flushLoop (hsend : env.SendsAll) (h : Forwards env a lines)
    (hsocket : a.pondSocket = true) {r : List UInt8} (hdrop : a.buffer.data.drop a.position = r) :
    ∃ lines', Flushed env (a.sendLoop env true r) lines' := by
  fun_induction PipePondAdapter.sendLoop env true a r generalizing lines with
  | case1 a => exact ⟨lines, h.flushed (.inr hdrop)⟩
  | case2 a r _ n hn _ hsocket' =>
      rename_i ih
      obtain ⟨lines', h'⟩ := h.onFound hsend hsocket hdrop hn
      exact ih h' hsocket' (drop_advance hdrop)
  | case3 a r _ n hn _ =>
      rename_i hsocket'
      obtain ⟨lines', h'⟩ := h.onFound hsend hsocket hdrop hn
      exact ⟨lines', h'.flushed (.inl (Bool.not_eq_true _ ▸ hsocket'))⟩
  | case4 a r _ hnone _ => exact h.onRest hsend hsocket (List.idxOf?_eq_none_iff.mp hnone) hdrop
  | case5 a r _ _ hflush => exact absurd rfl hflush

lemma Forwards.onAppend (hsend : env.SendsAll) (h : Forwards env a lines) :
    ∃ lines', Forwards env (a.onAppend env) lines' := by
  unfold PipePondAdapter.onAppend sendLines
  split
  · rename_i hsocket
    exact h.sendLoop hsend hsocket rfl
  · exact ⟨lines, h⟩

lemma Forwards.onEnd (hsend : env.SendsAll) (h : Forwards env a lines) :
    ∃ lines', Flushed env (a.onEnd env) lines' := by
  unfold PipePondAdapter.onEnd sendLines
  split
  · rename_i hsocket
    exact h.flushLoop hsend hsocket rfl
  · rename_i hsocket
    exact ⟨lines, h.flushed (.inl (Bool.not_eq_true _ ▸ hsocket))⟩

/-- Bytes are appended after the position. -/
lemma Forwards.append (h : Forwards env a lines) {bytes : List UInt8}
    (hroom : bytes.length ≤ a.buffer.room) :
    Forwards env { a with buffer := a.buffer.append bytes hroom } lines := by
  refine ⟨?_, h.sent_eq, fun rest => ?_⟩
  · rw [CaptureBuffer.append_data, List.length_append]
    exact Nat.le_add_right_of_le h.position_le
  · rw [CaptureBuffer.append_data, List.drop_append_of_le_length h.position_le, List.append_assoc,
      List.append_assoc]
    exact h.lines_eq (bytes ++ rest)

/-- The adapter is at the end: the pipe was closed, or the buffer is full. -/
def AtEnd (a : PipePondAdapter capacity) : Prop := a.isOpen = false ∨ a.buffer.isFull = true

/-- All lines that are complete were sent, and at the end all lines. -/
structure OnTrack (env : PondEnv) (a : PipePondAdapter capacity) : Prop where
  forwards : ¬ a.AtEnd → ∃ lines, Forwards env a lines
  flushed : a.AtEnd → ∃ lines, Flushed env a lines

lemma onTrack_of_flushed (h : ∃ lines, Flushed env a lines) (hend : a.AtEnd) : OnTrack env a :=
  ⟨fun hnot => absurd hend hnot, fun _ => h⟩

/-- **What a call of `OnSocket` does to the lines.** -/
theorem OnTrack.onSocket (hsend : env.SendsAll) (h : OnTrack env a) (hopen : a.isOpen = true)
    {bytes : List UInt8} (hsize : bytes.length ≤ a.buffer.readSize) :
    OnTrack env (a.onSocket env bytes hsize) := by
  unfold PipePondAdapter.onSocket
  split
  · -- the buffer was full before
    rename_i hfull
    have hend : a.AtEnd := .inr (a.buffer.isFull_iff.mpr (a.buffer.room_eq_zero.mp hfull))
    split
    · obtain ⟨lines, hlines⟩ := h.flushed hend
      exact onTrack_of_flushed ⟨lines, hlines.1, hlines.2⟩ (.inl rfl)
    · exact h
  · rename_i hroom
    have hnot : ¬ a.AtEnd := by
      rintro (hclosed | hfull)
      · rw [hopen] at hclosed
        cases hclosed
      · exact hroom (a.buffer.room_eq_zero.mpr (a.buffer.isFull_iff.mp hfull))
    obtain ⟨lines, hlines⟩ := h.forwards hnot
    split
    · have hclose : Forwards env a.close lines := ⟨hlines.1, hlines.2, hlines.3⟩
      refine onTrack_of_flushed (hclose.onEnd hsend) (.inl ?_)
      rw [PipePondAdapter.onEnd, sendLines_isOpen]
      rfl
    · have hsize' : bytes.length ≤ a.buffer.room := a.buffer.readSize_eq hroom ▸ hsize
      obtain ⟨lines', h'⟩ := (hlines.append hsize').onAppend hsend
      dsimp only
      split
      · rename_i hfull
        refine onTrack_of_flushed (h'.onEnd hsend) (.inr ?_)
        rwa [PipePondAdapter.onEnd, sendLines_buffer]
      · rename_i hfull
        refine ⟨fun _ => ⟨lines', h'⟩, fun hend => ?_⟩
        rcases hend with hclosed | hfull'
        · rw [PipePondAdapter.onAppend, sendLines_isOpen, hopen] at hclosed
          cases hclosed
        · exact absurd hfull' hfull

end PipePondAdapter

/-! ## The whole stream -/

namespace PondStream

open PipePondAdapter

variable {capacity : ℕ} {env : PondEnv} {s t : PondStream capacity} {n : ℕ}

/-- What was read of the stream: it is all in the buffer, unless that is full. -/
structure Reads (stream : List UInt8) (s : PondStream capacity) : Prop where
  stream_eq : ∃ gone, stream = s.adapter.buffer.data ++ gone ++ s.left ∧
    (s.adapter.buffer.isFull = false → gone = [])
  left_eq : s.adapter.isOpen = false → s.left = []

lemma step_eq_some (h : s.step env n = some t) :
    s.adapter.isOpen = true ∧ (n = 0 → s.left = []) ∧ n ≤ s.left.length ∧
      ∃ hsize, t = ⟨s.adapter.onSocket env (s.left.take n) hsize, s.left.drop n⟩ := by
  unfold step at h
  split at h
  · rename_i hcan
    exact ⟨hcan.1, hcan.2.2.1, hcan.2.1, hcan.2.2.2, (Option.some.inj h).symm⟩
  · cases h

/-- The buffer has the first bytes of the stream. -/
lemma Reads.step {stream : List UInt8} (h : Reads stream s) (hstep : s.step env n = some t) :
    Reads stream t := by
  obtain ⟨hopen, hzero, hn, hsize, rfl⟩ := step_eq_some hstep
  obtain ⟨gone, hstream, hgone⟩ := h.stream_eq
  constructor
  · by_cases hroom : s.adapter.buffer.room = 0
    · -- what was read is gone
      have hdata : (s.adapter.onSocket env (s.left.take n) hsize).buffer.data =
          s.adapter.buffer.data := by
        rw [onSocket_data, if_pos hroom]
      have hfull := s.adapter.buffer.room_eq_zero.mp hroom
      refine ⟨gone ++ s.left.take n, ?_, fun hnot => ?_⟩
      · rw [hdata, List.append_assoc, List.append_assoc, List.take_append_drop, hstream,
          List.append_assoc]
      · rw [← hdata, ← CaptureBuffer.isFull_iff, hnot] at hfull
        cases hfull
    · have hnone : gone = [] := hgone (by
        rw [← Bool.not_eq_true, CaptureBuffer.isFull_iff, ← CaptureBuffer.room_eq_zero]
        exact hroom)
      subst hnone
      refine ⟨[], ?_, fun _ => rfl⟩
      rw [onSocket_data, if_neg hroom, List.append_nil, List.append_assoc, List.take_append_drop,
        hstream, List.append_nil]
  · intro hclosed
    rw [onSocket_isOpen, hopen, Bool.true_and, decide_eq_false_iff_not, not_not,
      List.take_eq_nil_iff] at hclosed
    have hleft : s.left = [] := hclosed.elim hzero id
    exact List.drop_eq_nil_of_le (by rw [hleft]; exact Nat.zero_le n)

lemma reads_start (site stream : List UInt8) : Reads stream (start capacity site stream) :=
  ⟨⟨[], rfl, fun _ => rfl⟩, fun hclosed => nomatch hclosed⟩

/-- **What is in the buffer at the end**: the first bytes of the stream. -/
lemma Reads.data_eq {stream : List UInt8} (h : Reads stream s) (hend : s.adapter.AtEnd) :
    s.adapter.buffer.data = stream.take capacity := by
  obtain ⟨gone, hstream, hgone⟩ := h.stream_eq
  cases hfull : s.adapter.buffer.isFull with
  | true =>
      rw [hstream, List.append_assoc]
      exact (List.take_left' (s.adapter.buffer.isFull_iff.mp hfull)).symm
  | false =>
      have hleft : s.left = [] := h.left_eq (hend.resolve_right (by simp [hfull]))
      rw [hstream, hgone hfull, hleft, List.append_nil, List.append_nil,
        List.take_of_length_le s.adapter.buffer.length_le]

lemma onTrack_start (site stream : List UInt8) :
    OnTrack env (start capacity site stream).adapter := by
  constructor
  · intro _
    exact ⟨[], Nat.zero_le _, rfl, fun rest => rfl⟩
  · intro _
    exact ⟨[], rfl, pondLines_nil⟩

/-- Every stream can be read to its end, one byte after the other. -/
lemma exists_end (env : PondEnv) (a : PipePondAdapter capacity) (left : List UInt8)
    (hopen : a.isOpen = true) :
    ∃ tr t, Run (step env) ⟨a, left⟩ tr t ∧ t.adapter.isOpen = false := by
  induction left generalizing a with
  | nil =>
      have hcan : a.isOpen = true ∧ 0 ≤ ([] : List UInt8).length ∧
          (0 = 0 → ([] : List UInt8) = []) ∧ ([] : List UInt8).length ≤ a.buffer.readSize :=
        ⟨hopen, Nat.zero_le _, fun _ => rfl, Nat.zero_le _⟩
      refine ⟨_, _, .cons (dif_pos hcan) (.nil _), ?_⟩
      rw [onSocket_isOpen]
      exact Bool.and_false _
  | cons b left ih =>
      have hcan : a.isOpen = true ∧ 1 ≤ (b :: left).length ∧ (1 = 0 → b :: left = []) ∧
          [b].length ≤ a.buffer.readSize :=
        ⟨hopen, Nat.le_add_left 1 _, fun h => absurd h (Nat.succ_ne_zero 0), a.buffer.readSize_pos⟩
      obtain ⟨tr, t, hrun, hclosed⟩ := ih (a.onSocket env [b] hcan.2.2.2) (by
        rw [onSocket_isOpen, hopen]
        rfl)
      exact ⟨_, t, .cons (dif_pos hcan) hrun, hclosed⟩

lemma run_start {site stream : List UInt8} {tr : List (PondStream capacity × ℕ)}
    (hsend : env.SendsAll) (hrun : Run (step env) (start capacity site stream) tr s) :
    Reads stream s ∧ OnTrack env s.adapter := by
  have hinv := hrun.invariant (I := fun s => Reads stream s ∧ OnTrack env s.adapter)
    (C := fun _ _ => True) (fun s n t hs _ hstep => ?_) ⟨reads_start site stream,
      onTrack_start site stream⟩ (fun _ _ => trivial)
  · exact hinv.1
  · refine ⟨hs.1.step hstep, ?_⟩
    obtain ⟨hopen, _, _, hsize, rfl⟩ := step_eq_some hstep
    exact hs.2.onSocket hsend hopen hsize

lemma sent_eq {site stream : List UInt8} {tr : List (PondStream capacity × ℕ)}
    (hsend : env.SendsAll) (hrun : Run (step env) (start capacity site stream) tr s)
    (hend : s.adapter.AtEnd) :
    s.adapter.sent.map Datagram.message =
      (pondLines (stream.take capacity)).map (env.truncateMessage 1024) := by
  obtain ⟨hreads, htrack⟩ := run_start hsend hrun
  obtain ⟨lines, hsent, hlines⟩ := htrack.flushed hend
  rw [← hreads.data_eq hend, hlines, hsent, List.map_map]
  rfl

end PondStream

/-- **The lines of the output arrive.**  However the stream is cut in reads, the messages that were
sent at the end, or when the buffer is full, are the lines of its first `capacity` bytes that are
not empty, up to one with a null byte; a line of more than 1024 bytes is cut off. -/
theorem messages_eq_pondLines {env : PondEnv} (hsend : env.SendsAll) {capacity : ℕ}
    {site stream : List UInt8} {tr : List (PondStream capacity × ℕ)} {s : PondStream capacity}
    (hrun : Run (PondStream.step env) (.start capacity site stream) tr s)
    (hend : s.adapter.AtEnd) :
    s.adapter.sent.map Datagram.message =
        (pondLines (stream.take capacity)).map (env.truncateMessage 1024) ∧
      List.Forall₂ (fun message line => message <+: line ∧ message.length ≤ 1024 ∧
          (line.length ≤ 1024 → message = line))
        (s.adapter.sent.map Datagram.message) (pondLines (stream.take capacity)) := by
  have hsent := PondStream.sent_eq hsend hrun hend
  refine ⟨hsent, ?_⟩
  rw [hsent, List.forall₂_map_left_iff]
  refine List.forall₂_same.mpr fun line _ => ⟨?_, ?_, ?_⟩
  · exact env.truncateMessage_prefix 1024 line
  · exact env.truncateMessage_length 1024 line
  · exact env.truncateMessage_of_le 1024 line

/-- A Pond server that gets everything. -/
def plainPond : PondEnv where
  truncateMessage n m := m.take n
  truncateMessage_of_le _ _ h := List.take_of_length_le h
  truncateMessage_prefix n m := List.take_prefix n m
  truncateMessage_length n m := List.length_take_le n m
  sendFails _ _ := false

/-- Two lines, with an empty one between them, and what comes after a null byte. -/
theorem messages_of_two_lines :
    ∃ tr s, Run (PondStream.step plainPond)
        (.start 8192 [] [97, 10, 10, 98, 99, 10, 100, 0, 10, 101]) tr s ∧
      s.adapter.sent.map Datagram.message = [[97], [98, 99]] := by
  obtain ⟨tr, s, hrun, hclosed⟩ := PondStream.exists_end plainPond
    (PondStream.start 8192 [] []).adapter [97, 10, 10, 98, 99, 10, 100, 0, 10, 101] rfl
  refine ⟨tr, s, hrun, ?_⟩
  rw [(messages_eq_pondLines (fun _ _ => rfl) hrun (.inl hclosed)).1]
  decide

/-- A line of 1025 bytes is not sent as it is. -/
theorem long_line_is_cut :
    ∃ tr s, Run (PondStream.step plainPond) (.start 8192 [] (List.replicate 1025 97)) tr s ∧
      s.adapter.AtEnd ∧
      s.adapter.sent.map Datagram.message ≠ pondLines ((List.replicate 1025 97).take 8192) := by
  obtain ⟨tr, s, hrun, hclosed⟩ := PondStream.exists_end plainPond
    (PondStream.start 8192 [] []).adapter (List.replicate 1025 97) rfl
  refine ⟨tr, s, hrun, .inl hclosed, ?_⟩
  have hline : pondLines ((List.replicate 1025 97).take 8192) = [List.replicate 1025 97] := by
    have hnewline : newline ∉ List.replicate 1025 97 := by
      rw [List.mem_replicate]
      decide
    have hnull : hasNullByte (List.replicate 1025 97) = false := by
      rw [hasNullByte, List.contains_replicate]
      decide
    have hlength : (List.replicate 1025 (97 : UInt8)).length = 1025 := List.length_replicate
    have hne : List.replicate 1025 (97 : UInt8) ≠ [] := by
      rw [← List.length_pos_iff, hlength]
      decide
    rw [List.take_of_length_le (by rw [hlength]; decide), pondLines_of_not_mem hnewline, pondLine,
      if_neg hne, hnull, if_neg Bool.false_ne_true]
  rw [PondStream.sent_eq (fun _ _ => rfl) hrun (.inl hclosed), hline]
  intro heq
  have hcut : (List.replicate 1025 (97 : UInt8)).take 1024 = List.replicate 1025 97 :=
    (List.cons.inj heq).1
  have hlength := congrArg List.length hcut
  rw [List.length_take, List.length_replicate] at hlength
  omega

end Workshop.Cron

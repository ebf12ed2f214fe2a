import Mathlib.Algebra.BigOperators.Group.List.Basic
import Mathlib.Algebra.Ring.Nat
import Mathlib.Tactic.Common

/-!
# Frames with a 16-bit length

A frame is a header of two 16-bit words in the byte order of the machine, the length of the payload
and a command, followed by the payload.  Nothing marks the end of a frame, so a sequence of frames
can be read back only because every length is right: a payload of 64 KiB or more does not fit into
its header.

`readFrames_flatMap` is the round trip, `length_flatMap_bytes` the size of the sequence.
-/

namespace Workshop.Lib

/-- The byte order of the machine. -/
inductive Endian
  | little
  | big
  deriving DecidableEq, Repr

namespace Endian

/-- The two bytes of a 16-bit word. -/
def bytes16 : Endian → ℕ → List UInt8
  | little, n => [UInt8.ofNat n, UInt8.ofNat (n / 256)]
  | big, n => [UInt8.ofNat (n / 256), UInt8.ofNat n]

/-- The word in two bytes. -/
def read16 : Endian → UInt8 → UInt8 → ℕ
  | little, a, b => a.toNat + 256 * b.toNat
  | big, a, b => 256 * a.toNat + b.toNat

theorem bytes16_eq (e : Endian) (n : ℕ) :
    ∃ a b, e.bytes16 n = [a, b] ∧ e.read16 a b = n % 65536 := by
  cases e with
  | little =>
      refine ⟨_, _, rfl, ?_⟩
      simp only [read16, UInt8.toNat_ofNat']
      omega
  | big =>
      refine ⟨_, _, rfl, ?_⟩
      simp only [read16, UInt8.toNat_ofNat']
      omega

@[simp] theorem length_bytes16 (e : Endian) (n : ℕ) : (e.bytes16 n).length = 2 := by
  cases e <;> rfl

end Endian

/-- A command with its payload. -/
structure Frame where
  command : UInt16
  payload : List UInt8
  deriving DecidableEq, Repr

variable (e : Endian)

/-- The bytes of a frame. -/
def Frame.bytes (f : Frame) : List UInt8 :=
  e.bytes16 f.payload.length ++ e.bytes16 f.command.toNat ++ f.payload

/-- Read frames up to the end; `none` if the bytes end inside of one. -/
def readFrames : List UInt8 → Option (List Frame)
  | [] => some []
  | a :: b :: c :: d :: rest =>
    if e.read16 a b ≤ rest.length then
      (readFrames (rest.drop (e.read16 a b))).map fun frames =>
        { command := UInt16.ofNat (e.read16 c d), payload := rest.take (e.read16 a b) } :: frames
    else none
  | _ => none
  termination_by bytes => bytes.length
  decreasing_by
    simp only [List.length_drop, List.length_cons]
    omega

variable {e}

/-- The next frame of a sequence, if its length fits into the header. -/
theorem readFrames_bytes_append {f : Frame} (hf : f.payload.length < 65536) (rest : List UInt8) :
    readFrames e (f.bytes e ++ rest) = (readFrames e rest).map (f :: ·) := by
  obtain ⟨a, b, hlength, hread⟩ := e.bytes16_eq f.payload.length
  obtain ⟨c, d, hcommand, hread'⟩ := e.bytes16_eq f.command.toNat
  have hsmall : f.command.toNat < 65536 := f.command.toNat_lt
  rw [Nat.mod_eq_of_lt hf] at hread
  rw [Nat.mod_eq_of_lt hsmall] at hread'
  rw [Frame.bytes, hlength, hcommand]
  simp only [List.cons_append, List.nil_append]
  rw [readFrames, hread, hread', if_pos (by simp)]
  simp [UInt16.ofNat_toNat]

/-- **The round trip**: frames whose lengths fit are read back as they were written. -/
theorem readFrames_flatMap {frames : List Frame} (h : ∀ f ∈ frames, f.payload.length < 65536) :
    readFrames e (frames.flatMap (Frame.bytes e)) = some frames := by
  induction frames with
  | nil => simp [readFrames]
  | cons f frames ih =>
      rw [List.flatMap_cons, readFrames_bytes_append (h f List.mem_cons_self),
        ih fun g hg => h g (List.mem_cons_of_mem _ hg)]
      rfl

theorem length_flatMap_bytes (frames : List Frame) :
    (frames.flatMap (Frame.bytes e)).length = (frames.map fun f => 4 + f.payload.length).sum := by
  rw [List.length_flatMap]
  congr 1
  refine List.map_congr_left fun f _ => ?_
  simp only [Frame.bytes, List.length_append, Endian.length_bytes16]

end Workshop.Lib

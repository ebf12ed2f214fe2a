import Mathlib.Algebra.Order.BigOperators.Group.List
import Mathlib.Algebra.Order.Ring.Nat
import Workshop.Lib.Framing

/-!
# Translation requests

Before a job is executed, the translation server is asked how: `SendTranslateSpawn`
(`src/translation/SpawnClient.cxx`) does so for a job of a plan, `SendTranslateCron`
(`src/translation/CronClient.cxx`) for a cron job.  Both write their packets with
`TranslationMarshaller` (`src/translation/Marshal.hxx`) into a buffer of 8192 bytes and send what
was written.

The marshaller neither checks its buffer nor the 16 bits of a packet's length.  The callers check
the lengths of some strings, but not of all: the arguments of a job, the plan name, the tag, the
URI and the partition name may be of any length.  `request_fits_iff` gives the exact bound.

The byte order and the numbers of the commands are those of the machine and of the protocol.
-/

namespace Workshop.Translation

open Workshop.Lib

/-- A string, as its bytes. -/
abbrev Bytes := List UInt8

/-- The commands the two clients use. -/
inductive TranslationCommand
  | begin_
  | end_
  | execute
  | plan
  | service
  | param
  | listenerTag
  | append
  | cron
  | user
  | uri
  deriving DecidableEq, Repr

/-- How a `TranslationHeader` is laid out. -/
structure Wire where
  endian : Endian
  code : TranslationCommand → UInt16

/-- The size of the buffer. -/
def bufferSize : ℕ := 8192

/-! ## The marshaller -/

/-- `TranslationMarshaller`: the bytes from the start of the buffer up to `tail`. -/
structure TranslationMarshaller where
  written : Bytes := []

namespace TranslationMarshaller

variable (w : Wire) (m : TranslationMarshaller)

/-- `Write`, which copies without looking at the end of the buffer. -/
def write (src : Bytes) : TranslationMarshaller := { written := m.written ++ src }

/-- `WriteHeader`; the length is cast to 16 bits. -/
def writeHeader (command : TranslationCommand) (size : ℕ) : TranslationMarshaller :=
  m.write (w.endian.bytes16 (size % 65536) ++ w.endian.bytes16 (w.code command).toNat)

/-- `Write` of a packet. -/
def writePacket (command : TranslationCommand) (payload : Bytes := []) : TranslationMarshaller :=
  (m.writeHeader w command payload.length).write payload

/-- A packet that is left out if the string is `nullptr`. -/
def writeOptional (command : TranslationCommand) : Option Bytes → TranslationMarshaller
  | some payload => m.writePacket w command payload
  | none => m

/-- `Commit`. -/
def commit : Bytes := m.written

end TranslationMarshaller

/-! ## The clients -/

/-- "workshop". -/
def workshopService : Bytes := "workshop".toUTF8.toList

/-- `SendTranslateSpawn`, up to sending. -/
def sendTranslateSpawn (w : Wire) (tag : Option Bytes) (planName execute : Bytes)
    (param : Option Bytes) (args : List Bytes) : Except String Bytes :=
  if 1024 < execute.length then throw "Translation parameter too long"
  else if param.any (4096 < ·.length) then throw "Translation parameter too long"
  else
    let m : TranslationMarshaller := {}
    let m := m.writePacket w .begin_
    let m := m.writePacket w .execute execute
    let m := m.writePacket w .plan planName
    let m := m.writePacket w .service workshopService
    let m := m.writeOptional w .param param
    let m := m.writeOptional w .listenerTag tag
    let m := args.foldl (fun m arg => m.writePacket w .append arg) m
    let m := m.writePacket w .end_
    return m.commit

/-- `SendTranslateCron`, up to sending. -/
def sendTranslateCron (w : Wire) (partitionName : Bytes) (listenerTag : Option Bytes)
    (user : Bytes) (uri param : Option Bytes) : Except String Bytes :=
  if 256 < user.length then throw "User name too long"
  else if param.any (4096 < ·.length) then throw "Translation parameter too long"
  else
    let m : TranslationMarshaller := {}
    let m := m.writePacket w .begin_
    let m := m.writePacket w .cron partitionName
    let m := m.writeOptional w .listenerTag listenerTag
    let m := m.writePacket w .user user
    let m := m.writeOptional w .uri uri
    let m := m.writeOptional w .param param
    let m := m.writePacket w .end_
    return m.commit

/-! ## What was written -/

/-- The frame of a packet. -/
def Wire.packet (w : Wire) (command : TranslationCommand) (payload : Bytes) : Frame where
  command := w.code command
  payload := payload

/-- The packets of a spawn request. -/
def spawnPackets (w : Wire) (tag : Option Bytes) (planName execute : Bytes) (param : Option Bytes)
    (args : List Bytes) : List Frame :=
  [w.packet .begin_ [], w.packet .execute execute, w.packet .plan planName,
    w.packet .service workshopService] ++
  (param.map (w.packet .param)).toList ++ (tag.map (w.packet .listenerTag)).toList ++
  args.map (w.packet .append) ++ [w.packet .end_ []]

/-- The packets of a cron request. -/
def cronPackets (w : Wire) (partitionName : Bytes) (listenerTag : Option Bytes) (user : Bytes)
    (uri param : Option Bytes) : List Frame :=
  [w.packet .begin_ [], w.packet .cron partitionName] ++
  (listenerTag.map (w.packet .listenerTag)).toList ++ [w.packet .user user] ++
  (uri.map (w.packet .uri)).toList ++ (param.map (w.packet .param)).toList ++ [w.packet .end_ []]

section Written

variable {w : Wire} {m : TranslationMarshaller} {command : TranslationCommand}

@[simp] lemma writePacket_written (payload : Bytes) :
    (m.writePacket w command payload).written =
      m.written ++ (w.packet command payload).bytes w.endian := by
  have hmod : w.endian.bytes16 (payload.length % 65536) = w.endian.bytes16 payload.length := by
    have hlow : UInt8.ofNat (payload.length % 65536) = UInt8.ofNat payload.length := by
      rw [← UInt8.toNat_inj, UInt8.toNat_ofNat', UInt8.toNat_ofNat']
      omega
    have hhigh :
        UInt8.ofNat (payload.length % 65536 / 256) = UInt8.ofNat (payload.length / 256) := by
      rw [← UInt8.toNat_inj, UInt8.toNat_ofNat', UInt8.toNat_ofNat']
      omega
    cases w.endian <;> simp only [Endian.bytes16, hlow, hhigh]
  simp only [TranslationMarshaller.writePacket, TranslationMarshaller.writeHeader,
    TranslationMarshaller.write, Frame.bytes, Wire.packet, hmod, List.append_assoc]

@[simp] lemma writeOptional_written (payload : Option Bytes) :
    (m.writeOptional w command payload).written =
      m.written ++ (payload.map (w.packet command)).toList.flatMap (Frame.bytes w.endian) := by
  cases payload with
  | none => simp [TranslationMarshaller.writeOptional]
  | some payload => simp [TranslationMarshaller.writeOptional]

@[simp] lemma foldl_writePacket_written (args : List Bytes) :
    (args.foldl (fun m arg => m.writePacket w command arg) m).written =
      m.written ++ (args.map (w.packet command)).flatMap (Frame.bytes w.endian) := by
  induction args generalizing m with
  | nil => simp
  | cons arg args ih =>
      rw [List.foldl_cons, ih, writePacket_written]
      simp only [List.map_cons, List.flatMap_cons, List.append_assoc]

end Written

/-- **What a spawn request consists of.** -/
lemma sendTranslateSpawn_eq (w : Wire) (tag : Option Bytes) (planName execute : Bytes)
    (param : Option Bytes) (args : List Bytes) :
    sendTranslateSpawn w tag planName execute param args =
      if 1024 < execute.length ∨ param.any (4096 < ·.length) = true then
        .error "Translation parameter too long"
      else
        .ok ((spawnPackets w tag planName execute param args).flatMap (Frame.bytes w.endian)) := by
  unfold sendTranslateSpawn
  by_cases hexecute : 1024 < execute.length
  · rw [if_pos hexecute, if_pos (.inl hexecute)]
    rfl
  · by_cases hparam : param.any (4096 < ·.length) = true
    · rw [if_neg hexecute, if_pos hparam, if_pos (.inr hparam)]
      rfl
    · rw [if_neg hexecute, if_neg hparam, if_neg (by simp [hexecute, hparam])]
      simp [TranslationMarshaller.commit, spawnPackets, pure, Except.pure]

/-- **What a cron request consists of.** -/
lemma sendTranslateCron_eq (w : Wire) (partitionName : Bytes) (listenerTag : Option Bytes)
    (user : Bytes) (uri param : Option Bytes) :
    sendTranslateCron w partitionName listenerTag user uri param =
      if 256 < user.length then .error "User name too long"
      else if param.any (4096 < ·.length) = true then .error "Translation parameter too long"
      else
        .ok ((cronPackets w partitionName listenerTag user uri param).flatMap
          (Frame.bytes w.endian)) := by
  unfold sendTranslateCron
  by_cases huser : 256 < user.length
  · rw [if_pos huser, if_pos huser]
    rfl
  · by_cases hparam : param.any (4096 < ·.length) = true
    · rw [if_neg huser, if_pos hparam, if_neg huser, if_pos hparam]
      rfl
    · rw [if_neg huser, if_neg hparam, if_neg huser, if_neg hparam]
      simp [TranslationMarshaller.commit, cronPackets, pure, Except.pure]

/-! ## The buffer -/

/-- The bytes stay inside of the buffer, and read as frames they are the packets. -/
def FitsAndDecodes (w : Wire) (bytes : Bytes) (packets : List Frame) : Prop :=
  bytes.length ≤ bufferSize ∧ readFrames w.endian bytes = some packets

/-- Packets that fit into the buffer have lengths that fit into their headers. -/
lemma fitsAndDecodes_iff (w : Wire) (packets : List Frame) :
    FitsAndDecodes w (packets.flatMap (Frame.bytes w.endian)) packets ↔
      (packets.map fun f => 4 + f.payload.length).sum ≤ bufferSize := by
  rw [FitsAndDecodes, length_flatMap_bytes]
  constructor
  · exact fun h => h.1
  · intro hsum
    refine ⟨hsum, readFrames_flatMap fun f hf => ?_⟩
    have hle : 4 + f.payload.length ≤ (packets.map fun f => 4 + f.payload.length).sum :=
      List.single_le_sum (by simp) _ (List.mem_map.mpr ⟨f, hf, rfl⟩)
    have hbuffer : bufferSize < 65536 := by decide
    omega

/-- The bytes of an optional string: four for the header, and its own. -/
def optionalSize (payload : Option Bytes) : ℕ := (payload.map fun p => 4 + p.length).getD 0

/-- The size of a spawn request: `BEGIN` and `END` have no payload, `SERVICE` has 8 bytes. -/
def spawnSize (tag : Option Bytes) (planName execute : Bytes) (param : Option Bytes)
    (args : List Bytes) : ℕ :=
  4 + (4 + execute.length) + (4 + planName.length) + (4 + 8) + optionalSize param +
    optionalSize tag + (args.map fun arg => 4 + arg.length).sum + 4

/-- The size of a cron request. -/
def cronSize (partitionName : Bytes) (listenerTag : Option Bytes) (user : Bytes)
    (uri param : Option Bytes) : ℕ :=
  4 + (4 + partitionName.length) + optionalSize listenerTag + (4 + user.length) +
    optionalSize uri + optionalSize param + 4

lemma sum_optional (w : Wire) (command : TranslationCommand) (payload : Option Bytes) :
    (((payload.map (w.packet command)).toList.map fun f => 4 + f.payload.length)).sum =
      optionalSize payload := by
  cases payload with
  | none => rfl
  | some payload => simp [optionalSize, Wire.packet]

lemma sum_spawnPackets (w : Wire) (tag : Option Bytes) (planName execute : Bytes)
    (param : Option Bytes) (args : List Bytes) :
    ((spawnPackets w tag planName execute param args).map fun f => 4 + f.payload.length).sum =
      spawnSize tag planName execute param args := by
  have hargs : (args.map (w.packet .append)).map (fun f => 4 + f.payload.length) =
      args.map fun arg => 4 + arg.length := by
    rw [List.map_map]
    rfl
  have hservice : workshopService.length = 8 := by decide +kernel
  simp only [spawnPackets, List.map_append, List.sum_append, sum_optional, hargs, List.map_cons,
    List.map_nil, List.sum_cons, List.sum_nil, Wire.packet, hservice, List.length_nil, spawnSize]
  omega

lemma sum_cronPackets (w : Wire) (partitionName : Bytes) (listenerTag : Option Bytes)
    (user : Bytes) (uri param : Option Bytes) :
    ((cronPackets w partitionName listenerTag user uri param).map
      fun f => 4 + f.payload.length).sum = cronSize partitionName listenerTag user uri param := by
  simp only [cronPackets, List.map_append, List.sum_append, sum_optional, List.map_cons,
    List.map_nil, List.sum_cons, List.sum_nil, Wire.packet, List.length_nil, cronSize]
  omega

/-- **When a request fits**: one that is not rejected stays inside of the buffer and can be read
back exactly if its strings, with four bytes for each packet, sum up to no more than the buffer. -/
theorem request_fits_iff (w : Wire) :
    (∀ (tag : Option Bytes) (planName execute : Bytes) (param : Option Bytes) (args : List Bytes)
        (bytes : Bytes), sendTranslateSpawn w tag planName execute param args = .ok bytes →
      (FitsAndDecodes w bytes (spawnPackets w tag planName execute param args) ↔
        spawnSize tag planName execute param args ≤ bufferSize)) ∧
    ∀ (partitionName : Bytes) (listenerTag : Option Bytes) (user : Bytes) (uri param : Option Bytes)
        (bytes : Bytes), sendTranslateCron w partitionName listenerTag user uri param = .ok bytes →
      (FitsAndDecodes w bytes (cronPackets w partitionName listenerTag user uri param) ↔
        cronSize partitionName listenerTag user uri param ≤ bufferSize) := by
  constructor
  · intro tag planName execute param args bytes h
    rw [sendTranslateSpawn_eq] at h
    split at h
    · exact absurd h (by simp)
    · obtain rfl := Except.ok.inj h
      rw [fitsAndDecodes_iff, sum_spawnPackets]
  · intro partitionName listenerTag user uri param bytes h
    rw [sendTranslateCron_eq] at h
    split at h
    · exact absurd h (by simp)
    · split at h
      · exact absurd h (by simp)
      · obtain rfl := Except.ok.inj h
        rw [fitsAndDecodes_iff, sum_cronPackets]

/-- A machine and a numbering of the commands. -/
def someWire : Wire where
  endian := .little
  code
    | .begin_ => 1
    | .end_ => 2
    | .execute => 3
    | .plan => 4
    | .service => 5
    | .param => 6
    | .listenerTag => 7
    | .append => 8
    | .cron => 9
    | .user => 10
    | .uri => 11

theorem request_fits_short :
    (∃ bytes, sendTranslateSpawn someWire none [112] [] none [[97, 98]] = .ok bytes ∧
      FitsAndDecodes someWire bytes (spawnPackets someWire none [112] [] none [[97, 98]])) ∧
    ∃ bytes, sendTranslateCron someWire [] none [117] (some [117, 114, 110]) none = .ok bytes ∧
      FitsAndDecodes someWire bytes
        (cronPackets someWire [] none [117] (some [117, 114, 110]) none) := by
  obtain ⟨hspawn, hcron⟩ := request_fits_iff someWire
  exact ⟨⟨_, rfl, (hspawn none [112] [] none [[97, 98]] _ rfl).mpr (by decide)⟩,
    ⟨_, rfl, (hcron [] none [117] (some [117, 114, 110]) none _ rfl).mpr (by decide)⟩⟩

/-- A string of the given length. -/
def letters (n : ℕ) : Bytes := List.replicate n 97

lemma length_letters (n : ℕ) : (letters n).length = n := List.length_replicate

/-- **Two requests that overflow the buffer**: a job with one argument of 9000 bytes, and a cron job
with the longest URI and parameter its columns can hold (`urn:` and 1020 characters of four bytes,
1024 characters of four bytes). -/
theorem request_overflows :
    (¬ ∀ (tag : Option Bytes) (planName execute : Bytes) (param : Option Bytes) (args : List Bytes)
        (bytes : Bytes), sendTranslateSpawn someWire tag planName execute param args = .ok bytes →
      FitsAndDecodes someWire bytes (spawnPackets someWire tag planName execute param args)) ∧
    ¬ ∀ (partitionName : Bytes) (listenerTag : Option Bytes) (user : Bytes)
        (uri param : Option Bytes) (bytes : Bytes),
      sendTranslateCron someWire partitionName listenerTag user uri param = .ok bytes →
      FitsAndDecodes someWire bytes
        (cronPackets someWire partitionName listenerTag user uri param) := by
  constructor
  · intro h
    have hfits := h none [112] [] none [letters 9000] _
      (by rw [sendTranslateSpawn_eq, if_neg (by simp)])
    rw [fitsAndDecodes_iff, sum_spawnPackets] at hfits
    simp [spawnSize, optionalSize, bufferSize, length_letters] at hfits
  · intro h
    have hfits := h [] none [117] (some (letters 4084)) (some (letters 4096)) _
      (by rw [sendTranslateCron_eq, if_neg (by simp), if_neg (by simp [length_letters])])
    rw [fitsAndDecodes_iff, sum_cronPackets] at hfits
    simp [cronSize, optionalSize, bufferSize, length_letters] at hfits

end Workshop.Translation

import Mathlib.Data.List.Basic
import Mathlib.Tactic.Common
import Workshop.Lib.Run

/-!
# The relay to qrelay

A cron job may send its notification through the qrelay server of its container.  The daemon cannot
connect to it, so a process in the container does and copies everything between the two sockets:
`SpliceTwoSockets` (`src/NsQrelayConnect.cxx`) with one pipe for both directions.

What is read from one socket is in the pipe until it is written to the other.  As long as nothing is
left in the pipe the two directions do not meet.  Something is left if writing fails; the direction
is given up then, but not what is in the pipe, and the next bytes from the other socket push it out
to the side it came from.  `relay_transparent_iff`: no byte is lost, duplicated or reordered between
the sockets and the pipe; and every byte goes to the other side exactly if nothing is ever written
while the pipe still has bytes of a write that has failed.
-/

namespace Workshop.Cron

open Workshop.Lib

variable {α : Type*}

/-- The two sockets: `control_socket`, which leads to the daemon, and `qrelay_socket`. -/
inductive Side
  | control
  | qrelay
  deriving DecidableEq, Repr

/-- The socket at the other end. -/
def Side.other : Side → Side
  | .control => .qrelay
  | .qrelay => .control

@[simp] lemma Side.other_other (s : Side) : s.other.other = s := by cases s <;> rfl

lemma Side.eq_of_other_ne {s t : Side} (h : s.other ≠ t) : s = t := by
  cases s <;> cases t <;> simp_all [Side.other]

/-- `SpliceFromPipe`: what is written of `size` bytes, what is left in the pipe, and whether it was
all.  The list has the results of `splice`, up to the first one that is not positive. -/
def spliceFromPipe {β : Type*} : ℕ → List ℕ → List β → List β × List β × Bool
  | 0, _, pipe => ([], pipe, true)
  | _ + 1, [], pipe => ([], pipe, false)
  | size + 1, nbytes :: rest, pipe =>
    if nbytes = 0 then ([], pipe, false)
    else
      let n := min nbytes (size + 1)
      let r := spliceFromPipe (size + 1 - n) rest (pipe.drop n)
      (pipe.take n ++ r.1, r.2.1, r.2.2)

/-- `SpliceTwoSockets` inside its loop.  Each byte in the pipe has the side it came from.  `todo`
are the sockets with `revents` that are still to be handled; `received` and `delivered` are all
bytes read and written so far, the latter with the side they went to. -/
structure SpliceLoop (α : Type*) where
  running : Bool := true
  events : Side → Bool := fun _ => true
  todo : List Side := []
  shutdownWrite : Side → Bool := fun _ => false
  pipe : List (Side × α) := []
  received : List (Side × α) := []
  delivered : List (Side × Side × α) := []

/-- What can happen: `poll` returns, with the sockets that have `revents` or with an error, or the
next one of these sockets is handled, with what `splice` reads from it (nothing at the end of the
stream or after an error) and the results of writing. -/
inductive SpliceEvent (α : Type*)
  | poll (ready : List Side)
  | pollFails
  | splice (data : List α) (writes : List ℕ)
  deriving DecidableEq, Repr

namespace SpliceLoop

variable (r : SpliceLoop α)

/-- `SpliceSockets`. -/
def spliceSockets (src : Side) (data : List α) (writes : List ℕ) : SpliceLoop α × Bool :=
  if data = [] then (r, false)
  else
    let taken := data.map fun x => (src, x)
    let out := spliceFromPipe data.length writes (r.pipe ++ taken)
    ({ r with
      pipe := out.2.1
      received := r.received ++ taken
      delivered := r.delivered ++ out.1.map fun x => (src.other, x) }, out.2.2)

/-- The `if` of a socket: if `SpliceSockets` fails, the direction is given up. -/
def handle (src : Side) (data : List α) (writes : List ℕ) : SpliceLoop α :=
  let out := r.spliceSockets src data writes
  if out.2 then out.1
  else { out.1 with
    events := Function.update out.1.events src false
    shutdownWrite := Function.update out.1.shutdownWrite src.other true }

/-- The condition of the loop, after the last socket. -/
def loop : SpliceLoop α :=
  if r.todo = [] then { r with running := r.events .control || r.events .qrelay } else r

/-- One event.  Nothing can be written to a socket after `ShutdownWrite`. -/
def step : SpliceEvent α → Option (SpliceLoop α)
  | .poll ready =>
    if r.running ∧ r.todo = [] ∧ ready ∈ [[.control], [.qrelay], [.control, .qrelay]] then
      some { r with todo := ready }
    else none
  | .pollFails => if r.running ∧ r.todo = [] then some { r with running := false } else none
  | .splice data writes =>
    match r.todo with
    | [] => none
    | src :: rest =>
      if r.shutdownWrite src.other = true → writes = [] then
        some ({ r with todo := rest }.handle src data writes).loop
      else none

/-- Every byte that was delivered came from the other side. -/
def Transparent : Prop := ∀ x ∈ r.delivered, x.2.1 = x.1.other

/-- The bytes written to a side. -/
def deliveredTo (s : Side) : List α := (r.delivered.filter fun x => x.1 = s).map fun x => x.2.2

/-- The bytes read from a side. -/
def receivedFrom (s : Side) : List α := (r.received.filter fun x => x.1 = s).map Prod.snd

/-- Something is written while there are bytes in the pipe. -/
def writesBehind : SpliceEvent α → Bool
  | .splice data writes => !r.pipe.isEmpty && !data.isEmpty && writes.head?.any fun n => n ≠ 0
  | _ => false

end SpliceLoop

/-! ## The pipe -/

section Pipe

variable {β : Type*} {size : ℕ} {writes : List ℕ} {pipe : List β}

/-- What is written and what is left is what was in the pipe, in the same order. -/
lemma spliceFromPipe_append (size : ℕ) (writes : List ℕ) (pipe : List β) :
    (spliceFromPipe size writes pipe).1 ++ (spliceFromPipe size writes pipe).2.1 = pipe := by
  induction writes generalizing size pipe with
  | nil => cases size <;> rfl
  | cons nbytes rest ih =>
      cases size with
      | zero => rfl
      | succ size =>
          rw [spliceFromPipe]
          split
          · rfl
          · dsimp only
            rw [List.append_assoc, ih, List.take_append_drop]

lemma length_of_spliceFromPipe (h : (spliceFromPipe size writes pipe).2.2 = true)
    (hsize : size ≤ pipe.length) : (spliceFromPipe size writes pipe).1.length = size := by
  induction writes generalizing size pipe with
  | nil =>
      cases size with
      | zero => rfl
      | succ size => exact absurd h (by simp [spliceFromPipe])
  | cons nbytes rest ih =>
      cases size with
      | zero => rfl
      | succ size =>
          rw [spliceFromPipe] at h ⊢
          split
          · rename_i hzero
            rw [if_pos hzero] at h
            exact absurd h (by simp)
          · rename_i hpos
            rw [if_neg hpos] at h
            have hrest := ih h (by rw [List.length_drop]; omega)
            dsimp only
            rw [List.length_append, hrest, List.length_take]
            omega

/-- If anything is written, the first byte in the pipe is written first. -/
lemma spliceFromPipe_cases {x : β} (hsize : size ≠ 0) :
    ((spliceFromPipe size writes (x :: pipe)).1 = [] ∧
        (writes.head?.any fun n => n ≠ 0) = false) ∨
      ((∃ out, (spliceFromPipe size writes (x :: pipe)).1 = x :: out) ∧
        (writes.head?.any fun n => n ≠ 0) = true) := by
  obtain ⟨size, rfl⟩ := Nat.exists_eq_succ_of_ne_zero hsize
  cases writes with
  | nil => exact .inl ⟨rfl, rfl⟩
  | cons nbytes rest =>
      rw [spliceFromPipe]
      split
      · rename_i hzero
        exact .inl ⟨rfl, by simp [hzero]⟩
      · rename_i hpos
        obtain ⟨n, hn⟩ := Nat.exists_eq_succ_of_ne_zero (n := min nbytes (size + 1)) (by omega)
        dsimp only
        rw [hn, List.take_succ_cons]
        exact .inr ⟨⟨_, rfl⟩, by simp [hpos]⟩

end Pipe

/-! ## What an event does -/

/-- **What handling a socket does to the bytes**: those that were read go into the pipe, and those
that are written come out of it at the front; if not all of them can be written, the direction is
given up. -/
structure Spliced (r r' : SpliceLoop α) (src : Side) (data : List α) (writes : List ℕ)
    (out : List (Side × α)) : Prop where
  order : out ++ r'.pipe = r.pipe ++ data.map fun x => (src, x)
  received : r'.received = r.received ++ data.map fun x => (src, x)
  delivered : r'.delivered = r.delivered ++ out.map fun x => (src.other, x)
  shutdownWrite : ∀ s, r.shutdownWrite s = true → r'.shutdownWrite s = true
  complete : r'.shutdownWrite src.other = true ∨ out.length = data.length
  first : ∀ x pipe, r.pipe ++ data.map (fun x => (src, x)) = x :: pipe → data ≠ [] →
    (out = [] ∧ (writes.head?.any fun n => n ≠ 0) = false) ∨
      ((∃ rest, out = x :: rest) ∧ (writes.head?.any fun n => n ≠ 0) = true)
  nothing : data = [] → out = []

namespace SpliceLoop

variable {r r' : SpliceLoop α} {src : Side} {data : List α} {writes : List ℕ}

lemma spliced_handle (r : SpliceLoop α) (src : Side) (data : List α) (writes : List ℕ) :
    ∃ out, Spliced r (r.handle src data writes) src data writes out := by
  have hmono : ∀ s, r.shutdownWrite s = true →
      Function.update r.shutdownWrite src.other true s = true := by
    intro s hs
    by_cases heq : s = src.other
    · rw [heq, Function.update_self]
    · rw [Function.update_of_ne heq]
      exact hs
  by_cases hdata : data = []
  · subst hdata
    refine ⟨[], ⟨?_, ?_, ?_, ?_, .inr rfl, fun _ _ _ hne => absurd rfl hne, fun _ => rfl⟩⟩
    · simp [handle, spliceSockets]
    · simp [handle, spliceSockets]
    · simp [handle, spliceSockets]
    · exact hmono
  · let taken := data.map fun x => (src, x)
    let out := spliceFromPipe data.length writes (r.pipe ++ taken)
    have hsplice : r.spliceSockets src data writes =
        ({ r with
          pipe := out.2.1
          received := r.received ++ taken
          delivered := r.delivered ++ out.1.map fun x => (src.other, x) }, out.2.2) :=
      if_neg hdata
    have hlength : taken.length = data.length := List.length_map _
    have hne : data.length ≠ 0 := fun h => hdata (List.length_eq_zero_iff.mp h)
    refine ⟨out.1, ?_⟩
    have hfirst : ∀ x pipe, r.pipe ++ taken = x :: pipe → data ≠ [] →
        (out.1 = [] ∧ (writes.head?.any fun n => n ≠ 0) = false) ∨
          ((∃ rest, out.1 = x :: rest) ∧ (writes.head?.any fun n => n ≠ 0) = true) := by
      intro x pipe hcons _
      simp only [out, hcons]
      exact spliceFromPipe_cases hne
    have horder := spliceFromPipe_append data.length writes (r.pipe ++ taken)
    simp only [handle, hsplice]
    split
    · rename_i hall
      refine ⟨horder, rfl, rfl, fun _ h => h, .inr ?_, hfirst, fun h => absurd h hdata⟩
      exact length_of_spliceFromPipe hall (by rw [List.length_append, hlength]; omega)
    · exact ⟨horder, rfl, rfl, hmono, .inl (Function.update_self ..), hfirst,
        fun h => absurd h hdata⟩

lemma spliced_loop {out : List (Side × α)} (h : Spliced r r' src data writes out) :
    Spliced r r'.loop src data writes out := by
  unfold loop
  split
  · exact ⟨h.order, h.received, h.delivered, h.shutdownWrite, h.complete, h.first, h.nothing⟩
  · exact h

/-- **Inversion**: an event either handles a socket or leaves the bytes and sockets alone. -/
lemma step_cases {e : SpliceEvent α} (h : r.step e = some r') :
    (∃ src data writes out, e = .splice data writes ∧
        (r.shutdownWrite src.other = true → writes = []) ∧ Spliced r r' src data writes out) ∨
      (r.writesBehind e = false ∧ r'.pipe = r.pipe ∧ r'.received = r.received ∧
        r'.delivered = r.delivered ∧ r'.shutdownWrite = r.shutdownWrite) := by
  cases e with
  | poll ready =>
      obtain ⟨_, rfl⟩ := of_guard h
      exact .inr ⟨rfl, rfl, rfl, rfl, rfl⟩
  | pollFails =>
      obtain ⟨_, rfl⟩ := of_guard h
      exact .inr ⟨rfl, rfl, rfl, rfl, rfl⟩
  | splice data writes =>
      simp only [step] at h
      split at h
      · cases h
      · rename_i src rest _
        obtain ⟨hshut, rfl⟩ := of_guard h
        obtain ⟨out, hout⟩ := spliced_handle { r with todo := rest } src data writes
        refine .inl ⟨src, data, writes, out, rfl, hshut, ?_⟩
        obtain ⟨horder, hreceived, hdelivered, hshutdown, hcomplete, hfirst, hnothing⟩ :=
          spliced_loop hout
        exact ⟨horder, hreceived, hdelivered, hshutdown, hcomplete, hfirst, hnothing⟩

/-! ## Bytes that go back -/

/-- Every byte went to the other side, and those that are still in the pipe came from a side from
which nothing can be written any more. -/
structure Clean (r : SpliceLoop α) : Prop where
  transparent : r.Transparent
  stuck : ∀ x ∈ r.pipe, r.shutdownWrite x.1.other = true

/-- **The first bytes to be written behind others go back.** -/
lemma not_transparent_of_writesBehind {e : SpliceEvent α} (h : r.Clean) (hstep : r.step e = some r')
    (hbehind : r.writesBehind e = true) : ¬ r'.Transparent := by
  obtain ⟨src, data, writes, out, rfl, hshut, hspliced⟩ | ⟨hno, _⟩ := step_cases hstep
  · simp only [writesBehind, Bool.and_eq_true, Bool.not_eq_true', List.isEmpty_eq_false_iff]
      at hbehind
    obtain ⟨⟨hpipe, hdata⟩, hwrites⟩ := hbehind
    obtain ⟨x, pipe, hcons⟩ := List.exists_cons_of_ne_nil hpipe
    have hfirst := hspliced.first x (pipe ++ data.map fun x => (src, x)) (by simp [hcons]) hdata
    obtain ⟨_, hno⟩ | ⟨⟨rest, hout⟩, _⟩ := hfirst
    · exact absurd (hwrites.symm.trans hno) (by simp)
    · intro htransparent
      have hback := htransparent (src.other, x) (by rw [hspliced.delivered, hout]; simp)
      -- the byte came from the side it is written to, because the other one takes none
      have hstuck := h.stuck x (by rw [hcons]; exact List.mem_cons_self)
      have hne : x.1.other ≠ src.other := by
        intro heq
        rw [heq] at hstuck
        rw [hshut hstuck] at hwrites
        exact absurd hwrites (by simp)
      rw [Side.eq_of_other_ne hne] at hback
      cases src <;> exact absurd hback (by simp [Side.other])
  · exact absurd (hbehind.symm.trans hno) (by simp)

lemma Clean.step {e : SpliceEvent α} (h : r.Clean) (hstep : r.step e = some r')
    (hbehind : r.writesBehind e = false) : r'.Clean := by
  obtain ⟨src, data, writes, out, rfl, _, hspliced⟩ | ⟨_, hpipe, _, hdelivered, hshut⟩ :=
    step_cases hstep
  · have hcases : r.pipe = [] ∨ out = [] := by
      by_cases hempty : r.pipe = []
      · exact .inl hempty
      · right
        by_cases hdata : data = []
        · exact hspliced.nothing hdata
        · obtain ⟨y, pipe, hcons⟩ := List.exists_cons_of_ne_nil hempty
          have hfirst := hspliced.first y (pipe ++ data.map fun x => (src, x)) (by simp [hcons])
            hdata
          obtain ⟨hnil, _⟩ | ⟨_, hwrites⟩ := hfirst
          · exact hnil
          · have hbehind' : r.writesBehind (.splice data writes) = true := by
              simp only [writesBehind, Bool.and_eq_true, Bool.not_eq_true',
                List.isEmpty_eq_false_iff]
              exact ⟨⟨hempty, hdata⟩, hwrites⟩
            exact absurd (hbehind.symm.trans hbehind') (by simp)
    -- so what is written comes from this socket
    have hout : ∀ x ∈ out, x.1 = src := by
      intro x hx
      obtain hempty | hnil := hcases
      · have hmem : x ∈ r.pipe ++ data.map fun x => (src, x) := by
          rw [← hspliced.order]
          exact List.mem_append_left _ hx
        rw [hempty, List.nil_append] at hmem
        obtain ⟨y, _, rfl⟩ := List.mem_map.mp hmem
        rfl
      · rw [hnil] at hx
        exact absurd hx List.not_mem_nil
    constructor
    · intro x hx
      rw [hspliced.delivered] at hx
      rcases List.mem_append.mp hx with hx | hx
      · exact h.transparent x hx
      · obtain ⟨y, hy, rfl⟩ := List.mem_map.mp hx
        dsimp only
        rw [hout y hy, Side.other_other]
    · intro x hx
      have hmem : x ∈ r.pipe ++ data.map fun x => (src, x) := by
        rw [← hspliced.order]
        exact List.mem_append_right _ hx
      rcases List.mem_append.mp hmem with hold | hnew
      · exact hspliced.shutdownWrite _ (h.stuck x hold)
      · obtain ⟨y, hy, rfl⟩ := List.mem_map.mp hnew
        obtain hshut | hlength := hspliced.complete
        · exact hshut
        · -- everything was written, so nothing of it is left
          have hcount := congrArg List.length hspliced.order
          rw [List.length_append, List.length_append, List.length_map, hlength] at hcount
          have hpos := List.length_pos_of_mem hx
          have hdata := List.length_pos_of_mem hy
          obtain hempty | hnil := hcases
          · rw [hempty, List.length_nil] at hcount
            omega
          · rw [hnil, List.length_nil] at hlength
            omega
  · constructor
    · intro x hx
      rw [hdelivered] at hx
      exact h.transparent x hx
    · intro x hx
      rw [hpipe] at hx
      rw [hshut]
      exact h.stuck x hx

/-- A byte that went back stays where it is. -/
lemma transparent_of_step {e : SpliceEvent α} (hstep : r.step e = some r')
    (h : r'.Transparent) : r.Transparent := by
  intro x hx
  refine h x ?_
  obtain ⟨_, _, _, _, _, _, hspliced⟩ | ⟨_, _, _, hdelivered, _⟩ := step_cases hstep
  · rw [hspliced.delivered]
    exact List.mem_append_left _ hx
  · rw [hdelivered]
    exact hx

/-- The bytes read are those written and those in the pipe, in the same order. -/
def InOrder (r : SpliceLoop α) : Prop := r.received = r.delivered.map Prod.snd ++ r.pipe

lemma InOrder.step {e : SpliceEvent α} (h : r.InOrder) (hstep : r.step e = some r') :
    r'.InOrder := by
  unfold InOrder at h ⊢
  obtain ⟨src, data, _, out, _, _, hspliced⟩ | ⟨_, hpipe, hreceived, hdelivered, _⟩ :=
    step_cases hstep
  · have hout : (out.map fun x => (src.other, x)).map Prod.snd = out := by
      rw [List.map_map]
      exact List.map_id out
    calc r'.received
        = r.delivered.map Prod.snd ++ (r.pipe ++ data.map fun x => (src, x)) := by
            rw [hspliced.received, h, List.append_assoc]
      _ = r'.delivered.map Prod.snd ++ r'.pipe := by
            rw [← hspliced.order, hspliced.delivered, List.map_append, hout, List.append_assoc]
  · rw [hreceived, hdelivered, hpipe]
    exact h

/-- What a transparent relay has read from a side, it has written to the other or still has. -/
lemma InOrder.receivedFrom (h : r.InOrder) (htransparent : r.Transparent) (s : Side) :
    r.receivedFrom s =
      r.deliveredTo s.other ++ (r.pipe.filter fun x => x.1 = s).map Prod.snd := by
  have hside : ((r.delivered.map Prod.snd).filter fun x => x.1 = s).map Prod.snd =
      (r.delivered.filter fun x => x.1 = s.other).map fun x => x.2.2 := by
    rw [List.filter_map, List.map_map]
    congr 1
    refine List.filter_congr fun x hx => ?_
    have horigin := htransparent x hx
    simp only [Function.comp, horigin, decide_eq_decide]
    constructor
    · rintro rfl
      exact (Side.other_other _).symm
    · rintro heq
      rw [heq, Side.other_other]
  rw [SpliceLoop.receivedFrom, h, List.filter_append, List.map_append, hside]
  rfl

/-- **When the relay is transparent.**  In every run of the relay, what was read from the sockets is
what was written to them and what is in the pipe, in the same order; every byte went to the other
side exactly if nothing was ever written while bytes of a failed write were in the pipe; and then
each side has got the bytes of the other one, up to those that are left in the pipe. -/
theorem relay_transparent_iff {tr : List (SpliceLoop α × SpliceEvent α)}
    (hrun : Run step {} tr r) :
    r.received = r.delivered.map Prod.snd ++ r.pipe ∧
      (r.Transparent ↔ ∀ p ∈ tr, p.1.writesBehind p.2 = false) ∧
      (r.Transparent → ∀ s, r.receivedFrom s =
        r.deliveredTo s.other ++ (r.pipe.filter fun x => x.1 = s).map Prod.snd) := by
  have hclean : ({} : SpliceLoop α).Clean := ⟨by simp [Transparent], by simp⟩
  have horder : r.InOrder := (hrun.invariant (C := fun _ _ => True)
    (fun _ _ _ h _ hstep => InOrder.step h hstep) rfl fun _ _ => trivial).1
  refine ⟨horder, ⟨fun htransparent => ?_, fun hbehind => ?_⟩, horder.receivedFrom⟩
  · clear horder
    generalize ({} : SpliceLoop α) = start at hclean hrun
    induction hrun with
    | nil s => simp
    | @cons s t u e tr hstep hrest ih =>
        have ht : t.Transparent := by
          by_contra hback
          exact (hrest.invariant (I := fun r => ¬ r.Transparent) (C := fun _ _ => True)
            (fun _ _ _ h _ hstep htransparent => h (transparent_of_step hstep htransparent)) hback
            fun _ _ => trivial).1 htransparent
        have hfirst : s.writesBehind e = false := by
          rw [← Bool.not_eq_true]
          exact fun hbehind => not_transparent_of_writesBehind hclean hstep hbehind ht
        intro p hp
        rcases List.mem_cons.mp hp with rfl | hp
        · exact hfirst
        · exact ih htransparent (hclean.step hstep hfirst) p hp
  · exact (hrun.invariant (C := fun r e => r.writesBehind e = false)
      (fun _ _ _ h hC hstep => Clean.step h hstep hC) hclean hbehind).1.transparent

/-- The qrelay server takes two of five bytes and closes its end for reading, but has an answer. -/
def answersLate : List (SpliceEvent ℕ) :=
  [.poll [.control], .splice [1, 2, 3, 4, 5] [2], .poll [.qrelay], .splice [6, 7, 8] [3],
    .poll [.qrelay], .splice [] []]

/-- The daemon gets the end of its own message instead of the answer. -/
theorem relay_transparent_iff_answersLate :
    ∃ r, final (step (α := ℕ)) {} answersLate = some r ∧ r.running = false ∧
      r.deliveredTo .control = [3, 4, 5] ∧ r.deliveredTo .qrelay = [1, 2] ∧ ¬ r.Transparent := by
  have hview : (final (step (α := ℕ)) {} answersLate).map (fun r =>
      (r.running, r.deliveredTo .control, r.deliveredTo .qrelay)) =
      some (false, [3, 4, 5], [1, 2]) := by
    decide +kernel
  obtain ⟨r, hr, hview⟩ := Option.map_eq_some_iff.mp hview
  simp only [Prod.mk.injEq] at hview
  obtain ⟨hrunning, hcontrol, hqrelay⟩ := hview
  refine ⟨r, hr, hrunning, hcontrol, hqrelay, fun htransparent => ?_⟩
  have hbehind := (relay_transparent_iff (Run.of_final hr)).2.1.mp htransparent
  exact absurd hbehind (by decide +kernel)

end SpliceLoop

end Workshop.Cron

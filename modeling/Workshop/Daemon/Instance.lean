import Workshop.Cron.System
import Workshop.Daemon.StickyManager
import Workshop.Jobs.System

/-!
# Enabling and disabling queues

The `Instance` (`src/Instance.cxx`) owns the partitions.  Whether a queue may run is said twice: by
the state directories, which are read at the start and on each reload, and by the administrator,
who sends `ENABLE_QUEUE` and `DISABLE_QUEUE` packets to all queues or to those of one name.

`enabled_unless_disabled_iff`: after each event a queue is enabled exactly if its state is not false
and the last packet for it did not disable it, unless the configuration has an anonymous cron
partition.  `ReloadState` skips those, and since a queue starts out disabled, they never run.
-/

namespace Workshop.Daemon

open Workshop.Cron Workshop.Jobs

variable {ρ Q : Type*}

/-! ## Queues -/

/-- The switches `enabled_state` and `enabled_admin` of a queue. -/
structure Switches where
  state : Bool
  admin : Bool
  deriving DecidableEq, Repr

/-- What `WorkshopQueue` and `CronQueue` have in common: two switches and the functions that set
them. -/
class SwitchedQueue (Q : Type*) where
  switches : Q → Switches
  setStateEnabled : Q → Bool → Q
  enableAdmin : Q → Q
  disableAdmin : Q → Q
  switches_setStateEnabled : ∀ queue enabled,
    switches (setStateEnabled queue enabled) = { switches queue with state := enabled }
  switches_enableAdmin : ∀ queue,
    switches (enableAdmin queue) = { switches queue with admin := true }
  switches_disableAdmin : ∀ queue,
    switches (disableAdmin queue) = { switches queue with admin := false }

open SwitchedQueue

attribute [simp] switches_setStateEnabled switches_enableAdmin switches_disableAdmin

instance : SwitchedQueue JobNode where
  switches queue := { state := queue.enabledState, admin := queue.enabledAdmin }
  setStateEnabled := JobNode.setStateEnabled
  enableAdmin := JobNode.enableAdmin
  disableAdmin := JobNode.disableAdmin
  switches_setStateEnabled queue enabled := by
    unfold JobNode.setStateEnabled JobNode.checkEnabled
    split
    · rename_i heq
      rw [heq]
    · split <;> rfl
  switches_enableAdmin queue := by
    unfold JobNode.enableAdmin JobNode.checkEnabled
    split
    · rename_i hadmin
      rw [hadmin]
    · split <;> rfl
  switches_disableAdmin _ := rfl

instance : SwitchedQueue CronNode where
  switches queue := { state := queue.enabledState, admin := queue.enabledAdmin }
  setStateEnabled := CronNode.setStateEnabled
  enableAdmin := CronNode.enableAdmin
  disableAdmin := CronNode.disableAdmin
  switches_setStateEnabled queue enabled := by
    unfold CronNode.setStateEnabled CronNode.checkEnabled
    split
    · rename_i heq
      rw [heq]
    · split <;> rfl
  switches_enableAdmin queue := by
    unfold CronNode.enableAdmin CronNode.checkEnabled
    split
    · rename_i hadmin
      rw [hadmin]
    · split <;> rfl
  switches_disableAdmin _ := rfl

/-- `IsEnabledOrFull`. -/
def isEnabledOrFull [SwitchedQueue Q] (queue : Q) : Bool :=
  (switches queue).state && (switches queue).admin

/-! ## Partitions -/

/-- The value of each file in the state directories, by its path. -/
abbrev StateDirectories := String → Option Bool

/-- `GetBool`. -/
def StateDirectories.getBool (state : StateDirectories) (path : String) (default : Bool) : Bool :=
  (state path).getD default

/-- `WorkshopPartition` and `CronPartition`; an anonymous one has an empty name. -/
structure Partition (ρ Q : Type*) where
  name : String
  sticky : Option (StickyManager ρ)
  queue : Q

namespace Partition

variable [SwitchedQueue Q] (p : Partition ρ Q)

/-- `EnableDisableSticky`. -/
def enableDisableSticky : Partition ρ Q :=
  { p with sticky := p.sticky.map fun m => if isEnabledOrFull p.queue then m.enable else m.disable }

/-- `SetStateEnabled`. -/
def setStateEnabled (enabled : Bool) : Partition ρ Q :=
  { p with queue := SwitchedQueue.setStateEnabled p.queue enabled }.enableDisableSticky

/-- `DisableQueue`. -/
def disableQueue : Partition ρ Q := { p with queue := disableAdmin p.queue }.enableDisableSticky

/-- `EnableQueue`. -/
def enableQueue : Partition ρ Q := { p with queue := enableAdmin p.queue }.enableDisableSticky

end Partition

/-- `UpdateFilter` of a `WorkshopPartition`. -/
def Partition.updateFilter (cl : JobCluster) (nodeName : String) (now : ℤ) (libraryModified : Bool)
    (p : Partition ρ JobNode) : Partition ρ JobNode :=
  let queue := if libraryModified then { p.queue with rateLimitedPlans := [] } else p.queue
  { p with queue := queue.updateFilter cl nodeName now }

/-- Where the state of a workshop partition is found. -/
def workshopStatePath (name : String) : String := "workshop/workshop/" ++ name ++ "/enabled"

/-- Where the state of a cron partition is found. -/
def cronStatePath (name : String) : String := "workshop/cron/" ++ name ++ "/enabled"

/-! ## The instance -/

/-- The name of a configured partition, and whether it is sticky. -/
structure PartitionConfig where
  name : String
  sticky : Bool := false
  deriving DecidableEq, Repr

/-- The part of `Config` that is about partitions. -/
structure Config where
  partitions : List PartitionConfig
  cronPartitions : List PartitionConfig
  deriving DecidableEq, Repr

/-- A new partition. -/
def PartitionConfig.create (queue : Q) (c : PartitionConfig) : Partition ρ Q where
  name := c.name
  sticky := if c.sticky then some {} else none
  queue := queue

/-- `Instance`. -/
structure Instance (ρ : Type*) where
  partitions : List (Partition ρ JobNode)
  cronPartitions : List (Partition ρ CronNode)

/-- The commands that are about queues; all others are one. -/
inductive Command
  | disableQueue
  | enableQueue
  | reloadState
  | other
  deriving DecidableEq, Repr

/-- What happens to an instance, with the state directories and the library as they are found. -/
inductive InstanceEvent
  | start (state : StateDirectories) (libraryModified : Bool) (now : ℤ)
  | reload (state : StateDirectories) (libraryModified : Bool) (now : ℤ)
  | packet (command : Command) (payload : String) (uid : ℤ) (state : StateDirectories)

namespace Instance

/-- The constructor, which puts each partition in front of the list. -/
def create (config : Config) : Instance ρ where
  partitions := config.partitions.reverse.map (·.create {})
  cronPartitions := config.cronPartitions.reverse.map (·.create {})

variable (cl : JobCluster) (nodeName : String) (i : Instance ρ)

/-- `UpdateLibraryAndFilter`, for what `Update` of the library has returned. -/
def updateLibraryAndFilter (now : ℤ) (libraryModified : Bool) : Instance ρ :=
  { i with partitions := i.partitions.map (·.updateFilter cl nodeName now libraryModified) }

/-- `ReloadState`. -/
def reloadState (state : StateDirectories) : Instance ρ where
  partitions := i.partitions.map fun p =>
    p.setStateEnabled (state.getBool (workshopStatePath p.name) true)
  cronPartitions := i.cronPartitions.map fun p =>
    -- "anonymous partitions cannot have state"
    if p.name = "" then p
    else p.setStateEnabled (state.getBool (cronStatePath p.name) true)

/-- `DISABLE_QUEUE`: all queues for an empty payload, those of that name otherwise. -/
def disableQueues (payload : String) : Instance ρ where
  partitions := i.partitions.map fun p =>
    if payload = "" ∨ payload = p.name then p.disableQueue else p
  cronPartitions := i.cronPartitions.map fun p =>
    if payload = "" ∨ payload = p.name then p.disableQueue else p

/-- `ENABLE_QUEUE`. -/
def enableQueues (payload : String) : Instance ρ where
  partitions := i.partitions.map fun p =>
    if payload = "" ∨ payload = p.name then p.enableQueue else p
  cronPartitions := i.cronPartitions.map fun p =>
    if payload = "" ∨ payload = p.name then p.enableQueue else p

/-- `OnControlPacket`; only local clients have a user id. -/
def onControlPacket (command : Command) (payload : String) (uid : ℤ) (state : StateDirectories) :
    Instance ρ :=
  if 0 ≤ uid then
    match command with
    | .disableQueue => i.disableQueues payload
    | .enableQueue => i.enableQueues payload
    | .reloadState => i.reloadState state
    | .other => i
  else i

/-- `Start`, `OnReload` and `OnControlPacket`. -/
def step : InstanceEvent → Instance ρ
  | .start state libraryModified now =>
    (i.reloadState state).updateLibraryAndFilter cl nodeName now libraryModified
  | .reload state libraryModified now =>
    (i.updateLibraryAndFilter cl nodeName now libraryModified).reloadState state
  | .packet command payload uid state => i.onControlPacket command payload uid state

/-- The instance after these events. -/
def after (config : Config) (events : List InstanceEvent) : Instance ρ :=
  events.foldl (step cl nodeName) (create config)

end Instance

/-! ## What the events say about a queue -/

/-- The state directories the event reads. -/
def InstanceEvent.reads : InstanceEvent → Option StateDirectories
  | .start state _ _ | .reload state _ _ => some state
  | .packet command _ uid state => if 0 ≤ uid ∧ command = .reloadState then some state else none

/-- Whether the event enables or disables the queues of that name. -/
def InstanceEvent.switches (name : String) : InstanceEvent → Option Bool
  | .packet command payload uid _ =>
    if 0 ≤ uid ∧ (payload = "" ∨ payload = name) then
      match command with
      | .disableQueue => some false
      | .enableQueue => some true
      | _ => none
    else none
  | _ => none

/-- The state directories at the last start or reload. -/
def lastState (events : List InstanceEvent) : Option StateDirectories :=
  events.reverse.findSome? InstanceEvent.reads

/-- The last packet for the queues of that name was not a disable. -/
def lastSwitch (name : String) (events : List InstanceEvent) : Bool :=
  (events.reverse.findSome? (InstanceEvent.switches name)).getD true

/-- What the state directories say about a workshop partition: missing state counts as true. -/
def workshopState (name : String) (state : StateDirectories) : Bool :=
  state.getBool (workshopStatePath name) true

/-- What the state directories say about a cron partition: an anonymous one has no state, which
counts as true. -/
def cronState (name : String) (state : StateDirectories) : Bool :=
  if name = "" then true else state.getBool (cronStatePath name) true

/-- **Enabled unless someone disables it**: once the state was read, each queue is enabled exactly
if its state is not false and the last packet for it was not a disable. -/
def EnabledUnlessDisabled (events : List InstanceEvent) (i : Instance ρ) : Prop :=
  ∀ state, lastState events = some state →
    (∀ p ∈ i.partitions,
      isEnabledOrFull p.queue = (workshopState p.name state && lastSwitch p.name events)) ∧
    ∀ p ∈ i.cronPartitions,
      isEnabledOrFull p.queue = (cronState p.name state && lastSwitch p.name events)

/-! ## One event -/

/-- What an event makes of the switches of a queue with that name; `value` is what the state
directories say about it, and `none` if they are not asked. -/
def Switches.onEvent (name : String) (value : StateDirectories → Option Bool) (s : Switches)
    (e : InstanceEvent) : Switches where
  state := (e.reads.bind value).getD s.state
  admin := (e.switches name).getD s.admin

section Packet

variable [SwitchedQueue Q]

@[simp] lemma Partition.setStateEnabled_switches (p : Partition ρ Q) (enabled : Bool) :
    switches (p.setStateEnabled enabled).queue = { switches p.queue with state := enabled } :=
  switches_setStateEnabled p.queue enabled

/-- A packet as a partition sees it; `value` is what `ReloadState` sets. -/
def Partition.onPacket (value : Option Bool) (command : Command) (payload : String) (uid : ℤ)
    (p : Partition ρ Q) : Partition ρ Q :=
  if 0 ≤ uid then
    match command with
    | .disableQueue => if payload = "" ∨ payload = p.name then p.disableQueue else p
    | .enableQueue => if payload = "" ∨ payload = p.name then p.enableQueue else p
    | .reloadState => value.elim p p.setStateEnabled
    | .other => p
  else p

/-- **What a packet does to a partition.** -/
lemma Partition.onPacket_switches (value : StateDirectories → Option Bool) (command : Command)
    (payload : String) (uid : ℤ) (state : StateDirectories) (p : Partition ρ Q) :
    (p.onPacket (value state) command payload uid).name = p.name ∧
      switches (p.onPacket (value state) command payload uid).queue =
        (switches p.queue).onEvent p.name value (.packet command payload uid state) := by
  unfold Partition.onPacket
  by_cases hprivileged : 0 ≤ uid
  · rw [if_pos hprivileged]
    cases command with
    | disableQueue =>
        by_cases hfor : payload = "" ∨ payload = p.name
        · refine ⟨by simp only [if_pos hfor]; rfl, ?_⟩
          simp only [if_pos hfor]
          refine (switches_disableAdmin p.queue).trans ?_
          simp [Switches.onEvent, InstanceEvent.reads, InstanceEvent.switches, hprivileged, hfor]
        · simp [Switches.onEvent, InstanceEvent.reads, InstanceEvent.switches, hfor]
    | enableQueue =>
        by_cases hfor : payload = "" ∨ payload = p.name
        · refine ⟨by simp only [if_pos hfor]; rfl, ?_⟩
          simp only [if_pos hfor]
          refine (switches_enableAdmin p.queue).trans ?_
          simp [Switches.onEvent, InstanceEvent.reads, InstanceEvent.switches, hprivileged, hfor]
        · simp [Switches.onEvent, InstanceEvent.reads, InstanceEvent.switches, hfor]
    | reloadState =>
        rcases hvalue : value state with _ | enabled
        · simp [Switches.onEvent, InstanceEvent.reads, InstanceEvent.switches, hprivileged, hvalue]
        · refine ⟨rfl, (p.setStateEnabled_switches enabled).trans ?_⟩
          simp [Switches.onEvent, InstanceEvent.reads, InstanceEvent.switches, hprivileged, hvalue]
    | other => simp [Switches.onEvent, InstanceEvent.reads, InstanceEvent.switches]
  · rw [if_neg hprivileged]
    simp [Switches.onEvent, InstanceEvent.reads, InstanceEvent.switches, hprivileged]

end Packet

section Step

variable {cl : JobCluster} {nodeName : String} {i : Instance ρ} {e : InstanceEvent}

lemma Partition.updateFilter_switches (now : ℤ) (libraryModified : Bool) (p : Partition ρ JobNode) :
    switches (p.updateFilter cl nodeName now libraryModified).queue = switches p.queue := by
  have hfilter : ∀ queue : JobNode, switches (queue.updateFilter cl nodeName now) =
      switches queue := by
    intro queue
    simp only [JobNode.updateFilter, JobNode.setFilter]
    split
    · split
      · rfl
      · split <;> rfl
    · rfl
  cases libraryModified with
  | false => exact hfilter p.queue
  | true => exact hfilter { p.queue with rateLimitedPlans := [] }

/-- **What an event does to the workshop partitions.** -/
lemma step_partitions {p' : Partition ρ JobNode} (h : p' ∈ (i.step cl nodeName e).partitions) :
    ∃ p ∈ i.partitions, p'.name = p.name ∧
      switches p'.queue =
        (switches p.queue).onEvent p.name (fun state => some (workshopState p.name state)) e := by
  cases e with
  | start state libraryModified now =>
      obtain ⟨p₁, hp₁, rfl⟩ := List.mem_map.mp h
      obtain ⟨p, hp, rfl⟩ := List.mem_map.mp hp₁
      refine ⟨p, hp, rfl, ?_⟩
      rw [Partition.updateFilter_switches, Partition.setStateEnabled_switches]
      rfl
  | reload state libraryModified now =>
      obtain ⟨p₁, hp₁, rfl⟩ := List.mem_map.mp h
      obtain ⟨p, hp, rfl⟩ := List.mem_map.mp hp₁
      refine ⟨p, hp, rfl, ?_⟩
      rw [Partition.setStateEnabled_switches, Partition.updateFilter_switches]
      rfl
  | packet command payload uid state =>
      have hpacket : (i.step cl nodeName (.packet command payload uid state)).partitions =
          i.partitions.map fun p =>
            p.onPacket (some (workshopState p.name state)) command payload uid := by
        simp only [Instance.step, Instance.onControlPacket, Partition.onPacket]
        split
        · cases command <;> simp [Instance.disableQueues, Instance.enableQueues,
            Instance.reloadState, workshopState]
        · simp
      rw [hpacket] at h
      obtain ⟨p, hp, rfl⟩ := List.mem_map.mp h
      exact ⟨p, hp, p.onPacket_switches (fun state => some (workshopState p.name state)) command
        payload uid state⟩

/-- What `ReloadState` sets of a cron partition: nothing if it is anonymous. -/
def cronReload (name : String) (state : StateDirectories) : Option Bool :=
  if name = "" then none else some (cronState name state)

/-- **What an event does to the cron partitions.** -/
lemma step_cronPartitions {p' : Partition ρ CronNode}
    (h : p' ∈ (i.step cl nodeName e).cronPartitions) :
    ∃ p ∈ i.cronPartitions, p'.name = p.name ∧
      switches p'.queue = (switches p.queue).onEvent p.name (cronReload p.name) e := by
  have hreload : ∀ state, (i.reloadState state).cronPartitions =
      i.cronPartitions.map fun p => (cronReload p.name state).elim p p.setStateEnabled := by
    intro state
    refine List.map_congr_left fun p _ => ?_
    by_cases hname : p.name = "" <;> simp [cronReload, cronState, hname]
  have hvalue : ∀ (p : Partition ρ CronNode) state,
      ((cronReload p.name state).elim p p.setStateEnabled).name = p.name ∧
        switches ((cronReload p.name state).elim p p.setStateEnabled).queue =
          { switches p.queue with
            state := (cronReload p.name state).getD (switches p.queue).state } := by
    intro p state
    rcases cronReload p.name state with _ | enabled
    · exact ⟨rfl, rfl⟩
    · exact ⟨rfl, p.setStateEnabled_switches enabled⟩
  cases e with
  | start state libraryModified now =>
      rw [Instance.step, Instance.updateLibraryAndFilter, hreload] at h
      obtain ⟨p, hp, rfl⟩ := List.mem_map.mp h
      exact ⟨p, hp, hvalue p state⟩
  | reload state libraryModified now =>
      have h : p' ∈ (i.reloadState state).cronPartitions := h
      rw [hreload] at h
      obtain ⟨p, hp, rfl⟩ := List.mem_map.mp h
      exact ⟨p, hp, hvalue p state⟩
  | packet command payload uid state =>
      have hpacket : (i.step cl nodeName (.packet command payload uid state)).cronPartitions =
          i.cronPartitions.map fun p =>
            p.onPacket (cronReload p.name state) command payload uid := by
        simp only [Instance.step, Instance.onControlPacket, Partition.onPacket]
        split
        · cases command with
          | reloadState => exact hreload state
          | _ => simp [Instance.disableQueues, Instance.enableQueues]
        · simp
      rw [hpacket] at h
      obtain ⟨p, hp, rfl⟩ := List.mem_map.mp h
      exact ⟨p, hp, p.onPacket_switches (cronReload p.name) command payload uid state⟩

end Step

/-! ## Any sequence of events -/

/-- What a sequence of events makes of the switches of a new queue. -/
def Switches.afterEvents (name : String) (value : StateDirectories → Option Bool)
    (events : List InstanceEvent) : Switches :=
  events.foldl (Switches.onEvent name value) { state := false, admin := true }

lemma Switches.afterEvents_eq (name : String) (value : StateDirectories → Option Bool)
    (events : List InstanceEvent) :
    Switches.afterEvents name value events =
      { state := (events.reverse.findSome? fun e => e.reads.bind value).getD false
        admin := lastSwitch name events } := by
  unfold Switches.afterEvents lastSwitch
  induction events using List.reverseRecOn with
  | nil => rfl
  | append_singleton events e ih =>
      rw [List.foldl_append, List.foldl_cons, List.foldl_nil, ih, Switches.onEvent,
        List.reverse_append, List.reverse_singleton, List.singleton_append, List.findSome?_cons,
        List.findSome?_cons]
      cases e.reads.bind value <;> cases e.switches name <;> rfl

/-- State that is always asked for is that of the last start or reload. -/
lemma findSome?_reads (value : StateDirectories → Bool) (events : List InstanceEvent) :
    (events.reverse.findSome? fun e => e.reads.bind fun state => some (value state)) =
      (lastState events).map value := by
  rw [lastState]
  induction events.reverse with
  | nil => rfl
  | cons e events ih =>
      rw [List.findSome?_cons, List.findSome?_cons, ih]
      cases e.reads <;> rfl

section Run

variable {cl : JobCluster} {nodeName : String} {config : Config} {events : List InstanceEvent}

/-- **The run lemma**: the switches of each queue are what the events say about a partition of its
name, and its name is configured. -/
lemma after_switches (cl : JobCluster) (nodeName : String) (config : Config)
    (events : List InstanceEvent) :
    (∀ p ∈ (Instance.after cl nodeName config events : Instance ρ).partitions,
      switches p.queue = Switches.afterEvents p.name
        (fun state => some (workshopState p.name state)) events) ∧
    ∀ p ∈ (Instance.after cl nodeName config events : Instance ρ).cronPartitions,
      (∃ c ∈ config.cronPartitions, c.name = p.name) ∧
      switches p.queue = Switches.afterEvents p.name (cronReload p.name) events := by
  -- on the sequence, with the last event taken off
  induction events using List.reverseRecOn with
  | nil =>
      constructor
      · intro p hp
        obtain ⟨c, _, rfl⟩ := List.mem_map.mp hp
        rfl
      · intro p hp
        obtain ⟨c, hc, rfl⟩ := List.mem_map.mp hp
        exact ⟨⟨c, List.mem_reverse.mp hc, rfl⟩, rfl⟩
  | append_singleton events e ih =>
      have hstep : (Instance.after cl nodeName config (events ++ [e]) : Instance ρ) =
          (Instance.after cl nodeName config events).step cl nodeName e := by
        simp [Instance.after]
      rw [hstep]
      constructor
      · intro p' hp'
        obtain ⟨p, hp, hname, hswitches⟩ := step_partitions hp'
        rw [hswitches, ih.1 p hp, hname]
        simp [Switches.afterEvents]
      · intro p' hp'
        obtain ⟨p, hp, hname, hswitches⟩ := step_cronPartitions hp'
        obtain ⟨hconfigured, hold⟩ := ih.2 p hp
        rw [hswitches, hold, hname]
        exact ⟨hconfigured, by simp [Switches.afterEvents]⟩

/-- **Every configured partition is enabled unless someone disables it**, after every sequence of
events, exactly if no cron partition is anonymous. -/
theorem enabled_unless_disabled_iff (cl : JobCluster) (nodeName : String) (config : Config) :
    (∀ events, EnabledUnlessDisabled events
      (Instance.after cl nodeName config events : Instance ρ)) ↔
      ∀ c ∈ config.cronPartitions, c.name ≠ "" := by
  constructor
  · -- an anonymous cron partition is not enabled by a start without any state
    intro h c hc hname
    obtain ⟨_, hcron⟩ := h [.start (fun _ => none) true 0] (fun _ => none) rfl
    have hnew : c.create {} ∈ (Instance.create config : Instance ρ).cronPartitions :=
      List.mem_map.mpr ⟨c, List.mem_reverse.mpr hc, rfl⟩
    have henabled := hcron (c.create {}) (List.mem_map.mpr ⟨c.create {}, hnew, if_pos hname⟩)
    have hstate : cronState c.name (fun _ => none) = true := if_pos hname
    have hswitch : lastSwitch c.name [.start (fun _ => none) true 0] = true := rfl
    have hfalse : false = (cronState c.name (fun _ => none) &&
      lastSwitch c.name [.start (fun _ => none) true 0]) := henabled
    rw [hstate, hswitch] at hfalse
    exact absurd hfalse (by decide)
  · intro hnamed events state hstate
    obtain ⟨hworkshop, hcron⟩ := after_switches (ρ := ρ) cl nodeName config events
    constructor
    · intro p hp
      rw [isEnabledOrFull, hworkshop p hp, Switches.afterEvents_eq, findSome?_reads, hstate]
      rfl
    · intro p hp
      obtain ⟨⟨c, hc, hname⟩, hswitches⟩ := hcron p hp
      have hne : p.name ≠ "" := hname ▸ hnamed c hc
      have hreload : cronReload p.name = fun state => some (cronState p.name state) := by
        funext state
        rw [cronReload, if_neg hne]
      rw [isEnabledOrFull, hswitches, Switches.afterEvents_eq, hreload, findSome?_reads, hstate]
      rfl

end Run

/-- One named workshop partition and one anonymous cron partition. -/
def anonymousCron : Config where
  partitions := [{ name := "w" }]
  cronPartitions := [{ name := "" }]

/-- A library without plans. -/
def noPlans : JobCluster where
  interval _ := none
  visitAvailable _ _ := ∅
  getPlan _ _ _ := none
  concurrency _ := 1

/-- **An anonymous cron partition stays disabled**, although nobody has disabled it. -/
theorem anonymous_cron_disabled :
    ¬ EnabledUnlessDisabled [.start (fun _ => none) true 0]
      (Instance.after noPlans "a" anonymousCron [.start (fun _ => none) true 0] :
        Instance Unit) := by
  intro h
  obtain ⟨_, hcron⟩ := h (fun _ => none) rfl
  have henabled := hcron (PartitionConfig.create {} { name := "" }) (List.mem_singleton.mpr rfl)
  exact absurd henabled (by decide)

end Workshop.Daemon

import Vse.InterleavedSteering

/-!
# What runs leave in the tables

Calls to the control device, additions from inside the kernel and packets come in any order. Which
calls of `vse_do_rps` this makes depends on the flow table at the time, and so on all that came
before. But which places of the kernel's tables such a call reaches was settled at the start: no
event sets or clears a table or changes its size. So after a run each place holds the core of the
last call that reaches it, and what the kernel keeps beside the cores is as it was.
-/

namespace Vse.SteeringHistory

open SocketBuffer FlowTable Matching Device StagedCommands PacketSteering ModuleRuns
  InterleavedSteering Runs

section Places

/-- A place for a core in the tables of the system: a slot of the flow table of some device's
queue, or a slot of the socket flow table. -/
inductive Place where
  | flow (id queue slot : Nat)
  | ents (slot : Nat)
deriving DecidableEq

/-- The flow table that a place is in, by its mask, where there is a table. The mask tells its
size. -/
def flowMask (state : ModuleState) (id queue : Nat) : Option (BitVec 32) :=
  ((state.devices id).flowTableAt queue).map MaskedTable.mask

def sockMask (state : ModuleState) : Option (BitVec 32) := state.sock.map MaskedTable.mask

/-- The core in a place, where there is such a place. -/
def coreIn (state : ModuleState) : Place → Option (BitVec 16)
  | .flow id queue slot => (state.rps id).coreAt (.flow queue slot)
  | .ents slot => state.sock.bind fun table => table.slots[slot]?

/-- The queue position that the kernel keeps in a flow table. -/
def tailIn (state : ModuleState) (id queue slot : Nat) : Option (BitVec 32) :=
  ((state.devices id).flowTableAt queue).bind fun table =>
    table.slots[slot]?.map RpsDevFlow.lastQtail

def cpu (call : RpsCall) : BitVec 16 := call.entry.irq.setWidth 16

def leadsTo (call : RpsCall) (mask : Option (BitVec 32)) (slot : Nat) : Bool :=
  mask.map (fun mask => (call.key &&& mask).toNat) == some slot

/-- The place is the one that the core leads to in the socket flow table or in the flow table of the
packet's queue. -/
def addresses (state : ModuleState) (call : RpsCall) : Place → Bool
  | .flow id queue slot => decide (id = call.id ∧ call.queue state = some queue) &&
      leadsTo call (flowMask state id queue) slot
  | .ents slot => leadsTo call (sockMask state) slot

/-- Both tables are set, and the place is one of those that the core leads to. A call for which
one of the tables is missing reaches no place. -/
def reaches (state : ModuleState) (place : Place) (call : RpsCall) : Bool :=
  vseCheckRpsTable call.skb (state.rps call.id) && addresses state call place

theorem slots_write {α : Type} (table : MaskedTable α) (key : BitVec 32) (value : α) (slot : Nat) :
    (table.write key value).slots[slot]? =
      if (key &&& table.mask).toNat = slot then some value else table.slots[slot]? := by
  by_cases here : (key &&& table.mask).toNat = slot
  · rw [if_pos here, ← here]
    exact List.getElem?_set_self (table.index_lt key)
  · rw [if_neg here]
    exact List.getElem?_set_ne here

/-- A slot of a flow table after a core was entered. -/
theorem enter_flow_slot (irq : Byte) (table : RpsDevFlowTable) (slot : Nat) :
    (enterFlow irq table).slots[slot]? = table.slots[slot]?.map fun flow =>
      if (irq.setWidth 32 &&& table.mask).toNat = slot then { flow with cpu := irq.setWidth 16 }
      else flow := by
  rw [enterFlow, slots_write]
  by_cases here : (irq.setWidth 32 &&& table.mask).toNat = slot
  · subst here
    have held := table.slots_index (irq.setWidth 32)
    rw [MaskedTable.index] at held
    rw [if_pos rfl, held, Option.map_some, if_pos rfl]
  · simp only [if_neg here, Option.map_id']

end Places

section Calls

variable (state : ModuleState) (call : RpsCall)

/-- No call sets or clears a flow table or changes its size. -/
theorem flow_mask_step (id queue : Nat) :
    flowMask (rpsStep state call) id queue = flowMask state id queue := by
  cases set : vseCheckRpsTable call.skb (state.rps call.id) with
  | false => rw [step_unchecked state call set]
  | true =>
    obtain ⟨place, _, _, found, _⟩ := (check_rps_table_iff _ _).mp set
    rw [step_checked state call place found set, flowMask, flow_table_enter]
    split
    · rw [Option.map_map]
      rfl
    · rfl

theorem sock_mask_step : sockMask (rpsStep state call) = sockMask state := by
  cases set : vseCheckRpsTable call.skb (state.rps call.id) with
  | false => rw [step_unchecked state call set]
  | true =>
    obtain ⟨place, _, _, found, _⟩ := (check_rps_table_iff _ _).mp set
    rw [step_checked state call place found set, sockMask, enter, Option.map_map]
    rfl

/-- So no call changes which places another one reaches, and the places can be told from the
tables at the start. -/
theorem reaches_step (place : Place) (other : RpsCall) :
    reaches (rpsStep state call) place other = reaches state place other := by
  cases place with
  | flow id queue slot =>
    simp only [reaches, addresses, check_step, queue_step, flow_mask_step]
  | ents slot =>
    simp only [reaches, addresses, check_step, sock_mask_step]

/-- A call leaves its core in the places that it reaches, and only there. This one equation is
what all that follows says of the tables. -/
theorem core_in_step (place : Place) :
    coreIn (rpsStep state call) place =
      if reaches state place call then some (cpu call) else coreIn state place := by
  cases set : vseCheckRpsTable call.skb (state.rps call.id) with
  | false =>
    rw [step_unchecked state call set, reaches, set, Bool.false_and, if_neg Bool.false_ne_true]
  | true =>
    obtain ⟨own, table, ents, found, flows, sock⟩ := (check_rps_table_iff _ _).mp set
    rw [step_checked state call own found set, reaches, set, Bool.true_and]
    cases place with
    | flow id queue slot =>
      have stays : coreIn (enter state call own) (.flow id queue slot) =
          (((enter state call own).devices id).flowTableAt queue).bind fun table =>
            table.slots[slot]?.map RpsDevFlow.cpu := rfl
      rw [stays, flow_table_enter]
      by_cases here : id = call.id ∧ queue = own
      · obtain ⟨rfl, rfl⟩ := here
        have flows : (state.devices call.id).flowTableAt queue = some table := flows
        have queued : call.queue state = some queue := found
        have before : coreIn state (.flow call.id queue slot) =
            table.slots[slot]?.map RpsDevFlow.cpu := by
          simp only [coreIn, RpsTables.coreAt, ModuleState.rps, flows, Option.bind_some]
        rw [if_pos ⟨rfl, rfl⟩, flows, Option.map_some, Option.bind_some, enterFlow, slots_write,
          before]
        simp only [addresses, leadsTo, flowMask, flows, queued, Option.map_some, and_self,
          decide_true, Bool.true_and, beq_iff_eq, Option.some.injEq, RpsCall.key]
        split <;> rfl
      · rw [if_neg here, addresses, decide_eq_false, Bool.false_and, if_neg Bool.false_ne_true]
        · rfl
        · rintro ⟨sameDevice, queued⟩
          exact here ⟨sameDevice, Option.some.inj (queued.symm.trans found)⟩
    | ents slot =>
      have sock : state.sock = some ents := sock
      have stays : coreIn (enter state call own) (.ents slot) =
          (state.sock.map (enterEnt call.entry.irq)).bind fun table => table.slots[slot]? := rfl
      rw [stays, sock, Option.map_some, Option.bind_some, enterEnt, slots_write]
      simp only [addresses, leadsTo, sockMask, sock, Option.map_some, coreIn, Option.bind_some,
        beq_iff_eq, Option.some.injEq]
      rfl

/-- It leaves the queue positions alone. -/
theorem tail_in_step (id queue slot : Nat) :
    tailIn (rpsStep state call) id queue slot = tailIn state id queue slot := by
  cases set : vseCheckRpsTable call.skb (state.rps call.id) with
  | false => rw [step_unchecked state call set]
  | true =>
    obtain ⟨place, _, _, found, _⟩ := (check_rps_table_iff _ _).mp set
    rw [step_checked state call place found set, tailIn, tailIn, flow_table_enter]
    split
    · cases (state.devices id).flowTableAt queue with
      | none => rfl
      | some table =>
        simp only [Option.map_some, Option.bind_some, enter_flow_slot, Option.map_map]
        refine congrArg (Option.map · _) (funext fun flow => ?_)
        rw [Function.comp_apply]
        split <;> rfl
    · rfl

end Calls

section Events

/-- The call of `vse_do_rps` that an event leads to: one for a packet that finds an entry, and
none otherwise. -/
def steering (state : ModuleState) : Event → List RpsCall
  | .packet id nwTos skb =>
      ((foundEntry state nwTos skb).map fun entry => ⟨id, skb, entry⟩).toList
  | .ioctl _ => []
  | .addEntry _ _ => []

/-- A packet steps as the call that it leads to, so that runs of events are runs of calls as far
as the tables go. -/
theorem packet_step (state : ModuleState) (id : Nat) (nwTos : Nat → Byte) (skb : SkBuff) :
    moduleStep state (.packet id nwTos skb) =
      run rpsStep state (steering state (.packet id nwTos skb)) := by
  cases found : foundEntry state nwTos skb with
  | none =>
    rw [steering, found]
    exact (handle_unmatched state id nwTos skb found).2.2
  | some entry =>
    rw [steering, found]
    exact (handle_matched state id nwTos skb entry found).2.2

/-- What no call changes, and what the device has no part in, no event changes. -/
theorem event_keeps {α : Type} (observe : ModuleState → α)
    (calls : ∀ state call, observe (rpsStep state call) = observe state)
    (devices : ∀ (state : ModuleState) device, observe { state with device := device } =
      observe state)
    (state : ModuleState) (event : Event) : observe (moduleStep state event) = observe state := by
  cases event with
  | ioctl call => exact devices state _
  | addEntry data kzalloc => exact devices state _
  | packet id nwTos skb =>
    rw [packet_step, steering]
    cases foundEntry state nwTos skb with
    | none => rfl
    | some entry => exact calls state _

theorem run_keeps {α : Type} (observe : ModuleState → α)
    (calls : ∀ state call, observe (rpsStep state call) = observe state)
    (devices : ∀ (state : ModuleState) device, observe { state with device := device } =
      observe state)
    (state : ModuleState) (events : List Event) :
    observe (run moduleStep state events) = observe state :=
  run_unchanged moduleStep observe (event_keeps observe calls devices) state events

theorem reaches_event (place : Place) (state : ModuleState) (event : Event) :
    reaches (moduleStep state event) place = reaches state place := by
  refine event_keeps (fun state => reaches state place) ?_ ?_ state event
  · intro state call
    exact funext fun other => reaches_step state call place other
  · intro state device
    cases place <;> rfl

/-- An event leaves in a place the core of the call that it leads to, if that reaches it. -/
theorem core_in_event (state : ModuleState) (event : Event) (place : Place) :
    coreIn (moduleStep state event) place =
      (((steering state event).reverse.find? (reaches state place)).map
        fun call => some (cpu call)).getD (coreIn state place) := by
  cases event with
  | ioctl call => cases place <;> rfl
  | addEntry data kzalloc => cases place <;> rfl
  | packet id nwTos skb =>
    rw [packet_step, steering]
    cases foundEntry state nwTos skb with
    | none => rfl
    | some entry =>
      have step := core_in_step state ⟨id, skb, entry⟩ place
      simp only [Option.map_some, Option.toList_some, run_cons, run_nil, step,
        List.reverse_singleton, List.find?_singleton]
      split <;> rfl

/-- What a run leaves. In whatever order commands, additions and packets come, each place holds
the core of the last call of `vse_do_rps` that reaches it, and its first content where no call
does. Which calls reach it can be told from the tables that there were at the start, since no
table is set, cleared or resized, and the kernel's queue positions beside the cores stay.

Proof: by induction on the events, taken from the last. An event leads to one call or to none; a
call puts its core in exactly the places that it reaches, and neither calls nor commands change
which places a later call reaches. -/
theorem places_hold_last (state : ModuleState) (events : List Event) :
    let after := run moduleStep state events
    let calls := logged moduleStep steering state events
    (∀ place, coreIn after place =
      ((calls.reverse.find? (reaches state place)).map cpu).or (coreIn state place)) ∧
    (∀ id queue slot, tailIn after id queue slot = tailIn state id queue slot) ∧
    (∀ id queue, flowMask after id queue = flowMask state id queue) ∧
    sockMask after = sockMask state := by
  intro after calls
  refine ⟨?_, ?_, ?_, ?_⟩
  · intro place
    have reached := run_last_write moduleStep steering (fun state => coreIn state place)
      (fun state => reaches state place) (fun call => some (cpu call)) (reaches_event place)
      (fun state event => core_in_event state event place) state events
    refine reached.trans ?_
    cases calls.reverse.find? (reaches state place) <;> rfl
  · intro id queue slot
    exact run_keeps (fun state => tailIn state id queue slot)
      (fun state call => tail_in_step state call id queue slot) (fun _ _ => rfl) state events
  · intro id queue
    exact run_keeps (fun state => flowMask state id queue)
      (fun state call => flow_mask_step state call id queue) (fun _ _ => rfl) state events
  · exact run_keeps sockMask sock_mask_step (fun _ _ => rfl) state events

end Events

section Origins

/-- The cores that events name: those of the entries there were, the one that was staged, the mark
for none, and those that calls store. -/
inductive Named (start : DeviceState) (events : List Event) : Byte → Prop where
  | entry (entry : VseFlowEntry) (held : entry ∈ start.flowTable) : Named start events entry.irq
  | staged : Named start events start.irq
  | noIrq : Named start events noIrq
  | stored (call : IoctlCall) (byte : Byte) (called : .ioctl call ∈ events)
      (stores : call.command = .setIrq byte) : Named start events byte

/-- The staged core and those of all entries are named. This is the invariant of the device. -/
structure Sourced (named : Byte → Prop) (device : DeviceState) : Prop where
  staged : named device.irq
  entries : ∀ entry ∈ device.flowTable, named entry.irq

/-- A call to the device stages and inserts named cores, if what it stores is named. -/
theorem sourced_step (named : Byte → Prop) (none : named noIrq) (device : DeviceState)
    (call : IoctlCall) (stored : ∀ byte, call.command = .setIrq byte → named byte)
    (sourced : Sourced named device) : Sourced named (deviceStep device call) := by
  have irq : (deviceStep device call).irq = (stage (staged device) call.command).irq :=
    congrArg Staged.irq (step_staged device call)
  have staging : named (stage (staged device) call.command).irq := by
    cases command : call.command with
    | setIrq byte => exact stored byte command
    | initWildcards => exact none
    | setVni word => exact sourced.staged
    | setVmId byte => exact sourced.staged
    | setDlIndst index byte => exact sourced.staged
    | setDlDst index byte => exact sourced.staged
    | setEntry => exact sourced.staged
    | unhandled => exact sourced.staged
  constructor
  · rw [irq]
    exact staging
  · intro entry member
    have table := ioctl_flow_table call.cmd call.arg call.kzalloc device
    change entry ∈ (vseDeviceIoctl call.cmd call.arg call.kzalloc device).2.flowTable at member
    rw [table] at member
    split at member
    · rcases List.mem_cons.mp member with rfl | held
      · exact staging
      · exact sourced.entries entry held
    · exact sourced.entries entry member

theorem found_named (named : Byte → Prop) (state : ModuleState) (nwTos : Nat → Byte)
    (skb : SkBuff) (entry : VseFlowEntry) (found : foundEntry state nwTos skb = some entry)
    (sourced : Sourced named state.device) : named entry.irq := by
  exact sourced.entries entry (look_up_mem found)

/-- Every core in the tables is a named one, or was there before in the same place. -/
def AllNamed (named : Byte → Prop) (start after : ModuleState) : Prop :=
  ∀ place, coreIn after place = coreIn start place ∨
    ∃ irq, named irq ∧ coreIn after place = some (irq.setWidth 16)

/-- An event keeps it so, if what it stores is named: a packet moves the core of an entry to the
tables, and a command the staged core to an entry. -/
theorem named_step (named : Byte → Prop) (none : named noIrq) (start state : ModuleState)
    (event : Event)
    (stored : ∀ call byte, event = .ioctl call → call.command = .setIrq byte → named byte)
    (sourced : Sourced named state.device) (allNamed : AllNamed named start state) :
    Sourced named (moduleStep state event).device ∧
      AllNamed named start (moduleStep state event) := by
  constructor
  · cases event with
    | ioctl call =>
      exact sourced_step named none state.device call (fun byte => stored call byte rfl) sourced
    | addEntry data kzalloc =>
      refine ⟨sourced.staged, ?_⟩
      intro entry member
      cases kzalloc with
      | false => exact sourced.entries entry member
      | true =>
        rcases List.mem_cons.mp member with rfl | held
        · exact none
        · exact sourced.entries entry held
    | packet id nwTos skb => exact sourced
  · intro place
    rw [core_in_event]
    cases hit : (steering state event).reverse.find? (reaches state place) with
    | none => exact allNamed place
    | some call =>
      right
      refine ⟨call.entry.irq, ?_, rfl⟩
      have made := List.mem_reverse.mp (List.mem_of_find?_eq_some hit)
      cases event with
      | ioctl call => cases made
      | addEntry data kzalloc => cases made
      | packet id nwTos skb =>
        obtain ⟨entry, found, rfl⟩ := Option.map_eq_some_iff.mp (Option.mem_toList.mp made)
        exact found_named named state nwTos skb entry found sourced

/-- Where steering leads. After any run of commands, additions and packets, the cores in the
tables are those that were there at the start and those that the run or the state before it named,
and a packet that comes then keeps its hash or gets such a core.

Proof: that the staged core and those of all entries are named holds at the start, and is kept by
each event, as only `SET_IRQ` and additions bring cores in. With it a packet brings named cores
only to the tables. -/
theorem steered_cores_named (start : ModuleState) (events : List Event) :
    let after := run moduleStep start events
    let named := Named start.device events
    (∀ place, coreIn after place = coreIn start place ∨
      ∃ irq, named irq ∧ coreIn after place = some (irq.setWidth 16)) ∧
    ∀ id nwTos skb, (handlePacket after id nwTos skb).1.rxhash = skb.rxhash ∨
      ∃ irq, named irq ∧ (handlePacket after id nwTos skb).1.rxhash = irq.setWidth 32 := by
  intro after named
  have invariant : Sourced named after.device ∧ AllNamed named start after := by
    refine run_invariant_of_along moduleStep (fun _ event => event ∈ events)
      (fun state => Sourced named state.device ∧ AllNamed named start state) ?_ start events
      ((along_const_iff _ _ _ _).mpr fun _ member => member) ?_
    · rintro state event member ⟨sourced, allNamed⟩
      refine named_step named .noIrq start state event ?_ sourced allNamed
      rintro call byte rfl stores
      exact .stored call byte member stores
    · exact ⟨⟨.staged, .entry⟩, fun _ => Or.inl rfl⟩
  obtain ⟨sourced, allNamed⟩ := invariant
  refine ⟨allNamed, ?_⟩
  intro id nwTos skb
  cases found : foundEntry after nwTos skb with
  | none => exact Or.inl (handle_unmatched after id nwTos skb found).2.1
  | some entry =>
    right
    exact ⟨entry.irq, found_named named after nwTos skb entry found sourced,
      (handle_matched after id nwTos skb entry found).2.1⟩

end Origins

end Vse.SteeringHistory

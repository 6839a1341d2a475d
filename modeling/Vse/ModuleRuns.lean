import Vse.PacketSteering
import Vse.Matching
import Vse.StagedCommands

/-!
# Runs of the loaded module

`vse_main.c`, and the module as one machine: commands arrive at the control device,
packets at the receive devices, and both meet in the flow table. A packet is looked
up and, when an entry is found, steered to the entry's core.
-/

namespace Vse.ModuleRuns

open SocketBuffer FlowTable Matching Device StagedCommands PacketSteering Runs

/-- The packet as it is looked up: `vse_handle_data` sets its MAC header before it asks the flow
table. -/
def withMacHeader (skb : SkBuff) : SkBuff :=
  if skbMacHeaderWasSet skb then skb else skbResetMacHeader skb

/-- Look the packet up and steer it to the entry found, if there is one. -/
def vseHandleData (nwTos : Nat → Byte) (skb : SkBuff) (rps : RpsTables)
    (table : List VseFlowEntry) : Traced Access (SkBuff × RpsTables) := do
  let skb := withMacHeader skb
  let (entry, skb) ← vseLookUpFlowEntry nwTos skb table
  match entry with
  | none => return (skb, rps)
  | some entry => return (vseDoRps skb rps entry).2

/-- The module and the kernel tables it steers by: the flow tables of every device's queues and
the one socket flow table. -/
structure ModuleState where
  device : DeviceState
  devices : Nat → NetDevice
  sock : Option RpsSockFlowTable

/-- The tables that a packet from the given device is steered by. -/
def ModuleState.rps (state : ModuleState) (id : Nat) : RpsTables := ⟨state.devices id, state.sock⟩

/-- Handle a packet from the given device. -/
def handlePacket (state : ModuleState) (id : Nat) (nwTos : Nat → Byte) (skb : SkBuff) :
    SkBuff × ModuleState :=
  let (skb, rps) := (vseHandleData nwTos skb (state.rps id) state.device.flowTable).value
  (skb, { state with devices := Function.update state.devices id rps.dev, sock := rps.sock })

/-- The entry that the packet's look-up finds. -/
def foundEntry (state : ModuleState) (nwTos : Nat → Byte) (skb : SkBuff) :
    Option VseFlowEntry :=
  (vseLookUpFlowEntry nwTos (withMacHeader skb) state.device.flowTable).value.1

/-- The two packets have the same bytes in the same place, and were received on the same queue.
Header offsets and hash may differ. -/
structure SamePacket (skb other : SkBuff) : Prop where
  memory : other.memory = skb.memory
  tail : other.tail = skb.tail
  data : other.data = skb.data
  queueMapping : other.queueMapping = skb.queueMapping

/-- The look-up changes nothing of the packet but its header offsets, and so neither the queue it
came on nor the tables it leads to. -/
theorem looked_up_packet (table : List VseFlowEntry) (nwTos : Nat → Byte) (skb : SkBuff) :
    let after := (vseLookUpFlowEntry nwTos (withMacHeader skb) table).value.2
    SamePacket skb after ∧ after.rxhash = skb.rxhash := by
  intro after
  have prepared : SamePacket skb (withMacHeader skb) ∧ (withMacHeader skb).rxhash = skb.rxhash := by
    unfold withMacHeader
    split <;> exact ⟨⟨rfl, rfl, rfl, rfl⟩, rfl⟩
  have left : after = if table = [] then withMacHeader skb
      else skbResetNetworkHeader (withMacHeader skb) := look_up_skb _ _ _
  rw [left]
  split
  · exact prepared
  · obtain ⟨⟨memory, tail, data, queueMapping⟩, rxhash⟩ := prepared
    exact ⟨⟨memory, tail, data, queueMapping⟩, rxhash⟩

theorem handle_unmatched (state : ModuleState) (id : Nat) (nwTos : Nat → Byte) (skb : SkBuff)
    (unmatched : foundEntry state nwTos skb = none) :
    SamePacket skb (handlePacket state id nwTos skb).1 ∧
      (handlePacket state id nwTos skb).1.rxhash = skb.rxhash ∧
      (handlePacket state id nwTos skb).2 = state := by
  have packet := looked_up_packet state.device.flowTable nwTos skb
  unfold foundEntry at unmatched
  simp only [handlePacket, vseHandleData, Traced.value_bind, unmatched, Traced.value_pure,
    ModuleState.rps, Function.update_eq_self, and_true]
  exact packet

/-- A packet that an entry accepts gets the entry's core as its hash, and its tables what
`vse_set_sock_flow_table` makes of them for that core. -/
theorem handle_matched (state : ModuleState) (id : Nat) (nwTos : Nat → Byte) (skb : SkBuff)
    (entry : VseFlowEntry) (matched : foundEntry state nwTos skb = some entry) :
    SamePacket skb (handlePacket state id nwTos skb).1 ∧
      (handlePacket state id nwTos skb).1.rxhash = (vseSetRxhash skb entry.irq).rxhash ∧
      (handlePacket state id nwTos skb).2 =
        { state with
          devices := Function.update state.devices id
            (vseSetSockFlowTable skb (state.rps id) entry.irq).2.dev
          sock := (vseSetSockFlowTable skb (state.rps id) entry.irq).2.sock } := by
  obtain ⟨packet, _⟩ := looked_up_packet state.device.flowTable nwTos skb
  have tables :=
    set_sock_flow_table_congr skb _ (state.rps id) entry.irq packet.queueMapping
  unfold foundEntry at matched
  simp only [handlePacket, vseHandleData, Traced.value_bind, matched, Traced.value_pure, vseDoRps,
    tables, vseSetRxhash, and_true]
  exact ⟨packet.memory, packet.tail, packet.data, packet.queueMapping⟩

section Steering

variable (state : ModuleState) (id : Nat) (nwTos : Nat → Byte) (skb : SkBuff)

/-- The look-up's verdict decides what becomes of the packet and its tables: with an entry the
core goes to the hash and to one slot of either table, and without one everything stays as it was.
-/
def Outcome (entry : Option VseFlowEntry) (queue : Nat) : Prop :=
  match entry with
  | some entry => SteeredTo entry.irq queue (state.rps id)
      ((handlePacket state id nwTos skb).2.rps id) (handlePacket state id nwTos skb).1.rxhash
  | none => (handlePacket state id nwTos skb).1.rxhash = skb.rxhash ∧
      (handlePacket state id nwTos skb).2.rps id = state.rps id

/-- The end-to-end contract. With a queue and both tables, a packet that an entry accepts is
steered to the entry's core, through slots that are inside tables of any size; a packet that no
entry accepts leaves its hash and the tables alone. Either way the packet's bytes and queue, the
flow table with the staged rule, and the other devices are as before.

Proof: the look-up leaves the packet's queue and bytes alone, so it only says which entry there
is. Without one nothing further is called. With one, the core is the hash, the hash's index in
either table is below its size since the mask is one less, and a write to one device's table is a
write to no other's. -/
theorem handled_packet_steered (queue : Nat) (flowTable : RpsDevFlowTable)
    (sockFlowTable : RpsSockFlowTable)
    (found : vseGetRxqueue skb (state.devices id) = some queue)
    (flows : (state.devices id).flowTableAt queue = some flowTable)
    (sock : state.sock = some sockFlowTable) :
    Outcome state id nwTos skb (foundEntry state nwTos skb) queue ∧
      SamePacket skb (handlePacket state id nwTos skb).1 ∧
      (handlePacket state id nwTos skb).2.device = state.device ∧
      ∀ other, other ≠ id →
        (handlePacket state id nwTos skb).2.devices other = state.devices other := by
  cases verdict : foundEntry state nwTos skb with
  | none =>
    obtain ⟨packet, rxhash, same⟩ := handle_unmatched state id nwTos skb verdict
    refine ⟨⟨rxhash, ?_⟩, packet, ?_, ?_⟩
    · rw [same]
    · rw [same]
    · intro other _
      rw [same]
  | some entry =>
    obtain ⟨packet, rxhash, after⟩ := handle_matched state id nwTos skb entry verdict
    have steers := set_sock_flow_table_steers skb (state.rps id) entry.irq queue flowTable
      sockFlowTable found flows sock
    have tables : (handlePacket state id nwTos skb).2.rps id =
        (vseSetSockFlowTable skb (state.rps id) entry.irq).2 := by
      simp only [after, ModuleState.rps, Function.update_self]
    refine ⟨?_, packet, ?_, ?_⟩
    · change SteeredTo entry.irq queue (state.rps id) ((handlePacket state id nwTos skb).2.rps id)
        (handlePacket state id nwTos skb).1.rxhash
      rw [tables, rxhash]
      exact steers
    · rw [after]
    · intro other different
      rw [after]
      exact Function.update_of_ne different _ _

def oneQueueDevice : NetDevice where
  rx := [⟨some ⟨1, [⟨0xffff, 0⟩, ⟨0xffff, 0⟩], rfl⟩⟩]
  realNumRxQueues := 1
  real_le_allocated := le_rfl
  rx_nonempty := Nat.one_pos

def idleState : ModuleState where
  device := moduleLoad
  devices _ := oneQueueDevice
  sock := some ⟨3, List.replicate 4 0xffff, rfl⟩

def oneRuleState (irq : Byte) : ModuleState :=
  { idleState with
    device := { moduleLoad with flowTable := [⟨{ zeroMatch with wildcards := ofpfwAll }, irq⟩] } }

def zeroFrame : SkBuff := received (List.replicate 60 0) 14 (by decide) (by decide)

/-- A rule for core 6 leads every packet there, a frame of zeros among them: its hash and its
slots in both tables are 6. -/
theorem frame_steered_to_six :
    let handled := handlePacket (oneRuleState 6) 0 (fun _ => 0) zeroFrame
    handled.1.rxhash = 6 ∧
      SteeredTo 6 0 ((oneRuleState 6).rps 0) (handled.2.rps 0) handled.1.rxhash := by
  intro handled
  have outcome := (handled_packet_steered (oneRuleState 6) 0 (fun _ => 0) zeroFrame 0 _ _
    rfl rfl rfl).1
  have verdict : foundEntry (oneRuleState 6) (fun _ => 0) zeroFrame =
      some ⟨{ zeroMatch with wildcards := ofpfwAll }, 6⟩ := by decide
  rw [verdict] at outcome
  exact ⟨outcome.hash, outcome⟩

end Steering

section Sentinel

/-- What the module meets: a call to the control device, an entry added from inside the kernel, or
a packet from a device. The order is any. -/
inductive Event where
  | ioctl (call : IoctlCall)
  | addEntry (data : VseMatch) (kzalloc : Bool)
  | packet (id : Nat) (nwTos : Nat → Byte) (skb : SkBuff)

/-- The module's answer to an event. -/
def moduleStep (state : ModuleState) : Event → ModuleState
  | .ioctl call => { state with device := deviceStep state.device call }
  | .addEntry data kzalloc =>
      let table := (vseAddTableEntry kzalloc state.device.flowTable data).2
      { state with device := { state.device with flowTable := table } }
  | .packet id nwTos skb => (handlePacket state id nwTos skb).2

/-- No place of any table holds the sentinel as a core: a packet with that place is sent by the
kernel to a CPU that was chosen. -/
def NoSentinel (state : ModuleState) : Prop :=
  ∀ id slot, (state.rps id).coreAt slot ≠ some (noIrq.setWidth 16)

/-- The packet was found an entry without a core, one that was committed while the staged rule had
none. -/
def FoundNoCore (state : ModuleState) (nwTos : Nat → Byte) (skb : SkBuff) : Prop :=
  ∃ entry, foundEntry state nwTos skb = some entry ∧ entry.irq = noIrq

/-- An entry without a core does not steer: a packet that is found one takes the sentinel to no
place and keeps the hash it came with. -/
def NeverSteers (state : ModuleState) : Event → Prop
  | .packet id nwTos skb => FoundNoCore state nwTos skb →
      (∀ other slot, ((handlePacket state id nwTos skb).2.rps other).coreAt slot =
          some (noIrq.setWidth 16) → (state.rps other).coreAt slot = some (noIrq.setWidth 16)) ∧
        (handlePacket state id nwTos skb).1.rxhash = skb.rxhash
  | _ => True

/-- A packet found such an entry has the sentinel as its hash already, and its tables are not set,
so that there is nothing left to spoil. -/
def Harmless (state : ModuleState) : Event → Prop
  | .packet id nwTos skb => FoundNoCore state nwTos skb →
      skb.rxhash = noIrq.setWidth 32 ∧ vseCheckRpsTable skb (state.rps id) = false
  | _ => True

/-- A packet that is found an entry brings the entry's core, and nothing else, to any place that
it changes. -/
theorem handled_core_at (state : ModuleState) (id : Nat) (nwTos : Nat → Byte) (skb : SkBuff)
    (entry : VseFlowEntry) (matched : foundEntry state nwTos skb = some entry)
    (other : Nat) (slot : RpsSlot) :
    ((handlePacket state id nwTos skb).2.rps other).coreAt slot =
        some (entry.irq.setWidth 16) ∨
      ((handlePacket state id nwTos skb).2.rps other).coreAt slot =
        (state.rps other).coreAt slot := by
  rw [(handle_matched state id nwTos skb entry matched).2.2]
  have written := set_sock_flow_table_core_at skb (state.rps id) entry.irq slot
  cases slot with
  | flow queue slot =>
    by_cases own : other = id
    · subst own
      simpa only [ModuleState.rps, Function.update_self] using written
    · right
      simp only [ModuleState.rps, Function.update_of_ne own, RpsTables.coreAt]
  | ents slot => exact written

theorem sentinel_of_widened (irq : Byte)
    (widened : irq.setWidth 16 = noIrq.setWidth 16) : irq = noIrq := by
  have narrowed := congrArg (BitVec.setWidth 8) widened
  rwa [BitVec.setWidth_setWidth_of_le _ (by decide), BitVec.setWidth_setWidth_of_le _ (by decide),
    BitVec.setWidth_eq, BitVec.setWidth_eq] at narrowed

/-- A step in which an entry without a core does not steer brings the sentinel to no place: an
entry with a core writes that core, which is another one, and nothing but a packet writes to the
tables. -/
theorem step_no_sentinel (state : ModuleState) (event : Event) (spared : NeverSteers state event)
    (clean : NoSentinel state) : NoSentinel (moduleStep state event) := by
  cases event with
  | ioctl call => exact clean
  | addEntry data kzalloc => exact clean
  | packet id nwTos skb =>
    intro other slot holds
    change ((handlePacket state id nwTos skb).2.rps other).coreAt slot = _ at holds
    cases verdict : foundEntry state nwTos skb with
    | none =>
      rw [(handle_unmatched state id nwTos skb verdict).2.2] at holds
      exact clean other slot holds
    | some entry =>
      by_cases noCore : entry.irq = noIrq
      · exact clean other slot ((spared ⟨entry, verdict, noCore⟩).1 other slot holds)
      · rcases handled_core_at state id nwTos skb entry verdict other slot with core | same
        · rw [holds, Option.some.injEq] at core
          exact noCore (sentinel_of_widened entry.irq core.symm)
        · rw [same] at holds
          exact clean other slot holds

/-- In a state without the sentinel, an entry without a core does not steer exactly when nothing
is left for it to do. Where the tables are set its core goes to a slot, which held another value
before. -/
theorem never_steers_iff (state : ModuleState) (event : Event) (clean : NoSentinel state) :
    NeverSteers state event ↔ Harmless state event := by
  cases event with
  | ioctl call => exact Iff.rfl
  | addEntry data kzalloc => exact Iff.rfl
  | packet id nwTos skb =>
    refine forall_congr' fun ⟨entry, verdict, noCore⟩ => ?_
    obtain ⟨_, rxhash, after⟩ := handle_matched state id nwTos skb entry verdict
    rw [rxhash, after, noCore]
    constructor
    · rintro ⟨spared, hash⟩
      refine ⟨hash.symm, ?_⟩
      by_contra checked
      obtain ⟨queue, steered⟩ := set_sock_flow_table_checked skb (state.rps id) noIrq
        (by simpa only [Bool.not_eq_false] using checked)
      obtain ⟨slot, entered⟩ := steered.entered
      refine clean id slot (spared id slot ?_)
      simpa only [ModuleState.rps, Function.update_self] using entered
    · rintro ⟨hash, unchecked⟩
      rw [set_sock_flow_table_unset skb (state.rps id) noIrq unchecked]
      refine ⟨?_, hash.symm⟩
      intro other slot holds
      simpa only [ModuleState.rps, Function.update_eq_self] using holds

/-- In a run from tables without the sentinel, entries without a core never steer, and no state on
the way holds the sentinel, exactly when every packet that is found such an entry has its hash
already and no tables to write: the branch of `vse_do_rps` that should have chosen a core is
empty, and the sentinel goes on as if it were one.

Proof: by induction on the run. In a state without the sentinel a step spares the tables exactly
when the packet has nothing to be changed, and a step that spares them leads to a state without
the sentinel again, in which the rest of the run is judged. -/
theorem run_never_steers_iff (start : ModuleState) (events : List Event)
    (clean : NoSentinel start) :
    (Along moduleStep NeverSteers start events ∧
        ∀ before after, before ++ after = events → NoSentinel (run moduleStep start before)) ↔
      Along moduleStep Harmless start events := by
  have same := along_congr_of_invariant moduleStep NeverSteers Harmless NoSentinel
    never_steers_iff step_no_sentinel start events clean
  rw [← same, and_iff_left_iff_imp]
  rintro spared before after rfl
  exact run_invariant_of_along moduleStep NeverSteers NoSentinel step_no_sentinel start before
    ((along_append moduleStep NeverSteers start before after).mp spared).1 clean

theorem idle_no_sentinel : NoSentinel idleState := by
  intro id slot
  rcases slot with ⟨_ | queue, _ | _ | slot⟩ | ⟨_ | _ | _ | _ | slot⟩ <;>
    simp [ModuleState.rps, RpsTables.coreAt, NetDevice.flowTableAt, idleState, oneQueueDevice,
      noIrq]

/-- A rule committed without a core sends its first packet to core 255: after `INIT_WILDCARDS` and
`SET_ENTRY` the entry has the sentinel, and the packet's hash and slot take it over. -/
theorem committed_sentinel_steers :
    let events : List Event := [.ioctl ⟨Request.initWildcards.code, nullPtr, true⟩,
      .ioctl ⟨Request.setEntry.code, nullPtr, true⟩]
    let state := run moduleStep idleState events
    let handled := handlePacket state 0 (fun _ => 0) zeroFrame
    NoSentinel idleState ∧ FoundNoCore state (fun _ => 0) zeroFrame ∧
      (handled.2.rps 0).coreAt (.flow 0 1) = some (noIrq.setWidth 16) ∧
      (handled.2.rps 0).coreAt (.ents 3) = some (noIrq.setWidth 16) ∧
      zeroFrame.rxhash = 0 ∧ handled.1.rxhash = 0xff ∧
      ¬ NeverSteers state (.packet 0 (fun _ => 0) zeroFrame) := by
  intro events state handled
  have found : FoundNoCore state (fun _ => 0) zeroFrame :=
    ⟨⟨{ zeroMatch with wildcards := ofpfwAll }, noIrq⟩, by decide, rfl⟩
  have hash : handled.1.rxhash = 0xff := by decide
  refine ⟨idle_no_sentinel, found, by decide, by decide, rfl, hash, ?_⟩
  intro spared
  have kept : handled.1.rxhash = 0 := (spared found).2
  rw [hash] at kept
  exact absurd kept (by decide)

/-- A run whose one rule has a core never meets the sentinel. -/
theorem core_rule_spared :
    NoSentinel (run moduleStep (oneRuleState 6) [.packet 0 (fun _ => 0) zeroFrame]) := by
  have lawful : Along moduleStep Harmless (oneRuleState 6) [.packet 0 (fun _ => 0) zeroFrame] := by
    refine ⟨?_, trivial⟩
    rintro ⟨entry, verdict, noCore⟩
    have found : foundEntry (oneRuleState 6) (fun _ => 0) zeroFrame =
        some ⟨{ zeroMatch with wildcards := ofpfwAll }, 6⟩ := by decide
    rw [found, Option.some.injEq] at verdict
    subst verdict
    exact absurd noCore (by decide)
  exact ((run_never_steers_iff (oneRuleState 6) [.packet 0 (fun _ => 0) zeroFrame]
    idle_no_sentinel).mpr lawful).2 _ [] (List.append_nil _)

end Sentinel

end Vse.ModuleRuns

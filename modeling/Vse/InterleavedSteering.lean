import Vse.ModuleRuns

/-!
# Steering many packets

Packets of any devices and queues are steered one after the other. Each is entered with its
core as the key, in the flow table of its queue and in the socket flow table. What one
packet entered stays until a packet with another core is entered in the same slot. In tables
of at least 256 slots every core has a slot of its own, so nothing is ever overwritten and
the order of the packets leaves no trace.
-/

namespace Vse.InterleavedSteering

open SocketBuffer FlowTable PacketSteering ModuleRuns Runs

/-- A call of `vse_do_rps`: the receiving device, the packet and the entry found for it. -/
structure RpsCall where
  id : Nat
  skb : SkBuff
  entry : VseFlowEntry

/-- The tables after the call. The packet itself is not part of the state, as each is steered
once. -/
def rpsStep (state : ModuleState) (call : RpsCall) : ModuleState :=
  let (_, _, rps) := vseDoRps call.skb (state.rps call.id) call.entry
  { state with devices := Function.update state.devices call.id rps.dev, sock := rps.sock }

namespace RpsCall

/-- The packet's hash after the call. -/
def rxhash (state : ModuleState) (call : RpsCall) : BitVec 32 :=
  (vseDoRps call.skb (state.rps call.id) call.entry).2.1.rxhash

/-- The core as the key of a slot: the hash is the core, and its low bits are the index. -/
def key (call : RpsCall) : BitVec 32 := call.entry.irq.setWidth 32

def queue (state : ModuleState) (call : RpsCall) : Option Nat :=
  vseGetRxqueue call.skb (state.devices call.id)

end RpsCall

section Steps

/-- Enter a core in a flow table, at the slot that the core itself leads to. What else the slot
holds is kept. -/
def enterFlow (irq : Byte) (table : RpsDevFlowTable) : RpsDevFlowTable :=
  table.write (irq.setWidth 32) { table.read (irq.setWidth 32) with cpu := irq.setWidth 16 }

def enterEnt (irq : Byte) (table : RpsSockFlowTable) : RpsSockFlowTable :=
  table.write (irq.setWidth 32) (irq.setWidth 16)

/-- Enter a core in the flow table of one queue. -/
def enterDevice (queue : Nat) (irq : Byte) (dev : NetDevice) : NetDevice where
  rx := dev.rx.modify queue fun rx => ⟨rx.rpsFlowTable.map (enterFlow irq)⟩
  realNumRxQueues := dev.realNumRxQueues
  real_le_allocated := by rw [List.length_modify]; exact dev.real_le_allocated
  rx_nonempty := by rw [List.length_modify]; exact dev.rx_nonempty

/-- Enter the core of a call in the tables of its queue. -/
def enter (state : ModuleState) (call : RpsCall) (queue : Nat) : ModuleState :=
  { state with
    devices := Function.update state.devices call.id
      (enterDevice queue call.entry.irq (state.devices call.id))
    sock := state.sock.map (enterEnt call.entry.irq) }

/-- A call leaves what `vse_set_sock_flow_table` makes of the tables of its own device, and the
other devices as they are. -/
theorem step_tables (state : ModuleState) (call : RpsCall) (after : RpsTables)
    (tables : (vseSetSockFlowTable call.skb (state.rps call.id) call.entry.irq).2 = after) :
    rpsStep state call = { state with
      devices := Function.update state.devices call.id after.dev, sock := after.sock } := by
  rw [← tables]
  rfl

/-- A call whose tables are not set changes nothing. -/
theorem step_unchecked (state : ModuleState) (call : RpsCall)
    (unset : vseCheckRpsTable call.skb (state.rps call.id) = false) :
    rpsStep state call = state := by
  rw [step_tables state call _ (set_sock_flow_table_unset call.skb _ call.entry.irq unset)]
  simp only [ModuleState.rps, Function.update_eq_self]

/-- A call with a queue and both tables enters its core, in the flow table of its queue and in the
socket flow table. -/
theorem step_checked (state : ModuleState) (call : RpsCall) (queue : Nat)
    (found : call.queue state = some queue)
    (set : vseCheckRpsTable call.skb (state.rps call.id) = true) :
    rpsStep state call = enter state call queue := by
  obtain ⟨index, flowTable, sockFlowTable, here, flows, sock⟩ := (check_rps_table_iff _ _).mp set
  obtain rfl : queue = index := Option.some.inj (found.symm.trans here)
  have written := congrArg Prod.snd (set_sock_flow_table_set call.skb (state.rps call.id)
    call.entry.irq queue flowTable sockFlowTable here flows sock)
  have device : (state.devices call.id).setQueue queue ⟨some (enterFlow call.entry.irq flowTable)⟩ =
      enterDevice queue call.entry.irq (state.devices call.id) := by
    refine NetDevice.ext (List.ext_getElem? fun place => ?_) rfl
    obtain ⟨rx, present, holds⟩ := Option.bind_eq_some_iff.mp flows
    have inside : queue < (state.devices call.id).rx.length :=
      (List.getElem?_eq_some_iff.mp present).1
    by_cases own : queue = place
    · subst own
      have present : (state.devices call.id).rx[queue]? = some rx := present
      simp only [NetDevice.setQueue, enterDevice, List.getElem?_set_self inside,
        List.getElem?_modify_eq, present, holds, Option.map_eq_map, Option.map_some]
    · simp only [NetDevice.setQueue, enterDevice, List.getElem?_set_ne own,
        List.getElem?_modify_ne _ _ own]
  have ents : some (enterEnt call.entry.irq sockFlowTable) =
      state.sock.map (enterEnt call.entry.irq) := by
    rw [show state.sock = some sockFlowTable from sock, Option.map_some]
  rw [step_tables state call _ written, enter, ← device, ← ents]
  rfl

/-- The flow table of a queue after a core was entered there or elsewhere. -/
theorem flow_table_enter (state : ModuleState) (call : RpsCall) (queue id place : Nat) :
    ((enter state call queue).devices id).flowTableAt place =
      if id = call.id ∧ place = queue then
        ((state.devices id).flowTableAt place).map (enterFlow call.entry.irq)
      else (state.devices id).flowTableAt place := by
  by_cases own : id = call.id
  · subst own
    simp only [enter, Function.update_self, NetDevice.flowTableAt, enterDevice, true_and]
    by_cases here : queue = place
    · subst here
      rw [List.getElem?_modify_eq, if_pos rfl]
      cases (state.devices call.id).rx[queue]? <;> rfl
    · rw [List.getElem?_modify_ne _ _ here, if_neg (Ne.symm here)]
  · rw [if_neg fun both => own both.1]
    simp only [enter, Function.update_of_ne own]

/-- A call does not change the queue of any packet, since what a device's tables hold has no part
in the choice of a queue. -/
theorem queue_step (state : ModuleState) (call other : RpsCall) :
    other.queue (rpsStep state call) = other.queue state := by
  have real (id : Nat) : ((rpsStep state call).devices id).realNumRxQueues =
      (state.devices id).realNumRxQueues := by
    cases set : vseCheckRpsTable call.skb (state.rps call.id) with
    | false => rw [step_unchecked state call set]
    | true =>
      obtain ⟨queue, _, _, found, _⟩ := (check_rps_table_iff _ _).mp set
      rw [step_checked state call queue found set]
      by_cases own : id = call.id
      · subst own
        simp only [enter, Function.update_self, enterDevice]
      · simp only [enter, Function.update_of_ne own]
  simp only [RpsCall.queue, vseGetRxqueue, real]

end Steps

section Keeping

/-- The queue's flow table and the socket flow table, of the given sizes, hold the core in the
slots that the hash leads to. The sizes are named so that a later table cannot be another one. -/
structure Holds (id queue : Nat) (irq : Byte) (rxhash flowMask sockMask : BitVec 32)
    (state : ModuleState) : Prop where
  flows : ∃ table, (state.devices id).flowTableAt queue = some table ∧
    table.mask = flowMask ∧ (table.read rxhash).cpu = irq.setWidth 16
  ents : ∃ table, state.sock = some table ∧
    table.mask = sockMask ∧ table.read rxhash = irq.setWidth 16

/-- The call uses the same core, or one that the sizes of the tables keep apart from it, so that
what it enters goes to other slots. -/
def Spares (state : ModuleState) (id queue : Nat) (irq : Byte) (flowMask sockMask : BitVec 32)
    (other : RpsCall) : Prop :=
  other.entry.irq ≠ irq →
    other.key &&& sockMask ≠ irq.setWidth 32 &&& sockMask ∧
    (other.id = id → other.queue state = some queue →
      other.key &&& flowMask ≠ irq.setWidth 32 &&& flowMask)

theorem index_ne {α : Type} (table : MaskedTable α) (key other : BitVec 32)
    (apart : key &&& table.mask ≠ other &&& table.mask) : table.index key ≠ table.index other :=
  fun same => apart (BitVec.eq_of_toNat_eq same)

/-- A flow table keeps a core when another is entered in another slot. -/
theorem enter_flow_keeps (irq other : Byte) (table : RpsDevFlowTable)
    (holds : (table.read (irq.setWidth 32)).cpu = irq.setWidth 16)
    (apart : other ≠ irq → other.setWidth 32 &&& table.mask ≠ irq.setWidth 32 &&& table.mask) :
    ((enterFlow other table).read (irq.setWidth 32)).cpu = irq.setWidth 16 := by
  by_cases same : other = irq
  · rw [same, enterFlow, MaskedTable.read_write_self]
  · rw [enterFlow, MaskedTable.read_write_of_ne _ _ _ _ (index_ne table _ _ (apart same)).symm,
      holds]

theorem enter_ent_keeps (irq other : Byte) (table : RpsSockFlowTable)
    (holds : table.read (irq.setWidth 32) = irq.setWidth 16)
    (apart : other ≠ irq → other.setWidth 32 &&& table.mask ≠ irq.setWidth 32 &&& table.mask) :
    (enterEnt other table).read (irq.setWidth 32) = irq.setWidth 16 := by
  by_cases same : other = irq
  · rw [same, enterEnt, MaskedTable.read_write_self]
  · rw [enterEnt, MaskedTable.read_write_of_ne _ _ _ _ (index_ne table _ _ (apart same)).symm,
      holds]

/-- A call that spares the core leaves it in its slots: it enters the same core once more, or
another one in other slots. -/
theorem holds_step (state : ModuleState) (id queue : Nat) (irq : Byte)
    (flowMask sockMask : BitVec 32) (other : RpsCall)
    (holds : Holds id queue irq (irq.setWidth 32) flowMask sockMask state)
    (spares : Spares state id queue irq flowMask sockMask other) :
    Holds id queue irq (irq.setWidth 32) flowMask sockMask (rpsStep state other) := by
  cases set : vseCheckRpsTable other.skb (state.rps other.id) with
  | false =>
    rw [step_unchecked state other set]
    exact holds
  | true =>
    obtain ⟨place, _, _, found, _⟩ := (check_rps_table_iff _ _).mp set
    obtain ⟨⟨flowTable, flows, rfl, cpu⟩, sockTable, sock, rfl, ent⟩ := holds
    rw [step_checked state other place found set]
    refine ⟨?_, enterEnt other.entry.irq sockTable, ?_, rfl, ?_⟩
    · rw [flow_table_enter, flows]
      split
      · rename_i here
        refine ⟨enterFlow other.entry.irq flowTable, rfl, rfl, ?_⟩
        apply enter_flow_keeps irq other.entry.irq flowTable cpu
        intro different
        exact (spares different).2 here.1.symm (here.2 ▸ found)
      · exact ⟨flowTable, rfl, rfl, cpu⟩
    · simp only [enter, sock, Option.map_some]
    · exact enter_ent_keeps irq other.entry.irq sockTable ent fun different => (spares different).1

/-- A run of calls that spare the core leaves it in its slots, by induction on the calls. -/
theorem holds_run (state : ModuleState) (id queue : Nat) (irq : Byte)
    (flowMask sockMask : BitVec 32) (later : List RpsCall)
    (holds : Holds id queue irq (irq.setWidth 32) flowMask sockMask state)
    (spares : ∀ other ∈ later, Spares state id queue irq flowMask sockMask other) :
    Holds id queue irq (irq.setWidth 32) flowMask sockMask (run rpsStep state later) := by
  induction later generalizing state with
  | nil => exact holds
  | cons other rest inductionHypothesis =>
    refine inductionHypothesis (rpsStep state other)
      (holds_step state id queue irq flowMask sockMask other holds
        (spares other List.mem_cons_self))
      fun next member different => ?_
    have spared := spares next (List.mem_cons_of_mem other member) different
    rw [← queue_step state other next] at spared
    exact spared

/-- A call with a queue and both tables puts its core in its slots. -/
theorem holds_entered (state : ModuleState) (call : RpsCall) (queue : Nat)
    (flowTable : RpsDevFlowTable) (sockTable : RpsSockFlowTable)
    (found : call.queue state = some queue)
    (flows : (state.devices call.id).flowTableAt queue = some flowTable)
    (sock : state.sock = some sockTable) :
    Holds call.id queue call.entry.irq (call.rxhash state) flowTable.mask sockTable.mask
      (rpsStep state call) := by
  have set := (check_rps_table_iff call.skb (state.rps call.id)).mpr
    ⟨queue, flowTable, sockTable, found, flows, sock⟩
  rw [step_checked state call queue found set]
  refine ⟨⟨enterFlow call.entry.irq flowTable, ?_, rfl, ?_⟩,
    enterEnt call.entry.irq sockTable, ?_, rfl, MaskedTable.read_write_self _ _ _⟩
  · rw [flow_table_enter, if_pos ⟨rfl, rfl⟩, flows, Option.map_some]
  · exact congrArg RpsDevFlow.cpu (MaskedTable.read_write_self _ _ _)
  · simp only [enter, sock, Option.map_some]

end Keeping

section WideTables

/-- The mask of a table whose size is a power of two: such a mask keeps the low bits and nothing
else. -/
def SizedByPower (mask : BitVec 32) : Prop := ∃ exponent, mask.toNat + 1 = 2 ^ exponent

/-- The mask of such a table with a slot for every core. A core is a byte, so 256 slots are
enough. -/
def Wide (mask : BitVec 32) : Prop := SizedByPower mask ∧ 255 ≤ mask.toNat

/-- All tables that are set have a slot for every core. -/
structure AllWide (state : ModuleState) : Prop where
  flows : ∀ id queue table, (state.devices id).flowTableAt queue = some table → Wide table.mask
  ents : ∀ table, state.sock = some table → Wide table.mask

/-- A wide mask keeps every bit of a core, so the index of the core's slot is the core. -/
theorem wide_key (irq : Byte) (mask : BitVec 32) (wide : Wide mask) :
    irq.setWidth 32 &&& mask = irq.setWidth 32 := by
  obtain ⟨⟨exponent, size⟩, bound⟩ := wide
  have small := irq.isLt
  have full : mask.toNat = 2 ^ exponent - 1 := by omega
  apply BitVec.eq_of_toNat_eq
  rw [BitVec.toNat_and, BitVec.toNat_setWidth_of_le (by decide), full,
    Nat.and_two_pow_sub_one_eq_mod, Nat.mod_eq_of_lt (by omega)]

theorem wide_apart (irq other : Byte) (mask : BitVec 32) (wide : Wide mask)
    (different : other ≠ irq) : other.setWidth 32 &&& mask ≠ irq.setWidth 32 &&& mask := by
  rw [wide_key irq mask wide, wide_key other mask wide]
  intro same
  have narrowed := congrArg (BitVec.setWidth 8) same
  rw [BitVec.setWidth_setWidth_of_le _ (by decide), BitVec.setWidth_setWidth_of_le _ (by decide),
    BitVec.setWidth_eq, BitVec.setWidth_eq] at narrowed
  exact different narrowed

/-- In a wide flow table two cores may be entered in any order: they go to different slots, or are
the same core. -/
theorem enter_flow_comm (irq other : Byte) (table : RpsDevFlowTable) (wide : Wide table.mask) :
    enterFlow other (enterFlow irq table) = enterFlow irq (enterFlow other table) := by
  by_cases same : other = irq
  · rw [same]
  · have apart := index_ne table _ _ (wide_apart irq other table.mask wide same)
    simp only [enterFlow, MaskedTable.read_write_of_ne _ _ _ _ apart,
      MaskedTable.read_write_of_ne _ _ _ _ (Ne.symm apart)]
    exact MaskedTable.write_comm table _ _ _ _ (Ne.symm apart)

/-- Likewise in a wide socket flow table. -/
theorem enter_ent_comm (irq other : Byte) (table : RpsSockFlowTable) (wide : Wide table.mask) :
    enterEnt other (enterEnt irq table) = enterEnt irq (enterEnt other table) := by
  by_cases same : other = irq
  · rw [same]
  · exact MaskedTable.write_comm table _ _ _ _
      (index_ne table _ _ (wide_apart irq other table.mask wide same)).symm

/-- Entering cores does not change the size of a table, so tables that are wide stay wide along
any run. -/
theorem all_wide_step (state : ModuleState) (call : RpsCall) (wide : AllWide state) :
    AllWide (rpsStep state call) := by
  cases set : vseCheckRpsTable call.skb (state.rps call.id) with
  | false =>
    rw [step_unchecked state call set]
    exact wide
  | true =>
    obtain ⟨queue, _, _, found, _⟩ := (check_rps_table_iff _ _).mp set
    rw [step_checked state call queue found set]
    constructor
    · intro id place table holds
      rw [flow_table_enter] at holds
      split at holds
      · obtain ⟨before, held, rfl⟩ := Option.map_eq_some_iff.mp holds
        exact wide.flows id place before held
      · exact wide.flows id place table holds
    · intro table holds
      obtain ⟨before, held, rfl⟩ := Option.map_eq_some_iff.mp holds
      exact wide.ents before held

theorem check_step (state : ModuleState) (call other : RpsCall) :
    vseCheckRpsTable other.skb ((rpsStep state call).rps other.id) =
      vseCheckRpsTable other.skb (state.rps other.id) := by
  have queue := queue_step state call other
  cases set : vseCheckRpsTable call.skb (state.rps call.id) with
  | false => rw [step_unchecked state call set]
  | true =>
    obtain ⟨place, _, _, found, _⟩ := (check_rps_table_iff _ _).mp set
    rw [step_checked state call place found set] at queue ⊢
    have flows (id other : Nat) : (((enter state call place).devices id).flowTableAt other).isSome =
        ((state.devices id).flowTableAt other).isSome := by
      rw [flow_table_enter]
      split
      · exact Option.isSome_map
      · rfl
    have sock : (enter state call place).sock.isSome = state.sock.isSome := Option.isSome_map
    simp only [RpsCall.queue] at queue
    simp only [vseCheckRpsTable, ModuleState.rps, queue, flows, sock]

/-- Two cores may be entered in any order in a device whose tables are wide, on the same queue or
on two of them. -/
theorem enter_device_comm (dev : NetDevice) (queue place : Nat) (irq other : Byte)
    (wide : ∀ index table, dev.flowTableAt index = some table → Wide table.mask) :
    enterDevice place other (enterDevice queue irq dev) =
      enterDevice queue irq (enterDevice place other dev) := by
  refine NetDevice.ext ?_ rfl
  by_cases same : queue = place
  · subst same
    simp only [enterDevice, List.modify_modify_eq]
    apply List.ext_getElem?
    intro index
    by_cases own : queue = index
    · subst own
      rw [List.getElem?_modify_eq, List.getElem?_modify_eq]
      cases present : dev.rx[queue]? with
      | none => rfl
      | some rx =>
        cases set : rx.rpsFlowTable with
        | none => simp [set]
        | some table =>
          have holds : dev.flowTableAt queue = some table := by
            rw [NetDevice.flowTableAt, present, Option.bind_some, set]
          simp [set, enter_flow_comm irq other table (wide queue table holds)]
    · rw [List.getElem?_modify_ne _ _ own, List.getElem?_modify_ne _ _ own]
  · exact List.modify_modify_ne _ _ _ same

/-- In wide tables two cores may be entered in any order. -/
theorem enter_comm (state : ModuleState) (one other : RpsCall) (queue place : Nat)
    (wide : AllWide state) :
    enter (enter state one queue) other place = enter (enter state other place) one queue := by
  have ents : (state.sock.map (enterEnt one.entry.irq)).map (enterEnt other.entry.irq) =
      (state.sock.map (enterEnt other.entry.irq)).map (enterEnt one.entry.irq) := by
    cases sock : state.sock with
    | none => rfl
    | some table =>
      simp only [Option.map_some, enter_ent_comm one.entry.irq _ table (wide.ents table sock)]
  have devices : (enter (enter state one queue) other place).devices =
      (enter (enter state other place) one queue).devices := by
    by_cases same : one.id = other.id
    · simp only [enter, same, Function.update_self, Function.update_idem,
        enter_device_comm _ queue place one.entry.irq other.entry.irq (wide.flows other.id)]
    · simp only [enter, Function.update_of_ne same, Function.update_of_ne (Ne.symm same)]
      exact Function.update_comm same _ _ _
  simp only [enter] at devices ⊢
  rw [devices, ents]

/-- Calls may be exchanged where the tables are wide: whether a call writes at all does not depend
on the other, and what two calls write commutes. -/
theorem step_comm (state : ModuleState) (one other : RpsCall) (wide : AllWide state) :
    rpsStep (rpsStep state one) other = rpsStep (rpsStep state other) one := by
  cases first : vseCheckRpsTable one.skb (state.rps one.id) with
  | false =>
    have unset := (check_step state other one).trans first
    rw [step_unchecked state one first, step_unchecked (rpsStep state other) one unset]
  | true =>
    cases second : vseCheckRpsTable other.skb (state.rps other.id) with
    | false =>
      have unset := (check_step state one other).trans second
      rw [step_unchecked state other second, step_unchecked (rpsStep state one) other unset]
    | true =>
      obtain ⟨queue, _, _, found, _⟩ := (check_rps_table_iff _ _).mp first
      obtain ⟨place, _, _, here, _⟩ := (check_rps_table_iff _ _).mp second
      rw [step_checked (rpsStep state one) other place ((queue_step state one other).trans here)
          ((check_step state one other).trans second),
        step_checked (rpsStep state other) one queue ((queue_step state other one).trans found)
          ((check_step state other one).trans first),
        step_checked state one queue found first, step_checked state other place here second]
      exact enter_comm state one other queue place wide

/-- What a packet entered stays. After a call with a queue and both tables, the slots that the
packet's hash leads to hold its core after any further calls that spare it: those with the same
core, and those with a core that the masks keep apart from it. In tables of at least 256 slots
every call does so, and the order of calls has no effect on the tables that they leave.

Proof: the call enters its core in both slots, and each further call leaves them as they are, by
induction. A wide mask keeps every bit of a core, so in wide tables different cores are always
kept apart, and two calls next to each other may be exchanged; a permutation is a sequence of such
exchanges. -/
theorem steered_core_stays (state : ModuleState) (call : RpsCall) (queue : Nat)
    (flowTable : RpsDevFlowTable) (sockTable : RpsSockFlowTable)
    (found : call.queue state = some queue)
    (flows : (state.devices call.id).flowTableAt queue = some flowTable)
    (sock : state.sock = some sockTable) :
    (∀ later : List RpsCall, (∀ other ∈ later,
        Spares state call.id queue call.entry.irq flowTable.mask sockTable.mask other) →
      Holds call.id queue call.entry.irq (call.rxhash state) flowTable.mask sockTable.mask
        (run rpsStep (rpsStep state call) later)) ∧
    (AllWide state →
      (∀ later : List RpsCall,
        Holds call.id queue call.entry.irq (call.rxhash state) flowTable.mask sockTable.mask
          (run rpsStep (rpsStep state call) later)) ∧
      ∀ calls others : List RpsCall, calls.Perm others →
        run rpsStep state calls = run rpsStep state others) := by
  have entered := holds_entered state call queue flowTable sockTable found flows sock
  have stays : ∀ later : List RpsCall, (∀ other ∈ later,
      Spares state call.id queue call.entry.irq flowTable.mask sockTable.mask other) →
        Holds call.id queue call.entry.irq (call.rxhash state) flowTable.mask sockTable.mask
          (run rpsStep (rpsStep state call) later) := by
    intro later spares
    apply holds_run _ _ _ _ _ _ later entered
    intro other member different
    rw [queue_step]
    exact spares other member different
  refine ⟨stays, fun wide => ⟨fun later => stays later fun other _ different => ?_, ?_⟩⟩
  · exact ⟨wide_apart _ _ _ (wide.ents sockTable sock) different,
      fun _ _ => wide_apart _ _ _ (wide.flows call.id queue flowTable flows) different⟩
  · intro calls others permuted
    exact run_perm rpsStep AllWide (fun state call => all_wide_step state call)
      (fun state one other => step_comm state one other) state calls others wide permuted

/-- The sizes that the set-up script asks for are wide. -/
example : Wide 4095 ∧ Wide 32767 :=
  ⟨⟨⟨12, by decide⟩, by decide⟩, ⟨15, by decide⟩, by decide⟩

/-- Tables of two and four slots keep core 6 while core 5 is entered. -/
theorem core_six_stays :
    let entry (irq : Byte) : VseFlowEntry := ⟨zeroMatch, irq⟩
    Holds 0 0 6 6 1 3
      (run rpsStep (rpsStep idleState ⟨0, zeroFrame, entry 6⟩) [⟨0, zeroFrame, entry 5⟩]) := by
  intro entry
  refine (steered_core_stays idleState ⟨0, zeroFrame, entry 6⟩ 0 _ _ rfl rfl rfl).1
    [⟨0, zeroFrame, entry 5⟩] ?_
  intro other member
  rw [List.mem_singleton.mp member]
  exact fun _ => ⟨by decide, fun _ _ => by decide⟩

end WideTables

end Vse.InterleavedSteering

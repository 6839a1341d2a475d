import Vse.Heaps
import Vse.ModuleRuns

/-!
# Packets and the unloading of the module

`vse_cleanup` clears the handler, unregisters the device and frees all entries of the flow
table. Meanwhile any number of packets are under way: the driver reads the handler, the
packet is looked up, and it is steered by the entry found. Each of these calls is one step,
and the steps of all packets and of the clean-up come in any order. Entries are objects on
a heap here, the flow table is the list of their addresses, and a packet that is between its
look-up and its steering holds an address.
-/

namespace Vse.Unload

open Heaps SocketBuffer FlowTable Device PacketSteering ModuleRuns Runs

/-- What a packet has behind it. Between two phases other packets and the clean-up may take their
turns. -/
inductive Phase where
  | received
  | called
  | found (entry : Nat)
  | done

/-- What `vse_cleanup` does next: it takes the handler away, unregisters the device and cleans up
the flow table, in this order. -/
inductive CleanupStep where
  | clearHandler
  | unregister
  | cleanUpFlowTable
  | finished
deriving DecidableEq

structure Packet where
  phase : Phase
  id : Nat
  skb : SkBuff

/-- The module while it is being unloaded: its entries by address and the table that links them,
what the clean-up has done, and the packets under way. -/
structure UnloadState where
  vseHandler : Bool
  registered : Bool
  entries : Heap VseFlowEntry
  flowTable : List Nat
  devices : Nat → NetDevice
  sock : Option RpsSockFlowTable
  packets : Nat → Packet
  cleanup : CleanupStep

/-- Whose turn it is. A look-up needs what the unassigned pointer of `vse_do_match` reads. -/
inductive Turn where
  | packet (number : Nat) (nwTos : Nat → Byte)
  | cleanup

/-- `vse_look_up_flow_entry` on the entries' addresses: the first that matches. The bytes
read are told apart by the numbers of the entries. -/
def lookUpAddress (nwTos : Nat → Byte) (entries : Heap VseFlowEntry) (skb : SkBuff) :
    List Nat → Except Fault (Option Nat × SkBuff)
  | [] => .ok (none, skb)
  | address :: rest => do
    let (_, entry) ← entries.deref (some address)
    let (matched, skb) := (vseDoMatch (nwTos rest.length) skb entry.vseMatch).value
    if matched then return (some address, skb)
    lookUpAddress nwTos entries skb rest

/-- `vse_delete_entry` looks at the list node of the entry and frees the entry, so that an entry
freed before is a fault. -/
def vseDeleteEntry (entries : Heap VseFlowEntry) (entry : Nat) :
    Except Fault (Heap VseFlowEntry) := do
  let _ ← entries.deref (some entry)
  entries.free (some entry)

/-- Delete the first entry until there is none. -/
def vseCleanUpFlowTable (entries : Heap VseFlowEntry) (flowTable : List Nat) :
    Except Fault (Heap VseFlowEntry) :=
  flowTable.foldlM vseDeleteEntry entries

def proceed (state : UnloadState) (number : Nat) (phase : Phase) (skb : SkBuff) : UnloadState :=
  { state with packets :=
      Function.update state.packets number ⟨phase, (state.packets number).id, skb⟩ }

/-- The next step of a packet: the driver reads the handler, `vse_handle_data` looks the
packet up, and `vse_do_rps` steers it by the entry found. -/
def packetStep (state : UnloadState) (number : Nat) (nwTos : Nat → Byte) :
    Except Fault UnloadState :=
  let ⟨phase, id, skb⟩ := state.packets number
  match phase with
  | .received => .ok (proceed state number (if state.vseHandler then .called else .done) skb)
  | .called => do
      let (entry, skb) ← lookUpAddress nwTos state.entries (withMacHeader skb) state.flowTable
      match entry with
      | none => return proceed state number .done skb
      | some address => return proceed state number (.found address) skb
  | .found address => do
      let (_, entry) ← state.entries.deref (some address)
      let (_, skb, rps) := vseDoRps skb ⟨state.devices id, state.sock⟩ entry
      let devices := Function.update state.devices id rps.dev
      return proceed { state with devices := devices, sock := rps.sock } number .done skb
  | .done => .ok state

/-- The next step of `vse_cleanup`, which waits for no packet that is under way. -/
def cleanupStep (state : UnloadState) : Except Fault UnloadState :=
  match state.cleanup with
  | .clearHandler => .ok { state with vseHandler := false, cleanup := .unregister }
  | .unregister => .ok { state with registered := false, cleanup := .cleanUpFlowTable }
  | .cleanUpFlowTable => do
      let entries ← vseCleanUpFlowTable state.entries state.flowTable
      return { state with entries := entries, flowTable := [], cleanup := .finished }
  | .finished => .ok state

def unloadStep (state : UnloadState) : Turn → Except Fault UnloadState
  | .packet number nwTos => packetStep state number nwTos
  | .cleanup => cleanupStep state

/-- The turn reads no entry that was freed. -/
def ReadsLive (before : UnloadState) (turn : Turn) : Prop :=
  unloadStep before turn ≠ .error .freedObject

/-- The turn does not steer a packet by an entry after the flow table was cleaned up. A packet
that reads the handler late, or finds nothing, is timely all the same. -/
def Timely (before : UnloadState) : Turn → Prop
  | .packet number _ =>
      ∀ entry, (before.packets number).phase = .found entry → before.cleanup ≠ .finished
  | .cleanup => True

/-- The module before the unloading: every entry of the flow table is an object of its own,
and no packet has been looked up yet. -/
structure Loaded (state : UnloadState) : Prop where
  vseHandler : state.vseHandler = true
  registered : state.registered = true
  cleanup : state.cleanup = .clearHandler
  live : ∀ address ∈ state.flowTable, state.entries.Live (some address)
  once : state.flowTable.Nodup
  received : ∀ number, (state.packets number).phase = .received

/-- Until the flow table is cleaned up, its entries are live and the packets hold entries of it.
After that there are none, and what the packets hold is freed. This is the invariant of every
order of turns. -/
structure Consistent (state : UnloadState) : Prop where
  live : ∀ address ∈ state.flowTable, state.entries.Live (some address)
  once : state.flowTable.Nodup
  member : state.cleanup ≠ .finished →
    ∀ number entry, (state.packets number).phase = .found entry → entry ∈ state.flowTable
  freed : state.cleanup = .finished → state.flowTable = [] ∧
    ∀ number entry, (state.packets number).phase = .found entry →
      state.entries.object entry = none

section Calls

/-- The addresses lead to the entries of a table, in its order. -/
def Stored (entries : Heap VseFlowEntry) : List Nat → List VseFlowEntry → Prop :=
  List.Forall₂ fun address entry => entries.object address = some entry

theorem stored_of_live (entries : Heap VseFlowEntry) (addresses : List Nat)
    (live : ∀ address ∈ addresses, entries.Live (some address)) :
    ∃ table, Stored entries addresses table := by
  induction addresses with
  | nil => exact ⟨[], .nil⟩
  | cons address rest inductionHypothesis =>
    obtain ⟨_, entry, same, present⟩ := live address List.mem_cons_self
    obtain ⟨table, stored⟩ := inductionHypothesis fun other member =>
      live other (List.mem_cons_of_mem address member)
    obtain rfl := Option.some.inj same
    exact ⟨entry :: table, .cons present stored⟩

/-- The look-up of an address finds the entry that the look-up in the table finds, so that what is
proved of the table holds of the heap as well. -/
theorem look_up_address_eq (nwTos : Nat → Byte) (entries : Heap VseFlowEntry) (skb : SkBuff)
    (addresses : List Nat) (table : List VseFlowEntry) (stored : Stored entries addresses table) :
    ∃ found, lookUpAddress nwTos entries skb addresses =
        .ok (found, (vseLookUpFlowEntry nwTos skb table).value.2) ∧
      (vseLookUpFlowEntry nwTos skb table).value.1 = found.bind entries.object ∧
      ∀ address, found = some address →
        address ∈ addresses ∧ entries.Live (some address) := by
  induction stored generalizing skb with
  | nil => exact ⟨none, rfl, rfl, fun _ never => nomatch never⟩
  | @cons address entry rest table present others inductionHypothesis =>
    have reached := entries.deref_live address entry present
    have count : table.length = rest.length := others.length_eq.symm
    cases accepts : (vseDoMatch (nwTos rest.length) skb entry.vseMatch).value with
    | mk matched after =>
      cases matched with
      | true =>
        refine ⟨some address, ?_, ?_, fun other same => ?_⟩
        · simp only [lookUpAddress, reached, accepts, ok_bind, pure_ok, if_true,
            vseLookUpFlowEntry, Traced.value_bind, count, Traced.value_pure]
        · simp only [vseLookUpFlowEntry, Traced.value_bind, count, accepts, if_true,
            Traced.value_pure, Option.bind_some, present]
        · obtain rfl := Option.some.inj same
          exact ⟨List.mem_cons_self, address, entry, rfl, present⟩
      | false =>
        obtain ⟨found, looked, entryFound, member⟩ := inductionHypothesis after
        refine ⟨found, ?_, ?_, fun other same => ?_⟩
        · simp only [lookUpAddress, reached, accepts, ok_bind, Bool.false_eq_true, if_false,
            vseLookUpFlowEntry, Traced.value_bind, count]
          exact looked
        · simp only [vseLookUpFlowEntry, Traced.value_bind, count, accepts, Bool.false_eq_true,
            if_false]
          exact entryFound
        · exact ⟨List.mem_cons_of_mem address (member other same).1, (member other same).2⟩

/-- Cleaning up frees the entries of the table and nothing else. -/
theorem clean_up_flow_table_eq (entries : Heap VseFlowEntry) (flowTable : List Nat)
    (live : ∀ address ∈ flowTable, entries.Live (some address)) (once : flowTable.Nodup) :
    ∃ after, vseCleanUpFlowTable entries flowTable = .ok after ∧
      ∀ address, after.object address =
        if address ∈ flowTable then none else entries.object address := by
  induction flowTable generalizing entries with
  | nil => exact ⟨entries, rfl, fun _ => rfl⟩
  | cons first rest inductionHypothesis =>
    obtain ⟨fresh, onceRest⟩ := List.nodup_cons.mp once
    obtain ⟨_, entry, same, present⟩ := live first List.mem_cons_self
    obtain rfl := Option.some.inj same
    have freed := entries.free_live first entry present
    have liveRest (address : Nat) (member : address ∈ rest) :
        (entries.remove first).Live (some address) := by
      apply entries.free_keeps_live (some first) _ _ freed
        (live address (List.mem_cons_of_mem first member))
      intro same
      rw [Option.some.inj same] at member
      exact fresh member
    obtain ⟨after, runs, object⟩ := inductionHypothesis (entries.remove first) liveRest onceRest
    refine ⟨after, ?_, fun address => ?_⟩
    · rw [vseCleanUpFlowTable, List.foldlM_cons, vseDeleteEntry,
        entries.deref_live first entry present]
      simp only [ok_bind, freed]
      exact runs
    · rw [object, (entries.free_object _ _ freed).2 address]
      by_cases own : address = first
      · rw [own, if_neg fresh, if_pos rfl, if_pos List.mem_cons_self]
      · rw [if_neg fun same => own (Option.some.inj same).symm]
        simp only [List.mem_cons, own, false_or]

end Calls

section Packets

variable (state : UnloadState) (number : Nat) (nwTos : Nat → Byte) (id : Nat) (skb : SkBuff)

theorem proceed_packet (phase : Phase) (seen : SkBuff) :
    (proceed state number phase seen).packets number =
      ⟨phase, (state.packets number).id, seen⟩ := by
  simp only [proceed, Function.update_self]

/-- A packet that was received reads the handler, and is done if it was taken away. -/
theorem packet_step_received (packet : state.packets number = ⟨.received, id, skb⟩) :
    packetStep state number nwTos =
      .ok (proceed state number (if state.vseHandler then .called else .done) skb) := by
  simp only [packetStep, packet]

/-- A packet that was called is looked up, through the unlocked list of live entries. -/
theorem packet_step_called (packet : state.packets number = ⟨.called, id, skb⟩)
    (found : Option Nat) (seen : SkBuff)
    (looked : lookUpAddress nwTos state.entries (withMacHeader skb) state.flowTable =
      .ok (found, seen)) :
    packetStep state number nwTos =
      .ok (proceed state number (found.elim .done .found) seen) := by
  simp only [packetStep, packet, looked, ok_bind, pure_ok]
  cases found <;> rfl

/-- The tables after the packet was steered by an entry. -/
def steered (entry : VseFlowEntry) : UnloadState :=
  let rps := (vseDoRps skb ⟨state.devices id, state.sock⟩ entry).2.2
  { state with devices := Function.update state.devices id rps.dev, sock := rps.sock }

/-- The packet is steered by an entry that is live. -/
theorem packet_step_found (address : Nat) (entry : VseFlowEntry)
    (packet : state.packets number = ⟨.found address, id, skb⟩)
    (present : state.entries.object address = some entry) :
    packetStep state number nwTos =
      .ok (proceed (steered state id skb entry) number .done
        (vseDoRps skb ⟨state.devices id, state.sock⟩ entry).2.1) := by
  simp only [packetStep, packet, state.entries.deref_live address entry present, ok_bind, pure_ok]
  rfl

/-- A packet that holds an entry that was freed reads freed memory, which is the fault in
question. -/
theorem packet_step_freed (address : Nat) (found : (state.packets number).phase = .found address)
    (dead : state.entries.object address = none) :
    packetStep state number nwTos = .error .freedObject := by
  simp only [packetStep, found, Heap.deref, dead, error_bind]

theorem packet_step_done (packet : state.packets number = ⟨.done, id, skb⟩) :
    packetStep state number nwTos = .ok state := by
  simp only [packetStep, packet]

theorem handle_packet_unmatched (device : DeviceState) (seen : SkBuff)
    (result : (vseLookUpFlowEntry nwTos (withMacHeader skb) device.flowTable).value =
      (none, seen)) :
    handlePacket ⟨device, state.devices, state.sock⟩ id nwTos skb =
      (seen, ⟨device, Function.update state.devices id (state.devices id), state.sock⟩) := by
  simp only [handlePacket, vseHandleData, Traced.value_bind, result]
  rfl

theorem handle_packet_matched (device : DeviceState) (seen : SkBuff) (held : VseFlowEntry)
    (result : (vseLookUpFlowEntry nwTos (withMacHeader skb) device.flowTable).value =
      (some held, seen)) :
    let rps := (vseDoRps seen ⟨state.devices id, state.sock⟩ held).2
    handlePacket ⟨device, state.devices, state.sock⟩ id nwTos skb =
      (rps.1, ⟨device, Function.update state.devices id rps.2.dev, rps.2.sock⟩) := by
  simp only [handlePacket, vseHandleData, Traced.value_bind, result]
  rfl

/-- Three turns of a packet in a row, while the handler is set, handle it as one call of
`vse_handle_data` does: the turns are that function, cut where others may come in between. -/
theorem uninterrupted_packet (device : DeviceState) (handler : state.vseHandler = true)
    (packet : state.packets number = ⟨.received, id, skb⟩)
    (stored : Stored state.entries state.flowTable device.flowTable) :
    let handled := handlePacket ⟨device, state.devices, state.sock⟩ id nwTos skb
    ∃ after, run (attempt unloadStep) (.ok state)
        [.packet number nwTos, .packet number nwTos, .packet number nwTos] = .ok after ∧
      after.packets number = ⟨.done, id, handled.1⟩ ∧
      after.devices = handled.2.devices ∧ after.sock = handled.2.sock := by
  intro handled
  obtain ⟨found, looked, entryFound, member⟩ := look_up_address_eq nwTos state.entries
    (withMacHeader skb) state.flowTable device.flowTable stored
  let called := proceed state number .called skb
  have first : packetStep state number nwTos = .ok called := by
    rw [packet_step_received state number nwTos id skb packet, handler, if_pos rfl]
  have calledPacket : called.packets number = ⟨.called, id, skb⟩ := by
    rw [proceed_packet, packet]
  cases result : (vseLookUpFlowEntry nwTos (withMacHeader skb) device.flowTable).value with
  | mk entry seen =>
    rw [result] at looked entryFound
    have second := packet_step_called called number nwTos id skb calledPacket found seen looked
    cases found with
    | none =>
      obtain rfl : entry = none := entryFound
      have unmatched : handled = _ := handle_packet_unmatched state nwTos id skb device seen result
      let passed := proceed called number .done seen
      have passedPacket : passed.packets number = ⟨.done, id, seen⟩ := by
        rw [proceed_packet, calledPacket]
      have third := packet_step_done passed number nwTos id seen passedPacket
      refine ⟨passed, ?_, ?_, ?_, ?_⟩
      · simp only [run_cons, run_nil, attempt_ok, unloadStep, first]
        rw [second]
        exact third
      · rw [passedPacket, unmatched]
      · rw [unmatched]
        exact (Function.update_eq_self id state.devices).symm
      · rw [unmatched]
        rfl
    | some address =>
      obtain ⟨_, held, same, present⟩ := (member address rfl).2
      obtain rfl := Option.some.inj same
      obtain rfl : entry = some held := entryFound.trans present
      let rps := (vseDoRps seen ⟨state.devices id, state.sock⟩ held).2
      have matched : handled = _ := handle_packet_matched state nwTos id skb device seen held result
      let holding := proceed called number (.found address) seen
      have holdingPacket : holding.packets number = ⟨.found address, id, seen⟩ := by
        rw [proceed_packet, calledPacket]
      have third :=
        packet_step_found holding number nwTos id seen address held holdingPacket present
      let steering := steered holding id seen held
      have steeringPacket : steering.packets number = ⟨.found address, id, seen⟩ := holdingPacket
      refine ⟨proceed steering number .done rps.1, ?_, ?_, ?_, ?_⟩
      · simp only [run_cons, run_nil, attempt_ok, unloadStep, first]
        rw [second]
        exact third
      · rw [proceed_packet, steeringPacket, matched]
      · rw [matched]
        rfl
      · rw [matched]
        rfl

end Packets

section Turns

/-- A packet that moves on leaves a consistent state consistent, if the entry that it comes
to hold is one of the table. -/
theorem Consistent.proceed {state : UnloadState} (consistent : Consistent state) (number : Nat)
    (phase : Phase) (skb : SkBuff)
    (holds : ∀ entry, phase = .found entry → entry ∈ state.flowTable) :
    Consistent (proceed state number phase skb) where
  live := consistent.live
  once := consistent.once
  member running other entry found := by
    simp only [Unload.proceed] at found
    by_cases own : other = number
    · rw [own, Function.update_self] at found
      exact holds entry found
    · rw [Function.update_of_ne own] at found
      exact consistent.member running other entry found
  freed finished := by
    obtain ⟨empty, dead⟩ := consistent.freed finished
    refine ⟨empty, ?_⟩
    intro other entry found
    simp only [Unload.proceed] at found
    by_cases own : other = number
    · rw [own, Function.update_self] at found
      have member := holds entry found
      rw [empty] at member
      cases member
    · rw [Function.update_of_ne own] at found
      exact dead other entry found

/-- A timely turn of a packet faults at nothing and leaves the state consistent. -/
theorem packet_step_timely (state : UnloadState) (number : Nat) (nwTos : Nat → Byte)
    (consistent : Consistent state) (timely : Timely state (.packet number nwTos)) :
    ∃ after, packetStep state number nwTos = .ok after ∧ Consistent after := by
  cases packet : state.packets number with
  | mk phase id skb =>
    cases phase with
    | received =>
      refine ⟨_, packet_step_received state number nwTos id skb packet,
        consistent.proceed number _ skb fun entry found => ?_⟩
      split at found
      · cases found
      · cases found
    | called =>
      obtain ⟨table, stored⟩ := stored_of_live state.entries state.flowTable consistent.live
      obtain ⟨found, looked, _, member⟩ := look_up_address_eq nwTos state.entries
        (withMacHeader skb) state.flowTable table stored
      refine ⟨_, packet_step_called state number nwTos id skb packet found _ looked,
        consistent.proceed number _ _ fun entry holds => ?_⟩
      cases found with
      | none => cases holds
      | some address =>
        rw [← Phase.found.inj holds]
        exact (member address rfl).1
    | found address =>
      have phase : (state.packets number).phase = .found address := by rw [packet]
      obtain ⟨_, entry, same, present⟩ := consistent.live address
        (consistent.member (timely address phase) number address phase)
      obtain rfl := Option.some.inj same
      have kept : Consistent (steered state id skb entry) :=
        ⟨consistent.live, consistent.once, consistent.member, consistent.freed⟩
      refine ⟨_, packet_step_found state number nwTos id skb address entry packet present,
        kept.proceed number .done _ fun _ never => nomatch never⟩
    | done => exact ⟨state, packet_step_done state number nwTos id skb packet, consistent⟩

/-- A turn of the clean-up never faults, since nothing else frees an entry, and leaves the state
consistent. -/
theorem cleanup_step_consistent (state : UnloadState) (consistent : Consistent state) :
    ∃ after, cleanupStep state = .ok after ∧ Consistent after := by
  cases next : state.cleanup with
  | clearHandler =>
    refine ⟨{ state with vseHandler := false, cleanup := .unregister }, ?_, consistent.live,
      consistent.once, fun _ => ?_, fun finished => ?_⟩
    · simp only [cleanupStep, next]
    · exact consistent.member (by rw [next]; decide)
    · cases finished
  | unregister =>
    refine ⟨{ state with registered := false, cleanup := .cleanUpFlowTable }, ?_, consistent.live,
      consistent.once, fun _ => ?_, fun finished => ?_⟩
    · simp only [cleanupStep, next]
    · exact consistent.member (by rw [next]; decide)
    · cases finished
  | cleanUpFlowTable =>
    obtain ⟨entries, runs, object⟩ :=
      clean_up_flow_table_eq state.entries state.flowTable consistent.live consistent.once
    refine ⟨{ state with entries := entries, flowTable := [], cleanup := .finished }, ?_,
      (fun _ member => nomatch member), List.nodup_nil, (fun running => absurd rfl running),
      fun _ => ⟨rfl, fun number entry found => ?_⟩⟩
    · simp only [cleanupStep, next, runs, ok_bind, pure_ok]
    · have member := consistent.member (by rw [next]; decide) number entry found
      rw [object entry, if_pos member]
  | finished => exact ⟨state, by simp only [cleanupStep, next], consistent⟩

/-- A turn reads no freed entry exactly when it is timely, and then it leaves the state
consistent. -/
theorem turn_outcome (before : UnloadState) (turn : Turn) (consistent : Consistent before) :
    (ReadsLive before turn ↔ Timely before turn) ∧
      (Timely before turn → ∃ after, unloadStep before turn = .ok after ∧ Consistent after) := by
  cases turn with
  | packet number nwTos =>
    have outcome := packet_step_timely before number nwTos consistent
    refine ⟨?_, outcome⟩
    constructor
    · intro live address found finished
      have dead := (consistent.freed finished).2 number address found
      exact live (packet_step_freed before number nwTos address found dead)
    · intro timely freed
      obtain ⟨after, runs, _⟩ := outcome timely
      cases runs.symm.trans freed
  | cleanup =>
    obtain ⟨after, runs, held⟩ := cleanup_step_consistent before consistent
    refine ⟨?_, fun _ => ⟨after, runs, held⟩⟩
    constructor
    · intro _
      trivial
    · intro _ freed
      cases runs.symm.trans freed

theorem Loaded.consistent {state : UnloadState} (loaded : Loaded state) : Consistent state where
  live := loaded.live
  once := loaded.once
  member _ number _ found := nomatch (loaded.received number).symm.trans found
  freed finished := nomatch loaded.cleanup.symm.trans finished

/-- When no freed entry is read. In every order of the turns of all packets and of the clean-up,
up to a first read of a freed entry, there is no such read if and only if no packet that has found
an entry is steered by it after the flow table was cleaned up.

Proof: in a consistent state a turn reads no freed entry exactly when it is timely, and a timely
turn leaves the state consistent: the entries that packets hold are those of the table until it is
cleaned up, and all of them are freed by that. The rest, for a whole order of turns, follows by
induction. -/
theorem no_freed_read_iff (start : UnloadState) (loaded : Loaded start) (turns : List Turn) :
    Along (attempt unloadStep) (UpToFailure ReadsLive) (.ok start) turns ↔
      Along (attempt unloadStep) (UpToFailure Timely) (.ok start) turns := by
  refine up_to_failure_congr unloadStep _ _ Consistent
    (fun before turn consistent => (turn_outcome before turn consistent).1) ?_
    start turns loaded.consistent
  intro before turn after live consistent runs
  obtain ⟨iff, outcome⟩ := turn_outcome before turn consistent
  obtain ⟨after', runs', held⟩ := outcome (iff.mp live)
  exact Except.ok.inj (runs'.symm.trans runs) ▸ held

def oneRuleLoaded : UnloadState where
  vseHandler := true
  registered := true
  entries := Heap.empty.extend ⟨{ zeroMatch with wildcards := ofpfwAll }, 6⟩
  flowTable := [0]
  devices := idleState.devices
  sock := idleState.sock
  packets _ := ⟨.received, 0, zeroFrame⟩
  cleanup := .clearHandler

theorem one_rule_loaded : Loaded oneRuleLoaded where
  vseHandler := rfl
  registered := rfl
  cleanup := rfl
  live address member := by
    obtain rfl := List.mem_singleton.mp member
    exact ⟨0, _, rfl, rfl⟩
  once := List.nodup_singleton 0
  received _ := rfl

def firstPacket : Turn := .packet 0 fun _ => 0

/-- The packet is steered before the clean-up reaches the flow table. -/
theorem steered_in_time :
    Along (attempt unloadStep) (UpToFailure ReadsLive) (.ok oneRuleLoaded)
      [firstPacket, firstPacket, .cleanup, .cleanup, firstPacket, .cleanup] := by
  refine (no_freed_read_iff oneRuleLoaded one_rule_loaded _).mpr ⟨?_, ?_, ?_, ?_, ?_, ?_, trivial⟩
  · intro before same _ _
    obtain rfl := Except.ok.inj same
    decide
  · intro before same _ _
    obtain rfl := Except.ok.inj same
    decide
  · exact fun _ _ => trivial
  · exact fun _ _ => trivial
  · intro before same _ _
    obtain rfl := Except.ok.inj same
    decide
  · exact fun _ _ => trivial

/-- The packet is steered after it. -/
theorem steered_too_late :
    Loaded oneRuleLoaded ∧
    ¬ Along (attempt unloadStep) (UpToFailure ReadsLive) (.ok oneRuleLoaded)
      [firstPacket, firstPacket, .cleanup, .cleanup, .cleanup, firstPacket] :=
  ⟨one_rule_loaded, fun live => live.2.2.2.2.2.1 _ rfl rfl⟩

end Turns

end Vse.Unload

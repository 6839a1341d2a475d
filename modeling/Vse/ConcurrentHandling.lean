import Vse.ConcurrentLookUps
import Vse.ConcurrentSteering

/-!
# Handling on many CPUs

`vse_handle_data` as a whole. Any number of packets are looked up and steered on any number of CPUs
while entries are added: every read of the list, every write to it and both stores to the tables
that steer come one at a time, in any order.

As for the shared list, the writes of an addition reach the other CPUs in the order of the source,
the one that publishes the entry last, and every read finds what was written last. The code has no
barrier that would make it so, and a compiler may publish the entry earlier. All results here are
about a module for which the assumption holds.

No turn fails. That each packet was handled at once, on the table that it found at its first read,
can be told from the outside exactly as long as all tables that packets get to separate the cores:
otherwise a packet that was looked up earlier, by the rules there were then, may store later.
-/

namespace Vse.ConcurrentHandling

open Heaps ListHeads Words SocketBuffer FlowTable Matching PacketSteering ModuleRuns
  InterleavedSteering SteeringHistory LinkedTable ConcurrentLookUps ConcurrentSteering SplitSteps
  Runs

/-- A packet as a device receives it, and what is read through the unassigned pointer while it is
looked up. -/
structure Packet where
  id : Nat
  nwTos : Nat → Byte
  skb : SkBuff

/-- Whose turn it is: a turn at the list, or the next store for a packet. -/
inductive Turn where
  | list (turn : ConcurrentLookUps.Turn)
  | store (number : Nat)

/-- The list with its readers and its writer, and the tables that packets are steered by, with the
stores that each packet has done. -/
structure World where
  list : ConcurrentLookUps.World
  tables : Split ModuleState Nat

section Machine

variable (packets : Nat → Packet)

def body (number : Nat) : VseFlowEntry → Looking → Bool × Looking :=
  tested (packets number).nwTos

def ready (number : Nat) : Looking := .start (withMacHeader (packets number).skb)

/-- One turn. A packet stores when its look-up is over and has found an entry, first to its
queue's flow table and then to the socket flow table. -/
def World.step (world : World) : Turn → Except Fault World
  | .list turn => do
      let list ← world.list.step ⟨zeroMatch, 0⟩ (body packets) turn.shared
      return { world with list := list }
  | .store number =>
      match world.list.reader number with
      | .done (some address) seen => do
          let (_, entry) ← world.list.lists.heap.deref (some address)
          let call : RpsCall := ⟨(packets number).id, seen.packet.value, entry.value⟩
          return { world with
            tables := half storeFlow storeEnt (fun _ => call) world.tables number }
      | _ => .ok world

/-- The turns one after the other, from the load of the module on. -/
def runTurns (heap : Heap (Linked VseFlowEntry)) (start : ModuleState) (turns : List Turn) :
    Except Fault World :=
  run (attempt (World.step packets))
    (.ok ⟨SharedLists.Shared.initial (moduleLoad heap) (ready packets), ⟨start, fun _ => 0⟩⟩) turns

/-- The packet is handled: looked up and, if an entry was found, steered by both stores. -/
def World.Over (world : World) (number : Nat) : Prop :=
  ∃ found seen, world.list.reader number = .done found seen ∧
    (found ≠ none → 2 ≤ world.tables.done number)

def World.packet (world : World) (number : Nat) : Option SkBuff :=
  match world.list.reader number with
  | .done none seen => some seen.packet.value
  | .done (some address) seen =>
      (world.list.lists.value address).map fun entry => vseSetRxhash seen.packet.value entry.irq
  | _ => none

def listTurns (turns : List Turn) : List ConcurrentLookUps.Turn :=
  turns.filterMap fun
    | .list turn => some turn
    | .store _ => none

theorem list_turns_list (turns : List Turn) (turn : ConcurrentLookUps.Turn) :
    listTurns (turns ++ [.list turn]) = listTurns turns ++ [turn] :=
  List.filterMap_append

theorem list_turns_store (turns : List Turn) (number : Nat) :
    listTurns (turns ++ [.store number]) = listTurns turns :=
  List.filterMap_append.trans (List.append_nil _)

end Machine

section Serial

/-- What happens at once, as the events of the specification: an entry is on the list; a packet is
handled. -/
inductive Event where
  | added (entry : VseFlowEntry)
  | handled (number : Nat)

/-- The module, and the packets that were handled. -/
structure Serial where
  module : ModuleState
  packet : Nat → Option SkBuff

variable (packets : Nat → Packet)

/-- One event. -/
def Serial.step (serial : Serial) : Event → Serial
  | .added entry =>
      let device := serial.module.device
      { serial with module := { serial.module with
          device := { device with flowTable := entry :: device.flowTable } } }
  | .handled number =>
      let arrived := packets number
      let nwTos := byNumber arrived.nwTos serial.module.device.flowTable
      let (skb, module) := handlePacket serial.module arrived.id nwTos arrived.skb
      ⟨module, Function.update serial.packet number (some skb)⟩

/-- The events one after the other, from the load of the module on. -/
def runEvents (start : ModuleState) (events : List Event) : Serial :=
  run (Serial.step packets)
    ⟨{ start with device := { start.device with flowTable := [] } }, fun _ => none⟩ events

def entries (events : List Event) : List VseFlowEntry :=
  events.filterMap fun
    | .added entry => some entry
    | .handled _ => none

def numbers (events : List Event) : List Nat :=
  events.filterMap fun
    | .added _ => none
    | .handled number => some number

theorem entries_append (events more : List Event) :
    entries (events ++ more) = entries events ++ entries more := List.filterMap_append

theorem numbers_append (events more : List Event) :
    numbers (events ++ more) = numbers events ++ numbers more := List.filterMap_append

/-- The events add what was added, handle the packets that had turns, each once, and leave what the
turns left: the entries, the tables and the packets. -/
structure Explains (start : ModuleState) (turns : List Turn) (world : World)
    (events : List Event) : Prop where
  entries : entries events = (completed (listTurns turns)).reverse
  once : (numbers events).Nodup
  numbers : ∀ number, number ∈ numbers events ↔ .look number ∈ listTurns turns
  devices : world.tables.state.devices = (runEvents packets start events).module.devices
  sock : world.tables.state.sock = (runEvents packets start events).module.sock
  packet : ∀ number, world.packet number = (runEvents packets start events).packet number

/-- All tables that a packet gets to separate the cores. -/
def AllSeparate (state : ModuleState) : Prop :=
  ∀ (call : RpsCall) queue, call.queue state = some queue →
    ∀ flowBits ∈ flowMask state call.id queue, ∀ entBits ∈ sockMask state,
      Separates flowBits ∧ Separates entBits

end Serial

section Runs

variable (packets : Nat → Packet)

/-- What a look-up returns: the entry, and the packet as it left it, with what was read. -/
abbrev Result := Option VseFlowEntry × Looking

def atomic (turns : List ConcurrentLookUps.Turn) :
    SharedLists.Atomic VseFlowEntry Looking :=
  run (SharedLists.Atomic.step ⟨zeroMatch, 0⟩ (body packets) (ready packets))
    (SharedLists.Atomic.initial []) (turns.map ConcurrentLookUps.Turn.shared)

/-- The call of `vse_do_rps` for a packet with the entry that was found. -/
def callOf (results : Nat → Result) (number : Nat) : RpsCall :=
  ⟨(packets number).id, (results number).2.packet.value, (results number).1.getD ⟨zeroMatch, 0⟩⟩

/-- The results are those of the look-ups that have begun. A look-up's result is settled at its
first turn, long before it is over. -/
def Known (results : Nat → Result) (turns : List ConcurrentLookUps.Turn) : Prop :=
  ∀ number answer, (atomic packets turns).answer number = some answer →
    results number = answer.result

theorem atomic_concat (turns : List ConcurrentLookUps.Turn) (turn : ConcurrentLookUps.Turn) :
    atomic packets (turns ++ [turn]) =
      (atomic packets turns).step ⟨zeroMatch, 0⟩ (body packets) (ready packets) turn.shared := by
  rw [atomic, List.map_append, run_append]
  rfl

theorem answer_concat (turns : List ConcurrentLookUps.Turn) (turn : ConcurrentLookUps.Turn)
    (number : Nat) (result : Result) (left : Nat)
    (answered : (atomic packets turns).answer number = some ⟨result, left⟩) :
    ∃ left, (atomic packets (turns ++ [turn])).answer number = some ⟨result, left⟩ := by
  rw [atomic, List.map_append, run_append, ← atomic,
    SharedLists.answer_kept _ _ _ number _ _ _ answered]
  exact ⟨_, rfl⟩

theorem known_before (results : Nat → Result) (turns : List ConcurrentLookUps.Turn)
    (turn : ConcurrentLookUps.Turn) (known : Known packets results (turns ++ [turn])) :
    Known packets results turns := by
  rintro number ⟨result, left⟩ answered
  obtain ⟨_, later⟩ := answer_concat packets turns turn number result left answered
  exact (known number _ later : results number = result)

/-- Where turns lead. The list is as the turns at the list make it, and the tables are as some of
the stores make them, all of packets whose look-ups have found something. -/
structure Reached (heap : Heap (Linked VseFlowEntry)) (start : ModuleState)
    (results : Nat → Result) (turns : List Turn) (world : World) (stores : List Nat) : Prop where
  agrees : ∃ addresses, SharedLists.Agrees heap (body packets) (ready packets) world.list
    (atomic packets (listTurns turns)) addresses
  tables : world.tables =
    run (half storeFlow storeEnt (callOf packets results)) ⟨start, fun _ => 0⟩ stores
  turned : ∀ number ∈ stores, .store number ∈ turns
  found : ∀ number ∈ stores, (results number).1.isSome = true ∧
    ∃ left, (atomic packets (listTurns turns)).answer number = some ⟨results number, left⟩

variable (heap : Heap (Linked VseFlowEntry)) (start : ModuleState) (results : Nat → Result)

theorem reached_list (turns : List Turn) (world : World) (stores : List Nat)
    (reached : Reached packets heap start results turns world stores)
    (turn : ConcurrentLookUps.Turn) :
    ∃ after stores, world.step packets (.list turn) = .ok after ∧
      Reached packets heap start results (turns ++ [.list turn]) after stores := by
  obtain ⟨addresses, agrees⟩ := reached.agrees
  obtain ⟨list, grown, runs, agreesAfter⟩ : ∃ after grown,
      world.list.step ⟨zeroMatch, 0⟩ (body packets) turn.shared = .ok after ∧
        SharedLists.Agrees heap (body packets) (ready packets) after
          ((atomic packets (listTurns turns)).step ⟨zeroMatch, 0⟩ (body packets) (ready packets)
            turn.shared) grown := agrees.step turn.shared
  refine ⟨⟨list, world.tables⟩, stores, ?_, ⟨grown, ?_⟩, reached.tables,
    fun number member => List.mem_append_left _ (reached.turned number member), ?_⟩
  · rw [World.step, runs]
    rfl
  · rw [list_turns_list, atomic_concat]
    exact agreesAfter
  · intro number member
    obtain ⟨isFound, left, answered⟩ := reached.found number member
    rw [list_turns_list]
    exact ⟨isFound, answer_concat packets (listTurns turns) turn number _ left answered⟩

/-- A store of a packet whose look-up is over is a half of its call, or nothing if both are done.
-/
theorem store_step (world : World) (number address : Nat) (seen : Looking)
    (entry : VseFlowEntry) (isDone : world.list.reader number = .done (some address) seen)
    (has : world.list.lists.value address = some entry) :
    world.step packets (.store number) = .ok { world with
      tables := half storeFlow storeEnt (fun _ => ⟨(packets number).id, seen.packet.value, entry⟩)
        world.tables number } := by
  obtain ⟨object, present, rfl⟩ := Option.map_eq_some_iff.mp has
  rw [World.step, isDone]
  simp only [Heap.deref_live _ _ _ present]
  rfl

/-- A store, if it is one, is that of the call that the look-up leads to. -/
theorem reached_store (turns : List Turn) (world : World) (stores : List Nat)
    (reached : Reached packets heap start results turns world stores) (number : Nat)
    (known : Known packets results (listTurns turns)) :
    ∃ after stores, world.step packets (.store number) = .ok after ∧
      Reached packets heap start results (turns ++ [.store number]) after stores := by
  obtain ⟨⟨addresses, agrees⟩, tables, turned, found⟩ := reached
  have same := list_turns_store turns number
  have still (other : Nat) (member : other ∈ stores) : .store other ∈ turns ++ [.store number] :=
    List.mem_append_left _ (turned other member)
  have idle (steps : world.step packets (.store number) = .ok world) :
      ∃ after stores, world.step packets (.store number) = .ok after ∧
        Reached packets heap start results (turns ++ [.store number]) after stores :=
    ⟨world, stores, steps, ⟨addresses, same ▸ agrees⟩, tables, still, same ▸ found⟩
  cases place : world.list.reader number with
  | done result seen =>
    cases result with
    | some address =>
      obtain ⟨entry, left, has, answered⟩ := agrees.found number place
      have result : results number = (some entry, seen) := known number _ answered
      have call : callOf packets results number =
          ⟨(packets number).id, seen.packet.value, entry⟩ := by
        rw [callOf, result]
        rfl
      refine ⟨_, stores ++ [number], store_step packets world number address seen entry place has,
        ⟨addresses, same ▸ agrees⟩, ?_, ?_, ?_⟩
      · rw [run_append, ← tables, run_cons, run_nil, ← call]
        rfl
      · intro other member
        rcases List.mem_append.mp member with earlier | now
        · exact still other earlier
        · rw [List.mem_singleton.mp now]
          exact List.mem_append_right _ List.mem_cons_self
      · intro other member
        rw [same]
        rcases List.mem_append.mp member with earlier | now
        · exact found other earlier
        · rw [List.mem_singleton.mp now, result]
          exact ⟨rfl, left, answered⟩
    | none => exact idle (by rw [World.step, place])
  | calling seen => exact idle (by rw [World.step, place])
  | testing p seen => exact idle (by rw [World.step, place])
  | passing address seen => exact idle (by rw [World.step, place])

/-- No turn fails, and what the turns reach is made by some order of stores of the packets that
found something. This does not depend on the tables' masks. -/
theorem turns_reach (turns : List Turn) (known : Known packets results (listTurns turns)) :
    ∃ world stores, runTurns packets heap start turns = .ok world ∧
      Reached packets heap start results turns world stores := by
  induction turns using List.reverseRecOn with
  | nil =>
    obtain ⟨list, addresses, runs, agrees⟩ := SharedLists.shared_runs ⟨zeroMatch, 0⟩
      (body packets) (ready packets) (threads_init heap []) []
    obtain rfl := Except.ok.inj runs
    exact ⟨_, [], rfl, ⟨addresses, agrees⟩, rfl, nofun, nofun⟩
  | append_singleton turns turn inductionHypothesis =>
    have knownBefore : Known packets results (listTurns turns) := by
      cases turn with
      | list turn =>
        rw [list_turns_list] at known
        exact known_before packets results _ turn known
      | store number => rwa [list_turns_store] at known
    obtain ⟨world, stores, runs, reached⟩ := inductionHypothesis knownBefore
    rw [runTurns] at runs ⊢
    rw [run_append, runs, run_cons, run_nil, attempt_ok]
    cases turn with
    | list turn => exact reached_list packets heap start results turns world stores reached turn
    | store number =>
      exact reached_store packets heap start results turns world stores reached number knownBefore

end Runs

section Order

variable (packets : Nat → Packet)

/-- What takes effect with a turn at the list: the addition whose last access it is; the packet
whose look-up it begins. No other turn shows in the events. -/
def takesEffect (atomic : SharedLists.Atomic VseFlowEntry Looking) :
    SharedLists.Turn VseFlowEntry → List Event
  | .add _ _ => []
  | .write =>
      match atomic.growing.pending with
      | some (entry, left) => if left ≤ 1 then [.added entry] else []
      | none => []
  | .look number => if (atomic.answer number).isNone then [.handled number] else []

/-- The events in the order in which they take effect. -/
def order (turns : List ConcurrentLookUps.Turn) : List Event :=
  logged (SharedLists.Atomic.step ⟨zeroMatch, 0⟩ (body packets) (ready packets)) takesEffect
    (SharedLists.Atomic.initial []) (turns.map ConcurrentLookUps.Turn.shared)

theorem order_concat (turns : List ConcurrentLookUps.Turn) (turn : ConcurrentLookUps.Turn) :
    order packets (turns ++ [turn]) =
      order packets turns ++ takesEffect (atomic packets turns) turn.shared := by
  rw [order, List.map_append]
  exact logged_concat _ _ _ _ _

def outcome (result : Result) : SkBuff :=
  match result.1 with
  | none => result.2.packet.value
  | some entry => vseSetRxhash result.2.packet.value entry.irq

/-- The calls of `vse_do_rps` in the order of the look-ups. -/
def steered (results : Nat → Result) (events : List Event) : List RpsCall :=
  ((numbers events).filter fun number => (results number).1.isSome).map (callOf packets results)

/-- A packet is handled by what its look-up returns. -/
theorem handled_eq (results : Nat → Result) (state : ModuleState) (number : Nat)
    (result : results number =
      scan (body packets number) state.device.flowTable (ready packets number)) :
    handlePacket state (packets number).id
        (byNumber (packets number).nwTos state.device.flowTable) (packets number).skb =
      (outcome (results number),
        run rpsStep state (steered packets results [.handled number])) := by
  obtain ⟨entryAs, packet⟩ := scan_table (packets number).nwTos
    (withMacHeader (packets number).skb) state.device.flowTable
  have looked : (results number).1 = _ := (congrArg Prod.fst result).trans entryAs
  have left : (results number).2.packet = _ := (congrArg (·.2.packet) result).trans packet
  cases found : (FlowTable.vseLookUpFlowEntry
      (byNumber (packets number).nwTos state.device.flowTable)
      (withMacHeader (packets number).skb) state.device.flowTable).value.1 with
  | none =>
    rw [found] at looked
    simp only [handlePacket, vseHandleData, Traced.value_bind, found, Traced.value_pure, outcome,
      looked, left, steered, numbers]
    simp [ModuleState.rps, looked]
  | some entry =>
    rw [found] at looked
    simp only [handlePacket, vseHandleData, Traced.value_bind, found, Traced.value_pure, outcome,
      looked, left, steered, numbers]
    simp [ModuleState.rps, looked, left, rpsStep, callOf, vseDoRps]

variable (start : ModuleState) (results : Nat → Result)

theorem steered_append (events more : List Event) :
    steered packets results (events ++ more) =
      steered packets results events ++ steered packets results more := by
  simp only [steered, numbers_append, List.filter_append, List.map_append]

theorem run_device (calls : List RpsCall) (state : ModuleState) (device : Device.DeviceState) :
    run rpsStep { state with device := device } calls =
      { run rpsStep state calls with device := device } := by
  induction calls generalizing state with
  | nil => rfl
  | cons call rest inductionHypothesis => exact inductionHypothesis (rpsStep state call)

def outcomes (turns : List ConcurrentLookUps.Turn) (number : Nat) : Option SkBuff :=
  ((atomic packets turns).answer number).map fun answer => outcome answer.result

/-- The module with the entries on the list, after the calls one after the other. -/
def settled (turns : List ConcurrentLookUps.Turn) : ModuleState :=
  { run rpsStep start (steered packets results (order packets turns)) with
    device := { start.device with flowTable := (atomic packets turns).growing.values } }

/-- The events that have taken effect lead to the entries on the list, the packets' results and
the calls in the order of the look-ups. -/
structure Ordered (turns : List ConcurrentLookUps.Turn) : Prop where
  state : runEvents packets start (order packets turns) =
    ⟨settled packets start results turns, outcomes packets turns⟩
  entries : entries (order packets turns) = (atomic packets turns).growing.values.reverse
  once : (numbers (order packets turns)).Nodup
  numbers : ∀ number, number ∈ numbers (order packets turns) ↔
    ((atomic packets turns).answer number).isSome

theorem ordered_unchanged (turns : List ConcurrentLookUps.Turn) (turn : ConcurrentLookUps.Turn)
    (ordered : Ordered packets start results turns)
    (none : takesEffect (atomic packets turns) turn.shared = [])
    (values : (atomic packets (turns ++ [turn])).growing.values =
      (atomic packets turns).growing.values)
    (answers : ∀ number, ((atomic packets (turns ++ [turn])).answer number).map (·.result) =
      ((atomic packets turns).answer number).map (·.result)) :
    Ordered packets start results (turns ++ [turn]) := by
  obtain ⟨state, added, once, handled⟩ := ordered
  have same : order packets (turns ++ [turn]) = order packets turns := by
    rw [order_concat, none, List.append_nil]
  have sameOutcomes : outcomes packets (turns ++ [turn]) = outcomes packets turns := by
    funext number
    have mapped := congrArg (Option.map outcome) (answers number)
    rwa [Option.map_map, Option.map_map] at mapped
  constructor
  · rw [same, state, settled, settled, same, values, sameOutcomes]
  · rw [same, added, values]
  · rwa [same]
  · intro number
    have begun := congrArg Option.isSome (answers number)
    rw [Option.isSome_map, Option.isSome_map] at begun
    rw [same, handled, begun]

/-- The last access of an addition. -/
theorem ordered_added (turns : List ConcurrentLookUps.Turn) (turn : ConcurrentLookUps.Turn)
    (entry : VseFlowEntry) (ordered : Ordered packets start results turns)
    (effect : takesEffect (atomic packets turns) turn.shared = [.added entry])
    (values : (atomic packets (turns ++ [turn])).growing.values =
      entry :: (atomic packets turns).growing.values)
    (answers : (atomic packets (turns ++ [turn])).answer = (atomic packets turns).answer) :
    Ordered packets start results (turns ++ [turn]) := by
  obtain ⟨state, added, once, handled⟩ := ordered
  have events : order packets (turns ++ [turn]) = order packets turns ++ [.added entry] := by
    rw [order_concat, effect]
  have sameNumbers : numbers (order packets (turns ++ [turn])) = numbers (order packets turns) := by
    rw [events, numbers_append]
    exact List.append_nil _
  constructor
  · rw [runEvents, events, run_append, ← runEvents, state, run_cons, run_nil, settled, settled,
      events, steered_append, values]
    have noCall : steered packets results [.added entry] = [] := rfl
    have sameOutcomes : outcomes packets (turns ++ [turn]) = outcomes packets turns := by
      funext number
      simp only [outcomes, answers]
    rw [noCall, List.append_nil, sameOutcomes]
    rfl
  · rw [events, entries_append, added, values, List.reverse_cons]
    rfl
  · rwa [sameNumbers]
  · intro number
    rw [sameNumbers, handled, answers]

/-- The first read of a look-up. -/
theorem ordered_handled (turns : List ConcurrentLookUps.Turn) (number : Nat)
    (known : Known packets results (turns ++ [.look number]))
    (ordered : Ordered packets start results turns)
    (fresh : (atomic packets turns).answer number = none) :
    Ordered packets start results (turns ++ [.look number]) := by
  obtain ⟨state, added, once, handled⟩ := ordered
  have values : (atomic packets (turns ++ [.look number])).growing.values =
      (atomic packets turns).growing.values := by
    rw [atomic_concat]
    rfl
  have answer : (atomic packets (turns ++ [.look number])).answer =
      Function.update (atomic packets turns).answer number
        (some ((atomic packets turns).look (body packets) (ready packets) number)) := by
    rw [atomic_concat]
    rfl
  have events : order packets (turns ++ [.look number]) =
      order packets turns ++ [.handled number] := by
    rw [order_concat, ConcurrentLookUps.Turn.shared, takesEffect, fresh]
    rfl
  have looked : results number =
      scan (body packets number) (atomic packets turns).growing.values (ready packets number) := by
    have answered := known number _ (by rw [answer, Function.update_self])
    rwa [SharedLists.Atomic.look, fresh] at answered
  have handles := handled_eq packets results (settled packets start results turns) number looked
  constructor
  · rw [runEvents, events, run_append, ← runEvents, state, run_cons, run_nil, Serial.step, handles,
      settled, settled, events, steered_append, values, run_append, run_device]
    refine congrArg (Serial.mk _) (funext fun other => ?_)
    by_cases own : other = number
    · rw [own, Function.update_self, outcomes, answer, Function.update_self, Option.map_some,
        SharedLists.Atomic.look, fresh, looked]
    · simp only [outcomes, answer, Function.update_of_ne own]
  · rw [events, values, ← added, entries_append]
    exact List.append_nil _
  · rw [events, numbers_append]
    refine List.nodup_append_comm.mp (List.nodup_cons.mpr ⟨?_, once⟩)
    change number ∉ numbers (order packets turns)
    rw [handled, fresh]
    exact Bool.false_ne_true
  · intro other
    rw [events, numbers_append, List.mem_append, handled, answer]
    by_cases own : other = number
    · simp [own, numbers]
    · simp [own, numbers]

theorem add_values (zero : VseFlowEntry) (growing : SharedLists.Growing VseFlowEntry)
    (granted : Bool) (changes : List (VseFlowEntry → VseFlowEntry)) :
    (growing.add zero granted changes).values = growing.values := by
  rw [SharedLists.Growing.add.eq_def]
  split <;> rfl

/-- One more turn keeps the events in order, by what takes effect with it. -/
theorem ordered_concat (turns : List ConcurrentLookUps.Turn) (turn : ConcurrentLookUps.Turn)
    (known : Known packets results (turns ++ [turn]))
    (ordered : Ordered packets start results turns) :
    Ordered packets start results (turns ++ [turn]) := by
  have after := atomic_concat packets turns turn
  cases turn with
  | add kzalloc add =>
    apply ordered_unchanged packets start results turns _ ordered rfl
    · rw [after]
      exact add_values _ _ _ _
    · intro number
      rw [after]
      rfl
  | write =>
    have answers : (atomic packets (turns ++ [.write])).answer = (atomic packets turns).answer := by
      rw [after]
      rfl
    cases pending : (atomic packets turns).growing.pending with
    | none =>
      apply ordered_unchanged packets start results turns _ ordered
      · simp only [ConcurrentLookUps.Turn.shared, takesEffect, pending]
      · rw [after]
        simp only [SharedLists.Atomic.step, ConcurrentLookUps.Turn.shared, SharedLists.Growing.step,
          SharedLists.Growing.write, pending]
      · exact fun number => congrArg (Option.map _) (congrFun answers number)
    | some adding =>
      obtain ⟨entry, left⟩ := adding
      by_cases last : left ≤ 1
      · apply ordered_added packets start results turns _ entry ordered
        · simp only [ConcurrentLookUps.Turn.shared, takesEffect, pending, if_pos last]
        · rw [after]
          simp only [SharedLists.Atomic.step, ConcurrentLookUps.Turn.shared,
            SharedLists.Growing.step, SharedLists.Growing.write, pending, if_pos last]
        · exact answers
      · apply ordered_unchanged packets start results turns _ ordered
        · simp only [ConcurrentLookUps.Turn.shared, takesEffect, pending, if_neg last]
        · rw [after]
          simp only [SharedLists.Atomic.step, ConcurrentLookUps.Turn.shared,
            SharedLists.Growing.step, SharedLists.Growing.write, pending, if_neg last]
        · exact fun number => congrArg (Option.map _) (congrFun answers number)
  | look number =>
    cases fresh : (atomic packets turns).answer number with
    | none => exact ordered_handled packets start results turns number known ordered fresh
    | some answer =>
      apply ordered_unchanged packets start results turns _ ordered
      · simp only [ConcurrentLookUps.Turn.shared, takesEffect, fresh]
        rfl
      · rw [after]
        rfl
      · intro other
        rw [after]
        by_cases own : other = number
        · subst own
          rw [ConcurrentLookUps.Turn.shared, SharedLists.look_answer, SharedLists.Atomic.look,
            fresh]
          rfl
        · rw [ConcurrentLookUps.Turn.shared, SharedLists.look_answer_of_ne _ other number own]

theorem ordered_turns (turns : List ConcurrentLookUps.Turn) (known : Known packets results turns) :
    Ordered packets start results turns := by
  induction turns using List.reverseRecOn with
  | nil => exact ⟨rfl, rfl, List.nodup_nil, fun _ => ⟨nofun, nofun⟩⟩
  | append_singleton turns turn inductionHypothesis =>
    exact ordered_concat packets start results turns turn known
      (inductionHypothesis (known_before packets results turns turn known))

end Order

section Explanation

variable (packets : Nat → Packet)

theorem table_completed (turns : List ConcurrentLookUps.Turn) :
    (atomic packets turns).growing.values = completed turns :=
  congrArg SharedLists.Growing.values (SharedLists.growing_eq _ _)

theorem begun_iff (turns : List ConcurrentLookUps.Turn) (number : Nat) :
    ((atomic packets turns).answer number).isSome ↔ .look number ∈ turns := by
  constructor
  · intro begun
    obtain ⟨answer, answered⟩ := Option.isSome_iff_exists.mp begun
    obtain ⟨before, after, split, _⟩ :=
      SharedLists.first_turn _ _ _ number _ _ _ rfl answered
    obtain ⟨first, last, rfl, _⟩ := split_shared turns before after number split
    exact List.mem_append_right _ List.mem_cons_self
  · intro member
    obtain ⟨before, after, rfl⟩ := List.append_of_mem member
    induction after using List.reverseRecOn with
    | nil =>
      rw [atomic_concat]
      exact congrArg Option.isSome (SharedLists.look_answer _ number)
    | append_singleton after turn inductionHypothesis =>
      obtain ⟨⟨result, left⟩, answered⟩ := Option.isSome_iff_exists.mp
        (inductionHypothesis (List.mem_append_right _ List.mem_cons_self))
      obtain ⟨_, later⟩ := answer_concat packets _ turn number result left answered
      rw [← List.cons_append, ← List.append_assoc, later]
      rfl

/-- Where the masks separate, calls that reach one place have one core. -/
theorem all_agree (state : ModuleState) (separate : AllSeparate state) (place : Place)
    (one other : RpsCall) (reached : reaches state place one = true)
    (also : reaches state place other = true) : cpu one = cpu other := by
  obtain ⟨isSet, addressed⟩ := Bool.and_eq_true_iff.mp reached
  obtain ⟨_, alsoAddressed⟩ := Bool.and_eq_true_iff.mp also
  obtain ⟨queue, flowTable, ents, found, flows, sock⟩ := (check_rps_table_iff _ _).mp isSet
  have flowBits : flowMask state one.id queue = some flowTable.mask :=
    congrArg (Option.map MaskedTable.mask) flows
  have entBits : sockMask state = some ents.mask := congrArg (Option.map MaskedTable.mask) sock
  obtain ⟨flowsSeparate, entsSeparate⟩ := separate one queue found _ flowBits _ entBits
  cases place with
  | flow id own slot =>
    obtain ⟨isOwn, leads⟩ := Bool.and_eq_true_iff.mp addressed
    obtain ⟨_, alsoLeads⟩ := Bool.and_eq_true_iff.mp alsoAddressed
    obtain ⟨rfl, queued⟩ := of_decide_eq_true isOwn
    obtain rfl : queue = own := Option.some.inj (found.symm.trans queued)
    rw [flowBits] at leads alsoLeads
    exact cpu_of_leads _ (fun _ same => Option.some.inj same ▸ flowsSeparate) slot one other leads
      alsoLeads
  | ents slot =>
    rw [addresses, entBits] at addressed alsoAddressed
    exact cpu_of_leads _ (fun _ same => Option.some.inj same ▸ entsSeparate) slot one other
      addressed alsoAddressed

variable (heap : Heap (Linked VseFlowEntry)) (start : ModuleState) (turns : List Turn)

/-- The results of the look-ups that have begun, and anything for the others. -/
def resultsOf (number : Nat) : Result :=
  match (atomic packets (listTurns turns)).answer number with
  | some answer => answer.result
  | none => (none, ready packets number)

theorem results_known : Known packets (resultsOf packets turns) (listTurns turns) := by
  intro number answer answered
  rw [resultsOf, answered]

variable (world : World) (stores : List Nat)
  (reached : Reached packets heap start (resultsOf packets turns) turns world stores)
  (finished : ∀ number, .look number ∈ listTurns turns → world.Over number)

include reached finished

theorem packet_outcome (number : Nat) :
    world.packet number = outcomes packets (listTurns turns) number := by
  obtain ⟨addresses, agrees⟩ := reached.agrees
  cases answered : (atomic packets (listTurns turns)).answer number with
  | none =>
    have follows := agrees.readers number
    rw [answered] at follows
    rw [outcomes, answered, World.packet]
    cases place : world.list.reader number with
    | calling seen => rfl
    | testing p seen => rw [place] at follows; cases follows
    | passing address seen => rw [place] at follows; cases follows
    | done found seen => rw [place] at follows; cases follows
  | some answer =>
    have begun : .look number ∈ listTurns turns := by
      rw [← begun_iff packets, answered]
      rfl
    obtain ⟨found, seen, isDone, _⟩ := finished number begun
    rw [outcomes, World.packet, isDone]
    cases found with
    | none =>
      obtain ⟨left, answered⟩ := agrees.done number isDone
      rw [answered]
      rfl
    | some address =>
      obtain ⟨entry, left, has, answered⟩ := agrees.found number isDone
      simp only [answered, has, Option.map_some, outcome]

/-- The packets that have stored are those whose look-ups found something, and each has stored
twice. -/
theorem stored_iff (number : Nat) (count : Nat) (inside : 1 ≤ count ∧ count ≤ 2) :
    count ≤ world.tables.done number ↔
      number ∈ (numbers (order packets (listTurns turns))).filter fun number =>
        (resultsOf packets turns number).1.isSome := by
  have ordered := ordered_turns packets start (resultsOf packets turns) (listTurns turns)
    (results_known packets turns)
  rw [List.mem_filter, ordered.numbers]
  constructor
  · intro stored
    rw [reached.tables, done_run] at stored
    have member : number ∈ stores := List.count_pos_iff.mp (by omega)
    obtain ⟨isFound, left, answered⟩ := reached.found number member
    exact ⟨by rw [answered]; rfl, isFound⟩
  · rintro ⟨begun, isFound⟩
    obtain ⟨found, seen, isDone, stored⟩ := finished number ((begun_iff packets _ number).mp begun)
    obtain ⟨addresses, agrees⟩ := reached.agrees
    obtain ⟨left, answered⟩ := agrees.done number isDone
    rw [resultsOf, answered] at isFound
    have twice := stored (by rintro rfl; cases isFound)
    omega

/-- Where all masks separate, the events explain the turns: then only the last core of each place
could depend on the order of stores, and all calls that reach a place have one core. -/
theorem order_explains (separate : AllSeparate start) :
    Explains packets start turns world (order packets (listTurns turns)) := by
  have ordered := ordered_turns packets start (resultsOf packets turns) (listTurns turns)
    (results_known packets turns)
  obtain ⟨firsts, seconds, sortedTables⟩ := sorted_run storeFlow storeEnt
    (callOf packets (resultsOf packets turns)) start stores_apart stores
  rw [← reached.tables] at sortedTables
  have stored := stored_iff packets heap start turns world stores reached finished
  have perm (halves : List Nat) (count : Nat) (inside : 1 ≤ count ∧ count ≤ 2)
      (once : halves.Nodup)
      (members : ∀ number, number ∈ halves ↔ count ≤ world.tables.done number) :
      (halves.map (callOf packets (resultsOf packets turns))).Perm
        (steered packets (resultsOf packets turns) (order packets (listTurns turns))) := by
    apply List.Perm.map
    apply (List.perm_ext_iff_of_nodup once (ordered.once.filter _)).mpr
    intro number
    rw [members, stored number count inside]
  have tables := sortedTables.state.trans (sorted_tables start _ firsts seconds)
  have agree := all_agree start separate
  constructor
  · rw [ordered.entries, table_completed]
  · exact ordered.once
  · intro number
    rw [ordered.numbers, begun_iff]
  · rw [tables, ordered.state]
    exact devices_perm start _ _ (perm firsts 1 (by decide) sortedTables.begun.1
      sortedTables.begun.2) fun id queue slot => agree (.flow id queue slot)
  · rw [tables, ordered.state]
    exact sock_perm start _ _ (perm seconds 2 (by decide) sortedTables.ended.1
      sortedTables.ended.2) fun slot => agree (.ents slot)
  · intro number
    rw [packet_outcome packets heap start turns world stores reached finished, ordered.state]

end Explanation

section Histories

variable (packets : Nat → Packet) (start : ModuleState)

/-- The entry that a packet finds in a table. -/
def foundIn (table : List VseFlowEntry) (number : Nat) : Option VseFlowEntry :=
  (FlowTable.vseLookUpFlowEntry (byNumber (packets number).nwTos table)
    (withMacHeader (packets number).skb) table).value.1

/-- The hash that it then has. -/
def hashIn (table : List VseFlowEntry) (number : Nat) : BitVec 32 :=
  match foundIn packets table number with
  | none => (packets number).skb.rxhash
  | some entry => entry.irq.setWidth 32

/-- What a look-up on a table returns. -/
def lookedUp (table : List VseFlowEntry) (number : Nat) : Result :=
  scan (body packets number) table (ready packets number)

theorem looked_up_entry (table : List VseFlowEntry) (number : Nat) :
    (lookedUp packets table number).1 = foundIn packets table number :=
  (scan_table (packets number).nwTos (withMacHeader (packets number).skb) table).1

/-- A look-up leaves the packet as it was, but for the header offsets. -/
theorem looked_up_packet (table : List VseFlowEntry) (number : Nat) :
    SamePacket (packets number).skb (lookedUp packets table number).2.packet.value ∧
      (lookedUp packets table number).2.packet.value.rxhash = (packets number).skb.rxhash := by
  have same : (lookedUp packets table number).2.packet.value = (FlowTable.vseLookUpFlowEntry
      (byNumber (packets number).nwTos table) (withMacHeader (packets number).skb)
      table).value.2 := congrArg Traced.value
    (scan_table (packets number).nwTos (withMacHeader (packets number).skb) table).2
  rw [same]
  exact ModuleRuns.looked_up_packet table _ _

theorem outcome_hash (table : List VseFlowEntry) (number : Nat) :
    (outcome (lookedUp packets table number)).rxhash = hashIn packets table number := by
  rw [outcome, hashIn, looked_up_entry]
  cases foundIn packets table number with
  | none => exact (looked_up_packet packets table number).2
  | some entry => rfl

/-- Events leave on the table what they add, the newest first. -/
theorem events_table (events : List Event) :
    (runEvents packets start events).module.device.flowTable = (entries events).reverse := by
  induction events using List.reverseRecOn with
  | nil => rfl
  | append_singleton events event inductionHypothesis =>
    rw [runEvents, run_append, ← runEvents, run_cons, run_nil, entries_append, List.reverse_append]
    cases event with
    | added entry => exact congrArg (entry :: ·) inductionHypothesis
    | handled number => exact inductionHypothesis

theorem later_packet (serial : Serial) (events : List Event) (number : Nat)
    (none : number ∉ numbers events) :
    (run (Serial.step packets) serial events).packet number = serial.packet number := by
  induction events generalizing serial with
  | nil => rfl
  | cons event rest inductionHypothesis =>
    cases event with
    | added entry => exact inductionHypothesis _ none
    | handled other =>
      have apart : number ≠ other := fun same => none (List.mem_cons.mpr (Or.inl same))
      have later : number ∉ numbers rest := fun member => none (List.mem_cons_of_mem other member)
      exact (inductionHypothesis _ later).trans (Function.update_of_ne apart _ _)

theorem later_tables (serial : Serial) (events : List Event) (none : numbers events = [])
    (place : Place) :
    coreIn (run (Serial.step packets) serial events).module place =
      coreIn serial.module place := by
  induction events generalizing serial with
  | nil => rfl
  | cons event rest inductionHypothesis =>
    cases event with
    | added entry => exact (inductionHypothesis _ none).trans (by cases place <;> rfl)
    | handled other => cases none

/-- No event changes which calls reach a place. -/
theorem events_reach (events : List Event) (place : Place) :
    reaches (runEvents packets start events).module place = reaches start place := by
  have first : reaches ({ start with device := { start.device with flowTable := [] } } :
      ModuleState) place = reaches start place := by
    cases place <;> rfl
  refine (run_unchanged (Serial.step packets) (fun serial => reaches serial.module place) ?_ _
    events).trans first
  intro serial event
  cases event with
  | added entry => cases place <;> rfl
  | handled number =>
    exact reaches_event place serial.module (.packet (packets number).id
      (byNumber (packets number).nwTos serial.module.device.flowTable) (packets number).skb)

/-- A packet that is handled once has the hash of the entry that it finds in the table then. -/
theorem handled_hash (front back : List Event) (number : Nat) (once : number ∉ numbers back) :
    ((runEvents packets start (front ++ .handled number :: back)).packet number).map
      SkBuff.rxhash = some (hashIn packets (entries front).reverse number) := by
  have handles := handled_eq packets (lookedUp packets (entries front).reverse)
    (runEvents packets start front).module number (by rw [events_table]; rfl)
  rw [runEvents, run_append, ← runEvents, run_cons, later_packet packets _ back number once,
    Serial.step, handles]
  simp only [Function.update_self, Option.map_some, outcome_hash]

/-- The packet that is handled last leaves its core in the places that it reaches, since no event
behind it writes to them. -/
theorem handled_last (front back : List Event) (number : Nat) (none : numbers back = [])
    (entry : VseFlowEntry) (found : foundIn packets (entries front).reverse number = some entry)
    (place : Place) (reached : reaches start place
      (callOf packets (lookedUp packets (entries front).reverse) number) = true) :
    coreIn (runEvents packets start (front ++ .handled number :: back)).module place =
      some (entry.irq.setWidth 16) := by
  have handles := handled_eq packets (lookedUp packets (entries front).reverse)
    (runEvents packets start front).module number (by rw [events_table]; rfl)
  rw [runEvents, run_append, ← runEvents, run_cons, later_tables packets _ back none, Serial.step,
    handles]
  have entryFound : (lookedUp packets (entries front).reverse number).1 = some entry :=
    (looked_up_entry packets _ number).trans found
  have calls : steered packets (lookedUp packets (entries front).reverse) [.handled number] =
      [callOf packets (lookedUp packets (entries front).reverse) number] := by
    simp [steered, numbers, entryFound]
  have core : cpu (callOf packets (lookedUp packets (entries front).reverse) number) =
      entry.irq.setWidth 16 := by
    rw [cpu, callOf, entryFound]
    rfl
  rw [calls, run_cons, run_nil, core_in_step, events_reach, if_pos reached, core]

end Histories

section Mixture

def anyMatch : VseMatch := { zeroMatch with wildcards := ofpfwAll }

/-- The entry that steers every packet to the core. -/
def anyEntry (irq : Byte) : VseFlowEntry := (Classification.Add.withCore anyMatch irq).entry

theorem any_accepted (nwTos : Byte) (skb : SkBuff) (irq : Byte) :
    accepted nwTos skb (anyEntry irq) = true := by
  have ignored {agrees : Prop} (bit : BitVec 32) (covered : ~~~ofpfwAll &&& bit = 0)
      (restricts : Restricts bit (anyEntry irq).vseMatch) : agrees := absurd covered restricts
  refine (accepted_iff nwTos skb _).mpr ⟨ignored _ (by decide), ignored _ (by decide),
    ignored _ (by decide), ignored _ (by decide), ?_⟩
  change ofpfwAll ||| testedFlags = ofpfwAll
  decide

/-- Among entries that accept every packet the one that was added last is found. -/
theorem found_any (packets : Nat → Packet) (irqs : List Byte) (number : Nat) :
    foundIn packets (irqs.map anyEntry).reverse number = irqs.getLast?.map anyEntry := by
  rcases List.eq_nil_or_concat' irqs with rfl | ⟨front, last, rfl⟩
  · rfl
  · rw [List.map_append, List.reverse_append, List.getLast?_concat, foundIn, List.map_singleton,
      List.reverse_singleton, List.singleton_append, look_up_cons, if_pos (any_accepted _ _ last)]
    rfl

/-- Add an entry for the core, access by access. -/
def adding (irq : Byte) : List ConcurrentLookUps.Turn :=
  .add true (.withCore anyMatch irq) :: List.replicate 7 .write

/-- Look a packet up, read by read, past two entries. -/
def looking (number : Nat) : List ConcurrentLookUps.Turn :=
  .look number :: List.replicate 5 (.look number)

/-- A packet is looked up, an entry is put in front, and another packet is looked up. -/
def overtaking (one other : Byte) : List ConcurrentLookUps.Turn :=
  adding one ++ looking 0 ++ adding other ++ looking 1

variable (packets : Nat → Packet) (one other : Byte)

/-- What a look-up returns is settled at its first turn. -/
theorem answer_settled (before after : List ConcurrentLookUps.Turn) (number : Nat)
    (first : ∀ turn ∈ before, turn ≠ .look number) :
    (atomic packets (before ++ .look number :: after)).answer number =
      some ⟨lookedUp packets (completed before) number, 2 * (completed before).length + 1 -
        after.countP (ConcurrentLookUps.Turn.looks number)⟩ :=
  answer_at_first_turn (fun number => (packets number).nwTos)
    (fun number => withMacHeader (packets number).skb) before after number first

theorem first_answer : (atomic packets (overtaking one other)).answer 0 =
    some ⟨lookedUp packets [anyEntry one] 0, 0⟩ := by
  have settled := answer_settled packets (adding one)
    (List.replicate 5 (.look 0) ++ adding other ++ looking 1) 0 (by simp [adding])
  have table : completed (adding one) = [anyEntry one] := rfl
  have turns : (List.replicate 5 (ConcurrentLookUps.Turn.look 0) ++ adding other ++
      looking 1).countP (ConcurrentLookUps.Turn.looks 0) = 5 := rfl
  rw [table, turns] at settled
  exact settled

theorem second_answer : (atomic packets (overtaking one other)).answer 1 =
    some ⟨lookedUp packets [anyEntry other, anyEntry one] 1, 0⟩ := by
  have settled := answer_settled packets (adding one ++ looking 0 ++ adding other)
    (List.replicate 5 (.look 1)) 1 (by simp [adding, looking])
  have table : completed (adding one ++ looking 0 ++ adding other) =
      [anyEntry other, anyEntry one] := rfl
  have turns : (List.replicate 5 (ConcurrentLookUps.Turn.look 1)).countP
      (ConcurrentLookUps.Turn.looks 1) = 5 := rfl
  rw [table, turns] at settled
  exact settled

variable (heap : Heap (Linked VseFlowEntry)) (start : ModuleState)

/-- A look-up that has no turns left is over, and has found what its answer says. -/
theorem looked_over (turns : List Turn) (world : World) (stores : List Nat)
    (results : Nat → Result) (reached : Reached packets heap start results turns world stores)
    (number : Nat) (table : List VseFlowEntry) (entry : VseFlowEntry)
    (found : foundIn packets table number = some entry)
    (answered : (atomic packets (listTurns turns)).answer number =
      some ⟨lookedUp packets table number, 0⟩) :
    ∃ address,
      world.list.reader number = .done (some address) (lookedUp packets table number).2 ∧
        world.list.lists.value address = some entry := by
  obtain ⟨addresses, agrees⟩ := reached.agrees
  obtain ⟨result, seen, isDone⟩ := agrees.ended number answered
  obtain ⟨left, alsoAnswered⟩ := agrees.done number isDone
  rw [answered, Option.some.injEq, SharedLists.Answer.mk.injEq] at alsoAnswered
  have has := congrArg Prod.fst alsoAnswered.1
  have isSeen : (lookedUp packets table number).2 = seen := congrArg Prod.snd alsoAnswered.1
  rw [looked_up_entry, found] at has
  obtain ⟨address, rfl, value⟩ := Option.bind_eq_some_iff.mp has.symm
  exact ⟨address, isSeen ▸ isDone, value⟩

/-- The two stores of a packet in a row. -/
theorem both_stores (list : ConcurrentLookUps.World) (tables : Split ModuleState Nat)
    (number address : Nat) (table : List VseFlowEntry) (entry : VseFlowEntry)
    (found : foundIn packets table number = some entry)
    (isDone : list.reader number = .done (some address) (lookedUp packets table number).2)
    (has : list.lists.value address = some entry) (fresh : tables.done number = 0) :
    run (attempt (World.step packets)) (.ok ⟨list, tables⟩) [.store number, .store number] =
      .ok ⟨list, rpsStep tables.state (callOf packets (lookedUp packets table) number),
        Function.update tables.done number 2⟩ := by
  have store (tables : Split ModuleState Nat) :=
    store_step packets ⟨list, tables⟩ number address _ entry isDone has
  rw [run_cons, attempt_ok, store, run_cons, attempt_ok, store, run_nil,
    half_half _ _ _ _ _ fresh, whole_eq, callOf, looked_up_entry, found]
  rfl

end Mixture

section Overtaken

variable (packets : Nat → Packet) (start : ModuleState)

theorem handled_split (events : List Event) (number : Nat) (member : number ∈ numbers events) :
    ∃ front back, events = front ++ .handled number :: back := by
  obtain ⟨event, isEvent, handles⟩ := List.mem_filterMap.mp member
  cases event with
  | added entry => cases handles
  | handled other =>
    obtain rfl := Option.some.inj handles
    exact List.append_of_mem isEvent

theorem last_split (events : List Event) (any : numbers events ≠ []) :
    ∃ front number back, events = front ++ .handled number :: back ∧ numbers back = [] := by
  induction events using List.reverseRecOn with
  | nil => exact absurd rfl any
  | append_singleton events event inductionHypothesis =>
    cases event with
    | handled number => exact ⟨events, number, [], rfl, rfl⟩
    | added entry =>
      have before : numbers events ≠ [] := by
        rw [numbers_append] at any
        simpa [numbers] using any
      obtain ⟨front, number, back, rfl, none⟩ := inductionHypothesis before
      refine ⟨front, number, back ++ [.added entry], by simp, ?_⟩
      rw [numbers_append, none]
      rfl

/-- The hash tells which entry was found, if the packet had none of a core. -/
theorem hash_any (irqs : List Byte) (number : Nat) (irq : Byte)
    (unhashed : (packets number).skb.rxhash = 0xffffffff#32)
    (hash : hashIn packets (irqs.map anyEntry).reverse number = irq.setWidth 32) :
    irqs.getLast? = some irq := by
  rw [hashIn, found_any] at hash
  cases last : irqs.getLast? with
  | none =>
    simp only [last, Option.map_none, unhashed] at hash
    bv_omega
  | some other =>
    simp only [last, Option.map_some] at hash
    have narrowed := congrArg (BitVec.setWidth 8) hash
    simp only [BitVec.setWidth_setWidth_of_le _ (show 8 ≤ 32 by decide), BitVec.setWidth_eq]
      at narrowed
    exact congrArg some narrowed

/-- So it tells which entries there were when the packet was handled: the first ones, the last of
them for the core in the hash. -/
theorem found_by (irqs : List Byte) (front back : List Event) (number : Nat) (irq : Byte)
    (added : entries (front ++ .handled number :: back) = irqs.map anyEntry)
    (once : (numbers (front ++ .handled number :: back)).Nodup)
    (unhashed : (packets number).skb.rxhash = 0xffffffff#32)
    (hash : ((runEvents packets start (front ++ .handled number :: back)).packet number).map
      SkBuff.rxhash = some (irq.setWidth 32)) :
    ∃ first rest, irqs = first ++ rest ∧ entries front = first.map anyEntry ∧
      first.getLast? = some irq := by
  rw [entries_append] at added
  obtain ⟨first, rest, same, isFront, _⟩ := List.map_eq_append_iff.mp added.symm
  have later : number ∉ numbers back := by
    rw [numbers_append] at once
    have apart : (number :: numbers back).Nodup := (List.nodup_append.mp once).2.1
    exact (List.nodup_cons.mp apart).1
  rw [handled_hash packets start front back number later, ← isFront] at hash
  exact ⟨first, rest, same, isFront.symm,
    hash_any packets first number irq unhashed (Option.some.inj hash)⟩

/-- Of two cores, which of them is the last tells how many there are. -/
theorem how_many (one other : Byte) (different : one ≠ other) (irqs rest : List Byte)
    (same : [one, other] = irqs ++ rest) :
    (irqs.getLast? = some one → irqs.length = 1) ∧
      (irqs.getLast? = some other → irqs.length = 2) := by
  rcases irqs with _ | ⟨head, _ | ⟨next, more⟩⟩
  · simp
  · obtain ⟨rfl, _⟩ := List.cons.inj same
    simp [different]
  · simp only [List.cons_append, List.cons.injEq, List.nil_eq, List.append_eq_nil_iff] at same
    obtain ⟨rfl, rfl, rfl, _⟩ := same
    simp [different.symm]

/-- If entries for two cores are added, and one packet is known to have found the first and the
other one the second, then the second packet was the last, and its core is in the places where it
stores. -/
theorem second_last (one other : Byte) (different : one ≠ other) (place : Place)
    (events : List Event) (added : entries events = [one, other].map anyEntry)
    (once : (numbers events).Nodup) (handled : ∀ number, number ∈ numbers events ↔ number < 2)
    (unhashed : ∀ number, (packets number).skb.rxhash = 0xffffffff#32)
    (first : ((runEvents packets start events).packet 0).map SkBuff.rxhash =
      some (one.setWidth 32))
    (second : ((runEvents packets start events).packet 1).map SkBuff.rxhash =
      some (other.setWidth 32))
    (reached : ∀ table, foundIn packets table 1 = some (anyEntry other) →
      reaches start place (callOf packets (lookedUp packets table) 1) = true) :
    coreIn (runEvents packets start events).module place = some (other.setWidth 16) := by
  have any : numbers events ≠ [] := List.ne_nil_of_mem ((handled 0).mpr (by decide))
  obtain ⟨front, number, back, rfl, none⟩ := last_split events any
  have isHandled : number < 2 := (handled number).mp (by simp [numbers])
  -- If the first packet were the last, it too would have found both entries.
  have isSecond : number = 1 := by
    by_contra notSecond
    obtain rfl : number = 0 := by omega
    have inFront : 1 ∈ numbers front := by
      have member := (handled 1).mpr (by decide)
      rw [numbers_append] at member
      have rest : numbers (.handled 0 :: back) = [0] := congrArg (0 :: ·) none
      simpa [rest] using member
    obtain ⟨before, after, rfl⟩ := handled_split front 1 inFront
    obtain ⟨all, _, alsoSame, isFront, lastOfAll⟩ :=
      found_by packets start _ _ back 0 one added once (unhashed 0) first
    rw [List.append_assoc] at added once second
    obtain ⟨irqs, _, same, isBefore, last⟩ :=
      found_by packets start _ before _ 1 other added once (unhashed 1) second
    have two := (how_many one other different irqs _ same).2 last
    have one := (how_many one other different all _ alsoSame).1 lastOfAll
    have lengths := congrArg List.length isFront
    rw [entries_append, isBefore, List.length_append, List.length_map, List.length_map] at lengths
    omega
  subst isSecond
  obtain ⟨irqs, _, _, isFront, last⟩ :=
    found_by packets start _ front back 1 other added once (unhashed 1) second
  have found : foundIn packets (entries front).reverse 1 = some (anyEntry other) := by
    rw [isFront, found_any, last]
    rfl
  exact handled_last packets start front back 1 none _ found place (reached _ found)

end Overtaken

section Stale

variable (packets : Nat → Packet) (heap : Heap (Linked VseFlowEntry)) (start : ModuleState)

/-- A packet is looked up first and stores last. -/
def stale (one other : Byte) : List Turn :=
  (overtaking one other).map .list ++ ([.store 1, .store 1] ++ [.store 0, .store 0])

theorem list_turns_map (turns : List ConcurrentLookUps.Turn) :
    listTurns (turns.map .list) = turns := by
  rw [listTurns, List.filterMap_map]
  exact List.filterMap_some

/-- Turns at the list leave the tables that steer alone, and never fail. -/
theorem lists_run (turns : List ConcurrentLookUps.Turn) :
    ∃ world results, runTurns packets heap start (turns.map .list) = .ok world ∧
      Reached packets heap start results (turns.map .list) world [] := by
  obtain ⟨world, stores, runs, reached⟩ := turns_reach packets heap start
    (resultsOf packets (turns.map .list)) (turns.map .list) (results_known packets _)
  have none : stores = [] := by
    apply List.eq_nil_iff_forall_not_mem.mpr
    intro number member
    obtain ⟨turn, _, isStore⟩ := List.mem_map.mp (reached.turned number member)
    cases isStore
  exact ⟨world, _, runs, none ▸ reached⟩

/-- The tables when the packet that was looked up last has stored, and the other one has not. -/
def overtaken (one other : Byte) : Split ModuleState Nat :=
  ⟨rpsStep start (callOf packets (lookedUp packets [anyEntry other, anyEntry one]) 1),
    Function.update (fun _ => 0) 1 2⟩

/-- Then the last store to a place of both is that of the packet that was looked up first.

Proof: the turns at the list come first, and each packet is answered from the table at its first
read. Then come the two stores of the second packet, which leave the tables overtaken, and the two
of the first packet on top of them. -/
theorem stale_run (one other : Byte) :
    ∃ world, runTurns packets heap start (stale one other) = .ok world ∧
      world.tables.state = rpsStep
        (rpsStep start (callOf packets (lookedUp packets [anyEntry other, anyEntry one]) 1))
        (callOf packets (lookedUp packets [anyEntry one]) 0) ∧
      (∀ number < 2, world.Over number) ∧
      (world.packet 0).map SkBuff.rxhash = some (one.setWidth 32) ∧
      (world.packet 1).map SkBuff.rxhash = some (other.setWidth 32) := by
  obtain ⟨⟨list, tables⟩, results, runs, reached⟩ :=
    lists_run packets heap start (overtaking one other)
  obtain rfl : tables = ⟨start, fun _ => 0⟩ := reached.tables
  have same := list_turns_map (overtaking one other)
  have firstFound : foundIn packets [anyEntry one] 0 = some (anyEntry one) :=
    found_any packets [one] 0
  have secondFound : foundIn packets [anyEntry other, anyEntry one] 1 = some (anyEntry other) :=
    found_any packets [one, other] 1
  obtain ⟨first, firstDone, firstHas⟩ := looked_over packets heap start _ _ [] results reached 0
    _ _ firstFound (same.symm ▸ first_answer packets one other)
  obtain ⟨second, secondDone, secondHas⟩ := looked_over packets heap start _ _ [] results reached 1
    _ _ secondFound (same.symm ▸ second_answer packets one other)
  dsimp only at firstDone firstHas secondDone secondHas
  have secondStores : run (attempt (World.step packets)) (.ok ⟨list, ⟨start, fun _ => 0⟩⟩)
      [.store 1, .store 1] = .ok ⟨list, overtaken packets start one other⟩ :=
    both_stores packets list _ 1 second _ _ secondFound secondDone secondHas rfl
  have firstStores := both_stores packets list (overtaken packets start one other) 0 first _ _
    firstFound firstDone firstHas rfl
  have ran : runTurns packets heap start (stale one other) =
      run (attempt (World.step packets)) (.ok ⟨list, overtaken packets start one other⟩)
        [.store 0, .store 0] := by
    rw [stale, runTurns, run_append, ← runTurns, runs, run_append, secondStores]
  refine ⟨_, ran.trans firstStores, rfl, ?_, ?_, ?_⟩
  · intro number below
    obtain rfl | rfl : number = 0 ∨ number = 1 := by omega
    · exact ⟨_, _, firstDone, fun _ => Nat.le_refl 2⟩
    · exact ⟨_, _, secondDone, fun _ => Nat.le_refl 2⟩
  · simp only [World.packet, firstDone, firstHas, Option.map_some]
    rfl
  · simp only [World.packet, secondDone, secondHas, Option.map_some]
    rfl

theorem reaches_congr (state : ModuleState) (place : Place) (one other : RpsCall)
    (id : other.id = one.id) (queueMapping : other.skb.queueMapping = one.skb.queueMapping)
    (irq : other.entry.irq = one.entry.irq) :
    reaches state place other = reaches state place one := by
  have queue (dev : NetDevice) := rxqueue_congr one.skb other.skb dev queueMapping
  have check (rps : RpsTables) : vseCheckRpsTable other.skb rps = vseCheckRpsTable one.skb rps := by
    simp only [vseCheckRpsTable, queue]
  have leads (mask : Option (BitVec 32)) (slot : Nat) :
      leadsTo other mask slot = leadsTo one mask slot := by
    simp only [leadsTo, RpsCall.key, irq]
  have same : other.queue state = one.queue state := by
    rw [RpsCall.queue, RpsCall.queue, id, queue]
  cases place with
  | flow own place slot =>
    rw [reaches, reaches, addresses, addresses, id, same, check, leads]
  | ents slot => rw [reaches, reaches, addresses, addresses, id, check, leads]

/-- A mask that does not separate cores leads calls with two of them to one place. -/
theorem shared_slot (state : ModuleState) (call : RpsCall) (bits : BitVec 32) (place : Nat → Place)
    (leads : ∀ (irq : Byte) (key : BitVec 32), reaches state (place key.toNat) (withCore call irq) =
      decide (irq.setWidth 32 &&& bits = key))
    (merges : ¬ Separates bits) :
    ∃ (place : Place) (one other : Byte), one ≠ other ∧
      reaches state place (withCore call one) = true ∧
      reaches state place (withCore call other) = true := by
  simp only [Separates, not_forall] at merges
  obtain ⟨one, other, same, different⟩ := merges
  refine ⟨place (one.setWidth 32 &&& bits).toNat, one, other, different, ?_, ?_⟩
  · rw [leads, decide_eq_true rfl]
  · rw [leads, decide_eq_true same.symm]

/-- Where not all masks separate, there are such calls. -/
theorem shared_place (state : ModuleState) (merge : ¬ AllSeparate state) :
    ∃ (call : RpsCall) (place : Place) (one other : Byte), one ≠ other ∧
      reaches state place (withCore call one) = true ∧
      reaches state place (withCore call other) = true := by
  simp only [AllSeparate, not_forall, not_and_or] at merge
  obtain ⟨call, queue, found, flowBits, flows, entBits, ents, flowsMerge | entsMerge⟩ := merge
  · exact ⟨call, shared_slot state call flowBits (.flow call.id queue)
      (reaches_flow state call queue flowBits entBits found flows ents) flowsMerge⟩
  · exact ⟨call, shared_slot state call entBits .ents
      (reaches_ent state call queue flowBits entBits found flows ents) entsMerge⟩

theorem core_in_congr (state other : ModuleState) (devices : state.devices = other.devices)
    (sock : state.sock = other.sock) (place : Place) : coreIn state place = coreIn other place := by
  cases place with
  | flow id queue slot => simp only [coreIn, ModuleState.rps, devices, sock]
  | ents slot => simp only [coreIn, sock]

/-- Packets for the device and the queue of a call, without a hash of their own. -/
def alike (call : RpsCall) (_ : Nat) : Packet :=
  ⟨call.id, fun _ => 0, { call.skb with rxhash := 0xffffffff#32 }⟩

/-- A packet that finds an entry for a core is steered to the places that a call with this core
gets to. -/
theorem alike_steered (call : RpsCall) (place : Place) (table : List VseFlowEntry) (number : Nat)
    (irq : Byte) (found : foundIn (alike call) table number = some (anyEntry irq))
    (leads : reaches start place (withCore call irq) = true) :
    reaches start place (callOf (alike call) (lookedUp (alike call) table) number) = true ∧
      cpu (callOf (alike call) (lookedUp (alike call) table) number) = irq.setWidth 16 := by
  have entry : (callOf (alike call) (lookedUp (alike call) table) number).entry = anyEntry irq := by
    rw [callOf, looked_up_entry, found]
    rfl
  have same := reaches_congr start place (withCore call irq)
    (callOf (alike call) (lookedUp (alike call) table) number) rfl
    (looked_up_packet (alike call) table number).1.queueMapping (by rw [entry]; rfl)
  refine ⟨same.trans leads, ?_⟩
  rw [cpu, entry]
  rfl

/-- Where not all masks separate, two packets may lead where no events do.

Proof: take two cores that one place is for, and two packets alike, one of which is looked up when
there is an entry for the first core and stores when there is one for the second. The place ends
with the first core. Any events that explain the hashes handle the packet with the second hash
last, and so leave the second core there. -/
theorem stale_unexplained (merge : ¬ AllSeparate start) :
    ∃ packets turns world, runTurns packets heap start turns = .ok world ∧
      (∀ number, .look number ∈ listTurns turns → world.Over number) ∧
      ∀ events, ¬ Explains packets start turns world events := by
  obtain ⟨call, place, one, other, different, reached, alsoReached⟩ := shared_place start merge
  obtain ⟨firstReaches, firstCore⟩ :=
    alike_steered start call place [anyEntry one] 0 one (found_any (alike call) [one] 0) reached
  obtain ⟨world, ran, state, finished, firstHash, secondHash⟩ :=
    stale_run (alike call) heap start one other
  have atList : listTurns (stale one other) = overtaking one other := by
    rw [stale, listTurns, List.filterMap_append, ← listTurns, list_turns_map]
    exact List.append_nil _
  have looked (number : Nat) : .look number ∈ listTurns (stale one other) ↔ number < 2 := by
    have turns : .look number ∈ overtaking one other ↔ number = 0 ∨ number = 1 := by
      simp [overtaking, adding, looking]
    rw [atList, turns]
    omega
  refine ⟨alike call, stale one other, world, ran, ?_, ?_⟩
  · intro number member
    exact finished number ((looked number).mp member)
  · rintro events ⟨added, once, handled, devices, sock, packet⟩
    rw [packet 0] at firstHash
    rw [packet 1] at secondHash
    have last : coreIn (runEvents (alike call) start events).module place =
        some (other.setWidth 16) :=
      second_last (alike call) start one other different place events (by rw [added, atList]; rfl)
        once (fun number => (handled number).trans (looked number)) (fun _ => rfl) firstHash
        secondHash
        fun table found => (alike_steered start call place table 1 other found alsoReached).1
    rw [← core_in_congr _ _ devices sock, state, core_in_step, reaches_step, if_pos firstReaches,
      firstCore] at last
    exact cpu_ne call one other different (Option.some.inj last)

end Stale

/-- Packets are handled on many CPUs while entries are added, with every read and every write of
the list and both stores to the tables one at a time and in any order, where the writes of an
addition are seen in the order of the source. No turn ever fails, whatever the tables. The packets
are explained by events one at a time, in every such run in which they are handled to their ends,
exactly when all tables that packets get to separate the cores.

Proof: the list with its readers and the stores run side by side, and no store faults since a
look-up that found an entry holds a live one. Where the cores are separated, stores to a place are
all for one core, so they may be moved to where the look-up took its table; the packets in the
order of their first reads, among the additions, are the events. Otherwise a packet that was looked
up first and stores last leads where no events do. -/
theorem handling_serial_iff (start : ModuleState) :
    (∀ (packets : Nat → Packet) (heap : Heap (Linked VseFlowEntry)) (turns : List Turn),
      ∃ world, runTurns packets heap start turns = .ok world) ∧
    ((∀ (packets : Nat → Packet) (heap : Heap (Linked VseFlowEntry)) (turns : List Turn) world,
        runTurns packets heap start turns = .ok world →
        (∀ number, .look number ∈ listTurns turns → world.Over number) →
          ∃ events, Explains packets start turns world events) ↔
      AllSeparate start) := by
  refine ⟨?_, ?_, ?_⟩
  · intro packets heap turns
    obtain ⟨world, _, ran, _⟩ := turns_reach packets heap start (resultsOf packets turns) turns
      (results_known packets turns)
    exact ⟨world, ran⟩
  · intro explained
    by_contra merge
    obtain ⟨packets, turns, world, ran, finished, unexplained⟩ :=
      stale_unexplained Heap.empty start merge
    obtain ⟨events, explanation⟩ := explained packets Heap.empty turns world ran finished
    exact unexplained events explanation
  · intro separate packets heap turns world runs finished
    obtain ⟨same, stores, ran, reached⟩ := turns_reach packets heap start
      (resultsOf packets turns) turns (results_known packets turns)
    obtain rfl : same = world := Except.ok.inj (ran.symm.trans runs)
    exact ⟨_, order_explains packets heap start turns same stores reached finished separate⟩

end Vse.ConcurrentHandling

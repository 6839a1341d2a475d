import Vse.OrderedRules
import Vse.SplitSteps
import Vse.SteeringHistory

/-!
# Steering on many CPUs

`vse_set_sock_flow_table` runs in the receive path of every CPU and takes no lock: what it holds is
the right to read. Its two stores to shared memory are one to the flow table of the packet's queue
and one to the socket flow table, and the stores of any number of packets come in any order.

The tables then need not be as any order of whole calls leaves them. They are exactly when one
side keeps all cores apart: the socket flow table or every flow table that packets get to.
-/

namespace Vse.ConcurrentSteering

open SocketBuffer FlowTable PacketSteering ModuleRuns InterleavedSteering SteeringHistory
  OrderedRules SplitSteps Runs

section Stores

/-- The first store of `vse_set_sock_flow_table`, with what leads to it. -/
def storeFlow (state : ModuleState) (call : RpsCall) : ModuleState :=
  let dev := state.devices call.id
  match vseGetRxqueue call.skb dev with
  | none => state
  | some index =>
    match dev.flowTableAt index, state.sock with
    | some flowTable, some _ =>
        let rflow := { flowTable.read call.key with cpu := cpu call }
        { state with
          devices := Function.update state.devices call.id
            (dev.setQueue index ⟨some (flowTable.write call.key rflow)⟩) }
    | _, _ => state

/-- The second one. Which tables there are was found out before the first; no store changes it, so
it may as well be found out again. -/
def storeEnt (state : ModuleState) (call : RpsCall) : ModuleState :=
  let dev := state.devices call.id
  match vseGetRxqueue call.skb dev with
  | none => state
  | some index =>
    match dev.flowTableAt index, state.sock with
    | some _, some sockFlowTable =>
        { state with sock := some (sockFlowTable.write call.key (cpu call)) }
    | _, _ => state

variable (state : ModuleState) (call : RpsCall)

theorem store_flow_eq :
    storeFlow state call = { state with devices := (rpsStep state call).devices } := by
  obtain ⟨device, devices, sock⟩ := state
  simp only [storeFlow, rpsStep, vseDoRps, vseSetSockFlowTable, ModuleState.rps]
  cases vseGetRxqueue call.skb (devices call.id) with
  | none => simp only [Function.update_eq_self]
  | some index =>
    cases flows : (devices call.id).flowTableAt index with
    | none => simp only [flows, Function.update_eq_self]
    | some flowTable =>
      cases sock with
      | none => simp only [flows, Function.update_eq_self]
      | some ents => simp only [flows, enterCore, RpsCall.key, cpu]

theorem store_ent_eq :
    storeEnt state call = { state with sock := (rpsStep state call).sock } := by
  obtain ⟨device, devices, sock⟩ := state
  simp only [storeEnt, rpsStep, vseDoRps, vseSetSockFlowTable, ModuleState.rps]
  cases vseGetRxqueue call.skb (devices call.id) with
  | none => rfl
  | some index =>
    cases flows : (devices call.id).flowTableAt index with
    | none => simp only [flows]
    | some flowTable =>
      cases sock with
      | none => simp only [flows]
      | some ents => simp only [flows, enterCore, RpsCall.key, cpu]

/-- A call leaves the socket flow table set or unset, as it was. -/
theorem sock_set_step : (rpsStep state call).sock.isSome = state.sock.isSome := by
  have masks := congrArg Option.isSome (sock_mask_step state call)
  rwa [sockMask, sockMask, Option.isSome_map, Option.isSome_map] at masks

variable (other : RpsCall)

theorem devices_after_ent :
    (rpsStep (storeEnt state call) other).devices = (rpsStep state other).devices := by
  have check : vseCheckRpsTable other.skb ((storeEnt state call).rps other.id) =
      vseCheckRpsTable other.skb (state.rps other.id) := by
    simp only [store_ent_eq, vseCheckRpsTable, ModuleState.rps, sock_set_step]
  cases isSet : vseCheckRpsTable other.skb (state.rps other.id) with
  | false =>
    rw [step_unchecked state other isSet, step_unchecked _ other (check.trans isSet), store_ent_eq]
  | true =>
    obtain ⟨queue, _, _, found, _⟩ := (check_rps_table_iff _ _).mp isSet
    have same : other.queue (storeEnt state call) = some queue := by
      rw [store_ent_eq]
      exact found
    rw [step_checked state other queue found isSet,
      step_checked _ other queue same (check.trans isSet), store_ent_eq]
    rfl

theorem sock_after_flow :
    (rpsStep (storeFlow state call) other).sock = (rpsStep state other).sock := by
  have check : vseCheckRpsTable other.skb ((storeFlow state call).rps other.id) =
      vseCheckRpsTable other.skb (state.rps other.id) := by
    rw [← check_step state call other]
    simp only [store_flow_eq, vseCheckRpsTable, ModuleState.rps, sock_set_step]
  cases isSet : vseCheckRpsTable other.skb (state.rps other.id) with
  | false =>
    rw [step_unchecked state other isSet, step_unchecked _ other (check.trans isSet), store_flow_eq]
  | true =>
    obtain ⟨queue, _, _, found, _⟩ := (check_rps_table_iff _ _).mp isSet
    have same : other.queue (storeFlow state call) = some queue := by
      rw [store_flow_eq]
      exact (queue_step state call other).trans found
    rw [step_checked state other queue found isSet,
      step_checked _ other queue same (check.trans isSet), store_flow_eq]
    rfl

/-- A first store and a second one may be exchanged, since they write to different tables and
neither decides what the other writes. -/
theorem stores_apart :
    storeEnt (storeFlow state other) call = storeFlow (storeEnt state call) other := by
  rw [store_ent_eq (storeFlow state other), store_flow_eq (storeEnt state call), sock_after_flow,
    devices_after_ent, store_flow_eq, store_ent_eq]

/-- The two stores in a row are the call, which makes calls steps in two halves. -/
theorem stores_in_a_row : whole storeFlow storeEnt state call = rpsStep state call := by
  rw [whole, store_ent_eq, sock_after_flow, store_flow_eq]
  rfl

theorem whole_eq : whole storeFlow storeEnt = rpsStep :=
  funext fun state => funext fun call => stores_in_a_row state call

end Stores

section Places

/-- The mask leaves any two cores different, so that each has a slot of its own. -/
def Separates (mask : BitVec 32) : Prop :=
  ∀ irq other : Byte, irq.setWidth 32 &&& mask = other.setWidth 32 &&& mask → irq = other

/-- Among the masks of tables whose size is a power of two, those of at least 256 slots do. -/
theorem separates_iff_wide (mask : BitVec 32) (sized : SizedByPower mask) :
    Separates mask ↔ Wide mask := by
  constructor
  · intro separates
    refine ⟨sized, ?_⟩
    by_contra narrow
    obtain ⟨exponent, size⟩ := sized
    have small : exponent ≤ 7 := by
      by_contra large
      have := Nat.pow_le_pow_right (by decide : 0 < 2) (show 8 ≤ exponent by omega)
      omega
    -- All bits that the mask keeps are below the one that core 128 has.
    have lost : (128 : Byte).setWidth 32 &&& mask = (0 : Byte).setWidth 32 &&& mask := by
      apply BitVec.eq_of_toNat_eq
      have full : mask.toNat = 2 ^ exponent - 1 := by omega
      rw [BitVec.toNat_and, BitVec.toNat_and, full, Nat.and_two_pow_sub_one_eq_mod,
        Nat.and_two_pow_sub_one_eq_mod]
      interval_cases exponent <;> rfl
    cases separates 128 0 lost
  · intro wide irq other same
    by_contra different
    exact wide_apart other irq mask wide different same

/-- The sizes that the set-up script asks for separate cores. -/
example : Separates 4095 ∧ Separates 32767 :=
  ⟨(separates_iff_wide 4095 ⟨12, rfl⟩).mpr ⟨⟨12, rfl⟩, by decide⟩,
    (separates_iff_wide 32767 ⟨15, rfl⟩).mpr ⟨⟨15, rfl⟩, by decide⟩⟩

/-- The socket flow table, if it is set, has a slot for every core. -/
def EntsSeparate (state : ModuleState) : Prop := ∀ mask ∈ sockMask state, Separates mask

/-- Each flow table that a packet can get to has, too, a slot for every core. Queues that the
device does not use are not asked about. -/
def FlowsSeparate (state : ModuleState) : Prop :=
  ∀ (call : RpsCall) queue, call.queue state = some queue →
    ∀ mask ∈ flowMask state call.id queue, Separates mask

variable (state : ModuleState)

/-- After calls each place holds the core of the last that reaches it, and what it held before if
none does. -/
theorem core_in_calls (calls : List RpsCall) (place : Place) :
    coreIn (run rpsStep state calls) place =
      (decision (reaches state place) cpu calls.reverse).or (coreIn state place) := by
  have written := run_last_write rpsStep (fun _ call => [call]) (fun state => coreIn state place)
    (fun state => reaches state place) (fun call => some (cpu call))
    (fun state call => funext fun other => reaches_step state call place other)
    (fun state call => by
      rw [List.reverse_singleton, List.find?_singleton, core_in_step]
      split <;> rfl) state calls
  rw [logged_events] at written
  refine written.trans ?_
  rw [decision]
  cases calls.reverse.find? (reaches state place) <;> rfl

theorem core_in_perm (calls others : List RpsCall) (permuted : calls.Perm others) (place : Place)
    (agree : ∀ one other, reaches state place one = true → reaches state place other = true →
      cpu one = cpu other) :
    coreIn (run rpsStep state calls) place = coreIn (run rpsStep state others) place := by
  have pairwise : others.reverse.Pairwise fun one other => reaches state place one = true →
      reaches state place other = true → cpu one = cpu other :=
    List.pairwise_of_forall_mem_list fun one _ other _ => agree one other
  rw [core_in_calls, core_in_calls, decision_perm _ _ _ _ pairwise
    ((List.reverse_perm calls).trans (permuted.trans (List.reverse_perm others).symm))]

theorem cpu_of_leads (mask : Option (BitVec 32)) (separates : ∀ bits ∈ mask, Separates bits)
    (slot : Nat) (one other : RpsCall) (leads : leadsTo one mask slot = true)
    (also : leadsTo other mask slot = true) : cpu one = cpu other := by
  cases mask with
  | none => cases leads
  | some bits =>
    simp only [leadsTo, Option.map_some, beq_iff_eq, Option.some.injEq] at leads also
    have keys : one.key &&& bits = other.key &&& bits :=
      BitVec.eq_of_toNat_eq (leads.trans also.symm)
    exact congrArg (BitVec.setWidth 16) (separates bits rfl _ _ keys)

theorem flow_ext (one other : Option RpsDevFlow)
    (cpu : one.map RpsDevFlow.cpu = other.map RpsDevFlow.cpu)
    (lastQtail : one.map RpsDevFlow.lastQtail = other.map RpsDevFlow.lastQtail) : one = other := by
  cases one with
  | none => exact (Option.map_eq_none_iff.mp cpu.symm).symm
  | some flow =>
    obtain ⟨another, rfl, sameCpu⟩ := Option.map_eq_some_iff.mp cpu.symm
    cases flow
    cases another
    exact congrArg some (RpsDevFlow.mk.injEq .. ▸ ⟨sameCpu.symm, Option.some.inj lastQtail⟩)

/-- How many queues a device has, and how many of them are in use. -/
def queues (state : ModuleState) (id : Nat) : Nat × Nat :=
  ((state.devices id).rx.length, (state.devices id).realNumRxQueues)

/-- Calls that reach a slot of the socket flow table have the same core, if the mask separates. -/
theorem ents_agree (separate : EntsSeparate state) (slot : Nat) (one other : RpsCall)
    (reached : reaches state (.ents slot) one = true)
    (also : reaches state (.ents slot) other = true) : cpu one = cpu other :=
  cpu_of_leads (sockMask state) separate slot one other (Bool.and_eq_true_iff.mp reached).2
    (Bool.and_eq_true_iff.mp also).2

theorem flows_agree (separate : FlowsSeparate state) (id queue slot : Nat) (one other : RpsCall)
    (reached : reaches state (.flow id queue slot) one = true)
    (also : reaches state (.flow id queue slot) other = true) : cpu one = cpu other := by
  obtain ⟨own, leads⟩ := Bool.and_eq_true_iff.mp (Bool.and_eq_true_iff.mp reached).2
  obtain ⟨_, alsoLeads⟩ := Bool.and_eq_true_iff.mp (Bool.and_eq_true_iff.mp also).2
  obtain ⟨rfl, queued⟩ := of_decide_eq_true own
  exact cpu_of_leads _ (separate one queue queued) slot one other leads alsoLeads

theorem devices_ext (one other : ModuleState) (same : ∀ id, queues one id = queues other id)
    (masks : ∀ id queue, flowMask one id queue = flowMask other id queue)
    (cores : ∀ id queue slot, coreIn one (.flow id queue slot) = coreIn other (.flow id queue slot))
    (tails : ∀ id queue slot, tailIn one id queue slot = tailIn other id queue slot) :
    one.devices = other.devices := by
  have tables (id queue : Nat) :
      (one.devices id).flowTableAt queue = (other.devices id).flowTableAt queue := by
    apply MaskedTable.optional_ext _ _ (masks id queue)
    intro slot
    apply flow_ext
    · rw [Option.map_bind, Option.map_bind]
      exact cores id queue slot
    · rw [Option.map_bind, Option.map_bind]
      exact tails id queue slot
  funext id
  obtain ⟨length, inUse⟩ := Prod.mk.inj (same id)
  refine NetDevice.ext (List.ext_getElem? fun queue => ?_) inUse
  have here := tables id queue
  by_cases inside : queue < (one.devices id).rx.length
  · have insideOther : queue < (other.devices id).rx.length := length ▸ inside
    simp only [NetDevice.flowTableAt, List.getElem?_eq_getElem inside,
      List.getElem?_eq_getElem insideOther, Option.bind_some] at here
    rw [List.getElem?_eq_getElem inside, List.getElem?_eq_getElem insideOther]
    exact congrArg (some ∘ NetdevRxQueue.mk) here
  · rw [List.getElem?_eq_none (Nat.not_lt.mp inside),
      List.getElem?_eq_none (length ▸ Nat.not_lt.mp inside)]

/-- A call leaves the queues of every device. -/
theorem queues_step (call : RpsCall) (id : Nat) :
    queues (rpsStep state call) id = queues state id := by
  cases isSet : vseCheckRpsTable call.skb (state.rps call.id) with
  | false => rw [step_unchecked state call isSet]
  | true =>
    obtain ⟨queue, _, _, found, _⟩ := (check_rps_table_iff _ _).mp isSet
    rw [step_checked state call queue found isSet, queues, enter]
    by_cases own : id = call.id
    · subst own
      simp only [Function.update_self, enterDevice, List.length_modify, queues]
    · simp only [Function.update_of_ne own, queues]

variable (calls others : List RpsCall) (permuted : calls.Perm others)

theorem unchanged_calls {α : Type} (observe : ModuleState → α)
    (unchanged : ∀ state call, observe (rpsStep state call) = observe state) :
    observe (run rpsStep state calls) = observe (run rpsStep state others) :=
  (run_unchanged rpsStep observe unchanged state calls).trans
    (run_unchanged rpsStep observe unchanged state others).symm

include permuted

/-- Where the calls that reach a slot of the socket flow table agree on the core, they may come in
any order for that table: whichever is last leaves the same. -/
theorem sock_perm (agree : ∀ slot one other, reaches state (.ents slot) one = true →
      reaches state (.ents slot) other = true → cpu one = cpu other) :
    (run rpsStep state calls).sock = (run rpsStep state others).sock := by
  apply MaskedTable.optional_ext _ _ (unchanged_calls state calls others sockMask sock_mask_step)
  intro slot
  exact core_in_perm state calls others permuted (.ents slot) (agree slot)

/-- Likewise for the flow tables. -/
theorem devices_perm (agree : ∀ id queue slot one other, reaches state (.flow id queue slot) one =
      true → reaches state (.flow id queue slot) other = true → cpu one = cpu other) :
    (run rpsStep state calls).devices = (run rpsStep state others).devices := by
  apply devices_ext
  · intro id
    exact unchanged_calls state calls others (fun state => queues state id)
      fun state call => queues_step state call id
  · intro id queue
    exact unchanged_calls state calls others (fun state => flowMask state id queue)
      fun state call => flow_mask_step state call id queue
  · intro id queue slot
    exact core_in_perm state calls others permuted (.flow id queue slot) (agree id queue slot)
  · intro id queue slot
    exact unchanged_calls state calls others (fun state => tailIn state id queue slot)
      fun state call => tail_in_step state call id queue slot

end Places

section Orders

variable (state : ModuleState)

theorem run_calls (calls : List RpsCall) :
    run rpsStep state calls = run storeEnt (run storeFlow state calls) calls := by
  rw [← whole_eq]
  exact run_whole storeFlow storeEnt stores_apart state calls

/-- First stores in one order and second stores in another leave in the flow tables what calls in
the first order leave, and in the socket flow table what calls in the second order leave. From
here on a run is two orders. -/
theorem sorted_tables (call : Nat → RpsCall) (firsts seconds : List Nat) :
    sorted storeFlow storeEnt call state firsts seconds =
      { device := state.device
        devices := (run rpsStep state (firsts.map call)).devices
        sock := (run rpsStep state (seconds.map call)).sock } := by
  have flowsKeep (state : ModuleState) (calls : List RpsCall) :
      ((run storeFlow state calls).device, (run storeFlow state calls).sock) =
        (state.device, state.sock) :=
    run_unchanged storeFlow (fun state => (state.device, state.sock))
      (fun state call => by rw [store_flow_eq]) state calls
  have entsKeep (state : ModuleState) (calls : List RpsCall) :
      ((run storeEnt state calls).device, (run storeEnt state calls).devices) =
        (state.device, state.devices) :=
    run_unchanged storeEnt (fun state => (state.device, state.devices))
      (fun state call => by rw [store_ent_eq]) state calls
  have device : (sorted storeFlow storeEnt call state firsts seconds).device = state.device := by
    rw [sorted, (Prod.mk.inj (entsKeep _ _)).1, (Prod.mk.inj (flowsKeep _ _)).1]
  have devices : (sorted storeFlow storeEnt call state firsts seconds).devices =
      (run rpsStep state (firsts.map call)).devices := by
    rw [sorted, (Prod.mk.inj (entsKeep _ _)).2, run_calls, (Prod.mk.inj (entsKeep _ _)).2]
  have sock : (sorted storeFlow storeEnt call state firsts seconds).sock =
      (run rpsStep state (seconds.map call)).sock := by
    have swap := run_swap storeFlow storeEnt stores_apart
    rw [sorted, run_calls, swap, swap, (Prod.mk.inj (flowsKeep _ _)).2,
      (Prod.mk.inj (flowsKeep _ _)).2]
  rw [← device, ← devices, ← sock]

theorem core_in_flow (call : Nat → RpsCall) (firsts seconds : List Nat) (id queue slot : Nat) :
    coreIn (sorted storeFlow storeEnt call state firsts seconds) (.flow id queue slot) =
      (decision (reaches state (.flow id queue slot)) cpu (firsts.map call).reverse).or
        (coreIn state (.flow id queue slot)) := by
  rw [sorted_tables, ← core_in_calls]
  rfl

theorem core_in_ents (call : Nat → RpsCall) (firsts seconds : List Nat) (slot : Nat) :
    coreIn (sorted storeFlow storeEnt call state firsts seconds) (.ents slot) =
      (decision (reaches state (.ents slot)) cpu (seconds.map call).reverse).or
        (coreIn state (.ents slot)) := by
  rw [sorted_tables, ← core_in_calls]
  rfl

/-- What whole calls leave in a place that the last of them reaches is that one's core. So if each
packet reaches a place with another core in it, no order of whole calls has led there. -/
theorem not_in_order (call : Nat → RpsCall) (firsts seconds : List Nat) (any : firsts ≠ [])
    (blamed : ∀ packet ∈ firsts, ∃ place, reaches state place (call packet) = true ∧
      coreIn (sorted storeFlow storeEnt call state firsts seconds) place ≠
        some (cpu (call packet)))
    (order : List Nat) (permuted : order.Perm firsts) :
    sorted storeFlow storeEnt call state firsts seconds ≠
      sorted storeFlow storeEnt call state order order := by
  intro same
  rcases List.eq_nil_or_concat' order with rfl | ⟨front, last, rfl⟩
  · exact any permuted.nil_eq.symm
  · obtain ⟨place, reached, other⟩ := blamed last (permuted.mem_iff.mp (by simp))
    apply other
    rw [same, sorted, ← run_calls, core_in_calls, List.map_append, List.map_singleton,
      List.reverse_concat, decision, find_cons, if_pos reached]
    rfl

end Orders

section Mixtures

theorem mask_xor (one other mask : BitVec 32) :
    (one ^^^ other) &&& mask = (one &&& mask) ^^^ (other &&& mask) := by
  ext bit
  simp only [BitVec.getElem_and, BitVec.getElem_xor, Bool.and_xor_distrib_right]

/-- A mask that does not separate cores loses all that there is to some core: the bits in which
two cores of one slot differ. -/
theorem lost_core (mask : BitVec 32) (merges : ¬ Separates mask) :
    ∃ irq : Byte, irq ≠ 0 ∧ irq.setWidth 32 &&& mask = 0 := by
  by_contra none
  apply merges
  intro one other same
  by_contra different
  refine none ⟨one ^^^ other, fun zero => different (BitVec.xor_eq_zero_iff.mp zero), ?_⟩
  rw [BitVec.setWidth_xor, mask_xor, same, BitVec.xor_self]
  rfl

/-- First stores of packets in one order and second stores in another lead where whole calls in no
order lead. -/
def Mixes (state : ModuleState) : Prop :=
  ∃ (packet : Nat → RpsCall) (firsts seconds : List Nat), firsts.Nodup ∧ seconds.Perm firsts ∧
    ∀ order : List Nat, order.Perm firsts →
      sorted storeFlow storeEnt packet state firsts seconds ≠
        sorted storeFlow storeEnt packet state order order

/-- The call with another core. -/
def withCore (call : RpsCall) (irq : Byte) : RpsCall :=
  { call with entry := { call.entry with irq := irq } }

/-- Packets of one queue, with cores of their own. -/
def packets (call : RpsCall) (core : Nat → Byte) (number : Nat) : RpsCall :=
  withCore call (core number)

variable (state : ModuleState) (call : RpsCall) (core : Nat → Byte) (firsts seconds : List Nat)
  (number holder : Nat)

theorem cpu_ne (irq other : Byte) (different : irq ≠ other) :
    cpu (withCore call irq) ≠ cpu (withCore call other) := by
  intro same
  have narrowed := congrArg (BitVec.setWidth 8) same
  simp only [cpu, withCore, BitVec.setWidth_setWidth_of_le _ (show 8 ≤ 16 by decide),
    BitVec.setWidth_eq] at narrowed
  exact different narrowed

/-- Where a packet leads to, there is another core if the last that leads there has another core.
The packet then cannot have been the last of whole calls. -/
theorem blamed (place : Place) (bits : BitVec 32) (stored : List Nat)
    (leads : ∀ irq, reaches state place (withCore call irq) =
      decide (irq.setWidth 32 &&& bits = (core number).setWidth 32 &&& bits))
    (held : coreIn (sorted storeFlow storeEnt (packets call core) state firsts seconds) place =
      (decision (reaches state place) cpu (stored.map (packets call core)).reverse).or
        (coreIn state place))
    (different : core holder ≠ core number)
    (last : stored.reverse.find? (fun other => decide ((core other).setWidth 32 &&& bits =
      (core number).setWidth 32 &&& bits)) = some holder) :
    ∃ place, reaches state place (packets call core number) = true ∧
      coreIn (sorted storeFlow storeEnt (packets call core) state firsts seconds) place ≠
        some (cpu (packets call core number)) := by
  refine ⟨place, ?_, ?_⟩
  · rw [packets, leads, decide_eq_true rfl]
  · rw [held, decision, ← List.map_reverse, List.find?_map]
    simp only [Function.comp_def, packets, leads, last, Option.map_some, Option.some_or]
    exact fun same => cpu_ne call _ _ different (Option.some.inj same)

variable (queue : Nat) (flowBits entBits : BitVec 32)
  (found : call.queue state = some queue) (flows : flowMask state call.id queue = some flowBits)
  (ents : sockMask state = some entBits)

include found flows ents

theorem check_with_core (irq : Byte) :
    vseCheckRpsTable (withCore call irq).skb (state.rps (withCore call irq).id) = true := by
  obtain ⟨flowTable, flows, _⟩ := Option.map_eq_some_iff.mp flows
  obtain ⟨sockFlowTable, sock, _⟩ := Option.map_eq_some_iff.mp ents
  exact (check_rps_table_iff _ _).mpr ⟨queue, flowTable, sockFlowTable, found, flows, sock⟩

/-- Which slot of the queue's flow table the core leads to. -/
theorem reaches_flow (irq : Byte) (key : BitVec 32) :
    reaches state (.flow call.id queue key.toNat) (withCore call irq) =
      decide (irq.setWidth 32 &&& flowBits = key) := by
  have queued : (withCore call irq).queue state = some queue := found
  have flows : flowMask state call.id queue = some flowBits := flows
  rw [reaches, check_with_core state call queue flowBits entBits found flows ents, Bool.true_and,
    addresses, queued, decide_eq_true ⟨rfl, rfl⟩, Bool.true_and, leadsTo, flows]
  simp only [Option.map_some, RpsCall.key, withCore, beq_eq_decide, Option.some.injEq,
    BitVec.toNat_inj]

theorem reaches_ent (irq : Byte) (key : BitVec 32) :
    reaches state (.ents key.toNat) (withCore call irq) =
      decide (irq.setWidth 32 &&& entBits = key) := by
  rw [reaches, check_with_core state call queue flowBits entBits found flows ents, Bool.true_and,
    addresses, leadsTo, ents]
  simp only [Option.map_some, RpsCall.key, withCore, beq_eq_decide, Option.some.injEq,
    BitVec.toNat_inj]

/-- In the flow table a packet is not the last in its place if, by the order of the first stores,
one with another core comes last in that slot. -/
theorem blamed_flow (different : core holder ≠ core number)
    (last : firsts.reverse.find? (fun other => decide ((core other).setWidth 32 &&& flowBits =
      (core number).setWidth 32 &&& flowBits)) = some holder) :
    ∃ place, reaches state place (packets call core number) = true ∧
      coreIn (sorted storeFlow storeEnt (packets call core) state firsts seconds) place ≠
        some (cpu (packets call core number)) :=
  blamed state call core firsts seconds number holder _ flowBits firsts
    (fun irq => reaches_flow state call queue flowBits entBits found flows ents irq _)
    (core_in_flow state (packets call core) firsts seconds call.id queue _) different last

theorem blamed_ents (different : core holder ≠ core number)
    (last : seconds.reverse.find? (fun other => decide ((core other).setWidth 32 &&& entBits =
      (core number).setWidth 32 &&& entBits)) = some holder) :
    ∃ place, reaches state place (packets call core number) = true ∧
      coreIn (sorted storeFlow storeEnt (packets call core) state firsts seconds) place ≠
        some (cpu (packets call core number)) :=
  blamed state call core firsts seconds number holder _ entBits seconds
    (fun irq => reaches_ent state call queue flowBits entBits found flows ents irq _)
    (core_in_ents state (packets call core) firsts seconds _) different last

/-- The first packet is for core 0 and any other one for the given core. -/
def twoCores (irq : Byte) (number : Nat) : Byte := if number = 0 then 0 else irq

/-- With a core that both masks lose, two packets mix: each is the last to store in one table.

Proof: both are for one slot of each table, where the last store stays. Whichever packet would come
last in an order of whole calls is not the last one in the other table. -/
theorem two_mixed (irq : Byte) (different : irq ≠ 0) (flowsLose : irq.setWidth 32 &&& flowBits = 0)
    (entsLose : irq.setWidth 32 &&& entBits = 0) : Mixes state := by
  refine ⟨packets call (twoCores irq), [0, 1], [1, 0], by decide, by decide, ?_⟩
  apply not_in_order _ _ _ _ (by decide)
  have flowOf (number : Nat) : (twoCores irq number).setWidth 32 &&& flowBits = 0 := by
    by_cases first : number = 0 <;> simp [twoCores, first, flowsLose]
  have entOf (number : Nat) : (twoCores irq number).setWidth 32 &&& entBits = 0 := by
    by_cases first : number = 0 <;> simp [twoCores, first, entsLose]
  simp only [List.forall_mem_cons, List.not_mem_nil, IsEmpty.forall_iff, implies_true, and_true]
  constructor
  · exact blamed_flow state call (twoCores irq) [0, 1] [1, 0] 0 1 queue flowBits entBits found flows
      ents different (by simp [flowOf])
  · exact blamed_ents state call (twoCores irq) [0, 1] [1, 0] 1 0 queue flowBits entBits found flows
      ents different.symm (by simp [entOf])

/-- The packets are for core 0, for each of the two cores, and for the one that has the bits that
the two differ in. -/
def fourCores (one other : Byte) : Nat → Byte
  | 0 => 0
  | 1 => one
  | 2 => one ^^^ other
  | _ => other

/-- With a core that only one mask loses and a core that only the other one loses, four packets
mix, none of them last in both of its slots.

Proof: the four cores make a square. Along one pair of sides the packets share a slot of the flow
table, along the other pair one of the socket flow table. The two orders of the stores go round
the square, so that every packet is overwritten by a neighbour in one table or the other. -/
theorem four_mixed (one other : Byte) (entsLose : one.setWidth 32 &&& entBits = 0#32)
    (flowsKeep : one.setWidth 32 &&& flowBits ≠ 0#32)
    (flowsLose : other.setWidth 32 &&& flowBits = 0#32)
    (entsKeep : other.setWidth 32 &&& entBits ≠ 0#32) : Mixes state := by
  refine ⟨packets call (fourCores one other), [1, 2, 3, 0], [0, 1, 2, 3], by decide, by decide, ?_⟩
  apply not_in_order _ _ _ _ (by decide)
  have oneSome : one ≠ 0 := by
    rintro rfl
    exact flowsKeep BitVec.zero_and
  have otherSome : other ≠ 0 := by
    rintro rfl
    exact entsKeep BitVec.zero_and
  have bothOther : one ^^^ other ≠ one := fun same =>
    otherSome ((BitVec.xor_right_inj one).mp (same.trans BitVec.xor_zero.symm))
  have bothOne : other ≠ one ^^^ other := fun same =>
    oneSome ((BitVec.xor_left_inj other).mp (same.symm.trans BitVec.zero_xor.symm))
  -- Packets 1 and 2 share a slot of the flow table, and so do packets 3 and 0.
  have flow0 : (fourCores one other 0).setWidth 32 &&& flowBits = 0#32 := BitVec.zero_and
  have flow1 : (fourCores one other 1).setWidth 32 &&& flowBits =
      one.setWidth 32 &&& flowBits := rfl
  have flow2 : (fourCores one other 2).setWidth 32 &&& flowBits =
      one.setWidth 32 &&& flowBits := by
    simp only [fourCores, BitVec.setWidth_xor, mask_xor, flowsLose, BitVec.xor_zero]
  have flow3 : (fourCores one other 3).setWidth 32 &&& flowBits = 0#32 := flowsLose
  -- In the socket flow table it is packets 0 and 1, and packets 2 and 3.
  have ent0 : (fourCores one other 0).setWidth 32 &&& entBits = 0#32 := BitVec.zero_and
  have ent1 : (fourCores one other 1).setWidth 32 &&& entBits = 0#32 := entsLose
  have ent2 : (fourCores one other 2).setWidth 32 &&& entBits =
      other.setWidth 32 &&& entBits := by
    simp only [fourCores, BitVec.setWidth_xor, mask_xor, entsLose, BitVec.zero_xor]
  have ent3 : (fourCores one other 3).setWidth 32 &&& entBits =
      other.setWidth 32 &&& entBits := rfl
  have inFlow (number holder : Nat) := blamed_flow state call (fourCores one other) [1, 2, 3, 0]
    [0, 1, 2, 3] number holder queue flowBits entBits found flows ents
  have inEnts (number holder : Nat) := blamed_ents state call (fourCores one other) [1, 2, 3, 0]
    [0, 1, 2, 3] number holder queue flowBits entBits found flows ents
  simp only [List.forall_mem_cons, List.not_mem_nil, IsEmpty.forall_iff, implies_true, and_true]
  refine ⟨?_, ?_, ?_, ?_⟩
  · exact inFlow 1 2 bothOther (by simp [flow0, flow1, flow2, flow3, flowsKeep.symm])
  · exact inEnts 2 3 bothOne (by simp [ent2, ent3])
  · exact inFlow 3 0 otherSome.symm (by simp [flow0, flow3])
  · exact inEnts 0 1 oneSome (by simp [ent0, ent1, ent2, ent3, entsKeep])

end Mixtures

/-- The right to read gives no order. Packets whose two stores come in any order leave the tables
as whole calls leave them in some order, whatever the packets and their cores, exactly when the
socket flow table, if it is set, has a slot for every core, or every flow table that packets get
to has.

Proof: the tables that the turns leave are those of the first stores in one order and of the
second stores in another. Where one kind of table has a slot for every core, the order of stores
in it does not matter, and whole calls in the order of the other kind lead there. Otherwise some
core is lost on each kind of table: the same one on both, and two packets mix, or two different
ones, and four packets do. -/
theorem stores_serial_iff (state : ModuleState) :
    (∀ (call : Nat → RpsCall) (turns : List Nat), (∀ packet ∈ turns, 2 ≤ turns.count packet) →
      ∃ order : List Nat, order.Nodup ∧ (∀ packet, packet ∈ order ↔ packet ∈ turns) ∧
        interleaved storeFlow storeEnt call state turns = run rpsStep state (order.map call)) ↔
      EntsSeparate state ∨ FlowsSeparate state := by
  have serial (call : Nat → RpsCall) := serial_iff_sorted storeFlow storeEnt call state stores_apart
  simp only [Serial, whole_eq, Finished] at serial
  rw [forall_congr' serial]
  constructor
  · intro explained
    by_contra neither
    obtain ⟨entsMerge, flowsMerge⟩ := not_or.mp neither
    simp only [EntsSeparate, FlowsSeparate, not_forall] at entsMerge flowsMerge
    obtain ⟨entBits, ents, entsMerge⟩ := entsMerge
    obtain ⟨call, queue, found, flowBits, flows, flowsMerge⟩ := flowsMerge
    obtain ⟨one, oneSome, entsLose⟩ := lost_core entBits entsMerge
    obtain ⟨other, otherSome, flowsLose⟩ := lost_core flowBits flowsMerge
    have mixes : Mixes state := by
      by_cases flowsKeep : one.setWidth 32 &&& flowBits = 0
      · exact two_mixed state call queue flowBits entBits found flows ents one oneSome flowsKeep
          entsLose
      · by_cases entsKeep : other.setWidth 32 &&& entBits = 0
        · exact two_mixed state call queue flowBits entBits found flows ents other otherSome
            flowsLose entsKeep
        · exact four_mixed state call queue flowBits entBits found flows ents one other entsLose
            flowsKeep flowsLose entsKeep
    obtain ⟨packet, firsts, seconds, once, permuted, unexplained⟩ := mixes
    obtain ⟨order, same, reached⟩ := explained packet firsts seconds once permuted
    exact unexplained order same reached
  · rintro separate call firsts seconds once permuted
    rcases separate with ents | flows
    · refine ⟨firsts, List.Perm.refl _, ?_⟩
      rw [sorted_tables, sorted_tables,
        sock_perm state _ _ (permuted.map call) (ents_agree state ents)]
    · refine ⟨seconds, permuted, ?_⟩
      rw [sorted_tables, sorted_tables,
        devices_perm state _ _ (permuted.symm.map call) (flows_agree state flows)]

end Vse.ConcurrentSteering

import Vse.MaskedTables
import Vse.FlowTable

/-!
# Steering a packet

`vse_rps.c`. A receive device has an array of queues, each with a flow table of its
own or none; the socket flow table is one for the whole system. To steer a packet to
a core is to enter the core in a slot of both tables and to make the packet's hash
the number that leads the kernel's look-up to these slots.
-/

namespace Vse.PacketSteering

open SocketBuffer FlowTable

/-- `struct rps_dev_flow`: the core, which the module writes, and the queue position
that the kernel keeps beside it. -/
structure RpsDevFlow where
  cpu : BitVec 16
  lastQtail : BitVec 32

abbrev RpsDevFlowTable := MaskedTable RpsDevFlow
abbrev RpsSockFlowTable := MaskedTable (BitVec 16)

/-- `struct netdev_rx_queue`, of which the module looks at the flow table alone. -/
structure NetdevRxQueue where
  rpsFlowTable : Option RpsDevFlowTable

/-- The queues of a device. The kernel allocates at least one, and never lets the
number of queues in use exceed the number allocated. -/
@[ext] structure NetDevice where
  rx : List NetdevRxQueue
  realNumRxQueues : Nat
  real_le_allocated : realNumRxQueues ≤ rx.length
  rx_nonempty : 0 < rx.length

/-- Replace one queue, and leave the number of queues and the others alone. -/
def NetDevice.setQueue (dev : NetDevice) (index : Nat) (queue : NetdevRxQueue) : NetDevice where
  rx := dev.rx.set index queue
  realNumRxQueues := dev.realNumRxQueues
  real_le_allocated := by rw [List.length_set]; exact dev.real_le_allocated
  rx_nonempty := by rw [List.length_set]; exact dev.rx_nonempty

/-- The flow table of a queue, if there is such a queue and it has one. -/
def NetDevice.flowTableAt (dev : NetDevice) (index : Nat) : Option RpsDevFlowTable :=
  dev.rx[index]?.bind NetdevRxQueue.rpsFlowTable

/-- What steering can change: the receiving device with its queues, and the socket flow table,
where it is set. -/
structure RpsTables where
  dev : NetDevice
  sock : Option RpsSockFlowTable

def vseSetRxhash (skb : SkBuff) (irq : Byte) : SkBuff := { skb with rxhash := irq.setWidth 32 }

/-- The place of the packet's queue in the array. A recorded queue that is not in use
is refused; a packet without a record belongs to the first. -/
def vseGetRxqueue (skb : SkBuff) (dev : NetDevice) : Option Nat :=
  if skbRxQueueRecorded skb then
    let index := (skbGetRxQueue skb).toNat
    if index ≥ dev.realNumRxQueues then none else some index
  else some 0

/-- Enter a core in the slots of a queue's flow table and of the socket flow table. The core is
its own key in both. -/
def enterCore (dev : NetDevice) (index : Nat) (flowTable : RpsDevFlowTable)
    (sockFlowTable : RpsSockFlowTable) (irq : Byte) : RpsTables :=
  let key := irq.setWidth 32
  let rflow := { flowTable.read key with cpu := irq.setWidth 16 }
  { dev := dev.setQueue index ⟨some (flowTable.write key rflow)⟩
    sock := some (sockFlowTable.write key (irq.setWidth 16)) }

/-- Enter the core in both tables, when both are set. Where one is missing, or there is no queue,
nothing is written and the call returns false. -/
def vseSetSockFlowTable (skb : SkBuff) (rps : RpsTables) (irq : Byte) : Bool × RpsTables :=
  match vseGetRxqueue skb rps.dev with
  | none => (false, rps)
  | some index =>
    match rps.dev.flowTableAt index, rps.sock with
    | some flowTable, some sockFlowTable =>
        (true, enterCore rps.dev index flowTable sockFlowTable irq)
    | _, _ => (true, rps)

/-- Is there a queue with a flow table, and a socket flow table? The same questions are asked
again before the writes. -/
def vseCheckRpsTable (skb : SkBuff) (rps : RpsTables) : Bool :=
  match vseGetRxqueue skb rps.dev with
  | none => false
  | some index => (rps.dev.flowTableAt index).isSome && rps.sock.isSome

/-- Steer the packet to the entry's core: write the tables, then the hash. Whether the tables were
written is not looked at, and the result is always true. -/
def vseDoRps (skb : SkBuff) (rps : RpsTables) (entry : VseFlowEntry) : Bool × SkBuff × RpsTables :=
  -- The branch for `entry->irq == NO_IRQ` is empty: its one statement is commented out.
  let rps := (vseSetSockFlowTable skb rps entry.irq).2
  (true, vseSetRxhash skb entry.irq, rps)

/-- A queue that is found is one of the device's queues, so indexing with it stays inside the
array. -/
theorem rxqueue_lt (skb : SkBuff) (dev : NetDevice) (index : Nat)
    (found : vseGetRxqueue skb dev = some index) : index < dev.rx.length := by
  have allocated := dev.real_le_allocated
  have nonempty := dev.rx_nonempty
  unfold vseGetRxqueue at found
  split at found
  · dsimp only at found
    split at found
    · cases found
    · obtain rfl := Option.some.inj found
      omega
  · obtain rfl := Option.some.inj found
    exact nonempty

/-- The queue depends on nothing but the record in the packet and on the device. -/
theorem rxqueue_congr (skb other : SkBuff) (dev : NetDevice)
    (same : other.queueMapping = skb.queueMapping) :
    vseGetRxqueue other dev = vseGetRxqueue skb dev := by
  unfold vseGetRxqueue skbRxQueueRecorded skbGetRxQueue
  rw [same]

/-- So do the writes: two packets with the same record are steered alike. -/
theorem set_sock_flow_table_congr (skb other : SkBuff) (rps : RpsTables) (irq : Byte)
    (same : other.queueMapping = skb.queueMapping) :
    vseSetSockFlowTable other rps irq = vseSetSockFlowTable skb rps irq := by
  unfold vseSetSockFlowTable
  rw [rxqueue_congr skb other rps.dev same]

/-- With a queue and both tables the core is entered in the queue's slots, and the call returns
true. -/
theorem set_sock_flow_table_set (skb : SkBuff) (rps : RpsTables) (irq : Byte) (index : Nat)
    (flowTable : RpsDevFlowTable) (sockFlowTable : RpsSockFlowTable)
    (queue : vseGetRxqueue skb rps.dev = some index)
    (flows : rps.dev.flowTableAt index = some flowTable) (sock : rps.sock = some sockFlowTable) :
    vseSetSockFlowTable skb rps irq =
      (true, enterCore rps.dev index flowTable sockFlowTable irq) := by
  simp only [vseSetSockFlowTable, queue, flows, sock]

/-- A core that was entered can be entered again, and nothing changes: the second writes go to the
same slots. -/
theorem set_sock_flow_table_twice (skb : SkBuff) (rps : RpsTables) (irq : Byte) :
    (vseSetSockFlowTable skb (vseSetSockFlowTable skb rps irq).2 irq).2 =
      (vseSetSockFlowTable skb rps irq).2 := by
  cases queue : vseGetRxqueue skb rps.dev with
  | none => simp only [vseSetSockFlowTable, queue]
  | some index =>
    have inside := rxqueue_lt skb rps.dev index queue
    cases flows : rps.dev.flowTableAt index with
    | none => simp only [vseSetSockFlowTable, queue, flows]
    | some flowTable =>
      cases sock : rps.sock with
      | none => simp only [vseSetSockFlowTable, queue, flows, sock]
      | some sockFlowTable =>
        rw [set_sock_flow_table_set skb rps irq index flowTable sockFlowTable queue flows sock]
        have queueAgain :
            vseGetRxqueue skb (enterCore rps.dev index flowTable sockFlowTable irq).dev =
              some index := queue
        have flowsAgain :
            (enterCore rps.dev index flowTable sockFlowTable irq).dev.flowTableAt index =
              some (flowTable.write (irq.setWidth 32)
                { flowTable.read (irq.setWidth 32) with cpu := irq.setWidth 16 }) := by
          simp only [enterCore, NetDevice.flowTableAt, NetDevice.setQueue,
            List.getElem?_set_self inside, Option.bind_some]
        rw [set_sock_flow_table_set skb _ irq index _ _ queueAgain flowsAgain rfl]
        simp only [enterCore, MaskedTable.read_write_self, MaskedTable.write_write_self,
          NetDevice.setQueue, List.set_set]

/-- `vse_check_rps_table` asks for a queue and both tables. -/
theorem check_rps_table_iff (skb : SkBuff) (rps : RpsTables) :
    vseCheckRpsTable skb rps = true ↔
      ∃ index flowTable sockFlowTable, vseGetRxqueue skb rps.dev = some index ∧
        rps.dev.flowTableAt index = some flowTable ∧ rps.sock = some sockFlowTable := by
  unfold vseCheckRpsTable
  cases queue : vseGetRxqueue skb rps.dev with
  | none => simp
  | some index => simp [Option.isSome_iff_exists]

/-- Where the check fails, nothing is written, as the writes are behind the same questions. -/
theorem set_sock_flow_table_unset (skb : SkBuff) (rps : RpsTables) (irq : Byte)
    (unset : vseCheckRpsTable skb rps = false) : (vseSetSockFlowTable skb rps irq).2 = rps := by
  unfold vseSetSockFlowTable
  split
  · rfl
  · rename_i index queue
    split
    · rename_i flowTable sockFlowTable flows sock
      have set := (check_rps_table_iff skb rps).mpr
        ⟨index, flowTable, sockFlowTable, queue, flows, sock⟩
      rw [set] at unset
      cases unset
    · rfl

/-- The packet's hash leads to the core: in the packet's queue and in the socket flow
table the slot of the hash holds the core, and everything else is as before. -/
structure SteeredTo (irq : Byte) (queue : Nat) (before after : RpsTables)
    (rxhash : BitVec 32) : Prop where
  hash : rxhash = irq.setWidth 32
  queueInside : queue < after.dev.rx.length
  queues : after.dev.rx.length = before.dev.rx.length ∧
    after.dev.realNumRxQueues = before.dev.realNumRxQueues
  otherQueues : ∀ other, other ≠ queue → after.dev.rx[other]? = before.dev.rx[other]?
  flows : ∃ old new, before.dev.flowTableAt queue = some old ∧
    after.dev.flowTableAt queue = some new ∧
    old.WrittenAt new rxhash { old.read rxhash with cpu := irq.setWidth 16 }
  ents : ∃ old new, before.sock = some old ∧ after.sock = some new ∧
    old.WrittenAt new rxhash (irq.setWidth 16)

/-- With a queue and both tables the packet is steered to the core. -/
theorem set_sock_flow_table_steers (skb : SkBuff) (rps : RpsTables) (irq : Byte) (queue : Nat)
    (flowTable : RpsDevFlowTable) (sockFlowTable : RpsSockFlowTable)
    (found : vseGetRxqueue skb rps.dev = some queue)
    (flows : rps.dev.flowTableAt queue = some flowTable) (sock : rps.sock = some sockFlowTable) :
    SteeredTo irq queue rps (vseSetSockFlowTable skb rps irq).2 (vseSetRxhash skb irq).rxhash := by
  have inside := rxqueue_lt skb rps.dev queue found
  rw [set_sock_flow_table_set skb rps irq queue flowTable sockFlowTable found flows sock]
  refine ⟨rfl, ?_, ⟨List.length_set, rfl⟩, ?_, ?_, ?_⟩
  · exact List.length_set.symm ▸ inside
  · intro other different
    exact List.getElem?_set_ne (Ne.symm different)
  · refine ⟨flowTable, _, flows, ?_, flowTable.written_at_write _ _⟩
    simp [enterCore, NetDevice.flowTableAt, NetDevice.setQueue, inside, vseSetRxhash]
  · exact ⟨sockFlowTable, _, sock, rfl, sockFlowTable.written_at_write _ _⟩

/-- A place that holds a core: a slot in the flow table of one of the device's queues, or one in
the socket flow table. -/
inductive RpsSlot where
  | flow (queue slot : Nat)
  | ents (slot : Nat)

/-- The core in a place, where there is such a place. -/
def RpsTables.coreAt (rps : RpsTables) : RpsSlot → Option (BitVec 16)
  | .flow queue slot =>
      (rps.dev.flowTableAt queue).bind fun table => table.slots[slot]?.map RpsDevFlow.cpu
  | .ents slot => rps.sock.bind fun table => table.slots[slot]?

theorem SteeredTo.entered {irq : Byte} {queue : Nat} {before after : RpsTables}
    {rxhash : BitVec 32} (steered : SteeredTo irq queue before after rxhash) :
    ∃ slot, after.coreAt slot = some (irq.setWidth 16) := by
  obtain ⟨_, new, _, reached, written⟩ := steered.ents
  refine ⟨.ents (new.index rxhash), ?_⟩
  rw [RpsTables.coreAt, reached, Option.bind_some, new.slots_index, written.content]

/-- Steering puts nothing but the core anywhere: a place holds the core afterwards or what it held
before. -/
theorem SteeredTo.coreAt {irq : Byte} {queue : Nat} {before after : RpsTables}
    {rxhash : BitVec 32} (steered : SteeredTo irq queue before after rxhash) (slot : RpsSlot) :
    after.coreAt slot = some (irq.setWidth 16) ∨ after.coreAt slot = before.coreAt slot := by
  cases slot with
  | flow other slot =>
    by_cases own : other = queue
    · obtain ⟨old, new, held, holds, written⟩ := steered.flows
      simp only [RpsTables.coreAt, own, held, holds, Option.bind_some]
      rcases written.slots slot with core | same
      · rw [core]
        exact Or.inl rfl
      · rw [same]
        exact Or.inr rfl
    · right
      simp only [RpsTables.coreAt, NetDevice.flowTableAt, steered.otherQueues other own]
  | ents slot =>
    obtain ⟨old, new, held, holds, written⟩ := steered.ents
    simp only [RpsTables.coreAt, held, holds, Option.bind_some]
    exact written.slots slot

/-- Where the check succeeds, the packet is steered: its hash leads to the core in both tables. -/
theorem set_sock_flow_table_checked (skb : SkBuff) (rps : RpsTables) (irq : Byte)
    (checked : vseCheckRpsTable skb rps = true) : ∃ queue, SteeredTo irq queue rps
      (vseSetSockFlowTable skb rps irq).2 (vseSetRxhash skb irq).rxhash := by
  obtain ⟨queue, flowTable, sockFlowTable, found, flows, sock⟩ :=
    (check_rps_table_iff skb rps).mp checked
  exact ⟨queue, set_sock_flow_table_steers skb rps irq queue flowTable sockFlowTable found flows
    sock⟩

/-- Whatever the tables, no place gets anything but the core. -/
theorem set_sock_flow_table_core_at (skb : SkBuff) (rps : RpsTables) (irq : Byte)
    (slot : RpsSlot) : (vseSetSockFlowTable skb rps irq).2.coreAt slot = some (irq.setWidth 16) ∨
      (vseSetSockFlowTable skb rps irq).2.coreAt slot = rps.coreAt slot := by
  cases checked : vseCheckRpsTable skb rps with
  | true =>
    obtain ⟨queue, steered⟩ := set_sock_flow_table_checked skb rps irq checked
    exact steered.coreAt slot
  | false =>
    rw [set_sock_flow_table_unset skb rps irq checked]
    exact Or.inr rfl

section Reports

variable (skb : SkBuff) (rps : RpsTables)

/-- The packet has a queue with a flow table, and the socket flow table is set, so that there is
something to steer by. -/
def TablesSet : Prop :=
  ∃ index flowTable sockFlowTable, vseGetRxqueue skb rps.dev = some index ∧
    rps.dev.flowTableAt index = some flowTable ∧ rps.sock = some sockFlowTable

/-- `vse_do_rps` reports what `vse_check_rps_table` does: it returns true, having written both
tables and the hash, where the check succeeds, and elsewhere returns false, having changed
nothing. -/
structure ReportsAgree (entry : VseFlowEntry) : Prop where
  steers : vseCheckRpsTable skb rps = true ↔ (vseDoRps skb rps entry).1 = true ∧
    ∃ queue, SteeredTo entry.irq queue rps (vseDoRps skb rps entry).2.2
      (vseDoRps skb rps entry).2.1.rxhash
  refuses : vseCheckRpsTable skb rps = false → (vseDoRps skb rps entry).1 = false ∧
    (vseDoRps skb rps entry).2.1.rxhash = skb.rxhash ∧ (vseDoRps skb rps entry).2.2 = rps

/-- The two reports agree exactly where there are tables to write: `vse_do_rps` knows no failure.

Proof: with the tables both return true, and the tables and the hash are written. Without them the
check returns false, while `vse_do_rps` returns true all the same and sets the hash. -/
theorem reports_agree_iff (entry : VseFlowEntry) :
    ReportsAgree skb rps entry ↔ TablesSet skb rps := by
  rw [TablesSet, ← check_rps_table_iff]
  constructor
  · intro agree
    by_contra unset
    have reported := (agree.refuses (Bool.eq_false_iff.mpr unset)).1
    cases reported
  · intro checked
    have steered := set_sock_flow_table_checked skb rps entry.irq checked
    constructor
    · exact iff_of_true checked ⟨rfl, steered⟩
    · intro unset
      rw [checked] at unset
      cases unset

/-- A device with one queue, which has no flow table. There is nothing to steer by for its
packets. -/
def bareDevice : NetDevice where
  rx := [⟨none⟩]
  realNumRxQueues := 1
  real_le_allocated := by decide
  rx_nonempty := Nat.one_pos

/-- Without any table, `vse_check_rps_table` refuses a packet that `vse_do_rps` reports as
steered, with the core as its hash. -/
theorem unset_tables_reported_steered :
    let skb := received (List.replicate 60 0) 14 (by decide) (by decide)
    let entry : VseFlowEntry := ⟨zeroMatch, 6⟩
    let rps : RpsTables := ⟨bareDevice, none⟩
    vseCheckRpsTable skb rps = false ∧ (vseDoRps skb rps entry).1 = true ∧
      skb.rxhash = 0 ∧ (vseDoRps skb rps entry).2.1.rxhash = 6 ∧ ¬ ReportsAgree skb rps entry := by
  intro skb entry rps
  refine ⟨rfl, rfl, rfl, rfl, ?_⟩
  intro agree
  have reported := (agree.refuses rfl).1
  cases reported

end Reports

end Vse.PacketSteering

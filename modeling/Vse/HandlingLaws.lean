import Vse.ModuleRuns
import Vse.Conditions

/-!
# Two laws of handling a packet

Both compare one handling of a packet with another. Where no rule restricts VM_ID, a rule
looks at three places: the outer address, the VNI and the inner address. Handling a packet
again reads the same places and writes what is already there.

The same frame may also be delivered in two ways, with its MAC header set and `data` at the
IPv4 header, or with `data` at the start of the frame and the MAC header left to
`vse_handle_data`. The offsets of the inner fields count from `data` in both cases, so in the
second they are read 14 bytes too early.
-/

namespace Vse.HandlingLaws

open Words SocketBuffer FlowTable OrderedRules Matching VniDecoding Conditions PacketSteering
  ModuleRuns

section Places

def macAt (memory : Nat → Byte) (place : Nat) : Mac := fun index => memory (place + index)

/-- The VNI at a place, as `vse_do_match` decodes it: three bytes, without the bits that get lost
in the shifts. -/
def vniAt (memory : Nat → Byte) (place : Nat) : BitVec 32 :=
  (placed (memory place) 2 ||| placed (memory (place + 1)) 1 ||| placed (memory (place + 2)) 0) &&&
    keptBits

/-- A frame meets a match, when its Ethernet header and its IPv4 header are taken to be at the
given places. Nothing of the packet's other state is looked at. -/
structure MeetsAt (memory : Nat → Byte) (ethernet network : Nat) (vseMatch : VseMatch) :
    Prop where
  dlDst : Restricts ofpfwDlDst vseMatch → vseMatch.dlDst = macAt memory ethernet
  vxVni : Restricts ofpfwVxlanVni vseMatch → vseMatch.vxVni = vniAt memory (network + 32)
  dlIndst : Restricts ofpfwDlIndst vseMatch → vseMatch.dlIndst = macAt memory (network + 36)
  covered : vseMatch.wildcards ||| testedFlags = ofpfwAll

def WithoutVmId (table : List VseFlowEntry) : Prop :=
  ∀ entry ∈ table, ¬ Restricts ofpfwVmId entry.vseMatch

/-- The entry that `vse_handle_data` finds for a packet. -/
def foundIn (nwTos : Nat → Byte) (skb : SkBuff) (table : List VseFlowEntry) :
    Option VseFlowEntry :=
  (vseLookUpFlowEntry nwTos (withMacHeader skb) table).value.1

/-- Without VM_ID, an entry accepts a packet exactly if the packet meets its match at the packet's
headers. This is what reduces a look-up to the bytes of the frame. -/
theorem accepted_iff_meets (nwTos : Byte) (skb : SkBuff) (entry : VseFlowEntry)
    (covered : ¬ Restricts ofpfwVmId entry.vseMatch) :
    accepted nwTos skb entry = true ↔
      MeetsAt skb.memory (ethHdr skb) skb.data entry.vseMatch := by
  have vni : packetVni skb = vniAt skb.memory (skb.data + 32) := packet_vni_eq_masked skb
  have inner : innerDst skb = macAt skb.memory (skb.data + 36) := rfl
  rw [accepted_iff]
  constructor
  · rintro ⟨_, dlDst, vxVni, dlIndst, flags⟩
    rw [vni] at vxVni
    rw [inner] at dlIndst
    exact ⟨dlDst, vxVni, dlIndst, flags⟩
  · rintro ⟨dlDst, vxVni, dlIndst, flags⟩
    rw [← vni] at vxVni
    rw [← inner] at dlIndst
    exact ⟨fun isOpen => absurd isOpen covered, dlDst, vxVni, dlIndst, flags⟩

end Places

section Twice

/-- The packet as a look-up leaves it: with its MAC header set, and with the other offsets where
the look-up moved them. -/
def lookedUp (skb : SkBuff) (table : List VseFlowEntry) : SkBuff :=
  if table = [] then withMacHeader skb else skbResetNetworkHeader (withMacHeader skb)

/-- Handling in terms of the entry found. -/
theorem handle_data_value (nwTos : Nat → Byte) (skb : SkBuff) (rps : RpsTables)
    (table : List VseFlowEntry) :
    (vseHandleData nwTos skb rps table).value =
      match foundIn nwTos skb table with
      | none => (lookedUp skb table, rps)
      | some entry => (vseDoRps (lookedUp skb table) rps entry).2 := by
  have left : (vseLookUpFlowEntry nwTos (withMacHeader skb) table).value.2 = lookedUp skb table :=
    look_up_skb _ _ _
  cases found : foundIn nwTos skb table with
  | none =>
    unfold foundIn at found
    simp only [vseHandleData, Traced.value_bind, found, Traced.value_pure, left]
  | some entry =>
    unfold foundIn at found
    simp only [vseHandleData, Traced.value_bind, found, Traced.value_pure, left]

theorem with_mac_header_twice (skb : SkBuff) :
    withMacHeader (withMacHeader skb) = withMacHeader skb := by
  by_cases set : skbMacHeaderWasSet skb
  · have kept : withMacHeader skb = skb := if_pos set
    rw [kept, kept]
  · have reset : withMacHeader skb = skbResetMacHeader skb := if_neg set
    rw [reset, withMacHeader, if_pos (reset_mac_header_set skb)]

/-- A packet that was looked up is ready to be looked up again: its MAC header is where the
look-up wants it. -/
theorem looked_up_ready (skb : SkBuff) (table : List VseFlowEntry) :
    withMacHeader (lookedUp skb table) = lookedUp skb table := by
  have ready := with_mac_header_twice skb
  unfold lookedUp
  split
  · exact ready
  · have network (skb : SkBuff) : withMacHeader (skbResetNetworkHeader skb) =
        skbResetNetworkHeader (withMacHeader skb) := by
      unfold withMacHeader
      rw [apply_ite skbResetNetworkHeader]
      rfl
    rw [network, ready]

theorem looked_up_twice (skb : SkBuff) (table : List VseFlowEntry) :
    lookedUp (lookedUp skb table) table = lookedUp skb table := by
  have ready := looked_up_ready skb table
  rw [lookedUp, ready]
  by_cases empty : table = []
  · rw [if_pos empty]
  · rw [if_neg empty, lookedUp, if_neg empty, reset_network_header_twice]

/-- The packet is ready to be looked up and is read at the same places as the first one. -/
structure ReadAs (skb after : SkBuff) : Prop where
  memory : after.memory = skb.memory
  data : after.data = skb.data
  header : after.macHeader = (withMacHeader skb).macHeader
  ready : withMacHeader after = after

/-- What was found for the one is found for the other, whatever the two look-ups read through the
unassigned pointer. -/
theorem found_again (nwTos other : Nat → Byte) (skb after : SkBuff)
    (table : List VseFlowEntry) (noVmId : WithoutVmId table) (readAs : ReadAs skb after) :
    foundIn other after table = foundIn nwTos skb table := by
  have kept : (withMacHeader skb).memory = skb.memory ∧ (withMacHeader skb).data = skb.data := by
    unfold withMacHeader
    split <;> exact ⟨rfl, rfl⟩
  unfold foundIn
  rw [look_up_without_vm_id _ _ _ noVmId, look_up_without_vm_id _ _ _ noVmId, readAs.ready]
  apply List.find?_congr
  intro entry member
  have covered := noVmId entry member
  rw [Bool.eq_iff_iff, accepted_iff_meets _ _ _ covered, accepted_iff_meets _ _ _ covered,
    ethHdr, ethHdr, readAs.memory, readAs.data, readAs.header, kept.1, kept.2]

/-- A packet that was looked up is read as before. -/
theorem looked_up_read_as (skb : SkBuff) (table : List VseFlowEntry) :
    ReadAs skb (lookedUp skb table) := by
  have kept : (lookedUp skb table).memory = skb.memory ∧ (lookedUp skb table).data = skb.data ∧
      (lookedUp skb table).macHeader = (withMacHeader skb).macHeader := by
    unfold lookedUp withMacHeader
    split <;> split <;> exact ⟨rfl, rfl, rfl⟩
  exact ⟨kept.1, kept.2.1, kept.2.2, looked_up_ready skb table⟩

/-- Setting the MAC header has nothing to do with the hash. -/
theorem with_mac_header_rxhash (skb : SkBuff) (irq : Byte) :
    withMacHeader (vseSetRxhash skb irq) = vseSetRxhash (withMacHeader skb) irq := by
  unfold withMacHeader
  exact (apply_ite (vseSetRxhash · irq) (skbMacHeaderWasSet skb = true) skb
    (skbResetMacHeader skb)).symm

theorem looked_up_rxhash (skb : SkBuff) (table : List VseFlowEntry) (irq : Byte) :
    lookedUp (vseSetRxhash skb irq) table = vseSetRxhash (lookedUp skb table) irq := by
  unfold lookedUp
  rw [with_mac_header_rxhash]
  exact (apply_ite (vseSetRxhash · irq) (table = []) (withMacHeader skb)
    (skbResetNetworkHeader (withMacHeader skb))).symm

/-- A packet keeps being read as before when its hash is set. -/
theorem ReadAs.rxhash {skb after : SkBuff} (readAs : ReadAs skb after) (irq : Byte) :
    ReadAs skb (vseSetRxhash after irq) := by
  refine ⟨readAs.memory, readAs.data, readAs.header, ?_⟩
  rw [with_mac_header_rxhash, readAs.ready]

/-- Handling a packet twice is handling it once. In a table without VM_ID restrictions the second
handling finds the entry that the first found, and leaves the packet and all tables exactly as the
first left them, whatever the packet's headers and queue were and whichever tables are set.

Proof: a packet that was looked up is read at the same places as before, and its new hash is not
looked at by the matcher, so the second look-up finds the same entry. The core is then written to
slots that hold it already, and to a hash that is the core already. -/
theorem handled_twice (nwTos other : Nat → Byte) (skb : SkBuff) (rps : RpsTables)
    (table : List VseFlowEntry) (noVmId : WithoutVmId table) :
    let first := (vseHandleData nwTos skb rps table).value
    foundIn other first.1 table = foundIn nwTos skb table ∧
      (vseHandleData other first.1 first.2 table).value = first := by
  have settled := looked_up_twice skb table
  have readAs := looked_up_read_as skb table
  intro first
  have same : first = _ := handle_data_value nwTos skb rps table
  cases found : foundIn nwTos skb table with
  | none =>
    rw [found] at same
    have again : foundIn other (lookedUp skb table) table = none :=
      (found_again nwTos other skb _ table noVmId readAs).trans found
    rw [same]
    refine ⟨again, ?_⟩
    rw [handle_data_value, again, settled]
  | some entry =>
    rw [found] at same
    have again : foundIn other (vseSetRxhash (lookedUp skb table) entry.irq) table = some entry :=
      (found_again nwTos other skb _ table noVmId (readAs.rxhash entry.irq)).trans found
    have tables := set_sock_flow_table_twice (lookedUp skb table) rps entry.irq
    simp only [vseDoRps] at same
    rw [same]
    refine ⟨again, ?_⟩
    rw [handle_data_value, again, looked_up_rxhash, settled]
    simp only [vseDoRps, set_sock_flow_table_congr (lookedUp skb table)
      (vseSetRxhash (lookedUp skb table) entry.irq) _ _ rfl, tables]
    rfl

theorem zero_frame_handled_twice :
    let rps : RpsTables := ⟨oneQueueDevice, idleState.sock⟩
    let table := (oneRuleState 6).device.flowTable
    let first := (vseHandleData (fun _ => 0) zeroFrame rps table).value
    foundIn (fun _ => 1) first.1 table = foundIn (fun _ => 0) zeroFrame table ∧
      (vseHandleData (fun _ => 1) first.1 first.2 table).value = first := by
  intro rps table
  have noVmId : WithoutVmId table := by
    intro entry member
    obtain rfl := List.mem_singleton.mp member
    decide
  exact handled_twice (fun _ => 0) (fun _ => 1) zeroFrame rps table noVmId

end Twice

section Deliveries

/-- A VXLAN frame in the memory of a packet: Ethernet, IPv4 with a header of 20 bytes, UDP and
VXLAN, with an inner Ethernet header. The fields say that the headers are whole and of these
kinds. -/
structure Frame where
  memory : Nat → Byte
  start : Nat
  tail : Nat
  whole : start + 64 ≤ tail
  tail_fits : tail < 2 ^ 32 - 1
  isIpv4 : memory (start + 12) = 0x08 ∧ memory (start + 13) = 0x00
  shortHeader : memory (start + 14) = 0x45
  isUdp : memory (start + 23) = 17
  isVxlan : memory (start + 42) = 0x08

/-- The frame is delivered with its MAC header set and `data` at the IPv4 header. -/
structure WithHeader (frame : Frame) (skb : SkBuff) : Prop where
  memory : skb.memory = frame.memory
  tail : skb.tail = frame.tail
  macHeader : skb.macHeader = BitVec.ofNat 32 frame.start
  data : skb.data = frame.start + 14

/-- The frame is delivered with `data` at its start and no MAC header set, so that
`vse_handle_data` sets it there. -/
structure WithoutHeader (frame : Frame) (skb : SkBuff) : Prop where
  memory : skb.memory = frame.memory
  tail : skb.tail = frame.tail
  macHeader : skb.macHeader = BitVec.allOnes 32
  data : skb.data = frame.start

variable (frame : Frame) (skb bare : SkBuff)

theorem frame_offset : (BitVec.ofNat 32 frame.start).toNat = frame.start := by
  have whole := frame.whole
  have fits := frame.tail_fits
  rw [BitVec.toNat_ofNat]
  exact Nat.mod_eq_of_lt (by omega)

/-- With the MAC header set, the packet is looked up as it came: `vse_handle_data` moves nothing.
-/
theorem with_header_ready (delivered : WithHeader frame skb) : withMacHeader skb = skb := by
  have whole := frame.whole
  have fits := frame.tail_fits
  have set : skbMacHeaderWasSet skb = true := by
    rw [skbMacHeaderWasSet, decide_eq_true_eq, delivered.macHeader]
    intro unset
    have same := congrArg BitVec.toNat unset
    rw [frame_offset, BitVec.toNat_allOnes] at same
    omega
  exact if_pos set

/-- Delivered so, the frame is read where its headers are: Ethernet at the start and IPv4 14 bytes
further on. -/
theorem with_header_accepted (delivered : WithHeader frame skb) (nwTos : Byte)
    (entry : VseFlowEntry) (covered : ¬ Restricts ofpfwVmId entry.vseMatch) :
    accepted nwTos (withMacHeader skb) entry = true ↔
      MeetsAt frame.memory frame.start (frame.start + 14) entry.vseMatch := by
  have header : ethHdr skb = frame.start := by
    rw [ethHdr, delivered.macHeader, frame_offset]
  rw [with_header_ready frame skb delivered, accepted_iff_meets _ _ _ covered, header,
    delivered.memory, delivered.data]

/-- Without a MAC header, the IPv4 header is taken to be where the Ethernet header is, so that all
that comes behind is read 14 bytes too early. -/
theorem without_header_accepted (delivered : WithoutHeader frame bare)
    (nwTos : Byte) (entry : VseFlowEntry)
    (covered : ¬ Restricts ofpfwVmId entry.vseMatch) :
    accepted nwTos (withMacHeader bare) entry = true ↔
      MeetsAt frame.memory frame.start frame.start entry.vseMatch := by
  have unset : ¬ skbMacHeaderWasSet bare = true := by
    rw [skbMacHeaderWasSet, delivered.macHeader]
    decide
  have reset : withMacHeader bare = skbResetMacHeader bare := if_neg unset
  have header : ethHdr (skbResetMacHeader bare) = bare.data := data_offset bare
  have kept : (skbResetMacHeader bare).memory = bare.memory ∧
      (skbResetMacHeader bare).data = bare.data := ⟨rfl, rfl⟩
  rw [reset, accepted_iff_meets _ _ _ covered, header, kept.1, kept.2, delivered.memory,
    delivered.data]

/-- The inner fields that the match looks at have the same contents in both places. -/
structure ReadsAlike (vseMatch : VseMatch) : Prop where
  vxVni : Restricts ofpfwVxlanVni vseMatch →
    vniAt frame.memory (frame.start + 46) = vniAt frame.memory (frame.start + 32)
  dlIndst : Restricts ofpfwDlIndst vseMatch →
    macAt frame.memory (frame.start + 50) = macAt frame.memory (frame.start + 36)

/-- A match that is met in one way is met in both ways when it reads alike. -/
theorem meets_both_iff (vseMatch : VseMatch)
    (either : MeetsAt frame.memory frame.start (frame.start + 14) vseMatch ∨
      MeetsAt frame.memory frame.start frame.start vseMatch) :
    (MeetsAt frame.memory frame.start (frame.start + 14) vseMatch ∧
      MeetsAt frame.memory frame.start frame.start vseMatch) ↔ ReadsAlike frame vseMatch := by
  constructor
  · rintro ⟨placed, shifted⟩
    constructor
    · intro isOpen
      exact (placed.vxVni isOpen).symm.trans (shifted.vxVni isOpen)
    · intro isOpen
      exact (placed.dlIndst isOpen).symm.trans (shifted.dlIndst isOpen)
  · intro alike
    rcases either with placed | shifted
    · refine ⟨placed, placed.dlDst, ?_, ?_, placed.covered⟩
      · intro isOpen
        exact (placed.vxVni isOpen).trans (alike.vxVni isOpen)
      · intro isOpen
        exact (placed.dlIndst isOpen).trans (alike.dlIndst isOpen)
    · refine ⟨⟨shifted.dlDst, ?_, ?_, shifted.covered⟩, shifted⟩
      · intro isOpen
        exact (shifted.vxVni isOpen).trans (alike.vxVni isOpen).symm
      · intro isOpen
        exact (shifted.dlIndst isOpen).trans (alike.dlIndst isOpen).symm

/-- The first entry that the frame meets in either way, with none in front of it that the frame
meets in any. -/
def FirstMet (table : List VseFlowEntry) : VseFlowEntry → Prop :=
  First (fun entry => MeetsAt frame.memory frame.start (frame.start + 14) entry.vseMatch ∨
    MeetsAt frame.memory frame.start frame.start entry.vseMatch) table

/-- When a frame is classified alike however it is delivered. In a table without VM_ID
restrictions, both deliveries find the same entry, or none, if and only if the first entry met in
either way looks at no inner field whose contents differ from what lies 14 bytes before it.

Proof: each delivery finds the first entry that the frame meets at the places where that delivery
reads. Two searches for a first entry agree exactly when the first entry that meets either test
meets both. For one entry this means that the inner fields it restricts, which the deliveries read
14 bytes apart, have the same contents. -/
theorem deliveries_agree_iff (table : List VseFlowEntry) (noVmId : WithoutVmId table)
    (delivered : WithHeader frame skb) (deliveredBare : WithoutHeader frame bare)
    (nwTos other : Nat → Byte) :
    foundIn nwTos skb table = foundIn other bare table ↔
      ∀ entry, FirstMet frame table entry → ReadsAlike frame entry.vseMatch := by
  unfold foundIn
  rw [look_up_without_vm_id _ _ _ noVmId, look_up_without_vm_id _ _ _ noVmId, find_eq_find_iff]
  refine forall_congr' fun entry => ?_
  rw [first_congr _ _ table fun entry member => or_congr
    (with_header_accepted frame skb delivered 0 entry (noVmId entry member))
    (without_header_accepted frame bare deliveredBare 0 entry (noVmId entry member))]
  refine forall_congr' fun first => ?_
  obtain ⟨front, back, split, either, _⟩ := first
  have covered : ¬ Restricts ofpfwVmId entry.vseMatch := noVmId entry (by rw [split]; simp)
  rw [with_header_accepted frame skb delivered 0 entry covered,
    without_header_accepted frame bare deliveredBare 0 entry covered]
  exact meets_both_iff frame entry.vseMatch either

def frameOfTen : Frame where
  memory := (vxlanFrame (fun _ => 0) (fun _ => 0) 10).memory
  start := 0
  tail := 64
  whole := by decide
  tail_fits := by decide
  isIpv4 := ⟨rfl, rfl⟩
  shortHeader := rfl
  isUdp := rfl
  isVxlan := rfl

def deliveredTen : SkBuff := vxlanFrame (fun _ => 0) (fun _ => 0) 10

def bareTen : SkBuff :=
  { deliveredTen with data := 0, macHeader := BitVec.allOnes 32, data_le_tail := Nat.zero_le _ }

/-- A rule for the outer address alone finds the frame in both ways, as both deliveries read the
Ethernet header in one place. -/
theorem outer_rule_finds_both :
    let table : List VseFlowEntry :=
      [⟨{ zeroMatch with wildcards := ofpfwAll &&& ~~~ofpfwDlDst }, 3⟩]
    foundIn (fun _ => 0) deliveredTen table = foundIn (fun _ => 0) bareTen table := by
  intro table
  have noVmId : WithoutVmId table := by
    intro entry member
    obtain rfl := List.mem_singleton.mp member
    decide
  apply (deliveries_agree_iff frameOfTen deliveredTen bareTen table noVmId ⟨rfl, rfl, rfl, rfl⟩
    ⟨rfl, rfl, rfl, rfl⟩ (fun _ => 0) (fun _ => 0)).mpr
  rintro entry ⟨front, back, split, _, _⟩
  obtain rfl : entry = ⟨{ zeroMatch with wildcards := ofpfwAll &&& ~~~ofpfwDlDst }, 3⟩ := by
    apply List.mem_singleton.mp
    change entry ∈ table
    rw [split]
    simp
  exact ⟨fun isOpen => absurd isOpen (by decide), fun isOpen => absurd isOpen (by decide)⟩

/-- The rule for VNI 10 finds the frame with its MAC header set and misses it without. -/
theorem vni_rule_misses_bare_frame :
    let table : List VseFlowEntry := [⟨vniRule 10, 3⟩]
    WithHeader frameOfTen deliveredTen ∧ WithoutHeader frameOfTen bareTen ∧
      WithoutVmId table ∧ (foundIn (fun _ => 0) deliveredTen table).map VseFlowEntry.irq = some 3 ∧
      (foundIn (fun _ => 0) bareTen table).map VseFlowEntry.irq = none ∧
      foundIn (fun _ => 0) deliveredTen table ≠ foundIn (fun _ => 0) bareTen table := by
  intro table
  have found : (foundIn (fun _ => 0) deliveredTen table).map VseFlowEntry.irq = some 3 := by decide
  have missed : (foundIn (fun _ => 0) bareTen table).map VseFlowEntry.irq = none := by decide
  refine ⟨⟨rfl, rfl, rfl, rfl⟩, ⟨rfl, rfl, rfl, rfl⟩, ?_, found, missed, ?_⟩
  · intro entry member
    obtain rfl := List.mem_singleton.mp member
    decide
  · intro same
    rw [same, missed] at found
    cases found

end Deliveries

end Vse.HandlingLaws

import Vse.Matching
import Vse.Runs

/-!
# Classifying packets against the flow table

Entries are only ever put in front of the table, and a look-up stops at the first
that accepts. The newest accepting entry therefore decides, and one more entry
changes the answer only for the packets it accepts itself.

The matcher finds the VXLAN fields at fixed distances from `skb->data`. It checks
neither the protocols on the way nor the length of the linear data. The results
below state which bytes decide a match, and for which lengths every byte read is
one of the packet's own.
-/

namespace Vse.Classification

open Words SocketBuffer FlowTable OrderedRules Matching Runs

section History

/-- The two ways to add an entry: with the number that stands for no core, or with a core number.
-/
inductive Add where
  | withoutCore (data : VseMatch)
  | withCore (data : VseMatch) (irq : Byte)

/-- The entry an addition creates: the projection of its data into an entry of zeros, and its core
number. -/
def Add.entry : Add → VseFlowEntry
  | .withoutCore data => ⟨vseSetEntryMatch zeroMatch data, noIrq⟩
  | .withCore data irq => ⟨vseSetEntryMatch zeroMatch data, irq⟩

/-- Perform an addition whose allocation succeeds. Without memory the table stays as it was, so
such additions are left out of the histories. -/
def perform (table : List VseFlowEntry) : Add → List VseFlowEntry
  | .withoutCore data => (vseAddTableEntry true table data).2
  | .withCore data irq => (vseAddTableEntryAndIrq true table data irq).2

theorem perform_eq (table : List VseFlowEntry) (add : Add) :
    perform table add = add.entry :: table := by
  cases add <;> rfl

/-- After any additions the table lists their entries newest first, in front of
what was there before. -/
theorem performed_entries (table : List VseFlowEntry) (adds : List Add) :
    run perform table adds = (adds.map Add.entry).reverse ++ table := by
  induction adds generalizing table with
  | nil => rfl
  | cons add rest inductionHypothesis =>
    rw [run_cons, inductionHypothesis, perform_eq, List.map_cons, List.reverse_cons,
      List.append_assoc, List.singleton_append]

/-- The entry is that of the newest addition that passes a test, by its number in the
history. A number is how many additions came before. -/
def Newest (passes : Nat → Add → Prop) (adds : List Add) (entry : VseFlowEntry) : Prop :=
  ∃ number add, adds[number]? = some add ∧ add.entry = entry ∧ passes number add ∧
    ∀ later other, number < later → adds[later]? = some other → ¬ passes later other

theorem not_newest_nil (passes : Nat → Add → Prop) (entry : VseFlowEntry) :
    ¬ Newest passes [] entry := by
  rintro ⟨number, add, listed, _⟩
  cases listed

/-- The number of one more addition is how many there were, and those before it keep their
numbers. -/
theorem numbered_concat_iff (adds : List Add) (last add : Add) (number : Nat) :
    (adds ++ [last])[number]? = some add ↔
      adds[number]? = some add ∨ number = adds.length ∧ add = last := by
  rcases Nat.lt_trichotomy number adds.length with below | rfl | above
  · rw [List.getElem?_append_left below]
    exact ⟨Or.inl, fun either => either.resolve_right fun atEnd => absurd atEnd.1 below.ne⟩
  · rw [List.getElem?_concat_length, List.getElem?_eq_none le_rfl, Option.some.injEq]
    exact ⟨fun same => Or.inr ⟨rfl, same.symm⟩, fun either => (either.resolve_left nofun).2.symm⟩
  · have outside : (adds ++ [last])[number]? = none := by
      apply List.getElem?_eq_none
      rw [List.length_append, List.length_singleton]
      exact above
    rw [outside, List.getElem?_eq_none above.le]
    exact iff_of_false nofun (by simp [above.ne'])

/-- One more addition is the newest where it passes, and changes nothing elsewhere. This is the
step of the induction on histories. -/
theorem newest_concat (passes : Nat → Add → Prop) (adds : List Add) (last : Add)
    (entry : VseFlowEntry) : Newest passes (adds ++ [last]) entry ↔
      (passes adds.length last ∧ last.entry = entry) ∨
        ¬ passes adds.length last ∧ Newest passes adds entry := by
  have below {number : Nat} {add : Add} (listed : adds[number]? = some add) :
      number < adds.length := (List.getElem?_eq_some_iff.mp listed).1
  simp only [Newest, numbered_concat_iff]
  constructor
  · rintro ⟨number, add, listed | ⟨rfl, rfl⟩, rfl, passed, newest⟩
    · refine Or.inr ⟨newest _ last (below listed) (Or.inr ⟨rfl, rfl⟩), number, add, listed, rfl,
        passed, fun later other behind listedOther => ?_⟩
      exact newest later other behind (Or.inl listedOther)
    · exact Or.inl ⟨passed, rfl⟩
  · rintro (⟨passed, rfl⟩ | ⟨refused, number, add, listed, rfl, passed, newest⟩)
    · refine ⟨adds.length, last, Or.inr ⟨rfl, rfl⟩, rfl, passed, ?_⟩
      rintro later other behind (listed | ⟨rfl, _⟩)
      · exact absurd (below listed) behind.not_gt
      · exact absurd behind (lt_irrefl _)
    · refine ⟨number, add, Or.inl listed, rfl, passed, ?_⟩
      rintro later other behind (listedOther | ⟨rfl, rfl⟩)
      · exact newest later other behind listedOther
      · exact refused

/-- One more addition answers the packets that its entry accepts, and no others. The older
entries keep their numbers. -/
theorem look_up_performed (nwTos : Nat → Byte) (skb : SkBuff) (adds : List Add) (add : Add) :
    (vseLookUpFlowEntry nwTos skb (run perform [] (adds ++ [add]))).value.1 =
      if accepted (nwTos adds.length) skb add.entry then some add.entry
      else (vseLookUpFlowEntry nwTos skb (run perform [] adds)).value.1 := by
  have number : (run perform [] adds).length = adds.length := by
    rw [performed_entries, List.append_nil, List.length_reverse, List.length_map]
  rw [look_up_found, look_up_found, run_append, run_cons, run_nil, perform_eq, matchCalls,
    find_cons, MatchCall.accepts, number]
  cases accepted (nwTos adds.length) skb add.entry <;> rfl

/-- A look-up returns the newest added entry that accepts the packet, and none
exactly when no entry does. One more addition matters only to the packets that
its entry accepts. Later additions leave the earlier entries and their order as
they were. Each entry is tested with a byte of its own.

Proof: by induction on the additions. The last one is the head of the table, so its
entry is tested first; where it refuses the packet, the look-up goes on as if the
addition had not been made. -/
theorem newest_match_wins (nwTos : Nat → Byte) (skb : SkBuff) (adds : List Add) :
    (∀ entry, (vseLookUpFlowEntry nwTos skb (run perform [] adds)).value.1 = some entry ↔
      Newest (fun number add => accepted (nwTos number) skb add.entry = true) adds entry) ∧
    ((vseLookUpFlowEntry nwTos skb (run perform [] adds)).value.1 = none ↔
      ∀ number add, adds[number]? = some add → accepted (nwTos number) skb add.entry = false) ∧
    (∀ add, (vseLookUpFlowEntry nwTos skb (run perform [] (adds ++ [add]))).value.1 =
      if accepted (nwTos adds.length) skb add.entry then some add.entry
      else (vseLookUpFlowEntry nwTos skb (run perform [] adds)).value.1) ∧
    ∀ later, run perform [] (adds ++ later) =
      (later.map Add.entry).reverse ++ run perform [] adds := by
  refine ⟨?_, ?_, look_up_performed nwTos skb adds, ?_⟩
  · intro entry
    induction adds using List.reverseRecOn with
    | nil => exact iff_of_false nofun (not_newest_nil _ entry)
    | append_singleton adds last inductionHypothesis =>
      rw [look_up_performed, newest_concat, ← inductionHypothesis]
      cases accepted (nwTos adds.length) skb last.entry <;> simp
  · induction adds using List.reverseRecOn with
    | nil => exact iff_of_true rfl nofun
    | append_singleton adds last inductionHypothesis =>
      rw [look_up_performed]
      simp only [numbered_concat_iff]
      cases tested : accepted (nwTos adds.length) skb last.entry with
      | true =>
        refine iff_of_false nofun fun refused => ?_
        have refusedLast := refused adds.length last (Or.inr ⟨rfl, rfl⟩)
        rw [tested] at refusedLast
        cases refusedLast
      | false =>
        refine inductionHypothesis.trans ⟨?_, ?_⟩
        · rintro refused number add (listed | ⟨rfl, rfl⟩)
          · exact refused number add listed
          · exact tested
        · intro refused number add listed
          exact refused number add (Or.inl listed)
  · intro later
    rw [run_append, performed_entries]

end History

section Offsets

/-- The packet's own IPv4 header length, in words of four bytes: the low half of its first byte.
-/
def ihl (skb : SkBuff) : Nat := (skb.memory skb.data &&& 0x0f).toNat

/-- Where the UDP header is, by the packet's own IPv4 header length. The code never computes this.
-/
def udpAt (skb : SkBuff) : Nat := skb.data + 4 * ihl skb

/-- Where the VNI of a VXLAN packet is, by its own IPv4 header length. -/
def vniAt (skb : SkBuff) : Nat := udpAt skb + 8 + 4

/-- Where the inner Ethernet header of a VXLAN packet is, likewise by its own IPv4 header length.
-/
def innerAt (skb : SkBuff) : Nat := udpAt skb + 8 + 8

/-- An IPv4 packet with protocol UDP to the given port, as its EtherType, its protocol byte and
its port field tell it. -/
structure IsUdpTo (port : BitVec 16) (skb : SkBuff) : Prop where
  etherType : skb.memory (ethHdr skb + 12) = 0x08 ∧ skb.memory (ethHdr skb + 13) = 0x00
  version : skb.memory skb.data >>> 4 = 4
  protocol : skb.memory (skb.data + 9) = 17
  destination : skb.memory (udpAt skb + 2) ++ skb.memory (udpAt skb + 3) = port

/-- Two packets agree on the bytes a match is compared with: the outer destination
address, the word 32 bytes from `skb->data` and the six bytes 36 from there. -/
structure SameFields (skb other : SkBuff) : Prop where
  outer : outerDst skb = outerDst other
  vni : ∀ index : Fin 4, skb.memory (skb.data + 32 + index) =
    other.memory (other.data + 32 + index)
  inner : ∀ index : Fin 6, skb.memory (skb.data + 36 + index) =
    other.memory (other.data + 36 + index)

/-- The decoded VNI is a function of the four bytes at distance 32, and of nothing else in the
packet. -/
theorem packet_vni_eq (skb : SkBuff) :
    packetVni skb = byteSwap (littleEndian (fun index : Fin 4 =>
      skb.memory (skb.data + 32 + index)) &&& 0xfffffff0#32) >>> 8 := rfl

/-- The two places agree exactly for a header without options: both are off by what the header is
longer. -/
theorem fixed_place_iff (skb : SkBuff) :
    (vniAt skb = skb.data + 32 ↔ ihl skb = 5) ∧ (innerAt skb = skb.data + 36 ↔ ihl skb = 5) := by
  simp only [vniAt, innerAt, udpAt]
  omega

/-- What a match that leaves VM_ID alone asks of the bytes at the fixed places: that its
outer address, its VNI and its inner address, each where it is open, are there, and that no
untested field is open. -/
structure AgreesAtFixedPlaces (skb : SkBuff) (vseMatch : VseMatch) : Prop where
  outer : Restricts ofpfwDlDst vseMatch → vseMatch.dlDst = outerDst skb
  vni : Restricts ofpfwVxlanVni vseMatch → vseMatch.vxVni =
    byteSwap (littleEndian (fun index : Fin 4 =>
      skb.memory (skb.data + 32 + index)) &&& 0xfffffff0#32) >>> 8
  inner : Restricts ofpfwDlIndst vseMatch → ∀ index : Fin 6,
    vseMatch.dlIndst index = skb.memory (skb.data + 36 + index)
  covered : vseMatch.wildcards ||| testedFlags = ofpfwAll

/-- Which bytes decide a match that leaves VM_ID alone. It accepts exactly the packets that
agree with it at the fixed places: an open VNI is compared with the word 32 bytes from
`skb->data`, an open inner address with the six bytes at distance 36. So packets with the
same bytes there and the same outer address are matched alike, whatever their EtherType,
protocol, ports and header length. The places are those of the VXLAN header and of the inner
Ethernet header, by the packet's own header length, exactly when that is five words.

Proof: `do_match_iff` with the VM_ID test left out is the agreement, read at the offsets that
`vse_get_vxlan_vni` and `vse_get_inner_ethhdr` compute; it names no other byte. -/
theorem match_decided_at_fixed_place (skb : SkBuff) (vseMatch : VseMatch)
    (anyVm : ¬ Restricts ofpfwVmId vseMatch) :
    (∀ nwTos, (vseDoMatch nwTos skb vseMatch).value.1 = true ↔
      AgreesAtFixedPlaces skb vseMatch) ∧
    (∀ other, SameFields skb other → ∀ nwTos another,
      (vseDoMatch another other vseMatch).value.1 = (vseDoMatch nwTos skb vseMatch).value.1) ∧
    (vniAt skb = skb.data + 32 ↔ ihl skb = 5) ∧ (innerAt skb = skb.data + 36 ↔ ihl skb = 5) := by
  have decided (packet : SkBuff) (nwTos : Byte) :
      (vseDoMatch nwTos packet vseMatch).value.1 = true ↔ AgreesAtFixedPlaces packet vseMatch := by
    rw [do_match_iff]
    constructor
    · rintro ⟨_, outer, decoded, address, covered⟩
      exact ⟨outer, fun isOpen => (decoded isOpen).trans (packet_vni_eq packet),
        fun isOpen index => congrFun (address isOpen) index, covered⟩
    · rintro ⟨outer, decoded, address, covered⟩
      exact ⟨fun isOpen => absurd isOpen anyVm, outer,
        fun isOpen => (decoded isOpen).trans (packet_vni_eq packet).symm,
        fun isOpen => funext (address isOpen), covered⟩
  refine ⟨decided skb, ?_, fixed_place_iff skb⟩
  intro other same nwTos another
  rw [Bool.eq_iff_iff, decided, decided]
  constructor
  · rintro ⟨outer, decoded, address, covered⟩
    rw [← same.outer] at outer
    simp only [← same.vni] at decoded
    simp only [← same.inner] at address
    exact ⟨outer, decoded, address, covered⟩
  · rintro ⟨outer, decoded, address, covered⟩
    rw [same.outer] at outer
    simp only [same.vni] at decoded
    simp only [same.inner] at address
    exact ⟨outer, decoded, address, covered⟩

/-- An IPv4 packet with protocol TCP whose payload holds `00 00 0a 00` at the place where a VXLAN
packet would carry its VNI. There is no VXLAN header in it. -/
def tcpPacket : SkBuff :=
  received (List.replicate 12 0 ++ [0x08, 0x00, 0x45] ++ List.replicate 8 0 ++ [6] ++
    List.replicate 22 0 ++ [0, 0, 10, 0] ++ List.replicate 20 0) 14 (by decide) (by decide)

/-- The bytes at the fixed places decide that a rule for VNI 10 accepts it, as they do for any
packet that has them. -/
theorem tcp_packet_decided :
    (∀ nwTos, (vseDoMatch nwTos tcpPacket (vniRule 10)).value.1 = true ↔
        AgreesAtFixedPlaces tcpPacket (vniRule 10)) ∧
      ∀ other, SameFields tcpPacket other → ∀ nwTos another,
        (vseDoMatch another other (vniRule 10)).value.1 =
          (vseDoMatch nwTos tcpPacket (vniRule 10)).value.1 := by
  obtain ⟨decided, alike, _⟩ := match_decided_at_fixed_place tcpPacket (vniRule 10) (by decide)
  exact ⟨decided, alike⟩

/-- A VNI rule matches a TCP packet, which is no UDP packet to any port: nothing of the protocol
is looked at. -/
theorem vni_rule_matches_tcp :
    Restricts ofpfwVxlanVni (vniRule 10) ∧ (vseDoMatch 0 tcpPacket (vniRule 10)).value.1 = true ∧
      ∀ port, ¬ IsUdpTo port tcpPacket := by
  refine ⟨by decide, by decide, ?_⟩
  intro port udp
  exact absurd udp.protocol (by decide)

end Offsets

section Bounds

/-- Every byte that testing this match reads is inside the linear data: the VNI
word always, an address only when its field is open and every earlier test passed. -/
structure Covers (skb : SkBuff) (vseMatch : VseMatch) : Prop where
  vni : skb.data + 36 ≤ skb.tail
  outer : Restricts ofpfwDlDst vseMatch → ethHdr skb + 6 ≤ skb.tail
  inner : Restricts ofpfwDlIndst vseMatch →
    (Restricts ofpfwDlDst vseMatch → vseMatch.dlDst = outerDst skb) →
    (Restricts ofpfwVxlanVni vseMatch → vseMatch.vxVni = packetVni skb) →
    skb.data + 42 ≤ skb.tail

/-- The matcher stays inside the linear data exactly when the packet is long enough for the tests
that the match goes through.

Proof: the read of the VNI comes first, and each test adds the reads of its comparison where it is
reached. The VM_ID test, with its stray read, is passed over. -/
theorem do_match_in_linear_iff (nwTos : Byte) (skb : SkBuff) (vseMatch : VseMatch)
    (anyVm : ¬ Restricts ofpfwVmId vseMatch) :
    Traced.Within (InLinear skb) (vseDoMatch nwTos skb vseMatch) ↔ Covers skb vseMatch := by
  have vmId := restricts_iff_clear 21 (by decide) vseMatch
  have dlDst := restricts_iff_clear 3 (by decide) vseMatch
  have vxVni := restricts_iff_clear 8 (by decide) vseMatch
  have dlIndst := restricts_iff_clear 10 (by decide) vseMatch
  have covered : ¬ Clear vseMatch.wildcards 21 := fun isOpen => anyVm (vmId.mpr isOpen)
  have reads : Traced.Within (InLinear skb) (vseDoMatch nwTos skb vseMatch) ↔
      Traced.Within (InLinear skb) (vseGetVxlanVni skb) ∧
      (Clear vseMatch.wildcards 3 →
        Traced.Within (InLinear skb) (macDiffers vseMatch.dlDst skb (ethHdr skb))) ∧
      ((Clear vseMatch.wildcards 3 →
          (macDiffers vseMatch.dlDst skb (ethHdr skb)).value = false) →
        (Clear vseMatch.wildcards 8 → vseMatch.vxVni = packetVni skb) →
        Clear vseMatch.wildcards 10 →
        Traced.Within (InLinear skb)
          (macDiffers vseMatch.dlIndst skb (vseGetInnerEthhdr skb))) := by
    simp only [vseDoMatch, ofpfwVmId, ofpfwDlDst, ofpfwVxlanVni, ofpfwDlIndst, Traced.within_bind,
      Traced.within_pure, Traced.value_pure, within_test_field, clear_or_flag, Nat.reduceLT,
      Nat.reduceEqDiff, ne_eq, not_false_eq_true, and_true, decide_eq_false_iff_not, not_not,
      covered, false_implies, true_and, forall_const, implies_true]
    exact Iff.rfl
  rw [reads]
  simp only [within_vxlan_vni, within_mac_differs, mac_agrees, ← dlDst, ← vxVni, ← dlIndst,
    vseGetInnerEthhdr, Nat.add_assoc, Nat.reduceAdd]
  constructor
  · rintro ⟨vni, outer, inner⟩
    exact ⟨vni, outer, fun isOpen agreed decoded => inner agreed decoded isOpen⟩
  · rintro ⟨vni, outer, inner⟩
    exact ⟨vni, outer, fun agreed decoded isOpen => inner isOpen agreed decoded⟩

/-- A look-up reads for its first entry, and goes on only past one that refuses. The entries
behind an accepted one have no part in it. -/
theorem within_look_up_cons (allowed : Access → Prop) (nwTos : Nat → Byte) (skb : SkBuff)
    (entry : VseFlowEntry) (rest : List VseFlowEntry) :
    Traced.Within allowed (vseLookUpFlowEntry nwTos skb (entry :: rest)) ↔
      Traced.Within allowed (vseDoMatch (nwTos rest.length) skb entry.vseMatch) ∧
        (accepted (nwTos rest.length) skb entry = false →
          Traced.Within allowed (vseLookUpFlowEntry nwTos (skbResetNetworkHeader skb) rest)) := by
  have tested : (vseDoMatch (nwTos rest.length) skb entry.vseMatch).value =
      (accepted (nwTos rest.length) skb entry, skbResetNetworkHeader skb) := rfl
  rw [vseLookUpFlowEntry, Traced.within_bind, tested]
  cases accepted (nwTos rest.length) skb entry <;> simp

/-- A look-up stays inside the linear data exactly when the packet is long enough
for every entry it examines. No length is checked on the way: the VNI word alone
needs 36 bytes from `skb->data` as soon as there is an entry.

Proof: by induction on the table. The call for the head reads what its match needs,
and the other entries are examined only when it returns false; the network header,
which it resets, has no part in what they need. -/
theorem look_up_in_linear_iff (nwTos : Nat → Byte) (skb : SkBuff) (table : List VseFlowEntry)
    (anyVm : ∀ entry ∈ table, ¬ Restricts ofpfwVmId entry.vseMatch) :
    Traced.Within (InLinear skb) (vseLookUpFlowEntry nwTos skb table) ↔
      ∀ call, Examined (fun other => MatchCall.accepts skb other = true)
          (matchCalls nwTos table) call → Covers skb call.entry.vseMatch := by
  induction table generalizing skb with
  | nil =>
    constructor
    · intro _ call examined
      exact absurd examined (not_examined_nil _ call)
    · intro _
      exact Traced.within_pure _ _
  | cons head rest inductionHypothesis =>
    have headAny : ¬ Restricts ofpfwVmId head.vseMatch := anyVm head List.mem_cons_self
    have later := inductionHypothesis (skbResetNetworkHeader skb)
      (fun entry member => anyVm entry (List.mem_cons_of_mem head member))
    have first := do_match_in_linear_iff (nwTos rest.length) skb head.vseMatch headAny
    have same : InLinear (skbResetNetworkHeader skb) = InLinear skb := rfl
    have sameCalls : MatchCall.accepts (skbResetNetworkHeader skb) = MatchCall.accepts skb := rfl
    rw [same, sameCalls] at later
    rw [within_look_up_cons, first, later, matchCalls]
    constructor
    · rintro ⟨covers, others⟩ call examined
      rcases (examined_cons _ _ _ call).mp examined with rfl | ⟨refused, examined⟩
      · exact covers
      · obtain ⟨vni, outer, inner⟩ := others (by simpa [MatchCall.accepts] using refused) call
          examined
        exact ⟨vni, outer, inner⟩
    · intro every
      refine ⟨every _ ((examined_cons _ _ _ _).mpr (Or.inl rfl)), ?_⟩
      intro refused call examined
      obtain ⟨vni, outer, inner⟩ := every call ((examined_cons _ _ _ call).mpr
        (Or.inr ⟨by simpa [MatchCall.accepts] using refused, examined⟩))
      exact ⟨vni, outer, inner⟩

/-- An ARP frame: 28 bytes after the Ethernet header, fewer than the VNI word needs. -/
def arpFrame : SkBuff :=
  received (List.replicate 12 0xff ++ [0x08, 0x06] ++ List.replicate 28 0) 14
    (by decide) (by decide)

/-- One catch-all entry is enough to read past the end of an ARP frame, although it compares
nothing with the packet. -/
theorem arp_read_outside :
    ¬ Traced.Within (InLinear arpFrame) (vseLookUpFlowEntry (fun _ => 0) arpFrame
      [⟨{ zeroMatch with wildcards := ofpfwAll }, 3⟩]) := by
  intro inside
  have beyond : 46 < arpFrame.tail := inside (.linear 46) (by decide)
  exact absurd beyond (by decide)

/-- A long enough packet is read inside its linear data, by the law above. -/
theorem tcp_read_inside :
    Traced.Within (InLinear tcpPacket) (vseLookUpFlowEntry (fun _ => 0) tcpPacket
      [⟨vniRule 10, 3⟩]) := by
  refine (look_up_in_linear_iff (fun _ => 0) tcpPacket [⟨vniRule 10, 3⟩] (by decide)).mpr ?_
  intro call examined
  obtain rfl := List.mem_singleton.mp (examined_mem _ _ call examined)
  exact ⟨by decide, fun isOpen => absurd isOpen (by decide),
    fun isOpen => absurd isOpen (by decide)⟩

end Bounds

end Vse.Classification

import Vse.LiveRules

/-!
# Two laws of the matcher

A stored match stands for the match it was projected from: the matcher runs alike on both,
with the same result and the same accesses, and the projection keeps no trace of what the
wildcards cover.

A match that restricts VM_ID is not decided by the packet. The matcher never assigns the
pointer through which it reads the TOS byte, so the pointer may lead to no memory, and the
byte may be any. A VM_ID is compared in seven bits and the byte has only six left after the
shift: the seventh bit alone settles when no byte can make a difference.
-/

namespace Vse.MatcherLaws

open SocketBuffer FlowTable Matching LiveRules

section Projection

/-- The match of an entry made from the given data: what `vse_set_entry_match` makes of it in an
entry of zeros. -/
def stored (data : VseMatch) : VseMatch := vseSetEntryMatch zeroMatch data

/-- The two have the same wildcards and agree on every supported field that these leave open. What
a covered field holds makes no difference. -/
structure SameOpenFields (data other : VseMatch) : Prop where
  wildcards : other.wildcards = data.wildcards
  vmId : Restricts ofpfwVmId data → other.vmId = data.vmId
  dlDst : Restricts ofpfwDlDst data → other.dlDst = data.dlDst
  vxVni : Restricts ofpfwVxlanVni data → other.vxVni = data.vxVni
  dlIndst : Restricts ofpfwDlIndst data → other.dlIndst = data.dlIndst

/-- A stored match agrees with its data. -/
theorem stored_same (data : VseMatch) : SameOpenFields data (stored data) := by
  rw [stored, set_entry_match_eq]
  constructor
  · rfl
  · intro isOpen
    exact if_pos isOpen
  · intro isOpen
    exact if_pos isOpen
  · intro isOpen
    exact if_pos isOpen
  · intro isOpen
    exact if_pos isOpen

/-- Matches that agree on what is open are stored alike, byte for byte: covered fields are not
copied. -/
theorem stored_congr (data other : VseMatch) (same : SameOpenFields data other) :
    stored other = stored data := by
  have restricts (bit : BitVec 32) : Restricts bit other ↔ Restricts bit data := by
    rw [Restricts, Restricts, same.wildcards]
  have field {α : Type} (bit : BitVec 32) (kept held zero : α)
      (agrees : Restricts bit data → kept = held) :
      (if Restricts bit data then kept else zero) = if Restricts bit data then held else zero := by
    by_cases isOpen : Restricts bit data
    · rw [if_pos isOpen, if_pos isOpen, agrees isOpen]
    · rw [if_neg isOpen, if_neg isOpen]
  rw [stored, stored, set_entry_match_eq, set_entry_match_eq]
  simp only [restricts, same.wildcards, field _ _ _ _ same.vmId, field _ _ _ _ same.dlDst,
    field _ _ _ _ same.vxVni, field _ _ _ _ same.dlIndst]

theorem covered_stays (wildcards extra bit : BitVec 32) (covered : ~~~wildcards &&& bit = 0) :
    ~~~(wildcards ||| extra) &&& bit = 0 := by
  have split : ~~~(wildcards ||| extra) = ~~~extra &&& ~~~wildcards := by
    rw [BitVec.not_or, BitVec.and_comm]
  rw [split, BitVec.and_assoc, covered]
  exact BitVec.and_zero

/-- A test depends on its comparison only where the field is open to begin with. Flags that were
added on the way can only cover it. -/
theorem test_field_congr (bit wildcards extra : BitVec 32) (differs other : Traced Access Bool)
    (next after : BitVec 32 → Traced Access Bool)
    (same : ~~~wildcards &&& bit ≠ 0 → differs = other)
    (onward : ∀ more, next (wildcards ||| more) = after (wildcards ||| more)) :
    testField bit differs (wildcards ||| extra) next =
      testField bit other (wildcards ||| extra) after := by
  by_cases tested : ~~~(wildcards ||| extra) &&& bit ≠ 0
  · have isOpen : ~~~wildcards &&& bit ≠ 0 := mt (covered_stays wildcards extra bit) tested
    simp only [testField, if_pos tested, same isOpen, BitVec.or_assoc, onward]
  · simp only [testField, if_neg tested, onward]

/-- The matcher runs alike on matches that agree on what is open: it returns the same and reads
the same bytes. -/
theorem do_match_congr (nwTos : Byte) (skb : SkBuff) (data other : VseMatch)
    (same : SameOpenFields data other) :
    vseDoMatch nwTos skb other = vseDoMatch nwTos skb data := by
  have start : data.wildcards = data.wildcards ||| 0 := BitVec.or_zero.symm
  unfold vseDoMatch
  dsimp only
  congr 1
  funext vxVni
  congr 1
  rw [same.wildcards, start]
  apply test_field_congr
  · intro isOpen
    rw [vmIdDiffers, vmIdDiffers, same.vmId isOpen]
  intro more
  apply test_field_congr
  · intro isOpen
    rw [same.dlDst isOpen]
  intro more
  apply test_field_congr
  · intro isOpen
    rw [same.vxVni isOpen]
  intro more
  apply test_field_congr
  · intro isOpen
    rw [same.dlIndst isOpen]
  intro more
  rfl

/-- Projection preserves matching. The entry made from some data is matched as the data itself
would be: on every packet, whatever the unassigned pointer reads, with the same result and the
same accesses. Data that agree on what they leave open are stored alike, and a stored match is
stored as it is.

Proof: the projection copies the wildcards and every open field, so the stored match agrees with
its data on what is open, and the matcher compares nothing else. -/
theorem projection_preserves_matching (data other : VseMatch) :
    (∀ table irq, (vseAddTableEntryAndIrq true table data irq).2 = ⟨stored data, irq⟩ :: table) ∧
      (∀ nwTos skb, vseDoMatch nwTos skb (stored data) = vseDoMatch nwTos skb data) ∧
      (SameOpenFields data other → stored other = stored data) ∧
      stored (stored data) = stored data := by
  have same := stored_same data
  refine ⟨fun _ _ => rfl, ?_, stored_congr data other, stored_congr data (stored data) same⟩
  intro nwTos skb
  exact do_match_congr nwTos skb data (stored data) same

/-- Two rules for VNI 10, one with a stale outer address in a covered field, are stored alike. -/
theorem stale_address_dropped :
    stored { vniRule 10 with dlDst := fun _ => 0xff } = stored (vniRule 10) := by
  have covered : ¬ Restricts ofpfwDlDst (vniRule 10) := by decide
  exact (projection_preserves_matching (vniRule 10) _).2.2.1
    ⟨rfl, fun _ => rfl, fun isOpen => absurd isOpen covered, fun _ => rfl, fun _ => rfl⟩

end Projection

section UnassignedPointer

variable (skb : SkBuff) (vseMatch : VseMatch)

/-- The TOS byte of the header at the packet's network header, which is what `nw->tos` is meant to
be. -/
def networkTos (skb : SkBuff) : Byte := skb.memory (skb.networkHeader.toNat + 1)

/-- The test of VM_ID through any `nw`; where `nw` leads to no memory there is no outcome. -/
def vmIdDiffersThrough (nw : Option Byte) (vseMatch : VseMatch) : Option Bool :=
  nw.map fun nwTos => (vmIdDiffers nwTos vseMatch).value

/-- The packet decides a match on VM_ID, for all pointers of some kind that `nw` may start
with. The test passes exactly for the TOS byte of the outer header, and any two runs of the
matcher end alike. -/
structure DecidedAmong (pointers : Option Byte → Prop) : Prop where
  test : ∀ nw, pointers nw → (vmIdDiffersThrough nw vseMatch = some false ↔
    vseMatch.vmId &&& (0x7f : Byte) = networkTos (skbResetNetworkHeader skb) >>> 2)
  agree : ∀ nw other, pointers nw → pointers other →
    vseDoMatchThrough nw skb vseMatch = vseDoMatchThrough other skb vseMatch

/-- The packet decides whatever `nw` starts with: a pointer to any byte, or to no memory. -/
def DecidedByPacket : Prop := DecidedAmong skb vseMatch fun _ => True

theorem low_bits_agree (vmId tos : Byte) :
    (vmId ^^^ (tos >>> 2)) &&& 0x7f = 0 ↔ vmId &&& (0x7f : Byte) = tos >>> 2 := by
  have narrow : (tos >>> 2) &&& (0x7f : Byte) = tos >>> 2 := by
    apply BitVec.eq_of_toNat_eq
    have small := tos.isLt
    rw [BitVec.toNat_and, BitVec.toNat_ushiftRight, Nat.shiftRight_eq_div_pow]
    exact (Nat.and_two_pow_sub_one_eq_mod (tos.toNat / 2 ^ 2) 7).trans
      (Nat.mod_eq_of_lt (by omega))
  have split : (vmId ^^^ (tos >>> 2)) &&& (0x7f : Byte) =
      (vmId &&& (0x7f : Byte)) ^^^ ((tos >>> 2) &&& (0x7f : Byte)) := by
    apply BitVec.eq_of_toNat_eq
    simp only [BitVec.toNat_and, BitVec.toNat_xor, Nat.and_xor_distrib_right]
  rw [split, narrow]
  exact BitVec.xor_eq_zero_iff

/-- Bit 2 of the byte makes a difference: flipped, it turns a test that passes into one that
fails. -/
theorem other_tos_differs (vmId tos : Byte) (agrees : (vmId ^^^ (tos >>> 2)) &&& 0x7f = 0) :
    (vmId ^^^ ((tos ^^^ 4) >>> 2)) &&& 0x7f ≠ 0 := by
  intro agreesToo
  rw [low_bits_agree] at agrees agreesToo
  have same := congrArg (fun byte => byte.getLsbD 0) (agrees.symm.trans agreesToo)
  simp at same

/-- A test that passes for some byte fails for another, so what lies behind the pointer decides.
-/
theorem vm_id_undecided (small : vseMatch.vmId.getLsbD 6 = false) :
    ∃ nwTos other, (vmIdDiffers nwTos vseMatch).value = false ∧
      (vmIdDiffers other vseMatch).value = true := by
  obtain ⟨tos, agrees⟩ := (vm_id_agrees_iff vseMatch.vmId).mpr small
  have differs := other_tos_differs vseMatch.vmId tos agrees
  rw [← vm_id_agrees] at agrees
  rw [ne_eq, ← vm_id_agrees, Bool.not_eq_false] at differs
  exact ⟨tos, tos ^^^ 4, agrees, differs⟩

/-- The seventh bit keeps the test from passing, since only six bits of the byte are left after
the shift. -/
theorem vm_id_never_agrees (large : vseMatch.vmId.getLsbD 6 = true) (tos : Byte) :
    ¬ (vseMatch.vmId ^^^ (tos >>> 2)) &&& 0x7f = 0 := by
  intro agrees
  rw [(vm_id_agrees_iff vseMatch.vmId).mp ⟨tos, agrees⟩] at large
  cases large

/-- Every run reads through the unassigned pointer when VM_ID is open: it is tested first. -/
theorem stray_read (restricted : Restricts ofpfwVmId vseMatch) (nwTos : Byte) :
    .stray ∈ (vseDoMatch nwTos skb vseMatch).trace := by
  have first : .stray ∈ (vmIdDiffers nwTos vseMatch).trace := List.mem_singleton_self _
  simp only [vseDoMatch, testField, if_pos (show ~~~vseMatch.wildcards &&& ofpfwVmId ≠ 0 from
    restricted), Traced.trace_bind, List.mem_append]
  exact Or.inr (Or.inl (Or.inl first))

/-- So the matcher returns nothing when the pointer leads to no memory, whatever the VM_ID and the
packet are. -/
theorem no_result_without_memory (restricted : Restricts ofpfwVmId vseMatch) :
    vseDoMatchThrough none skb vseMatch = none :=
  if_pos (stray_read skb vseMatch restricted 0)

/-- Where the pointer leads to some byte, the packet decides exactly the matches whose VM_ID
has bit 6 set: no byte passes the test then. -/
theorem decided_among_bytes_iff (restricted : Restricts ofpfwVmId vseMatch) :
    DecidedAmong skb vseMatch (fun nw => nw.isSome = true) ↔ vseMatch.vmId.getLsbD 6 = true := by
  have through (nwTos : Byte) : vmIdDiffersThrough (some nwTos) vseMatch = some false ↔
      (vmIdDiffers nwTos vseMatch).value = false := Option.some_inj
  constructor
  · intro decided
    by_contra small
    obtain ⟨nwTos, other, agrees, differs⟩ :=
      vm_id_undecided vseMatch (Bool.eq_false_iff.mpr small)
    have carried := (decided.test (some nwTos) rfl).mp ((through nwTos).mpr agrees)
    rw [(through other).mp ((decided.test (some other) rfl).mpr carried)] at differs
    cases differs
  · intro large
    have refused (tos : Byte) :
        vseDoMatchThrough (some tos) skb vseMatch = some (false, skbResetNetworkHeader skb) := by
      have unmatched : ¬ (vseDoMatch tos skb vseMatch).value.1 = true := by
        intro matched
        have accepts := (do_match_iff tos skb vseMatch).mp matched
        exact vm_id_never_agrees vseMatch large tos (accepts.vmId restricted)
      exact congrArg some (Prod.ext (Bool.eq_false_iff.mpr unmatched) rfl)
    constructor
    · intro nw led
      obtain ⟨nwTos, rfl⟩ := Option.isSome_iff_exists.mp led
      rw [through, vm_id_agrees, ← low_bits_agree]
      exact iff_of_false (vm_id_never_agrees vseMatch large nwTos)
        (vm_id_never_agrees vseMatch large _)
    · intro nw other led otherLed
      obtain ⟨nwTos, rfl⟩ := Option.isSome_iff_exists.mp led
      obtain ⟨otherTos, rfl⟩ := Option.isSome_iff_exists.mp otherLed
      rw [refused nwTos, refused otherTos]

/-- No match on VM_ID is decided by the packet, whatever the packet and the VM_ID are. Every
run reads through the unassigned pointer. Even among pointers that lead to a byte the packet
decides only when bit 6 of the VM_ID is set.

Proof: VM_ID is the first field tested, so a run whose pointer leads to no memory returns
nothing, while one whose pointer leads to a byte returns. Among these, a VM_ID below 64 is
passed for the byte that carries it and refused for the byte with another bit 2, whereas one
with bit 6 set differs from every TOS byte, of which six bits are left after the shift. -/
theorem never_decided_by_packet (restricted : Restricts ofpfwVmId vseMatch) :
    ¬ DecidedByPacket skb vseMatch ∧
      (DecidedAmong skb vseMatch (fun nw => nw.isSome = true) ↔
        vseMatch.vmId.getLsbD 6 = true) ∧
      ∀ nwTos, .stray ∈ (vseDoMatch nwTos skb vseMatch).trace := by
  refine ⟨?_, decided_among_bytes_iff skb vseMatch restricted, stray_read skb vseMatch restricted⟩
  intro decided
  have same := decided.agree none (some 0) trivial trivial
  rw [no_result_without_memory skb vseMatch restricted] at same
  cases same

/-- A match on VM_ID and nothing else, as `VSE_IOCTL_SET_VM_ID` leaves it after a rule was
started. -/
def vmRule (vmId : Byte) : VseMatch :=
  { zeroMatch with wildcards := ofpfwAll &&& ~~~ofpfwVmId, vmId := vmId }

/-- A VXLAN frame with the TOS byte of VM_ID 5. -/
def frameOfFive : SkBuff := taggedFrame 20 (fun _ => 0) (fun _ => 0) 10

/-- Not even the frame of VM_ID 5 decides on VM_ID 69, which no TOS byte carries. -/
theorem vm_id_sixty_nine_undecided : ¬ DecidedByPacket frameOfFive (vmRule 69) :=
  (never_decided_by_packet frameOfFive (vmRule 69) (by decide)).1

/-- The rule for VM_ID 5 accepts the frame or refuses it as the pointer has it, and the run faults
where the pointer leads to no memory. -/
theorem vm_id_five_undecided :
    networkTos (skbResetNetworkHeader frameOfFive) = 20 ∧
      (vseDoMatch 20 frameOfFive (vmRule 5)).value.1 = true ∧
      (vseDoMatch 0 frameOfFive (vmRule 5)).value.1 = false ∧
      vseDoMatchThrough none frameOfFive (vmRule 5) = none ∧
      ¬ DecidedByPacket frameOfFive (vmRule 5) := by
  have accepted : (vseDoMatch 20 frameOfFive (vmRule 5)).value.1 = true := by decide
  have refused : (vseDoMatch 0 frameOfFive (vmRule 5)).value.1 = false := by decide
  have faults : vseDoMatchThrough none frameOfFive (vmRule 5) = none :=
    no_result_without_memory frameOfFive (vmRule 5) (by decide)
  refine ⟨by decide, accepted, refused, faults, ?_⟩
  intro decided
  have same := congrArg (Option.map Prod.fst) (decided.agree (some 20) (some 0) trivial trivial)
  have sameValue := Option.some.inj same
  rw [accepted, refused] at sameValue
  cases sameValue

end UnassignedPointer

end Vse.MatcherLaws

import Vse.Conditions
import Vse.StagedHistory

/-!
# Which rules can match at all

An insertion looks at nothing that it is given: whatever is staged becomes an entry, and
entries stay. Some can never match. The final comparison with `OFPFW_ALL` fails for a rule
that was never started. A VM_ID is compared in seven bits with a TOS byte that was shifted
down to six. A VNI is compared with a decoded one, which has three bytes and has lost the
bits that the decoder's mask clears.
-/

namespace Vse.LiveRules

open Words SocketBuffer FlowTable Matching Device StagedCommands StagedHistory VniDecoding
  Conditions Runs

/-- The TOS byte of the outer IPv4 header, at the place where the packet's data begins. -/
def outerTos (skb : SkBuff) : Byte := skb.memory (skb.data + 1)

/-- Some packet is accepted, when VM_ID is compared with its TOS byte, as it is meant to be. Rules
that are not live can only be a waste. -/
def Live (vseMatch : VseMatch) : Prop :=
  ∃ skb, (vseDoMatch (outerTos skb) skb vseMatch).value.1 = true

/-- A VXLAN frame with the given TOS byte, which stands for a VM_ID, and the given addresses and
VNI. -/
def taggedFrame (tos : Byte) (outer inner : Mac) (vni : BitVec 32) : SkBuff :=
  { vxlanFrame outer inner vni with
    memory := Function.update (vxlanFrame outer inner vni).memory 15 tos }

/-- The TOS byte is apart from the other fields: the frame has all four as it was made with. -/
theorem tagged_frame_fields (tos : Byte) (outer inner : Mac) (vni : BitVec 32)
    (decodable : Decodable vni) :
    outerTos (taggedFrame tos outer inner vni) = tos ∧
      outerDst (taggedFrame tos outer inner vni) = outer ∧
      innerDst (taggedFrame tos outer inner vni) = inner ∧
      packetVni (taggedFrame tos outer inner vni) = vni := by
  obtain ⟨hasOuter, hasInner, hasVni⟩ := vxlan_frame_fields outer inner vni decodable
  have apart (offset : Nat) (other : offset ≠ 15) :
      (taggedFrame tos outer inner vni).memory offset =
        (vxlanFrame outer inner vni).memory offset :=
    Function.update_of_ne other _ _
  have carried : carriedVni (taggedFrame tos outer inner vni) =
      carriedVni (vxlanFrame outer inner vni) := by
    have start : (taggedFrame tos outer inner vni).data = 14 := rfl
    simp only [carriedVni, start]
    rw [apart 46 (by decide), apart 47 (by decide), apart 48 (by decide)]
    rfl
  refine ⟨rfl, ?_, ?_, ?_⟩
  · refine Eq.trans (funext fun index => apart _ ?_) hasOuter
    have small := index.isLt
    change 0 + index.val ≠ 15
    omega
  · refine Eq.trans (funext fun index => apart _ ?_) hasInner
    change 14 + 20 + 8 + 8 + index.val ≠ 15
    omega
  · rw [packet_vni_eq_masked, carried, ← packet_vni_eq_masked]
    exact hasVni

/-- A VM_ID agrees with some TOS byte when its bit 6 is clear: the shift leaves no such bit
in the TOS byte. -/
theorem vm_id_agrees_iff (vmId : Byte) :
    (∃ tos : Byte, (vmId ^^^ (tos >>> 2)) &&& 0x7f = 0) ↔ vmId.getLsbD 6 = false := by
  constructor
  · rintro ⟨tos, agrees⟩
    have bit := congrArg (fun byte => byte.getLsbD 6) agrees
    have above : tos.getLsbD 8 = false := BitVec.getLsbD_of_ge tos 8 (le_refl 8)
    simpa [above] using bit
  · intro small
    refine ⟨vmId <<< 2, ?_⟩
    apply BitVec.eq_of_getLsbD_eq
    intro index inside
    match index, inside with
    | 6, _ => simpa using small
    | 0, _ | 1, _ | 2, _ | 3, _ | 4, _ | 5, _ | 7, _ => simp

/-- A word can be decoded when it has three bytes and none of the lost bits. -/
theorem decodable_iff (word : BitVec 32) :
    Decodable word ↔ word &&& lostBits = 0 ∧ word.toNat < 2 ^ 24 := by
  constructor
  · intro decodable
    obtain ⟨_, kept⟩ := decodable_kept word decodable
    refine ⟨(kept_iff_none_lost word).mp kept, ?_⟩
    rw [← decodable, BitVec.toNat_and]
    exact Nat.lt_of_le_of_lt Nat.and_le_right (by decide)
  · rintro ⟨lost, small⟩
    have narrow : word &&& 0x00ffffff#32 = word := by
      apply BitVec.eq_of_toNat_eq
      rw [BitVec.toNat_and]
      exact (Nat.and_two_pow_sub_one_eq_mod word.toNat 24).trans (Nat.mod_eq_of_lt small)
    calc word &&& 0x00f0ffff#32
        = word &&& keptBits &&& 0x00ffffff#32 := by rw [BitVec.and_assoc]; rfl
      _ = word := by rw [(kept_iff_none_lost word).mpr lost, narrow]

/-- Which matches some packet satisfies. Each open field can be met on its own, and an open field
that is never tested rules out every packet. -/
theorem live_iff (vseMatch : VseMatch) : Live vseMatch ↔
    vseMatch.wildcards ||| testedFlags = ofpfwAll ∧
      (Restricts ofpfwVmId vseMatch → vseMatch.vmId.getLsbD 6 = false) ∧
      (Restricts ofpfwVxlanVni vseMatch → Decodable vseMatch.vxVni) := by
  constructor
  · rintro ⟨skb, matched⟩
    have accepts := (do_match_iff _ skb vseMatch).mp matched
    refine ⟨accepts.covered, ?_, ?_⟩
    · intro isOpen
      exact (vm_id_agrees_iff vseMatch.vmId).mp ⟨outerTos skb, accepts.vmId isOpen⟩
    · intro isOpen
      rw [accepts.vxVni isOpen]
      exact packet_vni_decodable skb
  · rintro ⟨covered, vmId, vni⟩
    obtain ⟨tos, tagged⟩ : ∃ tos : Byte, Restricts ofpfwVmId vseMatch →
        (vseMatch.vmId ^^^ (tos >>> 2)) &&& 0x7f = 0 := by
      by_cases isOpen : Restricts ofpfwVmId vseMatch
      · obtain ⟨tos, agrees⟩ := (vm_id_agrees_iff vseMatch.vmId).mpr (vmId isOpen)
        exact ⟨tos, fun _ => agrees⟩
      · exact ⟨0, fun restricted => absurd restricted isOpen⟩
    have canDecode := frame_vni_decodable vseMatch
    obtain ⟨hasTos, hasOuter, hasInner, hasVni⟩ :=
      tagged_frame_fields tos vseMatch.dlDst vseMatch.dlIndst (frameVni vseMatch) canDecode
    refine ⟨taggedFrame tos vseMatch.dlDst vseMatch.dlIndst (frameVni vseMatch), ?_⟩
    rw [do_match_iff, hasTos]
    refine ⟨tagged, fun _ => hasOuter.symm, ?_, fun _ => hasInner.symm, covered⟩
    intro isOpen
    rw [hasVni, frameVni, if_pos (vni isOpen)]

/-- Which entries some packet satisfies, and that the device looks at nothing. Take an entry
whose VM_ID, where restricted, fits in the six bits that are left of a TOS byte, and whose
VNI, where restricted, has none of the bits that the decoder loses. It can match if and only
if its rule was started and its VNI, where restricted, has 24 bits. A commit inserts the
staged rule in any case.

Proof: a match that covers the untested fields, with such a VM_ID and a VNI that the decoder
can return, is met by a frame made for it. The wildcards cover the untested fields exactly
after an `INIT_WILDCARDS`, as no other command touches their flags. -/
theorem entry_live_iff (calls front : List IoctlCall) (entry : VseFlowEntry)
    (insertion : InsertedAfter calls front entry)
    (fits : Restricts ofpfwVmId entry.vseMatch → entry.vseMatch.vmId.getLsbD 6 = false)
    (decoded : Restricts ofpfwVxlanVni entry.vseMatch → entry.vseMatch.vxVni &&& lostBits = 0) :
    (Live entry.vseMatch ↔ Initialised front ∧
      (Restricts ofpfwVxlanVni entry.vseMatch → entry.vseMatch.vxVni.toNat < 2 ^ 24)) ∧
    ∀ (before : List IoctlCall) (call : IoctlCall), call.cmd = Request.setEntry.code →
      call.kzalloc = true →
        inserted (run deviceStep moduleLoad before) call = [committed before] := by
  refine ⟨?_, fun before call => inserted_commit _ call⟩
  rw [live_iff, entry_covered_iff calls front entry insertion, and_iff_right fits]
  refine and_congr_right fun _ => forall_congr' fun isOpen => ?_
  rw [decodable_iff, and_iff_right (decoded isOpen)]

/-- A commit without a rule started and a VNI of 25 bits make entries that no packet
satisfies. -/
theorem dead_rules_inserted :
    let unstarted : List IoctlCall := []
    let wide := [startCall, ⟨Request.setVni.code, wordPtr 0x1000000, true⟩]
    ∀ front ∈ [unstarted, wide],
      InsertedAfter (front ++ [commitCall]) front (committed front) ∧
        ¬ Live (committed front).vseMatch := by
  intro unstarted wide front member
  refine ⟨committed_inserted front, ?_⟩
  rw [live_iff]
  simp only [List.mem_cons, List.not_mem_nil, or_false] at member
  rcases member with rfl | rfl <;> decide

/-- The rule for VNI 10 can match, by the law above: it was started, and its VNI has 24 bits. -/
theorem vni_rule_live :
    Live (committed [startCall, ⟨Request.setVni.code, wordPtr 10, true⟩]).vseMatch :=
  (entry_live_iff _ _ _
    (committed_inserted [startCall, ⟨Request.setVni.code, wordPtr 10, true⟩]) (by decide)
      (by decide)).1.mpr ⟨⟨startCall, List.mem_cons_self, rfl⟩, by decide⟩

end Vse.LiveRules

import Vse.Matching
import Vse.StagedCommands

/-!
# Decoding the VNI

A VXLAN header carries its 24-bit VNI in network byte order in bytes 4 to 6, with a
reserved byte behind it. The decoder loads the four bytes as a little-endian word
and masks before it swaps. The mask `0xfffffff0` then falls on the low four bits of
the first VNI byte, not on the reserved byte: bits 16 to 19 of the VNI are lost. The
shift after the swap is what drops the reserved byte.
-/

namespace Vse.VniDecoding

open Words SocketBuffer FlowTable Matching Device StagedCommands Runs

/-- The VNI that the packet carries, most significant byte first, behind 20 bytes of IPv4 header,
8 of UDP and the first four of the VXLAN header. -/
def carriedVni (skb : SkBuff) : BitVec 32 :=
  placed (skb.memory (skb.data + 32)) 2 ||| placed (skb.memory (skb.data + 33)) 1 |||
    placed (skb.memory (skb.data + 34)) 0

/-- The bits of a VNI that survive the decoder's mask. They are all but four bits of the most
significant VNI byte. -/
def keptBits : BitVec 32 := 0xfff0ffff

/-- The bits of a VNI that the mask clears. The mask has its four zero bits in the byte that is
meant for the flags on another byte order. -/
def lostBits : BitVec 32 := 0x000f0000

/-- The low bytes of the carried VNI, in the order of a word: the last byte in the packet is the
lowest. -/
theorem carried_byte (skb : SkBuff) (index : Nat) (inside : index < 3) :
    byteAt (carriedVni skb) index = skb.memory (skb.data + 32 + (2 - index)) := by
  match index, inside with
  | 0, _ | 1, _ | 2, _ => simp [carriedVni, byteAt_or, byteAt_placed]

/-- A VNI has three bytes. -/
theorem carried_high_byte (skb : SkBuff) : byteAt (carriedVni skb) 3 = 0 := by
  simp [carriedVni, byteAt_or, byteAt_placed]

/-- The bytes of the word that the decoder loads and masks, each with the part of the mask in its
place. -/
theorem masked_load_byte (skb : SkBuff) (index : Nat) (inside : index < 4) :
    byteAt ((loadWord skb (skb.data + 20 + 8 + 4)).value &&& 0xfffffff0#32) index =
      skb.memory (skb.data + 32 + index) &&& byteAt 0xfffffff0#32 index := by
  have loaded := byteAt_littleEndian (fun place => skb.memory (skb.data + 32 + place))
    ⟨index, inside⟩
  rw [byteAt_and]
  exact congrArg (· &&& byteAt 0xfffffff0#32 index) loaded

/-- The decoder's mask meets the VNI bytes in reverse order, since it is applied before the swap.
-/
theorem mask_byte (index : Nat) (inside : index < 3) :
    byteAt 0xfffffff0#32 (2 - index) = byteAt keptBits index := by
  match index, inside with
  | 0, _ | 1, _ | 2, _ => decide

/-- The decoder returns the carried VNI without the bits that its mask clears, whatever the
reserved byte is.

Proof: compare byte by byte. The swap and the shift bring the three loaded VNI bytes to their
places, each with its part of the mask, and leave zero in the fourth. -/
theorem packet_vni_eq_masked (skb : SkBuff) : packetVni skb = carriedVni skb &&& keptBits := by
  have unfolded : packetVni skb =
      byteSwap ((loadWord skb (skb.data + 20 + 8 + 4)).value &&& 0xfffffff0#32) >>> 8 := rfl
  apply eq_of_bytes
  intro index inside
  rw [unfolded, byteAt_ushiftRight, byteAt_and]
  by_cases high : index = 3
  · subst high
    rw [byteAt_of_outside _ 4 (by decide), carried_high_byte]
    exact BitVec.zero_and.symm
  · have low : index < 3 := by omega
    have opposite : 3 - (index + 1) = 2 - index := by omega
    calc byteAt (byteSwap ((loadWord skb (skb.data + 20 + 8 + 4)).value &&& 0xfffffff0#32))
          (index + 1)
        = byteAt ((loadWord skb (skb.data + 20 + 8 + 4)).value &&& 0xfffffff0#32)
            (3 - (index + 1)) := byteAt_byteSwap _ ⟨index + 1, by omega⟩
      _ = skb.memory (skb.data + 32 + (2 - index)) &&& byteAt 0xfffffff0#32 (2 - index) := by
        rw [opposite, masked_load_byte skb (2 - index) (by omega)]
      _ = byteAt (carriedVni skb) index &&& byteAt keptBits index := by
        rw [carried_byte skb index low, mask_byte index low]

/-- Masking keeps a word exactly when it has none of the masked bits. So the two masks stand for
one condition. -/
theorem kept_iff_none_lost (word : BitVec 32) :
    word &&& keptBits = word ↔ word &&& lostBits = 0 := by
  have disjoint : keptBits &&& lostBits = 0 := by decide
  have together : keptBits ||| lostBits = BitVec.allOnes 32 := by decide
  constructor
  · intro kept
    rw [← kept, BitVec.and_assoc, disjoint]
    exact BitVec.and_zero
  · intro lost
    calc word &&& keptBits
        = word &&& keptBits ||| word &&& lostBits := by rw [lost]; exact BitVec.or_zero.symm
      _ = word &&& (keptBits ||| lostBits) := by rw [BitVec.and_or_distrib_left]
      _ = word := by rw [together, BitVec.and_allOnes]

/-- The decoder can return the word: a VNI of 24 bits without any of the lost bits. -/
def Decodable (word : BitVec 32) : Prop := word &&& 0x00f0ffff#32 = word

instance (word : BitVec 32) : Decidable (Decodable word) := inferInstanceAs (Decidable (_ = _))

/-- The decoder returns nothing else, whatever bytes the packet has. -/
theorem packet_vni_decodable (skb : SkBuff) : Decodable (packetVni skb) := by
  have narrow : packetVni skb = carriedVni skb &&& 0x00f0ffff#32 := by
    rw [packet_vni_eq_masked]
    apply eq_of_bytes
    intro index inside
    rw [byteAt_and, byteAt_and]
    match index, inside with
    | 0, _ | 1, _ | 2, _ => congr 1
    | 3, _ =>
      rw [carried_high_byte]
      exact BitVec.zero_and.trans BitVec.zero_and.symm
  rw [Decodable, narrow, BitVec.and_assoc, BitVec.and_self]

/-- Such a word has three bytes and loses nothing to the mask. -/
theorem decodable_kept (word : BitVec 32) (decodable : Decodable word) :
    byteAt word 3 = 0 ∧ word &&& keptBits = word := by
  constructor
  · rw [← decodable, byteAt_and]
    exact BitVec.and_zero
  · calc word &&& keptBits = word &&& 0x00f0ffff#32 &&& keptBits := by rw [decodable]
      _ = word &&& 0x00f0ffff#32 := by rw [BitVec.and_assoc]; rfl
      _ = word := decodable

/-- The commands that stage a VNI alone and commit it, with an argument that can be read and with
memory for the entry. -/
def vniCommands (vni : BitVec 32) : List IoctlCall :=
  [⟨Request.initWildcards.code, nullPtr, true⟩, ⟨Request.setVni.code, wordPtr vni, true⟩,
    ⟨Request.setEntry.code, nullPtr, true⟩]

/-- They leave one entry, which restricts the VNI alone. -/
theorem vni_commands_table (vni : BitVec 32) :
    (run deviceStep moduleLoad (vniCommands vni)).flowTable = [⟨vniRule vni, noIrq⟩] := by
  have table := run_flow_table moduleLoad (vniCommands vni) (by simp [vniCommands])
  have decoded : (vniCommands vni).map IoctlCall.command =
      [.initWildcards, .setVni vni, .setEntry] := by
    simp [vniCommands, IoctlCall.command, commandOf, of_code_code]
  have projected : vseSetEntryMatch zeroMatch (vniRule vni) = vniRule vni := by
    have vxVni : Restricts ofpfwVxlanVni (vniRule vni) := vni_rule_restricts vni
    -- The fields it leaves covered are zero in the rule as in the new entry.
    rw [set_entry_match_eq, if_pos vxVni]
    split_ifs <;> rfl
  rw [table, decoded]
  simp only [insertions, stage, Command.inserts, openField, Staged.entry, ↓reduceIte,
    Bool.false_eq_true, List.nil_append, List.append_nil]
  exact congrArg (fun stored => [VseFlowEntry.mk stored noIrq]) projected

/-- Decoding and tenant isolation, and exactly when they hold. The commands that stage a
VNI alone leave exactly one entry. For every packet, the decoder returns the VNI that the
packet carries and this entry accepts the packet just when the two VNIs are equal, if and
only if the carried VNI has none of the bits 16 to 19. The reserved byte has no part in it.

Proof: the decoder is the mask of the bits that it keeps, applied to the carried VNI; the
mask leaves a word alone exactly when none of the bits that it clears is set. The entry
compares its VNI with the decoded one and nothing else. -/
theorem vni_isolation_iff (nwTos : Byte) (skb : SkBuff) (vni : BitVec 32) :
    (run deviceStep moduleLoad (vniCommands vni)).flowTable = [⟨vniRule vni, noIrq⟩] ∧
      ((packetVni skb = carriedVni skb ∧
          ((vseDoMatch nwTos skb (vniRule vni)).value.1 = true ↔ vni = carriedVni skb)) ↔
        carriedVni skb &&& lostBits = 0) := by
  refine ⟨vni_commands_table vni, ?_⟩
  rw [vni_rule_matches_iff, packet_vni_eq_masked, kept_iff_none_lost]
  constructor
  · intro meets
    exact meets.1
  · intro kept
    refine ⟨kept, ?_⟩
    rw [(kept_iff_none_lost _).mpr kept]

/-- A VXLAN packet for VNI 65536: the VNI bytes `01 00 00` after 46 bytes of headers. The one bit
of this VNI is among those that the mask clears. -/
def highVniPacket : SkBuff :=
  received (List.replicate 12 0 ++ [0x08, 0x00, 0x45] ++ List.replicate 8 0 ++ [17] ++
    List.replicate 22 0 ++ [1, 0, 0, 0] ++ List.replicate 20 0) 14 (by decide) (by decide)

/-- It decodes to VNI 0: the rule for its own VNI refuses it and the rule for VNI 0
accepts it. -/
theorem high_vni_misread :
    carriedVni highVniPacket = 65536 ∧ packetVni highVniPacket = 0 ∧
      (vseDoMatch 0 highVniPacket (vniRule 65536)).value.1 = false ∧
      (vseDoMatch 0 highVniPacket (vniRule 0)).value.1 = true := by
  refine ⟨by decide, by decide, by decide, by decide⟩

end Vse.VniDecoding

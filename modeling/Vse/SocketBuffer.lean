import Mathlib
import Vse.Traced
import Vse.Words

/-!
# Socket buffers

The parts of the kernel's `struct sk_buff` that the module reads or writes.
Header positions are offsets from `skb->head`, as on a 64-bit kernel; an unset
MAC header is the all-ones offset. The module follows raw pointers, so memory is
total: a read past the linear data returns whatever byte lies there. What keeps
such reads visible is the record of accesses, not a failure.
-/

namespace Vse.SocketBuffer

open Words

abbrev Byte := BitVec 8

/-- An Ethernet address, `ETH_ALEN` bytes. -/
abbrev Mac := Fin 6 → Byte

instance ethAlenNeZero : NeZero 6 := ⟨by decide⟩

/-- Linear data runs from `skb->head` to `tail`, and `data` lies inside it. The
data area is small enough that every position in it fits a header offset and is
told apart from the unset one. -/
structure SkBuff where
  memory : Nat → Byte
  tail : Nat
  data : Nat
  macHeader : BitVec 32
  networkHeader : BitVec 32
  queueMapping : BitVec 16
  rxhash : BitVec 32
  data_le_tail : data ≤ tail
  tail_fits : tail < 2 ^ 32 - 1

/-- A packet whose linear data is the given bytes, with the MAC header at their start and `data`
at the given place, as the driver hands it over. No hash has been computed and no queue recorded.
-/
def received (bytes : List Byte) (data : Nat) (inside : data ≤ bytes.length)
    (fits : bytes.length < 2 ^ 32 - 1) : SkBuff where
  memory offset := bytes.getD offset 0
  tail := bytes.length
  data := data
  macHeader := 0
  networkHeader := 0
  queueMapping := 0
  rxhash := 0
  data_le_tail := inside
  tail_fits := fits

/-- A byte read from a packet's memory, by its offset from `skb->head`, or a read through a
pointer that was never given a value, which leads nowhere in particular. -/
inductive Access where
  | linear (offset : Nat)
  | stray
deriving DecidableEq

/-- The access reads a byte of the packet's linear data, between `skb->head` and `tail`. A stray
read never counts as one. -/
def InLinear (skb : SkBuff) : Access → Prop
  | .linear offset => offset < skb.tail
  | .stray => False

/-- Read a run of consecutive bytes from an offset on, and record each of the reads. This is how
the memory under a pointer and a length is read. -/
def loadBytes (count : Nat) (skb : SkBuff) (offset : Nat) : Traced Access (Fin count → Byte) :=
  ⟨fun index => skb.memory (offset + index),
    (List.range count).map (fun index => .linear (offset + index))⟩

/-- Load a 32-bit word in the byte order of the host, which is little-endian. The load reads its
four bytes and records them. -/
def loadWord (skb : SkBuff) (offset : Nat) : Traced Access (BitVec 32) := do
  let bytes ← loadBytes 4 skb offset
  return littleEndian bytes

/-- A run of bytes is read inside the linear data exactly when it ends there, provided that it has
a byte at all. -/
theorem within_loadBytes (count : Nat) (skb : SkBuff) (offset : Nat) (some : 0 < count) :
    Traced.Within (InLinear skb) (loadBytes count skb offset) ↔ offset + count ≤ skb.tail := by
  simp only [Traced.Within, loadBytes, List.mem_map, List.mem_range, forall_exists_index, and_imp,
    forall_apply_eq_imp_iff₂, InLinear]
  constructor
  · intro every
    have last := every (count - 1) (by omega)
    omega
  · intro fits index inside
    omega

/-- A word is read inside the linear data exactly when its four bytes are. -/
theorem within_loadWord (skb : SkBuff) (offset : Nat) :
    Traced.Within (InLinear skb) (loadWord skb offset) ↔ offset + 4 ≤ skb.tail := by
  rw [loadWord, Traced.within_bind, within_loadBytes 4 skb offset (by decide)]
  simp only [Traced.within_pure, and_true]

/-- `skb_mac_header_was_set`: the unset offset is the one with all bits set, which no position in
the data area has. -/
def skbMacHeaderWasSet (skb : SkBuff) : Bool := skb.macHeader ≠ BitVec.allOnes 32

/-- `skb_reset_mac_header`: the MAC header is where `data` is, as an offset from `skb->head`. -/
def skbResetMacHeader (skb : SkBuff) : SkBuff :=
  { skb with macHeader := BitVec.ofNat 32 skb.data }

/-- `skb_reset_network_header`: the network header is where `data` is, as an offset from
`skb->head`. -/
def skbResetNetworkHeader (skb : SkBuff) : SkBuff :=
  { skb with networkHeader := BitVec.ofNat 32 skb.data }

/-- `eth_hdr`, the place of the outer Ethernet header. -/
def ethHdr (skb : SkBuff) : Nat := skb.macHeader.toNat

/-- `skb_rx_queue_recorded`: the mapping is zero where the driver has recorded no receive queue.
-/
def skbRxQueueRecorded (skb : SkBuff) : Bool := skb.queueMapping ≠ 0

/-- `skb_get_rx_queue`: the recorded queue is one less than the mapping, in sixteen bits. -/
def skbGetRxQueue (skb : SkBuff) : BitVec 16 := skb.queueMapping - 1

/-- A position in the data area survives the conversion to a header offset, since the area is
small enough for 32 bits. -/
theorem data_offset (skb : SkBuff) : (BitVec.ofNat 32 skb.data).toNat = skb.data := by
  have inside := skb.data_le_tail
  have fits := skb.tail_fits
  rw [BitVec.toNat_ofNat]
  exact Nat.mod_eq_of_lt (by omega)

/-- A MAC header that was reset is set: a position in the data area is never the offset that
stands for an unset header. -/
theorem reset_mac_header_set (skb : SkBuff) :
    skbMacHeaderWasSet (skbResetMacHeader skb) = true := by
  have inside := skb.data_le_tail
  have fits := skb.tail_fits
  have position := data_offset skb
  rw [skbMacHeaderWasSet, decide_eq_true_eq]
  intro unset
  have same : (BitVec.ofNat 32 skb.data).toNat = (BitVec.allOnes 32).toNat :=
    congrArg BitVec.toNat unset
  rw [position, BitVec.toNat_allOnes] at same
  omega

@[simp] theorem reset_network_header_twice (skb : SkBuff) :
    skbResetNetworkHeader (skbResetNetworkHeader skb) = skbResetNetworkHeader skb := rfl

end Vse.SocketBuffer

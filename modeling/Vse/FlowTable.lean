import Vse.SocketBuffer

/-!
# The flow table

`vse_flow_table.c` and the wildcard flags of `openflow.h`. The kernel list is the
list of its entries from `flow_table.next` on; `list_add` puts an entry in front.

In `vse_do_match` the local `nw` is dereferenced without ever being assigned.
What the read returns is a parameter of the matcher, and the access is recorded
as a stray one. Where `nw` leads to no memory the read is a fault, and there is no
result. A look-up calls the matcher once for each entry that it comes to, and each
call has its own `nw`. The bytes are told apart by the number of the entry tested,
counted from the oldest, which stays the same when others are added in front.
-/

namespace Vse.FlowTable

open Words SocketBuffer

/-- `enum ofp_flow_wildcards`: the flags of the outer destination address, the VNI, the inner
destination address and the VM_ID, and the word with all flags set. -/
def ofpfwDlDst : BitVec 32 := flag 32 3
def ofpfwVxlanVni : BitVec 32 := flag 32 8
def ofpfwDlIndst : BitVec 32 := flag 32 10
def ofpfwVmId : BitVec 32 := flag 32 21
def ofpfwAll : BitVec 32 := (1#32 <<< 22) - 1

/-- `NO_IRQ` of `vse_rps.h`: the core number of an entry that names no core. -/
def noIrq : Byte := 0xff

/-- `struct vse_match`: the wildcards, and a value for every field, whether or not the wildcards
cover it. -/
structure VseMatch where
  wildcards : BitVec 32
  vmId : Byte
  dlDst : Mac
  dlSrc : Mac
  nwSrc : Fin 16 → Byte
  nwDst : Fin 16 → Byte
  nwTos : Byte
  nwProto : Byte
  vxVni : BitVec 32
  dlIndst : Mac
  dlInsrc : Mac
deriving DecidableEq

/-- The all-zero match, as `memset` and `kzalloc` leave it. Its wildcards cover no field, the
untested ones included, so no packet can match it. -/
def zeroMatch : VseMatch where
  wildcards := 0
  vmId := 0
  dlDst := fun _ => 0
  dlSrc := fun _ => 0
  nwSrc := fun _ => 0
  nwDst := fun _ => 0
  nwTos := 0
  nwProto := 0
  vxVni := 0
  dlIndst := fun _ => 0
  dlInsrc := fun _ => 0

/-- `struct vse_flow_entry`, a match with a core number. Its list node is the entry's place in the
table, which is a list here. -/
structure VseFlowEntry where
  vseMatch : VseMatch
  irq : Byte
deriving DecidableEq

/-- The VNI word of the packet: 20 bytes of IPv4 header, 8 of UDP and 4 of the VXLAN header lie
before it. `htonl` swaps bytes on the little-endian host. The mask is applied before the swap, as
in the source. -/
def vseGetVxlanVni (skb : SkBuff) : Traced Access (BitVec 32) := do
  let vni ← loadWord skb (skb.data + 20 + 8 + 4)
  return byteSwap (vni &&& 0xfffffff0#32) >>> 8

/-- The place of the inner Ethernet header, behind 20 bytes of IPv4 header, 8 of UDP and 8 of
VXLAN. The packet's own header length is not consulted. -/
def vseGetInnerEthhdr (skb : SkBuff) : Nat := skb.data + 20 + 8 + 8

/-- `kzalloc` either fails or returns a zeroed entry. Whether it finds memory is up to the caller
of the model. -/
def vseCreateEntry (kzalloc : Bool) : Option VseFlowEntry :=
  if kzalloc then some ⟨zeroMatch, 0⟩ else none

/-- Copy the wildcards and each supported field that they do not cover. A covered field keeps what
the entry had there before. -/
def vseSetEntryMatch (vse data : VseMatch) : VseMatch :=
  let vse := { vse with wildcards := data.wildcards }
  let vse := if ~~~vse.wildcards &&& ofpfwVmId ≠ 0 then { vse with vmId := data.vmId } else vse
  let vse := if ~~~vse.wildcards &&& ofpfwDlDst ≠ 0 then { vse with dlDst := data.dlDst } else vse
  let vse :=
    if ~~~vse.wildcards &&& ofpfwVxlanVni ≠ 0 then { vse with vxVni := data.vxVni } else vse
  if ~~~vse.wildcards &&& ofpfwDlIndst ≠ 0 then { vse with dlIndst := data.dlIndst } else vse

/-- Add an entry that names no core, in front of the others. Without memory the table stays as it
is and the call returns false. -/
def vseAddTableEntry (kzalloc : Bool) (table : List VseFlowEntry) (data : VseMatch) :
    Bool × List VseFlowEntry :=
  match vseCreateEntry kzalloc with
  | none => (false, table)
  | some entry =>
      (true, { entry with vseMatch := vseSetEntryMatch entry.vseMatch data, irq := noIrq } :: table)

/-- Add an entry that steers to the given core, in front of the others. Without memory the table
stays as it is and the call returns false. -/
def vseAddTableEntryAndIrq (kzalloc : Bool) (table : List VseFlowEntry) (data : VseMatch)
    (irq : Byte) : Bool × List VseFlowEntry :=
  match vseCreateEntry kzalloc with
  | none => (false, table)
  | some entry =>
      (true, { entry with vseMatch := vseSetEntryMatch entry.vseMatch data, irq := irq } :: table)

/-- One of the four tests of `vse_do_match` and what follows it. A covered field is
passed over. Any other field is compared: a difference is the early
`return false`, agreement marks the field as covered. -/
def testField (bit : BitVec 32) (differs : Traced Access Bool) (wildcards : BitVec 32)
    (next : BitVec 32 → Traced Access Bool) : Traced Access Bool :=
  if ~~~wildcards &&& bit ≠ 0 then do
    if ← differs then return false
    next (wildcards ||| bit)
  else
    next wildcards

/-- The test of `match->vm_id` against `nw->tos`, read through the unassigned pointer. The byte is
what such a read returned, where it returns at all; the read is recorded as a stray one. -/
def vmIdDiffers (nwTos : Byte) (vseMatch : VseMatch) : Traced Access Bool :=
  ⟨(vseMatch.vmId ^^^ (nwTos >>> 2)) &&& 0x7f ≠ 0, [.stray]⟩

/-- `memcmp` of a stored address with the six bytes at the given place of the packet. All of them
are read. -/
def macDiffers (mac : Mac) (skb : SkBuff) (offset : Nat) : Traced Access Bool := do
  let bytes ← loadBytes 6 skb offset
  return mac ≠ bytes

/-- Does the match accept the packet? The network header is reset on the way, the VNI is loaded
for every match, and the four fields are tested in the order of the source. At the end all
wildcards have to be set. -/
def vseDoMatch (nwTos : Byte) (skb : SkBuff) (vseMatch : VseMatch) :
    Traced Access (Bool × SkBuff) := do
  let wildcards := vseMatch.wildcards
  let skb := skbResetNetworkHeader skb
  let dl := ethHdr skb
  let inDl := vseGetInnerEthhdr skb
  let vxVni ← vseGetVxlanVni skb
  let matched ←
    testField ofpfwVmId (vmIdDiffers nwTos vseMatch) wildcards fun wildcards =>
    testField ofpfwDlDst (macDiffers vseMatch.dlDst skb dl) wildcards fun wildcards =>
    testField ofpfwVxlanVni (pure (vseMatch.vxVni ≠ vxVni)) wildcards fun wildcards =>
    testField ofpfwDlIndst (macDiffers vseMatch.dlIndst skb inDl) wildcards fun wildcards =>
    return wildcards = ofpfwAll
  return (matched, skb)

/-- The matcher with any `nw`, which leads to a byte or to no memory at all. A run that
reads where there is no memory returns nothing. -/
def vseDoMatchThrough (nw : Option Byte) (skb : SkBuff) (vseMatch : VseMatch) :
    Option (Bool × SkBuff) :=
  match nw with
  | some nwTos => some (vseDoMatch nwTos skb vseMatch).value
  | none =>
      -- Before the read all runs are alike, whatever the byte.
      let run := vseDoMatch 0 skb vseMatch
      if .stray ∈ run.trace then none else some run.value

/-- Scan the table from its head and stop at the first entry that matches. An entry has
as many entries behind it as were added before it: this is its number. -/
def vseLookUpFlowEntry (nwTos : Nat → Byte) (skb : SkBuff) :
    List VseFlowEntry → Traced Access (Option VseFlowEntry × SkBuff)
  | [] => return (none, skb)
  | entry :: rest => do
    let (matched, skb) ← vseDoMatch (nwTos rest.length) skb entry.vseMatch
    if matched then return (some entry, skb)
    vseLookUpFlowEntry nwTos skb rest

/-- The bytes by the numbers of the entries, where they are given in the order of the calls:
the head of the table is tested first and has the greatest number. -/
def byNumber (reads : Nat → Byte) (table : List VseFlowEntry) (number : Nat) : Byte :=
  reads (table.length - 1 - number)

end Vse.FlowTable

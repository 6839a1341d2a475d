import Vse.FlowTable

/-!
# The control device

`vse_dev.c` and the command codes of `vse_dev.h`. The commands of one client build
a match and a core number in two module globals, which an insertion copies into
the flow table. A user pointer is the bytes found from it on; a byte that cannot
be read is absent. `get_user` then reports `-EFAULT` and stores zero, and none of
the setters looks at what it reports.
-/

namespace Vse.Device

open SocketBuffer FlowTable

/-- What a user pointer leads to, byte by byte; `none` where a read faults. A pointer may be good
for some of the bytes that a call reads and not for others. -/
abbrev UserPtr := Nat → Option Byte

/-- The null pointer. -/
def nullPtr : UserPtr := fun _ => none

/-- The outcome of `get_user`: what it stored and its status. The source looks at the status
nowhere. -/
structure GetUser (width : Nat) where
  stored : BitVec width
  status : Int

def eFault : Int := 14
def eBusy : Int := 16
def success : Int := 0

/-- `get_user` of a `__u8`: the byte under the pointer, or zero and `-EFAULT` where it cannot be
read. -/
def getUserByte (arg : UserPtr) : GetUser 8 :=
  match arg 0 with
  | some byte => ⟨byte, 0⟩
  | none => ⟨0, -eFault⟩

/-- `get_user` of a `__u32`, little-endian. It stores zero and fails when any of its four bytes
cannot be read. -/
def getUserWord (arg : UserPtr) : GetUser 32 :=
  match arg 0, arg 1, arg 2, arg 3 with
  | some first, some second, some third, some fourth =>
      ⟨Words.littleEndian ![first, second, third, fourth], 0⟩
  | _, _, _, _ => ⟨0, -eFault⟩

/-- The module's globals: the open count, the staged match with its core number, and the flow
table from its head on. -/
structure DeviceState where
  deviceOpen : Int
  entryMatch : VseMatch
  irq : Byte
  flowTable : List VseFlowEntry

/-- The globals when the module is loaded: all of them static, so zero. -/
def moduleLoad : DeviceState := ⟨0, zeroMatch, 0, []⟩

section Setters

variable (arg : UserPtr) (state : DeviceState)

/-- `entry_match.wildcards &= ~bit`: the field is open to comparison from now on. -/
def clearWildcard (bit : BitVec 32) (state : DeviceState) : DeviceState :=
  { state with
    entryMatch := { state.entryMatch with wildcards := state.entryMatch.wildcards &&& ~~~bit } }

/-- `get_user(entry_match.dl_indst[index], (__u8*)arg)`, whose status is dropped: the byte is zero
where the read faults. -/
def storeDlIndst (index : Fin 6) : DeviceState :=
  { state with
    entryMatch := { state.entryMatch with
      dlIndst := Function.update state.entryMatch.dlIndst index (getUserByte arg).stored } }

/-- `get_user(entry_match.dl_dst[index], (__u8*)arg)`, likewise without a look at the status. -/
def storeDlDst (index : Fin 6) : DeviceState :=
  { state with
    entryMatch := { state.entryMatch with
      dlDst := Function.update state.entryMatch.dlDst index (getUserByte arg).stored } }

def vseSetVmId : DeviceState :=
  clearWildcard ofpfwVmId
    { state with entryMatch := { state.entryMatch with vmId := (getUserByte arg).stored } }

def vseSetDlIndst1 : DeviceState := storeDlIndst arg state 0
def vseSetDlIndst2 : DeviceState := storeDlIndst arg state 1
def vseSetDlIndst3 : DeviceState := storeDlIndst arg state 2
def vseSetDlIndst4 : DeviceState := storeDlIndst arg state 3
def vseSetDlIndst5 : DeviceState := storeDlIndst arg state 4

/-- The last byte also opens the inner address, whether or not the other five were given before.
-/
def vseSetDlIndst6 : DeviceState := clearWildcard ofpfwDlIndst (storeDlIndst arg state 5)

def vseSetDlDst1 : DeviceState := storeDlDst arg state 0
def vseSetDlDst2 : DeviceState := storeDlDst arg state 1
def vseSetDlDst3 : DeviceState := storeDlDst arg state 2
def vseSetDlDst4 : DeviceState := storeDlDst arg state 3
def vseSetDlDst5 : DeviceState := storeDlDst arg state 4

/-- The last byte also opens the outer address, whether or not the other five were given before.
-/
def vseSetDlDst6 : DeviceState := clearWildcard ofpfwDlDst (storeDlDst arg state 5)

def vseSetVni : DeviceState :=
  clearWildcard ofpfwVxlanVni
    { state with entryMatch := { state.entryMatch with vxVni := (getUserWord arg).stored } }

def vseSetIrq : DeviceState := { state with irq := (getUserByte arg).stored }

end Setters

/-- One client at a time: a second open is refused. -/
def deviceOpen (state : DeviceState) : Int × DeviceState :=
  if state.deviceOpen ≠ 0 then (-eBusy, state)
  else (success, { state with deviceOpen := state.deviceOpen + 1 })

def deviceRelease (state : DeviceState) : Int × DeviceState :=
  (success, { state with deviceOpen := state.deviceOpen - 1 })

/-- A device that is not in use is opened, and counts it. -/
theorem device_open_free (state : DeviceState) (free : state.deviceOpen = 0) :
    deviceOpen state = (success, { state with deviceOpen := state.deviceOpen + 1 }) :=
  if_neg (not_not_intro free)

/-- A device in use refuses to be opened, and stays as it is. -/
theorem device_open_busy (state : DeviceState) (busy : state.deviceOpen ≠ 0) :
    deviceOpen state = (-eBusy, state) :=
  if_pos busy

theorem device_open_table (state : DeviceState) :
    (deviceOpen state).2.flowTable = state.flowTable := by
  unfold deviceOpen
  split <;> rfl

/-- The commands that `vse_dev.h` declares. Three of them have no arm in the dispatcher. -/
inductive Request where
  | setVmId | setDlInsrc | setVni | setDlSrc | setDlDst | initWildcards | setEntry | setIrq
  | setDlIndst1 | setDlIndst2 | setDlIndst3 | setDlIndst4 | setDlIndst5 | setDlIndst6
  | setDlDst1 | setDlDst2 | setDlDst3 | setDlDst4 | setDlDst5 | setDlDst6
deriving DecidableEq

/-- The command number of each request. -/
def Request.number : Request → BitVec 32
  | .setVmId => 0
  | .setDlInsrc => 1
  | .setVni => 3
  | .setDlSrc => 4
  | .setDlDst => 5
  | .initWildcards => 6
  | .setEntry => 7
  | .setIrq => 8
  | .setDlIndst1 => 9
  | .setDlIndst2 => 10
  | .setDlIndst3 => 11
  | .setDlIndst4 => 12
  | .setDlIndst5 => 13
  | .setDlIndst6 => 14
  | .setDlDst1 => 15
  | .setDlDst2 => 16
  | .setDlDst3 => 17
  | .setDlDst4 => 18
  | .setDlDst5 => 19
  | .setDlDst6 => 20

def majorNum : BitVec 32 := 60

/-- `_IOR(type, number, size)`: direction, argument size, type and number in one word, each in its
own bits. -/
def ior (type number size : BitVec 32) : BitVec 32 :=
  2#32 <<< 30 ||| size <<< 16 ||| type <<< 8 ||| number

/-- The request's `VSE_IOCTL_*` code. The argument is declared as `char *`. -/
def Request.code (request : Request) : BitVec 32 := ior majorNum request.number 8

/-- All declared requests. -/
def Request.all : List Request :=
  [.setVmId, .setDlInsrc, .setVni, .setDlSrc, .setDlDst, .initWildcards, .setEntry, .setIrq,
    .setDlIndst1, .setDlIndst2, .setDlIndst3, .setDlIndst4, .setDlIndst5, .setDlIndst6,
    .setDlDst1, .setDlDst2, .setDlDst3, .setDlDst4, .setDlDst5, .setDlDst6]

/-- The request with the given code, if there is one. No two requests share a code. -/
def Request.ofCode (cmd : BitVec 32) : Option Request :=
  Request.all.find? (fun request => request.code = cmd)

theorem of_code_code (request : Request) : Request.ofCode request.code = some request := by
  cases request <;> decide

/-- A recognised code is the code of the request it stands for. -/
theorem of_code_eq_some_iff (cmd : BitVec 32) (request : Request) :
    Request.ofCode cmd = some request ↔ cmd = request.code := by
  constructor
  · intro found
    have same := List.find?_some found
    exact (of_decide_eq_true same).symm
  · rintro rfl
    exact of_code_code request

/-- The arm of `VSE_IOCTL_SET_ENTRY`. Whether the entry was added is not looked at. -/
def setEntryArm (kzalloc : Bool) (state : DeviceState) : DeviceState :=
  { state with
    flowTable := (vseAddTableEntryAndIrq kzalloc state.flowTable state.entryMatch state.irq).2 }

/-- The dispatcher. A code without an arm leaves the switch at once, and every path
ends in the same `return SUCCESS`. `kzalloc` tells whether an allocation made on
the way succeeds. -/
def vseDeviceIoctl (cmd : BitVec 32) (arg : UserPtr) (kzalloc : Bool) (state : DeviceState) :
    Int × DeviceState :=
  let state :=
    match Request.ofCode cmd with
    | some .initWildcards =>
        { state with entryMatch := { zeroMatch with wildcards := ofpfwAll }, irq := noIrq }
    | some .setVmId => vseSetVmId arg state
    | some .setDlIndst1 => vseSetDlIndst1 arg state
    | some .setDlIndst2 => vseSetDlIndst2 arg state
    | some .setDlIndst3 => vseSetDlIndst3 arg state
    | some .setDlIndst4 => vseSetDlIndst4 arg state
    | some .setDlIndst5 => vseSetDlIndst5 arg state
    | some .setDlIndst6 => vseSetDlIndst6 arg state
    | some .setDlDst1 => vseSetDlDst1 arg state
    | some .setDlDst2 => vseSetDlDst2 arg state
    | some .setDlDst3 => vseSetDlDst3 arg state
    | some .setDlDst4 => vseSetDlDst4 arg state
    | some .setDlDst5 => vseSetDlDst5 arg state
    | some .setDlDst6 => vseSetDlDst6 arg state
    | some .setVni => vseSetVni arg state
    -- No `break`: after the core number is stored, control runs on into the next arm.
    | some .setIrq => setEntryArm kzalloc (vseSetIrq arg state)
    | some .setEntry => setEntryArm kzalloc state
    | some .setDlInsrc | some .setDlSrc | some .setDlDst | none => state
  (success, state)

end Vse.Device

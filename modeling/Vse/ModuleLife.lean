import Vse.LinkedTable

/-!
# The module from load to unload

`vse_main.c` and `vse_dev.c` down to list links, heap and references, for any number of loads one
after the other. The functions here are the module's own. The kernel that calls them is not: it
enters as a sequence of calls, one at a time, and as what it documents of them. A module is
initialised while it is not loaded and cleaned up while nobody holds a reference to it; the device
is opened while its number leads to the module; commands and releases come through open files; the
handler is called while `vse_handler` is set.

From these promises alone it follows that no call ever runs into code that is not loaded, since the
module takes a reference for its open file and takes back the handler and the number before it
goes. Nor is the linked table ever misused, and the calls reply as they do on the device whose
table is a list.
-/

namespace Vse.ModuleLife

open Heaps Rings ListHeads SocketBuffer FlowTable Device StagedCommands PacketSteering ModuleRuns
  LinkedTable Runs

section Code

/-- The globals of `vse_dev.c`. -/
@[ext] structure Globals where
  deviceOpen : Int
  entryMatch : VseMatch
  irq : Byte

def Globals.device (globals : Globals) (table : List VseFlowEntry) : DeviceState :=
  ⟨globals.deviceOpen, globals.entryMatch, globals.irq, table⟩

def globalsOf (device : DeviceState) : Globals :=
  ⟨device.deviceOpen, device.entryMatch, device.irq⟩

/-- What the kernel keeps of the module: whether its code and data are in memory, whether
`vse_handler` is set, whether the device number leads to `Fops`, how many references the module has
taken to itself, and how many opens returned `SUCCESS` and were not released. -/
structure Kernel where
  loaded : Bool
  vseHandler : Bool
  registered : Bool
  references : Nat
  openFiles : Nat
deriving DecidableEq

/-- The kernel's side, the module's globals and list, and the tables of the receive path, which
are the kernel's and outlive the module. -/
structure Machine where
  kernel : Kernel
  globals : Globals
  lists : ListHeap VseFlowEntry
  devices : Nat → NetDevice
  sock : Option RpsSockFlowTable

def Machine.withKernel (machine : Machine) (change : Kernel → Kernel) : Machine :=
  { machine with kernel := change machine.kernel }

/-- `try_module_get(THIS_MODULE)`. What it returns is not looked at, and it is granted as long as
the module is not going away. -/
def tryModuleGet (kernel : Kernel) : Kernel := { kernel with references := kernel.references + 1 }

/-- `module_put(THIS_MODULE)`, which gives back one reference. -/
def modulePut (kernel : Kernel) : Kernel := { kernel with references := kernel.references - 1 }

/-- `register_chrdev`, with the major number free or taken. Only where it is free does the number
lead to `Fops` afterwards. -/
def registerChrdev (majorFree : Bool) (kernel : Kernel) : Kernel :=
  { kernel with registered := majorFree }

def unregisterChrdev (kernel : Kernel) : Kernel := { kernel with registered := false }

variable (fuel : Nat) (machine : Machine)

/-- One client at a time: a second open is refused. -/
def deviceOpen : Int × Machine :=
  if machine.globals.deviceOpen ≠ 0 then (-eBusy, machine)
  else
    let globals := { machine.globals with deviceOpen := machine.globals.deviceOpen + 1 }
    (success, { machine with globals := globals }.withKernel tryModuleGet)

def deviceRelease : Int × Machine :=
  let globals := { machine.globals with deviceOpen := machine.globals.deviceOpen - 1 }
  (success, { machine with globals := globals }.withKernel modulePut)

/-- The arm of `VSE_IOCTL_SET_ENTRY`. Whether the entry was added is not looked at. -/
def setEntryArm (kzalloc : Bool) (machine : Machine) : Except Fault Machine := do
  let (_, lists) ← LinkedTable.vseAddTableEntryAndIrq machine.lists kzalloc
    machine.globals.entryMatch machine.globals.irq
  return { machine with lists := lists }

/-- The dispatcher. The arms that add no entry touch the globals alone, as they do where the table
is a list. -/
def vseDeviceIoctl (call : IoctlCall) : Except Fault (Int × Machine) := do
  let change (arm : DeviceState → DeviceState) : Machine :=
    { machine with globals := globalsOf (arm (machine.globals.device [])) }
  let machine ←
    match Request.ofCode call.cmd with
    -- No `break`: after the core number is stored, control runs on into the next arm.
    | some .setIrq => setEntryArm call.kzalloc (change (vseSetIrq call.arg))
    | some .setEntry => setEntryArm call.kzalloc machine
    | _ => pure (change fun device => deviceStep device call)
  return (success, machine)

/-- Look the packet up and steer it to the entry that the pointer leads to, unless it is null. The
look-up follows links, so it needs fuel. -/
def vseHandleData (nwTos : Nat → Byte) (skb : SkBuff) (id : Nat) :
    Running (SkBuff × RpsTables) := do
  let rps : RpsTables := ⟨machine.devices id, machine.sock⟩
  let looked ← LinkedTable.vseLookUpFlowEntry machine.lists fuel nwTos (withMacHeader skb)
  match ← readEntry machine.lists looked.value.1 with
  | none => return (looked.value.2, rps)
  | some entry => return (vseDoRps looked.value.2 rps entry).2

/-- Set the handler and register the device. Whether the number was free is not looked at. -/
def vseInit (majorFree : Bool) : Int × Machine :=
  let machine := machine.withKernel fun kernel => { kernel with vseHandler := true }
  (0, machine.withKernel (registerChrdev majorFree))

/-- Take the handler back, unregister the device, and free the table. -/
def vseCleanup : Running Machine := do
  let machine := machine.withKernel fun kernel => { kernel with vseHandler := false }
  let machine := machine.withKernel unregisterChrdev
  let lists ← LinkedTable.vseCleanUpFlowTable fuel machine.lists
  return { machine with lists := lists }

end Code

section Calls

/-- A call that the kernel makes into the module. With the first one goes whether the major number
is free, and with a packet the bytes that the matcher reads through its unassigned pointer. -/
inductive KernelCall where
  | init (majorFree : Bool)
  | cleanup
  | openDevice
  | ioctl (call : IoctlCall)
  | releaseDevice
  | handleData (id : Nat) (nwTos : Nat → Byte) (skb : SkBuff)

/-- What comes back: a number, the packet as it goes on, or nothing. -/
inductive Reply where
  | returned (result : Int)
  | handled (skb : SkBuff)
  | finished

/-- What the kernel documents of its calls. It speaks of the kernel's side alone. There is one
module of a name at a time. A module that is referenced is not unloaded, and the references that
the module takes to itself are among those counted. Only an open that returned `SUCCESS` leaves a
file behind, and a file is released once. -/
def Promised (kernel : Kernel) : KernelCall → Prop
  | .init _ => kernel.loaded = false
  | .cleanup => kernel.loaded = true ∧ kernel.references = 0
  | .openDevice => kernel.registered = true
  | .ioctl _ | .releaseDevice => kernel.openFiles ≠ 0
  | .handleData .. => kernel.vseHandler = true

instance (kernel : Kernel) : (call : KernelCall) → Decidable (Promised kernel call)
  | .init _ => inferInstanceAs (Decidable (kernel.loaded = false))
  | .cleanup => inferInstanceAs (Decidable (kernel.loaded = true ∧ kernel.references = 0))
  | .openDevice => inferInstanceAs (Decidable (kernel.registered = true))
  | .ioctl _ | .releaseDevice => inferInstanceAs (Decidable (kernel.openFiles ≠ 0))
  | .handleData .. => inferInstanceAs (Decidable (kernel.vseHandler = true))

variable (fuel : Nat) (machine : Machine)

/-- A load brings the code into memory and makes the module's data anew, all zero but for the list
head. The heap and the tables of the receive path stay as they are. -/
def image : Machine :=
  { machine.withKernel (fun kernel => { kernel with loaded := true }) with
    globals := globalsOf Device.moduleLoad
    lists := { machine.lists with head := initListHead } }

/-- To run code of a module that is not loaded is a fault. -/
def enter : Except Fault Unit :=
  if machine.kernel.loaded then .ok () else .error .freedObject

/-- One more file, where the open returned `SUCCESS`; the kernel drops the file of an open that
failed. -/
def countFile (result : Int) (kernel : Kernel) : Kernel :=
  if result = success then { kernel with openFiles := kernel.openFiles + 1 } else kernel

/-- One call, and what it leaves of the kernel's side. -/
def step : KernelCall → Running (Reply × Machine)
  | .init majorFree => do
      let (result, machine) := vseInit (image machine) majorFree
      return (.returned result, machine)
  | .cleanup => do
      enter machine
      let machine ← vseCleanup fuel machine
      return (.finished, machine.withKernel fun kernel => { kernel with loaded := false })
  | .openDevice => do
      enter machine
      let (result, machine) := deviceOpen machine
      return (.returned result, machine.withKernel (countFile result))
  | .ioctl call => do
      enter machine
      let (result, machine) ← vseDeviceIoctl machine call
      return (.returned result, machine)
  | .releaseDevice => do
      enter machine
      let (result, machine) := deviceRelease machine
      return (.returned result,
        machine.withKernel fun kernel => { kernel with openFiles := kernel.openFiles - 1 })
  | .handleData id nwTos skb => do
      enter machine
      let (skb, rps) ← vseHandleData fuel machine nwTos skb id
      let devices := Function.update machine.devices id rps.dev
      return (.handled skb, { machine with devices := devices, sock := rps.sock })

def runLife (machine : Machine) : List KernelCall → Running (List Reply × Machine)
  | [] => pure ([], machine)
  | call :: rest => do
      let (reply, machine) ← step fuel machine call
      let (replies, machine) ← runLife machine rest
      return (reply :: replies, machine)

/-- Every call is made as promised, for as long as the calls before it came back. -/
def Lawful (machine : Machine) : List KernelCall → Prop
  | [] => True
  | call :: rest => Promised machine.kernel call ∧
      ∀ reply after, step fuel machine call = pure (reply, after) → Lawful after rest

/-- Before the first load: no module, a heap with whatever objects others keep there, and the
tables of the receive path. -/
def boot (heap : Heap (Linked VseFlowEntry)) (devices : Nat → NetDevice)
    (sock : Option RpsSockFlowTable) : Machine where
  kernel := ⟨false, false, false, 0, 0⟩
  globals := globalsOf Device.moduleLoad
  lists := LinkedTable.moduleLoad heap
  devices := devices
  sock := sock

end Calls

section Specification

/-- The kernel's side, and the module with its table as a list of entries: the device and the
handler without links or pointers. -/
structure Life where
  kernel : Kernel
  state : ModuleState

def Life.withDevice (life : Life) (device : DeviceState) : Life :=
  { life with state := { life.state with device := device } }

/-- The module is there, with its handler, and with its number if that was free. -/
def Kernel.withModule (kernel : Kernel) (majorFree : Bool) : Kernel :=
  { kernel with loaded := true, vseHandler := true, registered := majorFree }

/-- The module is gone, and so are its handler and its number. -/
def Kernel.withoutModule (kernel : Kernel) : Kernel :=
  { kernel with loaded := false, vseHandler := false, registered := false }

def Kernel.withFile (kernel : Kernel) : Kernel :=
  { kernel with references := kernel.references + 1, openFiles := kernel.openFiles + 1 }

def Kernel.withoutFile (kernel : Kernel) : Kernel :=
  { kernel with references := kernel.references - 1, openFiles := kernel.openFiles - 1 }

/-- What a call is for: a load starts the device afresh, and clean-up empties its table. The others
are the device's and the handler's. -/
def lifeStep (life : Life) : KernelCall → Reply × Life
  | .init majorFree =>
      (.returned 0,
        { life.withDevice Device.moduleLoad with kernel := life.kernel.withModule majorFree })
  | .cleanup =>
      (.finished,
        { life.withDevice { life.state.device with flowTable := [] } with
          kernel := life.kernel.withoutModule })
  | .openDevice =>
      let (result, device) := Device.deviceOpen life.state.device
      let kernel := if result = success then life.kernel.withFile else life.kernel
      (.returned result, { life.withDevice device with kernel := kernel })
  | .ioctl call =>
      let device := deviceStep life.state.device call
      (.returned (returned life.state.device call), life.withDevice device)
  | .releaseDevice =>
      let (result, device) := Device.deviceRelease life.state.device
      (.returned result, { life.withDevice device with kernel := life.kernel.withoutFile })
  | .handleData id nwTos skb =>
      let (skb, state) := handlePacket life.state id
        (byNumber nwTos life.state.device.flowTable) skb
      (.handled skb, { life with state := state })

def booted (devices : Nat → NetDevice) (sock : Option RpsSockFlowTable) : Life :=
  ⟨⟨false, false, false, 0, 0⟩, ⟨Device.moduleLoad, devices, sock⟩⟩

def nextLife (life : Life) (call : KernelCall) : Life := (lifeStep life call).2

def replies (life : Life) : List KernelCall → List Reply
  | [] => []
  | call :: rest => (lifeStep life call).1 :: replies (nextLife life call) rest

def PromisedIn (life : Life) (call : KernelCall) : Prop := Promised life.kernel call

/-- What holds of the kernel's side in every state. At most one file is open, and each holds a
reference and keeps the module. Handler and number lead to a module that is loaded. A loaded module
counts its open files, and one that is not has no entries. -/
structure Guarded (kernel : Kernel) (device : DeviceState) : Prop where
  oneFile : kernel.openFiles ≤ 1
  references : kernel.references = kernel.openFiles
  fileKeepsModule : kernel.openFiles ≠ 0 → kernel.loaded = true
  handlerOfModule : kernel.vseHandler = kernel.loaded
  numberOfModule : kernel.registered = true → kernel.loaded = true
  openCount : kernel.loaded = true → device.deviceOpen = kernel.openFiles
  noEntries : kernel.loaded = false → device.flowTable = []

/-- A call that keeps the kernel's side and the open count of a module that is loaded keeps what
holds of them. -/
theorem Guarded.of_loaded {kernel : Kernel} {device : DeviceState} (guarded : Guarded kernel device)
    (loaded : kernel.loaded = true) {after : DeviceState}
    (same : after.deviceOpen = device.deviceOpen) : Guarded kernel after :=
  ⟨guarded.oneFile, guarded.references, guarded.fileKeepsModule, guarded.handlerOfModule,
    guarded.numberOfModule, fun _ => same.trans (guarded.openCount loaded),
    fun notLoaded => absurd (notLoaded.symm.trans loaded) Bool.false_ne_true⟩

/-- A call that is made as promised goes to a module that is loaded, but for the one that loads
it. -/
theorem Guarded.loaded {kernel : Kernel} {device : DeviceState} (guarded : Guarded kernel device)
    {call : KernelCall} (promised : Promised kernel call) (later : ∀ free, call ≠ .init free) :
    kernel.loaded = true := by
  cases call with
  | init free => exact absurd rfl (later free)
  | cleanup => exact promised.1
  | openDevice => exact guarded.numberOfModule promised
  | ioctl request => exact guarded.fileKeepsModule promised
  | releaseDevice => exact guarded.fileKeepsModule promised
  | handleData id nwTos skb => exact guarded.handlerOfModule.symm.trans promised

/-- One call, made as promised, keeps what holds of the kernel's side.

Proof: by cases on the call. Loading meets no open file, since a file would keep the module. An
open counts a file only where the open count, and with it the number of files, was zero. Clean-up
meets no reference and so no file. The other calls change neither files nor references. -/
theorem guarded_step (life : Life) (call : KernelCall) (promised : PromisedIn life call)
    (guarded : Guarded life.kernel life.state.device) :
    Guarded (nextLife life call).kernel (nextLife life call).state.device := by
  cases call with
  | init majorFree =>
    have noFile : life.kernel.openFiles = 0 := by
      by_contra opened
      exact Bool.false_ne_true (promised.symm.trans (guarded.fileKeepsModule opened))
    constructor
    · exact guarded.oneFile
    · exact guarded.references
    · exact fun _ => rfl
    · rfl
    · exact fun _ => rfl
    · exact fun _ => congrArg Nat.cast noFile.symm
    · exact fun _ => rfl
  | cleanup =>
    have noFile : life.kernel.openFiles = 0 := guarded.references.symm.trans promised.2
    constructor
    · exact guarded.oneFile
    · exact guarded.references
    · exact fun opened => absurd noFile opened
    · rfl
    · exact id
    · exact fun isLoaded => absurd isLoaded Bool.false_ne_true
    · exact fun _ => rfl
  | openDevice =>
    have loaded := guarded.loaded promised (fun _ same => KernelCall.noConfusion same)
    by_cases free : life.state.device.deviceOpen = 0
    · have count := guarded.openCount loaded
      simp only [nextLife, lifeStep, device_open_free life.state.device free, ↓reduceIte]
      constructor
      · change life.kernel.openFiles + 1 ≤ 1
        omega
      · exact congrArg (· + 1) guarded.references
      · exact fun _ => loaded
      · exact guarded.handlerOfModule
      · exact guarded.numberOfModule
      · exact fun _ => congrArg (· + 1) count
      · exact fun notLoaded => absurd (notLoaded.symm.trans loaded) Bool.false_ne_true
    · have failed : -eBusy ≠ success := by decide
      simp only [nextLife, lifeStep, device_open_busy life.state.device free, if_neg failed]
      exact guarded
  | ioctl request =>
    have loaded := guarded.loaded promised (fun _ same => KernelCall.noConfusion same)
    exact guarded.of_loaded loaded
      (ioctl_device_open request.cmd request.arg request.kzalloc life.state.device)
  | releaseDevice =>
    have loaded := guarded.loaded promised (fun _ same => KernelCall.noConfusion same)
    have opened : life.kernel.openFiles ≠ 0 := promised
    have single := guarded.oneFile
    have references := guarded.references
    have count := guarded.openCount loaded
    constructor
    · change life.kernel.openFiles - 1 ≤ 1
      omega
    · change life.kernel.references - 1 = life.kernel.openFiles - 1
      omega
    · exact fun _ => loaded
    · exact guarded.handlerOfModule
    · exact guarded.numberOfModule
    · intro _
      change life.state.device.deviceOpen - 1 = ((life.kernel.openFiles - 1 : Nat) : Int)
      omega
    · exact fun notLoaded => absurd (notLoaded.symm.trans loaded) Bool.false_ne_true
  | handleData id nwTos skb =>
    have loaded := guarded.loaded promised (fun _ same => KernelCall.noConfusion same)
    exact guarded.of_loaded loaded rfl

theorem guarded_booted (devices : Nat → NetDevice) (sock : Option RpsSockFlowTable) :
    Guarded (booted devices sock).kernel (booted devices sock).state.device :=
  ⟨Nat.zero_le 1, rfl, fun opened => absurd rfl opened, rfl, id,
    fun isLoaded => absurd isLoaded Bool.false_ne_true, fun _ => rfl⟩

end Specification

section Agreement

/-- The machine is the life down to the links: the same kernel's side, globals and tables of the
receive path, and links that thread the entries of the table through the heap of the start. -/
structure Keeps (heap : Heap (Linked VseFlowEntry)) (machine : Machine) (life : Life)
    (addresses : List Nat) : Prop where
  kernel : machine.kernel = life.kernel
  globals : machine.globals = globalsOf life.state.device
  threads : Threads heap machine.lists addresses life.state.device.flowTable
  devices : machine.devices = life.state.devices
  sock : machine.sock = life.state.sock

variable {heap : Heap (Linked VseFlowEntry)} {machine : Machine} {life : Life}
  {addresses : List Nat}

/-- The arm that adds an entry never faults, as a new entry has links of its own to be set. -/
theorem set_entry_arm_eq (machine : Machine) {table : List VseFlowEntry} (kzalloc : Bool)
    (threads : Threads heap machine.lists addresses table) :
    ∃ lists linked, setEntryArm kzalloc machine = .ok { machine with lists := lists } ∧
      Threads heap lists linked
        (Device.setEntryArm kzalloc (machine.globals.device table)).flowTable ∧
      linked.length ≤ addresses.length + 1 := by
  obtain ⟨lists, entries, runs, calls, linked, threaded, short⟩ :=
    call_add threads kzalloc (.withCore machine.globals.entryMatch machine.globals.irq)
  refine ⟨lists, linked, ?_, ?_, short⟩
  · have added : LinkedTable.vseAddTableEntryAndIrq machine.lists kzalloc
        machine.globals.entryMatch machine.globals.irq = .ok (kzalloc, lists) := runs
    simp only [setEntryArm, added, ok_bind, pure_ok]
  · have same : entries = (Device.setEntryArm kzalloc (machine.globals.device table)).flowTable :=
      (congrArg Prod.snd calls).symm
    rw [← same]
    exact threaded

/-- The globals do not depend on the table: no arm of the dispatcher looks at the entries. -/
theorem globals_step (globals : Globals) (table : List VseFlowEntry) (request : IoctlCall) :
    globalsOf (deviceStep (globals.device []) request) =
      globalsOf (deviceStep (globals.device table) request) := by
  obtain ⟨cmd, arg, kzalloc⟩ := request
  simp only [deviceStep, Device.vseDeviceIoctl]
  cases Request.ofCode cmd with
  | none => rfl
  | some request => cases request <;> rfl

/-- The dispatcher changes the globals as the device does, and then adds an entry or not. This
parts what every request does from what the two that insert do. -/
theorem ioctl_arms (machine : Machine) (request : IoctlCall) :
    vseDeviceIoctl machine request = (do
      let globals := globalsOf (deviceStep (machine.globals.device []) request)
      let machine ←
        if request.command.inserts then
          setEntryArm request.kzalloc { machine with globals := globals }
        else pure { machine with globals := globals }
      return (success, machine)) := by
  obtain ⟨cmd, arg, kzalloc⟩ := request
  cases decoded : Request.ofCode cmd with
  | none =>
    simp only [vseDeviceIoctl, deviceStep, Device.vseDeviceIoctl, IoctlCall.command, commandOf,
      decoded]
    rfl
  | some known =>
    cases known <;>
      simp only [vseDeviceIoctl, deviceStep, Device.vseDeviceIoctl, IoctlCall.command, commandOf,
        decoded] <;>
      rfl

/-- The dispatcher does to the list what it does to the table, and to nothing else.

Proof: split the dispatcher into the change of the globals, which does not look at the table, and
the addition that follows it or does not. Without the addition the links stay; with it they thread
the staged entry in front of the others, and the staged entry is the one that the device adds. -/
theorem ioctl_keeps (keeps : Keeps heap machine life addresses) (request : IoctlCall) :
    ∃ after linked, vseDeviceIoctl machine request = .ok (success, after) ∧
      linked.length ≤ addresses.length + 1 ∧
      Keeps heap after (life.withDevice (deviceStep life.state.device request)) linked := by
  have table := ioctl_flow_table request.cmd request.arg request.kzalloc life.state.device
  have globals : globalsOf (deviceStep (machine.globals.device []) request) =
      globalsOf (deviceStep life.state.device request) := by
    rw [globals_step machine.globals life.state.device.flowTable, keeps.globals]
    rfl
  have onward (lists : ListHeap VseFlowEntry) (linked : List Nat)
      (threads : Threads heap lists linked (deviceStep life.state.device request).flowTable) :
      Keeps heap { machine with
          globals := globalsOf (deviceStep life.state.device request), lists := lists }
        (life.withDevice (deviceStep life.state.device request)) linked :=
    ⟨keeps.kernel, rfl, threads, keeps.devices, keeps.sock⟩
  rw [ioctl_arms, globals]
  cases inserts : request.command.inserts with
  | false =>
    have same : (deviceStep life.state.device request).flowTable =
        life.state.device.flowTable := by
      rw [IoctlCall.command] at inserts
      rw [deviceStep, table, inserts, Bool.false_and]
      exact if_neg Bool.false_ne_true
    refine ⟨_, addresses, rfl, Nat.le_succ _, onward machine.lists addresses ?_⟩
    rw [same]
    exact keeps.threads
  | true =>
    obtain ⟨lists, linked, runs, threads, short⟩ := set_entry_arm_eq
      { machine with globals := globalsOf (deviceStep life.state.device request) }
      request.kzalloc keeps.threads
    refine ⟨{ machine with
        globals := globalsOf (deviceStep life.state.device request), lists := lists },
      linked, ?_, short, onward lists linked ?_⟩
    · simp only [runs, ok_bind, pure_ok, ↓reduceIte]
    · have same : (deviceStep life.state.device request).flowTable =
          (Device.setEntryArm request.kzalloc
            ((globalsOf (deviceStep life.state.device request)).device
              life.state.device.flowTable)).flowTable := by
        have staged := ioctl_staged request.cmd request.arg request.kzalloc life.state.device
        rw [IoctlCall.command] at inserts
        rw [deviceStep, table, inserts, Bool.true_and, ← staged]
        cases request.kzalloc <;> rfl
      rw [same]
      exact threads

/-- A packet is handled as it is with the table, with fuel for one step more than there are
entries. -/
theorem handle_data_eq {table : List VseFlowEntry}
    (threads : Threads heap machine.lists addresses table) (fuel : Nat)
    (enough : addresses.length < fuel) (nwTos : Nat → Byte) (skb : SkBuff) (id : Nat) :
    vseHandleData fuel machine nwTos skb id =
      pure (ModuleRuns.vseHandleData (byNumber nwTos table) skb
        ⟨machine.devices id, machine.sock⟩ table).value := by
  obtain ⟨found, looks, contents, member⟩ :=
    look_up_eq threads fuel enough nwTos (withMacHeader skb)
  have reads := read_entry_eq threads found member
  rw [contents] at reads
  simp only [vseHandleData, looks, pure_bind, reads, lift_ok, ModuleRuns.vseHandleData,
    Traced.value_bind]
  cases (FlowTable.vseLookUpFlowEntry (byNumber nwTos table) (withMacHeader skb) table).value.1 <;>
    rfl

theorem init_keeps (keeps : Keeps heap machine life addresses)
    (empty : life.state.device.flowTable = []) (majorFree : Bool) :
    Keeps heap (vseInit (image machine) majorFree).2 (lifeStep life (.init majorFree)).2 [] := by
  obtain rfl : addresses = [] := by
    apply List.eq_nil_of_length_eq_zero
    rw [← keeps.threads.length, empty, List.length_nil]
  have threads : Threads heap { machine.lists with head := initListHead } [] [] := by
    constructor
    · exact (ring_nil _ _).mpr rfl
    · rfl
    · exact keeps.threads.others
    · exact keeps.threads.fresh
  have kernel : machine.kernel.withModule majorFree = life.kernel.withModule majorFree :=
    congrArg (Kernel.withModule · majorFree) keeps.kernel
  exact ⟨kernel, rfl, threads, keeps.devices, keeps.sock⟩

/-- An open succeeds or is refused, as it does at the device, and counts a file exactly where it
returned `SUCCESS`. -/
theorem open_keeps (keeps : Keeps heap machine life addresses) :
    (deviceOpen machine).1 = (Device.deviceOpen life.state.device).1 ∧
      Keeps heap ((deviceOpen machine).2.withKernel (countFile (deviceOpen machine).1))
        (lifeStep life .openDevice).2 addresses := by
  have count : machine.globals.deviceOpen = life.state.device.deviceOpen := by
    rw [keeps.globals]
    rfl
  by_cases free : life.state.device.deviceOpen = 0
  · rw [deviceOpen, if_neg (not_not_intro (count.trans free))]
    simp only [lifeStep, device_open_free life.state.device free, ↓reduceIte, true_and]
    refine ⟨congrArg Kernel.withFile keeps.kernel, ?_, keeps.threads, keeps.devices, keeps.sock⟩
    change { machine.globals with deviceOpen := machine.globals.deviceOpen + 1 } = _
    rw [keeps.globals]
    rfl
  · have failed : -eBusy ≠ success := by decide
    rw [deviceOpen, if_pos fun same => free (count.symm.trans same)]
    simp only [lifeStep, device_open_busy life.state.device free, if_neg failed, true_and]
    refine ⟨?_, keeps.globals, keeps.threads, keeps.devices, keeps.sock⟩
    change countFile (-eBusy) machine.kernel = life.kernel
    rw [countFile, if_neg failed]
    exact keeps.kernel

/-- A call that is made as promised comes back with the reply that it has at the life, and keeps
to the life.

Proof: by cases on the call. None but the first enters a module that is not loaded, by what holds
of the kernel's side. The look-up and the clean-up end with fuel for one more entry than there are,
and the table grows by one entry at most. -/
theorem step_keeps (keeps : Keeps heap machine life addresses)
    (guarded : Guarded life.kernel life.state.device) (call : KernelCall)
    (promised : Promised machine.kernel call) :
    ∃ after linked, (∀ fuel, addresses.length < fuel →
        step fuel machine call = pure ((lifeStep life call).1, after)) ∧
      linked.length ≤ addresses.length + 1 ∧
      Keeps heap after (lifeStep life call).2 linked := by
  rw [keeps.kernel] at promised
  have enters (later : ∀ free, call ≠ .init free) : enter machine = .ok () := by
    rw [enter, keeps.kernel]
    exact if_pos (guarded.loaded promised later)
  cases call with
  | init majorFree =>
    have empty := guarded.noEntries promised
    exact ⟨_, [], fun _ _ => rfl, Nat.zero_le _, init_keeps keeps empty majorFree⟩
  | cleanup =>
    obtain ⟨lists, ends, _, threads⟩ := clean_up_eq keeps.threads
    refine ⟨{ machine with kernel := machine.kernel.withoutModule, lists := lists }, [], ?_,
      Nat.zero_le _, ?_⟩
    · intro fuel enough
      have cleans : LinkedTable.vseCleanUpFlowTable fuel machine.lists = pure lists :=
        ends fuel enough
      simp only [step, enters (fun _ same => KernelCall.noConfusion same), vseCleanup,
        Machine.withKernel, cleans, pure_bind, lift_ok]
      rfl
    · exact ⟨congrArg Kernel.withoutModule keeps.kernel, keeps.globals, threads, keeps.devices,
        keeps.sock⟩
  | openDevice =>
    obtain ⟨result, keepsAfter⟩ := open_keeps keeps
    refine ⟨_, addresses, ?_, Nat.le_succ _, keepsAfter⟩
    intro fuel _
    simp only [step, enters (fun _ same => KernelCall.noConfusion same), pure_bind, lift_ok,
      lifeStep, result]
  | ioctl request =>
    obtain ⟨after, linked, runs, short, keepsAfter⟩ := ioctl_keeps keeps request
    refine ⟨after, linked, ?_, short, keepsAfter⟩
    intro fuel _
    simp only [step, enters (fun _ same => KernelCall.noConfusion same), runs, pure_bind, lift_ok]
    rfl
  | releaseDevice =>
    have kernel : machine.kernel.withoutFile = life.kernel.withoutFile :=
      congrArg Kernel.withoutFile keeps.kernel
    have globals : { machine.globals with deviceOpen := machine.globals.deviceOpen - 1 } =
        globalsOf (Device.deviceRelease life.state.device).2 := by
      rw [keeps.globals]
      rfl
    refine ⟨{ machine with
        kernel := machine.kernel.withoutFile
        globals := { machine.globals with deviceOpen := machine.globals.deviceOpen - 1 } },
      addresses, ?_, Nat.le_succ _,
      ⟨kernel, globals, keeps.threads, keeps.devices, keeps.sock⟩⟩
    intro fuel _
    simp only [step, enters (fun _ same => KernelCall.noConfusion same), pure_bind, lift_ok]
    rfl
  | handleData id nwTos skb =>
    have state : life.state = ⟨life.state.device, machine.devices, machine.sock⟩ := by
      rw [keeps.devices, keeps.sock]
    refine ⟨{ machine with
        devices := (lifeStep life (.handleData id nwTos skb)).2.state.devices
        sock := (lifeStep life (.handleData id nwTos skb)).2.state.sock }, addresses, ?_,
      Nat.le_succ _, ⟨keeps.kernel, keeps.globals, keeps.threads, rfl, rfl⟩⟩
    intro fuel enough
    simp only [step, enters (fun _ same => KernelCall.noConfusion same), pure_bind, lift_ok,
      handle_data_eq keeps.threads fuel enough nwTos skb id, lifeStep]
    rw [state]
    rfl

theorem boot_keeps (heap : Heap (Linked VseFlowEntry)) (devices : Nat → NetDevice)
    (sock : Option RpsSockFlowTable) :
    Keeps heap (boot heap devices sock) (booted devices sock) [] :=
  ⟨rfl, rfl, threads_init heap [], rfl, rfl⟩

end Agreement

section Lives

variable {heap : Heap (Linked VseFlowEntry)} {machine : Machine} {life : Life}
  {addresses : List Nat}

/-- Calls that are made as promised come back with their replies, and keep to the life, by
induction on the calls. Each adds one entry at most, so one unit of fuel a call is enough. -/
theorem run_keeps (keeps : Keeps heap machine life addresses)
    (guarded : Guarded life.kernel life.state.device) (calls : List KernelCall)
    (promised : Along nextLife PromisedIn life calls) :
    ∃ after linked, (∀ fuel, addresses.length + calls.length ≤ fuel →
        runLife fuel machine calls = pure (replies life calls, after)) ∧
      linked.length ≤ addresses.length + calls.length ∧
      Keeps heap after (run nextLife life calls) linked := by
  induction calls generalizing machine life addresses with
  | nil => exact ⟨machine, addresses, fun _ _ => rfl, Nat.le_refl _, keeps⟩
  | cons call rest inductionHypothesis =>
    obtain ⟨now, later⟩ := promised
    obtain ⟨middle, between, runs, short, keepsMiddle⟩ :=
      step_keeps keeps guarded call (keeps.kernel ▸ now)
    obtain ⟨after, linked, runsRest, shortRest, keepsAfter⟩ :=
      inductionHypothesis keepsMiddle (guarded_step life call now guarded) later
    rw [List.length_cons]
    refine ⟨after, linked, ?_, by omega, keepsAfter⟩
    intro fuel enough
    have stepped := runs fuel (by omega)
    have restRuns := runsRest fuel (by omega)
    simp only [runLife, stepped, pure_bind, restRuns, replies, nextLife]

/-- With fuel for the longest list that the calls can meet, they are lawful at the machine exactly
when they are made as promised at the life that it keeps to. -/
theorem lawful_iff (keeps : Keeps heap machine life addresses)
    (guarded : Guarded life.kernel life.state.device) (calls : List KernelCall) (fuel : Nat)
    (enough : addresses.length + calls.length ≤ fuel) :
    Lawful fuel machine calls ↔ Along nextLife PromisedIn life calls := by
  induction calls generalizing machine life addresses with
  | nil => exact Iff.rfl
  | cons call rest inductionHypothesis =>
    rw [List.length_cons] at enough
    have same : Promised machine.kernel call ↔ PromisedIn life call := by
      rw [keeps.kernel]
      exact Iff.rfl
    simp only [Lawful, Along, same]
    refine and_congr_right fun now => ?_
    obtain ⟨middle, between, runs, short, keepsMiddle⟩ :=
      step_keeps keeps guarded call (same.mpr now)
    have stepped := runs fuel (by omega)
    have onward := inductionHypothesis keepsMiddle (guarded_step life call now guarded) (by omega)
    refine Iff.trans ?_ onward
    constructor
    · intro lawful
      exact lawful _ middle stepped
    · intro lawful reply after ran
      cases ran.symm.trans stepped
      exact lawful

/-- Without the module nothing of the kernel's side is left. -/
theorem Guarded.unloaded {kernel : Kernel} {device : DeviceState} (guarded : Guarded kernel device)
    (notLoaded : kernel.loaded = false) : kernel = ⟨false, false, false, 0, 0⟩ := by
  obtain ⟨loaded, vseHandler, registered, references, openFiles⟩ := kernel
  obtain rfl : loaded = false := notLoaded
  obtain rfl : vseHandler = false := guarded.handlerOfModule
  have noFile : openFiles = 0 := by
    by_contra opened
    exact Bool.false_ne_true (guarded.fileKeepsModule opened)
  have noNumber : registered = false := by
    cases registered with
    | false => rfl
    | true => exact absurd (guarded.numberOfModule rfl) Bool.false_ne_true
  have noReference : references = 0 := guarded.references.trans noFile
  rw [noFile, noNumber, noReference]

/-- Without the module the only call that is promised loads it, and a load makes the device anew.
So the calls to come are promised, and reply, as before the first load. -/
theorem unloaded_forgets (guarded : Guarded life.kernel life.state.device)
    (notLoaded : life.kernel.loaded = false) (calls : List KernelCall)
    (promised : Along nextLife PromisedIn life calls) :
    Along nextLife PromisedIn (booted life.state.devices life.state.sock) calls ∧
      replies (booted life.state.devices life.state.sock) calls = replies life calls := by
  cases calls with
  | nil => exact ⟨trivial, rfl⟩
  | cons call rest =>
    obtain ⟨now, later⟩ := promised
    obtain ⟨majorFree, rfl⟩ : ∃ majorFree, call = .init majorFree := by
      by_contra other
      rw [not_exists] at other
      exact Bool.false_ne_true (notLoaded.symm.trans (guarded.loaded now other))
    have same : lifeStep (booted life.state.devices life.state.sock) (.init majorFree) =
        lifeStep life (.init majorFree) := by
      have kernel := guarded.unloaded notLoaded
      simp only [lifeStep, Life.withDevice, kernel, booted]
    have next : nextLife (booted life.state.devices life.state.sock) (.init majorFree) =
        nextLife life (.init majorFree) := congrArg Prod.snd same
    refine ⟨⟨rfl, ?_⟩, ?_⟩
    · rw [next]
      exact later
    · rw [replies, replies, next, same]

variable (heap) (devices : Nat → NetDevice) (sock : Option RpsSockFlowTable)

/-- Any number of loads and unloads, and whatever is called in between as the kernel promises: the
module down to its links and references runs without a fault, never runs code that is not loaded,
and replies as the device with the table as a list does. Its links thread that table in the end.

Proof: the promises, read off the machine, are promises at the list level, since the kernel's side
is the same at both. There they keep at most one file open, with its reference, and the handler and
the number on a module that is loaded. So every call of the machine enters a module that is
loaded, and the steps of the machine follow those of the list by the rules of the linked table. -/
theorem lives_refine (fuel : Nat) (calls : List KernelCall) (enough : calls.length ≤ fuel)
    (lawful : Lawful fuel (boot heap devices sock) calls) :
    ∃ after linked, runLife fuel (boot heap devices sock) calls =
        pure (replies (booted devices sock) calls, after) ∧
      Keeps heap after (run nextLife (booted devices sock) calls) linked := by
  have keeps := boot_keeps heap devices sock
  have guarded := guarded_booted devices sock
  have room : ([] : List Nat).length + calls.length ≤ fuel := (Nat.zero_add _).trans_le enough
  have promised := (lawful_iff keeps guarded calls fuel room).mp lawful
  obtain ⟨after, linked, runs, _, keepsAfter⟩ := run_keeps keeps guarded calls promised
  exact ⟨after, linked, runs fuel room, keepsAfter⟩

def usedOnce : List KernelCall :=
  [.init true, .openDevice, .ioctl ⟨Request.setEntry.code, nullPtr, true⟩, .releaseDevice,
    .cleanup]

/-- The kernel may call the module so, and load it again. -/
theorem used_once_lawful (fuel : Nat) (enough : 6 ≤ fuel) :
    Lawful fuel (boot heap devices sock) (usedOnce ++ [.init false]) := by
  refine (lawful_iff (boot_keeps heap devices sock) (guarded_booted devices sock)
    (usedOnce ++ [KernelCall.init false]) fuel enough).mpr ?_
  exact ⟨rfl, rfl, Nat.one_ne_zero, Nat.one_ne_zero, ⟨rfl, rfl⟩, rfl, trivial⟩

/-- The module is used, unloaded and loaded again, and runs without a fault. -/
theorem used_module_refines :
    let calls := usedOnce ++ [.init false]
    ∃ after linked, runLife 6 (boot Heap.empty (fun _ => oneQueueDevice) none) calls =
        pure (replies (booted (fun _ => oneQueueDevice) none) calls, after) ∧
      Keeps Heap.empty after
        (run nextLife (booted (fun _ => oneQueueDevice) none) calls) linked :=
  lives_refine Heap.empty (fun _ => oneQueueDevice) none 6 _ (Nat.le_refl 6)
    (used_once_lawful Heap.empty _ none 6 (Nat.le_refl 6))

/-- In the state that calls made as promised lead to, handler, device number and open file lead to
a module that is loaded, an open file is the only one, holds a reference and is counted, and a
module that is not loaded has left the heap as it was.

Proof: what holds of the kernel's side is an invariant of the promised calls at the list level, and
the machine shares the kernel's side and the open count. Without entries, the heap off the threaded
entries is the whole heap. -/
theorem lives_guarded (fuel : Nat) (calls : List KernelCall) (enough : calls.length ≤ fuel)
    (lawful : Lawful fuel (boot heap devices sock) calls) :
    ∃ came after table linked,
      runLife fuel (boot heap devices sock) calls = pure (came, after) ∧
      Threads heap after.lists linked table ∧
      Guarded after.kernel (after.globals.device table) ∧
      (after.kernel.loaded = false →
        ∀ address, after.lists.heap.object address = heap.object address) := by
  have room : ([] : List Nat).length + calls.length ≤ fuel := (Nat.zero_add _).trans_le enough
  have promised := (lawful_iff (boot_keeps heap devices sock) (guarded_booted devices sock)
    calls fuel room).mp lawful
  have guarded := run_invariant_of_along nextLife PromisedIn
    (fun life => Guarded life.kernel life.state.device) guarded_step (booted devices sock) calls
    promised (guarded_booted devices sock)
  obtain ⟨after, linked, runs, _, keeps⟩ := run_keeps (boot_keeps heap devices sock)
    (guarded_booted devices sock) calls promised
  have shared : Guarded after.kernel
      (after.globals.device (run nextLife (booted devices sock) calls).state.device.flowTable) := by
    rw [keeps.kernel, keeps.globals]
    exact guarded
  refine ⟨_, after, _, linked, runs fuel room, keeps.threads, shared, ?_⟩
  intro notLoaded address
  have empty : linked = [] := by
    apply List.eq_nil_of_length_eq_zero
    have noEntries := guarded.noEntries (keeps.kernel ▸ notLoaded)
    rw [← keeps.threads.length, noEntries, List.length_nil]
  refine keeps.threads.others address ?_
  rw [empty]
  exact List.not_mem_nil

theorem used_module_guarded :
    ∃ came after table linked,
      runLife 6 (boot Heap.empty (fun _ => oneQueueDevice) none) (usedOnce ++ [.init false]) =
        pure (came, after) ∧
      Threads Heap.empty after.lists linked table ∧
      Guarded after.kernel (after.globals.device table) ∧
      (after.kernel.loaded = false → ∀ address, after.lists.heap.object address = none) :=
  lives_guarded Heap.empty (fun _ => oneQueueDevice) none 6 _ (Nat.le_refl 6)
    (used_once_lawful Heap.empty _ none 6 (Nat.le_refl 6))

/-- A load forgets the loads before it. Where some calls left the module unloaded, the calls that
the kernel then makes are such as it may make on a machine that was just booted, with any heap and
with the tables of the receive path as they were left, and come back as they do there.

Proof: nothing of the kernel's side is left, so the next call can only load the module, and a load
makes the globals and the list head anew. -/
theorem reload_forgets (fuel : Nat) (calls later : List KernelCall)
    (other : Heap (Linked VseFlowEntry)) (came : List Reply) (after : Machine)
    (enough : calls.length + later.length ≤ fuel)
    (lawful : Lawful fuel (boot heap devices sock) (calls ++ later))
    (runs : runLife fuel (boot heap devices sock) calls = pure (came, after))
    (unloaded : after.kernel.loaded = false) :
    Lawful fuel (boot other after.devices after.sock) later ∧
      ∃ first last lastBooted, runLife fuel after later = pure (first, last) ∧
        runLife fuel (boot other after.devices after.sock) later = pure (first, lastBooted) := by
  have keeps := boot_keeps heap devices sock
  have guarded := guarded_booted devices sock
  have room : ([] : List Nat).length + (calls ++ later).length ≤ fuel := by
    rw [List.length_append, List.length_nil]
    omega
  have promised := (lawful_iff keeps guarded (calls ++ later) fuel room).mp lawful
  obtain ⟨before, behind⟩ := (along_append _ _ _ _ _).mp promised
  obtain ⟨middle, linked, runsFirst, short, keepsMiddle⟩ := run_keeps keeps guarded calls before
  obtain rfl : middle = after := by
    have same := runs.symm.trans (runsFirst fuel (by rw [List.length_nil]; omega))
    cases same
    rfl
  have guardedMiddle := run_invariant_of_along nextLife PromisedIn
    (fun life => Guarded life.kernel life.state.device) guarded_step (booted devices sock) calls
    before guarded
  obtain ⟨afresh, same⟩ :=
    unloaded_forgets guardedMiddle (keepsMiddle.kernel ▸ unloaded) later behind
  rw [← keepsMiddle.devices, ← keepsMiddle.sock] at afresh same
  rw [List.length_nil, Nat.zero_add] at short
  obtain ⟨last, _, runsLater, _⟩ := run_keeps keepsMiddle guardedMiddle later behind
  have keepsBooted := boot_keeps other middle.devices middle.sock
  have guardedBooted := guarded_booted middle.devices middle.sock
  have roomBooted : ([] : List Nat).length + later.length ≤ fuel := by
    rw [List.length_nil]
    omega
  obtain ⟨lastBooted, _, runsBooted, _⟩ := run_keeps keepsBooted guardedBooted later afresh
  refine ⟨(lawful_iff keepsBooted guardedBooted later fuel roomBooted).mpr afresh, _, last,
    lastBooted, runsLater fuel (by omega), ?_⟩
  rw [← same]
  exact runsBooted fuel roomBooted

/-- The module that was used and unloaded is loaded on a machine that it left as it was. -/
theorem used_module_reloaded :
    ∃ came after, runLife 6 (boot Heap.empty (fun _ => oneQueueDevice) none) usedOnce =
        pure (came, after) ∧
      Lawful 6 (boot Heap.empty after.devices after.sock) [.init false] ∧
      ∃ first last lastBooted, runLife 6 after [.init false] = pure (first, last) ∧
        runLife 6 (boot Heap.empty after.devices after.sock) [.init false] =
          pure (first, lastBooted) := by
  have keeps := boot_keeps Heap.empty (fun _ => oneQueueDevice) none
  have guarded := guarded_booted (fun _ => oneQueueDevice) none
  obtain ⟨after, _, runs, _, keepsAfter⟩ := run_keeps keeps guarded usedOnce
    ⟨rfl, rfl, Nat.one_ne_zero, Nat.one_ne_zero, ⟨rfl, rfl⟩, trivial⟩
  have unloaded : after.kernel.loaded = false := by
    rw [keepsAfter.kernel]
    rfl
  exact ⟨_, after, runs 6 (by decide),
    reload_forgets Heap.empty (fun _ => oneQueueDevice) none 6 usedOnce [.init false] Heap.empty _
      after (Nat.le_refl 6) (used_once_lawful Heap.empty _ none 6 (Nat.le_refl 6))
      (runs 6 (by decide)) unloaded⟩

end Lives

end Vse.ModuleLife

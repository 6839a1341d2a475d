import Vse.CStrings
import Vse.StagedCommands

/-!
# The command-line tool

`vse_set_entry.c`. The tool opens the control device, turns each option into commands
as it reads it, and commits at the end. It can stop early: it exits, or it is killed
when it reads past its arguments. What it prints is left out; it reads nothing back.

A number is passed as the address of an `unsigned int`, an address byte by byte. The
array that `sscanf` fills is never initialised, so the tool starts with arbitrary bytes
in it. The driver's allocations may fail: `kzalloc` tells the fate of the one that the
n-th call to the driver makes.
-/

namespace Vse.SetEntryTool

open CStrings SocketBuffer Device StagedCommands Runs

/-- How the tool ends: with an exit code, or by reading an argument that is not there. -/
inductive Exit where
  | exit (code : Int)
  | killed
deriving DecidableEq

/-- The driver as the tool reaches it: its globals, and how often it was called. The count decides
which allocations succeed. -/
structure Driver where
  device : DeviceState
  calls : Nat

/-- The running tool: whether it holds the device open, and the address buffer `dl`, which is not
initialised. -/
structure Process where
  driver : Driver
  fdOpen : Bool
  dl : Mac

/-- A piece of the tool, which may end it. What was done to the process until then stays. -/
abbrev Tool := ExceptT Exit (StateM Process)

/-- Print the usage and exit. -/
def outUsage {α : Type} : Tool α := throw (.exit (-1))

/-- `open` of the device file. A device in use refuses, and the tool exits. -/
def openDevice : Tool Unit := do
  let process ← get
  let (result, device) := deviceOpen process.driver.device
  if result < 0 then throw (.exit (-1))
  set { process with driver := { process.driver with device := device }, fdOpen := true }

/-- Close the device file, if it is open. The kernel does this for a process that ends. -/
def Process.closed (process : Process) : Process :=
  if process.fdOpen then
    let device := (deviceRelease process.driver.device).2
    { process with driver := { process.driver with device := device }, fdOpen := false }
  else process

section Calls

variable (kzalloc : Nat → Bool)

/-- `ioctl`: the library turns every negative result of the driver into `-1`. -/
def ioctl (request : Request) (arg : UserPtr) : Tool Int := do
  let process ← get
  let ⟨device, calls⟩ := process.driver
  let (result, device) := vseDeviceIoctl request.code arg (kzalloc calls) device
  set { process with driver := ⟨device, calls + 1⟩ }
  return if result < 0 then -1 else result

/-- A call whose failure ends the tool. The driver never reports one. -/
def checkedIoctl (request : Request) (arg : UserPtr) : Tool Unit := do
  let retVal ← ioctl kzalloc request arg
  if retVal < 0 then throw (.exit (-1))

def vseIoctlInitWildcards : Tool Unit := checkedIoctl kzalloc .initWildcards nullPtr
def vseIoctlSetVni (vni : BitVec 32) : Tool Unit := checkedIoctl kzalloc .setVni (wordPtr vni)
def vseIoctlSetIrq (irq : BitVec 32) : Tool Unit := checkedIoctl kzalloc .setIrq (wordPtr irq)

/-- Store an address byte by byte. Only the last of the six calls is checked, as in the source. -/
def setAddress (request : Fin 6 → Request) (dl : Mac) : Tool Unit := do
  discard <| ioctl kzalloc (request 0) (bytePtr (dl 0))
  discard <| ioctl kzalloc (request 1) (bytePtr (dl 1))
  discard <| ioctl kzalloc (request 2) (bytePtr (dl 2))
  discard <| ioctl kzalloc (request 3) (bytePtr (dl 3))
  discard <| ioctl kzalloc (request 4) (bytePtr (dl 4))
  checkedIoctl kzalloc (request 5) (bytePtr (dl 5))

/-- The requests for the bytes of an inner address, in their order. -/
def dlIndstRequest : Fin 6 → Request :=
  ![.setDlIndst1, .setDlIndst2, .setDlIndst3, .setDlIndst4, .setDlIndst5, .setDlIndst6]

/-- The requests for the bytes of an outer address, in their order. -/
def dlDstRequest : Fin 6 → Request :=
  ![.setDlDst1, .setDlDst2, .setDlDst3, .setDlDst4, .setDlDst5, .setDlDst6]

def vseIoctlSetDlIndst (dl : Mac) : Tool Unit := setAddress kzalloc dlIndstRequest dl
def vseIoctlSetDlDst (dl : Mac) : Tool Unit := setAddress kzalloc dlDstRequest dl

/-- The result is assigned and not looked at. -/
def vseIoctlSetEntry : Tool Unit := discard <| ioctl kzalloc .setEntry nullPtr

end Calls

/-- The four option words, which the loop compares with the words of the command line. -/
def vniOption : CString := ['-', '-', 'v', 'n', 'i']
def irqOption : CString := ['-', '-', 'i', 'r', 'q']
def dlIndstOption : CString := ['-', '-', 'd', 'l', '_', 'i', 'n', 'd', 's', 't']
def dlDstOption : CString := ['-', '-', 'd', 'l', '_', 'd', 's', 't']

/-- The stores that `sscanf` makes into the address buffer. Bytes that it does not come to stay as
they are. -/
def storeFields (dl : Mac) (bytes : List Byte) : Mac := fun index => bytes.getD index (dl index)

section Main

variable (kzalloc : Nat → Bool) (argv : List CString)

/-- The arm of an option with a number. The number is unsigned, so it is never negative, and the
test for that never ends the tool. -/
def numberArm (pass : BitVec 32 → Tool Unit) (value : CString) : Tool Unit := do
  let number := atoi value
  if number < 0 then
    modify Process.closed
    outUsage
  pass number

/-- The arm of an option with an address. How many bytes `sscanf` stored is not looked at. -/
def addressArm (pass : Mac → Tool Unit) (value : CString) : Tool Unit := do
  let process ← get
  let dl := storeFields process.dl (scanHexFields 6 value)
  set { process with dl := dl }
  pass dl

def vniArm : CString → Tool Unit := numberArm (vseIoctlSetVni kzalloc)
def irqArm : CString → Tool Unit := numberArm (vseIoctlSetIrq kzalloc)
def dlIndstArm : CString → Tool Unit := addressArm (vseIoctlSetDlIndst kzalloc)
def dlDstArm : CString → Tool Unit := addressArm (vseIoctlSetDlDst kzalloc)

/-- `argv[i]`, as an argument of a string function. At the end of the words it is a null pointer,
which the function follows. -/
def word (i : Nat) : Tool CString :=
  match argv[i]? with
  | some text => return text
  | none => throw .killed

/-- One `if` of the loop's body: on its option word it goes on to the value, which its arm takes.
The value is not checked to be there. -/
def onOption (option : CString) (arm : CString → Tool Unit) (i : Nat) :
    Tool { next : Nat // i ≤ next } := do
  if (← word argv i) = option then
    arm (← word argv (i + 1))
    return ⟨i + 1, Nat.le_succ i⟩
  return ⟨i, Nat.le_refl i⟩

/-- The body of the loop: four tests one after the other, each at the word where the one
before it stopped. -/
def body (i : Nat) : Tool { next : Nat // i ≤ next } := do
  let ⟨afterVni, vniLe⟩ ← onOption argv vniOption (vniArm kzalloc) i
  let ⟨afterIrq, irqLe⟩ ← onOption argv irqOption (irqArm kzalloc) afterVni
  let ⟨afterIndst, indstLe⟩ ← onOption argv dlIndstOption (dlIndstArm kzalloc) afterIrq
  let ⟨afterDst, dstLe⟩ ← onOption argv dlDstOption (dlDstArm kzalloc) afterIndst
  return ⟨afterDst, vniLe.trans (irqLe.trans (indstLe.trans dstLe))⟩

/-- The loop over the words. It begins at the tool's own name. -/
def loop (i : Nat) : Tool Unit := do
  if i < argv.length then
    let ⟨last, le⟩ ← body kzalloc argv i
    loop (last + 1)
termination_by argv.length - i

/-- What `main` does with the open device: it starts a rule, reads the words and commits. -/
def session : Tool Unit := do
  vseIoctlInitWildcards kzalloc
  loop kzalloc argv 0
  vseIoctlSetEntry kzalloc

def main : Tool Int := do
  if argv.length < 2 then outUsage
  openDevice
  session kzalloc argv
  modify Process.closed
  return 0

/-- A run of the tool: how it ends and what it leaves of the device. The kernel closes what
an ended process still holds open. -/
def runTool (dl : Mac) (device : DeviceState) : Exit × DeviceState :=
  let (result, process) := (main kzalloc argv).run.run ⟨⟨device, 0⟩, false, dl⟩
  let ending := match result with
    | .ok code => .exit code
    | .error ending => ending
  (ending, process.closed.driver.device)

end Main

section Requests

/-- A piece that ends normally hands its value and the process to the next. -/
theorem run_bind_ok {α β : Type} {tool : Tool α} {value : α} {process after : Process}
    (ran : tool.run.run process = (.ok value, after)) (next : α → Tool β) :
    (tool >>= next).run.run process = (next value).run.run after := by
  simp only [ExceptT.run_bind, StateT.run_bind, ran]
  rfl

/-- A piece that ends the tool keeps the next from running. -/
theorem run_bind_error {α β : Type} {tool : Tool α} {ending : Exit} {process after : Process}
    (ran : tool.run.run process = (.error ending, after)) (next : α → Tool β) :
    (tool >>= next).run.run process = (.error ending, after) := by
  simp only [ExceptT.run_bind, StateT.run_bind, ran]
  rfl

theorem get_run (process : Process) :
    (get : Tool Process).run.run process = (.ok process, process) := rfl

theorem set_run (process after : Process) :
    (set after : Tool PUnit).run.run process = (.ok PUnit.unit, after) := rfl

variable (kzalloc : Nat → Bool)

/-- The driver after one more call. Its return value does not matter here, as it is always the
same. -/
def call (driver : Driver) (made : Request × UserPtr) : Driver :=
  ⟨deviceStep driver.device ⟨made.1.code, made.2, kzalloc driver.calls⟩, driver.calls + 1⟩

/-- From every state the piece of the tool ends normally with the value, having made exactly the
given calls. This is the specification that all pieces are given below. -/
def Makes {α : Type} (tool : Tool α) (value : α) (made : List (Request × UserPtr)) : Prop :=
  ∀ process, ∃ dl, tool.run.run process =
    (.ok value, { process with driver := run (call kzalloc) process.driver made, dl := dl })

variable {kzalloc}

theorem makes_pure {α : Type} (value : α) : Makes kzalloc (pure value) value [] :=
  fun process => ⟨process.dl, rfl⟩

/-- The calls of a sequence are those of its parts in turn. -/
theorem Makes.bind {α β : Type} {tool : Tool α} {value : α} {result : β}
    {made later : List (Request × UserPtr)} (first : Makes kzalloc tool value made)
    (next : α → Tool β) (second : Makes kzalloc (next value) result later) :
    Makes kzalloc (tool >>= next) result (made ++ later) := by
  intro process
  obtain ⟨dl, ran⟩ := first process
  obtain ⟨left, goes⟩ := second
    { process with driver := run (call kzalloc) process.driver made, dl := dl }
  refine ⟨left, ?_⟩
  rw [run_bind_ok ran, goes, run_append]

theorem makes_ioctl (request : Request) (arg : UserPtr) :
    Makes kzalloc (ioctl kzalloc request arg) success [(request, arg)] :=
  fun process => ⟨process.dl, rfl⟩

theorem makes_checked_ioctl (request : Request) (arg : UserPtr) :
    Makes kzalloc (checkedIoctl kzalloc request arg) () [(request, arg)] :=
  fun process => ⟨process.dl, rfl⟩

theorem Makes.bind_pure {α β : Type} {tool : Tool α} {value : α}
    {made : List (Request × UserPtr)} (makes : Makes kzalloc tool value made) (last : α → β) :
    Makes kzalloc (tool >>= fun result => pure (last result)) (last value) made := by
  have ended := makes.bind (fun result => pure (last result)) (makes_pure (last value))
  rwa [List.append_nil] at ended

theorem Makes.discard {α : Type} {tool : Tool α} {value : α} {made : List (Request × UserPtr)}
    (makes : Makes kzalloc tool value made) : Makes kzalloc (discard tool) () made :=
  makes.bind_pure fun _ => ()

/-- Whatever its value reads as, a number is passed on: there is no range check that it could
fail. -/
theorem makes_number_arm {pass : BitVec 32 → Tool Unit} {value : CString}
    {made : List (Request × UserPtr)} (passed : Makes kzalloc (pass (atoi value)) () made) :
    Makes kzalloc (numberArm pass value) () made := by
  have unsigned : ¬ atoi value < 0 := BitVec.not_lt_zero
  simp only [numberArm, unsigned, ↓reduceIte]
  exact passed

/-- The calls that store the six bytes of an address. -/
def addressRequests (request : Fin 6 → Request) (mac : Mac) : List (Request × UserPtr) :=
  List.ofFn fun index => (request index, bytePtr (mac index))

theorem makes_set_address (request : Fin 6 → Request) (dl : Mac) :
    Makes kzalloc (setAddress kzalloc request dl) () (addressRequests request dl) :=
  (makes_ioctl _ _).discard.bind _ <| (makes_ioctl _ _).discard.bind _ <|
    (makes_ioctl _ _).discard.bind _ <| (makes_ioctl _ _).discard.bind _ <|
    (makes_ioctl _ _).discard.bind _ <| makes_checked_ioctl _ _

/-- Six bytes fill the buffer, whatever was in it, so a complete address does not depend on the
stack. -/
theorem store_six (dl : Mac) (bytes : Fin 6 → HexByte) :
    storeFields dl (scanHexFields 6 (joined (List.ofFn bytes))) =
      fun index => (bytes index).value := by
  have scanned := scan_joined (List.ofFn bytes)
  rw [List.length_ofFn] at scanned
  funext index
  rw [storeFields, scanned, List.getD_eq_getElem?_getD, List.getElem?_map, List.getElem?_ofFn,
    dif_pos index.isLt]
  rfl

/-- A well-formed address is passed on byte by byte. -/
theorem makes_address_arm {pass : Mac → Tool Unit} {made : List (Request × UserPtr)}
    (bytes : Fin 6 → HexByte)
    (passed : Makes kzalloc (pass fun index => (bytes index).value) () made) :
    Makes kzalloc (addressArm pass (joined (List.ofFn bytes))) () made := by
  intro process
  obtain ⟨dl, ran⟩ := passed { process with dl := fun index => (bytes index).value }
  refine ⟨dl, ?_⟩
  rw [addressArm, run_bind_ok (get_run process), store_six process.dl bytes,
    run_bind_ok (set_run process _), ran]

variable {argv : List CString}

/-- On its option word, a test consumes the value too, and makes the calls of its arm. -/
theorem makes_on_option {option value : CString} {arm : CString → Tool Unit} {i : Nat}
    {made : List (Request × UserPtr)} (here : argv[i]? = some option)
    (next : argv[i + 1]? = some value) (taken : Makes kzalloc (arm value) () made) :
    Makes kzalloc (onOption argv option arm i) ⟨i + 1, Nat.le_succ i⟩ made := by
  simp only [onOption, word, here, next, pure_bind, ↓reduceIte]
  exact taken.bind_pure fun _ => (⟨i + 1, Nat.le_succ i⟩ : { next : Nat // i ≤ next })

/-- On any other word it does nothing, and leaves the word to the next test. -/
theorem makes_on_other {option text : CString} {arm : CString → Tool Unit} {i : Nat}
    (here : argv[i]? = some text) (other : text ≠ option) :
    Makes kzalloc (onOption argv option arm i) ⟨i, Nat.le_refl i⟩ [] := by
  simp only [onOption, word, here, pure_bind, other, ↓reduceIte]
  exact makes_pure _

/-- The four tests of the body follow one another, each at the word behind the last one that was
consumed. -/
theorem makes_body {i afterVni afterIrq afterIndst afterDst : Nat}
    {vniLe : i ≤ afterVni} {irqLe : afterVni ≤ afterIrq} {indstLe : afterIrq ≤ afterIndst}
    {dstLe : afterIndst ≤ afterDst} {vni irq dlIndst dlDst : List (Request × UserPtr)}
    (onVni : Makes kzalloc (onOption argv vniOption (vniArm kzalloc) i) ⟨afterVni, vniLe⟩ vni)
    (onIrq : Makes kzalloc (onOption argv irqOption (irqArm kzalloc) afterVni)
      ⟨afterIrq, irqLe⟩ irq)
    (onIndst : Makes kzalloc (onOption argv dlIndstOption (dlIndstArm kzalloc) afterIrq)
      ⟨afterIndst, indstLe⟩ dlIndst)
    (onDst : Makes kzalloc (onOption argv dlDstOption (dlDstArm kzalloc) afterIndst)
      ⟨afterDst, dstLe⟩ dlDst) :
    Makes kzalloc (body kzalloc argv i)
      ⟨afterDst, vniLe.trans (irqLe.trans (indstLe.trans dstLe))⟩
      (vni ++ (irq ++ (dlIndst ++ dlDst))) := by
  unfold body
  refine onVni.bind _ (onIrq.bind _ (onIndst.bind _ ?_))
  exact onDst.bind_pure fun next =>
    (⟨next.1, vniLe.trans (irqLe.trans (indstLe.trans next.2))⟩ : { next : Nat // i ≤ next })

/-- The loop goes on behind the last word that its body read, which is the one that the last test
looked at. -/
theorem makes_loop {i last : Nat} {le : i ≤ last} {made later : List (Request × UserPtr)}
    (inside : i < argv.length) (here : Makes kzalloc (body kzalloc argv i) ⟨last, le⟩ made)
    (rest : Makes kzalloc (loop kzalloc argv (last + 1)) () later) :
    Makes kzalloc (loop kzalloc argv i) () (made ++ later) := by
  rw [loop, if_pos inside]
  exact here.bind _ rest

theorem makes_loop_end {i : Nat} (outside : argv.length ≤ i) :
    Makes kzalloc (loop kzalloc argv i) () [] := by
  rw [loop, if_neg (Nat.not_lt.mpr outside)]
  exact makes_pure ()

/-- The commands of a session: a rule is started, the words are read, and the rule is committed.
-/
theorem makes_session {made : List (Request × UserPtr)}
    (reads : Makes kzalloc (loop kzalloc argv 0) () made) :
    Makes kzalloc (session kzalloc argv) ()
      ((.initWildcards, nullPtr) :: (made ++ [(.setEntry, nullPtr)])) := by
  unfold session
  exact (makes_checked_ioctl .initWildcards nullPtr).bind _
    (reads.bind _ (makes_ioctl .setEntry nullPtr).discard)

/-- Opening is refused by a device in use, and otherwise starts a session. -/
theorem open_device_run (process : Process) : openDevice.run.run process =
    if process.driver.device.deviceOpen = 0 then
      (.ok (), { process with
        driver := { process.driver with device := (deviceOpen process.driver.device).2 }
        fdOpen := true })
    else (.error (.exit (-1)), process) := by
  by_cases idle : process.driver.device.deviceOpen = 0
  · rw [if_pos idle, openDevice]
    refine (run_bind_ok (get_run process) _).trans ?_
    rw [device_open_free process.driver.device idle]
    rfl
  · rw [if_neg idle, openDevice]
    refine (run_bind_ok (get_run process) _).trans ?_
    rw [device_open_busy process.driver.device idle]
    rfl

/-- A tool that finds the device in use leaves it alone and exits with an error. -/
theorem run_tool_busy (dl : Mac) (device : DeviceState) (enough : 2 ≤ argv.length)
    (busy : device.deviceOpen ≠ 0) : runTool kzalloc argv dl device = (.exit (-1), device) := by
  have refused := open_device_run ⟨⟨device, 0⟩, false, dl⟩
  rw [if_neg busy] at refused
  have ran : (main kzalloc argv).run.run ⟨⟨device, 0⟩, false, dl⟩ =
      (.error (.exit (-1)), ⟨⟨device, 0⟩, false, dl⟩) := by
    rw [main, if_neg (Nat.not_lt.mpr enough)]
    exact run_bind_error refused _
  rw [runTool, ran]
  rfl

/-- A tool that reads all its words makes their calls between the first call and the commit, and
exits with 0. The device is free again afterwards. -/
theorem run_tool_makes (dl : Mac) (device : DeviceState) (enough : 2 ≤ argv.length)
    (idle : device.deviceOpen = 0) {made : List (Request × UserPtr)}
    (reads : Makes kzalloc (loop kzalloc argv 0) () made) :
    runTool kzalloc argv dl device =
      (.exit 0, (deviceRelease (run (call kzalloc) ⟨(deviceOpen device).2, 0⟩
        ((.initWildcards, nullPtr) :: (made ++ [(.setEntry, nullPtr)]))).device).2) := by
  have opened : openDevice.run.run ⟨⟨device, 0⟩, false, dl⟩ =
      (.ok (), ⟨⟨(deviceOpen device).2, 0⟩, true, dl⟩) :=
    (open_device_run ⟨⟨device, 0⟩, false, dl⟩).trans (if_pos idle)
  obtain ⟨left, ran⟩ := makes_session reads ⟨⟨(deviceOpen device).2, 0⟩, true, dl⟩
  have finished : (main kzalloc argv).run.run ⟨⟨device, 0⟩, false, dl⟩ =
      (.ok 0, Process.closed ⟨run (call kzalloc) ⟨(deviceOpen device).2, 0⟩
        ((.initWildcards, nullPtr) :: (made ++ [(.setEntry, nullPtr)])), true, left⟩) := by
    rw [main, if_neg (Nat.not_lt.mpr enough)]
    exact (run_bind_ok opened _).trans (run_bind_ok ran _)
  rw [runTool, finished]
  rfl

end Requests

end Vse.SetEntryTool

import Vse.Device
import Vse.Runs

/-!
# Commands on the staged rule

What the control device is for, without its codes and pointers. A client stages a
rule field by field and commits it; the table holds the committed rules. `stage`
gives the effect of each command on the staged globals, and `snapshots` the table
that the commits alone would build.

The dispatcher refines these commands: whatever the code and the pointer, it stages
what the decoded command says and touches the table only by putting the staged
rule in front. It does so for a commit and, since the arm before it runs on into
the commit, after storing a core number too.
-/

namespace Vse.StagedCommands

open SocketBuffer FlowTable Device Runs

/-- The two globals a client builds a rule in, one command at a time. They outlive the commit and
the client. -/
@[ext] structure Staged where
  entryMatch : VseMatch
  irq : Byte

/-- The staged globals of a device. -/
def staged (state : DeviceState) : Staged := ⟨state.entryMatch, state.irq⟩

/-- A command with the value its pointer delivered, or zero where it could not be read. Codes
without an effect on the staged rule are commands too. -/
inductive Command where
  | initWildcards
  | setVmId (byte : Byte)
  | setDlIndst (index : Fin 6) (byte : Byte)
  | setDlDst (index : Fin 6) (byte : Byte)
  | setVni (word : BitVec 32)
  | setIrq (byte : Byte)
  | setEntry
  | unhandled
deriving DecidableEq

/-- Open a field of the staged match to comparison. It stays open until a rule is started anew. -/
def openField (bit : BitVec 32) (vseMatch : VseMatch) : VseMatch :=
  { vseMatch with wildcards := vseMatch.wildcards &&& ~~~bit }

/-- The effect of a command on the staged globals. An address is opened by its last
byte alone. -/
def stage (before : Staged) : Command → Staged
  | .initWildcards => ⟨{ zeroMatch with wildcards := ofpfwAll }, noIrq⟩
  | .setVmId byte =>
      { before with entryMatch := openField ofpfwVmId { before.entryMatch with vmId := byte } }
  | .setDlIndst index byte =>
      let stored := { before.entryMatch with
        dlIndst := Function.update before.entryMatch.dlIndst index byte }
      { before with entryMatch := if index = 5 then openField ofpfwDlIndst stored else stored }
  | .setDlDst index byte =>
      let stored := { before.entryMatch with
        dlDst := Function.update before.entryMatch.dlDst index byte }
      { before with entryMatch := if index = 5 then openField ofpfwDlDst stored else stored }
  | .setVni word =>
      { before with entryMatch := openField ofpfwVxlanVni { before.entryMatch with vxVni := word } }
  | .setIrq byte => { before with irq := byte }
  | .setEntry | .unhandled => before

/-- The entry that a commit of the staged rule creates: the projection of the staged match, and
the staged core number. -/
def Staged.entry (rule : Staged) : VseFlowEntry :=
  ⟨vseSetEntryMatch zeroMatch rule.entryMatch, rule.irq⟩

/-- The newest-first list of the staged rules as they stood at each commit. This is the log that a
client would expect the table to be. -/
def snapshots : Staged → List Command → List VseFlowEntry
  | _, [] => []
  | before, command :: rest =>
      snapshots (stage before command) rest ++
        (if command = .setEntry then [before.entry] else [])

/-- The command that a code and a pointer stand for, as the dispatcher decodes them. -/
def commandOf (cmd : BitVec 32) (arg : UserPtr) : Command :=
  match Request.ofCode cmd with
  | some .initWildcards => .initWildcards
  | some .setVmId => .setVmId (getUserByte arg).stored
  | some .setDlIndst1 => .setDlIndst 0 (getUserByte arg).stored
  | some .setDlIndst2 => .setDlIndst 1 (getUserByte arg).stored
  | some .setDlIndst3 => .setDlIndst 2 (getUserByte arg).stored
  | some .setDlIndst4 => .setDlIndst 3 (getUserByte arg).stored
  | some .setDlIndst5 => .setDlIndst 4 (getUserByte arg).stored
  | some .setDlIndst6 => .setDlIndst 5 (getUserByte arg).stored
  | some .setDlDst1 => .setDlDst 0 (getUserByte arg).stored
  | some .setDlDst2 => .setDlDst 1 (getUserByte arg).stored
  | some .setDlDst3 => .setDlDst 2 (getUserByte arg).stored
  | some .setDlDst4 => .setDlDst 3 (getUserByte arg).stored
  | some .setDlDst5 => .setDlDst 4 (getUserByte arg).stored
  | some .setDlDst6 => .setDlDst 5 (getUserByte arg).stored
  | some .setVni => .setVni (getUserWord arg).stored
  | some .setIrq => .setIrq (getUserByte arg).stored
  | some .setEntry => .setEntry
  | some .setDlInsrc | some .setDlSrc | some .setDlDst | none => .unhandled

/-- The commands after which the dispatcher reaches the insertion: the commit, and the core
number, whose arm runs on. -/
def Command.inserts : Command → Bool
  | .setIrq _ | .setEntry => true
  | _ => false

section Refinement

variable (cmd : BitVec 32) (arg : UserPtr) (kzalloc : Bool) (state : DeviceState)

/-- Every path through the dispatcher ends in `return SUCCESS`, whatever happened on it. -/
theorem ioctl_success : (vseDeviceIoctl cmd arg kzalloc state).1 = success := rfl

/-- The dispatcher stages what the decoded command says. So the staged rule depends on the
commands alone, not on memory or on the table. -/
theorem ioctl_staged : staged (vseDeviceIoctl cmd arg kzalloc state).2 =
    stage (staged state) (commandOf cmd arg) := by
  unfold vseDeviceIoctl commandOf
  cases Request.ofCode cmd with
  | none => rfl
  | some request => cases request <;> rfl

/-- The dispatcher puts the staged rule in front of the table when it reaches the
insertion and the allocation succeeds, and leaves the table alone otherwise. -/
theorem ioctl_flow_table : (vseDeviceIoctl cmd arg kzalloc state).2.flowTable =
    if (commandOf cmd arg).inserts && kzalloc then
      (stage (staged state) (commandOf cmd arg)).entry :: state.flowTable
    else state.flowTable := by
  unfold vseDeviceIoctl commandOf
  cases Request.ofCode cmd with
  | none => rfl
  | some request => cases request <;> cases kzalloc <;> rfl

/-- The dispatcher leaves the open count alone. -/
theorem ioctl_device_open :
    (vseDeviceIoctl cmd arg kzalloc state).2.deviceOpen = state.deviceOpen := by
  obtain ⟨count, entryMatch, irq, table⟩ := state
  unfold vseDeviceIoctl
  cases Request.ofCode cmd with
  | none => rfl
  | some request => cases request <;> rfl

theorem command_set_irq_iff :
    (∃ byte, commandOf cmd arg = .setIrq byte) ↔ cmd = Request.setIrq.code := by
  rw [← of_code_eq_some_iff, commandOf]
  cases Request.ofCode cmd with
  | none => simp
  | some request => cases request <;> simp

theorem command_inserts_iff : (commandOf cmd arg).inserts = true ↔
    cmd = Request.setIrq.code ∨ cmd = Request.setEntry.code := by
  rw [← of_code_eq_some_iff, ← of_code_eq_some_iff, commandOf]
  cases Request.ofCode cmd with
  | none => simp [Command.inserts]
  | some request => cases request <;> simp [Command.inserts]

end Refinement

/-- One call of the dispatcher: the code, the user pointer, and whether `kzalloc` succeeds where
an entry is made. -/
structure IoctlCall where
  cmd : BitVec 32
  arg : UserPtr
  kzalloc : Bool

/-- The command that a call decodes to. -/
def IoctlCall.command (call : IoctlCall) : Command := commandOf call.cmd call.arg

/-- What a call returns. -/
def returned (state : DeviceState) (call : IoctlCall) : Int :=
  (vseDeviceIoctl call.cmd call.arg call.kzalloc state).1

/-- The device after a call. Calls of the dispatcher are the only steps of a run here. -/
def deviceStep (state : DeviceState) (call : IoctlCall) : DeviceState :=
  (vseDeviceIoctl call.cmd call.arg call.kzalloc state).2

/-- A call stages its command. -/
theorem step_staged (state : DeviceState) (call : IoctlCall) :
    staged (deviceStep state call) = stage (staged state) call.command :=
  ioctl_staged call.cmd call.arg call.kzalloc state

/-- A run stages its commands in turn, whatever becomes of the insertions on the way. -/
theorem run_staged (state : DeviceState) (calls : List IoctlCall) :
    staged (run deviceStep state calls) =
      run stage (staged state) (calls.map IoctlCall.command) :=
  run_abstracts deviceStep stage staged IoctlCall.command step_staged state calls

section Table

/-- The newest-first list of the staged rules as they stood each time control reached the
insertion, by a commit or by running on into it. -/
def insertions : Staged → List Command → List VseFlowEntry
  | _, [] => []
  | before, command :: rest =>
      insertions (stage before command) rest ++
        (if command.inserts then [(stage before command).entry] else [])

/-- With every allocation succeeding, a run puts exactly its insertions in front of the table, and
leaves the rest of it alone. -/
theorem run_flow_table (state : DeviceState) (calls : List IoctlCall)
    (allocated : ∀ call ∈ calls, call.kzalloc = true) :
    (run deviceStep state calls).flowTable =
      insertions (staged state) (calls.map IoctlCall.command) ++ state.flowTable := by
  induction calls generalizing state with
  | nil => rfl
  | cons call rest inductionHypothesis =>
    have head : call.kzalloc = true := allocated call List.mem_cons_self
    have tail : ∀ other ∈ rest, other.kzalloc = true := fun other member =>
      allocated other (List.mem_cons_of_mem call member)
    have table : (deviceStep state call).flowTable =
        (if call.command.inserts then [(stage (staged state) call.command).entry] else []) ++
          state.flowTable := by
      rw [deviceStep, ioctl_flow_table, head, Bool.and_true, IoctlCall.command]
      cases (commandOf call.cmd call.arg).inserts <;> rfl
    rw [run_cons, inductionHypothesis _ tail, step_staged, table, List.map_cons, insertions,
      List.append_assoc]

/-- A run without a stored core number inserts at its commits alone, so the two lists are the
same. -/
theorem insertions_eq_snapshots (before : Staged) (commands : List Command)
    (noCore : ∀ command ∈ commands, ∀ byte, command ≠ .setIrq byte) :
    insertions before commands = snapshots before commands := by
  induction commands generalizing before with
  | nil => rfl
  | cons command rest inductionHypothesis =>
    have head := noCore command List.mem_cons_self
    have tail := inductionHypothesis (stage before command)
      (fun other member => noCore other (List.mem_cons_of_mem command member))
    rw [insertions, snapshots, tail]
    cases command with
    | setIrq byte => exact absurd rfl (head byte)
    | setEntry => simp only [Command.inserts, stage, ↓reduceIte]
    | _ => simp only [Command.inserts, Bool.false_eq_true, reduceCtorEq, ↓reduceIte]

/-- Each stored core number makes the table one entry longer than the commits do. -/
theorem insertions_length (before : Staged) (commands : List Command) :
    (insertions before commands).length = (snapshots before commands).length +
      commands.countP (fun command => command.inserts && decide (command ≠ .setEntry)) := by
  induction commands generalizing before with
  | nil => rfl
  | cons command rest inductionHypothesis =>
    rw [insertions, snapshots, List.countP_cons, List.length_append, List.length_append,
      inductionHypothesis]
    cases command <;> simp [Command.inserts] <;> omega

/-- The refinement of the commit log, and exactly when it holds. From module load and with every
allocation succeeding, the flow table is the newest-first list of the staged rules at the commits
if and only if no call stores a core number: the arm of `VSE_IOCTL_SET_IRQ` runs on into the
insertion and adds an entry of its own.

Proof: the table is the list of insertions, which has one entry more than the list of commits for
each stored core number. Without any the two are the same list, and with one they differ in
length. -/
theorem table_snapshots_iff (calls : List IoctlCall)
    (allocated : ∀ call ∈ calls, call.kzalloc = true) :
    (run deviceStep moduleLoad calls).flowTable =
        snapshots (staged moduleLoad) (calls.map IoctlCall.command) ↔
      ∀ call ∈ calls, call.cmd ≠ Request.setIrq.code := by
  have table := run_flow_table moduleLoad calls allocated
  rw [show moduleLoad.flowTable = [] from rfl, List.append_nil] at table
  rw [table]
  constructor
  · intro same call member isSetIrq
    have lengths := insertions_length (staged moduleLoad) (calls.map IoctlCall.command)
    rw [same, Nat.left_eq_add, List.countP_eq_zero] at lengths
    obtain ⟨byte, decoded⟩ := (command_set_irq_iff call.cmd call.arg).mpr isSetIrq
    have absent := lengths call.command (List.mem_map_of_mem member)
    simp [IoctlCall.command, decoded, Command.inserts] at absent
  · intro noCore
    apply insertions_eq_snapshots
    intro command member byte decoded
    obtain ⟨call, present, rfl⟩ := List.mem_map.mp member
    exact noCore call present ((command_set_irq_iff call.cmd call.arg).mp ⟨byte, decoded⟩)

/-- A pointer to a single readable byte. -/
def bytePtr (byte : Byte) : UserPtr := fun index => if index = 0 then some byte else none

/-- A pointer to the four bytes of a word, in the byte order of the host, as the tool passes it
for a VNI. -/
def wordPtr (word : BitVec 32) : UserPtr := fun index =>
  if index < 4 then some (Words.byteAt word index) else none

@[simp] theorem get_user_byte_ptr (byte : Byte) : getUserByte (bytePtr byte) = ⟨byte, 0⟩ := rfl

@[simp] theorem get_user_word_ptr (word : BitVec 32) : getUserWord (wordPtr word) = ⟨word, 0⟩ := by
  have bytes : (![Words.byteAt word 0, Words.byteAt word 1, Words.byteAt word 2,
      Words.byteAt word 3] : Fin 4 → Byte) = fun index => Words.byteAt word index.val := by
    funext index
    match index with
    | 0 | 1 | 2 | 3 => rfl
  simp only [getUserWord, wordPtr, Nat.reduceLT, ↓reduceIte]
  rw [bytes, Words.littleEndian_byteAt]

/-- Storing core 3 inserts a catch-all entry although nothing was committed. The log of commits is
empty. -/
theorem set_irq_inserts :
    let calls : List IoctlCall := [⟨Request.initWildcards.code, nullPtr, true⟩,
      ⟨Request.setIrq.code, bytePtr 3, true⟩]
    (∀ call ∈ calls, call.kzalloc = true) ∧
      (run deviceStep moduleLoad calls).flowTable =
        [⟨{ zeroMatch with wildcards := ofpfwAll }, 3⟩] ∧
      snapshots (staged moduleLoad) (calls.map IoctlCall.command) = [] := by
  refine ⟨by decide, by decide, by decide⟩

/-- A client that stages a VNI and commits gets the one entry it asked for. -/
theorem commits_recorded :
    let calls : List IoctlCall := [⟨Request.initWildcards.code, nullPtr, true⟩,
      ⟨Request.setVni.code, wordPtr 10, true⟩, ⟨Request.setEntry.code, nullPtr, true⟩]
    (run deviceStep moduleLoad calls).flowTable =
      snapshots (staged moduleLoad) (calls.map IoctlCall.command) :=
  (table_snapshots_iff _ (by decide)).mpr (by decide)

end Table

section Faults

/-- The requests that read a value through the user pointer. The others never fault. -/
def isSetter : Request → Bool
  | .setDlInsrc | .setDlSrc | .setDlDst | .initWildcards | .setEntry => false
  | _ => true

/-- How many bytes a request reads: four for a VNI, and one for any other value. -/
def argWidth : Request → Nat
  | .setVni => 4
  | _ => 1

/-- Some byte that the request reads cannot be read, so that its `get_user` fails. -/
def Unreadable (request : Request) (arg : UserPtr) : Prop :=
  ∃ index < argWidth request, arg index = none

/-- The call reports an error and changes neither the staged rule nor the table. This is what a
caller could recover from. -/
def FaultAtomic (state : DeviceState) (outcome : Int × DeviceState) : Prop :=
  outcome.1 ≠ success ∧ staged outcome.2 = staged state ∧
    outcome.2.flowTable = state.flowTable

/-- A faulting byte read stores zero. -/
theorem get_user_byte_fault (arg : UserPtr) (fault : arg 0 = none) :
    (getUserByte arg).stored = 0 := by
  simp only [getUserByte, fault]

/-- A word read that faults anywhere stores zero. -/
theorem get_user_word_fault (arg : UserPtr) (index : Nat) (inside : index < 4)
    (fault : arg index = none) : (getUserWord arg).stored = 0 := by
  unfold getUserWord
  split
  case h_1 first second third fourth =>
    match index, inside with
    | 0, _ | 1, _ | 2, _ | 3, _ => simp_all
  case h_2 => rfl

/-- A faulting setter stages what it would for a pointer to zero bytes. So it cannot be told from
a setter that was given zero. -/
theorem faulting_command (request : Request) (setter : isSetter request = true)
    (arg : UserPtr) (fault : Unreadable request arg) :
    commandOf request.code arg = commandOf request.code (fun _ => some 0) := by
  obtain ⟨index, inside, missing⟩ := fault
  have zeroWord : (getUserWord (fun _ => some 0)).stored = 0 := by decide
  unfold commandOf
  rw [of_code_code]
  cases request <;> cases setter
  case setVni =>
    simp only [get_user_word_fault arg index inside missing, zeroWord]
  all_goals
    obtain rfl : index = 0 := by simpa [argWidth] using inside
    simp only [get_user_byte_fault arg missing]
    rfl

/-- No setter is atomic under a fault, in any state. The call returns `SUCCESS`, and it leaves the
device exactly as the same call with a pointer to zero bytes would: the fields it opens stay open,
and a core number of zero reaches the insertion.

Proof: `get_user` stores zero where it faults, and its status is dropped, so the dispatcher takes
the same path as for zero bytes. That path ends in `return SUCCESS`, while an atomic failure would
return an error. -/
theorem fault_never_atomic (request : Request) (setter : isSetter request = true)
    (arg : UserPtr) (fault : Unreadable request arg) (kzalloc : Bool) (state : DeviceState) :
    ¬ FaultAtomic state (vseDeviceIoctl request.code arg kzalloc state) ∧
      staged (vseDeviceIoctl request.code arg kzalloc state).2 =
        staged (vseDeviceIoctl request.code (fun _ => some 0) kzalloc state).2 ∧
      (vseDeviceIoctl request.code arg kzalloc state).2.flowTable =
        (vseDeviceIoctl request.code (fun _ => some 0) kzalloc state).2.flowTable := by
  have command := faulting_command request setter arg fault
  refine ⟨?_, ?_, ?_⟩
  · rintro ⟨failed, _⟩
    exact failed (ioctl_success request.code arg kzalloc state)
  · rw [ioctl_staged, ioctl_staged, command]
  · rw [ioctl_flow_table, ioctl_flow_table, command]

/-- A byte setter whose pointer is null opens a zero address instead of failing. -/
theorem null_address_opens :
    (vseDeviceIoctl Request.setDlDst6.code nullPtr true moduleLoad).1 = success ∧
      ¬ FaultAtomic moduleLoad (vseDeviceIoctl Request.setDlDst6.code nullPtr true moduleLoad) :=
  ⟨rfl, (fault_never_atomic .setDlDst6 rfl nullPtr ⟨0, by decide, rfl⟩ true moduleLoad).1⟩

/-- A faulting core number steers every packet to core 0: the entry is inserted with a number that
nobody gave. -/
theorem null_core_inserts :
    let state := deviceStep moduleLoad ⟨Request.initWildcards.code, nullPtr, true⟩
    isSetter .setIrq = true ∧ Unreadable .setIrq nullPtr ∧
      (vseDeviceIoctl Request.setIrq.code nullPtr true state).1 = success ∧
      (vseDeviceIoctl Request.setIrq.code nullPtr true state).2.flowTable =
        [⟨{ zeroMatch with wildcards := ofpfwAll }, 0⟩] :=
  ⟨rfl, ⟨0, by decide, rfl⟩, rfl, by decide⟩

end Faults

section ReturnCodes

/-- The request has an arm in the dispatcher's switch. The outer source address and its kin are
declared without one. -/
def isHandled : Request → Bool
  | .setDlInsrc | .setDlSrc | .setDlDst => false
  | _ => true

/-- The code belongs to a request with an arm, so that the call does what it is there for. -/
def Handled (cmd : BitVec 32) : Prop := ∃ request, isHandled request = true ∧ cmd = request.code

/-- How many commits of a run returned `SUCCESS`, which is what a client can count. -/
def successfulCommits : DeviceState → List IoctlCall → Nat
  | _, [] => 0
  | state, call :: rest =>
      (if call.cmd = Request.setEntry.code ∧ returned state call = success then 1 else 0) +
        successfulCommits (deviceStep state call) rest

/-- What a failing commit owes its caller: an error, and the device as it was. -/
def CommitReports (state : DeviceState) (call : IoctlCall) : Prop :=
  call.cmd = Request.setEntry.code → call.kzalloc = false →
    returned state call ≠ success ∧ (deviceStep state call).flowTable = state.flowTable ∧
      staged (deviceStep state call) = staged state

/-- What a call without an arm owes its caller: an error, as nothing was done. -/
def UnhandledReports (state : DeviceState) (call : IoctlCall) : Prop :=
  ¬ Handled call.cmd → returned state call ≠ success

/-- The return codes of a run from module load tell the truth: as many entries as
successful commits, and an error for every failing commit and unhandled code. -/
structure Honest (calls : List IoctlCall) : Prop where
  counted : (run deviceStep moduleLoad calls).flowTable.length = successfulCommits moduleLoad calls
  commits : Along deviceStep CommitReports moduleLoad calls
  unhandled : Along deviceStep UnhandledReports moduleLoad calls

theorem successful_commits_eq (state : DeviceState) (calls : List IoctlCall) :
    successfulCommits state calls =
      calls.countP (fun call => decide (call.cmd = Request.setEntry.code)) := by
  induction calls generalizing state with
  | nil => rfl
  | cons call rest inductionHypothesis =>
    have succeeded : returned state call = success := rfl
    rw [successfulCommits, inductionHypothesis, List.countP_cons]
    simp only [succeeded, and_true, decide_eq_true_eq, Nat.add_comm]

/-- Without stored core numbers the table grows by the commits whose allocation
succeeds. -/
theorem run_table_length (state : DeviceState) (calls : List IoctlCall)
    (noCore : ∀ call ∈ calls, call.cmd ≠ Request.setIrq.code) :
    (run deviceStep state calls).flowTable.length = state.flowTable.length +
      calls.countP (fun call => decide (call.cmd = Request.setEntry.code) && call.kzalloc) := by
  induction calls generalizing state with
  | nil => rfl
  | cons call rest inductionHypothesis =>
    have head := noCore call List.mem_cons_self
    have later := inductionHypothesis (deviceStep state call)
      (fun other member => noCore other (List.mem_cons_of_mem call member))
    have inserts : (commandOf call.cmd call.arg).inserts =
        decide (call.cmd = Request.setEntry.code) := by
      rw [Bool.eq_iff_iff, command_inserts_iff, decide_eq_true_eq, or_iff_right head]
    rw [run_cons, later, deviceStep, ioctl_flow_table, inserts, List.countP_cons]
    cases (decide (call.cmd = Request.setEntry.code) && call.kzalloc) with
    | true =>
      simp only [↓reduceIte, List.length_cons]
      omega
    | false => simp only [Bool.false_eq_true, ↓reduceIte, Nat.add_zero]

/-- A commit reports its failure only by not failing: it returns `SUCCESS` always, so it tells the
truth exactly when there is memory. -/
theorem commit_reports_iff (state : DeviceState) (call : IoctlCall) :
    CommitReports state call ↔ (call.cmd = Request.setEntry.code → call.kzalloc = true) := by
  constructor
  · intro reports isCommit
    by_contra failed
    exact (reports isCommit (by simpa only [Bool.not_eq_true] using failed)).1 rfl
  · intro succeeds isCommit failed
    rw [succeeds isCommit] at failed
    cases failed

/-- A code without an arm returns `SUCCESS` too, so the report is true exactly for the codes with
an arm. -/
theorem unhandled_reports_iff (state : DeviceState) (call : IoctlCall) :
    UnhandledReports state call ↔ Handled call.cmd := by
  constructor
  · intro reports
    by_contra missing
    exact reports missing rfl
  · intro handled missing
    exact absurd handled missing

/-- The return codes of a run that stores no core number are honest exactly when every commit's
allocation succeeds and every code has an arm. Elsewhere the dispatcher's common `return SUCCESS`
hides the failure.

Proof: every commit counts as successful, while the table grows by those that find memory; the two
numbers agree when all do. For a single call the report is true under the condition and false
otherwise. -/
theorem honest_iff (calls : List IoctlCall)
    (noCore : ∀ call ∈ calls, call.cmd ≠ Request.setIrq.code) :
    Honest calls ↔ ∀ call ∈ calls,
      (call.cmd = Request.setEntry.code → call.kzalloc = true) ∧ Handled call.cmd := by
  have commits : Along deviceStep CommitReports moduleLoad calls ↔
      ∀ call ∈ calls, call.cmd = Request.setEntry.code → call.kzalloc = true :=
    (along_congr deviceStep _ _ commit_reports_iff moduleLoad calls).trans
      (along_const_iff deviceStep _ moduleLoad calls)
  have handled : Along deviceStep UnhandledReports moduleLoad calls ↔
      ∀ call ∈ calls, Handled call.cmd :=
    (along_congr deviceStep _ _ unhandled_reports_iff moduleLoad calls).trans
      (along_const_iff deviceStep _ moduleLoad calls)
  constructor
  · intro honest call member
    exact ⟨commits.mp honest.commits call member, handled.mp honest.unhandled call member⟩
  · intro good
    have allocated : ∀ call ∈ calls, call.cmd = Request.setEntry.code → call.kzalloc = true :=
      fun call member => (good call member).1
    refine ⟨?_, commits.mpr allocated, handled.mpr fun call member => (good call member).2⟩
    have same : calls.countP
          (fun call => decide (call.cmd = Request.setEntry.code) && call.kzalloc) =
        calls.countP (fun call => decide (call.cmd = Request.setEntry.code)) := by
      apply List.countP_congr
      intro call member
      simp only [Bool.and_eq_true, decide_eq_true_eq, and_iff_left_iff_imp]
      exact allocated call member
    rw [run_table_length moduleLoad calls noCore, successful_commits_eq, same]
    exact Nat.zero_add _

/-- A commit without memory returns `SUCCESS` and adds nothing, and so does the declared request
to match the outer source address, which has no arm. -/
theorem failing_commit_reports_success :
    let call : IoctlCall := ⟨Request.setEntry.code, nullPtr, false⟩
    let other : IoctlCall := ⟨Request.setDlSrc.code, bytePtr 1, true⟩
    (∀ made ∈ [call, other], made.cmd ≠ Request.setIrq.code) ∧
      returned moduleLoad call = success ∧ returned moduleLoad other = success ∧
      (run deviceStep moduleLoad [call, other]).flowTable.length = 0 ∧
      successfulCommits moduleLoad [call, other] = 1 ∧ ¬ Honest [call, other] := by
  refine ⟨by decide, rfl, rfl, by decide, by decide, ?_⟩
  intro honest
  exact absurd honest.counted (by decide)

/-- A run whose commit finds memory is honest, and leaves the one entry that was committed. -/
theorem commit_is_honest : Honest [⟨Request.initWildcards.code, nullPtr, true⟩,
    ⟨Request.setVni.code, wordPtr 10, true⟩, ⟨Request.setEntry.code, nullPtr, true⟩] := by
  refine (honest_iff _ (by decide)).mpr ?_
  simp only [List.mem_cons, List.not_mem_nil, or_false, forall_eq_or_imp, forall_eq]
  exact ⟨⟨by decide, .initWildcards, rfl, rfl⟩, ⟨by decide, .setVni, rfl, rfl⟩,
    ⟨by decide, .setEntry, rfl, rfl⟩⟩

end ReturnCodes

end Vse.StagedCommands

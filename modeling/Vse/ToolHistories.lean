import Vse.Classification
import Vse.RulePolicies
import Vse.ToolContracts

/-!
# Many runs of the tool

Rules come into the table by runs of the tool, one after the other, with any words on their command
lines. Whatever the words, a run leaves the device free for the next one and the older entries in
their place.

The tool never sends a VM_ID, and it starts every rule. So the entries it inserts are never compared
with the byte behind the unassigned pointer: on a table that the tool built, no look-up follows it.

Where the command lines are well formed, what the table does to a packet can be read off them: each
line decides on the packets that it applies to, and the others are as the earlier lines left them.
-/

namespace Vse.ToolHistories

open CStrings SocketBuffer Words FlowTable Matching Device StagedCommands Conditions CommandLine
  SetEntryTool WordReading ToolContracts ModuleRuns PacketSteering RulePolicies OrderedRules Runs
  Classification LiveRules VniDecoding

/-- A run of the tool: its command line, which allocations in the driver succeed, and what is in
its address buffer before `sscanf` first writes to it. -/
structure ToolRun where
  argv : List CString
  kzalloc : Nat → Bool
  dl : Mac

/-- What a run of the tool leaves of the device, however it ends. A run that is killed leaves it
as the kernel finds it after the close. -/
def afterRun (device : DeviceState) (toolRun : ToolRun) : DeviceState :=
  (runTool toolRun.kzalloc toolRun.argv toolRun.dl device).2

section AnyWords

/-- A match that is compared with the packet alone: every field that it restricts is one that the
code reads from the frame, and VM_ID is not among them. -/
def Tame (vseMatch : VseMatch) : Prop := Comparable vseMatch ∧ ¬ Restricts ofpfwVmId vseMatch

instance (vseMatch : VseMatch) : Decidable (Tame vseMatch) := inferInstanceAs (Decidable (_ ∧ _))

/-- Opening a field that the packet decides keeps a match tame. -/
theorem tame_open_field (vseMatch stored : VseMatch) (position : Nat)
    (asked : position ∈ [3, 8, 10]) (same : stored.wildcards = vseMatch.wildcards)
    (tame : Tame vseMatch) : Tame (openField (flag 32 position) stored) := by
  obtain ⟨comparable, noVmId⟩ := tame
  have tested : ~~~flag 32 position ||| testedFlags = BitVec.allOnes 32 := by
    revert asked position
    decide
  have inside : position < 32 ∧ 21 ≠ position := by
    revert asked position
    decide
  constructor
  · rw [Comparable, openField, same, and_not_or_of_within _ _ _ tested]
    exact comparable
  · have isClear := restricts_iff_clear 21 (by decide)
    refine mt (isClear _).mp ?_
    rw [openField, same, clear_and_not_flag _ _ _ inside.1]
    exact not_or.mpr ⟨mt (isClear _).mpr noVmId, inside.2⟩

/-- All commands of the tool's options keep a match tame, as none of them is `SET_VM_ID` and each
opens a field that is read from the packet. -/
theorem tame_stage (before : Staged) (command : Command)
    (option : (optionOfCommand command).isSome = true) (tame : Tame before.entryMatch) :
    Tame (stage before command).entryMatch := by
  cases command with
  | setVni word => exact tame_open_field before.entryMatch _ 8 (by decide) rfl tame
  | setIrq byte => exact tame
  | setDlIndst index byte =>
    rw [stage]
    by_cases last : index = 5
    · rw [if_pos last]
      exact tame_open_field before.entryMatch _ 10 (by decide) rfl tame
    · rw [if_neg last]
      exact tame
  | setDlDst index byte =>
    rw [stage]
    by_cases last : index = 5
    · rw [if_pos last]
      exact tame_open_field before.entryMatch _ 3 (by decide) rfl tame
    · rw [if_neg last]
      exact tame
  | initWildcards => cases option
  | setVmId byte => cases option
  | setEntry => cases option
  | unhandled => cases option

/-- A staged rule and its entry leave the same fields open, so that what is tame when it is staged
is tame in the table. -/
theorem tame_entry (rule : Staged) (tame : Tame rule.entryMatch) : Tame rule.entry.vseMatch := by
  rw [Staged.entry, Tame, Comparable, restricts_projected, set_entry_match_eq]
  exact tame

variable (kzalloc : Nat → Bool)

/-- Calls leave the open count alone. -/
theorem driver_open (driver : Driver) (made : List (Request × UserPtr)) :
    (run (call kzalloc) driver made).device.deviceOpen = driver.device.deviceOpen := by
  induction made generalizing driver with
  | nil => rfl
  | cons input rest inductionHypothesis =>
    rw [run_cons, inductionHypothesis]
    exact ioctl_device_open _ _ _ _

/-- The calls of a session add tame entries. -/
theorem session_adds (argv : List CString) (dl : Mac) (driver : Driver) :
    ∃ new, (run (call kzalloc) driver (sessionRequests dl argv)).device.flowTable =
        new ++ driver.device.flowTable ∧
      ∀ entry ∈ new, Tame entry.vseMatch := by
  obtain ⟨_, new, table, ruled⟩ := driver_adds kzalloc (fun rule => Tame rule.entryMatch)
    (.initWildcards, nullPtr) (requestsOf dl (readFrom OptionName.all argv).taken ++
      if (readFrom OptionName.all argv).complete then [(.setEntry, nullPtr)] else [])
    (by
      intro before
      exact (by decide : Tame { zeroMatch with wildcards := ofpfwAll }))
    (by
      intro input member before tame
      rcases List.mem_append.mp member with option | commit
      · obtain ⟨pair, _, held, made⟩ := mem_requests_of dl _ input option
        apply tame_stage before _ _ tame
        rw [requests_command held pair.1 pair.2 input made]
        rfl
      · split at commit
        · obtain rfl := List.mem_singleton.mp commit
          exact tame
        · cases commit)
    driver
  refine ⟨new, table, ?_⟩
  intro entry member
  obtain ⟨rule, tame, rfl⟩ := ruled entry member
  exact tame_entry rule tame

/-- A run with any words leaves an idle device idle and puts tame entries in front of the others,
whether it exits or is killed at an option that ends its words. -/
theorem run_adds (device : DeviceState) (toolRun : ToolRun) (idle : device.deviceOpen = 0) :
    (afterRun device toolRun).deviceOpen = 0 ∧
      ∃ new, (afterRun device toolRun).flowTable = new ++ device.flowTable ∧
        ∀ entry ∈ new, Tame entry.vseMatch := by
  obtain ⟨argv, kzalloc, dl⟩ := toolRun
  by_cases few : argv.length < 2
  · rw [afterRun, run_tool_usage kzalloc argv dl device few]
    exact ⟨idle, [], rfl, nofun⟩
  · rw [afterRun, run_tool_reads kzalloc argv dl device (Nat.not_lt.mp few) idle]
    rw [device_open_free device idle]
    obtain ⟨new, table, tame⟩ := session_adds kzalloc argv dl
      ⟨{ device with deviceOpen := device.deviceOpen + 1 }, 0⟩
    refine ⟨?_, new, table, tame⟩
    have held := driver_open kzalloc ⟨{ device with deviceOpen := device.deviceOpen + 1 }, 0⟩
      (sessionRequests dl argv)
    rw [deviceRelease, held, idle]
    rfl

theorem runs_add (device : DeviceState) (toolRuns : List ToolRun) (idle : device.deviceOpen = 0) :
    (run afterRun device toolRuns).deviceOpen = 0 ∧
      ∃ new, (run afterRun device toolRuns).flowTable = new ++ device.flowTable ∧
        ∀ entry ∈ new, Tame entry.vseMatch := by
  induction toolRuns generalizing device with
  | nil => exact ⟨idle, [], rfl, nofun⟩
  | cons toolRun rest inductionHypothesis =>
    obtain ⟨idleAfter, first, table, tameFirst⟩ := run_adds device toolRun idle
    obtain ⟨idleLast, later, tableLater, tameLater⟩ :=
      inductionHypothesis (afterRun device toolRun) idleAfter
    refine ⟨idleLast, later ++ first, ?_, ?_⟩
    · rw [run_cons, tableLater, table, List.append_assoc]
    · intro entry member
      rcases List.mem_append.mp member with newer | older
      · exact tameLater entry newer
      · exact tameFirst entry older

theorem load_bytes_not_stray (count : Nat) (skb : SkBuff) (offset : Nat) :
    Traced.Within (· ≠ .stray) (loadBytes count skb offset) := by
  intro access read
  obtain ⟨index, _, rfl⟩ := List.mem_map.mp read
  exact Access.noConfusion

/-- A match without VM_ID is tested alike whatever the stray byte, which is not read: the only
access through the unassigned pointer is behind the test of VM_ID's wildcard bit. -/
theorem do_match_tame (vseMatch : VseMatch) (tame : Tame vseMatch) (skb : SkBuff)
    (nwTos other : Byte) :
    vseDoMatch nwTos skb vseMatch = vseDoMatch other skb vseMatch ∧
      Traced.Within (· ≠ .stray) (vseDoMatch nwTos skb vseMatch) := by
  have passed : ¬ (~~~vseMatch.wildcards &&& ofpfwVmId ≠ 0) := tame.2
  constructor
  · simp only [vseDoMatch, testField, if_neg passed]
  · have covered : ¬ Clear vseMatch.wildcards 21 :=
      mt (restricts_iff_clear 21 (by decide) vseMatch).mpr tame.2
    have vni : Traced.Within (· ≠ .stray) (vseGetVxlanVni (skbResetNetworkHeader skb)) := by
      simp only [vseGetVxlanVni, loadWord, Traced.within_bind, load_bytes_not_stray,
        Traced.within_pure, and_self]
    have address (mac : Mac) (offset : Nat) :
        Traced.Within (· ≠ .stray) (macDiffers mac (skbResetNetworkHeader skb) offset) := by
      simp only [macDiffers, Traced.within_bind, load_bytes_not_stray, Traced.within_pure,
        and_self]
    simp only [vseDoMatch, ofpfwVmId, ofpfwDlDst, ofpfwVxlanVni, ofpfwDlIndst,
      Traced.within_bind, within_test_field, Nat.reduceLT, covered, vni, address,
      Traced.within_pure, false_implies, implies_true, and_self]

/-- So is a table of such matches, whatever byte each call of the matcher would find. -/
theorem look_up_tame (table : List VseFlowEntry) (tame : ∀ entry ∈ table, Tame entry.vseMatch)
    (skb : SkBuff) (nwTos other : Nat → Byte) :
    vseLookUpFlowEntry nwTos skb table = vseLookUpFlowEntry other skb table ∧
      Traced.Within (· ≠ .stray) (vseLookUpFlowEntry nwTos skb table) := by
  induction table generalizing skb with
  | nil => exact ⟨rfl, Traced.within_pure _ _⟩
  | cons entry rest inductionHypothesis =>
    obtain ⟨tameFirst, tameRest⟩ := List.forall_mem_cons.mp tame
    obtain ⟨same, within⟩ := do_match_tame entry.vseMatch tameFirst skb (nwTos rest.length)
      (other rest.length)
    obtain ⟨sameRest, withinRest⟩ := inductionHypothesis tameRest (skbResetNetworkHeader skb)
    have tested : (vseDoMatch (other rest.length) skb entry.vseMatch).value.2 =
        skbResetNetworkHeader skb := rfl
    constructor
    · rw [vseLookUpFlowEntry, vseLookUpFlowEntry, same]
      simp only [bind, tested, sameRest]
    · rw [within_look_up_cons]
      exact ⟨within, fun _ => withinRest⟩

/-- Which packets a tame match can accept: with VM_ID open only a VNI that no packet has keeps an
entry from being found. -/
theorem live_tame (vseMatch : VseMatch) (tame : Tame vseMatch) :
    Live vseMatch ↔ (Restricts ofpfwVxlanVni vseMatch → Decodable vseMatch.vxVni) := by
  rw [live_iff]
  constructor
  · rintro ⟨_, _, vni⟩
    exact vni
  · intro vni
    exact ⟨tame.1, fun restricted => absurd restricted tame.2, vni⟩

/-- Whatever words the tool is run with, one run after the other on a module that was just loaded,
the device is free again. No packet is then looked up by way of the unassigned pointer, nor does
what it leads to change anything, and an entry can be found unless it asks for a VNI that no
packet has.

Proof: the first call of a session clears what was staged, and every command of an option keeps
the staged match tame, so each session inserts tame entries only. By induction over the runs the
whole table is tame and the device idle. A tame match never reaches the test of VM_ID, the one
place that reads by way of the pointer. -/
theorem tool_tables_read_nothing_stray (toolRuns : List ToolRun) :
    let device := run afterRun moduleLoad toolRuns
    device.deviceOpen = 0 ∧
      (∀ nwTos other skb rps,
        Traced.Within (· ≠ .stray) (vseHandleData nwTos skb rps device.flowTable) ∧
        vseHandleData nwTos skb rps device.flowTable =
          vseHandleData other skb rps device.flowTable) ∧
      ∀ entry ∈ device.flowTable, Live entry.vseMatch ↔
        (Restricts ofpfwVxlanVni entry.vseMatch → Decodable entry.vseMatch.vxVni) := by
  intro device
  obtain ⟨idle, new, table, tameNew⟩ := runs_add moduleLoad toolRuns rfl
  have tame : ∀ entry ∈ device.flowTable, Tame entry.vseMatch := by
    intro entry member
    apply tameNew entry
    rwa [show device.flowTable = new ++ [] from table, List.append_nil] at member
  refine ⟨idle, ?_, fun entry member => live_tame entry.vseMatch (tame entry member)⟩
  intro nwTos other skb rps
  obtain ⟨same, within⟩ := look_up_tame device.flowTable tame (withMacHeader skb) nwTos other
  constructor
  · rw [vseHandleData, Traced.within_bind]
    refine ⟨within, ?_⟩
    rcases (vseLookUpFlowEntry nwTos (withMacHeader skb) device.flowTable).value with ⟨_ | entry, _⟩
    · exact Traced.within_pure _ _
    · exact Traced.within_pure _ _
  · rw [vseHandleData, vseHandleData, same]

end AnyWords

section Lines

instance (skb : SkBuff) : (condition : Condition) → Decidable (condition.Holds skb)
  | .vni _ => inferInstanceAs (Decidable (_ = _))
  | .dlIndst _ | .dlDst _ => inferInstanceAs (Decidable ((_ : Mac) = _))

/-- A run of a well-formed command line. -/
structure LineRun where
  line : Invocation
  kzalloc : Nat → Bool
  dl : Mac

def LineRun.toolRun (lineRun : LineRun) : ToolRun :=
  ⟨lineRun.line.argv, lineRun.kzalloc, lineRun.dl⟩

/-- The line decides on the packets that meet the conditions named before its core, as the core
number inserts an entry, and on those that meet all of them, as the commit inserts another.
Either may fail for want of memory. -/
def LineRun.applies (skb : SkBuff) (lineRun : LineRun) : Bool :=
  decide ((lineRun.kzalloc lineRun.line.coreCall = true ∧
      ∀ condition ∈ lineRun.line.earlyConditions, condition.Holds skb) ∨
    (lineRun.kzalloc lineRun.line.commitCall = true ∧
      ∀ condition ∈ lineRun.line.conditions, condition.Holds skb))

/-- The core that lines name for a packet, which is that of the first of them that applies. The
lines are given with the last one run in front. -/
def named (skb : SkBuff) (lineRuns : List LineRun) : Option Byte :=
  decision (LineRun.applies skb) (fun lineRun => lineRun.line.coreByte) lineRuns

variable (nwTos : Nat → Byte) (skb : SkBuff)

/-- The entries of a line decide on the packets that meet the conditions of one of them, and leave
the others to the table behind. Both name the line's core, so it does not matter which of the two
accepts. -/
theorem inserted_core (line : Invocation) (commit stores : Prop) [Decidable commit]
    [Decidable stores] (table : List VseFlowEntry) :
    core nwTos skb (insertedTable line commit stores ++ table) =
      (if (stores ∧ ∀ condition ∈ line.earlyConditions, condition.Holds (withMacHeader skb)) ∨
          (commit ∧ ∀ condition ∈ line.conditions, condition.Holds (withMacHeader skb))
        then some line.coreByte else none).or (core nwTos skb table) := by
  -- The entries of the line are told apart by numbers that count on from the table's.
  have found := inserted_table_found line commit stores
    (fun number => nwTos (number + table.length)) (withMacHeader skb)
  have named := inserted_table_core line commit stores
    (fun number => nwTos (number + table.length)) (withMacHeader skb)
  rw [or_comm] at found
  rw [core_append, core_eq_found]
  refine congrArg (Option.or · _) ?_
  simp only [← found]
  cases looked : (vseLookUpFlowEntry (fun number => nwTos (number + table.length))
      (withMacHeader skb) (insertedTable line commit stores)).value.1 with
  | none => rfl
  | some entry =>
    have byte : line.coreByte = entry.irq := by
      rw [Invocation.coreByte, ← named entry looked, BitVec.ofNat_toNat, BitVec.setWidth_eq]
    rw [byte]
    rfl

/-- What a line leaves on an idle device: the commit's entry in front of the core number's, each
there if memory for it was found, and the old table behind them. -/
theorem table_after_idle (line : Invocation) (kzalloc : Nat → Bool) (dl : Mac)
    (device : DeviceState) (idle : device.deviceOpen = 0) :
    (runTool kzalloc line.argv dl device).2.flowTable =
      insertedTable line (kzalloc line.commitCall = true) (kzalloc line.coreCall = true) ++
        device.flowTable := by
  rw [table_after, insertedTable, List.append_assoc]
  simp only [idle, true_and]

/-- A line on an idle device decides on the packets that it applies to, and on no others. -/
theorem line_core (device : DeviceState) (lineRun : LineRun) (idle : device.deviceOpen = 0) :
    core nwTos skb (afterRun device lineRun.toolRun).flowTable =
      (named (withMacHeader skb) [lineRun]).or (core nwTos skb device.flowTable) := by
  obtain ⟨line, kzalloc, dl⟩ := lineRun
  rw [LineRun.toolRun, afterRun, table_after_idle line kzalloc dl device idle, inserted_core, named,
    decision_singleton]
  simp only [LineRun.applies, decide_eq_true_eq]

/-- Lines run one after the other decide on the packets that they apply to, the last one first. -/
theorem lines_core (device : DeviceState) (lineRuns : List LineRun) (idle : device.deviceOpen = 0) :
    core nwTos skb (run afterRun device (lineRuns.map LineRun.toolRun)).flowTable =
      (named (withMacHeader skb) lineRuns.reverse).or (core nwTos skb device.flowTable) := by
  induction lineRuns generalizing device with
  | nil => rfl
  | cons lineRun rest inductionHypothesis =>
    have idleAfter := (run_adds device lineRun.toolRun idle).1
    rw [List.map_cons, run_cons, inductionHypothesis _ idleAfter,
      line_core nwTos skb device lineRun idle, List.reverse_cons, named, named, named,
      decision_append, Option.or_assoc]

/-- The core that the table decides on is the packet's new hash and goes to its slots. -/
theorem handle_data_outcome (rps : RpsTables) (table : List VseFlowEntry) :
    (vseHandleData nwTos skb rps table).value.1.rxhash =
        ((core nwTos skb table).map (BitVec.setWidth 32)).getD skb.rxhash ∧
      (vseHandleData nwTos skb rps table).value.2 =
        ((core nwTos skb table).map fun irq => (vseSetSockFlowTable skb rps irq).2).getD rps := by
  obtain ⟨packet, rxhash⟩ := looked_up_packet table nwTos skb
  rw [look_up_skb] at packet rxhash
  rw [handle_data_value]
  cases decided : core nwTos skb table with
  | none => exact ⟨rxhash, rfl⟩
  | some irq =>
    exact ⟨rfl, congrArg Prod.snd (set_sock_flow_table_congr skb _ rps irq packet.queueMapping)⟩

/-- Well-formed lines, run one after the other with the device idle, steer as they say. A packet
goes to the core of the last line that decides on it; where none does, it goes as the table before
them sent it. The device is idle again.

Proof: by induction on the lines, with the last one run in front. One line on an idle device puts
its entries in front of the table, and they accept exactly the packets that the line applies to;
each run leaves the device idle for the next. What a handled packet shows of the look-up is its
hash and slots, and both come from the core that the table decides on. -/
theorem lines_decide (device : DeviceState) (lineRuns : List LineRun)
    (idle : device.deviceOpen = 0) :
    let after := run afterRun device (lineRuns.map LineRun.toolRun)
    after.deviceOpen = 0 ∧ ∀ nwTos skb rps,
      let steered := vseHandleData nwTos skb rps after.flowTable
      let decided := (named (withMacHeader skb) lineRuns.reverse).or
        (core nwTos skb device.flowTable)
      steered.value.1.rxhash = (decided.map (BitVec.setWidth 32)).getD skb.rxhash ∧
        steered.value.2 =
          (decided.map fun irq => (vseSetSockFlowTable skb rps irq).2).getD rps := by
  intro after
  refine ⟨(runs_add device _ idle).1, ?_⟩
  intro nwTos skb rps steered decided
  have outcome := handle_data_outcome nwTos skb rps after.flowTable
  rwa [lines_core nwTos skb device lineRuns idle] at outcome

/-- `--vni 10 --irq 3` and then `--irq 3 --vni 10`: the second line decides on a packet of any VNI,
as its core number comes first. -/
theorem two_lines_decide :
    let lineRuns : List LineRun :=
      [⟨coreLast, fun _ => true, fun _ => 0⟩, ⟨coreFirst, fun _ => true, fun _ => 0⟩]
    let table := (run afterRun moduleLoad (lineRuns.map LineRun.toolRun)).flowTable
    ((vseHandleData (fun _ => 0) zeroFrame ⟨oneQueueDevice, none⟩ table).value.1.rxhash) = 3 := by
  intro lineRuns table
  exact ((lines_decide moduleLoad lineRuns rfl).2 (fun _ => 0) zeroFrame
    ⟨oneQueueDevice, none⟩).1

end Lines

section Switches

variable (line : Invocation) (kzalloc : Nat → Bool) (device : DeviceState)

/-- The calls of a line before its core number. -/
def frontCalls : List (Request × UserPtr) :=
  (.initWildcards, nullPtr) :: line.before.flatMap Setting.requests

/-- Its calls between the core number and the commit. -/
def backCalls : List (Request × UserPtr) := line.after.flatMap Setting.requests

/-- All calls of the line. -/
def lineCalls : List (Request × UserPtr) :=
  frontCalls line ++ (.setIrq, wordPtr (atoi line.core.text)) ::
    (backCalls line ++ [(.setEntry, nullPtr)])

/-- The state that packets meet when they come after the given number of the session's calls. -/
def reached (count : Nat) : DeviceState :=
  (run (call kzalloc) ⟨(deviceOpen device).2, 0⟩ ((lineCalls line).take count)).device

/-- These are the calls that the tool makes. -/
theorem line_calls_eq : lineCalls line = (.initWildcards, nullPtr) ::
    (line.before.flatMap Setting.requests ++ ([(.setIrq, wordPtr (atoi line.core.text))] ++
      line.after.flatMap Setting.requests) ++ [(.setEntry, nullPtr)]) := by
  simp only [lineCalls, frontCalls, backCalls, List.cons_append, List.append_assoc,
    List.nil_append]

/-- Up to the core number there are as many calls as its place says. -/
theorem front_length : (frontCalls line).length = line.coreCall := by
  rw [frontCalls, List.length_cons, Invocation.coreCall, Nat.add_comm]

/-- None of the calls before the core number inserts anything. -/
theorem front_quiet (driver : Driver) (count : Nat) :
    (run (call kzalloc) driver ((frontCalls line).take count)).device.flowTable =
      driver.device.flowTable := by
  apply driver_quiet
  intro input member
  rcases List.mem_cons.mp (List.mem_of_mem_take member) with rfl | later
  · rfl
  · obtain ⟨setting, _, made⟩ := List.mem_flatMap.mp later
    exact setting_quiet setting input made

theorem back_quiet (driver : Driver) (count : Nat) :
    (run (call kzalloc) driver ((backCalls line).take count)).device.flowTable =
      driver.device.flowTable := by
  apply driver_quiet
  intro input member
  obtain ⟨setting, _, made⟩ := List.mem_flatMap.mp (List.mem_of_mem_take member)
  exact setting_quiet setting input made

/-- Each of the two entries is there from its call on, if there is memory for it. -/
theorem reached_table (count : Nat) :
    (reached line kzalloc device count).flowTable =
      insertedTable line (line.commitCall < count ∧ kzalloc line.commitCall = true)
        (line.coreCall < count ∧ kzalloc line.coreCall = true) ++ device.flowTable := by
  have opened := device_open_table device
  have places : line.commitCall = line.coreCall + 1 + (backCalls line).length := rfl
  rw [reached, insertedTable, List.append_assoc]
  rcases Nat.lt_or_ge line.commitCall count with all | some
  · have stored : line.coreCall < count := by omega
    have whole : (lineCalls line).length ≤ count := by
      simp only [lineCalls, List.length_append, List.length_cons, front_length, List.length_nil]
      omega
    rw [List.take_of_length_le whole, line_calls_eq, session_table kzalloc line _ rfl, opened]
    simp only [all, stored, true_and]
  · rw [lineCalls, List.take_append, front_length, if_neg (fun both => absurd both.1 (by omega))]
    rcases Nat.lt_or_ge line.coreCall count with stored | early
    · obtain ⟨more, rest⟩ : ∃ more, count - line.coreCall = more + 1 :=
        ⟨count - line.coreCall - 1, by omega⟩
      obtain ⟨stagedBefore, tableBefore, calls⟩ :=
        staged_before_core kzalloc line ⟨(deviceOpen device).2, 0⟩
      have added := (core_call kzalloc line _ _ _ stagedBefore).2
      have none : more - (backCalls line).length = 0 := by omega
      rw [rest, List.take_succ_cons, List.take_append, none, List.take_zero, List.append_nil,
        List.take_of_length_le (by rw [front_length]; omega), run_append, run_cons, back_quiet,
        frontCalls, added, calls, tableBefore, opened]
      simp only [stored, true_and, Nat.zero_add]
      rfl
    · have none : count - line.coreCall = 0 := by omega
      rw [none, List.take_zero, List.append_nil, front_quiet, opened,
        if_neg (fun both => absurd both.1 (by omega))]
      rfl

theorem inserted_none (commit stores : Prop) [Decidable commit] [Decidable stores]
    (noCommit : ¬ commit) (noCore : ¬ stores) : insertedTable line commit stores = [] := by
  rw [insertedTable, if_neg noCommit, if_neg noCore]
  rfl

/-- A packet that meets all conditions of a line meets those named before its core, so the core
number's entry accepts whatever the commit's accepts. -/
theorem early_of_all (skb : SkBuff)
    (holds : ∀ condition ∈ line.conditions, condition.Holds skb) :
    ∀ condition ∈ line.earlyConditions, condition.Holds skb := by
  intro condition member
  apply holds condition
  rw [conditions_eq]
  exact List.mem_append_left _ member

/-- The look-up of a packet shows nothing of a table but whether it is empty and the core that it
decides on: an empty table is not asked at all. -/
theorem handled_alike (nwTos : Nat → Byte) (skb : SkBuff) (rps : RpsTables)
    (table other : List VseFlowEntry) (empty : table = [] ↔ other = [])
    (same : core nwTos skb table = core nwTos skb other) :
    (vseHandleData nwTos skb rps table).value = (vseHandleData nwTos skb rps other).value := by
  rw [handle_data_value, handle_data_value, same]
  simp only [empty]

/-- Tables that no packet can tell apart, whatever is read through the unassigned pointer while it
is looked up. -/
structure Alike (table other : List VseFlowEntry) : Prop where
  empty : table = [] ↔ other = []
  cores : ∀ nwTos skb, core nwTos skb table = core nwTos skb other

theorem Alike.refl (table : List VseFlowEntry) : Alike table table := ⟨Iff.rfl, fun _ _ => rfl⟩

theorem Alike.trans {table other third : List VseFlowEntry} (first : Alike table other)
    (second : Alike other third) : Alike table third := by
  refine ⟨first.empty.trans second.empty, ?_⟩
  intro nwTos skb
  exact (first.cores nwTos skb).trans (second.cores nwTos skb)

/-- The core that tame entries decide on does not depend on any stray byte. -/
theorem core_tame (table : List VseFlowEntry) (tame : ∀ entry ∈ table, Tame entry.vseMatch)
    (nwTos other : Nat → Byte) (skb : SkBuff) : core nwTos skb table = core other skb table := by
  rw [core_eq_found, core_eq_found, (look_up_tame table tame (withMacHeader skb) nwTos other).1]

/-- Alike tables stay alike with the same tame entries in front. -/
theorem Alike.append {table other : List VseFlowEntry} (alike : Alike table other)
    (new : List VseFlowEntry) (tame : ∀ entry ∈ new, Tame entry.vseMatch) :
    Alike (new ++ table) (new ++ other) := by
  constructor
  · rw [List.append_eq_nil_iff, List.append_eq_nil_iff, alike.empty]
  · intro nwTos skb
    -- The new entries have other numbers in the two tables, but no use for the bytes.
    rw [core_append, core_append, alike.cores nwTos skb]
    exact congrArg (Option.or · _) (core_tame new tame _ _ skb)

/-- Alike tables stay alike with the same entries behind both of them, since an entry behind is
asked only where all in front decline. -/
theorem Alike.behind {table other : List VseFlowEntry} (alike : Alike table other)
    (old : List VseFlowEntry) : Alike (table ++ old) (other ++ old) := by
  constructor
  · rw [List.append_eq_nil_iff, List.append_eq_nil_iff, alike.empty]
  · intro nwTos skb
    rw [core_append, core_append, alike.cores]

/-- The call of the line that switches: the first one that inserts an entry, or the commit where
there is no memory for any. -/
def switchCall : Nat := if kzalloc line.coreCall then line.coreCall else line.commitCall

/-- Up to that call nothing is inserted, and behind it the table is like the one that the tool
leaves. The commit's entry, which comes in between, accepts only what the core number's entry
accepts already. -/
theorem line_switches (dl : Mac) (idle : device.deviceOpen = 0) (count : Nat) :
    (count ≤ switchCall line kzalloc →
        (reached line kzalloc device count).flowTable = device.flowTable) ∧
      (switchCall line kzalloc < count →
        Alike (reached line kzalloc device count).flowTable
          (runTool kzalloc line.argv dl device).2.flowTable) := by
  have order : line.coreCall < line.commitCall := by
    rw [Invocation.commitCall]
    omega
  rw [reached_table line kzalloc device count, table_after_idle line kzalloc dl device idle,
    switchCall]
  by_cases stores : kzalloc line.coreCall = true
  · rw [if_pos stores]
    constructor
    · intro early
      rw [inserted_none line _ _ (fun both => absurd both.1 (by omega))
        (fun both => absurd both.1 (by omega)), List.nil_append]
    · intro stored
      constructor
      · simp only [insertedTable, stored, stores, and_self, ↓reduceIte, List.append_eq_nil_iff,
          List.cons_ne_self, and_false, false_and]
      · intro nwTos skb
        rw [inserted_core, inserted_core]
        simp only [stored, stores, and_self, true_and]
        by_cases early : ∀ condition ∈ line.earlyConditions, condition.Holds (withMacHeader skb)
        · rw [if_pos (Or.inl early), if_pos (Or.inl early)]
        · have notAll := mt (early_of_all line (withMacHeader skb)) early
          simp only [early, notAll, and_false, or_self]
  · rw [if_neg stores]
    constructor
    · intro early
      rw [inserted_none line _ _ (fun both => absurd both.1 (by omega))
        (fun both => stores both.2), List.nil_append]
    · intro committed
      simp only [committed, stores, true_and, Bool.false_eq_true, and_false]
      exact Alike.refl _

/-- A run of the tool is one step for packets. Of the calls that a well-formed line makes there is
one before which every packet is handled as if the tool had not been run, and behind which every
packet is handled as it is when the tool has exited.

Proof: only the core number's call and the commit insert. The conditions of the commit's entry
include those of the first and both name the same core, so once the first is in the table no
packet notices the second; and where there is no memory for the first, the commit is the only one.
-/
theorem line_switches_once (dl : Mac) (idle : device.deviceOpen = 0) :
    let left := runTool kzalloc line.argv dl device
    left = (.exit 0, (deviceRelease (reached line kzalloc device (lineCalls line).length)).2) ∧
      ∃ switch, ∀ count nwTos skb rps,
        (vseHandleData nwTos skb rps (reached line kzalloc device count).flowTable).value =
          if count ≤ switch then (vseHandleData nwTos skb rps device.flowTable).value
          else (vseHandleData nwTos skb rps left.2.flowTable).value := by
  intro left
  have enough : 2 ≤ line.argv.length := by
    simp only [Invocation.argv, List.length_cons, List.length_append]
    omega
  constructor
  · rw [reached, List.take_length, line_calls_eq]
    exact run_tool_makes dl device enough idle (makes_invocation line)
  · refine ⟨switchCall line kzalloc, ?_⟩
    intro count nwTos skb rps
    obtain ⟨before, behind⟩ := line_switches line kzalloc device dl idle count
    by_cases early : count ≤ switchCall line kzalloc
    · rw [if_pos early, before early]
    · rw [if_neg early]
      have alike := behind (Nat.not_le.mp early)
      exact handled_alike nwTos skb rps _ _ alike.empty (alike.cores nwTos skb)

/-- A run of `--irq 3 --vni 10` switches from no rule to its own. -/
theorem core_first_switches_once : ∃ switch, ∀ count nwTos skb rps,
    (vseHandleData nwTos skb rps
        (reached coreFirst (fun _ => true) moduleLoad count).flowTable).value =
      if count ≤ switch then (vseHandleData nwTos skb rps []).value
      else (vseHandleData nwTos skb rps
        (runTool (fun _ => true) coreFirst.argv (fun _ => 0) moduleLoad).2.flowTable).value :=
  (line_switches_once coreFirst (fun _ => true) moduleLoad (fun _ => 0) rfl).2

end Switches

end Vse.ToolHistories

import Vse.ToolHistories

/-!
# Runs of the tool that are killed

A run that is killed between two of its calls leaves behind what it has inserted so far and what it
has staged. The kernel closes the device for it, so that the next run gets it. Every session
starts its rule anew, so what was left staged gets into no entry.

Where the command line is well formed, a killed run is as good as one that was never started, or as
one that came to its end: which of the two follows from the number of calls it made.
-/

namespace Vse.KilledRuns

open CStrings SocketBuffer FlowTable Matching Device StagedCommands StagedHistory CommandLine
  SetEntryTool WordReading ToolContracts ModuleRuns PacketSteering RulePolicies OrderedRules Runs
  ToolHistories

section Staging

variable (kzalloc : Nat → Bool)

/-- Calls from the same staged rule insert the same entries, whatever is in the table already. -/
theorem calls_insert_same (made : List (Request × UserPtr)) (one other : Driver)
    (calls : one.calls = other.calls) (same : staged one.device = staged other.device) :
    ∃ new, (run (call kzalloc) one made).device.flowTable = new ++ one.device.flowTable ∧
      (run (call kzalloc) other made).device.flowTable = new ++ other.device.flowTable := by
  induction made generalizing one other with
  | nil => exact ⟨[], rfl, rfl⟩
  | cons input rest inductionHypothesis =>
    have stages : staged (call kzalloc one input).device =
        staged (call kzalloc other input).device := by
      rw [call_stages, call_stages, same]
    obtain ⟨later, tableOne, tableOther⟩ := inductionHypothesis (call kzalloc one input)
      (call kzalloc other input) (congrArg (· + 1) calls) stages
    have inserts : inserted one.device ⟨input.1.code, input.2, kzalloc one.calls⟩ =
        inserted other.device ⟨input.1.code, input.2, kzalloc other.calls⟩ := by
      rw [inserted_eq, inserted_eq, same, calls]
    refine ⟨later ++ inserted one.device ⟨input.1.code, input.2, kzalloc one.calls⟩, ?_, ?_⟩
    · rw [run_cons, tableOne, call, step_table, List.append_assoc]
    · rw [run_cons, tableOther, call, step_table, inserts, List.append_assoc]

theorem session_inserts_same (argv : List CString) (dl : Mac) (one other : Driver)
    (calls : one.calls = other.calls) :
    ∃ new, (run (call kzalloc) one (sessionRequests dl argv)).device.flowTable =
        new ++ one.device.flowTable ∧
      (run (call kzalloc) other (sessionRequests dl argv)).device.flowTable =
        new ++ other.device.flowTable := by
  have begins (driver : Driver) :
      staged (call kzalloc driver (.initWildcards, nullPtr)).device = ⟨coveringMatch, noIrq⟩ ∧
        (call kzalloc driver (.initWildcards, nullPtr)).device.flowTable =
          driver.device.flowTable := by
    constructor
    · rw [call_stages]
      rfl
    · apply driver_quiet kzalloc driver [(.initWildcards, nullPtr)]
      intro input member
      rw [List.mem_singleton.mp member]
      rfl
  obtain ⟨stagedOne, tableOne⟩ := begins one
  obtain ⟨stagedOther, tableOther⟩ := begins other
  rw [sessionRequests, run_cons, run_cons, ← tableOne, ← tableOther]
  apply calls_insert_same
  · exact congrArg (· + 1) calls
  · rw [stagedOne, stagedOther]

end Staging

section Runs

/-- Idle devices whose tables no packet can tell apart. What is staged may differ, since the next
session starts a rule of its own. -/
structure Interchangeable (one other : DeviceState) : Prop where
  idle : one.deviceOpen = 0
  otherIdle : other.deviceOpen = 0
  tables : Alike one.flowTable other.flowTable

theorem Interchangeable.refl {device : DeviceState} (idle : device.deviceOpen = 0) :
    Interchangeable device device :=
  ⟨idle, idle, Alike.refl _⟩

/-- Devices that are as good as the same one are as good as each other. -/
theorem Interchangeable.trans {one other third : DeviceState} (first : Interchangeable one other)
    (second : Interchangeable other third) : Interchangeable one third :=
  ⟨first.idle, second.otherIdle, first.tables.trans second.tables⟩

/-- What a run with any words inserts does not depend on what was staged or inserted before it:
its first call clears the staged rule. -/
theorem run_inserts_same (one other : DeviceState) (idle : one.deviceOpen = 0)
    (otherIdle : other.deviceOpen = 0) (toolRun : ToolRun) :
    ∃ new, (afterRun one toolRun).flowTable = new ++ one.flowTable ∧
      (afterRun other toolRun).flowTable = new ++ other.flowTable := by
  obtain ⟨argv, kzalloc, dl⟩ := toolRun
  by_cases few : argv.length < 2
  · refine ⟨[], ?_, ?_⟩
    · rw [afterRun, run_tool_usage kzalloc argv dl one few]
      rfl
    · rw [afterRun, run_tool_usage kzalloc argv dl other few]
      rfl
  · have enough := Nat.not_lt.mp few
    obtain ⟨new, tableOne, tableOther⟩ := session_inserts_same kzalloc argv dl
      ⟨(deviceOpen one).2, 0⟩ ⟨(deviceOpen other).2, 0⟩ rfl
    rw [device_open_table] at tableOne tableOther
    refine ⟨new, ?_, ?_⟩
    · rw [afterRun, run_tool_reads kzalloc argv dl one enough idle]
      exact tableOne
    · rw [afterRun, run_tool_reads kzalloc argv dl other enough otherIdle]
      exact tableOther

/-- A run keeps devices interchangeable. -/
theorem Interchangeable.afterRun {one other : DeviceState} (same : Interchangeable one other)
    (toolRun : ToolRun) : Interchangeable (afterRun one toolRun) (afterRun other toolRun) := by
  obtain ⟨new, tableOne, tableOther⟩ :=
    run_inserts_same one other same.idle same.otherIdle toolRun
  obtain ⟨idleOne, added, tableAdded, tame⟩ := run_adds one toolRun same.idle
  obtain rfl : added = new := List.append_cancel_right (tableAdded.symm.trans tableOne)
  refine ⟨idleOne, (run_adds other toolRun same.otherIdle).1, ?_⟩
  rw [tableOne, tableOther]
  exact same.tables.append added tame

theorem Interchangeable.runs {one other : DeviceState} (same : Interchangeable one other)
    (toolRuns : List ToolRun) :
    Interchangeable (run ToolHistories.afterRun one toolRuns)
      (run ToolHistories.afterRun other toolRuns) := by
  have simulated := run_simulates ToolHistories.afterRun ToolHistories.afterRun Interchangeable
    (fun toolRun => [toolRun]) (fun _ _ toolRun same => same.afterRun toolRun) one other toolRuns
    same
  rwa [List.flatMap_singleton'] at simulated

/-- What happens to the device: a run of the tool with any words comes to its end, or one of a
well-formed line is killed after some of its calls. -/
inductive Event where
  | ended (toolRun : ToolRun)
  | killed (lineRun : LineRun) (count : Nat)

/-- What it leaves of the device. The kernel closes the device for a killed run. -/
def afterEvent (device : DeviceState) : Event → DeviceState
  | .ended toolRun => afterRun device toolRun
  | .killed lineRun count =>
      (deviceRelease (reached lineRun.line lineRun.kzalloc device count)).2

/-- The run that it stands for, if for any: a killed run counts once it made the call that
switches. -/
def settled : Event → List ToolRun
  | .ended toolRun => [toolRun]
  | .killed lineRun count =>
      if switchCall lineRun.line lineRun.kzalloc < count then [lineRun.toolRun] else []

/-- A killed run leaves the device free, as good as it was or as the whole run makes it, depending
on whether the call that switches was made. -/
theorem killed_interchangeable (device : DeviceState) (lineRun : LineRun) (count : Nat)
    (idle : device.deviceOpen = 0) :
    Interchangeable (afterEvent device (.killed lineRun count))
      (run afterRun device (settled (.killed lineRun count))) := by
  obtain ⟨line, kzalloc, dl⟩ := lineRun
  have free : (afterEvent device (.killed ⟨line, kzalloc, dl⟩ count)).deviceOpen = 0 := by
    have held := driver_open kzalloc ⟨(deviceOpen device).2, 0⟩ ((lineCalls line).take count)
    rw [deviceOpen, if_neg (not_not_intro idle)] at held
    rw [afterEvent, deviceRelease, reached, deviceOpen, if_neg (not_not_intro idle), held, idle]
    rfl
  obtain ⟨before, behind⟩ := line_switches line kzalloc device dl idle count
  by_cases switched : switchCall line kzalloc < count
  · rw [settled, if_pos switched, run_cons, run_nil]
    exact ⟨free, (run_adds device _ idle).1, behind switched⟩
  · rw [settled, if_neg switched, run_nil]
    refine ⟨free, idle, ?_⟩
    have untouched : (afterEvent device (.killed ⟨line, kzalloc, dl⟩ count)).flowTable =
        device.flowTable := before (Nat.not_lt.mp switched)
    rw [untouched]
    exact Alike.refl _

/-- An event keeps a device interchangeable with one on which the run it stands for, if any, comes
to its end. -/
theorem Interchangeable.afterEvent {one other : DeviceState} (same : Interchangeable one other)
    (event : Event) :
    Interchangeable (afterEvent one event) (run ToolHistories.afterRun other (settled event)) := by
  cases event with
  | ended toolRun => exact same.afterRun toolRun
  | killed lineRun count =>
    exact (killed_interchangeable one lineRun count same.idle).trans
      (same.runs (settled (.killed lineRun count)))

/-- A killed run of a well-formed line has happened as a whole or not at all. After any runs, some
of them killed after some of their calls, the device is free, and every packet is handled as if
the runs that were killed before they switched had never been started and the others had all come
to their ends.

Proof: devices are interchangeable when both are idle and no packet tells their tables apart. One
killed run leaves such a device as the whole run does or as none does, by the place of the call
that switches, and further runs keep devices interchangeable, since what they insert does not
depend on what they find. The rest is induction on the events. -/
theorem killed_runs_settle (device : DeviceState) (events : List Event)
    (idle : device.deviceOpen = 0) :
    let after := run afterEvent device events
    after.deviceOpen = 0 ∧ ∀ nwTos skb rps,
      (vseHandleData nwTos skb rps after.flowTable).value =
        (vseHandleData nwTos skb rps
          (run afterRun device (events.flatMap settled)).flowTable).value := by
  intro after
  have same := run_simulates afterEvent afterRun Interchangeable settled
    (fun _ _ event same => same.afterEvent event) device device events (Interchangeable.refl idle)
  refine ⟨same.idle, ?_⟩
  intro nwTos skb rps
  exact handled_alike nwTos skb rps _ _ same.tables.empty (same.tables.cores nwTos skb)

/-- `--vni 10 --irq 3`, killed before its core number, and `--irq 3 --vni 10`, killed behind it. -/
theorem two_killed_runs_settle :
    let first : LineRun := ⟨coreLast, fun _ => true, fun _ => 0⟩
    let second : LineRun := ⟨coreFirst, fun _ => true, fun _ => 0⟩
    (run afterEvent moduleLoad [.killed first 2, .killed second 2]).deviceOpen = 0 ∧
      ∀ nwTos skb rps,
        (vseHandleData nwTos skb rps
            (run afterEvent moduleLoad [.killed first 2, .killed second 2]).flowTable).value =
          (vseHandleData nwTos skb rps
            (run afterRun moduleLoad [second.toolRun]).flowTable).value :=
  killed_runs_settle moduleLoad [.killed ⟨coreLast, fun _ => true, fun _ => 0⟩ 2,
    .killed ⟨coreFirst, fun _ => true, fun _ => 0⟩ 2] rfl

end Runs

end Vse.KilledRuns

import Vse.KilledRuns
import Vse.Sessions

/-!
# Tools that race for the device

Any number of tool processes may run at a time. Their calls reach the driver in any order, and
some of them may be refused, killed or still running. The open count lets one of them in at a time,
and each starts its rule anew; so the table is the one that the sessions leave one after the other,
in the order in which they were asked for.

For packets this is true at any moment: a run that is under way counts as not started or as ended.
-/

namespace Vse.RacingTools

open CStrings SocketBuffer FlowTable Device StagedCommands StagedHistory Sessions CommandLine
  SetEntryTool ToolContracts ModuleRuns PacketSteering RulePolicies OrderedRules Runs ToolHistories
  KilledRuns

universe u v
variable {Client : Type u} [DecidableEq Client]

section Serial

/-- The commands start a rule before they do anything else, as `main` does for every line. -/
def Begins (calls : List IoctlCall) : Prop := ∀ call ∈ calls.head?, call.command = .initWildcards

def alone (calls : List IoctlCall) : List VseFlowEntry :=
  (run deviceStep moduleLoad calls).flowTable

/-- What holds between a history and the table it leads to. The last clause says why a command of
the open session inserts in front of all others: the sessions asked for since were refused. -/
structure Serial (events : List (ClientCall Client)) (world : World Client) : Prop where
  table : world.device.flowTable =
    world.started.flatMap fun session => alone (ownCalls session events)
  once : world.started.Nodup
  newest : ∀ session ∈ world.opened, ∃ newer older, world.started = newer ++ session :: older ∧
    ∀ other ∈ newer, ownCalls other events = []

theorem own_calls_other (session : Session Client) (events : List (ClientCall Client))
    (event : ClientCall Client) (other : ownCalls session [event] = []) :
    ownCalls session (events ++ [event]) = ownCalls session events := by
  rw [own_calls_concat, other, List.append_nil]

/-- A command of the open session inserts what it inserts after the session's own ones alone: the
session before it may have left anything staged, but this one began with a new rule. -/
theorem inserted_alone (events : List (ClientCall Client)) (world : World Client)
    (session : Session Client) (call : IoctlCall) (isOpen : session ∈ world.opened)
    (accounted : Accounted events world)
    (begins : Begins (ownCalls session events ++ [call])) :
    inserted world.device call =
      inserted (run deviceStep moduleLoad (ownCalls session events)) call := by
  cases own : ownCalls session events with
  | nil =>
    rw [own] at begins
    rw [inserted_eq, inserted_eq, begins call rfl]
    rfl
  | cons first rest =>
    rw [own] at begins
    have init : Initialised (first :: rest) := ⟨first, List.mem_cons_self, begins first rfl⟩
    obtain ⟨before, untouched⟩ := accounted.untouched session isOpen
    rw [own, staged_since before _ init] at untouched
    rw [inserted_eq, inserted_eq, untouched, run_staged, staged_since _ _ init]

/-- Asking for a session keeps the table serial. -/
theorem serial_open (events : List (ClientCall Client)) (world : World Client)
    (session : Session Client) (fresh : session ∉ world.started)
    (accounted : Accounted events world) (serial : Serial events world) :
    Serial (events ++ [.openDevice session]) (worldStep world (.openDevice session)) := by
  have same (other : Session Client) :
      ownCalls other (events ++ [.openDevice session]) = ownCalls other events :=
    own_calls_other other events _ rfl
  have silent := accounted.silent session fresh
  have table : world.device.flowTable = (session :: world.started).flatMap fun other =>
      alone (ownCalls other (events ++ [.openDevice session])) := by
    simp only [same, List.flatMap_cons, silent]
    exact serial.table
  have once : (session :: world.started).Nodup := List.nodup_cons.mpr ⟨fresh, serial.once⟩
  by_cases free : world.device.deviceOpen = 0
  · have none : world.opened = [] := by
      have count := accounted.count
      rw [free] at count
      exact List.eq_nil_of_length_eq_zero (by omega)
    rw [world_step_open_free world session free, none]
    refine ⟨table, once, ?_⟩
    intro other isOpen
    rw [List.mem_singleton.mp isOpen]
    exact ⟨[], world.started, rfl, nofun⟩
  · rw [world_step_open_busy world session free]
    refine ⟨table, once, ?_⟩
    intro other isOpen
    obtain ⟨newer, older, started, refused⟩ := serial.newest other isOpen
    refine ⟨session :: newer, older, congrArg (session :: ·) started, ?_⟩
    intro third member
    rw [same]
    rcases List.mem_cons.mp member with rfl | earlier
    · exact silent
    · exact refused third earlier

theorem serial_command (events : List (ClientCall Client)) (world : World Client)
    (session : Session Client) (call : IoctlCall) (isOpen : session ∈ world.opened)
    (begins : Begins (ownCalls session (events ++ [.command session call])))
    (accounted : Accounted events world) (serial : Serial events world) :
    Serial (events ++ [.command session call]) (worldStep world (.command session call)) := by
  have own : ownCalls session (events ++ [.command session call]) =
      ownCalls session events ++ [call] := by
    rw [own_calls_concat]
    simp [ownCalls]
  have others (other : Session Client) (different : other ≠ session) :
      ownCalls other (events ++ [.command session call]) = ownCalls other events := by
    apply own_calls_other
    simp [ownCalls, different.symm]
  rw [own] at begins
  have inserts := inserted_alone events world session call isOpen accounted begins
  obtain ⟨newer, older, started, refused⟩ := serial.newest session isOpen
  have apart := serial.once
  rw [started, List.nodup_middle, List.nodup_cons, List.mem_append, not_or] at apart
  obtain ⟨⟨notNewer, notOlder⟩, _⟩ := apart
  have newerSame : ∀ other ∈ newer,
      ownCalls other (events ++ [.command session call]) = ownCalls other events :=
    fun other member => others other fun same => notNewer (same ▸ member)
  have olderSame : ∀ other ∈ older,
      ownCalls other (events ++ [.command session call]) = ownCalls other events :=
    fun other member => others other fun same => notOlder (same ▸ member)
  have silent : newer.flatMap (fun other => alone (ownCalls other events)) = [] := by
    rw [List.flatMap_eq_nil_iff]
    intro other member
    rw [refused other member]
    rfl
  refine ⟨?_, serial.once, ?_⟩
  · have grown : alone (ownCalls session events ++ [call]) =
        inserted world.device call ++ alone (ownCalls session events) := by
      rw [alone, run_append, run_cons, run_nil, step_table, ← inserts]
      rfl
    have before := serial.table
    rw [started, List.flatMap_append, List.flatMap_cons, silent, List.nil_append] at before
    have after : (worldStep world (.command session call)).started =
        newer ++ session :: older := started
    rw [after, List.flatMap_append, List.flatMap_cons, own, grown,
      List.flatMap_congr (fun other member => congrArg alone (newerSame other member)), silent,
      List.flatMap_congr (fun other member => congrArg alone (olderSame other member)),
      List.nil_append, List.append_assoc, ← before]
    exact step_table world.device call
  · intro other otherOpen
    obtain rfl := accounted.only isOpen otherOpen
    exact ⟨newer, older, started, fun third member =>
      (newerSame third member).trans (refused third member)⟩

theorem serial_release (events : List (ClientCall Client)) (world : World Client)
    (session : Session Client) (serial : Serial events world) :
    Serial (events ++ [.releaseDevice session]) (worldStep world (.releaseDevice session)) := by
  have same (other : Session Client) :
      ownCalls other (events ++ [.releaseDevice session]) = ownCalls other events :=
    own_calls_other other events _ rfl
  constructor
  · simp only [same]
    exact serial.table
  · exact serial.once
  · intro other otherOpen
    obtain ⟨newer, older, started, refused⟩ :=
      serial.newest other (List.mem_of_mem_erase otherOpen)
    refine ⟨newer, older, started, ?_⟩
    intro third member
    rw [same]
    exact refused third member

/-- Sessions that begin with a new rule leave the table that they leave one after the other, in
any lawful history of opens, commands and releases. -/
theorem serial_run (events : List (ClientCall Client))
    (lawful : Along worldStep Legal loaded events)
    (begins : ∀ session, Begins (ownCalls session events)) :
    Serial events (run worldStep loaded events) := by
  induction events using List.reverseRecOn with
  | nil => exact ⟨rfl, List.nodup_nil, nofun⟩
  | append_singleton events event inductionHypothesis =>
    obtain ⟨earlier, last, _⟩ := (along_append worldStep Legal loaded events [event]).mp lawful
    have beginsEarlier (session : Session Client) : Begins (ownCalls session events) := by
      intro call first
      apply begins session call
      rw [own_calls_concat, List.head?_append, Option.mem_def.mp first]
      rfl
    have accounted := accounted_run events earlier
    have serial := inductionHypothesis earlier beginsEarlier
    rw [run_append, run_cons, run_nil]
    cases event with
    | openDevice session => exact serial_open events _ session last accounted serial
    | command session call =>
      exact serial_command events _ session call last (begins session) accounted serial
    | releaseDevice session => exact serial_release events _ session serial

end Serial

section Tools

/-- The calls of a tool as they reach the dispatcher, numbered from the first. -/
def dispatched (kzalloc : Nat → Bool) : Nat → List (Request × UserPtr) → List IoctlCall
  | _, [] => []
  | number, made :: rest =>
      ⟨made.1.code, made.2, kzalloc number⟩ :: dispatched kzalloc (number + 1) rest

/-- The dispatcher sees the tool's calls, each with its own number and whether there is memory for
it. -/
theorem run_dispatched (kzalloc : Nat → Bool) (driver : Driver)
    (made : List (Request × UserPtr)) :
    (run (call kzalloc) driver made).device =
      run deviceStep driver.device (dispatched kzalloc driver.calls made) := by
  induction made generalizing driver with
  | nil => rfl
  | cons input rest inductionHypothesis => exact inductionHypothesis (call kzalloc driver input)

theorem dispatched_take (kzalloc : Nat → Bool) (number count : Nat)
    (made : List (Request × UserPtr)) :
    (dispatched kzalloc number made).take count = dispatched kzalloc number (made.take count) := by
  induction made generalizing number count with
  | nil => simp [dispatched]
  | cons input rest inductionHypothesis =>
    cases count with
    | zero => rfl
    | succ count => exact congrArg (_ :: ·) (inductionHypothesis (number + 1) count)

def runCalls (lineRun : LineRun) : List IoctlCall :=
  dispatched lineRun.kzalloc 0 (lineCalls lineRun.line)

def switched (lineRun : LineRun) (count : Nat) : Bool :=
  decide (switchCall lineRun.line lineRun.kzalloc < count)

/-- Some of the calls of a run, made alone, leave a table like that of the whole run or an empty
one. -/
theorem alone_alike (lineRun : LineRun) (calls : List IoctlCall)
    (own : calls <+: runCalls lineRun) :
    Alike (alone calls) (if switched lineRun calls.length
      then (afterRun moduleLoad lineRun.toolRun).flowTable else []) := by
  obtain ⟨line, kzalloc, dl⟩ := lineRun
  rw [List.prefix_iff_eq_take, runCalls, dispatched_take] at own
  have table : alone calls = (reached line kzalloc moduleLoad calls.length).flowTable := by
    obtain ⟨new, one, other⟩ := calls_insert_same kzalloc ((lineCalls line).take calls.length)
      ⟨moduleLoad, 0⟩ ⟨(deviceOpen moduleLoad).2, 0⟩ rfl rfl
    rw [run_dispatched, ← own] at one
    exact one.trans other.symm
  obtain ⟨before, behind⟩ := line_switches line kzalloc moduleLoad dl rfl calls.length
  rw [table]
  by_cases late : switchCall line kzalloc < calls.length
  · rw [switched, if_pos (decide_eq_true late)]
    exact behind late
  · rw [switched, if_neg (Bool.not_eq_true _ ▸ decide_eq_false late),
      before (Nat.not_lt.mp late)]
    exact Alike.refl _

theorem alike_parts {α : Type u} (parts : List α) (one other : α → List VseFlowEntry)
    (alike : ∀ part ∈ parts, Alike (one part) (other part))
    (tame : ∀ part ∈ parts, ∀ entry ∈ other part, Tame entry.vseMatch) :
    Alike (parts.flatMap one) (parts.flatMap other) := by
  induction parts with
  | nil => exact Alike.refl _
  | cons part rest inductionHypothesis =>
    obtain ⟨first, later⟩ := List.forall_mem_cons.mp alike
    obtain ⟨tameFirst, tameLater⟩ := List.forall_mem_cons.mp tame
    rw [List.flatMap_cons, List.flatMap_cons]
    exact (first.behind _).trans ((inductionHypothesis later tameLater).append _ tameFirst)

theorem part_tame (lineRun : LineRun) (count : Nat) :
    ∀ entry ∈ (if switched lineRun count then (afterRun moduleLoad lineRun.toolRun).flowTable
      else []), Tame entry.vseMatch := by
  obtain ⟨_, new, table, tame⟩ := run_adds moduleLoad lineRun.toolRun rfl
  intro entry member
  split at member
  · apply tame entry
    rwa [table, show moduleLoad.flowTable = [] from rfl, List.append_nil] at member
  · cases member

/-- Runs one after the other leave what each of them leaves alone, the last one first: a run on an
idle device does not depend on what it finds. -/
theorem runs_table (device : DeviceState) (toolRuns : List ToolRun)
    (idle : device.deviceOpen = 0) :
    (run afterRun device toolRuns).flowTable =
      (toolRuns.reverse.flatMap fun toolRun => (afterRun moduleLoad toolRun).flowTable) ++
        device.flowTable := by
  induction toolRuns generalizing device with
  | nil => rfl
  | cons toolRun rest inductionHypothesis =>
    obtain ⟨new, table, alone⟩ := run_inserts_same device moduleLoad idle rfl toolRun
    have unloaded : moduleLoad.flowTable = [] := rfl
    rw [unloaded, List.append_nil] at alone
    rw [run_cons, inductionHypothesis _ (run_adds device toolRun idle).1, List.reverse_cons,
      List.flatMap_append, List.flatMap_singleton, List.append_assoc, table, alone]

theorem flatMap_filter {α : Type u} {β : Type v} (keeps : α → Bool) (parts : List α)
    (made : α → List β) : (parts.filter keeps).flatMap made =
      parts.flatMap fun part => if keeps part then made part else [] := by
  induction parts with
  | nil => rfl
  | cons part rest inductionHypothesis =>
    rw [List.filter_cons, List.flatMap_cons, ← inductionHypothesis]
    cases keeps part <;> rfl

/-- The sessions of the runs that made the call that switches, in the order in which they were
asked for. -/
def served (lines : Session Client → LineRun) (events : List (ClientCall Client)) :
    List (Session Client) :=
  ((run worldStep loaded events).started.filter fun session =>
    switched (lines session) (ownCalls session events).length).reverse

/-- Tools with well-formed lines may race for the device. At any moment, whichever of them were
refused, were killed, have ended or are under way, every packet is handled as if those that made
the call that switches had been run one after the other, and no others.

Proof: the table is made of the parts that the sessions inserted, the session asked for last in
front, and each part is what the session's calls insert alone: only one session is open at a time,
and each begins with a new rule. Such a part is like the table of the whole run once the session
has made the call that switches, and empty before. Parts that are alike make tables that are
alike. -/
theorem racing_tools_serial (events : List (ClientCall Client))
    (lawful : Along worldStep Legal loaded events) (lines : Session Client → LineRun)
    (own : ∀ session, ownCalls session events <+: runCalls (lines session)) :
    ∀ nwTos skb rps,
      (vseHandleData nwTos skb rps (run worldStep loaded events).device.flowTable).value =
        (vseHandleData nwTos skb rps (run afterRun moduleLoad
          ((served lines events).map fun session => (lines session).toolRun)).flowTable).value := by
  have begins (session : Session Client) : Begins (ownCalls session events) := by
    intro call first
    obtain ⟨rest, whole⟩ := own session
    have head := congrArg List.head? whole
    rw [List.head?_append, Option.mem_def.mp first] at head
    obtain rfl := Option.some.inj head
    rfl
  have serial := (serial_run events lawful begins).table
  have alike : Alike (run worldStep loaded events).device.flowTable (run afterRun moduleLoad
      ((served lines events).map fun session => (lines session).toolRun)).flowTable := by
    have parts := alike_parts (run worldStep loaded events).started _ _
      (fun session _ => alone_alike (lines session) _ (own session))
      (fun session _ => part_tame (lines session) _)
    have unloaded : moduleLoad.flowTable = [] := rfl
    rw [serial, runs_table moduleLoad _ rfl, unloaded, List.append_nil, served, ← List.map_reverse,
      List.reverse_reverse, List.flatMap_map, flatMap_filter]
    exact parts
  intro nwTos skb rps
  exact handled_alike nwTos skb rps _ _ alike.empty (alike.cores nwTos skb)

/-- `--irq 3 --vni 10`, with memory for both entries. -/
def coreFirstRun : LineRun := ⟨coreFirst, fun _ => true, fun _ => 0⟩

/-- The tool of session 0 is under way, behind its core number; that of session 1 was refused. -/
def underWay : List (ClientCall Nat) :=
  [.openDevice ⟨0, 0⟩, .openDevice ⟨1, 0⟩,
    .command ⟨0, 0⟩ ⟨Request.initWildcards.code, nullPtr, true⟩,
    .command ⟨0, 0⟩ ⟨Request.setIrq.code, wordPtr (atoi threeWord.text), true⟩]

/-- Only the first is served, and packets are handled as if it had been run to its end. -/
theorem under_way_serial :
    served (fun _ => coreFirstRun) underWay = [⟨0, 0⟩] ∧ ∀ nwTos skb rps,
      (vseHandleData nwTos skb rps (run worldStep loaded underWay).device.flowTable).value =
        (vseHandleData nwTos skb rps
          (run afterRun moduleLoad [coreFirstRun.toolRun]).flowTable).value := by
  have lawful : Along worldStep Legal loaded underWay :=
    ⟨by decide, by decide, by decide, by decide, trivial⟩
  constructor
  · rfl
  · apply racing_tools_serial underWay lawful fun _ => coreFirstRun
    intro session
    by_cases first : (⟨0, 0⟩ : Session Nat) = session
    · subst first
      exact ⟨_, rfl⟩
    · have silent : ownCalls session underWay = [] := by
        simp [ownCalls, underWay, first]
      rw [silent]
      exact List.nil_prefix

end Tools

end Vse.RacingTools

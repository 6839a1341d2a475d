import Vse.SetEntryTool
import Vse.Conditions

/-!
# What a command line means

A well-formed command line names one core and at most one condition for each field, in
any order. It means: steer the packets that meet the conditions to the core. The tool
turns it into commands on the fly, and the command that stores the core number inserts
an entry of its own, with the conditions read so far. What the table then does depends
on what is left to read.
-/

namespace Vse.CommandLine

open CStrings Words SocketBuffer FlowTable Matching Device StagedCommands VniDecoding Conditions
  SetEntryTool Runs OrderedRules

/-- A condition as it is written: an option and its value, well formed for the option. -/
inductive Setting where
  | vni (word : DecimalWord)
  | dlIndst (bytes : Fin 6 → HexByte)
  | dlDst (bytes : Fin 6 → HexByte)

/-- The option word. -/
def Setting.option : Setting → CString
  | .vni _ => vniOption
  | .dlIndst _ => dlIndstOption
  | .dlDst _ => dlDstOption

/-- The value's word. -/
def Setting.value : Setting → CString
  | .vni word => word.text
  | .dlIndst bytes => joined (List.ofFn bytes)
  | .dlDst bytes => joined (List.ofFn bytes)

/-- Both words. -/
def Setting.words (setting : Setting) : List CString := [setting.option, setting.value]

/-- The condition that is meant. It is the reading of the written value, and says nothing of how
the tool reads it. -/
def Setting.condition : Setting → Condition
  | .vni word => .vni (BitVec.ofNat 32 word.value)
  | .dlIndst bytes => .dlIndst fun index => (bytes index).value
  | .dlDst bytes => .dlDst fun index => (bytes index).value

/-- The calls that the tool makes for it, with pointers to what it reads the value as. -/
def Setting.requests : Setting → List (Request × UserPtr)
  | .vni word => [(.setVni, wordPtr (atoi word.text))]
  | .dlIndst bytes => addressRequests dlIndstRequest fun index => (bytes index).value
  | .dlDst bytes => addressRequests dlDstRequest fun index => (bytes index).value

/-- The words with a meaning to the tool. Any other word in the place of an option is passed over.
-/
def optionWords : List CString := [vniOption, irqOption, dlIndstOption, dlDstOption]

/-- A well-formed command line. The one `--irq` stands between the conditions named
before it and those named after it; no option is given twice. The loop reads the
tool's own name like any other word, so it is not one of the options. -/
structure Invocation where
  program : CString
  before : List Setting
  core : DecimalWord
  after : List Setting
  program_plain : program ∉ optionWords
  core_lt : core.value < 255
  once : (before ++ after).Pairwise fun one other => one.option ≠ other.option

/-- All conditions of the command line. -/
def Invocation.conditions (line : Invocation) : List Condition :=
  (line.before ++ line.after).map Setting.condition

/-- The words of the command line, beginning with the tool's own name. -/
def Invocation.argv (line : Invocation) : List CString :=
  line.program :: (line.before.flatMap Setting.words ++
    ([irqOption, line.core.text] ++ line.after.flatMap Setting.words))

section Reading

variable {kzalloc : Nat → Bool} {argv : List CString}

/-- A word that starts with a digit is no option, since all options start with a dash. -/
theorem not_option_of_digit (base : Nat) (text : CString)
    (starts : ∃ first others, text = first :: others ∧ isDigit base first = true) :
    text ∉ optionWords := by
  obtain ⟨first, others, rfl, digit⟩ := starts
  have noDash : first ≠ '-' := by
    rintro rfl
    cases digit
  intro member
  simp only [optionWords, List.mem_cons, List.not_mem_nil, or_false] at member
  rcases member with same | same | same | same <;> exact noDash (List.cons.inj same).1

theorem decimal_not_option (word : DecimalWord) : word.text ∉ optionWords := by
  obtain ⟨first, others, start⟩ := List.exists_cons_of_ne_nil word.nonempty
  exact not_option_of_digit 10 word.text
    ⟨first, others, start, word.digits first (by rw [start]; exact List.mem_cons_self)⟩

theorem address_not_option (bytes : Fin 6 → HexByte) :
    joined (List.ofFn bytes) ∉ optionWords := by
  rw [List.ofFn_succ]
  exact not_option_of_digit 16 _ (joined_starts _ _)

/-- A word that is no option is passed by each of the four tests. -/
theorem passes {text : CString} {i : Nat} (here : argv[i]? = some text)
    (plain : text ∉ optionWords) (option : CString) (known : option ∈ optionWords)
    (arm : CString → Tool Unit) :
    Makes kzalloc (onOption argv option arm i) ⟨i, Nat.le_refl i⟩ [] :=
  makes_on_other here fun same => plain (same ▸ known)

/-- The body of the loop passes over a word that is no option. -/
theorem makes_body_plain {text : CString} {i : Nat} (here : argv[i]? = some text)
    (plain : text ∉ optionWords) :
    Makes kzalloc (body kzalloc argv i) ⟨i, Nat.le_refl i⟩ [] :=
  makes_body (passes here plain _ (by decide) _) (passes here plain _ (by decide) _)
    (passes here plain _ (by decide) _) (passes here plain _ (by decide) _)

/-- It reads a condition and makes the condition's calls, and stops at the value, where no later
test takes anything. -/
theorem makes_body_setting (setting : Setting) {i : Nat} (here : argv[i]? = some setting.option)
    (next : argv[i + 1]? = some setting.value) :
    Makes kzalloc (body kzalloc argv i) ⟨i + 1, Nat.le_succ i⟩ setting.requests := by
  cases setting with
  | vni word =>
    have plain := decimal_not_option word
    exact makes_body (makes_on_option here next (makes_number_arm (makes_checked_ioctl _ _)))
      (passes next plain irqOption (by decide) _) (passes next plain dlIndstOption (by decide) _)
      (passes next plain dlDstOption (by decide) _)
  | dlIndst bytes =>
    have plain := address_not_option bytes
    change argv[i]? = some dlIndstOption at here
    exact makes_body (makes_on_other here (by decide)) (makes_on_other here (by decide))
      (makes_on_option here next (makes_address_arm bytes (makes_set_address _ _)))
      (passes next plain dlDstOption (by decide) _)
  | dlDst bytes =>
    change argv[i]? = some dlDstOption at here
    exact makes_body (makes_on_other here (by decide)) (makes_on_other here (by decide))
      (makes_on_other here (by decide))
      (makes_on_option here next (makes_address_arm bytes (makes_set_address _ _)))

/-- It reads the core and makes its call, likewise. -/
theorem makes_body_core (core : DecimalWord) {i : Nat} (here : argv[i]? = some irqOption)
    (next : argv[i + 1]? = some core.text) :
    Makes kzalloc (body kzalloc argv i) ⟨i + 1, Nat.le_succ i⟩
      [(.setIrq, wordPtr (atoi core.text))] := by
  have plain := decimal_not_option core
  exact makes_body (makes_on_other here (by decide))
    (makes_on_option here next (makes_number_arm (makes_checked_ioctl _ _)))
    (passes next plain dlIndstOption (by decide) _) (passes next plain dlDstOption (by decide) _)

/-- The loop reads an option and its value, and goes on behind them. What is in front of them in
the command line does not matter. -/
theorem makes_pair {option value : CString} {made later : List (Request × UserPtr)}
    (front tail : List CString) (whole : argv = front ++ option :: value :: tail)
    (reads : ∀ i, argv[i]? = some option → argv[i + 1]? = some value →
      Makes kzalloc (body kzalloc argv i) ⟨i + 1, Nat.le_succ i⟩ made)
    (rest : Makes kzalloc (loop kzalloc argv (front ++ [option, value]).length) () later) :
    Makes kzalloc (loop kzalloc argv front.length) () (made ++ later) := by
  have here : argv[front.length]? = some option := by
    rw [whole, List.getElem?_append_right (Nat.le_refl _), Nat.sub_self]
    rfl
  have next : argv[front.length + 1]? = some value := by
    rw [whole, List.getElem?_append_right (Nat.le_add_right _ 1), Nat.add_sub_cancel_left]
    rfl
  have inside : front.length < argv.length := by
    rw [whole, List.length_append, List.length_cons]
    omega
  rw [List.length_append] at rest
  exact makes_loop inside (reads front.length here next) rest

/-- It reads a run of conditions and makes their calls in turn. -/
theorem makes_settings (settings : List Setting) (front tail : List CString)
    (whole : argv = front ++ (settings.flatMap Setting.words ++ tail))
    {later : List (Request × UserPtr)}
    (rest : Makes kzalloc (loop kzalloc argv (front ++ settings.flatMap Setting.words).length) ()
      later) :
    Makes kzalloc (loop kzalloc argv front.length) ()
      (settings.flatMap Setting.requests ++ later) := by
  induction settings generalizing front with
  | nil => simpa only [List.flatMap_nil, List.append_nil, List.nil_append] using rest
  | cons setting settings inductionHypothesis =>
    have split : argv = (front ++ setting.words) ++ (settings.flatMap Setting.words ++ tail) := by
      rw [whole, List.flatMap_cons, List.append_assoc, List.append_assoc]
    rw [List.flatMap_cons, ← List.append_assoc] at rest
    rw [List.flatMap_cons, List.append_assoc]
    exact makes_pair front _ whole (fun i => makes_body_setting setting)
      (inductionHypothesis (front ++ setting.words) split rest)

/-- It reads a well-formed command line to its end, and makes the calls of its conditions and of
its core in the order of the words.

Proof: the tool's name is passed over. The conditions before the core, the core and the conditions
after it then take two words each, as no value is an option. -/
theorem makes_invocation (line : Invocation) :
    Makes kzalloc (loop kzalloc line.argv 0) ()
      (line.before.flatMap Setting.requests ++ ([(.setIrq, wordPtr (atoi line.core.text))] ++
        line.after.flatMap Setting.requests)) := by
  have front : line.argv = [line.program] ++ (line.before.flatMap Setting.words ++
      ([irqOption, line.core.text] ++ line.after.flatMap Setting.words)) := rfl
  have middle : line.argv = ([line.program] ++ line.before.flatMap Setting.words) ++
      irqOption :: line.core.text :: line.after.flatMap Setting.words := by
    rw [front, List.append_assoc]
    rfl
  have back : line.argv = ([line.program] ++ line.before.flatMap Setting.words ++
      [irqOption, line.core.text]) ++ (line.after.flatMap Setting.words ++ []) := by
    rw [middle, List.append_nil, List.append_assoc _ [irqOption, line.core.text]]
    rfl
  have ended := Nat.le_of_eq (congrArg List.length back)
  rw [List.append_nil] at ended
  have read : Makes kzalloc (loop kzalloc line.argv [line.program].length) ()
      (line.before.flatMap Setting.requests ++ ([(.setIrq, wordPtr (atoi line.core.text))] ++
        (line.after.flatMap Setting.requests ++ []))) :=
    makes_settings line.before [line.program] _ front <|
      makes_pair _ _ middle (fun _ => makes_body_core line.core) <|
      makes_settings line.after _ [] back <| makes_loop_end ended
  rw [List.append_nil] at read
  have skipped : Makes kzalloc (body kzalloc line.argv 0) ⟨0, Nat.le_refl 0⟩ [] :=
    makes_body_plain rfl line.program_plain
  have whole := makes_loop (Nat.succ_pos _) skipped read
  exact whole

end Reading

section Inserting

variable (kzalloc : Nat → Bool)

/-- The command that a call to the driver stands for, by its code and its pointer. -/
def decoded (made : Request × UserPtr) : Command := commandOf made.1.code made.2

/-- The calls stage their commands. -/
theorem driver_staged (driver : Driver) (made : List (Request × UserPtr)) :
    staged (run (call kzalloc) driver made).device =
      run stage (staged driver.device) (made.map decoded) :=
  run_abstracts (call kzalloc) stage (fun driver => staged driver.device) decoded
    (fun before input => step_staged before.device ⟨input.1.code, input.2, _⟩) driver made

theorem driver_calls (driver : Driver) (made : List (Request × UserPtr)) :
    (run (call kzalloc) driver made).calls = driver.calls + made.length := by
  induction made generalizing driver with
  | nil => rfl
  | cons first rest inductionHypothesis =>
    have counted : (call kzalloc driver first).calls = driver.calls + 1 := rfl
    rw [run_cons, inductionHypothesis, List.length_cons, counted]
    omega

/-- Calls that do not reach the insertion leave the table alone, in any number. -/
theorem driver_quiet (driver : Driver) (made : List (Request × UserPtr))
    (quiet : ∀ input ∈ made, (decoded input).inserts = false) :
    (run (call kzalloc) driver made).device.flowTable = driver.device.flowTable := by
  have lawful := (along_const_iff (call kzalloc) (fun input => (decoded input).inserts = false)
    driver made).mpr quiet
  refine run_invariant_of_along (call kzalloc) _
    (fun after => after.device.flowTable = driver.device.flowTable) ?_ driver made lawful rfl
  intro before input silent same
  have table := ioctl_flow_table input.1.code input.2 (kzalloc before.calls) before.device
  rw [show (commandOf input.1.code input.2).inserts = false from silent] at table
  exact table.trans same

/-- A call that reaches the insertion puts the staged rule in front, if it finds
memory. -/
theorem driver_inserts (driver : Driver) (input : Request × UserPtr)
    (inserts : (decoded input).inserts = true) :
    (call kzalloc driver input).device.flowTable =
      (if kzalloc driver.calls then
        [(stage (staged driver.device) (decoded input)).entry] else []) ++
        driver.device.flowTable := by
  have table := ioctl_flow_table input.1.code input.2 (kzalloc driver.calls) driver.device
  rw [show (commandOf input.1.code input.2).inserts = true from inserts, Bool.true_and] at table
  refine table.trans ?_
  split <;> rfl

theorem six_updates (before mac : Mac) :
    Function.update (Function.update (Function.update (Function.update (Function.update
      (Function.update before 0 (mac 0)) 1 (mac 1)) 2 (mac 2)) 3 (mac 3)) 4 (mac 4)) 5 (mac 5) =
      mac := by
  funext index
  match index with
  | 0 | 1 | 2 | 3 | 4 | 5 => rfl

/-- The commands for a condition: one for a VNI, and six for an address. -/
def Setting.commands : Setting → List Command
  | .vni word => [.setVni (BitVec.ofNat 32 word.value)]
  | .dlIndst bytes => List.ofFn fun index => .setDlIndst index (bytes index).value
  | .dlDst bytes => List.ofFn fun index => .setDlDst index (bytes index).value

theorem setting_decoded (setting : Setting) :
    setting.requests.map decoded = setting.commands := by
  cases setting with
  | vni word =>
    simp [Setting.requests, Setting.commands, decoded, commandOf, of_code_code, atoi_decimal]
  | dlIndst bytes =>
    simp [Setting.requests, Setting.commands, addressRequests, dlIndstRequest, decoded, commandOf,
      of_code_code]
  | dlDst bytes =>
    simp [Setting.requests, Setting.commands, addressRequests, dlDstRequest, decoded, commandOf,
      of_code_code]

/-- The commands of a setting impose its condition on the staged match, and leave the staged core as
it is. -/
theorem setting_staged (before : Staged) (setting : Setting) :
    run stage before setting.commands =
      ⟨imposed before.entryMatch setting.condition, before.irq⟩ := by
  cases setting with
  | vni word => rfl
  | dlIndst bytes =>
    have stored := six_updates before.entryMatch.dlIndst fun index => (bytes index).value
    rw [Setting.condition, imposed, ← stored]
    simp [Setting.commands, stage]
  | dlDst bytes =>
    have stored := six_updates before.entryMatch.dlDst fun index => (bytes index).value
    rw [Setting.condition, imposed, ← stored]
    simp [Setting.commands, stage]

/-- None of its calls reaches the insertion, so a condition changes no table. -/
theorem setting_quiet (setting : Setting) (input : Request × UserPtr)
    (member : input ∈ setting.requests) : (decoded input).inserts = false := by
  have command : decoded input ∈ setting.commands :=
    setting_decoded setting ▸ List.mem_map_of_mem member
  generalize decoded input = made at command
  cases setting with
  | vni word =>
    obtain rfl := List.mem_singleton.mp command
    rfl
  | dlIndst bytes =>
    obtain ⟨index, rfl⟩ := (List.mem_ofFn' _ _).mp command
    rfl
  | dlDst bytes =>
    obtain ⟨index, rfl⟩ := (List.mem_ofFn' _ _).mp command
    rfl

/-- The calls for several conditions impose them in turn. -/
theorem settings_staged (before : Staged) (settings : List Setting) :
    run stage before ((settings.flatMap Setting.requests).map decoded) =
      ⟨(settings.map Setting.condition).foldl imposed before.entryMatch, before.irq⟩ := by
  induction settings generalizing before with
  | nil => rfl
  | cons setting settings inductionHypothesis =>
    rw [List.flatMap_cons, List.map_append, run_append, setting_decoded, setting_staged,
      inductionHypothesis]
    rfl

/-- The match that a session starts from covers every field, and so accepts every packet. -/
def coveringMatch : VseMatch := { zeroMatch with wildcards := ofpfwAll }

/-- The entry that is inserted for conditions and a core: the conditions imposed on the covering
match, projected, and the core. -/
def ruleEntry (conditions : List Condition) (core : Byte) : VseFlowEntry :=
  ⟨vseSetEntryMatch zeroMatch (conditions.foldl imposed coveringMatch), core⟩

/-- The core as the driver stores it, in eight bits. It is the core named, which is less than 255.
-/
def Invocation.coreByte (line : Invocation) : Byte := BitVec.ofNat 8 line.core.value

/-- The conditions that are staged when the core number arrives: those that are named before it.
-/
def Invocation.earlyConditions (line : Invocation) : List Condition :=
  line.before.map Setting.condition

/-- Which call to the driver stores the core number, counted from zero. It is the first one that
inserts. -/
def Invocation.coreCall (line : Invocation) : Nat :=
  1 + (line.before.flatMap Setting.requests).length

/-- Which call to the driver is the commit, counted from zero. It is the last one. -/
def Invocation.commitCall (line : Invocation) : Nat :=
  line.coreCall + 1 + (line.after.flatMap Setting.requests).length

/-- The low byte of the core's word is the core. -/
theorem core_decoded (line : Invocation) :
    decoded (.setIrq, wordPtr (atoi line.core.text)) = .setIrq line.coreByte := by
  have lowByte : byteAt (BitVec.ofNat 32 line.core.value) 0 = line.coreByte := by
    apply BitVec.eq_of_toNat_eq
    simp [byteAt, Invocation.coreByte]
  have read : (getUserByte (wordPtr (BitVec.ofNat 32 line.core.value))).stored =
      byteAt (BitVec.ofNat 32 line.core.value) 0 := rfl
  rw [lowByte] at read
  simp [decoded, commandOf, of_code_code, atoi_decimal, read]

/-- The calls up to the core number stage the conditions named before it. -/
theorem staged_before_core (line : Invocation) (driver : Driver) :
    let after := run (call kzalloc) driver
      ((.initWildcards, nullPtr) :: line.before.flatMap Setting.requests)
    staged after.device = ⟨line.earlyConditions.foldl imposed coveringMatch, noIrq⟩ ∧
      after.device.flowTable = driver.device.flowTable ∧
      after.calls = driver.calls + line.coreCall := by
  have start : decoded (.initWildcards, nullPtr) = .initWildcards := by decide
  refine ⟨?_, ?_, ?_⟩
  · rw [driver_staged, List.map_cons, run_cons, start, settings_staged]
    rfl
  · apply driver_quiet
    intro input member
    rcases List.mem_cons.mp member with rfl | later
    · rw [start]
      rfl
    · obtain ⟨setting, _, made⟩ := List.mem_flatMap.mp later
      exact setting_quiet setting input made
  · rw [driver_calls, List.length_cons, Invocation.coreCall, Nat.add_comm _ 1]

/-- The calls behind the core number stage the others, and insert nothing. -/
theorem staged_behind_core (settings : List Setting) (driver : Driver) :
    let after := run (call kzalloc) driver (settings.flatMap Setting.requests)
    staged after.device = ⟨(settings.map Setting.condition).foldl imposed driver.device.entryMatch,
        driver.device.irq⟩ ∧
      after.device.flowTable = driver.device.flowTable ∧
      after.calls = driver.calls + (settings.flatMap Setting.requests).length := by
  refine ⟨?_, ?_, driver_calls kzalloc driver _⟩
  · rw [driver_staged, settings_staged]
    rfl
  · apply driver_quiet
    intro input member
    obtain ⟨setting, _, made⟩ := List.mem_flatMap.mp member
    exact setting_quiet setting input made

/-- The core number is staged, and its arm runs on into the insertion of an entry for the
conditions staged so far. -/
theorem core_call (line : Invocation) (driver : Driver) (entryMatch : VseMatch) (irq : Byte)
    (stagedBefore : staged driver.device = ⟨entryMatch, irq⟩) :
    let after := call kzalloc driver (.setIrq, wordPtr (atoi line.core.text))
    staged after.device = ⟨entryMatch, line.coreByte⟩ ∧
      after.device.flowTable = (if kzalloc driver.calls then
        [Staged.entry ⟨entryMatch, line.coreByte⟩] else []) ++ driver.device.flowTable := by
  have moved := driver_staged kzalloc driver [(.setIrq, wordPtr (atoi line.core.text))]
  have table := driver_inserts kzalloc driver (.setIrq, wordPtr (atoi line.core.text))
    (by rw [core_decoded]; rfl)
  rw [List.map_cons, List.map_nil, run_cons, run_nil, run_cons, run_nil, core_decoded,
    stagedBefore] at moved
  rw [core_decoded, stagedBefore] at table
  exact ⟨moved, table⟩

/-- The table after a session: the entry of the commit in front of the entry of the core
number. -/
theorem session_table (line : Invocation) (driver : Driver) (fresh : driver.calls = 0) :
    (run (call kzalloc) driver ((.initWildcards, nullPtr) ::
      (line.before.flatMap Setting.requests ++ ([(.setIrq, wordPtr (atoi line.core.text))] ++
        line.after.flatMap Setting.requests) ++ [(.setEntry, nullPtr)]))).device.flowTable =
      (if kzalloc line.commitCall then [ruleEntry line.conditions line.coreByte] else []) ++
      ((if kzalloc line.coreCall then [ruleEntry line.earlyConditions line.coreByte] else []) ++
        driver.device.flowTable) := by
  have order : (Request.initWildcards, nullPtr) :: (line.before.flatMap Setting.requests ++
        ([(.setIrq, wordPtr (atoi line.core.text))] ++ line.after.flatMap Setting.requests) ++
        [(.setEntry, nullPtr)]) =
      ((.initWildcards, nullPtr) :: line.before.flatMap Setting.requests) ++
        ((.setIrq, wordPtr (atoi line.core.text)) ::
          (line.after.flatMap Setting.requests ++ [(.setEntry, nullPtr)])) := by
    simp only [List.cons_append, List.append_assoc, List.nil_append]
  rw [order, run_append, run_cons, run_append, run_cons, run_nil]
  obtain ⟨stagedBefore, tableBefore, callsBefore⟩ := staged_before_core kzalloc line driver
  rw [fresh, Nat.zero_add] at callsBefore
  generalize run (call kzalloc) driver
    ((.initWildcards, nullPtr) :: line.before.flatMap Setting.requests) = reached at *
  obtain ⟨coreStaged, coreTable⟩ := core_call kzalloc line reached _ _ stagedBefore
  have coreCalls : (call kzalloc reached (.setIrq, wordPtr (atoi line.core.text))).calls =
      line.coreCall + 1 := by rw [← callsBefore]; rfl
  rw [tableBefore, callsBefore] at coreTable
  generalize call kzalloc reached (.setIrq, wordPtr (atoi line.core.text)) = stored at *
  obtain ⟨stagedAfter, tableAfter, callsAfter⟩ := staged_behind_core kzalloc line.after stored
  generalize run (call kzalloc) stored (line.after.flatMap Setting.requests) = last at *
  have committed : decoded (.setEntry, nullPtr) = .setEntry := by decide
  have entryMatch : stored.device.entryMatch =
      line.earlyConditions.foldl imposed coveringMatch := congrArg Staged.entryMatch coreStaged
  have irq : stored.device.irq = line.coreByte := congrArg Staged.irq coreStaged
  have all : line.conditions.foldl imposed coveringMatch =
      (line.after.map Setting.condition).foldl imposed
        (line.earlyConditions.foldl imposed coveringMatch) := by
    rw [Invocation.conditions, List.map_append, List.foldl_append, Invocation.earlyConditions]
  rw [driver_inserts kzalloc last (.setEntry, nullPtr) (by decide), committed, stagedAfter,
    tableAfter, coreTable, callsAfter, coreCalls, entryMatch, irq, ← all]
  rfl

/-- The tool leaves in the table the entry for all conditions, in front of the entry for
the conditions named before the core, each if the driver finds memory for it. -/
theorem table_after (line : Invocation) (dl : Mac) (device : DeviceState) :
    (runTool kzalloc line.argv dl device).2.flowTable =
      (if device.deviceOpen = 0 ∧ kzalloc line.commitCall then
        [ruleEntry line.conditions line.coreByte] else []) ++
      ((if device.deviceOpen = 0 ∧ kzalloc line.coreCall then
        [ruleEntry line.earlyConditions line.coreByte] else []) ++ device.flowTable) := by
  have enough : 2 ≤ line.argv.length := by
    simp only [Invocation.argv, List.length_cons, List.length_append]
    omega
  by_cases idle : device.deviceOpen = 0
  · have released (state : DeviceState) : (deviceRelease state).2.flowTable = state.flowTable := rfl
    rw [run_tool_makes dl device enough idle (makes_invocation line), released,
      session_table kzalloc line _ rfl, device_open_table]
    simp only [idle, true_and]
  · simp only [run_tool_busy dl device enough idle, idle, false_and, ↓reduceIte, List.nil_append]

end Inserting

section Meaning

/-- The table steers as the command line says: the packets that meet every condition,
and no others, are found an entry, and its core is the one named. -/
def Classifies (line : Invocation) (table : List VseFlowEntry) : Prop :=
  ∀ nwTos skb,
    ((vseLookUpFlowEntry nwTos skb table).value.1.isSome = true ↔
      ∀ condition ∈ line.conditions, condition.Holds skb) ∧
    ∀ entry, (vseLookUpFlowEntry nwTos skb table).value.1 = some entry →
      entry.irq.toNat = line.core.value

/-- The core to which the table steers the packet, if to any. This is all of the entry found that
matters to the packet. -/
def verdict (nwTos : Nat → Byte) (skb : SkBuff) (table : List VseFlowEntry) : Option Byte :=
  (vseLookUpFlowEntry nwTos skb table).value.1.map VseFlowEntry.irq

variable (line : Invocation)

/-- The entry of the core number is harmless: it comes with the last option, or its VNI is
one that no packet has. Where it is not inserted, the entry of the commit has to be,
unless no packet meets the conditions. -/
def OrderSafe (kzalloc : Nat → Bool) (device : DeviceState) : Prop :=
  if device.deviceOpen = 0 ∧ kzalloc line.coreCall then
    line.after = [] ∨ ¬ Matchable line.earlyConditions
  else
    (device.deviceOpen = 0 ∧ kzalloc line.commitCall) ∨ ¬ Matchable line.conditions

/-- Different options are conditions on different fields, and no option is given twice. -/
theorem conditions_once :
    line.conditions.Pairwise fun one other => one.position ≠ other.position := by
  have fields (one other : Setting) (different : one.option ≠ other.option) :
      one.condition.position ≠ other.condition.position := by
    cases one <;> cases other <;> first | exact absurd rfl different | simp [Setting.condition,
      Condition.position]
  exact List.Pairwise.map Setting.condition fields line.once

/-- The conditions named before the core are among all conditions. -/
theorem conditions_eq :
    line.conditions = line.earlyConditions ++ line.after.map Setting.condition := by
  rw [Invocation.conditions, List.map_append, Invocation.earlyConditions]

/-- The match for conditions on different fields represents them, as the covering match represents
none and each is added in turn. -/
theorem represents_conditions (conditions : List Condition)
    (once : conditions.Pairwise fun one other => one.position ≠ other.position) :
    Represents conditions (conditions.foldl imposed coveringMatch) :=
  represents_all [] conditions coveringMatch (represents_nil coveringMatch rfl) once

/-- So its entry accepts the packets that meet them, and no others. -/
theorem rule_accepted_iff (conditions : List Condition) (core : Byte)
    (once : conditions.Pairwise fun one other => one.position ≠ other.position)
    (nwTos : Byte) (skb : SkBuff) :
    accepted nwTos skb (ruleEntry conditions core) = true ↔
      ∀ condition ∈ conditions, condition.Holds skb := by
  rw [accepted_iff, ruleEntry, accepts_projected]
  exact accepts_iff_holds conditions _ (represents_conditions conditions once) _ skb

/-- No condition is one on VM_ID, since the tool has no option for it. So the unassigned pointer
has no part in its rules. -/
theorem rule_without_vm_id (conditions : List Condition) (core : Byte)
    (once : conditions.Pairwise fun one other => one.position ≠ other.position) :
    ¬ Restricts ofpfwVmId (ruleEntry conditions core).vseMatch := by
  rw [ruleEntry, restricts_projected, ofpfwVmId, restricts_iff_clear 21 (by decide),
    (represents_conditions conditions once).clear 21 (by decide)]
  rintro ⟨condition, _, position⟩
  cases condition <;> cases position

/-- The table with or without the entry of the commit and that of the core number, as the driver
found memory for them. -/
def insertedTable (commit core : Prop) [Decidable commit] [Decidable core] : List VseFlowEntry :=
  (if commit then [ruleEntry line.conditions line.coreByte] else []) ++
    (if core then [ruleEntry line.earlyConditions line.coreByte] else [])

variable (commit core : Prop) [Decidable commit] [Decidable core]

theorem mem_inserted_table {entry : VseFlowEntry}
    (member : entry ∈ insertedTable line commit core) :
    entry = ruleEntry line.conditions line.coreByte ∨
      entry = ruleEntry line.earlyConditions line.coreByte := by
  rcases List.mem_append.mp member with first | second
  · split at first
    · exact Or.inl (List.mem_singleton.mp first)
    · cases first
  · split at second
    · exact Or.inr (List.mem_singleton.mp second)
    · cases second

theorem inserted_table_without_vm_id :
    ∀ entry ∈ insertedTable line commit core, ¬ Restricts ofpfwVmId entry.vseMatch := by
  have once := conditions_once line
  have onceEarly := (List.pairwise_append.mp (conditions_eq line ▸ once)).1
  intro entry member
  rcases mem_inserted_table line commit core member with rfl | rfl
  · exact rule_without_vm_id _ _ once
  · exact rule_without_vm_id _ _ onceEarly

/-- The table of a line finds an entry for the packets that meet the conditions of one of its
entries. -/
theorem inserted_table_found (nwTos : Nat → Byte) (skb : SkBuff) :
    (vseLookUpFlowEntry nwTos skb (insertedTable line commit core)).value.1.isSome = true ↔
      (commit ∧ ∀ condition ∈ line.conditions, condition.Holds skb) ∨
        (core ∧ ∀ condition ∈ line.earlyConditions, condition.Holds skb) := by
  have once := conditions_once line
  have onceEarly := (List.pairwise_append.mp (conditions_eq line ▸ once)).1
  rw [look_up_without_vm_id _ _ _ (inserted_table_without_vm_id line commit core),
    List.find?_isSome, ← rule_accepted_iff line.conditions line.coreByte once 0,
    ← rule_accepted_iff line.earlyConditions line.coreByte onceEarly 0]
  by_cases commits : commit <;> by_cases stores : core <;>
    simp [insertedTable, commits, stores]

/-- Every entry found has the core named on the command line, whichever of the two it is. -/
theorem inserted_table_core (nwTos : Nat → Byte) (skb : SkBuff) (entry : VseFlowEntry)
    (found : (vseLookUpFlowEntry nwTos skb (insertedTable line commit core)).value.1 = some entry) :
    entry.irq.toNat = line.core.value := by
  have irq : entry.irq = line.coreByte := by
    rcases mem_inserted_table line commit core (look_up_mem found) with rfl | rfl <;> rfl
  have small := line.core_lt
  rw [irq, Invocation.coreByte, BitVec.toNat_ofNat, Nat.mod_eq_of_lt (by omega)]

/-- With the entry of the core number, the table steers as it should when no condition is
left to read, or when that entry matches nothing. -/
theorem early_entry_safe_iff (stores : core) :
    Classifies line (insertedTable line commit core) ↔
      line.after = [] ∨ ¬ Matchable line.earlyConditions := by
  have split := conditions_eq line
  have once := split ▸ conditions_once line
  obtain ⟨onceEarly, _, apart⟩ := List.pairwise_append.mp once
  constructor
  · intro classifies
    by_contra unsafeOrder
    rw [not_or, not_not] at unsafeOrder
    obtain ⟨late, matchable⟩ := unsafeOrder
    obtain ⟨setting, rest, behind⟩ := List.exists_cons_of_ne_nil late
    have isLate : setting.condition ∈ line.after.map Setting.condition := by
      rw [behind]
      exact List.mem_cons_self
    obtain ⟨skb, early, fails⟩ := separating_frame line.earlyConditions _
      (represents_conditions _ onceEarly) matchable setting.condition
      fun condition member => apart condition member setting.condition isLate
    have found := (inserted_table_found line commit core (fun _ => 0) skb).mpr
      (Or.inr ⟨stores, early⟩)
    refine fails ((classifies (fun _ => 0) skb).1.mp found setting.condition ?_)
    rw [split]
    exact List.mem_append_right _ isLate
  · intro safe nwTos skb
    have early (holds : ∀ condition ∈ line.earlyConditions, condition.Holds skb) :
        ∀ condition ∈ line.conditions, condition.Holds skb := by
      rcases safe with last | unmatchable
      · rwa [split, last, List.map_nil, List.append_nil]
      · exact absurd (matchable_of_holds _ skb holds) unmatchable
    refine ⟨?_, ?_⟩
    · rw [inserted_table_found]
      constructor
      · rintro (⟨_, holds⟩ | ⟨_, holds⟩)
        · exact holds
        · exact early holds
      · intro holds
        refine Or.inr ⟨stores, fun condition member => holds condition ?_⟩
        rw [split]
        exact List.mem_append_left _ member
    · exact inserted_table_core line commit core nwTos skb

/-- Without it, the entry of the commit is all there is to find. Where it is missing too, no
packet may meet the conditions. -/
theorem commit_entry_safe_iff (skipped : ¬ core) :
    Classifies line (insertedTable line commit core) ↔ commit ∨ ¬ Matchable line.conditions := by
  have once := conditions_once line
  constructor
  · intro classifies
    by_contra nothing
    rw [not_or, not_not] at nothing
    obtain ⟨skb, holds⟩ := meeting_frame line.conditions _ (represents_conditions _ once) nothing.2
    have found := (classifies (fun _ => 0) skb).1.mpr holds
    rw [inserted_table_found] at found
    rcases found with ⟨commits, _⟩ | ⟨stores, _⟩
    · exact nothing.1 commits
    · exact skipped stores
  · intro safe nwTos skb
    refine ⟨?_, ?_⟩
    · rw [inserted_table_found]
      constructor
      · rintro (⟨_, holds⟩ | ⟨stores, _⟩)
        · exact holds
        · exact absurd stores skipped
      · intro holds
        rcases safe with commits | unmatchable
        · exact Or.inl ⟨commits, holds⟩
        · exact absurd (matchable_of_holds _ skb holds) unmatchable
    · exact inserted_table_core line commit core nwTos skb

/-- Two tables that steer as command lines with the same options say, in any order,
classify every packet alike. -/
theorem classifies_verdict (other : Invocation) (sameCore : other.core = line.core)
    (permuted : (other.before ++ other.after).Perm (line.before ++ line.after))
    (table otherTable : List VseFlowEntry) (classifies : Classifies line table)
    (otherClassifies : Classifies other otherTable) (nwTos : Nat → Byte) (skb : SkBuff) :
    verdict nwTos skb otherTable = verdict nwTos skb table := by
  have same : (∀ condition ∈ other.conditions, condition.Holds skb) ↔
      ∀ condition ∈ line.conditions, condition.Holds skb := by
    simp only [Invocation.conditions, (permuted.map Setting.condition).mem_iff]
  obtain ⟨found, irq⟩ := classifies nwTos skb
  obtain ⟨otherFound, otherIrq⟩ := otherClassifies nwTos skb
  rw [same, ← found] at otherFound
  unfold verdict
  cases this : (vseLookUpFlowEntry nwTos skb table).value.1 with
  | none =>
    rw [this] at otherFound
    rw [Option.not_isSome_iff_eq_none.mp (mt otherFound.mp (by decide))]
  | some entry =>
    rw [this] at otherFound
    obtain ⟨otherEntry, that⟩ := Option.isSome_iff_exists.mp (otherFound.mpr rfl)
    have equal : otherEntry.irq.toNat = entry.irq.toNat := by
      rw [otherIrq otherEntry that, irq entry this, sameCore]
    rw [that, Option.map_some, Option.map_some, BitVec.eq_of_toNat_eq equal]

/-- The meaning of a command line, and exactly when the tool keeps it. Run against an empty table,
it leaves a table that steers every packet as the command line says if and only if the order of
the options is safe: the entry that the core number inserts on its own does no harm when no
condition is left to read, or when a condition read already can never be met. Command lines that
differ in a safe order alone classify every packet alike.

Proof: the table holds the entry of the commit in front of that of the core number, which asks for
fewer conditions. If a condition is left to read and those before it can be met, some packet meets
them and fails that condition; it is steered though it should not be. Otherwise the entry of the
core number accepts what the other one does, or nothing. -/
theorem classifies_iff_order_safe (kzalloc : Nat → Bool) (dl : Mac) (device : DeviceState)
    (empty : device.flowTable = []) :
    (Classifies line (runTool kzalloc line.argv dl device).2.flowTable ↔
      OrderSafe line kzalloc device) ∧
    ∀ other : Invocation, other.core = line.core →
      (other.before ++ other.after).Perm (line.before ++ line.after) →
      OrderSafe line kzalloc device → OrderSafe other kzalloc device → ∀ nwTos skb,
        verdict nwTos skb (runTool kzalloc other.argv dl device).2.flowTable =
          verdict nwTos skb (runTool kzalloc line.argv dl device).2.flowTable := by
  have safe (line : Invocation) :
      Classifies line (runTool kzalloc line.argv dl device).2.flowTable ↔
        OrderSafe line kzalloc device := by
    have table : (runTool kzalloc line.argv dl device).2.flowTable =
        insertedTable line (device.deviceOpen = 0 ∧ kzalloc line.commitCall)
          (device.deviceOpen = 0 ∧ kzalloc line.coreCall) := by
      rw [table_after, empty, List.append_nil]
      rfl
    rw [table, OrderSafe]
    by_cases stores : device.deviceOpen = 0 ∧ kzalloc line.coreCall
    · rw [if_pos stores]
      exact early_entry_safe_iff line _ _ stores
    · rw [if_neg stores]
      exact commit_entry_safe_iff line _ _ stores
  refine ⟨safe line, ?_⟩
  intro other sameCore permuted lineSafe otherSafe nwTos skb
  exact classifies_verdict line other sameCore permuted _ _ ((safe line).mpr lineSafe)
    ((safe other).mpr otherSafe) nwTos skb

/-- The number 10. -/
def tenWord : DecimalWord :=
  ⟨['1', '0'], List.all_eq_true.mp rfl, List.cons_ne_nil _ _, by decide⟩

def threeWord : DecimalWord := ⟨['3'], List.all_eq_true.mp rfl, List.cons_ne_nil _ _, by decide⟩

/-- `--vni 10 --irq 3`. -/
def coreLast : Invocation where
  program := ['v', 's', 'e']
  before := [.vni tenWord]
  core := threeWord
  after := []
  program_plain := by decide
  core_lt := by decide
  once := List.pairwise_singleton _ _

/-- `--irq 3 --vni 10`, the same options in the order that is not safe. -/
def coreFirst : Invocation where
  program := ['v', 's', 'e']
  before := []
  core := threeWord
  after := [.vni tenWord]
  program_plain := by decide
  core_lt := by decide
  once := List.pairwise_singleton _ _

/-- With the core named last, the tool steers the packets of VNI 10 and no others, as the command
line says. -/
theorem core_last_classifies :
    Classifies coreLast
      (runTool (fun _ => true) coreLast.argv (fun _ => 0) moduleLoad).2.flowTable :=
  (classifies_iff_order_safe coreLast (fun _ => true) (fun _ => 0) moduleLoad rfl).1.mpr
    (Or.inl rfl)

/-- With the core named first, it steers a packet of VNI 11 too, by the entry that the core number
inserted on its own. -/
theorem core_first_misclassifies :
    let table := (runTool (fun _ => true) coreFirst.argv (fun _ => 0) moduleLoad).2.flowTable
    let skb := vxlanFrame (fun _ => 0) (fun _ => 0) 11
    packetVni skb = 11 ∧ verdict (fun _ => 0) skb table = some 3 ∧
      ¬ Classifies coreFirst table := by
  intro table skb
  have entries : table = [ruleEntry coreFirst.conditions coreFirst.coreByte,
      ruleEntry coreFirst.earlyConditions coreFirst.coreByte] :=
    table_after _ coreFirst _ moduleLoad
  have vni : packetVni skb = 11 := by decide
  have steered : verdict (fun _ => 0) skb table = some 3 := by
    rw [entries]
    decide
  refine ⟨vni, steered, ?_⟩
  intro classifies
  obtain ⟨entry, found, _⟩ := Option.map_eq_some_iff.mp steered
  have meets := (classifies (fun _ => 0) skb).1.mp (Option.isSome_iff_exists.mpr ⟨entry, found⟩)
  have ten : packetVni skb = BitVec.ofNat 32 tenWord.value := meets _ List.mem_cons_self
  rw [vni] at ten
  exact absurd ten (by decide)

end Meaning

end Vse.CommandLine

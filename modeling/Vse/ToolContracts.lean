import Vse.CommandLine
import Vse.StagedHistory
import Vse.WordReading

/-!
# What the tool accepts and what it passes on

The usage text promises options with values. The tool keeps no such grammar: words it does
not know are passed over, every text counts as a number, and once the device is open the only
way not to exit with 0 is to be killed for want of a value.

A number is read into an `unsigned int`. It is never negative there, so no check refuses it.
The VNI is then copied whole, and of the core number the driver reads one byte.
-/

namespace Vse.ToolContracts

open CStrings Words SocketBuffer FlowTable Matching Device StagedCommands StagedHistory
  SetEntryTool CommandLine WordReading Runs

section Grammar

/-- An option with a well-formed value: a decimal number in the option's range, or six bytes of
one or two hexadecimal digits each with colons between them. -/
inductive WellFormedPair : CString → CString → Prop where
  | vni (word : DecimalWord) (inRange : word.value < 2 ^ 24) : WellFormedPair vniOption word.text
  | irq (word : DecimalWord) (inRange : word.value < 255) : WellFormedPair irqOption word.text
  | dlIndst (bytes : Fin 6 → HexByte) : WellFormedPair dlIndstOption (joined (List.ofFn bytes))
  | dlDst (bytes : Fin 6 → HexByte) : WellFormedPair dlDstOption (joined (List.ofFn bytes))

/-- The grammar: one such pair or more. -/
inductive WellFormed : List CString → Prop where
  | one {option value : CString} (pair : WellFormedPair option value) :
      WellFormed [option, value]
  | more {option value : CString} {rest : List CString} (pair : WellFormedPair option value)
      (others : WellFormed rest) : WellFormed (option :: value :: rest)

/-- The tool exits with an error and leaves the flow table alone, so nothing of what it was given
reaches the packets. -/
def Rejected (device : DeviceState) (result : Exit × DeviceState) : Prop :=
  (∃ code, code ≠ 0 ∧ result.1 = .exit code) ∧ result.2.flowTable = device.flowTable

/-- The tool accepts nothing but its grammar, whatever the device, its memory and the address
buffer hold: it inserts and exits with 0 on well-formed words only, and rejects all
others. -/
structure KeepsToGrammar (argv : List CString) : Prop where
  accepts : ∀ kzalloc dl device, (runTool kzalloc argv dl device).1 = .exit 0 →
    (runTool kzalloc argv dl device).2.flowTable ≠ device.flowTable → WellFormed argv.tail
  rejects : ¬ WellFormed argv.tail →
    ∀ kzalloc dl device, Rejected device (runTool kzalloc argv dl device)

/-- With fewer than two words the tool prints its usage and exits before it opens the device. -/
theorem run_tool_usage (kzalloc : Nat → Bool) (argv : List CString) (dl : Mac)
    (device : DeviceState) (few : argv.length < 2) :
    runTool kzalloc argv dl device = (.exit (-1), device) := by
  have ran : (main kzalloc argv).run.run ⟨⟨device, 0⟩, false, dl⟩ =
      (.error (.exit (-1)), ⟨⟨device, 0⟩, false, dl⟩) := by
    rw [main, if_pos few]
    rfl
  rw [runTool, ran]
  rfl

theorem value_not_option (option value : CString) (pair : WellFormedPair option value) :
    optionOf value = none := by
  have plain : value ∉ optionWords := by
    cases pair with
    | vni word => exact decimal_not_option word
    | irq word => exact decimal_not_option word
    | dlIndst bytes => exact address_not_option bytes
    | dlDst bytes => exact address_not_option bytes
  cases option : optionOf value with
  | none => rfl
  | some name =>
    obtain rfl := (option_of_eq_some_iff value name).mp option
    exact absurd (by cases name <;> decide) plain

/-- Words that end with a value are read to their end: only an option in the last place falls
through to the words behind `argv`. -/
theorem falling_tail_of_last (front : List CString) (value : CString)
    (plain : optionOf value = none) : fallingTail (front ++ [value]) = [] := by
  induction front with
  | nil => simp [fallingTail, plain]
  | cons text rest inductionHypothesis =>
    rw [List.cons_append, fallingTail, inductionHypothesis, if_neg]
    rintro ⟨_, whole, _⟩
    cases rest <;> cases whole

theorem well_formed_last (words : List CString) (wellFormed : WellFormed words) :
    ∃ front value, words = front ++ [value] ∧ optionOf value = none := by
  induction wellFormed with
  | one pair => exact ⟨[_], _, rfl, value_not_option _ _ pair⟩
  | more _ _ inductionHypothesis =>
    obtain ⟨front, value, rfl, plain⟩ := inductionHypothesis
    exact ⟨_ :: _ :: front, value, rfl, plain⟩

/-- With the device idle and at least one word given, all that is left is to exit with 0 or to be
killed at an option that ends the words, since no other branch of `main` looks at what the words
say. -/
theorem run_tool_ending (kzalloc : Nat → Bool) (argv : List CString) (dl : Mac)
    (device : DeviceState) (enough : 2 ≤ argv.length) (idle : device.deviceOpen = 0) :
    (runTool kzalloc argv dl device).1 =
      if (readFrom OptionName.all argv).complete then .exit 0 else .killed := by
  rw [run_tool_reads kzalloc argv dl device enough idle]

theorem well_formed_complete (argv : List CString) (enough : 2 ≤ argv.length)
    (wellFormed : WellFormed argv.tail) :
    (readFrom OptionName.all argv).complete = true := by
  obtain ⟨front, value, last, plain⟩ := well_formed_last argv.tail wellFormed
  cases argv with
  | nil => cases enough
  | cons program rest =>
    rw [List.tail_cons] at last
    rw [complete_iff, last, ← List.cons_append, falling_tail_of_last _ value plain]
    decide

/-- The tool keeps to its grammar on well-formed words, which it accepts with the device idle,
and on a command line without arguments, which it rejects, and on no others. -/
theorem keeps_iff (argv : List CString) :
    KeepsToGrammar argv ↔ argv.length < 2 ∨ WellFormed argv.tail := by
  constructor
  · intro keeps
    by_contra neither
    rw [not_or, Nat.not_lt] at neither
    obtain ⟨enough, illFormed⟩ := neither
    obtain ⟨⟨code, failed, exits⟩, _⟩ :=
      keeps.rejects illFormed (fun _ => true) (fun _ => 0) moduleLoad
    rw [run_tool_ending _ argv _ _ enough rfl] at exits
    split at exits
    · exact failed (Exit.exit.inj exits).symm
    · cases exits
  · rintro (few | wellFormed)
    · constructor
      · intro kzalloc dl device exits
        rw [run_tool_usage kzalloc argv dl device few] at exits
        cases exits
      · intro _ kzalloc dl device
        rw [run_tool_usage kzalloc argv dl device few]
        exact ⟨⟨-1, by decide, rfl⟩, rfl⟩
    · constructor
      · intro _ _ _ _ _
        exact wellFormed
      · intro illFormed
        exact absurd wellFormed illFormed

/-- When the tool keeps to its grammar. It does on well-formed words, which it accepts with the
device idle, and on a command line without arguments, which it rejects, and on no others: with the
device idle, all that is left is to exit with 0 or to be killed.

Proof: once the device is open `main` has no way to reject anything, as its checks of the numbers
are of unsigned ones and `sscanf`'s result is not looked at. A line of two words or more that is
not well formed is therefore accepted, or the tool is killed, and neither is a rejection. A
well-formed one ends with a value, and no value is an option, so every option finds its value and
the exit is 0. -/
theorem keeps_to_grammar_iff (argv : List CString) :
    (KeepsToGrammar argv ↔ argv.length < 2 ∨ WellFormed argv.tail) ∧
      ∀ kzalloc dl device, 2 ≤ argv.length → device.deviceOpen = 0 →
        ((runTool kzalloc argv dl device).1 = .exit 0 ∨
          (runTool kzalloc argv dl device).1 = .killed) ∧
        (WellFormed argv.tail → (runTool kzalloc argv dl device).1 = .exit 0) := by
  refine ⟨keeps_iff argv, ?_⟩
  intro kzalloc dl device enough idle
  rw [run_tool_ending kzalloc argv dl device enough idle]
  constructor
  · cases (readFrom OptionName.all argv).complete with
    | true => exact Or.inl rfl
    | false => exact Or.inr rfl
  · intro wellFormed
    rw [well_formed_complete argv enough wellFormed]
    rfl

theorem vni_line_accepted :
    (runTool (fun _ => true) [['v', 's', 'e'], vniOption, tenWord.text] (fun _ => 0)
      moduleLoad).1 = .exit 0 :=
  ((keeps_to_grammar_iff [['v', 's', 'e'], vniOption, tenWord.text]).2 (fun _ => true)
    (fun _ => 0) moduleLoad (by decide) rfl).2 (.one (.vni tenWord (by decide)))

/-- A word that is no option goes unnoticed: `--vm` and its number are passed over, and the tool
exits with 0, having inserted the entry for all packets. -/
theorem unknown_word_accepted :
    let argv : List CString := [['v', 's', 'e'], ['-', '-', 'v', 'm']]
    let result := runTool (fun _ => true) argv (fun _ => 0) moduleLoad
    result.1 = .exit 0 ∧ result.2.flowTable = [⟨coveringMatch, noIrq⟩] ∧
      ¬ KeepsToGrammar argv := by
  intro argv result
  have ran := run_tool_reads (fun _ => true) argv (fun _ => 0) moduleLoad (by decide) rfl
  have exits : result.1 = .exit 0 := congrArg Prod.fst ran
  have table : result.2.flowTable = [⟨coveringMatch, noIrq⟩] :=
    congrArg (fun result : Exit × DeviceState => result.2.flowTable) ran
  have illFormed : ¬ WellFormed argv.tail := by
    intro wellFormed
    cases wellFormed
  refine ⟨exits, table, ?_⟩
  intro keeps
  obtain ⟨⟨code, failed, exitsWith⟩, _⟩ :=
    keeps.rejects illFormed (fun _ => true) (fun _ => 0) moduleLoad
  exact failed (Exit.exit.inj (exits.symm.trans exitsWith)).symm

end Grammar

section Pairs

/-- The words of options and their values. -/
def pairWords (pairs : List (OptionName × CString)) : List CString :=
  pairs.flatMap fun pair => [pair.1.word, pair.2]

/-- A value that is no option is taken and done with, and the words behind it are read as if they
came first. -/
theorem read_pair (name : OptionName) (value : CString) (rest : List CString)
    (plain : optionOf value = none) :
    readFrom OptionName.all (name.word :: value :: rest) =
      ⟨(name, value) :: (readFrom OptionName.all rest).taken,
        (readFrom OptionName.all rest).complete⟩ := by
  have known := (option_of_eq_some_iff name.word name).mpr rfl
  have never : testedLater name.word value = false := by
    rw [testedLater, known]
    apply List.any_eq_false.mpr
    intro other _ same
    rw [(option_of_eq_some_iff value other).mpr (of_decide_eq_true same)] at plain
    cases plain
  rw [read_option, read_not_tested_later name value rest never]

theorem read_pairs (pairs : List (OptionName × CString))
    (plain : ∀ pair ∈ pairs, optionOf pair.2 = none) :
    readFrom OptionName.all (pairWords pairs) = ⟨pairs, true⟩ := by
  induction pairs with
  | nil => rfl
  | cons pair rest inductionHypothesis =>
    obtain ⟨first, others⟩ := List.forall_mem_cons.mp plain
    have words : pairWords (pair :: rest) = pair.1.word :: pair.2 :: pairWords rest := rfl
    rw [words, read_pair pair.1 pair.2 _ first, inductionHypothesis others]

/-- A command line that gives an option a number, once, among other options in any order. None of
their values is an option word itself, so that no value is taken for an option. -/
structure ToolLine (name : OptionName) where
  program : CString
  before : List (OptionName × CString)
  word : IntWord
  after : List (OptionName × CString)
  program_plain : optionOf program = none
  values_plain : ∀ pair ∈ before ++ after, optionOf pair.2 = none
  once : ∀ pair ∈ before ++ after, pair.1 ≠ name

def ToolLine.pairs {name : OptionName} (line : ToolLine name) : List (OptionName × CString) :=
  line.before ++ (name, line.word.text) :: line.after

/-- The words of the line, with the name of the tool in front. -/
def ToolLine.argv {name : OptionName} (line : ToolLine name) : List CString :=
  line.program :: pairWords line.pairs

theorem ToolLine.two_words {name : OptionName} (line : ToolLine name) : 2 ≤ line.argv.length := by
  rw [ToolLine.argv, ToolLine.pairs, pairWords, List.flatMap_append, List.flatMap_cons]
  simp only [List.length_cons, List.length_append]
  omega

/-- A number is no option. -/
theorem int_not_option (word : IntWord) : optionOf word.text = none := by
  obtain ⟨first, others, start⟩ := List.exists_cons_of_ne_nil word.nonempty
  have digit := word.areDigits first (by rw [start]; exact List.mem_cons_self)
  cases option : optionOf word.text with
  | none => rfl
  | some name =>
    have same := (option_of_eq_some_iff word.text name).mp option
    have dash : ∃ rest, name.word = '-' :: '-' :: rest := by
      cases name <;> exact ⟨_, rfl⟩
    obtain ⟨rest, dashes⟩ := dash
    rw [dashes, IntWord.text, start] at same
    split at same
    · rw [← (List.cons.inj (List.cons.inj same).2).1] at digit
      cases digit
    · rw [← (List.cons.inj same).1] at digit
      cases digit

/-- The tool reads such a line as it stands, each option with its own value, and no option at its
end is left without one. -/
theorem read_line {name : OptionName} (line : ToolLine name) :
    readFrom OptionName.all line.argv = ⟨line.pairs, true⟩ := by
  rw [ToolLine.argv, read_plain _ _ line.program_plain]
  apply read_pairs
  intro pair member
  rcases List.mem_append.mp member with inFront | behind
  · exact line.values_plain pair (List.mem_append_left _ inFront)
  · rcases List.mem_cons.mp behind with rfl | inBack
    · exact int_not_option line.word
    · exact line.values_plain pair (List.mem_append_right _ inBack)

/-- The address buffer after several options: `sscanf` writes to the same six bytes for either
address, and a value that it cannot read leaves the rest as they were. -/
def bufferAfter (dl : Mac) (pairs : List (OptionName × CString)) : Mac :=
  run (fun dl pair => OptionName.buffer dl pair.1 pair.2) dl pairs

/-- The calls for several options come one after the other. -/
theorem requests_of_append (dl : Mac) (front back : List (OptionName × CString)) :
    requestsOf dl (front ++ back) =
      requestsOf dl front ++ requestsOf (bufferAfter dl front) back := by
  induction front generalizing dl with
  | nil => rfl
  | cons pair rest inductionHypothesis =>
    rw [List.cons_append, requestsOf, requestsOf, inductionHypothesis, List.append_assoc]
    rfl

theorem mem_requests_of (dl : Mac) (pairs : List (OptionName × CString))
    (input : Request × UserPtr) (member : input ∈ requestsOf dl pairs) :
    ∃ pair ∈ pairs, ∃ held, input ∈ pair.1.requests held pair.2 := by
  induction pairs generalizing dl with
  | nil => cases member
  | cons pair rest inductionHypothesis =>
    rcases List.mem_append.mp member with own | later
    · exact ⟨pair, List.mem_cons_self, dl, own⟩
    · obtain ⟨other, behind, held, made⟩ := inductionHypothesis _ later
      exact ⟨other, List.mem_cons_of_mem pair behind, held, made⟩

end Pairs

section Insertions

/-- The option whose calls stand for the command. `INIT_WILDCARDS` and `SET_ENTRY` belong to no
option, as `main` makes them for every line. -/
def optionOfCommand : Command → Option OptionName
  | .setVni _ => some .vni
  | .setIrq _ => some .irq
  | .setDlIndst _ _ => some .dlIndst
  | .setDlDst _ _ => some .dlDst
  | _ => none

/-- A VNI is passed on whole. -/
theorem decoded_vni (word : BitVec 32) : decoded (.setVni, wordPtr word) = .setVni word := by
  simp [decoded, commandOf, of_code_code]

/-- Of a core number the low byte is passed on: `vse_set_irq` reads one byte of the word that the
tool points to. -/
theorem decoded_irq (word : BitVec 32) :
    decoded (.setIrq, wordPtr word) = .setIrq (byteAt word 0) := by
  have low : (getUserByte (wordPtr word)).stored = byteAt word 0 := rfl
  simp [decoded, commandOf, of_code_code, low]

/-- An inner address is passed on byte by byte. -/
theorem decoded_dl_indst (index : Fin 6) (byte : Byte) :
    decoded (dlIndstRequest index, bytePtr byte) = .setDlIndst index byte := by
  match index with
  | 0 | 1 | 2 | 3 | 4 | 5 => simp [dlIndstRequest, decoded, commandOf, of_code_code]

theorem decoded_dl_dst (index : Fin 6) (byte : Byte) :
    decoded (dlDstRequest index, bytePtr byte) = .setDlDst index byte := by
  match index with
  | 0 | 1 | 2 | 3 | 4 | 5 => simp [dlDstRequest, decoded, commandOf, of_code_code]

/-- The calls of an option stand for commands of that option alone, which is what lets the
settings of a line be followed one option at a time. -/
theorem requests_command (dl : Mac) (name : OptionName) (value : CString)
    (input : Request × UserPtr) (member : input ∈ name.requests dl value) :
    optionOfCommand (decoded input) = some name := by
  cases name with
  | vni =>
    obtain rfl := List.mem_singleton.mp member
    rw [decoded_vni]
    rfl
  | irq =>
    obtain rfl := List.mem_singleton.mp member
    rw [decoded_irq]
    rfl
  | dlIndst =>
    obtain ⟨index, rfl⟩ := (List.mem_ofFn' _ _).mp member
    exact congrArg optionOfCommand (decoded_dl_indst index _)
  | dlDst =>
    obtain ⟨index, rfl⟩ := (List.mem_ofFn' _ _).mp member
    exact congrArg optionOfCommand (decoded_dl_dst index _)

/-- The calls for options other than the line's own. -/
theorem others_command {name : OptionName} (line : ToolLine name) (dl : Mac)
    (pairs : List (OptionName × CString))
    (within : ∀ pair ∈ pairs, pair ∈ line.before ++ line.after)
    (input : Request × UserPtr) (member : input ∈ requestsOf dl pairs) :
    ∃ other, other ≠ name ∧ optionOfCommand (decoded input) = some other := by
  obtain ⟨pair, present, held, made⟩ := mem_requests_of dl pairs input member
  exact ⟨pair.1, line.once pair (within pair present), requests_command held pair.1 pair.2 _ made⟩

variable (kzalloc : Nat → Bool)

/-- What a call leaves staged is the rule staged before with the call's command applied, whether
or not the call inserts an entry as well. -/
theorem call_stages (before : Driver) (input : Request × UserPtr) :
    staged (call kzalloc before input).device = stage (staged before.device) (decoded input) :=
  driver_staged kzalloc before [input]

/-- An entry that a call adds is made from the rule that it leaves staged. -/
theorem call_adds (good : Staged → Prop) (before : Driver) (input : Request × UserPtr)
    (leaves : good (stage (staged before.device) (decoded input))) :
    ∃ new, (call kzalloc before input).device.flowTable = new ++ before.device.flowTable ∧
      ∀ entry ∈ new, ∃ rule, good rule ∧ entry = rule.entry := by
  refine ⟨_, step_table before.device _, ?_⟩
  intro entry member
  rw [inserted_eq] at member
  split at member
  · exact ⟨_, leaves, List.mem_singleton.mp member⟩
  · cases member

/-- The entries that calls add are staged rules. When the first call stages a good rule,
whatever was staged before, and the others keep it good, all of them are good ones. -/
theorem driver_adds (good : Staged → Prop) (first : Request × UserPtr)
    (made : List (Request × UserPtr))
    (established : ∀ before, good (stage before (decoded first)))
    (preserved : ∀ input ∈ made, ∀ before, good before → good (stage before (decoded input)))
    (driver : Driver) :
    good (staged (run (call kzalloc) driver (first :: made)).device) ∧
      ∃ new, (run (call kzalloc) driver (first :: made)).device.flowTable =
          new ++ driver.device.flowTable ∧
        ∀ entry ∈ new, ∃ rule, good rule ∧ entry = rule.entry := by
  rw [run_cons]
  refine run_invariant_of_along (call kzalloc)
    (fun _ input => ∀ before, good before → good (stage before (decoded input)))
    (fun after => good (staged after.device) ∧
      ∃ new, after.device.flowTable = new ++ driver.device.flowTable ∧
        ∀ entry ∈ new, ∃ rule, good rule ∧ entry = rule.entry) ?_ _ made
    ((along_const_iff _ _ _ _).mpr preserved) ?_
  · rintro before input keeps ⟨holds, new, table, made⟩
    have leaves := keeps (staged before.device) holds
    obtain ⟨front, added, ruled⟩ := call_adds kzalloc good before input leaves
    refine ⟨(call_stages kzalloc before input).symm ▸ leaves, front ++ new, ?_, ?_⟩
    · rw [added, table, List.append_assoc]
    · intro entry member
      rcases List.mem_append.mp member with own | earlier
      · exact ruled entry own
      · exact made entry earlier
  · have leaves := established (staged driver.device)
    exact ⟨(call_stages kzalloc driver first).symm ▸ leaves,
      call_adds kzalloc good driver first leaves⟩

def ToolLine.front {name : OptionName} (line : ToolLine name) (dl : Mac) :
    List (Request × UserPtr) :=
  (.initWildcards, nullPtr) :: requestsOf dl line.before

def ToolLine.back {name : OptionName} (line : ToolLine name) (dl : Mac) :
    List (Request × UserPtr) :=
  requestsOf (name.buffer (bufferAfter dl line.before) line.word.text) line.after

/-- A session that reads the line makes its calls in three stretches, before, for and behind the
line's number, and ends with the commit. -/
theorem session_requests_line {name : OptionName} (line : ToolLine name) (dl : Mac) :
    sessionRequests dl line.argv = line.front dl ++
      (name.requests (bufferAfter dl line.before) line.word.text ++
        (line.back dl ++ [(.setEntry, nullPtr)])) := by
  rw [sessionRequests, read_line, ToolLine.pairs, requests_of_append, requestsOf]
  simp only [↓reduceIte, List.append_assoc, ToolLine.front, ToolLine.back, List.cons_append]

/-- The calls before the number start a new rule and are for other options. -/
theorem front_command {name : OptionName} (line : ToolLine name) (dl : Mac)
    (input : Request × UserPtr) (member : input ∈ line.front dl) :
    decoded input = .initWildcards ∨
      ∃ other, other ≠ name ∧ optionOfCommand (decoded input) = some other := by
  rcases List.mem_cons.mp member with rfl | inFront
  · exact Or.inl rfl
  · exact Or.inr (others_command line dl line.before
      (fun _ present => List.mem_append_left _ present) input inFront)

/-- Those behind it are for other options. -/
theorem back_command {name : OptionName} (line : ToolLine name) (dl : Mac)
    (input : Request × UserPtr) (member : input ∈ line.back dl) :
    ∃ other, other ≠ name ∧ optionOfCommand (decoded input) = some other :=
  others_command line _ line.after (fun _ present => List.mem_append_right _ present) input
    member

end Insertions

section Numbers

variable (kzalloc : Nat → Bool) (dl : Mac) (device : DeviceState)

/-- What a session leaves of the flow table is what its calls leave: opening and closing the
device do not touch it, and the device is opened as it was idle. -/
theorem line_run {name : OptionName} (line : ToolLine name) (idle : device.deviceOpen = 0) :
    (runTool kzalloc line.argv dl device).1 = .exit 0 ∧
      (runTool kzalloc line.argv dl device).2.flowTable =
        (run (call kzalloc) ⟨(deviceOpen device).2, 0⟩
          (sessionRequests dl line.argv)).device.flowTable ∧
      (deviceOpen device).2.flowTable = device.flowTable := by
  rw [run_tool_reads kzalloc line.argv dl device line.two_words idle, read_line]
  exact ⟨rfl, rfl, device_open_table device⟩

/-- Options other than `--irq` insert nothing and leave the core number alone. -/
theorem stage_other_irq (before : Staged) (command : Command) (other : OptionName)
    (isOther : other ≠ .irq) (command_of : optionOfCommand command = some other) :
    command.inserts = false ∧ (stage before command).irq = before.irq := by
  cases command with
  | setIrq byte => exact absurd (Option.some.inj command_of).symm isOther
  | initWildcards => cases command_of
  | setEntry => cases command_of
  | unhandled => cases command_of
  | setVmId byte => cases command_of
  | setVni word => exact ⟨rfl, rfl⟩
  | setDlIndst index byte => exact ⟨rfl, rfl⟩
  | setDlDst index byte => exact ⟨rfl, rfl⟩

/-- All entries that a line with `--irq` adds have the low byte of its number: the number's own
call inserts with it, and no later call but the commit inserts again. -/
theorem irq_line_adds (line : ToolLine .irq) (idle : device.deviceOpen = 0) :
    ∃ new, (runTool kzalloc line.argv dl device).2.flowTable = new ++ device.flowTable ∧
      ∀ entry ∈ new, entry.irq = byteAt (BitVec.ofInt 32 line.word.value) 0 := by
  obtain ⟨_, table, opened⟩ := line_run kzalloc dl device line idle
  -- Nothing is inserted before the number is stored.
  have quiet := driver_quiet kzalloc ⟨(deviceOpen device).2, 0⟩ (line.front dl) (by
    intro input member
    rcases front_command line dl input member with start | ⟨other, isOther, command⟩
    · rw [start]
      rfl
    · exact (stage_other_irq ⟨zeroMatch, 0⟩ _ other isOther command).1)
  obtain ⟨_, new, added, ruled⟩ := driver_adds kzalloc
    (fun rule => rule.irq = byteAt (atoi line.word.text) 0)
    (.setIrq, wordPtr (atoi line.word.text)) (line.back dl ++ [(.setEntry, nullPtr)])
    (fun before => by rw [decoded_irq]; rfl)
    (by
      intro input member before holds
      rcases List.mem_append.mp member with inBack | commit
      · obtain ⟨other, isOther, command⟩ := back_command line dl input inBack
        rw [(stage_other_irq before _ other isOther command).2]
        exact holds
      · obtain rfl := List.mem_singleton.mp commit
        exact holds)
    (run (call kzalloc) ⟨(deviceOpen device).2, 0⟩ (line.front dl))
  refine ⟨new, ?_, ?_⟩
  · rw [table, session_requests_line, run_append, ← opened, ← quiet]
    exact added
  · intro entry member
    obtain ⟨rule, holds, rfl⟩ := ruled entry member
    rw [← atoi_int]
    exact holds

/-- Options other than `--vni` leave the VNI as open as it is, and as it is. -/
theorem stage_other_vni (before : Staged) (command : Command) (other : OptionName)
    (isOther : other ≠ .vni) (command_of : optionOfCommand command = some other) :
    (Restricts ofpfwVxlanVni (stage before command).entryMatch ↔
        Restricts ofpfwVxlanVni before.entryMatch) ∧
      (stage before command).entryMatch.vxVni = before.entryMatch.vxVni := by
  have position (vseMatch : VseMatch) := restricts_iff_clear 8 (by decide) vseMatch
  have opens (plain : isInit command = false) (completed : completes command ≠ some 8) :
      Restricts ofpfwVxlanVni (stage before command).entryMatch ↔
        Restricts ofpfwVxlanVni before.entryMatch := by
    rw [ofpfwVxlanVni, position, position, clear_stage before command plain]
    exact or_iff_left completed
  cases command with
  | setVni word => exact absurd (Option.some.inj command_of).symm isOther
  | initWildcards => cases command_of
  | setEntry => cases command_of
  | unhandled => cases command_of
  | setVmId byte => cases command_of
  | setIrq byte => exact ⟨Iff.rfl, rfl⟩
  | setDlIndst index byte =>
    refine ⟨opens rfl ?_, ?_⟩
    · simp only [completes]
      split <;> decide
    · simp only [stage]
      split <;> rfl
  | setDlDst index byte =>
    refine ⟨opens rfl ?_, ?_⟩
    · simp only [completes]
      split <;> decide
    · simp only [stage]
      split <;> rfl

/-- An entry made from a staged rule has the rule's VNI, where it restricts it. -/
theorem entry_vni (rule : Staged) :
    (Restricts ofpfwVxlanVni rule.entry.vseMatch ↔ Restricts ofpfwVxlanVni rule.entryMatch) ∧
      (Restricts ofpfwVxlanVni rule.entryMatch →
        rule.entry.vseMatch.vxVni = rule.entryMatch.vxVni) := by
  refine ⟨restricts_projected _ _ _, ?_⟩
  intro isOpen
  rw [Staged.entry, set_entry_match_eq]
  exact if_pos isOpen

def lastCall (argv : List CString) : Nat := (sessionRequests dl argv).length - 1

/-- A line's rule has the line's VNI, once it restricts it. An entry inserted before the number is
read leaves the VNI open. -/
def HasVni (word : IntWord) (rule : Staged) : Prop :=
  Restricts ofpfwVxlanVni rule.entryMatch → rule.entryMatch.vxVni = BitVec.ofInt 32 word.value

/-- The number opens the VNI, whatever was staged before, and sets it to the four bytes that the
tool converted. -/
theorem stage_vni (word : IntWord) (before : Staged) :
    Restricts ofpfwVxlanVni (stage before (.setVni (BitVec.ofInt 32 word.value))).entryMatch ∧
      HasVni word (stage before (.setVni (BitVec.ofInt 32 word.value))) := by
  have opened := (clear_stage before (.setVni (BitVec.ofInt 32 word.value)) rfl 8).mpr
    (Or.inr rfl)
  exact ⟨(restricts_iff_clear 8 (by decide) _).mpr opened, fun _ => rfl⟩

/-- Before the commit, all rules of a line with `--vni` have its number. -/
theorem vni_calls_add (line : ToolLine .vni) (driver : Driver) :
    let after := run (call kzalloc) driver
      (line.front dl ++ (.setVni, wordPtr (atoi line.word.text)) :: line.back dl)
    HasVni line.word (staged after.device) ∧
      ∃ new, after.device.flowTable = new ++ driver.device.flowTable ∧
        ∀ entry ∈ new, ∃ rule, HasVni line.word rule ∧ entry = rule.entry := by
  apply driver_adds
  · intro before isOpen
    have covers : ¬ Restricts ofpfwVxlanVni { zeroMatch with wildcards := ofpfwAll } := by decide
    exact absurd isOpen covers
  · intro input member before holds
    rcases List.mem_append.mp member with inFront | behind
    · rcases front_command line dl input (List.mem_cons_of_mem _ inFront) with
        start | ⟨other, isOther, command⟩
      · intro isOpen
        have covers : ¬ Restricts ofpfwVxlanVni { zeroMatch with wildcards := ofpfwAll } := by
          decide
        rw [start] at isOpen
        exact absurd isOpen covers
      · obtain ⟨same, vni⟩ := stage_other_vni before _ other isOther command
        rw [HasVni, same, vni]
        exact holds
    · rcases List.mem_cons.mp behind with rfl | inBack
      · rw [decoded_vni, atoi_int]
        exact (stage_vni line.word before).2
      · obtain ⟨other, isOther, command⟩ := back_command line dl input inBack
        obtain ⟨same, vni⟩ := stage_other_vni before _ other isOther command
        rw [HasVni, same, vni]
        exact holds

/-- At the commit the rule restricts the VNI, so that the entry it makes has the line's number. -/
theorem vni_calls_open (line : ToolLine .vni) (driver : Driver) :
    let after := run (call kzalloc) driver
      (line.front dl ++ (.setVni, wordPtr (atoi line.word.text)) :: line.back dl)
    Restricts ofpfwVxlanVni (staged after.device).entryMatch := by
  intro after
  simp only [after, run_append]
  refine (driver_adds kzalloc (fun rule => Restricts ofpfwVxlanVni rule.entryMatch) _ _ ?_ ?_ _).1
  · intro before
    rw [decoded_vni, atoi_int]
    exact (stage_vni line.word before).1
  · intro input inBack before holds
    obtain ⟨other, isOther, command⟩ := back_command line dl input inBack
    exact (stage_other_vni before _ other isOther command).1.mpr holds

/-- All entries that a line with `--vni` adds have its number, where they restrict the VNI, and
the entry of the commit does restrict it. -/
theorem vni_line_adds (line : ToolLine .vni) (idle : device.deviceOpen = 0) :
    ∃ new, (runTool kzalloc line.argv dl device).2.flowTable = new ++ device.flowTable ∧
      (∀ entry ∈ new, Restricts ofpfwVxlanVni entry.vseMatch →
        entry.vseMatch.vxVni = BitVec.ofInt 32 line.word.value) ∧
      (kzalloc (lastCall dl line.argv) = true → ∃ entry, new.head? = some entry ∧
        Restricts ofpfwVxlanVni entry.vseMatch) := by
  obtain ⟨_, table, opened⟩ := line_run kzalloc dl device line idle
  obtain ⟨holds, new, added, ruled⟩ :=
    vni_calls_add kzalloc dl line ⟨(deviceOpen device).2, 0⟩
  have isOpen := vni_calls_open kzalloc dl line ⟨(deviceOpen device).2, 0⟩
  have calls := driver_calls kzalloc ⟨(deviceOpen device).2, 0⟩
    (line.front dl ++ (.setVni, wordPtr (atoi line.word.text)) :: line.back dl)
  have order : sessionRequests dl line.argv =
      (line.front dl ++ (.setVni, wordPtr (atoi line.word.text)) :: line.back dl) ++
        [(.setEntry, nullPtr)] := by
    rw [session_requests_line, List.append_assoc]
    rfl
  rw [Nat.zero_add] at calls
  rw [table, lastCall, order, List.length_append, List.length_singleton, Nat.add_sub_cancel,
    run_append, run_cons, run_nil, driver_inserts kzalloc _ _ (by decide), added, calls, opened]
  generalize run (call kzalloc) ⟨(deviceOpen device).2, 0⟩
    (line.front dl ++ (.setVni, wordPtr (atoi line.word.text)) :: line.back dl) = reached
    at holds isOpen ⊢
  have commit : stage (staged reached.device) (decoded (.setEntry, nullPtr)) =
      staged reached.device := rfl
  have vni (rule : Staged) (has : HasVni line.word rule)
      (restricts : Restricts ofpfwVxlanVni rule.entry.vseMatch) :
      rule.entry.vseMatch.vxVni = BitVec.ofInt 32 line.word.value := by
    have same := (entry_vni rule).1.mp restricts
    exact ((entry_vni rule).2 same).trans (has same)
  rw [commit, ← List.append_assoc]
  refine ⟨_, rfl, ?_, ?_⟩
  · intro entry member
    rcases List.mem_append.mp member with last | earlier
    · split at last
      · obtain rfl := List.mem_singleton.mp last
        exact vni _ holds
      · cases last
    · obtain ⟨rule, has, rfl⟩ := ruled entry earlier
      exact vni rule has
  · intro memory
    rw [if_pos memory]
    exact ⟨_, rfl, (entry_vni _).1.mpr isOpen⟩

/-- A run of a line that exits with 0 found the device idle. -/
theorem line_idle {name : OptionName} (line : ToolLine name)
    (exits : (runTool kzalloc line.argv dl device).1 = .exit 0) : device.deviceOpen = 0 := by
  by_contra busy
  rw [run_tool_busy dl device line.two_words busy] at exits
  cases exits

/-- With memory for the commit, it leaves an entry. -/
theorem line_inserts {name : OptionName} (line : ToolLine name) (idle : device.deviceOpen = 0)
    (memory : kzalloc (lastCall dl line.argv) = true) :
    (runTool kzalloc line.argv dl device).2.flowTable ≠ [] := by
  obtain ⟨_, table, _⟩ := line_run kzalloc dl device line idle
  obtain ⟨earlier, order⟩ : ∃ earlier, sessionRequests dl line.argv =
      earlier ++ [(.setEntry, nullPtr)] := by
    refine ⟨line.front dl ++ (name.requests (bufferAfter dl line.before) line.word.text ++
      line.back dl), ?_⟩
    rw [session_requests_line]
    simp only [List.append_assoc]
  have calls := driver_calls kzalloc ⟨(deviceOpen device).2, 0⟩ earlier
  rw [lastCall, order, List.length_append, List.length_singleton, Nat.add_sub_cancel] at memory
  rw [Nat.zero_add] at calls
  rw [table, order, run_append, run_cons, run_nil, driver_inserts kzalloc _ _ (by decide), calls,
    if_pos memory]
  exact List.cons_ne_nil _ _

/-- A core number survives: after a run that exits with 0 every entry inserted has it, and it is
not the sentinel. A negative one takes the usage path. -/
structure IrqSurvives (number : Int) : Prop where
  stored : ∀ line : ToolLine .irq, line.word.value = number → ∀ kzalloc dl device,
    (runTool kzalloc line.argv dl device).1 = .exit 0 → number ≠ noIrq.toNat ∧
      ∀ new, (runTool kzalloc line.argv dl device).2.flowTable = new ++ device.flowTable →
        ∀ entry ∈ new, (entry.irq.toNat : Int) = number
  refused : number < 0 → ∀ line : ToolLine .irq, line.word.value = number →
    ∀ kzalloc dl device, (runTool kzalloc line.argv dl device).1 = .exit (-1) ∧
      (runTool kzalloc line.argv dl device).2.flowTable = device.flowTable

/-- A VNI survives: after a run that exits with 0 it has 24 bits, every entry inserted that
restricts the VNI has it, and the entry of the commit does restrict it. A negative one
takes the usage path. -/
structure VniSurvives (number : Int) : Prop where
  stored : ∀ line : ToolLine .vni, line.word.value = number → ∀ kzalloc dl device,
    (runTool kzalloc line.argv dl device).1 = .exit 0 → (0 ≤ number ∧ number < 2 ^ 24) ∧
      ∀ new, (runTool kzalloc line.argv dl device).2.flowTable = new ++ device.flowTable →
        (∀ entry ∈ new, Restricts ofpfwVxlanVni entry.vseMatch →
          (entry.vseMatch.vxVni.toNat : Int) = number) ∧
        (kzalloc (lastCall dl line.argv) = true → ∃ entry, new.head? = some entry ∧
          Restricts ofpfwVxlanVni entry.vseMatch)
  refused : number < 0 → ∀ line : ToolLine .vni, line.word.value = number →
    ∀ kzalloc dl device, (runTool kzalloc line.argv dl device).1 = .exit (-1) ∧
      (runTool kzalloc line.argv dl device).2.flowTable = device.flowTable

def bareLine (name : OptionName) (word : IntWord) : ToolLine name where
  program := ['v', 's', 'e']
  before := []
  word := word
  after := []
  program_plain := by decide
  values_plain := by simp
  once := by simp

theorem irq_byte (number : Int) (small : 0 ≤ number ∧ number < 256) :
    ((byteAt (BitVec.ofInt 32 number) 0).toNat : Int) = number := by
  rw [byteAt, BitVec.extractLsb'_toNat, BitVec.toNat_ofInt, Nat.mul_zero, Nat.shiftRight_zero]
  omega

theorem vni_word (number : Int) (small : 0 ≤ number ∧ number < 2 ^ 24) :
    ((BitVec.ofInt 32 number).toNat : Int) = number := by
  rw [BitVec.toNat_ofInt]
  omega

/-- The core numbers that survive are those below the sentinel. -/
theorem irq_survives_iff (number : Int) (fits : -2 ^ 31 ≤ number ∧ number < 2 ^ 31) :
    IrqSurvives number ↔ 0 ≤ number ∧ number < 255 := by
  constructor
  · intro survives
    obtain ⟨word, value⟩ := exists_int_word number fits
    have idle : moduleLoad.deviceOpen = 0 := rfl
    obtain ⟨exits, _, _⟩ := line_run (fun _ => true) 0 moduleLoad (bareLine .irq word) idle
    obtain ⟨notSentinel, stored⟩ := survives.stored (bareLine .irq word) value _ _ _ exits
    obtain ⟨new, table, _⟩ := irq_line_adds (fun _ => true) 0 moduleLoad (bareLine .irq word) idle
    have inserts := line_inserts (fun _ => true) 0 moduleLoad (bareLine .irq word) idle rfl
    have empty : moduleLoad.flowTable = [] := rfl
    rw [table, empty, List.append_nil] at inserts
    obtain ⟨entry, rest, rfl⟩ := List.exists_cons_of_ne_nil inserts
    have kept := stored _ table entry List.mem_cons_self
    have byte := entry.irq.isLt
    have sentinel : noIrq.toNat = 255 := rfl
    omega
  · rintro ⟨lower, upper⟩
    constructor
    · intro line value kzalloc dl device exits
      refine ⟨?_, ?_⟩
      · have sentinel : noIrq.toNat = 255 := rfl
        omega
      · intro new table entry member
        have idle := line_idle kzalloc dl device line exits
        obtain ⟨added, adds, byte⟩ := irq_line_adds kzalloc dl device line idle
        obtain rfl := List.append_cancel_right (table.symm.trans adds)
        rw [byte entry member, value]
        exact irq_byte number ⟨lower, by omega⟩
    · intro negative
      omega

/-- The VNIs that survive are those of 24 bits, although four bytes are stored: a larger one is
accepted as it stands and no packet has it. -/
theorem vni_survives_iff (number : Int) (fits : -2 ^ 31 ≤ number ∧ number < 2 ^ 31) :
    VniSurvives number ↔ 0 ≤ number ∧ number < 2 ^ 24 := by
  constructor
  · intro survives
    obtain ⟨word, value⟩ := exists_int_word number fits
    obtain ⟨exits, _, _⟩ := line_run (fun _ => true) 0 moduleLoad (bareLine .vni word) rfl
    exact (survives.stored (bareLine .vni word) value _ _ _ exits).1
  · rintro ⟨lower, upper⟩
    constructor
    · intro line value kzalloc dl device exits
      refine ⟨⟨lower, upper⟩, ?_⟩
      intro new table
      have idle := line_idle kzalloc dl device line exits
      obtain ⟨added, adds, words, restricts⟩ := vni_line_adds kzalloc dl device line idle
      obtain rfl := List.append_cancel_right (table.symm.trans adds)
      refine ⟨?_, restricts⟩
      intro entry member isOpen
      rw [words entry member isOpen, value]
      exact vni_word number ⟨lower, upper⟩
    · intro negative
      omega

/-- Which numbers survive. A core number does exactly when it is at least 0 and below the sentinel
255, a VNI exactly when it is at least 0 and below 2 ^ 24: the checks of the tool are of unsigned
numbers and refuse none.

Proof: a line's calls fall into those before its number, the number's own and those behind it. The
first kind stages nothing of the option, the second stages the number's low bytes, and the third
leaves them alone, so every entry has these bytes. They are the number exactly in the given
ranges, and outside them the line with nothing but the number is the one that fails. -/
theorem numbers_survive_iff (number : Int) (fits : -2 ^ 31 ≤ number ∧ number < 2 ^ 31) :
    (IrqSurvives number ↔ 0 ≤ number ∧ number < 255) ∧
      (VniSurvives number ↔ 0 ≤ number ∧ number < 2 ^ 24) :=
  ⟨irq_survives_iff number fits, vni_survives_iff number fits⟩

theorem three_and_ten_survive : IrqSurvives 3 ∧ VniSurvives 10 :=
  ⟨(numbers_survive_iff 3 (by decide)).1.mpr (by decide),
    (numbers_survive_iff 10 (by decide)).2.mpr (by decide)⟩

def twoHundredFiftySix : IntWord :=
  ⟨false, ['2', '5', '6'], List.all_eq_true.mp rfl, List.cons_ne_nil _ _, by decide⟩

def minusOne : IntWord :=
  ⟨true, ['1'], List.all_eq_true.mp rfl, List.cons_ne_nil _ _, by decide⟩

/-- The core number 256 is stored as 0, and the VNI -1 as 2 ^ 32 - 1. The tool exits with 0 both
times, since neither passes for a negative number in an unsigned comparison. -/
theorem numbers_lost :
    let result (name : OptionName) (word : IntWord) :=
      runTool (fun _ => true) [['v', 's', 'e'], name.word, word.text] (fun _ => 0) moduleLoad
    (result .irq twoHundredFiftySix).1 = .exit 0 ∧
      (result .irq twoHundredFiftySix).2.flowTable.map VseFlowEntry.irq = [0, 0] ∧
      ¬ IrqSurvives 256 ∧
      (result .vni minusOne).1 = .exit 0 ∧
      (result .vni minusOne).2.flowTable.map (fun entry => entry.vseMatch.vxVni) =
        [0xffffffff] ∧
      ¬ VniSurvives (-1) := by
  intro result
  have ran (name : OptionName) (word : IntWord) :=
    run_tool_reads (fun _ => true) [['v', 's', 'e'], name.word, word.text] (fun _ => 0)
      moduleLoad (Nat.le_add_left _ _) rfl
  have irqExits : (result .irq twoHundredFiftySix).1 = .exit 0 :=
    congrArg Prod.fst (ran .irq twoHundredFiftySix)
  have vniExits : (result .vni minusOne).1 = .exit 0 := congrArg Prod.fst (ran .vni minusOne)
  have irqs : (result .irq twoHundredFiftySix).2.flowTable.map VseFlowEntry.irq = [0, 0] :=
    congrArg (fun result : Exit × DeviceState => result.2.flowTable.map VseFlowEntry.irq)
      (ran .irq twoHundredFiftySix)
  have vnis : (result .vni minusOne).2.flowTable.map (fun entry => entry.vseMatch.vxVni) =
      [0xffffffff] :=
    congrArg (fun result : Exit × DeviceState =>
      result.2.flowTable.map (fun entry => entry.vseMatch.vxVni)) (ran .vni minusOne)
  refine ⟨irqExits, irqs, ?_, vniExits, vnis, ?_⟩
  · intro survives
    obtain ⟨_, stored⟩ :=
      survives.stored (bareLine .irq twoHundredFiftySix) rfl _ _ _ irqExits
    obtain ⟨entry, member, zero⟩ : ∃ entry ∈ (result .irq twoHundredFiftySix).2.flowTable,
        VseFlowEntry.irq entry = 0 := by
      rw [← List.mem_map, irqs]
      exact List.mem_cons_self
    have kept := stored _ (List.append_nil _).symm entry member
    rw [zero] at kept
    cases kept
  · intro survives
    have bounds := (survives.stored (bareLine .vni minusOne) rfl _ _ _ vniExits).1
    omega

end Numbers

end Vse.ToolContracts

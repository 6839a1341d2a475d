import Mathlib.Algebra.Group.Nat.Even
import Vse.SetEntryTool

/-!
# How the tool reads any words

The four tests of the loop's body follow one another on one index, so the value that an
option takes is tested again by the tests behind its own. What the tool makes of its words is
therefore read off from left to right: a word is either tested by all four, or it was just
taken as a value and meets the later tests only. `readFrom` says which options take which
values, for any words at all, and whether the last option finds one.

The tool is killed where an option has no word behind it. Only the end of the command line
decides this: option words that are tested no later than the one before them take turns as
option and value.
-/

namespace Vse.WordReading

open CStrings SocketBuffer Device StagedCommands SetEntryTool Runs

/-- The options, by name. Any words may stand behind them here. -/
inductive OptionName where
  | vni
  | irq
  | dlIndst
  | dlDst
deriving DecidableEq

namespace OptionName

/-- The option's word. -/
def word : OptionName → CString
  | .vni => vniOption
  | .irq => irqOption
  | .dlIndst => dlIndstOption
  | .dlDst => dlDstOption

/-- The options in the order of their tests in the body of the loop. -/
def all : List OptionName := [.vni, .irq, .dlIndst, .dlDst]

/-- The options whose tests come behind the option's own, and so look at its value in the same
pass. -/
def later : OptionName → List OptionName
  | .vni => [.irq, .dlIndst, .dlDst]
  | .irq => [.dlIndst, .dlDst]
  | .dlIndst => [.dlDst]
  | .dlDst => []

/-- The address buffer after the option took its value: an address option stores the fields that
can be read, and a number leaves it. -/
def buffer (dl : Mac) (name : OptionName) (value : CString) : Mac :=
  match name with
  | .vni | .irq => dl
  | .dlIndst | .dlDst => storeFields dl (scanHexFields 6 value)

/-- The calls that the option's arm makes for its value, which depend on what was in the buffer
before. -/
def requests (dl : Mac) (name : OptionName) (value : CString) : List (Request × UserPtr) :=
  match name with
  | .vni => [(.setVni, wordPtr (atoi value))]
  | .irq => [(.setIrq, wordPtr (atoi value))]
  | .dlIndst => addressRequests dlIndstRequest (buffer dl .dlIndst value)
  | .dlDst => addressRequests dlDstRequest (buffer dl .dlDst value)

/-- The option's arm. -/
def arm (kzalloc : Nat → Bool) : OptionName → CString → Tool Unit
  | .vni => vniArm kzalloc
  | .irq => irqArm kzalloc
  | .dlIndst => dlIndstArm kzalloc
  | .dlDst => dlDstArm kzalloc

theorem later_eq (name : OptionName) (rest : List OptionName) (suffix : name :: rest <:+ all) :
    name.later = rest := by
  obtain ⟨front, whole⟩ := suffix
  match front with
  | [] | [_] | [_, _] | [_, _, _] =>
    cases whole
    rfl
  | _ :: _ :: _ :: _ :: _ =>
    have lengths := congrArg List.length whole
    simp [all] at lengths

end OptionName

/-- What is read from a list of words: which option took which value, and whether every
option found one. -/
structure Reading where
  taken : List (OptionName × CString)
  complete : Bool

/-- Read words, the first of which meets the given tests. The option that passes takes the
next word as its value, which then meets the later tests. -/
def readFrom (tests : List OptionName) : List CString → Reading
  | [] => ⟨[], true⟩
  | word :: rest =>
    match tests.find? fun name => name.word = word with
    | none => readFrom OptionName.all rest
    | some name =>
      match rest.head? with
      | none => ⟨[], false⟩
      | some value =>
        let reading := readFrom name.later rest
        ⟨(name, value) :: reading.taken, reading.complete⟩

section Running

variable (kzalloc : Nat → Bool) (argv : List CString)

/-- The process after an option took its value: its calls are made and the buffer holds what was
read. -/
def take (process : Process) (pair : OptionName × CString) : Process :=
  { process with
    driver := run (call kzalloc) process.driver (pair.1.requests process.dl pair.2)
    dl := pair.1.buffer process.dl pair.2 }

/-- The process after a reading: it goes on where every option found its value, and is killed
where one did not. -/
def outcome (process : Process) (reading : Reading) : Except Exit Unit × Process :=
  (if reading.complete then .ok () else .error .killed, run (take kzalloc) process reading.taken)

theorem checked_ioctl_run (request : Request) (arg : UserPtr) (process : Process) :
    (checkedIoctl kzalloc request arg).run.run process =
      (.ok (), { process with driver := call kzalloc process.driver (request, arg) }) := rfl

/-- The six calls for an address, of which the driver refuses none. -/
theorem set_address_run (request : Fin 6 → Request) (dl : Mac) (process : Process) :
    (setAddress kzalloc request dl).run.run process =
      (.ok (), { process with
        driver := run (call kzalloc) process.driver (addressRequests request dl) }) := rfl

/-- An arm with an address fills the buffer and passes it on. -/
theorem address_arm_run (request : Fin 6 → Request) (value : CString) (process : Process) :
    (addressArm (setAddress kzalloc request) value).run.run process =
      (.ok (), { process with
        driver := run (call kzalloc) process.driver
          (addressRequests request (storeFields process.dl (scanHexFields 6 value)))
        dl := storeFields process.dl (scanHexFields 6 value) }) := by
  rw [addressArm, run_bind_ok (get_run process), run_bind_ok (set_run process _),
    set_address_run]

/-- An arm ends normally, whatever its value: nothing it is given can make it fail. -/
theorem arm_run (name : OptionName) (value : CString) (process : Process) :
    (name.arm kzalloc value).run.run process = (.ok (), take kzalloc process (name, value)) := by
  have unsigned : ¬ atoi value < 0 := BitVec.not_lt_zero
  cases name with
  | vni =>
    simp only [OptionName.arm, vniArm, numberArm, unsigned, ↓reduceIte]
    exact checked_ioctl_run kzalloc .setVni (wordPtr (atoi value)) process
  | irq =>
    simp only [OptionName.arm, irqArm, numberArm, unsigned, ↓reduceIte]
    exact checked_ioctl_run kzalloc .setIrq (wordPtr (atoi value)) process
  | dlIndst => exact address_arm_run kzalloc dlIndstRequest value process
  | dlDst => exact address_arm_run kzalloc dlDstRequest value process

/-- A word is read when its index is in range, and kills the tool otherwise, as the string
function follows a null pointer. -/
theorem word_run (i : Nat) (process : Process) :
    (word argv i).run.run process =
      (match argv[i]? with | some text => .ok text | none => .error .killed, process) := by
  unfold word
  cases argv[i]? <;> rfl

/-- One test: it passes over another word, and on its own takes the next word, if there is one. -/
theorem on_option_run (name : OptionName) (i : Nat) (process : Process) (text : CString)
    (here : argv[i]? = some text) :
    (onOption argv name.word (name.arm kzalloc) i).run.run process =
      if text = name.word then
        match argv[i + 1]? with
        | none => (.error .killed, process)
        | some value => (.ok ⟨i + 1, Nat.le_succ i⟩, take kzalloc process (name, value))
      else (.ok ⟨i, Nat.le_refl i⟩, process) := by
  have first := word_run argv i process
  rw [here] at first
  rw [onOption, run_bind_ok first]
  by_cases own : text = name.word
  · have second := word_run argv (i + 1) process
    rw [if_pos own, if_pos own]
    cases next : argv[i + 1]? with
    | none =>
      rw [next] at second
      exact run_bind_error second _
    | some value =>
      rw [next] at second
      rw [run_bind_ok second, run_bind_ok (arm_run kzalloc name value process)]
      rfl
  · rw [if_neg own, if_neg own]
    rfl

/-- Some of the tests, from a word on. The body of the loop makes all of them. -/
def runTests : List OptionName → Nat → Tool Nat
  | [], i => return i
  | name :: tests, i => do
    let ⟨next, _⟩ ← onOption argv name.word (name.arm kzalloc) i
    runTests tests next

/-- Some of the tests, and the loop from where they stop. All states of the loop between two tests
are of this form. -/
def continued (tests : List OptionName) (i : Nat) : Tool Unit := do
  let last ← runTests kzalloc argv tests i
  loop kzalloc argv (last + 1)

/-- The body of the loop makes all four tests. -/
theorem loop_continued (i : Nat) (inside : i < argv.length) :
    loop kzalloc argv i = continued kzalloc argv OptionName.all i := by
  rw [loop, if_pos inside]
  simp only [continued, body, OptionName.all, runTests, bind_assoc, pure_bind]
  rfl

theorem continued_cons (name : OptionName) (tests : List OptionName) (i : Nat) :
    continued kzalloc argv (name :: tests) i = (do
      let next ← onOption argv name.word (name.arm kzalloc) i
      continued kzalloc argv tests next.1) := by
  simp only [continued, runTests, bind_assoc]

theorem read_from_other (name : OptionName) (tests : List OptionName) (text : CString)
    (rest : List CString) (other : text ≠ name.word) :
    readFrom (name :: tests) (text :: rest) = readFrom tests (text :: rest) := by
  have passed : (name :: tests).find? (fun tested => tested.word = text) =
      tests.find? fun tested => tested.word = text :=
    List.find?_cons_of_neg (by simpa using Ne.symm other)
  rw [readFrom, readFrom, passed]

/-- A test that is passed takes the next word, and the tests behind it go on from there. -/
theorem read_from_own (name : OptionName) (tests : List OptionName) (rest : List CString)
    (suffix : name :: tests <:+ OptionName.all) :
    readFrom (name :: tests) (name.word :: rest) =
      match rest.head? with
      | none => ⟨[], false⟩
      | some value =>
        ⟨(name, value) :: (readFrom tests rest).taken, (readFrom tests rest).complete⟩ := by
  have passed : (name :: tests).find? (fun tested => tested.word = name.word) = some name :=
    List.find?_cons_of_pos (by simp)
  rw [readFrom, passed]
  simp only [name.later_eq tests suffix]

/-- The tests and the loop behind them do what is read.

Proof: the induction is on the words left, and for each word on the tests left. A test that is
passed over leaves the word to the next one; a test that is passed moves on by a word. -/
theorem continued_run (bound : Nat) (tests : List OptionName) (i : Nat) (process : Process)
    (suffix : tests <:+ OptionName.all) (inside : i < argv.length)
    (bounded : argv.length - i ≤ bound) :
    (continued kzalloc argv tests i).run.run process =
      outcome kzalloc process (readFrom tests (argv.drop i)) := by
  induction bound generalizing tests i process with
  | zero => omega
  | succ bound inductionHypothesis =>
    have words : argv.drop i = argv[i] :: argv.drop (i + 1) := List.drop_eq_getElem_cons inside
    have here : argv[i]? = some argv[i] := List.getElem?_eq_getElem inside
    have next : argv[i + 1]? = (argv.drop (i + 1)).head? := List.head?_drop.symm
    -- Behind the last test the loop goes on with the next word.
    have onward : (loop kzalloc argv (i + 1)).run.run process =
        outcome kzalloc process (readFrom OptionName.all (argv.drop (i + 1))) := by
      by_cases more : i + 1 < argv.length
      · rw [loop_continued kzalloc argv (i + 1) more]
        exact inductionHypothesis OptionName.all (i + 1) process (List.suffix_refl _) more
          (by omega)
      · rw [loop, if_neg more, List.drop_eq_nil_of_le (by omega)]
        rfl
    rw [words]
    induction tests with
    | nil =>
      rw [continued, runTests, pure_bind]
      exact onward
    | cons name tests testsHypothesis =>
      have behind : tests <:+ OptionName.all :=
        (List.suffix_cons name tests).trans suffix
      have test := on_option_run kzalloc argv name i process argv[i] here
      rw [continued_cons]
      by_cases own : argv[i] = name.word
      · rw [if_pos own] at test
        rw [own, read_from_own name tests _ suffix, ← next]
        cases value : argv[i + 1]? with
        | none =>
          rw [value] at test
          exact run_bind_error test _
        | some taken =>
          rw [value] at test
          have more : i + 1 < argv.length := (List.getElem?_eq_some_iff.mp value).1
          rw [run_bind_ok test]
          exact inductionHypothesis tests (i + 1) _ behind more (by omega)
      · rw [if_neg own] at test
        rw [run_bind_ok test, read_from_other name tests _ _ own]
        exact testsHypothesis behind

/-- The loop does what is read of the words from its index on. -/
theorem loop_run (i : Nat) (process : Process) :
    (loop kzalloc argv i).run.run process =
      outcome kzalloc process (readFrom OptionName.all (argv.drop i)) := by
  by_cases inside : i < argv.length
  · rw [loop_continued kzalloc argv i inside]
    exact continued_run kzalloc argv _ OptionName.all i process (List.suffix_refl _) inside
      (Nat.le_refl _)
  · rw [loop, if_neg inside, List.drop_eq_nil_of_le (by omega)]
    rfl

end Running

section Ending

/-- The option with the given word, if the word is one. -/
def optionOf (text : CString) : Option OptionName :=
  OptionName.all.find? fun name => name.word = text

theorem option_of_eq_some_iff (text : CString) (name : OptionName) :
    optionOf text = some name ↔ name.word = text := by
  constructor
  · intro found
    rw [optionOf] at found
    simpa using List.find?_some found
  · rintro rfl
    cases name <;> rfl

/-- A word that is no option is passed over by all four tests, and the loop goes on behind it. -/
theorem read_plain (text : CString) (rest : List CString) (plain : optionOf text = none) :
    readFrom OptionName.all (text :: rest) = readFrom OptionName.all rest := by
  unfold optionOf at plain
  rw [readFrom, plain]

/-- An option takes the word behind it, which meets the later tests before the loop moves on. -/
theorem read_option (name : OptionName) (value : CString) (rest : List CString) :
    readFrom OptionName.all (name.word :: value :: rest) =
      ⟨(name, value) :: (readFrom name.later (value :: rest)).taken,
        (readFrom name.later (value :: rest)).complete⟩ := by
  have known := (option_of_eq_some_iff name.word name).mpr rfl
  unfold optionOf at known
  rw [readFrom, known]
  rfl

/-- Without a word behind it, it finds no value, and the tool is killed. -/
theorem read_option_last (name : OptionName) :
    readFrom OptionName.all [name.word] = ⟨[], false⟩ := by
  have known := (option_of_eq_some_iff name.word name).mpr rfl
  unfold optionOf at known
  rw [readFrom, known]
  rfl

/-- The second word is an option whose test comes behind that of the first, so that it is taken as
a value and as an option. -/
def testedLater (text next : CString) : Bool :=
  match optionOf text with
  | none => false
  | some name => name.later.any fun other => other.word = next

/-- The longest end of the words in which all words are options and none is tested later than the
one before it. There the loop takes words in pairs. -/
def fallingTail : List CString → List CString
  | [] => []
  | text :: rest =>
    if (optionOf text).isSome ∧ fallingTail rest = rest ∧
        rest.head?.all (fun next => !testedLater text next) then text :: rest
    else fallingTail rest

theorem find_later (name other : OptionName) (behind : other ∈ name.later) :
    (name.later.find? fun tested => tested.word = other.word) = some other := by
  cases name <;> cases other <;> first | rfl | exact absurd behind (by decide)

/-- A word that is tested later is read as if nothing had been taken before it. -/
theorem complete_tested_later (name : OptionName) (value : CString) (rest : List CString)
    (later : testedLater name.word value = true) :
    (readFrom name.later (value :: rest)).complete =
      (readFrom OptionName.all (value :: rest)).complete := by
  rw [testedLater, (option_of_eq_some_iff name.word name).mpr rfl] at later
  obtain ⟨other, behind, same⟩ := List.any_eq_true.mp later
  obtain rfl : other.word = value := of_decide_eq_true same
  have known : OptionName.all.find? (fun tested => tested.word = other.word) = some other :=
    (option_of_eq_some_iff other.word other).mpr rfl
  rw [readFrom, readFrom, find_later name other behind, known]

/-- A value that is not tested later is done with: the reading goes on behind it as from a fresh
start. -/
theorem read_not_tested_later (name : OptionName) (value : CString) (rest : List CString)
    (never : testedLater name.word value = false) :
    readFrom name.later (value :: rest) = readFrom OptionName.all rest := by
  rw [testedLater, (option_of_eq_some_iff name.word name).mpr rfl] at never
  have passed : (name.later.find? fun other => other.word = value) = none := by
    rw [List.find?_eq_none]
    intro other behind
    exact List.any_eq_false.mp never other behind
  rw [readFrom, passed]

theorem falling_tail_length (words : List CString) :
    (fallingTail words).length ≤ words.length := by
  induction words with
  | nil => exact Nat.le_refl 0
  | cons text rest inductionHypothesis =>
    rw [fallingTail]
    split
    · exact Nat.le_refl _
    · exact Nat.le_succ_of_le inductionHypothesis

/-- An option and a value that is not tested later make no difference to the parity of the
falling end: they are both part of it or neither is. -/
theorem falling_tail_pair (name : OptionName) (value : CString) (rest : List CString)
    (never : testedLater name.word value = false) :
    Even (fallingTail (name.word :: value :: rest)).length ↔ Even (fallingTail rest).length := by
  have option : (optionOf name.word).isSome = true := by
    rw [(option_of_eq_some_iff name.word name).mpr rfl]
    rfl
  by_cases whole : fallingTail (value :: rest) = value :: rest
  · have both : fallingTail (name.word :: value :: rest) = name.word :: value :: rest := by
      rw [fallingTail, if_pos]
      refine ⟨option, whole, ?_⟩
      rw [List.head?_cons, Option.all_some, never]
      rfl
    have behind : fallingTail rest = rest := by
      rw [fallingTail] at whole
      split at whole
      · rename_i falls
        exact falls.2.1
      · have short := falling_tail_length rest
        rw [whole, List.length_cons] at short
        omega
    rw [both, behind, List.length_cons, List.length_cons, Nat.even_add_one, Nat.even_add_one,
      not_not]
  · have neither : fallingTail (name.word :: value :: rest) = fallingTail (value :: rest) := by
      rw [fallingTail, if_neg fun falls => whole falls.2.1]
    have later : fallingTail (value :: rest) = fallingTail rest := by
      rw [fallingTail]
      split
      · rename_i falls
        rw [fallingTail, if_pos falls] at whole
        exact absurd rfl whole
      · rfl
    rw [neither, later]

/-- Every option finds a value exactly when the falling end has an even number of words. The
induction takes one word or two, as the reading does. -/
theorem complete_iff : ∀ words : List CString,
    (readFrom OptionName.all words).complete = true ↔ Even (fallingTail words).length
  | [] => by simp [readFrom, fallingTail]
  | [text] => by
    cases option : optionOf text with
    | none =>
      rw [read_plain text [] option]
      simp [readFrom, fallingTail, option]
    | some name =>
      obtain rfl := (option_of_eq_some_iff text name).mp option
      rw [read_option_last]
      simp [fallingTail, option]
  | text :: value :: rest => by
    cases option : optionOf text with
    | none =>
      have tail : fallingTail (text :: value :: rest) = fallingTail (value :: rest) := by
        rw [fallingTail, option, if_neg (by simp)]
      rw [read_plain text (value :: rest) option, tail]
      exact complete_iff (value :: rest)
    | some name =>
      obtain rfl := (option_of_eq_some_iff text name).mp option
      rw [read_option]
      cases later : testedLater name.word value with
      | true =>
        have tail : fallingTail (name.word :: value :: rest) = fallingTail (value :: rest) := by
          rw [fallingTail, if_neg]
          rintro ⟨_, _, never⟩
          rw [List.head?_cons, Option.all_some, later] at never
          cases never
        rw [complete_tested_later name value rest later, tail]
        exact complete_iff (value :: rest)
      | false =>
        rw [read_not_tested_later name value rest later, falling_tail_pair name value rest later]
        exact complete_iff rest

/-- All words are options, and none is tested later than the one before it. Among such words no
value is read as an option. -/
structure Falls (words : List CString) : Prop where
  options : ∀ text ∈ words, (optionOf text).isSome = true
  order : words.IsChain fun text next => testedLater text next = false

/-- Words fall when the first is an option, the others fall and the second, if there is one,
is not tested later. -/
theorem falls_cons_iff (text : CString) (rest : List CString) :
    Falls (text :: rest) ↔ (optionOf text).isSome = true ∧ Falls rest ∧
      rest.head?.all (fun next => !testedLater text next) = true := by
  constructor
  · rintro ⟨options, order⟩
    obtain ⟨option, others⟩ := List.forall_mem_cons.mp options
    rw [List.isChain_cons] at order
    refine ⟨option, ⟨others, order.2⟩, ?_⟩
    rw [Option.all_eq_true]
    intro next behind
    rw [order.1 next behind]
    rfl
  · rintro ⟨option, ⟨others, order⟩, first⟩
    refine ⟨List.forall_mem_cons.mpr ⟨option, others⟩, List.isChain_cons.mpr ⟨?_, order⟩⟩
    intro next behind
    simpa using (Option.all_eq_true _ _).mp first next behind

/-- The falling end is the longest end of the words that falls, as its name says; it is determined
by the words alone. -/
theorem falling_tail_longest (words : List CString) :
    fallingTail words <:+ words ∧ Falls (fallingTail words) ∧
      ∀ tail, tail <:+ words → Falls tail → tail <:+ fallingTail words := by
  induction words with
  | nil => exact ⟨List.suffix_refl _, ⟨by simp [fallingTail], List.IsChain.nil⟩,
      fun _ isTail _ => isTail⟩
  | cons text rest inductionHypothesis =>
    obtain ⟨suffix, falls, longest⟩ := inductionHypothesis
    rw [fallingTail]
    split
    · rename_i whole
      obtain ⟨option, same, first⟩ := whole
      rw [same] at falls
      exact ⟨List.suffix_refl _, (falls_cons_iff text rest).mpr ⟨option, falls, first⟩,
        fun _ isTail _ => isTail⟩
    · rename_i partly
      refine ⟨suffix.trans (List.suffix_cons text rest), falls, ?_⟩
      intro tail isTail tailFalls
      rcases List.suffix_cons_iff.mp isTail with rfl | inside
      · obtain ⟨option, restFalls, first⟩ := (falls_cons_iff text rest).mp tailFalls
        have same : fallingTail rest = rest :=
          suffix.eq_of_length_le (longest rest (List.suffix_refl _) restFalls).length_le
        exact absurd ⟨option, same, first⟩ partly
      · exact longest tail inside tailFalls

variable (kzalloc : Nat → Bool) (argv : List CString)

/-- When the loop stays inside its arguments. It runs to its end, with every word it passes to a
string function in range, if and only if the longest falling end of the command line has an even
number of words. Otherwise the last word is an option that takes the word behind it, and there is
none.

Proof: the loop does what is read of the words. Reading takes an option and its value at a time,
or passes over one word, and does not change the parity of the falling end; a word tested later is
read as if nothing had been taken before it. In the end an option is left without a value exactly
when the falling end is odd. -/
theorem loop_in_range_iff (process : Process) :
    (∃ after, (loop kzalloc argv 0).run.run process = (.ok (), after)) ↔
      Even (fallingTail argv).length := by
  rw [loop_run, List.drop_zero, ← complete_iff, outcome]
  cases (readFrom OptionName.all argv).complete with
  | true => simp
  | false =>
    refine iff_of_false ?_ Bool.false_ne_true
    rintro ⟨after, ran⟩
    cases congrArg Prod.fst ran

/-- A last option without a value takes the word behind the arguments, which is a null pointer. -/
theorem missing_value_read :
    let argv : List CString := [['v', 's', 'e'], vniOption]
    let process : Process := ⟨⟨moduleLoad, 0⟩, true, fun _ => 0⟩
    ¬ ∃ after, (loop (fun _ => true) argv 0).run.run process = (.ok (), after) := by
  intro argv process
  rintro ⟨after, ran⟩
  rw [loop_run] at ran
  have killed : (outcome (fun _ => true) process
      (readFrom OptionName.all (argv.drop 0))).1 = .error .killed := rfl
  rw [ran] at killed
  cases killed

end Ending

section Calls

variable (kzalloc : Nat → Bool)

/-- The calls for several options and their values, in turn, each with the buffer as the options
before it left it. -/
def requestsOf : Mac → List (OptionName × CString) → List (Request × UserPtr)
  | _, [] => []
  | dl, (name, value) :: rest =>
      name.requests dl value ++ requestsOf (name.buffer dl value) rest

/-- What is taken is passed to the driver. -/
theorem run_take (process : Process) (pairs : List (OptionName × CString)) :
    (run (take kzalloc) process pairs).fdOpen = process.fdOpen ∧
      (run (take kzalloc) process pairs).driver =
        run (call kzalloc) process.driver (requestsOf process.dl pairs) := by
  induction pairs generalizing process with
  | nil => exact ⟨rfl, rfl⟩
  | cons pair rest inductionHypothesis =>
    obtain ⟨fdOpen, driver⟩ := inductionHypothesis (take kzalloc process pair)
    rw [run_cons, requestsOf, run_append]
    exact ⟨fdOpen, driver⟩

/-- An open device is closed once, however the tool ends: an explicit close at an exit leaves
nothing for the kernel to do. -/
theorem closed_device (process : Process) (isOpen : process.fdOpen = true) :
    process.closed.driver.device = (deviceRelease process.driver.device).2 ∧
      process.closed.closed = process.closed := by
  have released : process.closed = { process with
      driver := { process.driver with device := (deviceRelease process.driver.device).2 }
      fdOpen := false } := if_pos isOpen
  rw [released]
  exact ⟨rfl, rfl⟩

/-- The calls of a session: those for what is read of the words, and the commit when all of it
is read. -/
def sessionRequests (dl : Mac) (argv : List CString) : List (Request × UserPtr) :=
  let reading := readFrom OptionName.all argv
  (.initWildcards, nullPtr) ::
    (requestsOf dl reading.taken ++ if reading.complete then [(.setEntry, nullPtr)] else [])

/-- A session makes its calls, and is killed on the way when a value is missing. -/
theorem session_run (argv : List CString) (process : Process) :
    ∃ after, (session kzalloc argv).run.run process =
        (if (readFrom OptionName.all argv).complete then .ok () else .error .killed, after) ∧
      after.fdOpen = process.fdOpen ∧
      after.driver = run (call kzalloc) process.driver (sessionRequests process.dl argv) := by
  have started : (vseIoctlInitWildcards kzalloc).run.run process =
      (.ok (), { process with driver := call kzalloc process.driver (.initWildcards, nullPtr) }) :=
    checked_ioctl_run kzalloc .initWildcards nullPtr process
  have looped := loop_run kzalloc argv 0
    { process with driver := call kzalloc process.driver (.initWildcards, nullPtr) }
  obtain ⟨fdOpen, driver⟩ := run_take kzalloc
    { process with driver := call kzalloc process.driver (.initWildcards, nullPtr) }
    (readFrom OptionName.all argv).taken
  rw [List.drop_zero, outcome] at looped
  rw [session, run_bind_ok started, sessionRequests]
  generalize run (take kzalloc) _ (readFrom OptionName.all argv).taken = reached at *
  cases complete : (readFrom OptionName.all argv).complete with
  | true =>
    rw [complete, if_pos rfl] at looped
    refine ⟨{ reached with driver := call kzalloc reached.driver (.setEntry, nullPtr) }, ?_,
      fdOpen, ?_⟩
    · rw [run_bind_ok looped]
      rfl
    · simp only [↓reduceIte, run_cons, run_append, run_nil, driver]
  | false =>
    rw [complete, if_neg Bool.false_ne_true] at looped
    refine ⟨reached, run_bind_error looped _, fdOpen, ?_⟩
    simp only [Bool.false_eq_true, ↓reduceIte, run_cons, List.append_nil, driver]

/-- A run of the tool on any words, with the device idle: its calls are those for what is read of
the words, and the device is free again at its end, however it ends. -/
theorem run_tool_reads (argv : List CString) (dl : Mac) (device : DeviceState)
    (enough : 2 ≤ argv.length) (idle : device.deviceOpen = 0) :
    runTool kzalloc argv dl device =
      (if (readFrom OptionName.all argv).complete then .exit 0 else .killed,
        (deviceRelease (run (call kzalloc) ⟨(deviceOpen device).2, 0⟩
          (sessionRequests dl argv)).device).2) := by
  have opened : openDevice.run.run ⟨⟨device, 0⟩, false, dl⟩ =
      (.ok (), ⟨⟨(deviceOpen device).2, 0⟩, true, dl⟩) :=
    (open_device_run ⟨⟨device, 0⟩, false, dl⟩).trans (if_pos idle)
  obtain ⟨after, ran, fdOpen, driver⟩ :=
    session_run kzalloc argv ⟨⟨(deviceOpen device).2, 0⟩, true, dl⟩
  obtain ⟨released, once⟩ := closed_device after fdOpen
  rw [driver] at released
  cases complete : (readFrom OptionName.all argv).complete with
  | true =>
    rw [complete, if_pos rfl] at ran
    have finished : (main kzalloc argv).run.run ⟨⟨device, 0⟩, false, dl⟩ =
        (.ok 0, after.closed) := by
      rw [main, if_neg (Nat.not_lt.mpr enough)]
      exact (run_bind_ok opened _).trans (run_bind_ok ran _)
    rw [runTool, finished]
    simp only [once, released, ↓reduceIte]
  | false =>
    rw [complete, if_neg Bool.false_ne_true] at ran
    have killed : (main kzalloc argv).run.run ⟨⟨device, 0⟩, false, dl⟩ =
        (.error .killed, after) := by
      rw [main, if_neg (Nat.not_lt.mpr enough)]
      exact (run_bind_ok opened _).trans (run_bind_error ran _)
    rw [runTool, killed]
    simp only [released, Bool.false_eq_true, ↓reduceIte]

end Calls

end Vse.WordReading

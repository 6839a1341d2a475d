import Vse.Matching
import Vse.StagedCommands

/-!
# Rules by their history

What an entry holds is decided by the commands that came before it, back to the last
`VSE_IOCTL_INIT_WILDCARDS`. The command erases the staged match, its wildcards and the
core number; after it each setter stores its own value, and the setters that complete a
field open it. An entry restricts the fields completed since then. The bytes of an
address are stored one by one, so a stored address is a whole one only when the client
gives it as a whole.
-/

namespace Vse.StagedHistory

open Words SocketBuffer FlowTable Matching Device StagedCommands Runs

section Insertions

/-- The entries that a call puts in front of the table. There is one at most. -/
def inserted (state : DeviceState) (call : IoctlCall) : List VseFlowEntry :=
  (deviceStep state call).flowTable.take
    ((deviceStep state call).flowTable.length - state.flowTable.length)

/-- It is the staged rule, where control reaches the insertion and there is memory. -/
theorem inserted_eq (state : DeviceState) (call : IoctlCall) :
    inserted state call = if call.command.inserts && call.kzalloc then
      [(stage (staged state) call.command).entry] else [] := by
  have table : (deviceStep state call).flowTable = _ :=
    ioctl_flow_table call.cmd call.arg call.kzalloc state
  rw [inserted, table, IoctlCall.command]
  split
  · rw [List.length_cons, Nat.add_sub_cancel_left]
    rfl
  · rw [Nat.sub_self, List.take_zero]

/-- A commit inserts the staged rule, whatever it is: nothing of it is checked. -/
theorem inserted_commit (state : DeviceState) (call : IoctlCall)
    (commit : call.cmd = Request.setEntry.code) (memory : call.kzalloc = true) :
    inserted state call = [(staged state).entry] := by
  have isCommit : call.command = .setEntry := by
    rw [IoctlCall.command, commandOf, commit, of_code_code]
  rw [inserted_eq, isCommit, memory]
  rfl

theorem step_table (state : DeviceState) (call : IoctlCall) :
    (deviceStep state call).flowTable = inserted state call ++ state.flowTable := by
  rw [inserted_eq, deviceStep, ioctl_flow_table, IoctlCall.command]
  split <;> rfl

/-- The entry was inserted, in a run from module load, by the call that follows the given ones. So
these are the calls that the entry was made from. -/
def InsertedAfter (calls front : List IoctlCall) (entry : VseFlowEntry) : Prop :=
  ∃ call back, calls = front ++ call :: back ∧
    entry ∈ inserted (run deviceStep moduleLoad front) call

/-- The entries of the table are those that were inserted on the way. None is ever changed or
taken out. -/
theorem mem_table_iff (calls : List IoctlCall) (entry : VseFlowEntry) :
    entry ∈ (run deviceStep moduleLoad calls).flowTable ↔
      ∃ front, InsertedAfter calls front entry := by
  induction calls using List.reverseRecOn with
  | nil =>
    constructor
    · intro member
      cases member
    · rintro ⟨front, call, back, split, _⟩
      exact absurd split.symm (by simp)
  | append_singleton calls last inductionHypothesis =>
    rw [run_append, run_cons, run_nil, step_table, List.mem_append, inductionHypothesis]
    constructor
    · rintro (new | ⟨front, call, back, split, member⟩)
      · exact ⟨calls, last, [], rfl, new⟩
      · exact ⟨front, call, back ++ [last], by rw [split, List.append_assoc, List.cons_append],
          member⟩
    · rintro ⟨front, call, back, split, member⟩
      rcases List.eq_nil_or_concat back with rfl | ⟨earlier, final, rfl⟩
      · obtain ⟨rfl, same⟩ := List.append_inj' split rfl
        obtain rfl := (List.cons.inj same).1
        exact Or.inl member
      · rw [List.concat_eq_append, ← List.cons_append, ← List.append_assoc] at split
        obtain ⟨rfl, _⟩ := List.append_inj' split rfl
        exact Or.inr ⟨front, call, earlier, rfl, member⟩

/-- The call that starts a rule: it makes all fields wildcards and forgets what was staged before.
-/
def startCall : IoctlCall := ⟨Request.initWildcards.code, nullPtr, true⟩

/-- The call that commits it, with memory for the entry. -/
def commitCall : IoctlCall := ⟨Request.setEntry.code, nullPtr, true⟩

/-- The entry that is inserted when the staged rule is committed after these calls, with memory.
-/
def committed (calls : List IoctlCall) : VseFlowEntry :=
  (staged (run deviceStep moduleLoad calls)).entry

/-- It is inserted after just these calls. -/
theorem committed_inserted (calls : List IoctlCall) :
    InsertedAfter (calls ++ [commitCall]) calls (committed calls) := by
  refine ⟨commitCall, [], rfl, ?_⟩
  rw [inserted_commit _ commitCall rfl rfl]
  exact List.mem_singleton_self _

end Insertions

section Since

/-- The command that starts a rule anew. All other commands build on what is staged. -/
def isInit : Command → Bool
  | .initWildcards => true
  | _ => false

/-- The staged globals that it leaves. -/
def initialised : Staged := ⟨{ zeroMatch with wildcards := ofpfwAll }, noIrq⟩

/-- Some call started a rule. Until then the staged wildcards are those of module load, which
cover nothing. -/
def Initialised (calls : List IoctlCall) : Prop := ∃ call ∈ calls, call.command = .initWildcards

/-- The commands since the last rule was started, or since module load where none was. They alone
decide what is staged. -/
def since (calls : List IoctlCall) : List Command :=
  sinceReset isInit (calls.map IoctlCall.command)

/-- The calls that issued them, which also tell what the client's pointers delivered. -/
def callsSince (calls : List IoctlCall) : List IoctlCall :=
  sinceReset (fun call => isInit call.command) calls

/-- The commands since the last rule was started are those of the calls since then. -/
theorem since_eq_map (calls : List IoctlCall) :
    since calls = (callsSince calls).map IoctlCall.command :=
  (since_reset_map isInit IoctlCall.command calls).symm

theorem since_plain (calls : List IoctlCall) :
    ∀ command ∈ since calls, isInit command = false :=
  not_reset_since isInit (calls.map IoctlCall.command)

theorem any_init_iff (calls : List IoctlCall) :
    (calls.map IoctlCall.command).any isInit = true ↔ Initialised calls := by
  have is_init (command : Command) : isInit command = true ↔ command = .initWildcards := by
    cases command <;> simp [isInit]
  simp only [List.any_map, List.any_eq_true, Function.comp_apply, is_init, Initialised]

/-- The command leaves no trace of what was staged before. -/
theorem stage_init (before : Staged) (command : Command) (init : isInit command = true) :
    stage before command = initialised := by
  cases command <;> first | rfl | cases init

/-- What a client has staged is decided by the commands since it started the rule, whatever was
staged before. -/
theorem staged_since (start : Staged) (calls : List IoctlCall) (init : Initialised calls) :
    run stage start (calls.map IoctlCall.command) = run stage initialised (since calls) := by
  rw [run_since_reset stage isInit initialised stage_init, if_pos ((any_init_iff calls).mpr init)]
  rfl

/-- Without a rule started, all commands count. -/
theorem staged_uninitialised (start : Staged) (calls : List IoctlCall)
    (never : ¬ Initialised calls) :
    run stage start (calls.map IoctlCall.command) = run stage start (since calls) := by
  rw [run_since_reset stage isInit initialised stage_init,
    if_neg (mt (any_init_iff calls).mp never)]
  rfl

end Since

section Wildcards

/-- The position of the flag that a command clears: the one of the field it completes. Of the six
setters of an address only the last one has one. -/
def completes : Command → Option Nat
  | .setVmId _ => some 21
  | .setDlIndst index _ => if index = 5 then some 10 else none
  | .setDlDst index _ => if index = 5 then some 3 else none
  | .setVni _ => some 8
  | _ => none

/-- The field of the flag was completed by one of the commands. -/
def Completed (position : Nat) (commands : List Command) : Prop :=
  ∃ command ∈ commands, completes command = some position

instance (position : Nat) (commands : List Command) : Decidable (Completed position commands) :=
  inferInstanceAs (Decidable (∃ command ∈ commands, completes command = some position))

/-- A command opens the field it completes and no other, and closes none. -/
theorem clear_stage (before : Staged) (command : Command) (plain : isInit command = false)
    (position : Nat) : Clear (stage before command).entryMatch.wildcards position ↔
      Clear before.entryMatch.wildcards position ∨ completes command = some position := by
  have opened (bit : Nat) (inside : bit < 32) :
      Clear (before.entryMatch.wildcards &&& ~~~flag 32 bit) position ↔
        Clear before.entryMatch.wildcards position ∨ some bit = some position := by
    rw [clear_and_not_flag _ bit position inside, Option.some.injEq, @eq_comm Nat position]
  cases command with
  | initWildcards => cases plain
  | setVmId byte => exact opened 21 (by decide)
  | setDlIndst index byte =>
    by_cases last : index = 5
    · simp only [stage, completes, last, ↓reduceIte]
      exact opened 10 (by decide)
    · simp only [stage, completes, last, ↓reduceIte, reduceCtorEq, or_false]
  | setDlDst index byte =>
    by_cases last : index = 5
    · simp only [stage, completes, last, ↓reduceIte]
      exact opened 3 (by decide)
    · simp only [stage, completes, last, ↓reduceIte, reduceCtorEq, or_false]
  | setVni word => exact opened 8 (by decide)
  | setIrq byte => simp [stage, completes]
  | setEntry => simp [stage, completes]
  | unhandled => simp [stage, completes]

/-- The flags that no test looks at stay as they are: no setter clears one of them. -/
theorem covered_stage (before : Staged) (command : Command) (plain : isInit command = false) :
    (stage before command).entryMatch.wildcards ||| testedFlags =
      before.entryMatch.wildcards ||| testedFlags := by
  have kept (bit : BitVec 32) (tested : ~~~bit ||| testedFlags = BitVec.allOnes 32) :=
    and_not_or_of_within before.entryMatch.wildcards bit testedFlags tested
  cases command with
  | initWildcards => cases plain
  | setVmId byte => exact kept ofpfwVmId (by decide)
  | setDlIndst index byte =>
    by_cases last : index = 5
    · simp only [stage, last, ↓reduceIte]
      exact kept ofpfwDlIndst (by decide)
    · simp only [stage, last, ↓reduceIte]
  | setDlDst index byte =>
    by_cases last : index = 5
    · simp only [stage, last, ↓reduceIte]
      exact kept ofpfwDlDst (by decide)
    · simp only [stage, last, ↓reduceIte]
  | setVni word => exact kept ofpfwVxlanVni (by decide)
  | setIrq byte => rfl
  | setEntry => rfl
  | unhandled => rfl

/-- A run of commands opens the fields completed on the way, in addition to those that were open.
-/
theorem clear_run (before : Staged) (commands : List Command)
    (plain : ∀ command ∈ commands, isInit command = false) (position : Nat) :
    Clear (run stage before commands).entryMatch.wildcards position ↔
      Clear before.entryMatch.wildcards position ∨ Completed position commands := by
  induction commands generalizing before with
  | nil => simp [Completed]
  | cons command rest inductionHypothesis =>
    have head := plain command List.mem_cons_self
    have tail : ∀ other ∈ rest, isInit other = false := fun other member =>
      plain other (List.mem_cons_of_mem command member)
    rw [run_cons, inductionHypothesis _ tail, clear_stage before command head, or_assoc]
    simp only [Completed, List.exists_mem_cons_iff]

theorem covered_run (before : Staged) (commands : List Command)
    (plain : ∀ command ∈ commands, isInit command = false) :
    (run stage before commands).entryMatch.wildcards ||| testedFlags =
      before.entryMatch.wildcards ||| testedFlags := by
  induction commands generalizing before with
  | nil => rfl
  | cons command rest inductionHypothesis =>
    have tail : ∀ other ∈ rest, isInit other = false := fun other member =>
      plain other (List.mem_cons_of_mem command member)
    rw [run_cons, inductionHypothesis _ tail,
      covered_stage before command (plain command List.mem_cons_self)]

/-- Storing a core number and committing leave the staged match alone, so an entry holds the match
as it was before the call. -/
theorem stage_inserting (before : Staged) (command : Command) (inserts : command.inserts = true) :
    (stage before command).entryMatch = before.entryMatch := by
  cases command <;> first | rfl | cases inserts

/-- An inserted entry holds the match staged before it, projected into an entry of zeros. -/
theorem inserted_match (calls front : List IoctlCall) (entry : VseFlowEntry)
    (insertion : InsertedAfter calls front entry) : entry.vseMatch = vseSetEntryMatch zeroMatch
      (run stage (staged moduleLoad) (front.map IoctlCall.command)).entryMatch := by
  obtain ⟨call, back, _, member⟩ := insertion
  rw [inserted_eq] at member
  split at member
  · rename_i reached
    rw [List.mem_singleton.mp member, Staged.entry, run_staged,
      stage_inserting _ _ (Bool.and_eq_true _ _ ▸ reached).1]
  · cases member

/-- An entry restricts the fields completed since its rule was started. Without a rule
started the wildcards are zero, and the entry restricts every field. -/
theorem entry_restricts_iff (calls front : List IoctlCall) (entry : VseFlowEntry)
    (insertion : InsertedAfter calls front entry) (position : Nat)
    (tested : position ∈ [3, 8, 10, 21]) : Restricts (flag 32 position) entry.vseMatch ↔
      ¬ Initialised front ∨ Completed position (since front) := by
  have inside : position < 32 :=
    (by decide : ∀ position ∈ [3, 8, 10, 21], position < 32) position tested
  have plain := since_plain front
  rw [inserted_match calls front entry insertion, restricts_projected,
    restricts_iff_clear position inside]
  by_cases init : Initialised front
  · have covered : ¬ Clear initialised.entryMatch.wildcards position :=
      (by decide : ∀ position ∈ [3, 8, 10, 21], ¬ Clear initialised.entryMatch.wildcards position)
        position tested
    rw [staged_since _ front init, clear_run _ _ plain position]
    simp only [covered, init, not_true_eq_false, false_or]
  · have zero : Clear (staged moduleLoad).entryMatch.wildcards position := BitVec.getLsbD_zero
    rw [staged_uninitialised _ front init, clear_run _ _ plain position]
    simp only [zero, init, not_false_eq_true, true_or]

/-- The untested flags of an entry are set exactly when its rule was started: module load
leaves them clear, and no command sets them. -/
theorem entry_covered_iff (calls front : List IoctlCall) (entry : VseFlowEntry)
    (insertion : InsertedAfter calls front entry) :
    entry.vseMatch.wildcards ||| testedFlags = ofpfwAll ↔ Initialised front := by
  have plain := since_plain front
  have copied (data : VseMatch) : (vseSetEntryMatch zeroMatch data).wildcards = data.wildcards := by
    rw [set_entry_match_eq]
  rw [inserted_match calls front entry insertion, copied]
  by_cases init : Initialised front
  · rw [staged_since _ front init, covered_run _ _ plain]
    simp only [init, iff_true]
    decide
  · rw [staged_uninitialised _ front init, covered_run _ _ plain]
    simp only [init, iff_false]
    decide

/-- In a run that begins with `VSE_IOCTL_INIT_WILDCARDS`, a rule was started before every
insertion. -/
theorem initialised_before (first : IoctlCall) (rest front : List IoctlCall)
    (entry : VseFlowEntry) (begins : first.cmd = Request.initWildcards.code)
    (insertion : InsertedAfter (first :: rest) front entry) : Initialised front := by
  have isInit : first.command = .initWildcards := by
    rw [IoctlCall.command, commandOf, begins, of_code_code]
  obtain ⟨call, back, split, member⟩ := insertion
  cases front with
  | nil =>
    obtain rfl := (List.cons.inj split).1
    rw [inserted_eq, isInit] at member
    cases member
  | cons head tail =>
    obtain rfl := (List.cons.inj split).1
    exact ⟨first, List.mem_cons_self, isInit⟩

/-- What an entry matches, by its history. In a run that begins with `VSE_IOCTL_INIT_WILDCARDS`,
an entry that does not restrict VM_ID accepts exactly the packets that agree with it in each field
whose completing setter ran since the last such command: the outer address (flag 3), the VNI (flag
8) and the inner address (flag 10). The comparison of the final word with `OFPFW_ALL` refuses
nothing.

Proof: the staged wildcard word is all ones after the first command, and afterwards it lacks
exactly the flags of the setters that completed a field since the last such command. An entry
takes the word over as it is staged. Only flags of tested fields are ever cleared, so what the
matcher has tested adds up to all ones, and what is left of its verdict are the comparisons of the
open fields. -/
theorem match_iff_completed_fields (first : IoctlCall) (rest : List IoctlCall)
    (begins : first.cmd = Request.initWildcards.code) :
    (∀ entry, entry ∈ (run deviceStep moduleLoad (first :: rest)).flowTable ↔
      ∃ front, InsertedAfter (first :: rest) front entry) ∧
    ∀ front entry, InsertedAfter (first :: rest) front entry →
      ¬ Restricts ofpfwVmId entry.vseMatch → ∀ nwTos skb,
        ((vseDoMatch nwTos skb entry.vseMatch).value.1 = true ↔
          (Completed 3 (since front) → entry.vseMatch.dlDst = outerDst skb) ∧
          (Completed 8 (since front) → entry.vseMatch.vxVni = packetVni skb) ∧
          (Completed 10 (since front) → entry.vseMatch.dlIndst = innerDst skb)) ∧
        entry.vseMatch.wildcards ||| testedFlags = ofpfwAll := by
  refine ⟨mem_table_iff (first :: rest), ?_⟩
  intro front entry insertion anyVm nwTos skb
  have init := initialised_before first rest front entry begins insertion
  have covered := (entry_covered_iff _ front entry insertion).mpr init
  have opened (position : Nat) (tested : position ∈ [3, 8, 10, 21]) :
      Restricts (flag 32 position) entry.vseMatch ↔ Completed position (since front) := by
    rw [entry_restricts_iff _ front entry insertion position tested]
    exact or_iff_right (not_not_intro init)
  have dlDst : Restricts ofpfwDlDst entry.vseMatch ↔ _ := opened 3 (by decide)
  have vxVni : Restricts ofpfwVxlanVni entry.vseMatch ↔ _ := opened 8 (by decide)
  have dlIndst : Restricts ofpfwDlIndst entry.vseMatch ↔ _ := opened 10 (by decide)
  refine ⟨?_, covered⟩
  rw [do_match_iff, ← dlDst, ← vxVni, ← dlIndst]
  constructor
  · intro accepts
    exact ⟨accepts.dlDst, accepts.vxVni, accepts.dlIndst⟩
  · rintro ⟨outer, vni, inner⟩
    exact ⟨fun isOpen => absurd isOpen anyVm, outer, vni, inner, covered⟩

/-- A packet with VNI 10 in the place where the code looks for it, and nothing else in it. -/
def tenPacket : SkBuff :=
  received (List.replicate 46 0 ++ [0, 0, 10, 0] ++ List.replicate 10 0) 14 (by decide) (by decide)

/-- The entry of a client that stages VNI 10 and commits accepts a packet whose bytes at
the place of the VNI are 10. -/
theorem vni_entry_matches :
    let front := [startCall, ⟨Request.setVni.code, wordPtr 10, true⟩]
    (vseDoMatch 0 tenPacket (committed front).vseMatch).value.1 = true := by
  intro front
  have insertion := committed_inserted front
  have matches_iff := (match_iff_completed_fields startCall _ rfl).2 front _ insertion (by decide)
    0 tenPacket
  exact matches_iff.1.mpr ⟨fun completed => absurd completed (by decide), fun _ => by decide,
    fun completed => absurd completed (by decide)⟩

end Wildcards

section Addresses

/-- The two addresses that are stored byte by byte, the inner and the outer destination. -/
inductive MacField where
  | inner
  | outer

namespace MacField

/-- The position of the field's flag. -/
def position : MacField → Nat
  | .inner => 10
  | .outer => 3

/-- The field of a match. -/
def mac (vseMatch : VseMatch) : MacField → Mac
  | .inner => vseMatch.dlIndst
  | .outer => vseMatch.dlDst

/-- The place that a setter of the field stores at. -/
def place : MacField → Command → Option (Fin 6)
  | .inner, .setDlIndst index _ => some index
  | .outer, .setDlDst index _ => some index
  | _, _ => none

/-- The byte that a setter of the field stores, with its place. -/
def stores : MacField → Command → Option (Fin 6 × Byte)
  | .inner, .setDlIndst index byte => some (index, byte)
  | .outer, .setDlDst index byte => some (index, byte)
  | _, _ => none

/-- The byte that a call supplies for the field, with its place. It is read from the
client's pointer, so a setter whose pointer cannot be read supplies none, although it
stores a zero all the same. -/
def supplies (field : MacField) (call : IoctlCall) : Option (Fin 6 × Byte) :=
  (field.place call.command).bind fun index => (call.arg 0).map fun byte => (index, byte)

/-- If the call is a setter of the field, then the byte that it reads is there. -/
def Readable (field : MacField) (call : IoctlCall) : Prop :=
  field.place call.command ≠ none → call.arg 0 ≠ none

instance (field : MacField) (call : IoctlCall) : Decidable (field.Readable call) :=
  inferInstanceAs (Decidable (_ → _))

theorem get_user_readable (arg : UserPtr) (readable : arg 0 ≠ none) :
    arg 0 = some (getUserByte arg).stored := by
  obtain ⟨byte, found⟩ := Option.ne_none_iff_exists'.mp readable
  rw [getUserByte, found]

/-- A setter whose pointer can be read stores what its client supplies. -/
theorem stores_eq_supplies (field : MacField) (call : IoctlCall)
    (readable : field.Readable call) : field.stores call.command = field.supplies call := by
  have read := get_user_readable call.arg
  rw [Readable, IoctlCall.command] at readable
  rw [supplies, IoctlCall.command]
  cases decoded : Request.ofCode call.cmd with
  | none => cases field <;> simp only [commandOf, decoded] <;> rfl
  | some request =>
    cases field <;> cases request <;> simp only [commandOf, decoded] at readable ⊢ <;>
      first | rfl | exact (congrArg (Option.map _) (read (readable (Option.some_ne_none _)))).symm

end MacField

variable (field : MacField)

/-- The bytes stored for the field, in the order of the setters. -/
def stored (commands : List Command) : List (Fin 6 × Byte) := commands.filterMap field.stores

/-- The bytes supplied for the field, in the order of the setters. -/
def supplied (calls : List IoctlCall) : List (Fin 6 × Byte) := calls.filterMap field.supplies

/-- Where every setter of the field can read its pointer, what is stored is what was supplied.
Elsewhere zeros are stored that nobody supplied. -/
theorem stored_eq_supplied (calls : List IoctlCall)
    (readable : ∀ call ∈ calls, field.Readable call) :
    stored field (calls.map IoctlCall.command) = supplied field calls := by
  rw [stored, supplied, List.filterMap_map]
  exact List.filterMap_congr fun call member =>
    field.stores_eq_supplies call (readable call member)

/-- The bytes of a complete round of the six setters, from the first to the last, as the tool
sends them for an address. -/
def roundOf (mac : Mac) : List (Fin 6 × Byte) := List.ofFn fun index => (index, mac index)

/-- One complete round supplied the address: its six setters came one after the other, with its
bytes. -/
def SuppliedWhole (calls : List IoctlCall) (mac : Mac) : Prop :=
  roundOf mac <:+: supplied field calls

instance (calls : List IoctlCall) (mac : Mac) : Decidable (SuppliedWhole field calls mac) :=
  inferInstanceAs (Decidable (_ <:+: _))

/-- Write bytes into an address, each to its place. -/
def written (mac : Mac) (bytes : List (Fin 6 × Byte)) : Mac :=
  bytes.foldl (fun mac byte => Function.update mac byte.1 byte.2) mac

/-- The byte written last to the given place, if any was. -/
def lastByte (index : Fin 6) (bytes : List (Fin 6 × Byte)) : Option Byte :=
  (bytes.reverse.find? fun byte => byte.1 = index).map Prod.snd

/-- A place holds the byte written there last, or what it held before. Writes to the other places
do not matter. -/
theorem written_last (mac : Mac) (bytes : List (Fin 6 × Byte)) (index : Fin 6) :
    written mac bytes index = (lastByte index bytes).getD (mac index) := by
  induction bytes using List.reverseRecOn with
  | nil => rfl
  | append_singleton bytes byte inductionHypothesis =>
    have after : written mac (bytes ++ [byte]) =
        Function.update (written mac bytes) byte.1 byte.2 := by
      rw [written, List.foldl_append]
      rfl
    have last : lastByte index (bytes ++ [byte]) =
        if byte.1 = index then some byte.2 else lastByte index bytes := by
      rw [lastByte, List.reverse_append, List.reverse_singleton, List.singleton_append,
        List.find?_cons]
      by_cases here : byte.1 = index <;> simp [here, lastByte]
    rw [after, last]
    by_cases here : byte.1 = index
    · subst here
      rw [Function.update_self, if_pos rfl]
      rfl
    · rw [Function.update_of_ne (Ne.symm here), if_neg here, inductionHypothesis]

theorem written_round (mac new : Mac) : written mac (roundOf new) = new := by
  funext index
  match index with
  | 0 | 1 | 2 | 3 | 4 | 5 => rfl

/-- Of several complete rounds the last decides, since it writes to every place. -/
theorem written_rounds (mac last : Mac) (rounds : List Mac) :
    written mac ((rounds ++ [last]).flatMap roundOf) = last := by
  rw [List.flatMap_append, List.flatMap_singleton, written, List.foldl_append]
  exact written_round _ last

/-- A command writes to the staged address the byte it stores, if it is a setter of that address.
A command that starts a rule is left out here. -/
theorem mac_stage (before : Staged) (command : Command) (plain : isInit command = false) :
    field.mac (stage before command).entryMatch =
      written (field.mac before.entryMatch) (field.stores command).toList := by
  cases command with
  | initWildcards => cases plain
  | setDlIndst index byte =>
    cases field <;> by_cases last : index = 5 <;> simp only [stage, last, ↓reduceIte] <;> rfl
  | setDlDst index byte =>
    cases field <;> by_cases last : index = 5 <;> simp only [stage, last, ↓reduceIte] <;> rfl
  | _ => cases field <;> rfl

/-- A run of commands writes the bytes they store, one after the other. -/
theorem mac_run (before : Staged) (commands : List Command)
    (plain : ∀ command ∈ commands, isInit command = false) :
    field.mac (run stage before commands).entryMatch =
      written (field.mac before.entryMatch) (stored field commands) := by
  induction commands generalizing before with
  | nil => rfl
  | cons command rest inductionHypothesis =>
    have tail : ∀ other ∈ rest, isInit other = false := fun other member =>
      plain other (List.mem_cons_of_mem command member)
    have split : stored field (command :: rest) =
        (field.stores command).toList ++ stored field rest := by
      rw [stored, List.filterMap_cons, stored]
      cases field.stores command <;> rfl
    rw [run_cons, inductionHypothesis _ tail, split,
      mac_stage field before command (plain command List.mem_cons_self), written, written, written,
      List.foldl_append]

/-- The setter of the last byte is the one that completes the field, with or without the five
others. -/
theorem completed_iff_stored (commands : List Command) :
    Completed field.position commands ↔ ∃ byte, (5, byte) ∈ stored field commands := by
  have completes_iff (command : Command) : completes command = some field.position ↔
      ∃ byte, field.stores command = some (5, byte) := by
    cases field <;> cases command <;>
      simp [completes, MacField.position, MacField.stores, ite_eq_iff]
  simp only [Completed, completes_iff, stored, List.mem_filterMap]
  constructor
  · rintro ⟨command, member, byte, last⟩
    exact ⟨byte, command, member, last⟩
  · rintro ⟨byte, command, member, last⟩
    exact ⟨command, member, byte, last⟩

/-- The address that an entry restricts was written byte by byte since its rule was
started, on top of zeros. -/
theorem entry_mac (calls front : List IoctlCall) (entry : VseFlowEntry)
    (insertion : InsertedAfter calls front entry)
    (restricted : Restricts (flag 32 field.position) entry.vseMatch) :
    field.mac entry.vseMatch = written (fun _ => 0) (stored field (since front)) := by
  have plain := since_plain front
  rw [inserted_match calls front entry insertion] at restricted ⊢
  rw [restricts_projected] at restricted
  have copied (data : VseMatch) (isOpen : Restricts (flag 32 field.position) data) :
      field.mac (vseSetEntryMatch zeroMatch data) = field.mac data := by
    rw [set_entry_match_eq]
    cases field with
    | inner => exact if_pos isOpen
    | outer => exact if_pos isOpen
  rw [copied _ restricted]
  by_cases init : Initialised front
  · rw [staged_since _ front init, mac_run field _ _ plain]
    cases field <;> rfl
  · rw [staged_uninitialised _ front init, mac_run field _ _ plain]
    cases field <;> rfl

/-- Where the bytes of a restricted address come from, when the setters of that address
can read their pointers. The setter of the last byte alone opens the field, and each byte
is the one that its own setter supplied last since the rule was started, or zero where it
supplied none. The address is a whole one when the client gives its setters in complete
rounds: it is then the address of the last round.

Proof: `VSE_IOCTL_INIT_WILDCARDS` erases the staged match, so a run writes on top of zeros
the bytes stored since the last one, each to its own place; these are the supplied bytes,
as nothing faults. Of the bytes written to one place the last one stays, and a complete
round replaces all six. -/
theorem address_bytes_supplied (calls front : List IoctlCall) (entry : VseFlowEntry)
    (insertion : InsertedAfter calls front entry)
    (readable : ∀ call ∈ callsSince front, field.Readable call) :
    (Restricts (flag 32 field.position) entry.vseMatch ↔
      ¬ Initialised front ∨ ∃ byte, (5, byte) ∈ supplied field (callsSince front)) ∧
    (Restricts (flag 32 field.position) entry.vseMatch → ∀ index, field.mac entry.vseMatch index =
      (lastByte index (supplied field (callsSince front))).getD 0) ∧
    (Initialised front → Restricts (flag 32 field.position) entry.vseMatch → ∀ rounds : List Mac,
      supplied field (callsSince front) = rounds.flatMap roundOf →
        rounds.getLast? = some (field.mac entry.vseMatch)) := by
  have tested : field.position ∈ [3, 8, 10, 21] := by
    cases field <;> decide
  have restricts := entry_restricts_iff calls front entry insertion field.position tested
  have bytes := entry_mac field calls front entry insertion
  have same := stored_eq_supplied field (callsSince front) readable
  rw [← since_eq_map] at same
  rw [completed_iff_stored, same] at restricts
  rw [same] at bytes
  refine ⟨restricts, ?_, ?_⟩
  · intro restricted index
    rw [bytes restricted, written_last]
  · intro init restricted rounds whole
    obtain ⟨byte, member⟩ := (restricts.mp restricted).resolve_left (not_not_intro init)
    rw [bytes restricted, whole]
    rcases List.eq_nil_or_concat rounds with rfl | ⟨earlier, last, rfl⟩
    · rw [whole] at member
      cases member
    · rw [List.concat_eq_append, written_rounds, List.getLast?_concat]

/-- The calls that give the outer address, byte by byte and in order. -/
def outerCalls (mac : Mac) : List IoctlCall :=
  [⟨Request.setDlDst1.code, bytePtr (mac 0), true⟩,
    ⟨Request.setDlDst2.code, bytePtr (mac 1), true⟩,
    ⟨Request.setDlDst3.code, bytePtr (mac 2), true⟩,
    ⟨Request.setDlDst4.code, bytePtr (mac 3), true⟩,
    ⟨Request.setDlDst5.code, bytePtr (mac 4), true⟩,
    ⟨Request.setDlDst6.code, bytePtr (mac 5), true⟩]

/-- The last byte alone makes a rule for an address that no round supplied, and a commit in
the middle of a second round a rule for a mixture of two. Every setter reads its byte. -/
theorem torn_addresses_inserted :
    let half := [startCall, ⟨Request.setDlDst6.code, bytePtr 6, true⟩]
    let mixed := startCall :: outerCalls ![1, 2, 3, 4, 5, 6] ++
      [⟨Request.setDlDst1.code, bytePtr 9, true⟩]
    (InsertedAfter (half ++ [commitCall]) half (committed half) ∧
      Restricts ofpfwDlDst (committed half).vseMatch ∧
      (committed half).vseMatch.dlDst = ![0, 0, 0, 0, 0, 6] ∧
      ¬ SuppliedWhole .outer (callsSince half) (committed half).vseMatch.dlDst) ∧
    InsertedAfter (mixed ++ [commitCall]) mixed (committed mixed) ∧
      Restricts ofpfwDlDst (committed mixed).vseMatch ∧
      (committed mixed).vseMatch.dlDst = ![9, 2, 3, 4, 5, 6] ∧
      ¬ SuppliedWhole .outer (callsSince mixed) (committed mixed).vseMatch.dlDst := by
  intro half mixed
  exact ⟨⟨committed_inserted half, by decide, by decide, by decide⟩, committed_inserted mixed,
    by decide, by decide, by decide⟩

/-- A complete round is stored whole, by the law above, as all its pointers can be read. -/
theorem whole_address_stored :
    (committed (startCall :: outerCalls ![1, 2, 3, 4, 5, 6])).vseMatch.dlDst =
      ![1, 2, 3, 4, 5, 6] := by
  let front := startCall :: outerCalls ![1, 2, 3, 4, 5, 6]
  have whole := (address_bytes_supplied .outer _ front _ (committed_inserted front)
    (by decide)).2.2 ⟨startCall, List.mem_cons_self, rfl⟩ (by decide) [![1, 2, 3, 4, 5, 6]]
    (by decide)
  exact (Option.some.inj whole).symm

end Addresses

end Vse.StagedHistory

import Vse.ToolHistories

/-!
# What the tool can set up

The control device takes any match and any core. The tool names a core and at most one condition
for each field, and its runs put one rule in front of the others. What it can set up with
well-formed lines is nevertheless all that a table can do by what is in the packets alone: only a
table whose look-ups depend on the byte behind the unassigned pointer, or which sends packets to
the number that stands for no core, is out of its reach.

For an entry that no packet meets, and for one that only the stray byte lets in, there is a line
too: it asks for a VNI of 25 bits.
-/

namespace Vse.SettablePolicies

open CStrings SocketBuffer FlowTable Matching Device StagedCommands Conditions CommandLine
  SetEntryTool ToolContracts ModuleRuns PacketSteering RulePolicies OrderedRules Runs LiveRules
  VniDecoding MatcherLaws ToolHistories

section Writing

theorem packet_vni_lt (skb : SkBuff) : (packetVni skb).toNat < 2 ^ 24 :=
  ((decodable_iff (packetVni skb)).mp (packet_vni_decodable skb)).2

/-- A VNI of 25 bits can be asked for, on the command line, and no packet has it. -/
theorem exists_dead_word : ∃ word : DecimalWord,
    ∀ skb, packetVni skb ≠ BitVec.ofNat 32 word.value := by
  obtain ⟨word, value⟩ := exists_decimal_word (2 ^ 24) (by decide)
  refine ⟨word, fun skb asked => ?_⟩
  have small := packet_vni_lt skb
  rw [asked, value] at small
  exact absurd small (by decide)

/-- Every VNI that some packet has can be asked for, and for the others stands a number that no
packet has either. -/
theorem exists_vni_word (vni : BitVec 32) : ∃ word : DecimalWord,
    ∀ skb, packetVni skb = BitVec.ofNat 32 word.value ↔ packetVni skb = vni := by
  by_cases narrow : vni.toNat < 2 ^ 24
  · obtain ⟨word, value⟩ := exists_decimal_word vni.toNat (by omega)
    refine ⟨word, fun skb => ?_⟩
    rw [value, BitVec.ofNat_toNat, BitVec.setWidth_eq]
  · obtain ⟨word, dead⟩ := exists_dead_word
    refine ⟨word, fun skb => iff_of_false (dead skb) ?_⟩
    rintro rfl
    exact narrow (packet_vni_lt skb)

/-- Every address can be written. -/
theorem exists_address (mac : Mac) :
    ∃ bytes : Fin 6 → HexByte, (fun index => (bytes index).value) = mac := by
  choose written value using exists_hex_byte
  exact ⟨fun index => written (mac index), funext fun index => value (mac index)⟩

def Asks (vseMatch : VseMatch) : Setting → Prop
  | .vni _ => Restricts ofpfwVxlanVni vseMatch
  | .dlIndst _ => Restricts ofpfwDlIndst vseMatch
  | .dlDst _ => Restricts ofpfwDlDst vseMatch

/-- The packet has in the fields that the packet decides what the match asks for. Nothing is said
of VM_ID. -/
structure Meets (vseMatch : VseMatch) (skb : SkBuff) : Prop where
  vxVni : Restricts ofpfwVxlanVni vseMatch → packetVni skb = vseMatch.vxVni
  dlIndst : Restricts ofpfwDlIndst vseMatch → innerDst skb = vseMatch.dlIndst
  dlDst : Restricts ofpfwDlDst vseMatch → outerDst skb = vseMatch.dlDst

/-- Every match can be written as settings, none of them given twice, that hold of the packets
that meet it. -/
theorem exists_settings (vseMatch : VseMatch) : ∃ settings : List Setting,
    (settings.Pairwise fun one other => one.option ≠ other.option) ∧
      ∀ skb, (∀ condition ∈ settings.map Setting.condition, condition.Holds skb) ↔
        Meets vseMatch skb := by
  classical
  obtain ⟨word, vni⟩ := exists_vni_word vseMatch.vxVni
  obtain ⟨inner, innerBytes⟩ := exists_address vseMatch.dlIndst
  obtain ⟨outer, outerBytes⟩ := exists_address vseMatch.dlDst
  refine ⟨[.vni word, .dlIndst inner, .dlDst outer].filter (Asks vseMatch ·), ?_, ?_⟩
  · apply List.Pairwise.filter
    have vniApart : ∀ other ∈ [Setting.dlIndst inner, .dlDst outer],
        (Setting.vni word).option ≠ other.option := by
      simp [Setting.option, vniOption, dlIndstOption, dlDstOption]
    have innerApart : ∀ other ∈ [Setting.dlDst outer],
        (Setting.dlIndst inner).option ≠ other.option := by
      simp [Setting.option, dlIndstOption, dlDstOption]
    exact .cons vniApart (.cons innerApart (List.pairwise_singleton _ _))
  · intro skb
    have asked : (∀ condition ∈ ([Setting.vni word, .dlIndst inner, .dlDst outer].filter
          (Asks vseMatch ·)).map Setting.condition, condition.Holds skb) ↔
        ∀ setting ∈ [Setting.vni word, .dlIndst inner, .dlDst outer], Asks vseMatch setting →
          setting.condition.Holds skb := by
      simp only [List.forall_mem_map, List.mem_filter, decide_eq_true_eq, and_imp]
    rw [asked]
    simp only [List.forall_mem_cons, List.not_mem_nil, false_implies, implies_true, and_true,
      Asks, Setting.condition, Condition.Holds, vni, innerBytes, outerBytes]
    constructor
    · rintro ⟨hasVni, hasInner, hasOuter⟩
      exact ⟨hasVni, hasInner, hasOuter⟩
    · rintro ⟨hasVni, hasInner, hasOuter⟩
      exact ⟨hasVni, hasInner, hasOuter⟩

theorem core_byte_ne (line : Invocation) : line.coreByte ≠ noIrq := by
  intro same
  have value := congrArg BitVec.toNat same
  have small := line.core_lt
  rw [Invocation.coreByte, BitVec.toNat_ofNat, Nat.mod_eq_of_lt (by omega)] at value
  have none : noIrq.toNat = 255 := rfl
  omega

/-- Settings, none of them given twice, and a core make a line that names the core at its end. -/
theorem exists_line (settings : List Setting)
    (once : settings.Pairwise fun one other => one.option ≠ other.option) (irq : Byte)
    (isCore : irq ≠ noIrq) : ∃ line : Invocation,
      line.conditions = settings.map Setting.condition ∧
        line.earlyConditions = line.conditions ∧ line.coreByte = irq := by
  obtain ⟨core, value⟩ := exists_decimal_word irq.toNat (by omega)
  have below : core.value < 255 := by
    have none : irq.toNat ≠ noIrq.toNat := mt BitVec.eq_of_toNat_eq isCore
    have reserved : noIrq.toNat = 255 := rfl
    omega
  refine ⟨⟨['v', 's', 'e'], settings, core, [], by decide, below, ?_⟩, ?_, ?_, ?_⟩
  · rwa [List.append_nil]
  · exact congrArg (List.map Setting.condition) (List.append_nil settings)
  · exact (congrArg (List.map Setting.condition) (List.append_nil settings)).symm
  · rw [Invocation.coreByte, value, BitVec.ofNat_toNat, BitVec.setWidth_eq]

end Writing

section Policies

/-- A byte with which the VM_ID of the match does not agree, which exists for every match. -/
def dissenting (vseMatch : VseMatch) : Byte :=
  if (vseMatch.vmId ^^^ ((0 : Byte) >>> 2)) &&& 0x7f = 0 then 0 ^^^ 4 else 0

/-- With it the match does not accept if it restricts VM_ID. -/
theorem dissenting_differs (vseMatch : VseMatch) :
    ¬ (vseMatch.vmId ^^^ (dissenting vseMatch >>> 2)) &&& 0x7f = 0 := by
  by_cases agrees : (vseMatch.vmId ^^^ ((0 : Byte) >>> 2)) &&& 0x7f = 0
  · rw [dissenting, if_pos agrees]
    exact other_tos_differs vseMatch.vmId 0 agrees
  · rw [dissenting, if_neg agrees]
    exact agrees

/-- With such a byte the matches that accept are those without VM_ID, and they accept what they
accept anyway. -/
theorem accepts_dissenting (vseMatch : VseMatch) (skb : SkBuff) :
    Accepts (dissenting vseMatch) skb vseMatch ↔ Tame vseMatch ∧ Meets vseMatch skb := by
  constructor
  · rintro ⟨vmId, dlDst, vxVni, dlIndst, covered⟩
    refine ⟨⟨covered, fun restricted => dissenting_differs vseMatch (vmId restricted)⟩, ?_⟩
    exact ⟨fun isOpen => (vxVni isOpen).symm, fun isOpen => (dlIndst isOpen).symm,
      fun isOpen => (dlDst isOpen).symm⟩
  · rintro ⟨⟨covered, noVmId⟩, vxVni, dlIndst, dlDst⟩
    exact ⟨fun restricted => absurd restricted noVmId, fun isOpen => (dlDst isOpen).symm,
      fun isOpen => (vxVni isOpen).symm, fun isOpen => (dlIndst isOpen).symm, covered⟩

/-- The entry sends the packet to a core, without help of the stray byte and not to the sentinel.
-/
def sends (skb : SkBuff) (entry : VseFlowEntry) : Bool :=
  accepted (dissenting entry.vseMatch) skb entry && decide (entry.irq ≠ noIrq)

def dissentingCall (entry : VseFlowEntry) : MatchCall := ⟨dissenting entry.vseMatch, entry⟩

/-- The calls of a look-up that reads such a byte for every entry. -/
def dissentingCalls (table : List VseFlowEntry) : List MatchCall := table.map dissentingCall

theorem dissenting_entries (table : List VseFlowEntry) :
    (dissentingCalls table).map MatchCall.entry = table := by
  rw [dissentingCalls, List.map_map]
  exact List.map_id table

/-- With these bytes the table decides as its calls do. -/
theorem core_dissenting (table : List VseFlowEntry) (skb : SkBuff) :
    core (bytesOf (dissentingCalls table)) skb table = decided skb (dissentingCalls table) := by
  have listed := match_calls_of (dissentingCalls table)
  rw [dissenting_entries] at listed
  rw [core, listed]

/-- There is a line for every entry: it applies where the entry sends packets to a core, and names
that core. An entry that sends nothing anywhere gets a line that no packet meets. -/
theorem exists_line_of_entry (entry : VseFlowEntry) : ∃ line : Invocation,
    line.earlyConditions = line.conditions ∧
      (∀ skb, (∀ condition ∈ line.conditions, condition.Holds skb) ↔ sends skb entry = true) ∧
      ∀ skb, sends skb entry = true → line.coreByte = entry.irq := by
  have sent (skb : SkBuff) : sends skb entry = true ↔
      (Tame entry.vseMatch ∧ Meets entry.vseMatch skb) ∧ entry.irq ≠ noIrq := by
    rw [sends, Bool.and_eq_true, accepted_iff, accepts_dissenting, decide_eq_true_eq]
  by_cases possible : Tame entry.vseMatch ∧ entry.irq ≠ noIrq
  · obtain ⟨tame, isCore⟩ := possible
    obtain ⟨settings, once, meets⟩ := exists_settings entry.vseMatch
    obtain ⟨line, conditions, early, core⟩ := exists_line settings once entry.irq isCore
    refine ⟨line, early, ?_, fun skb _ => core⟩
    intro skb
    rw [conditions, meets, sent]
    exact ⟨fun holds => ⟨⟨tame, holds⟩, isCore⟩, fun both => both.1.2⟩
  · -- The entry sends nothing, and a VNI of 25 bits asks for nothing.
    obtain ⟨word, dead⟩ := exists_dead_word
    obtain ⟨line, conditions, early, _⟩ :=
      exists_line [.vni word] (List.pairwise_singleton _ _) 0 (by decide)
    have silent (skb : SkBuff) : ¬ sends skb entry = true := by
      rw [sent]
      exact fun both => possible ⟨both.1.1, both.2⟩
    refine ⟨line, early, ?_, fun skb sends => absurd sends (silent skb)⟩
    intro skb
    refine iff_of_false ?_ (silent skb)
    intro holds
    rw [conditions] at holds
    exact dead skb (holds _ List.mem_cons_self)

def granted (line : Invocation) : LineRun := ⟨line, fun _ => true, fun _ => 0⟩

/-- There are lines for every table, one for each of its entries, that name the cores that the
entries send packets to. -/
theorem exists_lines (table : List VseFlowEntry) : ∃ lines : List Invocation,
    (lines = [] ↔ table = []) ∧
      ∀ skb, named skb (lines.map granted) = decision (sends skb) VseFlowEntry.irq table := by
  choose lineOf early applies names using exists_line_of_entry
  refine ⟨table.map lineOf, List.map_eq_nil_iff, ?_⟩
  intro skb
  rw [List.map_map, named]
  apply decision_map
  · intro entry _
    rw [Bool.eq_iff_iff, ← applies entry skb, LineRun.applies, Function.comp_apply, granted,
      decide_eq_true_eq, early entry, or_self, eq_self, true_and]
  · intro entry _ sent
    exact names entry skb sent

theorem granted_table (device : DeviceState) (lines : List Invocation)
    (idle : device.deviceOpen = 0) (some : lines ≠ []) :
    (run afterRun device ((lines.map granted).map LineRun.toolRun)).flowTable ≠ [] := by
  obtain ⟨line, rest, rfl⟩ := List.exists_cons_of_ne_nil some
  rw [List.map_cons, List.map_cons, run_cons]
  have idleAfter := (run_adds device (granted line).toolRun idle).1
  obtain ⟨_, new, table, _⟩ := runs_add _ ((rest.map granted).map LineRun.toolRun) idleAfter
  rw [table, afterRun, LineRun.toolRun, granted, table_after_idle line _ _ device idle]
  simp [insertedTable]

theorem core_rxhash (nwTos : Nat → Byte) (skb : SkBuff) (rxhash : BitVec 32)
    (table : List VseFlowEntry) :
    core nwTos { skb with rxhash := rxhash } table = core nwTos skb table := by
  have same : MatchCall.accepts (withMacHeader { skb with rxhash := rxhash }) =
      MatchCall.accepts (withMacHeader skb) := by
    have wasSet : skbMacHeaderWasSet { skb with rxhash := rxhash } = skbMacHeaderWasSet skb := rfl
    unfold withMacHeader
    rw [wasSet]
    split <;> rfl
  rw [core, core, decided, decided, same]

/-- Tables that handle all packets alike decide on the same cores: where a packet comes with a
hash above all core numbers, the hash it leaves with tells the core. -/
theorem core_of_handled (table other : List VseFlowEntry)
    (alike : ∀ nwTos skb rps, (vseHandleData nwTos skb rps table).value =
      (vseHandleData nwTos skb rps other).value) (nwTos : Nat → Byte) (skb : SkBuff) :
    core nwTos skb table = core nwTos skb other := by
  -- A hash above all core numbers shows whether the packet was steered.
  have same := congrArg (fun handled => handled.1.rxhash)
    (alike nwTos { skb with rxhash := 256 } ⟨oneQueueDevice, none⟩)
  have above (irq : Byte) : irq.setWidth 32 ≠ 256 := by
    intro equal
    have value := congrArg BitVec.toNat equal
    rw [BitVec.toNat_setWidth, Nat.mod_eq_of_lt (by omega)] at value
    have high : (256 : BitVec 32).toNat = 256 := rfl
    omega
  rw [(handle_data_outcome nwTos _ _ table).1, (handle_data_outcome nwTos _ _ other).1,
    core_rxhash nwTos skb 256 table, core_rxhash nwTos skb 256 other] at same
  cases decided : core nwTos skb table with
  | none =>
    cases alsoDecided : core nwTos skb other with
    | none => rfl
    | some irq =>
      rw [decided, alsoDecided] at same
      exact absurd same.symm (above irq)
  | some irq =>
    cases alsoDecided : core nwTos skb other with
    | none =>
      rw [decided, alsoDecided] at same
      exact absurd same (above irq)
    | some otherIrq =>
      rw [decided, alsoDecided] at same
      exact congrArg some (widened_inj same)

/-- What lines decide, they decide for a core: a line's number is below the sentinel. -/
theorem named_ne (skb : SkBuff) (lineRuns : List LineRun) : named skb lineRuns ≠ some noIrq := by
  intro decided
  obtain ⟨lineRun, _, core⟩ := Option.map_eq_some_iff.mp decided
  exact core_byte_ne lineRun.line core

/-- What well-formed lines can set up. A table handles packets as some lines do, run one after the
other on a module that was just loaded, exactly when it decides alike whatever is read through the
unassigned pointer, and never for the number that stands for no core.

Proof: lines insert entries without VM_ID and name cores below the sentinel, so what they set up
has both properties. The other way, let every call read a byte with which its entry's VM_ID
disagrees: only entries without VM_ID accept then, and there is a line for each of them. The table
decides so for all bytes, as it decides alike for all. -/
theorem settable_iff (table : List VseFlowEntry) :
    (∃ lineRuns : List LineRun, ∀ nwTos skb rps,
        (vseHandleData nwTos skb rps
            (run afterRun moduleLoad (lineRuns.map LineRun.toolRun)).flowTable).value =
          (vseHandleData nwTos skb rps table).value) ↔
      ∀ nwTos other skb, core nwTos skb table = core other skb table ∧
        core nwTos skb table ≠ some noIrq := by
  have unloaded (nwTos : Nat → Byte) (skb : SkBuff) (lineRuns : List LineRun) :
      core nwTos skb (run afterRun moduleLoad (lineRuns.map LineRun.toolRun)).flowTable =
        named (withMacHeader skb) lineRuns.reverse := by
    rw [lines_core nwTos skb moduleLoad lineRuns rfl]
    exact Option.or_none
  constructor
  · rintro ⟨lineRuns, alike⟩ nwTos other skb
    rw [← core_of_handled _ table alike, ← core_of_handled _ table alike, unloaded, unloaded]
    exact ⟨rfl, named_ne _ _⟩
  · intro decides
    obtain ⟨lines, empty, names⟩ := exists_lines table
    refine ⟨(lines.reverse.map granted), ?_⟩
    intro nwTos skb rps
    apply handled_alike
    · rw [← empty]
      constructor
      · intro noEntry
        by_contra some
        exact granted_table moduleLoad lines.reverse rfl (mt List.reverse_eq_nil_iff.mp some)
          noEntry
      · intro noLine
        rw [noLine]
        rfl
    · have quiet := decides nwTos (bytesOf (dissentingCalls table)) skb
      rw [core_dissenting] at quiet
      rw [unloaded, ← List.map_reverse, List.reverse_reverse, names, quiet.1]
      -- Only an entry that is found could be one without a core.
      have kept : ∀ call,
          (dissentingCalls table).find? (MatchCall.accepts (withMacHeader skb)) = some call →
            decide (call.entry.irq ≠ noIrq) = true := by
        intro call found
        have reserved := quiet.2
        rw [quiet.1, decided, decision, found] at reserved
        exact decide_eq_true fun same => reserved (congrArg some same)
      refine Eq.trans ?_ (decision_and _ _ _ (dissentingCalls table) kept)
      exact (decision_map (sends (withMacHeader skb)) VseFlowEntry.irq
        (fun call => MatchCall.accepts (withMacHeader skb) call && decide (call.entry.irq ≠ noIrq))
        (fun call => call.entry.irq) dissentingCall table (fun _ _ => rfl) fun _ _ _ => rfl).symm

end Policies

end Vse.SettablePolicies

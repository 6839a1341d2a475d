import Vse.OrderedRules
import Vse.FlowTable

/-!
# What a match accepts

`Accepts` states the meaning of a match as a condition on the packet: every field
that the wildcards leave open agrees with the packet, and the flags of fields
that the matcher never tests are all set. The bookkeeping of `vse_do_match`, which
marks each agreeing field and compares the final word with `OFPFW_ALL`, computes
exactly this. A look-up is then the search for the first accepting entry.
-/

namespace Vse.Matching

open Words SocketBuffer FlowTable OrderedRules

/-- The wildcards leave the field of the given flag open to comparison. The match then restricts
the field to its own value. -/
def Restricts (bit : BitVec 32) (vseMatch : VseMatch) : Prop := ~~~vseMatch.wildcards &&& bit ≠ 0

instance (bit : BitVec 32) (vseMatch : VseMatch) : Decidable (Restricts bit vseMatch) :=
  inferInstanceAs (Decidable (_ ≠ _))

/-- The flags of the four fields that the matcher tests. An open flag of any other field makes the
match unsatisfiable. -/
def testedFlags : BitVec 32 := ofpfwVmId ||| ofpfwDlDst ||| ofpfwVxlanVni ||| ofpfwDlIndst

/-- The outer destination address, `eth_hdr(skb)->h_dest`: the six bytes from the MAC header on.
-/
def outerDst (skb : SkBuff) : Mac := fun index => skb.memory (ethHdr skb + index)

/-- The inner destination address: the six bytes at the place that the code computes, whatever the
packet has there. -/
def innerDst (skb : SkBuff) : Mac := fun index => skb.memory (vseGetInnerEthhdr skb + index)

/-- The VNI as the code decodes it. For which packets it is the one they carry is a question of
its own. -/
def packetVni (skb : SkBuff) : BitVec 32 := (vseGetVxlanVni skb).value

/-- What a match asks of a packet, and of the byte behind the unassigned pointer: every open field
agrees with the packet, and only fields that the matcher tests are open. -/
structure Accepts (nwTos : Byte) (skb : SkBuff) (vseMatch : VseMatch) : Prop where
  vmId : Restricts ofpfwVmId vseMatch → (vseMatch.vmId ^^^ (nwTos >>> 2)) &&& 0x7f = 0
  dlDst : Restricts ofpfwDlDst vseMatch → vseMatch.dlDst = outerDst skb
  vxVni : Restricts ofpfwVxlanVni vseMatch → vseMatch.vxVni = packetVni skb
  dlIndst : Restricts ofpfwDlIndst vseMatch → vseMatch.dlIndst = innerDst skb
  covered : vseMatch.wildcards ||| testedFlags = ofpfwAll

/-- A flag's mask and its position ask the same question of a match, so either form may be used
for the other. -/
theorem restricts_iff_clear (position : Nat) (inside : position < 32) (vseMatch : VseMatch) :
    Restricts (flag 32 position) vseMatch ↔ Clear vseMatch.wildcards position :=
  complement_and_flag vseMatch.wildcards position inside

/-- A field test fails on an open field that differs. Otherwise the tests that
follow decide, with the flag set, whether or not it was before. -/
theorem test_field_value (position : Nat) (inside : position < 32)
    (differs : Traced Access Bool) (wildcards : BitVec 32)
    (next : BitVec 32 → Traced Access Bool) :
    (testField (flag 32 position) differs wildcards next).value = true ↔
      (Clear wildcards position → differs.value = false) ∧
        (next (wildcards ||| flag 32 position)).value = true := by
  by_cases isOpen : Clear wildcards position
  · have tested := (complement_and_flag wildcards position inside).mpr isOpen
    simp only [testField, tested, isOpen, ↓reduceIte, Traced.value_bind, forall_const, ne_eq,
      not_false_eq_true]
    cases differs.value <;> simp
  · have passed := mt (complement_and_flag wildcards position inside).mp isOpen
    simp only [testField, passed, isOpen, ↓reduceIte, false_implies, true_and,
      or_flag_of_set wildcards position isOpen]

/-- A field test reads what its comparison reads, for an open field only, and passes on to the
later tests unless the comparison failed. So the reads of the matcher stay inside a set when each
comparison that is reached does. -/
theorem within_test_field (allowed : Access → Prop) (position : Nat) (inside : position < 32)
    (differs : Traced Access Bool) (wildcards : BitVec 32)
    (next : BitVec 32 → Traced Access Bool) :
    Traced.Within allowed (testField (flag 32 position) differs wildcards next) ↔
      (Clear wildcards position → Traced.Within allowed differs) ∧
        ((Clear wildcards position → differs.value = false) →
          Traced.Within allowed (next (wildcards ||| flag 32 position))) := by
  by_cases isOpen : Clear wildcards position
  · have tested := (complement_and_flag wildcards position inside).mpr isOpen
    simp only [testField, tested, isOpen, ↓reduceIte, Traced.within_bind, forall_const, ne_eq,
      not_false_eq_true]
    cases differs.value <;> simp
  · have passed := mt (complement_and_flag wildcards position inside).mp isOpen
    simp only [testField, passed, isOpen, ↓reduceIte, false_implies, true_and, forall_const,
      or_flag_of_set wildcards position isOpen]

/-- The VM_ID comparison succeeds on equal low seven bits of the stored VM_ID and of the byte
behind the pointer, shifted by two. -/
theorem vm_id_agrees (nwTos : Byte) (vseMatch : VseMatch) :
    (vmIdDiffers nwTos vseMatch).value = false ↔
      (vseMatch.vmId ^^^ (nwTos >>> 2)) &&& 0x7f = 0 := by
  simp [vmIdDiffers]

theorem mac_agrees (mac : Mac) (skb : SkBuff) (offset : Nat) :
    (macDiffers mac skb offset).value = false ↔
      mac = fun index => skb.memory (offset + index.val) := by
  simp [macDiffers, loadBytes]

/-- An address is compared inside the linear data exactly when it ends there: the comparison reads
all six bytes, whatever they are. -/
theorem within_mac_differs (mac : Mac) (skb : SkBuff) (offset : Nat) :
    Traced.Within (InLinear skb) (macDiffers mac skb offset) ↔ offset + 6 ≤ skb.tail := by
  rw [macDiffers, Traced.within_bind, within_loadBytes 6 skb offset (by decide)]
  simp only [Traced.within_pure, and_true]

/-- The VNI load ends 36 bytes from `skb->data`, so a packet has to reach as far for any match to
be tested inside it. -/
theorem within_vxlan_vni (skb : SkBuff) :
    Traced.Within (InLinear skb) (vseGetVxlanVni skb) ↔ skb.data + 36 ≤ skb.tail := by
  rw [vseGetVxlanVni, Traced.within_bind, within_loadWord]
  simp only [Traced.within_pure, and_true, Nat.add_assoc, Nat.reduceAdd]

theorem marked_wildcards (wildcards : BitVec 32) :
    wildcards ||| flag 32 21 ||| flag 32 3 ||| flag 32 8 ||| flag 32 10 =
      wildcards ||| testedFlags := by
  simp only [testedFlags, ofpfwVmId, ofpfwDlDst, ofpfwVxlanVni, ofpfwDlIndst, BitVec.or_assoc]

/-- The matcher returns true exactly for the packets its match accepts.

Proof: each of the four tests contributes one condition, and setting a flag does not disturb the
later tests, which look at other flags. What is left after them is whether the wildcards, with the
tested flags added, are all set. -/
theorem do_match_iff (nwTos : Byte) (skb : SkBuff) (vseMatch : VseMatch) :
    (vseDoMatch nwTos skb vseMatch).value.1 = true ↔ Accepts nwTos skb vseMatch := by
  have tests : (vseDoMatch nwTos skb vseMatch).value.1 = true ↔
      (Clear vseMatch.wildcards 21 → (vmIdDiffers nwTos vseMatch).value = false) ∧
      (Clear vseMatch.wildcards 3 → (macDiffers vseMatch.dlDst skb (ethHdr skb)).value = false) ∧
      (Clear vseMatch.wildcards 8 → vseMatch.vxVni = packetVni skb) ∧
      (Clear vseMatch.wildcards 10 →
        (macDiffers vseMatch.dlIndst skb (vseGetInnerEthhdr skb)).value = false) ∧
      vseMatch.wildcards ||| testedFlags = ofpfwAll := by
    simp only [vseDoMatch, ofpfwVmId, ofpfwDlDst, ofpfwVxlanVni, ofpfwDlIndst, Traced.value_bind,
      Traced.value_pure, test_field_value, clear_or_flag, Nat.reduceLT, ← marked_wildcards,
      ne_eq, Nat.reduceEqDiff, not_false_eq_true, and_true, decide_eq_false_iff_not, not_not,
      decide_eq_true_eq]
    exact Iff.rfl
  have vmId := restricts_iff_clear 21 (by decide) vseMatch
  have dlDst := restricts_iff_clear 3 (by decide) vseMatch
  have vxVni := restricts_iff_clear 8 (by decide) vseMatch
  have dlIndst := restricts_iff_clear 10 (by decide) vseMatch
  rw [tests]
  simp only [vm_id_agrees, mac_agrees, ← vmId, ← dlDst, ← vxVni, ← dlIndst]
  constructor
  · rintro ⟨vm, outer, vni, inner, covered⟩
    exact ⟨vm, outer, vni, inner, covered⟩
  · rintro ⟨vm, outer, vni, inner, covered⟩
    exact ⟨vm, outer, vni, inner, covered⟩

/-- The projection copies the wildcards and the open fields, each on its own: no field depends on
another one. -/
theorem set_entry_match_eq (vse data : VseMatch) :
    vseSetEntryMatch vse data =
      { vse with
        wildcards := data.wildcards
        vmId := if Restricts ofpfwVmId data then data.vmId else vse.vmId
        dlDst := if Restricts ofpfwDlDst data then data.dlDst else vse.dlDst
        vxVni := if Restricts ofpfwVxlanVni data then data.vxVni else vse.vxVni
        dlIndst := if Restricts ofpfwDlIndst data then data.dlIndst else vse.dlIndst } := by
  by_cases vmId : Restricts ofpfwVmId data <;> by_cases dlDst : Restricts ofpfwDlDst data <;>
    by_cases vxVni : Restricts ofpfwVxlanVni data <;>
    by_cases dlIndst : Restricts ofpfwDlIndst data <;>
    · simp only [Restricts, ne_eq, not_not] at vmId dlDst vxVni dlIndst
      simp only [vseSetEntryMatch, Restricts, vmId, dlDst, vxVni, dlIndst, ne_eq,
        not_true_eq_false, not_false_eq_true, ↓reduceIte]

/-- The projection leaves the same fields open, since it copies the wildcards as they are. -/
theorem restricts_projected (bit : BitVec 32) (vse data : VseMatch) :
    Restricts bit (vseSetEntryMatch vse data) ↔ Restricts bit data := by
  rw [set_entry_match_eq]
  exact Iff.rfl

/-- A stored match accepts what the match it was projected from accepts: neither looks at a field
that its wildcards cover, and the others are copied. -/
theorem accepts_projected (nwTos : Byte) (skb : SkBuff) (vse data : VseMatch) :
    Accepts nwTos skb (vseSetEntryMatch vse data) ↔ Accepts nwTos skb data := by
  have same (bit : BitVec 32) := restricts_projected bit vse data
  constructor
  · rintro ⟨vmId, dlDst, vxVni, dlIndst, covered⟩
    simp only [same] at vmId dlDst vxVni dlIndst
    rw [set_entry_match_eq] at vmId dlDst vxVni dlIndst covered
    exact ⟨fun isOpen => by simpa only [isOpen, ↓reduceIte] using vmId isOpen,
      fun isOpen => by simpa only [isOpen, ↓reduceIte] using dlDst isOpen,
      fun isOpen => by simpa only [isOpen, ↓reduceIte] using vxVni isOpen,
      fun isOpen => by simpa only [isOpen, ↓reduceIte] using dlIndst isOpen, covered⟩
  · rintro ⟨vmId, dlDst, vxVni, dlIndst, covered⟩
    refine ⟨?_, ?_, ?_, ?_, ?_⟩
    · rw [same, set_entry_match_eq]
      exact fun isOpen => by simpa only [isOpen, ↓reduceIte] using vmId isOpen
    · rw [same, set_entry_match_eq]
      exact fun isOpen => by simpa only [isOpen, ↓reduceIte] using dlDst isOpen
    · rw [same, set_entry_match_eq]
      exact fun isOpen => by simpa only [isOpen, ↓reduceIte] using vxVni isOpen
    · rw [same, set_entry_match_eq]
      exact fun isOpen => by simpa only [isOpen, ↓reduceIte] using dlIndst isOpen
    · rw [set_entry_match_eq]
      exact covered

/-- The match that restricts the VNI and nothing else, as the commands for a VNI rule leave it. -/
def vniRule (vni : BitVec 32) : VseMatch :=
  { zeroMatch with wildcards := ofpfwAll &&& ~~~ofpfwVxlanVni, vxVni := vni }

theorem vni_rule_restricts (vni : BitVec 32) : Restricts ofpfwVxlanVni (vniRule vni) := by
  change ~~~(ofpfwAll &&& ~~~ofpfwVxlanVni) &&& ofpfwVxlanVni ≠ 0
  decide

/-- A match for a VNI alone accepts exactly the packets whose decoded VNI is its own. No other
byte of the packet has a part in it. -/
theorem vni_rule_matches_iff (nwTos : Byte) (skb : SkBuff) (vni : BitVec 32) :
    (vseDoMatch nwTos skb (vniRule vni)).value.1 = true ↔ vni = packetVni skb := by
  have vmId : ¬ Restricts ofpfwVmId (vniRule vni) := by
    change ¬ (~~~(ofpfwAll &&& ~~~ofpfwVxlanVni) &&& ofpfwVmId ≠ 0)
    decide
  have dlDst : ¬ Restricts ofpfwDlDst (vniRule vni) := by
    change ¬ (~~~(ofpfwAll &&& ~~~ofpfwVxlanVni) &&& ofpfwDlDst ≠ 0)
    decide
  have vxVni := vni_rule_restricts vni
  have dlIndst : ¬ Restricts ofpfwDlIndst (vniRule vni) := by
    change ¬ (~~~(ofpfwAll &&& ~~~ofpfwVxlanVni) &&& ofpfwDlIndst ≠ 0)
    decide
  have covered : (vniRule vni).wildcards ||| testedFlags = ofpfwAll := by
    change (ofpfwAll &&& ~~~ofpfwVxlanVni) ||| testedFlags = ofpfwAll
    decide
  rw [do_match_iff]
  constructor
  · intro accepts
    exact accepts.vxVni vxVni
  · intro same
    exact ⟨fun isOpen => absurd isOpen vmId, fun isOpen => absurd isOpen dlDst, fun _ => same,
      fun isOpen => absurd isOpen dlIndst, covered⟩

/-- Does the entry accept the packet, if the matcher reads this byte through `nw`? This is the
code's own test of one entry. -/
def accepted (nwTos : Byte) (skb : SkBuff) (entry : VseFlowEntry) : Bool :=
  (vseDoMatch nwTos skb entry.vseMatch).value.1

/-- The code's test of an entry is the abstract acceptance of its match, so that tables may be
reasoned about by what their matches ask for. -/
theorem accepted_iff (nwTos : Byte) (skb : SkBuff) (entry : VseFlowEntry) :
    accepted nwTos skb entry = true ↔ Accepts nwTos skb entry.vseMatch :=
  do_match_iff nwTos skb entry.vseMatch

/-- A match that leaves VM_ID alone accepts the same packets whatever is read through `nw`. -/
theorem accepted_without_vm_id (entry : VseFlowEntry)
    (noVmId : ¬ Restricts ofpfwVmId entry.vseMatch) (nwTos other : Byte) (skb : SkBuff) :
    accepted nwTos skb entry = accepted other skb entry := by
  have exchange (one another : Byte) (accepts : Accepts one skb entry.vseMatch) :
      Accepts another skb entry.vseMatch :=
    ⟨fun isOpen => absurd isOpen noVmId, accepts.dlDst, accepts.vxVni, accepts.dlIndst,
      accepts.covered⟩
  rw [Bool.eq_iff_iff, accepted_iff, accepted_iff]
  exact ⟨exchange nwTos other, exchange other nwTos⟩

section LookUps

/-- One call of the matcher during a look-up: the byte that it reads through its own `nw`,
if it reads one, and the entry that it tests. -/
structure MatchCall where
  nwTos : Byte
  entry : VseFlowEntry

/-- Does the matcher return true? -/
def MatchCall.accepts (skb : SkBuff) (call : MatchCall) : Bool :=
  accepted call.nwTos skb call.entry

/-- The calls of a look-up that passes all entries, in their order. Each reads the byte that is
given for the number of its entry. -/
def matchCalls (nwTos : Nat → Byte) : List VseFlowEntry → List MatchCall
  | [] => []
  | entry :: rest => ⟨nwTos rest.length, entry⟩ :: matchCalls nwTos rest

theorem match_calls_entries (nwTos : Nat → Byte) (table : List VseFlowEntry) :
    (matchCalls nwTos table).map MatchCall.entry = table := by
  induction table with
  | nil => rfl
  | cons entry rest inductionHypothesis =>
    rw [matchCalls, List.map_cons, inductionHypothesis]

theorem entry_mem_of_call {nwTos : Nat → Byte} {table : List VseFlowEntry} {call : MatchCall}
    (member : call ∈ matchCalls nwTos table) : call.entry ∈ table := by
  have listed := List.mem_map_of_mem (f := MatchCall.entry) member
  rwa [match_calls_entries] at listed

/-- The calls for the entries behind others are those of a look-up in these entries alone; for the
entries in front the numbers count on from there. -/
theorem match_calls_append (nwTos : Nat → Byte) (front back : List VseFlowEntry) :
    matchCalls nwTos (front ++ back) =
      matchCalls (fun number => nwTos (number + back.length)) front ++ matchCalls nwTos back := by
  induction front with
  | nil => rfl
  | cons entry rest inductionHypothesis =>
    rw [List.cons_append, matchCalls, matchCalls, inductionHypothesis, List.length_append,
      List.cons_append]

theorem match_calls_congr (nwTos other : Nat → Byte) (table : List VseFlowEntry)
    (same : ∀ number < table.length, nwTos number = other number) :
    matchCalls nwTos table = matchCalls other table := by
  induction table with
  | nil => rfl
  | cons entry rest inductionHypothesis =>
    rw [matchCalls, matchCalls, same rest.length (Nat.lt_succ_self _),
      inductionHypothesis fun number below => same number (Nat.lt_succ_of_lt below)]

/-- The bytes that calls read, by the number of the entry tested, so that the calls may be made
again by a look-up. -/
def bytesOf (calls : List MatchCall) (number : Nat) : Byte :=
  (calls.reverse[number]?.map MatchCall.nwTos).getD 0

/-- Any calls are those of a look-up in their entries, with the bytes that they read. So a law
about all calls is one about all look-ups. -/
theorem match_calls_of (calls : List MatchCall) :
    matchCalls (bytesOf calls) (calls.map MatchCall.entry) = calls := by
  induction calls with
  | nil => rfl
  | cons call rest inductionHypothesis =>
    have newest : bytesOf (call :: rest) rest.length = call.nwTos := by
      rw [bytesOf, List.reverse_cons, List.getElem?_append_right (by rw [List.length_reverse]),
        List.length_reverse, Nat.sub_self]
      rfl
    have older : matchCalls (bytesOf (call :: rest)) (rest.map MatchCall.entry) =
        matchCalls (bytesOf rest) (rest.map MatchCall.entry) := by
      apply match_calls_congr
      intro number below
      rw [List.length_map] at below
      rw [bytesOf, bytesOf, List.reverse_cons,
        List.getElem?_append_left (by rwa [List.length_reverse])]
    rw [List.map_cons, matchCalls, List.length_map, newest, older, inductionHypothesis]

/-- A look-up tests its first entry, and where that refuses goes on with the packet that the test
left. -/
theorem look_up_cons (nwTos : Nat → Byte) (skb : SkBuff) (entry : VseFlowEntry)
    (rest : List VseFlowEntry) :
    (vseLookUpFlowEntry nwTos skb (entry :: rest)).value =
      if accepted (nwTos rest.length) skb entry then (some entry, skbResetNetworkHeader skb)
      else (vseLookUpFlowEntry nwTos (skbResetNetworkHeader skb) rest).value := by
  have tested : (vseDoMatch (nwTos rest.length) skb entry.vseMatch).value =
      (accepted (nwTos rest.length) skb entry, skbResetNetworkHeader skb) := rfl
  rw [vseLookUpFlowEntry, Traced.value_bind, tested]
  cases accepted (nwTos rest.length) skb entry <;> rfl

/-- A look-up finds the entry of its first call that returns true.

Proof: the head decides where its call returns true, and otherwise the scan goes on with a
packet of which only the network header was reset, which no call looks at. -/
theorem look_up_found (nwTos : Nat → Byte) (skb : SkBuff) (table : List VseFlowEntry) :
    (vseLookUpFlowEntry nwTos skb table).value.1 =
      ((matchCalls nwTos table).find? (MatchCall.accepts skb)).map MatchCall.entry := by
  induction table generalizing skb with
  | nil => rfl
  | cons entry rest inductionHypothesis =>
    have later := inductionHypothesis (skbResetNetworkHeader skb)
    have same : MatchCall.accepts (skbResetNetworkHeader skb) = MatchCall.accepts skb := rfl
    rw [look_up_cons, matchCalls, find_cons, MatchCall.accepts]
    cases accepted (nwTos rest.length) skb entry with
    | true => rfl
    | false => exact later.trans (by rw [same]; rfl)

/-- A look-up resets the network header, unless there was no entry to test. -/
theorem look_up_skb (nwTos : Nat → Byte) (skb : SkBuff) (table : List VseFlowEntry) :
    (vseLookUpFlowEntry nwTos skb table).value.2 =
      if table = [] then skb else skbResetNetworkHeader skb := by
  induction table generalizing skb with
  | nil => rfl
  | cons entry rest inductionHypothesis =>
    rw [look_up_cons, if_neg (List.cons_ne_nil entry rest)]
    cases accepted (nwTos rest.length) skb entry with
    | true => rfl
    | false =>
      have later := inductionHypothesis (skbResetNetworkHeader skb)
      rw [reset_network_header_twice, ite_self] at later
      exact later

/-- What a look-up finds is in the table, whatever the calls of the matcher read. -/
theorem look_up_mem {nwTos : Nat → Byte} {skb : SkBuff} {table : List VseFlowEntry}
    {entry : VseFlowEntry} (found : (vseLookUpFlowEntry nwTos skb table).value.1 = some entry) :
    entry ∈ table := by
  rw [look_up_found] at found
  obtain ⟨call, listed, rfl⟩ := Option.map_eq_some_iff.mp found
  exact entry_mem_of_call (List.mem_of_find?_eq_some listed)

/-- Only the bytes for numbers of entries have a part in a look-up; what the others would be does
not matter. -/
theorem look_up_congr (nwTos other : Nat → Byte) (skb : SkBuff) (table : List VseFlowEntry)
    (same : ∀ number < table.length, nwTos number = other number) :
    vseLookUpFlowEntry nwTos skb table = vseLookUpFlowEntry other skb table := by
  induction table generalizing skb with
  | nil => rfl
  | cons entry rest inductionHypothesis =>
    have later (skb : SkBuff) := inductionHypothesis skb fun number below =>
      same number (Nat.lt_succ_of_lt below)
    simp only [vseLookUpFlowEntry, same rest.length (Nat.lt_succ_self _), later]

/-- Where no entry restricts VM_ID, a look-up finds the first entry that accepts the packet, with
any byte. So the whole table may be read as rules for packets. -/
theorem look_up_without_vm_id (nwTos : Nat → Byte) (skb : SkBuff) (table : List VseFlowEntry)
    (noVmId : ∀ entry ∈ table, ¬ Restricts ofpfwVmId entry.vseMatch) :
    (vseLookUpFlowEntry nwTos skb table).value.1 = table.find? (accepted 0 skb) := by
  rw [look_up_found]
  induction table with
  | nil => rfl
  | cons entry rest inductionHypothesis =>
    obtain ⟨first, others⟩ := List.forall_mem_cons.mp noVmId
    rw [matchCalls, find_cons, find_cons, MatchCall.accepts,
      accepted_without_vm_id entry first (nwTos rest.length) 0]
    cases accepted 0 skb entry with
    | true => rfl
    | false => exact inductionHypothesis others

end LookUps

end Vse.Matching

import Vse.MatcherLaws
import Vse.ModuleRuns
import Vse.Patterns

/-!
# Rules that get in each other's way

The table takes any entries in any order, and the newest that matches decides. Whether an entry
hides another one, and whether the order of two entries can be seen at all, follows from the
entries alone: as far as the packet decides, a match is a pattern over three fields, and every
packet whose VNI the decoder can return occurs.

VM_ID is no such field. The byte it is compared with is read through a pointer that is never
assigned, so it may be another one in each call of the matcher, also in the calls for two entries
with the same match. What is said here holds whatever bytes the calls read.
-/

namespace Vse.RulePolicies

open SocketBuffer FlowTable Matching VniDecoding Conditions LiveRules MatcherLaws PacketSteering
  ModuleRuns OrderedRules Patterns

section Patterns

/-- The fields that the packet decides. VM_ID is apart from them, since the code reads it from
elsewhere. -/
inductive Field where
  | dlDst
  | vxVni
  | dlIndst
deriving DecidableEq

abbrev Value : Field → Type
  | .dlDst | .dlIndst => Mac
  | .vxVni => BitVec 32

/-- The fields of a packet, as the matcher reads them. -/
def fieldsOf (skb : SkBuff) : ∀ field, Value field
  | .dlDst => outerDst skb
  | .vxVni => packetVni skb
  | .dlIndst => innerDst skb

/-- What a match asks for in the fields that the packet decides. VM_ID is left out, and is spoken
of by `VmIdPasses`. -/
def pattern (vseMatch : VseMatch) : Pattern Value
  | .dlDst => if Restricts ofpfwDlDst vseMatch then some vseMatch.dlDst else none
  | .vxVni => if Restricts ofpfwVxlanVni vseMatch then some vseMatch.vxVni else none
  | .dlIndst => if Restricts ofpfwDlIndst vseMatch then some vseMatch.dlIndst else none

/-- What can be read from a packet: any address, and the VNIs that the decoder returns. -/
def readable : ∀ field, Set (Value field)
  | .dlDst | .dlIndst => Set.univ
  | .vxVni => {vni | Decodable vni}

/-- VM_ID is open, or agrees with the byte read. -/
def VmIdPasses (nwTos : Byte) (vseMatch : VseMatch) : Prop :=
  Restricts ofpfwVmId vseMatch → (vseMatch.vmId ^^^ (nwTos >>> 2)) &&& 0x7f = 0

/-- No flag but those of the tested fields is open: the matcher accepts only where what it has
tested adds up to `OFPFW_ALL`. -/
def Comparable (vseMatch : VseMatch) : Prop := vseMatch.wildcards ||| testedFlags = ofpfwAll

instance (vseMatch : VseMatch) : Decidable (Comparable vseMatch) :=
  inferInstanceAs (Decidable (_ = _))

theorem asked_iff {α : Type} (isOpen : Prop) [Decidable isOpen] (stored value : α) :
    (if isOpen then some stored else none) = some value ↔ isOpen ∧ stored = value := by
  by_cases holds : isOpen
  · rw [if_pos holds, Option.some.injEq, and_iff_right holds]
  · rw [if_neg holds]
    exact iff_of_false nofun fun both => holds both.1

/-- A match accepts the packets whose fields meet its pattern, as far as VM_ID and the flags of
untested fields let it. -/
theorem accepts_iff_meets (nwTos : Byte) (skb : SkBuff) (vseMatch : VseMatch) :
    Accepts nwTos skb vseMatch ↔
      Comparable vseMatch ∧ VmIdPasses nwTos vseMatch ∧
        Meets (fieldsOf skb) (pattern vseMatch) := by
  constructor
  · intro accepts
    refine ⟨accepts.covered, accepts.vmId, ?_⟩
    intro field value asked
    cases field with
    | dlDst =>
      obtain ⟨isOpen, rfl⟩ := (asked_iff _ _ _).mp asked
      exact (accepts.dlDst isOpen).symm
    | vxVni =>
      obtain ⟨isOpen, rfl⟩ := (asked_iff _ _ _).mp asked
      exact (accepts.vxVni isOpen).symm
    | dlIndst =>
      obtain ⟨isOpen, rfl⟩ := (asked_iff _ _ _).mp asked
      exact (accepts.dlIndst isOpen).symm
  · rintro ⟨comparable, vmId, meets⟩
    constructor
    · exact vmId
    · intro isOpen
      exact (meets .dlDst vseMatch.dlDst (if_pos isOpen)).symm
    · intro isOpen
      exact (meets .vxVni vseMatch.vxVni (if_pos isOpen)).symm
    · intro isOpen
      exact (meets .dlIndst vseMatch.dlIndst (if_pos isOpen)).symm
    · exact comparable

theorem fields_within (skb : SkBuff) : Within readable (fieldsOf skb) := by
  intro field
  cases field with
  | dlDst => exact Set.mem_univ _
  | vxVni => exact packet_vni_decodable skb
  | dlIndst => exact Set.mem_univ _

/-- What can be read is in the fields of some packet, which comes with its MAC header set. So
statements about packets and about contents of fields say the same. -/
theorem packet_with_fields (point : ∀ field, Value field) (within : Within readable point) :
    ∃ skb, fieldsOf skb = point ∧ withMacHeader skb = skb := by
  obtain ⟨outer, inner, vni⟩ :=
    vxlan_frame_fields (point .dlDst) (point .dlIndst) (point .vxVni) (within .vxVni)
  refine ⟨vxlanFrame (point .dlDst) (point .dlIndst) (point .vxVni), ?_, rfl⟩
  funext field
  cases field with
  | dlDst => exact outer
  | vxVni => exact vni
  | dlIndst => exact inner

/-- In each field two different values can be read. -/
theorem readable_varied (field : Field) : (readable field).Nontrivial := by
  have addresses : (Set.univ : Set Mac).Nontrivial := by
    refine ⟨fun _ => 0, Set.mem_univ _, fun _ => 1, Set.mem_univ _, ?_⟩
    intro same
    exact absurd (congrFun same 0) (by decide)
  cases field with
  | dlDst => exact addresses
  | vxVni =>
    have none : Decodable 0 := by decide
    have sixteen : Decodable 16 := by decide
    exact ⟨0, none, 16, sixteen, by decide⟩
  | dlIndst => exact addresses

/-- A match is live exactly when its pattern can be met, and VM_ID and the flags let it. -/
theorem live_iff_satisfiable (vseMatch : VseMatch) :
    Live vseMatch ↔ Comparable vseMatch ∧ (∃ nwTos, VmIdPasses nwTos vseMatch) ∧
      Satisfiable readable (pattern vseMatch) := by
  have vmId : (∃ nwTos, VmIdPasses nwTos vseMatch) ↔
      (Restricts ofpfwVmId vseMatch → vseMatch.vmId.getLsbD 6 = false) := by
    by_cases isOpen : Restricts ofpfwVmId vseMatch
    · simp only [VmIdPasses, isOpen, forall_const]
      exact vm_id_agrees_iff vseMatch.vmId
    · simp only [VmIdPasses, isOpen, false_implies, exists_const]
  have occurs (field : Field) : (readable field).Nonempty := (readable_varied field).nonempty
  have vni : Satisfiable readable (pattern vseMatch) ↔
      (Restricts ofpfwVxlanVni vseMatch → Decodable vseMatch.vxVni) := by
    rw [satisfiable_iff readable occurs]
    constructor
    · intro occur isOpen
      exact occur .vxVni vseMatch.vxVni (if_pos isOpen)
    · intro decodable field value asked
      cases field with
      | dlDst => exact Set.mem_univ _
      | vxVni =>
        obtain ⟨isOpen, rfl⟩ := (asked_iff _ _ _).mp asked
        exact decodable isOpen
      | dlIndst => exact Set.mem_univ _
  rw [live_iff, vmId, vni]
  exact Iff.rfl

/-- Whoever accepts a packet is live. -/
theorem live_of_accepts {nwTos : Byte} {skb : SkBuff} {vseMatch : VseMatch}
    (accepts : Accepts nwTos skb vseMatch) : Live vseMatch := by
  obtain ⟨comparable, vmId, meets⟩ := (accepts_iff_meets nwTos skb vseMatch).mp accepts
  exact (live_iff_satisfiable vseMatch).mpr
    ⟨comparable, ⟨nwTos, vmId⟩, fieldsOf skb, fields_within skb, meets⟩

end Patterns

section Pairs

/-- Whatever bytes are read, the first match accepts each packet that the second accepts. The two
calls of the matcher read bytes of their own. -/
def Shadows (newer older : VseMatch) : Prop :=
  ∀ nwTos other skb, (vseDoMatch other skb older).value.1 = true →
    (vseDoMatch nwTos skb newer).value.1 = true

/-- Some packet is accepted by both matches, for some bytes that the two calls read. -/
def Overlap (one other : VseMatch) : Prop :=
  ∃ nwTos another skb, (vseDoMatch nwTos skb one).value.1 = true ∧
    (vseDoMatch another skb other).value.1 = true

/-- A match shadows a live one exactly when it leaves VM_ID alone and asks for nothing that the
other does not ask for. A match that no packet satisfies is shadowed by any.

Proof: a live match accepts some packet. If the first asked for something that the second does
not, this packet with another content in that field would be accepted by the second alone; if it
asked for VM_ID, a byte could be read that it refuses. The other way, a packet that meets the
second meets the first. -/
theorem shadows_iff (newer older : VseMatch) :
    Shadows newer older ↔
      (Live older → Comparable newer ∧ ¬ Restricts ofpfwVmId newer ∧
        ∀ field value, pattern newer field = some value → pattern older field = some value) := by
  simp only [Shadows, do_match_iff]
  constructor
  · intro shadows live
    obtain ⟨comparable, ⟨other, passes⟩, satisfiable⟩ := (live_iff_satisfiable older).mp live
    -- A point that meets the older pattern is met by a packet, and so meets the newer.
    have meets (nwTos : Byte) (point : ∀ field, Value field) (within : Within readable point)
        (meetsOlder : Meets point (pattern older)) :
        Comparable newer ∧ VmIdPasses nwTos newer ∧ Meets point (pattern newer) := by
      obtain ⟨skb, rfl, _⟩ := packet_with_fields point within
      have accepts := (accepts_iff_meets other skb older).mpr ⟨comparable, passes, meetsOlder⟩
      exact (accepts_iff_meets nwTos skb newer).mp (shadows nwTos other skb accepts)
    obtain ⟨point, within, meetsOlder⟩ := satisfiable
    refine ⟨(meets 0 point within meetsOlder).1, ?_, ?_⟩
    · intro restricted
      have agrees := (meets 0 point within meetsOlder).2.1 restricted
      exact other_tos_differs newer.vmId 0 agrees
        ((meets (0 ^^^ 4) point within meetsOlder).2.1 restricted)
    · have covers : Covers readable (pattern newer) (pattern older) :=
        fun point within meetsOlder => (meets 0 point within meetsOlder).2.2
      exact (covers_iff readable readable_varied _ _).mp covers ⟨point, within, meetsOlder⟩
  · intro asksAll nwTos other skb accepts
    obtain ⟨comparable, noVmId, asked⟩ := asksAll (live_of_accepts accepts)
    obtain ⟨_, _, meetsOlder⟩ := (accepts_iff_meets other skb older).mp accepts
    refine (accepts_iff_meets nwTos skb newer).mpr ⟨comparable, fun restricted => ?_, ?_⟩
    · exact absurd restricted noVmId
    · intro field value asks
      exact meetsOlder field value (asked field value asks)

/-- Live matches that ask for the same wherever both ask accept a packet together: its fields have
what either asks for. -/
theorem shared_packet (one other : VseMatch) (liveOne : Live one) (liveOther : Live other)
    (agree : ∀ field value sought, pattern one field = some value →
      pattern other field = some sought → value = sought) :
    ∃ nwTos another skb, withMacHeader skb = skb ∧ Accepts nwTos skb one ∧
      Accepts another skb other := by
  obtain ⟨comparableOne, ⟨nwTos, passesOne⟩, satisfiableOne⟩ :=
    (live_iff_satisfiable one).mp liveOne
  obtain ⟨comparableOther, ⟨another, passesOther⟩, satisfiableOther⟩ :=
    (live_iff_satisfiable other).mp liveOther
  obtain ⟨point, within, meetsOne, meetsOther⟩ :=
    (overlaps_iff readable _ _).mpr ⟨satisfiableOne, satisfiableOther, agree⟩
  obtain ⟨skb, rfl, prepared⟩ := packet_with_fields point within
  exact ⟨nwTos, another, skb, prepared,
    (accepts_iff_meets nwTos skb one).mpr ⟨comparableOne, passesOne, meetsOne⟩,
    (accepts_iff_meets another skb other).mpr ⟨comparableOther, passesOther, meetsOther⟩⟩

/-- Matches that accept a packet together are live, and ask for the same wherever both ask. -/
theorem alike_of_accepts {nwTos another : Byte} {skb : SkBuff} {one other : VseMatch}
    (acceptsOne : Accepts nwTos skb one) (acceptsOther : Accepts another skb other) :
    Live one ∧ Live other ∧
      ∀ field value sought, pattern one field = some value → pattern other field = some sought →
        value = sought := by
  obtain ⟨_, _, meetsOne⟩ := (accepts_iff_meets nwTos skb one).mp acceptsOne
  obtain ⟨_, _, meetsOther⟩ := (accepts_iff_meets another skb other).mp acceptsOther
  obtain ⟨_, _, agree⟩ := (overlaps_iff readable _ _).mp
    ⟨fieldsOf skb, fields_within skb, meetsOne, meetsOther⟩
  exact ⟨live_of_accepts acceptsOne, live_of_accepts acceptsOther, agree⟩

/-- Two matches overlap exactly when both are live and, in every field but VM_ID, ask for the same
wherever both ask. Their calls read bytes of their own, so two values of VM_ID do not keep them
apart.

Proof: where they agree, a packet with what either asks for in its fields is accepted by both,
each with a byte that suits its own VM_ID. A packet that both accept shows that they are live and
that they agree. -/
theorem overlap_iff (one other : VseMatch) :
    Overlap one other ↔ Live one ∧ Live other ∧
      ∀ field value sought, pattern one field = some value → pattern other field = some sought →
        value = sought := by
  simp only [Overlap, do_match_iff]
  constructor
  · rintro ⟨nwTos, another, skb, acceptsOne, acceptsOther⟩
    exact alike_of_accepts acceptsOne acceptsOther
  · rintro ⟨liveOne, liveOther, agree⟩
    obtain ⟨nwTos, another, skb, _, accepts⟩ := shared_packet one other liveOne liveOther agree
    exact ⟨nwTos, another, skb, accepts⟩

end Pairs

section Tables

/-- The look-up finds the entry of the first call that returns true, and leaves the packet as it
leaves it for any table with entries. -/
theorem look_up_value (nwTos : Nat → Byte) (skb : SkBuff) (table : List VseFlowEntry) :
    (vseLookUpFlowEntry nwTos skb table).value =
      (((matchCalls nwTos table).find? (MatchCall.accepts skb)).map MatchCall.entry,
        if table = [] then skb else skbResetNetworkHeader skb) :=
  Prod.ext (look_up_found nwTos skb table) (look_up_skb nwTos skb table)

/-- The look-up that makes these calls: in a table of their entries, with the bytes that they
read. -/
def lookUpWith (calls : List MatchCall) (skb : SkBuff) :
    Traced Access (Option VseFlowEntry × SkBuff) :=
  vseLookUpFlowEntry (bytesOf calls) skb (calls.map MatchCall.entry)

theorem look_up_with_value (calls : List MatchCall) (skb : SkBuff) :
    (lookUpWith calls skb).value = ((calls.find? (MatchCall.accepts skb)).map MatchCall.entry,
      if calls = [] then skb else skbResetNetworkHeader skb) := by
  rw [lookUpWith, look_up_value, match_calls_of]
  simp only [List.map_eq_nil_iff]

/-- An entry behind another one can be taken out of every table, and no look-up tells the
difference, exactly when the match in front shadows the other. All calls read bytes of their own,
and those that are left read what they read before. Two entries with the same match are no
exception: on VM_ID, the call for the older one may pass where the other did not.

Proof: if the match in front does not shadow the other, some bytes and a packet tell a table of
these two from a table of the first. If it does, whatever the older entry accepts is found
further in front. -/
theorem redundant_iff (newer older : VseFlowEntry) :
    (∀ front middle back nwTos other skb,
        (lookUpWith (front ++ ⟨nwTos, newer⟩ :: (middle ++ ⟨other, older⟩ :: back)) skb).value =
          (lookUpWith (front ++ ⟨nwTos, newer⟩ :: (middle ++ back)) skb).value) ↔
      Shadows newer.vseMatch older.vseMatch := by
  constructor
  · intro unseen nwTos other skb acceptsOlder
    by_contra refusesNewer
    have looked := unseen [] [] [] nwTos other skb
    have refused : MatchCall.accepts skb ⟨nwTos, newer⟩ = false :=
      Bool.eq_false_iff.mpr refusesNewer
    have accepts : MatchCall.accepts skb ⟨other, older⟩ = true := acceptsOlder
    rw [look_up_with_value, look_up_with_value] at looked
    have found := congrArg Prod.fst looked
    simp [refused, accepts] at found
  · intro shadows front middle back nwTos other skb
    have covers : MatchCall.accepts skb ⟨other, older⟩ = true →
        MatchCall.accepts skb ⟨nwTos, newer⟩ = true := shadows nwTos other skb
    rw [look_up_with_value, look_up_with_value, find_drop_covered (MatchCall.accepts skb) front
      middle back ⟨nwTos, newer⟩ ⟨other, older⟩ covers]
    simp

/-- The core that the calls decide on for a packet. -/
def decided (skb : SkBuff) (calls : List MatchCall) : Option Byte :=
  decision (MatchCall.accepts (withMacHeader skb)) (fun call => call.entry.irq) calls

def core (nwTos : Nat → Byte) (skb : SkBuff) (table : List VseFlowEntry) : Option Byte :=
  decided skb (matchCalls nwTos table)

theorem core_eq_found (nwTos : Nat → Byte) (skb : SkBuff) (table : List VseFlowEntry) :
    core nwTos skb table =
      (vseLookUpFlowEntry nwTos (withMacHeader skb) table).value.1.map VseFlowEntry.irq := by
  rw [look_up_found, Option.map_map]
  rfl

/-- The entries in front decide, where one of them accepts; the others are tested as if they were
alone. -/
theorem core_append (nwTos : Nat → Byte) (skb : SkBuff) (front back : List VseFlowEntry) :
    core nwTos skb (front ++ back) =
      (core (fun number => nwTos (number + back.length)) skb front).or (core nwTos skb back) := by
  rw [core, match_calls_append, decided, decision_append]
  rfl

/-- What becomes of a packet is settled by that core, and by whether the table has entries at all.
-/
theorem handle_data_value (nwTos : Nat → Byte) (skb : SkBuff) (rps : RpsTables)
    (table : List VseFlowEntry) :
    (vseHandleData nwTos skb rps table).value =
      let looked := if table = [] then withMacHeader skb
        else skbResetNetworkHeader (withMacHeader skb)
      match core nwTos skb table with
      | none => (looked, rps)
      | some irq => (vseSetRxhash looked irq, (vseSetSockFlowTable looked rps irq).2) := by
  simp only [vseHandleData, Traced.value_bind, look_up_value, core, decided, decision]
  cases (matchCalls nwTos table).find? (MatchCall.accepts (withMacHeader skb)) <;> rfl

theorem widened_inj {one other : Byte} (same : one.setWidth 32 = other.setWidth 32) :
    one = other := by
  have narrowed := congrArg (BitVec.setWidth 8) same
  rwa [BitVec.setWidth_setWidth_of_le _ (by decide), BitVec.setWidth_setWidth_of_le _ (by decide),
    BitVec.setWidth_eq, BitVec.setWidth_eq] at narrowed

/-- Handle a packet with these calls. -/
def handleWith (calls : List MatchCall) (skb : SkBuff) (rps : RpsTables) :
    Traced Access (SkBuff × RpsTables) :=
  vseHandleData (bytesOf calls) skb rps (calls.map MatchCall.entry)

/-- Two orders of the same calls handle a packet alike exactly when they decide on the same
core. -/
theorem handled_alike_iff (skb : SkBuff) (others calls : List MatchCall)
    (permuted : others.Perm calls) :
    (∀ rps, (handleWith others skb rps).value = (handleWith calls skb rps).value) ↔
      decided skb others = decided skb calls := by
  have empty : others = [] ↔ calls = [] := by
    rw [← List.length_eq_zero_iff, permuted.length_eq, List.length_eq_zero_iff]
  have unmatched : decided skb others = none ↔ decided skb calls = none := by
    simp only [decided, decision, Option.map_eq_none_iff, List.find?_eq_none, permuted.mem_iff]
  have handled (calls : List MatchCall) (rps : RpsTables) :=
    handle_data_value (bytesOf calls) skb rps (calls.map MatchCall.entry)
  simp only [core, match_calls_of] at handled
  constructor
  · intro alike
    have same := congrArg (fun handled => handled.1.rxhash) (alike ⟨oneQueueDevice, none⟩)
    rw [handleWith, handleWith, handled, handled] at same
    cases decides : decided skb others with
    | none => exact (unmatched.mp decides).symm
    | some one =>
      cases alsoDecides : decided skb calls with
      | none =>
        rw [unmatched.mpr alsoDecides] at decides
        cases decides
      | some other =>
        rw [decides, alsoDecides] at same
        exact congrArg some (widened_inj same)
  · intro same rps
    rw [handleWith, handleWith, handled, handled, same]
    simp only [List.map_eq_nil_iff, empty]

/-- Matches that overlap do so for a packet that comes with its MAC header set. -/
theorem overlap_prepared (one other : VseMatch) (overlap : Overlap one other) :
    ∃ nwTos another skb, withMacHeader skb = skb ∧ Accepts nwTos skb one ∧
      Accepts another skb other := by
  obtain ⟨nwTos, another, skb, acceptsOne, acceptsOther⟩ := overlap
  rw [do_match_iff] at acceptsOne acceptsOther
  obtain ⟨liveOne, liveOther, same⟩ := alike_of_accepts acceptsOne acceptsOther
  exact shared_packet one other liveOne liveOther same

/-- The calls of a look-up in these entries that reads one byte for the entry in the given place
and another for all others. -/
def callsReading (entries : List VseFlowEntry) (place : Nat) (here elsewhere : Byte) :
    List MatchCall :=
  entries.mapIdx fun i entry => ⟨if i = place then here else elsewhere, entry⟩

theorem calls_reading_entries (entries : List VseFlowEntry) (place : Nat)
    (here elsewhere : Byte) :
    (callsReading entries place here elsewhere).map MatchCall.entry = entries :=
  List.ext_getElem (by simp [callsReading]) fun _ _ _ => by simp [callsReading]

/-- Whatever bytes the calls read, those that accept a packet together agree on the core, exactly
when entries that overlap do. -/
theorem calls_agree_iff (entries : List VseFlowEntry) :
    (∀ calls : List MatchCall, calls.map MatchCall.entry = entries →
        calls.Pairwise fun one other => ∀ skb, MatchCall.accepts (withMacHeader skb) one = true →
          MatchCall.accepts (withMacHeader skb) other = true → one.entry.irq = other.entry.irq) ↔
      entries.Pairwise fun one other =>
        Overlap one.vseMatch other.vseMatch → one.irq = other.irq := by
  constructor
  · intro agree
    rw [List.pairwise_iff_getElem]
    intro i j iInside jInside apart overlap
    obtain ⟨nwTos, another, skb, prepared, acceptsOne, acceptsOther⟩ := overlap_prepared _ _ overlap
    -- The two calls read the bytes for which their matches overlap.
    have pairs := agree _ (calls_reading_entries entries i nwTos another)
    have pair := List.pairwise_iff_getElem.mp pairs i j (by simpa [callsReading])
      (by simpa [callsReading]) apart skb
    simp only [callsReading, List.getElem_mapIdx, MatchCall.accepts, accepted_iff, prepared,
      ↓reduceIte, apart.ne'] at pair
    exact pair acceptsOne acceptsOther
  · rintro agree calls rfl
    refine (List.pairwise_map.mp agree).imp fun same skb acceptsOne acceptsOther => ?_
    exact same ⟨_, _, _, acceptsOne, acceptsOther⟩

/-- The order in which entries were added can be seen in no packet exactly when entries that
overlap agree on the core. Each call reads a byte of its own, which it takes along when the
entries come in another order.

Proof: an order of the entries handles a packet as the first call that accepts it says, so orders
can be told apart only by two calls that accept the same packet and disagree. Such calls exist
exactly for entries that overlap, as the bytes that the two read are independent. -/
theorem order_unseen_iff (entries : List VseFlowEntry) :
    (∀ calls others : List MatchCall, calls.map MatchCall.entry = entries → others.Perm calls →
      ∀ skb rps, (handleWith others skb rps).value = (handleWith calls skb rps).value) ↔
      entries.Pairwise fun one other =>
        Overlap one.vseMatch other.vseMatch → one.irq = other.irq := by
  have irrelevant (calls : List MatchCall) := order_irrelevant_iff
    (fun skb => MatchCall.accepts (withMacHeader skb)) (fun call => call.entry.irq) calls
  rw [← calls_agree_iff]
  constructor
  · intro unseen calls listed
    refine (irrelevant calls).mp fun others permuted skb => ?_
    exact (handled_alike_iff skb others calls permuted).mp (unseen calls others listed permuted skb)
  · intro agree calls others listed permuted skb
    exact (handled_alike_iff skb others calls permuted).mpr
      ((irrelevant calls).mpr (agree calls listed) others permuted skb)

end Tables

end Vse.RulePolicies

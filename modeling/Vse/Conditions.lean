import Vse.VniDecoding

/-!
# Rules as conditions

What a client means by a rule: a list of conditions on the packet, at most one for
each field. `imposed` stages a condition the way the device does, by storing the value
and opening the field. A match that represents a list of conditions accepts exactly the
packets that meet them all, and a frame can be built that meets them, as long as the
VNI asked for is one that the decoder can return.
-/

namespace Vse.Conditions

open Words SocketBuffer FlowTable Matching StagedCommands VniDecoding

/-- A condition on one of the fields a client can restrict through the tool: the VNI, the inner or
the outer destination address. -/
inductive Condition where
  | vni (value : BitVec 32)
  | dlIndst (mac : Mac)
  | dlDst (mac : Mac)

/-- The packet meets the condition, in the field as the matcher reads it. For the VNI this is the
decoded one. -/
def Condition.Holds (skb : SkBuff) : Condition → Prop
  | .vni value => packetVni skb = value
  | .dlIndst mac => innerDst skb = mac
  | .dlDst mac => outerDst skb = mac

/-- The position of the field's flag among the wildcards. -/
def Condition.position : Condition → Nat
  | .vni _ => 8
  | .dlIndst _ => 10
  | .dlDst _ => 3

/-- Store a condition's value in its field and open the field. This is what the setters of the
control device do to the staged match. -/
def imposed (vseMatch : VseMatch) : Condition → VseMatch
  | .vni value => openField ofpfwVxlanVni { vseMatch with vxVni := value }
  | .dlIndst mac => openField ofpfwDlIndst { vseMatch with dlIndst := mac }
  | .dlDst mac => openField ofpfwDlDst { vseMatch with dlDst := mac }

/-- The match stores the condition's value. -/
def Condition.StoredIn (vseMatch : VseMatch) : Condition → Prop
  | .vni value => vseMatch.vxVni = value
  | .dlIndst mac => vseMatch.dlIndst = mac
  | .dlDst mac => vseMatch.dlDst = mac

/-- The match restricts exactly the fields of the conditions, to their values. Every untested
field is covered, so that packets can match. -/
structure Represents (conditions : List Condition) (vseMatch : VseMatch) : Prop where
  clear : ∀ position ∈ [3, 8, 10, 21], (Clear vseMatch.wildcards position ↔
    ∃ condition ∈ conditions, condition.position = position)
  stored : ∀ condition ∈ conditions, condition.StoredIn vseMatch
  covered : vseMatch.wildcards ||| testedFlags = ofpfwAll

theorem represents_nil (vseMatch : VseMatch) (covers : vseMatch.wildcards = ofpfwAll) :
    Represents [] vseMatch := by
  refine ⟨?_, ?_, ?_⟩
  · rw [covers]
    decide
  · intro condition member
    cases member
  · rw [covers]
    decide

/-- Imposing a condition opens its field and no other one. -/
theorem clear_imposed (vseMatch : VseMatch) (condition : Condition) (position : Nat) :
    Clear (imposed vseMatch condition).wildcards position ↔
      Clear vseMatch.wildcards position ∨ position = condition.position := by
  cases condition with
  | vni value => exact clear_and_not_flag vseMatch.wildcards 8 position (by decide)
  | dlIndst mac => exact clear_and_not_flag vseMatch.wildcards 10 position (by decide)
  | dlDst mac => exact clear_and_not_flag vseMatch.wildcards 3 position (by decide)

/-- It stores its value and keeps those of other fields, so conditions on different fields do not
disturb each other. -/
theorem stored_imposed (vseMatch : VseMatch) (condition : Condition) :
    condition.StoredIn (imposed vseMatch condition) ∧
      ∀ other : Condition, other.position ≠ condition.position → other.StoredIn vseMatch →
        other.StoredIn (imposed vseMatch condition) := by
  constructor
  · cases condition <;> rfl
  · intro other different stored
    cases condition <;> cases other <;> first | exact stored | exact absurd rfl different

/-- It leaves the flags of untested fields alone. -/
theorem covered_imposed (vseMatch : VseMatch) (condition : Condition) :
    (imposed vseMatch condition).wildcards ||| testedFlags =
      vseMatch.wildcards ||| testedFlags := by
  cases condition with
  | vni value => exact and_not_or_of_within _ ofpfwVxlanVni _ (by decide)
  | dlIndst mac => exact and_not_or_of_within _ ofpfwDlIndst _ (by decide)
  | dlDst mac => exact and_not_or_of_within _ ofpfwDlDst _ (by decide)

/-- Imposing a condition on a field still free adds it to those represented. On a field that is
taken it would replace the value. -/
theorem represents_imposed (conditions : List Condition) (vseMatch : VseMatch)
    (condition : Condition) (represents : Represents conditions vseMatch)
    (free : ∀ other ∈ conditions, other.position ≠ condition.position) :
    Represents (conditions ++ [condition]) (imposed vseMatch condition) := by
  obtain ⟨stored, kept⟩ := stored_imposed vseMatch condition
  refine ⟨?_, ?_, ?_⟩
  · intro position tested
    rw [clear_imposed, represents.clear position tested]
    simp only [List.mem_append, List.mem_singleton, or_and_right, exists_or, exists_eq_left,
      @eq_comm Nat position]
  · intro other member
    rcases List.mem_append.mp member with earlier | last
    · exact kept other (free other earlier) (represents.stored other earlier)
    · rw [List.mem_singleton.mp last]
      exact stored
  · rw [covered_imposed, represents.covered]

/-- Imposing conditions on different fields one after the other represents them all.

Proof: by induction on the conditions that are still to be imposed; each one meets a field that is
free. -/
theorem represents_all (imposedAlready rest : List Condition) (vseMatch : VseMatch)
    (represents : Represents imposedAlready vseMatch)
    (once : (imposedAlready ++ rest).Pairwise fun one other => one.position ≠ other.position) :
    Represents (imposedAlready ++ rest) (rest.foldl imposed vseMatch) := by
  induction rest generalizing imposedAlready vseMatch with
  | nil =>
    rw [List.append_nil]
    exact represents
  | cons condition rest inductionHypothesis =>
    have free : ∀ other ∈ imposedAlready, other.position ≠ condition.position := fun other member =>
      (List.pairwise_append.mp once).2.2 other member condition List.mem_cons_self
    have next := represents_imposed imposedAlready vseMatch condition represents free
    rw [List.append_cons] at once ⊢
    exact inductionHypothesis (imposedAlready ++ [condition]) _ next once

/-- A tested field is restricted exactly when some condition is on it. -/
theorem Represents.restricts_iff {conditions : List Condition} {vseMatch : VseMatch}
    (represents : Represents conditions vseMatch) (position : Nat)
    (tested : position ∈ [3, 8, 10, 21]) (inside : position < 32) :
    Restricts (flag 32 position) vseMatch ↔
      ∃ condition ∈ conditions, condition.position = position :=
  (restricts_iff_clear position inside vseMatch).trans (represents.clear position tested)

/-- A match accepts exactly the packets that meet the conditions it represents. This connects the
words of a command line with what the matcher does. -/
theorem accepts_iff_holds (conditions : List Condition) (vseMatch : VseMatch)
    (represents : Represents conditions vseMatch) (nwTos : Byte) (skb : SkBuff) :
    Accepts nwTos skb vseMatch ↔ ∀ condition ∈ conditions, condition.Holds skb := by
  have vni := represents.restricts_iff 8 (by decide) (by decide)
  have inner := represents.restricts_iff 10 (by decide) (by decide)
  have outer := represents.restricts_iff 3 (by decide) (by decide)
  constructor
  · intro accepts condition member
    have stored := represents.stored condition member
    cases condition with
    | vni value => exact (accepts.vxVni (vni.mpr ⟨_, member, rfl⟩)).symm.trans stored
    | dlIndst mac => exact (accepts.dlIndst (inner.mpr ⟨_, member, rfl⟩)).symm.trans stored
    | dlDst mac => exact (accepts.dlDst (outer.mpr ⟨_, member, rfl⟩)).symm.trans stored
  · intro holds
    refine ⟨?_, ?_, ?_, ?_, represents.covered⟩
    · intro restricted
      obtain ⟨condition, _, isVmId⟩ :=
        (represents.restricts_iff 21 (by decide) (by decide)).mp restricted
      cases condition <;> cases isVmId
    · intro restricted
      obtain ⟨condition, member, isOuter⟩ := outer.mp restricted
      cases condition with
      | vni value => cases isOuter
      | dlIndst mac => cases isOuter
      | dlDst mac => exact Eq.trans (represents.stored _ member) (holds _ member).symm
    · intro restricted
      obtain ⟨condition, member, isVni⟩ := vni.mp restricted
      cases condition with
      | vni value => exact Eq.trans (represents.stored _ member) (holds _ member).symm
      | dlIndst mac => cases isVni
      | dlDst mac => cases isVni
    · intro restricted
      obtain ⟨condition, member, isInner⟩ := inner.mp restricted
      cases condition with
      | vni value => cases isInner
      | dlIndst mac => exact Eq.trans (represents.stored _ member) (holds _ member).symm
      | dlDst mac => cases isInner

section Frames

/-- A VXLAN frame with the given addresses and VNI, in the layout that the code assumes and with
no header options. -/
def vxlanFrame (outer inner : Mac) (vni : BitVec 32) : SkBuff :=
  received (List.ofFn outer ++ List.replicate 6 0 ++ [0x08, 0x00, 0x45] ++ List.replicate 8 0 ++
    [17] ++ List.replicate 18 0 ++ [0x08, 0, 0, 0, byteAt vni 2, byteAt vni 1, byteAt vni 0, 0] ++
    List.ofFn inner ++ List.replicate 8 0) 14 (by simp) (by simp)

/-- The frame has the addresses and the VNI it was made with, as the matcher reads them, provided
that the decoder can return the VNI. -/
theorem vxlan_frame_fields (outer inner : Mac) (vni : BitVec 32) (decodable : Decodable vni) :
    outerDst (vxlanFrame outer inner vni) = outer ∧
      innerDst (vxlanFrame outer inner vni) = inner ∧
      packetVni (vxlanFrame outer inner vni) = vni := by
  refine ⟨?_, ?_, ?_⟩
  · funext index
    match index with
    | 0 | 1 | 2 | 3 | 4 | 5 => rfl
  · funext index
    match index with
    | 0 | 1 | 2 | 3 | 4 | 5 => rfl
  · have carried : carriedVni (vxlanFrame outer inner vni) =
        placed (byteAt vni 2) 2 ||| placed (byteAt vni 1) 1 ||| placed (byteAt vni 0) 0 := rfl
    obtain ⟨high, kept⟩ := decodable_kept vni decodable
    have whole : placed (byteAt vni 2) 2 ||| placed (byteAt vni 1) 1 |||
        placed (byteAt vni 0) 0 = vni := by
      apply eq_of_bytes
      intro index inside
      match index, inside with
      | 0, _ | 1, _ | 2, _ => simp [byteAt_or, byteAt_placed]
      | 3, _ => simp [byteAt_or, byteAt_placed, high]
    rw [packet_vni_eq_masked, carried, whole, kept]

/-- Every VNI asked for is one that the decoder can return. Addresses can be any. -/
def Matchable (conditions : List Condition) : Prop :=
  ∀ value, .vni value ∈ conditions → Decodable value

/-- Without that, no packet meets the conditions: the decoder returns no such VNI. -/
theorem matchable_of_holds (conditions : List Condition) (skb : SkBuff)
    (holds : ∀ condition ∈ conditions, condition.Holds skb) : Matchable conditions := by
  intro value member
  have decoded : packetVni skb = value := holds (.vni value) member
  rw [← decoded]
  exact packet_vni_decodable skb

/-- A frame meets the conditions when it was made with their values. -/
theorem frame_holds (conditions : List Condition) (outer inner : Mac) (vni : BitVec 32)
    (decodable : Decodable vni)
    (sameOuter : ∀ mac, .dlDst mac ∈ conditions → outer = mac)
    (sameInner : ∀ mac, .dlIndst mac ∈ conditions → inner = mac)
    (sameVni : ∀ value, .vni value ∈ conditions → vni = value) :
    ∀ condition ∈ conditions, condition.Holds (vxlanFrame outer inner vni) := by
  obtain ⟨hasOuter, hasInner, hasVni⟩ := vxlan_frame_fields outer inner vni decodable
  intro condition member
  cases condition with
  | vni value => exact hasVni.trans (sameVni value member)
  | dlIndst mac => exact hasInner.trans (sameInner mac member)
  | dlDst mac => exact hasOuter.trans (sameOuter mac member)

section Values

variable (conditions : List Condition) (vseMatch : VseMatch)
  (represents : Represents conditions vseMatch) (matchable : Matchable conditions)

/-- The VNI of a frame for the match: the stored one, or any where that is no condition. A VNI
that cannot be decoded is never asked for here. -/
def frameVni : BitVec 32 := if Decodable vseMatch.vxVni then vseMatch.vxVni else 0

/-- It can be decoded. -/
theorem frame_vni_decodable : Decodable (frameVni vseMatch) := by
  unfold frameVni
  split
  · assumption
  · decide

include represents matchable

/-- It is the VNI asked for. -/
theorem frame_vni_eq (value : BitVec 32) (member : .vni value ∈ conditions) :
    frameVni vseMatch = value := by
  have stored : vseMatch.vxVni = value := represents.stored (.vni value) member
  rw [frameVni, stored, if_pos (matchable value member)]

/-- Some packet meets conditions on different fields, as long as the decoder can return the VNI
asked for. -/
theorem meeting_frame : ∃ skb, ∀ condition ∈ conditions, condition.Holds skb :=
  ⟨_, frame_holds conditions vseMatch.dlDst vseMatch.dlIndst (frameVni vseMatch)
    (frame_vni_decodable vseMatch) (fun mac => represents.stored (.dlDst mac))
    (fun mac => represents.stored (.dlIndst mac))
    (frame_vni_eq conditions vseMatch represents matchable)⟩

/-- Some packet meets them and fails a further condition on another field. So no condition of a
command line is superfluous. -/
theorem separating_frame (other : Condition)
    (free : ∀ condition ∈ conditions, condition.position ≠ other.position) :
    ∃ skb, (∀ condition ∈ conditions, condition.Holds skb) ∧ ¬ other.Holds skb := by
  have outer := fun mac => represents.stored (.dlDst mac)
  have inner := fun mac => represents.stored (.dlIndst mac)
  have vni := frame_vni_eq conditions vseMatch represents matchable
  have decodable := frame_vni_decodable vseMatch
  -- No address is its own successor.
  have moved (mac : Mac) : (fun index => mac index + 1) ≠ mac := by
    intro same
    have first : mac 0 + 1 = mac 0 := congrFun same 0
    exact absurd first (by simp)
  cases other with
  | vni value =>
    obtain ⟨different, canDecode, isDifferent⟩ : ∃ different, Decodable different ∧
        different ≠ value := by
      by_cases zero : value = 0
      · exact ⟨16, by decide, by rw [zero]; decide⟩
      · exact ⟨0, by decide, Ne.symm zero⟩
    refine ⟨vxlanFrame vseMatch.dlDst vseMatch.dlIndst different,
      frame_holds conditions _ _ _ canDecode outer inner ?_, ?_⟩
    · intro asked member
      exact absurd rfl (free (.vni asked) member)
    · intro holds
      exact isDifferent ((vxlan_frame_fields _ _ _ canDecode).2.2.symm.trans holds)
  | dlIndst mac =>
    refine ⟨vxlanFrame vseMatch.dlDst (fun index => mac index + 1) (frameVni vseMatch),
      frame_holds conditions _ _ _ decodable outer ?_ vni, ?_⟩
    · intro asked member
      exact absurd rfl (free (.dlIndst asked) member)
    · intro holds
      exact moved mac ((vxlan_frame_fields _ _ _ decodable).2.1.symm.trans holds)
  | dlDst mac =>
    refine ⟨vxlanFrame (fun index => mac index + 1) vseMatch.dlIndst (frameVni vseMatch),
      frame_holds conditions _ _ _ decodable ?_ inner vni, ?_⟩
    · intro asked member
      exact absurd rfl (free (.dlDst asked) member)
    · intro holds
      exact moved mac ((vxlan_frame_fields _ _ _ decodable).1.symm.trans holds)

end Values

end Frames

end Vse.Conditions

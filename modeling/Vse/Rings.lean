import Mathlib.Data.List.Chain
import Mathlib.Data.List.Nodup
import Mathlib.Logic.Function.Basic

/-!
# Rings of links

Every node has a link to the next and one to the previous node. A path follows the links from
one node to another, and each of its steps can be taken back. A ring is a path from a head
through distinct nodes back to the head.

Two edits change a ring: a node is added right behind the head, and a node is taken out.
Both write a handful of links. They are stated write by write, in the order in which
programs make them, and then read as a whole.
-/

namespace Rings

universe u
variable {κ : Type u}

/-- The links of a node, to the next one and to the previous one, which may be any nodes. -/
@[ext] structure Link (κ : Type u) where
  next : κ
  prev : κ
deriving DecidableEq

/-- The links of all nodes. -/
abbrev Links (κ : Type u) := κ → Link κ

/-- One step leads from a node to the other, and back. -/
def Joined (links : Links κ) (first second : κ) : Prop :=
  (links first).next = second ∧ (links second).prev = first

/-- The links lead from the start through the nodes to the stop, and back by the same nodes.
Nothing is said of the stop's own link on or the start's link back. -/
def Path (links : Links κ) (start : κ) (nodes : List κ) (stop : κ) : Prop :=
  List.IsChain (Joined links) (start :: (nodes ++ [stop]))

/-- The links lead from the head through distinct nodes, none of them the head, to the head, and
back. -/
structure Ring (links : Links κ) (head : κ) (nodes : List κ) : Prop where
  distinct : (head :: nodes).Nodup
  path : Path links head nodes head

section Paths

variable (links after : Links κ) (start stop : κ)

@[simp] theorem path_nil : Path links start [] stop ↔ Joined links start stop :=
  List.isChain_pair

@[simp] theorem path_cons (node : κ) (nodes : List κ) :
    Path links start (node :: nodes) stop ↔
      Joined links start node ∧ Path links node nodes stop :=
  List.isChain_cons_cons

/-- A path splits at each of its nodes. -/
theorem path_append (front : List κ) (node : κ) (back : List κ) :
    Path links start (front ++ node :: back) stop ↔
      Path links start front node ∧ Path links node back stop := by
  simp only [Path, List.append_assoc, List.cons_append]
  exact List.isChain_cons_split

/-- A path is left alone by whoever writes no link on it: the links on of its start and nodes, and
the links back of its nodes and stop. -/
theorem path_congr (nodes : List κ)
    (next : ∀ node ∈ start :: nodes, (after node).next = (links node).next)
    (prev : ∀ node ∈ nodes ++ [stop], (after node).prev = (links node).prev)
    (path : Path links start nodes stop) : Path after start nodes stop := by
  induction nodes generalizing start with
  | nil =>
    rw [path_nil] at path ⊢
    obtain ⟨forth, back⟩ := path
    exact ⟨(next start List.mem_cons_self).trans forth,
      (prev stop List.mem_cons_self).trans back⟩
  | cons node nodes inductionHypothesis =>
    rw [path_cons] at path ⊢
    obtain ⟨⟨forth, back⟩, rest⟩ := path
    refine ⟨⟨(next start List.mem_cons_self).trans forth,
      (prev node List.mem_cons_self).trans back⟩, inductionHypothesis node ?_ ?_ rest⟩
    · intro other member
      exact next other (List.mem_cons_of_mem _ member)
    · intro other member
      exact prev other (List.mem_cons_of_mem _ member)

/-- The stop's way back leads to the start or to a node of the path. -/
theorem path_prev_mem (nodes : List κ) (path : Path links start nodes stop) :
    (links stop).prev ∈ start :: nodes := by
  induction nodes generalizing start with
  | nil => exact List.mem_cons.mpr (Or.inl ((path_nil links start stop).mp path).2)
  | cons node nodes inductionHypothesis =>
    exact List.mem_cons_of_mem _
      (inductionHypothesis node ((path_cons links start stop node nodes).mp path).2)

/-- Where only the step to the stop is led elsewhere, the path ends there, and the nodes on it are
the same. -/
theorem path_redirect (nodes : List κ) (other : κ) (distinct : (start :: nodes).Nodup)
    (next : ∀ node ∈ start :: nodes, node ≠ (links stop).prev →
      (after node).next = (links node).next)
    (prev : ∀ node ∈ nodes, (after node).prev = (links node).prev)
    (joined : Joined after (links stop).prev other)
    (path : Path links start nodes stop) : Path after start nodes other := by
  induction nodes generalizing start with
  | nil =>
    rw [path_nil] at path ⊢
    obtain ⟨_, rfl⟩ := path
    exact joined
  | cons node nodes inductionHypothesis =>
    rw [path_cons] at path ⊢
    obtain ⟨⟨forth, back⟩, rest⟩ := path
    have last := path_prev_mem links node stop nodes rest
    have notLast : start ≠ (links stop).prev := by
      intro same
      exact (List.nodup_cons.mp distinct).1 (same ▸ last)
    refine ⟨⟨(next start List.mem_cons_self notLast).trans forth,
      (prev node List.mem_cons_self).trans back⟩,
      inductionHypothesis node (List.nodup_cons.mp distinct).2 ?_ ?_ rest⟩
    · intro inner member
      exact next inner (List.mem_cons_of_mem _ member)
    · intro inner member
      exact prev inner (List.mem_cons_of_mem _ member)

end Paths

section Reading

variable {links after : Links κ} {head : κ} {nodes : List κ}

theorem ne_first {first node : κ} {rest : List κ} (distinct : (head :: first :: rest).Nodup)
    (member : node ∈ rest ++ [head]) : node ≠ first := by
  obtain ⟨headOut, behind⟩ := List.nodup_cons.mp distinct
  rintro rfl
  rcases List.mem_append.mp member with inRest | isHead
  · exact (List.nodup_cons.mp behind).1 inRest
  · exact headOut (List.mem_singleton.mp isHead ▸ List.mem_cons_self)

/-- A head that is linked to itself is a ring without nodes. -/
theorem ring_nil (links : Links κ) (head : κ) : Ring links head [] ↔ links head = ⟨head, head⟩ := by
  constructor
  · rintro ⟨_, path⟩
    obtain ⟨next, prev⟩ := (path_nil links head head).mp path
    exact congrArg₂ Link.mk next prev
  · intro self
    refine ⟨List.nodup_singleton head, (path_nil links head head).mpr ?_⟩
    rw [Joined, self]
    exact ⟨rfl, rfl⟩

/-- In a ring with nodes the head leads to the first of them. -/
theorem Ring.next_head {first : κ} {rest : List κ} (ring : Ring links head (first :: rest)) :
    (links head).next = first :=
  ((path_cons links head head first rest).mp ring.path).1.1

theorem Ring.next_head_mem (ring : Ring links head nodes) :
    (links head).next ∈ head :: nodes := by
  cases nodes with
  | nil => exact List.mem_cons.mpr (Or.inl (congrArg Link.next ((ring_nil links head).mp ring)))
  | cons first rest =>
    rw [ring.next_head]
    exact List.mem_cons_of_mem head List.mem_cons_self

/-- The first node leads back to the head, and on to the head or to one of the others. -/
theorem Ring.neighbours {first : κ} {rest : List κ} (ring : Ring links head (first :: rest)) :
    (links first).prev = head ∧ (links first).next ∈ head :: rest := by
  obtain ⟨⟨_, prev⟩, path⟩ := (path_cons links head head first rest).mp ring.path
  refine ⟨prev, ?_⟩
  cases rest with
  | nil => exact List.mem_cons.mpr (Or.inl ((path_nil links first head).mp path).1)
  | cons second rest =>
    obtain ⟨⟨next, _⟩, _⟩ := (path_cons links first head second rest).mp path
    rw [next]
    exact List.mem_cons_of_mem head List.mem_cons_self

/-- The head leads to itself exactly when the ring has no nodes. -/
theorem Ring.next_head_iff (ring : Ring links head nodes) :
    (links head).next = head ↔ nodes = [] := by
  cases nodes with
  | nil =>
    rw [(ring_nil links head).mp ring]
    exact iff_of_true rfl rfl
  | cons first rest =>
    rw [ring.next_head]
    apply iff_of_false
    · intro same
      exact (List.nodup_cons.mp ring.distinct).1 (same ▸ List.mem_cons_self)
    · exact List.cons_ne_nil first rest

/-- A ring is left alone by whoever writes no link of its nodes and its head. -/
theorem Ring.congr (ring : Ring links head nodes)
    (same : ∀ node ∈ head :: nodes, after node = links node) : Ring after head nodes := by
  refine ⟨ring.distinct, path_congr links after head head nodes ?_ ?_ ring.path⟩
  · intro node member
    rw [same node member]
  · intro node member
    rw [same node (List.mem_append.mp member |>.elim (List.mem_cons_of_mem head)
      fun last => List.mem_singleton.mp last ▸ List.mem_cons_self)]

end Reading

section Edits

variable [DecidableEq κ]

def setNext (node value : κ) (links : Links κ) : Links κ :=
  Function.update links node { links node with next := value }

def setPrev (node value : κ) (links : Links κ) : Links κ :=
  Function.update links node { links node with prev := value }

@[simp] theorem set_next_next (node value other : κ) (links : Links κ) :
    (setNext node value links other).next = if other = node then value else (links other).next := by
  rw [setNext, Function.update_apply]
  split <;> rfl

@[simp] theorem set_next_prev (node value other : κ) (links : Links κ) :
    (setNext node value links other).prev = (links other).prev := by
  rw [setNext, Function.update_apply]
  split
  · rename_i same
    rw [same]
  · rfl

@[simp] theorem set_prev_prev (node value other : κ) (links : Links κ) :
    (setPrev node value links other).prev = if other = node then value else (links other).prev := by
  rw [setPrev, Function.update_apply]
  split <;> rfl

@[simp] theorem set_prev_next (node value other : κ) (links : Links κ) :
    (setPrev node value links other).next = (links other).next := by
  rw [setPrev, Function.update_apply]
  split
  · rename_i same
    rw [same]
  · rfl

/-- Add a node between two others, by four writes, of which the last leads to the new node. -/
def insert (new prev next : κ) (links : Links κ) : Links κ :=
  setNext prev new (setPrev new prev (setNext new next (setPrev next new links)))

/-- Join the neighbours of a node to each other. The node's own links stay, and still lead into
the ring. -/
def unlink (node : κ) (links : Links κ) : Links κ :=
  setNext (links node).prev (links node).next (setPrev (links node).next (links node).prev links)

theorem insert_of_ne (new prev next node : κ) (links : Links κ) (notNew : node ≠ new)
    (notPrev : node ≠ prev) (notNext : node ≠ next) :
    insert new prev next links node = links node := by
  apply Link.ext
  · simp [insert, notNew, notPrev]
  · simp [insert, notNew, notNext]

theorem unlink_of_ne (taken node : κ) (links : Links κ) (notPrev : node ≠ (links taken).prev)
    (notNext : node ≠ (links taken).next) : unlink taken links node = links node := by
  apply Link.ext
  · simp [unlink, notPrev]
  · simp [unlink, notNext]

variable (links : Links κ) (head : κ)

/-- A node added behind the head is the ring's first, with the others in their order behind it. -/
theorem Ring.insert {nodes : List κ} (ring : Ring links head nodes) (new : κ)
    (isNew : new ∉ head :: nodes) :
    Ring (insert new head (links head).next links) head (new :: nodes) := by
  obtain ⟨headOut, nodup⟩ := List.nodup_cons.mp ring.distinct
  obtain ⟨notHead, notNode⟩ := not_or.mp (List.mem_cons.not.mp isNew)
  have distinct : (head :: new :: nodes).Nodup := by
    refine List.nodup_cons.mpr ⟨?_, List.nodup_cons.mpr ⟨notNode, nodup⟩⟩
    exact List.mem_cons.not.mpr (not_or.mpr ⟨Ne.symm notHead, headOut⟩)
  refine ⟨distinct, (path_cons _ _ _ _ _).mpr ⟨?_, ?_⟩⟩
  · simp [Joined, Rings.insert]
  · cases nodes with
    | nil =>
      rw [path_nil, (ring_nil links head).mp ring]
      simp [Joined, Rings.insert, notHead, Ne.symm notHead]
    | cons first rest =>
      obtain ⟨_, path⟩ := (path_cons links head head first rest).mp ring.path
      rw [ring.next_head]
      have newFirst : first ≠ new := fun same => notNode (same ▸ List.mem_cons_self)
      -- Only the links between the head and the first node are written.
      refine (path_cons _ _ _ _ _).mpr ⟨?_, path_congr links _ first head rest ?_ ?_ path⟩
      · simp [Joined, Rings.insert, notHead, newFirst]
      · intro node member
        have notNew : node ≠ new := fun same => notNode (same ▸ member)
        have inner : node ≠ head := fun same => headOut (same ▸ member)
        simp [Rings.insert, notNew, inner]
      · intro node member
        have notFirst : node ≠ first := ne_first ring.distinct member
        have notNew : node ≠ new :=
          ne_first distinct (List.mem_append.mpr ((List.mem_append.mp member).imp_left
            (List.mem_cons_of_mem first)))
        simp [Rings.insert, notNew, notFirst]

/-- A path to a node leads on to the node behind it once the node is unlinked. -/
theorem path_unlink (front : List κ) (node : κ) (distinct : (head :: front).Nodup)
    (apart : (links node).next ∉ front) (path : Path links head front node) :
    Path (unlink node links) head front (links node).next := by
  apply path_redirect links _ head node front _ distinct _ _ _ path
  · intro other _ notLast
    simp [unlink, notLast]
  · intro other member
    have notNext : other ≠ (links node).next := fun same => apart (same ▸ member)
    simp [unlink, notNext]
  · simp [Joined, unlink]

/-- A node taken out leaves the ring of the others, in their order. -/
theorem Ring.unlink {front back : List κ} {node : κ}
    (ring : Ring links head (front ++ node :: back)) :
    Ring (unlink node links) head (front ++ back) := by
  obtain ⟨toNode, fromNode⟩ := (path_append links head head front node back).mp ring.path
  have distinct : (head :: (front ++ back)).Nodup := by
    apply List.Nodup.sublist (List.Sublist.cons_cons head _) ring.distinct
    exact List.Sublist.append_left (List.sublist_cons_self node back) front
  have distinctFront : (head :: front).Nodup :=
    List.Nodup.sublist (List.Sublist.cons_cons head (List.sublist_append_left front back)) distinct
  refine ⟨distinct, ?_⟩
  cases back with
  | nil =>
    obtain ⟨next, _⟩ := (path_nil links node head).mp fromNode
    have path := path_unlink links head front node distinctFront
      (next ▸ (List.nodup_cons.mp distinctFront).1) toNode
    rw [next] at path
    rwa [List.append_nil]
  | cons second rest =>
    obtain ⟨⟨next, _⟩, path⟩ := (path_cons links node head second rest).mp fromNode
    -- The second node is behind the head and the front, so they are apart from it.
    obtain ⟨headOut, parts⟩ := List.nodup_cons.mp distinct
    obtain ⟨_, _, disjoint⟩ := List.nodup_append.mp parts
    have last := path_prev_mem links head node front toNode
    have lastOut (other : κ) (member : other ∈ second :: rest) : other ≠ (links node).prev := by
      rintro rfl
      rcases List.mem_cons.mp last with isHead | inFront
      · exact headOut (isHead ▸ List.mem_append_right front member)
      · exact disjoint _ inFront _ member rfl
    refine (path_append _ _ _ _ _ _).mpr ⟨?_, path_congr links _ second head rest ?_ ?_ path⟩
    · have reached := path_unlink links head front node distinctFront
        (next ▸ fun inFront => disjoint second inFront second List.mem_cons_self rfl) toNode
      rwa [next] at reached
    · intro other member
      simp [Rings.unlink, lastOut other member]
    · intro other member
      have notSecond : other ≠ second := by
        apply ne_first (List.Nodup.sublist (List.Sublist.cons_cons head _) distinct) member
        exact List.sublist_append_right front (second :: rest)
      simp [Rings.unlink, next, notSecond]

end Edits

end Rings

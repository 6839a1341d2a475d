import Vse.Heaps
import Vse.Rings

/-!
# List heads in a heap

The circular lists of the Linux kernel. A list node lies inside the object that it links, and
the list starts at a head outside of the heap. `list_add`, `list_del`, `list_empty` and
`list_for_each` are the functions and macros of `list.h`, write by write; `list_del` leaves
poison behind. A node that is null, poisoned or in a freed object cannot be read or written.

`Threads` is what holds of such a list: from the head a ring of links goes through the
objects at the given addresses, with the given values in them, and all other objects are
those of the heap at the start.
-/

namespace ListHeads

open Heaps Rings

variable {α σ : Type}

/-- What a pointer to a list node can be: null, the head, the node of an object, or one of the two
poisons that `list_del` leaves behind. -/
inductive NodePtr where
  | null
  | listHead
  | node (address : Nat)
  | poison1
  | poison2
deriving DecidableEq

/-- `struct list_head`. -/
abbrev ListHead := Link NodePtr

/-- An object with a list node in it, as `container_of` knows it: its links and its value. -/
@[ext] structure Linked (α : Type) where
  value : α
  list : ListHead

/-- The head, the objects, and the addresses given back so far, in order. -/
structure ListHeap (α : Type) where
  head : ListHead
  heap : Heap (Linked α)
  freed : List Nat

/-- `LIST_HEAD`: the head is linked to itself. -/
def initListHead : ListHead := ⟨.listHead, .listHead⟩

/-- A computation that may fail, and whose fuel may end before it does. The two are kept apart, so
that running out of fuel is never taken for a result. -/
abbrev Running := ExceptT Fault Option

/-- Without fuel a loop is still running. -/
def Running.outOfFuel : Running α := ExceptT.mk none

@[simp] theorem lift_ok (value : α) :
    (liftM (Except.ok value : Except Fault α) : Running α) = pure value := rfl

section Operations

variable (lists : ListHeap α)

/-- Read a list node. Null, poison and the node of an object that was freed are faults. -/
def ListHeap.read : NodePtr → Except Fault ListHead
  | .null => .error .nullPointer
  | .listHead => .ok lists.head
  | .node address => do
      let (_, object) ← lists.heap.deref (some address)
      return object.list
  | .poison1 | .poison2 => .error .outOfRange

def ListHeap.relink (address : Nat) (change : ListHead → ListHead) : ListHeap α :=
  { lists with heap := lists.heap.modify address fun object =>
      { object with list := change object.list } }

/-- Write a list node, which faults where reading it does. -/
def ListHeap.change (change : ListHead → ListHead) : NodePtr → Except Fault (ListHeap α)
  | .null => .error .nullPointer
  | .listHead => .ok { lists with head := change lists.head }
  | .node address => do
      let _ ← lists.heap.deref (some address)
      return lists.relink address change
  | .poison1 | .poison2 => .error .outOfRange

/-- `node->next = value`. -/
def ListHeap.writeNext (node value : NodePtr) : Except Fault (ListHeap α) :=
  lists.change (fun links => { links with next := value }) node

/-- `node->prev = value`. -/
def ListHeap.writePrev (node value : NodePtr) : Except Fault (ListHeap α) :=
  lists.change (fun links => { links with prev := value }) node

/-- `kfree` of an object. -/
def ListHeap.kfree (object : Ptr) : Except Fault (ListHeap α) := do
  let heap ← lists.heap.free object
  return { lists with heap := heap, freed := lists.freed ++ object.toList }

/-- `list_add`: insert a node behind the head. -/
def listAdd (new head : NodePtr) : Except Fault (ListHeap α) := do
  let next := (← lists.read head).next
  let lists ← lists.writePrev next new
  let lists ← lists.writeNext new next
  let lists ← lists.writePrev new head
  lists.writeNext head new

/-- `list_del`: join the neighbours of a node, and poison the node. -/
def listDel (entry : NodePtr) : Except Fault (ListHeap α) := do
  let ⟨next, prev⟩ ← lists.read entry
  let lists ← lists.writePrev next prev
  let lists ← lists.writeNext prev next
  let lists ← lists.writeNext entry .poison1
  lists.writePrev entry .poison2

/-- `list_empty`. -/
def listEmpty (head : NodePtr) : Except Fault Bool := do
  return (← lists.read head).next = head

/-- `list_entry`: the object around a list node. Around the head and around poison there is
none. -/
def listEntry : NodePtr → Except Fault Ptr
  | .null => .error .nullPointer
  | .node address => .ok (some address)
  | .listHead | .poison1 | .poison2 => .error .outOfRange

/-- `list_for_each` from a node on, with a body that looks at the object and may leave the loop.
It returns the object at which it was left. -/
def listForEach (body : α → σ → Bool × σ) : Nat → NodePtr → σ → Running (Ptr × σ)
  | 0, _, _ => Running.outOfFuel
  | fuel + 1, p, state => do
      if p = .listHead then return (none, state)
      let (address, object) ← lists.heap.deref (← listEntry p)
      let (leaves, state) := body object.value state
      if leaves then return (some address, state)
      listForEach body fuel object.list.next state

end Operations

section Views

variable (lists : ListHeap α)

/-- The value of the object at an address. -/
def ListHeap.value (address : Nat) : Option α := (lists.heap.object address).map Linked.value

/-- The links of all nodes; null where there is no node. -/
def ListHeap.links : Links NodePtr
  | .listHead => lists.head
  | .node address => (lists.heap.object address).elim ⟨.null, .null⟩ Linked.list
  | .null | .poison1 | .poison2 => ⟨.null, .null⟩

/-- The head and the nodes of live objects can be read and written. -/
def ListHeap.Accessible (node : NodePtr) : Prop :=
  node = .listHead ∨
    ∃ address object, node = .node address ∧ lists.heap.object address = some object

/-- The links were edited, and nothing else: the same objects are live, with the same values. -/
structure Edited (edit : Links NodePtr → Links NodePtr) (after : ListHeap α) : Prop where
  links : after.links = edit lists.links
  value : after.value = lists.value
  freed : after.freed = lists.freed

theorem read_accessible (node : NodePtr) (accessible : lists.Accessible node) :
    lists.read node = .ok (lists.links node) := by
  rcases accessible with rfl | ⟨address, object, rfl, present⟩
  · rfl
  · simp only [ListHeap.read, lists.heap.deref_live address object present, ok_bind, pure_ok,
      ListHeap.links, present, Option.elim_some]

/-- Changing a node that can be read edits its links, and no others. -/
theorem change_accessible (change : ListHead → ListHead) (node : NodePtr)
    (accessible : lists.Accessible node) :
    ∃ after, lists.change change node = .ok after ∧
      Edited lists (fun links => Function.update links node (change (links node))) after := by
  rcases accessible with rfl | ⟨address, object, rfl, present⟩
  · refine ⟨_, rfl, ?_, rfl, rfl⟩
    funext other
    cases other <;> rfl
  · have runs : lists.change change (.node address) = .ok (lists.relink address change) := by
      rw [ListHeap.change, lists.heap.deref_live address object present]
      rfl
    refine ⟨_, runs, ?_, ?_, rfl⟩
    · funext other
      cases other with
      | node otherAddress =>
        by_cases own : otherAddress = address
        · rw [own, Function.update_self]
          simp only [ListHeap.links, ListHeap.relink, present, Option.elim_some,
            lists.heap.modify_at_self address _ object present]
        · rw [Function.update_of_ne (by simpa using own)]
          simp only [ListHeap.links, ListHeap.relink, lists.heap.modify_of_ne address _ _ own]
      | null => rfl
      | listHead => rfl
      | poison1 => rfl
      | poison2 => rfl
    · funext other
      by_cases own : other = address
      · simp only [own, ListHeap.value, ListHeap.relink, present, Option.map_some,
          lists.heap.modify_at_self address _ object present]
      · simp only [ListHeap.value, ListHeap.relink, lists.heap.modify_of_ne address _ _ own]

/-- Only what is accessible can be changed. -/
theorem accessible_of_change (change : ListHead → ListHead) (node : NodePtr) (after : ListHeap α)
    (runs : lists.change change node = .ok after) : lists.Accessible node := by
  cases node with
  | null => cases runs
  | listHead => exact Or.inl rfl
  | node address =>
    obtain ⟨⟨_, object⟩, leads, _⟩ := bind_eq_ok.mp runs
    cases present : lists.heap.object address with
    | none => simp only [Heap.deref, present, reduceCtorEq] at leads
    | some object => exact Or.inr ⟨address, object, rfl, present⟩
  | poison1 => cases runs
  | poison2 => cases runs

/-- A change that succeeds edits the links of its node. -/
theorem edited_of_change (change : ListHead → ListHead) (node : NodePtr) (after : ListHeap α)
    (runs : lists.change change node = .ok after) :
    Edited lists (fun links => Function.update links node (change (links node))) after := by
  obtain ⟨same, runsToo, edited⟩ :=
    change_accessible lists change node (accessible_of_change lists change node after runs)
  obtain rfl := Except.ok.inj (runsToo.symm.trans runs)
  exact edited

theorem write_next_accessible (node value : NodePtr) (accessible : lists.Accessible node) :
    ∃ after, lists.writeNext node value = .ok after ∧ Edited lists (setNext node value) after :=
  change_accessible lists _ node accessible

theorem write_prev_accessible (node value : NodePtr) (accessible : lists.Accessible node) :
    ∃ after, lists.writePrev node value = .ok after ∧ Edited lists (setPrev node value) after :=
  change_accessible lists _ node accessible

end Views

section Edits

variable {lists middle after : ListHeap α} {first second : Links NodePtr → Links NodePtr}

/-- One edit after the other. -/
theorem Edited.trans (one : Edited lists first middle) (two : Edited middle second after) :
    Edited lists (second ∘ first) after where
  links := two.links.trans (congrArg second one.links)
  value := two.value.trans one.value
  freed := two.freed.trans one.freed

/-- The head and the nodes of objects with a value can be read and written. -/
theorem accessible_iff (node : NodePtr) :
    lists.Accessible node ↔
      node = .listHead ∨
        ∃ address value, node = .node address ∧ lists.value address = some value := by
  apply or_congr_right
  constructor
  · rintro ⟨address, object, same, present⟩
    exact ⟨address, object.value, same, congrArg (Option.map Linked.value) present⟩
  · rintro ⟨address, value, same, has⟩
    obtain ⟨object, present, _⟩ := Option.map_eq_some_iff.mp has
    exact ⟨address, object, same, present⟩

theorem Edited.accessible (edited : Edited lists first after) {node : NodePtr}
    (accessible : lists.Accessible node) : after.Accessible node := by
  rw [accessible_iff] at accessible ⊢
  rwa [edited.value]

/-- An object whose links were not edited is as it was. -/
theorem Edited.object (edited : Edited lists first after) (address : Nat)
    (kept : first lists.links (.node address) = lists.links (.node address)) :
    after.heap.object address = lists.heap.object address := by
  have value := congrFun edited.value address
  have links := (congrFun edited.links (.node address)).trans kept
  simp only [ListHeap.value, ListHeap.links] at value links
  cases before : lists.heap.object address with
  | none =>
    rw [before, Option.map_none, Option.map_eq_none_iff] at value
    exact value
  | some object =>
    rw [before, Option.map_some, Option.map_eq_some_iff] at value
    obtain ⟨other, present, sameValue⟩ := value
    rw [before, present, Option.elim_some, Option.elim_some] at links
    rw [present, Linked.ext sameValue links]

variable (lists)

/-- `list_add` inserts the node behind the head. -/
theorem list_add_eq (new head : NodePtr) (newNode : lists.Accessible new)
    (headNode : lists.Accessible head) (nextNode : lists.Accessible (lists.links head).next) :
    ∃ after, listAdd lists new head = .ok after ∧
      Edited lists (insert new head (lists.links head).next) after := by
  obtain ⟨one, runsOne, editOne⟩ := write_prev_accessible lists _ new nextNode
  obtain ⟨two, runsTwo, editTwo⟩ :=
    write_next_accessible one _ (lists.links head).next (editOne.accessible newNode)
  have upToTwo := editOne.trans editTwo
  obtain ⟨three, runsThree, editThree⟩ :=
    write_prev_accessible two _ head (upToTwo.accessible newNode)
  have upToThree := upToTwo.trans editThree
  obtain ⟨after, runs, edit⟩ :=
    write_next_accessible three _ new (upToThree.accessible headNode)
  refine ⟨after, ?_, upToThree.trans edit⟩
  rw [listAdd, read_accessible lists head headNode]
  simp only [ok_bind, runsOne, runsTwo, runsThree]
  exact runs

/-- `list_del` unlinks the node and poisons it. -/
theorem list_del_eq (entry : NodePtr) (entryNode : lists.Accessible entry)
    (prevNode : lists.Accessible (lists.links entry).prev)
    (nextNode : lists.Accessible (lists.links entry).next) :
    ∃ after, listDel lists entry = .ok after ∧
      Edited lists (setPrev entry .poison2 ∘ setNext entry .poison1 ∘ unlink entry) after := by
  obtain ⟨one, runsOne, editOne⟩ :=
    write_prev_accessible lists _ (lists.links entry).prev nextNode
  obtain ⟨two, runsTwo, editTwo⟩ :=
    write_next_accessible one _ (lists.links entry).next (editOne.accessible prevNode)
  have unlinked : Edited lists (unlink entry) two :=
    ⟨(editOne.trans editTwo).links, (editOne.trans editTwo).value, (editOne.trans editTwo).freed⟩
  obtain ⟨three, runsThree, editThree⟩ :=
    write_next_accessible two _ .poison1 (unlinked.accessible entryNode)
  have upToThree := unlinked.trans editThree
  obtain ⟨after, runs, edit⟩ :=
    write_prev_accessible three _ .poison2 (upToThree.accessible entryNode)
  refine ⟨after, ?_, upToThree.trans edit⟩
  rw [listDel, read_accessible lists entry entryNode]
  simp only [ok_bind, runsOne, runsTwo, runsThree]
  exact runs

end Edits

section Threaded

/-- From the head a ring of links goes through the objects at the addresses, which have the
values. All other objects are those of the start. This is the relation between a list in memory
and the list that it stands for. -/
structure Threads (start : Heap (Linked α)) (lists : ListHeap α) (addresses : List Nat)
    (values : List α) : Prop where
  ring : Ring lists.links .listHead (addresses.map .node)
  values : addresses.map lists.value = values.map some
  others : ∀ address, address ∉ addresses → lists.heap.object address = start.object address
  fresh : ∀ address ∈ addresses, start.object address = none

variable {start : Heap (Linked α)} {lists after : ListHeap α} {addresses : List Nat}
  {values : List α}

/-- A head that is linked to itself, with no objects behind it, threads the empty list. -/
theorem threads_init (start : Heap (Linked α)) (freed : List Nat) :
    Threads start ⟨initListHead, start, freed⟩ [] [] where
  ring := (ring_nil _ _).mpr rfl
  values := rfl
  others _ _ := rfl
  fresh _ member := absurd member List.not_mem_nil

theorem Threads.length (threads : Threads start lists addresses values) :
    values.length = addresses.length := by
  have lengths := congrArg List.length threads.values
  rw [List.length_map, List.length_map] at lengths
  exact lengths.symm

theorem Threads.nodup (threads : Threads start lists addresses values) : addresses.Nodup :=
  List.Nodup.of_map _ (List.nodup_cons.mp threads.ring.distinct).2

/-- The object at an address on the thread is live. -/
theorem Threads.live (threads : Threads start lists addresses values) (address : Nat)
    (member : address ∈ addresses) :
    ∃ object, lists.heap.object address = some object := by
  have has : lists.value address ∈ values.map some := by
    rw [← threads.values]
    exact List.mem_map_of_mem member
  obtain ⟨value, _, same⟩ := List.mem_map.mp has
  obtain ⟨object, present, _⟩ := Option.map_eq_some_iff.mp same.symm
  exact ⟨object, present⟩

/-- The head and the nodes of the thread can be read and written. -/
theorem Threads.accessible (threads : Threads start lists addresses values) (node : NodePtr)
    (member : node ∈ .listHead :: addresses.map .node) : lists.Accessible node := by
  rcases List.mem_cons.mp member with rfl | inner
  · exact Or.inl rfl
  · obtain ⟨address, threaded, rfl⟩ := List.mem_map.mp inner
    obtain ⟨object, present⟩ := threads.live address threaded
    exact Or.inr ⟨address, object, rfl, present⟩

/-- `list_empty` tells whether nothing is on the thread. -/
theorem Threads.list_empty (threads : Threads start lists addresses values) :
    listEmpty lists .listHead = .ok (decide (addresses = [])) := by
  have reads := read_accessible lists .listHead (threads.accessible _ List.mem_cons_self)
  rw [listEmpty, reads, ok_bind, pure_ok]
  have empty := threads.ring.next_head_iff
  rw [List.map_eq_nil_iff] at empty
  exact congrArg Except.ok (decide_eq_decide.mpr empty)

/-- An address that was never handed out is not on the thread. -/
theorem Threads.next_not_mem (threads : Threads start lists addresses values) :
    lists.heap.next ∉ addresses := by
  intro member
  obtain ⟨object, present⟩ := threads.live _ member
  exact Nat.lt_irrefl _ (lists.heap.lt_next _ object present)

/-- The lists with a new object at the next address, not yet linked. -/
def ListHeap.grown (lists : ListHeap α) (object : Linked α) : ListHeap α :=
  { lists with heap := lists.heap.extend object }

theorem grown_of_ne (lists : ListHeap α) (object : Linked α) (address : Nat)
    (other : address ≠ lists.heap.next) :
    (lists.grown object).heap.object address = lists.heap.object address :=
  Function.update_of_ne other _ _

/-- A new object leaves the links on the thread as they were. -/
theorem Threads.grown_links (threads : Threads start lists addresses values) (object : Linked α)
    (node : NodePtr) (member : node ∈ .listHead :: addresses.map .node) :
    (lists.grown object).links node = lists.links node := by
  rcases List.mem_cons.mp member with rfl | inner
  · rfl
  · obtain ⟨address, threaded, rfl⟩ := List.mem_map.mp inner
    have other : address ≠ lists.heap.next := fun same => threads.next_not_mem (same ▸ threaded)
    simp only [ListHeap.links, grown_of_ne lists object address other]

theorem Threads.grown_accessible (threads : Threads start lists addresses values)
    (object : Linked α) (node : NodePtr) (member : node ∈ .listHead :: addresses.map .node) :
    (lists.grown object).Accessible node := by
  rcases threads.accessible node member with rfl | ⟨address, old, rfl, live⟩
  · exact Or.inl rfl
  · exact Or.inr ⟨address, old, rfl, lists.heap.extend_live object address old live⟩

theorem Threads.grown_values (threads : Threads start lists addresses values)
    (object : Linked α) : addresses.map (lists.grown object).value = values.map some := by
  rw [← threads.values]
  apply List.map_congr_left
  intro address member
  have other : address ≠ lists.heap.next := fun same => threads.next_not_mem (same ▸ member)
  simp only [ListHeap.value, grown_of_ne lists object address other]

/-- A new object that is added comes first, and the rest of the thread is as it was. -/
theorem Threads.list_add (threads : Threads start lists addresses values) (object : Linked α) :
    ∃ after, listAdd (lists.grown object) (.node lists.heap.next) .listHead = .ok after ∧
      after.freed = lists.freed ∧
      Threads start after (lists.heap.next :: addresses) (object.value :: values) := by
  have isNew := threads.next_not_mem
  have present : (lists.grown object).heap.object lists.heap.next = some object :=
    lists.heap.extend_at_next object
  have ring : Ring (lists.grown object).links .listHead (addresses.map .node) :=
    threads.ring.congr (threads.grown_links object)
  obtain ⟨after, runs, edited⟩ := list_add_eq (lists.grown object) (.node lists.heap.next)
    .listHead (Or.inr ⟨_, object, rfl, present⟩) (Or.inl rfl)
    (threads.grown_accessible object _ ring.next_head_mem)
  refine ⟨after, runs, edited.freed, ?_, ?_, ?_, ?_⟩
  · rw [edited.links]
    apply ring.insert
    simpa using isNew
  · rw [edited.value, List.map_cons, List.map_cons, threads.grown_values object]
    simp only [ListHeap.value, present, Option.map_some]
  · intro address outside
    obtain ⟨notNew, notThreaded⟩ := not_or.mp (List.mem_cons.not.mp outside)
    rw [edited.object address, grown_of_ne lists object address notNew,
      threads.others address notThreaded]
    -- The insertion edits the links of the new node, the head and the node behind it.
    apply insert_of_ne
    · simpa using notNew
    · exact NodePtr.noConfusion
    · intro same
      have threaded := ring.next_head_mem
      rw [← same] at threaded
      exact notThreaded (by simpa using threaded)
  · intro address member
    rcases List.mem_cons.mp member with rfl | threaded
    · rw [← threads.others _ isNew]
      exact lists.heap.unused _ (Nat.le_refl _)
    · exact threads.fresh address threaded

/-- The first object on the thread: its node leads back to the head and on to what follows. -/
theorem Threads.first {first : Nat} {rest : List Nat} {value : α} {others : List α}
    (threads : Threads start lists (first :: rest) (value :: others)) :
    ∃ object, lists.heap.object first = some object ∧ object.value = value ∧
      lists.links (.node first) = object.list ∧ object.list.prev = .listHead ∧
      object.list.next ∈ .listHead :: rest.map .node := by
  obtain ⟨has, _⟩ := List.cons.inj threads.values
  obtain ⟨object, present, same⟩ := Option.map_eq_some_iff.mp has
  have links : lists.links (.node first) = object.list := by
    simp only [ListHeap.links, present, Option.elim_some]
  obtain ⟨prev, next⟩ := threads.ring.neighbours
  rw [links] at prev next
  exact ⟨object, present, same, links, prev, next⟩

theorem Threads.list_del_first {first : Nat} {rest : List Nat} {value : α} {others : List α}
    (threads : Threads start lists (first :: rest) (value :: others)) :
    ∃ after, listDel lists (.node first) = .ok after ∧
      Edited lists (setPrev (.node first) .poison2 ∘ setNext (.node first) .poison1 ∘
        unlink (.node first)) after := by
  obtain ⟨prev, next⟩ := threads.ring.neighbours
  apply list_del_eq
  · exact threads.accessible _ (List.mem_cons_of_mem _ List.mem_cons_self)
  · rw [prev]
    exact Or.inl rfl
  · rcases List.mem_cons.mp next with same | inRest
    · exact Or.inl same
    · exact threads.accessible _ (List.mem_cons_of_mem _ (List.mem_cons_of_mem _ inRest))

def ListHeap.without (lists : ListHeap α) (address : Nat) : ListHeap α :=
  { lists with heap := lists.heap.remove address, freed := lists.freed ++ [address] }

theorem without_of_ne (lists : ListHeap α) (address other : Nat) (apart : other ≠ address) :
    (lists.without address).heap.object other = lists.heap.object other :=
  Function.update_of_ne apart _ _

/-- `kfree` of a live object takes it out of the heap. -/
theorem kfree_accessible (lists : ListHeap α) (address : Nat)
    (live : lists.Accessible (.node address)) :
    lists.kfree (some address) = .ok (lists.without address) := by
  rcases live with isHead | ⟨own, object, same, present⟩
  · cases isHead
  · obtain rfl := NodePtr.node.inj same
    rw [ListHeap.kfree, lists.heap.free_live address object present]
    rfl

/-- Once the first object is unlinked, whatever its own links, it can be freed, and the thread
goes through the others. What edited its links has no part in this, so poison may be in them. -/
theorem Threads.free_first {first : Nat} {rest : List Nat} {value : α} {others : List α}
    (threads : Threads start lists (first :: rest) (value :: others)) {middle : ListHeap α}
    {edit : Links NodePtr → Links NodePtr} (edited : Edited lists edit middle)
    (unlinks : ∀ node, node ≠ .node first →
      edit lists.links node = unlink (.node first) lists.links node) :
    ∃ after, middle.kfree (some first) = .ok after ∧ after.freed = lists.freed ++ [first] ∧
      Threads start after rest others := by
  obtain ⟨firstOut, _⟩ := List.nodup_cons.mp threads.nodup
  obtain ⟨prev, next⟩ := threads.ring.neighbours
  have live : middle.Accessible (.node first) :=
    edited.accessible (threads.accessible _ (List.mem_cons_of_mem _ List.mem_cons_self))
  have apart (address : Nat) (member : address ∈ rest) : address ≠ first :=
    fun same => firstOut (same ▸ member)
  refine ⟨middle.without first, kfree_accessible middle first live,
    congrArg (· ++ [first]) edited.freed, ?_, ?_, ?_, ?_⟩
  · have ring : Ring (unlink (.node first) lists.links) .listHead ([] ++ rest.map .node) :=
      Ring.unlink lists.links .listHead threads.ring
    apply ring.congr
    intro node member
    rcases List.mem_cons.mp member with rfl | inner
    · rw [← unlinks .listHead NodePtr.noConfusion, ← edited.links]
      rfl
    · obtain ⟨address, threaded, rfl⟩ := List.mem_map.mp inner
      rw [← unlinks _ (by simpa using apart address threaded), ← edited.links]
      simp only [ListHeap.links, without_of_ne middle first address (apart address threaded)]
  · rw [← (List.cons.inj threads.values).2, ← edited.value]
    apply List.map_congr_left
    intro address member
    simp only [ListHeap.value, without_of_ne middle first address (apart address member)]
  · intro address outside
    by_cases own : address = first
    · rw [own, threads.fresh first List.mem_cons_self]
      exact Function.update_self _ _ _
    · have notThreaded : address ∉ first :: rest :=
        List.mem_cons.not.mpr (not_or.mpr ⟨own, outside⟩)
      rw [without_of_ne middle first address own, edited.object address,
        threads.others address notThreaded]
      rw [unlinks _ (by simpa using own)]
      -- Unlinking edits the links of the head and of the node behind the first.
      apply unlink_of_ne
      · rw [prev]
        exact NodePtr.noConfusion
      · intro same
        rw [← same] at next
        exact outside (by simpa using next)
  · intro address member
    exact threads.fresh address (List.mem_cons_of_mem first member)

end Threaded

section Loops

variable {lists : ListHeap α} (body : α → σ → Bool × σ)

/-- What a loop that the body may leave does with a list of values: it hands the state on from one
to the next, and stops at the value where the body leaves. -/
def scan : List α → σ → Option α × σ
  | [], state => (none, state)
  | value :: rest, state =>
      let (leaves, state) := body value state
      if leaves then (some value, state) else scan rest state

/-- On a path back to the head, `list_for_each` scans the values and ends, with fuel for one step
more than there are objects. -/
theorem for_each_path (addresses : List Nat) (values : List α) (start : NodePtr) (state : σ)
    (fuel : Nat) (enough : addresses.length < fuel)
    (path : Path lists.links start (addresses.map .node) .listHead)
    (has : addresses.map lists.value = values.map some) :
    ∃ found, listForEach lists body fuel (lists.links start).next state =
        pure (found, (scan body values state).2) ∧
      found.bind lists.value = (scan body values state).1 ∧
      ∀ address, found = some address → address ∈ addresses := by
  induction addresses generalizing values start state fuel with
  | nil =>
    obtain rfl : values = [] := List.map_eq_nil_iff.mp has.symm
    obtain ⟨next, _⟩ := (path_nil _ _ _).mp path
    obtain ⟨less, rfl⟩ := Nat.exists_eq_succ_of_ne_zero (Nat.ne_of_gt enough)
    refine ⟨none, ?_, rfl, by simp⟩
    rw [listForEach, next, if_pos rfl, scan]
  | cons address rest inductionHypothesis =>
    obtain ⟨less, rfl⟩ := Nat.exists_eq_succ_of_ne_zero (Nat.ne_zero_of_lt enough)
    cases values with
    | nil => cases has
    | cons value others =>
      obtain ⟨hasFirst, hasRest⟩ := List.cons.inj has
      obtain ⟨object, present, rfl⟩ := Option.map_eq_some_iff.mp hasFirst
      obtain ⟨⟨next, _⟩, pathRest⟩ := (path_cons _ _ _ _ _).mp path
      have links : (lists.links (.node address)).next = object.list.next := by
        simp only [ListHeap.links, present, Option.elim_some]
      rw [listForEach, next, if_neg NodePtr.noConfusion, scan]
      simp only [listEntry, lift_ok, pure_bind, lists.heap.deref_live address object present]
      split
      · refine ⟨some address, rfl, hasFirst, ?_⟩
        intro other same
        obtain rfl := Option.some.inj same
        exact List.mem_cons_self
      · obtain ⟨found, runs, contents, member⟩ := inductionHypothesis others (.node address)
          (body object.value state).2 less (Nat.lt_of_succ_lt_succ enough) pathRest hasRest
        rw [links] at runs
        exact ⟨found, runs, contents, fun other same =>
          List.mem_cons_of_mem address (member other same)⟩

end Loops

end ListHeads

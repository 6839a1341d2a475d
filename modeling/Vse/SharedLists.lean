import Vse.ListHeads
import Vse.Runs

/-!
# A list that is read while it grows

One writer adds objects to a circular list while any number of readers go through it. The
writer fills a new object and links it with the writes of `list_add`; a reader takes the steps
of `list_for_each`. Every access to the memory is one turn, and the turns come in any order.

Two assumptions are built in, as plain stores guarantee neither: the writer makes its stores in
the order in which the functions have them, the one to the head last, and memory is sequentially
consistent. Nobody waits for a reader.

The machine is compared with one whose operations are atomic. There an addition takes effect at
its last write, and a reader has its answer at its first turn: what the loop makes of the values
that are on the list then. From that turn on the reader may take two more turns for each of these
values and one at the end.
-/

namespace SharedLists

open Heaps Rings ListHeads Runs

variable {α σ : Type}

section Machine

/-- Where the writer is: outside of an addition; writing fields of the new object, and then
about to read which node is behind the head; before one of the four writes of `list_add`. -/
inductive Writer (α : Type) where
  | idle
  | filling (new : Nat) (changes : List (α → α))
  | setNextPrev (new : Nat) (next : NodePtr)
  | setNewNext (new : Nat) (next : NodePtr)
  | setNewPrev (new : Nat)
  | setHeadNext (new : Nat)

/-- Where a reader is: before its first read; at a node that is yet to be tested; past the body
for an object and before the read of its link; out of the loop. -/
inductive Reader (σ : Type) where
  | calling (state : σ)
  | testing (p : NodePtr) (state : σ)
  | passing (address : Nat) (state : σ)
  | done (found : Ptr) (state : σ)

/-- The memory, the writer and the readers. -/
structure Shared (α σ : Type) where
  lists : ListHeap α
  writer : Writer α
  reader : Nat → Reader σ

/-- Whose turn it is: an addition is called, with or without memory for it; the writer goes on;
a reader goes on. -/
inductive Turn (α : Type) where
  | add (granted : Bool) (changes : List (α → α))
  | write
  | look (reader : Nat)

def Turn.looks (reader : Nat) : Turn α → Bool
  | .look other => other = reader
  | _ => false

def Turn.writes : Turn α → Bool
  | .write => true
  | _ => false

def changeValue (lists : ListHeap α) (address : Nat) (change : α → α) :
    Except Fault (ListHeap α) := do
  let _ ← lists.heap.deref (some address)
  let heap := lists.heap.modify address fun object => { object with value := change object.value }
  return { lists with heap := heap }

variable (zero : α) (body : Nat → α → σ → Bool × σ)

/-- The call of an addition allocates the object. It fails where there is no memory. While
another addition is under way, the call has to wait. -/
def Shared.add (shared : Shared α σ) (granted : Bool) (changes : List (α → α)) : Shared α σ :=
  match shared.writer, granted with
  | .idle, true =>
      { shared with
        lists := shared.lists.grown ⟨zero, ⟨.null, .null⟩⟩
        writer := .filling shared.lists.heap.next changes }
  | _, _ => shared

/-- The next access of the writer. The four stores of `list_add` come in the order of its
source, so that the object is published last. -/
def Shared.write (shared : Shared α σ) : Except Fault (Shared α σ) :=
  match shared.writer with
  | .idle => .ok shared
  | .filling new (change :: changes) => do
      let lists ← changeValue shared.lists new change
      return { shared with lists := lists, writer := .filling new changes }
  | .filling new [] => do
      let head ← shared.lists.read .listHead
      return { shared with writer := .setNextPrev new head.next }
  | .setNextPrev new next => do
      let lists ← shared.lists.writePrev next (.node new)
      return { shared with lists := lists, writer := .setNewNext new next }
  | .setNewNext new next => do
      let lists ← shared.lists.writeNext (.node new) next
      return { shared with lists := lists, writer := .setNewPrev new }
  | .setNewPrev new => do
      let lists ← shared.lists.writePrev (.node new) .listHead
      return { shared with lists := lists, writer := .setHeadNext new }
  | .setHeadNext new => do
      let lists ← shared.lists.writeNext .listHead (.node new)
      return { shared with lists := lists, writer := .idle }

/-- The next access of one reader, and where it is then. A test and the read of the link behind it
are two accesses, between which others may come. -/
def Reader.next (lists : ListHeap α) (body : α → σ → Bool × σ) :
    Reader σ → Except Fault (Reader σ)
  | .calling state => do
      let head ← lists.read .listHead
      return .testing head.next state
  | .testing p state => do
      if p = .listHead then return .done none state
      let (address, object) ← lists.heap.deref (← listEntry p)
      let (leaves, state) := body object.value state
      return if leaves then .done (some address) state else .passing address state
  | .passing address state => do
      let links ← lists.read (.node address)
      return .testing links.next state
  | .done found state => .ok (.done found state)

/-- One turn. -/
def Shared.step (shared : Shared α σ) : Turn α → Except Fault (Shared α σ)
  | .add granted changes => .ok (shared.add zero granted changes)
  | .write => shared.write
  | .look reader => do
      let place ← (shared.reader reader).next shared.lists (body reader)
      return { shared with reader := Function.update shared.reader reader place }

end Machine

section Specification

/-- What a reader is going to return, and the turns it may still take. -/
structure Answer (α σ : Type) where
  result : Option α × σ
  left : Nat

/-- The values on the list; the value that is being added, with the number of the writer's
accesses that are still to come. -/
structure Growing (α : Type) where
  values : List α
  pending : Option (α × Nat)

/-- What is on the list, and the answers of the readers that had their first turn. -/
structure Atomic (α σ : Type) where
  growing : Growing α
  answer : Nat → Option (Answer α σ)

variable (zero : α) (body : Nat → α → σ → Bool × σ) (start : Nat → σ)

/-- A call is admitted when no other addition is under way. -/
def Growing.add (growing : Growing α) (granted : Bool) (changes : List (α → α)) : Growing α :=
  match growing.pending, granted with
  | none, true =>
      let value := changes.foldl (fun value change => change value) zero
      { growing with pending := some (value, changes.length + 5) }
  | _, _ => growing

/-- The addition takes effect at the writer's last access, which publishes the object. -/
def Growing.write (growing : Growing α) : Growing α :=
  match growing.pending with
  | none => growing
  | some (value, left) =>
      if left ≤ 1 then ⟨value :: growing.values, none⟩
      else { growing with pending := some (value, left - 1) }

def Growing.step (growing : Growing α) : Turn α → Growing α
  | .add granted changes => growing.add zero granted changes
  | .write => growing.write
  | .look _ => growing

/-- A reader has its answer at its first turn, from what is on the list then: later additions come
in front of where it reads. -/
def Atomic.look (atomic : Atomic α σ) (reader : Nat) : Answer α σ :=
  match atomic.answer reader with
  | none =>
      let values := atomic.growing.values
      ⟨scan (body reader) values (start reader), 2 * values.length + 1⟩
  | some answer => { answer with left := answer.left - 1 }

/-- One turn of the atomic machine: the list grows as the writer's turns say, and a reader that
has an answer uses up one of its turns. -/
def Atomic.step (atomic : Atomic α σ) (turn : Turn α) : Atomic α σ where
  growing := atomic.growing.step zero turn
  answer :=
    match turn with
    | .look reader => Function.update atomic.answer reader (some (atomic.look body start reader))
    | _ => atomic.answer

variable {zero body start}

/-- The list grows whatever the readers do, so it can be followed without them. -/
theorem growing_eq (turns : List (Turn α)) (atomic : Atomic α σ) :
    (run (Atomic.step zero body start) atomic turns).growing =
      run (Growing.step zero) atomic.growing turns := by
  have abstracts := run_abstracts (Atomic.step zero body start) (Growing.step zero)
    Atomic.growing id (fun _ _ => rfl) atomic turns
  rwa [List.map_id] at abstracts

/-- A turn during an addition leaves the values as they are, or completes the addition. -/
theorem pending_step (turn : Turn α) (growing : Growing α) (value : α) (left : Nat)
    (pending : growing.pending = some (value, left)) :
    (∃ left, growing.step zero turn = ⟨growing.values, some (value, left)⟩) ∨
      growing.step zero turn = ⟨value :: growing.values, none⟩ := by
  have same : growing = ⟨growing.values, some (value, left)⟩ :=
    congrArg (Growing.mk growing.values) pending
  cases turn with
  | add granted changes =>
    refine Or.inl ⟨left, ?_⟩
    rw [Growing.step, Growing.add.eq_def, pending]
    exact same
  | write =>
    by_cases last : left ≤ 1
    · right
      rw [Growing.step, Growing.write, pending]
      exact if_pos last
    · refine Or.inl ⟨left - 1, ?_⟩
      rw [Growing.step, Growing.write, pending]
      exact if_neg last
  | look reader => exact Or.inl ⟨left, same⟩

/-- As long as the addition is under way the values stay as they are. -/
theorem pending_run (turns : List (Turn α)) (growing : Growing α) (value : α) (left : Nat)
    (pending : growing.pending = some (value, left))
    (underWay : ∀ early, early <+: turns →
      (run (Growing.step zero) growing early).pending ≠ none) :
    ∃ left, run (Growing.step zero) growing turns = ⟨growing.values, some (value, left)⟩ := by
  induction turns generalizing growing left with
  | nil => exact ⟨left, congrArg (Growing.mk growing.values) pending⟩
  | cons turn turns inductionHypothesis =>
    rw [run_cons]
    rcases pending_step turn growing value left pending with ⟨fewer, goesOn⟩ | completes
    · have later := inductionHypothesis (growing.step zero turn) fewer (by rw [goesOn]) (by
        intro early prefixed
        exact underWay (turn :: early) (List.cons_prefix_cons.mpr ⟨rfl, prefixed⟩))
      rw [goesOn] at later ⊢
      exact later
    · have first := underWay [turn] (List.cons_prefix_cons.mpr ⟨rfl, List.nil_prefix⟩)
      rw [run_cons, run_nil, completes] at first
      exact absurd rfl first

theorem look_answer (atomic : Atomic α σ) (reader : Nat) :
    (atomic.step zero body start (.look reader)).answer reader =
      some (atomic.look body start reader) :=
  Function.update_self _ _ _

theorem look_answer_of_ne (atomic : Atomic α σ) (reader other : Nat) (apart : reader ≠ other) :
    (atomic.step zero body start (.look other)).answer reader = atomic.answer reader :=
  Function.update_of_ne apart _ _

end Specification

section Writing

variable {lists after : ListHeap α} {zero : α} {body : Nat → α → σ → Bool × σ}

def Writer.adds : Writer α → Option Nat
  | .idle => none
  | .filling new _ | .setNextPrev new _ | .setNewNext new _ | .setNewPrev new
  | .setHeadNext new => some new

/-- The accesses that are still to come. -/
def Writer.left : Writer α → Nat
  | .idle => 0
  | .filling _ changes => changes.length + 5
  | .setNextPrev _ _ => 4
  | .setNewNext _ _ => 3
  | .setNewPrev _ => 2
  | .setHeadNext _ => 1

/-- All accesses of the writer that are still to come, made at once. -/
def Writer.finish : Writer α → ListHeap α → Except Fault (ListHeap α)
  | .idle, lists => .ok lists
  | .filling new changes, lists => do
      let lists ← changes.foldlM (fun lists change => changeValue lists new change) lists
      listAdd lists (.node new) .listHead
  | .setNextPrev new next, lists => do
      let lists ← lists.writePrev next (.node new)
      let lists ← lists.writeNext (.node new) next
      let lists ← lists.writePrev (.node new) .listHead
      lists.writeNext .listHead (.node new)
  | .setNewNext new next, lists => do
      let lists ← lists.writeNext (.node new) next
      let lists ← lists.writePrev (.node new) .listHead
      lists.writeNext .listHead (.node new)
  | .setNewPrev new, lists => do
      let lists ← lists.writePrev (.node new) .listHead
      lists.writeNext .listHead (.node new)
  | .setHeadNext new, lists => lists.writeNext .listHead (.node new)

/-- What a write of the writer leaves alone: the values of all objects but the new one, and their
links to the next. Readers see nothing else, so this is what keeps them on their way. -/
structure Kept (lists : ListHeap α) (new : Nat) (after : ListHeap α) : Prop where
  value : ∀ address, address ≠ new → after.value address = lists.value address
  next : ∀ address, address ≠ new →
    (after.links (.node address)).next = (lists.links (.node address)).next

theorem kept_refl (lists : ListHeap α) (new : Nat) : Kept lists new lists :=
  ⟨fun _ _ => rfl, fun _ _ => rfl⟩

theorem change_value_kept (new : Nat) (change : α → α)
    (runs : changeValue lists new change = .ok after) :
    Kept lists new after ∧ (after.links .listHead).next = (lists.links .listHead).next := by
  obtain ⟨_, _, same⟩ := bind_eq_ok.mp runs
  obtain rfl := Except.ok.inj same
  have elsewhere (address : Nat) (other : address ≠ new) :=
    lists.heap.modify_of_ne new address
      (fun object => { object with value := change object.value }) other
  constructor
  · constructor
    · intro address other
      simp only [ListHeap.value, elsewhere address other]
    · intro address other
      simp only [ListHeap.links, elsewhere address other]
  · rfl

/-- Writing a link to the previous node is seen by no reader. -/
theorem write_prev_kept (new : Nat) (node value : NodePtr)
    (runs : lists.writePrev node value = .ok after) :
    Kept lists new after ∧ (after.links .listHead).next = (lists.links .listHead).next := by
  have edited : Edited lists (setPrev node value) after := edited_of_change lists _ node after runs
  have next (other : NodePtr) : (after.links other).next = (lists.links other).next := by
    rw [edited.links, set_prev_next]
  exact ⟨⟨fun address _ => congrFun edited.value address, fun address _ => next _⟩, next _⟩

/-- Writing the new object's link to the next, or that of the head. -/
theorem write_next_kept (new : Nat) (node value : NodePtr)
    (isNew : node = .node new ∨ node = .listHead)
    (runs : lists.writeNext node value = .ok after) :
    Kept lists new after ∧
      (node ≠ .listHead → (after.links .listHead).next = (lists.links .listHead).next) := by
  have edited : Edited lists (setNext node value) after := edited_of_change lists _ node after runs
  have next (other : NodePtr) (apart : other ≠ node) :
      (after.links other).next = (lists.links other).next := by
    rw [edited.links, set_next_next, if_neg apart]
  constructor
  · constructor
    · intro address _
      exact congrFun edited.value address
    · intro address other
      apply next
      rcases isNew with rfl | rfl
      · simpa using other
      · exact NodePtr.noConfusion
  · intro notHead
    exact next _ (Ne.symm notHead)

/-- One access of a writer that can finish: it succeeds, the rest still leads to the same memory,
and the head's link is written only by the last. -/
structure Written (shared after : Shared α σ) (new : Nat) (last : ListHeap α) : Prop where
  reader : after.reader = shared.reader
  finish : after.writer.finish after.lists = .ok last
  left : after.writer.left + 1 = shared.writer.left
  kept : Kept shared.lists new after.lists
  place : after.writer = .idle ∨ after.writer.adds = some new ∧ 0 < after.writer.left ∧
    (after.lists.links .listHead).next = (shared.lists.links .listHead).next

/-- A writer that can finish takes its next access: it does not fail, and can still finish as
before. -/
theorem write_busy (shared : Shared α σ) (new : Nat) (last : ListHeap α)
    (adds : shared.writer.adds = some new)
    (finish : shared.writer.finish shared.lists = .ok last) :
    ∃ after, shared.write = .ok after ∧ Written shared after new last := by
  obtain ⟨lists, writer, reader⟩ := shared
  cases writer with
  | idle => cases adds
  | filling own changes =>
    obtain rfl := Option.some.inj adds
    cases changes with
    | nil =>
      -- The read of `head->next` that `list_add` starts with.
      refine ⟨_, rfl, rfl, finish, rfl, kept_refl lists own, Or.inr ⟨rfl, ?_, rfl⟩⟩
      exact Nat.succ_pos 3
    | cons change changes =>
      rw [Writer.finish, List.foldlM_cons, bind_assoc] at finish
      obtain ⟨middle, runs, rest⟩ := bind_eq_ok.mp finish
      obtain ⟨kept, head⟩ := change_value_kept own change runs
      refine ⟨⟨middle, .filling own changes, reader⟩, ?_, rfl, rest, rfl, kept,
        Or.inr ⟨rfl, Nat.succ_pos _, head⟩⟩
      simp only [Shared.write, runs, ok_bind, pure_ok]
  | setNextPrev own next =>
    obtain rfl := Option.some.inj adds
    obtain ⟨middle, runs, rest⟩ := bind_eq_ok.mp finish
    obtain ⟨kept, head⟩ := write_prev_kept own next (.node own) runs
    refine ⟨⟨middle, .setNewNext own next, reader⟩, ?_, rfl, rest, rfl, kept,
      Or.inr ⟨rfl, Nat.succ_pos _, head⟩⟩
    simp only [Shared.write, runs, ok_bind, pure_ok]
  | setNewNext own next =>
    obtain rfl := Option.some.inj adds
    obtain ⟨middle, runs, rest⟩ := bind_eq_ok.mp finish
    obtain ⟨kept, head⟩ := write_next_kept own (.node own) next (Or.inl rfl) runs
    refine ⟨⟨middle, .setNewPrev own, reader⟩, ?_, rfl, rest, rfl, kept,
      Or.inr ⟨rfl, Nat.succ_pos _, head NodePtr.noConfusion⟩⟩
    simp only [Shared.write, runs, ok_bind, pure_ok]
  | setNewPrev own =>
    obtain rfl := Option.some.inj adds
    obtain ⟨middle, runs, rest⟩ := bind_eq_ok.mp finish
    obtain ⟨kept, head⟩ := write_prev_kept own (.node own) .listHead runs
    refine ⟨⟨middle, .setHeadNext own, reader⟩, ?_, rfl, rest, rfl, kept,
      Or.inr ⟨rfl, Nat.succ_pos _, head⟩⟩
    simp only [Shared.write, runs, ok_bind, pure_ok]
  | setHeadNext own =>
    obtain rfl := Option.some.inj adds
    obtain ⟨kept, _⟩ := write_next_kept own .listHead (.node own) (Or.inr rfl) finish
    refine ⟨⟨last, .idle, reader⟩, ?_, rfl, rfl, rfl, kept, Or.inl rfl⟩
    have runs : lists.writeNext .listHead (.node own) = .ok last := finish
    simp only [Shared.write, runs, ok_bind, pure_ok]

/-- The changes of a new object change nothing but its value. -/
theorem changes_grown (lists : ListHeap α) (changes : List (α → α)) (object : Linked α) :
    changes.foldlM (fun lists' change => changeValue lists' lists.heap.next change)
        (lists.grown object) =
      .ok (lists.grown { object with
        value := changes.foldl (fun value change => change value) object.value }) := by
  induction changes generalizing object with
  | nil => rfl
  | cons change changes inductionHypothesis =>
    have present : (lists.grown object).heap.object lists.heap.next = some object :=
      lists.heap.extend_at_next object
    have first : changeValue (lists.grown object) lists.heap.next change =
        .ok (lists.grown { object with value := change object.value }) := by
      rw [changeValue, (lists.grown object).heap.deref_live _ object present]
      simp only [ok_bind, pure_ok, ListHeap.grown, Heap.modify_extend]
    rw [List.foldlM_cons, first, ok_bind, inductionHypothesis, List.foldl_cons]

/-- From a call on, an addition can finish, and puts the new object in front. -/
theorem add_finishes {origin : Heap (Linked α)} {addresses : List Nat} {values : List α}
    (threads : Threads origin lists addresses values) (zero : α) (changes : List (α → α)) :
    ∃ last, (Writer.filling lists.heap.next changes).finish
        (lists.grown ⟨zero, ⟨.null, .null⟩⟩) = .ok last ∧
      Threads origin last (lists.heap.next :: addresses)
        (changes.foldl (fun value change => change value) zero :: values) := by
  obtain ⟨last, runs, _, threaded⟩ := threads.list_add
    ⟨changes.foldl (fun value change => change value) zero, ⟨.null, .null⟩⟩
  refine ⟨last, ?_, threaded⟩
  rw [Writer.finish, changes_grown, ok_bind]
  exact runs

end Writing

section Reading

/-- From the node on, the links to the next lead through the objects at the addresses, which have
the values, to the head. The links back have no part in it, as readers do not follow them. -/
inductive Leads (lists : ListHeap α) : NodePtr → List Nat → List α → Prop
  | stop : Leads lists .listHead [] []
  | object {address : Nat} {addresses : List Nat} {value : α} {values : List α}
      (has : lists.value address = some value)
      (onward : Leads lists (lists.links (.node address)).next addresses values) :
      Leads lists (.node address) (address :: addresses) (value :: values)

/-- How a reader stands to its answer. Before its first turn it has none. In the loop, what is in
front of it leads to the answer. Past the loop, it has found it. -/
inductive Follows (lists : ListHeap α) (addresses : List Nat) (body : α → σ → Bool × σ)
    (start : σ) : Reader σ → Option (Answer α σ) → Prop
  | calling : Follows lists addresses body start (.calling start) none
  | testing {p : NodePtr} {state : σ} {rest : List Nat} {values : List α} {left : Nat}
      (leads : Leads lists p rest values) (listed : rest ⊆ addresses)
      (enough : 2 * rest.length + 1 ≤ left) :
      Follows lists addresses body start (.testing p state) (some ⟨scan body values state, left⟩)
  | passing {address : Nat} {state : σ} {rest : List Nat} {values : List α} {left : Nat}
      (leads : Leads lists (lists.links (.node address)).next rest values)
      (listed : address :: rest ⊆ addresses) (enough : 2 * rest.length + 2 ≤ left) :
      Follows lists addresses body start (.passing address state)
        (some ⟨scan body values state, left⟩)
  | done {found : Ptr} {state : σ} {left : Nat}
      (listed : ∀ address, found = some address → address ∈ addresses) :
      Follows lists addresses body start (.done found state)
        (some ⟨(found.bind lists.value, state), left⟩)

variable {lists after : ListHeap α} {addresses : List Nat} {values : List α} {new : Nat}

/-- The ring of a list leads through it. -/
theorem leads_of_path (addresses : List Nat) (values : List α) (first : NodePtr)
    (path : Path lists.links first (addresses.map .node) .listHead)
    (has : addresses.map lists.value = values.map some) :
    Leads lists (lists.links first).next addresses values := by
  induction addresses generalizing first values with
  | nil =>
    obtain rfl : values = [] := List.map_eq_nil_iff.mp has.symm
    obtain ⟨next, _⟩ := (path_nil _ _ _).mp path
    rw [next]
    exact Leads.stop
  | cons address rest inductionHypothesis =>
    cases values with
    | nil => cases has
    | cons value others =>
      obtain ⟨hasFirst, hasRest⟩ := List.cons.inj has
      obtain ⟨⟨next, _⟩, pathRest⟩ := (path_cons _ _ _ _ _).mp path
      rw [next]
      exact Leads.object hasFirst (inductionHypothesis others _ pathRest hasRest)

theorem Leads.length {p : NodePtr} (leads : Leads lists p addresses values) :
    addresses.length = values.length := by
  induction leads with
  | stop => rfl
  | object has onward inductionHypothesis => exact congrArg (· + 1) inductionHypothesis

/-- The values are those that the links lead to. -/
theorem Leads.unique {p : NodePtr} {others : List Nat} {otherValues : List α}
    (leads : Leads lists p addresses values) (again : Leads lists p others otherValues) :
    values = otherValues := by
  induction leads generalizing others otherValues with
  | stop =>
    cases again
    rfl
  | object has onward inductionHypothesis =>
    cases again with
    | object hasToo onwardToo =>
      rw [inductionHypothesis onwardToo, Option.some.inj (has.symm.trans hasToo)]

theorem Leads.accessible {p : NodePtr} (leads : Leads lists p addresses values) (address : Nat)
    (member : address ∈ addresses) : lists.Accessible (.node address) := by
  induction leads with
  | stop => cases member
  | object has onward inductionHypothesis =>
    rcases List.mem_cons.mp member with rfl | later
    · exact (accessible_iff _).mpr (Or.inr ⟨_, _, rfl, has⟩)
    · exact inductionHypothesis later

/-- What leaves the objects on the way alone leaves the way alone. -/
theorem Leads.kept {p : NodePtr} (leads : Leads lists p addresses values)
    (kept : Kept lists new after) (apart : new ∉ addresses) : Leads after p addresses values := by
  induction leads with
  | stop => exact Leads.stop
  | @object address rest value others has onward inductionHypothesis =>
    obtain ⟨notFirst, notRest⟩ := not_or.mp (List.mem_cons.not.mp apart)
    apply Leads.object
    · rw [kept.value address (Ne.symm notFirst), has]
    · rw [kept.next address (Ne.symm notFirst)]
      exact inductionHypothesis notRest

/-- A write leaves the readers where they are, and more objects may come onto the list, in front
of where they read. -/
theorem Follows.kept {body : α → σ → Bool × σ} {start : σ} {reader : Reader σ}
    {answer : Option (Answer α σ)} (follows : Follows lists addresses body start reader answer)
    (kept : Kept lists new after) (apart : new ∉ addresses) (more : List Nat)
    (grows : addresses ⊆ more) : Follows after more body start reader answer := by
  cases follows with
  | calling => exact Follows.calling
  | testing leads listed enough =>
    have notHere : new ∉ _ := fun member => apart (listed member)
    exact Follows.testing (leads.kept kept notHere) (List.Subset.trans listed grows) enough
  | @passing address _ rest _ _ leads listed enough =>
    have notHere : new ∉ address :: rest := fun member => apart (listed member)
    obtain ⟨notFirst, notRest⟩ := not_or.mp (List.mem_cons.not.mp notHere)
    apply Follows.passing _ (List.Subset.trans listed grows) enough
    rw [kept.next address (Ne.symm notFirst)]
    exact leads.kept kept notRest
  | @done found state left listed =>
    have same : found.bind after.value = found.bind lists.value := by
      cases found with
      | none => rfl
      | some address =>
        have notNew : address ≠ new := fun same => apart (same ▸ listed address rfl)
        exact kept.value address notNew
    rw [← same]
    exact Follows.done fun address leads => grows (listed address leads)

/-- A reader takes its next access, and still stands to its answer. -/
theorem reader_next (body : Nat → α → σ → Bool × σ) (start : Nat → σ) (index : Nat)
    (reader : Reader σ) (atomic : Atomic α σ)
    (leads : Leads lists (lists.links .listHead).next addresses atomic.growing.values)
    (follows : Follows lists addresses (body index) (start index) reader (atomic.answer index)) :
    ∃ place, reader.next lists (body index) = .ok place ∧
      Follows lists addresses (body index) (start index) place
        (some (atomic.look body start index)) := by
  generalize asked : atomic.answer index = answer at follows
  cases follows with
  | calling =>
    refine ⟨.testing (lists.links .listHead).next (start index), rfl, ?_⟩
    rw [Atomic.look, asked]
    apply Follows.testing leads (List.Subset.refl addresses)
    rw [leads.length]
  | @testing p state rest values left way listed enough =>
    rw [Atomic.look, asked]
    cases way with
    | stop => exact ⟨.done none state, rfl, Follows.done nofun⟩
    | @object address rest value others has onward =>
      obtain ⟨object, present, rfl⟩ := Option.map_eq_some_iff.mp has
      have fewer : 2 * rest.length + 2 ≤ left - 1 := by
        rw [List.length_cons] at enough
        omega
      have runs : (Reader.testing (.node address) state).next lists (body index) =
          .ok (if (body index object.value state).1
            then .done (some address) (body index object.value state).2
            else .passing address (body index object.value state).2) := by
        simp only [Reader.next, reduceCtorEq, ↓reduceIte, listEntry, ok_bind,
          lists.heap.deref_live address object present, pure_ok]
      refine ⟨_, runs, ?_⟩
      by_cases leaves : (body index object.value state).1 = true
      · have scanned : scan (body index) (object.value :: others) state =
            ((some address).bind lists.value, (body index object.value state).2) := by
          rw [scan, Option.bind_some, has]
          exact if_pos leaves
        rw [if_pos leaves, scanned]
        apply Follows.done
        intro other same
        obtain rfl := Option.some.inj same
        exact listed List.mem_cons_self
      · have scanned : scan (body index) (object.value :: others) state =
            scan (body index) others (body index object.value state).2 := by
          rw [scan]
          exact if_neg leaves
        rw [if_neg leaves, scanned]
        exact Follows.passing onward listed fewer
  | @passing address state rest values left way listed enough =>
    rw [Atomic.look, asked]
    have accessible := leads.accessible address (listed List.mem_cons_self)
    refine ⟨.testing (lists.links (.node address)).next state, ?_, ?_⟩
    · rw [Reader.next, read_accessible lists (.node address) accessible]
      rfl
    · have fewer : 2 * rest.length + 1 ≤ left - 1 := by omega
      exact Follows.testing way (List.subset_of_cons_subset listed) fewer
  | @done found state left listed =>
    rw [Atomic.look, asked]
    exact ⟨.done found state, rfl, Follows.done listed⟩

end Reading

section Agreement

variable (origin : Heap (Linked α)) (zero : α) (body : Nat → α → σ → Bool × σ) (start : Nat → σ)

/-- How the writer stands to the pending addition. Outside of one the list is whole. During one
the accesses that are still to come make it whole again, with the new object in front: this is the
invariant that replaces the ring while it is open. -/
inductive Writes (lists : ListHeap α) (addresses : List Nat) (values : List α) :
    Writer α → Option (α × Nat) → Prop
  | idle (threads : Threads origin lists addresses values) :
      Writes lists addresses values .idle none
  | busy {writer : Writer α} {new : Nat} {value : α} {last : ListHeap α}
      (adds : writer.adds = some new) (toCome : 0 < writer.left)
      (finish : writer.finish lists = .ok last)
      (threads : Threads origin last (new :: addresses) (value :: values)) :
      Writes lists addresses values writer (some (value, writer.left))

/-- The two machines agree: the way from the head leads through the values, and writer and readers
stand to the pending addition and the answers. -/
structure Agrees (shared : Shared α σ) (atomic : Atomic α σ) (addresses : List Nat) : Prop where
  leads : Leads shared.lists (shared.lists.links .listHead).next addresses atomic.growing.values
  writer : Writes origin shared.lists addresses atomic.growing.values shared.writer
    atomic.growing.pending
  readers : ∀ reader, Follows shared.lists addresses (body reader) (start reader)
    (shared.reader reader) (atomic.answer reader)

variable {origin zero body start} {shared : Shared α σ} {atomic : Atomic α σ}
  {addresses : List Nat}

theorem grown_kept (lists : ListHeap α) (object : Linked α) :
    Kept lists lists.heap.next (lists.grown object) := by
  constructor
  · intro address other
    simp only [ListHeap.value, grown_of_ne lists object address other]
  · intro address other
    simp only [ListHeap.links, grown_of_ne lists object address other]

/-- The machines agree after a call, whether it is admitted, refused for want of memory or has to
wait. -/
theorem Agrees.add (agrees : Agrees origin body start shared atomic addresses) (granted : Bool)
    (changes : List (α → α)) :
    Agrees origin body start (shared.add zero granted changes)
      { atomic with growing := atomic.growing.add zero granted changes } addresses := by
  obtain ⟨lists, writer, reader⟩ := shared
  obtain ⟨⟨values, pending⟩, answer⟩ := atomic
  obtain ⟨leads, writes, readers⟩ := agrees
  cases writes with
  | busy adds toCome finish threads =>
    have waits : Shared.add zero ⟨lists, writer, reader⟩ granted changes =
        ⟨lists, writer, reader⟩ := by
      cases writer with
      | idle => cases adds
      | filling | setNextPrev | setNewNext | setNewPrev | setHeadNext => rfl
    rw [waits]
    exact ⟨leads, Writes.busy adds toCome finish threads, readers⟩
  | idle threads =>
    cases granted with
    | false => exact ⟨leads, Writes.idle threads, readers⟩
    | true =>
      have kept := grown_kept lists ⟨zero, ⟨.null, .null⟩⟩
      have apart := threads.next_not_mem
      obtain ⟨last, finish, threaded⟩ := add_finishes threads zero changes
      refine ⟨leads.kept kept apart, Writes.busy rfl (Nat.succ_pos _) finish threaded, ?_⟩
      intro index
      exact (readers index).kept kept apart addresses (List.Subset.refl addresses)

/-- They agree after an access of the writer, which succeeds. -/
theorem Agrees.write (agrees : Agrees origin body start shared atomic addresses) :
    ∃ after grown, shared.write = .ok after ∧
      Agrees origin body start after { atomic with growing := atomic.growing.write } grown := by
  obtain ⟨⟨values, pending⟩, answer⟩ := atomic
  obtain ⟨leads, writes, readers⟩ := agrees
  generalize place : shared.writer = writer at writes
  cases writes with
  | idle threads =>
    have waits : shared.write = .ok shared := by
      rw [Shared.write, place]
    refine ⟨shared, addresses, waits, leads, ?_, readers⟩
    rw [place]
    exact Writes.idle threads
  | @busy writer new value last adds toCome finish threads =>
    subst place
    obtain ⟨after, runs, written⟩ := write_busy shared new last adds finish
    have apart : new ∉ addresses := (List.nodup_cons.mp threads.nodup).1
    have left := written.left
    rcases written.place with idle | ⟨addsStill, toComeStill, head⟩
    · -- The last access: the object is on the list.
      refine ⟨after, new :: addresses, runs, ?_⟩
      have ended : after.writer.left = 0 := congrArg Writer.left idle
      have published : Growing.write ⟨values, some (value, shared.writer.left)⟩ =
          ⟨value :: values, none⟩ := by
        rw [Growing.write]
        exact if_pos (by omega)
      have lists : after.lists = last := by
        have same := written.finish
        rw [idle] at same
        exact Except.ok.inj same
      rw [published]
      refine ⟨?_, ?_, ?_⟩
      · rw [lists]
        exact leads_of_path _ _ _ threads.ring.path threads.values
      · rw [idle, lists]
        exact Writes.idle threads
      · intro index
        rw [written.reader]
        exact (readers index).kept written.kept apart _ (List.subset_cons_self new addresses)
    · refine ⟨after, addresses, runs, ?_⟩
      have goesOn : Growing.write ⟨values, some (value, shared.writer.left)⟩ =
          ⟨values, some (value, after.writer.left)⟩ := by
        rw [Growing.write, ← left]
        exact if_neg (by omega)
      rw [goesOn]
      refine ⟨?_, Writes.busy addsStill toComeStill written.finish threads, ?_⟩
      · rw [head]
        exact leads.kept written.kept apart
      · intro index
        rw [written.reader]
        exact (readers index).kept written.kept apart _ (List.Subset.refl addresses)

/-- They agree after an access of a reader, which succeeds. -/
theorem Agrees.look (agrees : Agrees origin body start shared atomic addresses) (reader : Nat) :
    ∃ after, shared.step zero body (.look reader) = .ok after ∧
      Agrees origin body start after (atomic.step zero body start (.look reader)) addresses := by
  obtain ⟨place, runs, follows⟩ := reader_next body start reader (shared.reader reader) atomic
    agrees.leads (agrees.readers reader)
  refine ⟨{ shared with reader := Function.update shared.reader reader place }, ?_,
    agrees.leads, agrees.writer, ?_⟩
  · simp only [Shared.step, runs, ok_bind, pure_ok]
  · intro other
    by_cases own : other = reader
    · subst own
      simp only [Atomic.step, Function.update_self]
      exact follows
    · simp only [Atomic.step, Function.update_of_ne own]
      exact agrees.readers other

/-- Every turn succeeds, and the machines agree after it. -/
theorem Agrees.step (agrees : Agrees origin body start shared atomic addresses) (turn : Turn α) :
    ∃ after grown, shared.step zero body turn = .ok after ∧
      Agrees origin body start after (atomic.step zero body start turn) grown := by
  cases turn with
  | add granted changes => exact ⟨_, addresses, rfl, agrees.add granted changes⟩
  | write => exact agrees.write
  | look reader =>
    obtain ⟨after, runs, agreesAfter⟩ := agrees.look reader
    exact ⟨after, addresses, runs, agreesAfter⟩

end Agreement

section Answers

variable (zero : α) (body : Nat → α → σ → Bool × σ) (start : Nat → σ) (reader : Nat)

/-- Once a reader has its answer it keeps it, and each of its turns uses up one of those left. So a
reader ends after two turns for each object that the list had when it began, and one more. -/
theorem answer_kept (turns : List (Turn α)) (atomic : Atomic α σ) (answer : Answer α σ)
    (has : atomic.answer reader = some answer) :
    (run (Atomic.step zero body start) atomic turns).answer reader =
      some ⟨answer.result, answer.left - turns.countP (Turn.looks reader)⟩ := by
  induction turns generalizing atomic answer with
  | nil => exact has
  | cons turn turns inductionHypothesis =>
    rw [run_cons]
    cases turn with
    | add => exact inductionHypothesis _ answer has
    | write => exact inductionHypothesis _ answer has
    | look other =>
      by_cases own : other = reader
      · subst own
        have counted : List.countP (Turn.looks other) (.look other :: turns) =
            turns.countP (Turn.looks other) + 1 :=
          List.countP_cons_of_pos (decide_eq_true rfl)
        rw [inductionHypothesis _ ⟨answer.result, answer.left - 1⟩, counted, Nat.sub_sub,
          Nat.add_comm 1]
        rw [look_answer, Atomic.look, has]
      · have counted : List.countP (Turn.looks reader) (.look other :: turns) =
            turns.countP (Turn.looks reader) :=
          List.countP_cons_of_neg (by simp [Turn.looks, own])
        rw [inductionHypothesis _ answer, counted]
        rw [look_answer_of_ne atomic reader other (Ne.symm own), has]

theorem answer_none (turns : List (Turn α)) (atomic : Atomic α σ)
    (has : atomic.answer reader = none) (passed : ∀ turn ∈ turns, Turn.looks reader turn = false) :
    (run (Atomic.step zero body start) atomic turns).answer reader = none := by
  induction turns generalizing atomic with
  | nil => exact has
  | cons turn turns inductionHypothesis =>
    obtain ⟨here, later⟩ := List.forall_mem_cons.mp passed
    apply inductionHypothesis _ _ later
    cases turn with
    | add => exact has
    | write => exact has
    | look other =>
      have apart : reader ≠ other := Ne.symm (of_decide_eq_false here)
      rw [look_answer_of_ne atomic reader other apart, has]

/-- The answer is that of the first turn, whatever the list holds afterwards. -/
theorem answer_eq (before after : List (Turn α)) (atomic : Atomic α σ)
    (has : atomic.answer reader = none)
    (passed : ∀ turn ∈ before, Turn.looks reader turn = false) :
    let values := (run (Atomic.step zero body start) atomic before).growing.values
    (run (Atomic.step zero body start) atomic (before ++ .look reader :: after)).answer reader =
      some ⟨scan (body reader) values (start reader),
        2 * values.length + 1 - after.countP (Turn.looks reader)⟩ := by
  intro values
  rw [run_append, run_cons]
  apply answer_kept _ _ _ _ _ _ ⟨scan (body reader) values (start reader), 2 * values.length + 1⟩
  rw [look_answer, Atomic.look, answer_none zero body start reader before atomic has passed]

/-- A reader with an answer had a first turn. -/
theorem first_turn (turns : List (Turn α)) (atomic : Atomic α σ) (answer : Answer α σ)
    (had : atomic.answer reader = none)
    (has : (run (Atomic.step zero body start) atomic turns).answer reader = some answer) :
    ∃ before after, turns = before ++ .look reader :: after ∧
      ∀ turn ∈ before, Turn.looks reader turn = false := by
  cases searched : turns.find? (Turn.looks reader) with
  | none =>
    have passed : ∀ turn ∈ turns, Turn.looks reader turn = false := by
      intro turn member
      exact Bool.eq_false_iff.mpr (List.find?_eq_none.mp searched turn member)
    rw [answer_none zero body start reader turns atomic had passed] at has
    cases has
  | some turn =>
    obtain ⟨isLook, before, after, split, passed⟩ := List.find?_eq_some_iff_append.mp searched
    have isOwn : turn = .look reader := by
      cases turn with
      | add => cases isLook
      | write => cases isLook
      | look other => rw [of_decide_eq_true isLook]
    rw [isOwn] at split
    refine ⟨before, after, split, ?_⟩
    intro other member
    exact Bool.eq_false_iff.mpr (by simpa using passed other member)

end Answers

section Results

variable (origin : Heap (Linked α)) (zero : α) (body : Nat → α → σ → Bool × σ) (start : Nat → σ)

/-- Nobody has begun: the writer is idle and every reader is before its first read. -/
def Shared.initial (lists : ListHeap α) (start : Nat → σ) : Shared α σ :=
  ⟨lists, .idle, fun reader => .calling (start reader)⟩

def Atomic.initial (values : List α) : Atomic α σ := ⟨⟨values, none⟩, fun _ => none⟩

variable {origin} {lists : ListHeap α} {addresses : List Nat} {values : List α}

/-- From a whole list on, no turn fails, and the machines agree all the way, by induction on the
turns. -/
theorem shared_runs (threads : Threads origin lists addresses values) (turns : List (Turn α)) :
    ∃ after grown,
      run (attempt (Shared.step zero body)) (.ok (Shared.initial lists start)) turns = .ok after ∧
      Agrees origin body start after
        (run (Atomic.step zero body start) (Atomic.initial values) turns) grown := by
  have initial : Agrees origin body start (Shared.initial lists start) (Atomic.initial values)
      addresses :=
    ⟨leads_of_path addresses values _ threads.ring.path threads.values, Writes.idle threads,
      fun _ => Follows.calling⟩
  obtain ⟨after, runs, grown, agrees⟩ := attempt_simulates (Shared.step zero body)
    (Atomic.step zero body start)
    (fun shared atomic => ∃ grown, Agrees origin body start shared atomic grown)
    (fun _ _ turn ⟨_, agrees⟩ => by
      obtain ⟨after, grown, runs, agreesAfter⟩ := agrees.step turn
      exact ⟨after, runs, grown, agreesAfter⟩)
    _ _ turns ⟨addresses, initial⟩
  exact ⟨after, grown, runs, agrees⟩

variable {body start} {shared : Shared α σ} {atomic : Atomic α σ}

/-- A reader past the loop returns its answer. -/
theorem Agrees.done (agrees : Agrees origin body start shared atomic addresses) (reader : Nat)
    {found : Ptr} {state : σ} (isDone : shared.reader reader = .done found state) :
    ∃ left, atomic.answer reader = some ⟨(found.bind shared.lists.value, state), left⟩ := by
  have follows := agrees.readers reader
  rw [isDone] at follows
  generalize atomic.answer reader = answer at follows ⊢
  cases follows with
  | done listed => exact ⟨_, rfl⟩

/-- What it has found is an object with a value. -/
theorem Agrees.found (agrees : Agrees origin body start shared atomic addresses) (reader : Nat)
    {address : Nat} {state : σ} (isDone : shared.reader reader = .done (some address) state) :
    ∃ value left, shared.lists.value address = some value ∧
      atomic.answer reader = some ⟨(some value, state), left⟩ := by
  obtain ⟨left, answered⟩ := agrees.done reader isDone
  have follows := agrees.readers reader
  rw [isDone, answered] at follows
  have listed : address ∈ addresses := by
    cases follows with
    | done listed => exact listed address rfl
  obtain isHead | ⟨_, value, same, has⟩ :=
    (accessible_iff _).mp (agrees.leads.accessible address listed)
  · cases isHead
  · obtain rfl := NodePtr.node.inj same
    refine ⟨value, left, has, ?_⟩
    rw [answered, Option.bind_some, has]

theorem Agrees.ended (agrees : Agrees origin body start shared atomic addresses) (reader : Nat)
    {result : Option α × σ} (used : atomic.answer reader = some ⟨result, 0⟩) :
    ∃ found state, shared.reader reader = .done found state := by
  have follows := agrees.readers reader
  rw [used] at follows
  generalize shared.reader reader = place at follows ⊢
  cases follows with
  | testing leads listed enough => exact absurd enough (Nat.not_succ_le_zero _)
  | passing leads listed enough => exact absurd enough (Nat.not_succ_le_zero _)
  | done listed => exact ⟨_, _, rfl⟩

/-- The writer is outside of an addition exactly when none is pending. -/
theorem Agrees.idle_iff (agrees : Agrees origin body start shared atomic addresses) :
    shared.writer = .idle ↔ atomic.growing.pending = none := by
  have writes := agrees.writer
  generalize shared.writer = writer at writes
  generalize atomic.growing.pending = pending at writes
  cases writes with
  | idle threads => exact iff_of_true rfl rfl
  | busy adds toCome finish threads =>
    refine iff_of_false ?_ nofun
    rintro rfl
    cases adds

/-- Outside of an addition the list is whole. -/
theorem Agrees.idle (agrees : Agrees origin body start shared atomic addresses)
    (isIdle : shared.writer = .idle) :
    Threads origin shared.lists addresses atomic.growing.values := by
  have writes := agrees.writer
  rw [isIdle] at writes
  generalize atomic.growing.pending = pending at writes
  cases writes with
  | idle threads => exact threads
  | busy adds toCome finish threads => cases adds

end Results

end SharedLists

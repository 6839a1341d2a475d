import Vse.Classification
import Vse.ListHeads
import Vse.Unload

/-!
# The flow table as a linked list

`vse_flow_table.c` down to the links: the entries are objects in a heap, each with a list node
in it, and `flow_table` is the head of a circular list. Entries are added behind the head, a
look-up follows the links from the head, and clean-up deletes the entry behind the head until
the list is empty.

The links always thread the entries in the order of the table that the rest of the
development works with, so every call of the module replies as it does on that table. After
clean-up the list is as it was at load.

Addresses are never handed out twice, so a pointer to a freed entry stays recognisable, and
reading through it or freeing it again is a fault.
-/

namespace Vse.LinkedTable

open Heaps Rings ListHeads Words SocketBuffer FlowTable Matching Classification

section Code

/-- The module's data at load: `static LIST_HEAD(flow_table)`, among any other objects. -/
def moduleLoad (heap : Heap (Linked VseFlowEntry)) : ListHeap VseFlowEntry :=
  ⟨initListHead, heap, []⟩

variable (lists : ListHeap VseFlowEntry)

/-- `kzalloc` either fails or returns an entry of zeros, whose list node is null on both sides
until `list_add` links it. -/
def vseCreateEntry (kzalloc : Bool) : Ptr × ListHeap VseFlowEntry :=
  let (entry, heap) := lists.heap.alloc kzalloc ⟨⟨zeroMatch, 0⟩, ⟨.null, .null⟩⟩
  (entry, { lists with heap := heap })

def changeEntry (entry : Ptr) (change : VseFlowEntry → VseFlowEntry) :
    Except Fault (ListHeap VseFlowEntry) := do
  let (address, _) ← lists.heap.deref entry
  let heap := lists.heap.modify address fun object => { object with value := change object.value }
  return { lists with heap := heap }

/-- What the two functions that add an entry have in common: allocate, write the match and the
core, and link the entry behind the head. -/
def addEntry (kzalloc : Bool) (data : VseMatch) (irq : Byte) :
    Except Fault (Bool × ListHeap VseFlowEntry) :=
  match vseCreateEntry lists kzalloc with
  | (none, lists) => return (false, lists)
  | (some address, lists) => do
      let lists ← changeEntry lists (some address) fun entry =>
        { entry with vseMatch := vseSetEntryMatch entry.vseMatch data }
      let lists ← changeEntry lists (some address) fun entry => { entry with irq := irq }
      let lists ← listAdd lists (.node address) .listHead
      return (true, lists)

/-- Add an entry that names no core. -/
def vseAddTableEntry (kzalloc : Bool) (data : VseMatch) :
    Except Fault (Bool × ListHeap VseFlowEntry) :=
  addEntry lists kzalloc data noIrq

/-- Add an entry that steers to the given core. -/
def vseAddTableEntryAndIrq (kzalloc : Bool) (data : VseMatch) (irq : Byte) :
    Except Fault (Bool × ListHeap VseFlowEntry) :=
  addEntry lists kzalloc data irq

/-- Unlink an entry that has links, and free it. An entry that was freed is touched by the test of
its links already, which is a fault here. -/
def vseDeleteEntry : Ptr → Except Fault (ListHeap VseFlowEntry)
  | none => .ok lists
  | some address => do
      let (_, entry) ← lists.heap.deref (some address)
      let lists ← if entry.list.next ≠ .null ∨ entry.list.prev ≠ .null then do
          let lists ← listDel lists (.node address)
          let lists ← lists.writePrev (.node address) .null
          lists.writeNext (.node address) .null
        else pure lists
      lists.kfree (some address)

/-- Delete the entry behind the head until the list is empty. The loop is the source's `while`, so
how long it runs is for a proof to say. -/
def vseCleanUpFlowTable : Nat → ListHeap VseFlowEntry → Running (ListHeap VseFlowEntry)
  | 0, _ => Running.outOfFuel
  | fuel + 1, lists => do
      if ← listEmpty lists .listHead then return lists
      let entry ← listEntry (← lists.read .listHead).next
      vseCleanUpFlowTable fuel (← vseDeleteEntry lists entry)

/-- A look-up under way: how often it has called the matcher, and the packet with what was
read of it. -/
structure Looking where
  calls : Nat
  packet : Traced Access SkBuff

def Looking.start (skb : SkBuff) : Looking := ⟨0, pure skb⟩

/-- The body of the look-up's loop: is the loop left here? The bytes that the calls of the
matcher read through their `nw` are given in the order of the calls. -/
def tested (nwTos : Nat → Byte) (entry : VseFlowEntry) (looking : Looking) : Bool × Looking :=
  let test := vseDoMatch (nwTos looking.calls) looking.packet.value entry.vseMatch
  (test.value.1, ⟨looking.calls + 1, ⟨test.value.2, looking.packet.trace ++ test.trace⟩⟩)

/-- Follow the links from the head, and stop at the first entry that matches. -/
def vseLookUpFlowEntry (fuel : Nat) (nwTos : Nat → Byte) (skb : SkBuff) :
    Running (Traced Access (Ptr × SkBuff)) := do
  let flowTable ← lists.read .listHead
  let (entry, looking) ← listForEach lists (tested nwTos) fuel flowTable.next (.start skb)
  return ⟨(entry, looking.packet.value), looking.packet.trace⟩

end Code

section Operations

variable {heap : Heap (Linked VseFlowEntry)} {lists : ListHeap VseFlowEntry}
  {addresses : List Nat} {table : List VseFlowEntry}

theorem change_entry_grown (object : Linked VseFlowEntry) (change : VseFlowEntry → VseFlowEntry) :
    changeEntry (lists.grown object) (some lists.heap.next) change =
      .ok (lists.grown { object with value := change object.value }) := by
  have present : (lists.grown object).heap.object lists.heap.next = some object :=
    lists.heap.extend_at_next object
  rw [changeEntry, (lists.grown object).heap.deref_live _ object present]
  simp only [ok_bind, pure_ok, ListHeap.grown, Heap.modify_extend]

/-- Without memory an addition fails and changes nothing. With it the entry is linked in front
of the others. -/
theorem add_entry_eq (threads : Threads heap lists addresses table) (kzalloc : Bool)
    (data : VseMatch) (irq : Byte) :
    ∃ after added, addEntry lists kzalloc data irq = .ok (kzalloc, after) ∧
      added = (if kzalloc then [lists.heap.next] else []) ∧
      after.freed = lists.freed ∧
      Threads heap after (added ++ addresses)
        ((if kzalloc then [⟨vseSetEntryMatch zeroMatch data, irq⟩] else []) ++ table) := by
  cases kzalloc with
  | false => exact ⟨lists, [], rfl, rfl, rfl, threads⟩
  | true =>
    obtain ⟨after, runs, freed, threaded⟩ :=
      threads.list_add ⟨⟨vseSetEntryMatch zeroMatch data, irq⟩, ⟨.null, .null⟩⟩
    refine ⟨after, _, ?_, rfl, freed, threaded⟩
    have created : vseCreateEntry lists true =
        (some lists.heap.next, lists.grown ⟨⟨zeroMatch, 0⟩, ⟨.null, .null⟩⟩) := rfl
    simp only [addEntry, created, change_entry_grown, ok_bind, runs, pure_ok]

/-- Deleting the first entry unlinks it, frees it, and leaves the others linked in their order. -/
theorem delete_entry_first {first : Nat} {rest : List Nat} {entry : VseFlowEntry}
    {others : List VseFlowEntry}
    (threads : Threads heap lists (first :: rest) (entry :: others)) :
    ∃ after, vseDeleteEntry lists (some first) = .ok after ∧
      after.freed = lists.freed ++ [first] ∧ Threads heap after rest others := by
  obtain ⟨object, present, _, _, prev, next⟩ := threads.first
  -- The guard finds links: the previous node is the head.
  have linked : object.list.next ≠ .null ∨ object.list.prev ≠ .null := by
    right
    rw [prev]
    exact NodePtr.noConfusion
  have firstNode := threads.accessible (.node first) (List.mem_cons_of_mem _ List.mem_cons_self)
  obtain ⟨deleted, runsDelete, editDelete⟩ := threads.list_del_first
  obtain ⟨halfway, runsPrev, editPrev⟩ :=
    write_prev_accessible deleted (.node first) .null (editDelete.accessible firstNode)
  have upToPrev := editDelete.trans editPrev
  obtain ⟨cleared, runsNext, editNext⟩ :=
    write_next_accessible halfway (.node first) .null (upToPrev.accessible firstNode)
  obtain ⟨after, runs, freed, threaded⟩ := threads.free_first (upToPrev.trans editNext) (by
    intro node other
    apply Link.ext <;> simp [other])
  refine ⟨after, ?_, freed, threaded⟩
  rw [vseDeleteEntry, lists.heap.deref_live first object present]
  simp only [ok_bind, if_pos linked, runsDelete, runsPrev, runsNext]
  exact runs

/-- Clean-up frees the entries in the order of the list, and then ends, with any fuel above the
number of entries. -/
theorem clean_up_eq (threads : Threads heap lists addresses table) :
    ∃ after, (∀ fuel, addresses.length < fuel →
        vseCleanUpFlowTable fuel lists = pure after) ∧
      after.freed = lists.freed ++ addresses ∧ Threads heap after [] [] := by
  induction addresses generalizing lists table with
  | nil =>
    obtain rfl : table = [] := List.eq_nil_of_length_eq_zero threads.length
    refine ⟨lists, ?_, (List.append_nil _).symm, threads⟩
    intro fuel enough
    obtain ⟨less, rfl⟩ := Nat.exists_eq_succ_of_ne_zero (Nat.ne_of_gt enough)
    rw [vseCleanUpFlowTable, threads.list_empty]
    rfl
  | cons first rest inductionHypothesis =>
    cases table with
    | nil => cases threads.values
    | cons entry others =>
      obtain ⟨without, runs, freed, threaded⟩ := delete_entry_first threads
      obtain ⟨after, ends, allFreed, empty⟩ := inductionHypothesis threaded
      refine ⟨after, ?_, ?_, empty⟩
      · intro fuel enough
        obtain ⟨less, rfl⟩ := Nat.exists_eq_succ_of_ne_zero (Nat.ne_zero_of_lt enough)
        have reads := read_accessible lists .listHead (Or.inl rfl)
        have next := threads.ring.next_head
        rw [vseCleanUpFlowTable, threads.list_empty, reads]
        simp only [lift_ok, pure_bind, next, listEntry, runs, List.cons_ne_nil, decide_false,
          Bool.false_eq_true, ↓reduceIte]
        exact ends less (Nat.lt_of_succ_lt_succ enough)
      · rw [allFreed, freed, List.append_assoc, List.singleton_append]

/-- The loop of the look-up, after some calls of the matcher, scans what is left of the table as a
look-up of it does that reads the bytes of the calls to come. The calls are counted so that each
finds its own byte. -/
theorem scan_rest (nwTos : Nat → Byte) (calls : Nat) (skb : SkBuff) (seen : List Access)
    (table : List VseFlowEntry) :
    let looked := FlowTable.vseLookUpFlowEntry
      (byNumber (fun call => nwTos (calls + call)) table) skb table
    (scan (tested nwTos) table ⟨calls, skb, seen⟩).1 = looked.value.1 ∧
      (scan (tested nwTos) table ⟨calls, skb, seen⟩).2.packet =
        ⟨looked.value.2, seen ++ looked.trace⟩ := by
  induction table generalizing calls skb seen with
  | nil => simp [scan, FlowTable.vseLookUpFlowEntry]
  | cons entry rest inductionHypothesis =>
    have first : byNumber (fun call => nwTos (calls + call)) (entry :: rest) rest.length =
        nwTos calls := by
      simp [byNumber]
    -- The entries behind the head are tested one call later.
    have later (skb : SkBuff) : FlowTable.vseLookUpFlowEntry
          (byNumber (fun call => nwTos (calls + call)) (entry :: rest)) skb rest =
        FlowTable.vseLookUpFlowEntry
          (byNumber (fun call => nwTos (calls + 1 + call)) rest) skb rest := by
      apply look_up_congr
      intro number below
      simp only [byNumber, List.length_cons]
      congr 1
      omega
    rw [scan]
    simp only [tested, FlowTable.vseLookUpFlowEntry, Traced.value_bind, Traced.trace_bind, first,
      later]
    by_cases accepts : (vseDoMatch (nwTos calls) skb entry.vseMatch).value.1 = true
    · simp [accepts]
    · simp [accepts, inductionHypothesis]

/-- The loop of the look-up scans the table as the look-up of the table does. -/
theorem scan_table (nwTos : Nat → Byte) (skb : SkBuff) (table : List VseFlowEntry) :
    let looked := FlowTable.vseLookUpFlowEntry (byNumber nwTos table) skb table
    (scan (tested nwTos) table (.start skb)).1 = looked.value.1 ∧
      (scan (tested nwTos) table (.start skb)).2.packet = ⟨looked.value.2, looked.trace⟩ := by
  have scanned := scan_rest nwTos 0 skb [] table
  simp only [Nat.zero_add] at scanned
  exact scanned

/-- A look-up ends, with a pointer to the entry that the look-up of the table finds, and with the
same packet and the same accesses. -/
theorem look_up_eq (threads : Threads heap lists addresses table) (fuel : Nat)
    (enough : addresses.length < fuel) (nwTos : Nat → Byte) (skb : SkBuff) :
    let looked := FlowTable.vseLookUpFlowEntry (byNumber nwTos table) skb table
    ∃ found, vseLookUpFlowEntry lists fuel nwTos skb =
        pure ⟨(found, looked.value.2), looked.trace⟩ ∧
      found.bind lists.value = looked.value.1 ∧
      ∀ address, found = some address → address ∈ addresses := by
  intro looked
  obtain ⟨found, runs, contents, member⟩ := for_each_path (tested nwTos) addresses table
    .listHead (.start skb) fuel enough threads.ring.path threads.values
  obtain ⟨entry, packet⟩ := scan_table nwTos skb table
  refine ⟨found, ?_, contents.trans entry, member⟩
  rw [vseLookUpFlowEntry, read_accessible lists .listHead (Or.inl rfl)]
  simp only [lift_ok, pure_bind, runs, packet]
  rfl

end Operations

section Calls

/-- What other code calls: an addition with or without memory, a look-up, or clean-up. -/
inductive TableCall where
  | add (kzalloc : Bool) (add : Add)
  | lookUp (nwTos : Nat → Byte) (skb : SkBuff)
  | cleanUp

/-- What the caller sees: whether the addition succeeded; the entry that the pointer of the
look-up leads to, the packet afterwards and what was read of it; that clean-up returned. No
address is part of a reply, so replies of different heaps can be compared. -/
inductive Reply where
  | added (succeeded : Bool)
  | found (entry : Option VseFlowEntry) (skb : SkBuff) (accesses : List Access)
  | cleaned

def addTo (lists : ListHeap VseFlowEntry) (kzalloc : Bool) :
    Add → Except Fault (Bool × ListHeap VseFlowEntry)
  | .withoutCore data => vseAddTableEntry lists kzalloc data
  | .withCore data irq => vseAddTableEntryAndIrq lists kzalloc data irq

/-- The caller of a look-up reads the entry through the pointer, unless it is null. -/
def readEntry (lists : ListHeap VseFlowEntry) : Ptr → Except Fault (Option VseFlowEntry)
  | none => .ok none
  | some address => do
      let (_, object) ← lists.heap.deref (some address)
      return some object.value

/-- A call on the linked list. -/
def callLists (fuel : Nat) (lists : ListHeap VseFlowEntry) :
    TableCall → Running (Reply × ListHeap VseFlowEntry)
  | .add kzalloc add => do
      let (succeeded, lists) ← addTo lists kzalloc add
      return (.added succeeded, lists)
  | .lookUp nwTos skb => do
      let looked ← vseLookUpFlowEntry lists fuel nwTos skb
      let entry ← readEntry lists looked.value.1
      return (.found entry looked.value.2 looked.trace, lists)
  | .cleanUp => do
      let lists ← vseCleanUpFlowTable fuel lists
      return (.cleaned, lists)

def runLists (fuel : Nat) (lists : ListHeap VseFlowEntry) :
    List TableCall → Running (List Reply × ListHeap VseFlowEntry)
  | [] => pure ([], lists)
  | call :: rest => do
      let (reply, lists) ← callLists fuel lists call
      let (replies, lists) ← runLists fuel lists rest
      return (reply :: replies, lists)

/-- A call on the table as the list of its entries. -/
def callTable (table : List VseFlowEntry) : TableCall → Reply × List VseFlowEntry
  | .add kzalloc (.withoutCore data) =>
      let (succeeded, table) := FlowTable.vseAddTableEntry kzalloc table data
      (.added succeeded, table)
  | .add kzalloc (.withCore data irq) =>
      let (succeeded, table) := FlowTable.vseAddTableEntryAndIrq kzalloc table data irq
      (.added succeeded, table)
  | .lookUp nwTos skb =>
      let looked := FlowTable.vseLookUpFlowEntry (byNumber nwTos table) skb table
      (.found looked.value.1 looked.value.2 looked.trace, table)
  | .cleanUp => (.cleaned, [])

def runTable (table : List VseFlowEntry) : List TableCall → List Reply × List VseFlowEntry
  | [] => ([], table)
  | call :: rest =>
      let (reply, table) := callTable table call
      let (replies, table) := runTable table rest
      (reply :: replies, table)

variable {heap : Heap (Linked VseFlowEntry)} {lists : ListHeap VseFlowEntry}
  {addresses : List Nat} {table : List VseFlowEntry}

/-- An addition to the list is an addition to the table. -/
theorem call_add (threads : Threads heap lists addresses table) (kzalloc : Bool) (add : Add) :
    ∃ after entries, addTo lists kzalloc add = .ok (kzalloc, after) ∧
      callTable table (.add kzalloc add) = (.added kzalloc, entries) ∧
      ∃ linked, Threads heap after linked entries ∧ linked.length ≤ addresses.length + 1 := by
  have short (added : List Nat) (same : added = if kzalloc then [lists.heap.next] else []) :
      (added ++ addresses).length ≤ addresses.length + 1 := by
    rw [same, List.length_append]
    split <;> simp only [List.length_singleton, List.length_nil] <;> omega
  cases add with
  | withoutCore data =>
    obtain ⟨after, added, runs, which, _, threaded⟩ := add_entry_eq threads kzalloc data noIrq
    refine ⟨after, _, runs, ?_, _, threaded, short added which⟩
    cases kzalloc <;> rfl
  | withCore data irq =>
    obtain ⟨after, added, runs, which, _, threaded⟩ := add_entry_eq threads kzalloc data irq
    refine ⟨after, _, runs, ?_, _, threaded, short added which⟩
    cases kzalloc <;> rfl

/-- Reading the entry that a look-up found: the pointer is null or leads to an entry that is
threaded, so the read cannot fault. -/
theorem read_entry_eq (threads : Threads heap lists addresses table) (found : Ptr)
    (member : ∀ address, found = some address → address ∈ addresses) :
    readEntry lists found = .ok (found.bind lists.value) := by
  cases found with
  | none => rfl
  | some address =>
    obtain ⟨object, present⟩ := threads.live address (member address rfl)
    simp only [readEntry, lists.heap.deref_live address object present, ok_bind, pure_ok,
      Option.bind_some, ListHeap.value, present, Option.map_some]

/-- Every call on the list replies as it does on the table, and threads the table it leaves. With
this the list is a faithful image of the table. -/
theorem call_lists_eq (threads : Threads heap lists addresses table) (call : TableCall) :
    ∃ after linked, (∀ fuel, addresses.length < fuel →
        callLists fuel lists call = pure ((callTable table call).1, after)) ∧
      Threads heap after linked (callTable table call).2 ∧
      linked.length ≤ addresses.length + 1 := by
  cases call with
  | add kzalloc add =>
    obtain ⟨after, entries, runs, calls, linked, threaded, short⟩ := call_add threads kzalloc add
    refine ⟨after, linked, ?_, ?_, short⟩
    · intro fuel _
      rw [callLists, runs, calls]
      rfl
    · rw [calls]
      exact threaded
  | lookUp nwTos skb =>
    refine ⟨lists, addresses, ?_, threads, Nat.le_succ _⟩
    intro fuel enough
    obtain ⟨found, runs, contents, member⟩ := look_up_eq threads fuel enough nwTos skb
    have reads := read_entry_eq threads found member
    rw [callLists, runs]
    simp only [pure_bind, reads, lift_ok, contents]
    rfl
  | cleanUp =>
    obtain ⟨after, ends, _, empty⟩ := clean_up_eq threads
    refine ⟨after, [], ?_, empty, Nat.zero_le _⟩
    intro fuel enough
    rw [callLists, ends fuel enough]
    rfl

/-- So does every run, with fuel for the longest list that it can meet. -/
theorem run_lists_eq (threads : Threads heap lists addresses table) (calls : List TableCall) :
    ∃ after linked, (∀ fuel, addresses.length + calls.length ≤ fuel →
        runLists fuel lists calls = pure ((runTable table calls).1, after)) ∧
      Threads heap after linked (runTable table calls).2 := by
  induction calls generalizing lists addresses table with
  | nil => exact ⟨lists, addresses, fun _ _ => rfl, threads⟩
  | cons call rest inductionHypothesis =>
    obtain ⟨middle, linked, runs, threaded, short⟩ := call_lists_eq threads call
    obtain ⟨after, others, runsRest, threadedRest⟩ := inductionHypothesis threaded
    refine ⟨after, others, ?_, threadedRest⟩
    intro fuel enough
    rw [List.length_cons] at enough
    rw [runLists, runs fuel (by omega)]
    simp only [pure_bind, runsRest fuel (by omega), runTable]

/-- From a list without entries, the replies are those of the empty table, wherever the objects of
the heap are. -/
theorem run_unlinked (threads : Threads heap lists [] []) (fuel : Nat) (calls : List TableCall)
    (enough : calls.length ≤ fuel) :
    ∃ after, runLists fuel lists calls = pure ((runTable [] calls).1, after) := by
  obtain ⟨after, _, runs, _⟩ := run_lists_eq threads calls
  refine ⟨after, runs fuel ?_⟩
  rw [List.length_nil, Nat.zero_add]
  exact enough

end Calls

section CleanUp

/-- What clean-up does with a list through the entries at these addresses. It ends, having freed
each of them once and left all other objects alone, and the head is linked to itself. -/
structure CleanedUp (built : ListHeap VseFlowEntry) (entries : List Nat)
    (after : ListHeap VseFlowEntry) : Prop where
  ends : ∀ fuel, entries.length < fuel → vseCleanUpFlowTable fuel built = pure after
  freed : after.freed = built.freed ++ entries
  once : entries.Nodup
  gone : ∀ address ∈ entries, after.heap.object address = none
  others : ∀ address, address ∉ entries → after.heap.object address = built.heap.object address
  empty : after.head = initListHead

variable {heap : Heap (Linked VseFlowEntry)} {lists : ListHeap VseFlowEntry}
  {addresses : List Nat} {table : List VseFlowEntry}

theorem clean_up_cleans (threads : Threads heap lists addresses table) :
    ∃ after, CleanedUp lists addresses after ∧ Threads heap after [] [] := by
  obtain ⟨after, ends, freed, threaded⟩ := clean_up_eq threads
  have asBefore (address : Nat) : after.heap.object address = heap.object address :=
    threaded.others address List.not_mem_nil
  refine ⟨after, ⟨ends, freed, threads.nodup, ?_, ?_, (ring_nil _ _).mp threaded.ring⟩, threaded⟩
  · intro address member
    rw [asBefore, threads.fresh address member]
  · intro address outside
    rw [asBefore, threads.others address outside]

/-- Clean-up frees each entry once and ends. Whatever was called since the module was loaded, the
calls return, and the list threads the entries of the table, all apart from the objects that were
there at load. Clean-up then frees these entries, each once and nothing else, without touching one
that is already freed, and leaves a head that is linked to itself. All later calls reply as they
do on a freshly loaded module.

Proof: that a ring of links goes from the head through the entries of the table is invariant under
every call, by one lemma each for additions, look-ups and clean-up. Clean-up takes the first entry
out of the ring and frees it until the ring has none, which uses up one unit of fuel an entry. A
head linked to itself is the module's data at load, so later calls are calls on an empty table
again. -/
theorem clean_up_frees_each_once (heap : Heap (Linked VseFlowEntry)) (calls : List TableCall) :
    ∃ built entries after,
      (∀ fuel, calls.length ≤ fuel →
        runLists fuel (moduleLoad heap) calls = pure ((runTable [] calls).1, built)) ∧
      Threads heap built entries (runTable [] calls).2 ∧
      CleanedUp built entries after ∧
      ∀ (other : Heap (Linked VseFlowEntry)) (later : List TableCall) (fuel : Nat),
        later.length ≤ fuel → ∃ replies lastBuilt lastLoaded,
          runLists fuel after later = pure (replies, lastBuilt) ∧
          runLists fuel (moduleLoad other) later = pure (replies, lastLoaded) := by
  obtain ⟨built, entries, runs, threads⟩ := run_lists_eq (threads_init heap []) calls
  obtain ⟨after, cleaned, unlinked⟩ := clean_up_cleans threads
  refine ⟨built, entries, after, ?_, threads, cleaned, ?_⟩
  · intro fuel enough
    apply runs fuel
    rw [List.length_nil, Nat.zero_add]
    exact enough
  · intro other later fuel enough
    obtain ⟨lastBuilt, fromBuilt⟩ := run_unlinked unlinked fuel later enough
    obtain ⟨lastLoaded, fromLoad⟩ := run_unlinked (threads_init other []) fuel later enough
    exact ⟨_, lastBuilt, lastLoaded, fromBuilt, fromLoad⟩

/-- Where the entries are taken as a heap of their own and the list as its addresses, clean-up
leaves the same entries. -/
theorem clean_up_by_addresses (threads : Threads heap lists addresses table)
    (entries : Heap VseFlowEntry) (same : entries.object = lists.value) :
    ∃ after remaining, CleanedUp lists addresses after ∧
      Unload.vseCleanUpFlowTable entries addresses = .ok remaining ∧
      remaining.object = after.value := by
  obtain ⟨after, cleaned, _⟩ := clean_up_cleans threads
  obtain ⟨remaining, runs, object⟩ := Unload.clean_up_flow_table_eq entries addresses (by
    intro address member
    obtain ⟨live, present⟩ := threads.live address member
    refine ⟨address, live.value, rfl, ?_⟩
    rw [same, ListHeap.value, present, Option.map_some]) threads.nodup
  refine ⟨after, remaining, cleaned, runs, ?_⟩
  funext address
  rw [object, same]
  split
  · rename_i member
    rw [ListHeap.value, cleaned.gone address member, Option.map_none]
  · rename_i outside
    rw [ListHeap.value, ListHeap.value, cleaned.others address outside]

end CleanUp

end Vse.LinkedTable

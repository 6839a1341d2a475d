import Vse.LinkedTable
import Vse.SharedLists

/-!
# Look-ups while entries are added

`vse_look_up_flow_entry` runs in the receive path of every CPU and takes no lock. Entries are added
by `vse_device_ioctl`, which the kernel serialises, as the handler is `.ioctl`. So an addition is
alone among additions, but any number of look-ups go through the list during it.

The writes of an addition and the reads of the look-ups are interleaved here in every order. An
entry on the list is not written again, so its fields are read in one turn. Nothing is freed:
clean-up is not among the turns.

That each turn is one access is an assumption on the compiler and the CPUs, on which all results
below rest: an addition makes its stores in the order in which the source has them, so that the
one to the head's `next` comes last, and every CPU sees the stores in this order. The source asks
for neither, as `list_add` is made of plain stores without a barrier. A compiler that moves the
store to the head in front of the others publishes an entry without links.

Then, however the turns come, a look-up returns what it would have returned alone, on the table as
it was at its first read. It sees an entry whole or not at all, and it ends.
-/

namespace Vse.ConcurrentLookUps

open Heaps ListHeads Runs Words SocketBuffer FlowTable Classification LinkedTable

/-- Whose turn it is: `ioctl` calls one of the functions that add an entry; it goes on with its
next access; the look-up for a packet goes on. -/
inductive Turn where
  | add (kzalloc : Bool) (add : Add)
  | write
  | look (packet : Nat)

/-- What is written into a new entry before it is linked. -/
def fields : Add → List (VseFlowEntry → VseFlowEntry)
  | .withoutCore data =>
      [fun entry => { entry with vseMatch := vseSetEntryMatch entry.vseMatch data },
        fun entry => { entry with irq := noIrq }]
  | .withCore data irq =>
      [fun entry => { entry with vseMatch := vseSetEntryMatch entry.vseMatch data },
        fun entry => { entry with irq := irq }]

def Turn.shared : Turn → SharedLists.Turn VseFlowEntry
  | .add kzalloc call => .add kzalloc (fields call)
  | .write => .write
  | .look packet => .look packet

def Turn.looks (packet : Nat) (turn : Turn) : Bool := turn.shared.looks packet

def Turn.writes (turn : Turn) : Bool := turn.shared.writes

/-- The memory, the addition under way, and the look-ups, each with the number of its packet. -/
abbrev World := SharedLists.Shared VseFlowEntry Looking

/-- The turns one after the other, from the load of the module on. What each call of the matcher
reads through its `nw` is given for every packet. -/
def runTurns (heap : Heap (Linked VseFlowEntry)) (nwTos : Nat → Nat → Byte)
    (skb : Nat → SkBuff) (turns : List Turn) : Except Fault World :=
  run (attempt (SharedLists.Shared.step ⟨zeroMatch, 0⟩ fun packet => tested (nwTos packet)))
    (.ok (SharedLists.Shared.initial (moduleLoad heap) fun packet => .start (skb packet)))
    (turns.map Turn.shared)

/-- The table and the addition under way, as additions take effect: a call that finds another one
under way is not admitted, and one that is admitted is complete at its last access. -/
def growing (turns : List Turn) : SharedLists.Growing VseFlowEntry :=
  run (SharedLists.Growing.step ⟨zeroMatch, 0⟩) ⟨[], none⟩ (turns.map Turn.shared)

/-- The entries whose additions are complete, the newest first. -/
def completed (turns : List Turn) : List VseFlowEntry := (growing turns).values

section Sequential

theorem change_value_eq (lists : ListHeap VseFlowEntry) (address : Nat)
    (change : VseFlowEntry → VseFlowEntry) :
    SharedLists.changeValue lists address change = changeEntry lists (some address) change := by
  rw [SharedLists.changeValue, changeEntry]
  cases present : lists.heap.object address with
  | none => simp only [Heap.deref, present, error_bind]
  | some object => simp only [lists.heap.deref_live address object present, ok_bind]

/-- The accesses of an addition in a row are those of the function called, so the turns cut the
source's functions and nothing else. -/
theorem accesses_in_a_row (lists : ListHeap VseFlowEntry) (add : Add) :
    addTo lists true add = (do
      let last ← (SharedLists.Writer.filling lists.heap.next (fields add)).finish
        (lists.grown ⟨⟨zeroMatch, 0⟩, ⟨.null, .null⟩⟩)
      return (true, last)) := by
  cases add with
  | withoutCore data =>
    simp only [SharedLists.Writer.finish, fields, List.foldlM_cons, List.foldlM_nil, bind_assoc,
      pure_bind, change_value_eq]
    rfl
  | withCore data irq =>
    simp only [SharedLists.Writer.finish, fields, List.foldlM_cons, List.foldlM_nil, bind_assoc,
      pure_bind, change_value_eq]
    rfl

end Sequential

section Results

variable (heap : Heap (Linked VseFlowEntry)) (nwTos : Nat → Nat → Byte)
  (skb : Nat → SkBuff)

/-- No turn fails. Afterwards the list is as the completed additions make it, and each look-up
stands to its answer. This is the library's run lemma at the module's own list. -/
theorem turns_run (turns : List Turn) :
    ∃ world atomic entries, runTurns heap nwTos skb turns = .ok world ∧
      SharedLists.Agrees heap (fun packet => tested (nwTos packet))
        (fun packet => .start (skb packet)) world atomic entries ∧
      atomic = run (SharedLists.Atomic.step ⟨zeroMatch, 0⟩ (fun packet => tested (nwTos packet))
          fun packet => .start (skb packet))
        (SharedLists.Atomic.initial []) (turns.map Turn.shared) ∧
      atomic.growing = growing turns := by
  obtain ⟨world, entries, runs, agrees⟩ := SharedLists.shared_runs ⟨zeroMatch, 0⟩
    (fun packet => tested (nwTos packet)) (fun packet => .start (skb packet))
    (threads_init heap []) (turns.map Turn.shared)
  exact ⟨world, _, entries, runs, agrees, rfl, SharedLists.growing_eq _ _⟩

/-- The first turn of a look-up among the turns at the list is one among the turns. -/
theorem split_shared (turns : List Turn) (before after : List (SharedLists.Turn VseFlowEntry))
    (packet : Nat) (split : turns.map Turn.shared = before ++ .look packet :: after) :
    ∃ first last, turns = first ++ .look packet :: last ∧ first.map Turn.shared = before := by
  obtain ⟨first, others, rfl, isBefore, rest⟩ := List.map_eq_append_iff.mp split
  obtain ⟨turn, last, rfl, isLook, _⟩ := List.map_eq_cons_iff.mp rest
  refine ⟨first, last, ?_, isBefore⟩
  cases turn with
  | add => cases isLook
  | write => cases isLook
  | look other => rw [SharedLists.Turn.look.inj isLook]

/-- The answer of a look-up is that of its first turn, on the table as it was then. -/
theorem answer_at_first_turn (before after : List Turn) (packet : Nat)
    (first : ∀ turn ∈ before, turn ≠ .look packet) :
    (run (SharedLists.Atomic.step ⟨zeroMatch, 0⟩ (fun packet => tested (nwTos packet))
          fun packet => .start (skb packet))
        (SharedLists.Atomic.initial [])
        ((before ++ .look packet :: after).map Turn.shared)).answer packet =
      some ⟨scan (tested (nwTos packet)) (completed before) (.start (skb packet)),
        2 * (completed before).length + 1 - after.countP (Turn.looks packet)⟩ := by
  have passed : ∀ turn ∈ before.map Turn.shared, turn.looks packet = false := by
    intro shared member
    obtain ⟨turn, inBefore, rfl⟩ := List.mem_map.mp member
    cases turn with
    | add => rfl
    | write => rfl
    | look other =>
      apply decide_eq_false
      rintro rfl
      exact first _ inBefore rfl
  have counted : (after.map Turn.shared).countP (SharedLists.Turn.looks packet) =
      after.countP (Turn.looks packet) := List.countP_map
  have table : (run (SharedLists.Atomic.step ⟨zeroMatch, 0⟩ (fun packet => tested (nwTos packet))
        fun packet => .start (skb packet)) (SharedLists.Atomic.initial [])
      (before.map Turn.shared)).growing.values = completed before :=
    congrArg SharedLists.Growing.values (SharedLists.growing_eq _ _)
  rw [List.map_append, List.map_cons, ← counted, ← table]
  exact SharedLists.answer_eq _ _ _ packet _ _ (SharedLists.Atomic.initial []) rfl passed

/-- Look-ups are linearizable, provided that an addition makes its stores in the order of the
source and every CPU sees them so. Whatever the turns, none of them fails, and a look-up that is
over returned what it returns on the table as it was at its first read, with the same reads: the
entry its pointer leads to, and the packet as it left it. The pointer leads to that entry from then
on.

Proof: the machine runs in step with one on which a look-up has its answer at its first turn. A
reader on its way is at a node from which the links lead through the values that it has still to
scan, and no write of an addition changes these links: it only prepares an object that no reader
can reach, and then makes the head lead to it. -/
theorem look_up_linearizable (turns : List Turn) :
    ∃ world, runTurns heap nwTos skb turns = .ok world ∧
      ∀ packet found looking, world.reader packet = .done found looking →
        ∃ before after, turns = before ++ .look packet :: after ∧
          (∀ turn ∈ before, turn ≠ .look packet) ∧
          let looked := FlowTable.vseLookUpFlowEntry (byNumber (nwTos packet) (completed before))
            (skb packet) (completed before)
          found.bind world.lists.value = looked.value.1 ∧
            looking.packet = ⟨looked.value.2, looked.trace⟩ := by
  obtain ⟨world, atomic, entries, runs, agrees, rfl, _⟩ := turns_run heap nwTos skb turns
  refine ⟨world, runs, ?_⟩
  intro packet found looking isDone
  obtain ⟨left, answered⟩ := agrees.done packet isDone
  obtain ⟨shared, others, split, passed⟩ :=
    SharedLists.first_turn _ _ _ packet _ _ _ rfl answered
  obtain ⟨before, after, rfl, rfl⟩ := split_shared turns shared others packet split
  have first : ∀ turn ∈ before, turn ≠ .look packet := by
    rintro turn member rfl
    exact absurd (passed _ (List.mem_map_of_mem member)) (by simp [Turn.shared,
      SharedLists.Turn.looks])
  rw [answer_at_first_turn nwTos skb before after packet first] at answered
  obtain ⟨result, _⟩ := SharedLists.Answer.mk.inj (Option.some.inj answered)
  obtain ⟨entry, seen⟩ := scan_table (nwTos packet) (skb packet) (completed before)
  rw [result] at entry seen
  exact ⟨before, after, rfl, first, entry, seen⟩

/-- A look-up ends whatever the others do, provided that the stores of an addition are made in the
order of the source and seen so. With its first read it has to pass the entries that are on the
table then, and for each of them it needs two more reads at most.

Proof: the answer that the first turn gives carries the number of turns that the reader may still
take, and each of its turns takes one away. Without turns left a reader is out of its loop. -/
theorem look_up_ends (before after : List Turn) (packet : Nat)
    (first : ∀ turn ∈ before, turn ≠ .look packet)
    (enough : 2 * (completed before).length + 1 ≤ after.countP (Turn.looks packet)) :
    ∃ world found seen,
      runTurns heap nwTos skb (before ++ .look packet :: after) = .ok world ∧
        world.reader packet = .done found seen := by
  obtain ⟨world, atomic, entries, runs, agrees, rfl, _⟩ :=
    turns_run heap nwTos skb (before ++ .look packet :: after)
  have answered := answer_at_first_turn nwTos skb before after packet first
  rw [Nat.sub_eq_zero_of_le enough] at answered
  obtain ⟨found, seen, isDone⟩ := agrees.ended packet answered
  exact ⟨world, found, seen, runs, isDone⟩

/-- One entry is passed with three more turns. -/
theorem look_up_past_one_entry_ends :
    ∃ world found seen,
      runTurns Heap.empty (fun _ _ => 0) (fun _ => received [] 0 (by decide) (by decide))
          ((.add true (.withoutCore zeroMatch) :: List.replicate 7 .write) ++
            .look 0 :: [.look 0, .look 0, .look 0]) = .ok world ∧
        world.reader 0 = .done found seen :=
  look_up_ends Heap.empty (fun _ _ => 0) _ (.add true (.withoutCore zeroMatch) ::
    List.replicate 7 .write) [.look 0, .look 0, .look 0] 0 (by simp) (by decide)

/-- The table grows in whole entries, provided that the stores of an addition are made in the order
of the source and seen so. At every moment the links lead from the head through the entries whose
additions are complete, each once. While no addition is under way, the list is a ring that clean-up
frees.

Proof: this is what the two machines agree on after every turn. During an addition the writes that
are still to come make the list whole again, with the new entry in front of the others. -/
theorem list_while_growing (turns : List Turn) :
    ∃ world entries, runTurns heap nwTos skb turns = .ok world ∧
      SharedLists.Leads world.lists (world.lists.links .listHead).next entries
        (completed turns) ∧
      (world.writer = .idle → Threads heap world.lists entries (completed turns) ∧
        ∃ after, CleanedUp world.lists entries after) := by
  obtain ⟨world, atomic, entries, runs, agrees, _, table⟩ := turns_run heap nwTos skb turns
  have values : atomic.growing.values = completed turns := congrArg _ table
  refine ⟨world, entries, runs, values ▸ agrees.leads, ?_⟩
  intro idle
  have threads := agrees.idle idle
  obtain ⟨after, cleaned, _⟩ := clean_up_cleans threads
  exact ⟨values ▸ threads, after, cleaned⟩

/-- The writer is outside of an addition, whatever the look-ups do. -/
def WriterIdle (turns : List Turn) : Prop :=
  ∃ world, runTurns heap nwTos skb turns = .ok world ∧ world.writer = .idle

def LinksLead (turns : List Turn) (values : List VseFlowEntry) : Prop :=
  ∃ world entries, runTurns heap nwTos skb turns = .ok world ∧
    SharedLists.Leads world.lists (world.lists.links .listHead).next entries values

theorem writer_idle_iff (turns : List Turn) :
    WriterIdle heap nwTos skb turns ↔ (growing turns).pending = none := by
  obtain ⟨world, atomic, entries, runs, agrees, _, table⟩ := turns_run heap nwTos skb turns
  rw [← table, ← agrees.idle_iff]
  constructor
  · rintro ⟨other, runsOther, idle⟩
    exact Except.ok.inj (runs.symm.trans runsOther) ▸ idle
  · intro idle
    exact ⟨world, runs, idle⟩

theorem links_lead_iff (turns : List Turn) (values : List VseFlowEntry) :
    LinksLead heap nwTos skb turns values ↔ values = completed turns := by
  obtain ⟨world, atomic, entries, runs, agrees, _, table⟩ := turns_run heap nwTos skb turns
  have leads := agrees.leads
  rw [table] at leads
  constructor
  · rintro ⟨other, others, runsOther, leadsOther⟩
    obtain rfl := Except.ok.inj (runs.symm.trans runsOther)
    exact leadsOther.unique leads
  · rintro rfl
    exact ⟨world, entries, runs, leads⟩

/-- An admitted addition is pending right after its call, with the writes of all its fields and
links still to come. -/
theorem growing_add (before : List Turn) (add : Add) (idle : (growing before).pending = none) :
    ∃ left, growing (before ++ [.add true add]) = ⟨completed before, some (add.entry, left)⟩ := by
  have value : (fields add).foldl (fun entry change => change entry) ⟨zeroMatch, 0⟩ =
      add.entry := by
    cases add with
    | withoutCore data => rfl
    | withCore data irq => rfl
  refine ⟨(fields add).length + 5, ?_⟩
  rw [growing, List.map_append, run_append, ← growing, List.map_singleton, run_cons, run_nil,
    Turn.shared, SharedLists.Growing.step, SharedLists.Growing.add.eq_def, idle, value]
  rfl

/-- An addition takes effect at once, with the access at its end, provided that its stores are made
in the order of the source and seen so. From its call until then the links lead through the entries
that were on the list before, whoever looks something up or calls for another addition in between.
With the write after which the writer is idle again, they lead through the new entry and then
through these.

Proof: while the writer is busy the addition stays pending, and a turn leaves the values as they
are; the turn after which none is pending has put the value that was pending in front of them. -/
theorem addition_takes_effect (before during : List Turn) (add : Add)
    (idle : WriterIdle heap nwTos skb before)
    (underWay : ∀ early, early <+: during →
      ¬ WriterIdle heap nwTos skb (before ++ .add true add :: early))
    (values : List VseFlowEntry) (lead : LinksLead heap nwTos skb before values) :
    LinksLead heap nwTos skb (before ++ .add true add :: during) values ∧
      (WriterIdle heap nwTos skb (before ++ .add true add :: during ++ [.write]) →
        LinksLead heap nwTos skb (before ++ .add true add :: during ++ [.write])
          (add.entry :: values)) := by
  simp only [writer_idle_iff, links_lead_iff] at idle underWay lead ⊢
  subst lead
  obtain ⟨left, called⟩ := growing_add before add idle
  have reached (early : List Turn) : growing (before ++ .add true add :: early) =
      run (SharedLists.Growing.step ⟨zeroMatch, 0⟩) ⟨completed before, some (add.entry, left)⟩
        (early.map Turn.shared) := by
    rw [← called, growing, growing, ← run_append, ← List.map_append, List.append_assoc,
      List.singleton_append]
  obtain ⟨fewer, pending⟩ := SharedLists.pending_run (during.map Turn.shared)
    ⟨completed before, some (add.entry, left)⟩ add.entry left rfl (by
      intro early prefixed
      obtain ⟨turns, prefixedTurns, rfl⟩ := List.prefix_map_iff.mp prefixed
      rw [← reached]
      exact underWay turns prefixedTurns)
  rw [← reached] at pending
  have last : growing (before ++ .add true add :: during ++ [.write]) =
      (growing (before ++ .add true add :: during)).step ⟨zeroMatch, 0⟩ .write := by
    rw [growing, List.map_append, run_append]
    rfl
  constructor
  · exact (congrArg SharedLists.Growing.values pending).symm
  · intro ended
    rcases SharedLists.pending_step .write _ add.entry fewer (congrArg _ pending) with
      ⟨_, goesOn⟩ | completes
    · rw [last, goesOn] at ended
      cases ended
    · have values := congrArg SharedLists.Growing.values (last.trans completes)
      rw [pending] at values
      exact values.symm

def firstAddition : List Turn := List.replicate 6 .write

/-- The first addition of all takes effect with its last write. -/
theorem first_addition_takes_effect :
    LinksLead Heap.empty (fun _ _ => 0) (fun _ => received [] 0 (by decide) (by decide))
        ([] ++ .add true (.withoutCore zeroMatch) :: firstAddition ++ [.write])
        [(Add.withoutCore zeroMatch).entry] := by
  apply (addition_takes_effect _ _ _ [] firstAddition (.withoutCore zeroMatch) ?_ ?_ [] ?_).2
  · exact (writer_idle_iff _ _ _ _).mpr rfl
  · exact (writer_idle_iff _ _ _ _).mpr rfl
  · intro early prefixed
    rw [writer_idle_iff]
    obtain ⟨count, few, rfl⟩ : ∃ count ≤ 6, early = List.replicate count .write := by
      refine ⟨early.length, prefixed.length_le, ?_⟩
      exact List.eq_replicate_of_mem fun turn member =>
        List.eq_of_mem_replicate (prefixed.subset member)
    interval_cases count <;> decide
  · exact (links_lead_iff _ _ _ _ _).mpr rfl

end Results

end Vse.ConcurrentLookUps

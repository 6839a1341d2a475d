import Vse.Heaps
import Vse.SocketBuffer

/-!
# The core table

`vse_core_table.c`. The table and two samples of the kernel's CPU counters are arrays on the
heap. All three are allocated for as many elements as CPUs are online at that time, and
indexed by the ids of CPUs. A timer samples every possible CPU and enters the load of those
that are online.

The sets of CPUs and the counters belong to the kernel, and so does the conversion
`cputime64_to_clock_t`, which is any function here. The field `softirq` of a sample and the
field `flow_num` of the table are never used and left out, and so is what the code prints.
-/

namespace Vse.CoreTable

open Heaps SocketBuffer

/-- `NOT_VM` and `THRESHOLD` of `vse_core_table.h`. -/
def notVm : Byte := 0xff
def threshold : Nat := 40

/-- A set of CPUs by ascending ids, the order in which the kernel's loops visit them. The ids need
not be consecutive. -/
structure CpuMask where
  ids : List Nat
  ascending : ids.Pairwise (· < ·)
  nonempty : ids ≠ []

/-- The CPUs that are online are some of those possible. -/
structure OnlineMask (possible : CpuMask) extends CpuMask where
  within : ∀ i ∈ ids, i ∈ possible.ids

namespace CpuMask

def num (mask : CpuMask) : Nat := mask.ids.length

def Below (mask : CpuMask) (size : Nat) : Prop := ∀ i ∈ mask.ids, i < size

instance (mask : CpuMask) (size : Nat) : Decidable (mask.Below size) :=
  inferInstanceAs (Decidable (∀ i ∈ mask.ids, i < size))

end CpuMask

/-- `struct cpu_status`, and the fields of `kstat_cpu(i).cpustat` that are copied to it. The
member `softirq` is never set or read and is left out. -/
structure CpuStatus where
  user : BitVec 64
  nice : BitVec 64
  system : BitVec 64
deriving DecidableEq

/-- `struct vse_core_table`. -/
structure VseCoreTable where
  load : Byte
  vmId : Byte
deriving DecidableEq

def zeroStatus : CpuStatus := ⟨0, 0, 0⟩
def zeroCore : VseCoreTable := ⟨0, 0⟩

/-- The globals of the module, the arrays they lead to, and whether the timer is armed. -/
structure CoreState where
  cores : Heap (List VseCoreTable)
  stats : Heap (List CpuStatus)
  coreTable : Ptr
  prev : Ptr
  now : Ptr
  coreTableTimer : Bool

/-- The globals of a module that was just loaded. -/
def unallocated : CoreState := ⟨Heap.empty, Heap.empty, none, none, none, false⟩

/-- Sample the counters of all possible CPUs. The array has a place for each CPU that was online
when it was allocated, and the loop does not look at its size. -/
def vseGetCpuStatus (possible : CpuMask) (kstat : Nat → CpuStatus)
    (stats : Heap (List CpuStatus)) (stat : Ptr) : Except Fault (Heap (List CpuStatus)) :=
  possible.ids.foldlM (fun stats i => modifyAt stats stat i fun _ => kstat i) stats

/-- The sum of the three differences, each converted to clock ticks, that is assigned to `load`.
The member has eight bits and keeps the low ones. -/
def loadOf (clockT : BitVec 64 → BitVec 64) (now prev : CpuStatus) : Byte :=
  let user := now.user - prev.user
  let nice := now.nice - prev.nice
  let system := now.system - prev.system
  (clockT user + clockT nice + clockT system).setWidth 8

/-- Enter the load of every online CPU. -/
def vseGetCoreTableLoad (clockT : BitVec 64 → BitVec 64) (online : CpuMask) (state : CoreState) :
    Except Fault (Heap (List VseCoreTable)) :=
  online.ids.foldlM (fun cores i => do
    let now ← readAt state.stats state.now i
    let prev ← readAt state.stats state.prev i
    modifyAt cores state.coreTable i fun core => { core with load := loadOf clockT now prev })
    state.cores

def vseCopyPrevStatus (online : CpuMask) (state : CoreState) :
    Except Fault (Heap (List CpuStatus)) :=
  online.ids.foldlM (fun stats i => do
    let now ← readAt stats state.now i
    modifyAt stats state.prev i fun _ => now)
    state.stats

/-- Arm the timer. -/
def vseSetCoreTableTimer (state : CoreState) : CoreState := { state with coreTableTimer := true }

/-- What the timer does when it fires: sample, enter the loads, keep the samples for the next time
and arm itself again. -/
def vseUpdateCoreTable (clockT : BitVec 64 → BitVec 64) (possible online : CpuMask)
    (kstat : Nat → CpuStatus) (state : CoreState) : Except Fault CoreState := do
  let stats ← vseGetCpuStatus possible kstat state.stats state.now
  let state := { state with stats := stats }
  let cores ← vseGetCoreTableLoad clockT online state
  let state := { state with cores := cores }
  let stats ← vseCopyPrevStatus online state
  return vseSetCoreTableTimer { state with stats := stats }

/-- The loop of `vse_core_selection`: the first CPU that passes both tests, or else `irq`. -/
def firstCore (state : CoreState) (irq : Nat) : List Nat → Except Fault Nat
  | [] => .ok irq
  | i :: rest => do
    let core ← readAt state.cores state.coreTable i
    if core.load.toNat < threshold ∧ core.vmId ≠ notVm then return i
    firstCore state irq rest

/-- Select a core for the CPU that asks, which it is left with where no other passes. -/
def vseCoreSelection (smpProcessorId : Nat) (online : CpuMask) (state : CoreState) :
    Except Fault Nat :=
  firstCore state smpProcessorId online.ids

/-- Which of the three allocations succeed: the table, the samples kept, and the fresh samples. -/
structure Granted where
  coreTable : Bool
  prev : Bool
  now : Bool

/-- Allocate the arrays and arm the timer. The test after the third allocation is of `prev`
again, as it stands in the source. -/
def vseInitCoreTable (granted : Granted) (online : CpuMask) (state : CoreState) :
    Except Fault (Bool × CoreState) := do
  let (coreTable, cores) :=
    state.cores.alloc granted.coreTable (List.replicate online.num zeroCore)
  let state := { state with coreTable := coreTable, cores := cores }
  if state.coreTable = none then return (false, state)
  let cores ← online.ids.foldlM (fun cores i =>
    modifyAt cores state.coreTable i fun core => { core with vmId := notVm }) state.cores
  let state := { state with cores := cores }
  let (prev, stats) := state.stats.alloc granted.prev (List.replicate online.num zeroStatus)
  let state := { state with prev := prev, stats := stats }
  if state.prev = none then
    let cores ← state.cores.free state.coreTable
    return (false, { state with cores := cores })
  let (now, stats) := state.stats.alloc granted.now (List.replicate online.num zeroStatus)
  let state := { state with now := now, stats := stats }
  if state.prev = none then
    let cores ← state.cores.free state.coreTable
    let stats ← state.stats.free state.prev
    return (false, { state with cores := cores, stats := stats })
  return (true, vseSetCoreTableTimer state)

/-- Stop the timer and free the arrays. The globals keep their values, so that a second call would
free the same arrays. -/
def vseCleanUpCoreTable (state : CoreState) : Except Fault CoreState := do
  let state := { state with coreTableTimer := false }
  let cores ← state.cores.free state.coreTable
  let stats ← state.stats.free state.prev
  let stats ← stats.free state.now
  return { state with cores := cores, stats := stats }

section Loops

/-- An index that is not below the number of elements allocated. An array that was never allocated
has none, and the read is then through a null pointer. -/
def IndexFault (fault : Fault) : Prop := fault = .nullPointer ∨ fault = .outOfRange

theorem CpuMask.nodup (mask : CpuMask) : mask.ids.Nodup :=
  mask.ascending.imp fun {_ _} less => Nat.ne_of_lt less

/-- Sampling into an array that has a place for every possible CPU: each gets its counters and the
other places keep what they had. -/
theorem get_cpu_status_eq (possible : CpuMask) (kstat : Nat → CpuStatus)
    (stats : Heap (List CpuStatus)) (address size : Nat) (sample : Nat → CpuStatus)
    (present : stats.object address = some (tabulate size sample)) :
    vseGetCpuStatus possible kstat stats (some address) =
      if possible.Below size then
        .ok (stats.modify address (modifyAll possible.ids fun i _ => kstat i))
      else .error .outOfRange :=
  fold_modify_at stats address size _ _ (fun _ _ _ _ _ _ => rfl) possible.ids _ present
    (length_tabulate size sample)

/-- Sampling into an array that was never allocated. -/
theorem get_cpu_status_null (possible : CpuMask) (kstat : Nat → CpuStatus)
    (stats : Heap (List CpuStatus)) :
    vseGetCpuStatus possible kstat stats none = .error .nullPointer := by
  obtain ⟨first, rest, ids⟩ := List.exists_cons_of_ne_nil possible.nonempty
  rw [vseGetCpuStatus, ids]
  rfl

/-- Entering loads into a table with a place for every online CPU: each gets the load since its
last sample, and the others keep theirs. -/
theorem get_core_table_load_eq (clockT : BitVec 64 → BitVec 64) (online : CpuMask)
    (state : CoreState) (cores prevs nows size : Nat) (table : Nat → VseCoreTable)
    (prev now : Nat → CpuStatus)
    (coreTableAt : state.coreTable = some cores) (prevAt : state.prev = some prevs)
    (nowAt : state.now = some nows)
    (tablePresent : state.cores.object cores = some (tabulate size table))
    (prevPresent : state.stats.object prevs = some (tabulate size prev))
    (nowPresent : state.stats.object nows = some (tabulate size now)) :
    vseGetCoreTableLoad clockT online state =
      if online.Below size then
        .ok (state.cores.modify cores (modifyAll online.ids fun i core =>
          { core with load := loadOf clockT (now i) (prev i) }))
      else .error .outOfRange := by
  refine fold_modify_at state.cores cores size _ _ (fun heap items i _ present sized => ?_)
    online.ids _ tablePresent (length_tabulate size table)
  rw [coreTableAt, prevAt, nowAt, read_at_tabulate _ _ _ _ _ nowPresent,
    read_at_tabulate _ _ _ _ _ prevPresent]
  by_cases inside : i < size
  · rw [if_pos inside, if_pos inside]
    rfl
  · rw [if_neg inside, if_neg inside, modify_at_live heap cores i items _ present, sized,
      if_neg inside]
    rfl

theorem copy_prev_status_eq (online : CpuMask) (state : CoreState) (prevs nows size : Nat)
    (prev now : Nat → CpuStatus)
    (prevAt : state.prev = some prevs) (nowAt : state.now = some nows) (apart : nows ≠ prevs)
    (prevPresent : state.stats.object prevs = some (tabulate size prev))
    (nowPresent : state.stats.object nows = some (tabulate size now)) :
    vseCopyPrevStatus online state =
      if online.Below size then
        .ok (state.stats.modify prevs (modifyAll online.ids fun i _ => now i))
      else .error .outOfRange := by
  refine fold_modify_at state.stats prevs size _ _ (fun heap items i kept present sized => ?_)
    online.ids _ prevPresent (length_tabulate size prev)
  have nowKept : heap.object nows = some (tabulate size now) := (kept nows apart).trans nowPresent
  rw [prevAt, nowAt, read_at_tabulate _ _ _ _ _ nowKept]
  by_cases inside : i < size
  · rw [if_pos inside]
    rfl
  · rw [if_neg inside, modify_at_live heap prevs i items _ present, sized, if_neg inside]
    rfl

end Loops

section Contents

/-- The arrays are live, apart and of one size, and hold the given table and the samples
kept. The array of fresh samples may be missing. -/
structure Holds (size : Nat) (table : Nat → VseCoreTable) (prev : Nat → CpuStatus)
    (state : CoreState) : Prop where
  coreTable : ∃ address, state.coreTable = some address ∧
    state.cores.object address = some (tabulate size table)
  prev : ∃ address, state.prev = some address ∧
    state.stats.object address = some (tabulate size prev)
  now : ∀ address, state.now = some address →
    ∃ sample, state.stats.object address = some (tabulate size sample)
  apart : state.now ≠ state.prev

variable {size : Nat} {table : Nat → VseCoreTable} {prev : Nat → CpuStatus} {state : CoreState}

/-- A read of the table is in range up to the number of CPUs that were online when it was
allocated. -/
theorem Holds.read_core (holds : Holds size table prev state) (i : Nat) :
    readAt state.cores state.coreTable i =
      if i < size then .ok (table i) else .error .outOfRange := by
  obtain ⟨address, leads, present⟩ := holds.coreTable
  rw [leads, read_at_tabulate _ _ _ _ _ present]

/-- The firing of the timer, where the array of fresh samples is as large as all possible
CPUs need it: the online CPUs get the load since their sample was last kept, and their
samples are kept. -/
theorem Holds.update (holds : Holds size table prev state) (clockT : BitVec 64 → BitVec 64)
    {possible : CpuMask} (online : OnlineMask possible) (kstat : Nat → CpuStatus)
    (allocated : state.now ≠ none) (below : possible.Below size) :
    ∃ after, vseUpdateCoreTable clockT possible online.toCpuMask kstat state = .ok after ∧
      after.now = state.now ∧ after.coreTableTimer = true ∧
      Holds size
        (fun i => if i ∈ online.ids then
          { table i with load := loadOf clockT (kstat i) (prev i) } else table i)
        (fun i => if i ∈ online.ids then kstat i else prev i) after := by
  obtain ⟨cores, coreTableAt, tablePresent⟩ := holds.coreTable
  obtain ⟨prevs, prevAt, prevPresent⟩ := holds.prev
  obtain ⟨nows, nowAt⟩ := Option.ne_none_iff_exists'.mp allocated
  obtain ⟨old, oldPresent⟩ := holds.now nows nowAt
  have apart : nows ≠ prevs := fun same => holds.apart (by rw [nowAt, prevAt, same])
  have onlineBelow : online.Below size := fun i member => below i (online.within i member)
  -- The three arrays after the three loops.
  let sampled := state.stats.modify nows (modifyAll possible.ids fun i _ => kstat i)
  let now : Nat → CpuStatus := fun i => if i ∈ possible.ids then kstat i else old i
  have nowPresent : sampled.object nows = some (tabulate size now) := by
    rw [state.stats.modify_at_self nows _ _ oldPresent,
      modify_all_tabulate possible.ids _ size old possible.nodup]
  have prevKept : sampled.object prevs = some (tabulate size prev) :=
    (state.stats.modify_of_ne nows prevs _ apart.symm).trans prevPresent
  have nowOnline (i : Nat) (member : i ∈ online.ids) : now i = kstat i :=
    if_pos (online.within i member)
  let kept := sampled.modify prevs (modifyAll online.ids fun i _ => now i)
  let loaded := state.cores.modify cores (modifyAll online.ids fun i core =>
    { core with load := loadOf clockT (now i) (prev i) })
  refine ⟨vseSetCoreTableTimer { state with cores := loaded, stats := kept }, ?_, rfl, rfl, ?_⟩
  · have first : vseGetCpuStatus possible kstat state.stats state.now = .ok sampled := by
      rw [nowAt, get_cpu_status_eq possible kstat state.stats nows size old oldPresent,
        if_pos below]
    have second : vseGetCoreTableLoad clockT online.toCpuMask { state with stats := sampled } =
        .ok loaded :=
      (get_core_table_load_eq clockT online.toCpuMask { state with stats := sampled } cores prevs
        nows size table prev now coreTableAt prevAt nowAt tablePresent prevKept nowPresent).trans
        (if_pos onlineBelow)
    have third : vseCopyPrevStatus online.toCpuMask
        { state with stats := sampled, cores := loaded } = .ok kept :=
      (copy_prev_status_eq online.toCpuMask { state with stats := sampled, cores := loaded } prevs
        nows size prev now prevAt nowAt apart prevKept nowPresent).trans (if_pos onlineBelow)
    simp only [vseUpdateCoreTable, first, second, third, ok_bind, pure_ok]
  · refine ⟨⟨cores, coreTableAt, ?_⟩, ⟨prevs, prevAt, ?_⟩, fun address leads => ?_, holds.apart⟩
    · refine (state.cores.modify_at_self cores _ _ tablePresent).trans ?_
      rw [modify_all_tabulate online.ids _ size table online.nodup]
      apply congrArg some
      apply tabulate_congr
      intro i _
      split
      · rename_i member
        rw [nowOnline i member]
      · rfl
    · refine (sampled.modify_at_self prevs _ _ prevKept).trans ?_
      rw [modify_all_tabulate online.ids _ size prev online.nodup]
      apply congrArg some
      apply tabulate_congr
      intro i _
      split
      · rename_i member
        rw [nowOnline i member]
      · rfl
    · obtain rfl : nows = address := Option.some.inj (nowAt.symm.trans leads)
      exact ⟨now, (sampled.modify_of_ne prevs nows _ apart).trans nowPresent⟩

/-- A firing fails with an index out of range, or a null pointer, where that array is missing or
too small for the possible CPUs. -/
theorem Holds.update_fails (holds : Holds size table prev state)
    (clockT : BitVec 64 → BitVec 64) (possible online : CpuMask) (kstat : Nat → CpuStatus)
    (short : ¬ (state.now ≠ none ∧ possible.Below size)) :
    ∃ fault, vseUpdateCoreTable clockT possible online kstat state = .error fault ∧
      IndexFault fault := by
  cases nowAt : state.now with
  | none =>
    refine ⟨.nullPointer, ?_, .inl rfl⟩
    rw [vseUpdateCoreTable, nowAt, get_cpu_status_null]
    rfl
  | some nows =>
    obtain ⟨old, oldPresent⟩ := holds.now nows nowAt
    have outside : ¬ possible.Below size :=
      fun below => short ⟨by rw [nowAt]; exact Option.some_ne_none nows, below⟩
    have first := get_cpu_status_eq possible kstat state.stats nows size old oldPresent
    rw [if_neg outside] at first
    refine ⟨.outOfRange, ?_, .inr rfl⟩
    rw [vseUpdateCoreTable, nowAt, first]
    rfl

/-- Where no entry of the table names a VM, the selection passes every online CPU by and
returns the CPU that asks. -/
theorem Holds.core_selection (holds : Holds size table prev state)
    (unclaimed : ∀ i, i < size → (table i).vmId = notVm) (self : Nat) (online : CpuMask) :
    vseCoreSelection self online state =
      if online.Below size then .ok self else .error .outOfRange := by
  have scan (ids : List Nat) : firstCore state self ids =
      if ∀ i ∈ ids, i < size then .ok self else .error .outOfRange := by
    induction ids with
    | nil => rw [firstCore, if_pos fun i member => nomatch member]
    | cons i rest inductionHypothesis =>
      rw [firstCore, holds.read_core i]
      by_cases inside : i < size
      · have passed : ¬ ((table i).load.toNat < threshold ∧ (table i).vmId ≠ notVm) :=
          fun found => found.2 (unclaimed i inside)
        rw [if_pos inside]
        refine (if_neg passed).trans (inductionHypothesis.trans ?_)
        simp only [List.forall_mem_cons, inside, true_and]
      · rw [if_neg inside, if_neg fun all => inside (all i List.mem_cons_self)]
        rfl
  exact scan online.ids

end Contents

section Allocation

theorem CpuMask.mem_of_below (mask : CpuMask) (below : mask.Below mask.num) (i : Nat)
    (inside : i < mask.num) : i ∈ mask.ids := by
  have indices : mask.ids ⊆ List.range mask.num :=
    fun id member => List.mem_range.mpr (below id member)
  have all : mask.ids.Perm (List.range mask.num) :=
    (mask.nodup.subperm indices).perm_of_length_le (by rw [List.length_range, CpuMask.num])
  exact all.mem_iff.mpr (List.mem_range.mpr inside)

def markedCores (online : CpuMask) (cores : Heap (List VseCoreTable)) :
    Heap (List VseCoreTable) :=
  (cores.extend (List.replicate online.num zeroCore)).modify cores.next
    (modifyAll online.ids fun _ core => { core with vmId := notVm })

def sampleStats (online : CpuMask) (stats : Heap (List CpuStatus)) : Heap (List CpuStatus) :=
  stats.extend (List.replicate online.num zeroStatus)

theorem marked_cores_at (online : CpuMask) (cores : Heap (List VseCoreTable)) :
    (markedCores online cores).object cores.next = some (tabulate online.num fun i =>
      if i ∈ online.ids then ⟨0, notVm⟩ else zeroCore) := by
  have extended : (cores.extend (List.replicate online.num zeroCore)).object cores.next =
      some (tabulate online.num fun _ => zeroCore) := by
    rw [← replicate_eq_tabulate]
    exact cores.extend_at_next _
  rw [markedCores, Heap.modify_at_self _ _ _ _ extended,
    modify_all_tabulate online.ids _ online.num _ online.nodup]
  rfl

/-- Marking the entries of the online CPUs in a new table. -/
theorem mark_cores_eq (online : CpuMask) (cores : Heap (List VseCoreTable)) :
    (online.ids.foldlM (fun cores' i =>
        modifyAt cores' (some cores.next) i fun core => { core with vmId := notVm })
      (cores.extend (List.replicate online.num zeroCore))) =
      if online.Below online.num then .ok (markedCores online cores) else .error .outOfRange :=
  fold_modify_at _ cores.next online.num _ _ (fun _ _ _ _ _ _ => rfl) online.ids _
    (cores.extend_at_next _) List.length_replicate

/-- The state after an initialisation that reaches its end: three arrays one after the other, of
which the last may be missing, and the timer armed. -/
def initialised (granted : Granted) (online : CpuMask) (start : CoreState) : CoreState :=
  let allocated := (sampleStats online start.stats).alloc granted.now
    (List.replicate online.num zeroStatus)
  { cores := markedCores online start.cores
    stats := allocated.2
    coreTable := some start.cores.next
    prev := some start.stats.next
    now := allocated.1
    coreTableTimer := true }

/-- The state after one that finds no memory for the samples kept: the table was freed, and its
global still has the address. -/
def abandoned (online : CpuMask) (start : CoreState) : CoreState :=
  { start with
    cores := (markedCores online start.cores).remove start.cores.next
    coreTable := some start.cores.next
    prev := none }

/-- What the initialisation does, by which allocations succeed and whether the marking of the
online CPUs stays in range. -/
theorem init_core_table_eq (granted : Granted) (online : CpuMask) (start : CoreState) :
    vseInitCoreTable granted online start =
      if granted.coreTable = false then .ok (false, { start with coreTable := none })
      else if online.Below online.num then
        .ok (if granted.prev = false then (false, abandoned online start)
          else (true, initialised granted online start))
      else .error .outOfRange := by
  obtain ⟨coreTable, prev, now⟩ := granted
  cases coreTable with
  | false => rfl
  | true =>
    have marking := mark_cores_eq online start.cores
    have released := (markedCores online start.cores).free_live start.cores.next _
      (marked_cores_at online start.cores)
    simp only [vseInitCoreTable, Heap.alloc, if_true, reduceCtorEq, if_false, marking]
    by_cases below : online.Below online.num
    · simp only [if_pos below, ok_bind]
      cases prev with
      | false =>
        simp only [Bool.false_eq_true, if_false, if_true, released]
        rfl
      | true =>
        simp only [if_true, reduceCtorEq, if_false]
        rfl
    · simp only [if_neg below]
      rfl

theorem init_core_table_succeeds (granted : Granted) (online : CpuMask) (start : CoreState)
    (coreTable : granted.coreTable = true) (prev : granted.prev = true)
    (below : online.Below online.num) :
    vseInitCoreTable granted online start = .ok (true, initialised granted online start) := by
  rw [init_core_table_eq, coreTable, if_neg (by decide), if_pos below, prev, if_neg (by decide)]

/-- When the initialisation returns true, the table and the samples kept were allocated, and every
online CPU had a place. -/
theorem init_core_table_true (granted : Granted) (online : CpuMask) (start state : CoreState)
    (success : vseInitCoreTable granted online start = .ok (true, state)) :
    granted.coreTable = true ∧ granted.prev = true ∧ online.Below online.num ∧
      state = initialised granted online start := by
  obtain ⟨coreTable, prev, now⟩ := granted
  rw [init_core_table_eq] at success
  cases coreTable with
  | false => cases success
  | true =>
    by_cases below : online.Below online.num
    · simp only [Bool.true_eq_false, if_false, if_pos below] at success
      cases prev with
      | false => cases success
      | true =>
        cases success
        exact ⟨rfl, rfl, below, rfl⟩
    · simp only [Bool.true_eq_false, if_false, if_neg below] at success
      cases success

/-- The fresh arrays: no entry of the table names a VM and all samples are zero. -/
theorem holds_initialised (granted : Granted) (online : CpuMask) (start : CoreState)
    (below : online.Below online.num) :
    Holds online.num (fun _ => ⟨0, notVm⟩) (fun _ => zeroStatus)
      (initialised granted online start) := by
  have kept : (sampleStats online start.stats).object start.stats.next =
      some (tabulate online.num fun _ => zeroStatus) := by
    rw [← replicate_eq_tabulate]
    exact start.stats.extend_at_next _
  refine ⟨⟨start.cores.next, rfl, ?_⟩, ⟨start.stats.next, rfl, Heap.alloc_live _ _ _ _ _ kept⟩,
    fun address leads => ⟨fun _ => zeroStatus, ?_⟩, fun same => ?_⟩
  · refine (marked_cores_at online start.cores).trans (congrArg some ?_)
    exact tabulate_congr online.num _ _ fun i inside => if_pos (online.mem_of_below below i inside)
  · rw [← replicate_eq_tabulate]
    exact (Heap.alloc_at _ _ _ _ leads).2
  · have fresh := (Heap.alloc_at _ _ _ _ same).1
    have used := (sampleStats online start.stats).lt_next start.stats.next _ kept
    omega

/-- Whether the array of fresh samples is there is not checked: the test after its allocation is
of `prev` a second time. -/
theorem initialised_now (granted : Granted) (online : CpuMask) (start : CoreState) :
    (initialised granted online start).now ≠ none ↔ granted.now = true := by
  cases granted with
  | mk coreTable prev now => cases now <;> simp [initialised, Heap.alloc]

end Allocation

end Vse.CoreTable

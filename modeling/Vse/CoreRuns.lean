import Vse.CoreLoads

/-!
# Runs of the core table

After an initialisation the timer fires and cores are selected, in any order, while CPUs
come and go. No function enters a VM in the table, so every entry names none after any run.
The selection skips such entries: it looks at every online CPU and selects none of them.
-/

namespace Vse.CoreRuns

open Heaps CoreTable CoreLoads Runs

variable {possible : CpuMask}

/-- What may happen to an initialised table: the timer fires, or a CPU selects a core while
certain CPUs are online. -/
inductive CoreStep (possible : CpuMask) where
  | fire (firing : Firing possible)
  | select (smpProcessorId : Nat) (online : OnlineMask possible)

def coreStep (clockT : BitVec 64 → BitVec 64) (state : CoreState) :
    CoreStep possible → Except Fault CoreState
  | .fire firing =>
      vseUpdateCoreTable clockT possible firing.online.toCpuMask firing.kstat state
  | .select smpProcessorId online => do
      let _ ← vseCoreSelection smpProcessorId online.toCpuMask state
      return state

section Steps

variable (clockT : BitVec 64 → BitVec 64) (granted : Granted) (size : Nat)

/-- The arrays are of the given size, the one that is never checked is there if it was granted,
and no entry of the table names a VM. Nothing in the module ever assigns a VM to an entry, so this
is kept. -/
def Unclaimed (state : CoreState) : Prop :=
  ∃ table prev, Holds size table prev state ∧ (∀ i, i < size → (table i).vmId = notVm) ∧
    (state.now ≠ none ↔ granted.now = true)

/-- The arrays reach as far as the step needs it. -/
def Reaches : CoreStep possible → Prop
  | .fire _ => granted.now = true ∧ possible.Below size
  | .select _ online => online.Below size

instance : (step : CoreStep possible) → Decidable (Reaches granted size step)
  | .fire _ => inferInstanceAs (Decidable (_ ∧ _))
  | .select _ online => inferInstanceAs (Decidable (online.Below size))

/-- A successful initialisation leaves an unclaimed table. -/
theorem unclaimed_initialised (booted : CpuMask) (start state : CoreState)
    (success : vseInitCoreTable granted booted start = .ok (true, state)) :
    Unclaimed granted booted.num state := by
  obtain ⟨_, _, below, rfl⟩ := init_core_table_true granted booted start state success
  exact ⟨_, _, holds_initialised granted booted start below, fun _ _ => rfl,
    initialised_now granted booted start⟩

/-- A step for which the arrays reach far enough keeps the table unclaimed and the timer armed: a
firing writes loads and samples, and a selection writes nothing. -/
theorem step_reaching (state : CoreState) (step : CoreStep possible)
    (unclaimed : Unclaimed granted size state) (reaches : Reaches granted size step) :
    ∃ after, coreStep clockT state step = .ok after ∧ Unclaimed granted size after ∧
      (state.coreTableTimer = true → after.coreTableTimer = true) := by
  obtain ⟨table, prev, holds, unnamed, missing⟩ := unclaimed
  cases step with
  | fire firing =>
    obtain ⟨allocated, below⟩ := reaches
    obtain ⟨after, runs, nowKept, armed, held⟩ :=
      holds.update clockT firing.online firing.kstat (missing.mpr allocated) below
    refine ⟨after, runs, ⟨_, _, held, fun i inside => ?_, by rw [nowKept]; exact missing⟩,
      fun _ => armed⟩
    split
    · exact unnamed i inside
    · exact unnamed i inside
  | select smpProcessorId online =>
    refine ⟨state, ?_, ⟨table, prev, holds, unnamed, missing⟩, id⟩
    rw [coreStep, holds.core_selection unnamed, if_pos (show online.Below size from reaches)]
    rfl

/-- Any other step leaves an array, by an index past its end or a pointer to none. -/
theorem step_short (state : CoreState) (step : CoreStep possible)
    (unclaimed : Unclaimed granted size state) (short : ¬ Reaches granted size step) :
    ∃ fault, coreStep clockT state step = .error fault ∧ IndexFault fault := by
  obtain ⟨table, prev, holds, unnamed, missing⟩ := unclaimed
  cases step with
  | fire firing =>
    apply holds.update_fails clockT possible firing.online.toCpuMask firing.kstat
    intro enough
    exact short ⟨missing.mp enough.1, enough.2⟩
  | select smpProcessorId online =>
    refine ⟨.outOfRange, ?_, .inr rfl⟩
    rw [coreStep, holds.core_selection unnamed, if_neg (show ¬ online.Below size from short)]
    rfl

theorem step_unclaimed (state : CoreState) (step : CoreStep possible) (after : CoreState)
    (unclaimed : Unclaimed granted size state) (runs : coreStep clockT state step = .ok after) :
    Unclaimed granted size after := by
  by_cases reaches : Reaches granted size step
  · obtain ⟨after', runs', held⟩ := step_reaching clockT granted size state step unclaimed reaches
    exact Except.ok.inj (runs'.symm.trans runs) ▸ held.1
  · obtain ⟨fault, fails, _⟩ := step_short clockT granted size state step unclaimed reaches
    cases fails.symm.trans runs

end Steps

section Indices

variable (clockT : BitVec 64 → BitVec 64)

/-- No index of the step is outside its array. -/
def InRange (state : Except Fault CoreState) (step : CoreStep possible) : Prop :=
  ∀ fault, attempt (coreStep clockT) state step = .error fault → ¬ IndexFault fault

/-- No index of a run is outside its array: neither of the initialisation nor, after it succeeded,
of any step. -/
def RunInRange (granted : Granted) (booted : OnlineMask possible) (start : CoreState)
    (steps : List (CoreStep possible)) : Prop :=
  (∀ fault, vseInitCoreTable granted booted.toCpuMask start = .error fault → ¬ IndexFault fault) ∧
  ∀ state, vseInitCoreTable granted booted.toCpuMask start = .ok (true, state) →
    Along (attempt (coreStep clockT)) (InRange clockT) (.ok state) steps

theorem in_range_iff (granted : Granted) (size : Nat) (state : Except Fault CoreState)
    (step : CoreStep possible)
    (unclaimed : ∃ core, state = .ok core ∧ Unclaimed granted size core) :
    InRange clockT state step ↔ Reaches granted size step := by
  obtain ⟨core, rfl, unclaimed⟩ := unclaimed
  constructor
  · intro inRange
    by_contra short
    obtain ⟨fault, fails, index⟩ := step_short clockT granted size core step unclaimed short
    exact inRange fault fails index
  · intro reaches fault fails
    obtain ⟨after, runs, _⟩ := step_reaching clockT granted size core step unclaimed reaches
    cases runs.symm.trans fails

/-- A run of steps after a successful initialisation stays in range exactly when the arrays reach
far enough for each of them, since a step that stays in range leaves the sizes as they are. -/
theorem along_in_range_iff (granted : Granted) (size : Nat) (state : CoreState)
    (steps : List (CoreStep possible)) (unclaimed : Unclaimed granted size state) :
    Along (attempt (coreStep clockT)) (InRange clockT) (.ok state) steps ↔
      ∀ step ∈ steps, Reaches granted size step := by
  refine Iff.trans (along_congr_of_invariant (attempt (coreStep clockT)) _
    (fun _ step => Reaches granted size step)
    (fun state => ∃ core, state = .ok core ∧ Unclaimed granted size core)
    (in_range_iff clockT granted size) ?_ _ steps ⟨state, rfl, unclaimed⟩) (along_const_iff _ _ _ _)
  intro before step inRange holds
  have reaches := (in_range_iff clockT granted size before step holds).mp inRange
  obtain ⟨core, rfl, held⟩ := holds
  obtain ⟨after, runs, kept, _⟩ := step_reaching clockT granted size core step held reaches
  exact ⟨after, runs, kept⟩

/-- When the indices of a run are in range. The arrays have as many elements as CPUs were online
at the initialisation. Once the table is allocated, the ids of those CPUs must be indices. Once
the initialisation succeeded, the third array must be there and the ids of all possible CPUs must
be indices whenever the timer fires, and the ids of the CPUs online must be whenever a core is
selected.

Proof: the initialisation is followed through its allocations; it marks the online CPUs once the
table is there. After it succeeded the sizes of the arrays never change, so each later step is
judged by itself: a firing samples all possible CPUs, and a selection passes over all that are
online. -/
theorem run_in_range_iff (granted : Granted) (booted : OnlineMask possible) (start : CoreState)
    (steps : List (CoreStep possible)) :
    RunInRange clockT granted booted start steps ↔
      (granted.coreTable = true → booted.Below booted.num ∧
        (granted.prev = true → ∀ step ∈ steps, Reaches granted booted.num step)) := by
  have initial := init_core_table_eq granted booted.toCpuMask start
  obtain ⟨coreTable, prev, now⟩ := granted
  rw [RunInRange, initial]
  cases coreTable with
  | false => simp
  | true =>
    by_cases below : booted.Below booted.num
    · cases prev with
      | false => simp [below]
      | true =>
        have success :=
          init_core_table_succeeds ⟨true, true, now⟩ booted.toCpuMask start rfl rfl below
        have steady := along_in_range_iff clockT ⟨true, true, now⟩ booted.num _ steps
          (unclaimed_initialised _ booted.toCpuMask start _ success)
        simpa [below] using steady
    · simp [below, IndexFault]

def twoCpus : CpuMask := ⟨[0, 1], by decide, List.cons_ne_nil _ _⟩

def firstOnline : OnlineMask twoCpus := ⟨oneCpu, by decide⟩

def bothOnline : OnlineMask twoCpus := ⟨twoCpus, fun _ member => member⟩

/-- With one of two CPUs online at the initialisation, the first firing writes past the end of an
array of one element, as it samples both. -/
theorem second_cpu_out_of_range :
    ¬ RunInRange id allGranted firstOnline unallocated [.fire ⟨firstOnline, userTicks 0⟩] := by
  intro inRange
  exact (inRange.2 _ rfl).1 .outOfRange rfl (.inr rfl)

end Indices

section Selection

variable (clockT : BitVec 64 → BitVec 64)

/-- The CPU's load in the table is below the threshold. -/
def LowLoaded (state : CoreState) (i : Nat) : Prop :=
  ∃ core, readAt state.cores state.coreTable i = .ok core ∧ core.load.toNat < threshold

/-- When the selection does what it is for. In a state that an initialisation and any firings and
selections lead to, a CPU asks, and all ids of online CPUs are indices of the table. If some
online CPU is low-loaded, then the selection returns such a CPU, exactly when the CPU that asks is
one itself: no other is ever returned.

Proof: that no entry of the table names a VM holds after the initialisation and is kept by every
step. The loop wants an entry that does, so it passes every online CPU by, and the selection
returns the CPU that asks. -/
theorem core_selection_low_iff (granted : Granted) (booted : OnlineMask possible)
    (start state : CoreState)
    (success : vseInitCoreTable granted booted.toCpuMask start = .ok (true, state))
    (steps : List (CoreStep possible)) (after : CoreState)
    (reached : run (attempt (coreStep clockT)) (.ok state) steps = .ok after)
    (online : OnlineMask possible) (below : online.Below booted.num)
    (self : Nat) (asks : self ∈ online.ids) :
    ((∃ i ∈ online.ids, LowLoaded after i) →
        ∃ irq ∈ online.ids, vseCoreSelection self online.toCpuMask after = .ok irq ∧
          LowLoaded after irq) ↔
      ((∃ i ∈ online.ids, LowLoaded after i) → LowLoaded after self) := by
  have initial := unclaimed_initialised granted booted.toCpuMask start state success
  obtain ⟨_, _, holds, unnamed, _⟩ := reached_invariant (coreStep clockT)
    (Unclaimed granted booted.num) (fun before step after held =>
      step_unclaimed clockT granted booted.num before step after held)
    state steps initial after reached
  have selected : vseCoreSelection self online.toCpuMask after = .ok self :=
    (holds.core_selection unnamed self online.toCpuMask).trans (if_pos below)
  rw [selected]
  refine imp_congr_right fun _ => ⟨fun ⟨irq, _, same, low⟩ => ?_, fun low => ⟨self, asks, rfl, low⟩⟩
  rw [Except.ok.inj same]
  exact low

/-- A firing that finds the first of two CPUs busy for 50 ticks and the second idle. -/
def firstBusy : CoreStep twoCpus :=
  .fire ⟨bothOnline, fun i => if i = 0 then ⟨50, 0, 0⟩ else zeroStatus⟩

/-- The second CPU asks, which is idle, and is selected. -/
theorem idle_core_selects_itself : ∃ state after,
    vseInitCoreTable allGranted bothOnline.toCpuMask unallocated = .ok (true, state) ∧
    run (attempt (coreStep id)) (.ok state) [firstBusy] = .ok after ∧
    ∃ irq ∈ bothOnline.ids, vseCoreSelection 1 bothOnline.toCpuMask after = .ok irq ∧
      LowLoaded after irq := by
  refine ⟨_, _, rfl, rfl, (core_selection_low_iff id allGranted bothOnline unallocated _ rfl
    [firstBusy] _ rfl bothOnline (by decide) 1 (by decide)).mpr (fun _ => ?_) ⟨1, by decide, ?_⟩⟩
  · exact ⟨_, rfl, by decide⟩
  · exact ⟨_, rfl, by decide⟩

/-- The first CPU asks and is selected as well, busy as it is, though the second is idle. -/
theorem idle_core_passed_by : ∃ state after,
    vseInitCoreTable allGranted bothOnline.toCpuMask unallocated = .ok (true, state) ∧
    run (attempt (coreStep id)) (.ok state) [firstBusy] = .ok after ∧
    (∃ i ∈ bothOnline.ids, LowLoaded after i) ∧
    ¬ ∃ irq ∈ bothOnline.ids, vseCoreSelection 0 bothOnline.toCpuMask after = .ok irq ∧
      LowLoaded after irq := by
  refine ⟨_, _, rfl, rfl, ⟨1, by decide, _, rfl, by decide⟩, ?_⟩
  rintro ⟨irq, _, selected, core, read, low⟩
  cases selected
  cases read
  exact absurd low (by decide)

end Selection

end Vse.CoreRuns

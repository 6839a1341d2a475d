import Vse.CoreTable
import Vse.Runs
import Mathlib.Data.Nat.ModEq

/-!
# The loads of the core table

The timer fires any number of times after an initialisation, while CPUs come and go. Two
things are remembered of the CPUs besides: the counters at the previous sampling, from which
a load ought to be counted, and those at the last firing that found the CPU online, from
which the code counts it. The code starts the second at zero.
-/

namespace Vse.CoreLoads

open Heaps SocketBuffer CoreTable Runs

variable {possible : CpuMask}

/-- A firing of the timer: the CPUs that are online and the kernel's counters as the timer finds
them. -/
structure Firing (possible : CpuMask) where
  online : OnlineMask possible
  kstat : Nat → CpuStatus

/-- The counters at the previous sampling, and those a CPU was last counted up to, which is zero
until a firing finds it online. -/
structure History where
  sampled : Nat → CpuStatus
  counted : Nat → CpuStatus

/-- The history after a firing: all CPUs are sampled, and those online are counted up to that
sample. -/
def History.fire (history : History) (firing : Firing possible) : History where
  sampled := firing.kstat
  counted i := if i ∈ firing.online.ids then firing.kstat i else history.counted i

/-- The clock ticks of a CPU between two samples, as a number without bound. -/
def spent (clockT : BitVec 64 → BitVec 64) (since now : CpuStatus) : Nat :=
  (clockT (now.user - since.user)).toNat + (clockT (now.nice - since.nice)).toNat +
    (clockT (now.system - since.system)).toNat

def fireStep (clockT : BitVec 64 → BitVec 64) (state : Except Fault CoreState × History)
    (firing : Firing possible) : Except Fault CoreState × History :=
  (state.1.bind (vseUpdateCoreTable clockT possible firing.online.toCpuMask firing.kstat),
    state.2.fire firing)

/-- The firing leaves in the table, for every online CPU, exactly the ticks it spent since
the previous sampling. -/
def Exact (clockT : BitVec 64 → BitVec 64) (state : Except Fault CoreState × History)
    (firing : Firing possible) : Prop :=
  ∃ after, (fireStep clockT state firing).1 = .ok after ∧
    ∀ i ∈ firing.online.ids, ∃ core, readAt after.cores after.coreTable i = .ok core ∧
      core.load.toNat = spent clockT (state.2.sampled i) (firing.kstat i) ∧
      (core.load.toNat < threshold ↔
        spent clockT (state.2.sampled i) (firing.kstat i) < threshold)

/-- The arrays were allocated for all possible CPUs, and for every online CPU the ticks since the
previous sampling fit eight bits and differ by whole multiples of 256 from those since the CPU was
last counted. All of this is about the counters, and nothing about the table. -/
def Countable (clockT : BitVec 64 → BitVec 64) (granted : Granted) (size : Nat)
    (history : History) (firing : Firing possible) : Prop :=
  granted.now = true ∧ possible.Below size ∧
    ∀ i ∈ firing.online.ids,
      spent clockT (history.sampled i) (firing.kstat i) < 256 ∧
      spent clockT (history.counted i) (firing.kstat i) ≡
        spent clockT (history.sampled i) (firing.kstat i) [MOD 256]

/-- The load is the number of ticks since the sample that was kept, up to multiples of 256: the
member keeps eight bits of the sum. -/
theorem load_of_toNat (clockT : BitVec 64 → BitVec 64) (now prev : CpuStatus) :
    (loadOf clockT now prev).toNat = spent clockT prev now % 256 := by
  simp only [loadOf, spent, BitVec.toNat_setWidth, BitVec.toNat_add]
  omega

/-- It is the number since another sample exactly when that number fits and is the same up
to multiples of 256. -/
theorem load_of_exact_iff (clockT : BitVec 64 → BitVec 64) (now prev sampled : CpuStatus) :
    (loadOf clockT now prev).toNat = spent clockT sampled now ↔
      spent clockT sampled now < 256 ∧
        spent clockT prev now ≡ spent clockT sampled now [MOD 256] := by
  rw [load_of_toNat, Nat.ModEq]
  constructor
  · intro same
    have small := Nat.mod_lt (spent clockT prev now) (by decide : 256 > 0)
    rw [same] at small
    exact ⟨small, by rw [same, Nat.mod_eq_of_lt small]⟩
  · intro ⟨small, same⟩
    rw [same, Nat.mod_eq_of_lt small]

section Runs

variable (clockT : BitVec 64 → BitVec 64) (granted : Granted) (size : Nat)

/-- No firing went wrong, and the samples kept are the counters up to which the CPUs were counted.
This is the invariant that ties the arrays to the history. -/
def Tracks (state : Except Fault CoreState × History) : Prop :=
  ∃ core table, state.1 = .ok core ∧ Holds size table state.2.counted core ∧
    (core.now ≠ none ↔ granted.now = true)

/-- A firing in a large enough table keeps the arrays in step with the history, and enters for
each online CPU its load since it was last counted. -/
theorem fire_tracks (state : Except Fault CoreState × History) (firing : Firing possible)
    (tracks : Tracks granted size state) (allocated : granted.now = true)
    (below : possible.Below size) :
    Tracks granted size (fireStep clockT state firing) ∧
      ∃ after, (fireStep clockT state firing).1 = .ok after ∧
        ∀ i ∈ firing.online.ids, ∃ core, readAt after.cores after.coreTable i = .ok core ∧
          core.load = loadOf clockT (firing.kstat i) (state.2.counted i) := by
  obtain ⟨_, history⟩ := state
  obtain ⟨core, table, rfl, holds, missing⟩ := tracks
  obtain ⟨after, runs, nowKept, _, held⟩ :=
    holds.update clockT firing.online firing.kstat (missing.mpr allocated) below
  refine ⟨⟨after, _, runs, held, by rw [nowKept]; exact missing⟩, after, runs, fun i member => ?_⟩
  have inside := below i (firing.online.within i member)
  refine ⟨_, (held.read_core i).trans (if_pos inside), ?_⟩
  rw [if_pos member]

/-- In any other table the firing goes wrong: the array of fresh samples is missing or too short
for the possible CPUs. -/
theorem fire_fails (state : Except Fault CoreState × History) (firing : Firing possible)
    (tracks : Tracks granted size state) (after : CoreState)
    (runs : (fireStep clockT state firing).1 = .ok after) :
    granted.now = true ∧ possible.Below size := by
  obtain ⟨_, history⟩ := state
  obtain ⟨core, table, rfl, holds, missing⟩ := tracks
  by_contra short
  have missed : ¬ (core.now ≠ none ∧ possible.Below size) :=
    fun enough => short ⟨missing.mp enough.1, enough.2⟩
  obtain ⟨fault, fails, _⟩ :=
    holds.update_fails clockT possible firing.online.toCpuMask firing.kstat missed
  cases fails.symm.trans runs

/-- One firing is exact under the condition and under no other. -/
theorem exact_iff (state : Except Fault CoreState × History) (firing : Firing possible)
    (tracks : Tracks granted size state) :
    Exact clockT state firing ↔ Countable clockT granted size state.2 firing := by
  constructor
  · intro ⟨after, runs, exact⟩
    obtain ⟨allocated, below⟩ := fire_fails clockT granted size state firing tracks after runs
    refine ⟨allocated, below, ?_⟩
    intro i member
    obtain ⟨_, after', runs', loads⟩ :=
      fire_tracks clockT granted size state firing tracks allocated below
    obtain rfl : after = after' := Except.ok.inj (runs.symm.trans runs')
    obtain ⟨core, read, load, _⟩ := exact i member
    obtain ⟨core', read', loaded⟩ := loads i member
    obtain rfl : core = core' := Except.ok.inj (read.symm.trans read')
    rw [loaded] at load
    exact (load_of_exact_iff clockT _ _ _).mp load
  · intro ⟨allocated, below, countable⟩
    obtain ⟨_, after, runs, loads⟩ :=
      fire_tracks clockT granted size state firing tracks allocated below
    refine ⟨after, runs, ?_⟩
    intro i member
    obtain ⟨core, read, loaded⟩ := loads i member
    have load := (load_of_exact_iff clockT _ _ _).mpr (countable i member)
    rw [← loaded] at load
    exact ⟨core, read, load, by rw [load]⟩

/-- A successful initialisation starts a history in which nothing was counted yet, wherever the
counters stand. -/
theorem tracks_initialised (booted : OnlineMask possible) (start state : CoreState)
    (atLoad : Nat → CpuStatus)
    (success : vseInitCoreTable granted booted.toCpuMask start = .ok (true, state)) :
    Tracks granted booted.num (.ok state, ⟨atLoad, fun _ => zeroStatus⟩) := by
  obtain ⟨_, _, below, rfl⟩ := init_core_table_true granted booted.toCpuMask start state success
  exact ⟨_, _, rfl, holds_initialised granted booted.toCpuMask start below,
    initialised_now granted booted.toCpuMask start⟩

/-- When the loads are exact. After a successful initialisation, at which the counters stand
anywhere, every firing of a run enters exactly the ticks since the previous sampling if and only
if at each of them all arrays reach as far as the possible CPUs, those ticks fit eight bits, and
what is counted besides is a multiple of 256: at the first firing the ticks of a CPU before the
initialisation, at a later one those that it spent since the last firing that found it online.

Proof: the samples kept are the counters up to which each CPU was counted, which is invariant
under firings that do not go wrong. A load is then the ticks since that sample in eight bits, and
it equals the ticks since another sample exactly when these fit and are the same up to multiples
of 256. The condition says so of every firing in terms of the history, which does not look at the
arrays. -/
theorem loads_exact_iff (booted : OnlineMask possible) (start state : CoreState)
    (atLoad : Nat → CpuStatus)
    (success : vseInitCoreTable granted booted.toCpuMask start = .ok (true, state))
    (firings : List (Firing possible)) :
    Along (fireStep clockT) (Exact clockT) (.ok state, ⟨atLoad, fun _ => zeroStatus⟩) firings ↔
      Along History.fire (Countable clockT granted booted.num) ⟨atLoad, fun _ => zeroStatus⟩
        firings := by
  have initial := tracks_initialised granted booted start state atLoad success
  refine Iff.trans ?_ (along_abstracts (fireStep clockT) History.fire _ Prod.snd
    (fun _ _ => rfl) (.ok state, ⟨atLoad, fun _ => zeroStatus⟩) firings)
  refine along_congr_of_invariant (fireStep clockT) _ _ (Tracks granted booted.num)
    (fun before firing => exact_iff clockT granted booted.num before firing) ?_ _ firings initial
  intro before firing exact tracks
  obtain ⟨allocated, below, _⟩ :=
    (exact_iff clockT granted booted.num before firing tracks).mp exact
  exact (fire_tracks clockT granted booted.num before firing tracks allocated below).1

end Runs

section OneCpu

def oneCpu : CpuMask := ⟨[0], List.pairwise_singleton _ _, List.cons_ne_nil _ _⟩

def oneOnline : OnlineMask oneCpu := ⟨oneCpu, fun _ member => member⟩

def allGranted : Granted := ⟨true, true, true⟩

def userTicks (ticks : BitVec 64) : Nat → CpuStatus := fun _ => ⟨ticks, 0, 0⟩

/-- A CPU that works for 30 ticks and then for 60 is measured exactly, where nothing was spent
before the module was loaded. -/
theorem steady_cpu_measured : ∃ state,
    vseInitCoreTable allGranted oneOnline.toCpuMask unallocated = .ok (true, state) ∧
    Along (fireStep id) (Exact id) (.ok state, ⟨userTicks 0, fun _ => zeroStatus⟩)
      [⟨oneOnline, userTicks 30⟩, ⟨oneOnline, userTicks 90⟩] := by
  refine ⟨initialised allGranted oneCpu unallocated, rfl, ?_⟩
  refine (loads_exact_iff id allGranted oneOnline unallocated _ _ rfl _).mpr ⟨?_, ?_, trivial⟩
  all_goals
    refine ⟨rfl, by decide, fun i member => ?_⟩
    obtain rfl := List.mem_singleton.mp member
    decide

/-- A CPU that had spent 156 ticks when the module was loaded and works for 100 more looks idle at
the first firing, which counts 256 of them into eight bits. -/
theorem busy_cpu_looks_idle : ∃ state,
    vseInitCoreTable allGranted oneOnline.toCpuMask unallocated = .ok (true, state) ∧
    ¬ Along (fireStep id) (Exact id) (.ok state, ⟨userTicks 156, fun _ => zeroStatus⟩)
      [⟨oneOnline, userTicks 256⟩] := by
  refine ⟨initialised allGranted oneCpu unallocated, rfl, fun exact => ?_⟩
  have initial := tracks_initialised allGranted oneOnline unallocated _ (userTicks 156) rfl
  have countable := (exact_iff id allGranted 1 _ _ initial).mp exact.1
  exact absurd (countable.2.2 0 List.mem_cons_self).2 (by decide)

end OneCpu

section Totals

variable (clockT : BitVec 64 → BitVec 64) (i : Nat)

/-- The load that a firing enters for a CPU, if it finds it online. The list is empty or has one
element, so that the lists of a run's firings can be joined. -/
def entered (state : Except Fault CoreState × History) (firing : Firing possible) : List Byte :=
  if i ∈ firing.online.ids then
    match (fireStep clockT state firing).1.bind fun after =>
        readAt after.cores after.coreTable i with
    | .ok core => [core.load]
    | .error _ => []
  else []

variable {clockT} {units : Nat}

end Totals

end Vse.CoreLoads

import Vse.CoreRuns

/-!
# The life of the core table

Initialisations with any of the three allocations failing, firings, selections and
clean-ups, in every order in which they may come: an initialisation at the start and after
one that failed or a clean-up, a firing while the timer is armed, a selection after an
initialisation that returned true, a clean-up at any time.
-/

namespace Vse.CoreLifecycle

open Heaps CoreTable CoreLoads CoreRuns Runs

variable {possible : CpuMask}

/-- The globals of the module, and whether an initialisation returned true since the last
clean-up. -/
structure Lifecycle where
  core : CoreState
  ready : Bool

/-- What may happen in the life of the table: an initialisation, a use of the table, or a
clean-up, in any number. -/
inductive LifeEvent (possible : CpuMask) where
  | init (granted : Granted) (online : OnlineMask possible)
  | use (step : CoreStep possible)
  | cleanUp

def lifeStep (clockT : BitVec 64 → BitVec 64) (state : Lifecycle) :
    LifeEvent possible → Except Fault Lifecycle
  | .init granted online => do
      let (ready, core) ← vseInitCoreTable granted online.toCpuMask state.core
      return ⟨core, ready⟩
  | .use step => do
      let core ← coreStep clockT state.core step
      return ⟨core, state.ready⟩
  | .cleanUp => do
      let core ← vseCleanUpCoreTable state.core
      return ⟨core, false⟩

/-- When each may happen: an initialisation while no other is in effect, a firing while the timer
is armed, a selection after an initialisation has returned true. A clean-up may come at any time.
-/
def Legal (state : Lifecycle) : LifeEvent possible → Prop
  | .init _ _ => state.ready = false
  | .use (.fire _) => state.core.coreTableTimer = true
  | .use (.select _ _) => state.ready = true
  | .cleanUp => True

structure AllLive (core : CoreState) : Prop where
  coreTable : core.cores.Live core.coreTable
  prev : core.stats.Live core.prev
  now : core.stats.Live core.now

/-- An initialisation failed cleanly: the timer is not armed, and nothing that was allocated on
the way is live or led to. -/
structure CleanFailure (before after : CoreState) : Prop where
  disarmed : after.coreTableTimer = false
  cores : ∀ address, before.cores.next ≤ address →
    after.cores.object address = none ∧ after.coreTable ≠ some address
  stats : ∀ address, before.stats.next ≤ address →
    after.stats.object address = none ∧ after.prev ≠ some address ∧ after.now ≠ some address

/-- The step frees nothing twice; after it the arrays are live if the timer is armed or an
initialisation has returned true; an initialisation that returns false leaves nothing
behind. -/
structure Sound (clockT : BitVec 64 → BitVec 64) (before : Lifecycle)
    (event : LifeEvent possible) : Prop where
  freedOnce : lifeStep clockT before event ≠ .error .freedTwice
  live : ∀ after, lifeStep clockT before event = .ok after →
    after.core.coreTableTimer = true ∨ after.ready = true → AllLive after.core
  clean : ∀ granted online after, event = .init granted online →
    lifeStep clockT before event = .ok after → after.ready = false →
      CleanFailure before.core after.core

/-- What has become of the three arrays, as far as the events tell: there were none so far,
an initialisation got all of them for the given number of CPUs, a clean-up freed them, or a
step left an array, after which nothing is said. -/
inductive Arrays where
  | absent
  | held (size : Nat)
  | freed
  | left

/-- What an event makes of them. An initialisation whose first allocation is refused makes
nothing of them: the arrays that a clean-up freed stay freed. -/
def Arrays.after : Arrays → LifeEvent possible → Arrays
  | .left, _ => .left
  | arrays, .init granted online =>
      if granted.coreTable = false then arrays
      else if online.Below online.num then .held online.num else .left
  | .held size, .use step => if Reaches allGranted size step then .held size else .left
  | .held _, .cleanUp => .freed
  | arrays, _ => arrays

/-- An initialisation that gets its first array, and whose marks stay inside it, gets the
other two as well. A clean-up does not come while the arrays are freed already. -/
def Sheltered : Arrays → LifeEvent possible → Prop
  | .left, _ => True
  | _, .init granted online => granted.coreTable = true → online.Below online.num →
      granted.prev = true ∧ granted.now = true
  | .freed, .cleanUp => False
  | _, _ => True

/-- The globals while the arrays are as told. Freed arrays leave a global behind that still
leads to where one of them was. -/
def Arrays.Stand (core : CoreState) : Arrays → Prop
  | .absent => core.coreTable = none ∧ core.prev = none ∧ core.now = none
  | .held size => Unclaimed allGranted size core
  | .freed => core.stats.Dangling core.prev ∧ ¬ core.cores.Live core.coreTable ∧
      ¬ core.stats.Live core.now
  | .left => False

def Arrays.isHeld : Arrays → Bool
  | .held _ => true
  | _ => false

/-- The timer is armed, and the table ready, exactly while the arrays are held. The globals
look as the events tell, and none of them leads to memory that was never handed out. -/
structure Kept (arrays : Arrays) (state : Lifecycle) : Prop where
  timer : state.core.coreTableTimer = arrays.isHeld
  ready : state.ready = arrays.isHeld
  stand : arrays.Stand state.core
  coreTable : state.core.cores.Known state.core.coreTable
  prev : state.core.stats.Known state.core.prev
  now : state.core.stats.Known state.core.now

section Arrays

variable (arrays : Arrays) (granted : Granted) (online : OnlineMask possible)

/-- What an initialisation makes of arrays, whatever became of them before. -/
theorem after_init (going : arrays ≠ .left) : arrays.after (.init granted online) =
    if granted.coreTable = false then arrays
    else if online.Below online.num then .held online.num else .left := by
  cases arrays with
  | left => exact absurd rfl going
  | absent => rfl
  | held size => rfl
  | freed => rfl

/-- What is asked of an initialisation does not depend on what has become of the arrays before it.
-/
theorem sheltered_init_iff (going : arrays ≠ .left) : Sheltered arrays (.init granted online) ↔
    (granted.coreTable = true → online.Below online.num →
      granted.prev = true ∧ granted.now = true) := by
  cases arrays with
  | left => exact absurd rfl going
  | absent => exact Iff.rfl
  | held size => exact Iff.rfl
  | freed => exact Iff.rfl

theorem Kept.going (state : Lifecycle) (kept : Kept arrays state) : arrays ≠ .left := by
  rintro rfl
  exact kept.stand

end Arrays

section CleanUp

/-- A clean-up with a global that dangles frees an array twice. -/
theorem clean_up_dangling (core : CoreState)
    (dangling : core.cores.Dangling core.coreTable ∨ core.stats.Dangling core.prev ∨
      core.stats.Dangling core.now) :
    vseCleanUpCoreTable core = .error .freedTwice := by
  by_cases first : core.cores.Dangling core.coreTable
  · have fails := (core.cores.free_error_iff core.coreTable .freedTwice).mpr ⟨rfl, first⟩
    simp only [vseCleanUpCoreTable, fails, error_bind]
  · obtain ⟨cores, freedCores⟩ := core.cores.free_succeeds core.coreTable first
    by_cases second : core.stats.Dangling core.prev
    · have fails := (core.stats.free_error_iff core.prev .freedTwice).mpr ⟨rfl, second⟩
      simp only [vseCleanUpCoreTable, freedCores, fails, ok_bind, error_bind]
    · obtain ⟨stats, freedStats⟩ := core.stats.free_succeeds core.prev second
      have third := (dangling.resolve_left first).resolve_left second
      have fails := (stats.free_error_iff core.now .freedTwice).mpr
        ⟨rfl, core.stats.free_keeps_dangling core.prev core.now stats freedStats third⟩
      simp only [vseCleanUpCoreTable, freedCores, freedStats, fails, ok_bind, error_bind]

/-- Any other clean-up, of arrays that are apart, stops the timer and leaves no array live. That
they are apart matters: otherwise the second `kfree` would free what the first did. -/
theorem clean_up_steady (core : CoreState) (coreTable : ¬ core.cores.Dangling core.coreTable)
    (prev : ¬ core.stats.Dangling core.prev) (now : ¬ core.stats.Dangling core.now)
    (apart : core.stats.Live core.now → core.now ≠ core.prev) :
    ∃ after, vseCleanUpCoreTable core = .ok after ∧ after.coreTableTimer = false ∧
      (¬ after.cores.Live after.coreTable ∧ ¬ after.stats.Live after.prev ∧
        ¬ after.stats.Live after.now) ∧
      (after.cores.next = core.cores.next ∧ after.stats.next = core.stats.next) ∧
      after.coreTable = core.coreTable ∧ after.prev = core.prev ∧ after.now = core.now := by
  obtain ⟨cores, freedCores⟩ := core.cores.free_succeeds core.coreTable coreTable
  obtain ⟨stats, freedPrev⟩ := core.stats.free_succeeds core.prev prev
  have steady : ¬ stats.Dangling core.now := by
    rcases core.stats.steady_cases core.now now with null | live
    · rw [null]
      rintro ⟨_, same, _⟩
      cases same
    · exact (core.stats.free_keeps_live core.prev core.now stats freedPrev live
        (apart live)).not_dangling
  obtain ⟨freed, freedNow⟩ := stats.free_succeeds core.now steady
  refine ⟨{ core with coreTableTimer := false, cores := cores, stats := freed }, ?_, rfl,
    ⟨core.cores.free_not_live _ cores freedCores,
      stats.free_keeps_dead core.now core.prev freed freedNow
        (core.stats.free_not_live _ stats freedPrev),
      stats.free_not_live _ freed freedNow⟩,
    ⟨(core.cores.free_object _ cores freedCores).1,
      (stats.free_object _ freed freedNow).1.trans (core.stats.free_object _ stats freedPrev).1⟩,
    rfl, rfl, rfl⟩
  simp only [vseCleanUpCoreTable, freedCores, freedPrev, freedNow, ok_bind, pure_ok]

end CleanUp

section Steps

variable (clockT : BitVec 64 → BitVec 64) (arrays : Arrays) (before : Lifecycle)

/-- An unclaimed table with all arrays granted has all arrays, and they are apart. -/
theorem unclaimed_live (size : Nat) (core : CoreState)
    (unclaimed : Unclaimed allGranted size core) : AllLive core ∧ core.now ≠ core.prev := by
  obtain ⟨_, _, holds, _, missing⟩ := unclaimed
  obtain ⟨cores, coreTableAt, tablePresent⟩ := holds.coreTable
  obtain ⟨prevs, prevAt, prevPresent⟩ := holds.prev
  obtain ⟨nows, nowAt⟩ := Option.ne_none_iff_exists'.mp (missing.mpr rfl)
  obtain ⟨sample, nowPresent⟩ := holds.now nows nowAt
  exact ⟨⟨⟨cores, _, coreTableAt, tablePresent⟩, ⟨prevs, _, prevAt, prevPresent⟩,
    ⟨nows, _, nowAt, nowPresent⟩⟩, holds.apart⟩

theorem Kept.allLive (kept : Kept arrays before) (inUse : arrays.isHeld = true) :
    AllLive before.core := by
  cases arrays with
  | held size => exact (unclaimed_live size before.core kept.stand).1
  | absent => cases inUse
  | freed => cases inUse
  | left => cases inUse

theorem kept_ready (core : CoreState) (size : Nat) (unclaimed : Unclaimed allGranted size core)
    (armed : core.coreTableTimer = true) : Kept (.held size) ⟨core, true⟩ where
  timer := armed
  ready := rfl
  stand := unclaimed
  coreTable := (unclaimed_live size core unclaimed).1.coreTable.known
  prev := (unclaimed_live size core unclaimed).1.prev.known
  now := (unclaimed_live size core unclaimed).1.now.known

/-- A good end of a step: in a state in which the arrays are what the event makes of them and
nothing was left behind, or by leaving an array, which is not freeing one twice. -/
def EndsWell (event : LifeEvent possible) : Prop :=
  (∃ after, lifeStep clockT before event = .ok after ∧ Kept (arrays.after event) after ∧
    (∀ granted online, event = .init granted online → after.ready = false →
      CleanFailure before.core after.core)) ∨
  ∃ fault, lifeStep clockT before event = .error fault ∧ fault ≠ .freedTwice ∧
    arrays.after event = .left

/-- A step that ends well is sound. -/
theorem EndsWell.sound (event : LifeEvent possible)
    (ends : EndsWell clockT arrays before event) : Sound clockT before event := by
  rcases ends with ⟨after, runs, kept, clean⟩ | ⟨fault, fails, other, _⟩
  · constructor
    · intro twice
      cases runs.symm.trans twice
    · intro after' runs' inUse
      obtain rfl := Except.ok.inj (runs.symm.trans runs')
      exact kept.allLive _ _ (inUse.elim kept.timer.symm.trans kept.ready.symm.trans)
    · intro granted online after' same runs'
      obtain rfl := Except.ok.inj (runs.symm.trans runs')
      exact clean granted online same
  · constructor
    · intro twice
      exact other (Except.error.inj (fails.symm.trans twice))
    · intro after runs
      cases fails.symm.trans runs
    · intro _ _ after _ runs
      cases fails.symm.trans runs

/-- The outcomes of an initialisation: refused at the first allocation, a table left by its marks,
refused at the second, or successful whatever becomes of the third. -/
theorem life_init_eq (granted : Granted) (online : OnlineMask possible) :
    lifeStep clockT before (.init granted online) =
      if granted.coreTable = false then .ok ⟨{ before.core with coreTable := none }, false⟩
      else if online.Below online.num then
        .ok (if granted.prev = false then ⟨abandoned online.toCpuMask before.core, false⟩
          else ⟨initialised granted online.toCpuMask before.core, true⟩)
      else .error .outOfRange := by
  rw [lifeStep, init_core_table_eq]
  cases granted.coreTable with
  | false => rfl
  | true =>
    simp only [Bool.true_eq_false, if_false]
    by_cases below : online.Below online.num
    · simp only [if_pos below, ok_bind, pure_ok]
      cases granted.prev <;> rfl
    · simp only [if_neg below, error_bind]

theorem stand_forgetting (core : CoreState) (idle : arrays.isHeld = false)
    (stand : arrays.Stand core) : arrays.Stand { core with coreTable := none } := by
  cases arrays with
  | absent => exact ⟨rfl, stand.2⟩
  | held size => cases idle
  | freed =>
    refine ⟨stand.1, ?_, stand.2.2⟩
    rintro ⟨_, _, leads, _⟩
    cases leads
  | left => exact stand

/-- An initialisation that stops at the first allocation leaves the arrays as they were, and
no address of its own. -/
theorem init_refused (granted : Granted) (online : OnlineMask possible)
    (kept : Kept arrays before) (legal : before.ready = false)
    (refused : granted.coreTable = false) :
    EndsWell clockT arrays before (.init granted online) := by
  have outcome := life_init_eq clockT before granted online
  rw [refused, if_pos rfl] at outcome
  have idle : arrays.isHeld = false := kept.ready.symm.trans legal
  have disarmed : before.core.coreTableTimer = false := kept.timer.trans idle
  have same : arrays.after (.init granted online) = arrays :=
    (after_init arrays granted online kept.going).trans (if_pos refused)
  refine .inl ⟨_, outcome, ?_, fun _ _ _ _ => ?_⟩
  · rw [same]
    exact ⟨kept.timer, idle.symm, stand_forgetting arrays before.core idle kept.stand,
      (fun _ leads => nomatch leads), kept.prev, kept.now⟩
  · refine ⟨disarmed, fun address beyond => ?_, fun address beyond => ?_⟩
    · exact ⟨before.core.cores.unused address beyond, (Option.some_ne_none address).symm⟩
    · refine ⟨before.core.stats.unused address beyond, fun leads => ?_, fun leads => ?_⟩
      · exact absurd (kept.prev address leads) (by omega)
      · exact absurd (kept.now address leads) (by omega)

/-- An initialisation that gets all arrays, or leaves its table, ends well. -/
theorem init_granted (granted : Granted) (online : OnlineMask possible)
    (going : arrays ≠ .left) (coreTable : granted.coreTable = true)
    (others : online.Below online.num → granted.prev = true ∧ granted.now = true) :
    EndsWell clockT arrays before (.init granted online) := by
  have outcome := life_init_eq clockT before granted online
  rw [coreTable, if_neg (by decide)] at outcome
  have next := after_init arrays granted online going
  rw [coreTable, if_neg (by decide)] at next
  by_cases below : online.Below online.num
  · have all : granted = allGranted := by
      obtain ⟨_, _, _⟩ := granted
      obtain ⟨rfl, rfl⟩ := others below
      exact congrArg (fun first => Granted.mk first true true) coreTable
    rw [if_pos below] at next
    subst all
    rw [if_pos below, if_neg (by decide)] at outcome
    have success := init_core_table_succeeds allGranted online.toCpuMask before.core rfl rfl below
    refine .inl ⟨_, outcome, ?_, fun _ _ _ never => nomatch never⟩
    rw [next]
    exact kept_ready _ online.num
      (unclaimed_initialised allGranted online.toCpuMask before.core _ success) rfl
  · rw [if_neg below] at outcome
    exact .inr ⟨.outOfRange, outcome, by decide, next.trans (if_neg below)⟩

/-- A sound initialisation that gets its first array, and marks inside it, gets the others. -/
theorem init_gets_all (granted : Granted) (online : OnlineMask possible)
    (sound : Sound clockT before (.init granted online)) (allocated : granted.coreTable = true)
    (below : online.Below online.num) : granted.prev = true ∧ granted.now = true := by
  have outcome := life_init_eq clockT before granted online
  rw [allocated, if_neg (by decide), if_pos below] at outcome
  cases prev : granted.prev with
  | false =>
    rw [prev, if_pos rfl] at outcome
    have clean := sound.clean granted online _ rfl outcome rfl
    exact absurd rfl (clean.cores before.core.cores.next (le_refl _)).2
  | true =>
    rw [prev, if_neg (by decide)] at outcome
    obtain ⟨address, _, leads, _⟩ := (sound.live _ outcome (.inr rfl)).now
    refine ⟨rfl, (initialised_now granted online.toCpuMask before.core).mp ?_⟩
    rw [leads]
    exact Option.some_ne_none address

/-- A legal use of the table runs with all arrays live, or leaves an array. -/
theorem use_ends_well (step : CoreStep possible) (kept : Kept arrays before)
    (legal : Legal before (.use step)) : EndsWell clockT arrays before (.use step) := by
  have inUse : arrays.isHeld = true := by
    cases step with
    | fire firing => exact kept.timer.symm.trans legal
    | select smpProcessorId online => exact kept.ready.symm.trans legal
  have ready : before.ready = true := kept.ready.trans inUse
  have armed : before.core.coreTableTimer = true := kept.timer.trans inUse
  cases arrays with
  | absent => cases inUse
  | freed => cases inUse
  | left => cases inUse
  | held size =>
    have unclaimed : Unclaimed allGranted size before.core := kept.stand
    by_cases reaches : Reaches allGranted size step
    · obtain ⟨core, runs, held, keeps⟩ :=
        step_reaching clockT allGranted size before.core step unclaimed reaches
      have made : (Arrays.held size).after (.use step) = .held size := if_pos reaches
      refine .inl ⟨⟨core, true⟩, ?_, ?_, fun _ _ same => nomatch same⟩
      · simp only [lifeStep, runs, ready, ok_bind, pure_ok]
      · rw [made]
        exact kept_ready core size held (keeps armed)
    · obtain ⟨fault, fails, index⟩ :=
        step_short clockT allGranted size before.core step unclaimed reaches
      refine .inr ⟨fault, ?_, ?_, if_neg reaches⟩
      · simp only [lifeStep, fails, error_bind]
      · rcases index with rfl | rfl <;> decide

/-- A clean-up frees arrays that are held, and none where there are none: `kfree` of a null
pointer does nothing. -/
theorem clean_up_ends_well (kept : Kept arrays before)
    (sheltered : Sheltered arrays (.cleanUp : LifeEvent possible)) :
    EndsWell clockT arrays before (.cleanUp : LifeEvent possible) := by
  cases arrays with
  | freed => exact sheltered.elim
  | left => exact kept.stand.elim
  | absent =>
    obtain ⟨⟨cores, stats, coreTable, prev, now, timer⟩, ready⟩ := before
    obtain ⟨rfl, rfl, rfl⟩ := kept.stand
    exact .inl ⟨_, rfl, ⟨rfl, rfl, kept.stand, kept.coreTable, kept.prev, kept.now⟩,
      fun _ _ same => nomatch same⟩
  | held size =>
    obtain ⟨live, apart⟩ := unclaimed_live size before.core kept.stand
    obtain ⟨core, runs, disarmed, dead, ⟨coresNext, statsNext⟩, coreTableAt, prevAt, nowAt⟩ :=
      clean_up_steady before.core live.coreTable.not_dangling live.prev.not_dangling
        live.now.not_dangling fun _ => apart
    refine .inl ⟨⟨core, false⟩, ?_, ⟨disarmed, rfl, ⟨?_, dead.1, dead.2.2⟩, ?_, ?_, ?_⟩,
      fun _ _ same => nomatch same⟩
    · simp only [lifeStep, runs, ok_bind, pure_ok]
    · obtain ⟨address, _, leads, _⟩ := live.prev
      refine ⟨address, prevAt.trans leads, ?_⟩
      by_contra present
      obtain ⟨sample, found⟩ := Option.ne_none_iff_exists'.mp present
      exact dead.2.1 ⟨address, sample, prevAt.trans leads, found⟩
    · simp only [Heap.Known, coresNext, coreTableAt]
      exact kept.coreTable
    · simp only [Heap.Known, statsNext, prevAt]
      exact kept.prev
    · simp only [Heap.Known, statsNext, nowAt]
      exact kept.now

/-- A sound clean-up does not come after another one. -/
theorem clean_up_sheltered (kept : Kept arrays before)
    (sound : Sound clockT before (.cleanUp : LifeEvent possible)) :
    Sheltered arrays (.cleanUp : LifeEvent possible) := by
  cases arrays with
  | freed =>
    apply sound.freedOnce
    simp only [lifeStep, clean_up_dangling before.core (.inr (.inl kept.stand.1)), error_bind]
  | absent => trivial
  | held size => trivial
  | left => trivial

end Steps

section Lives

variable (clockT : BitVec 64 → BitVec 64)

/-- A legal and sheltered step ends well. -/
theorem ends_well_of_sheltered (arrays : Arrays) (before : Lifecycle)
    (event : LifeEvent possible) (kept : Kept arrays before) (legal : Legal before event)
    (sheltered : Sheltered arrays event) : EndsWell clockT arrays before event := by
  cases event with
  | init granted online =>
    cases allocated : granted.coreTable with
    | false => exact init_refused clockT arrays before granted online kept legal allocated
    | true =>
      have others := (sheltered_init_iff arrays granted online kept.going).mp sheltered
      exact init_granted clockT arrays before granted online kept.going allocated
        (others allocated)
  | use step => exact use_ends_well clockT arrays before step kept legal
  | cleanUp => exact clean_up_ends_well clockT arrays before kept sheltered

/-- A legal step is sound exactly when it is sheltered, in any state in which the arrays are as
told. One direction goes by the kind of step, the other by what a clean-up or an initialisation
would do wrong. -/
theorem sound_iff (arrays : Arrays) (before : Lifecycle) (event : LifeEvent possible)
    (kept : Kept arrays before) (legal : Legal before event) :
    Sound clockT before event ↔ Sheltered arrays event := by
  constructor
  · intro sound
    cases event with
    | init granted online =>
      exact (sheltered_init_iff arrays granted online kept.going).mpr
        (init_gets_all clockT before granted online sound)
    | use step => cases arrays <;> trivial
    | cleanUp => exact clean_up_sheltered clockT arrays before kept sound
  · intro sheltered
    exact (ends_well_of_sheltered clockT arrays before event kept legal sheltered).sound

def loaded : Lifecycle := ⟨unallocated, false⟩

theorem loaded_kept : Kept .absent loaded where
  timer := rfl
  ready := rfl
  stand := ⟨rfl, rfl, rfl⟩
  coreTable _ leads := nomatch leads
  prev _ leads := nomatch leads
  now _ leads := nomatch leads

/-- The run has come to a state in which the arrays are as told, or a step left an array. -/
def Tells (state : Except Fault Lifecycle) (arrays : Arrays) : Prop :=
  (∃ before, state = .ok before ∧ Kept arrays before) ∨
    (∃ fault, state = .error fault) ∧ arrays = .left

/-- A legal and sheltered step keeps it so, which is the step of the induction over a life. -/
theorem tells_step (state : Except Fault Lifecycle) (arrays : Arrays)
    (event : LifeEvent possible) (tells : Tells state arrays)
    (legal : UpToFailure Legal state event) (sheltered : Sheltered arrays event) :
    Tells (attempt (lifeStep clockT) state event) (arrays.after event) := by
  rcases tells with ⟨before, rfl, kept⟩ | ⟨⟨fault, rfl⟩, rfl⟩
  · have ends := ends_well_of_sheltered clockT arrays before event kept (legal before rfl) sheltered
    rcases ends with ⟨after, runs, held, _⟩ | ⟨fault, fails, _, left⟩
    · exact .inl ⟨after, runs, held⟩
    · exact .inr ⟨⟨fault, fails⟩, left⟩
  · exact .inr ⟨⟨fault, rfl⟩, rfl⟩

/-- When the life of the table is sound. In every run of legal steps from the loading of the
module on, up to the first that leaves an array, all steps are sound if and only if every
initialisation that gets its first array gets the other two as well, and after a clean-up
that freed the arrays no other comes before an initialisation has got new ones.

Proof: the events tell what has become of the arrays, and under the condition every step
leaves the globals as told: this is the invariant `Kept`. In such a state an initialisation
without its second array leaves the address of a freed table behind, one without its third
arms the timer all the same, and a clean-up of freed arrays frees one of them again; every
other step ends well. -/
theorem life_sound_iff (events : List (LifeEvent possible))
    (legal : Along (attempt (lifeStep clockT)) (UpToFailure Legal) (.ok loaded) events) :
    Along (attempt (lifeStep clockT)) (UpToFailure (Sound clockT)) (.ok loaded) events ↔
      Along Arrays.after Sheltered .absent events := by
  refine along_of_related _ _ Tells (UpToFailure Legal) _ _ ?_ (tells_step clockT) _ _ events
    (.inl ⟨loaded, rfl, loaded_kept⟩) legal
  rintro state arrays event (⟨before, rfl, kept⟩ | ⟨⟨fault, rfl⟩, rfl⟩) lawful
  · have same := sound_iff clockT arrays before event kept (lawful before rfl)
    constructor
    · intro sound
      exact same.mp (sound before rfl)
    · intro sheltered before' found
      exact Except.ok.inj found ▸ same.mpr sheltered
  · constructor
    · intro _
      cases event <;> trivial
    · intro _ before found
      cases found

/-- The table is set up, used once and cleaned up, then set up again and cleaned up. -/
def twoLives : List (LifeEvent oneCpu) :=
  [.cleanUp, .init allGranted oneOnline, .use (.fire ⟨oneOnline, userTicks 30⟩), .cleanUp,
    .init ⟨false, true, true⟩ oneOnline, .init allGranted oneOnline, .cleanUp]

/-- Such lives are sound, also with a clean-up before the first and, in between, an initialisation
that gets no memory. -/
theorem two_lives_sound :
    Along (attempt (lifeStep id)) (UpToFailure (Sound id)) (.ok loaded) twoLives := by
  refine (life_sound_iff id twoLives ⟨?_, ?_, ?_, ?_, ?_, ?_, ?_, trivial⟩).mpr
    ⟨trivial, ?_, trivial, trivial, ?_, ?_, trivial, trivial⟩
  · exact fun _ _ => trivial
  · exact fun before same => Except.ok.inj same ▸ rfl
  · exact fun before same => Except.ok.inj same ▸ rfl
  · exact fun _ _ => trivial
  · exact fun before same => Except.ok.inj same ▸ rfl
  · exact fun before same => Except.ok.inj same ▸ rfl
  · exact fun _ _ => trivial
  · exact fun _ _ => ⟨rfl, rfl⟩
  · exact fun never _ => nomatch never
  · exact fun _ _ => ⟨rfl, rfl⟩

/-- Without memory for the fresh samples the initialisation returns true and arms the timer
all the same. -/
theorem timer_armed_without_samples :
    Along (attempt (lifeStep id)) (UpToFailure Legal) (.ok loaded)
      [.init ⟨true, true, false⟩ oneOnline] ∧
    ¬ Along (attempt (lifeStep id)) (UpToFailure (Sound id)) (.ok loaded)
      [.init ⟨true, true, false⟩ oneOnline] := by
  refine ⟨⟨fun before same => Except.ok.inj same ▸ rfl, trivial⟩, fun sound => ?_⟩
  obtain ⟨address, _, leads, _⟩ := ((sound.1 loaded rfl).live _ rfl (.inl rfl)).now
  cases leads

end Lives

end Vse.CoreLifecycle

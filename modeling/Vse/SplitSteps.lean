import Mathlib.Data.List.Nodup
import Vse.Runs

/-!
# Steps in two halves

A step that writes in two places is not one step for those who share the places: between its halves
there may be halves of other steps. Where a first half and a second half may be exchanged, what an
interleaving leaves depends on the order of the first halves and on that of the second ones, and
any two orders are those of an interleaving. If for one of the two kinds the order does not matter,
every interleaving leaves what whole steps leave in some order.
-/

namespace SplitSteps

open Runs

universe u v w
variable {σ : Type u} {ε : Type v} {ι : Type w} (first second : σ → ε → σ)

/-- The whole step, one half after the other with nothing in between. -/
def whole (state : σ) (event : ε) : σ := second (first state event) event

/-- The state after first halves in one order and second halves in another. -/
def sorted (events : ι → ε) (start : σ) (firsts seconds : List ι) : σ :=
  run second (run first start (firsts.map events)) (seconds.map events)

section Sorting

variable (apart : ∀ state one other,
  second (first state other) one = first (second state one) other)

include apart

/-- A first half goes past any second halves, by induction on these. -/
theorem first_past (state : σ) (event : ε) (events : List ε) :
    first (run second state events) event = run second (first state event) events := by
  induction events generalizing state with
  | nil => rfl
  | cons head rest inductionHypothesis =>
    rw [run_cons, run_cons, inductionHypothesis, apart]

/-- Whole steps are first halves and then second halves in the same order. -/
theorem run_whole (start : σ) (events : List ε) :
    run (whole first second) start events = run second (run first start events) events := by
  induction events using List.reverseRecOn with
  | nil => rfl
  | append_singleton events event inductionHypothesis =>
    simp only [run_append, run_cons, run_nil]
    rw [inductionHypothesis, whole, first_past first second apart]

/-- The halves of either kind may be the first to be done, since a first half and a second one
commute whatever their steps. -/
theorem run_swap (start : σ) (firsts seconds : List ε) :
    run second (run first start firsts) seconds = run first (run second start seconds) firsts := by
  induction firsts generalizing start with
  | nil => rfl
  | cons event rest inductionHypothesis =>
    rw [run_cons, run_cons, inductionHypothesis, first_past first second apart]

end Sorting

section Interleavings

variable [DecidableEq ι]

/-- The state, and how many halves of each step are done. A step is named by its place, so that
two steps may have the same event. -/
structure Split (σ : Type u) (ι : Type w) where
  state : σ
  done : ι → Nat

/-- The next half of a step, if one is left; a step that is done does nothing more. -/
def half (events : ι → ε) (split : Split σ ι) (turn : ι) : Split σ ι :=
  match split.done turn with
  | 0 => ⟨first split.state (events turn), Function.update split.done turn 1⟩
  | 1 => ⟨second split.state (events turn), Function.update split.done turn 2⟩
  | _ => split

/-- Both halves in a row are the whole step. -/
theorem half_half (events : ι → ε) (split : Split σ ι) (turn : ι) (fresh : split.done turn = 0) :
    half first second events (half first second events split turn) turn =
      ⟨whole first second split.state (events turn), Function.update split.done turn 2⟩ := by
  simp only [half, fresh, Function.update_self, Function.update_idem, whole]

/-- The state that the turns lead to, when no step has begun. -/
def interleaved (events : ι → ε) (start : σ) (turns : List ι) : σ :=
  (run (half first second events) ⟨start, fun _ => 0⟩ turns).state

/-- All steps that begin come to their end. -/
def Finished (turns : List ι) : Prop := ∀ turn ∈ turns, 2 ≤ turns.count turn

/-- Whole steps in some order, each of those that began and each once, lead where the turns do. -/
def Serial (events : ι → ε) (start : σ) (turns : List ι) : Prop :=
  ∃ order : List ι, order.Nodup ∧ (∀ turn, turn ∈ order ↔ turn ∈ turns) ∧
    interleaved first second events start turns = run (whole first second) start (order.map events)

/-- The halves that are done, those of each kind in the order in which they came. -/
structure Sorted (events : ι → ε) (start : σ) (split : Split σ ι) (firsts seconds : List ι) :
    Prop where
  state : split.state = sorted first second events start firsts seconds
  begun : firsts.Nodup ∧ ∀ turn, turn ∈ firsts ↔ 1 ≤ split.done turn
  ended : seconds.Nodup ∧ ∀ turn, turn ∈ seconds ↔ 2 ≤ split.done turn

/-- A turn does one half of its step, up to the second. -/
theorem done_run (events : ι → ε) (start : σ) (turns : List ι) (turn : ι) :
    (run (half first second events) ⟨start, fun _ => 0⟩ turns).done turn =
      min 2 (turns.count turn) := by
  induction turns using List.reverseRecOn with
  | nil => simp
  | append_singleton turns other inductionHypothesis =>
    rw [run_append, run_cons, run_nil, half.eq_def, List.count_append, List.count_singleton]
    by_cases own : other = turn
    · subst own
      rw [inductionHypothesis]
      rcases counted : turns.count other with _ | _ | more
      · simp
      · simp
      · simp [inductionHypothesis, counted]
    · have different : turn ≠ other := fun same => own same.symm
      split <;> simp [own, different, inductionHypothesis]

variable (events : ι → ε) (start : σ)

/-- Turns that find their steps equally far do their halves one after the other, each in the order
in which its turn comes. -/
theorem run_halves (reached : Nat) (next : σ → ε → σ)
    (acts : ∀ split turn, split.done turn = reached → half first second events split turn =
      ⟨next split.state (events turn), Function.update split.done turn (reached + 1)⟩)
    (split : Split σ ι) (turns : List ι) (once : turns.Nodup)
    (alike : ∀ turn ∈ turns, split.done turn = reached) :
    run (half first second events) split turns =
      ⟨run next split.state (turns.map events),
        fun turn => if turn ∈ turns then reached + 1 else split.done turn⟩ := by
  induction turns generalizing split with
  | nil => simp
  | cons turn rest inductionHypothesis =>
    obtain ⟨new, later⟩ := List.nodup_cons.mp once
    rw [run_cons, acts split turn (alike turn List.mem_cons_self), inductionHypothesis _ later]
    · refine congrArg (Split.mk _) (funext fun other => ?_)
      by_cases own : other = turn
      · simp [own]
      · simp [own]
    · intro other member
      have different : other ≠ turn := fun same => new (same ▸ member)
      exact (Function.update_of_ne different _ _).trans
        (alike other (List.mem_cons_of_mem turn member))

/-- First halves in any order and then second halves in any other are an interleaving. -/
theorem interleaved_append (firsts seconds : List ι) (once : firsts.Nodup)
    (same : seconds.Perm firsts) :
    interleaved first second events start (firsts ++ seconds) =
      sorted first second events start firsts seconds := by
  have begins : ∀ (split : Split σ ι) turn, split.done turn = 0 →
      half first second events split turn =
        ⟨first split.state (events turn), Function.update split.done turn 1⟩ := by
    intro split turn fresh
    simp only [half, fresh]
  have ends : ∀ (split : Split σ ι) turn, split.done turn = 1 →
      half first second events split turn =
        ⟨second split.state (events turn), Function.update split.done turn 2⟩ := by
    intro split turn begun
    simp only [half, begun]
  rw [interleaved, run_append,
    run_halves first second events 0 first begins _ firsts once fun _ _ => rfl,
    run_halves first second events 1 second ends _ seconds (same.nodup_iff.mpr once)]
  · rfl
  · intro turn member
    exact if_pos (same.mem_iff.mp member)

variable (apart : ∀ state one other,
  second (first state other) one = first (second state one) other)

include apart

/-- One more half is the last of its kind. -/
theorem sorted_half (split : Split σ ι) (firsts seconds : List ι)
    (turn : ι) (held : Sorted first second events start split firsts seconds) :
    ∃ firsts seconds,
      Sorted first second events start (half first second events split turn) firsts seconds := by
  obtain ⟨state, ⟨firstsOnce, begun⟩, secondsOnce, ended⟩ := held
  rw [half.eq_def]
  split
  · rename_i fresh
    have notBegun : turn ∉ firsts := fun member => by
      have := (begun turn).mp member
      omega
    refine ⟨firsts ++ [turn], seconds, ?_, ⟨?_, ?_⟩, secondsOnce, ?_⟩
    · simp only [state, sorted, List.map_append, List.map_cons, List.map_nil, run_append, run_cons,
        run_nil]
      exact first_past first second apart _ _ _
    · exact List.nodup_append_comm.mp (List.nodup_cons.mpr ⟨notBegun, firstsOnce⟩)
    · intro other
      by_cases own : other = turn
      · simp [own]
      · simp [own, begun]
    · intro other
      by_cases own : other = turn
      · simp [own, ended, fresh]
      · simp [own, ended]
  · rename_i half
    have notEnded : turn ∉ seconds := fun member => by
      have := (ended turn).mp member
      omega
    refine ⟨firsts, seconds ++ [turn], ?_, ⟨firstsOnce, ?_⟩, ?_, ?_⟩
    · simp only [state, sorted, List.map_append, List.map_cons, List.map_nil, run_append, run_cons,
        run_nil]
    · intro other
      by_cases own : other = turn
      · simp [own, begun, half]
      · simp [own, begun]
    · exact List.nodup_append_comm.mp (List.nodup_cons.mpr ⟨notEnded, secondsOnce⟩)
    · intro other
      by_cases own : other = turn
      · simp [own]
      · simp [own, ended]
  · exact ⟨firsts, seconds, state, ⟨firstsOnce, begun⟩, secondsOnce, ended⟩

/-- Any turns sort into first and second halves, the halves of each kind in the order of the
turns. -/
theorem sorted_run (turns : List ι) :
    ∃ firsts seconds, Sorted first second events start
      (run (half first second events) ⟨start, fun _ => 0⟩ turns) firsts seconds := by
  induction turns using List.reverseRecOn with
  | nil => exact ⟨[], [], rfl, ⟨List.nodup_nil, by simp⟩, List.nodup_nil, by simp⟩
  | append_singleton turns turn inductionHypothesis =>
    obtain ⟨firsts, seconds, held⟩ := inductionHypothesis
    rw [run_append, run_cons, run_nil]
    exact sorted_half first second events start apart _ firsts seconds turn held

theorem interleaved_sorted (turns : List ι) (finished : Finished turns) :
    ∃ firsts seconds : List ι, firsts.Nodup ∧ (∀ turn, turn ∈ firsts ↔ turn ∈ turns) ∧
      seconds.Perm firsts ∧ interleaved first second events start turns =
        sorted first second events start firsts seconds := by
  obtain ⟨firsts, seconds, held⟩ := sorted_run first second events start apart turns
  have all (turn : ι) (count : Nat) (inside : 1 ≤ count ∧ count ≤ 2) :
      count ≤ min 2 (turns.count turn) ↔ turn ∈ turns := by
    constructor
    · intro begun
      exact List.count_pos_iff.mp (by omega)
    · intro member
      have := finished turn member
      omega
  have begun (turn : ι) : turn ∈ firsts ↔ turn ∈ turns := by
    rw [held.begun.2, done_run, all turn 1 (by decide)]
  have ended (turn : ι) : turn ∈ seconds ↔ turn ∈ turns := by
    rw [held.ended.2, done_run, all turn 2 (by decide)]
  refine ⟨firsts, seconds, held.begun.1, begun, ?_, held.state⟩
  apply (List.perm_ext_iff_of_nodup held.ended.1 held.begun.1).mpr
  intro turn
  rw [begun, ended]

/-- All interleavings are serial exactly when any order of the first halves and any order of the
second ones lead where some order of whole steps does. This takes the interleaving out of the
question and leaves two orders. -/
theorem serial_iff_sorted :
    (∀ turns : List ι, Finished turns → Serial first second events start turns) ↔
      ∀ firsts seconds : List ι, firsts.Nodup → seconds.Perm firsts →
        ∃ order : List ι, order.Perm firsts ∧ sorted first second events start firsts seconds =
          sorted first second events start order order := by
  constructor
  · intro serial firsts seconds once same
    have finished : Finished (firsts ++ seconds) := by
      intro turn member
      have inFirsts : turn ∈ firsts := by
        rcases List.mem_append.mp member with inFirsts | inSeconds
        · exact inFirsts
        · exact same.mem_iff.mp inSeconds
      rw [List.count_append, same.count_eq, List.count_eq_one_of_mem once inFirsts]
    obtain ⟨order, orderOnce, members, reached⟩ := serial _ finished
    refine ⟨order, (List.perm_ext_iff_of_nodup orderOnce once).mpr fun turn => ?_, ?_⟩
    · rw [members, List.mem_append, same.mem_iff, or_self]
    · rw [← interleaved_append first second events start firsts seconds once same, reached,
        run_whole first second apart]
      rfl
  · intro possible turns finished
    obtain ⟨firsts, seconds, once, members, same, reached⟩ :=
      interleaved_sorted first second events start apart turns finished
    obtain ⟨order, permuted, left⟩ := possible firsts seconds once same
    refine ⟨order, permuted.nodup_iff.mpr once, ?_, ?_⟩
    · intro turn
      rw [permuted.mem_iff, members]
    · rw [reached, left, run_whole first second apart]
      rfl

end Interleavings

end SplitSteps

import Mathlib.Data.List.DropRight

/-!
# Runs of a deterministic machine

A machine is a step function on states and events; a run folds it over a finite
list of events. `Along` states a law of every step of a run, as the step meets
it: in the state the earlier events lead to. The rules below turn what one step
preserves into what a whole run preserves, for an unconditional step, for a step
that is only good under a law, and for a machine that an abstraction maps onto
another. An event that resets the machine cuts a run short: only the events after
the last reset matter. A place that is written on the way holds what was written last. Steps
that commute may come in any order.
-/

namespace Runs

universe u v w x
variable {σ : Type u} {ε : Type v} {τ : Type w} {δ : Type x}

/-- Feed the events to the machine, oldest first, and take the state that it ends in. -/
def run (step : σ → ε → σ) (start : σ) (events : List ε) : σ := events.foldl step start

@[simp] theorem run_nil (step : σ → ε → σ) (start : σ) : run step start [] = start := rfl

@[simp] theorem run_cons (step : σ → ε → σ) (start : σ) (event : ε) (rest : List ε) :
    run step start (event :: rest) = run step (step start event) rest := rfl

/-- A run over two lists continues the first run with the second list. -/
theorem run_append (step : σ → ε → σ) (start : σ) (first second : List ε) :
    run step start (first ++ second) = run step (run step start first) second :=
  List.foldl_append

/-- The law holds at each step, of the state before it and its event. A law of this kind can say
what an environment promises, or what ought to be true of every step. -/
def Along (step : σ → ε → σ) (law : σ → ε → Prop) : σ → List ε → Prop
  | _, [] => True
  | start, event :: rest => law start event ∧ Along step law (step start event) rest

/-- A law along a run over two lists is a law along both parts. -/
theorem along_append (step : σ → ε → σ) (law : σ → ε → Prop) (start : σ)
    (first second : List ε) :
    Along step law start (first ++ second) ↔
      Along step law start first ∧ Along step law (run step start first) second := by
  induction first generalizing start with
  | nil => simp [Along]
  | cons head rest inductionHypothesis =>
    simp only [List.cons_append, Along, inductionHypothesis, run_cons, and_assoc]

/-- A law of the event alone holds along a run exactly when every event meets it. -/
theorem along_const_iff (step : σ → ε → σ) (law : ε → Prop) (start : σ) (events : List ε) :
    Along step (fun _ event => law event) start events ↔ ∀ event ∈ events, law event := by
  induction events generalizing start with
  | nil => simp [Along]
  | cons head rest inductionHypothesis => simp [Along, inductionHypothesis]

/-- Laws that agree at every step agree along every run, whatever the machine does. -/
theorem along_congr (step : σ → ε → σ) (law other : σ → ε → Prop)
    (agree : ∀ state event, law state event ↔ other state event)
    (start : σ) (events : List ε) :
    Along step law start events ↔ Along step other start events := by
  induction events generalizing start with
  | nil => exact Iff.rfl
  | cons head rest inductionHypothesis => simp only [Along, agree, inductionHypothesis]

/-- What every lawful step preserves, a run whose steps are all lawful preserves. With the law
that is always true, this is the rule for invariants. -/
theorem run_invariant_of_along (step : σ → ε → σ) (law : σ → ε → Prop) (invariant : σ → Prop)
    (preserved : ∀ state event, law state event → invariant state → invariant (step state event))
    (start : σ) (events : List ε) (lawful : Along step law start events)
    (initial : invariant start) : invariant (run step start events) := by
  induction events generalizing start with
  | nil => exact initial
  | cons event rest inductionHypothesis =>
    exact inductionHypothesis (step start event) lawful.2
      (preserved start event lawful.1 initial)

/-- Where the steps that obey a law preserve an invariant, a law that is the same thing
under the invariant is the same thing along every run that starts in it. -/
theorem along_congr_of_invariant (step : σ → ε → σ) (law other : σ → ε → Prop)
    (invariant : σ → Prop)
    (agree : ∀ state event, invariant state → (law state event ↔ other state event))
    (preserved : ∀ state event, law state event → invariant state → invariant (step state event))
    (start : σ) (events : List ε) (initial : invariant start) :
    Along step law start events ↔ Along step other start events := by
  induction events generalizing start with
  | nil => exact Iff.rfl
  | cons head rest inductionHypothesis =>
    simp only [Along, ← agree start head initial]
    refine and_congr_right fun lawful => ?_
    exact inductionHypothesis (step start head) (preserved start head lawful initial)

/-- When an abstraction of states and one of events commute with a single step, they commute with
every run: abstracting at the end or at the start is the same. -/
theorem run_abstracts (step : σ → ε → σ) (abstractStep : τ → δ → τ)
    (state : σ → τ) (event : ε → δ)
    (commutes : ∀ before input, state (step before input) =
      abstractStep (state before) (event input))
    (start : σ) (events : List ε) :
    state (run step start events) = run abstractStep (state start) (events.map event) := by
  induction events generalizing start with
  | nil => rfl
  | cons head rest inductionHypothesis =>
    rw [run_cons, inductionHypothesis, commutes, List.map_cons, run_cons]

/-- Where a step keeps two machines related, while the other one runs over the events that the
step's event stands for, so does a run. -/
theorem run_simulates (step : σ → ε → σ) (other : τ → δ → τ) (related : σ → τ → Prop)
    (standsFor : ε → List δ)
    (simulates : ∀ state abstract event, related state abstract →
      related (step state event) (run other abstract (standsFor event)))
    (start : σ) (abstract : τ) (events : List ε) (initial : related start abstract) :
    related (run step start events) (run other abstract (events.flatMap standsFor)) := by
  induction events generalizing start abstract with
  | nil => exact initial
  | cons event rest inductionHypothesis =>
    rw [run_cons, List.flatMap_cons, run_append]
    exact inductionHypothesis _ _ (simulates start abstract event initial)

theorem run_unchanged (step : σ → ε → σ) (observe : σ → τ)
    (unchanged : ∀ state event, observe (step state event) = observe state)
    (start : σ) (events : List ε) : observe (run step start events) = observe start := by
  induction events generalizing start with
  | nil => rfl
  | cons event rest inductionHypothesis => rw [run_cons, inductionHypothesis, unchanged]

/-- A law of what an abstraction keeps of the state may be followed along the abstract run, which
is all that it depends on. -/
theorem along_abstracts (step : σ → ε → σ) (abstractStep : τ → ε → τ) (law : τ → ε → Prop)
    (state : σ → τ)
    (commutes : ∀ before event, state (step before event) = abstractStep (state before) event)
    (start : σ) (events : List ε) :
    Along step (fun before event => law (state before) event) start events ↔
      Along abstractStep law (state start) events := by
  induction events generalizing start with
  | nil => exact Iff.rfl
  | cons event rest inductionHypothesis =>
    simp only [Along, inductionHypothesis, commutes]

/-- A law along a run may be followed along the run of a second machine on the same events.
Along the runs that obey a given law it is enough that the law is the same thing as a
condition of the second machine in related states, and that a step which meets the condition
keeps the states related. -/
theorem along_of_related (step : σ → ε → σ) (other : τ → ε → τ) (related : σ → τ → Prop)
    (given law : σ → ε → Prop) (condition : τ → ε → Prop)
    (agree : ∀ state abstract event, related state abstract → given state event →
      (law state event ↔ condition abstract event))
    (preserved : ∀ state abstract event, related state abstract → given state event →
      condition abstract event → related (step state event) (other abstract event))
    (start : σ) (abstract : τ) (events : List ε) (initial : related start abstract)
    (lawful : Along step given start events) :
    Along step law start events ↔ Along other condition abstract events := by
  induction events generalizing start abstract with
  | nil => exact Iff.rfl
  | cons event rest inductionHypothesis =>
    simp only [Along, agree start abstract event initial lawful.1]
    refine and_congr_right fun meets => ?_
    exact inductionHypothesis _ _ (preserved start abstract event initial lawful.1 meets) lawful.2

section Resets

/-- The events after the last reset; all events, where there was none. Nothing before it can
matter to a machine that the reset returns to its origin. -/
def sinceReset (resets : ε → Bool) (events : List ε) : List ε :=
  events.rtakeWhile fun event => !resets event

/-- One more event starts the count anew or adds to it, depending on whether it is a reset. -/
theorem since_reset_concat (resets : ε → Bool) (events : List ε) (event : ε) :
    sinceReset resets (events ++ [event]) =
      if resets event then [] else sinceReset resets events ++ [event] := by
  rw [sinceReset, List.rtakeWhile_concat]
  cases resets event <;> rfl

theorem not_reset_since (resets : ε → Bool) (events : List ε) (event : ε)
    (member : event ∈ sinceReset resets events) : resets event = false := by
  have passed := List.mem_rtakeWhile_imp member
  rwa [Bool.not_eq_true'] at passed

/-- The events since the last reset are counted alike before and after each is mapped to
what it stands for. -/
theorem since_reset_map (resets : δ → Bool) (view : ε → δ) (events : List ε) :
    (sinceReset (fun event => resets (view event)) events).map view =
      sinceReset resets (events.map view) := by
  rw [sinceReset, sinceReset, List.rtakeWhile, List.rtakeWhile, ← List.map_reverse,
    List.takeWhile_map, List.map_reverse]
  rfl

/-- A run ends where the events since the last reset lead from the machine's origin; where
there was no reset, from the start. -/
theorem run_since_reset (step : σ → ε → σ) (resets : ε → Bool) (origin : σ)
    (forgets : ∀ state event, resets event = true → step state event = origin)
    (start : σ) (events : List ε) :
    run step start events =
      run step (if events.any resets then origin else start) (sinceReset resets events) := by
  induction events using List.reverseRecOn with
  | nil => rfl
  | append_singleton events event inductionHypothesis =>
    rw [run_append, since_reset_concat, List.any_append]
    cases isReset : resets event with
    | true =>
      simp only [run_cons, run_nil, List.any_cons, isReset, Bool.true_or, Bool.or_true,
        ↓reduceIte]
      exact forgets _ event isReset
    | false =>
      simp only [List.any_cons, List.any_nil, isReset, Bool.or_false, Bool.false_eq_true,
        ↓reduceIte, run_append, run_cons, run_nil]
      rw [inductionHypothesis]

end Resets

section Failures

variable {φ : Type w}

/-- A machine whose steps may fail stops at the first failure, and keeps the error from then on
whatever comes. -/
def attempt (step : σ → ε → Except φ σ) (state : Except φ σ) (event : ε) : Except φ σ :=
  state.bind fun before => step before event

@[simp] theorem attempt_ok (step : σ → ε → Except φ σ) (before : σ) (event : ε) :
    attempt step (.ok before) event = step before event := rfl

/-- What every step that succeeds preserves holds of the state that a run reaches, if the run
reaches one at all. -/
theorem reached_invariant (step : σ → ε → Except φ σ) (invariant : σ → Prop)
    (preserved : ∀ before event after, invariant before → step before event = .ok after →
      invariant after)
    (start : σ) (events : List ε) (initial : invariant start) (after : σ)
    (reached : run (attempt step) (.ok start) events = .ok after) : invariant after := by
  have all : ∀ state, run (attempt step) (.ok start) events = .ok state → invariant state :=
    run_invariant_of_along (attempt step) (fun _ _ => True)
      (fun state => ∀ before, state = .ok before → invariant before)
      (fun state event _ holds after runs => by
        cases state with
        | error fault => cases runs
        | ok before => exact preserved before event after (holds before rfl) runs)
      (.ok start) events ((along_const_iff _ _ _ _).mpr fun _ _ => trivial)
      (fun before same => Except.ok.inj same ▸ initial)
  exact all after reached

/-- A machine whose every step succeeds and keeps to a second machine runs without failure, and
keeps to it. -/
theorem attempt_simulates (step : σ → ε → Except φ σ) (abstractStep : τ → ε → τ)
    (related : σ → τ → Prop)
    (simulates : ∀ before abstract event, related before abstract →
      ∃ after, step before event = .ok after ∧ related after (abstractStep abstract event))
    (start : σ) (abstract : τ) (events : List ε) (initial : related start abstract) :
    ∃ after, run (attempt step) (.ok start) events = .ok after ∧
      related after (run abstractStep abstract events) := by
  induction events generalizing start abstract with
  | nil => exact ⟨start, rfl, initial⟩
  | cons event rest inductionHypothesis =>
    obtain ⟨middle, runs, kept⟩ := simulates start abstract event initial
    obtain ⟨after, runsRest, keptRest⟩ := inductionHypothesis middle _ kept
    refine ⟨after, ?_, keptRest⟩
    rw [run_cons, attempt_ok, runs]
    exact runsRest

/-- A law of the steps taken before the first failure, and of the one that fails. After a failure
it asks for nothing. -/
def UpToFailure (law : σ → ε → Prop) (state : Except φ σ) (event : ε) : Prop :=
  ∀ before, state = .ok before → law before event

/-- Where the steps that obey a law preserve an invariant, a law that is the same thing under
the invariant is the same thing up to the first failure of every run. -/
theorem up_to_failure_congr (step : σ → ε → Except φ σ) (law other : σ → ε → Prop)
    (invariant : σ → Prop)
    (agree : ∀ before event, invariant before → (law before event ↔ other before event))
    (preserved : ∀ before event after, law before event → invariant before →
      step before event = .ok after → invariant after)
    (start : σ) (events : List ε) (initial : invariant start) :
    Along (attempt step) (UpToFailure law) (.ok start) events ↔
      Along (attempt step) (UpToFailure other) (.ok start) events := by
  refine along_congr_of_invariant (attempt step) _ _
    (fun state => ∀ before, state = .ok before → invariant before) ?_ ?_ (.ok start) events
    (fun before same => Except.ok.inj same ▸ initial)
  · intro state event holds
    refine forall_congr' fun before => ⟨fun lawful same => ?_, fun lawful same => ?_⟩
    · exact (agree before event (holds before same)).mp (lawful same)
    · exact (agree before event (holds before same)).mpr (lawful same)
  · intro state event lawful holds after runs
    cases state with
    | error fault => cases runs
    | ok before => exact preserved before event after (lawful before rfl) (holds before rfl) runs

end Failures

section Logs

/-- What the steps of a run put on record, oldest first. A step may record any number of things,
depending on the state that it meets. -/
def logged (step : σ → ε → σ) (log : σ → ε → List δ) : σ → List ε → List δ
  | _, [] => []
  | start, event :: rest => log start event ++ logged step log (step start event) rest

theorem logged_concat (step : σ → ε → σ) (log : σ → ε → List δ) (start : σ) (events : List ε)
    (event : ε) : logged step log start (events ++ [event]) =
      logged step log start events ++ log (run step start events) event := by
  induction events generalizing start with
  | nil => exact List.append_nil _
  | cons first rest inductionHypothesis =>
    rw [List.cons_append, logged, inductionHypothesis, logged, List.append_assoc, run_cons]

/-- The last record that hits a place leaves its value there. It is enough that no step changes
which records hit the place, and that each step leaves the value of its last that does. -/
theorem run_last_write (step : σ → ε → σ) (log : σ → ε → List δ) (observe : σ → τ)
    (hits : σ → δ → Bool) (value : δ → τ)
    (stable : ∀ state event, hits (step state event) = hits state)
    (writes : ∀ state event, observe (step state event) =
      (((log state event).reverse.find? (hits state)).map value).getD (observe state))
    (start : σ) (events : List ε) :
    observe (run step start events) =
      (((logged step log start events).reverse.find? (hits start)).map value).getD
        (observe start) := by
  induction events generalizing start with
  | nil => rfl
  | cons event rest inductionHypothesis =>
    rw [run_cons, inductionHypothesis, stable, writes, logged, List.reverse_append,
      List.find?_append, Option.map_or, Option.getD_or]

theorem logged_events (step : σ → ε → σ) (start : σ) (events : List ε) :
    logged step (fun _ event => [event]) start events = events := by
  induction events generalizing start with
  | nil => rfl
  | cons event rest inductionHypothesis =>
    rw [logged, inductionHypothesis, List.singleton_append]

end Logs

/-- Where any two steps may be exchanged, so may those of a whole run: the state that it ends in
does not depend on the order of the events. -/
theorem run_perm (step : σ → ε → σ) (invariant : σ → Prop)
    (preserved : ∀ state event, invariant state → invariant (step state event))
    (commutes : ∀ state one other, invariant state →
      step (step state one) other = step (step state other) one)
    (start : σ) (events others : List ε) (initial : invariant start)
    (permuted : events.Perm others) : run step start events = run step start others := by
  induction permuted generalizing start with
  | nil => rfl
  | cons event _ inductionHypothesis =>
    exact inductionHypothesis (step start event) (preserved start event initial)
  | swap one other rest =>
    simp only [run_cons]
    rw [commutes start other one initial]
  | trans _ _ first second => exact (first start initial).trans (second start initial)

end Runs

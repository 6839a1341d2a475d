/-!
# Computations that record what they touch

A traced computation returns a value together with the events it went through,
in order. A branch that is not taken contributes nothing, so the trace is exact
for the path the value took. `Within` confines every event to an allowed set and
follows the sequencing of the program: a sequence is confined exactly when both
of its parts are.
-/

universe u v

/-- A value and the events recorded on the way to it, oldest first. The record is for proofs
alone: no computation can look at it. -/
structure Traced (ω : Type u) (α : Type v) where
  value : α
  trace : List ω

namespace Traced

variable {ω : Type u} {α β : Type v}

instance : Monad (Traced ω) where
  pure value := ⟨value, []⟩
  bind first next := ⟨(next first.value).value, first.trace ++ (next first.value).trace⟩

@[simp] theorem value_pure (value : α) : (pure value : Traced ω α).value = value := rfl

@[simp] theorem trace_pure (value : α) : (pure value : Traced ω α).trace = [] := rfl

@[simp] theorem value_bind (first : Traced ω α) (next : α → Traced ω β) :
    (first >>= next).value = (next first.value).value := rfl

@[simp] theorem trace_bind (first : Traced ω α) (next : α → Traced ω β) :
    (first >>= next).trace = first.trace ++ (next first.value).trace := rfl

/-- Every recorded event belongs to the allowed set. For a computation that reads memory this says
where it reads. -/
def Within (allowed : ω → Prop) (computation : Traced ω α) : Prop :=
  ∀ event ∈ computation.trace, allowed event

@[simp] theorem within_pure (allowed : ω → Prop) (value : α) :
    Within allowed (pure value : Traced ω α) := by
  intro event recorded
  simp at recorded

/-- The events of a sequence are those of its first part and those of the part
that the first value selects. -/
@[simp] theorem within_bind (allowed : ω → Prop) (first : Traced ω α) (next : α → Traced ω β) :
    Within allowed (first >>= next) ↔
      Within allowed first ∧ Within allowed (next first.value) := by
  simp only [Within, trace_bind, List.mem_append, or_imp, forall_and]

end Traced

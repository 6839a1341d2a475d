import Mathlib.Data.Set.Subsingleton
import Mathlib.Logic.Function.Basic

/-!
# Patterns with wildcards

A pattern asks for a value in some of the fields and leaves the others open. A point, which has a
value in every field, meets a pattern when it has the values asked for. Not every value need
occur: the points of interest have their values in given domains.

Whether some point meets a pattern, whether one pattern is met wherever another is, and whether two
patterns are met together can all be read off the patterns, field by field.
-/

namespace Patterns

universe u v
variable {ι : Type u} {V : ι → Type v}

/-- The values asked for: a value in some of the fields, and nothing in the others. -/
abbrev Pattern (V : ι → Type v) := ∀ field, Option (V field)

/-- The point has the values asked for, in every field in which the pattern asks for one. -/
def Meets (point : ∀ field, V field) (pattern : Pattern V) : Prop :=
  ∀ field value, pattern field = some value → point field = value

/-- Every value of the point occurs in its field. Points that cannot occur are of no interest to
patterns. -/
def Within (domain : ∀ field, Set (V field)) (point : ∀ field, V field) : Prop :=
  ∀ field, point field ∈ domain field

/-- Some point that can occur meets the pattern. -/
def Satisfiable (domain : ∀ field, Set (V field)) (pattern : Pattern V) : Prop :=
  ∃ point, Within domain point ∧ Meets point pattern

/-- Every point that can occur and meets the second pattern meets the first. -/
def Covers (domain : ∀ field, Set (V field)) (wide narrow : Pattern V) : Prop :=
  ∀ point, Within domain point → Meets point narrow → Meets point wide

/-- Some point that can occur meets both patterns. -/
def Overlaps (domain : ∀ field, Set (V field)) (one other : Pattern V) : Prop :=
  ∃ point, Within domain point ∧ Meets point one ∧ Meets point other

variable (domain : ∀ field, Set (V field))

/-- A point takes the values asked for, and falls back elsewhere. All existence results below use
points of this form. -/
theorem meets_fallback (pattern : Pattern V) (fallback : ∀ field, V field) :
    Meets (fun field => (pattern field).getD (fallback field)) pattern := by
  intro field value asked
  change (pattern field).getD (fallback field) = value
  rw [asked, Option.getD_some]

/-- A pattern is satisfiable exactly when the values asked for occur, each in its own field. The
fields do not depend on one another. -/
theorem satisfiable_iff (occurs : ∀ field, (domain field).Nonempty) (pattern : Pattern V) :
    Satisfiable domain pattern ↔
      ∀ field value, pattern field = some value → value ∈ domain field := by
  constructor
  · rintro ⟨point, within, meets⟩ field value asked
    rw [← meets field value asked]
    exact within field
  · intro occur
    choose fallback inDomain using occurs
    refine ⟨_, ?_, meets_fallback pattern fallback⟩
    intro field
    change (pattern field).getD (fallback field) ∈ domain field
    cases asked : pattern field with
    | none => exact inDomain field
    | some value => exact occur field value asked

/-- One pattern covers another exactly when this is met by no point, or asks for all that the
first asks for. In each field at least two values have to occur.

Proof: if the narrow pattern is satisfiable and leaves open a field that the wide one asks for, a
point that meets it can take another value there. -/
theorem covers_iff (varied : ∀ field, (domain field).Nontrivial) (wide narrow : Pattern V) :
    Covers domain wide narrow ↔
      (Satisfiable domain narrow →
        ∀ field value, wide field = some value → narrow field = some value) := by
  classical
  constructor
  · rintro covers ⟨point, within, meets⟩ field value asked
    have has : point field = value := covers point within meets field value asked
    cases open_ : narrow field with
    | some other => rw [← has, meets field other open_]
    | none =>
      -- The field is open, so another point meets the pattern, with another value in it.
      obtain ⟨other, inDomain, different⟩ := (varied field).exists_ne value
      have meetsToo : Meets (Function.update point field other) narrow := by
        intro place sought narrowAsks
        by_cases same : place = field
        · subst same
          rw [open_] at narrowAsks
          cases narrowAsks
        · rw [Function.update_of_ne same]
          exact meets place sought narrowAsks
      have withinToo : Within domain (Function.update point field other) := by
        intro place
        by_cases same : place = field
        · subst same
          rw [Function.update_self]
          exact inDomain
        · rw [Function.update_of_ne same]
          exact within place
      have moved := covers _ withinToo meetsToo field value asked
      rw [Function.update_self] at moved
      exact absurd moved different
  · intro asksAll point within meets field value asked
    exact meets field value (asksAll ⟨point, within, meets⟩ field value asked)

/-- Two patterns are met together exactly when each is satisfiable and they ask for nothing
different.

Proof: a point of both takes the value of either pattern in each field; where both ask, they ask
for the same. -/
theorem overlaps_iff (one other : Pattern V) :
    Overlaps domain one other ↔
      Satisfiable domain one ∧ Satisfiable domain other ∧
        ∀ field value sought, one field = some value → other field = some sought →
          value = sought := by
  constructor
  · rintro ⟨point, within, meetsOne, meetsOther⟩
    refine ⟨⟨point, within, meetsOne⟩, ⟨point, within, meetsOther⟩, ?_⟩
    intro field value sought asksOne asksOther
    rw [← meetsOne field value asksOne, meetsOther field sought asksOther]
  · rintro ⟨⟨first, firstWithin, meetsFirst⟩, ⟨second, secondWithin, meetsSecond⟩, agree⟩
    refine ⟨fun field => (one field).getD (second field), ?_, meets_fallback one second, ?_⟩
    · intro field
      change (one field).getD (second field) ∈ domain field
      cases asked : one field with
      | none => exact secondWithin field
      | some value =>
        rw [Option.getD_some, ← meetsFirst field value asked]
        exact firstWithin field
    · intro field sought asksOther
      change (one field).getD (second field) = sought
      cases asked : one field with
      | none => exact meetsSecond field sought asksOther
      | some value => exact agree field value sought asked asksOther

end Patterns

import Mathlib.Logic.Function.Basic

/-!
# Heaps that tell what goes wrong

A heap maps addresses to objects. Addresses are handed out in turn and never again, so a
pointer to a freed object stays recognisable. A pointer is null or an address. Every way to
misuse one is a fault of its own: following a null pointer or a pointer to a freed object,
freeing an object a second time, and reaching past the end of an array. Freeing a null
pointer does nothing.
-/

namespace Heaps

universe u

/-- What went wrong. -/
inductive Fault where
  | nullPointer
  | freedObject
  | freedTwice
  | outOfRange
deriving DecidableEq

section Computations

universe v w
variable {ε : Type w} {α β : Type v}

@[simp] theorem ok_bind (value : α) (next : α → Except ε β) :
    (Except.ok value >>= next) = next value := rfl

@[simp] theorem error_bind (error : ε) (next : α → Except ε β) :
    (Except.error error >>= next) = .error error := rfl

/-- A computation that succeeds has parts that do, which is how a long computation is taken apart.
-/
theorem bind_eq_ok {first : Except ε α} {next : α → Except ε β} {result : β} :
    (first >>= next) = .ok result ↔ ∃ value, first = .ok value ∧ next value = .ok result := by
  cases first with
  | error fault =>
    apply iff_of_false
    · exact nofun
    · rintro ⟨_, same, _⟩
      cases same
  | ok value =>
    constructor
    · intro runs
      exact ⟨value, rfl, runs⟩
    · rintro ⟨_, same, runs⟩
      cases same
      exact runs

@[simp] theorem pure_ok (value : α) : (pure value : Except ε α) = .ok value := rfl

end Computations

/-- A null pointer or an address. -/
abbrev Ptr := Option Nat

/-- The live objects, and the first address that was never handed out. Objects that are freed
leave their addresses unused from then on. -/
@[ext] structure Heap (α : Type u) where
  object : Nat → Option α
  next : Nat
  unused : ∀ address, next ≤ address → object address = none

variable {α : Type u}

namespace Heap

def empty : Heap α := ⟨fun _ => none, 0, fun _ _ => rfl⟩

/-- The pointer leads to a live object. -/
def Live (heap : Heap α) (pointer : Ptr) : Prop :=
  ∃ address object, pointer = some address ∧ heap.object address = some object

/-- The pointer is an address, but of no live object: it was freed, or was never handed out. -/
def Dangling (heap : Heap α) (pointer : Ptr) : Prop :=
  ∃ address, pointer = some address ∧ heap.object address = none

/-- If the pointer is an address, it was handed out. -/
def Known (heap : Heap α) (pointer : Ptr) : Prop :=
  ∀ address, pointer = some address → address < heap.next

/-- Put an object at an address that was never used. -/
def extend (heap : Heap α) (object : α) : Heap α where
  object := Function.update heap.object heap.next (some object)
  next := heap.next + 1
  unused address beyond := by
    rw [Function.update_of_ne (by omega)]
    exact heap.unused address (by omega)

/-- Allocate an object where memory is granted. -/
def alloc (heap : Heap α) (granted : Bool) (object : α) : Ptr × Heap α :=
  if granted then (some heap.next, heap.extend object) else (none, heap)

/-- Change the object at an address, if there is one. -/
def modify (heap : Heap α) (address : Nat) (change : α → α) : Heap α where
  object := Function.update heap.object address ((heap.object address).map change)
  next := heap.next
  unused other beyond := by
    by_cases same : other = address
    · rw [same, Function.update_self, heap.unused address (same ▸ beyond), Option.map_none]
    · rw [Function.update_of_ne same, heap.unused other beyond]

/-- Remove the object at an address. -/
def remove (heap : Heap α) (address : Nat) : Heap α where
  object := Function.update heap.object address none
  next := heap.next
  unused other beyond := by
    by_cases same : other = address
    · rw [same, Function.update_self]
    · rw [Function.update_of_ne same, heap.unused other beyond]

/-- Follow a pointer to its address and object. -/
def deref (heap : Heap α) : Ptr → Except Fault (Nat × α)
  | none => .error .nullPointer
  | some address =>
    match heap.object address with
    | none => .error .freedObject
    | some object => .ok (address, object)

/-- Free the object that a pointer leads to. -/
def free (heap : Heap α) : Ptr → Except Fault (Heap α)
  | none => .ok heap
  | some address =>
    match heap.object address with
    | none => .error .freedTwice
    | some _ => .ok (heap.remove address)

theorem lt_next (heap : Heap α) (address : Nat) (object : α)
    (present : heap.object address = some object) : address < heap.next := by
  by_contra beyond
  rw [heap.unused address (by omega)] at present
  cases present

theorem Live.known {heap : Heap α} {pointer : Ptr} (live : heap.Live pointer) :
    heap.Known pointer := by
  obtain ⟨address, object, rfl, present⟩ := live
  exact fun other same => Option.some.inj same ▸ heap.lt_next address object present

theorem extend_at_next (heap : Heap α) (object : α) :
    (heap.extend object).object heap.next = some object :=
  Function.update_self _ _ _

/-- Objects that were there before stay. -/
theorem extend_live (heap : Heap α) (object : α) (address : Nat) (old : α)
    (present : heap.object address = some old) :
    (heap.extend object).object address = some old := by
  have below := heap.lt_next address old present
  exact (Function.update_of_ne (by omega) _ _).trans present

/-- An allocation leads to its object, at an address that was never used. -/
theorem alloc_at (heap : Heap α) (granted : Bool) (object : α) (address : Nat)
    (leads : (heap.alloc granted object).1 = some address) :
    address = heap.next ∧ (heap.alloc granted object).2.object address = some object := by
  cases granted with
  | false => cases leads
  | true =>
    obtain rfl : heap.next = address := Option.some.inj leads
    exact ⟨rfl, heap.extend_at_next object⟩

theorem alloc_live (heap : Heap α) (granted : Bool) (object : α) (address : Nat) (old : α)
    (present : heap.object address = some old) :
    (heap.alloc granted object).2.object address = some old := by
  cases granted with
  | false => exact present
  | true => exact heap.extend_live object address old present

theorem deref_live (heap : Heap α) (address : Nat) (object : α)
    (present : heap.object address = some object) :
    heap.deref (some address) = .ok (address, object) := by
  simp only [deref, present]

theorem free_live (heap : Heap α) (address : Nat) (object : α)
    (present : heap.object address = some object) :
    heap.free (some address) = .ok (heap.remove address) := by
  simp only [free, present]

/-- Freeing fails exactly for a pointer that dangles, and in one way: null may be freed, and does
nothing. -/
theorem free_error_iff (heap : Heap α) (pointer : Ptr) (fault : Fault) :
    heap.free pointer = .error fault ↔ fault = .freedTwice ∧ heap.Dangling pointer := by
  cases pointer with
  | none => simp [free, Dangling]
  | some address =>
    cases present : heap.object address with
    | none => simp [free, Dangling, present, eq_comm]
    | some object => simp [free, Dangling, present]

/-- Freeing what does not dangle succeeds. -/
theorem free_succeeds (heap : Heap α) (pointer : Ptr) (steady : ¬ heap.Dangling pointer) :
    ∃ after, heap.free pointer = .ok after := by
  cases freed : heap.free pointer with
  | ok after => exact ⟨after, rfl⟩
  | error fault => exact absurd ((heap.free_error_iff pointer fault).mp freed).2 steady

/-- Freeing removes what the pointer leads to and nothing else. -/
theorem free_object (heap : Heap α) (pointer : Ptr) (after : Heap α)
    (freed : heap.free pointer = .ok after) :
    after.next = heap.next ∧ ∀ address, after.object address =
      if pointer = some address then none else heap.object address := by
  cases pointer with
  | none =>
    cases freed
    exact ⟨rfl, fun address => (if_neg (Option.some_ne_none address).symm).symm⟩
  | some freedAt =>
    cases present : heap.object freedAt with
    | none =>
      have fails := (heap.free_error_iff (some freedAt) .freedTwice).mpr
        ⟨rfl, freedAt, rfl, present⟩
      cases fails.symm.trans freed
    | some object =>
      obtain rfl := Except.ok.inj ((heap.free_live freedAt object present).symm.trans freed)
      refine ⟨rfl, fun address => ?_⟩
      by_cases own : freedAt = address
      · rw [own, if_pos rfl]
        exact Function.update_self _ _ _
      · rw [if_neg fun same => own (Option.some.inj same)]
        exact Function.update_of_ne (Ne.symm own) _ _

/-- A pointer that does not dangle is null or live. -/
theorem steady_cases (heap : Heap α) (pointer : Ptr) (steady : ¬ heap.Dangling pointer) :
    pointer = none ∨ heap.Live pointer := by
  cases pointer with
  | none => exact .inl rfl
  | some address =>
    cases present : heap.object address with
    | none => exact absurd ⟨address, rfl, present⟩ steady
    | some object => exact .inr ⟨address, object, rfl, present⟩

theorem Live.not_dangling {heap : Heap α} {pointer : Ptr} (live : heap.Live pointer) :
    ¬ heap.Dangling pointer := by
  obtain ⟨address, object, rfl, present⟩ := live
  rintro ⟨_, same, missing⟩
  rw [← Option.some.inj same, present] at missing
  cases missing

theorem free_not_live (heap : Heap α) (pointer : Ptr) (after : Heap α)
    (freed : heap.free pointer = .ok after) : ¬ after.Live pointer := by
  rintro ⟨address, object, rfl, present⟩
  rw [(heap.free_object _ after freed).2 address, if_pos rfl] at present
  cases present

/-- Nothing comes to life by a `free`. -/
theorem free_keeps_dead (heap : Heap α) (pointer other : Ptr) (after : Heap α)
    (freed : heap.free pointer = .ok after) (dead : ¬ heap.Live other) : ¬ after.Live other := by
  rintro ⟨address, object, rfl, present⟩
  rw [(heap.free_object pointer after freed).2 address] at present
  split at present
  · cases present
  · exact dead ⟨address, object, rfl, present⟩

/-- What dangles keeps dangling. -/
theorem free_keeps_dangling (heap : Heap α) (pointer other : Ptr) (after : Heap α)
    (freed : heap.free pointer = .ok after) (dangling : heap.Dangling other) :
    after.Dangling other := by
  obtain ⟨address, rfl, missing⟩ := dangling
  refine ⟨address, rfl, ?_⟩
  rw [(heap.free_object pointer after freed).2 address, missing, ite_self]

theorem free_keeps_live (heap : Heap α) (pointer other : Ptr) (after : Heap α)
    (freed : heap.free pointer = .ok after) (live : heap.Live other) (apart : other ≠ pointer) :
    after.Live other := by
  obtain ⟨address, object, rfl, present⟩ := live
  refine ⟨address, object, rfl, ?_⟩
  rw [(heap.free_object pointer after freed).2 address, if_neg (Ne.symm apart), present]

theorem modify_at_self (heap : Heap α) (address : Nat) (change : α → α) (object : α)
    (present : heap.object address = some object) :
    (heap.modify address change).object address = some (change object) := by
  simp only [modify, Function.update_self, present, Option.map_some]

/-- A change leaves the other objects alone. -/
theorem modify_of_ne (heap : Heap α) (address other : Nat) (change : α → α)
    (different : other ≠ address) : (heap.modify address change).object other = heap.object other :=
  Function.update_of_ne different _ _

theorem modify_id (heap : Heap α) (address : Nat) : heap.modify address id = heap := by
  apply Heap.ext
  · simp only [modify, Option.map_id, id, Function.update_eq_self]
  · rfl

/-- A new object that is changed at once. -/
theorem modify_extend (heap : Heap α) (object : α) (change : α → α) :
    (heap.extend object).modify heap.next change = heap.extend (change object) := by
  apply Heap.ext
  · simp only [modify, extend, Function.update_self, Function.update_idem, Option.map_some]
  · rfl

theorem modify_modify (heap : Heap α) (address : Nat) (change second : α → α) :
    (heap.modify address change).modify address second = heap.modify address (second ∘ change) := by
  apply Heap.ext
  · simp only [modify, Function.update_self, Function.update_idem, Option.map_map]
  · rfl

end Heap

section Arrays

/-- Read an element of an array. -/
def readAt (heap : Heap (List α)) (pointer : Ptr) (index : Nat) : Except Fault α := do
  let (_, items) ← heap.deref pointer
  match items[index]? with
  | none => .error .outOfRange
  | some item => .ok item

/-- Change an element of an array. -/
def modifyAt (heap : Heap (List α)) (pointer : Ptr) (index : Nat) (change : α → α) :
    Except Fault (Heap (List α)) := do
  let (address, items) ← heap.deref pointer
  if index < items.length then .ok (heap.modify address fun items => items.modify index change)
  else .error .outOfRange

/-- Change the elements at the given places, one after the other. -/
def modifyAll (places : List Nat) (change : Nat → α → α) (items : List α) : List α :=
  places.foldl (fun items index => items.modify index (change index)) items

/-- The array of the given size whose elements a function lists. -/
def tabulate (size : Nat) (item : Nat → α) : List α := (List.range size).map item

/-- It has that size. -/
@[simp] theorem length_tabulate (size : Nat) (item : Nat → α) :
    (tabulate size item).length = size := by
  rw [tabulate, List.length_map, List.length_range]

/-- Its elements. -/
theorem getElem?_tabulate (size index : Nat) (item : Nat → α) :
    (tabulate size item)[index]? = if index < size then some (item index) else none := by
  rw [tabulate, List.getElem?_map]
  by_cases inside : index < size
  · rw [List.getElem?_range inside, if_pos inside, Option.map_some]
  · rw [List.getElem?_eq_none (by rw [List.length_range]; omega), if_neg inside, Option.map_none]

/-- Only the elements inside the array matter. -/
theorem tabulate_congr (size : Nat) (item other : Nat → α)
    (agree : ∀ index, index < size → item index = other index) :
    tabulate size item = tabulate size other :=
  List.map_congr_left fun index member => agree index (List.mem_range.mp member)

/-- An array of equal elements. -/
theorem replicate_eq_tabulate (size : Nat) (item : α) :
    List.replicate size item = tabulate size fun _ => item := by
  rw [tabulate, List.map_const', List.length_range]

/-- A read of a live array. -/
theorem read_at_tabulate (heap : Heap (List α)) (address size index : Nat) (item : Nat → α)
    (present : heap.object address = some (tabulate size item)) :
    readAt heap (some address) index =
      if index < size then .ok (item index) else .error .outOfRange := by
  simp only [readAt, heap.deref_live address _ present, ok_bind, getElem?_tabulate]
  by_cases inside : index < size
  · simp only [if_pos inside]
  · simp only [if_neg inside]

/-- A change of a live array. -/
theorem modify_at_live (heap : Heap (List α)) (address index : Nat) (items : List α)
    (change : α → α) (present : heap.object address = some items) :
    modifyAt heap (some address) index change =
      if index < items.length then .ok (heap.modify address fun items => items.modify index change)
      else .error .outOfRange := by
  simp only [modifyAt, heap.deref_live address items present, ok_bind]

/-- Different places are changed independently. -/
theorem modify_all_tabulate (places : List Nat) (change : Nat → α → α) (size : Nat)
    (item : Nat → α) (once : places.Nodup) : modifyAll places change (tabulate size item) =
      tabulate size fun index =>
        if index ∈ places then change index (item index) else item index := by
  induction places generalizing item with
  | nil => exact tabulate_congr size _ _ fun index _ => by simp only [List.not_mem_nil, ↓reduceIte]
  | cons place rest inductionHypothesis =>
    obtain ⟨fresh, onceRest⟩ := List.nodup_cons.mp once
    have first : (tabulate size item).modify place (change place) =
        tabulate size (Function.update item place (change place (item place))) := by
      apply List.ext_getElem?
      intro index
      by_cases own : place = index
      · subst own
        rw [List.getElem?_modify_eq, getElem?_tabulate, getElem?_tabulate, Function.update_self]
        split <;> rfl
      · rw [List.getElem?_modify_ne _ _ own, getElem?_tabulate, getElem?_tabulate,
          Function.update_of_ne (Ne.symm own)]
    rw [show modifyAll (place :: rest) change (tabulate size item) =
      modifyAll rest change ((tabulate size item).modify place (change place)) from rfl, first,
      inductionHypothesis _ onceRest]
    apply tabulate_congr
    intro index _
    by_cases own : index = place
    · subst own
      rw [if_neg fresh, if_pos List.mem_cons_self, Function.update_self]
    · simp only [List.mem_cons, own, false_or, Function.update_of_ne own]

/-- A loop over the elements of one array. When its body changes the element of its index
and reaches outside exactly where the array ends, the loop changes all elements, or
reaches outside. The body may read other objects, which the loop leaves alone. -/
theorem fold_modify_at (start : Heap (List α)) (address size : Nat) (change : Nat → α → α)
    (body : Heap (List α) → Nat → Except Fault (Heap (List α)))
    (bodies : ∀ heap items index,
      (∀ other, other ≠ address → heap.object other = start.object other) →
      heap.object address = some items → items.length = size →
        body heap index = modifyAt heap (some address) index (change index))
    (places : List Nat) (items : List α) (present : start.object address = some items)
    (sized : items.length = size) :
    places.foldlM body start =
      if ∀ index ∈ places, index < size then .ok (start.modify address (modifyAll places change))
      else .error .outOfRange := by
  -- The loop may be entered with any heap that differs from the first in the array alone.
  have onward (places : List Nat) (heap : Heap (List α)) (items : List α)
      (kept : ∀ other, other ≠ address → heap.object other = start.object other)
      (present : heap.object address = some items) (sized : items.length = size) :
      places.foldlM body heap =
        if ∀ index ∈ places, index < size then .ok (heap.modify address (modifyAll places change))
        else .error .outOfRange := by
    induction places generalizing heap items with
    | nil =>
      have unchanged : heap.modify address (modifyAll [] change) = heap :=
        heap.modify_id address
      rw [List.foldlM_nil, unchanged, if_pos fun index member => nomatch member]
      rfl
    | cons place rest inductionHypothesis =>
      rw [List.foldlM_cons, bodies heap items place kept present sized,
        modify_at_live heap address place items (change place) present, sized]
      by_cases inside : place < size
      · rw [if_pos inside]
        have changed :=
          heap.modify_at_self address (List.modify · place (change place)) items present
        have framed (other : Nat) (different : other ≠ address) :
            (heap.modify address (List.modify · place (change place))).object other =
              start.object other :=
          (heap.modify_of_ne address other _ different).trans (kept other different)
        refine (inductionHypothesis _ _ framed changed
          ((List.length_modify _ _ _).trans sized)).trans ?_
        simp only [List.forall_mem_cons, inside, true_and, Heap.modify_modify]
        rfl
      · rw [if_neg inside, if_neg fun all => inside (all place List.mem_cons_self)]
        rfl
  exact onward places start items (fun _ _ => rfl) present sized

end Arrays

end Heaps

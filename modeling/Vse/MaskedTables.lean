/-!
# Tables indexed by a masked key

A table of `mask + 1` slots, addressed by the bits of a key that the mask keeps. No
key can leave the table, whatever the key and the size. A write is seen by exactly
the keys that share its masked bits; every other slot keeps its contents.
-/

universe u

/-- A mask and one slot for each value up to it. A key is masked to find its slot, so no key is
out of range, whatever the mask is. -/
@[ext] structure MaskedTable (α : Type u) where
  mask : BitVec 32
  slots : List α
  length_eq : slots.length = mask.toNat + 1

namespace MaskedTable

variable {α : Type u}

/-- The slot of a key: the bits of the key that the mask keeps, read as a number. -/
def index (table : MaskedTable α) (key : BitVec 32) : Nat := (key &&& table.mask).toNat

/-- Every key has its slot in the table, since masking makes no value larger than the mask. -/
theorem index_lt (table : MaskedTable α) (key : BitVec 32) :
    table.index key < table.slots.length := by
  have bound : (key &&& table.mask).toNat ≤ table.mask.toNat := by
    rw [BitVec.toNat_and]
    exact Nat.and_le_right
  rw [table.length_eq, index]
  omega

/-- The contents of a key's slot. -/
def read (table : MaskedTable α) (key : BitVec 32) : α :=
  table.slots.get ⟨table.index key, table.index_lt key⟩

/-- Replace the contents of a key's slot. -/
def write (table : MaskedTable α) (key : BitVec 32) (value : α) : MaskedTable α where
  mask := table.mask
  slots := table.slots.set (table.index key) value
  length_eq := by rw [List.length_set, table.length_eq]

@[simp] theorem read_write_self (table : MaskedTable α) (key : BitVec 32) (value : α) :
    (table.write key value).read key = value := by
  simp [read, write, index]

/-- A key with another slot reads what it did before: a write reaches one slot. -/
theorem read_write_of_ne (table : MaskedTable α) (key other : BitVec 32) (value : α)
    (apart : table.index other ≠ table.index key) :
    (table.write key value).read other = table.read other :=
  List.getElem_set_ne (Ne.symm apart) _

/-- Writes to different slots may be exchanged, whatever is written. -/
theorem write_comm (table : MaskedTable α) (key other : BitVec 32) (value content : α)
    (apart : table.index key ≠ table.index other) :
    (table.write key value).write other content = (table.write other content).write key value :=
  MaskedTable.ext rfl (List.set_comm value content apart)

/-- Of two writes under one key the second stays. -/
theorem write_write_self (table : MaskedTable α) (key : BitVec 32) (value content : α) :
    (table.write key value).write key content = table.write key content :=
  MaskedTable.ext rfl (List.set_set value)

theorem slots_index (table : MaskedTable α) (key : BitVec 32) :
    table.slots[table.index key]? = some (table.read key) :=
  List.getElem?_eq_getElem (table.index_lt key)

/-- Where there is a table, its mask and its slots make it up; tables with the same mask and slots
are the same. -/
theorem optional_ext (one other : Option (MaskedTable α)) (mask : one.map mask = other.map mask)
    (slots : ∀ slot : Nat, (one.bind fun table => table.slots[slot]?) =
      other.bind fun table => table.slots[slot]?) : one = other := by
  cases one with
  | none => exact (Option.map_eq_none_iff.mp mask.symm).symm
  | some table =>
    obtain ⟨another, rfl, same⟩ := Option.map_eq_some_iff.mp mask.symm
    exact congrArg some (MaskedTable.ext same.symm (List.ext_getElem? slots))

/-- What a write under a key leaves behind: the mask and every other slot as they
were, and the content in the slot of the key, which is in the table. -/
structure WrittenAt (before after : MaskedTable α) (key : BitVec 32) (content : α) : Prop where
  mask : after.mask = before.mask
  inside : after.index key < after.slots.length
  content : after.read key = content
  others : ∀ slot, slot ≠ after.index key → after.slots[slot]? = before.slots[slot]?

theorem written_at_write (table : MaskedTable α) (key : BitVec 32) (content : α) :
    WrittenAt table (table.write key content) key content where
  mask := rfl
  inside := (table.write key content).index_lt key
  content := read_write_self table key content
  others _ different := List.getElem?_set_ne (Ne.symm different)

/-- After a write every slot holds the content or what it held before. Nothing else can get into
the table. -/
theorem WrittenAt.slots {before after : MaskedTable α} {key : BitVec 32} {content : α}
    (written : WrittenAt before after key content) (slot : Nat) :
    after.slots[slot]? = some content ∨ after.slots[slot]? = before.slots[slot]? := by
  by_cases own : slot = after.index key
  · rw [own, slots_index, written.content]
    exact Or.inl rfl
  · exact Or.inr (written.others slot own)

end MaskedTable

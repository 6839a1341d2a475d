/-!
# Flag words and byte order

A flag word carries one flag per bit position. A test of the complemented word
against a one-bit mask asks whether the flag is clear; an OR with the mask sets
it and disturbs no other flag.

Four bytes at increasing addresses make the word that a little-endian load returns;
the byte swap moves each of them to the opposite place. Masks, shifts by a byte and
the swap all act byte by byte, so equations between words are equations of bytes.
-/

namespace Words

/-- The mask with a single bit, at the given position of a word of the given width. The source's
flags are of this form, written as `1 << position`. -/
def flag (width position : Nat) : BitVec width := BitVec.ofNat width 1 <<< position

/-- A mask is the power of two at its position. -/
theorem flag_eq_twoPow (width position : Nat) :
    flag width position = BitVec.twoPow width position := (BitVec.twoPow_eq width position).symm

section Flags

variable {width : Nat}

/-- The flag at the given position is clear. For the wildcards of a match this means that the
field is open to comparison; for the wildcards of a command that it has been given. -/
def Clear (word : BitVec width) (position : Nat) : Prop := word.getLsbD position = false

instance (word : BitVec width) (position : Nat) : Decidable (Clear word position) :=
  inferInstanceAs (Decidable (_ = _))

/-- Testing the complement of a word against a mask of one bit, as the source does before each
comparison, asks whether the flag is clear. -/
theorem complement_and_flag (word : BitVec width) (position : Nat) (inside : position < width) :
    ~~~word &&& flag width position ≠ 0 ↔ Clear word position := by
  have nonzero : BitVec.twoPow width position ≠ BitVec.ofNat width 0 := by
    intro vanishes
    have bit := congrArg (fun value => value.getLsbD position) vanishes
    simp [inside] at bit
  rw [flag_eq_twoPow, BitVec.and_twoPow, BitVec.getLsbD_not, Clear]
  cases bit : word.getLsbD position <;> simp [inside, nonzero]

/-- Setting one flag leaves the others as they were. The set flag is clear no more, so a field
that was compared counts as covered from then on. -/
theorem clear_or_flag (word : BitVec width) (position other : Nat) (inside : position < width) :
    Clear (word ||| flag width position) other ↔ Clear word other ∧ other ≠ position := by
  rw [flag_eq_twoPow, Clear, Clear, BitVec.getLsbD_or, BitVec.getLsbD_twoPow,
    Bool.or_eq_false_iff]
  simp only [inside, decide_true, Bool.true_and, decide_eq_false_iff_not, ne_eq,
    eq_comm (a := position)]

theorem or_flag_of_set (word : BitVec width) (position : Nat) (set : ¬ Clear word position) :
    word ||| flag width position = word := by
  apply BitVec.eq_of_getLsbD_eq
  intro index inside
  rw [flag_eq_twoPow, BitVec.getLsbD_or, BitVec.getLsbD_twoPow]
  by_cases same : position = index
  · subst same
    have bit : word.getLsbD position = true := by simpa only [Clear, Bool.not_eq_false] using set
    rw [bit, Bool.true_or]
  · simp [same]

/-- Clearing a flag clears it and leaves the others as they were. This is the effect of the
setters of the control device on the wildcards. -/
theorem clear_and_not_flag (word : BitVec width) (position other : Nat)
    (inside : position < width) :
    Clear (word &&& ~~~flag width position) other ↔ Clear word other ∨ other = position := by
  rw [flag_eq_twoPow, Clear, Clear, BitVec.getLsbD_and, BitVec.getLsbD_not,
    BitVec.getLsbD_twoPow]
  by_cases same : other = position
  · subst same
    simp [inside]
  · have different : ¬ position = other := fun reversed => same reversed.symm
    by_cases within : other < width
    · simp [within, same, different]
    · simp [within, same, BitVec.getLsbD_of_ge word other (Nat.le_of_not_lt within)]

/-- Clearing flags of a mask does not show once the whole mask is set. So the matcher's last test
is the same for all rules that differ in tested fields alone. -/
theorem and_not_or_of_within (word bits mask : BitVec width)
    (within : ~~~bits ||| mask = BitVec.allOnes width) :
    word &&& ~~~bits ||| mask = word ||| mask := by
  apply BitVec.eq_of_getLsbD_eq
  intro index inside
  have either := congrArg (fun value => value.getLsbD index) within
  simp only [BitVec.getLsbD_or, BitVec.getLsbD_not, BitVec.getLsbD_allOnes, inside, decide_true,
    Bool.true_and, BitVec.getLsbD_and] at either ⊢
  cases flagged : mask.getLsbD index with
  | true => simp only [Bool.or_true]
  | false =>
    rw [flagged, Bool.or_false] at either
    rw [either, Bool.and_true]

end Flags

section ByteOrder

/-- The word whose byte at the given place is the given one, the rest zero. A loaded word is the
union of four of these. -/
def placed (byte : BitVec 8) (index : Nat) : BitVec 32 := byte.setWidth 32 <<< (8 * index)

/-- The byte of a word at a distance of so many bytes from its low end. Words are compared below
through their bytes. -/
def byteAt (word : BitVec 32) (index : Nat) : BitVec 8 := word.extractLsb' (8 * index) 8

/-- The word a little-endian machine loads from four bytes: the byte at the lowest address is the
lowest. -/
def littleEndian (bytes : Fin 4 → BitVec 8) : BitVec 32 :=
  placed (bytes 0) 0 ||| placed (bytes 1) 1 ||| placed (bytes 2) 2 ||| placed (bytes 3) 3

/-- Reverse the four bytes of a word. On a little-endian host `htonl` and `ntohl` both do this. -/
def byteSwap (word : BitVec 32) : BitVec 32 :=
  placed (byteAt word 0) 3 ||| placed (byteAt word 1) 2 |||
    placed (byteAt word 2) 1 ||| placed (byteAt word 3) 0

/-- The bits of a byte are the word's own bits from the byte's place on. All laws about bytes of
words below come down to this one. -/
theorem getLsbD_byteAt (word : BitVec 32) (index bit : Nat) :
    (byteAt word index).getLsbD bit = (decide (bit < 8) && word.getLsbD (8 * index + bit)) :=
  BitVec.getLsbD_extractLsb' ..

/-- A word is determined by its four bytes: two words with the same byte in every place are the
same. -/
theorem eq_of_bytes (left right : BitVec 32)
    (same : ∀ index < 4, byteAt left index = byteAt right index) : left = right := by
  apply BitVec.eq_of_getLsbD_eq
  intro bit inside
  have equal := congrArg (fun byte => byte.getLsbD (bit % 8)) (same (bit / 8) (by omega))
  have position : 8 * (bit / 8) + bit % 8 = bit := Nat.div_add_mod bit 8
  simpa only [getLsbD_byteAt, position, Nat.mod_lt bit (by decide : 0 < 8), decide_true,
    Bool.true_and] using equal

theorem byteAt_and (left right : BitVec 32) (index : Nat) :
    byteAt (left &&& right) index = byteAt left index &&& byteAt right index := by
  apply BitVec.eq_of_getLsbD_eq
  intro bit inside
  simp only [getLsbD_byteAt, BitVec.getLsbD_and, inside, decide_true, Bool.true_and]

theorem byteAt_or (left right : BitVec 32) (index : Nat) :
    byteAt (left ||| right) index = byteAt left index ||| byteAt right index := by
  apply BitVec.eq_of_getLsbD_eq
  intro bit inside
  simp only [getLsbD_byteAt, BitVec.getLsbD_or, inside, decide_true, Bool.true_and]

/-- A right shift by eight moves each byte one place down. The lowest byte is lost, and the
highest place gets zero. -/
theorem byteAt_ushiftRight (word : BitVec 32) (index : Nat) :
    byteAt (word >>> 8) index = byteAt word (index + 1) := by
  apply BitVec.eq_of_getLsbD_eq
  intro bit inside
  have position : 8 + (8 * index + bit) = 8 * (index + 1) + bit := by omega
  simp only [getLsbD_byteAt, BitVec.getLsbD_ushiftRight, position]

/-- Past its high end a word has only zero bytes. -/
theorem byteAt_of_outside (word : BitVec 32) (index : Nat) (outside : 4 ≤ index) :
    byteAt word index = 0 := by
  apply BitVec.eq_of_getLsbD_eq
  intro bit inside
  have past : 32 ≤ 8 * index + bit := by omega
  simp only [getLsbD_byteAt, BitVec.getLsbD_of_ge word _ past, Bool.and_false,
    BitVec.ofNat_eq_ofNat, BitVec.getLsbD_zero]

/-- A placed byte is found at its place and nowhere else; in the three other places the word is
zero. -/
theorem byteAt_placed (byte : BitVec 8) (place index : Nat) (inside : index < 4) :
    byteAt (placed byte place) index = if index = place then byte else 0 := by
  apply BitVec.eq_of_getLsbD_eq
  intro bit within
  have inWord : 8 * index + bit < 32 := by omega
  simp only [getLsbD_byteAt, placed, BitVec.getLsbD_shiftLeft, BitVec.getLsbD_setWidth,
    within, inWord, decide_true, Bool.true_and]
  by_cases same : index = place
  · subst same
    have offset : 8 * index + bit - 8 * index = bit := by omega
    have below : bit < 32 := by omega
    simp [offset, below]
  · rcases Nat.lt_or_gt_of_ne same with before | after
    · have low : 8 * index + bit < 8 * place := by omega
      simp [low, same]
    · have high : 8 ≤ 8 * index + bit - 8 * place := by omega
      simp [same, BitVec.getLsbD_of_ge byte _ high]

/-- The bytes of a loaded word are the bytes it was loaded from, each in the place of its address.
-/
theorem byteAt_littleEndian (bytes : Fin 4 → BitVec 8) (index : Fin 4) :
    byteAt (littleEndian bytes) index.val = bytes index := by
  match index with
  | ⟨0, _⟩ | ⟨1, _⟩ | ⟨2, _⟩ | ⟨3, _⟩ => simp [littleEndian, byteAt_or, byteAt_placed]

/-- The swap moves each byte to the opposite place, so that the byte at the lowest address becomes
the most significant one. -/
theorem byteAt_byteSwap (word : BitVec 32) (index : Fin 4) :
    byteAt (byteSwap word) index.val = byteAt word (3 - index.val) := by
  match index with
  | ⟨0, _⟩ | ⟨1, _⟩ | ⟨2, _⟩ | ⟨3, _⟩ => simp [byteSwap, byteAt_or, byteAt_placed]

/-- Loading the four bytes of a word gives the word back: the two ways to look at memory agree. -/
theorem littleEndian_byteAt (word : BitVec 32) :
    littleEndian (fun index => byteAt word index.val) = word := by
  apply eq_of_bytes
  intro index inside
  exact byteAt_littleEndian _ ⟨index, inside⟩

end ByteOrder

end Words

import Mathlib.Data.Nat.Digits.Defs
import Mathlib.Data.List.Basic

/-!
# Numbers in C strings

What `atoi` and the conversion `%hhx` of `sscanf` make of a string, as the C library
documents them: white space and a sign first, then the longest run of digits, with
the value cut off at the limits of the 64-bit `long` and kept modulo the width of the
destination. A `DecimalWord` or a list of `HexByte`s with colons between them reaches
none of these corners, and is read back as it was meant.
-/

namespace CStrings

/-- The characters before the terminating null character. No string here holds one. -/
abbrev CString := List Char

/-- `isspace` in the C locale. -/
def isSpace (c : Char) : Bool := c.toNat = 32 || 9 ≤ c.toNat && c.toNat ≤ 13

/-- The value of a digit of base 16 or less, in lower or upper case, if the character is one. -/
def digitValue (c : Char) : Option Nat :=
  let code := c.toNat
  if 48 ≤ code ∧ code ≤ 57 then some (code - 48)
  else if 97 ≤ code ∧ code ≤ 102 then some (code - 87)
  else if 65 ≤ code ∧ code ≤ 70 then some (code - 55)
  else none

/-- The character is a digit of the base, so that the reading of a number goes on. -/
def isDigit (base : Nat) (c : Char) : Bool := (digitValue c).any (· < base)

/-- The number that a list of digits denotes, most significant digit first. -/
def numberOf (base : Nat) (digits : CString) : Nat :=
  Nat.ofDigits base (digits.reverse.map fun c => (digitValue c).getD 0)

/-- Split off a sign: is it a minus, and what follows? Without a sign the number is positive. -/
def splitSign : CString → Bool × CString
  | '-' :: rest => (true, rest)
  | '+' :: rest => (false, rest)
  | text => (false, text)

/-- `strtol` in base 10: white space, a sign and digits, up to the first other character. Without
a digit the result is zero, and beyond the range of `long` it is the nearest bound. -/
def strtol (text : CString) : Int :=
  let (negative, text) := splitSign (text.dropWhile isSpace)
  let magnitude := numberOf 10 (text.takeWhile (isDigit 10))
  if negative then max (-(magnitude : Int)) (-2 ^ 63) else min (magnitude : Int) (2 ^ 63 - 1)

/-- `atoi`: `strtol`, kept in an `int`, that is in its low 32 bits. -/
def atoi (text : CString) : BitVec 32 := BitVec.ofInt 32 (strtol text)

/-- Skip the `0x` of a hexadecimal number, where there is one. -/
def skipBase : CString → CString
  | '0' :: 'x' :: rest => rest
  | '0' :: 'X' :: rest => rest
  | text => text

/-- The conversion `%hhx`: the byte it stores and the input it leaves, or nothing when the input
does not match. White space and a sign come first, as for all such conversions. -/
def scanHex (text : CString) : Option (BitVec 8 × CString) :=
  let (negative, text) := splitSign (text.dropWhile isSpace)
  let text := skipBase text
  let digits := text.takeWhile (isDigit 16)
  if digits = [] then none
  else
    let magnitude := numberOf 16 digits
    -- A number too large for `strtoul` becomes the largest one, whatever its sign.
    let value := if 2 ^ 64 ≤ magnitude then 2 ^ 64 - 1
      else if negative then -(magnitude : Int) else magnitude
    some (BitVec.ofInt 8 value, text.dropWhile (isDigit 16))

/-- `sscanf` with the given number of `%hhx` conversions and a colon between each two:
the bytes it stores, until the input stops matching. -/
def scanHexFields : Nat → CString → List (BitVec 8)
  | 0, _ => []
  | count + 1, text =>
    match scanHex text with
    | none => []
    | some (byte, ':' :: rest) => byte :: scanHexFields count rest
    | some (byte, _) => [byte]

theorem is_space_of_digit (base : Nat) (c : Char) (digit : isDigit base c = true) :
    isSpace c = false := by
  cases space : isSpace c with
  | false => rfl
  | true =>
    have none : digitValue c = none := by
      simp only [isSpace, Bool.or_eq_true, Bool.and_eq_true, decide_eq_true_eq] at space
      simp only [digitValue]
      rw [if_neg (by omega), if_neg (by omega), if_neg (by omega)]
    rw [isDigit, none] at digit
    cases digit

theorem split_sign_digit (base : Nat) (c : Char) (rest : CString)
    (digit : isDigit base c = true) :
    splitSign ((c :: rest).dropWhile isSpace) = (false, c :: rest) := by
  have space := is_space_of_digit base c digit
  rw [List.dropWhile_cons_of_neg (by rw [space]; decide)]
  have minus : c ≠ '-' := by
    rintro rfl
    cases digit
  have plus : c ≠ '+' := by
    rintro rfl
    cases digit
  unfold splitSign
  split
  · rename_i same
    exact absurd (List.cons.inj same).1 minus
  · rename_i same
    exact absurd (List.cons.inj same).1 plus
  · rfl

/-- A list of digits is one run: reading stops where another character follows, or the string
ends. -/
theorem take_drop_digits (base : Nat) (text rest : CString)
    (digits : ∀ c ∈ text, isDigit base c = true)
    (ends : ∀ c ∈ rest.head?, isDigit base c = false) :
    (text ++ rest).takeWhile (isDigit base) = text ∧
      (text ++ rest).dropWhile (isDigit base) = rest := by
  have stops : rest.takeWhile (isDigit base) = [] ∧ rest.dropWhile (isDigit base) = rest := by
    cases rest with
    | nil => exact ⟨rfl, rfl⟩
    | cons c rest =>
      have stop : ¬ isDigit base c = true := by
        rw [ends c rfl]
        decide
      exact ⟨List.takeWhile_cons_of_neg stop, List.dropWhile_cons_of_neg stop⟩
  rw [List.takeWhile_append_of_pos digits, List.dropWhile_append_of_pos digits, stops.1, stops.2]
  exact ⟨List.append_nil text, rfl⟩

/-- An unsigned decimal number that an `int` can hold. The value of a well-formed option is one.
-/
structure DecimalWord where
  text : CString
  digits : ∀ c ∈ text, isDigit 10 c = true
  nonempty : text ≠ []
  fits : numberOf 10 text < 2 ^ 31

def DecimalWord.value (word : DecimalWord) : Nat := numberOf 10 word.text

/-- `atoi` reads the number, for every such word. -/
theorem atoi_decimal (word : DecimalWord) : atoi word.text = BitVec.ofNat 32 word.value := by
  obtain ⟨text, digits, nonempty, fits⟩ := word
  obtain ⟨c, rest, rfl⟩ := List.exists_cons_of_ne_nil nonempty
  have whole := (take_drop_digits 10 (c :: rest) [] digits (by simp)).1
  rw [List.append_nil] at whole
  have long : min (numberOf 10 (c :: rest) : Int) (2 ^ 63 - 1) = numberOf 10 (c :: rest) := by
    omega
  simp only [atoi, strtol, split_sign_digit 10 c rest (digits c List.mem_cons_self), whole,
    Bool.false_eq_true, ↓reduceIte, long, DecimalWord.value]
  exact BitVec.ofInt_natCast 32 _

/-- The number that digits denote behind a minus sign or without one. -/
def signedNumber (negative : Bool) (digits : CString) : Int :=
  if negative then -(numberOf 10 digits : Int) else numberOf 10 digits

/-- A decimal number, with or without a minus sign, that an `int` can hold. These are the numbers
that a user can mean. -/
structure IntWord where
  negative : Bool
  digits : CString
  areDigits : ∀ c ∈ digits, isDigit 10 c = true
  nonempty : digits ≠ []
  fits : -2 ^ 31 ≤ signedNumber negative digits ∧ signedNumber negative digits < 2 ^ 31

/-- The number as it is written. -/
def IntWord.text (word : IntWord) : CString :=
  if word.negative then '-' :: word.digits else word.digits

/-- The number that is meant. -/
def IntWord.value (word : IntWord) : Int := signedNumber word.negative word.digits

/-- `atoi` reads the number, sign included, as an `int` of 32 bits. -/
theorem atoi_int (word : IntWord) : atoi word.text = BitVec.ofInt 32 word.value := by
  obtain ⟨negative, digits, areDigits, nonempty, fits⟩ := word
  have whole := (take_drop_digits 10 digits [] areDigits (by simp)).1
  rw [List.append_nil] at whole
  cases negative with
  | true =>
    have sign : splitSign (('-' :: digits).dropWhile isSpace) = (true, digits) := rfl
    have long : max (-(numberOf 10 digits : Int)) (-2 ^ 63) = -(numberOf 10 digits : Int) := by
      simp only [signedNumber, ↓reduceIte] at fits
      omega
    simp only [IntWord.text, IntWord.value, signedNumber, ↓reduceIte, atoi, strtol, sign, whole,
      long]
  | false =>
    obtain ⟨c, rest, rfl⟩ := List.exists_cons_of_ne_nil nonempty
    have long : min (numberOf 10 (c :: rest) : Int) (2 ^ 63 - 1) = numberOf 10 (c :: rest) := by
      simp only [signedNumber, Bool.false_eq_true, ↓reduceIte] at fits
      omega
    simp only [IntWord.text, IntWord.value, signedNumber, Bool.false_eq_true, ↓reduceIte, atoi,
      strtol, split_sign_digit 10 c rest (areDigits c List.mem_cons_self), whole, long]

/-- The character of a decimal digit. -/
def digitChar (digit : Nat) : Char := Char.ofNat (48 + digit)

theorem digit_value_char (digit : Nat) (small : digit < 10) :
    digitValue (digitChar digit) = some digit := by
  revert digit
  decide

/-- Every number has digits that denote it, by repeated division by ten. -/
theorem exists_digits (number : Nat) : ∃ digits : CString,
    (∀ c ∈ digits, isDigit 10 c = true) ∧ digits ≠ [] ∧ numberOf 10 digits = number := by
  cases number with
  | zero => exact ⟨['0'], List.all_eq_true.mp rfl, List.cons_ne_nil _ _, rfl⟩
  | succ number =>
    refine ⟨((Nat.digits 10 (number + 1)).map digitChar).reverse, ?_, ?_, ?_⟩
    · intro c member
      obtain ⟨digit, present, rfl⟩ := List.mem_map.mp (List.mem_reverse.mp member)
      have small := Nat.digits_lt_base (by decide : 1 < 10) present
      rw [isDigit, digit_value_char digit small]
      simpa using small
    · rw [ne_eq, List.reverse_eq_nil_iff, List.map_eq_nil_iff, Nat.digits_eq_nil_iff_eq_zero]
      exact Nat.succ_ne_zero number
    · have read : (((Nat.digits 10 (number + 1)).map digitChar).map fun c =>
          (digitValue c).getD 0) = Nat.digits 10 (number + 1) := by
        rw [List.map_map]
        refine (List.map_congr_left fun digit present => ?_).trans (List.map_id _)
        have small := Nat.digits_lt_base (by decide : 1 < 10) present
        rw [Function.comp_apply, digit_value_char digit small]
        rfl
      rw [numberOf, List.reverse_reverse, read, Nat.ofDigits_digits]

/-- Every number that fits can be written without a sign. -/
theorem exists_decimal_word (number : Nat) (fits : number < 2 ^ 31) :
    ∃ word : DecimalWord, word.value = number := by
  obtain ⟨digits, areDigits, nonempty, denotes⟩ := exists_digits number
  exact ⟨⟨digits, areDigits, nonempty, by rwa [denotes]⟩, denotes⟩

/-- Every number that fits can be written. -/
theorem exists_int_word (number : Int) (fits : -2 ^ 31 ≤ number ∧ number < 2 ^ 31) :
    ∃ word : IntWord, word.value = number := by
  obtain ⟨digits, areDigits, nonempty, denotes⟩ := exists_digits number.natAbs
  have value : signedNumber (decide (number < 0)) digits = number := by
    rw [signedNumber, denotes]
    split
    · rename_i negative
      rw [decide_eq_true_eq] at negative
      omega
    · rename_i positive
      rw [decide_eq_true_eq] at positive
      omega
  exact ⟨⟨decide (number < 0), digits, areDigits, nonempty, by rwa [value]⟩, value⟩

/-- One or two hexadecimal digits, which is how a byte of an address is written. -/
structure HexByte where
  text : CString
  digits : ∀ c ∈ text, isDigit 16 c = true
  nonempty : text ≠ []
  short : text.length ≤ 2

/-- The byte written. -/
def HexByte.value (byte : HexByte) : BitVec 8 := BitVec.ofNat 8 (numberOf 16 byte.text)

/-- The character of a hexadecimal digit. -/
def hexChar (digit : Nat) : Char := if digit < 10 then digitChar digit else Char.ofNat (87 + digit)

theorem digit_value_hex (digit : Nat) (small : digit < 16) :
    digitValue (hexChar digit) = some digit := by
  revert digit
  decide

/-- Every byte can be written. -/
theorem exists_hex_byte (byte : BitVec 8) : ∃ written : HexByte, written.value = byte := by
  have high : byte.toNat / 16 < 16 := Nat.div_lt_of_lt_mul byte.isLt
  have low : byte.toNat % 16 < 16 := Nat.mod_lt _ (by decide)
  have isHex (digit : Nat) (small : digit < 16) : isDigit 16 (hexChar digit) = true := by
    rw [isDigit, digit_value_hex digit small]
    exact decide_eq_true small
  refine ⟨⟨[hexChar (byte.toNat / 16), hexChar (byte.toNat % 16)], ?_, List.cons_ne_nil _ _,
    Nat.le_refl 2⟩, ?_⟩
  · intro c member
    rcases List.mem_cons.mp member with rfl | last
    · exact isHex _ high
    · rw [List.mem_singleton.mp last]
      exact isHex _ low
  · have number : numberOf 16 [hexChar (byte.toNat / 16), hexChar (byte.toNat % 16)] =
        byte.toNat := by
      have digits : numberOf 16 [hexChar (byte.toNat / 16), hexChar (byte.toNat % 16)] =
          byte.toNat % 16 + 16 * (byte.toNat / 16) := by
        simp [numberOf, digit_value_hex _ high, digit_value_hex _ low, Nat.ofDigits]
      rw [digits, Nat.mod_add_div]
    rw [HexByte.value, number, BitVec.ofNat_toNat, BitVec.setWidth_eq]

/-- Two hexadecimal digits stay far below the limits of `strtoul`, so no bound is ever stored in
place of the byte. -/
theorem HexByte.number_lt (byte : HexByte) : numberOf 16 byte.text < 2 ^ 64 := by
  have bound : numberOf 16 byte.text < 16 ^ byte.text.length := by
    have lengths : byte.text.length =
        (byte.text.reverse.map fun c => (digitValue c).getD 0).length := by
      rw [List.length_map, List.length_reverse]
    rw [lengths]
    apply Nat.ofDigits_lt_base_pow_length (by decide)
    intro digit member
    obtain ⟨c, present, rfl⟩ := List.mem_map.mp member
    have isOne := byte.digits c (List.mem_reverse.mp present)
    unfold isDigit at isOne
    cases value : digitValue c with
    | none => simp
    | some value' =>
      rw [value] at isOne
      simpa using isOne
  calc numberOf 16 byte.text < 16 ^ byte.text.length := bound
    _ ≤ 16 ^ 2 := Nat.pow_le_pow_right (by decide) byte.short
    _ < 2 ^ 64 := by decide

/-- The input goes on with a colon or ends. Then a field of digits is read to its end. -/
def EndsField (rest : CString) : Prop := rest = [] ∨ ∃ more, rest = ':' :: more

/-- Digits before a colon do not start with `0x`, since `x` is no digit. So nothing of a written
byte is skipped. -/
theorem skip_base_digits (text rest : CString) (digits : ∀ c ∈ text, isDigit 16 c = true)
    (nonempty : text ≠ []) (ends : EndsField rest) : skipBase (text ++ rest) = text ++ rest := by
  obtain ⟨first, others, rfl⟩ := List.exists_cons_of_ne_nil nonempty
  have second : ∀ c ∈ (others ++ rest).head?, c ≠ 'x' ∧ c ≠ 'X' := by
    intro c member
    cases others with
    | nil =>
      rcases ends with rfl | ⟨more, rfl⟩
      · cases member
      · obtain rfl : ':' = c := by simpa using member
        decide
    | cons next others =>
      obtain rfl : next = c := by simpa using member
      have digit := digits next (by simp)
      constructor
      · rintro rfl
        cases digit
      · rintro rfl
        cases digit
  unfold skipBase
  split
  · rename_i more same
    have tail : others ++ rest = 'x' :: more := (List.cons.inj same).2
    exact absurd rfl (second 'x' (by rw [tail]; rfl)).1
  · rename_i more same
    have tail : others ++ rest = 'X' :: more := (List.cons.inj same).2
    exact absurd rfl (second 'X' (by rw [tail]; rfl)).2
  · rfl

/-- `%hhx` reads a written byte up to the colon or the end. -/
theorem scan_hex_byte (byte : HexByte) (rest : CString) (ends : EndsField rest) :
    scanHex (byte.text ++ rest) = some (byte.value, rest) := by
  have stops : ∀ c ∈ rest.head?, isDigit 16 c = false := by
    rcases ends with rfl | ⟨more, rfl⟩
    · intro c member
      cases member
    · intro c member
      obtain rfl : ':' = c := by simpa using member
      rfl
  have whole := take_drop_digits 16 byte.text rest byte.digits stops
  have skipped := skip_base_digits byte.text rest byte.digits byte.nonempty ends
  obtain ⟨first, others, start⟩ := List.exists_cons_of_ne_nil byte.nonempty
  have unsigned : splitSign ((byte.text ++ rest).dropWhile isSpace) =
      (false, byte.text ++ rest) := by
    rw [start, List.cons_append]
    exact split_sign_digit 16 first (others ++ rest)
      (byte.digits first (by rw [start]; exact List.mem_cons_self))
  have small := Nat.not_le.mpr byte.number_lt
  simp only [scanHex, unsigned, skipped, whole, byte.nonempty, small, ↓reduceIte,
    Bool.false_eq_true, HexByte.value, BitVec.ofInt_natCast]

/-- Bytes with a colon between each two, as an address is written on a command line. -/
def joined : List HexByte → CString
  | [] => []
  | [byte] => byte.text
  | byte :: rest => byte.text ++ ':' :: joined rest

theorem joined_starts (byte : HexByte) (rest : List HexByte) :
    ∃ first others, joined (byte :: rest) = first :: others ∧ isDigit 16 first = true := by
  obtain ⟨first, others, start⟩ := List.exists_cons_of_ne_nil byte.nonempty
  have digit := byte.digits first (by rw [start]; exact List.mem_cons_self)
  cases rest with
  | nil => exact ⟨first, others, start, digit⟩
  | cons next rest =>
    refine ⟨first, others ++ ':' :: joined (next :: rest), ?_, digit⟩
    change byte.text ++ ':' :: joined (next :: rest) = _
    rw [start, List.cons_append]

/-- `sscanf` reads the bytes back, as many as there are conversions for them. -/
theorem scan_joined (bytes : List HexByte) :
    scanHexFields bytes.length (joined bytes) = bytes.map HexByte.value := by
  induction bytes with
  | nil => rfl
  | cons byte rest inductionHypothesis =>
    cases rest with
    | nil =>
      have scanned := scan_hex_byte byte [] (Or.inl rfl)
      rw [List.append_nil] at scanned
      simp only [List.length_cons, List.length_nil, joined, scanHexFields, scanned, List.map_cons,
        List.map_nil]
    | cons next rest =>
      have scanned := scan_hex_byte byte (':' :: joined (next :: rest)) (Or.inr ⟨_, rfl⟩)
      have split : joined (byte :: next :: rest) =
          byte.text ++ ':' :: joined (next :: rest) := rfl
      rw [List.length_cons, split, scanHexFields, scanned, List.map_cons, ← inductionHypothesis]
      rfl

end CStrings

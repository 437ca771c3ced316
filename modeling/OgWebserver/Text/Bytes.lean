import Mathlib.Algebra.Group.Nat.Defs
import Mathlib.Algebra.Ring.Int.Defs
import Mathlib.Data.List.Basic
import Mathlib.Data.Nat.Basic
import Mathlib.Data.Nat.Digits.Defs

/-!
# Byte strings and decimal numerals

Text handled by a C program is a sequence of bytes.  A C string is represented
by its bytes without the terminating zero.  The file fixes the two conversions
between `int` values and decimal text that such programs use: the `%d`
conversion of `printf` and the library function `atoi`.
-/

namespace OgWebserver.Text

/-- The bytes of a buffer, or of a C string without its terminating zero. -/
abbrev Bytes := List UInt8

/-- The bytes of an ASCII literal. -/
def bytes (s : String) : Bytes :=
  s.toList.map fun c => UInt8.ofNat c.toNat

/-- Decimal numeral of a natural number. -/
def decimal (n : Nat) : Bytes :=
  (Nat.toDigits 10 n).map fun c => UInt8.ofNat c.toNat

/-- The `%d` conversion of `printf`. -/
def formatInt (n : Int32) : Bytes :=
  if n.toInt < 0 then 45 :: decimal n.toInt.natAbs else decimal n.toInt.natAbs

/-- The `%d` conversion, given a `size_t`. -/
def formatSize (n : Nat) : Bytes :=
  formatInt (Int32.ofNat n)

/-- The library predicate `isdigit` in the C locale. -/
def isDigit (b : UInt8) : Bool :=
  48 ≤ b.toNat && b.toNat ≤ 57

/-- The library predicate `isspace` in the C locale. -/
def isSpace (b : UInt8) : Bool :=
  b.toNat == 32 || (9 ≤ b.toNat && b.toNat ≤ 13)

/-- Value of the longest run of digits at the front, on top of `value`. -/
def digitsValue : Nat → Bytes → Nat
  | value, [] => value
  | value, b :: rest =>
      if isDigit b then digitsValue (10 * value + (b.toNat - 48)) rest else value

/-- `strtol(s, NULL, 10)`: blanks, an optional sign, digits; the result is
clamped to the range of a 64-bit `long`. -/
def strtol (s : Bytes) : Int :=
  match s.dropWhile isSpace with
  | 45 :: digits => max (-(2 ^ 63)) (-(digitsValue 0 digits : Int))
  | 43 :: digits => min (2 ^ 63 - 1) (digitsValue 0 digits)
  | digits => min (2 ^ 63 - 1) (digitsValue 0 digits)

/-- `atoi`: `strtol` cut down to an `int`. -/
def atoi (s : Bytes) : Int32 :=
  Int32.ofInt (strtol s)

private theorem digit_toNat {c : Char} (digit : c.isDigit = true) :
    48 ≤ c.toNat ∧ c.toNat ≤ 57 := by
  simpa [Char.isDigit, UInt32.le_iff_toNat_le] using digit

private theorem digit_byte_toNat {c : Char} (digit : c.isDigit = true) :
    (UInt8.ofNat c.toNat).toNat = c.toNat := by
  have bounds := digit_toNat digit
  rw [UInt8.toNat_ofNat']
  omega

theorem digitsValue_map_digits (cs : List Char) (digits : ∀ c ∈ cs, c.isDigit = true)
    (value : Nat) :
    digitsValue value (cs.map fun c => UInt8.ofNat c.toNat) =
      Nat.ofDigitChars 10 cs value := by
  induction cs generalizing value with
  | nil => rfl
  | cons c cs ih =>
      have digit := digits c List.mem_cons_self
      have bounds := digit_toNat digit
      have byte := digit_byte_toNat digit
      have rest : ∀ d ∈ cs, d.isDigit = true :=
        fun d member => digits d (List.mem_cons_of_mem c member)
      simp only [List.map_cons, digitsValue, isDigit, byte, Nat.ofDigitChars_cons]
      rw [if_pos (by simp [bounds])]
      exact ih rest _

theorem digits_decimal (n : Nat) :
    ∀ c ∈ Nat.toDigits 10 n, c.isDigit = true := by
  intro c member
  exact Nat.isDigit_of_mem_toDigits (by decide) (by decide) member

theorem length_decimal_le {n digits : Nat} (some_ : 0 < digits) (small : n < 10 ^ digits) :
    (decimal n).length ≤ digits := by
  rw [decimal, List.length_map]
  exact Nat.toDigits_length 10 n digits some_ small

/-- A sign and ten digits are enough for an `int`. -/
theorem length_formatInt_le (n : Int32) : (formatInt n).length ≤ 11 := by
  have low := n.minValue_le_toInt
  have high := n.toInt_lt
  have digits : (decimal n.toInt.natAbs).length ≤ 10 := by
    apply length_decimal_le (by decide)
    have : (Int32.minValue.toInt : Int) = -2147483648 := by decide
    omega
  rw [formatInt]
  split
  · rw [List.length_cons]
    exact Nat.succ_le_succ digits
  · exact Nat.le_succ_of_le digits

/-- A `size_t` that an `int` can hold is shown as it is. -/
theorem formatSize_of_lt {n : Nat} (small : n < 2 ^ 31) : formatSize n = decimal n := by
  have same : (Int32.ofNat n).toInt = n := Int32.toInt_ofNat_of_lt small
  rw [formatSize, formatInt, same, if_neg (Int.not_lt.mpr (Int.natCast_nonneg n)),
    Int.natAbs_natCast]

/-- Reading a decimal numeral back gives the number it was written from. -/
theorem digitsValue_decimal (n : Nat) : digitsValue 0 (decimal n) = n := by
  rw [decimal, digitsValue_map_digits _ (digits_decimal n)]
  exact Nat.ofDigitChars_ten_toDigits

theorem isDigit_of_mem_decimal {n : Nat} : ∀ b ∈ decimal n, isDigit b = true := by
  intro b member
  rcases List.mem_map.mp member with ⟨c, inDigits, rfl⟩
  have digit := digits_decimal n c inDigits
  have bounds := digit_toNat digit
  simp [isDigit, digit_byte_toNat digit, bounds]

/-- A decimal numeral starts with a digit. -/
theorem decimal_cons (n : Nat) :
    ∃ b rest, decimal n = b :: rest ∧ isDigit b = true := by
  cases shape : decimal n with
  | nil => exact absurd (List.map_eq_nil_iff.mp shape) Nat.toDigits_ne_nil
  | cons b rest =>
      have first : b ∈ decimal n := by simp [shape]
      exact ⟨b, rest, rfl, isDigit_of_mem_decimal b first⟩

private theorem ne_of_isDigit {b c : UInt8} (digit : isDigit b = true)
    (other : isDigit c = false) : b ≠ c := by
  rintro rfl
  rw [digit] at other
  contradiction

private theorem isSpace_of_isDigit {b : UInt8} (digit : isDigit b = true) :
    isSpace b = false := by
  simp only [isDigit, Bool.and_eq_true, decide_eq_true_eq] at digit
  simp only [isSpace, Bool.or_eq_false_iff, beq_eq_false_iff_ne, Bool.and_eq_false_imp,
    decide_eq_true_eq, decide_eq_false_iff_not]
  omega

/-- `strtol` reads a decimal numeral below `2^63` exactly. -/
theorem strtol_decimal (n : Nat) (small : n < 2 ^ 63) : strtol (decimal n) = n := by
  rcases decimal_cons n with ⟨b, rest, shape, digit⟩
  have value := digitsValue_decimal n
  have blank : (decimal n).dropWhile isSpace = b :: rest := by
    rw [shape, List.dropWhile_cons_of_neg (by simp [isSpace_of_isDigit digit])]
  have minus : b ≠ 45 := ne_of_isDigit digit (by decide)
  have plus : b ≠ 43 := ne_of_isDigit digit (by decide)
  rw [shape] at value
  unfold strtol
  rw [blank]
  split
  · simp_all
  · simp_all
  · rw [value]
    omega

theorem digitsValue_append {digits : Bytes} (all : ∀ b ∈ digits, isDigit b = true) {c : UInt8}
    (stop : isDigit c = false) (value : Nat) (rest : Bytes) :
    digitsValue value (digits ++ c :: rest) = digitsValue value digits := by
  induction digits generalizing value with
  | nil => simp [digitsValue, stop]
  | cons b digits ih =>
      rcases List.forall_mem_cons.mp all with ⟨digit, others⟩
      simp only [List.cons_append, digitsValue, digit, if_true]
      exact ih others _

/-- What follows a decimal numeral does not matter to `strtol`. -/
theorem strtol_decimal_append (n : Nat) (small : n < 2 ^ 63) {c : UInt8}
    (stop : isDigit c = false) (after : Bytes) : strtol (decimal n ++ c :: after) = n := by
  have value : digitsValue 0 (decimal n ++ c :: after) = n := by
    rw [digitsValue_append (@isDigit_of_mem_decimal n) stop, digitsValue_decimal]
  rcases decimal_cons n with ⟨b, rest, shape, digit⟩
  rw [shape, List.cons_append] at value ⊢
  have blank : (b :: (rest ++ c :: after)).dropWhile isSpace = b :: (rest ++ c :: after) :=
    List.dropWhile_cons_of_neg (by simp [isSpace_of_isDigit digit])
  have minus : b ≠ 45 := ne_of_isDigit digit (by decide)
  have plus : b ≠ 43 := ne_of_isDigit digit (by decide)
  unfold strtol
  rw [blank]
  split
  · simp_all
  · simp_all
  · rw [value]
    omega

/-- `strtol` reads a negative decimal numeral above `-2^63` exactly. -/
theorem strtol_minus_decimal (n : Nat) (small : n < 2 ^ 63) :
    strtol (45 :: decimal n) = -(n : Int) := by
  have blank : (45 :: decimal n).dropWhile isSpace = 45 :: decimal n :=
    List.dropWhile_cons_of_neg (by decide)
  simp only [strtol, blank, digitsValue_decimal]
  omega

theorem strtol_formatInt (n : Int32) : strtol (formatInt n) = n.toInt := by
  have lower := n.le_toInt
  have upper := n.toInt_lt
  have small : n.toInt.natAbs < 2 ^ 63 := by omega
  unfold formatInt
  split
  · rw [strtol_minus_decimal _ small]
    omega
  · rw [strtol_decimal _ small]
    omega

/-- `atoi` undoes the `%d` conversion. -/
theorem atoi_formatInt (n : Int32) : atoi (formatInt n) = n := by
  rw [atoi, strtol_formatInt, Int32.ofInt_toInt]

/-- The `%d` conversion of a `size_t` takes its low half for an `int`.  So it prints the
numbers below `2^31` only. -/
theorem formatSize_eq_decimal_iff {n : Nat} (small : n < 2 ^ 63) :
    formatSize n = decimal n ↔ n < 2 ^ 31 := by
  constructor
  · intro same
    have value := congrArg strtol same
    rw [formatSize, strtol_formatInt, strtol_decimal n small] at value
    have upper := (Int32.ofNat n).toInt_lt
    omega
  · intro less
    have value : (Int32.ofNat n).toInt = n := Int32.toInt_ofNat_of_lt less
    rw [formatSize, formatInt, value, if_neg (by omega), Int.natAbs_natCast]

example : formatSize (2 ^ 31) = bytes "-2147483648" := by decide

end OgWebserver.Text

import Homework.Library.Decimal
import Mathlib.Data.Rat.Defs
import Mathlib.Algebra.Field.Rat
import Mathlib.Algebra.Order.Ring.Unbundled.Rat
import Mathlib.Tactic.NormNum

/-!
# Doubles without rounding

A finite double is an exact rational number. The operations follow the standard for infinities and
for `nan`, which no comparison holds of. There is one zero, which divides as the positive one.

`strtod` reads a double off the front of a C string in the C locale: a word for an infinity or for
`nan`, a hexadecimal numeral or a decimal one. No numeral is too large for it.
-/

set_option autoImplicit false
set_option relaxedAutoImplicit false

namespace Homework.Library

inductive Double where
  | finite (value : ℚ)
  | infinite (negative : Bool)
  | nan
deriving DecidableEq

namespace Double

def isNan : Double → Bool
  | nan => true
  | _ => false

/-! ### Arithmetic -/

def neg : Double → Double
  | finite value => finite (-value)
  | infinite negative => infinite !negative
  | nan => nan

def add : Double → Double → Double
  | finite first, finite second => finite (first + second)
  | infinite negative, finite _ => infinite negative
  | finite _, infinite negative => infinite negative
  | infinite first, infinite second => if first = second then infinite first else nan
  | nan, _ => nan
  | _, nan => nan

def sub (first second : Double) : Double := first.add second.neg

def mul : Double → Double → Double
  | finite first, finite second => finite (first * second)
  | infinite negative, finite value =>
    if value = 0 then nan else infinite (negative ^^ decide (value < 0))
  | finite value, infinite negative =>
    if value = 0 then nan else infinite (decide (value < 0) ^^ negative)
  | infinite first, infinite second => infinite (first ^^ second)
  | nan, _ => nan
  | _, nan => nan

def div : Double → Double → Double
  | finite dividend, finite divisor =>
    if divisor = 0 then if dividend = 0 then nan else infinite (dividend < 0)
    else finite (dividend / divisor)
  | infinite negative, finite divisor => infinite (negative ^^ decide (divisor < 0))
  | finite _, infinite _ => finite 0
  | infinite _, infinite _ => nan
  | nan, _ => nan
  | _, nan => nan

/-- `first < second`. -/
def lt : Double → Double → Bool
  | finite first, finite second => first < second
  | infinite negative, finite _ => negative
  | finite _, infinite negative => !negative
  | infinite first, infinite second => first && !second
  | nan, _ => false
  | _, nan => false

theorem finite_add (first second : ℚ) :
    (finite first).add (finite second) = finite (first + second) := rfl

theorem finite_sub (first second : ℚ) :
    (finite first).sub (finite second) = finite (first - second) := by
  rw [sub_eq_add_neg]
  rfl

theorem finite_mul (first second : ℚ) :
    (finite first).mul (finite second) = finite (first * second) := rfl

theorem finite_div (dividend : ℚ) {divisor : ℚ} (hdivisor : divisor ≠ 0) :
    (finite dividend).div (finite divisor) = finite (dividend / divisor) :=
  if_neg hdivisor

theorem finite_lt (first second : ℚ) :
    (finite first).lt (finite second) = decide (first < second) := rfl

/-- The order of two summands does not matter. -/
theorem add_add_swap (first second third : Double) :
    (first.add second).add third = (first.add third).add second := by
  rcases first with first | first | _ <;> rcases second with second | second | _ <;>
    rcases third with third | third | _
  case finite.finite.finite => exact congrArg finite (add_right_comm first second third)
  case infinite.infinite.infinite =>
    revert first second third
    decide
  all_goals grind [add]

end Double

/-! ### Reading a double -/

section Strtod

open CString

/-- A letter of ASCII in lower case. -/
def lowerByte (byte : UInt8) : UInt8 := if 65 ≤ byte && byte ≤ 90 then byte + 32 else byte

/-- What follows a word at the front of a text, in whatever case. -/
def afterWord (word : String) (text : List UInt8) : Option (List UInt8) :=
  if (text.take word.length).map lowerByte = ascii word then some (text.drop word.length) else none

/-- The value of a digit in bases up to 16. -/
def digitValue (byte : UInt8) : ℕ :=
  if isDigit byte then byte.toNat - 48 else (lowerByte byte).toNat - 87

/-- `isxdigit`. -/
def isHexDigit (byte : UInt8) : Bool :=
  isDigit byte || (97 ≤ lowerByte byte && lowerByte byte ≤ 102)

/-- The number of a string of digits. -/
def numberInBase (base : ℕ) (digits : List UInt8) : ℕ :=
  digits.foldl (fun number digit ↦ base * number + digitValue digit) 0

/-- A sign, if there is one: whether it is a minus, and what follows. -/
def readSign : List UInt8 → Bool × List UInt8
  | 45 :: rest => (true, rest)
  | 43 :: rest => (false, rest)
  | text => (false, text)

/-- The digits of the fraction, if there is one, and what follows. -/
def readFraction (isDigitOf : UInt8 → Bool) : List UInt8 → List UInt8 × List UInt8
  | 46 :: rest => rest.span isDigitOf
  | text => ([], text)

/-- The digits before an exponent, and what follows. There is a digit on one side of the point. -/
def readMantissa (base : ℕ) (isDigitOf : UInt8 → Bool) (text : List UInt8) :
    Option (ℚ × List UInt8) :=
  let (whole, rest) := text.span isDigitOf
  let (fraction, rest) := readFraction isDigitOf rest
  if whole = [] ∧ fraction = [] then none
  else some ((numberInBase base (whole ++ fraction) : ℚ) / (base : ℚ) ^ fraction.length, rest)

/-- The exponent after a letter, and what follows. Without a digit there is none. -/
def readExponent (letter : UInt8) (text : List UInt8) : ℤ × List UInt8 :=
  match text with
  | [] => (0, text)
  | first :: rest =>
    let (negative, rest) := readSign rest
    let (digits, rest) := rest.span isDigit
    if lowerByte first ≠ letter ∨ digits = [] then (0, text)
    else (if negative then -(numberInBase 10 digits : ℤ) else numberInBase 10 digits, rest)

/-- A numeral: a mantissa, and an exponent that scales it. -/
def readNumeral (base scale : ℕ) (isDigitOf : UInt8 → Bool) (letter : UInt8)
    (text : List UInt8) : Option (Double × List UInt8) :=
  (readMantissa base isDigitOf text).map fun (mantissa, rest) ↦
    let (exponent, rest) := readExponent letter rest
    (.finite (mantissa * (scale : ℚ) ^ exponent), rest)

/-- What follows the parenthesis behind `nan`, if there is one. -/
def afterPayload (text : List UInt8) : List UInt8 :=
  match text with
  | 40 :: rest =>
    match rest.dropWhile fun byte ↦ isDigit byte || byte = 95 ||
        (97 ≤ lowerByte byte && lowerByte byte ≤ 122) with
    | 41 :: rest => rest
    | _ => text
  | _ => text

/-- A double without a sign. -/
def readUnsigned (text : List UInt8) : Option (Double × List UInt8) :=
  match afterWord "infinity" text, afterWord "inf" text, afterWord "nan" text with
  | some rest, _, _ => some (.infinite false, rest)
  | none, some rest, _ => some (.infinite false, rest)
  | none, none, some rest => some (.nan, afterPayload rest)
  | none, none, none =>
    match (afterWord "0x" text).bind (readNumeral 16 2 isHexDigit 112) with
    | some result => some result
    | none => readNumeral 10 10 isDigit 101 text

/-- `strtod`: the value, and the end of what was read; `none` if there is no number. -/
def strtod (text : List UInt8) : Option (Double × List UInt8) :=
  let (negative, rest) := readSign (text.dropWhile isSpace)
  (readUnsigned rest).map fun (value, rest) ↦ (if negative then value.neg else value, rest)

end Strtod

end Homework.Library

import CliPos.Model.Definitions

/-!
# Numeric conversions

`std::to_string` and the parsers `stol`, `stoi`, `stod` and `stof`, on the strings the
program hands them.  Every string parsed has gone through `remove_non_nr`, so it holds
digits and dots only: no sign, blank or exponent is left for a parser to read.

A `double` or `float` that is read is kept as the exact rational its numeral denotes;
the range errors of `strtod` and `strtof` are kept as conditions on that rational.
-/

set_option autoImplicit false

namespace CliPos

open Decimal

/-! ## Printing -/

/-- `std::to_string` of an integer. -/
def intText (z : ℤ) : Str := if z < 0 then minus :: natText z.natAbs else natText z.natAbs

/-- The integer nearest to `x`, the even one of two equally near. -/
def roundHalfEven (x : ℚ) : ℤ :=
  if x - ⌊x⌋ < 1 / 2 then ⌊x⌋
  else if 1 / 2 < x - ⌊x⌋ then ⌊x⌋ + 1
  else if ⌊x⌋ % 2 = 0 then ⌊x⌋ else ⌊x⌋ + 1

/-- A number's absolute value in millionths, as `"%f"` rounds it. -/
def micros (x : ℚ) : ℕ := (roundHalfEven (|x| * 10 ^ 6)).toNat

/-- `std::to_string` of a `double`: the format `"%f"`, with six decimals. -/
def doubleText (x : ℚ) : Str :=
  let text := natText (micros x / 10 ^ 6) ++ dot :: fixed 6 (micros x % 10 ^ 6)
  if x < 0 then minus :: text else text

/-- The number the text of a `double` denotes. -/
def sixDecimals (x : ℚ) : ℚ := if x < 0 then -(micros x / 10 ^ 6 : ℚ) else micros x / 10 ^ 6

/-- A number's absolute value in units of the `k`-th decimal, as a format with `k` decimals
rounds it. -/
def fixedUnits (k : ℕ) (x : ℚ) : ℕ := (roundHalfEven (|x| * 10 ^ k)).toNat

/-- `std::format` of a `double` with `k` decimals. -/
def fixedText (k : ℕ) (x : ℚ) : Str :=
  let text := natText (fixedUnits k x / 10 ^ k) ++ dot :: fixed k (fixedUnits k x % 10 ^ k)
  if x < 0 then minus :: text else text

/-- The number that text denotes. -/
def fixedValue (k : ℕ) (x : ℚ) : ℚ :=
  if x < 0 then -(fixedUnits k x / 10 ^ k : ℚ) else fixedUnits k x / 10 ^ k

/-! ## Parsing -/

/-- The digits a string starts with. -/
def leadingDigits (s : Str) : Str := s.takeWhile isDigit

/-- `strtol`, with the largest value of the type read. -/
def parseInteger (largest : ℕ) (s : Str) : Except Exception ℤ :=
  if leadingDigits s = [] then .error .invalidArgument
  else if value (leadingDigits s) ≤ largest then .ok (value (leadingDigits s))
  else .error .outOfRange

/-- `std::stol`. -/
def stol (s : Str) : Except Exception ℤ := parseInteger (2 ^ 63 - 1) s

/-- `std::stoi`. -/
def stoi (s : Str) : Except Exception ℤ := parseInteger (2 ^ 31 - 1) s

/-- The digits after the decimal point, when one follows the leading digits. -/
def fractionDigits (s : Str) : Str :=
  match s.dropWhile isDigit with
  | [] => []
  | b :: rest => if b = dot then leadingDigits rest else []

/-- The number denoted by the longest numeral a string starts with: digits, then a
point and digits, at least one digit in all. -/
def strtod (s : Str) : Option ℚ :=
  if leadingDigits s = [] ∧ fractionDigits s = [] then none
  else some (value (leadingDigits s) +
    value (fractionDigits s) / 10 ^ (fractionDigits s).length)

/-- A binary floating-point format: digits of precision, largest exponent, and the
negative of the smallest exponent of a normal number. -/
structure FloatFormat where
  precision : ℕ
  maxExponent : ℕ
  minExponent : ℕ

/-- `float`. -/
def binary32 : FloatFormat := ⟨24, 127, 126⟩
/-- `double`. -/
def binary64 : FloatFormat := ⟨53, 1023, 1022⟩

namespace FloatFormat

/-- Rounding the number to the format gives infinity. -/
def Overflows (f : FloatFormat) (x : ℚ) : Prop :=
  2 ^ f.maxExponent * (2 - 1 / 2 ^ f.precision) ≤ x

/-- The number is below the normal range and not a number of the format. -/
def Underflows (f : FloatFormat) (x : ℚ) : Prop :=
  0 < x ∧ x < 1 / 2 ^ f.minExponent - 1 / 2 ^ (f.minExponent + f.precision + 1) ∧
    (x * 2 ^ (f.minExponent + f.precision - 1)).den ≠ 1

/-- A number is compared with the largest one. -/
instance (f : FloatFormat) (x : ℚ) : Decidable (f.Overflows x) := by
  unfold Overflows; infer_instance

/-- It is compared with the smallest one. -/
instance (f : FloatFormat) (x : ℚ) : Decidable (f.Underflows x) := by
  unfold Underflows; infer_instance

end FloatFormat

/-- `std::stod` and `std::stof`, for the format they read into. -/
def parseFloat (f : FloatFormat) (s : Str) : Except Exception ℚ :=
  match strtod s with
  | none => .error .invalidArgument
  | some x => if f.Overflows x ∨ f.Underflows x then .error .outOfRange else .ok x

/-- `std::stod`. -/
def stod (s : Str) : Except Exception ℚ := parseFloat binary64 s

/-- `std::stof`. -/
def stof (s : Str) : Except Exception ℚ := parseFloat binary32 s

/-- Conversion of a `double` to `int`. -/
def truncate (x : ℚ) : ℤ := if x < 0 then ⌈x⌉ else ⌊x⌋

end CliPos

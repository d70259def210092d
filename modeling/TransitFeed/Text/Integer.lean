/-!
# Integers of a fixed range

Integer fields hold values of a fixed range: 32-bit signed, 64-bit signed or 32-bit
unsigned. Their text is an optional sign followed by digits, leading zeros allowed; a
minus sign belongs only to a range with negative members. Reading walks the digits from
the left and stops at the first fault, so a digit that overflows the range reports
`tooLarge` (or `tooSmall` below zero) even if a bad character follows it.
-/

namespace TransitFeed

/-- Why a text is not an integer of the expected range. -/
inductive IntegerError where
  | empty
  | invalidDigit
  | tooLarge
  | tooSmall
  deriving Repr, DecidableEq

/-- The sentence that names an integer reading fault. -/
def IntegerError.message : IntegerError → String
  | .empty => "cannot parse integer from empty string"
  | .invalidDigit => "invalid digit found in string"
  | .tooLarge => "number too large to fit in target type"
  | .tooSmall => "number too small to fit in target type"

/-- Inclusive bounds of an integer type. -/
structure IntRange where
  lo : Int
  hi : Int
  deriving Repr, DecidableEq

namespace IntRange

/-- 32-bit signed integers. -/
def i32 : IntRange := ⟨-2147483648, 2147483647⟩
/-- 64-bit signed integers. -/
def i64 : IntRange := ⟨-9223372036854775808, 9223372036854775807⟩
/-- 32-bit unsigned integers. -/
def u32 : IntRange := ⟨0, 4294967295⟩
/-- 64-bit unsigned integers, the range of sizes and counts. -/
def u64 : IntRange := ⟨0, 18446744073709551615⟩
/-- Bytes. -/
def u8 : IntRange := ⟨0, 255⟩

/-- Whether the range holds the value. -/
def contains (r : IntRange) (n : Int) : Bool := r.lo ≤ n && n ≤ r.hi

/-- The value itself if the range holds it, else the side on which it falls out. -/
def check (r : IntRange) (n : Int) : Except IntegerError Int :=
  if n > r.hi then .error .tooLarge
  else if n < r.lo then .error .tooSmall
  else .ok n

end IntRange

/-- The value of a digit in the given radix (at most 16), if it is one. -/
def digitIn (radix : Nat) (c : Char) : Option Nat :=
  let v :=
    if '0' ≤ c && c ≤ '9' then c.toNat - '0'.toNat
    else if 'a' ≤ c && c ≤ 'f' then c.toNat - 'a'.toNat + 10
    else if 'A' ≤ c && c ≤ 'F' then c.toNat - 'A'.toNat + 10
    else 99
  if v < radix then some v else none

/-- Accumulates digits left to right, stopping at the first bad digit or overflow. -/
def accumulate (r : IntRange) (radix : Nat) (negative : Bool) :
    Int → List Char → Except IntegerError Int
  | acc, [] => .ok acc
  | acc, c :: rest =>
    match digitIn radix c with
    | none => .error .invalidDigit
    | some d =>
      let next := if negative then acc * radix - d else acc * radix + d
      match r.check next with
      | .ok v => accumulate r radix negative v rest
      | .error e => .error e

/-- Reads an integer of the range from its text in the given radix. -/
def readInteger (r : IntRange) (radix : Nat) (s : String) : Except IntegerError Int :=
  match s.toList with
  | [] => .error .empty
  | ['+'] => .error .invalidDigit
  | ['-'] => .error .invalidDigit
  | '+' :: digits => accumulate r radix false 0 digits
  | '-' :: digits =>
    if r.lo < 0 then accumulate r radix true 0 digits else .error .invalidDigit
  | digits => accumulate r radix false 0 digits

/-- Reads a decimal integer of the range. -/
def readDecimal (r : IntRange) (s : String) : Except IntegerError Int :=
  readInteger r 10 s

end TransitFeed

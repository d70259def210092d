import TransitFeed.Value.Sql
import TransitFeed.Text.Decimal
import TransitFeed.Text.Number

/-!
# Conversions of relational values

A column converts what is stored in it according to its affinity, decided by the words
of its declared type: a type naming `INT` is integral, one naming `CHAR`, `CLOB` or
`TEXT` is textual, one naming `BLOB` or no type at all keeps values as they are, one
naming `REAL`, `FLOA` or `DOUB` is real, and any other is numeric.

* A textual column stores numbers as their text.
* A numeric or integral column stores a text that is a whole number literal as a number,
  an integer when the value is integral and fits in 64 bits, and stores an integral float
  as an integer.
* A real column stores numbers and numeric texts as floats.

Floats are written with fifteen significant digits, `.0` after an integral value, and an
exponent of at least two digits outside `1e-4 ≤ |x| < 1e15`. Arithmetic and casts read
texts through their longest numeric start, which is zero for a text without one.

Values are ordered by class first, nothing before numbers, numbers before texts, texts
before bytes, and within a class by value, texts and bytes byte by byte.
-/

namespace TransitFeed.Sql

/-- How a column converts the values stored in it. -/
inductive Affinity where
  | text
  | numeric
  | integer
  | real
  | blob
  deriving DecidableEq, Repr, Inhabited

/-- Whether `part` occurs in `s`. -/
def containsText (s part : String) : Bool := (s.splitOn part).length > 1

/-- The affinity of a declared type. -/
def Affinity.ofType (declared : String) : Affinity :=
  let t := declared.toUpper
  if containsText t "INT" then .integer
  else if containsText t "CHAR" || containsText t "CLOB" || containsText t "TEXT" then .text
  else if containsText t "BLOB" || t.isEmpty then .blob
  else if containsText t "REAL" || containsText t "FLOA" || containsText t "DOUB" then .real
  else .numeric

/-- The largest 64-bit integer. -/
def maxInt : Int := 9223372036854775807
/-- The smallest 64-bit integer. -/
def minInt : Int := -9223372036854775808

/-- The float nearest to an integer. -/
def Int.toFloatNearest (n : Int) : Float := Decimal.nearest (n < 0) n.natAbs 0

/-- The integer an integral float stands for, if it fits in 64 bits. -/
def integralValue? (x : Float) : Option Int :=
  match Decimal.parts x with
  | .finite negative m e =>
    if e ≥ 0 then
      let n : Int := m * Nat.pow 2 e.toNat
      let n := if negative then -n else n
      if minInt ≤ n && n ≤ maxInt then some n else none
    else if m % Nat.pow 2 (-e).toNat = 0 then
      let n : Int := m / Nat.pow 2 (-e).toNat
      some (if negative then -n else n)
    else none
  | _ => none

/-- A natural written with at least two digits. -/
def twoDigits (n : Nat) : String := if n < 10 then "0" ++ toString n else toString n

/-- The digits of a positive value rounded to fifteen significant digits, halves up, with
the decimal exponent of the first digit. -/
def fifteenDigits (m : Nat) (e : Int) : Nat × Int :=
  let k := Decimal.decimalExponent m e
  let shift := 14 - k
  let num := m * Nat.pow 2 e.toNat * Nat.pow 10 shift.toNat
  let den := Nat.pow 2 (-e).toNat * Nat.pow 10 (-shift).toNat
  let q := num / den
  let q := if 2 * (num % den) ≥ den then q + 1 else q
  if q ≥ Nat.pow 10 15 then (q / 10, k + 1) else (q, k)

/-- The text of a float as the store writes it. -/
def realText (x : Float) : String :=
  match Decimal.parts x with
  | .nan => ""
  | .infinite negative => if negative then "-Inf" else "Inf"
  | .finite negative m e =>
    let sign := if negative then "-" else ""
    if m = 0 then sign ++ "0.0"
    else
      let (q, k) := fifteenDigits m e
      let ds := (toString q).toList
      let ds := (ds.reverse.dropWhile (· == '0')).reverse
      let ds := if ds.isEmpty then ['0'] else ds
      if k < -4 || k ≥ 15 then
        let tail := ds.drop 1
        let tail := if tail.isEmpty then ['0'] else tail
        sign ++ String.ofList (ds.take 1) ++ "." ++ String.ofList tail ++ "e" ++
          (if k < 0 then "-" else "+") ++ twoDigits k.natAbs
      else if k < 0 then
        sign ++ "0." ++ String.ofList (List.replicate (k.natAbs - 1) '0') ++ String.ofList ds
      else
        let whole := k.toNat + 1
        let intPart := ds.take whole ++ List.replicate (whole - min whole ds.length) '0'
        let frac := ds.drop whole
        sign ++ String.ofList intPart ++ "." ++ (if frac.isEmpty then "0" else String.ofList frac)

/-- Blanks around numbers in texts. -/
def isSpaceChar (c : Char) : Bool :=
  c == ' ' || c == '\t' || c == '\n' || c == '\r' || c.toNat == 11 || c.toNat == 12

/-- The longest start of a text that reads as a number: the number, whether it is written
as an integer, and the characters read. -/
structure NumberStart where
  negative : Bool
  mantissa : Nat
  exponent : Int
  integral : Bool
  length : Nat

/-- Reads the longest numeric start of the characters, after blanks. -/
def numberStart (cs : List Char) : Option NumberStart :=
  let blanks := (cs.takeWhile isSpaceChar).length
  let cs := cs.drop blanks
  let (negative, signLength, cs) :=
    match cs with
    | '-' :: r => (true, 1, r)
    | '+' :: r => (false, 1, r)
    | r => (false, 0, r)
  let whole := cs.takeWhile Char.isDigit
  let cs := cs.drop whole.length
  let (fraction, point, cs) :=
    match cs with
    | '.' :: r => (r.takeWhile Char.isDigit, true, r.drop (r.takeWhile Char.isDigit).length)
    | _ => ([], false, cs)
  if whole.isEmpty && fraction.isEmpty then none
  else
    let mantissa := Number.digitsValue (whole ++ fraction)
    let read := blanks + signLength + whole.length + (if point then 1 + fraction.length else 0)
    let (exp, expLength) :=
      match cs with
      | e :: r =>
        if e == 'e' || e == 'E' then
          let (eneg, esign, r) :=
            match r with
            | '-' :: t => (true, 1, t)
            | '+' :: t => (false, 1, t)
            | t => (false, 0, t)
          let ds := r.takeWhile Char.isDigit
          if ds.isEmpty then ((0 : Int), 0)
          else
            let v : Int := Number.digitsValue ds
            ((if eneg then -v else v), 1 + esign + ds.length)
        else (0, 0)
      | [] => (0, 0)
    let integral := !point && expLength == 0
    some ⟨negative, mantissa, exp - fraction.length, integral, read + expLength⟩

/-- The value of a numeric start: an integer when written as one and fitting in 64 bits,
a float otherwise. -/
def NumberStart.value (n : NumberStart) : SqlValue :=
  let i : Int := if n.negative then -(n.mantissa : Int) else n.mantissa
  if n.integral && minInt ≤ i && i ≤ maxInt then .integer i
  else .real (Decimal.nearest n.negative n.mantissa n.exponent)

/-- The number a whole text stands for, blanks around it allowed. -/
def wholeNumber? (s : String) : Option NumberStart :=
  let cs := s.toList
  match numberStart cs with
  | some n => if (cs.drop n.length).all isSpaceChar then some n else none
  | none => none

/-- A float as an integer when it is integral, for numeric columns. -/
def preferInteger (v : SqlValue) : SqlValue :=
  match v with
  | .real x =>
    match integralValue? x with
    | some n => .integer n
    | none => v
  | _ => v

/-- The text of a value, for concatenation and textual columns; nothing has none. -/
def textOf? : SqlValue → Option String
  | .null => none
  | .integer n => some (toString n)
  | .real x => some (realText x)
  | .text s => some s
  | .blob bs => some (String.fromUTF8? (ByteArray.mk bs.toArray) |>.getD "")

/-- Stores a value in a column of the given affinity. -/
def Affinity.apply (a : Affinity) (v : SqlValue) : SqlValue :=
  match a, v with
  | .text, .integer _ | .text, .real _ => .text ((textOf? v).getD "")
  | .numeric, .text s | .integer, .text s =>
    match wholeNumber? s with
    | some n => preferInteger n.value
    | none => v
  | .numeric, .real _ | .integer, .real _ => preferInteger v
  | .real, .integer n => .real (Int.toFloatNearest n)
  | .real, .text s =>
    match wholeNumber? s with
    | some n =>
      match n.value with
      | .integer i => .real (Int.toFloatNearest i)
      | w => w
    | none => v
  | _, _ => v

/-- The number a value stands for in arithmetic: its longest numeric start for texts. -/
def numeric : SqlValue → SqlValue
  | .text s =>
    match numberStart s.toList with
    | some n => n.value
    | none => .integer 0
  | .blob bs =>
    match numberStart ((String.fromUTF8? (ByteArray.mk bs.toArray)).getD "").toList with
    | some n => n.value
    | none => .integer 0
  | v => v

/-- The float a number stands for. -/
def asFloat : SqlValue → Float
  | .integer n => Int.toFloatNearest n
  | .real x => x
  | _ => 0

/-- The class rank of a value in the order of values. -/
def classRank : SqlValue → Nat
  | .null => 0
  | .integer _ | .real _ => 1
  | .text _ => 2
  | .blob _ => 3

/-- Compares two lists of bytes. -/
def compareBytes : List UInt8 → List UInt8 → Ordering
  | [], [] => .eq
  | [], _ :: _ => .lt
  | _ :: _, [] => .gt
  | a :: as, b :: bs => if a < b then .lt else if b < a then .gt else compareBytes as bs

/-- The order of values. -/
def compareValues (a b : SqlValue) : Ordering :=
  match a, b with
  | .integer x, .integer y => compare x y
  | .integer _, .real _ | .real _, .integer _ | .real _, .real _ =>
    let x := asFloat a
    let y := asFloat b
    if x < y then .lt else if y < x then .gt else .eq
  | .text x, .text y => compareBytes x.toUTF8.toList y.toUTF8.toList
  | .blob x, .blob y => compareBytes x y
  | _, _ => compare (classRank a) (classRank b)

/-- Whether a value counts as true in a condition: a non-zero number. -/
def truth? (v : SqlValue) : Option Bool :=
  match v with
  | .null => none
  | _ =>
    match numeric v with
    | .integer n => some (n != 0)
    | .real x => some (x != 0)
    | _ => some false

end TransitFeed.Sql

import TransitFeed.Text.Decimal

/-!
# Texts of numbers

Two ways of writing a binary64 value, both from its shortest decimal digits:

* `positional` never uses an exponent: `1e21` is a one and 21 zeros, `1e-7` is
  `0.0000001`, an integral value has no fraction (`2`), and the special values are
  `NaN`, `inf` and `-inf`;
* `jsonText` is the JSON form: positional while the decimal point stands between
  `-6` and `21` places from the first digit, with `.0` after an integral value, and
  `d.ddde±x` outside; it has no text for NaN and the infinities.

`readFloat?` reads the decimal grammar of feed files: an optional sign, then digits with
at most one point and at least one digit, then an optional exponent, or one of `inf`,
`infinity` and `nan` in any case.
-/

namespace TransitFeed.Number

open TransitFeed.Decimal

/-- `n` copies of the character `0`. -/
def zeros (n : Nat) : String := String.ofList (List.replicate n '0')

/-- The digits of a scientific value with the decimal point written in, never an exponent. -/
def positionalDigits (s : Scientific) : String :=
  let ds := toString s.digits
  if s.exponent ≥ 0 then ds ++ zeros s.exponent.toNat
  else
    let point : Int := ds.length + s.exponent
    if point > 0 then
      String.ofList (ds.toList.take point.toNat) ++ "." ++ String.ofList (ds.toList.drop point.toNat)
    else "0." ++ zeros (-point).toNat ++ ds

/-- The value in positional notation with the fewest digits that read back. -/
def positional (x : Float) : String :=
  match parts x with
  | .nan => "NaN"
  | .infinite negative => if negative then "-inf" else "inf"
  | .finite negative m e =>
    let sign := if negative then "-" else ""
    if m == 0 then sign ++ "0" else sign ++ positionalDigits (shortest m e)

/-- The JSON text of a scientific value: positional near the unit, exponent outside. -/
def jsonDigits (s : Scientific) : String :=
  let ds := toString s.digits
  let n : Int := ds.length
  -- the value is 0.ds * 10 ^ point
  let point : Int := n + s.exponent
  if n ≤ point ∧ point ≤ 21 then ds ++ zeros (point - n).toNat ++ ".0"
  else if 0 < point ∧ point ≤ 21 then
    String.ofList (ds.toList.take point.toNat) ++ "." ++ String.ofList (ds.toList.drop point.toNat)
  else if -6 < point ∧ point ≤ 0 then "0." ++ zeros (-point).toNat ++ ds
  else
    let head := String.ofList (ds.toList.take 1)
    let tail := String.ofList (ds.toList.drop 1)
    let mantissa := if tail.isEmpty then head else head ++ "." ++ tail
    let e := point - 1
    mantissa ++ "e" ++ (if e < 0 then "-" else "+") ++ toString e.natAbs

/-- The JSON number text of a finite value; NaN and the infinities have none. -/
def jsonText (x : Float) : Option String :=
  match parts x with
  | .nan => none
  | .infinite _ => none
  | .finite negative m e =>
    let sign := if negative then "-" else ""
    if m == 0 then some (sign ++ "0.0") else some (sign ++ jsonDigits (shortest m e))

/-- The short text of a scientific value: positional while the point stands within
sixteen digits of the first one (`.0` after an integral value), `d.ddde±x` outside, with
no `+` in the exponent. -/
def shortDigits (s : Scientific) : String :=
  let ds := toString s.digits
  let n : Int := ds.length
  let point : Int := n + s.exponent
  if 0 ≤ s.exponent ∧ point ≤ 16 then ds ++ zeros s.exponent.toNat ++ ".0"
  else if 0 < point ∧ point ≤ 16 then
    String.ofList (ds.toList.take point.toNat) ++ "." ++ String.ofList (ds.toList.drop point.toNat)
  else if -5 < point ∧ point ≤ 0 then "0." ++ zeros (-point).toNat ++ ds
  else
    let head := String.ofList (ds.toList.take 1)
    let tail := String.ofList (ds.toList.drop 1)
    let mantissa := if tail.isEmpty then head else head ++ "." ++ tail
    mantissa ++ "e" ++ toString (point - 1)

/-- The short text of a value, as error messages quote numbers: `1.0`, `1e20`, `NaN`. -/
def shortText (x : Float) : String :=
  match parts x with
  | .nan => "NaN"
  | .infinite negative => if negative then "-inf" else "inf"
  | .finite negative m e =>
    let sign := if negative then "-" else ""
    if m == 0 then sign ++ "0.0" else sign ++ shortDigits (shortest m e)

/-- The value of a decimal digit. -/
def digitValue (c : Char) : Nat := c.toNat - '0'.toNat

/-- Splits off the leading decimal digits. -/
def spanDigits (cs : List Char) : List Char × List Char :=
  (cs.takeWhile Char.isDigit, cs.dropWhile Char.isDigit)

/-- The natural number written by a list of decimal digits. -/
def digitsValue (ds : List Char) : Nat :=
  ds.foldl (fun acc c => acc * 10 + digitValue c) 0

/-- Reads the unsigned part of a decimal number: digits, point, digits, exponent. -/
def readUnsigned? (cs : List Char) : Option (Nat × Int) :=
  let (whole, rest) := spanDigits cs
  let (fraction, rest) :=
    match rest with
    | '.' :: more => spanDigits more
    | _ => ([], rest)
  if whole.isEmpty && fraction.isEmpty then none
  else
    let mantissa := digitsValue (whole ++ fraction)
    let scale : Int := -(fraction.length : Int)
    match rest with
    | [] => some (mantissa, scale)
    | e :: more =>
      if e == 'e' || e == 'E' then
        let (negative, digits) :=
          match more with
          | '-' :: ds => (true, ds)
          | '+' :: ds => (false, ds)
          | ds => (false, ds)
        if digits.isEmpty || !digits.all Char.isDigit then none
        else
          let v : Int := digitsValue digits
          some (mantissa, scale + (if negative then -v else v))
      else none

/-- Reads a binary64 value from its decimal text, rounding to nearest. -/
def readFloat? (s : String) : Option Float :=
  let cs := s.toList
  let (negative, body) :=
    match cs with
    | '-' :: r => (true, r)
    | '+' :: r => (false, r)
    | r => (false, r)
  let word := String.ofList (body.map Char.toLower)
  if word == "inf" || word == "infinity" then some (ofFields negative 2047 0)
  else if word == "nan" then some (ofFields false 2047 (Nat.pow 2 51))
  else (readUnsigned? body).map fun (m, e) => nearest negative m e

end TransitFeed.Number

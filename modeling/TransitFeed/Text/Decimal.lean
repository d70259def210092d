/-!
# Binary64 values and their decimal digits

A finite binary64 value is `mantissa * 2 ^ exponent`. Two exact conversions stand here,
computed in `Nat` arithmetic so that no rounding of the host can leak in:

* `shortest` gives the fewest decimal digits that read back as the same value, and of
  those candidates the one nearest to it (an exact tie goes to the even digit);
* `nearest` reads `mantissa * 10 ^ exponent` as the nearest binary64 value, ties to even.

The printers of numbers in this library choose only where the decimal point goes.
-/

namespace TransitFeed.Decimal

/-- What the bits of a binary64 value stand for. -/
inductive Parts where
  | nan
  | infinite (negative : Bool)
  /-- The value `mantissa * 2 ^ exponent`, with the sign apart. -/
  | finite (negative : Bool) (mantissa : Nat) (exponent : Int)
  deriving Repr, DecidableEq

/-- Splits a float into sign, mantissa and binary exponent. -/
def parts (x : Float) : Parts :=
  let bits : Nat := x.toBits.toNat
  let negative := bits / Nat.pow 2 63 == 1
  let biased : Nat := (bits / Nat.pow 2 52) % 2048
  let fraction : Nat := bits % Nat.pow 2 52
  if biased == 2047 then
    if fraction == 0 then .infinite negative else .nan
  else if biased == 0 then .finite negative fraction (-1074)
  else .finite negative (fraction + Nat.pow 2 52) ((biased : Int) - 1075)

/-- A decimal number `digits * 10 ^ exponent`. -/
structure Scientific where
  digits : Nat
  exponent : Int
  deriving Repr, DecidableEq

/-- `a * 2 ^ p * 10 ^ q` as a fraction of naturals. -/
private def scaledFraction (a : Nat) (p q : Int) : Nat × Nat :=
  (a * Nat.pow 2 p.toNat * Nat.pow 10 q.toNat, Nat.pow 2 (-p).toNat * Nat.pow 10 (-q).toNat)

/-- Compares `a * 2 ^ p * 10 ^ q` with `b * 2 ^ r * 10 ^ s` exactly. -/
def compareScaled (a : Nat) (p q : Int) (b : Nat) (r s : Int) : Ordering :=
  let (n₁, d₁) := scaledFraction a p q
  let (n₂, d₂) := scaledFraction b r s
  compare (n₁ * d₂) (n₂ * d₁)

/-- The number of decimal digits of a positive natural, and 1 for zero. -/
def digitCount (n : Nat) : Nat := (toString n).length

/-- Removes trailing zeros of the digits, moving them into the exponent. -/
def Scientific.trim (x : Scientific) : Scientific :=
  go x.digits x.exponent (digitCount x.digits)
where
  go (d : Nat) (e : Int) : Nat → Scientific
    | 0 => ⟨d, e⟩
    | fuel + 1 => if d ≠ 0 ∧ d % 10 = 0 then go (d / 10) (e + 1) fuel else ⟨d, e⟩

/-- The exponent `k` with `10 ^ k ≤ m * 2 ^ e < 10 ^ (k + 1)`, for `m > 0`. -/
def decimalExponent (m : Nat) (e : Int) : Int :=
  let bitExponent : Int := (m.log2 : Int) + e
  -- 78913 / 2 ^ 18 is just below log10 2, so the estimate is off by at most one
  let estimate : Int := (bitExponent * 78913) / 262144
  let k := if compareScaled m e 0 1 0 (estimate + 1) != .lt then estimate + 1 else estimate
  let k := if compareScaled m e 0 1 0 (k + 1) != .lt then k + 1 else k
  let k := if compareScaled m e 0 1 0 k == .lt then k - 1 else k
  if compareScaled m e 0 1 0 k == .lt then k - 1 else k

/-- The candidate of `n` digits for the value `m * 2 ^ e`, if one reads back as it.

The rounding interval of the value reaches half way to each neighbouring value, and
its ends belong to it when the mantissa is even. -/
def candidate (m : Nat) (e : Int) (top : Int) (n : Nat) : Option Scientific :=
  let k := top - n + 1
  -- the interval is [4m - δ, 4m + 2] * 2 ^ (e - 2)
  let δ := if m == Nat.pow 2 52 && e > -1074 then 1 else 2
  let inclusive := m % 2 == 0
  let inside (c : Nat) : Bool :=
    let lo := compareScaled (4 * m - δ) (e - 2) 0 c 0 k
    let hi := compareScaled c 0 k (4 * m + 2) (e - 2) 0
    (lo == .lt || (inclusive && lo == .eq)) && (hi == .lt || (inclusive && hi == .eq))
  let (num, den) := scaledFraction m e (-k)
  let c₀ := num / den
  let r := num % den
  let c₁ := c₀ + 1
  match inside c₀, inside c₁ with
  | true, true =>
    let pick :=
      if 2 * r < den then c₀
      else if 2 * r > den then c₁
      else if c₀ % 2 == 0 then c₀ else c₁
    some (Scientific.trim ⟨pick, k⟩)
  | true, false => some (Scientific.trim ⟨c₀, k⟩)
  | false, true => some (Scientific.trim ⟨c₁, k⟩)
  | false, false => none

/-- The shortest decimal that reads back as `m * 2 ^ e`, for `m > 0`. -/
def shortest (m : Nat) (e : Int) : Scientific :=
  let top := decimalExponent m e
  match (List.range 17).findSome? (fun i => candidate m e top (i + 1)) with
  | some s => s
  | none =>
    let (num, den) := scaledFraction m e (-(top - 16))
    Scientific.trim ⟨num / den, top - 16⟩

/-- The binary64 value with the given sign, biased exponent and fraction bits. -/
def ofFields (negative : Bool) (biased : Nat) (fraction : Nat) : Float :=
  Float.ofBits (UInt64.ofNat ((if negative then Nat.pow 2 63 else 0) + biased * Nat.pow 2 52 + fraction))

/-- `⌊log2 (num / den)⌋` for positive `num` and `den`. -/
def binaryExponent (num den : Nat) : Int :=
  let l : Int := (num.log2 : Int) - den.log2
  let atLeast := if l ≥ 0 then num ≥ den * Nat.pow 2 l.toNat else num * Nat.pow 2 (-l).toNat ≥ den
  if atLeast then l else l - 1

/-- The binary64 value nearest to `mantissa * 10 ^ exponent`, ties to even.

Values beyond the largest finite one become infinite, values below half the least
subnormal become zero; the sign is kept in both. -/
def nearest (negative : Bool) (mantissa : Nat) (exponent : Int) : Float :=
  let magnitude : Int := (digitCount mantissa : Int) + exponent
  if mantissa == 0 || magnitude < -324 then ofFields negative 0 0
  else if magnitude > 310 then ofFields negative 2047 0
  else
    let (num, den) := scaledFraction mantissa 0 exponent
    let b : Int := max (binaryExponent num den - 52) (-1074)
    let (q, r, d) :=
      if b ≥ 0 then
        let d := den * Nat.pow 2 b.toNat
        (num / d, num % d, d)
      else
        let n := num * Nat.pow 2 (-b).toNat
        (n / den, n % den, den)
    let q := if 2 * r > d || (2 * r == d && q % 2 == 1) then q + 1 else q
    let (q, b) := if q == Nat.pow 2 53 then (Nat.pow 2 52, b + 1) else (q, b)
    if b + 52 > 1023 then ofFields negative 2047 0
    else if q < Nat.pow 2 52 then ofFields negative 0 q
    else ofFields negative (b + 1075).toNat (q - Nat.pow 2 52)

end TransitFeed.Decimal

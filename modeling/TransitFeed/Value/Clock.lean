import TransitFeed.Text.Integer

/-!
# Times of day and colours

Two small field types of feed files.

A time counts seconds from the start of the service day and may pass midnight
(`25:10:00`). Its text is `H:MM:SS` of 7 to 9 ASCII characters: the hours are everything
before the last six characters, then a colon, two characters of minutes, a colon and two
of seconds. Each part is an unsigned integer text (so `+1:00:00` is one hour), and the
minutes and seconds are not bounded by 60. It is written back with at least two digits
per part, the minutes and seconds normalised.

A colour is three bytes written as six hex digits `RRGGBB`, without a leading `#`; each
pair is an unsigned integer text in base 16, so `+f` is a pair. It is written back in
uppercase.
-/

namespace TransitFeed

/-- A time of day in seconds; it may pass midnight. -/
structure Time where
  seconds : Nat
  deriving DecidableEq, Repr, Hashable

namespace Time

instance : LT Time := ⟨fun a b => a.seconds < b.seconds⟩
instance : LE Time := ⟨fun a b => a.seconds ≤ b.seconds⟩
instance (a b : Time) : Decidable (a < b) := inferInstanceAs (Decidable (a.seconds < b.seconds))
instance (a b : Time) : Decidable (a ≤ b) := inferInstanceAs (Decidable (a.seconds ≤ b.seconds))

/-- A natural written with at least two digits. -/
def twoDigits (n : Nat) : String := if n < 10 then "0" ++ toString n else toString n

/-- The `HH:MM:SS` text of a time. -/
def text (t : Time) : String :=
  twoDigits (t.seconds / 3600) ++ ":" ++ twoDigits (t.seconds % 3600 / 60) ++ ":" ++
    twoDigits (t.seconds % 60)

/-- An unsigned 32-bit integer text. -/
def part? (cs : List Char) : Option Nat :=
  match readDecimal IntRange.u32 (String.ofList cs) with
  | .ok v => some v.toNat
  | .error _ => none

/-- Reads the `H:MM:SS` text of a time. -/
def read? (s : String) : Option Time :=
  let cs := s.toList
  let n := cs.length
  if n < 7 || n > 9 || !cs.all (fun c => c.toNat < 128) then none
  else if cs[n - 3]? != some ':' || cs[n - 6]? != some ':' then none
  else
    match part? (cs.take (n - 6)), part? ((cs.drop (n - 5)).take 2), part? (cs.drop (n - 2)) with
    | some h, some m, some sec => some ⟨h * 3600 + m * 60 + sec⟩
    | _, _, _ => none

end Time

/-- A colour as three bytes. -/
structure Color where
  red : Nat
  green : Nat
  blue : Nat
  deriving DecidableEq, Repr, Hashable

namespace Color

/-- The uppercase hex digit of a value below 16. -/
def hexDigit (d : Nat) : Char := if d < 10 then Char.ofNat (48 + d) else Char.ofNat (55 + d)

/-- Two uppercase hex digits of a byte. -/
def hexPair (n : Nat) : String := String.ofList [hexDigit (n / 16 % 16), hexDigit (n % 16)]

/-- The `RRGGBB` text of a colour, in uppercase. -/
def text (c : Color) : String := hexPair c.red ++ hexPair c.green ++ hexPair c.blue

/-- A byte written as an unsigned integer text in base 16. -/
def byte? (cs : List Char) : Option Nat :=
  match readInteger IntRange.u8 16 (String.ofList cs) with
  | .ok v => some v.toNat
  | .error _ => none

/-- Reads the `RRGGBB` text of a colour. -/
def read? (s : String) : Option Color :=
  let cs := s.toList
  if cs.length != 6 || !cs.all (fun c => c.toNat < 128) then none
  else
    match byte? (cs.take 2), byte? ((cs.drop 2).take 2), byte? (cs.drop 4) with
    | some r, some g, some b => some ⟨r, g, b⟩
    | _, _, _ => none

end Color

end TransitFeed

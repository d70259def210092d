import TransitFeed.Text.Decimal
import TransitFeed.Text.Number
import TransitFeed.Json.Basic

/-!
# Reading JSON text

A JSON text is read from the left, one value at a time, in the way configuration files
and records are decoded: the reader stops at the first fault and reports it with the
line (from 1) and the byte column (from 0) where it stood. A fault found while a
character was read is placed after it; a fault found while looking at the next
character is placed one byte further; a fault that is about a value rather than the
text itself (a wrong type, a missing field) has no place of its own and takes the place
of the reader when an enclosing value catches it.

Numbers follow the grammar of JSON. An integer is kept exact while it fits in 64 bits;
other numbers become binary64 values by scaling the first nineteen or twenty significant
digits with a power of ten, so the last bit may differ from the nearest value. A number
whose scaling overflows is out of range. Strings take the escapes of JSON, `\u` ones
paired into surrogates.

Nesting is limited to 127 levels; skipping a value has no limit.
-/

namespace TransitFeed.JsonRead

/-- A place in a text: the line from 1 and the byte column from 0. -/
structure Position where
  line : Nat
  column : Nat
  deriving DecidableEq, Repr

/-- The text still to read, the place of its first character and the nesting left. -/
structure Cursor where
  rest : List Char
  line : Nat := 1
  column : Nat := 0
  depth : Nat := 128
  deriving Inhabited

namespace Cursor

/-- The start of a text. -/
def start (s : String) : Cursor := { rest := s.toList }

/-- The place of the next character. -/
def here (c : Cursor) : Position := ⟨c.line, c.column⟩

/-- The place `n` bytes further; a character cut in the middle counts the bytes passed. -/
def afterBytes (c : Cursor) (n : Nat) : Position :=
  go c.rest c.line c.column n
where
  go : List Char → Nat → Nat → Nat → Position
    | [], l, col, _ => ⟨l, col⟩
    | ch :: rest, l, col, n =>
      if n = 0 then ⟨l, col⟩
      else if ch = '\n' then go rest (l + 1) 0 (n - 1)
      else if ch.utf8Size ≤ n then go rest l (col + ch.utf8Size) (n - ch.utf8Size)
      else ⟨l, col + n⟩

/-- The place of the end of the text. -/
def finish (c : Cursor) : Position := c.afterBytes (c.rest.length * 4)

/-- Passes one character. -/
def advance (c : Cursor) : Cursor :=
  match c.rest with
  | [] => c
  | ch :: rest =>
    if ch = '\n' then { c with rest := rest, line := c.line + 1, column := 0 }
    else { c with rest := rest, column := c.column + ch.utf8Size }

end Cursor

/-- A reading fault, with its place when it has one. -/
structure Fault where
  message : String
  position : Option Position := none
  deriving Inhabited

/-- The text of a fault: its message, then its place. -/
def Fault.text (e : Fault) : String :=
  match e.position with
  | some p => s!"{e.message} at line {p.line} column {p.column}"
  | none => e.message

/-- A reader: it moves a cursor and may stop at a fault, where the cursor stays. -/
abbrev Reader := ExceptT Fault (StateM Cursor)

/-- Runs a reader on a text. -/
def Reader.run' (r : Reader α) (s : String) : Except Fault α × Cursor :=
  (ExceptT.run r).run (Cursor.start s)

/-- The next character, not passed. -/
def peek : Reader (Option Char) := do return (← get).rest.head?

/-- Passes the next character. -/
def eat : Reader Unit := modify Cursor.advance

/-- Stops with a fault placed at the next character. -/
def failHere (message : String) : Reader α := do throw ⟨message, some (← get).here⟩

/-- Stops with a fault placed one byte after the next character's start. -/
def failAhead (message : String) : Reader α := do throw ⟨message, some ((← get).afterBytes 1)⟩

/-- Stops with a fault about a value, placed later by whoever catches it. -/
def failValue (message : String) : Reader α := throw ⟨message, none⟩

/-- Places a fault that has no place yet at the reader's place when it is caught. -/
def placed (r : Reader α) : Reader α :=
  tryCatch r fun e => do
    match e.position with
    | some _ => throw e
    | none => throw { e with position := some (← get).here }

/-- Runs a reader and keeps its outcome, so that work can follow a fault. -/
def attempt (r : Reader α) : Reader (Except Fault α) :=
  tryCatch (do return .ok (← r)) fun e => return .error e

/-- Whether a character is a blank between JSON tokens. -/
def isSpace (c : Char) : Bool := c = ' ' || c = '\n' || c = '\t' || c = '\r'

/-- Passes blanks and gives the next character. -/
def blanks : Reader (Option Char) := do
  modify fun c => go c (c.rest.length + 1)
  peek
where
  go (c : Cursor) : Nat → Cursor
    | 0 => c
    | fuel + 1 =>
      match c.rest with
      | ch :: _ => if isSpace ch then go c.advance fuel else c
      | [] => c

/-- Enters one more level of nesting. -/
def enter : Reader Unit := do
  let c ← get
  if c.depth ≤ 1 then failAhead "recursion limit exceeded"
  else set { c with depth := c.depth - 1 }

/-- Leaves a level of nesting. -/
def leave : Reader Unit := modify fun c => { c with depth := c.depth + 1 }

/-- Reads the rest of a keyword whose first letter was passed. -/
def keyword (rest : List Char) : Reader Unit := do
  match rest with
  | [] => return
  | k :: more =>
    match ← peek with
    | none => failHere "EOF while parsing a value"
    | some ch => if ch = k then do eat; keyword more else failAhead "expected ident"

/-! ## Strings -/

/-- The value of a hexadecimal digit. -/
def hexDigit? (c : Char) : Option Nat :=
  if '0' ≤ c ∧ c ≤ '9' then some (c.toNat - '0'.toNat)
  else if 'a' ≤ c ∧ c ≤ 'f' then some (c.toNat - 'a'.toNat + 10)
  else if 'A' ≤ c ∧ c ≤ 'F' then some (c.toNat - 'A'.toNat + 10)
  else none

/-- Reads the four hexadecimal digits of a `\u` escape. -/
def hexEscape : Reader Nat := do
  let c ← get
  let first := c.rest.take 4
  if (first.map Char.utf8Size).foldr (· + ·) 0 < 4 then
    throw ⟨"EOF while parsing a string", some c.finish⟩
  else
    match first.map hexDigit? with
    | [some a, some b, some d, some e] =>
      eat; eat; eat; eat
      return ((a * 16 + b) * 16 + d) * 16 + e
    | _ => throw ⟨"invalid escape", some (c.afterBytes 4)⟩

/-- Reads the part of a `\u` escape after the `u`, pairing surrogates. -/
def unicodeEscape : Reader Char := do
  let n ← hexEscape
  if 0xDC00 ≤ n ∧ n ≤ 0xDFFF then failHere "lone leading surrogate in hex escape"
  else if n < 0xD800 ∨ 0xDBFF < n then return Char.ofNat n
  else
    match ← peek with
    | none => failHere "EOF while parsing a string"
    | some '\\' => eat
    | some _ => failAhead "unexpected end of hex escape"
    match ← peek with
    | none => failHere "EOF while parsing a string"
    | some 'u' => eat
    | some _ => failAhead "unexpected end of hex escape"
    let low ← hexEscape
    if low < 0xDC00 ∨ 0xDFFF < low then failHere "lone leading surrogate in hex escape"
    else return Char.ofNat ((n - 0xD800) * 1024 + (low - 0xDC00) + 0x10000)

/-- Reads the part of an escape after the backslash. -/
def escape : Reader Char := do
  match ← peek with
  | none => failHere "EOF while parsing a string"
  | some ch =>
    match ch with
    | '"' => eat; return '"'
    | '\\' => eat; return '\\'
    | '/' => eat; return '/'
    | 'b' => eat; return Char.ofNat 8
    | 'f' => eat; return Char.ofNat 12
    | 'n' => eat; return '\n'
    | 'r' => eat; return '\r'
    | 't' => eat; return '\t'
    | 'u' => eat; unicodeEscape
    | _ => failAhead "invalid escape"

/-- Reads a string whose opening quote was passed. -/
def stringBody : Reader String := do
  go ((← get).rest.length + 1) []
where
  go : Nat → List Char → Reader String
    | 0, _ => failHere "EOF while parsing a string"
    | fuel + 1, acc => do
      match ← peek with
      | none => failHere "EOF while parsing a string"
      | some '"' => eat; return String.ofList acc.reverse
      | some '\\' => eat; let ch ← escape; go fuel (ch :: acc)
      | some ch =>
        eat
        if ch.toNat < 32 then failHere "control character (\\u0000-\\u001F) found while parsing a string"
        else go fuel (ch :: acc)

/-- Passes the part of an escape after the backslash without checking surrogates. -/
def skipEscape : Reader Unit := do
  match ← peek with
  | none => failHere "EOF while parsing a string"
  | some ch =>
    if ch = '"' ∨ ch = '\\' ∨ ch = '/' ∨ ch = 'b' ∨ ch = 'f' ∨ ch = 'n' ∨ ch = 'r' ∨ ch = 't' then eat
    else if ch = 'u' then do eat; let _ ← hexEscape
    else failAhead "invalid escape"

/-- Passes a string whose opening quote was passed. -/
def skipString : Reader Unit := do
  go ((← get).rest.length + 1)
where
  go : Nat → Reader Unit
    | 0 => failHere "EOF while parsing a string"
    | fuel + 1 => do
      match ← peek with
      | none => failHere "EOF while parsing a string"
      | some '"' => eat
      | some '\\' => eat; skipEscape; go fuel
      | some ch =>
        if ch.toNat < 32 then failHere "control character (\\u0000-\\u001F) found while parsing a string"
        else do eat; go fuel

/-! ## Numbers -/

/-- A number as read: a natural that fits in 64 bits, a negative integer that fits in 64
bits, or a binary64 value. -/
inductive Number where
  | nat (n : Nat)
  | neg (n : Int)
  | real (x : Float)
  deriving Inhabited

/-- The largest natural of 64 bits. -/
def natMax : Nat := 18446744073709551615

/-- The largest signed integer of 32 bits, the bound of exponents. -/
def expMax : Nat := 2147483647

/-- The power of ten nearest to `10 ^ k`. -/
def power (k : Nat) : Float := Decimal.nearest false 1 k

/-- Scales a significand by a power of ten: first the significand is rounded, then it is
multiplied or divided by the nearest binary64 of the power, in steps of `10 ^ 308` below
that; an overflow is a fault. -/
def scaled (positive : Bool) (significand : Nat) (exponent : Int) : Reader Float := do
  let f := Decimal.nearest false significand 0
  let f ← go f exponent (exponent.natAbs / 308 + 2)
  return if positive then f else -f
where
  go (f : Float) (e : Int) : Nat → Reader Float
    | 0 => return f
    | fuel + 1 =>
      if e.natAbs ≤ 308 then
        if 0 ≤ e then
          let g := f * power e.natAbs
          if g.isInf then failHere "number out of range" else return g
        else return f / power e.natAbs
      else if f == 0 then return f
      else if 0 ≤ e then failHere "number out of range"
      else go (f / power 308) (e + 308) fuel

/-- Whether a character is a decimal digit. -/
def isDigit (c : Option Char) : Bool :=
  match c with
  | some ch => ch.isDigit
  | none => false

/-- The value of a decimal digit. -/
def digit (c : Char) : Nat := c.toNat - '0'.toNat

/-- Passes the digits that follow. -/
def skipDigits : Reader Unit := do
  go ((← get).rest.length + 1)
where
  go : Nat → Reader Unit
    | 0 => return
    | fuel + 1 => do if isDigit (← peek) then do eat; go fuel else return

/-- Reads an exponent once the exponent was found too large: zero for a zero significand
or a negative exponent, a fault otherwise. -/
def exponentOverflow (positive zero positiveExp : Bool) : Reader Float := do
  if !zero && positiveExp then failHere "number out of range"
  else
    skipDigits
    return if positive then 0.0 else -0.0

/-- Reads an exponent part, its letter next. -/
def exponentPart (positive : Bool) (significand : Nat) (start : Int) : Reader Float := do
  eat
  let positiveExp ← do
    match ← peek with
    | some '+' => eat; pure true
    | some '-' => eat; pure false
    | _ => pure true
  match ← peek with
  | none => failHere "EOF while parsing a value"
  | some ch =>
    if !ch.isDigit then failAhead "invalid number"
    else
      eat
      match ← go (digit ch) ((← get).rest.length + 1) with
      | .inl exp =>
        let final : Int := if positiveExp then start + exp else start - exp
        let final := max (-(expMax : Int) - 1) (min expMax final)
        scaled positive significand final
      | .inr () => exponentOverflow positive (significand == 0) positiveExp
where
  go (exp : Nat) : Nat → Reader (Nat ⊕ Unit)
    | 0 => return .inl exp
    | fuel + 1 => do
      match ← peek with
      | some c =>
        if c.isDigit then
          eat
          if exp * 10 + digit c > expMax then return .inr ()
          else go (exp * 10 + digit c) fuel
        else return .inl exp
      | none => return .inl exp

/-- Reads the digits after the point, once the significand no longer fits. -/
def fractionOverflow (positive : Bool) (significand : Nat) (exponent : Int) : Reader Float := do
  skipDigits
  match ← peek with
  | some 'e' | some 'E' => exponentPart positive significand exponent
  | _ => scaled positive significand exponent

/-- Reads a fraction part, its point next. -/
def fractionPart (positive : Bool) (significand : Nat) (before : Int) : Reader Float := do
  eat
  match ← go significand 0 ((← get).rest.length + 1) with
  | .inr (sig, after) => fractionOverflow positive sig (before + after)
  | .inl (sig, after) =>
    if after = 0 then
      match ← peek with
      | some _ => failAhead "invalid number"
      | none => failAhead "EOF while parsing a value"
    else
      match ← peek with
      | some 'e' | some 'E' => exponentPart positive sig (before + after)
      | _ => scaled positive sig (before + after)
where
  go (sig : Nat) (after : Int) : Nat → Reader ((Nat × Int) ⊕ (Nat × Int))
    | 0 => return .inl (sig, after)
    | fuel + 1 => do
      match ← peek with
      | some c =>
        if c.isDigit then
          if sig * 10 + digit c > natMax then return .inr (sig, after)
          else do eat; go (sig * 10 + digit c) (after - 1) fuel
        else return .inl (sig, after)
      | none => return .inl (sig, after)

/-- Reads the digits of an integer once its significand no longer fits. -/
def longInteger (positive : Bool) (significand : Nat) : Reader Float := do
  let extra ← go 0 ((← get).rest.length + 1)
  match ← peek with
  | some '.' => fractionPart positive significand extra
  | some 'e' | some 'E' => exponentPart positive significand extra
  | _ => scaled positive significand extra
where
  go (extra : Int) : Nat → Reader Int
    | 0 => return extra
    | fuel + 1 => do if isDigit (← peek) then do eat; go (extra + 1) fuel else return extra

/-- Finishes a number after its integer digits. -/
def afterInteger (positive : Bool) (significand : Nat) : Reader Number := do
  match ← peek with
  | some '.' => return .real (← fractionPart positive significand 0)
  | some 'e' | some 'E' => return .real (← exponentPart positive significand 0)
  | _ =>
    if positive then return .nat significand
    else if significand = 0 ∨ significand > Nat.pow 2 63 then
      return .real (-(Decimal.nearest false significand 0))
    else return .neg (-(significand : Int))

/-- Reads a number without its sign. -/
def number (positive : Bool) : Reader Number := do
  match ← peek with
  | none => failHere "EOF while parsing a value"
  | some '0' =>
    eat
    if isDigit (← peek) then failAhead "invalid number" else afterInteger positive 0
  | some c =>
    if c.isDigit then
      eat
      go (digit c) ((← get).rest.length + 1)
    else failAhead "invalid number"
where
  go (sig : Nat) : Nat → Reader Number
    | 0 => afterInteger positive sig
    | fuel + 1 => do
      match ← peek with
      | some c =>
        if c.isDigit then
          if sig * 10 + digit c > natMax then return .real (← longInteger positive sig)
          else do eat; go (sig * 10 + digit c) fuel
        else afterInteger positive sig
      | none => afterInteger positive sig

/-- Passes an exponent part, its letter next. -/
def skipExponent : Reader Unit := do
  eat
  match ← peek with
  | some '+' | some '-' => eat
  | _ => pure ()
  match ← peek with
  | some c => if c.isDigit then do eat; skipDigits else failAhead "invalid number"
  | none => failHere "invalid number"

/-- Passes a number without its sign. -/
def skipNumber : Reader Unit := do
  match ← peek with
  | some '0' =>
    eat
    if isDigit (← peek) then failAhead "invalid number"
  | some c => if '1' ≤ c ∧ c ≤ '9' then do eat; skipDigits else failAhead "invalid number"
  | none => failHere "invalid number"
  match ← peek with
  | some '.' =>
    eat
    if isDigit (← peek) then skipDigits else failAhead "invalid number"
    match ← peek with
    | some 'e' | some 'E' => skipExponent
    | _ => pure ()
  | some 'e' | some 'E' => skipExponent
  | _ => pure ()

/-! ## Whole values -/

/-- How a fault names a value it did not expect. -/
def Number.describe : Number → String
  | .nat n => s!"integer `{n}`"
  | .neg n => s!"integer `{n}`"
  | .real x => s!"floating point `{Number.shortText x}`"

/-- The quoted form of a text in fault messages. -/
def quoted (s : String) : String :=
  "\"" ++ String.join (s.toList.map escapeChar) ++ "\""
where
  escapeChar (c : Char) : String :=
    match c with
    | '"' => "\\\""
    | '\\' => "\\\\"
    | '\n' => "\\n"
    | '\r' => "\\r"
    | '\t' => "\\t"
    | _ =>
      if c.toNat = 0 then "\\0"
      else if c.toNat < 32 ∨ (127 ≤ c.toNat ∧ c.toNat < 160) then
        "\\u\x7b" ++ String.ofList (Nat.toDigits 16 c.toNat) ++ "\x7d"
      else c.toString

/-- Reads the value that stands where another was expected, to name it in a fault about
its type; a value that cannot be read gives that fault instead. -/
def unexpected (expected : String) : Reader α := do
  let kind : String ← do
    match ← peek with
    | some 'n' => eat; keyword ['u', 'l', 'l']; pure "null"
    | some 't' => eat; keyword ['r', 'u', 'e']; pure "boolean `true`"
    | some 'f' => eat; keyword ['a', 'l', 's', 'e']; pure "boolean `false`"
    | some '-' => eat; pure (← number false).describe
    | some '"' => eat; pure ("string " ++ quoted (← stringBody))
    | some '[' => pure "sequence"
    | some '{' => pure "map"
    | some c => if c.isDigit then pure (← number true).describe else failAhead "expected value"
    | none => failAhead "expected value"
  failHere s!"invalid type: {kind}, expected {expected}"

/-- Reads the separator before the next item of a list: `true` when an item follows. -/
def nextItem (first : Bool) : Reader Bool := do
  match ← blanks with
  | some ']' => return false
  | some ',' =>
    if first then return true
    else
      eat
      match ← blanks with
      | some ']' => failAhead "trailing comma"
      | some _ => return true
      | none => failAhead "EOF while parsing a value"
  | some _ => if first then return true else failAhead "expected `,` or `]`"
  | none => failAhead "EOF while parsing a list"

/-- Reads the separator and the key of the next member of an object; `none` at its end. -/
def nextKey (first : Bool) : Reader (Option String) := do
  let next ← do
    match ← blanks with
    | some '}' => return none
    | some ',' =>
      if first then pure (some ',')
      else do eat; blanks
    | some c => if first then pure (some c) else failAhead "expected `,` or `\x7d`"
    | none => failAhead "EOF while parsing an object"
  match next with
  | some '"' => eat; return some (← stringBody)
  | some '}' => failAhead "trailing comma"
  | some _ => failAhead "key must be a string"
  | none => failAhead "EOF while parsing a value"

/-- Reads the colon between a key and its value. -/
def colon : Reader Unit := do
  match ← blanks with
  | some ':' => eat
  | some _ => failAhead "expected `:`"
  | none => failAhead "EOF while parsing an object"

/-- Reads the end of a list whose items were read. -/
def endList : Reader Unit := do
  match ← blanks with
  | some ']' => eat
  | some ',' =>
    eat
    match ← blanks with
    | some ']' => failAhead "trailing comma"
    | _ => failAhead "trailing characters"
  | some _ => failAhead "trailing characters"
  | none => failAhead "EOF while parsing a list"

/-- Reads the end of an object whose members were read. -/
def endObject : Reader Unit := do
  match ← blanks with
  | some '}' => eat
  | some ',' => failAhead "trailing comma"
  | some _ => failAhead "trailing characters"
  | none => failAhead "EOF while parsing an object"

/-- Reads a list or an object: enters it, reads its inside, then its end, even after a
fault inside, whose fault wins. -/
def nested (inside : Reader α) (close : Reader Unit) : Reader α := do
  enter
  eat
  let result ← attempt inside
  let closed ← attempt close
  leave
  match result, closed with
  | .ok v, .ok () => return v
  | .error e, _ => throw e
  | _, .error e => throw e

/-- The document form of a number. -/
def numberValue : Number → Json
  | .nat n => .int n
  | .neg n => .int n
  | .real x => .num x

mutual

/-- Reads any value as a document. -/
def anyValue : Nat → Reader Json
  | 0 => failHere "recursion limit exceeded"
  | fuel + 1 => do
    match ← blanks with
    | none => failAhead "EOF while parsing a value"
    | some c =>
      placed do
        match c with
        | 'n' => eat; keyword ['u', 'l', 'l']; return .null
        | 't' => eat; keyword ['r', 'u', 'e']; return .bool true
        | 'f' => eat; keyword ['a', 'l', 's', 'e']; return .bool false
        | '-' => eat; return numberValue (← number false)
        | '"' => eat; return .str (← stringBody)
        | '[' => nested (do return .arr (← anyItems fuel true)) endList
        | '{' => nested (do return .obj (← anyMembers fuel true)) endObject
        | _ => if c.isDigit then return numberValue (← number true) else failAhead "expected value"

/-- Reads the items of a list. -/
def anyItems : Nat → Bool → Reader (List Json)
  | 0, _ => failHere "recursion limit exceeded"
  | fuel + 1, first => do
    if ← nextItem first then
      let v ← anyValue fuel
      return v :: (← anyItems fuel false)
    else return []

/-- Reads the members of an object. -/
def anyMembers : Nat → Bool → Reader (List (String × Json))
  | 0, _ => failHere "recursion limit exceeded"
  | fuel + 1, first => do
    match ← nextKey first with
    | none => return []
    | some k =>
      colon
      let v ← anyValue fuel
      return (k, v) :: (← anyMembers fuel false)

end

mutual

/-- Passes any value, checking only its syntax. -/
def skipValue : Nat → Reader Unit
  | 0 => failHere "recursion limit exceeded"
  | fuel + 1 => do
    match ← blanks with
    | none => failAhead "EOF while parsing a value"
    | some c =>
      match c with
      | 'n' => eat; keyword ['u', 'l', 'l']
      | 't' => eat; keyword ['r', 'u', 'e']
      | 'f' => eat; keyword ['a', 'l', 's', 'e']
      | '-' => eat; skipNumber
      | '"' => eat; skipString
      | '[' =>
        eat
        match ← blanks with
        | some ']' => eat
        | some _ => skipItems fuel
        | none => failAhead "EOF while parsing a list"
      | '{' =>
        eat
        match ← blanks with
        | some '}' => eat
        | some _ => skipMembers fuel
        | none => failAhead "EOF while parsing an object"
      | _ => if c.isDigit then skipNumber else failAhead "expected value"

/-- Passes the items of a list from its first item to its end. -/
def skipItems : Nat → Reader Unit
  | 0 => failHere "recursion limit exceeded"
  | fuel + 1 => do
    skipValue fuel
    match ← blanks with
    | some ',' => eat; skipItems fuel
    | some ']' => eat
    | some _ => failAhead "expected `,` or `]`"
    | none => failAhead "EOF while parsing a list"

/-- Passes the members of an object from its first key to its end. -/
def skipMembers : Nat → Reader Unit
  | 0 => failHere "recursion limit exceeded"
  | fuel + 1 => do
    match ← blanks with
    | some '"' => eat; skipString
    | some _ => failAhead "key must be a string"
    | none => failAhead "EOF while parsing an object"
    match ← blanks with
    | some ':' => eat
    | some _ => failAhead "expected `:`"
    | none => failAhead "EOF while parsing an object"
    skipValue fuel
    match ← blanks with
    | some ',' => eat; skipMembers fuel
    | some '}' => eat
    | some _ => failAhead "expected `,` or `\x7d`"
    | none => failAhead "EOF while parsing an object"

end

/-- Fuel enough for any value of the rest of the text. -/
def fuel : Reader Nat := do return (← get).rest.length + 2

/-- Checks that only blanks are left after the value. -/
def finish : Reader Unit := do
  match ← blanks with
  | some _ => failAhead "trailing characters"
  | none => return

end TransitFeed.JsonRead

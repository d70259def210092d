import TransitFeed.Json.Scan
import TransitFeed.Text.Integer

/-!
# Reading typed values from JSON text

Each reader expects one kind of value and names it in its faults: `a string`,
`a boolean`, `i32`, `f64`, `a sequence`, `struct Stop`, and so on. A value of another
kind is read anyway, to be named in the fault (`invalid type: integer 5, expected a
string`); an integer of the right kind but out of range is an `invalid value`.

A record is either an object, whose members are matched to fields by name (unknown
members are skipped, a repeated field is a fault), or a list of its fields in order.
Faults about values are placed where the reader stands when the record around them
has read its end.
-/

namespace TransitFeed.JsonRead

/-- Reads a string and makes a value of it; a refusal is a fault about the value. -/
def readText (expected : String) (visit : String → Except String α) : Reader α := do
  match ← blanks with
  | none => failAhead "EOF while parsing a value"
  | some c =>
    placed do
      if c = '"' then
        eat
        let s ← stringBody
        match visit s with
        | .ok v => return v
        | .error m => failValue m
      else unexpected expected

/-- Reads a string. -/
def readString : Reader String := readText "a string" .ok

/-- Reads `true` or `false`. -/
def readBool : Reader Bool := do
  match ← blanks with
  | none => failAhead "EOF while parsing a value"
  | some c =>
    placed do
      match c with
      | 't' => eat; keyword ['r', 'u', 'e']; return true
      | 'f' => eat; keyword ['a', 'l', 's', 'e']; return false
      | _ => unexpected "a boolean"

/-- Reads a number. -/
def readNumber (expected : String) : Reader Number := do
  match ← blanks with
  | none => failAhead "EOF while parsing a value"
  | some '-' => eat; number false
  | some c => if c.isDigit then number true else unexpected expected

/-- Reads an integer of a range. -/
def readInteger (expected : String) (r : IntRange) : Reader Int :=
  placed do
    let n : Int ← do
      match ← readNumber expected with
      | .nat n => pure (n : Int)
      | .neg n => pure n
      | .real x => failValue s!"invalid type: floating point `{Number.shortText x}`, expected {expected}"
    if r.contains n then return n
    else failValue s!"invalid value: integer `{n}`, expected {expected}"

/-- Reads a binary64 value; integers are rounded to the nearest one. -/
def readReal : Reader Float :=
  placed do
    match ← readNumber "f64" with
    | .nat n => return Decimal.nearest false n 0
    | .neg n => return Decimal.nearest true n.natAbs 0
    | .real x => return x

/-- Reads `null` as nothing, and anything else with the given reader. -/
def readOptional (r : Reader α) : Reader (Option α) := do
  match ← blanks with
  | some 'n' => eat; keyword ['u', 'l', 'l']; return none
  | _ => return some (← r)

/-- Reads a list whose items the given reader reads. -/
def readList (item : Reader α) : Reader (List α) := do
  match ← blanks with
  | none => failAhead "EOF while parsing a value"
  | some c =>
    placed do
      if c = '[' then nested (do go (← fuel) true []) endList
      else unexpected "a sequence"
where
  go : Nat → Bool → List α → Reader (List α)
    | 0, _, acc => return acc.reverse
    | fuel + 1, first, acc => do
      if ← nextItem first then
        let v ← item
        go fuel false (v :: acc)
      else return acc.reverse

/-- Reads a record: an object read by `members`, or a list read by `items`. -/
def readRecord (expected : String) (members : Reader α) (items : Reader α) : Reader α := do
  match ← blanks with
  | none => failAhead "EOF while parsing a value"
  | some c =>
    placed do
      if c = '[' then nested items endList
      else if c = '{' then nested members endObject
      else unexpected expected

/-- Reads the members of a record's object: each known field at most once, with the
reader of its index; unknown members are skipped. The fields found come with their
index, in the order of the text. -/
def readMembers (names : List String) (field : Nat → Reader β) : Reader (List (Nat × β)) := do
  go (← fuel) true []
where
  go : Nat → Bool → List (Nat × β) → Reader (List (Nat × β))
    | 0, _, acc => return acc.reverse
    | fuel + 1, first, acc => do
      match ← nextKey first with
      | none => return acc.reverse
      | some k =>
        match names.idxOf? k with
        | some i =>
          if acc.any (·.1 == i) then failValue s!"duplicate field `{k}`"
          else
            colon
            let v ← field i
            go fuel false ((i, v) :: acc)
        | none =>
          colon
          skipValue (← JsonRead.fuel)
          go fuel false acc

/-- Reads the items of a record's list, one per field while items last. -/
def readItems (count : Nat) (field : Nat → Reader β) : Reader (List β) :=
  go 0 count []
where
  go (i : Nat) : Nat → List β → Reader (List β)
    | 0, acc => return acc.reverse
    | n + 1, acc => do
      if ← nextItem (i == 0) then
        let v ← field i
        go (i + 1) n (v :: acc)
      else return acc.reverse

/-- The fault of a record list with too few items. -/
def shortRecord (found : Nat) (expected : String) (count : Nat) : Reader α :=
  let plural := if count == 1 then "" else "s"
  failValue s!"invalid length {found}, expected {expected} with {count} element{plural}"

/-- Reads a whole text as one value, with nothing but blanks after it. -/
def readAll (r : Reader α) (s : String) : Except Fault α :=
  (do let v ← r; finish; return v).run' s |>.1

end TransitFeed.JsonRead

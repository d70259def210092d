import TransitFeed.Feed.Record
import TransitFeed.Feed.Error
import TransitFeed.Json.Field

/-!
# Records from JSON

A record is also written as a JSON object whose members are named like its columns, or
as a list of its cells in column order. `null` leaves an optional column empty, and an
optional column may be left out; every other column must be given. Texts stay as they
are, the empty text included. Dates are written `YYYY-MM-DD`, times `HH:MM:SS` and
colours `RRGGBB`; a time or colour that does not read is a fault about the value.
-/

namespace TransitFeed

open JsonRead

/-- Reads the value of a column, `null` being absence for an optional one. -/
def readColumn (c : Column) : Reader Cell :=
  let leaf : Reader FieldValue :=
    match c.type with
    | .text => do return .text (← readString)
    | .int32 => do return .int (← JsonRead.readInteger "i32" IntRange.i32)
    | .nat32 => do return .int (← JsonRead.readInteger "u32" IntRange.u32)
    | .int64 => do return .int (← JsonRead.readInteger "i64" IntRange.i64)
    | .real => do return .real (← readReal)
    | .flag => do return .flag (← readBool)
    | .date => do
      let d ← readText "a formatted date string" fun s =>
        match Date.read DateItem.isoBlanks s with
        | .ok d => .ok d
        | .error e => .error e.message
      return .date d
    | .time => do
      let s ← readString
      match Time.read? s with
      | some t => return .time t
      | none => failValue (FeedError.invalidTime s).message
    | .color => do
      let s ← readString
      match Color.read? s with
      | some v => return .color v
      | none => failValue (FeedError.invalidColor s).message
  if c.optional then readOptional leaf else do return some (← leaf)

/-- The cells of a record from the columns found, in column order; an optional column
not found is empty, another one is a fault. -/
def assembleCells (columns : List Column) (found : List (Nat × Cell)) : Reader (List Cell) :=
  (columns.zipIdx).mapM fun (c, i) =>
    match found.lookup i with
    | some cell => pure cell
    | none => if c.optional then pure none else failValue s!"missing field `{c.name}`"

/-- Reads a record of a kind from JSON. -/
def readRecordOf (k : Kind) : Reader Record :=
  let columns := k.columns
  let expected := s!"struct {k.recordName}"
  let column (i : Nat) : Reader Cell := readColumn ((columns[i]?).getD (Column.plain ""))
  let build (cells : List Cell) : Record := { kind := k, cells := cells }
  readRecord expected
    (do
      let found ← readMembers k.columnNames column
      return build (← assembleCells columns found))
    (do
      let cells ← JsonRead.readItems columns.length column
      if cells.length < columns.length then shortRecord cells.length expected columns.length
      else return build cells)

/-- Reads a record of a kind from its JSON text. -/
def Record.decode (k : Kind) (s : String) : Except Fault Record :=
  readAll (readRecordOf k) s

end TransitFeed

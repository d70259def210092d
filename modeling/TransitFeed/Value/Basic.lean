import TransitFeed.Calendar.Date
import TransitFeed.Value.Clock
import TransitFeed.Value.Sql
import TransitFeed.Json.Basic

/-!
# Field values

Every column of a feed holds values of one type: text, an integer of a fixed range, a
float, a 0/1 flag, a date, a time or a colour. A value has three forms, all decided
here: its feed text, its relational cell and its JSON form. Reading a feed text never
sees the empty text, which means "absent" for an optional column; only plain text
columns keep the empty text as a value, one that counts as not filled in.

A relational cell reads back directly when it already has the value's kind (an integer
for integers, flags and times, a float or an integer for floats), and through its text
otherwise; a date cell is read as `YYYY-MM-DD` first and as `YYYYMMDD` second.
-/

namespace TransitFeed

/-- The type of the values of a column. -/
inductive FieldType where
  | text
  | int32
  | int64
  | nat32
  | real
  | flag
  | date
  | time
  | color
  deriving DecidableEq, Repr, Inhabited

/-- A value of a column. -/
inductive FieldValue where
  | text (s : String)
  | int (n : Int)
  | real (x : Float)
  | flag (b : Bool)
  | date (d : Date)
  | time (t : Time)
  | color (c : Color)
  deriving Inhabited

namespace FieldType

/-- The value a column of this type holds before anything is read into it. -/
def default : FieldType → FieldValue
  | .text => .text ""
  | .int32 | .int64 | .nat32 => .int 0
  | .real => .real 0
  | .flag => .flag false
  | .date => .date ⟨0⟩
  | .time => .time ⟨0⟩
  | .color => .color ⟨0, 0, 0⟩

/-- The range of an integer type. -/
def intRange : FieldType → IntRange
  | .int32 => IntRange.i32
  | .nat32 => IntRange.u32
  | _ => IntRange.i64

/-- Reads a value from its feed text. -/
def parse (t : FieldType) (s : String) : Except String FieldValue :=
  match t with
  | .text => .ok (.text s)
  | .int32 | .int64 | .nat32 =>
    match readDecimal t.intRange s with
    | .ok n => .ok (.int n)
    | .error _ => .error s!"'{s}' is not a valid integer"
  | .real =>
    match Number.readFloat? s with
    | some x => .ok (.real x)
    | none => .error s!"'{s}' is not a valid number"
  | .flag =>
    if s == "0" then .ok (.flag false)
    else if s == "1" then .ok (.flag true)
    else .error s!"Invalid value `{s}`, expected 0 or 1"
  | .date =>
    match Date.read DateItem.compact s with
    | .ok d => .ok (.date d)
    | .error e => .error s!"'{s}' is not a valid date: {e.message}"
  | .time =>
    match Time.read? s with
    | some v => .ok (.time v)
    | none => .error s!"'{s}' is not a valid time; HH:MM:SS format is expected."
  | .color =>
    match Color.read? s with
    | some c => .ok (.color c)
    | none => .error s!"'{s}' is not a valid color; RRGGBB format is expected, without a leading `#`"

/-- Reads a value back from a relational cell. -/
def ofSql (t : FieldType) (v : SqlValue) : Except String FieldValue :=
  let viaText : Except String FieldValue :=
    match v.asText with
    | .ok s => t.parse s
    | .error e => .error e
  match t, v with
  | .int32, .integer n | .int64, .integer n | .nat32, .integer n =>
    match t.intRange.check n with
    | .ok n => .ok (.int n)
    | .error e => .error e.message
  | .real, .real x => .ok (.real x)
  | .real, .integer n => .ok (.real (Decimal.nearest (n < 0) n.natAbs 0))
  | .flag, .integer n => .ok (.flag (n != 0))
  | .time, .integer n =>
    match IntRange.u32.check n with
    | .ok n => .ok (.time ⟨n.toNat⟩)
    | .error e => .error e.message
  | .date, _ =>
    match v.asText with
    | .error e => .error e
    | .ok s =>
      match Date.read DateItem.iso s with
      | .ok d => .ok (.date d)
      | .error _ => t.parse s
  | _, _ => viaText

end FieldType

namespace FieldValue

/-- The feed text of a value. -/
def toText : FieldValue → String
  | .text s => s
  | .int n => toString n
  | .real x => Number.positional x
  | .flag b => if b then "1" else "0"
  | .date d => d.compact
  | .time t => t.text
  | .color c => c.text

/-- The relational cell of a value. -/
def toSql : FieldValue → SqlValue
  | .text s => .text s
  | .int n => .integer n
  | .real x => .real x
  | .flag b => .integer (if b then 1 else 0)
  | .date d => .text d.iso
  | .time t => .integer t.seconds
  | .color c => .text c.text

/-- The numeric view of a value, used by range and enumeration checks. -/
def number : FieldValue → Option Float
  | .int n => some (Decimal.nearest (n < 0) n.natAbs 0)
  | .real x => some x
  | .flag b => some (if b then 1 else 0)
  | .time t => some (Decimal.nearest false t.seconds 0)
  | _ => none

/-- Whether a value counts as filled in: every value but the empty text. -/
def present : FieldValue → Bool
  | .text s => !s.isEmpty
  | _ => true

/-- The JSON form of a value. -/
def toJson : FieldValue → Json
  | .text s => .str s
  | .int n => .int n
  | .real x => .num x
  | .flag b => .bool b
  | .date d => .str d.iso
  | .time t => .str t.text
  | .color c => .str c.text

/-- The text of a value, if it is a text. -/
def asString? : FieldValue → Option String
  | .text s => some s
  | _ => none

end FieldValue

/-- A column's cell in a record: `none` when the column is optional and left empty. -/
abbrev Cell := Option FieldValue

namespace Cell

/-- Reads the feed text of an optional column: the empty text is absence. -/
def parseOptional (t : FieldType) (s : String) : Except String Cell :=
  if s.isEmpty then .ok none else (t.parse s).map some

/-- Reads a column of the given optionality from its feed text. -/
def parse (t : FieldType) (optional : Bool) (s : String) : Except String Cell :=
  if optional then parseOptional t s else (t.parse s).map some

/-- Reads a column of the given optionality from a relational cell; nothing is absence. -/
def ofSql (t : FieldType) (optional : Bool) (v : SqlValue) : Except String Cell :=
  if optional && v.isNull then .ok none else (t.ofSql v).map some

/-- The feed text of a cell; absence is the empty text. -/
def toText : Cell → String
  | none => ""
  | some v => v.toText

/-- The relational form of a cell; absence is nothing. -/
def toSql : Cell → SqlValue
  | none => .null
  | some v => v.toSql

/-- The numeric view of a cell. -/
def number : Cell → Option Float
  | none => none
  | some v => v.number

/-- Whether a cell is filled in: an optional cell whenever it holds a value, even the
empty text, and a plain cell unless it holds the empty text. -/
def present (optional : Bool) : Cell → Bool
  | none => false
  | some v => optional || v.present

/-- The JSON form of a cell; absence is `null`. -/
def toJson : Cell → Json
  | none => .null
  | some v => v.toJson

end Cell

end TransitFeed

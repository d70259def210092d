import TransitFeed.Text.Utf8

/-!
# Comma separated values

The files of a feed are split into records of fields: fields are separated by commas
and records end at a line feed, a carriage return, or both. A field that starts with a
double quote runs to the next lone double quote, doubled quotes standing for one, and
may hold commas and line ends; what follows its closing quote up to the next comma joins
the field as it is. A quote inside an unquoted field is an ordinary character. Empty
lines between records are skipped, and a record missing its last line end still counts.

Each record knows the line where the reading of it started: one more than the line feeds
read before it, where the line feed of a carriage return and line feed pair is only read
with the next record. Blank lines skipped before a record do not move its line.
-/

namespace TransitFeed.Csv

/-- A record as read: its fields as bytes and the line where its reading started. -/
structure RawRecord where
  fields : List (List UInt8)
  line : Nat
  deriving Inhabited

/-- Where the reader stands. -/
inductive Mode where
  | startRecord
  | afterReturn
  | startField
  | inField
  | inQuotes
  | afterQuote
  deriving DecidableEq, Inhabited

/-- The reading state: the mode, the line count, the fields and field read so far, the
line where the current record's reading started, and the records done. -/
structure Reading where
  mode : Mode := .startRecord
  line : Nat := 1
  fields : List (List UInt8) := []
  field : List UInt8 := []
  start : Nat := 1
  done : List RawRecord := []

namespace Reading

/-- Ends the current field. -/
def endField (r : Reading) : Reading :=
  { r with fields := r.field.reverse :: r.fields, field := [] }

/-- Ends the current record; the next one starts reading at the current line. -/
def endRecord (r : Reading) : Reading :=
  let r := r.endField
  { r with done := ⟨r.fields.reverse, r.start⟩ :: r.done, fields := [], start := r.line }

/-- Adds a byte to the current field. -/
def copy (r : Reading) (b : UInt8) : Reading := { r with field := b :: r.field }

/-- The byte values of the characters that matter. -/
def comma : UInt8 := 44
/-- The double quote. -/
def quote : UInt8 := 34
/-- The line feed. -/
def feed : UInt8 := 10
/-- The carriage return. -/
def return_ : UInt8 := 13

/-- Ends a record at a line end byte. -/
def lineEnd (r : Reading) (b : UInt8) : Reading :=
  if b = feed then { (({ r with line := r.line + 1 } : Reading).endRecord) with mode := .startRecord }
  else { r.endRecord with mode := .afterReturn }

/-- Reads one byte. -/
def step (r : Reading) (b : UInt8) : Reading :=
  match r.mode with
  | .startRecord =>
    if b = feed then { r with line := r.line + 1 }
    else if b = return_ then r
    else field { r with mode := .startField }
  | .afterReturn =>
    if b = feed then { r with line := r.line + 1, mode := .startRecord }
    else
      let r : Reading := { r with mode := .startRecord }
      if b = return_ then r else field { r with mode := .startField }
  | _ => field r
where
  field (r : Reading) : Reading :=
    let isEnd := b = feed ∨ b = return_
    match r.mode with
    | .startField =>
      if b = quote then { r with mode := .inQuotes }
      else if b = comma then { r.endField with mode := .startField }
      else if isEnd then lineEnd r b
      else { r.copy b with mode := .inField }
    | .inField =>
      if b = comma then { r.endField with mode := .startField }
      else if isEnd then lineEnd r b
      else r.copy b
    | .inQuotes =>
      if b = quote then { r with mode := .afterQuote }
      else if b = feed then { r.copy b with line := r.line + 1 }
      else r.copy b
    | .afterQuote =>
      if b = quote then { r.copy b with mode := .inQuotes }
      else if b = comma then { r.endField with mode := .startField }
      else if isEnd then lineEnd r b
      else { r.copy b with mode := .inField }
    | _ => r

/-- Ends the reading at the end of the input. -/
def close (r : Reading) : List RawRecord :=
  match r.mode with
  | .startRecord | .afterReturn => r.done.reverse
  | _ => r.endRecord.done.reverse

end Reading

/-- Splits bytes into records. -/
def records (bytes : List UInt8) : List RawRecord :=
  (bytes.foldl Reading.step {}).close

/-- The records ended by a line end, leaving out a last record that only the end of the
input would end: what can be read of input whose reading failed after these bytes. -/
def endedRecords (bytes : List UInt8) : List RawRecord :=
  (bytes.foldl Reading.step {}).done.reverse

/-- ASCII blanks: space, tab, line feed, form feed and carriage return. -/
def isAsciiBlank (b : UInt8) : Bool := b = 32 || b = 9 || b = 10 || b = 12 || b = 13

/-- A field without its leading and trailing ASCII blanks. -/
def trimField (field : List UInt8) : List UInt8 :=
  ((field.dropWhile isAsciiBlank).reverse.dropWhile isAsciiBlank).reverse

end TransitFeed.Csv

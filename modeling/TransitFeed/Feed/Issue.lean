import TransitFeed.Text.Number

/-!
# Problems found in records

A problem of one record has a kind, optionally the field and the value at fault, a
sentence, and the line of the record when it is known. The kinds are ordered: row,
field, required, range, enumeration, reference, sequence, filter and warning; reports
count problems per kind in this order.

A problem is written `<kind> error`, then ` on field <f>`, ` (value '<v>')`, `: <message>`
and ` at line <n>`, each part only when it is known.
-/

namespace TransitFeed

/-- The kinds of problems, in report order. -/
inductive IssueKind where
  | row
  | field
  | required
  | range
  | enumeration
  | reference
  | sequence
  | filter
  | warning
  deriving DecidableEq, Repr, Inhabited

namespace IssueKind

/-- Every kind of problem, in report order. -/
def all : List IssueKind :=
  [.row, .field, .required, .range, .enumeration, .reference, .sequence, .filter, .warning]

/-- The word for a kind of problem. -/
def name : IssueKind → String
  | .row => "row"
  | .field => "field"
  | .required => "required"
  | .range => "range"
  | .enumeration => "enum"
  | .reference => "reference"
  | .sequence => "sequence"
  | .filter => "filter"
  | .warning => "warning"

end IssueKind

/-- A problem found in one record. -/
structure Issue where
  kind : IssueKind
  field : Option String := none
  value : Option String := none
  message : String
  line : Option Nat := none
  deriving DecidableEq, Repr, Inhabited

namespace Issue

/-- A problem of the record as a whole. -/
def row (message : String) : Issue := { kind := .row, message }

/-- A field whose value is not acceptable. -/
def invalidField (field value message : String) : Issue :=
  { kind := .field, field := some field, value := some value, message }

/-- A required field left empty. -/
def required (field : String) : Issue :=
  { kind := .required, field := some field, message := "required field is empty" }

/-- A numeric field outside its bounds. -/
def range (field value : String) (lo hi : Float) : Issue :=
  { kind := .range, field := some field, value := some value,
    message := "must be between " ++ Number.positional lo ++ " and " ++ Number.positional hi }

/-- The list of allowed codes, as written in problem messages: `[0, 1, 2]`. -/
def allowedText (allowed : List Int) : String :=
  "[" ++ ", ".intercalate (allowed.map toString) ++ "]"

/-- A coded field whose value is not one of the allowed codes. -/
def enumeration (field value : String) (allowed : List Int) : Issue :=
  { kind := .enumeration, field := some field, value := some value,
    message := "must be one of " ++ allowedText allowed }

/-- A reference to a record that was not copied. -/
def reference (field value target : String) : Issue :=
  { kind := .reference, field := some field, value := some value,
    message := "no " ++ target ++ " entity with this id was copied" }

/-- A problem of the order of the stop times of a trip. -/
def sequence (field value : Option String) (message : String) : Issue :=
  { kind := .sequence, field, value, message }

/-- A problem raised by a stage of the pipeline. -/
def filterIssue (message : String) : Issue := { kind := .filter, message }

/-- A problem of the given kind on a field, without the value. -/
def onField (kind : IssueKind) (field message : String) : Issue :=
  { kind, field := some field, message }

/-- A remark that does not stop the record from being copied. -/
def warning (field : Option String) (message : String) : Issue :=
  { kind := .warning, field, message }

/-- Sets the line of a problem that has none yet. -/
def atLine (i : Issue) (line : Option Nat) : Issue :=
  match i.line with
  | some _ => i
  | none => { i with line }

/-- The sentence that describes a problem. -/
def render (i : Issue) : String :=
  i.kind.name ++ " error" ++
    (match i.field with | some f => " on field " ++ f | none => "") ++
    (match i.value with | some v => " (value '" ++ v ++ "')" | none => "") ++
    ": " ++ i.message ++
    (match i.line with | some n => " at line " ++ toString n | none => "")

theorem atLine_line_of_some (i : Issue) (line : Option Nat) (h : i.line.isSome) :
    (i.atLine line).line = i.line := by
  unfold atLine
  split <;> simp_all

end Issue

end TransitFeed

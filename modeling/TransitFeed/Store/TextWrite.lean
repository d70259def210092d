import TransitFeed.Store.TextFeed

/-!
# Writing feeds of text files

A feed is written as one comma separated file per collection, opened when the first
record of the collection comes. Its header is the collection's columns followed by the
extra columns of that first record; later records fill those extra columns by name,
leave them empty when they lack them, and lose the extra columns the header has no
room for. Identifiers are written as they are, so each record keeps its own.

A value is quoted when it holds a comma, a double quote or a line end; inside quotes a
double quote is doubled. Every line ends with a line feed.
-/

namespace TransitFeed

/-- Whether a value must be quoted. -/
def needsQuotes (s : String) : Bool :=
  s.any fun c => c == ',' || c == '"' || c == '\n' || c == '\r'

/-- A value as written in a file. -/
def quoteValue (s : String) : String :=
  if needsQuotes s then "\"" ++ s.replace "\"" "\"\"" ++ "\"" else s

/-- A line of values, ended by a line feed. -/
def valuesLine (values : List String) : String :=
  ",".intercalate (values.map quoteValue) ++ "\n"

/-- A file being written: its extra columns and its text so far. -/
structure WrittenFile where
  extra : List String
  text : String
  deriving Inhabited

/-- A feed being written as text files, with the files in the order they were opened. -/
structure TextDirectory where
  files : List (Kind × WrittenFile) := []
  /-- Whether the directory exists even without a file in it. -/
  created : Bool := false
  deriving Inhabited

namespace TextDirectory

/-- The line of a record under a file's header. -/
def recordLine (f : WrittenFile) (r : Record) : String :=
  valuesLine (r.textRow ++ f.extra.map fun c => (r.extra.lookup c).getD "")

/-- Writes a record, opening its file on the first record of its collection. -/
def write (d : TextDirectory) (r : Record) : TextDirectory :=
  match d.files.lookup r.kind with
  | some f =>
    { d with files := d.files.map fun (k, g) =>
        if k == r.kind then (k, { g with text := g.text ++ recordLine f r }) else (k, g) }
  | none =>
    let extra := r.extra.map (·.1)
    let f : WrittenFile := { extra, text := valuesLine (r.kind.columnNames ++ extra) }
    { d with files := d.files ++ [(r.kind, { f with text := f.text ++ recordLine f r })] }

/-- The text of each file by name. -/
def texts (d : TextDirectory) : List (String × String) :=
  d.files.map fun (k, f) => (k.fileName, f.text)

/-- The directory as a destination. -/
def sink : Sink TextDirectory where
  add d r := .ok (d.write r, r.entityId)
  addAll d rs := .ok (rs.foldl write d, rs.map Record.entityId)

/-- The files written, as a feed to read. -/
def feed (d : TextDirectory) : TextFeed where
  file name := (d.texts.lookup name).map fun t => { bytes := t.toUTF8.toList }

end TextDirectory

end TransitFeed

import TransitFeed.Store.Csv
import TransitFeed.Copy.Engine
import TransitFeed.Feed.Load

/-!
# Feeds of text files

A feed of text files has one comma separated file per collection, named after it. Each
file starts with a header naming its columns; a UTF-8 byte order mark before the header
is skipped. A file with no bytes, or whose header names nothing, is empty.

Rows are read as bytes and checked as UTF-8: a row that is not is a `row` problem at its
line, reported only by the scans that ask for it, so that a file scanned several times
reports it once. Values may be cut of their ASCII blanks as they are read; every value
is cut of its blanks again when it is read into its column.

A file whose reading fails part way still gives the rows ended before the failure; the
failure then ends its stream. A failure within the first three bytes stops the file
before its header.

Before the header, the first three bytes are read ahead to look for the byte order mark.
A read may be interrupted or hand over fewer bytes than asked: the look-ahead reads again
until it has three bytes or the file ends, and puts back what it read when it is no mark.
How the reads are split is a plan of replies, one per read; once the plan is over, reads
hand over all they are asked for.
-/

namespace TransitFeed

/-- The content of a file as read: its bytes, and the fault that stopped the reading
after them, if one did. -/
structure FileContent where
  bytes : List UInt8
  fault : Option String := none
  deriving Inhabited

/-- A feed of text files. -/
structure TextFeed where
  /-- The content of a file, if the feed has it. -/
  file : String → Option FileContent
  /-- Whether values are cut of their ASCII blanks as they are read. -/
  trimFields : Bool := true

/-- The files a feed cannot do without; it also needs `calendar.txt` or
`calendar_dates.txt`. -/
def requiredFiles : List String := ["agency.txt", "stops.txt", "routes.txt", "trips.txt", "stop_times.txt"]

/-- The bytes of the byte order mark. -/
def byteOrderMark : List UInt8 := [0xEF, 0xBB, 0xBF]

/-- Bytes without the byte order mark they start with, if they do. -/
def withoutMark (bs : List UInt8) : List UInt8 :=
  if bs.take 3 == byteOrderMark then bs.drop 3 else bs

/-- How a reader answers one read: interrupted, handing over no byte, or handing over at most
`size` bytes, and at least one while bytes remain. -/
inductive ReadReply where
  | interrupted
  | upTo (size : Nat)
  deriving Repr, DecidableEq

/-- What one read gives: nothing when interrupted, the bytes handed over (none at the end of
the file), or the fault met after the last byte. -/
inductive ReadResult where
  | interrupted
  | bytes (bs : List UInt8)
  | failed (fault : String)

namespace FileContent

/-- One read into a buffer of `room` bytes, answered as the reply says, with the content left. -/
def read (c : FileContent) (room : Nat) : ReadReply → ReadResult × FileContent
  | .interrupted => (.interrupted, c)
  | .upTo size =>
    match c.bytes, c.fault with
    | [], some f => (.failed f, c)
    | [], none => (.bytes [], c)
    | b :: bs, _ =>
      let n := Nat.max 1 (Nat.min size room)
      (.bytes ((b :: bs).take n), { c with bytes := (b :: bs).drop n })

/-- A read gives back no byte only when interrupted, and then leaves the content alone. -/
theorem read_interrupted {c c' : FileContent} {room : Nat} {r : ReadReply}
    (h : c.read room r = (.interrupted, c')) : r = .interrupted ∧ c' = c := by
  obtain ⟨bytes, fault⟩ := c
  cases r with
  | interrupted => exact ⟨rfl, (Prod.mk.inj h).2.symm⟩
  | upTo size => cases bytes <;> cases fault <;> simp [read] at h

/-- The bytes a read hands over are taken from the front of the content, no more than the
room; none only at the end of a file without fault. -/
theorem read_bytes {c c' : FileContent} {room : Nat} {r : ReadReply} {bs : List UInt8}
    (h : c.read room r = (.bytes bs, c')) :
    c.bytes = bs ++ c'.bytes ∧ c'.fault = c.fault ∧ (0 < room → bs.length ≤ room) ∧
      (bs = [] → c.bytes = [] ∧ c.fault = none) := by
  obtain ⟨bytes, fault⟩ := c
  cases r with
  | interrupted => cases h
  | upTo size =>
    cases bytes with
    | nil =>
      cases fault with
      | some f => simp [read] at h
      | none =>
        simp only [read, Prod.mk.injEq, ReadResult.bytes.injEq] at h
        obtain ⟨rfl, rfl⟩ := h
        simp
    | cons b rest =>
      simp only [read, Prod.mk.injEq, ReadResult.bytes.injEq] at h
      obtain ⟨rfl, rfl⟩ := h
      -- a read hands over at least one byte and at most the room
      have hn : Nat.max 1 (Nat.min size room) = max 1 (min size room) := rfl
      refine ⟨(List.take_append_drop _ _).symm, rfl, fun hroom => ?_, fun hnil => ?_⟩
      · simp only [List.length_take]
        omega
      · simp only [List.take_eq_nil_iff, reduceCtorEq, or_false] at hnil
        omega

/-- A read fails only at the end of a file with a fault, and fails with that fault. -/
theorem read_failed {c c' : FileContent} {room : Nat} {r : ReadReply} {f : String}
    (h : c.read room r = (.failed f, c')) : c.bytes = [] ∧ c.fault = some f := by
  obtain ⟨bytes, fault⟩ := c
  cases r with
  | interrupted => cases h
  | upTo size =>
    cases bytes with
    | nil =>
      cases fault with
      | some g =>
        simp only [read, Prod.mk.injEq, ReadResult.failed.injEq] at h
        simp [h.1]
      | none => simp [read] at h
    | cons b rest => simp [read] at h

-- `hread` is used by the termination proof only
set_option linter.unusedVariables false in
/-- Reads the first three bytes of a file ahead, retrying an interrupted read, until three are
read or the file ends: the bytes read, after `got`, with the content left, or the fault of a
read. Each read takes the next reply of the plan. -/
def lookAhead (c : FileContent) (got : List UInt8) (plan : List ReadReply) :
    Except String (List UInt8 × FileContent) :=
  match hread : c.read (3 - got.length) (plan.headD (.upTo 3)) with
  | (.interrupted, c') => lookAhead c' got plan.tail
  | (.failed f, _) => .error f
  | (.bytes [], c') => .ok (got, c')
  | (.bytes (b :: bs), c') =>
    if got.length + (b :: bs).length < 3 then lookAhead c' (got ++ b :: bs) plan.tail
    else .ok (got ++ b :: bs, c')
termination_by plan.length + c.bytes.length
decreasing_by
  · -- an interrupted read takes a reply of the plan, and no byte
    obtain ⟨hr, rfl⟩ := read_interrupted hread
    cases plan with
    | nil => cases hr
    | cons r rest => simp
  · -- a read that hands over bytes takes them from the content
    have hc := (read_bytes hread).1
    have hlen : c.bytes.length = bs.length + 1 + c'.bytes.length := by
      rw [hc]
      simp only [List.length_append, List.length_cons]
    have htail : plan.tail.length ≤ plan.length := by simp
    omega

/-- The stream handed to the csv reader: the bytes read ahead, put back unless they are the
byte order mark, then the rest of the file; `none` when the file has no byte. -/
def csvStream (c : FileContent) (plan : List ReadReply) : Except String (Option FileContent) :=
  match lookAhead c [] plan with
  | .error f => .error f
  | .ok (got, rest) =>
    if got.isEmpty then .ok none
    else .ok (some { rest with bytes := (if got == byteOrderMark then [] else got) ++ rest.bytes })

end FileContent

/-- The sentence of a field that is not UTF-8. -/
def utf8Fault (field validUpTo : Nat) : String :=
  s!"invalid utf-8: invalid UTF-8 in field {field} near byte index {validUpTo}"

/-- Decodes the fields of a record: the texts, or the first field that is not UTF-8
with the length of its valid start. -/
def decodeFields (fields : List (List UInt8)) : Except (Nat × Nat) (List String) :=
  go fields 0 []
where
  go : List (List UInt8) → Nat → List String → Except (Nat × Nat) (List String)
    | [], _, acc => .ok acc.reverse
    | f :: rest, i, acc =>
      match Utf8.decode f with
      | .ok s => go rest (i + 1) (s :: acc)
      | .error v => .error (i, v)

/-- A table opened for reading: its column map, its rows after the header, and the fault
that ends its reading, if any. -/
structure OpenTable where
  columns : ColumnMap
  rows : List Csv.RawRecord
  fault : Option FeedError

/-- Opens the file of a kind, its first reads answered as the plan says: skips a byte order
mark, reads the header and matches it against the kind's columns. -/
def openTable (k : Kind) (c : FileContent) (plan : List ReadReply := []) : Except FeedError OpenTable := do
  let file := k.fileName
  let stream ← match c.csvStream plan with
    | .error f => throw (.namedFileIo file f)
    | .ok none => throw (.emptyFile file)
    | .ok (some stream) => pure stream
  let records := if stream.fault.isSome then Csv.endedRecords stream.bytes else Csv.records stream.bytes
  let fault := stream.fault.map fun m => FeedError.csv file (m ++ ": " ++ m)
  let (header, rows) ← match records with
    | h :: rows => pure (h.fields, rows)
    | [] => match fault with
      | some e => throw e
      | none => pure ([], [])
  let names ← match decodeFields header with
    | .ok names => pure names
    | .error (i, v) =>
      let cause := utf8Fault i v
      throw (.csv file s!"CSV parse error: record 0 (line 1, field: {i}, byte: 0): {cause}: {cause}")
  let names := names.map trimBlanks
  if names.all String.isEmpty then throw (.emptyFile file)
  let columns ← ColumnMap.build k file names
  return { columns, rows, fault }

/-- The value of a named column in a row, cut of its blanks; empty when there is none. -/
def rowValue (m : ColumnMap) (values : List String) (name : String) : String :=
  match m.headers.idxOf? name with
  | some i => trimBlanks (values.getD i "")
  | none => ""

/-- The items of a table's rows: the rows kept, read as records, and, when asked, the
rows that are not UTF-8 as problems. -/
def tableItems (t : OpenTable) (trim unreadable : Bool) (keep : List String → Bool) :
    List (Except Issue Record) :=
  t.rows.filterMap fun r =>
    let fields := if trim then r.fields.map Csv.trimField else r.fields
    match decodeFields fields with
    | .error (i, v) =>
      if unreadable then some (.error ((Issue.row ("invalid UTF-8: " ++ utf8Fault i v)).atLine (some r.line)))
      else none
    | .ok values =>
      if keep values then some (.ok (Record.load t.columns values (some r.line))) else none

namespace TextFeed

/-- The stream of a kind's file, keeping the rows the test accepts. -/
def stream (feed : TextFeed) (k : Kind) (unreadable : Bool)
    (keep : ColumnMap → List String → Bool) : Option Stream :=
  (feed.file k.fileName).map fun c =>
    match openTable k c with
    | .error e => { items := [], failure := some e }
    | .ok t => { items := tableItems t feed.trimFields unreadable (keep t.columns), failure := t.fault }

/-- The feed as a source. Stop times are scanned once for the rows of the given trips and
once for the others; rows that are not UTF-8 are reported by the second scan. -/
def source (feed : TextFeed) : Source where
  read k := .ok (feed.stream k true fun _ _ => true)
  stopTimesOf trips := .ok (feed.stream .stopTime false fun m vs => trips.contains (rowValue m vs "trip_id"))
  stopTimesNotOf trips :=
    .ok (feed.stream .stopTime true fun m vs => !trips.contains (rowValue m vs "trip_id"))

/-- The problems of the feed's shape: missing files, then files whose header cannot be
read or matched, in collection order. -/
def problems (feed : TextFeed) : List FeedError :=
  let missing := (requiredFiles.filter fun f => (feed.file f).isNone).map FeedError.missingFile
  let calendar :=
    if (feed.file "calendar.txt").isNone && (feed.file "calendar_dates.txt").isNone then
      [FeedError.missingFile "calendar.txt"]
    else []
  let headers := Kind.all.filterMap fun k =>
    match feed.file k.fileName with
    | none => none
    | some c =>
      match openTable k c with
      | .error e => some e
      | .ok _ => none
  missing ++ calendar ++ headers

end TextFeed

end TransitFeed

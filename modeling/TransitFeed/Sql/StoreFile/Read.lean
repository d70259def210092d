import TransitFeed.Sql.StoreFile
import TransitFeed.Sql.Execute

/-!
# Reading store files

A store file of any page size is read back into tables. The file header gives the page
size (two bytes at 16, where 1 stands for 65536) and the bytes reserved at the end of every
page (at 20). A table's b-tree is walked from its root: an interior page (kind 5) holds
cells of a child page and a key, and names its right-most child in its header; a leaf
(kind 13) holds cells of a payload size, a row id and the payload.

A payload larger than a page can keep spills into a chain of overflow pages, each starting
with the number of the next. The part kept in the cell is the whole payload when it fits
the page's maximum, else the minimum plus the rest of the payload modulo the room of an
overflow page, when that fits the maximum, else the minimum.

The schema table on page 1 names every table with its statement; that statement, read as
SQL, gives the table's columns. The column that holds the row id reads as the row id, a
row with fewer values than columns has nothing in the rest, and an integer in a column of
float affinity, which the file keeps as an integer when it has no fraction, reads as a
float. The table of row id counts gives each counting table its count; indexes are not
read.
-/

namespace TransitFeed.Sql

/-- A store file opened for reading: its bytes, its page size, and the bytes of each page
that hold b-tree content. -/
structure FileView where
  bytes : ByteArray
  pageSize : Nat
  usable : Nat

namespace FileView

/-- The byte at a place of the file. -/
def byte (v : FileView) (i : Nat) : Nat := (v.bytes.data.getD i 0).toNat

/-- The big-endian two-byte number at a place. -/
def word (v : FileView) (i : Nat) : Nat := v.byte i * 256 + v.byte (i + 1)

/-- The big-endian four-byte number at a place. -/
def quad (v : FileView) (i : Nat) : Nat := v.word i * 65536 + v.word (i + 2)

/-- Where a page starts in the file. -/
def pageStart (v : FileView) (n : Nat) : Nat := (n - 1) * v.pageSize

/-- Where a page's b-tree header starts: after the file header on page 1. -/
def headerAt (v : FileView) (n : Nat) : Nat := v.pageStart n + if n = 1 then 100 else 0

/-- The number of pages of the file. -/
def pageCount (v : FileView) : Nat := v.bytes.size / v.pageSize

/-- The part of a payload of a size that a table leaf cell keeps in its page. -/
def localSize (v : FileView) (size : Nat) : Nat :=
  let maxLocal := v.usable - 35
  let minLocal := (v.usable - 12) * 32 / 255 - 23
  if size ≤ maxLocal then size
  else
    let k := minLocal + (size - minLocal) % (v.usable - 4)
    if k ≤ maxLocal then k else minLocal

/-- The bytes of `remaining` payload bytes spilt into the overflow chain from a page. -/
def overflow (v : FileView) (page remaining : Nat) : Nat → List UInt8
  | 0 => []
  | fuel + 1 =>
    if page = 0 ∨ remaining = 0 then []
    else
      let start := v.pageStart page
      let take := min remaining (v.usable - 4)
      (v.bytes.extract (start + 4) (start + 4 + take)).toList ++
        v.overflow (v.quad start) (remaining - take) fuel

/-- The payload of a size that starts at a place of a table leaf cell. -/
def payload (v : FileView) (at_ size : Nat) : List UInt8 :=
  let kept := v.localSize size
  let first := (v.bytes.extract at_ (at_ + kept)).toList
  if kept ≥ size then first else first ++ v.overflow (v.quad (at_ + kept)) (size - kept) v.pageCount

/-- A row id as written: a 64-bit two's complement number. -/
def signed (n : Nat) : Int := if n ≥ Nat.pow 2 63 then (n : Int) - Int.pow 2 64 else n

/-- The rows of the table b-tree under a page, with their payloads, in key order. -/
def tableRows (v : FileView) (root : Nat) : Nat → List (Int × List UInt8)
  | 0 => []
  | fuel + 1 =>
    if root = 0 ∨ root > v.pageCount then []
    else
      let start := v.pageStart root
      let h := v.headerAt root
      let kind := v.byte h
      let n := v.word (h + 3)
      if kind = PageKind.tableLeaf.code then
        (List.range n).map fun i =>
          let at_ := start + v.word (h + 8 + 2 * i)
          let (size, p) := Record.readVarint v.bytes at_
          let (rowid, p) := Record.readVarint v.bytes p
          (signed rowid, v.payload p size)
      else if kind = 5 then
        let children := (List.range n).map (fun i => v.quad (start + v.word (h + 12 + 2 * i))) ++
          [v.quad (h + 8)]
        children.flatMap fun c => v.tableRows c fuel
      else []

/-- The values of a payload. -/
def values (payload : List UInt8) : List SqlValue := Record.decode (ByteArray.mk payload.toArray) 0

end FileView

/-- The first bytes of a store file, which name its format. -/
def storeSignature : List UInt8 := StoreFile.magic

/-- The view of a file's bytes, if they are those of a store file. -/
def FileView.open? (bytes : ByteArray) : Option FileView :=
  if (bytes.extract 0 16).toList != storeSignature || bytes.size < 100 then none
  else
    let raw := (bytes.data.getD 16 0).toNat * 256 + (bytes.data.getD 17 0).toNat
    let pageSize := if raw = 1 then 65536 else raw
    let reserved := (bytes.data.getD 20 0).toNat
    if pageSize < 512 ∨ reserved + 480 > pageSize then none
    else some { bytes, pageSize, usable := pageSize - reserved }

/-- The table a schema row describes, with the rows of its b-tree. -/
def FileView.table? (v : FileView) (row : List SqlValue) : Option Table :=
  match row with
  | [.text "table", .text name, _, .integer root, .text sql] =>
    if name == StoreFile.sequenceTable then none
    else
      match parse sql with
      | .ok [.createTable t _] =>
        let width := t.columns.length
        let rows := (v.tableRows root.toNat (v.pageCount + 1)).map fun (rowid, payload) =>
          let vs := FileView.values payload
          let vs := vs.take width ++ List.replicate (width - vs.length) .null
          let vs := (t.columns.zip vs).map fun (c, x) =>
            match c.affinity, x with
            | .real, .integer n => .real (Int.toFloatNearest n)
            | _, x => x
          (rowid, match t.idColumn with
            | some i => vs.set i (.integer rowid)
            | none => vs)
        some { t with rows }
      | _ => none
  | _ => none

/-- Reads the tables of a store file. Empty bytes are an empty store; bytes of another
format are refused. -/
def Database.ofFile (bytes : ByteArray) : Except String Database :=
  if bytes.size = 0 then .ok {}
  else
    match FileView.open? bytes with
    | none => .error "file is not a database"
    | some v =>
      let schema := (v.tableRows 1 (v.pageCount + 1)).map fun (_, p) => FileView.values p
      let tables := schema.filterMap v.table?
      let counts : List (String × Int) :=
        match schema.find? fun row => row.take 2 matches [.text "table", .text "sqlite_sequence"] with
        | some [_, _, _, .integer root, _] =>
          (v.tableRows root.toNat (v.pageCount + 1)).filterMap fun (_, p) =>
            match FileView.values p with
            | [.text name, .integer seq] => some (name, seq)
            | _ => none
        | _ => []
      .ok { tables := tables.map fun t =>
              match counts.lookup t.name with
              | some seq => { t with sequence := seq }
              | none => t }

end TransitFeed.Sql

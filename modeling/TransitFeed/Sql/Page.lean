import TransitFeed.Sql.Record

/-!
# Pages of a store file

A store file is a run of pages of 4096 bytes. A leaf page of a b-tree starts with an
eight-byte header (after the 100-byte file header on the first page): its kind, the place
of its first free block, its number of cells, the start of its cell content area and its
number of fragment bytes. An array of two-byte cell places follows the header, in key
order, and the cells themselves are packed from the end of the page towards it.

Room freed by a cell joins a chain of free blocks kept in place order, each block starting
with the place of the next and its own size; a freed cell next to the content area widens
the area instead, and blocks less than four bytes apart merge, the bytes between them
ceasing to count as fragments. Room for a new cell comes from the first free block large
enough, taken from the block's end; a block left with less than four bytes is taken whole,
its spare bytes counting as fragments. When no block fits and the gap between the cell
array and the content area is too small, the cells are packed again first. The bytes of a
freed cell stay in the page where nothing overwrites them, as they do in the file.

A table leaf's cells hold a payload size, a row id and a record; an index leaf's cells a
payload size and a record whose last value is the row id. A cell replaced by one of the
same size is overwritten in place; otherwise the old cell is dropped and the new one put
at its place in the cell array. Cells are always kept whole in their page: a page that
would need more room, or a record too large for one page, is refused.
-/

namespace TransitFeed.Sql

/-- The size of the pages of the store files written here. -/
def pageSize : Nat := 4096

/-- The kinds of pages written here: leaves of a table b-tree and of an index b-tree. -/
inductive PageKind where
  | tableLeaf
  | indexLeaf
  deriving DecidableEq, Inhabited

/-- The byte that marks a kind of page. -/
def PageKind.code : PageKind → Nat
  | .tableLeaf => 13
  | .indexLeaf => 10

/-- A b-tree page: its bytes and the place where its own header starts. -/
structure Page where
  bytes : ByteArray
  header : Nat
  deriving Inhabited

namespace Page

/-- The byte at a place, as a number. -/
def byte (p : Page) (i : Nat) : Nat := (p.bytes.data.getD i 0).toNat

/-- The big-endian two-byte number at a place. -/
def word (p : Page) (i : Nat) : Nat := p.byte i * 256 + p.byte (i + 1)

/-- Sets the byte at a place. -/
def setByte (p : Page) (i v : Nat) : Page := { p with bytes := p.bytes.set! i (UInt8.ofNat v) }

/-- Sets the big-endian two-byte number at a place. -/
def setWord (p : Page) (i v : Nat) : Page := (p.setByte i (v / 256 % 256)).setByte (i + 1) (v % 256)

/-- Writes bytes from a place on. -/
def write (p : Page) (i : Nat) (bs : List UInt8) : Page :=
  { p with bytes := (ByteArray.mk bs.toArray).copySlice 0 p.bytes i bs.length }

/-- Copies `len` bytes from one place to another, as if through a buffer. -/
def move (p : Page) (dst src len : Nat) : Page :=
  { p with bytes := p.bytes.copySlice src p.bytes dst len }

/-- An empty page of a kind, over the given bytes. -/
def empty (bytes : ByteArray) (header : Nat) (kind : PageKind) : Page :=
  let p : Page := { bytes, header }
  let p := (p.setByte header kind.code).write (header + 1) [0, 0, 0, 0]
  (p.setByte (header + 7) 0).setWord (header + 5) pageSize

/-- Whether the page is a table leaf. -/
def isTable (p : Page) : Bool := p.byte p.header = PageKind.tableLeaf.code

/-- The place of the first free block, zero when there is none. -/
def firstFree (p : Page) : Nat := p.word (p.header + 1)

/-- The number of cells. -/
def cellCount (p : Page) : Nat := p.word (p.header + 3)

/-- The start of the cell content area. -/
def contentStart (p : Page) : Nat :=
  let v := p.word (p.header + 5)
  if v = 0 then 65536 else v

/-- The number of fragment bytes. -/
def fragments (p : Page) : Nat := p.byte (p.header + 7)

/-- The place of the cell array. -/
def pointers (p : Page) : Nat := p.header + 8

/-- The end of the cell array. -/
def pointerEnd (p : Page) : Nat := p.pointers + 2 * p.cellCount

/-- The place of the `i`-th cell. -/
def cellAt (p : Page) (i : Nat) : Nat := p.word (p.pointers + 2 * i)

/-- The size of the cell at a place. -/
def cellSize (p : Page) (at_ : Nat) : Nat :=
  let (payload, next) := Record.readVarint p.bytes at_
  let next := if p.isTable then (Record.readVarint p.bytes next).2 else next
  next - at_ + payload

/-- The free blocks, each with its size, in chain order. -/
def freeBlocks (p : Page) : List (Nat × Nat) :=
  go p.firstFree [] (pageSize / 4)
where
  go (at_ : Nat) (acc : List (Nat × Nat)) : Nat → List (Nat × Nat)
    | 0 => acc.reverse
    | fuel + 1 => if at_ = 0 then acc.reverse else go (p.word at_) ((at_, p.word (at_ + 2)) :: acc) fuel

/-- The bytes a new cell and its place in the cell array may use: the gap, the free blocks
and the fragments. -/
def freeBytes (p : Page) : Nat :=
  p.fragments + p.contentStart + ((p.freeBlocks.map (·.2)).foldr (· + ·) 0) - p.pointerEnd

/-- Takes `n` bytes from the first free block that holds them: from its end when at least
four bytes stay, else the whole block, its spare bytes becoming fragments. -/
def takeFromFree (p : Page) (n : Nat) : Option (Page × Nat) :=
  go (p.header + 1) p.firstFree (pageSize / 4)
where
  go (link at_ : Nat) : Nat → Option (Page × Nat)
    | 0 => none
    | fuel + 1 =>
      if at_ = 0 ∨ at_ + n > pageSize then none
      else
        let size := p.word (at_ + 2)
        if n ≤ size then
          let spare := size - n
          if spare < 4 then
            if p.fragments > 57 then none
            else some ((p.setWord link (p.word at_)).setByte (p.header + 7) (p.fragments + spare), at_)
          else some (p.setWord (at_ + 2) spare, at_ + spare)
        else
          let next := p.word at_
          if next ≤ at_ then none else go at_ next fuel

/-- Ends a packing: the content area starts at `brk`, no free block is left and the gap is
zeroed. -/
def packed (p : Page) (brk : Nat) : Page :=
  let p := ((p.setWord (p.header + 5) brk).setByte (p.header + 1) 0).setByte (p.header + 2) 0
  p.write p.pointerEnd (List.replicate (brk - p.pointerEnd) 0)

/-- Packs the cells against the end of the page. With at most two free blocks, the last of
them ending the chain, and at most `maxFragments` fragment bytes, the runs of cells between
the blocks are moved up and the fragments stay; otherwise every cell is copied anew in cell
order from the end of the page, and the fragments go. -/
def defragment (p : Page) (maxFragments : Nat) : Page :=
  let first := p.firstFree
  let second := if first = 0 then 0 else p.word first
  if p.fragments ≤ maxFragments ∧ first ≠ 0 ∧ (second = 0 ∨ p.word second = 0) then
    let top := p.contentStart
    let size1 := p.word (first + 2)
    let (p, size, size2) :=
      if second ≠ 0 then
        let size2 := p.word (second + 2)
        (p.move (first + size1 + size2) (first + size1) (second - (first + size1)), size1 + size2, size2)
      else (p, size1, 0)
    let brk := top + size
    let p := p.move brk top (first - top)
    let p := (List.range p.cellCount).foldl (fun p i =>
      let a := p.pointers + 2 * i
      let pc := p.word a
      if pc < first then p.setWord a (pc + size)
      else if pc < second then p.setWord a (pc + size2)
      else p) p
    p.packed brk
  else
    let source := p
    let (p, brk) := (List.range p.cellCount).foldl (fun (q, brk) i =>
      let a := q.pointers + 2 * i
      let pc := q.word a
      let size := source.cellSize pc
      let brk := brk - size
      ((q.setWord a brk).write brk (source.bytes.extract pc (pc + size)).toList, brk)) (p, pageSize)
    (p.setByte (p.header + 7) 0).packed brk

/-- Finds room for `n` bytes of a new cell: in a free block, else below the content area,
packing the cells first when the gap is too small. -/
def allocate (p : Page) (n : Nat) : Page × Nat :=
  let slot := if p.firstFree ≠ 0 ∧ p.pointerEnd + 2 ≤ p.contentStart then p.takeFromFree n else none
  match slot with
  | some r => r
  | none =>
    let p := if p.pointerEnd + 2 + n > p.contentStart then p.defragment (min 4 (p.freeBytes - (2 + n)))
      else p
    let top := p.contentStart - n
    (p.setWord (p.header + 5) top, top)

/-- The place of the pointer to the first free block at or after a place, and that block. -/
def linkBefore (p : Page) (start : Nat) : Nat × Nat :=
  go (p.header + 1) (pageSize / 4)
where
  go (link : Nat) : Nat → Nat × Nat
    | 0 => (link, p.word link)
    | fuel + 1 =>
      let next := p.word link
      if next < start ∧ next ≠ 0 then go next fuel else (link, next)

/-- Frees `size` bytes at `start`, merging them with free blocks less than four bytes away
and with the content area when they border it. -/
def release (p : Page) (start size : Nat) : Page :=
  let hdr := p.header
  let (p, link, start, stop, next) :=
    if p.firstFree = 0 then (p, hdr + 1, start, start + size, 0)
    else
      let (link, next) := p.linkBefore start
      let stop := start + size
      let (merged, stop, next) :=
        if next ≠ 0 ∧ stop + 3 ≥ next then (next - stop, next + p.word (next + 2), p.word next)
        else (0, stop, next)
      let linkEnd := link + p.word (link + 2)
      let (merged, start) :=
        if link > hdr + 1 ∧ linkEnd + 3 ≥ start then (merged + (start - linkEnd), link)
        else (merged, start)
      (p.setByte (hdr + 7) (p.fragments - merged), link, start, stop, next)
  if start ≤ p.word (hdr + 5) then (p.setWord (hdr + 1) next).setWord (hdr + 5) stop
  else ((p.setWord link start).setWord start next).setWord (start + 2) (stop - start)

/-- Removes the `i`-th cell: its bytes are freed and the later places move down. -/
def dropCell (p : Page) (i : Nat) : Page :=
  let a := p.pointers + 2 * i
  let pc := p.word a
  let p := p.release pc (p.cellSize pc)
  let n := p.cellCount - 1
  if n = 0 then
    ((p.write (p.header + 1) [0, 0, 0, 0]).setByte (p.header + 7) 0).setWord (p.header + 5) pageSize
  else (p.move a (a + 2) (2 * (n - i))).setWord (p.header + 3) n

/-- Puts a cell at the `i`-th place of the cell array, if the page has room for it. -/
def insertCell (p : Page) (i : Nat) (cell : List UInt8) : Option Page :=
  if cell.length + 2 > p.freeBytes then none
  else
    let (p, at_) := p.allocate cell.length
    let p := p.write at_ cell
    let a := p.pointers + 2 * i
    let p := (p.move (a + 2) a (2 * (p.cellCount - i))).setWord a at_
    some (p.setWord (p.header + 3) (p.cellCount + 1))

/-- The row ids of a table leaf's cells, in cell order. -/
def rowids (p : Page) : List Nat :=
  (List.range p.cellCount).map fun i => (Record.readVarint p.bytes (Record.readVarint p.bytes (p.cellAt i)).2).1

/-- Writes the record of a row id into a table leaf: over the old cell of that row id when
the new cell has its size, else in place of it, else at its place in row id order. -/
def putRow (p : Page) (rowid : Nat) (record : List UInt8) : Option Page :=
  let cell := Record.varint record.length ++ Record.varint rowid ++ record
  let ids := p.rowids
  match ids.idxOf? rowid with
  | some i =>
    let at_ := p.cellAt i
    if p.cellSize at_ = cell.length then some (p.write at_ cell)
    else (p.dropCell i).insertCell i cell
  | none => p.insertCell (ids.countP (· < rowid)) cell

/-- The keys of an index leaf's cells, in cell order. -/
def keys (p : Page) : List (List SqlValue) :=
  (List.range p.cellCount).map fun i => Record.decode p.bytes (Record.readVarint p.bytes (p.cellAt i)).2

/-- Compares two keys value by value, a shorter key first when one starts the other. -/
def compareKeys : List SqlValue → List SqlValue → Ordering
  | [], [] => .eq
  | [], _ :: _ => .lt
  | _ :: _, [] => .gt
  | a :: as, b :: bs =>
    match compareValues a b with
    | .eq => compareKeys as bs
    | o => o

/-- Adds a key to an index leaf, after the keys below it. -/
def putKey (p : Page) (key : List SqlValue) : Option Page :=
  let record := Record.encode key
  let at_ := p.keys.countP fun k => compareKeys k key == .lt
  p.insertCell at_ (Record.varint record.length ++ record)

end Page

end TransitFeed.Sql

import TransitFeed.Sql.Convert

/-!
# Records of a store file

A store file keeps each row as a record: a header that gives the storage class and size of
every value, then the values' bytes. Sizes and integers in headers and cells are written
as variable-length integers: seven bits a byte, most significant first, every byte but the
last with its high bit set, and a ninth byte, if reached, holding eight bits.

A value's type code says what it is: 0 nothing, 1 to 6 a big-endian two's complement
integer of 1, 2, 3, 4, 6 or 8 bytes, 7 a big-endian binary64 float, 8 and 9 the integers
0 and 1 with no bytes, an even code from 12 a blob of `(code - 12) / 2` bytes and an odd
code from 13 a text of `(code - 13) / 2` bytes. An integer takes the fewest bytes that
hold it; a float that is not a number is kept as nothing.

`decode` reads back what `encode` writes, which index pages need to find the place of a
new key among the keys they hold.
-/

namespace TransitFeed.Sql.Record

/-- The seven-bit groups of a number below `2 ^ 56`, most significant first. -/
def groups (n : Nat) : List Nat :=
  go n [] 9
where
  go (n : Nat) (acc : List Nat) : Nat → List Nat
    | 0 => acc
    | fuel + 1 => if n < 128 then n :: acc else go (n / 128) (n % 128 :: acc) fuel

/-- The variable-length form of a number below `2 ^ 64`. -/
def varint (n : Nat) : List UInt8 :=
  if n < Nat.pow 2 56 then
    let gs := groups n
    (gs.dropLast.map fun g => UInt8.ofNat (g + 128)) ++ [UInt8.ofNat gs.getLast!]
  else
    ((List.range 8).reverse.map fun i => UInt8.ofNat (n / 256 / Nat.pow 128 i % 128 + 128)) ++
      [UInt8.ofNat (n % 256)]

/-- Reads a variable-length number at a place: its value and the place after it. -/
def readVarint (bytes : ByteArray) (at_ : Nat) : Nat × Nat :=
  go at_ 0 0
where
  go (i : Nat) (acc : Nat) : Nat → Nat × Nat
    | 8 => (acc * 256 + (bytes.data.getD i 0).toNat, i + 1)
    | k =>
      if h : k ≥ 9 then (acc, i)
      else
        let b := (bytes.data.getD i 0).toNat
        if b < 128 then (acc * 128 + b, i + 1) else go (i + 1) (acc * 128 + (b - 128)) (k + 1)
  termination_by k => 9 - k

/-- The `width` big-endian bytes of a number, modulo `256 ^ width`. -/
def bigEndian (width : Nat) (n : Nat) : List UInt8 :=
  (List.range width).reverse.map fun i => UInt8.ofNat (n / Nat.pow 256 i % 256)

/-- The type code and the bytes of an integer. -/
def integerParts (n : Int) : Nat × List UInt8 :=
  if n = 0 then (8, [])
  else if n = 1 then (9, [])
  else
    let size : Int := if n < 0 then -n - 1 else n
    let (code, width) :=
      if size < 128 then (1, 1)
      else if size < 32768 then (2, 2)
      else if size < 8388608 then (3, 3)
      else if size < 2147483648 then (4, 4)
      else if size < 140737488355328 then (5, 6)
      else (6, 8)
    let unsigned : Nat := (n % Int.pow 2 (8 * width)).toNat
    (code, bigEndian width unsigned)

/-- The type code and the bytes of a value. -/
def parts : SqlValue → Nat × List UInt8
  | .null => (0, [])
  | .integer n => integerParts n
  | .real x => if x.isNaN then (0, []) else (7, bigEndian 8 x.toBits.toNat)
  | .text s => let b := s.toUTF8.toList; (13 + 2 * b.length, b)
  | .blob b => (12 + 2 * b.length, b)

/-- The size of a record header whose type codes take `codes` bytes: the size counts the
bytes of its own variable-length form. -/
def headerSize (codes : Nat) : Nat :=
  if codes + 1 < 128 then codes + 1
  else
    let n := codes + (varint codes).length
    if (varint n).length > (varint codes).length then n + 1 else n

/-- The record of a row of values. -/
def encode (values : List SqlValue) : List UInt8 :=
  let ps := values.map parts
  let codes := ps.flatMap fun p => varint p.1
  varint (headerSize codes.length) ++ codes ++ ps.flatMap (·.2)

/-- The number of bytes of a value of a type code. -/
def codeWidth (code : Nat) : Nat :=
  match code with
  | 1 => 1 | 2 => 2 | 3 => 3 | 4 => 4 | 5 => 6 | 6 => 8 | 7 => 8
  | c => if c ≥ 12 then (c - 12) / 2 else 0

/-- The number a run of big-endian bytes stands for. -/
def ofBigEndian (bytes : List UInt8) : Nat := bytes.foldl (fun acc b => acc * 256 + b.toNat) 0

/-- The value of a type code held in some bytes. -/
def valueOf (code : Nat) (bytes : List UInt8) : SqlValue :=
  match code with
  | 0 => .null
  | 7 => .real (Float.ofBits (UInt64.ofNat (ofBigEndian bytes)))
  | 8 => .integer 0
  | 9 => .integer 1
  | c =>
    if 1 ≤ c ∧ c ≤ 6 then
      let n := ofBigEndian bytes
      let width := bytes.length
      .integer (if n ≥ Nat.pow 2 (8 * width - 1) then (n : Int) - Int.pow 2 (8 * width) else n)
    else if c ≥ 12 ∧ c % 2 = 0 then .blob bytes
    else .text (String.fromUTF8? (ByteArray.mk bytes.toArray) |>.getD "")

/-- Reads the record that starts at a place: its values, in order. -/
def decode (bytes : ByteArray) (at_ : Nat) : List SqlValue :=
  let (size, first) := readVarint bytes at_
  let codes := readCodes first (at_ + size) []
  let (_, values) := codes.foldl (fun (pos, acc) code =>
    let width := codeWidth code
    (pos + width, acc ++ [valueOf code ((bytes.extract pos (pos + width)).toList)])) (at_ + size, [])
  values
where
  readCodes (i stop : Nat) (acc : List Nat) : List Nat :=
    if _h : i < stop then
      let (code, next) := readVarint bytes i
      if next ≤ i then acc.reverse else readCodes next stop (code :: acc)
    else acc.reverse
  termination_by stop - i

end TransitFeed.Sql.Record

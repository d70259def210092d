/-!
# Unpacking bzip2 data

Some archive members are compressed with bzip2. A stream starts with `BZh` and a block
size digit, then holds blocks until the end marker. Each block is a Burrows–Wheeler
transform of at most 900 000 bytes: the transformed bytes are written as move-to-front
indices, runs of the first index coded in base two with the symbols `RUNA` and `RUNB`,
and the indices coded with up to six Huffman tables, switched every 50 symbols. After
undoing the transform, runs of four equal bytes are followed by a count of further
copies. Bits are read from the most significant end of each byte.
-/

namespace TransitFeed.Bzip2

/-- Input bits: the bytes and the number of bits already read. -/
structure Bits where
  data : Array UInt8
  pos : Nat := 0

/-- A step of unpacking, which may refuse the stream. -/
abbrev Unpacking := ExceptT String (StateM Bits)

/-- Reads `n` bits, most significant first. -/
def bits (n : Nat) : Unpacking Nat := do
  let b ← get
  if b.pos + n > b.data.size * 8 then throw "unexpected end of compressed data"
  let v := (List.range n).foldl (fun acc i =>
    let p := b.pos + i
    acc * 2 + ((b.data.getD (p / 8) 0).toNat >>> (7 - p % 8)) % 2) 0
  set { b with pos := b.pos + n }
  return v

/-- A canonical Huffman table: how many codes of each length, and the symbols in code
order. Codes are given in order of length and, within a length, of symbol. -/
structure Table where
  count : Array Nat
  symbol : Array Nat

/-- The canonical table of the given code lengths (1 to 20), one per symbol. -/
def Table.ofLengths (lengths : List Nat) : Table :=
  let count := lengths.foldl (fun c l => c.modify l (· + 1)) (Array.replicate 21 0)
  let symbol := (List.range' 1 20).foldl (fun (acc : Array Nat) l =>
    lengths.zipIdx.foldl (fun acc (len, s) => if len = l then acc.push s else acc) acc) #[]
  { count, symbol }

/-- Decodes one symbol, comparing the codes of each length in turn with the bits read. -/
def Table.decode (t : Table) : Unpacking Nat :=
  go 20 1 0 0 0
where
  go : Nat → Nat → Nat → Nat → Nat → Unpacking Nat
    | 0, _, _, _, _ => throw "invalid code"
    | remaining + 1, len, code, first, index => do
      let code := code + (← bits 1)
      let count := t.count.getD len 0
      if code < first + count then return t.symbol.getD (index + (code - first)) 0
      else go remaining (len + 1) (code * 2) ((first + count) * 2) (index + count)

/-- Moves the item at a place to the front. -/
def toFront (xs : List Nat) (i : Nat) : List Nat :=
  match xs[i]? with
  | some v => v :: xs.eraseIdx i
  | none => xs

/-- Reads the map of the byte values a block uses. -/
def usedBytes : Unpacking (List Nat) := do
  let groups ← bits 16
  let mut used := []
  for i in List.range 16 do
    if (groups >>> (15 - i)) % 2 = 1 then
      let b ← bits 16
      for j in List.range 16 do
        if (b >>> (15 - j)) % 2 = 1 then used := used ++ [i * 16 + j]
  return used

/-- Reads a unary number below `bound`: ones ended by a zero. -/
def unary (bound : Nat) : Nat → Nat → Unpacking Nat
  | 0, _ => throw "invalid selector"
  | fuel + 1, n => do
    if (← bits 1) = 0 then return n
    if n + 1 ≥ bound then throw "invalid selector"
    unary bound fuel (n + 1)

/-- Reads one code length as changes from the previous one. -/
def codeLength : Nat → Nat → Unpacking Nat
  | 0, _ => throw "invalid code length"
  | fuel + 1, current => do
    if current < 1 || current > 20 then throw "invalid code length"
    if (← bits 1) = 0 then return current
    if (← bits 1) = 0 then codeLength fuel (current + 1) else codeLength fuel (current - 1)

/-- Reads the code lengths of a table of `alphabet` symbols. -/
def tableLengths (alphabet : Nat) : Unpacking (List Nat) := do
  let mut current ← bits 5
  let mut lengths := []
  for _ in List.range alphabet do
    current ← codeLength 42 current
    lengths := lengths ++ [current]
  return lengths

/-- The decoded move-to-front indices of a block, as byte values, read until the end of
block symbol. -/
structure Symbols where
  out : Array Nat := #[]
  front : List Nat
  run : Nat := 0
  weight : Nat := 1

/-- Writes out a pending run of the front byte value. -/
def Symbols.flush (s : Symbols) (used : List Nat) : Symbols :=
  if s.run = 0 then s
  else
    let b := used.getD (s.front.headD 0) 0
    { s with out := s.out ++ Array.replicate s.run b, run := 0, weight := 1 }

/-- Decodes the symbols of a block. -/
def blockSymbols (tables : Array Table) (selectors : Array Nat) (used : List Nat) (limit : Nat) :
    Nat → Nat → Symbols → Unpacking (Array Nat)
  | 0, _, _ => throw "block too long"
  | fuel + 1, n, s => do
    let table := tables.getD (selectors.getD (n / 50) 0) ⟨#[], #[]⟩
    if n / 50 ≥ selectors.size then throw "too few selectors"
    let sym ← table.decode
    let endOfBlock := used.length + 1
    if sym = endOfBlock then return (s.flush used).out
    if sym ≤ 1 then
      let s := { s with run := s.run + (sym + 1) * s.weight, weight := s.weight * 2 }
      if s.run > limit then throw "block too long"
      blockSymbols tables selectors used limit fuel (n + 1) s
    else
      let s := s.flush used
      let front := toFront s.front (sym - 1)
      let s := { s with out := s.out.push (used.getD (front.headD 0) 0), front := front }
      if s.out.size > limit then throw "block too long"
      blockSymbols tables selectors used limit fuel (n + 1) s

/-- Undoes the Burrows–Wheeler transform, starting from the row that holds the text itself. -/
def untransform (block : Array Nat) (origin : Nat) : List Nat :=
  let counts := block.foldl (fun c b => c.modify b (· + 1)) (Array.replicate 256 0)
  let (starts, _) := (List.range 256).foldl (fun (acc, total) b =>
    (acc.push total, total + counts.getD b 0)) ((#[] : Array Nat), 0)
  let (next, _) := block.zipIdx.foldl (fun (t, st) (b, i) =>
    (t.set! (st.getD b 0) i, st.modify b (· + 1))) (Array.replicate block.size 0, starts)
  let (out, _) := (List.range block.size).foldl (fun (acc, p) _ =>
    (block.getD p 0 :: acc, next.getD p 0)) ([], next.getD origin 0)
  out.reverse

/-- Expands the runs of four equal bytes followed by a count. -/
def unrun : List Nat → Option Nat → Nat → List UInt8 → List UInt8
  | [], _, _, acc => acc.reverse
  | b :: rest, last, seen, acc =>
    if seen = 4 then
      unrun rest none 0 (List.replicate b (UInt8.ofNat (last.getD 0)) ++ acc)
    else if last = some b then unrun rest last (seen + 1) (UInt8.ofNat b :: acc)
    else unrun rest (some b) 1 (UInt8.ofNat b :: acc)

/-- Reads one block after its marker. -/
def block (level : Nat) : Unpacking (List UInt8) := do
  let _crc ← bits 32
  if (← bits 1) = 1 then throw "randomised blocks are not supported"
  let origin ← bits 24
  let used ← usedBytes
  if used.isEmpty then throw "block uses no byte value"
  let groups ← bits 3
  if groups < 2 || groups > 6 then throw "invalid number of tables"
  let count ← bits 15
  if count = 0 then throw "no selectors"
  let mut order := List.range groups
  let mut selectors := #[]
  for _ in List.range count do
    let j ← unary groups 7 0
    order := toFront order j
    selectors := selectors.push (order.headD 0)
  let mut tables := #[]
  for _ in List.range groups do
    tables := tables.push (Table.ofLengths (← tableLengths (used.length + 2)))
  let limit := level * 100000
  let symbols ← blockSymbols tables selectors used limit (limit + 1 + count * 50) 0
    { front := List.range 256 }
  if origin ≥ symbols.size then throw "invalid block origin"
  return unrun (untransform symbols origin) none 0 []

/-- Reads the blocks of a stream until its end marker. -/
def blocks (level : Nat) : Nat → List UInt8 → Unpacking (List UInt8)
  | 0, _ => throw "too many blocks"
  | fuel + 1, acc => do
    let magic ← bits 48
    if magic = 0x177245385090 then
      let _ ← bits 32
      return acc
    if magic ≠ 0x314159265359 then throw "invalid block marker"
    blocks level fuel (acc ++ (← block level))

/-- Unpacks a bzip2 stream. -/
def unpack (data : List UInt8) : Except String (List UInt8) :=
  let run : Unpacking (List UInt8) := do
    if (← bits 24) ≠ 0x425a68 then throw "invalid stream header"
    let level ← bits 8
    if level < 0x31 || level > 0x39 then throw "invalid block size"
    blocks (level - 0x30) (data.length + 1) []
  (run.run.run { data := data.toArray }).1

end TransitFeed.Bzip2

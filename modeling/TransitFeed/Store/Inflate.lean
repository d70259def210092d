/-!
# Inflating compressed data

Archive members are mostly compressed with deflate: a sequence of blocks, each stored
as is or coded with Huffman codes for literals, match lengths and distances, the codes
fixed or given at the start of the block. Bits are read from the least significant end
of each byte. A stream that ends early or holds an impossible code is refused.
-/

namespace TransitFeed.Inflate

/-- Input bits: the bytes and the number of bits already read. -/
structure Bits where
  data : Array UInt8
  pos : Nat := 0

/-- A step of decoding, which may refuse the stream. -/
abbrev Decoding := ExceptT String (StateM Bits)

/-- Reads `n` bits, least significant first. -/
def bits (n : Nat) : Decoding Nat := do
  let b ← get
  if b.pos + n > b.data.size * 8 then throw "unexpected end of compressed data"
  let v := (List.range n).foldl (fun acc i =>
    let p := b.pos + i
    let bit := ((b.data.getD (p / 8) 0).toNat >>> (p % 8)) % 2
    acc + bit * Nat.pow 2 i) 0
  set { b with pos := b.pos + n }
  return v

/-- A canonical Huffman code: how many codes of each length, and the symbols in code order. -/
structure Huffman where
  count : Array Nat
  symbol : Array Nat

/-- The canonical code of the given code lengths, one per symbol. -/
def Huffman.ofLengths (lengths : List Nat) : Huffman :=
  let count := lengths.foldl (fun c l => if l = 0 then c else c.modify l (· + 1)) (Array.replicate 16 0)
  let offsets := (List.range' 1 15).foldl (fun (o : Array Nat) l => o.push (o.getD l 0 + count.getD l 0))
    #[0, 0]
  let (_, symbol) := lengths.zipIdx.foldl (fun (o, sym) (l, s) =>
    if l = 0 then (o, sym)
    else (o.modify l (· + 1), sym.set! (o.getD l 0) s)) (offsets, Array.replicate lengths.length 0)
  { count, symbol }

/-- Decodes one symbol: codes of each length are compared in turn with the bits read. -/
def decodeSymbol (h : Huffman) : Decoding Nat :=
  go 15 1 0 0 0
where
  go : Nat → Nat → Nat → Nat → Nat → Decoding Nat
    | 0, _, _, _, _ => throw "invalid code"
    | remaining + 1, len, code, first, index => do
      let code := code + (← bits 1)
      let count := h.count.getD len 0
      if code < first + count then return h.symbol.getD (index + (code - first)) 0
      else go remaining (len + 1) (code * 2) ((first + count) * 2) (index + count)

/-- The base lengths of the length symbols 257 to 285. -/
def lengthBase : Array Nat :=
  #[3, 4, 5, 6, 7, 8, 9, 10, 11, 13, 15, 17, 19, 23, 27, 31, 35, 43, 51, 59, 67, 83, 99, 115, 131,
    163, 195, 227, 258]

/-- The extra bits of the length symbols. -/
def lengthExtra : Array Nat :=
  #[0, 0, 0, 0, 0, 0, 0, 0, 1, 1, 1, 1, 2, 2, 2, 2, 3, 3, 3, 3, 4, 4, 4, 4, 5, 5, 5, 5, 0]

/-- The base distances of the distance symbols. -/
def distBase : Array Nat :=
  #[1, 2, 3, 4, 5, 7, 9, 13, 17, 25, 33, 49, 65, 97, 129, 193, 257, 385, 513, 769, 1025, 1537,
    2049, 3073, 4097, 6145, 8193, 12289, 16385, 24577]

/-- The extra bits of the distance symbols. -/
def distExtra : Array Nat :=
  #[0, 0, 0, 0, 1, 1, 2, 2, 3, 3, 4, 4, 5, 5, 6, 6, 7, 7, 8, 8, 9, 9, 10, 10, 11, 11, 12, 12, 13, 13]

/-- Copies `n` bytes from `distance` back, one at a time so that they may overlap. -/
def copyBack (out : Array UInt8) (distance n : Nat) : Array UInt8 :=
  (List.range n).foldl (fun o _ => o.push (o.getD (o.size - distance) 0)) out

/-- Decodes the symbols of a coded block until its end. -/
def codes (lit dist : Huffman) (out : Array UInt8) : Nat → Decoding (Array UInt8)
  | 0 => throw "unexpected end of compressed data"
  | fuel + 1 => do
    let s ← decodeSymbol lit
    if s < 256 then codes lit dist (out.push (UInt8.ofNat s)) fuel
    else if s = 256 then return out
    else
      let i := s - 257
      if i ≥ 29 then throw "invalid literal/length code"
      let len := lengthBase.getD i 0 + (← bits (lengthExtra.getD i 0))
      let d ← decodeSymbol dist
      if d ≥ 30 then throw "invalid distance code"
      let distance := distBase.getD d 0 + (← bits (distExtra.getD d 0))
      if distance > out.size then throw "invalid distance too far back"
      codes lit dist (copyBack out distance len) fuel

/-- The fixed codes. -/
def fixedCodes : Huffman × Huffman :=
  (Huffman.ofLengths (List.replicate 144 8 ++ List.replicate 112 9 ++ List.replicate 24 7 ++
      List.replicate 8 8),
    Huffman.ofLengths (List.replicate 30 5))

/-- The order in which code length code lengths are given. -/
def lengthOrder : List Nat := [16, 17, 18, 0, 8, 7, 9, 6, 10, 5, 11, 4, 12, 3, 13, 2, 14, 1, 15]

/-- Reads `total` code lengths coded with the code length code. -/
def readLengths (h : Huffman) (total : Nat) : Nat → List Nat → Decoding (List Nat)
  | 0, acc => return acc
  | fuel + 1, acc => do
    if acc.length ≥ total then return acc
    let s ← decodeSymbol h
    if s < 16 then readLengths h total fuel (acc ++ [s])
    else if s = 16 then
      match acc.getLast? with
      | none => throw "invalid bit length repeat"
      | some prev => readLengths h total fuel (acc ++ List.replicate (3 + (← bits 2)) prev)
    else if s = 17 then readLengths h total fuel (acc ++ List.replicate (3 + (← bits 3)) 0)
    else readLengths h total fuel (acc ++ List.replicate (11 + (← bits 7)) 0)

/-- Reads the codes of a dynamic block. -/
def dynamicCodes : Decoding (Huffman × Huffman) := do
  let nlen := (← bits 5) + 257
  let ndist := (← bits 5) + 1
  let ncode := (← bits 4) + 4
  let mut lengths := Array.replicate 19 0
  for i in List.range ncode do
    lengths := lengths.set! (lengthOrder.getD i 0) (← bits 3)
  let h := Huffman.ofLengths lengths.toList
  let all ← readLengths h (nlen + ndist) (nlen + ndist + 1) []
  if all.length > nlen + ndist then throw "too many length or distance symbols"
  return (Huffman.ofLengths (all.take nlen), Huffman.ofLengths (all.drop nlen))

/-- Copies a stored block. -/
def stored (out : Array UInt8) : Decoding (Array UInt8) := do
  let b ← get
  set { b with pos := (b.pos + 7) / 8 * 8 }
  let len ← bits 16
  let nlen ← bits 16
  if len + nlen ≠ 65535 then throw "invalid stored block lengths"
  let b ← get
  let start := b.pos / 8
  if start + len > b.data.size then throw "unexpected end of compressed data"
  set { b with pos := b.pos + len * 8 }
  return out ++ b.data.extract start (start + len)

/-- Decodes blocks until the last one. -/
def blocks (out : Array UInt8) : Nat → Decoding (Array UInt8)
  | 0 => throw "unexpected end of compressed data"
  | fuel + 1 => do
    let last ← bits 1
    let kind ← bits 2
    let size := (← get).data.size * 8 + 1
    let out ← match kind with
      | 0 => stored out
      | 1 => codes fixedCodes.1 fixedCodes.2 out size
      | 2 => do let (l, d) ← dynamicCodes; codes l d out size
      | _ => throw "invalid block type"
    if last = 1 then return out else blocks out fuel

/-- Inflates a deflate stream. -/
def inflate (data : List UInt8) : Except String (List UInt8) :=
  let arr := data.toArray
  match ((blocks #[] (arr.size + 1)).run).run { data := arr } with
  | (.ok out, _) => .ok out.toList
  | (.error e, _) => .error e

end TransitFeed.Inflate

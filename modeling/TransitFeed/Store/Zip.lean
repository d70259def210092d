import TransitFeed.Store.Inflate

/-!
# Zip archives

A feed may come as a zip archive. The archive is read from its end: the end record, found
within the last 64 KiB, gives the place and size of the central directory, which lists
the members with their compression, checksum, sizes and the place of their local header.
Data prepended to the archive shifts every place by the same amount, which is measured
from where the end record was found.

Members are stored as is, deflated or compressed with bzip2; another method, or an
encrypted member, is refused when the archive is opened. A member's name is read as
UTF-8 when its flags say so and as code page 437 otherwise.
-/

namespace TransitFeed.Zip

/-- Why an archive or a member cannot be read. -/
inductive ZipFault where
  /-- The bytes ran out or a read failed. -/
  | io (message : String)
  | invalid (message : String)
  | unsupported (message : String)
  deriving DecidableEq, Repr, Inhabited

/-- The sentence of a fault. -/
def ZipFault.text : ZipFault → String
  | .io m => m
  | .invalid m => "invalid Zip archive: " ++ m
  | .unsupported m => "unsupported Zip archive: " ++ m

/-- The fault of reading past the end. -/
def shortRead : ZipFault := .io "failed to fill whole buffer"

/-- A member of an archive as its central directory entry describes it. -/
structure Member where
  name : String
  method : Nat
  encrypted : Bool
  crc : Nat
  compressedSize : Nat
  headerStart : Nat
  deriving Repr, Inhabited

/-- A little-endian number of `n` bytes at a place, if the bytes are there. -/
def number (data : Array UInt8) (at_ n : Nat) : Except ZipFault Nat :=
  if at_ + n > data.size then .error shortRead
  else .ok ((List.range n).foldl (fun acc i => acc + (data.getD (at_ + i) 0).toNat * Nat.pow 256 i) 0)

/-- The characters of code page 437 from 128 on. -/
def cp437High : String :=
  "ÇüéâäàåçêëèïîìÄÅÉæÆôöòûùÿÖÜ¢£¥₧ƒáíóúñÑªº¿⌐¬½¼¡«»░▒▓│┤╡╢╖╕╣║╗╝╜╛┐└┴┬├─┼╞╟╚╔╩╦╠═╬╧╨╤╥╙╘╒╓╫╪┘┌█▄▌▐▀αßΓπΣσµτΦΘΩδ∞φε∩≡±≥≤⌠⌡÷≈°∙·√ⁿ²■ "

/-- A name in code page 437. -/
def cp437 (bytes : List UInt8) : String :=
  String.ofList (bytes.map fun b =>
    if b.toNat < 128 then Char.ofNat b.toNat else cp437High.toList.getD (b.toNat - 128) ' ')

/-- A name in UTF-8, each invalid sequence replaced by U+FFFD. -/
def lossy (bytes : List UInt8) : String :=
  match String.fromUTF8? (ByteArray.mk bytes.toArray) with
  | some s => s
  | none => String.ofList (bytes.map fun b => if b.toNat < 128 then Char.ofNat b.toNat else '�')

/-- The signature of the end record. -/
def endSignature : Nat := 0x06054b50

/-- Finds the end record, from the end back to 64 KiB before it. -/
def findEnd (data : Array UInt8) : Except ZipFault Nat :=
  if data.size < 22 then .error (.invalid "Invalid zip header")
  else
    let bound := data.size - min data.size (22 + 65535)
    go (data.size - 22) (data.size - 22 - bound + 1)
where
  go (pos : Nat) : Nat → Except ZipFault Nat
    | 0 => .error (.invalid "Could not find central directory end")
    | fuel + 1 =>
      let found := match number data pos 4 with
        | .ok v => v == endSignature
        | .error _ => false
      if found then .ok pos
      else if pos = 0 then .error (.invalid "Could not find central directory end")
      else go (pos - 1) fuel

/-- Reads the central directory entry at a place: the member and the place after it. -/
def readEntry (data : Array UInt8) (at_ offset : Nat) : Except ZipFault (Member × Nat) := do
  if (← number data at_ 4) ≠ 0x02014b50 then throw (.invalid "Invalid Central Directory header")
  let flags ← number data (at_ + 8) 2
  let method ← number data (at_ + 10) 2
  let crc ← number data (at_ + 16) 4
  let compressed ← number data (at_ + 20) 4
  let nameLength ← number data (at_ + 28) 2
  let extraLength ← number data (at_ + 30) 2
  let commentLength ← number data (at_ + 32) 2
  let header ← number data (at_ + 42) 4
  let next := at_ + 46 + nameLength + extraLength + commentLength
  if next > data.size then throw shortRead
  let raw := (data.extract (at_ + 46) (at_ + 46 + nameLength)).toList
  let name := if (flags / 2048) % 2 = 1 then lossy raw else cp437 raw
  if method = 99 && flags % 2 = 0 then throw (.invalid "AES encryption without AES extra data field")
  let m : Member :=
    { name := name, method := method, encrypted := flags % 2 = 1, crc := crc,
      compressedSize := compressed, headerStart := header + offset }
  return (m, next)

/-- The members of an archive, in directory order. -/
def members (data : Array UInt8) : Except ZipFault (List Member) := do
  let pos ← findEnd data
  let disk ← number data (pos + 4) 2
  let cdDisk ← number data (pos + 6) 2
  let onDisk ← number data (pos + 8) 2
  let total ← number data (pos + 10) 2
  let size ← number data (pos + 12) 4
  let offset ← number data (pos + 16) 4
  let commentLength ← number data (pos + 20) 2
  if pos + 22 + commentLength > data.size then throw shortRead
  let small := onDisk = 0xFFFF ∨ total = 0xFFFF ∨ size = 0xFFFFFFFF ∨ offset = 0xFFFFFFFF
  if !small && disk ≠ cdDisk then throw (.unsupported "Support for multi-disk files is not implemented")
  if pos < size + offset then throw (.invalid "Invalid central directory size or offset")
  let shift := pos - size - offset
  let mut at_ := offset + shift
  let mut found := []
  for _ in List.range onDisk do
    let (m, next) ← readEntry data at_ shift
    found := found ++ [m]
    at_ := next
  return found

/-- The place of a member's data, checking its local header. -/
def dataStart (data : Array UInt8) (m : Member) : Except ZipFault Nat := do
  if (← number data m.headerStart 4) ≠ 0x04034b50 then throw (.invalid "Invalid local file header")
  let nameLength ← number data (m.headerStart + 26) 2
  let extraLength ← number data (m.headerStart + 28) 2
  return m.headerStart + 30 + nameLength + extraLength

/-- Whether a compression method can be read. -/
def supported (method : Nat) : Bool := method = 0 || method = 8 || method = 12

/-- Checks that a member can be opened: not encrypted, with a local header and a known
method. -/
def checkMember (data : Array UInt8) (m : Member) : Except ZipFault Unit := do
  if m.encrypted then throw (.unsupported "Password required to decrypt file")
  let _ ← dataStart data m
  if !supported m.method then throw (.unsupported "Compression method not supported")

/-- The CRC-32 of bytes. -/
def crc32 (bytes : List UInt8) : Nat :=
  let table : Array UInt32 := (Array.range 256).map fun n =>
    (List.range 8).foldl (fun (c : UInt32) _ =>
      if c &&& 1 = 1 then (0xEDB88320 : UInt32) ^^^ (c >>> 1) else c >>> 1) n.toUInt32
  let c := bytes.foldl (fun (c : UInt32) b =>
    table.getD ((c ^^^ b.toUInt32) &&& 0xFF).toNat 0 ^^^ (c >>> 8)) 0xFFFFFFFF
  (c ^^^ 0xFFFFFFFF).toNat

/-- The last component of a member's path, if it names something. -/
def fileName (path : String) : Option String :=
  let parts := (path.splitOn "/").filter fun p => !p.isEmpty && p != "."
  match parts.getLast? with
  | some ".." => none
  | some p => some p
  | none => none

end TransitFeed.Zip

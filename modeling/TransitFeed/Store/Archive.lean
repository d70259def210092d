import TransitFeed.Store.Zip
import TransitFeed.Store.Bzip2
import TransitFeed.Store.TextFeed
import TransitFeed.Text.Sha256

/-!
# Feeds in zip archives

An archive holds the files of a feed, each found by its name without the directories
above it; when two members have the same name, the first one counts. Opening the
archive checks every member, so an archive with an encrypted member or one compressed
with an unknown method cannot be opened at all.

A member's content is unpacked when its file is read. A member whose content does not
unpack fails with the deflate fault, and one whose checksum does not match fails after
its last byte.
-/

namespace TransitFeed

/-- A feed read from the bytes of a zip archive, with the SHA-256 of those bytes. -/
structure ArchiveFeed where
  data : Array UInt8
  /-- Each file name with the member that holds it. -/
  files : List (String × Zip.Member)
  sha256 : String

namespace ArchiveFeed

/-- Adds a member under its file name unless the name is taken. -/
def addMember (files : List (String × Zip.Member)) (m : Zip.Member) : List (String × Zip.Member) :=
  match Zip.fileName m.name with
  | some name => if (files.lookup name).isSome then files else files ++ [(name, m)]
  | none => files

/-- Opens an archive: reads its directory and checks each member in turn. -/
def openArchive (bytes : List UInt8) : Except FeedError ArchiveFeed :=
  let data := bytes.toArray
  let checked : Except Zip.ZipFault (List Zip.Member) := do
    let members ← Zip.members data
    for m in members do Zip.checkMember data m
    return members
  match checked with
  | .error f => .error (.zip f.text)
  | .ok members =>
    .ok { data, files := members.foldl addMember [], sha256 := Sha256.digest bytes }

/-- The unpacked content of a member. -/
def unpack (a : ArchiveFeed) (m : Zip.Member) : FileContent :=
  match Zip.dataStart a.data m with
  | .error f => { bytes := [], fault := some f.text }
  | .ok start =>
    let packed := (a.data.extract start (start + m.compressedSize)).toList
    let unpacked : Except String (List UInt8) :=
      if m.method = 8 then
        match Inflate.inflate packed with
        | .ok out => .ok out
        | .error _ => .error "corrupt deflate stream"
      else if m.method = 12 then Bzip2.unpack packed
      else .ok packed
    match unpacked with
    | .error e => { bytes := [], fault := some e }
    | .ok out =>
      if Zip.crc32 out = m.crc then { bytes := out } else { bytes := out, fault := some "Invalid checksum" }

/-- The archive as a feed of text files. -/
def textFeed (a : ArchiveFeed) (trimFields : Bool := true) : TextFeed where
  file name := (a.files.lookup name).map a.unpack
  trimFields := trimFields

end ArchiveFeed

end TransitFeed

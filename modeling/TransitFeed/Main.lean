import TransitFeed.Cli.Run
import TransitFeed.Sql.StoreFile.Read
import TransitFeed.Sql.StoreFile.Layout

/-!
# The program

Reads the command line, loads the files the command names into a workspace, runs the
command, writes back what it wrote below its destination and prints the report. Help
and version texts go to standard output, problems and failures to standard error. A
relational store is kept in its file as the statements that rebuild it.
-/

namespace TransitFeed.Cli

/-- What a path holds on disk: bytes, a directory, or nothing. -/
inductive OnDisk where
  | file (data : List UInt8)
  | directory
  | absent

/-- Looks at a path on disk. -/
def look (path : String) : IO OnDisk := do
  try
    let b ← IO.FS.readBinFile path
    return .file b.toList
  catch e =>
    match e with
    | .inappropriateType .. => return .directory
    | _ => return .absent

/-- The entry of a file's bytes: a store when the location reads stores and the bytes are
those of a store file. -/
def entryOf (scheme : String) (data : List UInt8) : Entry :=
  if scheme == "sqlite" && !data.isEmpty then
    match Sql.Database.ofFile (ByteArray.mk data.toArray) with
    | .ok db => .store db none
    | .error _ => .bytes data
  else .bytes data

/-- Loads what a location names: its file, or the feed files of its directory. -/
def loadLocation (w : Workspace) (location : String) : IO Workspace := do
  let (scheme, path) := splitLocation location
  match ← look path with
  | .file data => return w.write path (entryOf scheme data)
  | .absent =>
    match ← look (parentPath ((normalPath path).getD path)) with
    | .directory => return { w with dirs := w.dirs ++ [parentPath ((normalPath path).getD path)] }
    | _ => return w
  | .directory =>
    let q := (normalPath path).getD path
    let mut w := { w with dirs := w.dirs ++ [q] }
    for k in Kind.all do
      match ← look (joinPath q k.fileName) with
      | .file data => w := w.write (joinPath q k.fileName) (.bytes data)
      | _ => pure ()
    return w

/-- Loads a plain file, such as a configuration. -/
def loadFile (w : Workspace) (path : String) : IO Workspace := do
  match ← look path with
  | .file data => return w.write path (.bytes data)
  | .directory => return { w with dirs := w.dirs ++ [(normalPath path).getD path] }
  | .absent => return w

/-- The bytes of an entry as written to disk. -/
def Entry.diskBytes : Entry → List UInt8
  | .bytes b => b
  | .store _ (some f) => f.bytes.toList
  | .store db none => db.layout.toList

/-- Writes back what the run left below the destination, and removes what it removed. -/
def writeBack (before after : Workspace) (location : String) : IO Unit := do
  let (_, path) := splitLocation location
  let q := (normalPath path).getD path
  let below (f : String) := f == q || f.startsWith (q ++ "/")
  let existed := before.exists_ q
  if existed && !after.exists_ q then
    if before.isDir q then IO.FS.removeDirAll q else IO.FS.removeFile q
  if after.dirs.any below then IO.FS.createDirAll q
  for (f, e) in after.files do
    if below f then
      if f != q then IO.FS.createDirAll (parentPath f)
      IO.FS.writeBinFile f (ByteArray.mk e.diskBytes.toArray)

end TransitFeed.Cli

open TransitFeed TransitFeed.Cli

/-- Runs the command line. -/
def main (args : List String) : IO UInt32 := do
  match parseCommand args with
  | .error r =>
    if r.exitCode == 0 then IO.print r.message else IO.eprint r.message
    return r.exitCode.toUInt32
  | .ok cmd =>
    let w : Workspace := {}
    let (w, dest) ← match cmd with
      | .copy req => do
        let w ← loadLocation w req.source
        let w ← match req.config with
          | some c => loadFile w c
          | none => pure w
        let w ← loadLocation w req.dest
        pure (w, some req.dest)
      | .validate source _ => do
        let w ← loadLocation w source
        pure (w, none)
    let o := run w cmd
    if let some d := dest then writeBack w o.workspace d
    IO.print o.stdout
    if let some f := o.failure then IO.eprintln ("error: " ++ f)
    return o.exitCode.toUInt32

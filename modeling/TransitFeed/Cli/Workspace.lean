import TransitFeed.Store.Archive
import TransitFeed.Store.TextWrite
import TransitFeed.Store.WrittenStore

/-!
# The files a command works on

The command line reads and writes files named by paths written with `/`, relative to the
working directory unless they start with `/`. Repeated or trailing slashes and `.`
components do not change a path, and `..` goes back one component. A file holds bytes
or a relational store; a directory exists when it was made or when something is below
it.
-/

namespace TransitFeed.Cli

/-- What a file holds: bytes, or a relational store with the bytes of its file when they
are known. -/
inductive Entry where
  | bytes (data : List UInt8)
  | store (db : Sql.Database) (file : Option Sql.StoreFile)
  deriving Inhabited

/-- The files and directories below the working directory. -/
structure Workspace where
  files : List (String × Entry) := []
  dirs : List String := []
  deriving Inhabited

/-- Resolves the components of a path: `.` and empty components drop out, `..` takes back
the component before it. -/
def resolveParts : List String → List String → List String
  | [], acc => acc.reverse
  | p :: rest, acc =>
    if p.isEmpty || p == "." then resolveParts rest acc
    else if p == ".." then
      match acc with
      | q :: more => if q == ".." then resolveParts rest (p :: acc) else resolveParts rest more
      | [] => resolveParts rest [p]
    else resolveParts rest (p :: acc)

/-- The normal form of a path: its components resolved, joined with `/`, an absolute path
keeping its leading `/`. -/
def normalPath (p : String) : Option String :=
  let parts := resolveParts (p.splitOn "/") []
  let body := "/".intercalate parts
  some (if p.startsWith "/" then "/" ++ body else body)

/-- The path of a name inside a directory. -/
def joinPath (dir name : String) : String := if dir.isEmpty then name else dir ++ "/" ++ name

/-- The directory that holds a path. -/
def parentPath (p : String) : String :=
  match (p.splitOn "/").dropLast with
  | [] => ""
  | parts => "/".intercalate parts

namespace Workspace

/-- The entry of a file. -/
def entry? (w : Workspace) (p : String) : Option Entry :=
  (normalPath p).bind fun q => w.files.lookup q

/-- Whether a path names a file. -/
def isFile (w : Workspace) (p : String) : Bool := (w.entry? p).isSome

/-- Whether a path names a directory. -/
def isDir (w : Workspace) (p : String) : Bool :=
  match normalPath p with
  | none => false
  | some q =>
    q.isEmpty || w.dirs.contains q ||
      w.files.any (fun (f, _) => f.startsWith (q ++ "/")) ||
      w.dirs.any (fun d => d.startsWith (q ++ "/"))

/-- Whether a path names something. -/
def exists_ (w : Workspace) (p : String) : Bool := w.isFile p || w.isDir p

/-- Writes a file, replacing what it held. -/
def write (w : Workspace) (p : String) (e : Entry) : Workspace :=
  match normalPath p with
  | none => w
  | some q =>
    if w.files.any (·.1 == q) then { w with files := w.files.map fun (f, x) => if f == q then (f, e) else (f, x) }
    else { w with files := w.files ++ [(q, e)] }

/-- Removes a file. -/
def removeFile (w : Workspace) (p : String) : Workspace :=
  match normalPath p with
  | none => w
  | some q => { w with files := w.files.filter (·.1 != q) }

/-- Removes a directory and everything below it. -/
def removeTree (w : Workspace) (p : String) : Workspace :=
  match normalPath p with
  | none => w
  | some q =>
    let below (f : String) := f == q || f.startsWith (q ++ "/")
    { files := w.files.filter (fun (f, _) => !below f), dirs := w.dirs.filter (fun d => !below d) }

/-- Makes a directory and the ones above it, failing where a file stands in the way. -/
def makeDirs (w : Workspace) (p : String) : Except FeedError Workspace :=
  match normalPath p with
  | none => .error (.io "Permission denied (os error 13)")
  | some q =>
    let parts := q.splitOn "/"
    let prefixes := (List.range parts.length).map fun i => "/".intercalate (parts.take (i + 1))
    if q.isEmpty then .ok w
    else if prefixes.any (fun d => (w.files.lookup d).isSome) then .error (.io "File exists (os error 17)")
    else .ok { w with dirs := w.dirs ++ [q] }

/-- The first bytes of a store file: its signature and a blank header. -/
def storeHeader : List UInt8 := "SQLite format 3".toUTF8.toList ++ List.replicate 85 0

/-- The bytes of a file; a store whose bytes are not known reads as its header alone. -/
def bytes? (w : Workspace) (p : String) : Option (List UInt8) :=
  match w.entry? p with
  | some (.bytes b) => some b
  | some (.store _ (some f)) => some f.bytes.toList
  | some (.store _ none) => some storeHeader
  | none => none

/-- The files of a directory as a feed of text files. -/
def directoryFeed (w : Workspace) (dir : String) : TextFeed where
  file name := (w.bytes? (joinPath dir name)).map fun b => { bytes := b }

end Workspace

end TransitFeed.Cli

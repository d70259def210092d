import TransitFeed.Cli.Arguments
import TransitFeed.Cli.Workspace
import TransitFeed.Config.Read
import TransitFeed.Store.Location
import TransitFeed.Store.Memory

/-!
# Running a command

`copy` first completes the configuration: the configuration file, if one is named, then
the switches, then the stages of the command line (the default agency, the prefixes, the
redating) and the default expansions. It then opens the source, refuses it when its
shape has problems, opens the destination, provisions it when asked, and copies. A copy
that fails removes a destination it provisioned and keeps what was written otherwise.
`validate` opens and checks the source the same way and copies it into memory with the
default expansions alone.

Locations name their kind with `scheme://path` or by their extension: `.zip` archives,
`.db` and `.sqlite` stores, and directories of text files otherwise. A file read as a
directory feed is taken for an archive.

A run ends with the report printed, as a table or as indented JSON, and the exit code 0,
or 2 when some record had a problem; a failure gives its text and the exit code 1.
-/

namespace TransitFeed.Cli

open TransitFeed

/-- How a run ended: the exit code, the failure text if the run failed, what was printed
and the files afterwards. -/
structure Outcome where
  exitCode : Nat
  failure : Option String
  stdout : String
  workspace : Workspace

/-- An opened source: how to read it and the problems of its shape. -/
structure OpenSource where
  source : Source
  problems : List FeedError

/-- The fault of a file that is not a relational store. -/
def notAStore : FeedError := .sqlite "file is not a database"

/-- A source every read of which the store refuses. -/
def refusingSource : OpenSource where
  source := {
    read := fun _ => .error notAStore
    stopTimesOf := fun _ => .error notAStore
    stopTimesNotOf := fun _ => .error notAStore }
  problems := Kind.all.map (fun _ => notAStore) ++ [FeedError.missingFile "calendar.txt"]

/-- Opens the source at a location. -/
def openSource (w : Workspace) (location : String) : Except FeedError OpenSource :=
  let (scheme, path) := splitLocation location
  if scheme == "csv" || scheme == "zip" then
    match w.bytes? path with
    | some b =>
      match ArchiveFeed.openArchive b with
      | .ok a => .ok { source := a.textFeed.source, problems := a.textFeed.problems }
      | .error e => .error e
    | none =>
      if w.isDir path then
        let feed := w.directoryFeed ((normalPath path).getD "")
        .ok { source := feed.source, problems := feed.problems }
      else .error (.notFileNorDirectory path)
  else if scheme == "sqlite" then
    match w.entry? path with
    | some (.store db _) => .ok { source := db.source, problems := db.problems }
    | some (.bytes []) =>
      let db : Sql.Database := {}
      .ok { source := db.source, problems := db.problems }
    | some (.bytes _) => .ok refusingSource
    | none => .error (.notFileNorDirectory path)
  else .error (.unsupportedAdapter location)

/-- A destination: a directory of text files or a relational store at a path. -/
inductive Destination where
  | text (dir : String)
  | store (path : String) (s : Option WrittenStore)

/-- Opens the destination at a location; a store file is made at once. -/
def openDestination (w : Workspace) (location : String) : Except FeedError (Workspace × Destination) :=
  let (scheme, path) := splitLocation location
  if scheme == "csv" then .ok (w, .text path)
  else if scheme == "sqlite" then
    match w.entry? path with
    | some (.store db file) => .ok (w, .store path (some { db, file }))
    | some (.bytes []) => .ok (w, .store path (some { file := some {} }))
    | some (.bytes _) => .ok (w, .store path none)
    | none =>
      match normalPath path with
      | some q =>
        if w.isDir q || !w.isDir (parentPath q) then .error (.sqlite "unable to open database file")
        else .ok (w.write q (.store {} (some {})), .store path (some { file := some {} }))
      | none => .error (.sqlite "unable to open database file")
  else .error (.unsupportedAdapter location)

/-- The JSON form of a problem, its members in declaration order. -/
def issueJson (i : Issue) : Json :=
  .obj [("kind", .str i.kind.name), ("field", (i.field.map Json.str).getD .null),
    ("value", (i.value.map Json.str).getD .null), ("message", .str i.message),
    ("line", (i.line.map fun n => Json.int n).getD .null)]

/-- The JSON form of a copy result, its members in declaration order. -/
def resultJson (r : CopyResult) : Json :=
  .obj [("status", .str r.status.name),
    ("collections", .arr (r.collections.map fun c =>
      .obj [("collection", .str c.kind.fileName), ("read", .int c.read), ("written", .int c.written),
        ("dropped", .int c.dropped),
        ("errors_by_kind", .obj (c.errorsByKind.map fun (k, n) => (k.name, .int n))),
        ("warning_count", .int c.warningCount),
        ("errors", .arr (c.errors.map issueJson)), ("warnings", .arr (c.warnings.map issueJson))]))]

/-- The printed report. -/
def printedReport (r : CopyResult) (json : Bool) : String :=
  if json then Json.pretty "" (resultJson r) ++ "\n" else r.text

/-- The exit code of a copy: 130 when cancelled, 2 with problems, 0 otherwise. -/
def exitCodeOf (r : CopyResult) : Nat :=
  match r.status with
  | .cancelled => 130
  | .completed => if r.errorCount > 0 then 2 else 0

/-- The configuration of `copy`: the file, the switches, the stages of the command line
and the default expansions. -/
def configurationOf (w : Workspace) (req : CopyRequest) : Except Failure Configuration := do
  let c ← match req.config with
    | none => pure ({} : Configuration)
    | some path =>
      match w.bytes? path with
      | some b =>
        let text := (String.fromUTF8? (ByteArray.mk b.toArray)).getD (String.ofList (b.map fun x => Char.ofNat x.toNat))
        match Configuration.decode text with
        | .ok c => pure c
        | .error e => throw (.plain [s!"invalid configuration {path}"] e.text)
      | none =>
        if w.isDir path then throw (.plain [s!"invalid configuration {path}"] "Is a directory (os error 21)")
        else throw (.plain [s!"cannot open configuration {path}"] "No such file or directory (os error 2)")
  let options := { c.options with
    failFast := c.options.failFast || req.failFast,
    allowEntityErrors := c.options.allowEntityErrors || req.allowEntityErrors }
  let mut stages := c.stages
  if req.defaultAgency then stages := stages ++ [.defaultAgency]
  for p in req.prefixes do stages := stages ++ [← StageConfig.parsePrefix p]
  if let some r := req.redate then stages := stages ++ [← StageConfig.parseRedate r]
  return ({ options, stages } : Configuration).withDefaultExpansions

/-- Refuses a source whose shape has problems. -/
def checkShape (s : OpenSource) : Except Failure Unit :=
  if s.problems.isEmpty then .ok ()
  else .error (.plain [] s!"the source is not a valid feed: {s.problems.length} problem(s)")

/-- The text directory as a destination, each write failing when its directory cannot
be made. -/
def directorySink (blocked : Option FeedError) : Sink TextDirectory :=
  match blocked with
  | none => TextDirectory.sink
  | some e => { add := fun _ _ => .error e, addAll := fun d rs => if rs.isEmpty then .ok (d, []) else .error e }

/-- Writes the files of a text directory into the workspace. -/
def placeDirectory (w : Workspace) (dir : String) (d : TextDirectory) : Workspace :=
  let w := if d.created || !d.files.isEmpty then
      match w.makeDirs dir with
      | .ok w => w
      | .error _ => w
    else w
  d.texts.foldl (fun w (name, text) => w.write (joinPath dir name) (.bytes text.toUTF8.toList)) w

/-- Copies with a configuration into a destination of state `σ`: the result, or the
failure, and the destination's state afterwards. -/
def copyInto {σ : Type} (src : OpenSource) (sink : Sink σ) (init : σ) (c : Configuration) :
    Except FeedError CopyResult × σ :=
  match StageConfig.buildAll c.stages with
  | .error e => (.error e, init)
  | .ok pipeline =>
    let (res, run) := copyFeed src.source sink init IdMap.empty pipeline c.options
    (res, run.store)

/-- The outcome of a failure. -/
def failed (w : Workspace) (f : Failure) : Outcome :=
  { exitCode := 1, failure := some f.text, stdout := "", workspace := w }

/-- The outcome of a finished copy. -/
def finished (w : Workspace) (r : CopyResult) (json : Bool) : Outcome :=
  { exitCode := exitCodeOf r, failure := none, stdout := printedReport r json, workspace := w }

/-- Runs `copy`. -/
def runCopy (w : Workspace) (req : CopyRequest) : Outcome :=
  match configurationOf w req with
  | .error f => failed w f
  | .ok c =>
    match openSource w req.source with
    | .error e => failed w (.feed [s!"cannot open source {req.source}"] e)
    | .ok src =>
      match checkShape src with
      | .error f => failed w f
      | .ok () =>
        match openDestination w req.dest with
        | .error e => failed w (.feed [s!"cannot open destination {req.dest}"] e)
        | .ok (w, dest) =>
          let context := s!"copy of {req.source} into {req.dest} failed"
          match dest with
          | .text dir =>
            let created := if req.create then (w.makeDirs dir).map fun _ => () else .ok ()
            match created with
            | .error e => failed w (.feed [] e)
            | .ok () =>
              let blocked := match w.makeDirs dir with
                | .ok _ => none
                | .error e => some e
              let init : TextDirectory := { created := req.create }
              match copyInto src (directorySink blocked) init c with
              | (.ok r, d) => finished (placeDirectory w dir d) r req.json
              | (.error e, d) =>
                let w := if req.create then w.removeTree dir else placeDirectory w dir d
                failed w (.feed [context] e)
          | .store _ none =>
            if req.create then failed w (.feed [] notAStore)
            else
              let refusing : Sink Unit := { add := fun _ _ => .error notAStore, addAll := fun _ _ => .error notAStore }
              match copyInto src refusing () c with
              | (.ok r, _) => finished w r req.json
              | (.error e, _) => failed w (.feed [context] e)
          | .store path (some s) =>
            let prepared := if req.create then s.createAll else .ok s
            match prepared with
            | .error e => failed w (.feed [] e)
            | .ok s =>
              let w := w.write path (.store s.db s.file)
              match copyInto src WrittenStore.sink s c with
              | (.ok r, s) => finished (w.write path (.store s.db s.file)) r req.json
              | (.error e, s) =>
                let w := if req.create then w.removeFile path else w.write path (.store s.db s.file)
                failed w (.feed [context] e)

/-- Runs `validate`. -/
def runValidate (w : Workspace) (source : String) (json : Bool) : Outcome :=
  match openSource w source with
  | .error e => failed w (.feed [s!"cannot open source {source}"] e)
  | .ok src =>
    match checkShape src with
    | .error f => failed w f
    | .ok () =>
      let c := ({} : Configuration).withDefaultExpansions
      match copyInto src MemoryFeed.sink {} c with
      | (.ok r, _) => finished w r json
      | (.error e, _) => failed w (.feed [] e)

/-- Runs a command. -/
def run (w : Workspace) : Command → Outcome
  | .copy req => runCopy w req
  | .validate source json => runValidate w source json

end TransitFeed.Cli

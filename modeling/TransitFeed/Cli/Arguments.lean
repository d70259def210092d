import TransitFeed.Text.Similarity

/-!
# The command line

The program takes a command and its arguments:

* `copy SOURCE DEST` with `--config FILE`, `--prefix FILE=PREFIX` (repeatable),
  `--redate START:SOURCE_DAYS:TARGET:TARGET_DAYS` and the switches `--default-agency`,
  `--fail-fast`, `--allow-entity-errors`, `--create` and `--json`;
* `validate SOURCE` with `--json`;
* `help [COMMAND]`, and `-h`/`--help` anywhere, print the help of a command;
  `-V`/`--version` before the command prints the version.

Arguments are read left to right and the first problem stops the reading: an unknown
option (with the most similar known one, when one is similar enough), an option without
its value, a switch given a value, an option given twice, a word that names no command,
or a value too many. Missing values are reported last, all together. Every problem names
its kind, is written as a message that ends with the usage of the command, and exits
with code 2; help and version exit with 0.

`--name=value` gives an option its value in the same word; after `--` every word is a
value.
-/

namespace TransitFeed.Cli

/-- What `copy` was asked to do. -/
structure CopyRequest where
  source : String
  dest : String
  config : Option String := none
  prefixes : List String := []
  redate : Option String := none
  defaultAgency : Bool := false
  failFast : Bool := false
  allowEntityErrors : Bool := false
  create : Bool := false
  json : Bool := false
  deriving Repr, Inhabited

/-- A command. -/
inductive Command where
  | copy (request : CopyRequest)
  | validate (source : String) (json : Bool)
  deriving Repr, Inhabited

/-- Why the command line gives no command: a help or version text to print, or a
problem. -/
structure Refusal where
  /-- The kind of refusal, as the reporting names it. -/
  kind : String
  exitCode : Nat
  message : String
  deriving Repr, Inhabited

/-- The name of the program. -/
def programName : String := "feedcopy"

/-- The version of the program. -/
def programVersion : String := "0.1.0"

/-- One line of an options table with the help on the same line. -/
def tableLine (left : String) (width : Nat) (help : String) : String :=
  "  " ++ left ++ String.ofList (List.replicate (width + 2 - left.length) ' ') ++ help

/-- The text of the main help. -/
def mainHelp : String :=
  "Copies and transforms GTFS feeds\n\nUsage: feedcopy <COMMAND>\n\nCommands:\n" ++
  tableLine "copy" 8 "Copy SOURCE into DEST. Locations are directories, .zip archives or .db files, or `scheme://path`" ++ "\n" ++
  tableLine "validate" 8 "Check the structure of SOURCE and copy it in memory, reporting every problem" ++ "\n" ++
  tableLine "help" 8 "Print this message or the help of the given subcommand(s)" ++
  "\n\nOptions:\n" ++
  tableLine "-h, --help" 13 "Print help" ++ "\n" ++
  tableLine "-V, --version" 13 "Print version" ++ "\n"

/-- The options of `copy` with their help, as the help lists them. -/
def copyOptions : List (String × String) :=
  [("--config <CONFIG>", "JSON file with the options and the filters to run"),
   ("--prefix <FILE=PREFIX>", "Prefix the identifiers of a collection, e.g. `stops=feedA-`"),
   ("--redate <START:SOURCE_DAYS:TARGET:TARGET_DAYS>",
      "Replay a window of service dates onto another, dates as YYYYMMDD"),
   ("--default-agency", "Give the agency of a single agency feed to routes and fares without one"),
   ("--fail-fast", "Abort on the first entity error"),
   ("--allow-entity-errors", "Copy entities failing validation, reporting their errors as warnings"),
   ("--create", "Provision the destination first, and remove it if the copy fails"),
   ("--json", "Print the report as JSON")]

/-- The text of the help of `copy`: its options' help goes on the next line, as one of
them is too long to share a line with its help. -/
def copyHelp : String :=
  "Copy SOURCE into DEST. Locations are directories, .zip archives or .db files, or `scheme://path`\n\n" ++
  "Usage: feedcopy copy [OPTIONS] <SOURCE> <DEST>\n\nArguments:\n" ++
  tableLine "<SOURCE>" 8 "" ++ "\n" ++ tableLine "<DEST>" 8 "" ++ "\n\nOptions:\n" ++
  String.join (copyOptions.map fun (o, h) => "      " ++ o ++ "\n          " ++ h ++ "\n") ++
  "  -h, --help\n          Print help\n"

/-- The text of the help of `validate`. -/
def validateHelp : String :=
  "Check the structure of SOURCE and copy it in memory, reporting every problem\n\n" ++
  "Usage: feedcopy validate [OPTIONS] <SOURCE>\n\nArguments:\n" ++
  tableLine "<SOURCE>" 8 "" ++ "\n\nOptions:\n" ++
  tableLine "    --json" 10 "" ++ "\n" ++ tableLine "-h, --help" 10 "Print help" ++ "\n"

/-- The text of the help of `help`. -/
def helpHelp : String :=
  "Print this message or the help of the given subcommand(s)\n\n" ++
  "Usage: feedcopy help [COMMAND]...\n\nArguments:\n" ++
  tableLine "[COMMAND]..." 12 "Print help for the subcommand(s)" ++ "\n"

/-- A refusal that prints a help text. -/
def showHelp (text : String) : Refusal := { kind := "DisplayHelp", exitCode := 0, message := text }

/-- A problem: its sentence, its tips, and the usage to end with. -/
def problem (kind sentence : String) (tips : List String) (usage : Option String) : Refusal :=
  let tipText := if tips.isEmpty then "" else "\n" ++ String.join (tips.map fun t => "\n  tip: " ++ t)
  let usageText := match usage with
    | some u => "\n\nUsage: " ++ u
    | none => ""
  { kind, exitCode := 2,
    message := "error: " ++ sentence ++ tipText ++ usageText ++ "\n\nFor more information, try '--help'.\n" }

/-- An option of a command: its long name, whether it takes a value, whether it may
come several times, and its name with the value placeholder. -/
structure OptionSpec where
  long : String
  takesValue : Bool := false
  repeatable : Bool := false
  /-- Whether an empty value counts as none. -/
  nonEmpty : Bool := false
  shown : String

/-- The options of `copy`. -/
def copySpecs : List OptionSpec :=
  [{ long := "config", takesValue := true, nonEmpty := true, shown := "--config <CONFIG>" },
   { long := "prefix", takesValue := true, repeatable := true, shown := "--prefix <FILE=PREFIX>" },
   { long := "redate", takesValue := true, shown := "--redate <START:SOURCE_DAYS:TARGET:TARGET_DAYS>" },
   { long := "default-agency", shown := "--default-agency" },
   { long := "fail-fast", shown := "--fail-fast" },
   { long := "allow-entity-errors", shown := "--allow-entity-errors" },
   { long := "create", shown := "--create" },
   { long := "json", shown := "--json" }]

/-- The options of `validate`. -/
def validateSpecs : List OptionSpec := [{ long := "json", shown := "--json" }]

/-- What a command's arguments gave so far: values of positions and options, in the
order they came. -/
structure Given where
  positions : List String := []
  options : List (String × String) := []
  trailing : Bool := false

/-- A command's shape: its name, positions, options and help. -/
structure CommandSpec where
  name : String
  positions : List String
  options : List OptionSpec
  help : String

/-- The shape of `copy`. -/
def copySpec : CommandSpec :=
  { name := "copy", positions := ["SOURCE", "DEST"], options := copySpecs, help := copyHelp }

/-- The shape of `validate`. -/
def validateSpec : CommandSpec :=
  { name := "validate", positions := ["SOURCE"], options := validateSpecs, help := validateHelp }

namespace CommandSpec

/-- The usage line listing every position and an options tag. -/
def fullUsage (c : CommandSpec) : String :=
  "feedcopy " ++ c.name ++ " [OPTIONS]" ++ String.join (c.positions.map fun p => " <" ++ p ++ ">")

/-- The usage line of the required positions and the options given, options first. -/
def usageWith (c : CommandSpec) (options : List String) : String :=
  let shownOptions := options.filterMap fun o => (c.options.find? (·.long == o)).map (·.shown)
  "feedcopy " ++ c.name ++ String.join (shownOptions.eraseDups.map (" " ++ ·)) ++
    String.join (c.positions.map fun p => " <" ++ p ++ ">")

/-- The usage of a problem: the full line when nothing was given yet, else the required
positions with the options given. -/
def usageAfter (c : CommandSpec) (g : Given) (extra : List String) : String :=
  if g.positions.isEmpty && g.options.isEmpty && extra.isEmpty then c.fullUsage
  else c.usageWith ((g.options.map (·.1)) ++ extra)

/-- The long names the command knows, in the order of its options, help last. -/
def longNames (c : CommandSpec) : List String := c.options.map (·.long) ++ ["help"]

/-- Reads the words of a command. -/
def read (c : CommandSpec) (words : List String) : Except Refusal Given :=
  go words {} (words.length + 1)
where
  go (words : List String) (g : Given) : Nat → Except Refusal Given
    | 0 => .ok g
    | fuel + 1 =>
      match words with
      | [] => .ok g
      | w :: rest =>
        let position : Except Refusal Given :=
          if g.positions.length < c.positions.length then .ok { g with positions := g.positions ++ [w] }
          else .error (problem "UnknownArgument" s!"unexpected argument '{w}' found" []
            (some (c.usageAfter g [])))
        if g.trailing then position.bind fun g => go rest g fuel
        else if w == "--" then go rest { g with trailing := true } fuel
        else if w == "--help" || w == "-h" then .error (showHelp c.help)
        else if w.startsWith "--" then
          let body := (w.drop 2).toString
          let (name, attached) := match body.splitOn "=" with
            | [n] => (n, none)
            | n :: vs => (n, some ("=".intercalate vs))
            | [] => (body, none)
          match c.options.find? (·.long == name) with
          | none =>
            match (similarWords name c.longNames).getLast? with
            | some s =>
              .error (problem "UnknownArgument" s!"unexpected argument '{w}' found"
                [s!"a similar argument exists: '--{s}'"] (some (c.usageAfter g [s])))
            | none =>
              .error (problem "UnknownArgument" s!"unexpected argument '{w}' found"
                [s!"to pass '{w}' as a value, use '-- {w}'"] (some (c.usageAfter g [])))
          | some o =>
            let twice := !o.repeatable && g.options.any (·.1 == o.long)
            let conflict := problem "ArgumentConflict" s!"the argument '{o.shown}' cannot be used multiple times" []
              (some c.fullUsage)
            if !o.takesValue then
              match attached with
              | some v =>
                .error (problem "TooManyValues" s!"unexpected value '{v}' for '--{o.long}' found; no more were expected"
                  [] (some (c.usageAfter g [o.long])))
              | none =>
                if twice then .error conflict
                else go rest { g with options := g.options ++ [(o.long, "true")] } fuel
            else
              let missing : Refusal :=
                { kind := "InvalidValue", exitCode := 2,
                  message := s!"error: a value is required for '{o.shown}' but none was supplied\n\nFor more information, try '--help'.\n" }
              let (value, rest) : Option String × List String := match attached with
                | some v => (some v, rest)
                | none =>
                  match rest with
                  | v :: more => if v.startsWith "-" && v.length > 1 then (none, rest) else (some v, more)
                  | [] => (none, [])
              match value with
              | none => .error missing
              | some v =>
                if o.nonEmpty && v.isEmpty then .error missing
                else if twice then .error conflict
                else go rest { g with options := g.options ++ [(o.long, v)] } fuel
        else if w.startsWith "-" && w.length > 1 then
          .error (problem "UnknownArgument" s!"unexpected argument '{w}' found"
            [s!"to pass '{w}' as a value, use '-- {w}'"] (some c.fullUsage))
        else position.bind fun g => go rest g fuel

/-- Checks that every position was given. -/
def complete (c : CommandSpec) (g : Given) : Except Refusal Given :=
  let missing := c.positions.drop g.positions.length
  if missing.isEmpty then .ok g
  else
    .error (problem "MissingRequiredArgument"
      ("the following required arguments were not provided:" ++ String.join (missing.map fun p => "\n  <" ++ p ++ ">"))
      [] (some (c.usageWith (g.options.map (·.1)))))

end CommandSpec

/-- The value of an option, if given. -/
def Given.option? (g : Given) (name : String) : Option String := g.options.lookup name

/-- Whether a switch was given. -/
def Given.flag (g : Given) (name : String) : Bool := (g.options.lookup name).isSome

/-- The names of the commands. -/
def commandNames : List String := ["copy", "validate", "help"]

/-- The help of a command named after `help`. -/
def helpOf (words : List String) : Refusal :=
  match words with
  | [] => showHelp mainHelp
  | w :: _ =>
    if w == "copy" then showHelp copyHelp
    else if w == "validate" then showHelp validateHelp
    else if w == "help" then showHelp helpHelp
    else problem "InvalidSubcommand" s!"unrecognized subcommand '{w}'" [] (some "feedcopy <COMMAND>")

/-- Reads a command line, the program name left out. -/
def parseCommand (words : List String) : Except Refusal Command :=
  match words with
  | [] =>
    .error { kind := "DisplayHelpOnMissingArgumentOrSubcommand", exitCode := 2, message := mainHelp }
  | w :: rest =>
    if w == "--help" || w == "-h" then .error (showHelp mainHelp)
    else if w == "--version" || w == "-V" then
      .error { kind := "DisplayVersion", exitCode := 0, message := programName ++ " " ++ programVersion ++ "\n" }
    else if w == "copy" then do
      let g ← copySpec.read rest
      let g ← copySpec.complete g
      return .copy {
        source := g.positions.getD 0 "", dest := g.positions.getD 1 "",
        config := g.option? "config",
        prefixes := (g.options.filter (·.1 == "prefix")).map (·.2),
        redate := g.option? "redate",
        defaultAgency := g.flag "default-agency", failFast := g.flag "fail-fast",
        allowEntityErrors := g.flag "allow-entity-errors", create := g.flag "create",
        json := g.flag "json" }
    else if w == "validate" then do
      let g ← validateSpec.read rest
      let g ← validateSpec.complete g
      return .validate (g.positions.getD 0 "") (g.flag "json")
    else if w == "help" then .error (helpOf rest)
    else if w.startsWith "--" then
      let name := (((w.drop 2).toString.splitOn "=").headD "")
      match (similarWords name ["help", "version"]).getLast? with
      | some s =>
        .error (problem "UnknownArgument" s!"unexpected argument '{w}' found"
          [s!"a similar argument exists: '--{s}'"] (some "feedcopy <COMMAND>"))
      | none =>
        .error (problem "UnknownArgument" s!"unexpected argument '{w}' found" [] (some "feedcopy <COMMAND>"))
    else if w.startsWith "-" && w.length > 1 then
      .error (problem "UnknownArgument" s!"unexpected argument '{w}' found" [] (some "feedcopy <COMMAND>"))
    else
      match similarWords w commandNames with
      | [] => .error (problem "InvalidSubcommand" s!"unrecognized subcommand '{w}'" [] (some "feedcopy <COMMAND>"))
      | found =>
        let names := ", ".intercalate (found.map fun s => "'" ++ s ++ "'")
        let tip := if found.length = 1 then s!"a similar subcommand exists: {names}" else s!"some similar subcommands exist: {names}"
        .error (problem "InvalidSubcommand" s!"unrecognized subcommand '{w}'"
          [tip, s!"to pass '{w}' as a value, use 'feedcopy -- {w}'"] (some "feedcopy <COMMAND>"))

end TransitFeed.Cli

import TransitFeed.Config.Basic
import TransitFeed.Json.Field

/-!
# Reading configurations

A configuration is a JSON object with `options` and `filters`, both optional, or a list
of the two in that order. Options may leave any field out. Each stage is an object whose
`type` member names it, next to the stage's parameters, or a list whose first item is
the name and whose other items are the parameters in order; members other than those
of the stage are ignored.

A stage's parameters are gathered before they are checked, so a fault in them is placed
after the whole list of stages, while a fault in its name is placed right after the name.
-/

namespace TransitFeed.JsonRead

/-- How a fault names a document value it did not expect. -/
def describe : Json → String
  | .null => "null"
  | .bool b => s!"boolean `{b}`"
  | .int n => s!"integer `{n}`"
  | .num x => s!"floating point `{Number.shortText x}`"
  | .str s => "string " ++ quoted s
  | .arr _ => "sequence"
  | .obj _ => "map"

/-- The fault of a document value of the wrong type. -/
def wrongType (v : Json) (expected : String) : String :=
  s!"invalid type: {describe v}, expected {expected}"

/-- A date parameter. -/
def dateParameter (v : Json) : Except String Date :=
  match v with
  | .str s =>
    match Date.read DateItem.isoBlanks s with
    | .ok d => .ok d
    | .error e => .error e.message
  | _ => .error (wrongType v "a formatted date string")

/-- A day count parameter. -/
def daysParameter (v : Json) : Except String Int :=
  match v with
  | .int n =>
    if IntRange.i64.contains n then .ok n
    else .error s!"invalid value: integer `{n}`, expected i64"
  | _ => .error (wrongType v "i64")

/-- The prefixes parameter: a map of texts, a later key replacing an earlier one. -/
def prefixesParameter (v : Json) : Except String (List (String × String)) :=
  match v with
  | .obj members =>
    members.foldlM (fun acc (k, x) =>
      match x with
      | .str p => .ok (StageConfig.insertSorted k p acc)
      | _ => .error (wrongType x "a string")) []
  | _ => .error (wrongType v "a map")

/-- The fault of a list with more items than its reader took. -/
def longList (total taken : Nat) : String :=
  let items := if taken == 1 then "1 element" else s!"{taken} elements"
  s!"invalid length {total}, expected {items} in sequence"

/-- A checked parameter of a stage. -/
inductive Parameter where
  | date (d : Date)
  | days (n : Int)
  | prefixes (ps : List (String × String))

/-- Checks the parameter of a name. -/
def checkParameter (name : String) (v : Json) : Except String Parameter :=
  match name with
  | "start_date" | "target_date" => (dateParameter v).map .date
  | "source_days" | "target_days" => (daysParameter v).map .days
  | _ => (prefixesParameter v).map .prefixes

/-- Checks the members of a stage's object in order: each parameter at most once, other
members ignored. -/
def collect (fields : List String) :
    List (String × Json) → List (String × Parameter) → Except String (List (String × Parameter))
  | [], acc => .ok acc
  | (k, v) :: rest, acc =>
    if fields.contains k then
      if acc.any (·.1 == k) then .error s!"duplicate field `{k}`"
      else do
        let p ← checkParameter k v
        collect fields rest ((k, p) :: acc)
    else collect fields rest acc

/-- A parameter by name, or the fault of its absence. -/
def parameter (ps : List (String × Parameter)) (name : String) : Except String Parameter :=
  match ps.lookup name with
  | some v => .ok v
  | none => .error s!"missing field `{name}`"

/-- A date parameter by name. -/
def dateNamed (ps : List (String × Parameter)) (name : String) : Except String Date := do
  match ← parameter ps name with
  | .date d => return d
  | _ => .error s!"missing field `{name}`"

/-- A day count parameter by name. -/
def daysNamed (ps : List (String × Parameter)) (name : String) : Except String Int := do
  match ← parameter ps name with
  | .days n => return n
  | _ => .error s!"missing field `{name}`"

/-- A stage with parameters, from its object. -/
def stageOfMembers (tag : Nat) (members : List (String × Json)) : Except String StageConfig :=
  match tag with
  | 0 => do
    let ps ← collect ["prefixes"] members []
    match ← parameter ps "prefixes" with
    | .prefixes p => return .rename p
    | _ => .error "missing field `prefixes`"
  | 1 => do
    let ps ← collect ["start_date", "source_days", "target_date", "target_days"] members []
    return .redate (← dateNamed ps "start_date") (← daysNamed ps "source_days")
      (← dateNamed ps "target_date") (← daysNamed ps "target_days")
  | 2 => .ok .defaultAgency
  | 3 => .ok .agencyTimezone
  | 4 => .ok .network
  | 5 => .ok .implicitService
  | _ => .ok .shapeDist

/-- A stage with parameters, from the items after its name. -/
def stageOfItems (tag : Nat) (items : List Json) : Except String StageConfig :=
  let short (i n : Nat) (variant : String) : String :=
    let plural := if n == 1 then "" else "s"
    s!"invalid length {i}, expected struct variant FilterConfig::{variant} with {n} element{plural}"
  let exact (n : Nat) (v : Except String StageConfig) : Except String StageConfig :=
    if items.length > n then .error (longList items.length n) else v
  match tag with
  | 0 =>
    match items with
    | [] => .error (short 0 1 "Prefix")
    | p :: _ => do
      let prefixes ← prefixesParameter p
      exact 1 (.ok (.rename prefixes))
  | 1 => do
    let start ← match items with
      | v :: _ => dateParameter v
      | [] => .error (short 0 4 "Redate")
    let sd ← match items.drop 1 with
      | v :: _ => daysParameter v
      | [] => .error (short 1 4 "Redate")
    let target ← match items.drop 2 with
      | v :: _ => dateParameter v
      | [] => .error (short 2 4 "Redate")
    let td ← match items.drop 3 with
      | v :: _ => daysParameter v
      | [] => .error (short 3 4 "Redate")
    exact 4 (.ok (.redate start sd target td))
  | _ => exact 0 (stageOfMembers tag [])

/-- The fault of an unknown stage name. -/
def unknownStage (s : String) : String :=
  let names := String.intercalate ", " (StageConfig.names.map fun n => "`" ++ n ++ "`")
  s!"unknown variant `{s}`, expected one of {names}"

/-- Reads a stage name. -/
def readStageName : Reader Nat :=
  readText "variant identifier" fun s =>
    match StageConfig.names.idxOf? s with
    | some i => if i < StageConfig.names.length then .ok i else .error (unknownStage s)
    | none => .error (unknownStage s)

/-- Reads the members of a stage's object: its name and its other members. -/
def readStageMembers : Reader (Nat × Json) := do
  go (← fuel) true none []
where
  go : Nat → Bool → Option Nat → List (String × Json) → Reader (Nat × Json)
    | 0, _, _, _ => failValue "missing field `type`"
    | fuel + 1, first, tag, acc => do
      match ← nextKey first with
      | none =>
        match tag with
        | some t => return (t, .obj acc.reverse)
        | none => failValue "missing field `type`"
      | some k =>
        if k == "type" then
          if tag.isSome then failValue "duplicate field `type`"
          else
            colon
            let t ← readStageName
            go fuel false (some t) acc
        else
          colon
          let v ← anyValue (← JsonRead.fuel)
          go fuel false tag ((k, v) :: acc)

/-- Reads the items of a stage's list: its name first. -/
def readStageItems : Reader (Nat × Json) := do
  if ← nextItem true then
    let t ← readStageName
    let rest ← anyItems (← fuel) false
    return (t, .arr rest)
  else failValue "missing field `type`"

/-- Reads one stage. -/
def readStage : Reader StageConfig := do
  let (tag, content) ← do
    match ← blanks with
    | none => failAhead "EOF while parsing a value"
    | some c =>
      placed do
        if c = '{' then nested readStageMembers endObject
        else if c = '[' then nested readStageItems endList
        else unexpected "internally tagged enum FilterConfig"
  let stage := match content with
    | .arr items => stageOfItems tag items
    | .obj members => stageOfMembers tag members
    | _ => stageOfMembers tag []
  match stage with
  | .ok s => return s
  | .error m => failValue m

/-- A stage name given as a document value. -/
def stageNameOf (v : Json) : Except String Nat :=
  match v with
  | .str s =>
    match StageConfig.names.idxOf? s with
    | some i => if i < StageConfig.names.length then .ok i else .error (unknownStage s)
    | none => .error (unknownStage s)
  | _ => .error (wrongType v "variant identifier")

/-- A stage from an already parsed document, whose faults have no place. -/
def stageOfDocument (v : Json) : Except String StageConfig :=
  match v with
  | .obj members => do
    match members.lookup "type" with
    | none => .error "missing field `type`"
    | some t =>
      let tag ← stageNameOf t
      stageOfMembers tag (members.filter (·.1 != "type"))
  | .arr (t :: rest) => do stageOfItems (← stageNameOf t) rest
  | .arr [] => .error "missing field `type`"
  | _ => .error (wrongType v "internally tagged enum FilterConfig")

/-- The stages of an already parsed document, a list. -/
def stagesOfDocument (v : Json) : Except String (List StageConfig) :=
  match v with
  | .arr items => items.mapM stageOfDocument
  | _ => .error (wrongType v "a sequence")

/-- The option fields, in order. -/
def optionNames : List String :=
  ["buffer_size", "batch_size", "fail_fast", "allow_entity_errors", "error_limit"]

/-- The value of an option field. -/
inductive OptionValue where
  | size (n : Nat)
  | flag (b : Bool)

/-- Reads the option field of an index. -/
def readOptionValue (i : Nat) : Reader OptionValue :=
  if i = 2 ∨ i = 3 then do return .flag (← readBool)
  else do return .size (← readInteger "usize" IntRange.u64).toNat

/-- Sets an option field. -/
def setOption (o : CopyOptions) : Nat × OptionValue → CopyOptions
  | (0, .size n) => { o with bufferSize := n }
  | (1, .size n) => { o with batchSize := n }
  | (2, .flag b) => { o with failFast := b }
  | (3, .flag b) => { o with allowEntityErrors := b }
  | (4, .size n) => { o with errorLimit := n }
  | _ => o

/-- Reads copy options; absent fields keep their defaults. -/
def readOptions : Reader CopyOptions :=
  readRecord "struct CopierOptions"
    (do return (← readMembers optionNames readOptionValue).foldl setOption {})
    (do return ((← readItems 5 readOptionValue).zipIdx.map fun (v, i) => (i, v)).foldl setOption {})

/-- The value of a configuration field. -/
inductive ConfigValue where
  | options (o : CopyOptions)
  | stages (s : List StageConfig)

/-- Reads the configuration field of an index. -/
def readConfigValue (i : Nat) : Reader ConfigValue :=
  if i = 0 then do return .options (← readOptions)
  else do return .stages (← readList readStage)

/-- Sets a configuration field. -/
def setConfig (c : Configuration) : ConfigValue → Configuration
  | .options o => { c with options := o }
  | .stages s => { c with stages := s }

/-- Reads a configuration; absent fields keep their defaults. -/
def readConfiguration : Reader Configuration :=
  readRecord "struct Configuration"
    (do return (← readMembers ["options", "filters"] readConfigValue).foldl (fun c (_, v) => setConfig c v) {})
    (do return (← readItems 2 readConfigValue).foldl setConfig {})

end TransitFeed.JsonRead

namespace TransitFeed.Configuration

/-- Reads a configuration from its JSON text. -/
def decode (s : String) : Except JsonRead.Fault Configuration :=
  JsonRead.readAll JsonRead.readConfiguration s

end TransitFeed.Configuration

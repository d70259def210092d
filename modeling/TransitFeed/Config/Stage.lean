import TransitFeed.Stage.Pipeline
import TransitFeed.Feed.Error
import TransitFeed.Text.Integer

/-!
# Stages as configurations name them

A configuration lists its stages by name, with the parameters of the two that take
some: the prefixes of `prefix`, one per collection, and the two windows of `redate`.
Building a stage from its configuration starts it with an empty state; a redating whose
windows are empty cannot be built.

The command line names the same stages in short forms: `FILE=PREFIX`, where `FILE` may
leave out its `.txt`, and `START:SOURCE_DAYS:TARGET:TARGET_DAYS` with `YYYYMMDD` dates.
-/

namespace TransitFeed

/-- One stage as a configuration names it. -/
inductive StageConfig where
  /-- Prefixes by collection file name, in byte order of the names, one per name. -/
  | rename (prefixes : List (String × String))
  | redate (start : Date) (sourceDays : Int) (target : Date) (targetDays : Int)
  | defaultAgency
  | agencyTimezone
  | network
  | implicitService
  | shapeDist
  deriving DecidableEq, Repr, Inhabited

/-- Why a request failed: an error of the library or a plain reason, under the contexts
it was reported through, outermost first. -/
inductive Failure where
  | feed (contexts : List String) (error : FeedError)
  | plain (contexts : List String) (reason : String)
  deriving Repr, Inhabited

namespace Failure

/-- The kind of a failure: the library error's kind, or `Invalid`. -/
def kind : Failure → String
  | .feed _ e => e.variantName
  | .plain _ _ => "Invalid"

/-- The contexts of a failure, outermost first. -/
def contexts : Failure → List String
  | .feed cs _ => cs
  | .plain cs _ => cs

/-- The whole text: each context, then the cause with its own causes, after `": "`. -/
def text (f : Failure) : String :=
  let cause := match f with
    | .feed _ e => e.chain
    | .plain _ r => r
  String.intercalate ": " (f.contexts ++ [cause])

/-- The failure reported through one more context. -/
def within (context : String) : Failure → Failure
  | .feed cs e => .feed (context :: cs) e
  | .plain cs r => .plain (context :: cs) r

end Failure

namespace StageConfig

/-- The names of the stages, in the order configurations list them. -/
def names : List String :=
  ["prefix", "redate", "default_agency", "agency_timezone", "network", "implicit_service",
    "shape_dist"]

/-- The name of a stage. -/
def name : StageConfig → String
  | .rename _ => "prefix"
  | .redate .. => "redate"
  | .defaultAgency => "default_agency"
  | .agencyTimezone => "agency_timezone"
  | .network => "network"
  | .implicitService => "implicit_service"
  | .shapeDist => "shape_dist"

/-- Sets a key of a list kept in byte order of its keys, replacing an earlier value. -/
def insertSorted (k v : String) : List (String × String) → List (String × String)
  | [] => [(k, v)]
  | (k', v') :: rest =>
    if k = k' then (k, v) :: rest
    else if k < k' then (k, v) :: (k', v') :: rest
    else (k', v') :: insertSorted k v rest

/-- Starts the stage. -/
def build : StageConfig → Except FeedError Stage
  | .rename ps => .ok (.rename (ps.foldl (fun p (c, x) => p.insert c x) {}))
  | .redate start sd target td =>
    match Redate.make? start sd target td with
    | .ok r => .ok (.redate r)
    | .error m => .error (.invalidConfiguration m)
  | .defaultAgency => .ok (.defaultAgency {})
  | .agencyTimezone => .ok (.agencyTimezone {})
  | .network => .ok (.network {})
  | .implicitService => .ok (.implicitService {})
  | .shapeDist => .ok (.shapeDist {})

/-- Starts every stage in order; the first that cannot be built fails the whole list. -/
def buildAll : List StageConfig → Except FeedError Pipeline
  | [] => .ok {}
  | c :: rest => do
    let st ← c.build
    let p ← buildAll rest
    return ⟨st :: p.stages⟩

/-- Reads `FILE=PREFIX`: both sides non-empty, split at the first `=`. -/
def parsePrefix (arg : String) : Except Failure StageConfig :=
  let fault : Except Failure StageConfig := .error (.plain [] s!"expected FILE=PREFIX, got '{arg}'")
  match arg.splitOn "=" with
  | c :: p :: more =>
    let pre := String.intercalate "=" (p :: more)
    if c.isEmpty || pre.isEmpty then fault
    else
      let collection := if c.endsWith ".txt" then c else c ++ ".txt"
      .ok (.rename [(collection, pre)])
  | _ => fault

/-- Reads a `YYYYMMDD` date of the command line. -/
def parseDate (s : String) : Except Failure Date :=
  match Date.read DateItem.compact s with
  | .ok d => .ok d
  | .error e => .error (.plain [s!"'{s}' is not a YYYYMMDD date"] e.message)

/-- Reads a number of days of the command line. -/
def parseDays (s : String) : Except Failure Int :=
  match readDecimal IntRange.i64 s with
  | .ok n => .ok n
  | .error e => .error (.plain [s!"'{s}' is not a number of days"] e.message)

/-- Reads `START:SOURCE_DAYS:TARGET:TARGET_DAYS`. -/
def parseRedate (arg : String) : Except Failure StageConfig :=
  match arg.splitOn ":" with
  | [start, sd, target, td] => do
    let start ← parseDate start
    let sd ← parseDays sd
    let target ← parseDate target
    let td ← parseDays td
    return .redate start sd target td
  | _ => .error (.plain [] s!"expected START:SOURCE_DAYS:TARGET:TARGET_DAYS, got '{arg}'")

end StageConfig

end TransitFeed

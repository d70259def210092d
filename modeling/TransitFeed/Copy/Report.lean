import TransitFeed.Feed.Kind
import TransitFeed.Feed.Issue

/-!
# Copy reports

A copy reports, for every collection something happened to, how many items it read
(unreadable rows included), wrote (created records included) and dropped, how many
problems of each kind dropped records had, and how many warnings were raised. Only the
first problems and warnings, up to a limit, are kept in detail; the counts are exact.

The text form is a table of the counts, then the kept problems and warnings of each
collection that has some, then a closing line with the totals.
-/

namespace TransitFeed

/-- The place of a kind of problem in report order. -/
def IssueKind.rank (k : IssueKind) : Nat := IssueKind.all.idxOf k

/-- What happened to one collection. -/
structure CollectionReport where
  kind : Kind
  read : Nat := 0
  written : Nat := 0
  dropped : Nat := 0
  /-- Problem counts per kind, in report order, only the kinds met. -/
  errorsByKind : List (IssueKind × Nat) := []
  warningCount : Nat := 0
  /-- The first problems, up to the limit. -/
  errors : List Issue := []
  /-- The first warnings, up to the limit. -/
  warnings : List Issue := []
  deriving Inhabited

namespace CollectionReport

/-- Adds one to the count of a kind, keeping report order. -/
def bump (k : IssueKind) : List (IssueKind × Nat) → List (IssueKind × Nat)
  | [] => [(k, 1)]
  | (k', n) :: rest =>
    if k = k' then (k', n + 1) :: rest
    else if k.rank < k'.rank then (k, 1) :: (k', n) :: rest
    else (k', n) :: bump k rest

/-- The number of problems of every kind. -/
def errorCount (c : CollectionReport) : Nat := (c.errorsByKind.map (·.2)).foldr (· + ·) 0

/-- Counts a problem, keeping it while fewer than `limit` are kept. -/
def addError (c : CollectionReport) (i : Issue) (limit : Nat) : CollectionReport :=
  { c with
    errorsByKind := bump i.kind c.errorsByKind
    errors := if c.errors.length < limit then c.errors ++ [i] else c.errors }

/-- Counts a warning, keeping it while fewer than `limit` are kept. -/
def addWarning (c : CollectionReport) (i : Issue) (limit : Nat) : CollectionReport :=
  { c with
    warningCount := c.warningCount + 1
    warnings := if c.warnings.length < limit then c.warnings ++ [i] else c.warnings }

end CollectionReport

/-- How a copy that did not fail ended. -/
inductive CopyStatus where
  | completed
  | cancelled
  deriving DecidableEq, Repr, Inhabited

/-- The word for a status. -/
def CopyStatus.name : CopyStatus → String
  | .completed => "completed"
  | .cancelled => "cancelled"

/-- The outcome of a copy that did not fail. -/
structure CopyResult where
  status : CopyStatus
  /-- In processing order, only the collections something happened to. -/
  collections : List CollectionReport
  deriving Inhabited

namespace CopyResult

/-- Problems of every collection. -/
def errorCount (r : CopyResult) : Nat := (r.collections.map CollectionReport.errorCount).foldr (· + ·) 0

/-- Warnings of every collection. -/
def warningCount (r : CopyResult) : Nat := (r.collections.map (·.warningCount)).foldr (· + ·) 0

end CopyResult

/-- A text padded with blanks on the right to a width. -/
def padRight (width : Nat) (s : String) : String :=
  s ++ String.ofList (List.replicate (width - s.length) ' ')

/-- A text padded with blanks on the left to a width. -/
def padLeft (width : Nat) (s : String) : String :=
  String.ofList (List.replicate (width - s.length) ' ') ++ s

/-- One line of the count table. -/
def countLine (name read written dropped errors warnings : String) : String :=
  padRight 22 name ++ " " ++ padLeft 9 read ++ " " ++ padLeft 9 written ++ " " ++
    padLeft 9 dropped ++ " " ++ padLeft 8 errors ++ " " ++ padLeft 9 warnings ++ "\n"

/-- The detail of one collection: counts per kind, kept problems and warnings. -/
def CollectionReport.detail (c : CollectionReport) : String :=
  "\n" ++ c.kind.fileName ++ "\n" ++
    String.join (c.errorsByKind.map fun (k, n) => s!"  {n} {k.name} error(s)\n") ++
    String.join (c.errors.map fun i => "  error: " ++ i.render ++ "\n") ++
    (if c.errors.length < c.errorCount then s!"  ... {c.errorCount - c.errors.length} more\n" else "") ++
    String.join (c.warnings.map fun i => "  warning: " ++ i.render ++ "\n") ++
    (if c.warnings.length < c.warningCount then s!"  ... {c.warningCount - c.warnings.length} more\n"
     else "")

/-- The text report of a copy. -/
def CopyResult.text (r : CopyResult) : String :=
  countLine "collection" "read" "written" "dropped" "errors" "warnings" ++
    String.join (r.collections.map fun c =>
      countLine c.kind.fileName (toString c.read) (toString c.written) (toString c.dropped)
        (toString c.errorCount) (toString c.warningCount)) ++
    String.join ((r.collections.filter fun c => c.errorCount != 0 || c.warningCount != 0).map
      CollectionReport.detail) ++
    s!"\n{r.status.name}: {r.errorCount} error(s), {r.warningCount} warning(s)\n"

end TransitFeed

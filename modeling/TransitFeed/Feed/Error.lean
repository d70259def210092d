import TransitFeed.Feed.Issue

/-!
# Errors that stop a copy

Unlike a problem of one record, these errors end the whole operation: a file or column
that a feed must have is missing, a store cannot be opened, a configuration is invalid,
or the copy was asked to stop at the first problem of a record.
-/

namespace TransitFeed

/-- An error that ends the whole operation. -/
inductive FeedError where
  | missingFile (file : String)
  | emptyFile (file : String)
  | missingColumn (file column : String)
  | duplicateColumn (file column : String)
  | unknownCollection (name : String)
  | notFileNorDirectory (path : String)
  | unsupportedAdapter (location : String)
  | invalidConfiguration (reason : String)
  | invalidTime (text : String)
  | invalidColor (text : String)
  /-- A problem of a record, raised when the copy stops at the first one. -/
  | entity (collection : String) (issue : Issue)
  /-- A read or write of the file system that failed, with the cause. -/
  | io (cause : String)
  /-- A file that could not be read, with the cause. -/
  | namedFileIo (file cause : String)
  /-- A tabular file that could not be read, with the cause. -/
  | csv (file cause : String)
  /-- An archive that could not be read. -/
  | zip (message : String)
  /-- A relational store that refused an operation. -/
  | sqlite (message : String)
  deriving DecidableEq, Repr, Inhabited

namespace FeedError

/-- The name of the kind of an error. -/
def variantName : FeedError → String
  | .missingFile .. => "MissingFile"
  | .emptyFile .. => "EmptyFile"
  | .missingColumn .. => "MissingColumn"
  | .duplicateColumn .. => "DuplicateColumn"
  | .unknownCollection .. => "UnknownCollection"
  | .notFileNorDirectory .. => "NotFileNorDirectory"
  | .unsupportedAdapter .. => "UnsupportedAdapter"
  | .invalidConfiguration .. => "InvalidConfiguration"
  | .invalidTime .. => "InvalidTime"
  | .invalidColor .. => "InvalidColor"
  | .entity .. => "Entity"
  | .io .. => "IO"
  | .namedFileIo .. => "NamedFileIO"
  | .csv .. => "CSVError"
  | .zip .. => "Zip"
  | .sqlite .. => "Sqlite"

/-- The sentence that describes an error. -/
def message : FeedError → String
  | .missingFile f => "Cound not find file " ++ f
  | .emptyFile f => "file " ++ f ++ " is empty"
  | .missingColumn f c => "file " ++ f ++ " has no column " ++ c
  | .duplicateColumn f c => "file " ++ f ++ " has duplicate column " ++ c
  | .unknownCollection n => "unknown collection " ++ n
  | .notFileNorDirectory p => "Could not read GTFS: " ++ p ++ " is neither a file nor a directory"
  | .unsupportedAdapter l => "no adapter can handle '" ++ l ++ "'"
  | .invalidConfiguration r => "invalid configuration: " ++ r
  | .invalidTime t => "'" ++ t ++ "' is not a valid time; HH:MM:SS format is expected."
  | .invalidColor t =>
    "'" ++ t ++ "' is not a valid color; RRGGBB format is expected, without a leading `#`"
  | .entity c i => c ++ ": " ++ i.render
  | .io _ => "impossible to read file"
  | .namedFileIo f _ => "impossible to read '" ++ f ++ "'"
  | .csv f _ => "impossible to read csv file '" ++ f ++ "'"
  | .zip m => m
  | .sqlite m => m

/-- The error followed by its causes, each after `": "`. -/
def chain (e : FeedError) : String :=
  match e with
  | .namedFileIo _ cause => e.message ++ ": " ++ cause
  | .csv _ cause => e.message ++ ": " ++ cause
  | .io cause => e.message ++ ": " ++ cause
  | _ => e.message

end FeedError

end TransitFeed

/-!
# Copy options

How a copy behaves: the queue and batch sizes, whether the first problem of a record
stops the copy, whether records that fail their checks are still copied (their problems
then count as warnings), and how many problems each collection keeps in detail; the
counts themselves are never capped.
-/

namespace TransitFeed

/-- How a copy behaves. -/
structure CopyOptions where
  bufferSize : Nat := 1000
  batchSize : Nat := 1000
  failFast : Bool := false
  allowEntityErrors : Bool := false
  errorLimit : Nat := 100
  deriving DecidableEq, Repr, Inhabited

end TransitFeed

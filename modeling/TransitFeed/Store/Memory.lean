import TransitFeed.Copy.Engine

/-!
# Feeds in memory

A feed in memory keeps the records of each collection in the order they came. As a
source it hands out each collection it has; as a destination it appends what it is
given and keeps the identifiers as they are.
-/

namespace TransitFeed

/-- The records of each collection, in order; only collections with records appear. -/
structure MemoryFeed where
  collections : List (Kind × List Record) := []
  deriving Inhabited

namespace MemoryFeed

/-- The records of a collection. -/
def records (f : MemoryFeed) (k : Kind) : List Record := (f.collections.lookup k).getD []

/-- Appends a record to its collection, creating the collection at the end. -/
def push (f : MemoryFeed) (r : Record) : MemoryFeed :=
  if f.collections.any (·.1 == r.kind) then
    ⟨f.collections.map fun (k, rs) => if k == r.kind then (k, rs ++ [r]) else (k, rs)⟩
  else ⟨f.collections ++ [(r.kind, [r])]⟩

/-- A feed of records, grouped by collection in the order they come. -/
def ofRecords (rs : List Record) : MemoryFeed := rs.foldl push {}

/-- The stop times whose trip is, or is not, among the given ones. -/
def stopTimes (f : MemoryFeed) (trips : List String) (among : Bool) : Option Stream :=
  match f.collections.lookup .stopTime with
  | none => none
  | some sts =>
    some { items := (sts.filter fun r => trips.contains (r.str "trip_id") == among).map .ok }

/-- The feed as a source. -/
def source (f : MemoryFeed) : Source where
  read k := .ok ((f.collections.lookup k).map fun rs => { items := rs.map .ok })
  stopTimesOf trips := .ok (f.stopTimes trips true)
  stopTimesNotOf trips := .ok (f.stopTimes trips false)

/-- A feed as a destination: records are appended, identifiers kept. -/
def sink : Sink MemoryFeed where
  add f r := .ok (f.push r, r.entityId)
  addAll f rs := .ok (rs.foldl push f, rs.map Record.entityId)

end MemoryFeed

end TransitFeed

import TransitFeed.Feed.Record

/-!
# Prefixing identifiers

Feeds whose identifiers collide are merged by prefixing the identifiers of some
collections. A collection's prefix applies to every record of it with a non-empty
identifier; references are left alone, since they reach the new identifiers through the
identifier map. Zones are no collection, so the prefix of `stops.txt` also goes before
the non-empty zones of stops and fare rules.
-/

namespace TransitFeed

/-- The prefix of each collection, by file name. -/
structure Prefixes where
  entries : List (String × String) := []
  deriving Repr, Inhabited

namespace Prefixes

/-- Sets the prefix of a collection, replacing any earlier one. -/
def insert (p : Prefixes) (collection pre : String) : Prefixes :=
  ⟨(collection, pre) :: p.entries.filter (·.1 != collection)⟩

/-- The non-empty prefix of a collection, if it has one. -/
def lookup? (p : Prefixes) (collection : String) : Option String :=
  match p.entries.find? (·.1 == collection) with
  | some (_, pre) => if pre.isEmpty then none else some pre
  | none => none

/-- Prefixes an optional text column when it holds a non-empty text. -/
def prefixCell (pre : String) (r : Record) (column : String) : Record :=
  match r.cell column with
  | some (.text v) => if v.isEmpty then r else r.setCell column (some (.text (pre ++ v)))
  | _ => r

/-- Prefixes the identifier of a record and, with a stop prefix, its zones. -/
def apply (p : Prefixes) (r : Record) : Record :=
  let r :=
    match p.lookup? r.kind.fileName with
    | some pre => if r.entityId.isEmpty then r else r.setEntityId (pre ++ r.entityId)
    | none => r
  match p.lookup? Kind.stop.fileName with
  | none => r
  | some zone =>
    match r.kind with
    | .stop => prefixCell zone r "zone_id"
    | .fareRule =>
      prefixCell zone (prefixCell zone (prefixCell zone r "origin_id") "destination_id") "contains_id"
    | _ => r

end Prefixes

end TransitFeed

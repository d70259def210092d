import TransitFeed.Feed.Record

/-!
# Remapping references

When a record is copied, each of its filled reference columns is replaced by the new
identifier of the record it refers to. Either every reference resolves and all are
replaced, or the first that does not resolve (in column order) is a `reference` problem
and the record is left as it was. A reference remapped to the empty text makes an
optional column absent.
-/

namespace TransitFeed

/-- New identifiers of copied records, by kind and old identifier. -/
abbrev KeyLookup := Kind → String → Option String

namespace Record

/-- The new identifiers of the filled reference columns, or the first that is missing. -/
def resolveKeys (r : Record) (lookup : KeyLookup) :
    List (Column × Cell) → Except Issue (List (Column × String))
  | [] => .ok []
  | (col, cell) :: rest =>
    match col.target with
    | none => r.resolveKeys lookup rest
    | some target =>
      if !Cell.present col.optional cell then r.resolveKeys lookup rest
      else
        let old := cell.toText
        match lookup target old with
        | none => .error ((Issue.reference col.name old target.fileName).atLine r.line)
        | some new => (r.resolveKeys lookup rest).map ((col, new) :: ·)

/-- Replaces every filled reference by the new identifier of its target. -/
def updateKeys (r : Record) (lookup : KeyLookup) : Except Issue Record :=
  match r.resolveKeys lookup (r.kind.columns.zip r.cells) with
  | .error e => .error e
  | .ok resolved =>
    .ok (resolved.foldl (fun r (col, new) =>
      match Cell.parse col.type col.optional new with
      | .ok c => r.setCell col.name c
      | .error _ => r) r)

end Record

end TransitFeed

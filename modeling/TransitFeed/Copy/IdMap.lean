import Std.Data.TreeMap

/-!
# The identifier map of a copy

While a feed is copied, the map remembers for each collection which new identifier each
old identifier was given, and the geometry of the copied stops (a point per stop) and
shapes (a line per shape). The points of a shape are kept sorted by their sequence
number, points of equal sequence in the order they were added; adding a point tells
whether its sequence number was new for the shape.

The identifiers of a collection are listed in byte order of the old identifiers.
-/

namespace TransitFeed

/-- A point as longitude and latitude. -/
abbrev Point := Float × Float

/-- A point of a shape with its sequence number. -/
structure ShapePoint where
  sequence : Nat
  point : Point
  deriving Inhabited

/-- Inserts a point after every point whose sequence is not larger. -/
def insertShapePoint (p : ShapePoint) : List ShapePoint → List ShapePoint
  | [] => [p]
  | q :: rest => if q.sequence ≤ p.sequence then q :: insertShapePoint p rest else p :: q :: rest

/-- Old to new identifiers per collection, and the geometry of stops and shapes. -/
structure IdMap where
  ids : Std.TreeMap String (Std.TreeMap String String) := {}
  stops : Std.TreeMap String Point := {}
  shapes : Std.TreeMap String (List ShapePoint) := {}
  deriving Inhabited

namespace IdMap

/-- The map that knows nothing. -/
def empty : IdMap := {}

/-- Records the new identifier of an old one; a later record of the same one wins. -/
def set (m : IdMap) (collection old new : String) : IdMap :=
  let inner := (m.ids.get? collection).getD {}
  { m with ids := m.ids.insert collection (inner.insert old new) }

/-- The new identifier of an old one. -/
def get? (m : IdMap) (collection old : String) : Option String :=
  (m.ids.get? collection).bind (·.get? old)

/-- Whether an old identifier has a new one. -/
def contains (m : IdMap) (collection old : String) : Bool := (m.get? collection old).isSome

/-- The old identifiers of a collection, in byte order. -/
def keysFor (m : IdMap) (collection : String) : List String :=
  ((m.ids.get? collection).map (·.keys)).getD []

/-- The old and new identifiers of a collection, in byte order of the old. -/
def entriesFor (m : IdMap) (collection : String) : List (String × String) :=
  ((m.ids.get? collection).map (·.toList)).getD []

/-- The number of identifiers of a collection. -/
def size (m : IdMap) (collection : String) : Nat := ((m.ids.get? collection).map (·.size)).getD 0

/-- The collections that have identifiers, in byte order. -/
def collections (m : IdMap) : List String := m.ids.keys

/-- Adds the entries of another map; where both know an identifier or a geometry, the
other map wins, and a shape is replaced as a whole. -/
def merge (m other : IdMap) : IdMap :=
  { ids := other.ids.foldl (fun ids c inner =>
      let own := (ids.get? c).getD {}
      ids.insert c (inner.foldl (fun own o n => own.insert o n) own)) m.ids
    stops := other.stops.foldl (fun s k v => s.insert k v) m.stops
    shapes := other.shapes.foldl (fun s k v => s.insert k v) m.shapes }

/-- The point of a copied stop. -/
def stopPoint? (m : IdMap) (stop : String) : Option Point := m.stops.get? stop

/-- Records the point of a stop. -/
def addStopPoint (m : IdMap) (stop : String) (p : Point) : IdMap :=
  { m with stops := m.stops.insert stop p }

/-- The line of a shape, in sequence order. -/
def shapeLine? (m : IdMap) (shape : String) : Option (List Point) :=
  (m.shapes.get? shape).map (·.map (·.point))

/-- Adds a point to a shape, after every point whose sequence is not larger; tells whether no
earlier point had the same sequence. Only the last of the points it goes after is looked at:
the line being sorted, that one is the only candidate. -/
def addShapePoint (m : IdMap) (shape : String) (sequence : Nat) (p : Point) : IdMap × Bool :=
  let line := (m.shapes.get? shape).getD []
  let unique := (line.takeWhile (·.sequence ≤ sequence)).getLast?.all (·.sequence != sequence)
  ({ m with shapes := m.shapes.insert shape (insertShapePoint ⟨sequence, p⟩ line) }, unique)

end IdMap

end TransitFeed

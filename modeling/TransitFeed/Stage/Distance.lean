import TransitFeed.Copy.IdMap
import TransitFeed.Feed.Record

/-!
# Distances along trips

Stop times come grouped by trip in sequence order. The stage sums the great-circle
distances, in metres, between the consecutive stops of a trip whose position is known,
and gives every such stop time without a travelled distance the sum so far, rounded to
a whole metre (halves away from zero). A new trip starts again from zero.
-/

namespace TransitFeed

/-- The mean radius of the Earth in kilometres. -/
def earthRadius : Float := 6371.0

/-- Degrees to radians. -/
def radians (x : Float) : Float := x * (3.141592653589793 / 180.0)

/-- The great-circle distance in metres between two points (longitude, latitude). -/
def haversine (a b : Point) : Float :=
  let dLat := radians (b.2 - a.2)
  let dLon := radians (b.1 - a.1)
  let h := Float.sin (dLat / 2.0) * Float.sin (dLat / 2.0)
    + Float.cos (radians a.2) * Float.cos (radians b.2) * Float.sin (dLon / 2.0) * Float.sin (dLon / 2.0)
  let c := 2.0 * Float.atan2 (Float.sqrt h) (Float.sqrt (1.0 - h))
  earthRadius * c * 1000.0

/-- The trip being walked, its last known position and the distance so far. -/
structure Walk where
  trip : String := ""
  last : Option Point := none
  travelled : Float := 0
  deriving Inhabited

namespace Walk

/-- Advances along a stop time and fills in its travelled distance if missing. -/
def apply (w : Walk) (m : IdMap) (r : Record) : Walk × Record :=
  match r.kind with
  | .stopTime =>
    let trip := r.str "trip_id"
    let w : Walk := if trip != w.trip then { trip := trip } else w
    match m.stopPoint? (r.str "stop_id") with
    | none => (w, r)
    | some p =>
      let travelled := match w.last with
        | some q => w.travelled + haversine q p
        | none => w.travelled
      let w := { w with last := some p, travelled := travelled }
      if r.isPresent "shape_dist_traveled" then (w, r)
      else (w, r.setCell "shape_dist_traveled" (some (.real travelled.round)))
  | _ => (w, r)

end Walk

end TransitFeed

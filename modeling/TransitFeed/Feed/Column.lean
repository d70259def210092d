import TransitFeed.Feed.Kind
import TransitFeed.Value.Basic

/-!
# Columns of each kind of record

Every kind declares once the columns it knows, in a fixed order. Loading, writing,
validation and the remapping of references are all driven by these tables. A column has
a value type and may be optional (an empty cell is then absent); it may be required,
bounded, restricted to a list of codes, or a reference to the identifier of another
kind.
-/

namespace TransitFeed

/-- A column of a record kind. -/
structure Column where
  name : String
  type : FieldType
  /-- Whether an empty cell is an absent value. -/
  optional : Bool
  required : Bool := false
  range : Option (Float × Float) := none
  allowed : List Int := []
  target : Option Kind := none
  deriving Inhabited

namespace Column

/-- A column that always holds a value. -/
def plain (name : String) (type : FieldType := .text) : Column :=
  { name, type, optional := false }

/-- A column whose empty cell is absent. -/
def opt (name : String) (type : FieldType := .text) : Column :=
  { name, type, optional := true }

/-- The same column, required. -/
def req (c : Column) : Column := { c with required := true }

/-- The same column, bounded. -/
def within (c : Column) (lo hi : Float) : Column := { c with range := some (lo, hi) }

/-- The same column, restricted to the given codes. -/
def oneOf (c : Column) (codes : List Int) : Column := { c with allowed := codes }

/-- The same column, referring to the identifiers of another kind. -/
def refersTo (c : Column) (k : Kind) : Column := { c with target := some k }

/-- The cell of a column before anything is read into it. -/
def initial (c : Column) : Cell := if c.optional then none else some c.type.default

end Column

/-- The largest finite float. -/
def largestFloat : Float := Decimal.ofFields false 2046 (Nat.pow 2 52 - 1)

/-- Latitudes, in degrees. -/
def latitudeRange : Float × Float := (-90, 90)
/-- Longitudes, in degrees. -/
def longitudeRange : Float × Float := (-180, 180)

open Column in
/-- The columns of each kind, in order. -/
def Kind.columns : Kind → List Column
  | .feedInfo =>
    [(plain "feed_publisher_name").req, (plain "feed_publisher_url").req, (plain "feed_lang").req,
      opt "default_lang", opt "feed_start_date" .date, opt "feed_end_date" .date,
      opt "feed_version", opt "feed_contact_email", opt "feed_contact_url"]
  | .agency =>
    [plain "agency_id", (plain "agency_name").req, (plain "agency_url").req,
      (plain "agency_timezone").req, opt "agency_lang", opt "agency_phone",
      opt "agency_fare_url", opt "agency_email"]
  | .level => [(plain "level_id").req, (plain "level_index" .real).req, opt "level_name"]
  | .stop =>
    [(plain "stop_id").req, opt "stop_code", opt "stop_name", opt "stop_desc",
      (opt "stop_lat" .real).within (-90) 90, (opt "stop_lon" .real).within (-180) 180,
      opt "zone_id", opt "stop_url", (opt "location_type" .int32).oneOf [0, 1, 2, 3, 4],
      (opt "parent_station").refersTo .stop, opt "stop_timezone",
      (opt "wheelchair_boarding" .int32).oneOf [0, 1, 2], (opt "level_id").refersTo .level,
      opt "platform_code"]
  | .shape =>
    [(plain "shape_id").req, ((plain "shape_pt_lat" .real).req).within (-90) 90,
      ((plain "shape_pt_lon" .real).req).within (-180) 180,
      (plain "shape_pt_sequence" .nat32).req, (opt "shape_dist_traveled" .real).within 0 largestFloat]
  | .calendar =>
    [(plain "service_id").req, (plain "monday" .flag).req, (plain "tuesday" .flag).req,
      (plain "wednesday" .flag).req, (plain "thursday" .flag).req, (plain "friday" .flag).req,
      (plain "saturday" .flag).req, (plain "sunday" .flag).req, (opt "start_date" .date).req,
      (opt "end_date" .date).req]
  | .calendarDate =>
    [((plain "service_id").req).refersTo .calendar, (opt "date" .date).req,
      ((plain "exception_type" .int32).req).oneOf [1, 2]]
  | .network => [(plain "network_id").req, opt "network_name"]
  | .route =>
    [(plain "route_id").req, (opt "agency_id").refersTo .agency, opt "route_short_name",
      opt "route_long_name", opt "route_desc", ((plain "route_type" .int32).req).within 0 1799,
      opt "route_url", opt "route_color" .color, opt "route_text_color" .color,
      opt "route_sort_order" .nat32, (opt "continuous_pickup" .int32).oneOf [0, 1, 2, 3],
      (opt "continuous_drop_off" .int32).oneOf [0, 1, 2, 3], (opt "network_id").refersTo .network]
  | .trip =>
    [((plain "route_id").req).refersTo .route, ((plain "service_id").req).refersTo .calendar,
      (plain "trip_id").req, opt "trip_headsign", opt "trip_short_name",
      (opt "direction_id" .int32).oneOf [0, 1], opt "block_id", (opt "shape_id").refersTo .shape,
      (opt "wheelchair_accessible" .int32).oneOf [0, 1, 2],
      (opt "bikes_allowed" .int32).oneOf [0, 1, 2]]
  | .stopTime =>
    [((plain "trip_id").req).refersTo .trip, opt "arrival_time" .time, opt "departure_time" .time,
      ((plain "stop_id").req).refersTo .stop, (plain "stop_sequence" .nat32).req,
      opt "stop_headsign", (opt "pickup_type" .int32).oneOf [0, 1, 2, 3],
      (opt "drop_off_type" .int32).oneOf [0, 1, 2, 3],
      (opt "continuous_pickup" .int32).oneOf [0, 1, 2, 3],
      (opt "continuous_drop_off" .int32).oneOf [0, 1, 2, 3],
      (opt "shape_dist_traveled" .real).within 0 largestFloat, (opt "timepoint" .int32).oneOf [0, 1]]
  | .frequency =>
    [((plain "trip_id").req).refersTo .trip, (plain "start_time" .time).req,
      (plain "end_time" .time).req, ((plain "headway_secs" .nat32).req).within 1 86400,
      (opt "exact_times" .int32).oneOf [0, 1]]
  | .transfer =>
    [(opt "from_stop_id").refersTo .stop, (opt "to_stop_id").refersTo .stop,
      (opt "from_route_id").refersTo .route, (opt "to_route_id").refersTo .route,
      (opt "from_trip_id").refersTo .trip, (opt "to_trip_id").refersTo .trip,
      (opt "transfer_type" .int32).oneOf [0, 1, 2, 3, 4, 5], opt "min_transfer_time" .nat32]
  | .pathway =>
    [(plain "pathway_id").req, ((plain "from_stop_id").req).refersTo .stop,
      ((plain "to_stop_id").req).refersTo .stop,
      ((plain "pathway_mode" .int32).req).oneOf [1, 2, 3, 4, 5, 6, 7],
      ((plain "is_bidirectional" .int32).req).oneOf [0, 1],
      (opt "length" .real).within 0 largestFloat, (opt "traversal_time" .nat32).within 1 largestFloat,
      opt "stair_count" .int32, opt "max_slope" .real, (opt "min_width" .real).within 0 largestFloat,
      opt "signposted_as", opt "reversed_signposted_as"]
  | .fareAttribute =>
    [(plain "fare_id").req, (plain "price").req, (plain "currency_type").req,
      ((plain "payment_method" .int32).req).oneOf [0, 1], (opt "transfers" .int32).oneOf [0, 1, 2],
      (opt "agency_id").refersTo .agency, opt "transfer_duration" .nat32]
  | .fareRule =>
    [((plain "fare_id").req).refersTo .fareAttribute, (opt "route_id").refersTo .route,
      opt "origin_id", opt "destination_id", opt "contains_id"]

namespace Kind

/-- The names of the columns of a kind, in order. -/
def columnNames (k : Kind) : List String := k.columns.map (·.name)

/-- The position of a named column of a kind. -/
def columnIndex? (k : Kind) (name : String) : Option Nat := k.columnNames.idxOf? name

/-- The reference columns of a kind with the kinds they refer to, in column order. -/
def references (k : Kind) : List (String × Kind) :=
  k.columns.filterMap fun c => c.target.map fun t => (c.name, t)

end Kind

end TransitFeed

import TransitFeed.Feed.Record

/-!
# Validation of records

The problems of a record are, in order: those met while reading it; then, column by
column and skipping any column that already has a problem, a missing required value, a
value out of its bounds, and a code outside its list; then the rules of its kind. Every
problem gets the record's line. Warnings are remarks of the kind's own rules that do not
stop a record from being copied.
-/

namespace TransitFeed

namespace Record

/-- The problems of one column, given the problems found so far. -/
def columnIssues (found : List Issue) (col : Column) (cell : Cell) : List Issue :=
  if found.any (·.field == some col.name) then []
  else if !Cell.present col.optional cell then
    if col.required then [Issue.required col.name] else []
  else
    let text := cell.toText
    let number := cell.number
    let rangeIssues :=
      match col.range, number with
      | some (lo, hi), some n => if n < lo || n > hi then [Issue.range col.name text lo hi] else []
      | _, _ => []
    let codeIssues :=
      if col.allowed.isEmpty then []
      else
        match cell with
        | some (.int n) => if col.allowed.contains n then [] else [Issue.enumeration col.name text col.allowed]
        | _ => []
    rangeIssues ++ codeIssues

/-- The rules of the feed information. -/
def feedInfoRules (r : Record) : List Issue :=
  match r.date? "feed_start_date", r.date? "feed_end_date" with
  | some s, some e => if e < s then [Issue.invalidField "feed_end_date" e.compact "ends before feed_start_date"] else []
  | _, _ => []

/-- The rules of stops: what a location type needs, and no stop is its own parent. -/
def stopRules (r : Record) : List Issue :=
  let lt := (r.int? "location_type").getD 0
  let located :=
    if lt ≤ 2 then
      (if r.isPresent "stop_name" then [] else [Issue.required "stop_name"]) ++
      (if r.isPresent "stop_lat" then [] else [Issue.required "stop_lat"]) ++
      (if r.isPresent "stop_lon" then [] else [Issue.required "stop_lon"])
    else []
  let parent := r.cell "parent_station"
  let hierarchy :=
    if lt == 1 && r.isPresent "parent_station" then
      [Issue.invalidField "parent_station" parent.toText "a station cannot have a parent station"]
    else if (lt == 2 || lt == 3 || lt == 4) && !r.isPresent "parent_station" then
      [Issue.required "parent_station"]
    else []
  let own :=
    match parent with
    | some (.text p) => if p == r.str "stop_id" then
        [Issue.invalidField "parent_station" (r.str "stop_id") "a stop cannot be its own parent"] else []
    | _ => []
  located ++ hierarchy ++ own

/-- The rules of calendars: the range does not end before it starts. -/
def calendarRules (r : Record) : List Issue :=
  match r.date? "start_date", r.date? "end_date" with
  | some s, some e => if e < s then [Issue.invalidField "end_date" e.compact "ends before start_date"] else []
  | _, _ => []

/-- The rules of routes: a name, and no route type between the basic and extended sets. -/
def routeRules (r : Record) : List Issue :=
  let named :=
    if !r.isPresent "route_short_name" && !r.isPresent "route_long_name" then
      [Issue.required "route_short_name"] else []
  let t := (r.int? "route_type").getD 0
  let typed :=
    if 13 ≤ t && t < 100 then
      [Issue.enumeration "route_type" (toString t) [0, 1, 2, 3, 4, 5, 6, 7, 11, 12]] else []
  named ++ typed

/-- The rules of stop times: departure not before arrival, timed when a time point. -/
def stopTimeRules (r : Record) : List Issue :=
  let order :=
    match r.time? "arrival_time", r.time? "departure_time" with
    | some a, some d => if d < a then [Issue.invalidField "departure_time" d.text "departs before arriving"] else []
    | _, _ => []
  let timed :=
    if r.int? "timepoint" == some 1 && !(r.isPresent "arrival_time" && r.isPresent "departure_time") then
      [Issue.required "arrival_time"] else []
  order ++ timed

/-- The rules of frequencies: the interval ends after it starts. -/
def frequencyRules (r : Record) : List Issue :=
  match r.time? "start_time", r.time? "end_time" with
  | some s, some e => if e ≤ s then [Issue.invalidField "end_time" e.text "must be after start_time"] else []
  | _, _ => []

/-- The rules of transfers: stops for stop transfers, trips for the others. -/
def transferRules (r : Record) : List Issue :=
  let t := (r.int? "transfer_type").getD 0
  let (a, b) := if t ≤ 3 then ("from_stop_id", "to_stop_id") else ("from_trip_id", "to_trip_id")
  (if r.isPresent a then [] else [Issue.required a]) ++ (if r.isPresent b then [] else [Issue.required b])

/-- The rules of fare attributes: a non-negative price and a three-letter currency. -/
def fareRules (r : Record) : List Issue :=
  let price := r.str "price"
  if price.isEmpty then []
  else
    let priced :=
      match Number.readFloat? price with
      | some p => if p ≥ 0 then [] else [Issue.invalidField "price" price "must be a non-negative number"]
      | none => [Issue.invalidField "price" price "must be a non-negative number"]
    let currency := r.str "currency_type"
    let coded :=
      if currency.utf8ByteSize != 3 && !currency.isEmpty then
        [Issue.invalidField "currency_type" currency "must be an ISO 4217 currency code"] else []
    priced ++ coded

/-- The rules of a record's kind. -/
def kindRules (r : Record) : List Issue :=
  match r.kind with
  | .feedInfo => r.feedInfoRules
  | .stop => r.stopRules
  | .calendar => r.calendarRules
  | .route => r.routeRules
  | .stopTime => r.stopTimeRules
  | .frequency => r.frequencyRules
  | .transfer => r.transferRules
  | .fareAttribute => r.fareRules
  | _ => []

/-- The problems of a record, each with the record's line. -/
def errors (r : Record) : List Issue :=
  let found := (r.kind.columns.zip r.cells).foldl
    (fun found (col, cell) => found ++ columnIssues found col cell) r.loadIssues
  (found ++ r.kindRules).map (·.atLine r.line)

/-- The remarks of a record's kind, each with the record's line. -/
def warnings (r : Record) : List Issue :=
  let ws :=
    match r.kind with
    | .feedInfo =>
      if r.isPresent "feed_version" then [] else [Issue.warning (some "feed_version") "feed version is recommended"]
    | .agency =>
      if (r.str "agency_id").isEmpty then
        [Issue.warning (some "agency_id")
          "agency_id is recommended, it is required as soon as the feed has several agencies"]
      else []
    | .stop =>
      let copied :=
        match r.cell "stop_name", r.cell "stop_desc" with
        | some a, some b => if a.toText == b.toText then
            [Issue.warning (some "stop_desc") "stop_desc should not be a copy of stop_name"] else []
        | _, _ => []
      let origin :=
        match r.real? "stop_lon", r.real? "stop_lat" with
        | some lon, some lat => if lon == 0 && lat == 0 then
            [Issue.warning (some "stop_lat") "stop is located at (0, 0)"] else []
        | _, _ => []
      copied ++ origin
    | .route =>
      match r.cell "route_color", r.cell "route_text_color" with
      | some (.color a), some (.color b) => if a == b then
          [Issue.warning (some "route_text_color") "text color is the same as the route color"] else []
      | _, _ => []
    | .transfer =>
      if r.int? "transfer_type" == some 2 && !r.isPresent "min_transfer_time" then
        [Issue.warning (some "min_transfer_time") "a timed transfer should give its minimum transfer time"]
      else []
    | .pathway =>
      if r.str "from_stop_id" == r.str "to_stop_id" then
        [Issue.warning (some "to_stop_id") "pathway starts and ends at the same location"] else []
    | _ => []
  ws.map (·.atLine r.line)

end Record

end TransitFeed

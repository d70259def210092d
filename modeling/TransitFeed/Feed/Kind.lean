/-!
# Kinds of feed records

A transit feed holds sixteen collections, one file each. They are processed in a fixed
order in which every collection comes after the collections its records refer to: feed
information, agencies, levels, stops, shapes, calendars, calendar dates, networks,
routes, trips, stop times, frequencies, transfers, pathways, fare attributes and fare
rules. Some kinds have an identifier column that other records refer to.
-/

namespace TransitFeed

/-- The kinds of records of a feed, in processing order. -/
inductive Kind where
  | feedInfo
  | agency
  | level
  | stop
  | shape
  | calendar
  | calendarDate
  | network
  | route
  | trip
  | stopTime
  | frequency
  | transfer
  | pathway
  | fareAttribute
  | fareRule
  deriving DecidableEq, Repr, Inhabited, Hashable

namespace Kind

/-- Every kind, in processing order. -/
def all : List Kind :=
  [.feedInfo, .agency, .level, .stop, .shape, .calendar, .calendarDate, .network, .route,
    .trip, .stopTime, .frequency, .transfer, .pathway, .fareAttribute, .fareRule]

/-- The position of a kind in processing order. -/
def index : Kind → Nat
  | .feedInfo => 0
  | .agency => 1
  | .level => 2
  | .stop => 3
  | .shape => 4
  | .calendar => 5
  | .calendarDate => 6
  | .network => 7
  | .route => 8
  | .trip => 9
  | .stopTime => 10
  | .frequency => 11
  | .transfer => 12
  | .pathway => 13
  | .fareAttribute => 14
  | .fareRule => 15

instance : Ord Kind := ⟨fun a b => compare a.index b.index⟩

/-- The file that holds the collection of a kind. -/
def fileName : Kind → String
  | .feedInfo => "feed_info.txt"
  | .agency => "agency.txt"
  | .level => "levels.txt"
  | .stop => "stops.txt"
  | .shape => "shapes.txt"
  | .calendar => "calendar.txt"
  | .calendarDate => "calendar_dates.txt"
  | .network => "networks.txt"
  | .route => "routes.txt"
  | .trip => "trips.txt"
  | .stopTime => "stop_times.txt"
  | .frequency => "frequencies.txt"
  | .transfer => "transfers.txt"
  | .pathway => "pathways.txt"
  | .fareAttribute => "fare_attributes.txt"
  | .fareRule => "fare_rules.txt"

/-- The kind whose collection is held by the given file. -/
def ofFileName? (name : String) : Option Kind := all.find? (·.fileName == name)

/-- The name of the record type of a kind, as record decoders name it. -/
def recordName : Kind → String
  | .feedInfo => "FeedInfo"
  | .agency => "Agency"
  | .level => "Level"
  | .stop => "Stop"
  | .shape => "Shape"
  | .calendar => "Calendar"
  | .calendarDate => "CalendarDate"
  | .network => "Network"
  | .route => "Route"
  | .trip => "Trip"
  | .stopTime => "StopTime"
  | .frequency => "Frequency"
  | .transfer => "Transfer"
  | .pathway => "Pathway"
  | .fareAttribute => "FareAttribute"
  | .fareRule => "FareRule"

/-- The identifier column that other records refer to, for the kinds that have one. -/
def idColumn? : Kind → Option String
  | .agency => some "agency_id"
  | .level => some "level_id"
  | .stop => some "stop_id"
  | .shape => some "shape_id"
  | .calendar => some "service_id"
  | .network => some "network_id"
  | .route => some "route_id"
  | .trip => some "trip_id"
  | .pathway => some "pathway_id"
  | .fareAttribute => some "fare_id"
  | _ => none

/-- The table name of a kind in a relational store: the file name without `.txt`. -/
def tableName (k : Kind) : String := (k.fileName.dropEnd 4).toString

theorem ofFileName?_fileName (k : Kind) : ofFileName? k.fileName = some k := by
  cases k <;> rfl

end Kind

end TransitFeed

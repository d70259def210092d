import TransitFeed.Copy.IdMap
import TransitFeed.Feed.Record

/-!
# Creating what a feed only names

Two expansions add records that a feed refers to without defining them. A route naming
a network that `networks.txt` did not define, and that was not created before, is
preceded by a new network with that identifier. A calendar date of a service that
`calendar.txt` did not define, and that was not created before, is preceded by a new
calendar running on no weekday, from the calendar date to itself, so the service runs on
its added dates only. Created records have no line.
-/

namespace TransitFeed

/-- The identifiers created so far by an expansion. -/
structure Created where
  ids : List String := []
  deriving Repr, Inhabited

namespace Created

/-- A network that only has its identifier. -/
def network (id : String) : Record := (Record.empty .network).setEntityId id

/-- A calendar of one day that runs on no weekday. -/
def calendar (id : String) (d : Date) : Record :=
  (((Record.empty .calendar).setEntityId id).setCell "start_date" (some (.date d))).setCell
    "end_date" (some (.date d))

/-- Precedes a route with the network it names, when that network is new. -/
def networks (s : Created) (m : IdMap) (r : Record) : Created × Option (List Record) :=
  match r.kind, r.cell "network_id" with
  | .route, some (.text id) =>
    if id.isEmpty || m.contains Kind.network.fileName id || s.ids.contains id then (s, none)
    else (⟨id :: s.ids⟩, some [network id, r])
  | _, _ => (s, none)

/-- Precedes a calendar date with the calendar of its service, when that service is new. -/
def services (s : Created) (m : IdMap) (r : Record) : Created × Option (List Record) :=
  match r.kind with
  | .calendarDate =>
    let id := r.str "service_id"
    if id.isEmpty || m.contains Kind.calendar.fileName id || s.ids.contains id then (s, none)
    else
      match r.date? "date" with
      | some d => (⟨id :: s.ids⟩, some [calendar id d, r])
      | none => (s, none)
  | _ => (s, none)

end Created

end TransitFeed

import TransitFeed.Feed.Record

/-!
# Filling in agencies

A feed with a single agency may leave the agency of its routes and fares out. The
default-agency stage remembers the distinct agency identifiers seen so far, in order,
and gives a route or a fare attribute without agency the only one, when there is exactly
one and it is not empty. The agency-timezone stage does the same for stations without a
timezone, from the distinct non-empty agency timezones.
-/

namespace TransitFeed

/-- The single member of a list, if it has exactly one. -/
def single? : List String → Option String
  | [x] => some x
  | _ => none

/-- Appends a value to a list of distinct values unless it is there already. -/
def addDistinct (xs : List String) (x : String) : List String :=
  if xs.contains x then xs else xs ++ [x]

/-- The agency identifiers seen so far, in the order they came. -/
structure AgencyDefault where
  agencies : List String := []
  deriving Repr, Inhabited

namespace AgencyDefault

/-- The agency given to records that name none: the only agency, if it has an identifier. -/
def default? (s : AgencyDefault) : Option String :=
  match single? s.agencies with
  | some a => if a.isEmpty then none else some a
  | none => none

/-- Notes an agency, or fills in the agency of a route or fare attribute. -/
def apply (s : AgencyDefault) (r : Record) : AgencyDefault × Record :=
  match r.kind with
  | .agency => (⟨addDistinct s.agencies r.entityId⟩, r)
  | .route | .fareAttribute =>
    if r.isPresent "agency_id" then (s, r)
    else
      match s.default? with
      | some a => (s, r.setCell "agency_id" (some (.text a)))
      | none => (s, r)
  | _ => (s, r)

end AgencyDefault

/-- The distinct non-empty agency timezones seen so far, in the order they came. -/
structure AgencyZone where
  timezones : List String := []
  deriving Repr, Inhabited

namespace AgencyZone

/-- The location type of stations. -/
def station : Int := 1

/-- Notes an agency timezone, or gives a station without timezone the only one. -/
def apply (s : AgencyZone) (r : Record) : AgencyZone × Record :=
  match r.kind with
  | .agency =>
    let tz := r.str "agency_timezone"
    (if tz.isEmpty then s else ⟨addDistinct s.timezones tz⟩, r)
  | .stop =>
    if (r.int? "location_type").getD 0 == station && !r.isPresent "stop_timezone" then
      match single? s.timezones with
      | some tz => (s, r.setCell "stop_timezone" (if tz.isEmpty then none else some (.text tz)))
      | none => (s, r)
    else (s, r)
  | _ => (s, r)

end AgencyZone

end TransitFeed

import TransitFeed.Feed.Record

/-!
# The stop times of one trip

The stop times of a trip are put in order of their sequence numbers, keeping the file
order of equal numbers, and then checked together: a trip needs at least two stop
times, no two may share a sequence number, an arrival may not come before the last
known time of the stop times before it, the first and the last stop time must each have
a time, and the distance along the shape may not decrease. A trip with fewer than two
stop times is reported alone and left unsorted.
-/

namespace TransitFeed

namespace TripSequence

/-- The sequence number of a stop time. -/
def sequenceOf (r : Record) : Int := (r.int? "stop_sequence").getD 0

/-- Puts a stop time before the first of the others whose sequence number is not below its
own. -/
def insertBySequence (r : Record) : List Record → List Record
  | [] => [r]
  | x :: xs => if sequenceOf r ≤ sequenceOf x then r :: x :: xs else x :: insertBySequence r xs

/-- The stop times in order of sequence number, equal numbers in their given order. -/
def sortBySequence : List Record → List Record
  | [] => []
  | r :: rest => insertBySequence r (sortBySequence rest)

/-- A problem for each stop time whose sequence number repeats the one before it. -/
def duplicateIssues : List Record → List Issue
  | a :: b :: rest =>
    (if sequenceOf a == sequenceOf b then
      [(Issue.sequence (some "stop_sequence") (some (toString (sequenceOf b)))
        "duplicate stop_sequence in trip").atLine b.line]
    else []) ++ duplicateIssues (b :: rest)
  | _ => []

/-- A problem for each arrival before the last known time; a stop time's last known time
is its departure, else its arrival. -/
def timeIssues (last : Option Time) : List Record → List Issue
  | [] => []
  | st :: rest =>
    let here :=
      match st.time? "arrival_time", last with
      | some a, some l =>
        if a < l then
          [(Issue.sequence (some "arrival_time") (some a.text)
            ("arrives before the previous stop time (" ++ l.text ++ ")")).atLine st.line]
        else []
      | _, _ => []
    let next :=
      match st.time? "departure_time", st.time? "arrival_time" with
      | some d, _ => some d
      | none, some a => some a
      | none, none => last
    here ++ timeIssues next rest

/-- A problem when the stop time at an end of the trip has no time. -/
def endIssue (position : String) : Option Record → List Issue
  | some st =>
    if !st.isPresent "arrival_time" && !st.isPresent "departure_time" then
      [(Issue.sequence (some "arrival_time") none
        ("the " ++ position ++ " stop time of a trip must be timed")).atLine st.line]
    else []
  | none => []

/-- A problem for each distance below the last known distance. -/
def distanceIssues (last : Option Float) : List Record → List Issue
  | [] => []
  | st :: rest =>
    match st.real? "shape_dist_traveled" with
    | none => distanceIssues last rest
    | some d =>
      let here :=
        match last with
        | some l =>
          if d < l then
            [(Issue.sequence (some "shape_dist_traveled") (some (Number.positional d))
              "distance decreases along the trip").atLine st.line]
          else []
        | none => []
      here ++ distanceIssues (some d) rest

end TripSequence

open TripSequence in
/-- Sorts the stop times of one trip and lists the problems of their order. -/
def validateStopTimes (sts : List Record) : List Record × List Issue :=
  match sts with
  | [] | [_] =>
    (sts, [Issue.sequence (some "trip_id") (sts.head?.map (·.str "trip_id"))
      "a trip needs at least two stop times"])
  | _ =>
    let sorted := sortBySequence sts
    (sorted, duplicateIssues sorted ++ timeIssues none sorted ++ endIssue "first" sorted.head? ++
      endIssue "last" sorted.getLast? ++ distanceIssues none sorted)

end TransitFeed

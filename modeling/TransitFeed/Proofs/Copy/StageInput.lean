import TransitFeed.Proofs.Copy.TripOrder
import TransitFeed.Proofs.Copy.IdMapLaws
import TransitFeed.Proofs.Feed.SequenceRules

/-!
# The stop times the stages are handed

A copy hands the stages the stop times trip by trip. It takes the copied trips in increasing
order of identifier, in batches; for each batch it asks the source for the stop times of its
trips, groups them by trip, and copies the trips of the batch in order, each from its group.
A group is checked whole: one that fails the check with problems not allowed is dropped, and
otherwise the group, sorted by sequence, goes to the stages one stop time at a time, each
through every filter and then every expansion. The stop times of trips that were not copied
are dropped at the end, as are the items that are no stop times, and reach no stage.

`StopTimesHand` follows the copy of the stop times step by step and lists the stop times it
hands the stages. `copyStopTimes_hands_stages_trip_runs` says what that list is for a copy that
finishes: the group of each copied trip, as the source gave it in the stream of its batch,
whole and sorted or not at all, trip after trip in increasing order, up to the first batch the
source has no stop times for. Two stop times handed one after the other thus belong to
different trips exactly where the run of one trip ends, which is what a stage that keeps a
state per trip, as the distance along the shape does, relies on.
-/

namespace TransitFeed

open TripSequence

namespace Copying

variable {σ : Type}

/-- What the stages are handed of the group of a trip: all of it, sorted by sequence, unless it
fails the check of its trip with problems not allowed, when it is dropped whole. -/
def handedOf (allow : Bool) (sts : List Record) : List Record :=
  if (validateStopTimes sts).2 = [] ∨ allow = true then sortBySequence sts else []

@[simp] theorem handedOf_nil (allow : Bool) : handedOf allow [] = [] := by
  simp [handedOf, sortBySequence]

theorem mem_of_mem_handedOf {allow : Bool} {sts : List Record} {r : Record}
    (hr : r ∈ handedOf allow sts) : r ∈ sts := by
  unfold handedOf at hr
  split at hr
  · exact (perm_sortBySequence sts).subset hr
  · cases hr

/-- The check of the group of a trip, before any of its stop times is copied: a group that
passes changes nothing; the problems of one that fails are warnings when problems are allowed,
and otherwise the group is dropped with them. -/
def GroupChecked (sts : List Record) (s s' : Run σ) : Prop :=
  if (validateStopTimes sts).2 = [] then s' = s
  else if s.options.allowEntityErrors = true then
    s' = (exec (warn .stopTime (validateStopTimes sts).2) s).2
  else exec (reject .stopTime (validateStopTimes sts).2 (validateStopTimes sts).1.length) s = (.ok (), s')

/-- Copying the trips of a batch, each from its group, as the stages see it: the group of a
trip is checked, then the stop times it hands the stages go through them one at a time, the
batch written whenever it is full (`TripRun`). `handed` lists those stop times, trip after
trip. -/
def ChunkHands (sink : Sink σ) (batchSize : Nat) (groups : List (String × List Record)) :
    List String → List Record → Run σ → List Record → List Record → Run σ → Prop
  | [], batch, s, handed, batch', s' => handed = [] ∧ batch' = batch ∧ s' = s
  | trip :: rest, batch, s, handed, batch', s' =>
    match groups.lookup trip with
    | some sts => ∃ s1 b1 s2 more, GroupChecked sts s s1 ∧
        TripRun sink batchSize (handedOf s.options.allowEntityErrors sts) batch s1 b1 s2 ∧
        ChunkHands sink batchSize groups rest b1 s2 more batch' s' ∧
        handed = handedOf s.options.allowEntityErrors sts ++ more
    | none => ChunkHands sink batchSize groups rest batch s handed batch' s'

/-- Copying the stop times of the batches of copied trips, as the stages see it. For each
batch the source hands out stop times for, the items are counted as read, the stream ends
without an error of its own, the items that are no stop times are dropped, the trips are copied
(`ChunkHands`) and what is left of the batch is written. The copy stops at the first batch the
source has no stop times for, and otherwise drops the stop times of the other trips at the
end. `handed` lists the stop times handed to the stages, batch after batch. -/
def StopTimesHand (source : Source) (sink : Sink σ) (batchSize : Nat) (tripIds : List String) :
    List (List String) → Run σ → List Record → Run σ → Prop
  | [], s, handed, s' => handed = [] ∧ exec (rejectOrphans source tripIds) s = (.ok (), s')
  | chunk :: rest, s, handed, s' =>
    match source.stopTimesOf chunk with
    | .ok none => handed = [] ∧ s' = s
    | .ok (some st) => st.failure = none ∧
        ∃ s1, DropsEach .stopTime (groupByTrip st.items).2 (countedRead .stopTime st.items.length s) s1 ∧
        ∃ batch s2 h1, ChunkHands sink batchSize (groupByTrip st.items).1 chunk [] s1 h1 batch s2 ∧
        ∃ s3 h2, exec (flush sink batch) s2 = (.ok (), s3) ∧
          StopTimesHand source sink batchSize tripIds rest s3 h2 s' ∧ handed = h1 ++ h2
    | .error _ => False

/-- The trips of the batches in order, each with the stop times the source gives for it in the
stream of its batch, up to the first batch the source has no stop times for. -/
def tripGroups (source : Source) : List (List String) → List (String × List Record)
  | [] => []
  | chunk :: rest =>
    match source.stopTimesOf chunk with
    | .ok (some st) => chunk.map (fun t => (t, tripStops st.items t)) ++ tripGroups source rest
    | _ => []

/-- The batches of trips, put back together, are the trips. -/
theorem flatten_chunks {size : Nat} (hsize : 0 < size) (xs : List String) :
    (chunks size xs).flatten = xs := by
  -- every round takes a trip at least, so one round per trip and one more suffice
  suffices ∀ fuel (ys : List String), ys.length < fuel → (chunks.go size ys fuel).flatten = ys from
    this _ xs (Nat.lt_succ_self _)
  intro fuel
  induction fuel with
  | zero => exact fun ys h => absurd h (Nat.not_lt_zero _)
  | succ fuel ih =>
    intro ys hlen
    rw [chunks.go.eq_2]
    split
    · rename_i hempty
      rw [List.isEmpty_iff.mp hempty]
      rfl
    · rename_i hne
      have hpos : 0 < ys.length := List.length_pos_iff.mpr (by simpa [List.isEmpty_iff] using hne)
      have hdrop : (ys.drop size).length < fuel := by
        rw [List.length_drop]
        omega
      rw [List.flatten_cons, ih _ hdrop, List.take_append_drop]

/-- The trips of `tripGroups` are the first trips of the batches, in order. -/
theorem map_fst_tripGroups_prefix (source : Source) (cs : List (List String)) :
    (tripGroups source cs).map Prod.fst <+: cs.flatten := by
  induction cs with
  | nil => exact List.prefix_refl []
  | cons c rest ih =>
    rw [tripGroups]
    split
    · rename_i st _
      rw [List.map_append, List.map_map, List.flatten_cons]
      have hc : c.map (Prod.fst ∘ fun t => (t, tripStops st.items t)) = c := List.map_id' c
      rw [hc]
      exact (List.prefix_append_right_inj c).mpr ih
    · exact List.nil_prefix

/-- The stop times of a trip of `tripGroups` are stop times of that trip. -/
theorem of_mem_tripGroups {source : Source} {cs : List (List String)} {x : String × List Record}
    (hx : x ∈ tripGroups source cs) {r : Record} (hr : r ∈ x.2) :
    r.kind = .stopTime ∧ r.str "trip_id" = x.1 := by
  induction cs with
  | nil => cases hx
  | cons c rest ih =>
    rw [tripGroups] at hx
    split at hx
    · rcases List.mem_append.mp hx with hx | hx
      · obtain ⟨t, -, rfl⟩ := List.mem_map.mp hx
        exact (mem_tripStops.mp hr).2
      · exact ih hx
    · cases hx

/-- What the stages are handed of the group of a trip in a batch: nothing when the batch has
no stop time of the trip. -/
theorem handedOf_lookup_groupByTrip (allow : Bool) (items : List (Except Issue Record)) (t : String) :
    (((groupByTrip items).1.lookup t).map (handedOf allow)).getD [] = handedOf allow (tripStops items t) := by
  rw [lookup_groupByTrip]
  split
  · rename_i hnil
    rw [hnil, handedOf_nil]
    rfl
  · rfl

/-- Writing a batch leaves the options alone. -/
theorem flush_options {sink : Sink σ} {batch : List Record} {s s' : Run σ}
    (h : exec (flush sink batch) s = (.ok (), s')) : s'.options = s.options := by
  rw [exec_flush] at h
  split at h
  · rw [(Prod.mk.inj h).2]
  · split at h
    · cases h
    · obtain ⟨-, rfl⟩ := Prod.mk.inj h
      rfl

/-- The check of a trip's group leaves the options alone. -/
theorem GroupChecked.options {sts : List Record} {s s' : Run σ} (h : GroupChecked sts s s') :
    s'.options = s.options := by
  unfold GroupChecked at h
  split at h
  · rw [h]
  · rename_i hne
    split at h
    · rw [h]
      rfl
    · obtain ⟨e, es, hes⟩ := List.exists_cons_of_ne_nil hne
      rw [hes] at h
      obtain ⟨-, rfl⟩ := reject_ok h
      rfl

/-- Copying sorted stop times leaves the options alone. -/
theorem TripRun.options {sink : Sink σ} {batchSize : Nat} {sorted acc b : List Record} {s s' : Run σ}
    (hsorted : ∀ r ∈ sorted, r.kind = .stopTime) (h : TripRun sink batchSize sorted acc s b s') :
    s'.options = s.options := by
  induction sorted generalizing acc s with
  | nil => rw [h.2]
  | cons r rest ih =>
    obtain ⟨more, s1, hp, h⟩ := h
    have hopt := (processStopTime_stopTime (hsorted r List.mem_cons_self) hp).2.1
    have hrest : ∀ x ∈ rest, x.kind = .stopTime := fun x hx => hsorted x (List.mem_cons_of_mem _ hx)
    split at h
    · obtain ⟨s2, hflush, h⟩ := h
      rw [ih hrest h, flush_options hflush, hopt]
    · rw [ih hrest h, hopt]

/-- The copy of the group of a trip is its check, then the stop times it hands the stages,
one at a time. -/
theorem copyTrip_hands {sink : Sink σ} {batchSize : Nat} {sts batch batch' : List Record}
    {s s' : Run σ} (h : exec (copyTrip sink batchSize sts batch) s = (.ok batch', s')) :
    ∃ s1, GroupChecked sts s s1 ∧
      TripRun sink batchSize (handedOf s.options.allowEntityErrors sts) batch s1 batch' s' := by
  rcases hv : validateStopTimes sts with ⟨sorted, errors⟩
  have hsorted : sortBySequence sts = sorted := by rw [← validateStopTimes_fst, hv]
  rcases copyTrip_ok hv h with ⟨hne, hallow, rfl, hr⟩ | ⟨s1, hs1, hrun⟩
  · -- dropped whole: nothing reaches the stages
    refine ⟨s', ?_, ?_⟩
    · simpa [GroupChecked, hv, hne, hallow] using hr
    · have hnone : handedOf s.options.allowEntityErrors sts = [] := by simp [handedOf, hv, hne, hallow]
      rw [hnone]
      exact ⟨rfl, rfl⟩
  · rcases hs1 with ⟨rfl, rfl⟩ | ⟨hne, hallow, rfl⟩
    · refine ⟨s1, by simp [GroupChecked, hv], ?_⟩
      rwa [handedOf, hv, if_pos (.inl rfl), hsorted]
    · refine ⟨(exec (warn .stopTime errors) s).2, by simp [GroupChecked, hv, hne, hallow], ?_⟩
      rwa [handedOf, hv, if_pos (.inr hallow), hsorted]

/-- Copying the trips of a batch from groups of stop times hands the stages, trip after trip,
what the group of each lets through, and leaves the options alone. -/
theorem chunkRun_hands {sink : Sink σ} {batchSize : Nat} {groups : List (String × List Record)}
    {trips : List String} {acc b : List Record} {s s' : Run σ}
    (hgroups : ∀ t, ∀ x ∈ (groups.lookup t).getD [], x.kind = .stopTime)
    (h : ChunkRun sink batchSize groups trips acc s b s') :
    s'.options = s.options ∧ ChunkHands sink batchSize groups trips acc s
      (trips.flatMap fun t => ((groups.lookup t).map (handedOf s.options.allowEntityErrors)).getD []) b s' := by
  induction trips generalizing acc s with
  | nil =>
    obtain ⟨rfl, rfl⟩ := h
    exact ⟨rfl, rfl, rfl, rfl⟩
  | cons t rest ih =>
    cases hsts : groups.lookup t with
    | some sts =>
      simp only [ChunkRun, hsts] at h
      obtain ⟨b1, s1, htrip, h⟩ := h
      obtain ⟨s0, hcheck, hrun⟩ := copyTrip_hands htrip
      have hkinds : ∀ x ∈ handedOf s.options.allowEntityErrors sts, x.kind = .stopTime :=
        fun x hx => hgroups t x (by rw [hsts]; exact mem_of_mem_handedOf hx)
      -- the options, and so whether problems are allowed, stay for the trips after
      have hopt1 : s1.options = s.options := (TripRun.options hkinds hrun).trans hcheck.options
      obtain ⟨hopt, hhands⟩ := ih h
      rw [hopt1] at hhands
      simp only [ChunkHands, hsts]
      refine ⟨hopt.trans hopt1, s0, b1, s1, _, hcheck, hrun, hhands, ?_⟩
      simp [hsts]
    | none =>
      simp only [ChunkRun, hsts] at h
      simpa [ChunkHands, hsts] using ih h

/-- Copying the batches of copied trips, then dropping the stop times of the other trips unless
the source had none, hands the stages the groups of `tripGroups`, each as its check lets it. -/
theorem stopTimesHand_of_chunksRun {source : Source} {sink : Sink σ} {batchSize : Nat}
    {tripIds : List String} {cs : List (List String)} {s s1 s' : Run σ} {stopped : Bool}
    (h : ChunksRun source sink batchSize cs s s1 stopped)
    (hend : stopped = true ∧ s' = s1 ∨
      stopped = false ∧ exec (rejectOrphans source tripIds) s1 = (.ok (), s')) :
    StopTimesHand source sink batchSize tripIds cs s
      ((tripGroups source cs).flatMap fun x => handedOf s.options.allowEntityErrors x.2) s' := by
  induction cs generalizing s with
  | nil =>
    obtain ⟨rfl, rfl⟩ := h
    rcases hend with ⟨hstop, -⟩ | ⟨-, horphans⟩
    · cases hstop
    · exact ⟨rfl, horphans⟩
  | cons c rest ih =>
    obtain ⟨b, s2, hchunk, h⟩ := h
    unfold StopTimesHand
    rw [tripGroups]
    rcases copyChunk_ok hchunk with ⟨hnone, rfl, rfl⟩ | ⟨st, hsome, hfailure, rfl, s3, hdrops, batch, s4, hrun, hflush⟩
    · -- no stop times for the batch: the copy stops there
      rw [if_neg Bool.false_ne_true] at h
      obtain ⟨rfl, rfl⟩ := h
      rcases hend with ⟨-, rfl⟩ | ⟨hstop, -⟩
      · rw [hnone]
        exact ⟨rfl, rfl⟩
      · cases hstop
    · rw [if_pos rfl] at h
      rw [hsome]
      have hgroups : ∀ t, ∀ x ∈ ((groupByTrip st.items).1.lookup t).getD [], x.kind = .stopTime :=
        fun _ _ hx => kind_of_mem_groupByTrip hx
      obtain ⟨hopt4, hhands⟩ := chunkRun_hands hgroups hrun
      -- the options stay through the batch, so the batches after see the same: counting the
      -- items read and dropping the problems touch the reports only
      have hopt3 : s3.options = s.options := by
        obtain ⟨rs1, hrs1⟩ := countedRead_reports_only .stopTime st.items.length s
        obtain ⟨rs3, hrs3⟩ := hdrops.reports_only
        rw [hrs3, hrs1]
      have hopt : s2.options = s.options := by
        rw [flush_options hflush, hopt4, hopt3]
      rw [hopt3] at hhands
      have hrest := ih h
      rw [hopt] at hrest
      refine ⟨hfailure, s3, hdrops, batch, s4, _, hhands, s2, _, hflush, hrest, ?_⟩
      simp only [List.flatMap_append, List.flatMap_map, handedOf_lookup_groupByTrip]

/-- Stop times reach the stages trip by trip. A copy of the stop times that finishes hands the
stages, one stop time at a time, exactly the list `StopTimesHand` follows it with: the group of
each copied trip, as the source gave it in the stream of its batch of trips, sorted by sequence
when it passes the check of its trip or problems are allowed and left out whole otherwise. The
trips come in increasing order of identifier, the copied trips from the first on, up to the
first batch the source has no stop times for; each group holds stop times of its own trip
only, so no stop time of a trip that was not copied reaches the stages. -/
theorem copyStopTimes_hands_stages_trip_runs {source : Source} {sink : Sink σ}
    {s s' : Run σ} (h : exec (copyStopTimes source sink) s = (.ok (), s')) :
    let trips := s.map.keysFor Kind.trip.fileName
    let batchSize := Nat.max 1 s.options.batchSize
    let groups := tripGroups source (chunks batchSize trips)
    StopTimesHand source sink batchSize trips (chunks batchSize trips) s
        (groups.flatMap fun x => handedOf s.options.allowEntityErrors x.2) s' ∧
      groups.map Prod.fst <+: trips ∧ (groups.map Prod.fst).Pairwise (· < ·) ∧
      ∀ x ∈ groups, ∀ r ∈ x.2, r.kind = .stopTime ∧ r.str "trip_id" = x.1 := by
  intro trips batchSize groups
  obtain ⟨s1, stopped, hrun, hend⟩ := copyStopTimes_ok h
  have hprefix : groups.map Prod.fst <+: trips := by
    have hpos : 0 < batchSize := Nat.lt_of_lt_of_le Nat.one_pos (Nat.le_max_left 1 _)
    have hp := map_fst_tripGroups_prefix source (chunks batchSize trips)
    rwa [flatten_chunks hpos] at hp
  refine ⟨stopTimesHand_of_chunksRun hrun hend, hprefix, ?_, fun x hx r hr =>
    of_mem_tripGroups hx hr⟩
  exact (IdMap.keysFor_sorted _ _).sublist hprefix.sublist

/-- The stop times of two trips `B` and `A`, mixed and out of sequence. -/
def mixedTripsFeed : MemoryFeed :=
  MemoryFeed.ofRecords [
    Record.ofSql .stopTime [("trip_id", .text "B"), ("arrival_time", .text "09:00:00"),
      ("departure_time", .text "09:00:00"), ("stop_id", .text "S2"), ("stop_sequence", .integer 2)],
    Record.ofSql .stopTime [("trip_id", .text "A"), ("arrival_time", .text "09:30:00"),
      ("departure_time", .text "09:30:00"), ("stop_id", .text "S2"), ("stop_sequence", .integer 2)],
    Record.ofSql .stopTime [("trip_id", .text "B"), ("arrival_time", .text "08:00:00"),
      ("departure_time", .text "08:00:00"), ("stop_id", .text "S1"), ("stop_sequence", .integer 1)],
    Record.ofSql .stopTime [("trip_id", .text "A"), ("arrival_time", .text "08:30:00"),
      ("departure_time", .text "08:30:00"), ("stop_id", .text "S1"), ("stop_sequence", .integer 1)]]

/-- A copy that has copied the trips `A` and `B` under their own identifiers, with the stage
that fills in distances along shapes. -/
def mixedTripsRun : Run MemoryFeed where
  store := {}
  map := (IdMap.empty.set Kind.trip.fileName "B" "B").set Kind.trip.fileName "A" "A"
  pipeline := { stages := [.shapeDist {}] }
  options := {}

/-- The copy of the stop times of the two trips finishes, handing the stages what
`copyStopTimes_hands_stages_trip_runs` says. -/
theorem mixedTrips_hands_stages_trip_runs :
    ∃ s', exec (copyStopTimes mixedTripsFeed.source MemoryFeed.sink) mixedTripsRun = (.ok (), s') ∧
      let trips := mixedTripsRun.map.keysFor Kind.trip.fileName
      let batchSize := Nat.max 1 mixedTripsRun.options.batchSize
      let groups := tripGroups mixedTripsFeed.source (chunks batchSize trips)
      StopTimesHand mixedTripsFeed.source MemoryFeed.sink batchSize trips (chunks batchSize trips)
          mixedTripsRun (groups.flatMap fun x => handedOf mixedTripsRun.options.allowEntityErrors x.2) s' ∧
        groups.map Prod.fst <+: trips ∧ (groups.map Prod.fst).Pairwise (· < ·) ∧
        ∀ x ∈ groups, ∀ r ∈ x.2, r.kind = .stopTime ∧ r.str "trip_id" = x.1 := by
  have hok : (exec (copyStopTimes mixedTripsFeed.source MemoryFeed.sink) mixedTripsRun).1.toBool = true := by
    decide +kernel
  rcases h : exec (copyStopTimes mixedTripsFeed.source MemoryFeed.sink) mixedTripsRun with ⟨_ | ⟨⟩, s'⟩
  · rw [h] at hok
    cases hok
  · exact ⟨s', rfl, copyStopTimes_hands_stages_trip_runs h⟩

end Copying

end TransitFeed

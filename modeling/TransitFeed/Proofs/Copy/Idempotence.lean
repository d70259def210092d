import TransitFeed.Proofs.Copy.KeptIds
import TransitFeed.Proofs.Copy.Naturality

/-!
# Copying the written feed again

Copy a feed in memory into an empty feed in memory, with no stage, an empty identifier map and
problems not allowed. Whenever the stop times written for each trip pass the check of their trip
together, what is written is a feed in the form a copy writes (`CopyForm`):

* each record is well formed, passes its checks and is settled;
* every reference names a record written, and a stop's parent station is written before it;
* the stop times come trip after trip, in byte order of the trips, each trip sorted.

Copied again the same way, such a feed comes out as it went in, with no problem recorded:
`copyFeed_again_writes_same`. The condition on the trips is needed. A stop time of an accepted
trip can be dropped on its own, leaving the trip written with one stop time alone; the second
copy then drops that trip with a problem of its trip.

The form of the written feed is read off three copies that run alike. One goes into the feed
itself, one into the feed with a log of what it is handed, and one into the feed with a trace of
the identifiers it gives. Naturality makes them one copy.
-/

namespace TransitFeed

namespace MemoryFeed

/-- Every record a feed in memory hands out is a record of one of its collections. -/
theorem mem_records_of_handsOut {f : MemoryFeed} {r : Record} (h : f.source.HandsOut r) :
    ∃ k, r ∈ f.records k := by
  rcases h with ⟨k, st, hread, hr⟩ | ⟨trips, st, hread, hr⟩
  · rw [items_of_read hread] at hr
    obtain ⟨x, hx, hxr⟩ := List.mem_map.mp hr
    cases hxr
    exact ⟨k, hx⟩
  · cases hl : f.collections.lookup .stopTime with
    | none => simp [source, stopTimes, hl] at hread
    | some sts =>
      simp only [source, stopTimes, hl, Except.ok.injEq, Option.some.injEq] at hread
      subst hread
      obtain ⟨x, hx, hxr⟩ := List.mem_map.mp hr
      cases hxr
      exact ⟨.stopTime, by simpa [records, hl] using (List.mem_filter.mp hx).1⟩

/-- A feed of well-formed records hands out well-formed records only. -/
theorem shaped_of_handsOut {f : MemoryFeed} (hshaped : ∀ k, ∀ r ∈ f.records k, r.Shaped) :
    ∀ r, f.source.HandsOut r → r.Shaped := fun r hr =>
  let ⟨k, hk⟩ := mem_records_of_handsOut hr
  hshaped k r hk

/-- A feed in memory with the trace of what it was handed: the feed is built from the records
of the trace, and each record written alone has its own identifier. -/
def TraceBuilds (s : MemoryFeed × Trace) : Prop :=
  s.1 = ofRecords (s.2.map Prod.fst) ∧ ∀ x ∈ s.2, ∀ v, x.2 = some v → v = x.1.entityId

theorem traceBuilds_add (s : MemoryFeed × Trace) (r : Record) (x : (MemoryFeed × Trace) × String)
    (hs : TraceBuilds s) (h : sink.traced.add s r = .ok x) : TraceBuilds x.1 := by
  simp only [Sink.traced, sink, Except.map, Except.ok.injEq] at h
  subst h
  refine ⟨by simp [hs.1, push_ofRecords], fun y hy v hv => ?_⟩
  rcases List.mem_append.mp hy with hy | hy
  · exact hs.2 y hy v hv
  · rw [List.mem_singleton.mp hy] at hv ⊢
    exact (Option.some.inj hv).symm

theorem traceBuilds_addAll (s : MemoryFeed × Trace) (rs : List Record)
    (x : (MemoryFeed × Trace) × List String) (hs : TraceBuilds s) (h : sink.traced.addAll s rs = .ok x) :
    TraceBuilds x.1 := by
  simp only [Sink.traced, sink, Except.map, Except.ok.injEq] at h
  subst h
  refine ⟨by simp [hs.1, foldl_push_ofRecords, Function.comp_def], fun y hy v hv => ?_⟩
  rcases List.mem_append.mp hy with hy | hy
  · exact hs.2 y hy v hv
  · obtain ⟨r, -, rfl⟩ := List.mem_map.mp hy
    cases hv

/-- A feed in memory with the log of what it was handed is built from the log. -/
def LogBuilds (s : MemoryFeed × List Record) : Prop := s.1 = ofRecords s.2

theorem logBuilds_add (s : MemoryFeed × List Record) (r : Record) (x : (MemoryFeed × List Record) × String)
    (hs : LogBuilds s) (h : sink.logged.add s r = .ok x) : LogBuilds x.1 := by
  simp only [Sink.logged, sink, Except.map, Except.ok.injEq] at h
  subst h
  show s.1.push r = ofRecords (s.2 ++ [r])
  rw [hs, push_ofRecords]

theorem logBuilds_addAll (s : MemoryFeed × List Record) (rs : List Record)
    (x : (MemoryFeed × List Record) × List String) (hs : LogBuilds s) (h : sink.logged.addAll s rs = .ok x) :
    LogBuilds x.1 := by
  simp only [Sink.logged, sink, Except.map, Except.ok.injEq] at h
  subst h
  show rs.foldl push s.1 = ofRecords (s.2 ++ rs)
  rw [hs, foldl_push_ofRecords]

end MemoryFeed

namespace Copying

open TripSequence

/-- Stop times written trip after trip, in byte order of the trips, are grouped by trip in that
order. -/
theorem pairwise_tripId_flatten {source : Source} : ∀ {runs : List (String × List Record)},
    (runs.map Prod.fst).Pairwise (· < ·) → (∀ x ∈ runs, TripKeptFrom source x.1 x.2) →
    (runs.map Prod.snd).flatten.Pairwise fun a b => a.str "trip_id" ≤ b.str "trip_id"
  | [], _, _ => List.Pairwise.nil
  | x :: rest, hsorted, hall => by
    obtain ⟨hx, hrest⟩ := List.pairwise_cons.mp hsorted
    have hkx := hall x List.mem_cons_self
    rw [List.map_cons, List.flatten_cons, List.pairwise_append]
    refine ⟨?_, pairwise_tripId_flatten hrest fun y hy => hall y (List.mem_cons_of_mem _ hy), ?_⟩
    · -- the stop times of one trip all name it
      exact List.pairwise_of_forall_mem_list fun a ha b hb => by rw [(hkx.mem ha).2, (hkx.mem hb).2]
    · -- a later trip comes later in byte order
      intro a ha b hb
      obtain ⟨ws, hws, hb⟩ := List.mem_flatten.mp hb
      obtain ⟨y, hy, rfl⟩ := List.mem_map.mp hws
      rw [(hkx.mem ha).2, ((hall y (List.mem_cons_of_mem _ hy)).mem hb).2]
      exact le_of_lt (hx y.1 (List.mem_map_of_mem hy))

/-- Stop times written trip after trip, each trip once, are in order of sequence number within
each trip. -/
theorem pairwise_sequence_filter_flatten {source : Source} (t : String) :
    ∀ {runs : List (String × List Record)}, (runs.map Prod.fst).Pairwise (· < ·) →
      (∀ x ∈ runs, TripKeptFrom source x.1 x.2) →
      ((runs.map Prod.snd).flatten.filter (·.str "trip_id" = t)).Pairwise
        fun a b => sequenceOf a ≤ sequenceOf b
  | [], _, _ => List.Pairwise.nil
  | x :: rest, hsorted, hall => by
    obtain ⟨hx, hrest⟩ := List.pairwise_cons.mp hsorted
    have hkx := hall x List.mem_cons_self
    rw [List.map_cons, List.flatten_cons, List.filter_append]
    by_cases htx : x.1 = t
    · -- the trip's own stop times, and none of the later trips'
      have hnone : (rest.map Prod.snd).flatten.filter (·.str "trip_id" = t) = [] :=
        List.filter_eq_nil_iff.mpr fun b hb => by
          obtain ⟨ws, hws, hb⟩ := List.mem_flatten.mp hb
          obtain ⟨y, hy, rfl⟩ := List.mem_map.mp hws
          have hlt := hx y.1 (List.mem_map_of_mem hy)
          rw [((hall y (List.mem_cons_of_mem _ hy)).mem hb).2, ← htx]
          simpa using ne_of_gt hlt
      rw [hnone, List.append_nil]
      exact hkx.sorted.sublist List.filter_sublist
    · have hnone : x.2.filter (·.str "trip_id" = t) = [] :=
        List.filter_eq_nil_iff.mpr fun a ha => by simp [(hkx.mem ha).2, htx]
      rw [hnone, List.nil_append]
      exact pairwise_sequence_filter_flatten t hrest fun y hy => hall y (List.mem_cons_of_mem _ hy)

end Copying

/-- In the trace of a copy from an empty map into a destination that gives each record written
alone its own identifier, every filled reference of a record names a record handed over before
it, of the kind referred to. -/
theorem names_handed_before {T : Trace}
    (hint : ∀ i (hi : i < T.length), Resolves IdMap.empty (T.take i) T[i].1)
    (hids : ∀ x ∈ T, ∀ v, x.2 = some v → v = x.1.entityId) {i : Nat} (hi : i < T.length)
    {col : Column} (hcol : col ∈ T[i].1.kind.columns) {t : Kind} (ht : col.target = some t)
    (hpresent : Cell.present col.optional (T[i].1.cell col.name) = true) :
    ∃ e ∈ (T.take i).map Prod.fst, e.kind = t ∧ e.entityId = T[i].1.str col.name := by
  rcases hint i hi col hcol t ht hpresent with ⟨o, ho⟩ | ⟨e, he, hek⟩
  · simp at ho
  · exact ⟨e, List.mem_map_of_mem he, hek, (hids _ (List.mem_of_mem_take he) _ rfl).symm⟩

section FirstCopy

variable (f : MemoryFeed) (options : CopyOptions)

/-- The feed a copy writes is the one built from its log. -/
theorem copyFeed_memory_eq_log :
    (copyFeed f.source MemoryFeed.sink {} IdMap.empty {} options).2.store =
      MemoryFeed.ofRecords (copyFeed f.source MemoryFeed.sink.logged ({}, []) IdMap.empty {} options).2.store.2 := by
  have hnat := copyFeed_natural (Sink.logged_simulates MemoryFeed.sink) f.source
    (({} : MemoryFeed), ([] : List Record)) IdMap.empty {} options false
  have hlog := copyFeed_store_invariant MemoryFeed.sink.logged MemoryFeed.LogBuilds
    MemoryFeed.logBuilds_add MemoryFeed.logBuilds_addAll f.source
    (show MemoryFeed.LogBuilds (({} : MemoryFeed), ([] : List Record)) from rfl) IdMap.empty {} options false
  have hstore : (copyFeed f.source MemoryFeed.sink {} IdMap.empty {} options).2.store =
      (copyFeed f.source MemoryFeed.sink.logged ({}, []) IdMap.empty {} options).2.store.1 :=
    congrArg (fun c => c.2.store) hnat
  rw [hstore]
  exact hlog

/-- The feed a copy writes is the one built from its trace, in which each record written alone
has its own identifier. -/
theorem copyFeed_memory_eq_trace :
    MemoryFeed.TraceBuilds ((copyFeed f.source MemoryFeed.sink {} IdMap.empty {} options).2.store,
      (copyFeed f.source MemoryFeed.sink.traced ({}, []) IdMap.empty {} options).2.store.2) := by
  have hnat := copyFeed_natural (Sink.traced_simulates MemoryFeed.sink) f.source
    (({} : MemoryFeed), ([] : Trace)) IdMap.empty {} options false
  have htrace := copyFeed_store_invariant MemoryFeed.sink.traced MemoryFeed.TraceBuilds
    MemoryFeed.traceBuilds_add MemoryFeed.traceBuilds_addAll f.source
    (show MemoryFeed.TraceBuilds (({} : MemoryFeed), ([] : Trace)) from ⟨rfl, by simp⟩) IdMap.empty {} options
    false
  rw [congrArg (fun c => c.2.store) hnat]
  exact htrace

/-- Every record handed to the traced destination refers only to records handed to it before. -/
theorem copyFeed_memory_integrity :
    Integrity IdMap.empty (copyFeed f.source MemoryFeed.sink.traced ({}, []) IdMap.empty {} options).2 := by
  have hstart : Integrity IdMap.empty
      ({ store := (({} : MemoryFeed), []), map := IdMap.empty, pipeline := {}, options } :
        Run (MemoryFeed × Trace)) :=
    Integrity.start _ _ _
  unfold copyFeed
  split
  · exact hstart
  · exact (Copying.copyAll_keeps f.source MemoryFeed.sink _ hstart trivial).1

/-- Every filled reference of the feed a copy writes names a record of it. -/
theorem copyFeed_memory_closed : (copyFeed f.source MemoryFeed.sink {} IdMap.empty {} options).2.store.Closed := by
  obtain ⟨hfeed, hids⟩ := copyFeed_memory_eq_trace f options
  have hint := (copyFeed_memory_integrity f options).written
  generalize (copyFeed f.source MemoryFeed.sink.traced ({}, []) IdMap.empty {} options).2.store.2 = T
    at hfeed hids hint
  dsimp only at hfeed
  intro k r hr col hcol t ht hpresent
  rw [hfeed, MemoryFeed.records_ofRecords] at hr ⊢
  obtain ⟨i, hi, hri⟩ := List.getElem_of_mem (List.mem_filter.mp hr).1
  rw [List.getElem_map] at hri
  subst hri
  rw [List.length_map] at hi
  obtain ⟨e, he, hek, heid⟩ := names_handed_before hint hids hi hcol ht hpresent
  have heT : e ∈ T.map Prod.fst := by
    obtain ⟨x, hx, rfl⟩ := List.mem_map.mp he
    exact List.mem_map_of_mem (List.mem_of_mem_take hx)
  exact ⟨e, List.mem_filter.mpr ⟨heT, by simpa using hek⟩, heid⟩

/-- A stop of the feed a copy writes comes after its parent station. -/
theorem copyFeed_memory_parentsFirst :
    ∀ pre r post, (copyFeed f.source MemoryFeed.sink {} IdMap.empty {} options).2.store.records .stop =
      pre ++ r :: post → ∀ p, r.text? "parent_station" = some p → ∃ x ∈ pre, x.entityId = p := by
  obtain ⟨hfeed, hids⟩ := copyFeed_memory_eq_trace f options
  have hint := (copyFeed_memory_integrity f options).written
  generalize (copyFeed f.source MemoryFeed.sink.traced ({}, []) IdMap.empty {} options).2.store.2 = T
    at hfeed hids hint
  dsimp only at hfeed
  intro pre r post hstops p hp
  rw [hfeed, MemoryFeed.records_ofRecords] at hstops
  obtain ⟨l₁, l₂, hsplit, hl₁, hl₂⟩ := List.filter_eq_append_iff.mp hstops
  obtain ⟨l₃, l₄, rfl, hskip, hr, -⟩ := List.filter_eq_cons_iff.mp hl₂
  -- the stop stands in the trace right after `l₁ ++ l₃`, which is what was handed over before it
  have hlen : (l₁ ++ l₃).length < T.length := by
    have hl := congrArg List.length hsplit
    simp only [List.length_map, List.length_append, List.length_cons] at hl
    simp only [List.length_append]
    omega
  have hat : T[(l₁ ++ l₃).length].1 = r := by
    have hlen' : (l₁ ++ l₃).length < (T.map Prod.fst).length := by simpa using hlen
    have hmap : (T.map Prod.fst)[(l₁ ++ l₃).length] = r := by
      simp [hsplit]
    simpa using hmap
  have htake : (T.take (l₁ ++ l₃).length).map Prod.fst = l₁ ++ l₃ := by
    rw [List.map_take, hsplit, ← List.append_assoc, List.take_left]
  have hrk : r.kind = .stop := by simpa using hr
  -- the parent station is a filled reference to stops
  obtain ⟨col, hcol, hname, htarget⟩ := Kind.stop_parent_column
  obtain ⟨hcell, hne⟩ := Record.text?_eq_some.mp hp
  have hpresent : Cell.present col.optional (T[(l₁ ++ l₃).length].1.cell col.name) = true := by
    rw [hat, hname, hcell]
    cases col.optional <;> simp [Cell.present, FieldValue.present, hne]
  obtain ⟨e, he, hek, heid⟩ :=
    names_handed_before hint hids hlen (by rw [hat, hrk]; exact hcol) htarget hpresent
  rw [htake] at he
  refine ⟨e, ?_, ?_⟩
  · -- the stops handed over before it are those of `l₁`
    rw [← hl₁]
    rcases List.mem_append.mp he with he | he
    · exact List.mem_filter.mpr ⟨he, by simpa using hek⟩
    · exact absurd (by simpa using hek) (hskip e he)
  · rw [heid, hat, hname]
    simp [Record.str, hcell, Cell.toText, FieldValue.toText]

end FirstCopy

section Strict

variable {f : MemoryFeed} (hshaped : ∀ k, ∀ r ∈ f.records k, r.Shaped) {options : CopyOptions}
  (hstrict : options.allowEntityErrors = false)
include hshaped hstrict

/-- With problems not allowed, every record of the feed a copy writes is in written form. -/
theorem copyFeed_memory_writtenForm :
    ∀ k, ∀ e ∈ (copyFeed f.source MemoryFeed.sink {} IdMap.empty {} options).2.store.records k,
      e.WrittenForm := by
  intro k e he
  rw [copyFeed_memory_eq_log, MemoryFeed.records_ofRecords] at he
  exact (copyFeed_keeps_ids MemoryFeed.sink_keepsIds (MemoryFeed.shaped_of_handsOut hshaped) {}
    IdMap.keepsIds_empty hstrict false).written e (List.mem_filter.mp he).1

/-- With problems not allowed and no `failFast`, the stop times of the feed a copy writes come
trip after trip, in byte order of the trips: for each trip, some of its stop times in the feed
copied, whose group passed the check of its trip, in the order the check sorted them. -/
theorem copyFeed_memory_stopTimes (hkeyed : f.Keyed) (hfast : options.failFast = false) :
    ∃ runs : List (String × List Record),
      (copyFeed f.source MemoryFeed.sink {} IdMap.empty {} options).2.store.records .stopTime =
        (runs.map Prod.snd).flatten ∧
      (runs.map Prod.fst).Pairwise (· < ·) ∧ ∀ x ∈ runs, Copying.TripKeptFrom f.source x.1 x.2 := by
  obtain ⟨result, hok⟩ := copyFeed_memory_finishes f {} IdMap.empty {} hfast false
  -- the logging copy ends as the copy does
  have hnat := copyFeed_natural (Sink.logged_simulates MemoryFeed.sink) f.source
    (({} : MemoryFeed), ([] : List Record)) IdMap.empty {} options false
  have hokL : (copyFeed f.source MemoryFeed.sink.logged ({}, []) IdMap.empty {} options).1 = .ok result :=
    (congrArg Prod.fst hnat).symm.trans hok
  obtain ⟨runs, hlog, hsorted, hall⟩ := copyFeed_logs_kept_trips MemoryFeed.sink_keepsIds
    (MemoryFeed.shaped_of_handsOut hshaped) (MemoryFeed.faithful_source hkeyed) {} IdMap.keepsIds_empty
    hstrict hokL
  refine ⟨runs, ?_, hsorted, hall⟩
  rw [copyFeed_memory_eq_log, MemoryFeed.records_ofRecords, hlog]

/-- With problems not allowed and no `failFast`, a copy of a keyed feed of well-formed records
writes a feed in copy form whenever the stop times it wrote for each trip pass the check of
their trip together. -/
theorem copyFeed_writes_copyForm (hkeyed : f.Keyed) (hfast : options.failFast = false)
    (hpass : (copyFeed f.source MemoryFeed.sink {} IdMap.empty {} options).2.store.TripsPass) :
    (copyFeed f.source MemoryFeed.sink {} IdMap.empty {} options).2.store.CopyForm := by
  have hwritten := copyFeed_memory_writtenForm hshaped hstrict
  obtain ⟨runs, hstops, hsorted, hall⟩ := copyFeed_memory_stopTimes hshaped hstrict hkeyed hfast
  refine ⟨?_, fun k r hr => ⟨(hwritten k r hr).shaped, (hwritten k r hr).errors⟩,
    fun k r hr => (hwritten k r hr).settled, copyFeed_memory_closed f options,
    copyFeed_memory_parentsFirst f options, ?_, fun t => ?_, hpass⟩
  · rw [copyFeed_memory_eq_log]
    exact MemoryFeed.keyed_ofRecords _
  · rw [hstops]
    exact Copying.pairwise_tripId_flatten hsorted hall
  · unfold MemoryFeed.tripStopTimes
    rw [hstops]
    exact Copying.pairwise_sequence_filter_flatten t hsorted hall

end Strict

/-- Copying is idempotent on the feeds whose written trips pass their check. Copy a keyed feed
of well-formed records in memory into an empty feed in memory, with the default options, no
stage and an empty identifier map. If the stop times written for each trip pass the check of
their trip together, then copying the written feed again the same way finishes, completed, with
no record dropped and no problem recorded, and writes every collection as the first copy wrote
it. -/
theorem copyFeed_again_writes_same {f : MemoryFeed} (hkeyed : f.Keyed)
    (hshaped : ∀ k, ∀ r ∈ f.records k, r.Shaped)
    (hpass : (copyFeed f.source MemoryFeed.sink {} IdMap.empty {} {}).2.store.TripsPass) :
    ∃ result, (copyFeed (copyFeed f.source MemoryFeed.sink {} IdMap.empty {} {}).2.store.source
        MemoryFeed.sink {} IdMap.empty {} {}).1 = .ok result ∧
      result.status = .completed ∧
      (∀ c ∈ result.collections, c.dropped = 0 ∧ c.errorsByKind = [] ∧ c.errors = []) ∧
      ∀ k, (copyFeed (copyFeed f.source MemoryFeed.sink {} IdMap.empty {} {}).2.store.source
        MemoryFeed.sink {} IdMap.empty {} {}).2.store.records k =
          (copyFeed f.source MemoryFeed.sink {} IdMap.empty {} {}).2.store.records k :=
  copyFeed_copyForm_replays (copyFeed_writes_copyForm hshaped rfl hkeyed rfl hpass) rfl

/-- The small feed with its stations last, whose trip stops twice at the platform, is copied
again as it was written. -/
theorem stationFeed_copied_again_same :
    stationFeed.Keyed ∧ (∀ k, ∀ r ∈ stationFeed.records k, r.Shaped) ∧
      (copyFeed stationFeed.source MemoryFeed.sink {} IdMap.empty {} {}).2.store.TripsPass ∧
      ∃ result, (copyFeed (copyFeed stationFeed.source MemoryFeed.sink {} IdMap.empty {} {}).2.store.source
          MemoryFeed.sink {} IdMap.empty {} {}).1 = .ok result ∧
        result.status = .completed ∧
        (∀ c ∈ result.collections, c.dropped = 0 ∧ c.errorsByKind = [] ∧ c.errors = []) ∧
        ∀ k, (copyFeed (copyFeed stationFeed.source MemoryFeed.sink {} IdMap.empty {} {}).2.store.source
          MemoryFeed.sink {} IdMap.empty {} {}).2.store.records k =
            (copyFeed stationFeed.source MemoryFeed.sink {} IdMap.empty {} {}).2.store.records k := by
  have hkeyed : stationFeed.Keyed := MemoryFeed.keyed_ofRecords _
  have hshaped : ∀ k, ∀ r ∈ stationFeed.records k, r.Shaped := by
    have hall : ∀ k ∈ Kind.all, ∀ r ∈ stationFeed.records k, r.Shaped := by
      decide +kernel
    exact fun k => hall k (Kind.mem_all k)
  have hpass : (copyFeed stationFeed.source MemoryFeed.sink {} IdMap.empty {} {}).2.store.TripsPass := by
    unfold MemoryFeed.TripsPass
    decide +kernel
  exact ⟨hkeyed, hshaped, hpass, copyFeed_again_writes_same hkeyed hshaped hpass⟩

/-- Copying is not idempotent on every feed. The small feed's stop time at a missing stop is
dropped on its own, so its trip `T` is written with one stop time alone; copied again, that stop
time is dropped with a problem of its trip, so the second copy records an error and writes no
stop time. -/
theorem copyFeed_again_drops_lone_stop_time :
    ((copyFeed strayStopFeed.source MemoryFeed.sink {} IdMap.empty {} {}).2.store.records .stopTime).length = 1 ∧
      (copyFeed (copyFeed strayStopFeed.source MemoryFeed.sink {} IdMap.empty {} {}).2.store.source
        MemoryFeed.sink {} IdMap.empty {} {}).2.store.records .stopTime = [] ∧
      (copyFeed (copyFeed strayStopFeed.source MemoryFeed.sink {} IdMap.empty {} {}).2.store.source
        MemoryFeed.sink {} IdMap.empty {} {}).1.toOption.map
          (fun result => result.collections.any fun c => !c.errors.isEmpty) = some true := by
  decide +kernel

end TransitFeed

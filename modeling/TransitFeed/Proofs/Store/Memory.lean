import TransitFeed.Store.Memory

/-!
# What sources and destinations promise

A copy reads its records from a source and writes them to a destination, and relies on
what both promise. A source hands out, for a collection, a stream of records of that
collection, and for some trips, stop times of those trips. A destination gives one
identifier per record of a batch.

A feed in memory keeps both promises as a source when every collection holds records of
its own kind, as every feed built from records does, and always as a destination.
-/

namespace TransitFeed

/-- What a source promises of its streams: the stream of a collection holds records of that
collection, and the stop times it hands out for some trips belong to those trips. -/
structure Source.Faithful (source : Source) : Prop where
  read_kind : ∀ k st r, source.read k = .ok (some st) → Except.ok r ∈ st.items → r.kind = k
  stopTimesOf_trip : ∀ trips st r, source.stopTimesOf trips = .ok (some st) →
    Except.ok r ∈ st.items → r.kind = .stopTime → r.str "trip_id" ∈ trips

/-- What a destination promises of a batch: one identifier per record. -/
def Sink.OneIdEach {σ : Type} (sink : Sink σ) : Prop :=
  ∀ store rs store' ids, sink.addAll store rs = .ok (store', ids) → ids.length = rs.length

namespace MemoryFeed

/-- Every collection of the feed holds records of its own kind. -/
def Keyed (f : MemoryFeed) : Prop := ∀ x ∈ f.collections, ∀ r ∈ x.2, r.kind = x.1

theorem keyed_empty : Keyed {} := by
  simp [Keyed]

/-- Adding a record to its collection keeps every collection to its kind. -/
theorem keyed_push {f : MemoryFeed} (hf : f.Keyed) (r : Record) : (f.push r).Keyed := by
  unfold push
  split
  · intro x hx e he
    obtain ⟨⟨k, rs⟩, hmem, rfl⟩ := List.mem_map.mp hx
    dsimp only at he ⊢
    by_cases hk : (k == r.kind) = true
    · rw [if_pos hk] at he ⊢
      rcases List.mem_append.mp he with he | he
      · exact hf _ hmem e he
      · rw [List.mem_singleton.mp he]
        exact (beq_iff_eq.mp hk).symm
    · rw [if_neg hk] at he ⊢
      exact hf _ hmem e he
  · intro x hx e he
    rcases List.mem_append.mp hx with hx | hx
    · exact hf x hx e he
    · rw [List.mem_singleton.mp hx] at he ⊢
      rw [List.mem_singleton.mp he]

/-- A feed built from records keeps every collection to its kind. -/
theorem keyed_ofRecords (rs : List Record) : (ofRecords rs).Keyed := by
  unfold ofRecords
  suffices ∀ f : MemoryFeed, f.Keyed → (rs.foldl push f).Keyed from this _ keyed_empty
  induction rs with
  | nil => exact fun f hf => hf
  | cons r rs ih => exact fun f hf => ih _ (keyed_push hf r)

/-- The stop times handed out for some trips, or for the other trips. -/
theorem mem_stopTimes {f : MemoryFeed} {trips : List String} {among : Bool} {st : Stream}
    {r : Record} (h : f.stopTimes trips among = some st) (hr : Except.ok r ∈ st.items) :
    ∃ sts, f.collections.lookup .stopTime = some sts ∧ r ∈ sts ∧
      (trips.contains (r.str "trip_id") == among) = true := by
  unfold stopTimes at h
  split at h
  · cases h
  · rename_i sts hsts
    cases h
    obtain ⟨r', hr', he⟩ := List.mem_map.mp hr
    cases he
    exact ⟨sts, hsts, (List.mem_filter.mp hr').1, (List.mem_filter.mp hr').2⟩

/-- A feed whose collections hold records of their own kind is a faithful source. -/
theorem faithful_source {f : MemoryFeed} (hf : f.Keyed) : f.source.Faithful where
  read_kind k st r h hr := by
    simp only [source, Except.ok.injEq, Option.map_eq_some_iff] at h
    obtain ⟨rs, hrs, rfl⟩ := h
    obtain ⟨l₁, l₂, hl, -⟩ := List.lookup_eq_some_iff.mp hrs
    obtain ⟨r', hr', he⟩ := List.mem_map.mp hr
    cases he
    exact hf (k, rs) (by simp [hl]) r hr'
  stopTimesOf_trip trips st r h hr _ := by
    obtain ⟨-, -, -, hin⟩ := mem_stopTimes (Except.ok.inj h) hr
    simpa using hin

/-- A feed in memory gives each record of a batch its own identifier. -/
theorem oneIdEach_sink : sink.OneIdEach := by
  intro store rs store' ids h
  cases h
  exact List.length_map _

end MemoryFeed

end TransitFeed

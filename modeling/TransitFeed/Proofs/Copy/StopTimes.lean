import TransitFeed.Proofs.Copy.Collection
import TransitFeed.Proofs.Feed.TripSequence
import Mathlib

/-!
# How stop times are copied

Stop times are read per batch of copied trips. The items of a batch are grouped by trip:
the group of a trip holds its stop times in stream order, and every other item is a
problem. When the source hands out only stop times of the trips asked for, and no trip is
asked for twice, the groups of the trips asked for hold every stop time of the batch
once. The batches themselves are pieces of the list of copied trips, so no batch names a
trip twice.
-/

namespace TransitFeed

namespace Copying

/-- Whether an item of a stream is a stop time. -/
def isStopTime : Except Issue Record → Bool
  | .ok r => decide (r.kind = .stopTime)
  | .error _ => false

/-- The stop times of a trip among the items of a stream, in stream order. -/
def tripStops (items : List (Except Issue Record)) (trip : String) : List Record :=
  items.filterMap fun
    | .ok r => if r.kind = .stopTime ∧ r.str "trip_id" = trip then some r else none
    | .error _ => none

@[simp] theorem tripStops_nil (trip : String) : tripStops [] trip = [] := rfl

theorem tripStops_cons (item : Except Issue Record) (rest : List (Except Issue Record))
    (trip : String) :
    tripStops (item :: rest) trip =
      (match item with
        | .ok r => if r.kind = .stopTime ∧ r.str "trip_id" = trip then [r] else []
        | .error _ => []) ++ tripStops rest trip := by
  cases item with
  | ok r => by_cases h : r.kind = .stopTime ∧ r.str "trip_id" = trip <;> simp [tripStops, h]
  | error i => rfl

/-- The stop times of a trip are stop times of that trip. -/
theorem mem_tripStops {items : List (Except Issue Record)} {trip : String} {r : Record} :
    r ∈ tripStops items trip ↔ Except.ok r ∈ items ∧ r.kind = .stopTime ∧ r.str "trip_id" = trip := by
  simp only [tripStops, List.mem_filterMap]
  constructor
  · rintro ⟨item, hitem, hr⟩
    cases item with
    | ok r' =>
      by_cases h : r'.kind = .stopTime ∧ r'.str "trip_id" = trip
      · simp only [h, and_self, if_true, Option.some.injEq] at hr
        subst hr
        exact ⟨hitem, h⟩
      · simp [h] at hr
    | error i => cases hr
  · rintro ⟨hitem, h⟩
    exact ⟨.ok r, hitem, by simp [h]⟩

/-- Changing the entry of one key leaves the lookup of every other key as it was. -/
theorem lookup_map_update (l : List (String × List Record)) (a b : String) (v : List Record) :
    (l.map fun x => match x with | (t, g) => if (t == a) = true then (t, v) else (t, g)).lookup b =
      if b = a then (l.lookup b).map fun _ => v else l.lookup b := by
  induction l with
  | nil => simp
  | cons x l ih =>
    obtain ⟨t, g⟩ := x
    rw [List.map_cons]
    by_cases hbt : b = t
    · subst hbt
      by_cases hba : b = a <;> simp [hba]
    · -- the head has another key, and is skipped on both sides
      have hne : (b == t) = false := by simp [hbt]
      have hhead : (if (t == a) = true then (t, v) else (t, g)) = (t, if (t == a) = true then v else g) := by
        by_cases h : (t == a) = true <;> simp [h]
      dsimp only
      rw [hhead, List.lookup_cons, hne, List.lookup_cons, hne]
      exact ih

/-- The group of a trip holds its stop times, in stream order; a trip without stop times
has no group. -/
theorem lookup_groupByTrip (items : List (Except Issue Record)) (trip : String) :
    (groupByTrip items).1.lookup trip =
      if tripStops items trip = [] then none else some (tripStops items trip) := by
  induction items generalizing trip with
  | nil => rfl
  | cons item rest ih =>
    rw [groupByTrip.eq_2, tripStops_cons]
    rcases hg : groupByTrip rest with ⟨groups, problems⟩
    simp only [hg] at ih
    dsimp only
    cases item with
    | error i => simpa using ih trip
    | ok r =>
      by_cases hk : r.kind = .stopTime
      · simp only [hk, if_true, true_and]
        cases hl : groups.lookup (r.str "trip_id") with
        | some sts =>
          -- the trip has a group already, which the stop time now heads
          have hsts : tripStops rest (r.str "trip_id") = sts := by
            rw [ih] at hl
            split at hl <;> simp_all
          rw [lookup_map_update]
          by_cases ht : trip = r.str "trip_id"
          · subst ht
            simp [hl, hsts]
          · simp [ht, Ne.symm ht, ih trip]
        | none =>
          -- the trip's first stop time opens its group
          have hsts : tripStops rest (r.str "trip_id") = [] := by
            rw [ih] at hl
            split at hl <;> simp_all
          by_cases ht : trip = r.str "trip_id"
          · subst ht
            simp [hsts]
          · have hne : (trip == r.str "trip_id") = false := by simp [ht]
            rw [List.lookup_cons, hne]
            simp [Ne.symm ht, ih trip]
      · simpa [hk] using ih trip

/-- Every item that is not a stop time is a problem. -/
theorem length_problems_groupByTrip (items : List (Except Issue Record)) :
    (groupByTrip items).2.length = (items.filter fun item => !isStopTime item).length := by
  induction items with
  | nil => rfl
  | cons item rest ih =>
    rw [groupByTrip.eq_2]
    rcases hg : groupByTrip rest with ⟨groups, problems⟩
    rw [hg] at ih
    dsimp only at ih ⊢
    cases item with
    | error i => simp [isStopTime, ih]
    | ok r =>
      by_cases hk : r.kind = .stopTime
      · simp only [hk, if_true]
        split <;> simp [isStopTime, hk, ih]
      · simp [isStopTime, hk, ih]

theorem sum_map_ite_eq_count (l : List String) (a : String) :
    (l.map fun t => if a = t then 1 else 0).sum = l.count a := by
  induction l with
  | nil => rfl
  | cons t l ih =>
    by_cases h : a = t
    · subst h
      simp [ih, Nat.add_comm]
    · simp [ih, h, Ne.symm h]

/-- When every stop time of a batch belongs to a trip asked for, and no trip is asked for
twice, the groups of the trips asked for hold every stop time once. -/
theorem sum_length_tripStops {items : List (Except Issue Record)} {trips : List String}
    (hnodup : trips.Nodup)
    (hin : ∀ r, Except.ok r ∈ items → r.kind = .stopTime → r.str "trip_id" ∈ trips) :
    (trips.map fun t => (tripStops items t).length).sum = (items.filter isStopTime).length := by
  induction items with
  | nil => simp
  | cons item rest ih =>
    have ih := ih fun r hr hk => hin r (List.mem_cons_of_mem _ hr) hk
    simp only [tripStops_cons, List.length_append]
    rw [List.sum_map_add, ih]
    cases item with
    | error i => simp [isStopTime]
    | ok r =>
      by_cases hk : r.kind = .stopTime
      · have hmem := hin r (by simp) hk
        have hone : (trips.map fun t => (if r.str "trip_id" = t then [r] else []).length).sum = 1 := by
          rw [← List.count_eq_one_of_mem hnodup hmem, ← sum_map_ite_eq_count]
          congr 1
          exact List.map_congr_left fun t _ => by split <;> rfl
        simp only [hk, true_and]
        rw [hone]
        simp [isStopTime, hk, Nat.add_comm]
      · simp [isStopTime, hk]

theorem getD_lookup_groupByTrip (items : List (Except Issue Record)) (trip : String) :
    ((groupByTrip items).1.lookup trip).getD [] = tripStops items trip := by
  rw [lookup_groupByTrip]
  split <;> simp_all

/-- The group a trip has is the trip's stop times among the items. -/
theorem tripStops_of_lookup_groupByTrip {items : List (Except Issue Record)} {trip : String}
    {sts : List Record} (h : (groupByTrip items).1.lookup trip = some sts) : tripStops items trip = sts := by
  rw [← getD_lookup_groupByTrip, h]
  rfl

/-- A group holds stop times only. -/
theorem kind_of_mem_groupByTrip {items : List (Except Issue Record)} {trip : String}
    {x : Record} (hx : x ∈ ((groupByTrip items).1.lookup trip).getD []) : x.kind = .stopTime := by
  rw [getD_lookup_groupByTrip] at hx
  exact (mem_tripStops.mp hx).2.1

/-- When every stop time of a batch belongs to a trip asked for, and no trip is asked for
twice, every item of the batch is a problem or in the group of one trip asked for. -/
theorem length_eq_problems_add_groups {items : List (Except Issue Record)} {trips : List String}
    (hnodup : trips.Nodup)
    (hin : ∀ r, Except.ok r ∈ items → r.kind = .stopTime → r.str "trip_id" ∈ trips) :
    items.length = (groupByTrip items).2.length +
      (trips.map fun t => (((groupByTrip items).1.lookup t).getD []).length).sum := by
  simp only [getD_lookup_groupByTrip]
  rw [sum_length_tripStops hnodup hin, length_problems_groupByTrip, Nat.add_comm]
  exact List.length_eq_length_filter_add isStopTime

/-- The batches of trips are pieces of the list of trips. -/
theorem sublist_of_mem_chunks {size : Nat} {xs c : List String} (h : c ∈ chunks size xs) :
    c.Sublist xs := by
  suffices ∀ fuel (ys : List String), c ∈ chunks.go size ys fuel → c.Sublist ys from
    this _ _ h
  intro fuel
  induction fuel with
  | zero => simp [chunks.go]
  | succ fuel ih =>
    intro ys hc
    rw [chunks.go.eq_2] at hc
    split at hc
    · cases hc
    · rcases List.mem_cons.mp hc with rfl | hc
      · exact List.take_sublist _ _
      · exact (ih _ hc).trans (List.drop_sublist _ _)

variable {σ : Type}

/-- Copying the records a stop time became, in order: a ready stop time joins the batch,
any other ready record is written under its own identifier, and the rest is done with. -/
def Batched (sink : Sink σ) : List Record → List Record → Run σ → List Record → Run σ → Prop
  | [], batch, s, batch', s' => batch' = batch ∧ s' = s
  | out :: rest, batch, s, batch', s' => ∃ o s1, exec (prepare out false) s = (.ok o, s1) ∧
      match o with
      | .ready e =>
        if e.kind = .stopTime then Batched sink rest (batch ++ [e]) s1 batch' s'
        else ∃ s2, exec (write sink e out.entityId) s1 = (.ok (), s2) ∧ Batched sink rest batch s2 batch' s'
      | _ => Batched sink rest batch s1 batch' s'

/-- The loop that batches the records a stop time became, from any batch. -/
theorem batched_of_exec {sink : Sink σ} {outs acc batch : List Record} {s s' : Run σ}
    (h : exec (do
      let mut batch := acc
      for out in outs do
        match ← prepare out false with
        | .ready e =>
          if e.kind = .stopTime then batch := batch ++ [e]
          else write sink e out.entityId
        | _ => pure ()
      return batch) s = (.ok batch, s')) :
    Batched sink outs acc s batch s' := by
  obtain ⟨b, s1, hfor, hp⟩ := exec_bind_eq_ok.mp h
  obtain ⟨rfl, rfl⟩ := exec_pure_eq_ok hp
  clear h hp
  induction outs generalizing acc s with
  | nil => exact ⟨(Except.ok.inj (Prod.mk.inj hfor).1).symm, (Prod.mk.inj hfor).2.symm⟩
  | cons out rest ih =>
    rw [exec_forIn_cons] at hfor
    split at hfor
    · rename_i hstep
      obtain ⟨o, t1, _, hstep⟩ := exec_bind_eq_ok.mp hstep
      cases o with
      | ready e =>
        dsimp only at hstep
        split at hstep
        · cases hstep
        · obtain ⟨_, t2, _, hs⟩ := exec_bind_eq_ok.mp hstep
          cases hs
      | deferred e => cases hstep
      | rejected => cases hstep
    · rename_i hstep
      obtain ⟨o, t1, hp, hstep⟩ := exec_bind_eq_ok.mp hstep
      refine ⟨o, t1, hp, ?_⟩
      cases o with
      | ready e =>
        dsimp only at hstep ⊢
        split at hstep
        · rename_i hk
          rw [if_pos hk]
          obtain ⟨hb, rfl⟩ := exec_pure_eq_ok hstep
          cases hb
          exact ih hfor
        · rename_i hk
          rw [if_neg hk]
          obtain ⟨_, t2, hw, hs⟩ := exec_bind_eq_ok.mp hstep
          obtain ⟨hb, rfl⟩ := exec_pure_eq_ok hs
          cases hb
          exact ⟨t2, hw, ih hfor⟩
      | deferred e =>
        obtain ⟨hb, rfl⟩ := exec_pure_eq_ok hstep
        cases hb
        exact ih hfor
      | rejected =>
        obtain ⟨hb, rfl⟩ := exec_pure_eq_ok hstep
        cases hb
        exact ih hfor
    · cases hfor

/-- A stop time goes through the filters and the expansions of the stages, and the records
it became are batched. -/
theorem processStopTime_ok {sink : Sink σ} {r : Record} {s s' : Run σ} {batch : List Record}
    (h : exec (processStopTime sink r) s = (.ok batch, s')) :
    Batched sink ((s.pipeline.filter s.map r).1.expand s.map (s.pipeline.filter s.map r).2).2 []
      { s with pipeline := ((s.pipeline.filter s.map r).1.expand s.map (s.pipeline.filter s.map r).2).1 }
      batch s' := by
  unfold processStopTime at h
  rw [exec_bind_of_ok (exec_filterStages r s), exec_bind_of_ok (exec_expandStages _ _)] at h
  exact batched_of_exec h

/-- Copying the sorted stop times of a trip one at a time, the batch written whenever it
reaches the batch size. -/
def TripRun (sink : Sink σ) (batchSize : Nat) :
    List Record → List Record → Run σ → List Record → Run σ → Prop
  | [], batch, s, batch', s' => batch' = batch ∧ s' = s
  | st :: rest, batch, s, batch', s' => ∃ more s1, exec (processStopTime sink st) s = (.ok more, s1) ∧
      if batchSize ≤ (batch ++ more).length then
        ∃ s2, exec (flush sink (batch ++ more)) s1 = (.ok (), s2) ∧ TripRun sink batchSize rest [] s2 batch' s'
      else TripRun sink batchSize rest (batch ++ more) s1 batch' s'

/-- The loop over the sorted stop times of a trip, from any batch. -/
theorem tripRun_of_exec {sink : Sink σ} {batchSize : Nat} {sts acc batch : List Record}
    {s s' : Run σ}
    (h : exec (do
      let mut batch := acc
      for st in sts do
        batch := batch ++ (← processStopTime sink st)
        if batch.length ≥ batchSize then
          flush sink batch
          batch := []
      return batch) s = (.ok batch, s')) :
    TripRun sink batchSize sts acc s batch s' := by
  obtain ⟨b, s1, hfor, hp⟩ := exec_bind_eq_ok.mp h
  obtain ⟨rfl, rfl⟩ := exec_pure_eq_ok hp
  clear h hp
  induction sts generalizing acc s with
  | nil => exact ⟨(Except.ok.inj (Prod.mk.inj hfor).1).symm, (Prod.mk.inj hfor).2.symm⟩
  | cons st rest ih =>
    rw [exec_forIn_cons] at hfor
    split at hfor
    · rename_i hstep
      obtain ⟨more, t1, _, hstep⟩ := exec_bind_eq_ok.mp hstep
      dsimp only at hstep
      split at hstep
      · obtain ⟨_, t2, _, hs⟩ := exec_bind_eq_ok.mp hstep
        cases hs
      · cases hstep
    · rename_i hstep
      obtain ⟨more, t1, hp, hstep⟩ := exec_bind_eq_ok.mp hstep
      refine ⟨more, t1, hp, ?_⟩
      dsimp only at hstep
      split at hstep
      · rename_i hlen
        rw [if_pos hlen]
        obtain ⟨_, t2, hf, hs⟩ := exec_bind_eq_ok.mp hstep
        obtain ⟨hb, rfl⟩ := exec_pure_eq_ok hs
        cases hb
        exact ⟨t2, hf, ih hfor⟩
      · rename_i hlen
        rw [if_neg hlen]
        obtain ⟨hb, rfl⟩ := exec_pure_eq_ok hstep
        cases hb
        exact ih hfor
    · cases hfor

/-- The stop times of a trip are checked together: with problems, and problems not allowed,
all of them are dropped; otherwise the problems are warnings and the sorted stop times are
copied one at a time. -/
theorem copyTrip_ok {sink : Sink σ} {batchSize : Nat} {sts batch batch' sorted : List Record}
    {errors : List Issue} {s s' : Run σ} (hv : validateStopTimes sts = (sorted, errors))
    (h : exec (copyTrip sink batchSize sts batch) s = (.ok batch', s')) :
    (errors ≠ [] ∧ s.options.allowEntityErrors = false ∧ batch' = batch ∧
      exec (reject .stopTime errors sorted.length) s = (.ok (), s')) ∨
    ∃ s1, (errors = [] ∧ s1 = s ∨
        errors ≠ [] ∧ s.options.allowEntityErrors = true ∧ s1 = (exec (warn .stopTime errors) s).2) ∧
      TripRun sink batchSize sorted batch s1 batch' s' := by
  unfold copyTrip at h
  rw [hv] at h
  dsimp only at h
  split at h
  · rename_i herr
    have hne : errors ≠ [] := by simpa [List.isEmpty_iff] using herr
    rw [exec_bind_of_ok (exec_get s)] at h
    split at h
    · rename_i hallow
      obtain ⟨_, s1, hr, hp⟩ := exec_bind_eq_ok.mp h
      obtain ⟨hb, rfl⟩ := Prod.mk.inj hp
      refine .inl ⟨hne, by simpa using hallow, (Except.ok.inj hb).symm, hr⟩
    · rename_i hallow
      rw [exec_bind_of_ok (exec_warn _ _ s)] at h
      exact .inr ⟨_, .inr ⟨hne, by simpa using hallow, rfl⟩, tripRun_of_exec h⟩
  · rename_i herr
    have he : errors = [] := by simpa [List.isEmpty_iff] using herr
    exact .inr ⟨s, .inl ⟨he, rfl⟩, tripRun_of_exec h⟩

/-- The state after counting `n` items of a collection as read. -/
def countedRead (k : Kind) : Nat → Run σ → Run σ
  | 0, s => s
  | n + 1, s => countedRead k n (exec (countRead k) s).2

/-- Counting every item of a list as read. -/
theorem exec_countEach {α : Type} (k : Kind) (xs : List α) (s : Run σ) :
    exec (forIn xs PUnit.unit fun _ _ => do countRead k; pure (ForInStep.yield PUnit.unit)) s =
      (.ok (), countedRead k xs.length s) := by
  induction xs generalizing s with
  | nil => rfl
  | cons x xs ih =>
    rw [exec_forIn_cons, exec_bind_of_ok (exec_countRead k s)]
    exact ih _

/-- Dropping problems one at a time, each as one dropped record of a collection. -/
def DropsEach (k : Kind) : List Issue → Run σ → Run σ → Prop
  | [], s, s' => s' = s
  | i :: rest, s, s' => ∃ s1, exec (reject k [i] 1) s = (.ok (), s1) ∧ DropsEach k rest s1 s'

theorem dropsEach_of_exec {k : Kind} {problems : List Issue} {s s' : Run σ}
    (h : exec (forIn problems PUnit.unit fun p _ => do
      reject k [p] 1
      pure (ForInStep.yield PUnit.unit)) s = (.ok (), s')) :
    DropsEach k problems s s' := by
  induction problems generalizing s with
  | nil => exact (Prod.mk.inj h).2.symm
  | cons i rest ih =>
    rw [exec_forIn_cons] at h
    split at h
    · rename_i hstep
      obtain ⟨_, _, _, hs⟩ := exec_bind_eq_ok.mp hstep
      cases hs
    · rename_i hstep
      obtain ⟨_, s1, hr, hs⟩ := exec_bind_eq_ok.mp hstep
      obtain ⟨-, rfl⟩ := Prod.mk.inj hs
      exact ⟨_, hr, ih h⟩
    · cases h

/-- Copying the trips of a batch in order, each from its group, keeping the stop times not
written yet. -/
def ChunkRun (sink : Sink σ) (batchSize : Nat) (groups : List (String × List Record)) :
    List String → List Record → Run σ → List Record → Run σ → Prop
  | [], batch, s, batch', s' => batch' = batch ∧ s' = s
  | trip :: rest, batch, s, batch', s' =>
    match groups.lookup trip with
    | some sts => ∃ b1 s1, exec (copyTrip sink batchSize sts batch) s = (.ok b1, s1) ∧
        ChunkRun sink batchSize groups rest b1 s1 batch' s'
    | none => ChunkRun sink batchSize groups rest batch s batch' s'

theorem chunkRun_of_exec {sink : Sink σ} {batchSize : Nat} {groups : List (String × List Record)}
    {trips : List String} {acc batch : List Record} {s s' : Run σ}
    (hfor : exec (forIn trips acc fun trip batch =>
      match groups.lookup trip with
      | some sts => do
        let batch ← copyTrip sink batchSize sts batch
        pure (ForInStep.yield batch)
      | none => pure (ForInStep.yield batch)) s = (.ok batch, s')) :
    ChunkRun sink batchSize groups trips acc s batch s' := by
  induction trips generalizing acc s with
  | nil => exact ⟨(Except.ok.inj (Prod.mk.inj hfor).1).symm, (Prod.mk.inj hfor).2.symm⟩
  | cons trip rest ih =>
    rw [exec_forIn_cons] at hfor
    unfold ChunkRun
    split at hfor
    · rename_i hstep
      split at hstep
      · obtain ⟨_, _, _, hs⟩ := exec_bind_eq_ok.mp hstep
        cases hs
      · cases hstep
    · rename_i hstep
      split at hstep
      · obtain ⟨b1, s1, ht, hs⟩ := exec_bind_eq_ok.mp hstep
        obtain ⟨hb, rfl⟩ := exec_pure_eq_ok hs
        cases hb
        exact ⟨_, s1, ht, ih hfor⟩
      · obtain ⟨hb, rfl⟩ := Prod.mk.inj hstep
        cases Except.ok.inj hb
        exact ih hfor
    · cases hfor

/-- A batch of trips the source has stop times for: every item is counted as read, the
stream ends without its own error, the items that are no stop times are dropped, the
trips are copied from their groups, and what is left of the batch is written. -/
theorem copyChunk_ok {source : Source} {sink : Sink σ} {batchSize : Nat} {chunk : List String}
    {b : Bool} {s s' : Run σ} (h : exec (copyChunk source sink batchSize chunk) s = (.ok b, s')) :
    (source.stopTimesOf chunk = .ok none ∧ b = false ∧ s' = s) ∨
    ∃ st, source.stopTimesOf chunk = .ok (some st) ∧ st.failure = none ∧ b = true ∧
      ∃ s2, DropsEach .stopTime (groupByTrip st.items).2 (countedRead .stopTime st.items.length s) s2 ∧
        ∃ batch s3, ChunkRun sink batchSize (groupByTrip st.items).1 chunk [] s2 batch s3 ∧
          exec (flush sink batch) s3 = (.ok (), s') := by
  unfold copyChunk at h
  split at h
  · cases h
  · rename_i hnone
    obtain ⟨hb, rfl⟩ := Prod.mk.inj h
    exact .inl ⟨hnone, (Except.ok.inj hb).symm, rfl⟩
  · rename_i st hsome
    rw [exec_bind_of_ok (exec_countEach .stopTime st.items s)] at h
    obtain ⟨_, s1, hfinish, h⟩ := exec_bind_eq_ok.mp h
    obtain ⟨hfailure, rfl⟩ := finish_ok hfinish
    rcases hg : groupByTrip st.items with ⟨groups, problems⟩
    rw [hg] at h
    obtain ⟨⟨⟩, s2, hdrops, h⟩ := exec_bind_eq_ok.mp h
    obtain ⟨batch, s3, hchunk, h⟩ := exec_bind_eq_ok.mp h
    obtain ⟨_, s4, hflush, hp⟩ := exec_bind_eq_ok.mp h
    obtain ⟨hb, rfl⟩ := Prod.mk.inj hp
    refine .inr ⟨st, hsome, hfailure, (Except.ok.inj hb).symm, ?_⟩
    rw [hg]
    exact ⟨s2, dropsEach_of_exec hdrops, batch, s3, chunkRun_of_exec hchunk, hflush⟩

/-- The problem of an item of the stop times of trips that were not copied: a stop time
refers to a trip that is not there, and any other item is a stray. -/
def orphanIssue : Except Issue Record → Issue
  | .ok r =>
    if r.kind = .stopTime then (Issue.reference "trip_id" (r.str "trip_id") Kind.trip.fileName).atLine r.line
    else strayIssue r
  | .error i => i

/-- Dropping the items of the stop times of trips that were not copied, each counted as
read first. -/
def Orphaned : List (Except Issue Record) → Run σ → Run σ → Prop
  | [], s, s' => s' = s
  | item :: rest, s, s' => ∃ s1,
      exec (reject .stopTime [orphanIssue item] 1) (exec (countRead .stopTime) s).2 = (.ok (), s1) ∧
        Orphaned rest s1 s'

theorem orphaned_of_exec {st : Stream} {items : List (Except Issue Record)} {n : Nat} {s s' : Run σ}
    (h : exec (forIn (items.zipIdx n) PUnit.unit fun x _ =>
      match x with
      | (item, i) => do
        countRead .stopTime
        guarded st (i + 1) (reject .stopTime [orphanIssue item] 1)
        pure (ForInStep.yield PUnit.unit)) s = (.ok (), s')) :
    Orphaned items s s' := by
  induction items generalizing n s with
  | nil => exact (Prod.mk.inj h).2.symm
  | cons item rest ih =>
    rw [List.zipIdx_cons, exec_forIn_cons] at h
    split at h
    · rename_i hstep
      rw [exec_bind_of_ok (exec_countRead _ s)] at hstep
      obtain ⟨_, _, _, hs⟩ := exec_bind_eq_ok.mp hstep
      cases hs
    · rename_i hstep
      rw [exec_bind_of_ok (exec_countRead _ s)] at hstep
      obtain ⟨_, s1, hr, hs⟩ := exec_bind_eq_ok.mp hstep
      obtain ⟨-, rfl⟩ := Prod.mk.inj hs
      exact ⟨_, (exec_guarded_eq_ok _ _ _ _ _ _).mp hr, ih h⟩
    · cases h

/-- The stop times of trips that were not copied are each counted as read and dropped, and
the stream ends without its own error. -/
theorem rejectOrphans_ok {source : Source} {trips : List String} {s s' : Run σ}
    (h : exec (rejectOrphans source trips) s = (.ok (), s')) :
    (source.stopTimesNotOf trips = .ok none ∧ s' = s) ∨
    ∃ st, source.stopTimesNotOf trips = .ok (some st) ∧ st.failure = none ∧ Orphaned st.items s s' := by
  unfold rejectOrphans at h
  split at h
  · cases h
  · exact .inl ⟨‹_›, (Prod.mk.inj h).2.symm⟩
  · rename_i st hsome
    obtain ⟨_, s1, hloop, h⟩ := exec_bind_eq_ok.mp h
    obtain ⟨hfailure, rfl⟩ := finish_ok h
    exact .inr ⟨st, hsome, hfailure, orphaned_of_exec hloop⟩

/-- Copying the batches of copied trips in order, until the source has no stop times;
`stopped` says whether it had none. -/
def ChunksRun (source : Source) (sink : Sink σ) (batchSize : Nat) :
    List (List String) → Run σ → Run σ → Bool → Prop
  | [], s, s', stopped => s' = s ∧ stopped = false
  | chunk :: rest, s, s', stopped => ∃ b s1, exec (copyChunk source sink batchSize chunk) s = (.ok b, s1) ∧
      if b then ChunksRun source sink batchSize rest s1 s' stopped else s' = s1 ∧ stopped = true

/-- The loop over the batches of trips, which stops at the first batch that had no stop time;
every round that goes on starts again from no early result. -/
theorem chunksRun_of_exec {source : Source} {sink : Sink σ} {n : Nat} {cs : List (List String)}
    {s s' : Run σ} {r : Option Unit × Unit}
    (h : exec (forIn cs ((none : Option Unit), ()) fun chunk _ => do
      let more ← copyChunk source sink n chunk
      if (!more) = true then pure (ForInStep.done (some (), ())) else pure (ForInStep.yield (none, ())))
      s = (.ok r, s')) :
    ChunksRun source sink n cs s s' r.1.isSome := by
  induction cs generalizing s with
  | nil =>
    obtain ⟨rfl, rfl⟩ := exec_pure_eq_ok h
    exact ⟨rfl, rfl⟩
  | cons c cs ih =>
    rw [exec_forIn_cons] at h
    split at h
    · -- the batch had no stop time: the loop ends here, with an early result
      rename_i hstep
      obtain ⟨b, t1, hc, hstep⟩ := exec_bind_eq_ok.mp hstep
      refine ⟨b, t1, hc, ?_⟩
      cases b
      · obtain ⟨rfl, rfl⟩ := exec_pure_eq_ok h
        obtain ⟨hb, rfl⟩ := exec_pure_eq_ok hstep
        cases hb
        exact ⟨rfl, rfl⟩
      · cases hstep
    · rename_i hstep
      obtain ⟨b, t1, hc, hstep⟩ := exec_bind_eq_ok.mp hstep
      refine ⟨b, t1, hc, ?_⟩
      cases b
      · cases hstep
      · obtain ⟨hb, rfl⟩ := exec_pure_eq_ok hstep
        cases hb
        exact ih h
    · cases h

/-- Stop times are copied per batch of copied trips; unless the source had none, the stop
times of the other trips are dropped after. -/
theorem copyStopTimes_ok {source : Source} {sink : Sink σ} {s s' : Run σ}
    (h : exec (copyStopTimes source sink) s = (.ok (), s')) :
    ∃ s1 stopped, ChunksRun source sink (Nat.max 1 s.options.batchSize)
        (chunks (Nat.max 1 s.options.batchSize) (s.map.keysFor Kind.trip.fileName)) s s1 stopped ∧
      (stopped = true ∧ s' = s1 ∨
        stopped = false ∧ exec (rejectOrphans source (s.map.keysFor Kind.trip.fileName)) s1 = (.ok (), s')) := by
  unfold copyStopTimes at h
  rw [exec_bind_of_ok (exec_get s)] at h
  generalize Nat.max 1 s.options.batchSize = n at h ⊢
  generalize s.map.keysFor Kind.trip.fileName = trips at h ⊢
  obtain ⟨r, s1, hfor, hk⟩ := exec_bind_eq_ok.mp h
  refine ⟨s1, r.1.isSome, chunksRun_of_exec hfor, ?_⟩
  obtain ⟨_ | ⟨⟩, ⟨⟩⟩ := r
  · exact .inr ⟨rfl, hk⟩
  · exact .inl ⟨rfl, ((Prod.mk.inj hk).2).symm⟩

end Copying

end TransitFeed

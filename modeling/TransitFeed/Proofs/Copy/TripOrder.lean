import TransitFeed.Proofs.Copy.WriteLog
import TransitFeed.Proofs.Copy.StopTimes
import TransitFeed.Proofs.Feed.TripSequence
import TransitFeed.Feed.Load

/-!
# The stop times a copy writes for a trip

With problems not allowed, the stop times of a trip reach the destination only when their
whole group passed the check of its trip, and then in the order the check sorted them.
Each is the source's stop time with its references remapped and, at most, a distance
along the shape filled in; but single stop times of a group can still be dropped on their
own, for a problem of their own or a reference that does not resolve. So what a copy
writes for a trip is a part of a checked trip, taken in order: its sequence numbers
ascend strictly, but it may be one stop time alone, or miss a timed end.

The pass over the stop times is followed once, under any invariant of the copy that its
steps keep (`LoggedPass`), for copies related to their stop time by any relation: here with
the options fixed, where a stop time is written as a copy of itself; elsewhere with the
identifiers kept, where it is written as it was handed out.
-/

namespace TransitFeed

open TripSequence

/-- `e` is the stop time `r` as a copy writes it: every cell but the references and the
distance along the shape is the one of `r`. -/
def StopTimeCopy (e r : Record) : Prop :=
  e.kind = .stopTime ∧ ∀ name, name ≠ "trip_id" → name ≠ "stop_id" → name ≠ "shape_dist_traveled" →
    e.cell name = r.cell name

/-- A copy of a stop time keeps its sequence number. -/
theorem StopTimeCopy.sequenceOf_eq {e r : Record} (h : StopTimeCopy e r) :
    sequenceOf e = sequenceOf r := by
  simp only [sequenceOf, Record.int?, h.2 "stop_sequence" (by decide) (by decide) (by decide)]

/-- The references of a stop time are its trip and its stop. -/
theorem Kind.stopTime_references : Kind.stopTime.references.map Prod.fst = ["trip_id", "stop_id"] := by
  decide

/-- A stop time through the stages, with its references remapped, is a copy of it. -/
theorem stopTimeCopy_of_updateKeys {p : Pipeline} {m : IdMap} {lookup : KeyLookup} {r e : Record}
    (hr : r.kind = .stopTime) (h : (p.filter m r).2.updateKeys lookup = .ok e) : StopTimeCopy e r := by
  have hkind : (p.filter m r).2.kind = .stopTime := by rw [Pipeline.filter_kind, hr]
  refine ⟨(Record.updateKeys_kind h).trans hkind, fun name h1 h2 h3 => ?_⟩
  have hnot : name ∉ (p.filter m r).2.kind.references.map Prod.fst := by
    rw [hkind, Kind.stopTime_references]
    simp [h1, h2]
  rw [Record.cell_updateKeys_of_not_ref h hnot, Pipeline.filter_cell_of_stopTime m p hr h3]

/-- Each of the `R`-copies of some records is the copy of one of them. -/
theorem exists_of_mem_sublistForall₂ {R : Record → Record → Prop} {ws sorted : List Record}
    (h : List.SublistForall₂ R ws sorted) : ∀ e ∈ ws, ∃ r ∈ sorted, R e r := by
  induction h with
  | nil => simp
  | cons hcopy _ ih =>
    intro e he
    rcases List.mem_cons.mp he with rfl | he
    · exact ⟨_, List.mem_cons_self, hcopy⟩
    · obtain ⟨r, hr, hcopy'⟩ := ih e he
      exact ⟨r, List.mem_cons_of_mem _ hr, hcopy'⟩
  | cons_right _ ih =>
    intro e he
    obtain ⟨r, hr, hcopy⟩ := ih e he
    exact ⟨r, List.mem_cons_of_mem _ hr, hcopy⟩

/-- Copies of some stop times ascending strictly by sequence number ascend alike. -/
theorem pairwise_of_sublistForall₂ {ws sorted : List Record}
    (h : List.SublistForall₂ StopTimeCopy ws sorted)
    (hsorted : sorted.Pairwise (fun a b => sequenceOf a < sequenceOf b)) :
    ws.Pairwise (fun a b => sequenceOf a < sequenceOf b) := by
  induction h with
  | nil => exact List.Pairwise.nil
  | cons hcopy hrest ih =>
    obtain ⟨hhead, htail⟩ := List.pairwise_cons.mp hsorted
    refine List.pairwise_cons.mpr ⟨fun e he => ?_, ih htail⟩
    -- a later copy stands for a later stop time of the sorted ones
    obtain ⟨r, hr, hcopy'⟩ := exists_of_mem_sublistForall₂ hrest e he
    rw [hcopy.sequenceOf_eq, hcopy'.sequenceOf_eq]
    exact hhead r hr
  | cons_right _ ih => exact ih (List.pairwise_cons.mp hsorted).2

theorem sublistForall₂_append {α β : Type} {R : α → β → Prop} {l₁ l₂ : List α} {m₁ m₂ : List β}
    (h₁ : List.SublistForall₂ R l₁ m₁) (h₂ : List.SublistForall₂ R l₂ m₂) :
    List.SublistForall₂ R (l₁ ++ l₂) (m₁ ++ m₂) := by
  obtain ⟨k₁, hk₁, hs₁⟩ := List.sublistForall₂_iff.mp h₁
  obtain ⟨k₂, hk₂, hs₂⟩ := List.sublistForall₂_iff.mp h₂
  exact List.sublistForall₂_iff.mpr ⟨k₁ ++ k₂, List.rel_append hk₁ hk₂, hs₁.append hs₂⟩

/-- The group `sts` of a trip passed the check of its trip, and `ws` are copies of some of
its stop times, in the order the check sorted them. -/
structure TripCopy (sts ws : List Record) : Prop where
  checked : (validateStopTimes sts).2 = []
  copies : List.SublistForall₂ StopTimeCopy ws (validateStopTimes sts).1

/-- What is written for a checked trip ascends strictly by sequence number. -/
theorem TripCopy.ascending {sts ws : List Record} (h : TripCopy sts ws) :
    ws.Pairwise (fun a b => sequenceOf a < sequenceOf b) := by
  have hv : validateStopTimes sts = ((validateStopTimes sts).1, []) := Prod.ext rfl h.checked
  exact pairwise_of_sublistForall₂ h.copies (validateStopTimes_ascending hv).2

/-- The stop times `ws` were written for trip `t`: the source handed out the stop times of
some trips, `t` among them, and `ws` are copies of some stop times of `t` whose group passed
the check of its trip, in the order the check sorted them. -/
def TripWritten (source : Source) (t : String) (ws : List Record) : Prop :=
  ∃ trips st, source.stopTimesOf trips = .ok (some st) ∧ t ∈ trips ∧
    TripCopy (Copying.tripStops st.items t) ws

/-- The group `sts` of a trip passed the check of its trip, and `ws` are `R`-copies of some of
its stop times, in the order the check sorted them. -/
structure TripWrites (R : Record → Record → Prop) (sts ws : List Record) : Prop where
  checked : (validateStopTimes sts).2 = []
  copies : List.SublistForall₂ R ws (validateStopTimes sts).1

/-- The stop times `ws` were written for trip `t` as `R`-copies: the source handed out the stop
times of some trips, `t` among them, and `ws` are `R`-copies of some stop times of `t` whose
group passed the check of its trip, in the order the check sorted them. -/
def TripWritesFrom (source : Source) (R : Record → Record → Prop) (t : String) (ws : List Record) :
    Prop :=
  ∃ trips st, source.stopTimesOf trips = .ok (some st) ∧ t ∈ trips ∧
    TripWrites R (Copying.tripStops st.items t) ws

theorem TripWritesFrom.tripWritten {source : Source} {t : String} {ws : List Record}
    (h : TripWritesFrom source StopTimeCopy t ws) : TripWritten source t ws :=
  let ⟨trips, st, hst, ht, hw⟩ := h
  ⟨trips, st, hst, ht, hw.checked, hw.copies⟩

/-- What is written for trips, as copies that keep a stop time a stop time, is stop times
only. -/
theorem filter_flatten_of_writes {source : Source} {R : Record → Record → Prop}
    (hR : ∀ {e r}, R e r → r.kind = .stopTime → e.kind = .stopTime) {runs : List (String × List Record)}
    (hall : ∀ x ∈ runs, TripWritesFrom source R x.1 x.2) :
    (runs.map Prod.snd).flatten.filter (·.kind = .stopTime) = (runs.map Prod.snd).flatten := by
  refine List.filter_eq_self.mpr fun e he => ?_
  obtain ⟨ws, hws, he⟩ := List.mem_flatten.mp he
  obtain ⟨x, hx, rfl⟩ := List.mem_map.mp hws
  obtain ⟨_, _, -, -, htrip⟩ := hall x hx
  -- each written record copies a stop time of the trip's group
  obtain ⟨r, hr, hcopy⟩ := exists_of_mem_sublistForall₂ htrip.copies e he
  have hk := (Copying.mem_tripStops.mp ((perm_validateStopTimes _).subset hr)).2.1
  simpa using hR hcopy hk

namespace Copying

variable {σ : Type}

/-- Counting items as read changes the reports only. -/
theorem countedRead_reports_only (k : Kind) (n : Nat) (s : Run σ) :
    ∃ rs, countedRead k n s = { s with reports := rs } := by
  induction n generalizing s with
  | zero => exact ⟨s.reports, rfl⟩
  | succ n ih => exact ih _

/-- Dropping problems one at a time changes the reports only. -/
theorem DropsEach.reports_only {k : Kind} {problems : List Issue} {s s' : Run σ}
    (h : DropsEach k problems s s') : ∃ rs, s' = { s with reports := rs } := by
  induction problems generalizing s with
  | nil => exact ⟨s.reports, h⟩
  | cons i rest ih =>
    obtain ⟨s1, hr, hrest⟩ := h
    obtain ⟨-, rfl⟩ := reject_ok hr
    obtain ⟨rs, rfl⟩ := ih hrest
    exact ⟨rs, rfl⟩

/-- Dropping the stop times of trips not copied changes the reports only. -/
theorem Orphaned.reports_only {items : List (Except Issue Record)} {s s' : Run σ}
    (h : Orphaned items s s') : ∃ rs, s' = { s with reports := rs } := by
  induction items generalizing s with
  | nil => exact ⟨s.reports, h⟩
  | cons item rest ih =>
    obtain ⟨s1, hr, hrest⟩ := h
    obtain ⟨-, rfl⟩ := reject_ok hr
    obtain ⟨rs, rfl⟩ := ih hrest
    exact ⟨rs, rfl⟩

/-- The batches of trips, put back together, are a part of the list of trips. -/
theorem flatten_chunks_sublist (size : Nat) (xs : List String) : (chunks size xs).flatten.Sublist xs := by
  suffices ∀ fuel (ys : List String), (chunks.go size ys fuel).flatten.Sublist ys from this _ _
  intro fuel
  induction fuel with
  | zero => simp [chunks.go]
  | succ fuel ih =>
    intro ys
    rw [chunks.go.eq_2]
    split
    · simp
    · rw [List.flatten_cons]
      conv_rhs => rw [← List.take_append_drop size ys]
      exact (List.Sublist.refl _).append (ih _)

/-- A stop time joins the batch as a copy of itself, or is dropped; the destination and the
options are left alone. -/
theorem processStopTime_stopTime {sink : Sink σ} {r : Record} {more : List Record} {s s' : Run σ}
    (hr : r.kind = .stopTime) (h : exec (processStopTime sink r) s = (.ok more, s')) :
    s'.store = s.store ∧ s'.options = s.options ∧ List.SublistForall₂ StopTimeCopy more [r] := by
  have hb := processStopTime_ok h
  rw [Pipeline.expand_of_stopTime _ _ (by rw [Pipeline.filter_kind, hr])] at hb
  obtain ⟨o, s1, hp, hb⟩ := hb
  rcases prepare_cases hp with ⟨hdefer, -⟩ | ⟨e, hkeys, rfl, rfl⟩ | ⟨rfl, errors, -, rfl⟩
  · cases hdefer
  · have hcopy := stopTimeCopy_of_updateKeys hr hkeys
    simp only [hcopy.1, if_true] at hb
    obtain ⟨rfl, rfl⟩ := hb
    exact ⟨rfl, rfl, .cons hcopy .nil⟩
  · obtain ⟨rfl, rfl⟩ := hb
    exact ⟨rfl, rfl, .nil⟩

section Logged

variable {sink : Sink σ} {batchSize : Nat} {s s' : Run (σ × List Record)}

/-- What the steps of a copy into a logging destination keep, for the stop times it writes to
be followed through the pass over them: an invariant `I` of the state, blind to the reports
and with problems not allowed, and one `B` of the records waiting in the batch. The stop times
the source hands out satisfy `G`, and from there each joins the batch as `R`-copies of itself,
the destination left alone. -/
structure LoggedPass (source : Source) (sink : Sink σ) (I : Run (σ × List Record) → Prop)
    (G B : Record → Prop) (R : Record → Record → Prop) : Prop where
  strict : ∀ {s}, I s → s.options.allowEntityErrors = false
  reports : ∀ {s} (rs : List CollectionReport), I s → I { s with reports := rs }
  handsOut : ∀ {trips st r}, source.stopTimesOf trips = .ok (some st) → .ok r ∈ st.items → G r
  processStopTime : ∀ {r more s s'}, r.kind = .stopTime → G r → I s →
    exec (processStopTime sink.logged r) s = (.ok more, s') →
      I s' ∧ s'.store = s.store ∧ (∀ e ∈ more, B e) ∧ List.SublistForall₂ R more [r]
  flush : ∀ {batch s s'}, I s → (∀ e ∈ batch, B e) →
    exec (flush sink.logged batch) s = (.ok (), s') → I s'
  copyCollection : ∀ {k s s'}, k ≠ .stopTime → I s →
    exec (copyCollection source sink.logged k) s = (.ok (), s') → I s'
  kind : ∀ {e r}, R e r → r.kind = .stopTime → e.kind = .stopTime

namespace LoggedPass

variable {source : Source} {I : Run (σ × List Record) → Prop} {G B : Record → Prop}
  {R : Record → Record → Prop} (hp : LoggedPass source sink I G B R)
include hp

/-- Copying the sorted stop times of a trip writes `R`-copies of some of them, in order: those
written, followed by the batch left, are those of the batch before and the new copies. -/
theorem tripRun {sorted acc b : List Record} (hsorted : ∀ r ∈ sorted, r.kind = .stopTime ∧ G r)
    (hi : I s) (hacc : ∀ e ∈ acc, B e) (h : TripRun sink.logged batchSize sorted acc s b s') :
    I s' ∧ (∀ e ∈ b, B e) ∧ ∃ ws, s'.store.2 ++ b = s.store.2 ++ acc ++ ws ∧
      List.SublistForall₂ R ws sorted := by
  induction sorted generalizing acc s with
  | nil =>
    obtain ⟨rfl, rfl⟩ := h
    exact ⟨hi, hacc, [], by simp, .nil⟩
  | cons r rest ih =>
    obtain ⟨more, s1, hstep, h⟩ := h
    obtain ⟨hk, hg⟩ := hsorted r List.mem_cons_self
    have hrest : ∀ x ∈ rest, x.kind = .stopTime ∧ G x := fun x hx =>
      hsorted x (List.mem_cons_of_mem _ hx)
    obtain ⟨hi1, hstore, hmore, hcopies⟩ := hp.processStopTime hk hg hi hstep
    have hall : ∀ e ∈ acc ++ more, B e := fun e he =>
      (List.mem_append.mp he).elim (hacc e) (hmore e)
    split at h
    · -- the batch is full and written; the trip goes on from an empty batch
      obtain ⟨s2, hflush, h⟩ := h
      obtain ⟨hlog, -⟩ := logged_flush hflush
      obtain ⟨hi', hb, ws, hws, hsub⟩ := ih hrest (hp.flush hi1 hall hflush) (by simp) h
      refine ⟨hi', hb, more ++ ws, ?_, sublistForall₂_append hcopies hsub⟩
      rw [hws, hlog, hstore]
      simp
    · obtain ⟨hi', hb, ws, hws, hsub⟩ := ih hrest hi1 hall h
      refine ⟨hi', hb, more ++ ws, ?_, sublistForall₂_append hcopies hsub⟩
      rw [hws, hstore]
      simp

/-- Copying the stop times of a trip writes none of them unless the group passes the check of
its trip, and then `R`-copies of some of them, in the order the check sorted them. -/
theorem copyTrip {sts acc b : List Record} (hsts : ∀ r ∈ sts, r.kind = .stopTime ∧ G r)
    (hi : I s) (hacc : ∀ e ∈ acc, B e)
    (h : exec (copyTrip sink.logged batchSize sts acc) s = (.ok b, s')) :
    I s' ∧ (∀ e ∈ b, B e) ∧ ∃ ws, s'.store.2 ++ b = s.store.2 ++ acc ++ ws ∧
      (ws = [] ∨ TripWrites R sts ws) := by
  rcases hv : validateStopTimes sts with ⟨sorted, errors⟩
  rcases copyTrip_ok hv h with ⟨hne, -, rfl, hr⟩ | ⟨s1, hs1, hrun⟩
  · -- the whole trip is dropped with its problems
    obtain ⟨e, es, rfl⟩ := List.exists_cons_of_ne_nil hne
    obtain ⟨-, rfl⟩ := reject_ok hr
    exact ⟨hp.reports _ hi, hacc, [], by simp, .inl rfl⟩
  · rcases hs1 with ⟨rfl, rfl⟩ | ⟨-, hallow, -⟩
    · have hperm : sorted.Perm sts := by
        have hperm := perm_validateStopTimes sts
        rwa [hv] at hperm
      obtain ⟨hi', hb, ws, hws, hcopies⟩ := hp.tripRun (fun r hr => hsts r (hperm.subset hr)) hi hacc hrun
      exact ⟨hi', hb, ws, hws, .inr ⟨by rw [hv], by rwa [hv]⟩⟩
    · -- problems are not allowed, so a group with problems is never copied with warnings
      rw [hp.strict hi] at hallow
      cases hallow

/-- Copying the trips of a batch from their groups writes, trip after trip, `R`-copies of some
stop times of the trips whose group passes the check. -/
theorem chunkRun {groups : List (String × List Record)} {trips : List String} {acc b : List Record}
    (hgroups : ∀ t, ∀ x ∈ (groups.lookup t).getD [], x.kind = .stopTime ∧ G x)
    (hi : I s) (hacc : ∀ e ∈ acc, B e) (h : ChunkRun sink.logged batchSize groups trips acc s b s') :
    I s' ∧ (∀ e ∈ b, B e) ∧ ∃ runs : List (String × List Record),
      s'.store.2 ++ b = s.store.2 ++ acc ++ (runs.map Prod.snd).flatten ∧
      (runs.map Prod.fst).Sublist trips ∧
      ∀ x ∈ runs, ∃ sts, groups.lookup x.1 = some sts ∧ TripWrites R sts x.2 := by
  induction trips generalizing acc s with
  | nil =>
    obtain ⟨rfl, rfl⟩ := h
    exact ⟨hi, hacc, [], by simp, by simp, by simp⟩
  | cons trip rest ih =>
    unfold ChunkRun at h
    split at h
    · rename_i sts hl
      obtain ⟨b1, s1, ht, h⟩ := h
      have hsts : ∀ x ∈ sts, x.kind = .stopTime ∧ G x := fun x hx =>
        hgroups trip x (by rw [hl]; exact hx)
      obtain ⟨hi1, hb1, ws, hws, hws'⟩ := hp.copyTrip hsts hi hacc ht
      obtain ⟨hi', hb, runs, hruns, hsub, hall⟩ := ih hi1 hb1 h
      refine ⟨hi', hb, ?_⟩
      rcases hws' with rfl | hwrites
      · -- nothing of the trip was written
        refine ⟨runs, ?_, hsub.cons trip, hall⟩
        rw [hruns, hws]
        simp
      · refine ⟨(trip, ws) :: runs, ?_, hsub.cons_cons trip, ?_⟩
        · rw [hruns, hws]
          simp
        · rintro x (_ | ⟨_, hx⟩)
          · exact ⟨sts, hl, hwrites⟩
          · exact hall x hx
    · obtain ⟨hi', hb, runs, hruns, hsub, hall⟩ := ih hi hacc h
      exact ⟨hi', hb, runs, hruns, hsub.cons trip, hall⟩

/-- Copying a batch of trips writes, trip after trip, `R`-copies of some stop times of the trips
of the batch whose group, as the source handed it out, passes the check. -/
theorem copyChunk {chunk : List String} {b : Bool} (hi : I s)
    (h : exec (copyChunk source sink.logged batchSize chunk) s = (.ok b, s')) :
    I s' ∧ ∃ runs : List (String × List Record),
      s'.store.2 = s.store.2 ++ (runs.map Prod.snd).flatten ∧ (runs.map Prod.fst).Sublist chunk ∧
      ∀ x ∈ runs, ∃ st, source.stopTimesOf chunk = .ok (some st) ∧
        TripWrites R (tripStops st.items x.1) x.2 := by
  rcases copyChunk_ok h with ⟨-, -, rfl⟩ | ⟨st, hsome, -, -, s2, hdrops, batch, s3, hrun, hflush⟩
  · exact ⟨hi, [], by simp, by simp, by simp⟩
  · -- counting the items read and dropping the problems touch the reports only
    obtain ⟨rs1, hrs1⟩ := countedRead_reports_only .stopTime st.items.length s
    rw [hrs1] at hdrops
    obtain ⟨rs2, rfl⟩ := hdrops.reports_only
    have hgroups : ∀ t, ∀ x ∈ ((groupByTrip st.items).1.lookup t).getD [], x.kind = .stopTime ∧ G x := by
      intro t x hx
      rw [getD_lookup_groupByTrip] at hx
      obtain ⟨hitem, hk, -⟩ := mem_tripStops.mp hx
      exact ⟨hk, hp.handsOut hsome hitem⟩
    obtain ⟨hi3, hb, runs, hruns, hsub, hall⟩ :=
      hp.chunkRun hgroups (hp.reports rs2 (hp.reports rs1 hi)) (by simp) hrun
    obtain ⟨hlog, -⟩ := logged_flush hflush
    refine ⟨hp.flush hi3 hb hflush, runs, ?_, hsub, fun x hx => ?_⟩
    · rw [hlog, hruns, List.append_nil]
    · -- a trip has a group exactly when the source handed out stop times of it
      obtain ⟨sts, hl, hwrites⟩ := hall x hx
      rw [lookup_groupByTrip] at hl
      split at hl
      · cases hl
      · cases hl
        exact ⟨st, hsome, hwrites⟩

/-- Copying the batches of trips, until the source has no stop times. -/
theorem chunksRun {cs : List (List String)} {stopped : Bool} (hi : I s)
    (h : ChunksRun source sink.logged batchSize cs s s' stopped) :
    I s' ∧ ∃ runs : List (String × List Record),
      s'.store.2 = s.store.2 ++ (runs.map Prod.snd).flatten ∧ (runs.map Prod.fst).Sublist cs.flatten ∧
      ∀ x ∈ runs, TripWritesFrom source R x.1 x.2 := by
  induction cs generalizing s with
  | nil =>
    obtain ⟨rfl, -⟩ := h
    exact ⟨hi, [], by simp, by simp, by simp⟩
  | cons c cs ih =>
    obtain ⟨b, s1, hc, h⟩ := h
    obtain ⟨hi1, runs1, hlog1, hsub1, hall1⟩ := hp.copyChunk hi hc
    have hwrites : ∀ x ∈ runs1, TripWritesFrom source R x.1 x.2 := fun x hx => by
      obtain ⟨st, hsome, hw⟩ := hall1 x hx
      exact ⟨c, st, hsome, hsub1.subset (List.mem_map_of_mem hx), hw⟩
    split at h
    · obtain ⟨hi2, runs2, hlog2, hsub2, hall2⟩ := ih hi1 h
      refine ⟨hi2, runs1 ++ runs2, by rw [hlog2, hlog1]; simp, ?_, ?_⟩
      · rw [List.map_append, List.flatten_cons]
        exact hsub1.append hsub2
      · intro x hx
        rcases List.mem_append.mp hx with hx | hx
        · exact hwrites x hx
        · exact hall2 x hx
    · obtain ⟨rfl, -⟩ := h
      refine ⟨hi1, runs1, hlog1, ?_, hwrites⟩
      rw [List.flatten_cons]
      exact hsub1.trans (List.sublist_append_left _ _)

/-- The stop times written are, trip after trip, `R`-copies of some stop times of trips whose
group passed the check, the trips taken in order among those the map knows. -/
theorem copyStopTimes (hi : I s) (h : exec (copyStopTimes source sink.logged) s = (.ok (), s')) :
    I s' ∧ ∃ runs : List (String × List Record),
      s'.store.2 = s.store.2 ++ (runs.map Prod.snd).flatten ∧
      (runs.map Prod.fst).Sublist (s.map.keysFor Kind.trip.fileName) ∧
      ∀ x ∈ runs, TripWritesFrom source R x.1 x.2 := by
  obtain ⟨s1, stopped, hrun, hend⟩ := copyStopTimes_ok h
  obtain ⟨hi1, runs, hlog, hsub, hall⟩ := hp.chunksRun hi hrun
  -- the batches are pieces of the copied trips
  have htrips := hsub.trans (flatten_chunks_sublist _ _)
  rcases hend with ⟨-, rfl⟩ | ⟨-, horphans⟩
  · exact ⟨hi1, runs, hlog, htrips, hall⟩
  · rcases rejectOrphans_ok horphans with ⟨-, rfl⟩ | ⟨st, -, -, ho⟩
    · exact ⟨hi1, runs, hlog, htrips, hall⟩
    · obtain ⟨rs, rfl⟩ := ho.reports_only
      exact ⟨hp.reports rs hi1, runs, hlog, htrips, hall⟩

/-- A whole copy, collection after collection: the stop times it writes are those of the one
pass over the stop times, trip after trip, among the trips the map knows and in their order
when the pass comes at most once. -/
theorem allRun (hsource : source.Faithful) {ks : List Kind} (hi : I s)
    (h : AllRun source sink.logged ks s s') :
    I s' ∧ ∃ runs : List (String × List Record),
      s'.store.2.filter (·.kind = .stopTime) =
        s.store.2.filter (·.kind = .stopTime) ++ (runs.map Prod.snd).flatten ∧
      (∀ x ∈ runs, TripWritesFrom source R x.1 x.2) ∧ (Kind.stopTime ∉ ks → runs = []) ∧
      (ks.count .stopTime ≤ 1 → ∃ m : IdMap, (runs.map Prod.fst).Sublist (m.keysFor Kind.trip.fileName)) := by
  induction ks generalizing s with
  | nil =>
    subst h
    exact ⟨hi, [], by simp, by simp, fun _ => rfl, fun _ => ⟨IdMap.empty, by simp⟩⟩
  | cons k ks ih =>
    obtain ⟨s1, hk, h⟩ := h
    rw [exec_ite] at hk
    split at hk
    · -- the pass over the stop times; no later collection writes any
      rename_i hst
      subst hst
      obtain ⟨hi1, runs1, hlog1, hsub1, hall1⟩ := hp.copyStopTimes hi hk
      obtain ⟨hi2, runs2, hlog2, hall2, hnone, -⟩ := ih hi1 h
      refine ⟨hi2, runs1 ++ runs2, ?_, ?_, by simp, fun hcount => ?_⟩
      · rw [hlog2, hlog1, List.filter_append, filter_flatten_of_writes hp.kind hall1]
        simp
      · intro x hx
        rcases List.mem_append.mp hx with hx | hx
        · exact hall1 x hx
        · exact hall2 x hx
      · rw [hnone (not_mem_of_count_cons_le_one hcount), List.append_nil]
        exact ⟨s.map, hsub1⟩
    · rename_i hst
      obtain ⟨-, ws, hlog1, hws⟩ := NoStopTimes.copyCollection hsource hst hk
      obtain ⟨hi2, runs, hlog2, hall, hnone, hkeys⟩ := ih (hp.copyCollection hst hi hk) h
      refine ⟨hi2, runs, ?_, hall, fun hnot => hnone (fun hmem => hnot (.tail _ hmem)),
        fun hcount => hkeys (by simpa [List.count_cons, hst] using hcount)⟩
      have hnil : ws.filter (·.kind = .stopTime) = [] :=
        List.filter_eq_nil_iff.mpr fun w hw => by simpa using hws w hw
      rw [hlog2, hlog1, List.filter_append, hnil, List.append_nil]

end LoggedPass

/-- With problems not allowed and the options fixed, a copy from a source whose streams hold
records of their collection keeps its options, and a stop time joins the batch as a copy of
itself. -/
theorem loggedPass_options {source : Source} (hsource : source.Faithful) {o : CopyOptions}
    (hstrict : o.allowEntityErrors = false) :
    LoggedPass source sink (fun s => s.options = o) (fun _ => True) (fun _ => True) StopTimeCopy where
  strict hs := hs ▸ hstrict
  reports _ hs := hs
  handsOut _ _ := trivial
  processStopTime hk _ hs hstep :=
    let ⟨hstore, hopt, hmore⟩ := processStopTime_stopTime hk hstep
    ⟨hopt.trans hs, hstore, fun _ _ => trivial, hmore⟩
  flush hs _ hf := (logged_flush hf).2.trans hs
  copyCollection hk hs hc := (NoStopTimes.copyCollection hsource hk hc).options.trans hs
  kind h _ := h.1

/-- A whole copy, collection after collection, with problems not allowed: the options stay,
and the stop times written are those of the one pass over the stop times, trip after trip,
each trip once. -/
theorem allRun_log {source : Source} {ks : List Kind} (hsource : source.Faithful)
    (hstrict : s.options.allowEntityErrors = false) (h : AllRun source sink.logged ks s s') :
    s'.options = s.options ∧ ∃ runs : List (String × List Record),
      s'.store.2.filter (·.kind = .stopTime) =
        s.store.2.filter (·.kind = .stopTime) ++ (runs.map Prod.snd).flatten ∧
      (∀ x ∈ runs, TripWritten source x.1 x.2) ∧ (Kind.stopTime ∉ ks → runs = []) ∧
      (ks.count .stopTime ≤ 1 → (runs.map Prod.fst).Nodup) := by
  obtain ⟨hopt, runs, hlog, hall, hnone, hkeys⟩ :=
    (loggedPass_options hsource hstrict).allRun hsource rfl h
  refine ⟨hopt, runs, hlog, fun x hx => (hall x hx).tripWritten, hnone, fun hcount => ?_⟩
  -- the trips are taken in order among those of a map, each listed once
  obtain ⟨m, hsub⟩ := hkeys hcount
  exact hsub.nodup (IdMap.nodup_keysFor _ _)

end Logged

end Copying

/-- With problems not allowed, a finished copy writes the stop times trip after trip, each
trip once: what it writes for a trip are copies of some of the trip's stop times whose
group, as the source handed it out, passed the check of its trip, in the order the check
sorted them, so their sequence numbers ascend strictly. The destination is any one, made
to keep a log of what it is handed. -/
theorem copyFeed_writes_checked_trips_in_order {σ : Type} {source : Source} {sink : Sink σ}
    {store : σ} {map : IdMap} {pipeline : Pipeline} {options : CopyOptions} {cancelled : Bool}
    {result : CopyResult} (hsource : source.Faithful) (hstrict : options.allowEntityErrors = false)
    (h : (copyFeed source sink.logged (store, []) map pipeline options cancelled).1 = .ok result) :
    ∃ runs : List (String × List Record),
      (copyFeed source sink.logged (store, []) map pipeline options cancelled).2.store.2.filter
          (·.kind = .stopTime) = (runs.map Prod.snd).flatten ∧
      (runs.map Prod.fst).Nodup ∧
      ∀ x ∈ runs, TripWritten source x.1 x.2 ∧ x.2.Pairwise (fun a b => sequenceOf a < sequenceOf b) := by
  rcases copyFeed_ok h with ⟨-, -, hstart⟩ | ⟨-, -, hrun⟩
  · rw [hstart]
    exact ⟨[], by simp, by simp, by simp⟩
  · -- the copy ran through every collection, the stop times once
    obtain ⟨-, runs, hlog, hall, -, hnodup⟩ := Copying.allRun_log hsource hstrict hrun
    refine ⟨runs, by simpa using hlog, hnodup (by decide), fun x hx => ⟨hall x hx, ?_⟩⟩
    obtain ⟨_, _, -, -, htrip⟩ := hall x hx
    exact htrip.ascending

/-- A small feed in memory: an agency, a stop, a calendar, a route and its trip `T`, with
two stop times, the second at a stop the feed does not have. -/
def strayStopFeed : MemoryFeed :=
  MemoryFeed.ofRecords [
    Record.ofSql .agency [("agency_id", .text "A"), ("agency_name", .text "Ag"),
      ("agency_url", .text "http://a.example"), ("agency_timezone", .text "Europe/Paris")],
    Record.ofSql .stop [("stop_id", .text "S1"), ("stop_name", .text "One"), ("stop_lat", .text "1"),
      ("stop_lon", .text "1")],
    Record.ofSql .calendar [("service_id", .text "C"), ("monday", .text "1"), ("tuesday", .text "1"),
      ("wednesday", .text "1"), ("thursday", .text "1"), ("friday", .text "1"), ("saturday", .text "1"),
      ("sunday", .text "1"), ("start_date", .text "20240101"), ("end_date", .text "20241231")],
    Record.ofSql .route [("route_id", .text "R"), ("agency_id", .text "A"), ("route_short_name", .text "r"),
      ("route_type", .integer 3)],
    Record.ofSql .trip [("route_id", .text "R"), ("service_id", .text "C"), ("trip_id", .text "T")],
    Record.ofSql .stopTime [("trip_id", .text "T"), ("arrival_time", .text "08:00:00"),
      ("departure_time", .text "08:00:00"), ("stop_id", .text "S1"), ("stop_sequence", .integer 1)],
    Record.ofSql .stopTime [("trip_id", .text "T"), ("arrival_time", .text "09:00:00"),
      ("departure_time", .text "09:00:00"), ("stop_id", .text "S2"), ("stop_sequence", .integer 2)]]

/-- Copying the small feed finishes, and what it writes for its trip is ordered as above. -/
theorem strayStopFeed_writes_checked_trips :
    ∃ result, (copyFeed strayStopFeed.source MemoryFeed.sink.logged ({}, []) IdMap.empty {} {}).1 =
        .ok result ∧
      ∃ runs : List (String × List Record),
        (copyFeed strayStopFeed.source MemoryFeed.sink.logged ({}, []) IdMap.empty {} {}).2.store.2.filter
            (·.kind = .stopTime) = (runs.map Prod.snd).flatten ∧
        (runs.map Prod.fst).Nodup ∧
        ∀ x ∈ runs, TripWritten strayStopFeed.source x.1 x.2 ∧
          x.2.Pairwise (fun a b => sequenceOf a < sequenceOf b) := by
  have hstatus : (copyFeed strayStopFeed.source MemoryFeed.sink.logged ({}, []) IdMap.empty {} {}).1.toOption.map
      (·.status) = some .completed := by
    decide +kernel
  cases h : (copyFeed strayStopFeed.source MemoryFeed.sink.logged ({}, []) IdMap.empty {} {}).1 with
  | error e =>
    rw [h] at hstatus
    cases hstatus
  | ok result =>
    exact ⟨result, rfl, copyFeed_writes_checked_trips_in_order
      (MemoryFeed.faithful_source (MemoryFeed.keyed_ofRecords _)) rfl h⟩

/-- With problems not allowed, a finished copy can still write a trip that fails the check
of its trip: the small feed's trip `T` is written with one stop time alone, its stop time at
a missing stop being dropped on its own. -/
theorem copyFeed_writes_trip_failing_check :
    (copyFeed strayStopFeed.source MemoryFeed.sink.logged ({}, []) IdMap.empty {} {}).1.toOption.map
        (·.status) = some .completed ∧
      ((copyFeed strayStopFeed.source MemoryFeed.sink.logged ({}, []) IdMap.empty {} {}).2.store.2.filter
        (·.kind = .stopTime)).map (·.str "trip_id") = ["T"] ∧
      (validateStopTimes ((copyFeed strayStopFeed.source MemoryFeed.sink.logged ({}, []) IdMap.empty {} {}).2.store.2.filter
        (·.kind = .stopTime))).2 ≠ [] := by
  decide +kernel

end TransitFeed

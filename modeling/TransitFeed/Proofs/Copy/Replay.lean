import TransitFeed.Proofs.Store.CopyForm
import TransitFeed.Proofs.Copy.Finishes
import TransitFeed.Proofs.Copy.Completeness
import TransitFeed.Proofs.Copy.Integrity
import TransitFeed.Proofs.Copy.StageInput

/-!
# A feed in the form a copy writes is copied onto itself

Copied into an empty feed in memory, with no stage and an empty identifier map, a feed in
`CopyForm` comes out as it went in, and the copy drops nothing and records no problem.

Each collection is read in order and finds every kind it refers to copied before it, so each
of its records has its references known, a stop its parent station written before it; being
settled and well formed, the record is remapped onto itself and written under its own
identifier, which the map then sends to itself. The stop times are read trip by trip, in byte
order of the trip identifiers: every trip passes its check and is already sorted, so the
stop times are written as they come, and none is left for the orphan pass. The records are
thus written collection after collection, in the order of the feed, and the feed built from
them is the feed itself. Main statement: `copyFeed_copyForm_replays`.
-/

namespace TransitFeed

namespace IdMap

/-- A map that sends every identifier it knows to itself, and knows the empty identifier for
agencies only. -/
def KeepsIds (m : IdMap) : Prop :=
  ∀ c o n, m.get? c o = some n → n = o ∧ (o = "" → c = Kind.agency.fileName)

theorem keepsIds_empty : IdMap.empty.KeepsIds := fun c o n h => by simp at h

/-- Remapping through a map that keeps identifiers is an identity lookup. -/
theorem KeepsIds.lookup {m : IdMap} (h : m.KeepsIds) :
    IdentityLookup fun k old => m.get? k.fileName old := fun _ o n hn =>
  ⟨(h _ o n hn).1, fun ho => Kind.fileName_injective ((h _ o n hn).2 ho)⟩

end IdMap

namespace MemoryFeed

theorem push_ofRecords (L : List Record) (r : Record) : (ofRecords L).push r = ofRecords (L ++ [r]) := by
  simp [ofRecords, List.foldl_append]

theorem foldl_push_ofRecords (L M : List Record) : M.foldl push (ofRecords L) = ofRecords (L ++ M) := by
  simp [ofRecords, List.foldl_append]

/-- The stream of a collection of a feed in memory holds the records of that collection. -/
theorem items_of_read {f : MemoryFeed} {k : Kind} {st : Stream} (h : f.source.read k = .ok (some st)) :
    st.items = (f.records k).map .ok := by
  simp only [source, Except.ok.injEq, Option.map_eq_some_iff] at h
  obtain ⟨rs, hrs, rfl⟩ := h
  simp [records, hrs]

/-- A feed in memory without a stream for a collection has no record in it. -/
theorem records_of_read_none {f : MemoryFeed} {k : Kind} (h : f.source.read k = .ok none) :
    f.records k = [] := by
  simp only [source, Except.ok.injEq, Option.map_eq_none_iff] at h
  simp [records, h]

/-- A keyed feed's collections, written one after another, build the feed again. -/
theorem records_ofRecords_flatMap {f : MemoryFeed} (hf : f.Keyed) (k : Kind) :
    (ofRecords (Kind.all.flatMap f.records)).records k = f.records k := by
  have hfilter : ∀ t, (f.records t).filter (·.kind = k) = if t = k then f.records t else [] := by
    intro t
    split
    · rename_i htk
      subst htk
      exact List.filter_eq_self.mpr fun r hr => by simp [kind_of_mem_records hf hr]
    · rename_i htk
      exact List.filter_eq_nil_iff.mpr fun r hr => by simp [kind_of_mem_records hf hr, htk]
  rw [records_ofRecords, List.filter_flatMap]
  simp only [hfilter]
  cases k <;> simp [Kind.all]

end MemoryFeed

/-- Only stops wait for their parent station. -/
theorem waitsForParent_of_ne_stop {m : IdMap} {r : Record} (h : r.kind ≠ .stop) :
    Copying.waitsForParent m r = false := by
  cases hw : Copying.waitsForParent m r
  · rfl
  · exact absurd (waitsForParent_eq_true.mp hw).1 h

theorem Kind.stopTime_idColumn : Kind.stopTime.idColumn? = none := rfl

namespace Copying

variable {σ : Type}

/-- Preparing a record without problems, whose references resolve and which does not wait,
gives it remapped, with its warnings recorded. -/
theorem exec_prepare_of_resolved {r e : Record} {canDefer : Bool} {s : Run σ} (he : r.errors = [])
    (hwait : waitsForParent s.map r = false)
    (hkeys : r.updateKeys (fun k old => s.map.get? k.fileName old) = .ok e) :
    exec (prepare r canDefer) s = (.ok (.ready e), { s with
      reports := updateReport r.kind
        (fun c => (r.warnings ++ r.errors).foldl (fun c w => c.addWarning w s.options.errorLimit) c)
        s.reports }) := by
  rw [exec_prepare, if_neg (by simp [he]), if_neg (by simp [hwait]), hkeys]

/-- Noting a record under its own identifier keeps a map that keeps identifiers. -/
theorem keepsIds_note {r : Record} {oldId : String} {s : Run σ} (hm : s.map.KeepsIds) :
    (exec (note r oldId oldId) s).2.map.KeepsIds := by
  intro c o n hn
  rw [note_get?] at hn
  split at hn
  · rename_i hnotes
    obtain ⟨⟨-, hne, -⟩, rfl, rfl⟩ := hnotes
    cases hn
    refine ⟨rfl, fun ho => ?_⟩
    rcases hne with hne | hag
    · exact absurd ho hne
    · rw [hag]
  · exact hm c o n hn

/-- Writing into a feed in memory appends the record and gives its own identifier. -/
theorem exec_write_memory (e : Record) (oldId : String) (s : Run MemoryFeed) :
    exec (write MemoryFeed.sink e oldId) s =
      (.ok (), written s e oldId e.entityId (s.store.push e)) := by
  rw [exec_write]
  rfl

/-- A state of a copy into a feed in memory that has written the records `ws`, in order,
noting each identifier it wrote, sent to itself, and that dropped nothing and runs no stage. -/
structure Replayed (ws : List Record) (s : Run MemoryFeed) : Prop where
  store : s.store = MemoryFeed.ofRecords ws
  keepsIds : s.map.KeepsIds
  recorded : ∀ r ∈ ws, Recorded s r
  smooth : Smooth s

namespace Replayed

variable {ws : List Record} {s s' : Run MemoryFeed}

theorem start (options : CopyOptions) :
    Replayed [] { store := {}, map := IdMap.empty, pipeline := {}, options } :=
  ⟨rfl, IdMap.keepsIds_empty, by simp, ReportsClean.nil, rfl⟩

/-- A step that changes only clean reports. -/
theorem of_reports (h : Replayed ws s) (hstore : s'.store = s.store) (hmap : s'.map = s.map)
    (hpipeline : s'.pipeline = s.pipeline) (hclean : ReportsClean s'.reports) : Replayed ws s' where
  store := hstore.trans h.store
  keepsIds := hmap ▸ h.keepsIds
  recorded r hr := by
    unfold Recorded
    rw [hmap]
    exact h.recorded r hr
  smooth := ⟨hclean, by rw [hpipeline]; exact h.smooth.stages⟩

theorem countRead (h : Replayed ws s) (k : Kind) : Replayed ws (exec (countRead k) s).2 :=
  h.of_reports rfl rfl rfl (h.smooth.reports.update (fun _ => rfl) fun _ hc => hc)

theorem countedRead (h : Replayed ws s) (k : Kind) (n : Nat) : Replayed ws (countedRead k n s) := by
  induction n generalizing s with
  | zero => exact h
  | succ n ih => exact ih (h.countRead k)

/-- Preparing a well-formed, settled record without problems, whose references resolve and
which does not wait, gives the record itself, and records only warnings. -/
theorem prepare {r : Record} (h : Replayed ws s) (hshaped : r.Shaped) (he : r.errors = [])
    (hsettled : r.RefsSettled) (hknown : RefsKnown s.map r)
    (hwait : waitsForParent s.map r = false) (canDefer : Bool) :
    ∃ s1, exec (Copying.prepare r canDefer) s = (.ok (.ready r), s1) ∧ Replayed ws s1 := by
  obtain ⟨e, hkeys⟩ := Record.updateKeys_ok fun col hcol t ht hpresent => hknown col hcol t ht hpresent
  have he' : e = r := (Record.remapped_of_updateKeys hkeys).eq_self h.keepsIds.lookup hshaped hsettled
  subst he'
  exact ⟨_, exec_prepare_of_resolved he hwait hkeys,
    h.of_reports rfl rfl rfl (h.smooth.reports.warn _ _ _)⟩

/-- Writing a record under its own identifier appends it and records it. -/
theorem write {r : Record} (h : Replayed ws s)
    (hne : r.kind.idColumn?.isSome → r.entityId ≠ "" ∨ r.kind = .agency) :
    Replayed (ws ++ [r]) (written s r r.entityId r.entityId (s.store.push r)) := by
  have hframe := note_frame r r.entityId r.entityId { s with store := s.store.push r }
  refine ⟨?_, keepsIds_note h.keepsIds, fun x hx => ?_, ?_, ?_⟩
  · show (exec (note r r.entityId r.entityId) { s with store := s.store.push r }).2.store = _
    rw [hframe.1, h.store, MemoryFeed.push_ofRecords]
  · rcases List.mem_append.mp hx with hx | hx
    · exact fun hid => note_contains_of (h.recorded x hx hid)
    · rw [List.mem_singleton.mp hx]
      exact fun hid => note_contains_self hid (hne hid)
  · exact (h.smooth.reports.warnsOnly hframe.2.2.2).update (fun _ => rfl) fun _ hc => hc
  · show (exec (note r r.entityId r.entityId) { s with store := s.store.push r }).2.pipeline.stages = []
    rw [hframe.2.1]
    exact h.smooth.stages

/-- Writing a batch of stop times appends them. -/
theorem flush {batch : List Record} (h : Replayed ws s) (hb : ∀ r ∈ batch, r.kind = .stopTime)
    (hflush : exec (Copying.flush MemoryFeed.sink batch) s = (.ok (), s')) : Replayed (ws ++ batch) s' := by
  rw [exec_flush] at hflush
  split at hflush
  · rename_i hnil
    subst hnil
    obtain ⟨-, rfl⟩ := Prod.mk.inj hflush
    simpa using h
  · obtain ⟨-, rfl⟩ := Prod.mk.inj hflush
    refine ⟨?_, h.keepsIds, fun x hx => ?_, ?_, h.smooth.stages⟩
    · show batch.foldl MemoryFeed.push s.store = _
      rw [h.store, MemoryFeed.foldl_push_ofRecords]
    · rcases List.mem_append.mp hx with hx | hx
      · exact h.recorded x hx
      · intro hid
        rw [hb x hx, Kind.stopTime_idColumn] at hid
        cases hid
    · exact h.smooth.reports.update (fun _ => rfl) fun _ hc => hc

end Replayed

section Form

variable {f : MemoryFeed} (hform : f.CopyForm) {B : List Record}
include hform

/-- A record of a feed in copy form, copied once the kinds before its own are and its own
collection up to it is, is written as it is, and nothing waits. -/
theorem Replayed.process {k : Kind} {pre post : List Record} {r : Record}
    (hk : f.records k = pre ++ r :: post)
    (hbefore : ∀ t, t.index < k.index → ∀ x ∈ f.records t, x ∈ B) {s s' : Run MemoryFeed}
    {w : List (Record × String)} (hs : Replayed (B ++ pre) s)
    (h : exec (Copying.process MemoryFeed.sink r) s = (.ok w, s')) :
    w = [] ∧ Replayed (B ++ pre ++ [r]) s' := by
  have hkeyed := hform.keyed
  have hr : r ∈ f.records k := by simp [hk]
  have hrk : r.kind = k := MemoryFeed.kind_of_mem_records hkeyed hr
  obtain ⟨hshaped, he⟩ := hform.valid k r hr
  -- its parent station, if any, was written before it
  have hwait : waitsForParent s.map r = false := by
    cases hw : waitsForParent s.map r
    · rfl
    obtain ⟨hstop, p, hp, hcont⟩ := waitsForParent_eq_true.mp hw
    obtain rfl : k = .stop := hrk ▸ hstop
    obtain ⟨x, hx, hxid⟩ := hform.parentsFirst pre r post hk p hp
    have hxk : x.kind = .stop := MemoryFeed.kind_of_mem_records hkeyed (by simp [hk, hx])
    have hrec := hs.recorded x (List.mem_append_right _ hx) (by rw [hxk]; rfl)
    rw [hxk, hxid, hcont] at hrec
    cases hrec
  have hcopied : CopiedBefore f k s := fun t ht x hx =>
    hs.recorded x (List.mem_append_left _ (hbefore t ht x hx))
  have hknown : RefsKnown s.map r :=
    (refsKnown_or_waits hkeyed hform.valid hform.closed hr hcopied).resolve_right (by simp [hwait])
  obtain ⟨s1, hprep, hs1⟩ := hs.prepare hshaped he (hform.settled k r hr) hknown hwait true
  -- with no stage, the record alone is settled, under its own identifier
  rw [exec_process] at h
  simp only [Pipeline.filter_of_stages_nil hs.smooth.stages,
    Pipeline.expand_of_stages_nil hs.smooth.stages] at h
  obtain ⟨o, s1', hp, w1, s2, w2, hset, hrest, rfl⟩ := (exec_settle_cons_eq_ok ..).mp h
  rw [hprep] at hp
  obtain ⟨ho, rfl⟩ := Prod.mk.inj hp
  cases Except.ok.inj ho
  obtain ⟨hw, rfl⟩ := hset
  simp only [beq_self_eq_true, decide_true, exec_write_memory] at hw
  obtain ⟨-, rfl⟩ := Prod.mk.inj hw
  obtain ⟨hw2, rfl⟩ := Prod.mk.inj hrest
  cases Except.ok.inj hw2
  exact ⟨rfl, hs1.write fun hid => entityId_ne_empty_of_mem hform.valid hr hid⟩

/-- The records of a collection of a feed in copy form are written in order, none waiting. -/
theorem Replayed.copyItems {k : Kind} (hbefore : ∀ t, t.index < k.index → ∀ x ∈ f.records t, x ∈ B)
    (st : Stream) : ∀ (i : Nat) (pre rest : List Record), f.records k = pre ++ rest →
      ∀ {s s' : Run MemoryFeed} {w : List (Record × String)}, Replayed (B ++ pre) s →
      exec (Copying.copyItems MemoryFeed.sink k st i (rest.map .ok)) s = (.ok w, s') →
      w = [] ∧ Replayed (B ++ f.records k) s'
  | _, pre, [], hk, _, _, _, hs, h => by
    obtain ⟨hw, rfl⟩ := Prod.mk.inj h
    cases Except.ok.inj hw
    simpa [hk] using hs
  | i, pre, r :: rest, hk, _, _, _, hs, h => by
    obtain ⟨w1, s1, w2, hitem, hrest, rfl⟩ := (exec_copyItems_cons_eq_ok ..).mp h
    obtain ⟨rfl, hs1⟩ := Replayed.process hform hk hbefore (hs.countRead k) hitem
    obtain ⟨rfl, hs'⟩ := Replayed.copyItems hbefore st (i + 1) (pre ++ [r]) rest (by simp [hk])
      (by simpa using hs1) hrest
    exact ⟨rfl, hs'⟩

/-- A collection of a feed in copy form, copied once the kinds before it are, is written
whole, in order. -/
theorem Replayed.copyCollection {k : Kind}
    (hbefore : ∀ t, t.index < k.index → ∀ x ∈ f.records t, x ∈ B) {s s' : Run MemoryFeed}
    (hs : Replayed B s) (h : exec (Copying.copyCollection f.source MemoryFeed.sink k) s = (.ok (), s')) :
    Replayed (B ++ f.records k) s' := by
  rcases copyCollection_ok h with ⟨hnone, rfl⟩ | ⟨st, hread, -, w, s1, hitems, hretry⟩
  · simpa [MemoryFeed.records_of_read_none hnone] using hs
  · rw [MemoryFeed.items_of_read hread] at hitems
    obtain ⟨rfl, hs1⟩ := Replayed.copyItems hform hbefore st 0 [] (f.records k) rfl (by simpa using hs)
      hitems
    -- nothing waits, so there is nothing to retry
    obtain ⟨-, rfl⟩ := Prod.mk.inj hretry
    exact hs1

end Form

/-! ### Stop times -/

section StopTimes

variable {f : MemoryFeed} (hform : f.CopyForm) {B : List Record}
  (hbefore : ∀ t, t.index < Kind.stopTime.index → ∀ x ∈ f.records t, x ∈ B)
include hform hbefore

omit hform in
theorem Replayed.copiedBefore {ws : List Record} {s : Run MemoryFeed} (hs : Replayed (B ++ ws) s) :
    CopiedBefore f .stopTime s := fun t ht x hx =>
  hs.recorded x (List.mem_append_left _ (hbefore t ht x hx))

/-- A stop time of a feed in copy form, once the kinds before stop times are copied, joins the
batch as it is. -/
theorem Replayed.processStopTime {r : Record} (hr : r ∈ f.records .stopTime) {ws more : List Record}
    {s s' : Run MemoryFeed} (hs : Replayed (B ++ ws) s)
    (h : exec (Copying.processStopTime MemoryFeed.sink r) s = (.ok more, s')) :
    more = [r] ∧ Replayed (B ++ ws) s' := by
  have hrk : r.kind = .stopTime := MemoryFeed.kind_of_mem_records hform.keyed hr
  have hwait : waitsForParent s.map r = false := waitsForParent_of_ne_stop (by rw [hrk]; decide)
  have hknown : RefsKnown s.map r :=
    (refsKnown_or_waits hform.keyed hform.valid hform.closed hr (hs.copiedBefore hbefore)).resolve_right
      (by simp [hwait])
  obtain ⟨hshaped, he⟩ := hform.valid _ r hr
  obtain ⟨s1, hprep, hs1⟩ := hs.prepare hshaped he (hform.settled _ r hr) hknown hwait false
  -- with no stage, the stop time alone is prepared, as it is, and joins the batch
  have hb := processStopTime_ok h
  simp only [Pipeline.filter_of_stages_nil hs.smooth.stages,
    Pipeline.expand_of_stages_nil hs.smooth.stages] at hb
  obtain ⟨o, s1', hp, hb⟩ := hb
  rw [hprep] at hp
  obtain ⟨ho, rfl⟩ := Prod.mk.inj hp
  cases Except.ok.inj ho
  simp only [hrk, if_true] at hb
  obtain ⟨rfl, rfl⟩ := hb
  exact ⟨rfl, hs1⟩

/-- The stop times of a feed in copy form, copied one at a time, go through the batch as they
are: those written so far and the batch left are the batch before and the stop times. -/
theorem Replayed.tripRun (batchSize : Nat) :
    ∀ {sorted acc b ws : List Record} {s s' : Run MemoryFeed},
      (∀ r ∈ sorted, r ∈ f.records .stopTime) → (∀ r ∈ acc, r.kind = .stopTime) →
      Replayed (B ++ ws) s → TripRun MemoryFeed.sink batchSize sorted acc s b s' →
      ∃ done, done ++ b = acc ++ sorted ∧ Replayed (B ++ ws ++ done) s'
  | [], acc, b, ws, s, s', _, _, hs, h => by
    obtain ⟨rfl, rfl⟩ := h
    exact ⟨[], by simp, by simpa using hs⟩
  | r :: rest, acc, b, ws, s, s', hsorted, hacc, hs, h => by
    obtain ⟨more, s1, hp, h⟩ := h
    obtain ⟨rfl, hs1⟩ := Replayed.processStopTime hform hbefore (hsorted r List.mem_cons_self) hs hp
    have hrk : r.kind = .stopTime := MemoryFeed.kind_of_mem_records hform.keyed (hsorted r List.mem_cons_self)
    have hrest : ∀ x ∈ rest, x ∈ f.records .stopTime := fun x hx => hsorted x (List.mem_cons_of_mem _ hx)
    have hbatch : ∀ x ∈ acc ++ [r], x.kind = .stopTime := fun x hx =>
      (List.mem_append.mp hx).elim (hacc x) fun hx => (List.mem_singleton.mp hx) ▸ hrk
    split at h
    · -- the batch is full and written; the trip goes on from an empty batch
      obtain ⟨s2, hflush, h⟩ := h
      have hs2 : Replayed (B ++ (ws ++ (acc ++ [r]))) s2 := by simpa using hs1.flush hbatch hflush
      obtain ⟨done, hdone, hs'⟩ := Replayed.tripRun batchSize hrest (by simp) hs2 h
      exact ⟨acc ++ [r] ++ done, by simp [hdone], by simpa using hs'⟩
    · obtain ⟨done, hdone, hs'⟩ := Replayed.tripRun batchSize hrest hbatch hs1 h
      exact ⟨done, by simp [hdone], hs'⟩

/-- The stop times of a trip of a feed in copy form pass the check of their trip in the order
they are in, and are all copied as they are. -/
theorem Replayed.copyTrip (batchSize : Nat) {t : String} {acc b ws : List Record} {s s' : Run MemoryFeed}
    (hne : f.tripStopTimes t ≠ []) (hacc : ∀ r ∈ acc, r.kind = .stopTime) (hs : Replayed (B ++ ws) s)
    (h : exec (Copying.copyTrip MemoryFeed.sink batchSize (f.tripStopTimes t) acc) s = (.ok b, s')) :
    ∃ done, done ++ b = acc ++ f.tripStopTimes t ∧ Replayed (B ++ ws ++ done) s' := by
  obtain ⟨r, hr⟩ := List.exists_mem_of_ne_nil _ hne
  obtain ⟨hrst, hrt⟩ := List.mem_filter.mp hr
  have hpass := hform.tripsPass r hrst
  rw [of_decide_eq_true hrt] at hpass
  have hv : validateStopTimes (f.tripStopTimes t) = (f.tripStopTimes t, []) := by
    refine Prod.ext ?_ hpass
    rw [validateStopTimes_fst, sortBySequence_eq_self (hform.tripsSorted t)]
  rcases copyTrip_ok hv h with ⟨hne', -⟩ | ⟨s1, hs1, hrun⟩
  · exact absurd rfl hne'
  · rcases hs1 with ⟨-, rfl⟩ | ⟨hne', -⟩
    · exact Replayed.tripRun hform hbefore batchSize (fun x hx => (List.mem_filter.mp hx).1) hacc hs hrun
    · exact absurd rfl hne'

/-- The trips of a batch, each with the group of its stop times in the feed, are copied trip
after trip. -/
theorem Replayed.chunkRun (batchSize : Nat) {groups : List (String × List Record)} :
    ∀ {trips : List String} {acc b ws : List Record} {s s' : Run MemoryFeed},
      (∀ t ∈ trips, groups.lookup t = if f.tripStopTimes t = [] then none else some (f.tripStopTimes t)) →
      (∀ r ∈ acc, r.kind = .stopTime) → Replayed (B ++ ws) s →
      ChunkRun MemoryFeed.sink batchSize groups trips acc s b s' →
      ∃ done, done ++ b = acc ++ trips.flatMap f.tripStopTimes ∧ Replayed (B ++ ws ++ done) s'
  | [], acc, b, ws, s, s', _, _, hs, h => by
    obtain ⟨rfl, rfl⟩ := h
    exact ⟨[], by simp, by simpa using hs⟩
  | t :: rest, acc, b, ws, s, s', hgroups, hacc, hs, h => by
    have hrest : ∀ t ∈ rest, groups.lookup t =
        if f.tripStopTimes t = [] then none else some (f.tripStopTimes t) :=
      fun t ht => hgroups t (List.mem_cons_of_mem _ ht)
    unfold ChunkRun at h
    rw [hgroups t List.mem_cons_self] at h
    by_cases hne : f.tripStopTimes t = []
    · -- the trip has no stop times, and no group
      rw [if_pos hne] at h
      obtain ⟨done, hdone, hs'⟩ := Replayed.chunkRun batchSize hrest hacc hs h
      exact ⟨done, by simp [hdone, hne], hs'⟩
    · rw [if_neg hne] at h
      obtain ⟨b1, s1, htrip, h⟩ := h
      obtain ⟨done1, hdone1, hs1⟩ := Replayed.copyTrip hform hbefore batchSize hne hacc hs htrip
      -- what is left of the batch is stop times: the batch before and the trip's
      have hb1 : ∀ r ∈ b1, r.kind = .stopTime := by
        intro r hr
        have hmem : r ∈ acc ++ f.tripStopTimes t := hdone1 ▸ List.mem_append_right _ hr
        rcases List.mem_append.mp hmem with hr | hr
        · exact hacc r hr
        · exact MemoryFeed.kind_of_mem_records hform.keyed (List.mem_filter.mp hr).1
      have hs1 : Replayed (B ++ (ws ++ done1)) s1 := by simpa using hs1
      obtain ⟨done2, hdone2, hs'⟩ := Replayed.chunkRun batchSize hrest hb1 hs1 h
      refine ⟨done1 ++ done2, ?_, by simpa using hs'⟩
      rw [List.append_assoc, hdone2, ← List.append_assoc, hdone1]
      simp

/-- A batch of trips of a feed in copy form copies the stop times of its trips, trip after
trip; it finds none only when the feed has no stop times. -/
theorem Replayed.copyChunk (batchSize : Nat) {chunk : List String} {b : Bool} {ws : List Record}
    {s s' : Run MemoryFeed} (hs : Replayed (B ++ ws) s)
    (h : exec (Copying.copyChunk f.source MemoryFeed.sink batchSize chunk) s = (.ok b, s')) :
    Replayed (B ++ ws ++ chunk.flatMap f.tripStopTimes) s' ∧ (b = false → f.records .stopTime = []) := by
  cases hl : f.collections.lookup .stopTime with
  | none =>
    -- the feed has no stop times: the source has none to hand out
    have hempty : f.records .stopTime = [] := by simp [MemoryFeed.records, hl]
    have hread : f.source.stopTimesOf chunk = .ok none := by
      simp [MemoryFeed.source, MemoryFeed.stopTimes, hl]
    have hnil : chunk.flatMap f.tripStopTimes = [] :=
      List.flatMap_eq_nil_iff.mpr fun t _ => by simp [MemoryFeed.tripStopTimes, hempty]
    rcases copyChunk_ok h with ⟨-, -, rfl⟩ | ⟨st, hsome, -⟩
    · exact ⟨by simpa [hnil] using hs, fun _ => hempty⟩
    · rw [hread] at hsome
      cases hsome
  | some sts =>
    have hrecords : f.records .stopTime = sts := by simp [MemoryFeed.records, hl]
    have hkind : ∀ r ∈ sts, r.kind = .stopTime := fun r hr =>
      MemoryFeed.kind_of_mem_records hform.keyed (hrecords ▸ hr)
    have hread : f.source.stopTimesOf chunk = .ok (some { items :=
        (sts.filter fun r => chunk.contains (r.str "trip_id") == true).map .ok }) := by
      simp [MemoryFeed.source, MemoryFeed.stopTimes, hl]
    rcases copyChunk_ok h with ⟨hnone, -⟩ | ⟨st, hsome, -, rfl, s2, hdrops, batch, s3, hrun, hflush⟩
    · rw [hread] at hnone
      cases hnone
    refine ⟨?_, fun h => by cases h⟩
    rw [hread] at hsome
    cases Except.ok.inj hsome
    -- every item is a stop time, so none is a problem
    rw [groupByTrip_filter_problems hkind chunk] at hdrops
    have hs2 : Replayed (B ++ ws) s2 := by
      rw [show s2 = _ from hdrops]
      exact hs.countedRead _ _
    -- the group of each trip of the batch is its stop times in the feed
    have hgroups : ∀ t ∈ chunk, (groupByTrip ((sts.filter fun r =>
        chunk.contains (r.str "trip_id") == true).map .ok)).1.lookup t =
          if f.tripStopTimes t = [] then none else some (f.tripStopTimes t) := by
      intro t ht
      rw [lookup_groupByTrip, tripStops_filter hkind ht, MemoryFeed.tripStopTimes, hrecords]
    obtain ⟨done, hdone, hs3⟩ := Replayed.chunkRun hform hbefore batchSize hgroups (by simp) hs2 hrun
    have hbatch : ∀ r ∈ batch, r.kind = .stopTime := by
      intro r hr
      have hmem : r ∈ chunk.flatMap f.tripStopTimes := by
        rw [List.nil_append] at hdone
        exact hdone ▸ List.mem_append_right _ hr
      obtain ⟨t, -, hrt⟩ := List.mem_flatMap.mp hmem
      exact MemoryFeed.kind_of_mem_records hform.keyed (List.mem_filter.mp hrt).1
    have hs' := hs3.flush hbatch hflush
    rw [List.append_assoc, hdone, List.nil_append] at hs'
    exact hs'

/-- The batches of trips of a feed in copy form copy the stop times of their trips, batch
after batch. -/
theorem Replayed.chunksRun (batchSize : Nat) :
    ∀ {cs : List (List String)} {stopped : Bool} {ws : List Record} {s s' : Run MemoryFeed},
      Replayed (B ++ ws) s → ChunksRun f.source MemoryFeed.sink batchSize cs s s' stopped →
      Replayed (B ++ ws ++ cs.flatten.flatMap f.tripStopTimes) s'
  | [], _, ws, s, s', hs, h => by
    obtain ⟨rfl, -⟩ := h
    simpa using hs
  | c :: cs, stopped, ws, s, s', hs, h => by
    obtain ⟨b, s1, hc, h⟩ := h
    obtain ⟨hs1, hstop⟩ := Replayed.copyChunk hform hbefore batchSize hs hc
    cases b with
    | true =>
      rw [if_pos rfl] at h
      have hs1 : Replayed (B ++ (ws ++ c.flatMap f.tripStopTimes)) s1 := by simpa using hs1
      simpa using Replayed.chunksRun batchSize hs1 h
    | false =>
      rw [if_neg (by decide)] at h
      obtain ⟨rfl, -⟩ := h
      -- the feed has no stop times, so the batches left have none either
      have hnil : cs.flatten.flatMap f.tripStopTimes = [] :=
        List.flatMap_eq_nil_iff.mpr fun t _ => by simp [MemoryFeed.tripStopTimes, hstop rfl]
      simpa [hnil] using hs1

/-- Once the kinds before stop times are copied, the stop times of a feed in copy form are
copied trip after trip, in byte order of the trips, which is the order they are in; none is
left for the orphan pass. -/
theorem Replayed.copyStopTimes {s s' : Run MemoryFeed} (hs : Replayed B s)
    (h : exec (Copying.copyStopTimes f.source MemoryFeed.sink) s = (.ok (), s')) :
    Replayed (B ++ f.records .stopTime) s' := by
  obtain ⟨s1, stopped, hrun, hend⟩ := copyStopTimes_ok h
  have hs0 : Replayed (B ++ []) s := by simpa using hs
  have hs1 := Replayed.chunksRun hform hbefore _ hs0 hrun
  -- the copied trips name every stop time, in byte order, and the stop times are grouped so
  have hall := tripIds_of_copied hform.keyed hform.valid hform.closed (hs0.copiedBefore hbefore)
  have hstops : (s.map.keysFor Kind.trip.fileName).flatMap f.tripStopTimes = f.records .stopTime :=
    flatMap_filter_eq_of_sorted (fun r : Record => r.str "trip_id") (IdMap.keysFor_sorted _ _)
      hform.tripsOrdered hall
  rw [flatten_chunks (Nat.lt_of_lt_of_le Nat.one_pos (Nat.le_max_left 1 _)), hstops, List.append_nil] at hs1
  rcases hend with ⟨-, rfl⟩ | ⟨-, horphans⟩
  · exact hs1
  rcases rejectOrphans_ok horphans with ⟨-, rfl⟩ | ⟨st, hsome, -, ho⟩
  · exact hs1
  -- no stop time names a trip that was not copied
  cases hl : f.collections.lookup .stopTime with
  | none => simp [MemoryFeed.source, MemoryFeed.stopTimes, hl] at hsome
  | some sts =>
    have hrecords : f.records .stopTime = sts := by simp [MemoryFeed.records, hl]
    have hnone : (sts.filter fun r => (s.map.keysFor Kind.trip.fileName).contains (r.str "trip_id") ==
        false) = [] :=
      List.filter_eq_nil_iff.mpr fun r hr => by simp [hall r (hrecords ▸ hr)]
    simp only [MemoryFeed.source, MemoryFeed.stopTimes, hl, hnone, List.map_nil, Except.ok.injEq,
      Option.some.injEq] at hsome
    subst hsome
    rw [show s' = s1 from ho]
    exact hs1

end StopTimes

/-- A whole copy of a feed in copy form writes its collections one after another, each whole
and as it is. -/
theorem Replayed.allRun {f : MemoryFeed} (hform : f.CopyForm) :
    ∀ (pre ks : List Kind), pre ++ ks = Kind.all → ∀ {s s' : Run MemoryFeed},
      Replayed (pre.flatMap f.records) s → AllRun f.source MemoryFeed.sink ks s s' →
      Replayed (Kind.all.flatMap f.records) s'
  | pre, [], hall, _, _, hs, h => by
    subst h
    simpa [← hall] using hs
  | pre, k :: ks, hall, s, s', hs, h => by
    obtain ⟨s1, hk, h⟩ := h
    -- the kinds before this one are those already copied
    have hbefore : ∀ t, t.index < k.index → ∀ x ∈ f.records t, x ∈ pre.flatMap f.records := by
      intro t ht x hx
      have hnot : t ∉ k :: ks := Kind.not_mem_of_index_lt ⟨pre, hall⟩ ht
      have hmem : t ∈ pre ++ k :: ks := hall ▸ Kind.mem_all t
      exact List.mem_flatMap.mpr ⟨t, (List.mem_append.mp hmem).resolve_right hnot, hx⟩
    have hs1 : Replayed ((pre ++ [k]).flatMap f.records) s1 := by
      rw [exec_ite] at hk
      split at hk
      · rename_i hst
        subst hst
        simpa using Replayed.copyStopTimes hform hbefore hs hk
      · simpa using Replayed.copyCollection hform hbefore hs hk
    exact Replayed.allRun hform (pre ++ [k]) ks (by simp [hall]) hs1 h

end Copying

/-- Copied into an empty feed in memory, with no stage, an empty identifier map and no
`failFast`, a feed in copy form comes out as it went in: the copy ends completed, no report
drops a record or records a problem, and every collection written is the one copied. -/
theorem copyFeed_copyForm_replays {f : MemoryFeed} (hform : f.CopyForm) {options : CopyOptions}
    (hfast : options.failFast = false) :
    ∃ result, (copyFeed f.source MemoryFeed.sink {} IdMap.empty {} options).1 = .ok result ∧
      result.status = .completed ∧
      (∀ c ∈ result.collections, c.dropped = 0 ∧ c.errorsByKind = [] ∧ c.errors = []) ∧
      ∀ k, (copyFeed f.source MemoryFeed.sink {} IdMap.empty {} options).2.store.records k = f.records k := by
  let start : Run MemoryFeed := { store := {}, map := IdMap.empty, pipeline := {}, options }
  obtain ⟨⟨⟩, s', hrun, -⟩ :=
    Copying.copyAll_finishes MemoryFeed.neverFails_sink f.neverFails_source start hfast trivial
  have hcopy : copyFeed f.source MemoryFeed.sink {} IdMap.empty {} options =
      (.ok { status := .completed, collections := s'.reports }, s') := by
    show (match Copying.exec (Copying.copyAll f.source MemoryFeed.sink) start with
      | (outcome, run) => (outcome.map fun () =>
        ({ status := .completed, collections := run.reports } : CopyResult), run)) = _
    rw [hrun]
    rfl
  -- the copy writes the collections one after another, each as it is
  have hs' := Copying.Replayed.allRun hform [] Kind.all rfl (Copying.Replayed.start options)
    (Copying.copyAll_ok hrun)
  refine ⟨_, by rw [hcopy], rfl, fun c hc => ?_, fun k => ?_⟩
  · obtain ⟨hdropped, hproblems, hkept⟩ := hs'.smooth.reports.of_mem hc
    exact ⟨hdropped, hproblems, hkept⟩
  · rw [hcopy]
    show s'.store.records k = _
    rw [hs'.store]
    exact MemoryFeed.records_ofRecords_flatMap hform.keyed k

end TransitFeed

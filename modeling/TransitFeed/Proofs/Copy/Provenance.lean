import TransitFeed.Proofs.Copy.Keeps
import TransitFeed.Proofs.Copy.StopTimes
import TransitFeed.Proofs.Copy.WriteLog
import TransitFeed.Proofs.Stage.Identifiers
import TransitFeed.Feed.Load

/-!
# Every record a copy writes comes from the source through the stages

Whatever records went before, the stages of a copy are in a state they reach from the
pipeline the copy started with. A record handed to the destination is one of the records the
stages made, in such a state, out of a record the source handed out, with its references
mapped. This holds of every copy, whatever the source, destination, options and preset map,
and however the copy ends: `copyFeed_writes_stage_outputs`.

So what the stages promise of their outputs holds of what a copy writes. When one stage
prefixes a collection, every record of it written with a filled identifier carries the prefix
before the identifier of a source record, unless an expansion created it for a route or a
calendar date that named it: `copyFeed_prefixes_collection_ids`.
-/
namespace TransitFeed

/-- The records a source hands out: the items of the stream of a collection, and those of the
stream of the stop times of some trips. -/
def Source.HandsOut (source : Source) (r : Record) : Prop :=
  (∃ k st, source.read k = .ok (some st) ∧ .ok r ∈ st.items) ∨
    ∃ trips st, source.stopTimesOf trips = .ok (some st) ∧ .ok r ∈ st.items

/-- A record the stages make out of a record that the source hands out. -/
def StageOutput (source : Source) (p₀ : Pipeline) (out : Record) : Prop :=
  ∃ r, source.HandsOut r ∧ p₀.Makes r out

/-- A record that a copy may hand its destination: a stage output whose references were
mapped. -/
def Copied (source : Source) (p₀ : Pipeline) (e : Record) : Prop :=
  ∃ out, StageOutput source p₀ out ∧ ∃ lookup, out.updateKeys lookup = .ok e

variable {σ : Type} (source : Source) (p₀ : Pipeline)

/-- The stages are in a state they reach from the start, and everything a logging destination
was handed was copied. -/
structure Provenance (s : Run (σ × List Record)) : Prop where
  stages : p₀.Reaches s.pipeline
  log : ∀ e ∈ s.store.2, Copied source p₀ e

/-- The log of the later state extends that of the earlier one. -/
def LogGrows (s s' : Run (σ × List Record)) : Prop := s.store.2 <+: s'.store.2

instance : IsPreorder (Run (σ × List Record)) LogGrows where
  refl s := List.prefix_refl s.store.2
  trans _ _ _ h h' := h.trans h'

variable {source p₀}

namespace Provenance

variable {s s' : Run (σ × List Record)}

/-- The start of a copy: the stages it was given and an empty log. -/
theorem start (store : σ) (map : IdMap) (options : CopyOptions) :
    Provenance source p₀ ({ store := (store, []), map, pipeline := p₀, options } : Run (σ × List Record)) :=
  ⟨.refl, by simp⟩

/-- Only the destination and the stages matter. -/
theorem of_eq (h : Provenance source p₀ s) (hstore : s'.store = s.store)
    (hpipeline : s'.pipeline = s.pipeline) : Provenance source p₀ s' :=
  ⟨hpipeline ▸ h.stages, hstore ▸ h.log⟩

/-- Handing the destination copied records keeps the invariant. -/
theorem append (h : Provenance source p₀ s) {more : List Record}
    (hstore : s'.store.2 = s.store.2 ++ more) (hpipeline : s'.pipeline = s.pipeline)
    (hmore : ∀ e ∈ more, Copied source p₀ e) : Provenance source p₀ s' := by
  refine ⟨hpipeline ▸ h.stages, fun e he => ?_⟩
  rw [hstore] at he
  rcases List.mem_append.mp he with he | he
  · exact h.log e he
  · exact hmore e he

end Provenance

namespace Copying

variable {P : Run (σ × List Record) → Prop}

/-- Dropping records touches only the reports. -/
theorem exec_reject_reports (k : Kind) (errors : List Issue) (dropped : Nat) (s : Run σ) :
    (exec (reject k errors dropped) s).2 = { s with reports := (exec (reject k errors dropped) s).2.reports } := by
  cases hf : s.options.failFast
  · rw [exec_reject_lenient _ _ _ _ hf]
  · cases errors with
    | nil => simp [reject, exec_bind, hf]
    | cons e es => rw [exec_reject_failFast _ _ _ _ _ hf]

/-- A step that keeps the destination and the stages keeps the invariant. -/
theorem provenance_of_frame {α : Type} {x : Copying (σ × List Record) α}
    {Q : α → Run (σ × List Record) → Prop}
    (hframe : ∀ s, (exec x s).2.store = s.store ∧ (exec x s).2.pipeline = s.pipeline)
    (hq : ∀ s a, P s → (exec x s).1 = .ok a → Q a (exec x s).2) :
    Keeps (Provenance source p₀) LogGrows P x Q := by
  intro s hi hp
  refine ⟨hi.of_eq (hframe s).1 (hframe s).2, ?_, fun a ha => hq s a hp ha⟩
  show s.store.2 <+: (exec x s).2.store.2
  exact (hframe s).1.symm ▸ List.prefix_refl s.store.2

theorem reject_provenance (k : Kind) (errors : List Issue) (dropped : Nat) :
    Keeps (Provenance source p₀) LogGrows P (reject k errors dropped) fun _ _ => True :=
  provenance_of_frame (fun s => by rw [exec_reject_reports]; exact ⟨rfl, rfl⟩) fun _ _ _ _ => trivial

theorem countRead_provenance (k : Kind) :
    Keeps (Provenance source p₀) LogGrows P (countRead k) fun _ _ => True :=
  provenance_of_frame (fun _ => ⟨rfl, rfl⟩) fun _ _ _ _ => trivial

theorem warn_provenance (k : Kind) (ws : List Issue) :
    Keeps (Provenance source p₀) LogGrows P (warn k ws) fun _ _ => True :=
  provenance_of_frame (fun _ => ⟨rfl, rfl⟩) fun _ _ _ _ => trivial

/-- What preparing a record gives: a ready record is the record with its references mapped,
and a waiting one is the record itself. -/
def MappedFrom (r : Record) : Prepared → Prop
  | .ready e => ∃ lookup, r.updateKeys lookup = .ok e
  | .deferred e => e = r
  | .rejected => True

theorem prepare_provenance (r : Record) (canDefer : Bool) :
    Keeps (Provenance source p₀) LogGrows P (prepare r canDefer) fun p _ => MappedFrom r p := by
  have hreject : ∀ errors, Keeps (Provenance source p₀) LogGrows P
      (reject r.kind errors 1 >>= fun _ => pure Prepared.rejected) fun p _ => MappedFrom r p :=
    fun errors => (reject_provenance _ _ _).bind fun _ => Keeps.pure _ fun _ _ => trivial
  intro s hi hp
  rw [exec_prepare]
  split
  · exact hreject _ s hi hp
  split
  · exact ⟨hi, List.prefix_refl _, fun a ha => by cases ha; rfl⟩
  split
  · exact hreject _ s hi hp
  · rename_i e hkeys
    exact ⟨hi.of_eq rfl rfl, List.prefix_refl _, fun a ha => by cases ha; exact ⟨_, hkeys⟩⟩

/-- Writing a copied record keeps the invariant. -/
theorem write_provenance (sink : Sink σ) (e : Record) (oldId : String) :
    Keeps (Provenance source p₀) LogGrows (fun _ => Copied source p₀ e) (write sink.logged e oldId)
      fun _ _ => True := by
  refine Keeps.write fun s st newId hi he hadd => ?_
  obtain ⟨store, -, rfl⟩ := Sink.logged_add_eq_ok hadd
  -- the destination takes the record, then the map notes it, which leaves the log alone
  have hlog : (written s e oldId newId (store, s.store.2 ++ [e])).store.2 = s.store.2 ++ [e] := by
    simp
  refine ⟨hi.append hlog (by simp) (by simpa using he), ?_, trivial⟩
  show s.store.2 <+: (written s e oldId newId (store, s.store.2 ++ [e])).store.2
  rw [hlog]
  exact List.prefix_append _ _

/-- Writing a batch of copied records keeps the invariant. -/
theorem flush_provenance (sink : Sink σ) (batch : List Record) :
    Keeps (Provenance source p₀) LogGrows (fun _ => ∀ e ∈ batch, Copied source p₀ e)
      (flush sink.logged batch) fun _ _ => True := by
  refine Keeps.flush fun s st ids hi hbatch hadd => ?_
  obtain ⟨store, -, rfl⟩ := Sink.logged_addAll_eq_ok hadd
  exact ⟨hi.append rfl rfl hbatch, List.prefix_append _ _⟩

/-- After the filters ran on a record: the stages were in a state they reach, and are now in
the state the filters left, with the record they changed. -/
def Filtered (p₀ : Pipeline) (r r' : Record) (s : Run σ) : Prop :=
  ∃ p, p₀.Reaches p ∧ p.filter s.map r = (s.pipeline, r')

theorem filterStages_provenance (r : Record) :
    Keeps (Provenance source p₀) LogGrows P (filterStages r) fun r' s => Filtered p₀ r r' s := by
  intro s hi _
  rw [exec_filterStages]
  exact ⟨⟨.filter s.map r hi.stages, hi.log⟩, List.prefix_refl _,
    fun a ha => by cases ha; exact ⟨s.pipeline, hi.stages, rfl⟩⟩

theorem expandStages_provenance (r r' : Record) :
    Keeps (Provenance source p₀) LogGrows (Filtered (σ := σ × List Record) p₀ r r') (expandStages r')
      fun outs _ => ∀ out ∈ outs, p₀.Makes r out := by
  intro s hi ⟨p, hp, hfilter⟩
  rw [exec_expandStages]
  refine ⟨⟨.expand s.map r' hi.stages, hi.log⟩, List.prefix_refl _, fun a ha out hout => ?_⟩
  cases ha
  exact ⟨p, s.map, hp, by rw [hfilter]; exact hout⟩

/-- Records that wait for their parent are stage outputs. -/
def WaitingOutputs (source : Source) (p₀ : Pipeline) (waiting : List (Record × String)) : Prop :=
  ∀ x ∈ waiting, StageOutput source p₀ x.1

theorem waitingOutputs_append {w w' : List (Record × String)} (h : WaitingOutputs source p₀ w)
    (h' : WaitingOutputs source p₀ w') : WaitingOutputs source p₀ (w ++ w') := by
  intro x hx
  rcases List.mem_append.mp hx with hx | hx
  · exact h x hx
  · exact h' x hx

theorem settle_provenance (sink : Sink σ) (kind : Kind) (oldId filteredId : String) :
    ∀ outs : List Record, (∀ out ∈ outs, StageOutput source p₀ out) →
      Keeps (Provenance source p₀) LogGrows (fun _ => True)
        (settle sink.logged kind oldId filteredId outs) fun w _ => WaitingOutputs source p₀ w
  | [], _ => Keeps.pure _ fun _ _ => by simp [WaitingOutputs]
  | out :: rest, houts => by
    rw [settle]
    refine (prepare_provenance out true).bind fun p => ?_
    dsimp only
    have hout : StageOutput source p₀ out := houts out List.mem_cons_self
    -- the later outputs, after what waits from this one
    have tail : ∀ waiting, WaitingOutputs source p₀ waiting → Keeps (Provenance source p₀) LogGrows
        (fun _ => True) (settle sink.logged kind oldId filteredId rest >>= fun l => pure (waiting ++ l))
        fun w _ => WaitingOutputs source p₀ w :=
      fun waiting hw => (settle_provenance sink kind oldId filteredId rest
        fun o ho => houts o (List.mem_cons_of_mem _ ho)).bind fun _ =>
          Keeps.pure _ fun _ hl => waitingOutputs_append hw hl
    cases p with
    | ready e =>
      simp only [pure_bind]
      exact ((write_provenance sink e _).mono (fun _ hkeys => ⟨out, hout, hkeys⟩) fun _ _ h => h).bind
        fun _ => tail [] (by simp [WaitingOutputs])
    | deferred e =>
      simp only [pure_bind]
      refine Keeps.of_fact fun (he : e = out) => tail _ ?_
      subst he
      simpa [WaitingOutputs] using hout
    | rejected =>
      simp only [pure_bind]
      exact (tail [] (by simp [WaitingOutputs])).mono (fun _ _ => trivial) fun _ _ h => h

theorem process_provenance (sink : Sink σ) {r : Record} (hr : source.HandsOut r) :
    Keeps (Provenance source p₀) LogGrows (fun _ => True) (process sink.logged r)
      fun w _ => WaitingOutputs source p₀ w := by
  unfold process
  refine (filterStages_provenance r).bind fun r' => ?_
  refine (expandStages_provenance r r').bind fun outs => ?_
  refine Keeps.of_fact fun houts => ?_
  exact settle_provenance sink _ _ _ outs fun out hout => ⟨r, hr, houts out hout⟩

theorem retryOnce_provenance (sink : Sink σ) : ∀ waiting : List (Record × String),
    WaitingOutputs source p₀ waiting → Keeps (Provenance source p₀) LogGrows (fun _ => True)
      (retryOnce sink.logged waiting) fun w _ => WaitingOutputs source p₀ w
  | [], _ => Keeps.pure _ fun _ _ => by simp [WaitingOutputs]
  | (e, oldId) :: rest, hw => by
    rw [retryOnce]
    refine (prepare_provenance e true).bind fun p => ?_
    dsimp only
    have he : StageOutput source p₀ e := hw _ List.mem_cons_self
    -- the records after this one, after this one if it still waits
    have tail : ∀ w, WaitingOutputs source p₀ w → Keeps (Provenance source p₀) LogGrows (fun _ => True)
        (retryOnce sink.logged rest >>= fun l => pure (w ++ l)) fun w _ => WaitingOutputs source p₀ w :=
      fun w hw' => (retryOnce_provenance sink rest fun x hx => hw x (List.mem_cons_of_mem _ hx)).bind
        fun _ => Keeps.pure _ fun _ hl => waitingOutputs_append hw' hl
    cases p with
    | ready e' =>
      simp only [pure_bind]
      exact ((write_provenance sink e' oldId).mono (fun _ hkeys => ⟨e, he, hkeys⟩) fun _ _ h => h).bind
        fun _ => tail [] (by simp [WaitingOutputs])
    | deferred e' =>
      simp only [pure_bind]
      refine Keeps.of_fact fun (he' : e' = e) => tail _ ?_
      subst he'
      simpa [WaitingOutputs] using he
    | rejected =>
      simp only [pure_bind]
      exact (tail [] (by simp [WaitingOutputs])).mono (fun _ _ => trivial) fun _ _ h => h

theorem retryDeferred_loop_provenance (sink : Sink σ) : ∀ (fuel : Nat) (waiting : List (Record × String)),
    WaitingOutputs source p₀ waiting → Keeps (Provenance source p₀) LogGrows (fun _ => True)
      (retryDeferred.loop sink.logged waiting fuel) fun w _ => WaitingOutputs source p₀ w
  | 0, _, hw => Keeps.pure _ fun _ _ => hw
  | fuel + 1, waiting, hw => by
    rw [retryDeferred.loop]
    split
    · exact Keeps.pure _ fun _ _ => hw
    refine (retryOnce_provenance sink waiting hw).bind fun pending => ?_
    refine Keeps.of_fact fun hpending => ?_
    split
    · exact Keeps.pure _ fun _ _ => hpending
    · exact retryDeferred_loop_provenance sink fuel pending hpending

theorem retryDeferred_provenance (sink : Sink σ) (waiting : List (Record × String))
    (hw : WaitingOutputs source p₀ waiting) :
    Keeps (Provenance source p₀) LogGrows (fun _ => True) (retryDeferred sink.logged waiting)
      fun _ _ => True := by
  unfold retryDeferred
  refine (retryDeferred_loop_provenance sink _ waiting hw).bind fun left => ?_
  refine Keeps.of_fact fun hleft => ?_
  -- what is still waiting is written when its parent resolves now, and dropped otherwise
  refine (Keeps.forIn (fun _ _ => True) (fun x hx _ => ?_) ()).bind fun _ =>
    Keeps.pure _ fun _ _ => trivial
  obtain ⟨e, oldId⟩ := x
  dsimp only
  refine (prepare_provenance e false).bind fun p => ?_
  cases p with
  | ready e' =>
    exact ((write_provenance sink e' oldId).mono (fun _ hkeys => ⟨e, hleft _ hx, hkeys⟩)
      fun _ _ h => h).bind fun _ => Keeps.pure _ fun _ _ => trivial
  | deferred _ | rejected => exact Keeps.pure _ fun _ _ => trivial

theorem copyItems_provenance (sink : Sink σ) (k : Kind) (st : Stream) :
    ∀ (i : Nat) (items : List (Except Issue Record)), (∀ r, .ok r ∈ items → source.HandsOut r) →
      Keeps (Provenance source p₀) LogGrows (fun _ => True) (copyItems sink.logged k st i items)
        fun w _ => WaitingOutputs source p₀ w
  | _, [], _ => Keeps.pure _ fun _ _ => by simp [WaitingOutputs]
  | i, item :: rest, hitems => by
    simp only [copyItems]
    refine (countRead_provenance k).bind fun _ => ?_
    refine (Keeps.guarded (Q := fun w _ => WaitingOutputs source p₀ w) ?_ st (i + 1)).bind fun waiting => ?_
    · split
      · exact process_provenance sink (hitems _ List.mem_cons_self)
      · exact (reject_provenance k _ 1).bind fun _ => Keeps.pure _ fun _ _ => by simp [WaitingOutputs]
    · refine Keeps.of_fact fun hw => ?_
      exact (copyItems_provenance sink k st (i + 1) rest
        fun r hr => hitems r (List.mem_cons_of_mem _ hr)).bind fun _ =>
          Keeps.pure _ fun _ hl => waitingOutputs_append hw hl

theorem copyCollection_provenance (sink : Sink σ) (k : Kind) :
    Keeps (Provenance source p₀) LogGrows (fun _ => True) (copyCollection source sink.logged k)
      fun _ _ => True :=
  Keeps.copyCollection
    (fun st hread => copyItems_provenance sink k st 0 st.items fun r hr => .inl ⟨k, st, hread, hr⟩)
    fun waiting => Keeps.of_fact fun hw => retryDeferred_provenance sink waiting hw

theorem processStopTime_provenance (sink : Sink σ) {r : Record} (hr : source.HandsOut r) :
    Keeps (Provenance source p₀) LogGrows (fun _ => True) (processStopTime sink.logged r)
      fun batch _ => ∀ e ∈ batch, Copied source p₀ e := by
  unfold processStopTime
  refine (filterStages_provenance r).bind fun r' => (expandStages_provenance r r').bind fun outs => ?_
  refine Keeps.of_fact fun houts => ?_
  dsimp only
  -- the batch holds stop times made of this record, with their references mapped
  refine ((Keeps.forIn (fun batch _ => ∀ e ∈ batch, Copied source p₀ e) (fun out hout batch => ?_) []).mono
    (fun _ _ => by simp) fun _ _ h => h).bind fun _ => Keeps.pure _ fun _ h => h
  refine Keeps.of_fact fun hbatch => ?_
  have hstage : StageOutput source p₀ out := ⟨r, hr, houts out hout⟩
  refine (prepare_provenance out false).bind fun p => ?_
  cases p with
  | ready e =>
    dsimp only
    split
    · refine Keeps.pure _ fun _ hkeys e' he' => ?_
      rcases List.mem_append.mp he' with he' | he'
      · exact hbatch e' he'
      · exact (List.mem_singleton.mp he') ▸ ⟨out, hstage, hkeys⟩
    · exact ((write_provenance sink e out.entityId).mono (fun _ hkeys => ⟨out, hstage, hkeys⟩)
        fun _ _ h => h).bind fun _ => Keeps.pure _ fun _ _ => hbatch
  | deferred _ | rejected => exact Keeps.pure _ fun _ _ => hbatch

theorem copyTrip_provenance (sink : Sink σ) (batchSize : Nat) (sts batch : List Record)
    (hsts : ∀ r ∈ sts, source.HandsOut r) (hbatch : ∀ e ∈ batch, Copied source p₀ e) :
    Keeps (Provenance source p₀) LogGrows (fun _ => True) (copyTrip sink.logged batchSize sts batch)
      fun b _ => ∀ e ∈ b, Copied source p₀ e := by
  unfold copyTrip
  rcases hvalid : validateStopTimes sts with ⟨sorted, errors⟩
  dsimp only
  have hsorted : ∀ r ∈ sorted, source.HandsOut r := fun r hr =>
    hsts r ((perm_validateStopTimes sts).subset (by rw [hvalid]; exact hr))
  -- each stop time of the trip joins the batch, which is written whenever it is full
  have hloop : Keeps (Provenance source p₀) LogGrows (fun _ => True)
      (forIn sorted batch fun st b => processStopTime sink.logged st >>= fun more =>
        if (b ++ more).length ≥ batchSize then
          flush sink.logged (b ++ more) >>= fun _ => pure (ForInStep.yield [])
        else pure (ForInStep.yield (b ++ more))) fun b _ => ∀ e ∈ b, Copied source p₀ e := by
    refine (Keeps.forIn (fun b _ => ∀ e ∈ b, Copied source p₀ e) (fun st hst b => ?_) batch).mono
      (fun _ _ => hbatch) fun _ _ h => h
    refine Keeps.of_fact fun hb => (processStopTime_provenance sink (hsorted st hst)).bind fun more => ?_
    have hall : ∀ more : List Record, (∀ e ∈ more, Copied source p₀ e) →
        ∀ e ∈ b ++ more, Copied source p₀ e := fun more hmore e he => by
      rcases List.mem_append.mp he with he | he
      · exact hb e he
      · exact hmore e he
    split
    · exact ((flush_provenance sink _).mono (fun _ h => hall more h) fun _ _ h => h).bind fun _ =>
        Keeps.pure _ fun _ _ => by simp
    · exact Keeps.pure _ fun _ h => hall more h
  split
  · refine Keeps.get.bind fun _ => ?_
    split
    · -- a trip that fails its check is dropped whole, and the batch stays as it was
      exact (reject_provenance _ _ _).bind fun _ => Keeps.pure _ fun _ _ => hbatch
    · exact (warn_provenance _ _).bind fun _ => hloop.bind fun _ => Keeps.pure _ fun _ h => h
  · exact hloop.bind fun _ => Keeps.pure _ fun _ h => h

theorem copyChunk_provenance (sink : Sink σ) (batchSize : Nat) (chunk : List String) :
    Keeps (Provenance source p₀) LogGrows (fun _ => True) (copyChunk source sink.logged batchSize chunk)
      fun _ _ => True := by
  unfold copyChunk
  split
  · exact Keeps.throw _
  · exact Keeps.pure _ fun _ _ => trivial
  · rename_i st hread
    refine (Keeps.forIn (fun _ _ => True) (fun _ _ _ => (countRead_provenance _).bind fun _ =>
      Keeps.pure _ fun _ _ => trivial) ()).bind fun _ => (Keeps.finish st).bind fun _ => ?_
    rcases hgroups : groupByTrip st.items with ⟨groups, problems⟩
    dsimp only
    refine (Keeps.forIn (fun _ _ => True) (fun _ _ _ => (reject_provenance _ _ _).bind fun _ =>
      Keeps.pure _ fun _ _ => trivial) ()).bind fun _ => ?_
    -- the trips of the chunk add their stop times to one batch, written at the end
    refine ((Keeps.forIn (fun b _ => ∀ e ∈ b, Copied source p₀ e) (fun trip _ b => ?_) []).mono
      (fun _ _ => by simp) fun _ _ h => h).bind fun batch => ?_
    · refine Keeps.of_fact fun hb => ?_
      split
      · rename_i sts hlookup
        have hstops : tripStops st.items trip = sts :=
          tripStops_of_lookup_groupByTrip (by rw [hgroups]; exact hlookup)
        have hsts : ∀ r ∈ sts, source.HandsOut r := fun r hr =>
          .inr ⟨chunk, st, hread, (mem_tripStops.mp (by rw [hstops]; exact hr)).1⟩
        exact (copyTrip_provenance sink batchSize sts b hsts hb).bind fun _ => Keeps.pure _ fun _ h => h
      · exact Keeps.pure _ fun _ _ => hb
    · exact (flush_provenance sink batch).bind fun _ => Keeps.pure _ fun _ _ => trivial

theorem rejectOrphans_provenance (tripIds : List String) :
    Keeps (Provenance source p₀) LogGrows (fun _ => True)
      (rejectOrphans (σ := σ × List Record) source tripIds) fun _ _ => True := by
  unfold rejectOrphans
  split
  · exact Keeps.throw _
  · exact Keeps.pure _ fun _ _ => trivial
  · rename_i st _
    refine (Keeps.forIn (fun _ _ => True) (fun x _ _ => ?_) ()).bind fun _ => Keeps.finish st
    obtain ⟨item, i⟩ := x
    dsimp only
    exact (countRead_provenance _).bind fun _ => (Keeps.guarded (reject_provenance _ _ _) st (i + 1)).bind
      fun _ => Keeps.pure _ fun _ _ => trivial

theorem copyStopTimes_provenance (sink : Sink σ) :
    Keeps (Provenance source p₀) LogGrows (fun _ => True) (copyStopTimes source sink.logged)
      fun _ _ => True :=
  Keeps.copyStopTimes (fun n chunk => copyChunk_provenance sink n chunk) fun trips =>
    rejectOrphans_provenance trips

theorem copyAll_provenance (sink : Sink σ) :
    Keeps (Provenance source p₀) LogGrows (fun _ => True) (copyAll source sink.logged) fun _ _ => True :=
  Keeps.copyAll (copyStopTimes_provenance sink) fun k => copyCollection_provenance sink k

end Copying

/-- Whatever the source, destination, stages, options and preset map, and however the copy
ends, every record the destination is handed is a record that the stages made, in a state
they reach from the start, out of a record the source handed out, with its references mapped;
and the stages end in such a state. -/
theorem copyFeed_writes_stage_outputs {σ : Type} (source : Source) (sink : Sink σ) (store : σ)
    (map : IdMap) (pipeline : Pipeline) (options : CopyOptions) (cancelled : Bool) :
    Provenance source pipeline
      (copyFeed source sink.logged (store, []) map pipeline options cancelled).2 := by
  have hstart : Provenance source pipeline _ := Provenance.start store map options
  unfold copyFeed
  split
  · exact hstart
  · exact (Copying.copyAll_provenance sink _ hstart trivial).1

/-- When exactly one stage of a copy prefixes a collection, every record of that collection with
a filled identifier that the destination is handed carries the prefix before the identifier of
a record the source handed out; unless an expansion created it, as the network a route names
or the calendar of the service of a calendar date, and then its identifier is the bare name
the route or the calendar date gave. -/
theorem copyFeed_prefixes_collection_ids {σ : Type} (source : Source) (sink : Sink σ) (store : σ)
    (map : IdMap) (pipeline : Pipeline) (options : CopyOptions) (cancelled : Bool) {c : Kind}
    {pre : String} (hpre : pipeline.prefixesFor c = [pre]) :
    ∀ e ∈ (copyFeed source sink.logged (store, []) map pipeline options cancelled).2.store.2,
      e.kind = c → e.entityId ≠ "" → ∃ r, source.HandsOut r ∧
        ((r.kind = c ∧ e.entityId = pre ++ r.entityId) ∨
          (c = .network ∧ r.kind = .route ∧ e.entityId = r.str "network_id") ∨
          (c = .calendar ∧ r.kind = .calendarDate ∧ e.entityId = r.str "service_id")) := by
  intro e he hkind hid
  obtain ⟨out, ⟨r, hr, hmakes⟩, lookup, hkeys⟩ :=
    (copyFeed_writes_stage_outputs source sink store map pipeline options cancelled).log e he
  -- remapping the references keeps the kind and the identifier
  have hok : out.kind = c := by rw [← Record.updateKeys_kind hkeys, hkind]
  have hoid : e.entityId = out.entityId := Record.entityId_updateKeys hkeys
  rw [hoid] at hid ⊢
  exact ⟨r, hr, hmakes.entityId_of_prefixesFor hpre hok hid⟩

/-- A route naming a network that its feed does not define. -/
def networkRouteFeed : MemoryFeed :=
  MemoryFeed.ofRecords [
    Record.ofSql .agency [("agency_id", .text "A"), ("agency_name", .text "Ag"),
      ("agency_url", .text "http://a.example"), ("agency_timezone", .text "Europe/Paris")],
    Record.ofSql .route [("route_id", .text "R"), ("agency_id", .text "A"), ("route_short_name", .text "r"),
      ("route_type", .integer 3), ("network_id", .text "N1")]]

/-- Networks prefixed with "p-", and then created for the routes that name them. -/
def prefixedNetworks : Pipeline :=
  { stages := [.rename { entries := [(Kind.network.fileName, "p-")] }, .network {}] }

/-- Copying the small feed with networks prefixed: every network written carries the prefix or
the name its route gave. -/
theorem networkRouteFeed_network_ids :
    prefixedNetworks.prefixesFor .network = ["p-"] ∧
      ∀ e ∈ (copyFeed networkRouteFeed.source MemoryFeed.sink.logged ({}, []) IdMap.empty
          prefixedNetworks {} false).2.store.2,
        e.kind = .network → e.entityId ≠ "" → ∃ r, networkRouteFeed.source.HandsOut r ∧
          ((r.kind = .network ∧ e.entityId = "p-" ++ r.entityId) ∨
            (Kind.network = .network ∧ r.kind = .route ∧ e.entityId = r.str "network_id") ∨
            (Kind.network = .calendar ∧ r.kind = .calendarDate ∧ e.entityId = r.str "service_id")) :=
  ⟨by decide, copyFeed_prefixes_collection_ids _ _ _ _ _ _ _ (by decide)⟩

/-- A network created for a route keeps the bare name the route gave: copying the small feed
with networks prefixed by "p-" hands the destination the network "N1". -/
theorem copyFeed_writes_unprefixed_network :
    prefixedNetworks.prefixesFor .network = ["p-"] ∧
      ∃ e ∈ (copyFeed networkRouteFeed.source MemoryFeed.sink.logged ({}, []) IdMap.empty
          prefixedNetworks {} false).2.store.2,
        e.kind = .network ∧ e.entityId = "N1" := by
  decide +kernel

end TransitFeed

import TransitFeed.Proofs.Copy.Collection
import TransitFeed.Proofs.Copy.Integrity
import TransitFeed.Proofs.Copy.WriteLog
import TransitFeed.Store.Memory

/-!
# A copy sees its destination only through what it writes

The engine reads the state of its destination nowhere: it hands records to `add` and `addAll`
and keeps what they give back. So when a destination `sink'` simulates `sink` through a view
`π` of its state (writing to `sink'` and then looking through `π` is writing to `sink`), a
copy into `sink'`, looked at through `π`, is the copy into `sink` from the state seen through
`π`: the same outcome, reports, identifier map and stages, and the destination's state seen
through `π`. Main statement: `copyFeed_natural`.

So whatever is proved of a copy into a destination that logs or traces what it is handed
holds of a copy into the destination it wraps, and a property of destination states that
every write keeps holds at the end of every copy (`copyFeed_store_invariant`). A copy into a
feed in memory, from an empty feed, holds the records it was handed, in order.
-/

namespace TransitFeed

/-- The state of a copy with the state of its destination seen through `π`. -/
def Run.mapStore {σ' σ : Type} (π : σ' → σ) (s : Run σ') : Run σ :=
  { store := π s.store, map := s.map, pipeline := s.pipeline, options := s.options, reports := s.reports }

section MapStore

variable {σ' σ : Type} (π : σ' → σ) (s : Run σ')

@[simp] theorem Run.mapStore_store : (s.mapStore π).store = π s.store := rfl
@[simp] theorem Run.mapStore_map : (s.mapStore π).map = s.map := rfl
@[simp] theorem Run.mapStore_pipeline : (s.mapStore π).pipeline = s.pipeline := rfl
@[simp] theorem Run.mapStore_options : (s.mapStore π).options = s.options := rfl
@[simp] theorem Run.mapStore_reports : (s.mapStore π).reports = s.reports := rfl

end MapStore

/-- Writing to `sink'` and then looking through `π` is writing to `sink`, for one record and
for several. -/
structure Sink.Simulates {σ' σ : Type} (sink' : Sink σ') (π : σ' → σ) (sink : Sink σ) : Prop where
  add : ∀ s r, (sink'.add s r).map (fun x => (π x.1, x.2)) = sink.add (π s) r
  addAll : ∀ s rs, (sink'.addAll s rs).map (fun x => (π x.1, x.2)) = sink.addAll (π s) rs

namespace Copying

variable {σ' σ : Type} {π : σ' → σ} {α β : Type}

/-- Run from a state seen through `π`, the step `x` ends as `x'` does from the state itself,
seen through `π`. -/
def Natural (π : σ' → σ) (x' : Copying σ' α) (x : Copying σ α) : Prop :=
  ∀ s, exec x (s.mapStore π) = ((exec x' s).1, (exec x' s).2.mapStore π)

namespace Natural

theorem pure (a : α) : Natural π (pure a : Copying σ' α) (pure a) := fun _ => rfl

theorem throw (e : FeedError) : Natural π (throw e : Copying σ' α) (throw e) := fun _ => rfl

/-- A change of the state that leaves the destination alone. -/
theorem modify {g' : Run σ' → Run σ'} {g : Run σ → Run σ}
    (hg : ∀ s, g (s.mapStore π) = (g' s).mapStore π) : Natural π (modify g') (modify g) := fun s => by
  rw [exec_modify, exec_modify, hg]

theorem bind {x' : Copying σ' α} {x : Copying σ α} {f' : α → Copying σ' β} {f : α → Copying σ β}
    (hx : Natural π x' x) (hf : ∀ a, Natural π (f' a) (f a)) : Natural π (x' >>= f') (x >>= f) := by
  intro s
  rw [exec_bind, exec_bind, hx s]
  rcases exec x' s with ⟨_ | a, s'⟩
  · rfl
  · exact hf a s'

/-- A step that reads the state goes on with the state seen through `π`. -/
theorem get_bind {f' : Run σ' → Copying σ' β} {f : Run σ → Copying σ β}
    (hf : ∀ s, Natural π (f' s) (f (s.mapStore π))) : Natural π (get >>= f') (get >>= f) := by
  intro s
  rw [exec_bind, exec_bind, exec_get, exec_get]
  exact hf s s

theorem tryCatch {x' : Copying σ' α} {x : Copying σ α} {h' : FeedError → Copying σ' α}
    {h : FeedError → Copying σ α} (hx : Natural π x' x) (hh : ∀ e, Natural π (h' e) (h e)) :
    Natural π (tryCatch x' h') (tryCatch x h) := by
  intro s
  rw [exec_tryCatch, exec_tryCatch, hx s]
  rcases exec x' s with ⟨e | a, s'⟩
  · exact hh e s'
  · rfl

theorem forIn {γ : Type} (xs : List γ) {f' : γ → β → Copying σ' (ForInStep β)}
    {f : γ → β → Copying σ (ForInStep β)} (hf : ∀ a b, Natural π (f' a b) (f a b)) (b : β) :
    Natural π (forIn xs b f') (forIn xs b f) := by
  induction xs generalizing b with
  | nil => exact pure b
  | cons a as ih =>
    rw [List.forIn_cons, List.forIn_cons]
    refine bind (hf a b) fun step => ?_
    cases step with
    | done b' => exact pure b'
    | yield b' => exact ih b'

/-- Both sides take the same branch. -/
theorem ite {c : Prop} [Decidable c] {x' y' : Copying σ' α} {x y : Copying σ α} (hx : Natural π x' x)
    (hy : Natural π y' y) : Natural π (if c then x' else y') (if c then x else y) := by
  split
  · exact hx
  · exact hy

end Natural

section Steps

theorem report_natural (k : Kind) (g : CollectionReport → CollectionReport) :
    Natural π (report k g : Copying σ' Unit) (report k g) :=
  Natural.modify fun _ => rfl

theorem countRead_natural (k : Kind) : Natural π (countRead k : Copying σ' Unit) (countRead k) :=
  report_natural k _

theorem warn_natural (k : Kind) (ws : List Issue) :
    Natural π (warn k ws : Copying σ' Unit) (warn k ws) := fun s => by
  rw [exec_warn, exec_warn]
  rfl

theorem reject_natural (k : Kind) (errors : List Issue) (dropped : Nat) :
    Natural π (reject k errors dropped : Copying σ' Unit) (reject k errors dropped) := by
  unfold reject
  refine Natural.get_bind fun s => ?_
  simp only [Run.mapStore_options]
  refine Natural.ite ?_ (report_natural k _)
  cases errors with
  | nil => exact Natural.pure _
  | cons e _ => exact Natural.throw _

theorem prepare_natural (r : Record) (canDefer : Bool) :
    Natural π (prepare r canDefer : Copying σ' Prepared) (prepare r canDefer) := by
  unfold prepare
  refine Natural.get_bind fun s => ?_
  simp only [Run.mapStore_options, Run.mapStore_map]
  refine Natural.ite ((reject_natural _ _ _).bind fun _ => Natural.pure _) ?_
  refine Natural.ite (Natural.pure _) ?_
  cases r.updateKeys (fun k old => s.map.get? k.fileName old) with
  | error i => exact (reject_natural _ _ _).bind fun _ => Natural.pure _
  | ok e => exact (warn_natural _ _).bind fun _ => Natural.pure _

theorem note_natural (r : Record) (oldId newId : String) :
    Natural π (note r oldId newId : Copying σ' Unit) (note r oldId newId) := fun s => by
  -- every branch of every kind reads the identifier map and the error limit only
  cases hk : r.kind <;> cases hp : stopPoint r <;>
    simp only [note, hk, hp, exec_bind, exec_get, exec_modify, exec_pure, exec_warn, exec_ite,
      Kind.idColumn?, Run.mapStore] <;> repeat' split
  all_goals rfl

theorem filterStages_natural (r : Record) :
    Natural π (filterStages r : Copying σ' Record) (filterStages r) := fun s => by
  rw [exec_filterStages, exec_filterStages]
  rfl

theorem expandStages_natural (r : Record) :
    Natural π (expandStages r : Copying σ' (List Record)) (expandStages r) := fun s => by
  rw [exec_expandStages, exec_expandStages]
  rfl

theorem finish_natural (st : Stream) : Natural π (finish st : Copying σ' Unit) (finish st) := by
  unfold finish
  cases st.failure with
  | some f => exact Natural.throw f
  | none => exact Natural.pure ()

theorem guarded_natural {step' : Copying σ' α} {step : Copying σ α} (h : Natural π step' step)
    (st : Stream) (position : Nat) : Natural π (guarded st position step') (guarded st position step) := by
  unfold guarded
  refine Natural.tryCatch h fun e => ?_
  cases st.failure with
  | some f =>
    refine Natural.get_bind fun s => ?_
    simp only [Run.mapStore_options]
    exact Natural.ite (Natural.throw f) (Natural.throw e)
  | none => exact Natural.throw e

/-- The state after an accepted write, seen through `π`. -/
theorem written_mapStore (s : Run σ') (r : Record) (oldId newId : String) (store : σ') :
    written (s.mapStore π) r oldId newId (π store) = (written s r oldId newId store).mapStore π := by
  have hnote := note_natural (π := π) r oldId newId { s with store := store }
  unfold written
  rw [show ({ s.mapStore π with store := π store } : Run σ) = ({ s with store := store } : Run σ').mapStore π
    from rfl, hnote]
  rfl

variable {sink' : Sink σ'} {sink : Sink σ} (hsink : sink'.Simulates π sink)
include hsink

theorem write_natural (r : Record) (oldId : String) :
    Natural π (write sink' r oldId) (write sink r oldId) := fun s => by
  rw [exec_write, exec_write, Run.mapStore_store, ← hsink.add]
  cases sink'.add s.store r with
  | error e => rfl
  | ok accepted =>
    obtain ⟨store, newId⟩ := accepted
    exact congrArg (Prod.mk _) (written_mapStore s r oldId newId store)

theorem flush_natural (batch : List Record) :
    Natural π (flush sink' batch) (flush sink batch) := fun s => by
  rw [exec_flush, exec_flush, Run.mapStore_store, ← hsink.addAll]
  split
  · rfl
  · cases sink'.addAll s.store batch with
    | error e => rfl
    | ok accepted => rfl

theorem settle_natural (kind : Kind) (oldId filteredId : String) :
    ∀ outs, Natural π (settle sink' kind oldId filteredId outs) (settle sink kind oldId filteredId outs)
  | [] => Natural.pure _
  | out :: rest => by
    rw [settle, settle]
    refine (prepare_natural out true).bind fun p => ?_
    -- the outputs after this one, after the stops waiting from it
    have tail : ∀ w, Natural π (settle sink' kind oldId filteredId rest >>= fun l => pure (w ++ l))
        (settle sink kind oldId filteredId rest >>= fun l => pure (w ++ l)) :=
      fun w => (settle_natural kind oldId filteredId rest).bind fun _ => Natural.pure _
    cases p with
    | ready e => exact (write_natural hsink e _).bind fun _ => (Natural.pure _).bind tail
    | deferred e => exact (Natural.pure _).bind tail
    | rejected => exact (Natural.pure _).bind tail

theorem process_natural (r : Record) : Natural π (process sink' r) (process sink r) := by
  unfold process
  exact (filterStages_natural r).bind fun r' => (expandStages_natural r').bind fun outs =>
    settle_natural hsink _ _ _ outs

theorem retryOnce_natural :
    ∀ waiting, Natural π (retryOnce sink' waiting) (retryOnce sink waiting)
  | [] => Natural.pure _
  | (e, oldId) :: rest => by
    rw [retryOnce, retryOnce]
    refine (prepare_natural e true).bind fun p => ?_
    have tail : ∀ w, Natural π (retryOnce sink' rest >>= fun l => pure (w ++ l))
        (retryOnce sink rest >>= fun l => pure (w ++ l)) :=
      fun w => (retryOnce_natural rest).bind fun _ => Natural.pure _
    cases p with
    | ready e' => exact (write_natural hsink e' oldId).bind fun _ => (Natural.pure _).bind tail
    | deferred e' => exact (Natural.pure _).bind tail
    | rejected => exact (Natural.pure _).bind tail

theorem retryDeferred_loop_natural :
    ∀ (fuel : Nat) (waiting : List (Record × String)),
      Natural π (retryDeferred.loop sink' waiting fuel) (retryDeferred.loop sink waiting fuel)
  | 0, _ => Natural.pure _
  | fuel + 1, waiting => by
    rw [retryDeferred.loop, retryDeferred.loop]
    refine Natural.ite (Natural.pure _) ((retryOnce_natural hsink waiting).bind fun pending => ?_)
    exact Natural.ite (Natural.pure _) (retryDeferred_loop_natural fuel pending)

theorem retryDeferred_natural (waiting : List (Record × String)) :
    Natural π (retryDeferred sink' waiting) (retryDeferred sink waiting) := by
  unfold retryDeferred
  refine (retryDeferred_loop_natural hsink _ waiting).bind fun left =>
    (Natural.forIn left (fun x _ => ?_) ()).bind fun _ => Natural.pure _
  refine (prepare_natural x.1 false).bind fun p => ?_
  cases p with
  | ready e => exact (write_natural hsink e _).bind fun _ => Natural.pure _
  | deferred e => exact Natural.pure _
  | rejected => exact Natural.pure _

theorem copyItems_natural (k : Kind) (st : Stream) :
    ∀ (i : Nat) (items : List (Except Issue Record)),
      Natural π (copyItems sink' k st i items) (copyItems sink k st i items)
  | _, [] => Natural.pure _
  | i, item :: rest => by
    simp only [copyItems]
    refine (countRead_natural k).bind fun _ => (guarded_natural ?_ st (i + 1)).bind fun waiting =>
      (copyItems_natural k st (i + 1) rest).bind fun _ => Natural.pure _
    cases item with
    | ok r => exact process_natural hsink r
    | error issue => exact (reject_natural k _ 1).bind fun _ => Natural.pure _

theorem copyCollection_natural (source : Source) (k : Kind) :
    Natural π (copyCollection source sink' k) (copyCollection source sink k) := by
  unfold copyCollection
  cases source.read k with
  | error e => exact Natural.throw e
  | ok st =>
    cases st with
    | none => exact Natural.pure ()
    | some st =>
      exact (copyItems_natural hsink k st 0 st.items).bind fun waiting =>
        (finish_natural st).bind fun _ => retryDeferred_natural hsink waiting

theorem processStopTime_natural (r : Record) :
    Natural π (processStopTime sink' r) (processStopTime sink r) := by
  unfold processStopTime
  refine (filterStages_natural r).bind fun r' => (expandStages_natural r').bind fun outs =>
    (Natural.forIn outs (fun out batch => ?_) []).bind fun _ => Natural.pure _
  refine (prepare_natural out false).bind fun p => ?_
  cases p with
  | ready e => exact Natural.ite (Natural.pure _) ((write_natural hsink e _).bind fun _ => Natural.pure _)
  | deferred e => exact Natural.pure _
  | rejected => exact Natural.pure _

theorem copyTrip_natural (batchSize : Nat) (sts batch : List Record) :
    Natural π (copyTrip sink' batchSize sts batch) (copyTrip sink batchSize sts batch) := by
  unfold copyTrip
  obtain ⟨sorted, errors⟩ := validateStopTimes sts
  dsimp only
  -- the stop times of the trip, the batch written whenever it is full
  have hloop : Natural π
      (forIn sorted batch fun st b => do
        let more ← processStopTime sink' st
        if (b ++ more).length ≥ batchSize then do
          flush sink' (b ++ more)
          pure (ForInStep.yield [])
        else pure (ForInStep.yield (b ++ more)))
      (forIn sorted batch fun st b => do
        let more ← processStopTime sink st
        if (b ++ more).length ≥ batchSize then do
          flush sink (b ++ more)
          pure (ForInStep.yield [])
        else pure (ForInStep.yield (b ++ more))) :=
    Natural.forIn sorted (fun st b => (processStopTime_natural hsink st).bind fun more =>
      Natural.ite ((flush_natural hsink _).bind fun _ => Natural.pure _) (Natural.pure _)) batch
  refine Natural.ite (Natural.get_bind fun s => ?_) (hloop.bind fun _ => Natural.pure _)
  exact Natural.ite ((reject_natural _ _ _).bind fun _ => Natural.pure _)
    ((warn_natural _ _).bind fun _ => hloop.bind fun _ => Natural.pure _)

theorem copyChunk_natural (source : Source) (batchSize : Nat) (chunk : List String) :
    Natural π (copyChunk source sink' batchSize chunk) (copyChunk source sink batchSize chunk) := by
  unfold copyChunk
  cases source.stopTimesOf chunk with
  | error e => exact Natural.throw e
  | ok st =>
    cases st with
    | none => exact Natural.pure false
    | some st =>
      refine (Natural.forIn st.items (fun _ _ => (countRead_natural _).bind fun _ => Natural.pure _) ()).bind
        fun _ => (finish_natural st).bind fun _ =>
          (Natural.forIn _ (fun _ _ => (reject_natural _ _ 1).bind fun _ => Natural.pure _) ()).bind fun _ =>
            (Natural.forIn chunk (fun trip b => ?_) []).bind fun b =>
              (flush_natural hsink b).bind fun _ => Natural.pure _
      cases (groupByTrip st.items).1.lookup trip with
      | some sts => exact (copyTrip_natural hsink batchSize sts b).bind fun _ => Natural.pure _
      | none => exact Natural.pure _

omit hsink in
theorem rejectOrphans_natural (source : Source) (tripIds : List String) :
    Natural π (rejectOrphans source tripIds : Copying σ' Unit) (rejectOrphans source tripIds) := by
  unfold rejectOrphans
  cases source.stopTimesNotOf tripIds with
  | error e => exact Natural.throw e
  | ok st =>
    cases st with
    | none => exact Natural.pure ()
    | some st =>
      refine (Natural.forIn _ (fun x _ => ?_) ()).bind fun _ => finish_natural st
      exact (countRead_natural _).bind fun _ =>
        (guarded_natural (reject_natural _ _ 1) st _).bind fun _ => Natural.pure _

theorem copyStopTimes_natural (source : Source) :
    Natural π (copyStopTimes source sink') (copyStopTimes source sink) := by
  unfold copyStopTimes
  refine Natural.get_bind fun s => ?_
  simp only [Run.mapStore_map, Run.mapStore_options]
  refine (Natural.forIn _ (fun chunk _ => (copyChunk_natural hsink source _ chunk).bind fun _ =>
    Natural.ite (Natural.pure _) (Natural.pure _)) (none, ())).bind fun r => ?_
  cases r.1 with
  | some u => exact Natural.pure u
  | none => exact rejectOrphans_natural source _

theorem copyAll_natural (source : Source) : Natural π (copyAll source sink') (copyAll source sink) := by
  unfold copyAll
  refine (Natural.forIn _ (fun k _ => ?_) ()).bind fun _ => Natural.pure _
  exact Natural.ite ((copyStopTimes_natural hsink source).bind fun _ => Natural.pure _)
    ((copyCollection_natural hsink source k).bind fun _ => Natural.pure _)

end Steps

end Copying

/-- A copy sees its destination only through what it writes: into a destination that
simulates another through a view of its state, a copy ends as the copy into the other from
the state seen through the view, with the same outcome and the destination's state seen
through the view. -/
theorem copyFeed_natural {σ' σ : Type} {π : σ' → σ} {sink' : Sink σ'} {sink : Sink σ}
    (hsink : sink'.Simulates π sink) (source : Source) (store : σ') (map : IdMap) (pipeline : Pipeline)
    (options : CopyOptions) (cancelled : Bool) :
    copyFeed source sink (π store) map pipeline options cancelled =
      ((copyFeed source sink' store map pipeline options cancelled).1,
        (copyFeed source sink' store map pipeline options cancelled).2.mapStore π) := by
  unfold copyFeed
  split
  · rfl
  · have h := Copying.copyAll_natural hsink source { store, map, pipeline, options }
    simp only [Copying.exec] at h
    simp only [Run.mapStore] at h ⊢
    rw [h]
    rfl

/-- A logging destination simulates the destination it wraps, through the wrapped state. -/
theorem Sink.logged_simulates {σ : Type} (sink : Sink σ) : sink.logged.Simulates Prod.fst sink where
  add s r := by
    simp only [Sink.logged, Except.map]
    cases sink.add s.1 r <;> rfl
  addAll s rs := by
    simp only [Sink.logged, Except.map]
    cases sink.addAll s.1 rs <;> rfl

/-- A tracing destination simulates the destination it wraps, through the wrapped state. -/
theorem Sink.traced_simulates {σ : Type} (sink : Sink σ) : sink.traced.Simulates Prod.fst sink where
  add s r := by
    simp only [Sink.traced, Except.map]
    cases sink.add s.1 r <;> rfl
  addAll s rs := by
    simp only [Sink.traced, Except.map]
    cases sink.addAll s.1 rs <;> rfl

section Restrict

variable {σ : Type} (sink : Sink σ) (J : σ → Prop) (hadd : ∀ s r x, J s → sink.add s r = .ok x → J x.1)
  (haddAll : ∀ s rs x, J s → sink.addAll s rs = .ok x → J x.1)

/-- A destination on the states where `J` holds, which every write keeps. -/
def Sink.restrict : Sink {s // J s} where
  add s r := match h : sink.add s.1 r with
    | .error e => .error e
    | .ok x => .ok (⟨x.1, hadd s.1 r x s.2 h⟩, x.2)
  addAll s rs := match h : sink.addAll s.1 rs with
    | .error e => .error e
    | .ok x => .ok (⟨x.1, haddAll s.1 rs x s.2 h⟩, x.2)

theorem Sink.restrict_simulates : (sink.restrict J hadd haddAll).Simulates Subtype.val sink where
  add s r := by
    simp only [Sink.restrict]
    split <;> simp_all [Except.map]
  addAll s rs := by
    simp only [Sink.restrict]
    split <;> simp_all [Except.map]

include hadd haddAll in
/-- A property of the destination's state that every write keeps holds at the end of every
copy that starts in it, however the copy ends. -/
theorem copyFeed_store_invariant (source : Source) {store : σ} (hstore : J store) (map : IdMap)
    (pipeline : Pipeline) (options : CopyOptions) (cancelled : Bool) :
    J (copyFeed source sink store map pipeline options cancelled).2.store := by
  have h := copyFeed_natural (sink.restrict_simulates J hadd haddAll) source ⟨store, hstore⟩ map pipeline
    options cancelled
  rw [show store = (⟨store, hstore⟩ : {s // J s}).1 from rfl, h]
  exact ((copyFeed source (sink.restrict J hadd haddAll) ⟨store, hstore⟩ map pipeline options
    cancelled).2.store).2

end Restrict

end TransitFeed

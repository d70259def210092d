import TransitFeed.Proofs.Copy.Clean

/-!
# A copy without `failFast` finishes

Three things end a copy early: an error of the source, a destination that refuses what it is
handed, and, with `failFast`, the first problem of a dropped record. A source that hands out
every stream it is asked for, none ending with an error of its own, and a destination that
takes everything leave only the third. So a copy without `failFast` from such a source into
such a destination ends normally, whatever the stages, the preset map and the records: every
step of it does, as `Finishes` says of a step and this file shows step by step, keeping the
options. A feed in memory is such a source and such a destination: `copyFeed_memory_finishes`.
-/

namespace TransitFeed

/-- A source that hands out every stream it is asked for, none ending with an error of its
own. -/
structure Source.NeverFails (source : Source) : Prop where
  read : ∀ k, ∃ st, source.read k = .ok st ∧ ∀ s ∈ st, s.failure = none
  stopTimesOf : ∀ trips, ∃ st, source.stopTimesOf trips = .ok st ∧ ∀ s ∈ st, s.failure = none
  stopTimesNotOf : ∀ trips, ∃ st, source.stopTimesNotOf trips = .ok st ∧ ∀ s ∈ st, s.failure = none

/-- The stop times of a feed in memory end without an error of their own. -/
theorem MemoryFeed.failure_of_mem_stopTimes (f : MemoryFeed) (trips : List String) (among : Bool) :
    ∀ s ∈ f.stopTimes trips among, s.failure = none := by
  intro s hs
  unfold MemoryFeed.stopTimes at hs
  split at hs
  · cases hs
  · cases hs
    rfl

/-- A feed in memory hands out every stream. -/
theorem MemoryFeed.neverFails_source (f : MemoryFeed) : f.source.NeverFails where
  read _ := ⟨_, rfl, fun s hs => by
    obtain ⟨_, -, rfl⟩ := Option.mem_map.mp hs
    rfl⟩
  stopTimesOf trips := ⟨_, rfl, f.failure_of_mem_stopTimes trips true⟩
  stopTimesNotOf trips := ⟨_, rfl, f.failure_of_mem_stopTimes trips false⟩

namespace Copying

variable {σ : Type}

/-- The options stayed. -/
def SameOptions (s s' : Run σ) : Prop := s'.options = s.options

instance : IsPreorder (Run σ) SameOptions where
  refl _ := rfl
  trans _ _ _ h h' := h'.trans h

/-- Run from any state without `failFast`, the step `x` ends normally, keeping the options. -/
def Finishes {α : Type} (x : Copying σ α) : Prop :=
  Runs (fun s => s.options.failFast = false) SameOptions (fun _ => True) x fun _ _ => True

namespace Finishes

variable {α β : Type}

/-- A step that ends normally from every state without `failFast`, keeping the options. -/
theorem of_exec {x : Copying σ α}
    (h : ∀ s, s.options.failFast = false → ∃ a s', exec x s = (.ok a, s') ∧ s'.options = s.options) :
    Finishes x := fun s hs _ =>
  let ⟨a, s', hx, hopt⟩ := h s hs
  ⟨a, s', hx, (congrArg CopyOptions.failFast hopt).trans hs, hopt, trivial⟩

protected theorem pure (a : α) : Finishes (pure a : Copying σ α) :=
  Runs.pure a fun _ _ => trivial

protected theorem get : Finishes (get : Copying σ (Run σ)) :=
  of_exec fun s _ => ⟨s, s, rfl, rfl⟩

protected theorem bind {x : Copying σ α} {f : α → Copying σ β} (hx : Finishes x)
    (hf : ∀ a, Finishes (f a)) : Finishes (x >>= f) :=
  Runs.bind hx hf

protected theorem forIn {xs : List α} {f : α → β → Copying σ (ForInStep β)}
    (hf : ∀ a ∈ xs, ∀ b, Finishes (f a b)) (b : β) : Finishes (forIn xs b f) :=
  Runs.forIn (fun _ _ => True) hf b

protected theorem guarded {x : Copying σ α} (hx : Finishes x) (st : Stream) (position : Nat) :
    Finishes (guarded st position x) :=
  Runs.guarded hx st position

/-- A stream without an error of its own ends normally. -/
protected theorem finish {st : Stream} (h : st.failure = none) : Finishes (finish (σ := σ) st) :=
  Runs.finish h

end Finishes

theorem countRead_finishes (k : Kind) : Finishes (countRead (σ := σ) k) :=
  Finishes.of_exec fun s _ => ⟨(), _, exec_countRead k s, rfl⟩

theorem warn_finishes (k : Kind) (ws : List Issue) : Finishes (warn (σ := σ) k ws) :=
  Finishes.of_exec fun s _ => ⟨(), _, exec_warn k ws s, rfl⟩

/-- Without `failFast`, dropping records only records their problems. -/
theorem reject_finishes (k : Kind) (errors : List Issue) (dropped : Nat) :
    Finishes (reject (σ := σ) k errors dropped) :=
  Finishes.of_exec fun s hs => ⟨(), _, exec_reject_lenient k errors dropped s hs, rfl⟩

theorem filterStages_finishes (r : Record) : Finishes (filterStages (σ := σ) r) :=
  Finishes.of_exec fun s _ => ⟨_, _, exec_filterStages r s, rfl⟩

theorem expandStages_finishes (r : Record) : Finishes (expandStages (σ := σ) r) :=
  Finishes.of_exec fun s _ => ⟨_, _, exec_expandStages r s, rfl⟩

/-- Preparing a record ends normally: it is dropped, waits, or is ready. -/
theorem prepare_finishes (r : Record) (canDefer : Bool) : Finishes (prepare (σ := σ) r canDefer) := by
  refine Finishes.of_exec fun s hs => ?_
  rw [exec_prepare]
  split
  · rw [exec_bind_of_ok (exec_reject_lenient _ _ _ s hs)]
    exact ⟨_, _, rfl, rfl⟩
  split
  · exact ⟨_, _, rfl, rfl⟩
  split
  · rw [exec_bind_of_ok (exec_reject_lenient _ _ _ s hs)]
    exact ⟨_, _, rfl, rfl⟩
  · exact ⟨_, _, rfl, rfl⟩

section Sink

variable {sink : Sink σ} (hsink : sink.NeverFails)
include hsink

/-- A destination that takes every record lets a write end normally. -/
theorem write_finishes (e : Record) (oldId : String) : Finishes (write sink e oldId) := by
  refine Finishes.of_exec fun s _ => ?_
  obtain ⟨⟨store, newId⟩, hadd⟩ := hsink.add s.store e
  refine ⟨(), _, by rw [exec_write, hadd], ?_⟩
  exact (note_frame e oldId newId { s with store := store }).2.2.1

theorem flush_finishes (batch : List Record) : Finishes (flush sink batch) := by
  refine Finishes.of_exec fun s _ => ?_
  rw [exec_flush]
  split
  · exact ⟨(), s, rfl, rfl⟩
  · obtain ⟨⟨store, ids⟩, hadd⟩ := hsink.addAll s.store batch
    rw [hadd]
    exact ⟨(), _, rfl, rfl⟩

theorem settle_finishes (kind : Kind) (oldId filteredId : String) :
    ∀ outs : List Record, Finishes (settle sink kind oldId filteredId outs)
  | [] => Finishes.pure _
  | out :: rest => by
    rw [settle]
    refine (prepare_finishes out true).bind fun p => ?_
    have tail : ∀ waiting, Finishes (settle sink kind oldId filteredId rest >>= fun l =>
        pure (waiting ++ l)) :=
      fun _ => (settle_finishes kind oldId filteredId rest).bind fun _ => Finishes.pure _
    cases p with
    | ready e =>
      simp only [pure_bind]
      exact (write_finishes hsink e _).bind fun _ => tail []
    | deferred _ | rejected =>
      simp only [pure_bind]
      exact tail _

theorem process_finishes (r : Record) : Finishes (process sink r) := by
  unfold process
  exact (filterStages_finishes r).bind fun r' => (expandStages_finishes r').bind fun outs =>
    settle_finishes hsink _ _ _ outs

theorem retryOnce_finishes : ∀ waiting : List (Record × String), Finishes (retryOnce sink waiting)
  | [] => Finishes.pure _
  | (e, oldId) :: rest => by
    rw [retryOnce]
    refine (prepare_finishes e true).bind fun p => ?_
    have tail : ∀ w, Finishes (retryOnce sink rest >>= fun l => pure (w ++ l)) :=
      fun _ => (retryOnce_finishes rest).bind fun _ => Finishes.pure _
    cases p with
    | ready e' =>
      simp only [pure_bind]
      exact (write_finishes hsink e' oldId).bind fun _ => tail []
    | deferred _ | rejected =>
      simp only [pure_bind]
      exact tail _

theorem loop_finishes : ∀ (fuel : Nat) (waiting : List (Record × String)),
    Finishes (retryDeferred.loop sink waiting fuel)
  | 0, _ => Finishes.pure _
  | fuel + 1, waiting => by
    rw [retryDeferred.loop]
    split
    · exact Finishes.pure _
    refine (retryOnce_finishes hsink waiting).bind fun pending => ?_
    split
    · exact Finishes.pure _
    · exact loop_finishes fuel pending

theorem retryDeferred_finishes (waiting : List (Record × String)) :
    Finishes (retryDeferred sink waiting) := by
  unfold retryDeferred
  refine (loop_finishes hsink _ waiting).bind fun left => ?_
  refine (Finishes.forIn (fun x _ _ => ?_) ()).bind fun _ => Finishes.pure _
  obtain ⟨e, oldId⟩ := x
  refine (prepare_finishes e false).bind fun p => ?_
  cases p with
  | ready e' => exact (write_finishes hsink e' oldId).bind fun _ => Finishes.pure _
  | deferred _ | rejected => exact Finishes.pure _

theorem copyItems_finishes (k : Kind) (st : Stream) :
    ∀ (i : Nat) (items : List (Except Issue Record)), Finishes (copyItems sink k st i items)
  | _, [] => Finishes.pure _
  | i, item :: rest => by
    simp only [copyItems]
    refine (countRead_finishes k).bind fun _ => (Finishes.guarded ?_ st (i + 1)).bind fun _ =>
      (copyItems_finishes k st (i + 1) rest).bind fun _ => Finishes.pure _
    split
    · exact process_finishes hsink _
    · exact (reject_finishes k _ 1).bind fun _ => Finishes.pure _

/-- A collection of a source that hands out every stream is copied to the end. -/
theorem copyCollection_finishes {source : Source} (hsource : source.NeverFails) (k : Kind) :
    Finishes (copyCollection source sink k) := by
  unfold copyCollection
  obtain ⟨st, hread, hfailure⟩ := hsource.read k
  rw [hread]
  cases st with
  | none => exact Finishes.pure _
  | some st =>
    exact (copyItems_finishes hsink k st 0 st.items).bind fun waiting =>
      (Finishes.finish (hfailure st rfl)).bind fun _ => retryDeferred_finishes hsink waiting

theorem processStopTime_finishes (r : Record) : Finishes (processStopTime sink r) := by
  unfold processStopTime
  refine (filterStages_finishes r).bind fun r' => (expandStages_finishes r').bind fun outs => ?_
  refine (Finishes.forIn (fun out _ _ => ?_) []).bind fun _ => Finishes.pure _
  refine (prepare_finishes out false).bind fun p => ?_
  cases p with
  | ready e =>
    dsimp only
    split
    · exact Finishes.pure _
    · exact (write_finishes hsink e _).bind fun _ => Finishes.pure _
  | deferred _ | rejected => exact Finishes.pure _

theorem copyTrip_finishes (batchSize : Nat) (sts batch : List Record) :
    Finishes (copyTrip sink batchSize sts batch) := by
  unfold copyTrip
  obtain ⟨sorted, errors⟩ := validateStopTimes sts
  dsimp only
  -- each stop time of the trip joins the batch, which is written whenever it is full
  have hloop : Finishes (forIn sorted batch fun st b => processStopTime sink st >>= fun more =>
      if (b ++ more).length ≥ batchSize then
        flush sink (b ++ more) >>= fun _ => pure (ForInStep.yield [])
      else pure (ForInStep.yield (b ++ more))) := by
    refine Finishes.forIn (fun st _ b => ?_) batch
    refine (processStopTime_finishes hsink st).bind fun more => ?_
    split
    · exact (flush_finishes hsink _).bind fun _ => Finishes.pure _
    · exact Finishes.pure _
  split
  · refine Finishes.get.bind fun _ => ?_
    split
    · exact (reject_finishes _ _ _).bind fun _ => Finishes.pure _
    · exact (warn_finishes _ _).bind fun _ => hloop.bind fun _ => Finishes.pure _
  · exact hloop.bind fun _ => Finishes.pure _

theorem copyChunk_finishes {source : Source} (hsource : source.NeverFails) (batchSize : Nat)
    (chunk : List String) : Finishes (copyChunk source sink batchSize chunk) := by
  unfold copyChunk
  obtain ⟨st, hread, hfailure⟩ := hsource.stopTimesOf chunk
  rw [hread]
  cases st with
  | none => exact Finishes.pure _
  | some st =>
    dsimp only
    refine (Finishes.forIn (fun _ _ _ => (countRead_finishes _).bind fun _ => Finishes.pure _)
      ()).bind fun _ => (Finishes.finish (hfailure st rfl)).bind fun _ => ?_
    obtain ⟨groups, problems⟩ := groupByTrip st.items
    dsimp only
    refine (Finishes.forIn (fun _ _ _ => (reject_finishes _ _ _).bind fun _ => Finishes.pure _)
      ()).bind fun _ => ?_
    -- the trips of the chunk add their stop times to one batch, written at the end
    refine (Finishes.forIn (fun trip _ b => ?_) []).bind fun batch =>
      (flush_finishes hsink batch).bind fun _ => Finishes.pure _
    split
    · exact (copyTrip_finishes hsink batchSize _ b).bind fun _ => Finishes.pure _
    · exact Finishes.pure _

omit hsink in
theorem rejectOrphans_finishes {source : Source} (hsource : source.NeverFails) (tripIds : List String) :
    Finishes (rejectOrphans (σ := σ) source tripIds) := by
  unfold rejectOrphans
  obtain ⟨st, hread, hfailure⟩ := hsource.stopTimesNotOf tripIds
  rw [hread]
  cases st with
  | none => exact Finishes.pure _
  | some st =>
    dsimp only
    refine (Finishes.forIn (fun x _ _ => ?_) ()).bind fun _ => Finishes.finish (hfailure st rfl)
    obtain ⟨item, i⟩ := x
    exact (countRead_finishes _).bind fun _ =>
      (Finishes.guarded (reject_finishes _ _ _) st (i + 1)).bind fun _ => Finishes.pure _

theorem copyStopTimes_finishes {source : Source} (hsource : source.NeverFails) :
    Finishes (copyStopTimes source sink) := by
  unfold copyStopTimes
  refine Finishes.get.bind fun _ => ?_
  refine (Finishes.forIn (fun chunk _ _ => ?_) (none, ())).bind fun r => ?_
  · refine (copyChunk_finishes hsink hsource _ chunk).bind fun _ => ?_
    split <;> exact Finishes.pure _
  · obtain ⟨_ | ⟨⟩, ⟨⟩⟩ := r
    · exact rejectOrphans_finishes hsource _
    · exact Finishes.pure _

theorem copyAll_finishes {source : Source} (hsource : source.NeverFails) :
    Finishes (copyAll source sink) := by
  unfold copyAll
  refine (Finishes.forIn (fun k _ _ => ?_) ()).bind fun _ => Finishes.pure _
  split
  · exact (copyStopTimes_finishes hsink hsource).bind fun _ => Finishes.pure _
  · exact (copyCollection_finishes hsink hsource k).bind fun _ => Finishes.pure _

end Sink

end Copying

/-- A copy without `failFast`, from a source that hands out every stream it is asked for into
a destination that takes everything, finishes, whatever the stages and the preset map. -/
theorem copyFeed_finishes {σ : Type} {source : Source} {sink : Sink σ} (hsource : source.NeverFails)
    (hsink : sink.NeverFails) (store : σ) (map : IdMap) (pipeline : Pipeline) {options : CopyOptions}
    (hfast : options.failFast = false) (cancelled : Bool) :
    ∃ result, (copyFeed source sink store map pipeline options cancelled).1 = .ok result := by
  cases cancelled with
  | true => exact ⟨_, rfl⟩
  | false =>
    obtain ⟨⟨⟩, s', hrun, -⟩ := Copying.copyAll_finishes hsink hsource
      { store, map, pipeline, options } hfast trivial
    refine ⟨{ status := .completed, collections := s'.reports }, ?_⟩
    show (match Copying.exec (Copying.copyAll source sink) { store, map, pipeline, options } with
      | (outcome, run) => (outcome.map fun () =>
        ({ status := .completed, collections := run.reports } : CopyResult), run)).1 = _
    rw [hrun]
    rfl

/-- Copying a feed in memory into a feed in memory without `failFast` finishes. -/
theorem copyFeed_memory_finishes (f : MemoryFeed) (store : MemoryFeed) (map : IdMap)
    (pipeline : Pipeline) {options : CopyOptions} (hfast : options.failFast = false) (cancelled : Bool) :
    ∃ result, (copyFeed f.source MemoryFeed.sink store map pipeline options cancelled).1 = .ok result :=
  copyFeed_finishes f.neverFails_source MemoryFeed.neverFails_sink store map pipeline hfast cancelled

end TransitFeed

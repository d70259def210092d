import Mathlib.Control.Monad.Basic
import TransitFeed.Proofs.Copy.FailFast
import TransitFeed.Feed.Load
import TransitFeed.Store.Memory

/-!
# A copy with `failFast` is the copy without, stopped at its first problem

Every step of the engine mirrors: run from one state with and without `failFast`, it goes the
same way until the run without records a problem, where the run with `failFast` stops. Only
guarded steps over a stream may stop with the stream's own error instead, when the stream
failed close enough behind the item.

So a whole copy with `failFast` hands the destination a prefix of what the copy without hands
it; when the copy without records no problem, the two end alike; and when it records one,
the copy with `failFast` ends with a problem that the other kept first for its collection,
having recorded none itself, or with the error of a stream of the source. Main statement:
`copyFeed_failFast_stops_at_first_problem`.
-/

namespace TransitFeed

/-- The errors a source's streams fail with after their items: those of the collections, and
that of the stop times of the trips not asked for. -/
def Source.StreamFails (source : Source) (f : FeedError) : Prop :=
  (∃ k st, source.read k = .ok (some st) ∧ st.failure = some f) ∨
    ∃ trips st, source.stopTimesNotOf trips = .ok (some st) ∧ st.failure = some f

namespace Copying

variable {σ : Type} {Alt : FeedError → Prop}

/-- A later state that recorded no problem. -/
theorem Grows.of_sameErrors {s t : Run (σ × List Record)} (hopt : t.options = s.options)
    (hlog : s.store.2 <+: t.store.2) (hord : ReportsOrdered t.reports) (h : SameErrors s t) :
    Grows s t :=
  ⟨hopt, hlog, hord, fun k => (h k).2 ▸ List.prefix_refl _, fun k => (h.errorCount_eq k) ▸ Nat.le_refl _⟩

/-- Adding warnings records no problem. -/
theorem SameErrors.of_warnsOnly {s t : Run σ} (hw : WarnsOnly s.reports t.reports)
    (hs : ReportsOrdered s.reports) : SameErrors s t := fun k =>
  ⟨congrArg CollectionReport.Tally.problems ((hw hs).2 k), congrArg CollectionReport.Tally.kept ((hw hs).2 k)⟩

/-- Counting in a report, without touching its problems, records no problem. -/
theorem counts_only {s t : Run (σ × List Record)} {k : Kind} {g : CollectionReport → CollectionReport}
    (hs : ReportsOrdered s.reports) (hopt : t.options = s.options) (hlog : s.store.2 <+: t.store.2)
    (ht : t.reports = updateReport k g s.reports)
    (hg : ∀ c, (g c).kind = c.kind ∧ (g c).errorsByKind = c.errorsByKind ∧ (g c).errors = c.errors) :
    Grows s t ∧ SameErrors s t :=
  have hsame := SameErrors.update hs ht hg
  ⟨.of_sameErrors hopt hlog (ht ▸ updateReport_ordered (fun c => (hg c).1) hs) hsame, hsame⟩

theorem report_mirrors (k : Kind) {g : CollectionReport → CollectionReport}
    (hg : ∀ c, (g c).kind = c.kind ∧ (g c).errorsByKind = c.errorsByKind ∧ (g c).errors = c.errors) :
    Mirrors Alt (report k g : Copying (σ × List Record) Unit) :=
  Mirrors.of_exec (fun _ => rfl) fun _ hl => counts_only hl.ordered rfl (List.prefix_refl _) rfl hg

theorem countRead_mirrors (k : Kind) : Mirrors Alt (countRead k : Copying (σ × List Record) Unit) :=
  report_mirrors k fun _ => ⟨rfl, rfl, rfl⟩

/-- Adding warnings, and growing the log, records no problem. -/
theorem warns_only {s t : Run (σ × List Record)} (hw : WarnsOnly s.reports t.reports)
    (hs : ReportsOrdered s.reports) (hopt : t.options = s.options) (hlog : s.store.2 <+: t.store.2) :
    Grows s t ∧ SameErrors s t :=
  have hsame := SameErrors.of_warnsOnly hw hs
  ⟨.of_sameErrors hopt hlog (hw hs).1 hsame, hsame⟩

theorem warn_mirrors (k : Kind) (ws : List Issue) :
    Mirrors Alt (warn k ws : Copying (σ × List Record) Unit) :=
  Mirrors.of_exec (fun _ => rfl) fun s hl =>
    warns_only (warnsOnly_updateReport k ws s.options.errorLimit s.reports) hl.ordered rfl (List.prefix_refl _)

/-- Noting a written record does not look at `failFast`. -/
theorem exec_note_failingFast (r : Record) (oldId newId : String) (s : Run σ) :
    exec (note r oldId newId) s.failingFast =
      ((exec (note r oldId newId) s).1, (exec (note r oldId newId) s).2.failingFast) := by
  -- every branch of every kind reads the identifier map and the error limit only
  cases hk : r.kind <;> cases hp : stopPoint r <;>
    simp only [note, hk, hp, exec_bind, exec_get, exec_modify, exec_pure, exec_warn, exec_ite,
      Kind.idColumn?, Run.failingFast] <;> repeat' split
  all_goals rfl

/-- Writing a record does not look at `failFast`. -/
theorem exec_write_failingFast (sink : Sink σ) (r : Record) (oldId : String) (s : Run σ) :
    exec (write sink r oldId) s.failingFast =
      ((exec (write sink r oldId) s).1, (exec (write sink r oldId) s).2.failingFast) := by
  have hstore : s.failingFast.store = s.store := rfl
  rw [exec_write, exec_write, hstore]
  cases sink.add s.store r with
  | error e => rfl
  | ok accepted =>
    obtain ⟨store, newId⟩ := accepted
    have hset : ({ s.failingFast with store := store } : Run σ) = { s with store := store }.failingFast := rfl
    simp only [written, hset, exec_note_failingFast]
    rfl

theorem write_mirrors (sink : Sink σ) (e : Record) (oldId : String) :
    Mirrors Alt (write sink.logged e oldId) :=
  Mirrors.of_exec (exec_write_failingFast _ e oldId) fun s hl => by
    rw [exec_write]
    cases hadd : sink.logged.add s.store e with
    | error err => exact ⟨.refl hl.ordered, .refl s⟩
    | ok accepted =>
      obtain ⟨st, newId⟩ := accepted
      obtain ⟨store, -, rfl⟩ := Sink.logged_add_eq_ok hadd
      dsimp only
      -- noting the record adds warnings only, and counting it as written keeps the problems
      obtain ⟨hstore, -, hopt, hw⟩ := note_frame e oldId newId { s with store := (store, s.store.2 ++ [e]) }
      obtain ⟨hnote, hsame⟩ := warns_only (s := s) hw hl.ordered hopt
        (by rw [hstore]; exact List.prefix_append _ _)
      obtain ⟨hg, hsame'⟩ := counts_only (t := written s e oldId newId (store, s.store.2 ++ [e]))
        hnote.ordered rfl (List.prefix_refl _) rfl fun _ => ⟨rfl, rfl, rfl⟩
      exact ⟨hnote.trans hg, hsame.trans hsame'⟩

theorem flush_mirrors (sink : Sink σ) (batch : List Record) :
    Mirrors Alt (flush sink.logged batch) := by
  refine Mirrors.of_exec (fun s => ?_) fun s hl => ?_
  · have hstore : s.failingFast.store = s.store := rfl
    rw [exec_flush, exec_flush, hstore]
    split
    · rfl
    · cases sink.logged.addAll s.store batch with
      | error e => rfl
      | ok accepted => rfl
  · rw [exec_flush]
    split
    · exact ⟨.refl hl.ordered, .refl s⟩
    cases hadd : sink.logged.addAll s.store batch with
    | error err => exact ⟨.refl hl.ordered, .refl s⟩
    | ok accepted =>
      obtain ⟨st, ids⟩ := accepted
      obtain ⟨store, -, rfl⟩ := Sink.logged_addAll_eq_ok hadd
      exact counts_only hl.ordered rfl (List.prefix_append _ _) rfl fun _ => ⟨rfl, rfl, rfl⟩

theorem filterStages_mirrors (r : Record) : Mirrors Alt (filterStages r : Copying (σ × List Record) Record) :=
  Mirrors.of_exec (fun _ => rfl) fun s hl =>
    ⟨.of_sameErrors rfl (List.prefix_refl _) hl.ordered (.refl s), .refl s⟩

theorem expandStages_mirrors (r : Record) :
    Mirrors Alt (expandStages r : Copying (σ × List Record) (List Record)) :=
  Mirrors.of_exec (fun _ => rfl) fun s hl =>
    ⟨.of_sameErrors rfl (List.prefix_refl _) hl.ordered (.refl s), .refl s⟩

theorem finish_mirrors (st : Stream) : Mirrors Alt (finish st : Copying (σ × List Record) Unit) := by
  refine Mirrors.of_exec (fun s => ?_) fun s hl => ?_
  · rw [exec_finish, exec_finish]
    cases st.failure <;> rfl
  · rw [exec_finish]
    cases st.failure <;> exact ⟨.refl hl.ordered, .refl s⟩

theorem prepare_mirrors (r : Record) (canDefer : Bool) :
    Mirrors Alt (prepare r canDefer : Copying (σ × List Record) Prepared) := by
  unfold prepare
  refine Mirrors.get_bind (fun _ => rfl) fun run => ?_
  dsimp only
  split
  · -- a record with problems is dropped, unless problems are allowed
    rename_i herrors
    have hne : r.errors ≠ [] := by
      simp only [Bool.and_eq_true, Bool.not_eq_true'] at herrors
      exact List.isEmpty_eq_false_iff.mp herrors.1
    exact (Mirrors.reject _ hne 1).bind fun _ => Mirrors.pure _
  split
  · exact Mirrors.pure _
  split
  · exact (Mirrors.reject _ (List.cons_ne_nil _ _) 1).bind fun _ => Mirrors.pure _
  · exact (warn_mirrors _ _).bind fun _ => Mirrors.pure _

/-! ### The engine -/

theorem settle_mirrors (sink : Sink σ) (kind : Kind) (oldId filteredId : String) :
    ∀ outs : List Record, Mirrors Alt (settle sink.logged kind oldId filteredId outs)
  | [] => Mirrors.pure _
  | out :: rest => by
    rw [settle]
    refine (prepare_mirrors out true).bind fun p => ?_
    dsimp only
    have tail : ∀ waiting, Mirrors Alt (settle sink.logged kind oldId filteredId rest >>= fun l =>
        pure (waiting ++ l)) :=
      fun _ => (settle_mirrors sink kind oldId filteredId rest).bind fun _ => Mirrors.pure _
    cases p with
    | ready e =>
      simp only [pure_bind]
      exact (write_mirrors sink e _).bind fun _ => tail []
    | deferred e | rejected =>
      simp only [pure_bind]
      exact tail _

theorem process_mirrors (sink : Sink σ) (r : Record) : Mirrors Alt (process sink.logged r) := by
  unfold process
  exact (filterStages_mirrors r).bind fun r' => (expandStages_mirrors r').bind fun outs =>
    settle_mirrors sink _ _ _ outs

theorem retryOnce_mirrors (sink : Sink σ) :
    ∀ waiting : List (Record × String), Mirrors Alt (retryOnce sink.logged waiting)
  | [] => Mirrors.pure _
  | (e, oldId) :: rest => by
    rw [retryOnce]
    refine (prepare_mirrors e true).bind fun p => ?_
    dsimp only
    have tail : ∀ waiting, Mirrors Alt (retryOnce sink.logged rest >>= fun l => pure (waiting ++ l)) :=
      fun _ => (retryOnce_mirrors sink rest).bind fun _ => Mirrors.pure _
    cases p with
    | ready e' =>
      simp only [pure_bind]
      exact (write_mirrors sink e' oldId).bind fun _ => tail []
    | deferred e' | rejected =>
      simp only [pure_bind]
      exact tail _

theorem retryDeferred_loop_mirrors (sink : Sink σ) :
    ∀ (fuel : Nat) (waiting : List (Record × String)),
      Mirrors Alt (retryDeferred.loop sink.logged waiting fuel)
  | 0, _ => Mirrors.pure _
  | fuel + 1, waiting => by
    rw [retryDeferred.loop]
    split
    · exact Mirrors.pure _
    refine (retryOnce_mirrors sink waiting).bind fun pending => ?_
    split
    · exact Mirrors.pure _
    · exact retryDeferred_loop_mirrors sink fuel pending

theorem retryDeferred_mirrors (sink : Sink σ) (waiting : List (Record × String)) :
    Mirrors Alt (retryDeferred sink.logged waiting) := by
  unfold retryDeferred
  refine (retryDeferred_loop_mirrors sink _ waiting).bind fun left => ?_
  refine (Mirrors.forIn (fun x _ _ => ?_) ()).bind fun _ => Mirrors.pure _
  obtain ⟨e, oldId⟩ := x
  dsimp only
  refine (prepare_mirrors e false).bind fun p => ?_
  cases p with
  | ready e' => exact (write_mirrors sink e' oldId).bind fun _ => Mirrors.pure _
  | deferred _ | rejected => exact Mirrors.pure _

/-- Over the items of a stream, the run with `failFast` may also stop with the stream's error. -/
theorem copyItems_mirrors (sink : Sink σ) (k : Kind) (st : Stream) :
    ∀ (i : Nat) (items : List (Except Issue Record)),
      Mirrors (fun f => st.failure = some f) (copyItems sink.logged k st i items)
  | _, [] => Mirrors.pure _
  | i, item :: rest => by
    simp only [copyItems]
    refine (countRead_mirrors k).bind fun _ => ?_
    refine ((Mirrors.guarded ?_ st (i + 1)).mono fun f hf => hf.elim id id).bind fun waiting => ?_
    · split
      · exact process_mirrors sink _
      · exact (Mirrors.reject k (List.cons_ne_nil _ _) 1).bind fun _ => Mirrors.pure _
    · exact (copyItems_mirrors sink k st (i + 1) rest).bind fun _ => Mirrors.pure _

theorem copyCollection_mirrors (source : Source) (sink : Sink σ) (k : Kind) :
    Mirrors source.StreamFails (copyCollection source sink.logged k) := by
  unfold copyCollection
  split
  · exact Mirrors.throw _
  · exact Mirrors.pure _
  · rename_i st hread
    refine ((copyItems_mirrors sink k st 0 st.items).mono fun f hf => .inl ⟨k, st, hread, hf⟩).bind
      fun waiting => ?_
    exact (finish_mirrors st).bind fun _ => retryDeferred_mirrors sink waiting

theorem processStopTime_mirrors (sink : Sink σ) (r : Record) :
    Mirrors Alt (processStopTime sink.logged r) := by
  unfold processStopTime
  refine (filterStages_mirrors r).bind fun r' => (expandStages_mirrors r').bind fun outs => ?_
  dsimp only
  refine (Mirrors.forIn (fun out _ batch => ?_) []).bind fun _ => Mirrors.pure _
  refine (prepare_mirrors out false).bind fun p => ?_
  cases p with
  | ready e =>
    dsimp only
    split
    · exact Mirrors.pure _
    · exact (write_mirrors sink e out.entityId).bind fun _ => Mirrors.pure _
  | deferred _ | rejected => exact Mirrors.pure _

theorem copyTrip_mirrors (sink : Sink σ) (batchSize : Nat) (sts batch : List Record) :
    Mirrors Alt (copyTrip sink.logged batchSize sts batch) := by
  unfold copyTrip
  obtain ⟨sorted, errors⟩ := validateStopTimes sts
  dsimp only
  -- each stop time of the trip joins the batch, which is written whenever it is full
  have hloop : Mirrors Alt
      (forIn sorted batch fun st b => processStopTime sink.logged st >>= fun more =>
        if (b ++ more).length ≥ batchSize then
          flush sink.logged (b ++ more) >>= fun _ => pure (ForInStep.yield [])
        else pure (ForInStep.yield (b ++ more))) := by
    refine Mirrors.forIn (fun st _ b => (processStopTime_mirrors sink st).bind fun more => ?_) batch
    split
    · exact (flush_mirrors sink _).bind fun _ => Mirrors.pure _
    · exact Mirrors.pure _
  split
  · rename_i herrors
    have hne : errors ≠ [] := by
      simp only [Bool.not_eq_true'] at herrors
      exact List.isEmpty_eq_false_iff.mp herrors
    refine Mirrors.get_bind (fun _ => rfl) fun _ => ?_
    split
    · exact (Mirrors.reject _ hne _).bind fun _ => Mirrors.pure _
    · exact (warn_mirrors _ _).bind fun _ => hloop.bind fun _ => Mirrors.pure _
  · exact hloop.bind fun _ => Mirrors.pure _

theorem copyChunk_mirrors (source : Source) (sink : Sink σ) (batchSize : Nat) (chunk : List String) :
    Mirrors Alt (copyChunk source sink.logged batchSize chunk) := by
  unfold copyChunk
  split
  · exact Mirrors.throw _
  · exact Mirrors.pure _
  · rename_i st _
    refine (Mirrors.forIn (fun _ _ _ => (countRead_mirrors _).bind fun _ => Mirrors.pure _) ()).bind
      fun _ => (finish_mirrors st).bind fun _ => ?_
    obtain ⟨groups, problems⟩ := groupByTrip st.items
    dsimp only
    refine (Mirrors.forIn (fun _ _ _ => (Mirrors.reject _ (List.cons_ne_nil _ _) _).bind fun _ =>
      Mirrors.pure _) ()).bind fun _ => ?_
    refine (Mirrors.forIn (fun trip _ b => ?_) []).bind fun batch =>
      (flush_mirrors sink batch).bind fun _ => Mirrors.pure _
    split
    · exact (copyTrip_mirrors sink batchSize _ b).bind fun _ => Mirrors.pure _
    · exact Mirrors.pure _

theorem rejectOrphans_mirrors (source : Source) (tripIds : List String) :
    Mirrors source.StreamFails (rejectOrphans (σ := σ × List Record) source tripIds) := by
  unfold rejectOrphans
  split
  · exact Mirrors.throw _
  · exact Mirrors.pure _
  · rename_i st hread
    refine (Mirrors.forIn (fun x _ _ => ?_) ()).bind fun _ => finish_mirrors st
    obtain ⟨item, i⟩ := x
    dsimp only
    -- the orphans are dropped over the stream, which may fail right behind them
    refine (countRead_mirrors _).bind fun _ => ?_
    exact ((Mirrors.guarded (Mirrors.reject _ (List.cons_ne_nil _ _) 1) st (i + 1)).mono
      fun f hf => hf.elim id fun h => .inr ⟨tripIds, st, hread, h⟩).bind fun _ => Mirrors.pure _

theorem copyStopTimes_mirrors (source : Source) (sink : Sink σ) :
    Mirrors source.StreamFails (copyStopTimes source sink.logged) := by
  unfold copyStopTimes
  refine Mirrors.get_bind (fun _ => rfl) fun _ => ?_
  dsimp only
  refine (Mirrors.forIn (fun chunk _ _ => ?_) (none, ())).bind fun r => ?_
  · refine (copyChunk_mirrors source sink _ chunk).bind fun _ => ?_
    split <;> exact Mirrors.pure _
  · split
    · exact Mirrors.pure _
    · exact rejectOrphans_mirrors source _

theorem copyAll_mirrors (source : Source) (sink : Sink σ) :
    Mirrors source.StreamFails (copyAll source sink.logged) := by
  unfold copyAll
  refine (Mirrors.forIn (fun k _ _ => ?_) ()).bind fun _ => Mirrors.pure _
  split
  · exact (copyStopTimes_mirrors source sink).bind fun _ => Mirrors.pure _
  · exact (copyCollection_mirrors source sink k).bind fun _ => Mirrors.pure _

/-- From a state with nothing reported yet, a mirrored step run with `failFast` hands the
destination a prefix of what the run without hands it. When the run without records no
problem, both end alike; when it records one, the run with `failFast` records none and ends
with an error: the first problem that the run without kept for some collection, or one that
`Alt` allows. -/
theorem Mirrors.from_start {α : Type} {x : Copying (σ × List Record) α} (h : Mirrors Alt x)
    {s : Run (σ × List Record)} (hff : s.options.failFast = false) (hs : s.reports = []) :
    (exec x s.failingFast).2.store.2 <+: (exec x s).2.store.2 ∧
      ((∀ k, ((exec x s).2.report k).errorCount = 0) →
        exec x s.failingFast = ((exec x s).1, (exec x s).2.failingFast)) ∧
      ((∃ k, ((exec x s).2.report k).errorCount ≠ 0) →
        (∀ k, ((exec x s.failingFast).2.report k).errorCount = 0) ∧
        ∃ k e E, (exec x s.failingFast).1 = .error E ∧ ((exec x s).2.report k).errorCount ≠ 0 ∧
          (0 < s.options.errorLimit → ((exec x s).2.report k).errors.head? = some e) ∧
          (E = .entity k.fileName e ∨ Alt E)) := by
  -- nothing is reported at the start, so no collection has a problem there
  have hclean : ∀ k, (s.report k).errors = [] ∧ (s.report k).errorCount = 0 := by
    intro k
    simp [Run.report, hs, reportOf, CollectionReport.errorCount]
  have hl : Lenient s := ⟨hff, by rw [hs]; exact List.Pairwise.nil⟩
  obtain ⟨-, htrack⟩ := h s hl
  rcases htrack with ⟨hF, hsame⟩ | ⟨u, k, e, E, hF, hsu, hur, hse, hrec, hE⟩
  · -- no problem recorded: the two runs end alike
    have hnone : ∀ k, ((exec x s).2.report k).errorCount = 0 := fun k =>
      (hsame.errorCount_eq k).trans (hclean k).2
    refine ⟨by rw [hF]; exact List.prefix_refl _, fun _ => hF, fun hsome => ?_⟩
    obtain ⟨k, hk⟩ := hsome
    exact absurd (hnone k) hk
  · -- the run with failFast stopped in the state `u`, where nothing was recorded yet
    have hcount := hrec.count
    rw [hse.errorCount_eq k, (hclean k).2] at hcount
    refine ⟨by rw [hF]; exact hur.log, fun hnone => absurd (hnone k) (by omega), fun _ => ⟨?_, ?_⟩⟩
    · intro k'
      rw [hF]
      exact (hse.errorCount_eq k').trans (hclean k').2
    · refine ⟨k, e, E, by rw [hF], by omega, fun hlimit => ?_, hE⟩
      have hkept : (u.report k).errors = [] := ((hse k).2).trans (hclean k).1
      have hroom : (u.report k).errors.length < u.options.errorLimit := by
        rw [hkept, hsu.options]
        exact hlimit
      obtain ⟨rest, hrest⟩ := hrec.kept hroom
      rw [← hrest, hkept]
      rfl

theorem copyFeed_false_eq {σ : Type} (source : Source) (sink : Sink σ) (store : σ) (map : IdMap)
    (pipeline : Pipeline) (options : CopyOptions) :
    copyFeed source sink store map pipeline options false =
      ((exec (copyAll source sink) { store, map, pipeline, options }).1.map fun () =>
          { status := .completed
            collections := (exec (copyAll source sink) { store, map, pipeline, options }).2.reports },
        (exec (copyAll source sink) { store, map, pipeline, options }).2) :=
  rfl

end Copying

/-- An agency without its time zone. -/
def agencyWithoutTimeZone : Record :=
  Record.ofSql .agency [("agency_id", .text "A"), ("agency_name", .text "Ag"),
    ("agency_url", .text "http://a.example"), ("agency_timezone", .text "")]

/-- A source whose agency file holds that agency and then fails its checksum. -/
def damagedAgencySource : Source where
  read k :=
    if k = .agency then
      .ok (some {
        items := [.ok agencyWithoutTimeZone]
        failure := some (.csv "agency.txt" "Invalid checksum: Invalid checksum") })
    else .ok none
  stopTimesOf _ := .ok none
  stopTimesNotOf _ := .ok none

end TransitFeed

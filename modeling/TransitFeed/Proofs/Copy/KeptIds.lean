import TransitFeed.Proofs.Copy.Replay
import TransitFeed.Proofs.Copy.Provenance

/-!
# A copy without stages keeps every identifier

With no stage, problems not allowed and an identifier map that sends every identifier it
knows to itself, a record the source hands out is remapped onto itself, its optional
references settled, and written under its own identifier; a destination that gives back the
identifier of each record it takes then keeps the map sending identifiers to themselves. So
every record such a copy hands a logging destination is well formed, passes its checks and is
settled, and it is the record the source handed out whenever that one was settled already, as
stop times always are. `IdsKept` says so of a state, and every step keeps it, whatever its
outcome: `copyFeed_keeps_ids`.

The stop times are then written exactly as the source handed them out. When the copy finishes,
the log holds them trip after trip, in byte order of the trips. For each trip it holds some of
the trip's stop times, whose group passed the check of its trip, in the order the check sorted
them: `copyFeed_logs_kept_trips`.
-/

namespace TransitFeed

/-- A record in the form a copy without stages writes it: well formed, passing its checks,
with no optional reference holding the empty text. -/
structure Record.WrittenForm (r : Record) : Prop where
  shaped : r.Shaped
  errors : r.errors = []
  settled : r.RefsSettled

/-- A destination that gives back the identifier of each record it takes. -/
def Sink.KeepsIds {σ : Type} (sink : Sink σ) : Prop :=
  ∀ s r x, sink.add s r = .ok x → x.2 = r.entityId

theorem MemoryFeed.sink_keepsIds : MemoryFeed.sink.KeepsIds := fun _ _ _ h => by
  simp only [MemoryFeed.sink, Except.ok.injEq] at h
  rw [← h]

namespace Copying

variable {σ : Type}

/-- A state of a copy without stages, with problems not allowed, into a logging destination:
the map sends every identifier it knows to itself, and everything logged is in written form. -/
structure IdsKept (s : Run (σ × List Record)) : Prop where
  keepsIds : s.map.KeepsIds
  stages : s.pipeline.stages = []
  strict : s.options.allowEntityErrors = false
  written : ∀ e ∈ s.store.2, e.WrittenForm

/-- Stops waiting for their parent, each well formed and kept with its own identifier. -/
def KeptWaiting (w : List (Record × String)) : Prop := ∀ q ∈ w, q.1.Shaped ∧ q.2 = q.1.entityId

theorem keptWaiting_append {w w' : List (Record × String)} (h : KeptWaiting w) (h' : KeptWaiting w') :
    KeptWaiting (w ++ w') := fun q hq => (List.mem_append.mp hq).elim (h q) (h' q)

/-- What a prepared record promises: a ready one is in written form, keeps the kind and the
identifier, and is the record itself when that was settled; a waiting one is the record. -/
def PreparedAs (r : Record) : Prepared → Prop
  | .ready e => e.WrittenForm ∧ e.kind = r.kind ∧ e.entityId = r.entityId ∧ (r.RefsSettled → e = r)
  | .deferred e => e = r
  | .rejected => True

variable {P : Run (σ × List Record) → Prop}

/-- A step that keeps the log, the map, the stages and the options of a state keeps it. -/
theorem kept_of_frame {α : Type} {x : Copying (σ × List Record) α} {Q : α → Run (σ × List Record) → Prop}
    (hframe : ∀ s, IdsKept s → (exec x s).2.store.2 = s.store.2 ∧ (exec x s).2.map = s.map ∧
      (exec x s).2.pipeline = s.pipeline ∧ (exec x s).2.options = s.options)
    (hq : ∀ s a, IdsKept s → P s → (exec x s).1 = .ok a → Q a (exec x s).2) :
    Keeps IdsKept SameOptions P x Q := by
  intro s hi hp
  obtain ⟨hlog, hmap, hpipeline, hopt⟩ := hframe s hi
  refine ⟨⟨?_, ?_, ?_, ?_⟩, hopt, fun a ha => hq s a hi hp ha⟩
  · rw [hmap]
    exact hi.keepsIds
  · rw [hpipeline]
    exact hi.stages
  · rw [hopt]
    exact hi.strict
  · rw [hlog]
    exact hi.written

theorem countRead_kept (k : Kind) : Keeps IdsKept SameOptions P (countRead k) fun _ _ => True :=
  kept_of_frame (fun _ _ => ⟨rfl, rfl, rfl, rfl⟩) fun _ _ _ _ _ => trivial

theorem warn_kept (k : Kind) (ws : List Issue) : Keeps IdsKept SameOptions P (warn k ws) fun _ _ => True :=
  kept_of_frame (fun _ _ => ⟨rfl, rfl, rfl, rfl⟩) fun _ _ _ _ _ => trivial

theorem reject_kept (k : Kind) (errors : List Issue) (dropped : Nat) :
    Keeps IdsKept SameOptions P (reject k errors dropped) fun _ _ => True := by
  refine kept_of_frame (fun s _ => ?_) fun _ _ _ _ _ => trivial
  cases hf : s.options.failFast
  · rw [exec_reject_lenient _ _ _ _ hf]
    exact ⟨rfl, rfl, rfl, rfl⟩
  · cases errors with
    | nil => simp [reject, exec_bind, hf]
    | cons e es =>
      rw [exec_reject_failFast _ _ _ _ _ hf]
      exact ⟨rfl, rfl, rfl, rfl⟩

/-- With no stage, a record goes through the stages unchanged. -/
theorem filterStages_kept (r : Record) :
    Keeps IdsKept SameOptions P (filterStages r) fun r' _ => r' = r := by
  refine kept_of_frame (fun s hi => ?_) fun s a hi _ ha => ?_
  · simp [Pipeline.filter_of_stages_nil hi.stages]
  · rw [exec_filterStages, Pipeline.filter_of_stages_nil hi.stages] at ha
    cases ha
    rfl

/-- With no stage, a record expands to itself alone. -/
theorem expandStages_kept (r : Record) :
    Keeps IdsKept SameOptions P (expandStages r) fun outs _ => outs = [r] := by
  refine kept_of_frame (fun s hi => ?_) fun s a hi _ ha => ?_
  · simp [Pipeline.expand_of_stages_nil hi.stages]
  · rw [exec_expandStages, Pipeline.expand_of_stages_nil hi.stages] at ha
    cases ha
    rfl

/-- Through a map that keeps identifiers, a well-formed record is prepared as `PreparedAs`
says. -/
theorem prepare_kept {r : Record} (hr : r.Shaped) (canDefer : Bool) :
    Keeps IdsKept SameOptions P (prepare r canDefer) fun p _ => PreparedAs r p := by
  have hreject : ∀ errors, Keeps IdsKept SameOptions P
      (reject r.kind errors 1 >>= fun _ => pure Prepared.rejected) fun p _ => PreparedAs r p :=
    fun errors => (reject_kept _ _ _).bind fun _ => Keeps.pure _ fun _ _ => trivial
  intro s hi hp
  rw [exec_prepare]
  split
  · exact hreject _ s hi hp
  rename_i hchecked
  -- problems are not allowed, so a record that goes on has none
  have he : r.errors = [] := by
    by_contra hne
    exact hchecked ⟨hne, hi.strict⟩
  split
  · exact ⟨hi, rfl, fun a ha => by cases ha; rfl⟩
  split
  · exact hreject _ s hi hp
  · rename_i e hkeys
    have hrem := Record.remapped_of_updateKeys hkeys
    have hid := hi.keepsIds.lookup
    refine ⟨⟨hi.keepsIds, hi.stages, hi.strict, hi.written⟩, rfl, fun a ha => ?_⟩
    cases ha
    exact ⟨⟨hrem.shaped hid hr, hrem.errors_eq_nil hid hr he, hrem.refsSettled hid hr⟩,
      Record.updateKeys_kind hkeys, Record.entityId_updateKeys hkeys, hrem.eq_self hid hr⟩

/-- What a step keeps holds after a run of it that ends normally. -/
theorem Keeps.holds_of_ok {I : Run σ → Prop} {R : Run σ → Run σ → Prop} {α : Type} {P : Run σ → Prop}
    {x : Copying σ α} {Q : α → Run σ → Prop} (h : Keeps I R P x Q) {s s' : Run σ} {a : α}
    (hi : I s) (hp : P s) (hx : exec x s = (.ok a, s')) : I s' ∧ Q a s' := by
  obtain ⟨hi', -, hq⟩ := h s hi hp
  rw [hx] at hi' hq
  exact ⟨hi', hq a rfl⟩

/-- What a copy that keeps identifiers writes for a trip: some of the stop times of its group,
as they are, in the order the check of the trip sorted them, the group having passed it. -/
structure TripKept (sts ws : List Record) : Prop where
  checked : (validateStopTimes sts).2 = []
  kept : ws.Sublist (validateStopTimes sts).1

/-- The stop times `ws` were written, as they are, for trip `t`: the source handed out the stop
times of some trips, `t` among them, and `ws` are some stop times of `t` whose group passed the
check of its trip, in the order the check sorted them. -/
def TripKeptFrom (source : Source) (t : String) (ws : List Record) : Prop :=
  ∃ trips st, source.stopTimesOf trips = .ok (some st) ∧ t ∈ trips ∧ TripKept (tripStops st.items t) ws

/-- A stop time written for a trip is a stop time of that trip. -/
theorem TripKeptFrom.mem {source : Source} {t : String} {ws : List Record} (h : TripKeptFrom source t ws)
    {e : Record} (he : e ∈ ws) : e.kind = .stopTime ∧ e.str "trip_id" = t := by
  obtain ⟨_, _, -, -, hkept⟩ := h
  exact (mem_tripStops.mp ((perm_validateStopTimes _).subset (hkept.kept.subset he))).2

/-- The stop times written for a trip come in order of sequence number. -/
theorem TripKeptFrom.sorted {source : Source} {t : String} {ws : List Record} (h : TripKeptFrom source t ws) :
    ws.Pairwise fun a b => TripSequence.sequenceOf a ≤ TripSequence.sequenceOf b := by
  obtain ⟨_, st, -, -, hkept⟩ := h
  have hsorted := (TripSequence.sortBySequence_isStableSort (tripStops st.items t)).2.1
  rw [← validateStopTimes_fst] at hsorted
  exact hsorted.sublist hkept.kept

/-- Copies equal to the stop times they copy are some of the stop times. -/
theorem tripKept_of_tripWrites {sts ws : List Record} (h : TripWrites (· = ·) sts ws) :
    TripKept sts ws := by
  obtain ⟨l, hl, hsub⟩ := List.sublistForall₂_iff.mp h.copies
  rw [List.forall₂_eq_eq_eq] at hl
  subst hl
  exact ⟨h.checked, hsub⟩

theorem tripKeptFrom_of_writesFrom {source : Source} {t : String} {ws : List Record}
    (h : TripWritesFrom source (· = ·) t ws) : TripKeptFrom source t ws :=
  let ⟨trips, st, hst, ht, hw⟩ := h
  ⟨trips, st, hst, ht, tripKept_of_tripWrites hw⟩

section Destination

variable {sink : Sink σ} (hsink : sink.KeepsIds)
include hsink

/-- Writing a record in written form under its own identifier logs it, and the map notes the
identifier sent to itself. -/
theorem write_kept (e : Record) :
    Keeps IdsKept SameOptions (fun _ => e.WrittenForm) (write sink.logged e e.entityId) fun _ _ => True := by
  refine Keeps.write fun s st newId hi he hadd => ?_
  obtain ⟨store, hinner, rfl⟩ := Sink.logged_add_eq_ok hadd
  obtain rfl : newId = e.entityId := hsink _ _ _ hinner
  -- the destination logs the record, then the map notes it under its own identifier
  refine ⟨⟨keepsIds_note hi.keepsIds, by simpa using hi.stages, by simpa using hi.strict, ?_⟩,
    written_options .., trivial⟩
  intro x hx
  rw [written_store, List.mem_append, List.mem_singleton] at hx
  rcases hx with hx | rfl
  · exact hi.written x hx
  · exact he

omit hsink in
/-- Writing a batch of records in written form logs them. -/
theorem flush_kept (batch : List Record) :
    Keeps IdsKept SameOptions (fun _ => ∀ e ∈ batch, e.WrittenForm) (flush sink.logged batch)
      fun _ _ => True := by
  refine Keeps.flush fun s st ids hi hbatch hadd => ?_
  obtain ⟨store, -, rfl⟩ := Sink.logged_addAll_eq_ok hadd
  refine ⟨⟨hi.keepsIds, hi.stages, hi.strict, fun x hx => ?_⟩, rfl⟩
  rcases List.mem_append.mp hx with hx | hx
  · exact hi.written x hx
  · exact hbatch x hx

/-- Settling the records a source record became, each under the identifier they share. -/
theorem settle_kept (kind : Kind) (id : String) :
    ∀ outs : List Record, (∀ out ∈ outs, out.Shaped ∧ out.entityId = id) →
      Keeps IdsKept SameOptions (fun _ => True) (settle sink.logged kind id id outs)
        fun w _ => KeptWaiting w
  | [], _ => Keeps.pure _ fun _ _ => by simp [KeptWaiting]
  | out :: rest, houts => by
    obtain ⟨hshaped, hid⟩ := houts out List.mem_cons_self
    rw [settle]
    refine (prepare_kept hshaped true).bind fun p => ?_
    -- the record is kept under its own identifier, whichever way the identifier is chosen
    have hsource : (if (decide (out.kind = kind) && out.entityId == id) = true then id else out.entityId) =
        out.entityId := by
      split <;> simp [hid]
    rw [hsource]
    have tail : ∀ w, KeptWaiting w → Keeps IdsKept SameOptions (fun _ => True)
        (settle sink.logged kind id id rest >>= fun l => pure (w ++ l)) fun w _ => KeptWaiting w :=
      fun w hw => (settle_kept kind id rest fun x hx => houts x (List.mem_cons_of_mem _ hx)).bind
        fun _ => Keeps.pure _ fun _ hl => keptWaiting_append hw hl
    cases p with
    | ready e =>
      refine Keeps.of_fact fun (he : PreparedAs out (.ready e)) => ?_
      obtain ⟨hform, -, heid, -⟩ := he
      simp only [pure_bind]
      rw [← heid]
      exact ((write_kept hsink e).mono (fun _ _ => hform) fun _ _ h => h).bind fun _ =>
        tail [] (by simp [KeptWaiting])
    | deferred e =>
      refine Keeps.of_fact fun (he : e = out) => ?_
      subst he
      simp only [pure_bind]
      exact tail _ (by simp [KeptWaiting, hshaped])
    | rejected =>
      simp only [pure_bind]
      exact (tail [] (by simp [KeptWaiting])).mono (fun _ _ => trivial) fun _ _ h => h

/-- A well-formed record is written, or waits, under its own identifier. -/
theorem process_kept {r : Record} (hr : r.Shaped) :
    Keeps IdsKept SameOptions (fun _ => True) (process sink.logged r) fun w _ => KeptWaiting w := by
  unfold process
  refine (filterStages_kept r).bind fun r' => Keeps.of_fact fun (hr' : r' = r) => ?_
  subst hr'
  refine (expandStages_kept r').bind fun outs => Keeps.of_fact fun (houts : outs = [r']) => ?_
  subst houts
  exact settle_kept hsink r'.kind r'.entityId [r'] (by simp [hr])

theorem retryOnce_kept : ∀ waiting : List (Record × String), KeptWaiting waiting →
    Keeps IdsKept SameOptions (fun _ => True) (retryOnce sink.logged waiting) fun w _ => KeptWaiting w
  | [], _ => Keeps.pure _ fun _ _ => by simp [KeptWaiting]
  | (e, oldId) :: rest, hw => by
    obtain ⟨hshaped, hid⟩ := hw _ List.mem_cons_self
    dsimp only at hshaped hid
    subst hid
    rw [retryOnce]
    refine (prepare_kept hshaped true).bind fun p => ?_
    have tail : ∀ w, KeptWaiting w → Keeps IdsKept SameOptions (fun _ => True)
        (retryOnce sink.logged rest >>= fun l => pure (w ++ l)) fun w _ => KeptWaiting w :=
      fun w hw' => (retryOnce_kept rest fun x hx => hw x (List.mem_cons_of_mem _ hx)).bind
        fun _ => Keeps.pure _ fun _ hl => keptWaiting_append hw' hl
    cases p with
    | ready e' =>
      refine Keeps.of_fact fun (he : PreparedAs e (.ready e')) => ?_
      obtain ⟨hform, -, heid, -⟩ := he
      simp only [pure_bind]
      rw [← heid]
      exact ((write_kept hsink e').mono (fun _ _ => hform) fun _ _ h => h).bind fun _ =>
        tail [] (by simp [KeptWaiting])
    | deferred e' =>
      refine Keeps.of_fact fun (he : e' = e) => ?_
      subst he
      simp only [pure_bind]
      exact tail _ (by simp [KeptWaiting, hshaped])
    | rejected =>
      simp only [pure_bind]
      exact (tail [] (by simp [KeptWaiting])).mono (fun _ _ => trivial) fun _ _ h => h

theorem retryDeferred_loop_kept : ∀ (fuel : Nat) (waiting : List (Record × String)), KeptWaiting waiting →
    Keeps IdsKept SameOptions (fun _ => True) (retryDeferred.loop sink.logged waiting fuel)
      fun w _ => KeptWaiting w
  | 0, _, hw => Keeps.pure _ fun _ _ => hw
  | fuel + 1, waiting, hw => by
    rw [retryDeferred.loop]
    split
    · exact Keeps.pure _ fun _ _ => hw
    refine (retryOnce_kept hsink waiting hw).bind fun pending => Keeps.of_fact fun hpending => ?_
    split
    · exact Keeps.pure _ fun _ _ => hpending
    · exact retryDeferred_loop_kept fuel pending hpending

theorem retryDeferred_kept (waiting : List (Record × String)) (hw : KeptWaiting waiting) :
    Keeps IdsKept SameOptions (fun _ => True) (retryDeferred sink.logged waiting) fun _ _ => True := by
  unfold retryDeferred
  refine (retryDeferred_loop_kept hsink _ waiting hw).bind fun left => Keeps.of_fact fun hleft => ?_
  -- the stops left over are written when their parent resolves now, and dropped otherwise
  refine (Keeps.forIn (fun _ _ => True) (fun x hx _ => ?_) ()).bind fun _ => Keeps.pure _ fun _ _ => trivial
  obtain ⟨e, oldId⟩ := x
  obtain ⟨hshaped, hid⟩ := hleft _ hx
  dsimp only at hshaped hid
  subst hid
  refine (prepare_kept hshaped false).bind fun p => ?_
  cases p with
  | ready e' =>
    refine Keeps.of_fact fun (he : PreparedAs e (.ready e')) => ?_
    obtain ⟨hform, -, heid, -⟩ := he
    rw [← heid]
    exact ((write_kept hsink e').mono (fun _ _ => hform) fun _ _ h => h).bind fun _ =>
      Keeps.pure _ fun _ _ => trivial
  | deferred _ | rejected => exact Keeps.pure _ fun _ _ => trivial

variable {source : Source} (hshaped : ∀ r, source.HandsOut r → r.Shaped)
include hshaped

theorem copyItems_kept (k : Kind) {st : Stream} (hread : source.read k = .ok (some st)) :
    ∀ (i : Nat) (items : List (Except Issue Record)), (∀ item ∈ items, item ∈ st.items) →
      Keeps IdsKept SameOptions (fun _ => True) (copyItems sink.logged k st i items)
        fun w _ => KeptWaiting w
  | _, [], _ => Keeps.pure _ fun _ _ => by simp [KeptWaiting]
  | i, item :: rest, hitems => by
    simp only [copyItems]
    refine (countRead_kept k).bind fun _ => ?_
    refine (Keeps.guarded (Q := fun w _ => KeptWaiting w) ?_ st (i + 1)).bind fun waiting =>
      Keeps.of_fact fun hw => ?_
    · have hitem : item ∈ st.items := hitems item List.mem_cons_self
      split
      · rename_i r
        exact (process_kept hsink (hshaped r (.inl ⟨k, st, hread, hitem⟩))).mono (fun _ _ => trivial)
          fun _ _ h => h
      · exact (reject_kept k _ 1).bind fun _ => Keeps.pure _ fun _ _ => by simp [KeptWaiting]
    · exact (copyItems_kept k hread (i + 1) rest fun x hx => hitems x (List.mem_cons_of_mem _ hx)).bind
        fun _ => Keeps.pure _ fun _ hl => keptWaiting_append hw hl

theorem copyCollection_kept (k : Kind) :
    Keeps IdsKept SameOptions (fun _ => True) (copyCollection source sink.logged k) fun _ _ => True :=
  Keeps.copyCollection (fun st hread => copyItems_kept hsink hshaped k hread 0 st.items fun _ h => h)
    fun waiting => Keeps.of_fact fun hw => retryDeferred_kept hsink waiting hw

omit hsink hshaped in
/-- A well-formed stop time joins the batch as it is, in written form, or is dropped. -/
theorem processStopTime_kept {r : Record} (hr : r.Shaped) (hk : r.kind = .stopTime) :
    Keeps IdsKept SameOptions (fun _ => True) (processStopTime sink.logged r)
      fun more _ => more.Sublist [r] ∧ ∀ e ∈ more, e.WrittenForm := by
  unfold processStopTime
  refine (filterStages_kept r).bind fun r' => Keeps.of_fact fun (hr' : r' = r) => ?_
  subst hr'
  refine (expandStages_kept r').bind fun outs => Keeps.of_fact fun (houts : outs = [r']) => ?_
  subst houts
  dsimp only
  rw [List.forIn_cons]
  -- the stop time alone goes through the loop, from an empty batch
  refine (?_ : Keeps IdsKept SameOptions (fun _ => True) _ fun (b : List Record) _ =>
    b.Sublist [r'] ∧ ∀ e ∈ b, e.WrittenForm).bind fun _ => Keeps.pure _ fun _ h => h
  refine (?_ : Keeps IdsKept SameOptions (fun _ => True) _ fun (step : ForInStep (List Record)) _ =>
    step.value.Sublist [r'] ∧ ∀ e ∈ step.value, e.WrittenForm).bind fun step => ?_
  · refine (prepare_kept hr false).bind fun p => ?_
    cases p with
    | ready e =>
      refine Keeps.of_fact fun (he : PreparedAs r' (.ready e)) => ?_
      obtain ⟨hform, hkind, -, hself⟩ := he
      obtain rfl : e = r' := hself (Record.refsSettled_of_stopTime hk)
      dsimp only
      rw [if_pos hk]
      exact Keeps.pure _ fun _ _ => ⟨by simp, by simpa using hform⟩
    | deferred _ | rejected => exact Keeps.pure _ fun _ _ => ⟨by simp, by simp⟩
  · cases step with
    | done b => exact Keeps.pure _ fun _ h => h
    | yield b =>
      dsimp only
      rw [List.forIn_nil]
      exact Keeps.pure _ fun _ h => h

omit hsink hshaped in
/-- The stop times of a trip join the batch in written form, and a full batch is written. -/
theorem copyTrip_kept (batchSize : Nat) {sts batch : List Record}
    (hsts : ∀ r ∈ sts, r.Shaped ∧ r.kind = .stopTime) (hbatch : ∀ e ∈ batch, e.WrittenForm) :
    Keeps IdsKept SameOptions (fun _ => True) (copyTrip sink.logged batchSize sts batch)
      fun b _ => ∀ e ∈ b, e.WrittenForm := by
  unfold copyTrip
  rcases hvalid : validateStopTimes sts with ⟨sorted, errors⟩
  dsimp only
  have hsorted : ∀ r ∈ sorted, r.Shaped ∧ r.kind = .stopTime := fun r hr =>
    hsts r ((perm_validateStopTimes sts).subset (by rw [hvalid]; exact hr))
  -- the batch stays in written form: it only ever grows by what a stop time becomes
  have hloop : Keeps IdsKept SameOptions (fun _ => True)
      (forIn sorted batch fun st b => processStopTime sink.logged st >>= fun more =>
        if (b ++ more).length ≥ batchSize then
          flush sink.logged (b ++ more) >>= fun _ => pure (ForInStep.yield [])
        else pure (ForInStep.yield (b ++ more))) fun b _ => ∀ e ∈ b, e.WrittenForm := by
    refine (Keeps.forIn (fun (b : List Record) _ => ∀ e ∈ b, e.WrittenForm) (fun st hst b => ?_) batch).mono
      (fun _ _ => hbatch) fun _ _ h => h
    refine Keeps.of_fact fun hb => ?_
    obtain ⟨hshaped, hk⟩ := hsorted st hst
    refine (processStopTime_kept hshaped hk).bind fun more => Keeps.of_fact fun hmore => ?_
    have hall : ∀ e ∈ b ++ more, e.WrittenForm := fun e he =>
      (List.mem_append.mp he).elim (hb e) (hmore.2 e)
    split
    · exact ((flush_kept _).mono (fun _ _ => hall) fun _ _ h => h).bind fun _ =>
        Keeps.pure _ fun _ _ => by simp
    · exact Keeps.pure _ fun _ _ => hall
  split
  · refine Keeps.get.bind fun _ => ?_
    refine Keeps.mono ?_ (fun _ h => h.2) fun _ _ h => h
    split
    · exact (reject_kept _ _ _).bind fun _ => Keeps.pure _ fun _ _ => hbatch
    · exact (warn_kept _ _).bind fun _ => hloop.bind fun _ => Keeps.pure _ fun _ h => h
  · exact hloop.bind fun _ => Keeps.pure _ fun _ h => h

omit hsink in
theorem copyChunk_kept (batchSize : Nat) (chunk : List String) :
    Keeps IdsKept SameOptions (fun _ => True) (copyChunk source sink.logged batchSize chunk)
      fun _ _ => True := by
  unfold copyChunk
  split
  · exact Keeps.throw _
  · exact Keeps.pure _ fun _ _ => trivial
  · rename_i st hread
    refine (Keeps.forIn (fun _ _ => True) (fun _ _ _ => (countRead_kept _).bind fun _ =>
      Keeps.pure _ fun _ _ => trivial) ()).bind fun _ => (Keeps.finish st).bind fun _ => ?_
    rcases hgroups : groupByTrip st.items with ⟨groups, problems⟩
    dsimp only
    refine (Keeps.forIn (fun _ _ => True) (fun _ _ _ => (reject_kept _ _ _).bind fun _ =>
      Keeps.pure _ fun _ _ => trivial) ()).bind fun _ => ?_
    -- the trips of the chunk add their stop times to one batch, written at the end
    refine ((Keeps.forIn (fun (b : List Record) _ => ∀ e ∈ b, e.WrittenForm) (fun trip _ b => ?_) []).mono
      (fun _ _ => by simp) fun _ _ h => h).bind fun batch => ?_
    · refine Keeps.of_fact fun hb => ?_
      split
      · rename_i sts hlookup
        have hstops : tripStops st.items trip = sts :=
          tripStops_of_lookup_groupByTrip (by rw [hgroups]; exact hlookup)
        have hsts : ∀ r ∈ sts, r.Shaped ∧ r.kind = .stopTime := fun r hr => by
          obtain ⟨hitem, hk, -⟩ := mem_tripStops.mp (by rw [hstops]; exact hr)
          exact ⟨hshaped r (.inr ⟨chunk, st, hread, hitem⟩), hk⟩
        exact (copyTrip_kept batchSize hsts hb).bind fun _ => Keeps.pure _ fun _ h => h
      · exact Keeps.pure _ fun _ _ => hb
    · exact (flush_kept batch).bind fun _ => Keeps.pure _ fun _ _ => trivial

omit hsink hshaped in
theorem rejectOrphans_kept (tripIds : List String) :
    Keeps IdsKept SameOptions (fun _ => True) (rejectOrphans (σ := σ × List Record) source tripIds)
      fun _ _ => True := by
  unfold rejectOrphans
  split
  · exact Keeps.throw _
  · exact Keeps.pure _ fun _ _ => trivial
  · rename_i st _
    refine (Keeps.forIn (fun _ _ => True) (fun q _ _ => ?_) ()).bind fun _ => Keeps.finish st
    obtain ⟨item, i⟩ := q
    dsimp only
    exact (countRead_kept _).bind fun _ => (Keeps.guarded (reject_kept _ _ _) st (i + 1)).bind
      fun _ => Keeps.pure _ fun _ _ => trivial

omit hsink in
theorem copyStopTimes_kept :
    Keeps IdsKept SameOptions (fun _ => True) (copyStopTimes source sink.logged) fun _ _ => True :=
  Keeps.copyStopTimes (fun n chunk => copyChunk_kept hshaped n chunk) fun trips =>
    rejectOrphans_kept trips

theorem copyAll_kept :
    Keeps IdsKept SameOptions (fun _ => True) (copyAll source sink.logged) fun _ _ => True :=
  Keeps.copyAll (copyStopTimes_kept hshaped) fun k => copyCollection_kept hsink hshaped k

/-! ### The stop times written -/

/-- A copy that keeps identifiers, from a source that hands out well-formed records, follows
the pass over the stop times as it is: the pass keeps `IdsKept`, and a stop time joins the
batch as itself, in written form. -/
theorem loggedPass_kept :
    LoggedPass source sink IdsKept Record.Shaped Record.WrittenForm (· = ·) where
  strict hi := hi.strict
  reports _ hi := ⟨hi.keepsIds, hi.stages, hi.strict, hi.written⟩
  handsOut hst hr := hshaped _ (.inr ⟨_, _, hst, hr⟩)
  processStopTime hk hr hi hstep :=
    let ⟨hstore, _⟩ := processStopTime_stopTime hk hstep
    let ⟨hi', hmore, hwritten⟩ := (processStopTime_kept hr hk).holds_of_ok hi trivial hstep
    ⟨hi', hstore, hwritten, hmore.sublistForall₂⟩
  flush hi hb hf := ((flush_kept _).holds_of_ok hi hb hf).1
  copyCollection _ hi hc := ((copyCollection_kept hsink hshaped _).holds_of_ok hi trivial hc).1
  kind h hk := h ▸ hk

/-- A whole copy, collection after collection: the stop times it writes are those of the one
pass over the stop times, trip after trip in byte order, each as it was handed out. -/
theorem allRun_log_kept (hsource : source.Faithful) :
    ∀ {ks : List Kind} {s s' : Run (σ × List Record)}, IdsKept s → AllRun source sink.logged ks s s' →
      ∃ runs : List (String × List Record),
        s'.store.2.filter (·.kind = .stopTime) =
          s.store.2.filter (·.kind = .stopTime) ++ (runs.map Prod.snd).flatten ∧
        (∀ x ∈ runs, TripKeptFrom source x.1 x.2) ∧ (Kind.stopTime ∉ ks → runs = []) ∧
        (ks.count .stopTime ≤ 1 → (runs.map Prod.fst).Pairwise (· < ·)) := by
  intro ks s s' hi h
  obtain ⟨-, runs, hlog, hall, hnone, hkeys⟩ := (loggedPass_kept hsink hshaped).allRun hsource hi h
  refine ⟨runs, hlog, fun x hx => tripKeptFrom_of_writesFrom (hall x hx), hnone, fun hcount => ?_⟩
  -- the trips are taken in order among those of a map, which come in byte order
  obtain ⟨m, hsub⟩ := hkeys hcount
  exact (IdMap.keysFor_sorted _ _).sublist hsub

end Destination

end Copying

/-- Copied with no stage, problems not allowed and an identifier map that sends every
identifier it knows to itself, into a logging destination that gives back the identifier of
each record it takes, a source that hands out well-formed records leaves, however the copy ends,
a map that still sends every identifier to itself and a log of records in written form. -/
theorem copyFeed_keeps_ids {σ : Type} {source : Source} {sink : Sink σ} (hsink : sink.KeepsIds)
    (hshaped : ∀ r, source.HandsOut r → r.Shaped) (store : σ) {map : IdMap} (hmap : map.KeepsIds)
    {options : CopyOptions} (hstrict : options.allowEntityErrors = false) (cancelled : Bool) :
    Copying.IdsKept (copyFeed source sink.logged (store, []) map {} options cancelled).2 := by
  have hstart : Copying.IdsKept
      ({ store := (store, []), map, pipeline := {}, options } : Run (σ × List Record)) :=
    ⟨hmap, rfl, hstrict, by simp⟩
  unfold copyFeed
  split
  · exact hstart
  · exact (Copying.copyAll_kept hsink hshaped _ hstart trivial).1

/-- Such a copy, when it finishes, logs the stop times trip after trip, in byte order of the
trips: for each trip, some of its stop times as the source handed them out, whose group passed
the check of its trip, in the order the check sorted them. -/
theorem copyFeed_logs_kept_trips {σ : Type} {source : Source} {sink : Sink σ} (hsink : sink.KeepsIds)
    (hshaped : ∀ r, source.HandsOut r → r.Shaped) (hsource : source.Faithful) (store : σ) {map : IdMap}
    (hmap : map.KeepsIds) {options : CopyOptions} (hstrict : options.allowEntityErrors = false)
    {cancelled : Bool} {result : CopyResult}
    (h : (copyFeed source sink.logged (store, []) map {} options cancelled).1 = .ok result) :
    ∃ runs : List (String × List Record),
      (copyFeed source sink.logged (store, []) map {} options cancelled).2.store.2.filter
          (·.kind = .stopTime) = (runs.map Prod.snd).flatten ∧
      (runs.map Prod.fst).Pairwise (· < ·) ∧ ∀ x ∈ runs, Copying.TripKeptFrom source x.1 x.2 := by
  have hstart : Copying.IdsKept
      ({ store := (store, []), map, pipeline := {}, options } : Run (σ × List Record)) :=
    ⟨hmap, rfl, hstrict, by simp⟩
  rcases copyFeed_ok h with ⟨-, -, hend⟩ | ⟨-, -, hrun⟩
  · rw [hend]
    exact ⟨[], by simp, by simp, by simp⟩
  · obtain ⟨runs, hlog, hall, -, hsorted⟩ := Copying.allRun_log_kept hsink hshaped hsource hstart hrun
    exact ⟨runs, by simpa using hlog, hsorted (by decide), hall⟩

end TransitFeed

import TransitFeed.Proofs.Copy.Keeps
import TransitFeed.Proofs.Copy.Steps
import TransitFeed.Proofs.Feed.Remap

/-!
# Everything a copy writes refers to something copied

A destination is traced: besides writing, it keeps in order every record it is handed,
with the identifier it gave the record when written alone. The identifier map and the
trace then agree at every point of a copy, whatever the source, stages, options and
preset map, and whether the copy ends normally or with an error:

* every entry of the map comes from the preset map, or from a record of its collection
  written earlier, whose identifier is the old one with at most a prefix put in front by
  the stages, and to which the destination gave the new one;
* every record handed to the destination refers, in each of its filled reference columns,
  to the image of a preset entry or to a record of the target collection written before it.

So the destination never receives a dangling reference, and a record that was dropped is
never the target of one. Main statement: `copyFeed_references_resolve`.
-/

namespace TransitFeed

/-- What a destination was handed, in order: each record, with the identifier the destination
gave it when it was written alone. -/
abbrev Trace := List (Record × Option String)

/-- A destination that also keeps the trace of what it is handed. -/
def Sink.traced {σ : Type} (sink : Sink σ) : Sink (σ × Trace) where
  add s r := (sink.add s.1 r).map fun x => ((x.1, s.2 ++ [(r, some x.2)]), x.2)
  addAll s rs := (sink.addAll s.1 rs).map fun x => ((x.1, s.2 ++ rs.map fun r => (r, none)), x.2)

/-- A tracing destination takes a record when the destination it wraps does, and traces it
with the identifier it was given. -/
theorem Sink.traced_add_eq_ok {σ : Type} {sink : Sink σ} {st st' : σ × Trace} {e : Record}
    {newId : String} (h : sink.traced.add st e = .ok (st', newId)) :
    ∃ store, sink.add st.1 e = .ok (store, newId) ∧ st' = (store, st.2 ++ [(e, some newId)]) := by
  cases hadd : sink.add st.1 e with
  | error err => simp [Sink.traced, hadd, Except.map] at h
  | ok accepted =>
    simp only [Sink.traced, hadd, Except.map, Except.ok.injEq, Prod.mk.injEq] at h
    obtain ⟨rfl, rfl⟩ := h
    exact ⟨accepted.1, rfl, rfl⟩

/-- A tracing destination takes a batch when the destination it wraps does, and traces its
records without identifiers. -/
theorem Sink.traced_addAll_eq_ok {σ : Type} {sink : Sink σ} {st st' : σ × Trace} {batch : List Record}
    {ids : List String} (h : sink.traced.addAll st batch = .ok (st', ids)) :
    ∃ store, sink.addAll st.1 batch = .ok (store, ids) ∧
      st' = (store, st.2 ++ batch.map fun r => (r, none)) := by
  cases hadd : sink.addAll st.1 batch with
  | error err => simp [Sink.traced, hadd, Except.map] at h
  | ok accepted =>
    simp only [Sink.traced, hadd, Except.map, Except.ok.injEq, Prod.mk.injEq] at h
    obtain ⟨rfl, rfl⟩ := h
    exact ⟨accepted.1, rfl, rfl⟩

variable (preset : IdMap)

/-- A reference value names something copied: the image of an entry of the preset map, or
the identifier the destination gave a record of the target collection. -/
def Names (trace : Trace) (t : Kind) (v : String) : Prop :=
  (∃ o, preset.get? t.fileName o = some v) ∨ ∃ e, (e, some v) ∈ trace ∧ e.kind = t

/-- Every filled reference of a record names something copied. -/
def Resolves (trace : Trace) (e : Record) : Prop :=
  ∀ col ∈ e.kind.columns, ∀ t, col.target = some t → Cell.present col.optional (e.cell col.name) →
    Names preset trace t (e.str col.name)

/-- The identifier map and the trace of a copy agree. -/
structure Integrity {σ : Type} (s : Run (σ × Trace)) : Prop where
  /-- Every entry of the map is preset, or was made for a record of its collection written
  earlier under the old identifier, which the stages may have prefixed. -/
  entries : ∀ c o n, s.map.get? c o = some n → preset.get? c o = some n ∨
    ∃ e, (e, some n) ∈ s.store.2 ∧ e.kind.fileName = c ∧ ∃ pre, e.entityId = pre ++ o
  /-- Every record handed to the destination refers only to what was copied before it. -/
  written : ∀ i (hi : i < s.store.2.length), Resolves preset (s.store.2.take i) s.store.2[i].1

/-- The trace of the later state extends that of the earlier one. -/
def Extends {σ : Type} (s s' : Run (σ × Trace)) : Prop := s.store.2 <+: s'.store.2

instance {σ : Type} : IsPreorder (Run (σ × Trace)) Extends where
  refl s := List.prefix_refl s.store.2
  trans _ _ _ h h' := h.trans h'

variable {preset}

theorem Names.mono {trace trace' : Trace} {t : Kind} {v : String} (h : Names preset trace t v)
    (hext : trace <+: trace') : Names preset trace' t v :=
  h.imp id fun ⟨e, he, hk⟩ => ⟨e, hext.subset he, hk⟩

theorem Resolves.mono {trace trace' : Trace} {e : Record} (h : Resolves preset trace e)
    (hext : trace <+: trace') : Resolves preset trace' e :=
  fun col hcol t ht hp => (h col hcol t ht hp).mono hext

theorem Kind.fileName_injective : Function.Injective Kind.fileName := fun a b h => by
  have := congrArg Kind.ofFileName? h
  simpa [Kind.ofFileName?_fileName] using this

namespace Integrity

variable {σ : Type} {s s' : Run (σ × Trace)}

/-- The start of a copy: the preset map and an empty trace. -/
theorem start (store : σ) (pipeline : Pipeline) (options : CopyOptions) :
    Integrity preset ({ store := (store, []), map := preset, pipeline, options } : Run (σ × Trace)) :=
  ⟨fun _ _ _ h => .inl h, fun _ hi => absurd hi (by simp)⟩

/-- Only the map and the trace matter. -/
theorem of_eq (h : Integrity preset s) (hstore : s'.store = s.store) (hmap : s'.map = s.map) :
    Integrity preset s' := by
  constructor
  · rw [hstore, hmap]
    exact h.entries
  · rw [hstore]
    exact h.written

/-- An entry of the map names something copied. -/
theorem names (h : Integrity preset s) {t : Kind} {old new : String}
    (hget : s.map.get? t.fileName old = some new) : Names preset s.store.2 t new := by
  rcases h.entries _ _ _ hget with hpre | ⟨e, he, hk, -⟩
  · exact .inl ⟨old, hpre⟩
  · exact .inr ⟨e, he, Kind.fileName_injective hk⟩

/-- A record remapped against the map refers only to what was copied. -/
theorem resolves_of_updateKeys (h : Integrity preset s) {r e : Record}
    (hkeys : r.updateKeys (fun k old => s.map.get? k.fileName old) = .ok e) :
    Resolves preset s.store.2 e := by
  intro col hcol t ht hp
  rw [Record.updateKeys_kind hkeys] at hcol
  obtain ⟨old, hold⟩ := Record.updateKeys_reference hkeys hcol ht hp
  exact h.names hold

/-- Handing the destination records that refer only to what was copied keeps the agreement. -/
theorem append (h : Integrity preset s) {more : Trace}
    (hstore : s'.store.2 = s.store.2 ++ more) (hmap : s'.map = s.map)
    (hmore : ∀ x ∈ more, Resolves preset s.store.2 x.1) : Integrity preset s' := by
  constructor
  · intro c o n hn
    rw [hmap] at hn
    rcases h.entries c o n hn with hpre | ⟨e, he, hk, hid⟩
    · exact .inl hpre
    · exact .inr ⟨e, by rw [hstore]; exact List.mem_append_left _ he, hk, hid⟩
  · intro i hi
    have hi' : i < s.store.2.length + more.length := by simpa [hstore] using hi
    simp only [hstore]
    by_cases hlt : i < s.store.2.length
    · -- an earlier record, with the same records before it
      rw [List.take_append_of_le_length (Nat.le_of_lt hlt), List.getElem_append_left hlt]
      exact h.written i hlt
    · -- a new record, which refers to records written before all the new ones
      rw [List.getElem_append_right (by omega)]
      refine (hmore _ (List.getElem_mem _)).mono ?_
      rw [List.take_append, List.take_of_length_le (by omega)]
      exact List.prefix_append _ _

/-- Noting a record that the destination took keeps the agreement. -/
theorem noted (h : Integrity preset s) {e : Record} {oldId newId : String}
    (hmem : (e, some newId) ∈ s.store.2) (hid : ∃ pre, e.entityId = pre ++ oldId) :
    Integrity preset (Copying.exec (Copying.note e oldId newId) s).2 := by
  have hstore := (Copying.note_frame e oldId newId s).1
  constructor
  · intro c o n hn
    rw [Copying.note_get?] at hn
    rw [hstore]
    split at hn
    · -- the new entry, made for the record just written
      rename_i hnotes
      obtain ⟨-, rfl, rfl⟩ := hnotes
      cases hn
      exact .inr ⟨e, hmem, rfl, hid⟩
    · exact h.entries c o n hn
  · rw [hstore]
    exact h.written

end Integrity

namespace Copying

variable {σ : Type} {P : Run (σ × Trace) → Prop}

/-- Dropping records touches only the reports. -/
theorem reject_frame (k : Kind) (errors : List Issue) (dropped : Nat) (s : Run σ) :
    (exec (reject k errors dropped) s).2.store = s.store ∧
      (exec (reject k errors dropped) s).2.map = s.map := by
  cases hf : s.options.failFast
  · rw [exec_reject_lenient _ _ _ _ hf]
    exact ⟨rfl, rfl⟩
  · cases errors with
    | nil => simp [reject, exec_bind, hf]
    | cons e es =>
      rw [exec_reject_failFast _ _ _ _ _ hf]
      exact ⟨rfl, rfl⟩

/-- A step that keeps the destination and the map keeps the agreement. -/
theorem keeps_of_frame {α : Type} {x : Copying (σ × Trace) α} {Q : α → Run (σ × Trace) → Prop}
    (hframe : ∀ s, (exec x s).2.store = s.store ∧ (exec x s).2.map = s.map)
    (hq : ∀ s a, P s → (exec x s).1 = .ok a → Q a (exec x s).2) :
    Keeps (Integrity preset) Extends P x Q := by
  intro s hi hp
  refine ⟨hi.of_eq (hframe s).1 (hframe s).2, ?_, fun a ha => hq s a hp ha⟩
  show s.store.2 <+: (exec x s).2.store.2
  exact (hframe s).1.symm ▸ List.prefix_refl s.store.2

theorem reject_keeps (k : Kind) (errors : List Issue) (dropped : Nat) :
    Keeps (Integrity preset) Extends P (reject k errors dropped) fun _ _ => True :=
  keeps_of_frame (reject_frame k errors dropped) fun _ _ _ _ => trivial

/-- What a prepared record promises: a ready one refers only to what was copied and keeps
its identifier, and a waiting one is the record itself. -/
def PreparedFrom (preset : IdMap) (trace : Trace) (r : Record) : Prepared → Prop
  | .ready e => Resolves preset trace e ∧ e.entityId = r.entityId
  | .deferred e => e = r
  | .rejected => True

theorem prepare_keeps (r : Record) (canDefer : Bool) :
    Keeps (Integrity preset) Extends P (prepare r canDefer)
      fun p s => PreparedFrom preset s.store.2 r p := by
  have hreject : ∀ errors, Keeps (Integrity preset) Extends P
      (reject r.kind errors 1 >>= fun _ => pure Prepared.rejected)
      fun p s => PreparedFrom preset s.store.2 r p :=
    fun errors => (reject_keeps _ _ _).bind fun _ => Keeps.pure _ fun _ _ => trivial
  intro s hi hp
  rw [exec_prepare]
  split
  · exact hreject _ s hi hp
  split
  · exact ⟨hi, List.prefix_refl _, fun a ha => by cases ha; rfl⟩
  split
  · exact hreject _ s hi hp
  · rename_i e hkeys
    exact ⟨hi.of_eq rfl rfl, List.prefix_refl _, fun a ha => by
      cases ha
      exact ⟨hi.resolves_of_updateKeys hkeys, Record.entityId_updateKeys hkeys⟩⟩

/-- Writing a record that refers only to what was copied, under an old identifier that its
own identifier ends with, keeps the agreement. -/
theorem write_keeps (sink : Sink σ) (e : Record) (oldId : String) :
    Keeps (Integrity preset) Extends
      (fun s => Resolves preset s.store.2 e ∧ ∃ pre, e.entityId = pre ++ oldId)
      (write sink.traced e oldId) fun _ _ => True := by
  refine Keeps.write fun s st newId hi ⟨he, hid⟩ hadd => ?_
  obtain ⟨store, -, rfl⟩ := Sink.traced_add_eq_ok hadd
  -- the destination takes the record, then the map notes it
  let s₁ : Run (σ × Trace) := { s with store := (store, s.store.2 ++ [(e, some newId)]) }
  have h₁ : Integrity preset s₁ := hi.append rfl rfl (by simpa using he)
  have hmem : (e, some newId) ∈ s₁.store.2 := by simp [s₁]
  have h₂ := h₁.noted hmem hid
  refine ⟨h₂.of_eq rfl rfl, ?_, trivial⟩
  show s.store.2 <+: (written s e oldId newId s₁.store).store.2
  rw [written_store]
  exact List.prefix_append _ _

/-- Writing a batch of records that refer only to what was copied keeps the agreement. -/
theorem flush_keeps (sink : Sink σ) (batch : List Record) :
    Keeps (Integrity preset) Extends (fun s => ∀ e ∈ batch, Resolves preset s.store.2 e)
      (flush sink.traced batch) fun _ _ => True := by
  refine Keeps.flush fun s st ids hi hbatch hadd => ?_
  obtain ⟨store, -, rfl⟩ := Sink.traced_addAll_eq_ok hadd
  refine ⟨hi.append rfl rfl ?_, List.prefix_append _ _⟩
  intro x hx
  obtain ⟨r, hr, rfl⟩ := List.mem_map.mp hx
  exact hbatch r hr

/-- Each waiting stop is kept with an old identifier that its own identifier ends with. -/
def SourceIds (waiting : List (Record × String)) : Prop :=
  ∀ x ∈ waiting, ∃ pre, x.1.entityId = pre ++ x.2

theorem sourceIds_append {w w' : List (Record × String)} (h : SourceIds w) (h' : SourceIds w') :
    SourceIds (w ++ w') := by
  intro x hx
  rcases List.mem_append.mp hx with hx | hx
  · exact h x hx
  · exact h' x hx

theorem settle_keeps (sink : Sink σ) (kind : Kind) (oldId filteredId : String)
    (hid : ∃ pre, filteredId = pre ++ oldId) : ∀ outs : List Record,
    Keeps (Integrity preset) Extends (fun _ => True) (settle sink.traced kind oldId filteredId outs)
      fun waiting _ => SourceIds waiting
  | [] => Keeps.pure _ fun _ _ => by simp [SourceIds]
  | out :: rest => by
    rw [settle]
    refine (prepare_keeps out true).bind fun p => ?_
    dsimp only
    -- an output is written under an old identifier that its own identifier ends with
    have hsource : ∃ pre, out.entityId = pre ++
        (if (decide (out.kind = kind) && out.entityId == filteredId) = true then oldId else out.entityId) := by
      split
      · rename_i hsame
        obtain ⟨pre, hpre⟩ := hid
        exact ⟨pre, by simp only [Bool.and_eq_true, decide_eq_true_eq, beq_iff_eq] at hsame; rw [hsame.2, hpre]⟩
      · exact ⟨"", rfl⟩
    -- the later outputs, after the stops waiting from this one
    have tail : ∀ waiting, SourceIds waiting → Keeps (Integrity preset) Extends (fun _ => True)
        (settle sink.traced kind oldId filteredId rest >>= fun l => pure (waiting ++ l))
        fun w _ => SourceIds w :=
      fun waiting hw => (settle_keeps sink kind oldId filteredId hid rest).bind fun _ =>
        Keeps.pure _ fun _ hl => sourceIds_append hw hl
    cases p with
    | ready e =>
      simp only [pure_bind]
      refine ((write_keeps sink e _).mono (fun s h => ⟨h.1, ?_⟩) fun _ _ h => h).bind fun _ =>
        tail [] (by simp [SourceIds])
      obtain ⟨pre, hpre⟩ := hsource
      exact ⟨pre, h.2.trans hpre⟩
    | deferred e =>
      simp only [pure_bind]
      refine Keeps.of_fact fun (he : e = out) => tail _ ?_
      subst he
      simpa [SourceIds] using hsource
    | rejected =>
      simp only [pure_bind]
      exact (tail [] (by simp [SourceIds])).mono (fun _ _ => trivial) fun _ _ h => h

/-- The stages keep the agreement, and put at most a prefix in front of an identifier. -/
theorem filterStages_keeps (r : Record) :
    Keeps (Integrity preset) Extends P (filterStages r) fun r' _ => ∃ pre, r'.entityId = pre ++ r.entityId :=
  keeps_of_frame (fun _ => ⟨rfl, rfl⟩) fun s _ _ ha => by
    cases ha
    exact Pipeline.filter_entityId s.map s.pipeline r

theorem expandStages_keeps (r : Record) :
    Keeps (Integrity preset) Extends P (expandStages r) fun _ _ => True :=
  keeps_of_frame (fun _ => ⟨rfl, rfl⟩) fun _ _ _ _ => trivial

theorem countRead_keeps (k : Kind) :
    Keeps (Integrity preset) Extends P (countRead k) fun _ _ => True :=
  keeps_of_frame (fun _ => ⟨rfl, rfl⟩) fun _ _ _ _ => trivial

theorem warn_keeps (k : Kind) (ws : List Issue) :
    Keeps (Integrity preset) Extends P (warn k ws) fun _ _ => True :=
  keeps_of_frame (fun _ => ⟨rfl, rfl⟩) fun _ _ _ _ => trivial

theorem process_keeps (sink : Sink σ) (r : Record) :
    Keeps (Integrity preset) Extends (fun _ => True) (process sink.traced r)
      fun waiting _ => SourceIds waiting := by
  unfold process
  refine (filterStages_keeps r).bind fun r' => ?_
  refine Keeps.of_fact fun hid => ?_
  exact (expandStages_keeps r').bind fun outs =>
    (settle_keeps sink r'.kind r.entityId r'.entityId hid outs).mono (fun _ _ => trivial) fun _ _ h => h

theorem retryOnce_keeps (sink : Sink σ) : ∀ waiting : List (Record × String), SourceIds waiting →
    Keeps (Integrity preset) Extends (fun _ => True) (retryOnce sink.traced waiting)
      fun w _ => SourceIds w
  | [], _ => Keeps.pure _ fun _ _ => by simp [SourceIds]
  | (e, oldId) :: rest, hw => by
    rw [retryOnce]
    refine (prepare_keeps e true).bind fun p => ?_
    dsimp only
    have hid : ∃ pre, e.entityId = pre ++ oldId := hw _ List.mem_cons_self
    -- the stops after this one, after this one if it still waits
    have tail : ∀ w, SourceIds w → Keeps (Integrity preset) Extends (fun _ => True)
        (retryOnce sink.traced rest >>= fun l => pure (w ++ l)) fun w _ => SourceIds w :=
      fun w hw' => (retryOnce_keeps sink rest fun x hx => hw x (List.mem_cons_of_mem _ hx)).bind
        fun _ => Keeps.pure _ fun _ hl => sourceIds_append hw' hl
    cases p with
    | ready e' =>
      simp only [pure_bind]
      refine ((write_keeps sink e' oldId).mono (fun s h => ⟨h.1, ?_⟩) fun _ _ h => h).bind fun _ =>
        tail [] (by simp [SourceIds])
      obtain ⟨pre, hpre⟩ := hid
      exact ⟨pre, h.2.trans hpre⟩
    | deferred e' =>
      simp only [pure_bind]
      refine Keeps.of_fact fun (he : e' = e) => tail _ ?_
      subst he
      simpa [SourceIds] using hid
    | rejected =>
      simp only [pure_bind]
      exact (tail [] (by simp [SourceIds])).mono (fun _ _ => trivial) fun _ _ h => h

theorem retryDeferred_loop_keeps (sink : Sink σ) : ∀ (fuel : Nat) (waiting : List (Record × String)),
    SourceIds waiting → Keeps (Integrity preset) Extends (fun _ => True)
      (retryDeferred.loop sink.traced waiting fuel) fun w _ => SourceIds w
  | 0, _, hw => Keeps.pure _ fun _ _ => hw
  | fuel + 1, waiting, hw => by
    rw [retryDeferred.loop]
    split
    · exact Keeps.pure _ fun _ _ => hw
    refine (retryOnce_keeps sink waiting hw).bind fun pending => ?_
    refine Keeps.of_fact fun hpending => ?_
    split
    · exact Keeps.pure _ fun _ _ => hpending
    · exact retryDeferred_loop_keeps sink fuel pending hpending

theorem retryDeferred_keeps (sink : Sink σ) (waiting : List (Record × String)) (hw : SourceIds waiting) :
    Keeps (Integrity preset) Extends (fun _ => True) (retryDeferred sink.traced waiting) fun _ _ => True := by
  unfold retryDeferred
  refine (retryDeferred_loop_keeps sink _ waiting hw).bind fun left => ?_
  refine Keeps.of_fact fun hleft => ?_
  -- the stops left over are written when their parent resolves now, and dropped otherwise
  refine (Keeps.forIn (fun _ _ => True) (fun x hx _ => ?_) ()).bind fun _ =>
    Keeps.pure _ fun _ _ => trivial
  obtain ⟨e, oldId⟩ := x
  dsimp only
  refine (prepare_keeps e false).bind fun p => ?_
  cases p with
  | ready e' =>
    refine ((write_keeps sink e' oldId).mono (fun s h => ⟨h.1, ?_⟩) fun _ _ h => h).bind fun _ =>
      Keeps.pure _ fun _ _ => trivial
    obtain ⟨pre, hpre⟩ := hleft _ hx
    exact ⟨pre, h.2.trans hpre⟩
  | deferred _ | rejected => exact Keeps.pure _ fun _ _ => trivial

theorem copyItems_keeps (sink : Sink σ) (k : Kind) (st : Stream) :
    ∀ (i : Nat) (items : List (Except Issue Record)),
      Keeps (Integrity preset) Extends (fun _ => True) (copyItems sink.traced k st i items)
        fun w _ => SourceIds w
  | _, [] => Keeps.pure _ fun _ _ => by simp [SourceIds]
  | i, item :: rest => by
    simp only [copyItems]
    refine (countRead_keeps k).bind fun _ => ?_
    refine (Keeps.guarded (Q := fun w _ => SourceIds w) ?_ st (i + 1)).bind fun waiting => ?_
    · split
      · exact process_keeps sink _
      · exact (reject_keeps k _ 1).bind fun _ => Keeps.pure _ fun _ _ => by simp [SourceIds]
    · refine Keeps.of_fact fun hw => ?_
      exact (copyItems_keeps sink k st (i + 1) rest).bind fun _ =>
        Keeps.pure _ fun _ hl => sourceIds_append hw hl

theorem copyCollection_keeps (source : Source) (sink : Sink σ) (k : Kind) :
    Keeps (Integrity preset) Extends (fun _ => True) (copyCollection source sink.traced k)
      fun _ _ => True :=
  Keeps.copyCollection (fun st _ => copyItems_keeps sink k st 0 st.items) fun waiting =>
    Keeps.of_fact fun hw => retryDeferred_keeps sink waiting hw

/-- Stop times waiting in a batch refer only to what was copied. -/
def BatchReady (preset : IdMap) (batch : List Record) (s : Run (σ × Trace)) : Prop :=
  ∀ e ∈ batch, Resolves preset s.store.2 e

theorem BatchReady.mono {batch : List Record} {s s' : Run (σ × Trace)}
    (h : BatchReady preset batch s) (hext : Extends s s') : BatchReady preset batch s' :=
  fun e he => (h e he).mono hext

/-- The batch so far stays resolved while the trace grows. -/
theorem BatchReady.stable (batch : List Record) :
    ∀ s s' : Run (σ × Trace), BatchReady preset batch s → Extends s s' → BatchReady preset batch s' :=
  fun _ _ h hext => h.mono hext

theorem BatchReady.append {batch more : List Record} {s : Run (σ × Trace)}
    (h : BatchReady preset batch s) (h' : BatchReady preset more s) :
    BatchReady preset (batch ++ more) s := by
  intro e he
  rcases List.mem_append.mp he with he | he
  · exact h e he
  · exact h' e he

theorem processStopTime_keeps (sink : Sink σ) (r : Record) :
    Keeps (Integrity preset) Extends (fun _ => True) (processStopTime sink.traced r)
      (BatchReady preset) := by
  unfold processStopTime
  refine (filterStages_keeps r).bind fun r' => (expandStages_keeps r').bind fun outs => ?_
  dsimp only
  refine ((Keeps.forIn (BatchReady preset) (fun out _ batch => ?_) []).mono
    (fun _ _ => by simp [BatchReady]) fun _ _ h => h).bind fun _ => Keeps.pure _ fun _ h => h
  -- the stop times of the batch so far stay resolved while this output is prepared and written
  refine ((prepare_keeps out false).frame_of (BatchReady.stable _)).bind fun p => ?_
  cases p with
  | ready e =>
    dsimp only
    split
    · exact Keeps.pure _ fun _ h => h.2.append fun x hx => by
        simp only [List.mem_singleton] at hx
        exact hx ▸ h.1.1
    · refine (((write_keeps sink e out.entityId).frame (BatchReady.stable _)).mono
        (fun _ h => ⟨⟨h.1.1, "", by simpa using h.1.2⟩, h.2⟩) fun _ _ h => h).bind fun _ =>
          Keeps.pure _ fun _ h => h.2
  | deferred _ | rejected => exact Keeps.pure _ fun _ h => h.2

theorem copyTrip_keeps (sink : Sink σ) (batchSize : Nat) (sts batch : List Record) :
    Keeps (Integrity preset) Extends (BatchReady preset batch) (copyTrip sink.traced batchSize sts batch)
      (BatchReady preset) := by
  unfold copyTrip
  obtain ⟨sorted, errors⟩ := validateStopTimes sts
  dsimp only
  -- each stop time of the trip joins the batch, which is written whenever it is full
  have hloop : Keeps (Integrity preset) Extends (BatchReady preset batch)
      (forIn sorted batch fun st b => processStopTime sink.traced st >>= fun more =>
        if (b ++ more).length ≥ batchSize then
          flush sink.traced (b ++ more) >>= fun _ => pure (ForInStep.yield [])
        else pure (ForInStep.yield (b ++ more))) (BatchReady preset) := by
    refine Keeps.forIn (BatchReady preset) (fun st _ b => ?_) batch
    refine ((processStopTime_keeps sink st).frame_of (BatchReady.stable _)).bind fun more => ?_
    split
    · exact ((flush_keeps sink _).mono (fun _ h => h.2.append h.1) fun _ _ h => h).bind fun _ =>
        Keeps.pure _ fun _ _ => by simp [BatchReady]
    · exact Keeps.pure _ fun _ h => h.2.append h.1
  split
  · refine Keeps.get.bind fun _ => ?_
    split
    · -- a trip that fails its check is dropped whole, and the batch stays as it was
      exact (((reject_keeps _ _ _).frame (BatchReady.stable batch)).mono (fun _ h => ⟨trivial, h.2⟩) fun _ _ h => h).bind
        fun _ => Keeps.pure _ fun _ h => h.2
    · exact (((warn_keeps _ _).frame (BatchReady.stable batch)).mono (fun _ h => ⟨trivial, h.2⟩) fun _ _ h => h.2).bind
        fun _ => hloop.bind fun _ => Keeps.pure _ fun _ h => h
  · exact hloop.bind fun _ => Keeps.pure _ fun _ h => h

theorem copyChunk_keeps (source : Source) (sink : Sink σ) (batchSize : Nat) (chunk : List String) :
    Keeps (Integrity preset) Extends (fun _ => True) (copyChunk source sink.traced batchSize chunk)
      fun _ _ => True := by
  unfold copyChunk
  split
  · exact Keeps.throw _
  · exact Keeps.pure _ fun _ _ => trivial
  · rename_i st _
    refine (Keeps.forIn (fun _ _ => True) (fun _ _ _ => (countRead_keeps _).bind fun _ =>
      Keeps.pure _ fun _ _ => trivial) ()).bind fun _ => (Keeps.finish st).bind fun _ => ?_
    obtain ⟨groups, problems⟩ := groupByTrip st.items
    dsimp only
    refine (Keeps.forIn (fun _ _ => True) (fun _ _ _ => (reject_keeps _ _ _).bind fun _ =>
      Keeps.pure _ fun _ _ => trivial) ()).bind fun _ => ?_
    -- the trips of the chunk add their stop times to one batch, written at the end
    refine ((Keeps.forIn (BatchReady preset) (fun trip _ b => ?_) []).mono
      (fun _ _ => by simp [BatchReady]) fun _ _ h => h).bind fun batch => ?_
    · split
      · exact (copyTrip_keeps sink batchSize _ b).bind fun _ => Keeps.pure _ fun _ h => h
      · exact Keeps.pure _ fun _ h => h
    · exact (flush_keeps sink batch).bind fun _ => Keeps.pure _ fun _ _ => trivial

theorem rejectOrphans_keeps (source : Source) (tripIds : List String) :
    Keeps (Integrity preset) Extends (fun _ => True) (rejectOrphans (σ := σ × Trace) source tripIds)
      fun _ _ => True := by
  unfold rejectOrphans
  split
  · exact Keeps.throw _
  · exact Keeps.pure _ fun _ _ => trivial
  · rename_i st _
    refine (Keeps.forIn (fun _ _ => True) (fun x _ _ => ?_) ()).bind fun _ => Keeps.finish st
    obtain ⟨item, i⟩ := x
    dsimp only
    exact (countRead_keeps _).bind fun _ => (Keeps.guarded (reject_keeps _ _ _) st (i + 1)).bind
      fun _ => Keeps.pure _ fun _ _ => trivial

theorem copyStopTimes_keeps (source : Source) (sink : Sink σ) :
    Keeps (Integrity preset) Extends (fun _ => True) (copyStopTimes source sink.traced)
      fun _ _ => True :=
  Keeps.copyStopTimes (fun n chunk => copyChunk_keeps source sink n chunk) fun trips =>
    rejectOrphans_keeps source trips

theorem copyAll_keeps (source : Source) (sink : Sink σ) :
    Keeps (Integrity preset) Extends (fun _ => True) (copyAll source sink.traced) fun _ _ => True :=
  Keeps.copyAll (copyStopTimes_keeps source sink) fun k => copyCollection_keeps source sink k

end Copying

end TransitFeed

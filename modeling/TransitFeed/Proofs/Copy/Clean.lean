import TransitFeed.Proofs.Copy.Runs
import TransitFeed.Proofs.Feed.Closed

/-!
# Steps that drop nothing

A copy that drops nothing keeps its reports in collection order with no record dropped and no
problem recorded, and runs no stage; its identifier map only grows. This file states that
invariant and that preorder, and specifies each elementary step as one that ends normally
and keeps both: counting, warnings, the stages of an empty pipeline, preparing a record whose
references the map knows (or a stop that waits for its parent), and writing a record or a
batch to a destination that takes everything.
-/

namespace TransitFeed

/-- A tally without a dropped record or a problem. -/
def CollectionReport.Tally.Clean (t : CollectionReport.Tally) : Prop :=
  t.dropped = 0 ∧ t.problems = [] ∧ t.kept = []

/-- Reports in collection order, none with a dropped record or a problem. -/
structure ReportsClean (rs : List CollectionReport) : Prop where
  ordered : ReportsOrdered rs
  clean : ∀ k, (reportOf rs k).tally.Clean

namespace ReportsClean

variable {rs rs' : List CollectionReport}

theorem nil : ReportsClean [] := ⟨List.Pairwise.nil, fun _ => ⟨rfl, rfl, rfl⟩⟩

/-- Changing one report in a way that keeps every clean tally clean. -/
theorem update (h : ReportsClean rs) {k : Kind} {f : CollectionReport → CollectionReport}
    (hf : ∀ c, (f c).kind = c.kind) (hc : ∀ c, c.tally.Clean → (f c).tally.Clean) :
    ReportsClean (Copying.updateReport k f rs) := by
  refine ⟨updateReport_ordered hf h.ordered, fun k' => ?_⟩
  rw [reportOf_updateReport hf h.ordered]
  split
  · exact hc _ (h.clean k)
  · exact h.clean k'

theorem warnsOnly (h : ReportsClean rs) (hw : Copying.WarnsOnly rs rs') : ReportsClean rs' :=
  ⟨(hw h.ordered).1, fun k => (hw h.ordered).2 k ▸ h.clean k⟩

/-- Warnings keep a report clean. -/
theorem warn (h : ReportsClean rs) (k : Kind) (ws : List Issue) (limit : Nat) :
    ReportsClean (Copying.updateReport k (fun c => ws.foldl (fun c w => c.addWarning w limit) c) rs) :=
  h.update (fun c => (CollectionReport.foldl_addWarning ws limit c).1)
    fun c hc => (CollectionReport.foldl_addWarning ws limit c).2 ▸ hc

theorem of_mem (h : ReportsClean rs) {c : CollectionReport} (hc : c ∈ rs) : c.tally.Clean :=
  reportOf_eq_of_mem h.ordered hc ▸ h.clean c.kind

end ReportsClean

/-- The filters of a pipeline without stages keep a record as it is. -/
theorem Pipeline.filter_of_stages_nil {p : Pipeline} (h : p.stages = []) (m : IdMap) (r : Record) :
    p.filter m r = (p, r) := by
  cases p
  subst h
  rfl

/-- The expansions of a pipeline without stages keep a record alone. -/
theorem Pipeline.expand_of_stages_nil {p : Pipeline} (h : p.stages = []) (m : IdMap) (r : Record) :
    p.expand m r = (p, [r]) := by
  cases p
  subst h
  rfl

/-- A destination that takes every record and every batch. -/
structure Sink.NeverFails {σ : Type} (sink : Sink σ) : Prop where
  add : ∀ store r, ∃ x, sink.add store r = .ok x
  addAll : ∀ store rs, ∃ x, sink.addAll store rs = .ok x

/-- A feed in memory takes every record and every batch. -/
theorem MemoryFeed.neverFails_sink : MemoryFeed.sink.NeverFails :=
  ⟨fun _ _ => ⟨_, rfl⟩, fun _ _ => ⟨_, rfl⟩⟩

namespace Copying

variable {σ : Type}

/-- What a copy that drops nothing keeps: clean reports, and no stage. -/
structure Smooth (s : Run σ) : Prop where
  reports : ReportsClean s.reports
  stages : s.pipeline.stages = []

/-- The identifier map only grew. -/
def MapGrows (s s' : Run σ) : Prop :=
  ∀ c o, s.map.contains c o = true → s'.map.contains c o = true

instance : IsPreorder (Run σ) MapGrows where
  refl _ _ _ h := h
  trans _ _ _ h h' c o hc := h' c o (h c o hc)

/-- The filled references of a record that a map knows. -/
def RefsKnown (m : IdMap) (r : Record) : Prop :=
  ∀ col ∈ r.kind.columns, ∀ t, col.target = some t →
    Cell.present col.optional (r.cell col.name) = true → m.contains t.fileName (r.str col.name) = true

/-- Noting a written record forgets no identifier. -/
theorem note_contains_of {r : Record} {oldId newId c o : String} {s : Run σ}
    (h : s.map.contains c o = true) : (exec (note r oldId newId) s).2.map.contains c o = true := by
  unfold IdMap.contains at h ⊢
  rw [note_get?]
  split <;> simp [h]

/-- Noting a written record records its old identifier, unless it is empty (and not an
agency's) or its kind has no identifiers. -/
theorem note_contains_self {r : Record} {oldId newId : String} {s : Run σ}
    (hid : r.kind.idColumn?.isSome) (hne : oldId ≠ "" ∨ r.kind = .agency) :
    (exec (note r oldId newId) s).2.map.contains r.kind.fileName oldId = true := by
  by_cases hnotes : notes s.map r oldId
  · unfold IdMap.contains
    rw [note_get?, if_pos ⟨hnotes, rfl, rfl⟩]
    rfl
  · -- only a shape already recorded is not noted again
    have hshape : s.map.contains Kind.shape.fileName oldId = true ∧ r.kind = .shape := by
      by_contra hno
      refine hnotes ⟨hid, hne, fun hk => ?_⟩
      simpa [hk] using hno
    exact note_contains_of (hshape.2 ▸ hshape.1)

variable {sink : Sink σ}

/-- A step that only changes the reports, keeping them clean, ends normally and keeps the
invariant. -/
theorem runs_of_reports {α : Type} {x : Copying σ α} (a : α) (g : Run σ → List CollectionReport)
    (hx : ∀ s, exec x s = (.ok a, { s with reports := g s }))
    (hg : ∀ s, ReportsClean s.reports → ReportsClean (g s)) :
    Runs Smooth MapGrows (fun _ => True) x fun b _ => b = a := fun s hi _ =>
  ⟨a, _, hx s, ⟨hg s hi.reports, hi.stages⟩, fun _ _ h => h, rfl⟩

theorem countRead_runs (k : Kind) :
    Runs Smooth MapGrows (fun _ : Run σ => True) (countRead k) fun _ _ => True :=
  (runs_of_reports () _ (exec_countRead k) fun _ h => h.update (fun _ => rfl) fun _ hc => hc).mono
    (fun _ h => h) fun _ _ _ => trivial

/-- The filters of an empty pipeline give the record back. -/
theorem filterStages_runs (r : Record) :
    Runs Smooth MapGrows (fun _ : Run σ => True) (filterStages r) fun r' _ => r' = r :=
  Runs.of_exec_eq fun s hi _ => ⟨r, by rw [exec_filterStages, Pipeline.filter_of_stages_nil hi.stages], rfl⟩

/-- The expansions of an empty pipeline give the record alone. -/
theorem expandStages_runs (r : Record) :
    Runs Smooth MapGrows (fun _ : Run σ => True) (expandStages r) fun rs _ => rs = [r] :=
  Runs.of_exec_eq fun s hi _ => ⟨[r], by rw [exec_expandStages, Pipeline.expand_of_stages_nil hi.stages], rfl⟩

/-- A record without problems whose references the map knows is remapped and ready, with its
kind and identifier; a stop that may wait and whose parent is not copied yet waits. -/
theorem prepare_runs {r : Record} (he : r.errors = []) (canDefer : Bool) :
    Runs Smooth MapGrows
      (fun s : Run σ => RefsKnown s.map r ∨ (canDefer = true ∧ waitsForParent s.map r = true))
      (prepare r canDefer) fun p s =>
        (∃ e, p = .ready e ∧ e.kind = r.kind ∧ e.entityId = r.entityId) ∨
          (p = .deferred r ∧ waitsForParent s.map r = true) := by
  intro s hi hp
  have hclean : ¬(r.errors ≠ [] ∧ s.options.allowEntityErrors = false) := by simp [he]
  by_cases hwait : canDefer = true ∧ waitsForParent s.map r = true
  · refine ⟨.deferred r, s, by rw [exec_prepare, if_neg hclean, if_pos hwait], hi, refl_of _ s,
      .inr ⟨rfl, hwait.2⟩⟩
  · have hknown : RefsKnown s.map r := hp.resolve_right hwait
    obtain ⟨e, hkeys⟩ : ∃ e, r.updateKeys (fun k old => s.map.get? k.fileName old) = .ok e :=
      Record.updateKeys_ok fun col hcol t ht hpresent => hknown col hcol t ht hpresent
    -- preparing only records the record's warnings
    let s' : Run σ := { s with
      reports := updateReport r.kind
        (fun c => (r.warnings ++ r.errors).foldl (fun c w => c.addWarning w s.options.errorLimit) c)
        s.reports }
    refine ⟨.ready e, s', by rw [exec_prepare, if_neg hclean, if_neg hwait, hkeys],
      ⟨hi.reports.warn _ _ _, hi.stages⟩, fun _ _ h => h,
      .inl ⟨e, rfl, Record.updateKeys_kind hkeys, Record.entityId_updateKeys hkeys⟩⟩

/-- Writing a record to a destination that takes it records its old identifier, when its
kind has identifiers and the identifier is not empty (or the record is an agency). -/
theorem write_runs (hsink : sink.NeverFails) (e : Record) (oldId : String) :
    Runs Smooth MapGrows (fun _ => True) (write sink e oldId) fun _ s =>
      e.kind.idColumn?.isSome → (oldId ≠ "" ∨ e.kind = .agency) →
        s.map.contains e.kind.fileName oldId = true := by
  intro s hi _
  obtain ⟨⟨store, newId⟩, hadd⟩ := hsink.add s.store e
  have hframe := note_frame e oldId newId { s with store := store }
  refine ⟨(), written s e oldId newId store, by rw [exec_write, hadd], ⟨?_, ?_⟩,
    fun c o h => note_contains_of h, fun hid hne => note_contains_self hid hne⟩
  · exact (hi.reports.warnsOnly hframe.2.2.2).update (fun _ => rfl) fun _ hc => hc
  · show (exec (note e oldId newId) { s with store := store }).2.pipeline.stages = []
    rw [hframe.2.1]
    exact hi.stages

/-- Writing a batch to a destination that takes it only counts what was written. -/
theorem flush_runs (hsink : sink.NeverFails) (batch : List Record) :
    Runs Smooth MapGrows (fun _ => True) (flush sink batch) fun _ _ => True := by
  intro s hi _
  rw [exec_flush]
  split
  · exact ⟨(), s, rfl, hi, refl_of _ s, trivial⟩
  · obtain ⟨⟨store, ids⟩, hadd⟩ := hsink.addAll s.store batch
    rw [hadd]
    exact ⟨(), _, rfl, ⟨hi.reports.update (fun _ => rfl) fun _ hc => hc, hi.stages⟩,
      fun _ _ h => h, trivial⟩

end Copying

end TransitFeed

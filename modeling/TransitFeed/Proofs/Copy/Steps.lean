import TransitFeed.Proofs.Copy.Exec
import TransitFeed.Proofs.Copy.Reports
import TransitFeed.Proofs.Copy.IdMapLaws

/-!
# The elementary steps of a copy

What each elementary step of a copy does to the state: counting a read item, recording
warnings or the problems of a dropped record, running the stages, noting a written
record in the identifier map, writing one record or a batch, and preparing a record.
Later proofs cite these lemmas and never unfold the steps.
-/

namespace TransitFeed

/-- The report of a collection in the state of a copy. -/
def Run.report {σ : Type} (s : Run σ) (k : Kind) : CollectionReport := reportOf s.reports k

namespace Copying

variable {σ : Type}

@[simp] theorem exec_report (k : Kind) (f : CollectionReport → CollectionReport) (s : Run σ) :
    exec (report k f) s = (.ok (), { s with reports := updateReport k f s.reports }) := rfl

@[simp] theorem exec_countRead (k : Kind) (s : Run σ) :
    exec (countRead k) s =
      (.ok (), { s with reports := updateReport k (fun c => { c with read := c.read + 1 }) s.reports }) :=
  rfl

@[simp] theorem exec_warn (k : Kind) (ws : List Issue) (s : Run σ) :
    exec (warn k ws) s =
      (.ok (), { s with
        reports := updateReport k (fun c => ws.foldl (fun c w => c.addWarning w s.options.errorLimit) c)
          s.reports }) := rfl

/-- The report of a dropped record: its problems, and the records dropped with it. -/
def dropInto (errors : List Issue) (dropped limit : Nat) (c : CollectionReport) : CollectionReport :=
  errors.foldl (fun c e => c.addError e limit) { c with dropped := c.dropped + dropped }

/-- Without `failFast`, dropping records only records their problems. -/
theorem exec_reject_lenient (k : Kind) (errors : List Issue) (dropped : Nat) (s : Run σ)
    (h : s.options.failFast = false) :
    exec (reject k errors dropped) s =
      (.ok (), { s with
        reports := updateReport k (dropInto errors dropped s.options.errorLimit) s.reports }) := by
  simp [reject, exec_bind, h]
  rfl

/-- With `failFast`, the first problem of a dropped record ends the copy. -/
theorem exec_reject_failFast (k : Kind) (e : Issue) (errors : List Issue) (dropped : Nat)
    (s : Run σ) (h : s.options.failFast = true) :
    exec (reject k (e :: errors) dropped) s = (.error (.entity k.fileName e), s) := by
  simp [reject, exec_bind, h]

/-- A record with problems is dropped only when the copy goes on. -/
theorem reject_ok {k : Kind} {e : Issue} {errors : List Issue} {dropped : Nat} {s s' : Run σ}
    (h : exec (reject k (e :: errors) dropped) s = (.ok (), s')) :
    s.options.failFast = false ∧
      s' = { s with
        reports := updateReport k (dropInto (e :: errors) dropped s.options.errorLimit) s.reports } := by
  cases hf : s.options.failFast
  · rw [exec_reject_lenient _ _ _ _ hf] at h
    exact ⟨rfl, (Prod.mk.inj h).2.symm⟩
  · rw [exec_reject_failFast _ _ _ _ _ hf] at h
    cases h

@[simp] theorem exec_filterStages (r : Record) (s : Run σ) :
    exec (filterStages r) s =
      (.ok (s.pipeline.filter s.map r).2, { s with pipeline := (s.pipeline.filter s.map r).1 }) := rfl

@[simp] theorem exec_expandStages (r : Record) (s : Run σ) :
    exec (expandStages r) s =
      (.ok (s.pipeline.expand s.map r).2, { s with pipeline := (s.pipeline.expand s.map r).1 }) := rfl

theorem exec_ite {α : Type} (c : Prop) [Decidable c] (x y : Copying σ α) (s : Run σ) :
    exec (if c then x else y) s = if c then exec x s else exec y s := by
  split <;> rfl

/-- A change of reports that only adds warnings: the order and every tally are kept. -/
def WarnsOnly (rs rs' : List CollectionReport) : Prop :=
  ReportsOrdered rs → ReportsOrdered rs' ∧ ∀ k, (reportOf rs' k).tally = (reportOf rs k).tally

theorem WarnsOnly.refl (rs : List CollectionReport) : WarnsOnly rs rs := fun h => ⟨h, fun _ => rfl⟩

theorem WarnsOnly.trans {rs rs' rs'' : List CollectionReport} (h : WarnsOnly rs rs')
    (h' : WarnsOnly rs' rs'') : WarnsOnly rs rs'' := fun ho =>
  ⟨(h' (h ho).1).1, fun k => ((h' (h ho).1).2 k).trans ((h ho).2 k)⟩

/-- Warnings added to the report of a collection change no tally. -/
theorem warnsOnly_updateReport (k : Kind) (ws : List Issue) (limit : Nat)
    (rs : List CollectionReport) :
    WarnsOnly rs (updateReport k (fun c => ws.foldl (fun c w => c.addWarning w limit) c) rs) := by
  intro h
  have hf := fun c => (CollectionReport.foldl_addWarning ws limit c).1
  refine ⟨updateReport_ordered hf h, fun k' => ?_⟩
  rw [reportOf_updateReport hf h]
  split
  · subst k'
    exact (CollectionReport.foldl_addWarning ws limit _).2
  · rfl

/-- Whether writing a record under an old identifier records that identifier: its kind has an
identifier column, the identifier is not empty (the single agency of a feed may have none),
and a shape is recorded by its first point only. -/
def notes (m : IdMap) (r : Record) (oldId : String) : Prop :=
  r.kind.idColumn?.isSome ∧ (oldId ≠ "" ∨ r.kind = .agency) ∧
    (r.kind = .shape → m.contains Kind.shape.fileName oldId = false)

instance (m : IdMap) (r : Record) (oldId : String) : Decidable (notes m r oldId) :=
  inferInstanceAs (Decidable (_ ∧ _ ∧ _))

theorem warnsOnly_warn {rs rs' : List CollectionReport} (h : WarnsOnly rs rs') (k : Kind)
    (ws : List Issue) (limit : Nat) :
    WarnsOnly rs (updateReport k (fun c => ws.foldl (fun c w => c.addWarning w limit) c) rs') :=
  h.trans (warnsOnly_updateReport k ws limit rs')

/-- What noting a written record does, said once: it ends normally, records the new identifier
exactly when `notes` says so, changes nothing else of the map an identifier lookup sees (only
the geometry of stops and shapes), and adds warnings only. -/
theorem note_cases (r : Record) (oldId newId : String) (s : Run σ) :
    ∃ m rs, exec (note r oldId newId) s = (.ok (), { s with map := m, reports := rs }) ∧
      WarnsOnly s.reports rs ∧
      ∀ c o, m.get? c o =
        if notes s.map r oldId ∧ c = r.kind.fileName ∧ o = oldId then some newId else s.map.get? c o := by
  -- one case for each kind, stop geometry and branch taken
  cases hk : r.kind <;> cases hp : stopPoint r <;>
    simp only [note, hk, hp, exec_bind, exec_get, exec_modify, exec_pure, exec_warn, exec_ite,
      Kind.idColumn?] <;> repeat' split
  all_goals refine ⟨_, _, rfl, ?_, fun c o => by simp_all [notes, IdMap.get?_set, Kind.idColumn?]⟩
  -- the reports gained at most two rounds of warnings
  all_goals (repeat apply warnsOnly_warn); exact WarnsOnly.refl _

/-- Noting a written record never fails. -/
theorem note_fst (r : Record) (oldId newId : String) (s : Run σ) :
    (exec (note r oldId newId) s).1 = .ok () := by
  obtain ⟨m, rs, h, -⟩ := note_cases r oldId newId s
  rw [h]

theorem exec_note (r : Record) (oldId newId : String) (s : Run σ) :
    exec (note r oldId newId) s = (.ok (), (exec (note r oldId newId) s).2) :=
  Prod.ext (note_fst r oldId newId s) rfl

/-- Noting a written record records its new identifier exactly when `notes` says so. -/
theorem note_get? (r : Record) (oldId newId : String) (s : Run σ) (c o : String) :
    (exec (note r oldId newId) s).2.map.get? c o =
      if notes s.map r oldId ∧ c = r.kind.fileName ∧ o = oldId then some newId
      else s.map.get? c o := by
  obtain ⟨m, rs, h, -, hget⟩ := note_cases r oldId newId s
  rw [h]
  exact hget c o

/-- Besides the identifier map, noting a written record only adds warnings. -/
theorem note_frame (r : Record) (oldId newId : String) (s : Run σ) :
    (exec (note r oldId newId) s).2.store = s.store ∧
      (exec (note r oldId newId) s).2.pipeline = s.pipeline ∧
      (exec (note r oldId newId) s).2.options = s.options ∧
      WarnsOnly s.reports (exec (note r oldId newId) s).2.reports := by
  obtain ⟨m, rs, h, hwarn, -⟩ := note_cases r oldId newId s
  rw [h]
  exact ⟨rfl, rfl, rfl, hwarn⟩

/-- The state after writing a record that the destination accepted. -/
def written (s : Run σ) (r : Record) (oldId newId : String) (store : σ) : Run σ :=
  let s' := (exec (note r oldId newId) { s with store := store }).2
  { s' with reports := updateReport r.kind (fun c => { c with written := c.written + 1 }) s'.reports }

@[simp] theorem written_store (s : Run σ) (r : Record) (oldId newId : String) (store : σ) :
    (written s r oldId newId store).store = store :=
  (note_frame r oldId newId { s with store := store }).1

@[simp] theorem written_pipeline (s : Run σ) (r : Record) (oldId newId : String) (store : σ) :
    (written s r oldId newId store).pipeline = s.pipeline :=
  (note_frame r oldId newId { s with store := store }).2.1

@[simp] theorem written_options (s : Run σ) (r : Record) (oldId newId : String) (store : σ) :
    (written s r oldId newId store).options = s.options :=
  (note_frame r oldId newId { s with store := store }).2.2.1

/-- Writing a record hands it to the destination; once accepted, it is noted and counted. -/
theorem exec_write (sink : Sink σ) (r : Record) (oldId : String) (s : Run σ) :
    exec (write sink r oldId) s =
      match sink.add s.store r with
      | .error e => (.error e, s)
      | .ok (store, newId) => (.ok (), written s r oldId newId store) := by
  cases h : sink.add s.store r with
  | error e =>
    simp only [write, exec_bind, exec_get, h]
    rfl
  | ok accepted =>
    obtain ⟨store, newId⟩ := accepted
    simp only [write, exec_bind, exec_get, h, exec_set]
    rw [exec_note]
    rfl

/-- Writing a batch hands it to the destination, which counts what it accepted. -/
theorem exec_flush (sink : Sink σ) (batch : List Record) (s : Run σ) :
    exec (flush sink batch) s =
      if batch = [] then (.ok (), s)
      else
        match sink.addAll s.store batch with
        | .error e => (.error e, s)
        | .ok (store, ids) =>
          (.ok (), { s with
            store := store
            reports :=
              updateReport .stopTime (fun c => { c with written := c.written + ids.length }) s.reports }) := by
  by_cases hb : batch = []
  · subst hb
    rfl
  · simp only [flush, exec_bind, List.isEmpty_iff, hb, if_false, exec_get]
    cases h : sink.addAll s.store batch with
    | error e => rfl
    | ok accepted => rfl

/-- Preparing a record: one with problems is dropped unless problems are allowed, a stop
whose parent is not copied yet waits, and the others are remapped, or dropped when a
reference does not resolve. -/
theorem exec_prepare (r : Record) (canDefer : Bool) (s : Run σ) :
    exec (prepare r canDefer) s =
      if r.errors ≠ [] ∧ s.options.allowEntityErrors = false then
        exec (reject r.kind r.errors 1 >>= fun _ => pure Prepared.rejected) s
      else if canDefer = true ∧ waitsForParent s.map r = true then (.ok (.deferred r), s)
      else
        match r.updateKeys (fun k old => s.map.get? k.fileName old) with
        | .error i => exec (reject r.kind [i.atLine r.line] 1 >>= fun _ => pure Prepared.rejected) s
        | .ok r' =>
          (.ok (.ready r'), { s with
            reports := updateReport r.kind
              (fun c => (r.warnings ++ r.errors).foldl (fun c w => c.addWarning w s.options.errorLimit) c)
              s.reports }) := by
  rw [prepare, exec_bind, exec_get]
  dsimp only
  by_cases he : r.errors ≠ [] ∧ s.options.allowEntityErrors = false
  · have hb : (!r.errors.isEmpty && !s.options.allowEntityErrors) = true := by
      simpa [List.isEmpty_iff] using he
    rw [if_pos hb, if_pos he]
  · have hb : ¬(!r.errors.isEmpty && !s.options.allowEntityErrors) = true := by
      simpa [List.isEmpty_iff] using he
    rw [if_neg hb, if_neg he]
    by_cases hw : canDefer = true ∧ waitsForParent s.map r = true
    · rw [if_pos (by simpa using hw), if_pos hw]
      rfl
    · rw [if_neg (by simpa using hw), if_neg hw]
      cases r.updateKeys (fun k old => s.map.get? k.fileName old) <;> rfl

/-- A step that drops records and then gives a value ends normally only without `failFast`,
having recorded the problems. -/
theorem reject_bind_ok {α : Type} {k : Kind} {errors : List Issue} {dropped : Nat} {b a : α}
    {s s' : Run σ} (hne : errors ≠ [])
    (h : exec (reject k errors dropped >>= fun _ => pure b) s = (.ok a, s')) :
    a = b ∧ s.options.failFast = false ∧
      s' = { s with reports := updateReport k (dropInto errors dropped s.options.errorLimit) s.reports } := by
  obtain ⟨e, es, rfl⟩ := List.exists_cons_of_ne_nil hne
  obtain ⟨_, s1, hr, hp⟩ := exec_bind_eq_ok.mp h
  obtain ⟨hf, rfl⟩ := reject_ok hr
  simp only [exec_pure, Prod.mk.injEq, Except.ok.injEq] at hp
  exact ⟨hp.1.symm, hf, hp.2.symm⟩

/-- What preparing a record can end in: a stop waits for its parent, a record is remapped
and ready with its warnings recorded, or it is dropped with at least one problem. -/
theorem prepare_cases {r : Record} {canDefer : Bool} {s s' : Run σ} {out : Prepared}
    (h : exec (prepare r canDefer) s = (.ok out, s')) :
    (canDefer = true ∧ waitsForParent s.map r = true ∧ out = .deferred r ∧ s' = s) ∨
    (∃ e, r.updateKeys (fun k old => s.map.get? k.fileName old) = .ok e ∧ out = .ready e ∧
      s' = { s with
        reports := updateReport r.kind
          (fun c => (r.warnings ++ r.errors).foldl (fun c w => c.addWarning w s.options.errorLimit) c)
          s.reports }) ∨
    (out = .rejected ∧ ∃ errors, errors ≠ [] ∧
      s' = { s with reports := updateReport r.kind (dropInto errors 1 s.options.errorLimit) s.reports }) := by
  rw [exec_prepare] at h
  split at h
  · rename_i he
    obtain ⟨rfl, -, rfl⟩ := reject_bind_ok he.1 h
    exact .inr (.inr ⟨rfl, r.errors, he.1, rfl⟩)
  split at h
  · rename_i hw
    simp only [Prod.mk.injEq, Except.ok.injEq] at h
    exact .inl ⟨hw.1, hw.2, h.1.symm, h.2.symm⟩
  split at h
  · obtain ⟨rfl, -, rfl⟩ := reject_bind_ok (List.cons_ne_nil _ _) h
    exact .inr (.inr ⟨rfl, _, List.cons_ne_nil _ _, rfl⟩)
  · rename_i e hkeys
    simp only [Prod.mk.injEq, Except.ok.injEq] at h
    exact .inr (.inl ⟨e, hkeys, h.1.symm, h.2.symm⟩)

end Copying

end TransitFeed

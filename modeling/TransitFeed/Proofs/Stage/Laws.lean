import TransitFeed.Stage.Pipeline
import TransitFeed.Feed.Keys

/-!
# What stages and remapping keep

Stages change records in place, and remapping references rewrites reference cells, but
neither changes the kind of a record. A stage is quiet when its expansion never replaces
a record: it then keeps its state, and stays quiet after filtering any record; a pipeline
of quiet stages hands every record on as it is.
-/

namespace TransitFeed

namespace Record

@[simp] theorem setCell_kind (r : Record) (name : String) (c : Cell) :
    (r.setCell name c).kind = r.kind := by
  unfold setCell
  split <;> rfl

@[simp] theorem setEntityId_kind (r : Record) (id : String) : (r.setEntityId id).kind = r.kind := by
  unfold setEntityId
  split <;> simp

theorem foldl_setCell_kind {α : Type} (f : Record → α → Record)
    (hf : ∀ r a, (f r a).kind = r.kind) (xs : List α) (r : Record) :
    (xs.foldl f r).kind = r.kind := by
  induction xs generalizing r with
  | nil => rfl
  | cons x xs ih => rw [List.foldl_cons, ih, hf]

/-- The position of a named column holds that name. -/
theorem columnNames_of_columnIndex {k : Kind} {name : String} {i : Nat}
    (h : k.columnIndex? name = some i) : k.columnNames[i]? = some name := by
  obtain ⟨hi, heq, -⟩ := List.idxOf?_eq_some_iff.mp h
  rw [List.getElem?_eq_getElem hi, heq]

/-- Setting one cell keeps the cells of every other column. -/
theorem cell_setCell_of_ne (r : Record) {name name' : String} (c : Cell) (hne : name ≠ name') :
    (r.setCell name c).cell name' = r.cell name' := by
  unfold setCell
  split
  · rename_i j hj
    simp only [cell]
    cases hi : r.kind.columnIndex? name' with
    | none => rfl
    | some i =>
      -- two columns at one position have one name
      have hij : j ≠ i := by
        rintro rfl
        have h1 := columnNames_of_columnIndex hj
        rw [columnNames_of_columnIndex hi] at h1
        exact hne (Option.some.inj h1).symm
      simp only [List.getElem?_set_ne hij]
  · rfl

/-- Steps that each keep a cell keep it all along. -/
theorem cell_foldl {α : Type} (f : Record → α → Record) (name : String) (xs : List α)
    (hf : ∀ r, ∀ x ∈ xs, (f r x).cell name = r.cell name) (r : Record) :
    (xs.foldl f r).cell name = r.cell name := by
  induction xs generalizing r with
  | nil => rfl
  | cons x xs ih =>
    rw [List.foldl_cons, ih (fun r y hy => hf r y (List.mem_cons_of_mem _ hy)), hf r x (by simp)]

/-- Resolving references gives new identifiers only for reference columns of the list, each
an identifier the lookup gave for the column's target. -/
theorem resolveKeys_mem {r : Record} {lookup : KeyLookup} {l : List (Column × Cell)}
    {resolved : List (Column × String)} (h : r.resolveKeys lookup l = .ok resolved) :
    ∀ x ∈ resolved, (∃ c, (x.1, c) ∈ l) ∧ ∃ t, x.1.target = some t ∧ ∃ old, lookup t old = some x.2 := by
  induction l generalizing resolved with
  | nil =>
    cases h
    simp
  | cons p rest ih =>
    obtain ⟨col, cell⟩ := p
    have hwiden : ∀ x : Column × String, (∃ c, (x.1, c) ∈ rest) → ∃ c, (x.1, c) ∈ (col, cell) :: rest :=
      fun _ ⟨c, hc⟩ => ⟨c, List.mem_cons_of_mem _ hc⟩
    unfold resolveKeys at h
    split at h
    · exact fun x hx => ⟨hwiden x (ih h x hx).1, (ih h x hx).2⟩
    · rename_i target htarget
      dsimp only at h
      split at h
      · exact fun x hx => ⟨hwiden x (ih h x hx).1, (ih h x hx).2⟩
      · split at h
        · cases h
        · cases hr : r.resolveKeys lookup rest with
          | error e => rw [hr] at h; cases h
          | ok tail =>
            rw [hr] at h
            cases h
            rintro x (_ | ⟨_, hx⟩)
            · exact ⟨⟨cell, by simp⟩, target, htarget, _, ‹_›⟩
            · exact ⟨hwiden x (ih hr x hx).1, (ih hr x hx).2⟩

/-- Remapping references keeps every cell that is not a reference. -/
theorem cell_updateKeys_of_not_ref {r r' : Record} {lookup : KeyLookup} {name : String}
    (h : r.updateKeys lookup = .ok r') (hname : name ∉ r.kind.references.map Prod.fst) :
    r'.cell name = r.cell name := by
  unfold updateKeys at h
  split at h
  · cases h
  · rename_i resolved hres
    cases h
    refine cell_foldl _ name resolved (fun r x hx => ?_) r
    obtain ⟨⟨c, hc⟩, t, ht, -⟩ := resolveKeys_mem hres x hx
    -- a remapped column is a reference column, so it is not the one kept
    have hne : x.1.name ≠ name := by
      rintro rfl
      refine hname (List.mem_map.mpr ⟨(x.1.name, t), ?_, rfl⟩)
      exact List.mem_filterMap.mpr ⟨x.1, (List.of_mem_zip hc).1, by simp [ht]⟩
    dsimp only
    split
    · exact cell_setCell_of_ne _ _ hne
    · rfl

/-- Remapping the references of a record keeps its kind. -/
theorem updateKeys_kind {r r' : Record} {lookup : KeyLookup} (h : r.updateKeys lookup = .ok r') :
    r'.kind = r.kind := by
  unfold updateKeys at h
  split at h
  · cases h
  · cases h
    refine foldl_setCell_kind _ (fun r p => ?_) _ r
    dsimp only
    split <;> simp

end Record

/-- Prefixing a cell leaves the record as it is, or sets that cell. -/
theorem Prefixes.prefixCell_cases (pre : String) (r : Record) (column : String) :
    prefixCell pre r column = r ∨ ∃ c, prefixCell pre r column = r.setCell column c := by
  unfold prefixCell
  split
  · split
    · exact .inl rfl
    · exact .inr ⟨_, rfl⟩
  · exact .inl rfl

@[simp] theorem Prefixes.prefixCell_kind (pre : String) (r : Record) (column : String) :
    (prefixCell pre r column).kind = r.kind := by
  unfold prefixCell
  repeat' split
  all_goals simp

@[simp] theorem Prefixes.apply_kind (p : Prefixes) (r : Record) : (p.apply r).kind = r.kind := by
  unfold apply
  dsimp only
  repeat' split
  all_goals simp_all

@[simp] theorem Redate.filter_kind (d : Redate) (r : Record) : (d.filter r).kind = r.kind := by
  unfold filter calendar
  split
  · dsimp only
    simp only [Record.setCell_kind]
    exact Record.foldl_setCell_kind _ (fun _ _ => Record.setCell_kind ..) _ r
  · dsimp only
    split <;> split <;> simp
  · rfl

@[simp] theorem AgencyDefault.apply_kind (s : AgencyDefault) (r : Record) :
    (s.apply r).2.kind = r.kind := by
  unfold apply
  repeat' split
  all_goals simp

@[simp] theorem AgencyZone.apply_kind (s : AgencyZone) (r : Record) :
    (s.apply r).2.kind = r.kind := by
  unfold apply
  repeat' split
  all_goals simp

@[simp] theorem Walk.apply_kind (w : Walk) (m : IdMap) (r : Record) :
    (w.apply m r).2.kind = r.kind := by
  unfold apply
  repeat' split
  all_goals simp

/-- Prefixes leave stop times alone: they have no identifier and no zone. -/
theorem Prefixes.apply_of_stopTime (p : Prefixes) {r : Record} (h : r.kind = .stopTime) :
    p.apply r = r := by
  have hid : r.entityId = "" := by simp [Record.entityId, h, Kind.idColumn?]
  unfold apply
  dsimp only
  repeat' split
  all_goals simp_all

namespace Stage

/-- A stage changes a stop time in its distance along the shape at most. -/
theorem filter_cell_of_stopTime (st : Stage) (m : IdMap) {r : Record} (h : r.kind = .stopTime)
    {name : String} (hname : name ≠ "shape_dist_traveled") : (st.filter m r).2.cell name = r.cell name := by
  cases st with
  | rename p => simp [filter, Prefixes.apply_of_stopTime p h]
  | redate d => simp [filter, Redate.filter, h]
  | defaultAgency s => simp [filter, AgencyDefault.apply, h]
  | agencyTimezone s => simp [filter, AgencyZone.apply, h]
  | shapeDist w =>
    simp only [filter, Walk.apply, h]
    repeat' split
    all_goals simp [Record.cell_setCell_of_ne _ _ (Ne.symm hname)]
  | network s => rfl
  | implicitService s => rfl

/-- No stage replaces a stop time. -/
theorem expand_of_stopTime (st : Stage) (m : IdMap) {r : Record} (h : r.kind = .stopTime) :
    (st.expand m r).2 = none := by
  cases st with
  | redate d => simp [expand, Redate.expand, h]
  | network s => simp [expand, Created.networks, h]
  | implicitService s => simp [expand, Created.services, h]
  | rename p => rfl
  | defaultAgency s => rfl
  | agencyTimezone s => rfl
  | shapeDist w => rfl

/-- No stage makes a stop time out of another record. -/
theorem expand_kind_ne_stopTime (st : Stage) (m : IdMap) {r : Record} (h : r.kind ≠ .stopTime)
    {rs : List Record} (hrs : (st.expand m r).2 = some rs) : ∀ e ∈ rs, e.kind ≠ .stopTime := by
  cases st with
  | redate d =>
    simp only [expand, Redate.expand] at hrs
    split at hrs
    · cases hrs
      intro e he
      obtain ⟨t, -, rfl⟩ := List.mem_map.mp he
      simpa using h
    · cases hrs
  | network s =>
    simp only [expand, Created.networks] at hrs
    repeat' split at hrs
    all_goals cases hrs
    intro e he
    simp only [List.mem_cons, List.not_mem_nil, or_false] at he
    rcases he with rfl | rfl
    · simp [Created.network, Record.empty]
    · exact h
  | implicitService s =>
    simp only [expand, Created.services] at hrs
    repeat' split at hrs
    all_goals cases hrs
    intro e he
    simp only [List.mem_cons, List.not_mem_nil, or_false] at he
    rcases he with rfl | rfl
    · simp [Created.calendar, Record.empty]
    · exact h
  | rename p => cases hrs
  | defaultAgency s => cases hrs
  | agencyTimezone s => cases hrs
  | shapeDist w => cases hrs

@[simp] theorem filter_kind (st : Stage) (m : IdMap) (r : Record) : (st.filter m r).2.kind = r.kind := by
  cases st <;> simp [filter]

/-- A stage that never replaces a record. -/
def Quiet (st : Stage) : Prop := ∀ m r, (st.expand m r).2 = none

/-- A quiet stage keeps its state when it expands. -/
theorem expand_of_quiet {st : Stage} (h : st.Quiet) (m : IdMap) (r : Record) :
    st.expand m r = (st, none) := by
  have hr := h m r
  cases st with
  | network s =>
    simp only [expand, Created.networks] at hr ⊢
    repeat' split at hr
    all_goals simp_all
  | implicitService s =>
    simp only [expand, Created.services] at hr ⊢
    repeat' split at hr
    all_goals simp_all
  | redate d => simp_all [expand]
  | rename p => rfl
  | defaultAgency s => rfl
  | agencyTimezone s => rfl
  | shapeDist w => rfl

/-- Filtering a record leaves a quiet stage quiet. -/
theorem quiet_filter {st : Stage} (h : st.Quiet) (m : IdMap) (r : Record) : (st.filter m r).1.Quiet := by
  -- filters change the state of the stages that never expand, and keep the others
  cases st <;> exact h

end Stage

namespace Pipeline

/-- A pipeline whose stages are all quiet. -/
def Quiet (p : Pipeline) : Prop := ∀ st ∈ p.stages, st.Quiet

variable (m : IdMap)

theorem filterWith_kind : ∀ (stages : List Stage) (r : Record), (filterWith m stages r).2.kind = r.kind
  | [], _ => rfl
  | st :: rest, r => by
    simp only [filterWith]
    rw [filterWith_kind rest, Stage.filter_kind]

/-- The filters of a pipeline keep the kind of a record. -/
@[simp] theorem filter_kind (p : Pipeline) (r : Record) : (p.filter m r).2.kind = r.kind :=
  filterWith_kind m p.stages r

theorem filterWith_cell_of_stopTime {name : String} (hname : name ≠ "shape_dist_traveled") :
    ∀ (stages : List Stage) (r : Record), r.kind = .stopTime →
      (filterWith m stages r).2.cell name = r.cell name
  | [], _, _ => rfl
  | st :: rest, r, h => by
    simp only [filterWith]
    rw [filterWith_cell_of_stopTime hname rest _ (by rw [Stage.filter_kind, h]),
      Stage.filter_cell_of_stopTime st m h hname]

/-- The stages of a pipeline change a stop time in its distance along the shape at most. -/
theorem filter_cell_of_stopTime (p : Pipeline) {r : Record} (h : r.kind = .stopTime) {name : String}
    (hname : name ≠ "shape_dist_traveled") : (p.filter m r).2.cell name = r.cell name :=
  filterWith_cell_of_stopTime m hname p.stages r h

theorem expandAll_of_stopTimes : ∀ (st : Stage) (rs : List Record), (∀ r ∈ rs, r.kind = .stopTime) →
    (st.expandAll m rs).2 = rs
  | _, [], _ => rfl
  | st, r :: rs, h => by
    have hout := Stage.expand_of_stopTime st m (h r (by simp))
    have hrest := fun st' => expandAll_of_stopTimes st' rs (fun x hx => h x (List.mem_cons_of_mem _ hx))
    simp only [Stage.expandAll]
    rcases he : st.expand m r with ⟨st', out⟩
    rw [he] at hout
    cases hout
    rcases hr : st'.expandAll m rs with ⟨st'', more⟩
    have hmore := hrest st'
    rw [hr] at hmore
    simpa using hmore

theorem expandWith_of_stopTimes : ∀ (stages : List Stage) (rs : List Record),
    (∀ r ∈ rs, r.kind = .stopTime) → (expandWith m stages rs).2 = rs
  | [], _, _ => rfl
  | st :: rest, rs, h => by
    have hall := expandAll_of_stopTimes m st rs h
    have hrest := expandWith_of_stopTimes rest rs h
    simp only [expandWith]
    rcases he : st.expandAll m rs with ⟨st', rs'⟩
    rw [he] at hall
    dsimp only at hall ⊢
    subst hall
    rcases hw : expandWith m rest rs' with ⟨rest', rs''⟩
    rw [hw] at hrest
    exact hrest

/-- A pipeline hands a stop time on as it is. -/
theorem expand_of_stopTime (p : Pipeline) {r : Record} (h : r.kind = .stopTime) :
    (p.expand m r).2 = [r] := by
  have hw := expandWith_of_stopTimes m p.stages [r] (by simp [h])
  simp only [expand]
  rcases hx : expandWith m p.stages [r] with ⟨stages, rs⟩
  rw [hx] at hw
  exact hw

theorem expandAll_kind_ne_stopTime : ∀ (st : Stage) (rs : List Record), (∀ r ∈ rs, r.kind ≠ .stopTime) →
    ∀ e ∈ (st.expandAll m rs).2, e.kind ≠ .stopTime
  | _, [], _ => by simp [Stage.expandAll]
  | st, r :: rs, h => by
    have hr : r.kind ≠ .stopTime := h r (by simp)
    have hrest := fun st' => expandAll_kind_ne_stopTime st' rs (fun x hx => h x (List.mem_cons_of_mem _ hx))
    simp only [Stage.expandAll]
    rcases he : st.expand m r with ⟨st', out⟩
    intro e he'
    rcases List.mem_append.mp he' with he' | he'
    · cases out with
      | none =>
        rw [Option.getD_none, List.mem_singleton] at he'
        exact he' ▸ hr
      | some l =>
        have hl : (st.expand m r).2 = some l := by rw [he]
        exact Stage.expand_kind_ne_stopTime st m hr hl e he'
    · exact hrest st' e he'

theorem expandWith_kind_ne_stopTime : ∀ (stages : List Stage) (rs : List Record),
    (∀ r ∈ rs, r.kind ≠ .stopTime) → ∀ e ∈ (expandWith m stages rs).2, e.kind ≠ .stopTime
  | [], _, h => h
  | st :: rest, rs, h => by
    have hall := expandAll_kind_ne_stopTime m st rs h
    simp only [expandWith]
    rcases he : st.expandAll m rs with ⟨st', rs'⟩
    rw [he] at hall
    have hrest := expandWith_kind_ne_stopTime rest rs' hall
    rcases hw : expandWith m rest rs' with ⟨rest', rs''⟩
    rw [hw] at hrest
    exact hrest

/-- A pipeline makes no stop time out of another record. -/
theorem expand_kind_ne_stopTime (p : Pipeline) {r : Record} (h : r.kind ≠ .stopTime) :
    ∀ e ∈ (p.expand m r).2, e.kind ≠ .stopTime := by
  have hw := expandWith_kind_ne_stopTime m p.stages [r] (by simp [h])
  simp only [expand]
  rcases hx : expandWith m p.stages [r] with ⟨stages, rs⟩
  rw [hx] at hw
  exact hw

theorem filterWith_quiet : ∀ (stages : List Stage) (r : Record), (∀ st ∈ stages, st.Quiet) →
    ∀ st ∈ (filterWith m stages r).1, st.Quiet
  | [], _, _ => by simp [filterWith]
  | st :: rest, r, h => by
    simp only [filterWith, List.mem_cons]
    rintro st' (rfl | hst')
    · exact Stage.quiet_filter (h st (by simp)) m r
    · exact filterWith_quiet rest _ (fun st hs => h st (by simp [hs])) st' hst'

/-- Filtering a record leaves a quiet pipeline quiet. -/
theorem quiet_filter {p : Pipeline} (h : p.Quiet) (r : Record) : (p.filter m r).1.Quiet :=
  filterWith_quiet m p.stages r h

theorem expandAll_of_quiet {st : Stage} (h : st.Quiet) :
    ∀ rs : List Record, st.expandAll m rs = (st, rs)
  | [] => rfl
  | r :: rs => by simp [Stage.expandAll, Stage.expand_of_quiet h, expandAll_of_quiet h rs]

theorem expandWith_of_quiet : ∀ (stages : List Stage) (rs : List Record), (∀ st ∈ stages, st.Quiet) →
    expandWith m stages rs = (stages, rs)
  | [], _, _ => rfl
  | st :: rest, rs, h => by
    simp [expandWith, expandAll_of_quiet m (h st (by simp)),
      expandWith_of_quiet rest rs (fun st hs => h st (by simp [hs]))]

/-- A quiet pipeline hands a record on as it is, and keeps its state. -/
theorem expand_of_quiet {p : Pipeline} (h : p.Quiet) (r : Record) : p.expand m r = (p, [r]) := by
  simp [expand, expandWith_of_quiet m p.stages [r] h]

end Pipeline

end TransitFeed

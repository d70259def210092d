import TransitFeed.Proofs.Copy.Provenance
import TransitFeed.Config.Stage

/-!
# Redated feeds and the target window

A redating stage gives every calendar the whole target window, and replays every calendar
date on the target days that replay it; no other stage moves a date. Expansions do not
filter what they give, though: a stage that creates a calendar for the service of a
calendar date, placed before the redating, creates it with the calendar date's own date,
and the redating leaves the calendars it did not filter alone.

So with one redating stage, every calendar a copy hands its destination lies inside the
target window unless a creating stage placed before the redating made it, from the date of
a calendar date of the source; and every calendar date handed over with a date has it
inside the window: `copyFeed_keeps_dates_in_window`. With the creating stage placed first,
a copy does hand over a calendar outside the window:
`copyFeed_writes_calendar_outside_window`.
-/

namespace TransitFeed

namespace Record

@[simp] theorem setCell_cells_length (r : Record) (name : String) (c : Cell) :
    (r.setCell name c).cells.length = r.cells.length := by
  unfold setCell
  split <;> simp

/-- A fold of updates keeps what each update keeps. -/
theorem foldl_invariant {α β : Type} (g : Record → β) (f : Record → α → Record)
    (hf : ∀ r a, g (f r a) = g r) (xs : List α) (r : Record) : g (xs.foldl f r) = g r := by
  induction xs generalizing r with
  | nil => rfl
  | cons x xs ih => rw [List.foldl_cons, ih, hf]

/-- Setting the cell of a column that has one takes effect. -/
theorem cell_setCell_of_ne_none {r : Record} {name : String} (h : r.cell name ≠ none) (c : Cell) :
    (r.setCell name c).cell name = c := by
  rcases cell_setCell_self r name c with hset | ⟨-, hnone⟩
  · exact hset
  · exact absurd hnone h

/-- In a record with a cell per column, setting the cell of the column at position `i` takes
effect. -/
theorem cell_setCell_of_index {r : Record} (hfull : r.cells.length = r.kind.columns.length)
    {name : String} {i : Nat} (hidx : r.kind.columnIndex? name = some i) (c : Cell) :
    (r.setCell name c).cell name = c := by
  have hi : i < r.cells.length := by
    rw [hfull]
    have := (List.idxOf?_eq_some_iff.mp hidx).1
    simpa [Kind.columnNames] using this
  simp [setCell, cell, hidx, hi]

end Record

theorem Date.le_iff_day {a b : Date} : a ≤ b ↔ a.day ≤ b.day := Iff.rfl

namespace Redate

/-- A date inside the target window: from the first target day to the last. -/
def InWindow (d : Redate) (t : Date) : Prop := d.target ≤ t ∧ t ≤ d.targetEnd

theorem inWindow_iff (d : Redate) (t : Date) :
    d.InWindow t ↔ d.target.day ≤ t.day ∧ t.day ≤ d.target.day + (d.targetDays - 1) := Iff.rfl

/-- The dates replayed from a target day on lie in the window. -/
theorem replays_go_inWindow (d : Redate) (h : 0 < d.sourceDays) :
    ∀ (fuel : Nat) (o : Int), 0 ≤ o → ∀ t ∈ replays.go d o fuel h, d.InWindow t
  | 0, _, _, t, ht => by simp [replays.go] at ht
  | fuel + 1, o, ho, t, ht => by
    rw [replays.go] at ht
    split at ht
    · rename_i hlt
      rcases List.mem_cons.mp ht with rfl | ht
      · -- target day `o` of the window
        rw [inWindow_iff]
        simp only [shift]
        omega
      · exact replays_go_inWindow d h fuel (o + d.sourceDays) (by omega) t ht
    · simp at ht

/-- Every target date that replays a source date lies in the window. -/
theorem targetDates_inWindow (d : Redate) (s : Date) : ∀ t ∈ d.targetDates s, d.InWindow t := by
  intro t ht
  dsimp only [targetDates] at ht
  split at ht
  · simp at ht
  · rename_i hoff
    unfold replays at ht
    split at ht
    · exact replays_go_inWindow d _ _ _ (by simp at hoff; omega) t ht
    · simp at ht

/-- Setting both ends of a calendar with a cell per column gives it those ends. -/
theorem dates_setCell_ends {f : Record} (hkind : f.kind = .calendar)
    (hlen : f.cells.length = f.kind.columns.length) (a b : Date) :
    ((f.setCell "start_date" (some (.date a))).setCell "end_date" (some (.date b))).date? "start_date" = some a ∧
      ((f.setCell "start_date" (some (.date a))).setCell "end_date" (some (.date b))).date? "end_date" = some b := by
  have hstart : f.kind.columnIndex? "start_date" = some 8 := by rw [hkind]; decide
  have hend : (f.setCell "start_date" (some (.date a))).kind.columnIndex? "end_date" = some 9 := by
    rw [Record.setCell_kind, hkind]; decide
  have hne : "end_date" ≠ "start_date" := by decide
  constructor
  · simp only [Record.date?, Record.cell_setCell_of_ne _ _ hne, Record.cell_setCell_of_index hlen hstart]
  · simp only [Record.date?, Record.cell_setCell_of_index (by simpa using hlen) hend]

/-- A redated calendar starts on the first target day and ends on the last. -/
theorem calendar_dates (d : Redate) {c : Record} (hk : c.kind = .calendar)
    (hfull : c.cells.length = c.kind.columns.length) :
    (d.calendar c).date? "start_date" = some d.target ∧ (d.calendar c).date? "end_date" = some d.targetEnd := by
  unfold calendar
  -- the weekday flags are set first, on a record that keeps its kind and its cells
  refine dates_setCell_ends ?_ ?_ _ _
  · rw [Record.foldl_setCell_kind _ (fun _ _ => Record.setCell_kind _ _ _), hk]
  · rw [Record.foldl_setCell_kind _ (fun _ _ => Record.setCell_kind _ _ _),
      Record.foldl_invariant (·.cells.length) _ (fun _ _ => Record.setCell_cells_length _ _ _), hfull]

instance (d : Redate) (t : Date) : Decidable (d.InWindow t) := inferInstanceAs (Decidable (_ ∧ _))

/-- A calendar that runs inside the window: it starts and ends on days of the window. -/
def CalendarIn (d : Redate) (x : Record) : Prop :=
  (∃ t, x.date? "start_date" = some t ∧ d.InWindow t) ∧ ∃ t, x.date? "end_date" = some t ∧ d.InWindow t

/-- What the stages may make of a record `r`, as far as dates go: a calendar inside the window
or, when `early` holds, one created from the date of the calendar date `r`; and a calendar
date as `cd` says. -/
def Dated (d : Redate) (early : Prop) (r : Record) (cd : Record → Prop) (x : Record) : Prop :=
  (x.kind = .calendar → d.CalendarIn x ∨
      (early ∧ r.kind = .calendarDate ∧ x.date? "start_date" = r.date? "date" ∧
        x.date? "end_date" = r.date? "date")) ∧
    (x.kind = .calendarDate → cd x)

/-- A calendar date with no date, or with one inside the window. -/
def DateIn (d : Redate) (x : Record) : Prop := ∀ t, x.date? "date" = some t → d.InWindow t

end Redate

/-- A created calendar starts and ends on the date it was created with. -/
theorem Created.calendar_dates (id : String) (dt : Date) :
    (Created.calendar id dt).date? "start_date" = some dt ∧ (Created.calendar id dt).date? "end_date" = some dt := by
  unfold Created.calendar
  refine Redate.dates_setCell_ends (by simp [Record.empty]) ?_ _ _
  simp [Record.setEntityId, Kind.idColumn?, Record.empty]

namespace Stage

variable (m : IdMap)

@[simp] theorem name_filter (st : Stage) (r : Record) : (st.filter m r).1.name = st.name := by
  cases st <;> rfl

@[simp] theorem name_expand (st : Stage) (r : Record) : (st.expand m r).1.name = st.name := by
  cases st <;> rfl

@[simp] theorem name_expandAll : ∀ (st : Stage) (rs : List Record), (st.expandAll m rs).1.name = st.name
  | _, [] => rfl
  | st, r :: rs => by
    simp only [expandAll]
    rw [name_expandAll, name_expand]

/-- A redating keeps its state. -/
theorem expandAll_redate (d : Redate) : ∀ rs : List Record, ((Stage.redate d).expandAll m rs).1 = .redate d
  | [] => rfl
  | _ :: rs => expandAll_redate d rs

/-- A stage's filter only sets cells, so it keeps whatever setting a cell keeps. -/
theorem filter_invariant {β : Type} (g : Record → β) (hg : ∀ r name c, g (r.setCell name c) = g r)
    (st : Stage) (r : Record) : g (st.filter m r).2 = g r := by
  have hid : ∀ (x : Record) id, g (x.setEntityId id) = g x := fun x id => by
    unfold Record.setEntityId
    split
    · exact hg _ _ _
    · rfl
  have hzone : ∀ pre (x : Record) column, g (Prefixes.prefixCell pre x column) = g x :=
    fun pre x column => by
      rcases Prefixes.prefixCell_cases pre x column with h | ⟨c, h⟩
      · rw [h]
      · rw [h, hg]
  cases st with
  | rename p =>
    simp only [filter, Prefixes.apply]
    repeat' split
    all_goals simp only [hid, hzone]
  | redate d =>
    simp only [filter, Redate.filter]
    split
    · unfold Redate.calendar
      simp only [hg]
      exact Record.foldl_invariant g _ (fun _ _ => hg _ _ _) _ _
    · repeat' split
      all_goals simp only [hg]
    · rfl
  | defaultAgency s =>
    simp only [filter, AgencyDefault.apply]
    repeat' split
    all_goals simp only [hg]
  | agencyTimezone s =>
    simp only [filter, AgencyZone.apply]
    repeat' split
    all_goals simp only [hg]
  | shapeDist w =>
    simp only [filter, Walk.apply]
    repeat' split
    all_goals simp only [hg]
  | network s | implicitService s => rfl

/-- A stage keeps the number of cells of a record. -/
theorem filter_cells_length (st : Stage) (r : Record) : (st.filter m r).2.cells.length = r.cells.length :=
  filter_invariant m (·.cells.length) Record.setCell_cells_length st r

/-- A stage other than a redating changes a calendar in its identifier at most. -/
theorem filter_cell_of_calendar (st : Stage) (hst : st.name ≠ "redate") {r : Record} (h : r.kind = .calendar)
    {name : String} (hid : name ≠ "service_id") : (st.filter m r).2.cell name = r.cell name := by
  cases st with
  | rename p =>
    simp only [filter, Prefixes.apply, h]
    repeat' split
    all_goals simp_all [Record.setEntityId, Kind.idColumn?, Record.cell_setCell_of_ne _ _ (Ne.symm hid)]
  | redate d => exact absurd rfl hst
  | defaultAgency s => simp [filter, AgencyDefault.apply, h]
  | agencyTimezone s => simp [filter, AgencyZone.apply, h]
  | shapeDist w => simp [filter, Walk.apply, h]
  | network s | implicitService s => rfl

variable {m} {d : Redate} {early : Prop} {r : Record} {cd : Record → Prop}

/-- A stage other than a redating keeps what the dates of the records it is given say: it
moves no date, and a calendar it creates for a calendar date takes that date, which the
hypothesis `hcreate` places. -/
theorem dated_expand {st : Stage} (hst : st.name ≠ "redate")
    (hcreate : st.name = "implicit_service" → ∀ x dt, x.kind = .calendarDate → cd x →
      x.date? "date" = some dt → d.InWindow dt ∨ (early ∧ r.kind = .calendarDate ∧ some dt = r.date? "date"))
    {x : Record} (hx : d.Dated early r cd x) : ∀ o ∈ (st.expand m x).2.getD [x], d.Dated early r cd o := by
  cases st with
  | redate d' => exact absurd rfl hst
  | network s =>
    simp only [expand, Created.networks]
    split
    · split
      · simpa using hx
      · intro o ho
        rcases List.mem_pair.mp ho with rfl | rfl
        · exact ⟨fun h => by simp at h, fun h => by simp at h⟩
        · exact hx
    · simpa using hx
  | implicitService s =>
    simp only [expand, Created.services]
    split
    · rename_i hk
      split
      · simpa using hx
      · split
        · rename_i dt hdt
          intro o ho
          rcases List.mem_pair.mp ho with rfl | rfl
          · -- the created calendar starts and ends on the calendar date's date
            obtain ⟨hs, he⟩ := Created.calendar_dates (x.str "service_id") dt
            refine ⟨fun _ => ?_, fun h => by simp at h⟩
            rcases hcreate rfl x dt hk (hx.2 hk) hdt with hin | ⟨hearly, hr, hrd⟩
            · exact .inl ⟨⟨dt, hs, hin⟩, dt, he, hin⟩
            · exact .inr ⟨hearly, hr, hs.trans hrd, he.trans hrd⟩
          · exact hx
        · simpa using hx
    · simpa using hx
  | rename _ | defaultAgency _ | agencyTimezone _ | shapeDist _ => simpa [expand] using hx

/-- The redating replays every calendar date with a date on days of the window, and keeps the
other records. -/
theorem dated_expand_redate {x : Record} (hx : d.Dated early r cd x) :
    ∀ o ∈ ((Stage.redate d).expand m x).2.getD [x], d.Dated early r d.DateIn o := by
  simp only [expand, Redate.expand]
  split
  · rename_i t hk hdate
    intro o ho
    simp only [Option.getD_some, List.mem_map] at ho
    obtain ⟨t', ht', rfl⟩ := ho
    have hcell : x.cell "date" ≠ none := by
      intro h
      simp [Record.date?, h] at hdate
    refine ⟨fun h => by simp [hk] at h, fun _ t'' h'' => ?_⟩
    rw [Record.date?, Record.cell_setCell_of_ne_none hcell] at h''
    cases h''
    exact Redate.targetDates_inWindow d t t' ht'
  · rename_i hnot
    intro o ho
    rw [Option.getD_none, List.mem_singleton] at ho
    subst ho
    exact ⟨hx.1, fun hk t ht => absurd ht (hnot t hk)⟩

variable (m)

/-- A stage's expansion over records in order keeps a property that every expansion keeps, for
every state of the stage that a property `S` of states, kept by expanding, allows. -/
theorem forall_expandAll {P Q : Record → Prop} (S : Stage → Prop) (hS : ∀ st x, S st → S (st.expand m x).1)
    (hstep : ∀ st x, S st → P x → ∀ o ∈ (st.expand m x).2.getD [x], Q o) :
    ∀ (st : Stage) (rs : List Record), S st → (∀ x ∈ rs, P x) → ∀ o ∈ (st.expandAll m rs).2, Q o
  | _, [], _, _ => by simp [expandAll]
  | st, x :: rs, hst, hrs => by
    simp only [expandAll, List.mem_append]
    rintro o (ho | ho)
    · exact hstep st x hst (hrs x List.mem_cons_self) o ho
    · exact forall_expandAll S hS hstep _ rs (hS st x hst) (fun y hy => hrs y (List.mem_cons_of_mem _ hy)) o ho

end Stage

namespace Pipeline

variable (m : IdMap)

/-- The expansions of stages that each keep a property keep it. -/
theorem forall_expandWith {P : Record → Prop} (S : Stage → Prop) (hS : ∀ st x, S st → S (st.expand m x).1)
    (hstep : ∀ st x, S st → P x → ∀ o ∈ (st.expand m x).2.getD [x], P o) :
    ∀ (stages : List Stage) (rs : List Record), (∀ st ∈ stages, S st) → (∀ x ∈ rs, P x) →
      ∀ o ∈ (expandWith m stages rs).2, P o
  | [], _, _, hrs => hrs
  | st :: rest, rs, hss, hrs => by
    simp only [expandWith]
    exact forall_expandWith S hS hstep rest _ (fun st' h => hss st' (List.mem_cons_of_mem _ h))
      (Stage.forall_expandAll m S hS hstep st rs (hss st List.mem_cons_self) hrs)

theorem filterWith_append (A B : List Stage) (r : Record) :
    filterWith m (A ++ B) r = ((filterWith m A r).1 ++ (filterWith m B (filterWith m A r).2).1,
      (filterWith m B (filterWith m A r).2).2) := by
  induction A generalizing r with
  | nil => rfl
  | cons st A ih => simp only [List.cons_append, filterWith, ih, List.cons_append]

theorem expandWith_append (A B : List Stage) (rs : List Record) :
    expandWith m (A ++ B) rs = ((expandWith m A rs).1 ++ (expandWith m B (expandWith m A rs).2).1,
      (expandWith m B (expandWith m A rs).2).2) := by
  induction A generalizing rs with
  | nil => rfl
  | cons st A ih => simp only [List.cons_append, expandWith, ih, List.cons_append]

theorem map_name_filterWith : ∀ (stages : List Stage) (r : Record),
    (filterWith m stages r).1.map Stage.name = stages.map Stage.name
  | [], _ => rfl
  | st :: rest, r => by
    simp only [filterWith, List.map_cons, Stage.name_filter]
    rw [map_name_filterWith rest]

theorem map_name_expandWith : ∀ (stages : List Stage) (rs : List Record),
    (expandWith m stages rs).1.map Stage.name = stages.map Stage.name
  | [], _ => rfl
  | st :: rest, rs => by
    simp only [expandWith, List.map_cons, Stage.name_expandAll]
    rw [map_name_expandWith rest]

theorem filterWith_cells_length : ∀ (stages : List Stage) (r : Record),
    (filterWith m stages r).2.cells.length = r.cells.length
  | [], _ => rfl
  | st :: rest, r => by
    simp only [filterWith]
    rw [filterWith_cells_length rest, Stage.filter_cells_length]

theorem filterWith_cell_of_calendar {name : String} (hid : name ≠ "service_id") :
    ∀ (stages : List Stage), (∀ st ∈ stages, st.name ≠ "redate") → ∀ r : Record, r.kind = .calendar →
      (filterWith m stages r).2.cell name = r.cell name
  | [], _, _, _ => rfl
  | st :: rest, hs, r, h => by
    simp only [filterWith]
    rw [filterWith_cell_of_calendar hid rest (fun st' h' => hs st' (List.mem_cons_of_mem _ h')) _
      (by rw [Stage.filter_kind, h]), Stage.filter_cell_of_calendar m st (hs st List.mem_cons_self) h hid]

/-- The stages hold one redating stage, after stages named `before` and before stages named
`after`. -/
def RedatesOnce (d : Redate) (before after : List String) (p : Pipeline) : Prop :=
  ∃ A B, p.stages = A ++ .redate d :: B ∧ A.map Stage.name = before ∧ B.map Stage.name = after

variable {m} {d : Redate} {before after : List String}

namespace RedatesOnce

theorem filter {p : Pipeline} (h : p.RedatesOnce d before after) (r : Record) :
    (p.filter m r).1.RedatesOnce d before after := by
  obtain ⟨A, B, hp, hA, hB⟩ := h
  refine ⟨(filterWith m A r).1, (filterWith m B (d.filter (filterWith m A r).2)).1, ?_, ?_, ?_⟩
  · simp only [Pipeline.filter, hp, filterWith_append]
    rfl
  · rw [map_name_filterWith, hA]
  · rw [map_name_filterWith, hB]

theorem expand {p : Pipeline} (h : p.RedatesOnce d before after) (r : Record) :
    (p.expand m r).1.RedatesOnce d before after := by
  obtain ⟨A, B, hp, hA, hB⟩ := h
  refine ⟨(expandWith m A [r]).1,
    (expandWith m B ((Stage.redate d).expandAll m (expandWith m A [r]).2).2).1, ?_, ?_, ?_⟩
  · simp only [Pipeline.expand, hp, expandWith_append, expandWith, Stage.expandAll_redate]
  · rw [map_name_expandWith, hA]
  · rw [map_name_expandWith, hB]

/-- Every state the stages reach keeps the one redating where it was. -/
theorem of_reaches {p₀ p : Pipeline} (h₀ : p₀.RedatesOnce d before after) (h : p₀.Reaches p) :
    p.RedatesOnce d before after :=
  h.invariant _ h₀ (fun _ _ r hp => hp.filter r) (fun _ _ r hp => hp.expand r)

end RedatesOnce

/-- The filters of stages with one redating give a calendar with a cell per column the whole
window, and leave a calendar date as it is. -/
theorem dated_filter {p : Pipeline} (h : p.RedatesOnce d before after) (hafter : "redate" ∉ after)
    (hd : 1 ≤ d.targetDays) {r : Record} (hr : r.cells.length = r.kind.columns.length) (early : Prop) :
    d.Dated early r (fun x => r.kind = .calendarDate ∧ x.date? "date" = r.date? "date") (p.filter m r).2 := by
  refine ⟨fun hk => .inl ?_, fun hk => ?_⟩
  · obtain ⟨A, B, hp, -, hB⟩ := h
    have hBn : ∀ st ∈ B, st.name ≠ "redate" := fun st hst heq => hafter (hB ▸ List.mem_map.mpr ⟨st, hst, heq⟩)
    -- the stages before the redating keep the kind and the cells, the redating sets both ends
    set r₁ := (filterWith m A r).2
    have hk₁ : r₁.kind = .calendar := by
      rw [filterWith_kind]
      rwa [filter_kind] at hk
    have hsplit : (p.filter m r).2 = (filterWith m B (d.filter r₁)).2 := by
      simp only [Pipeline.filter, hp, filterWith_append]
      rfl
    have hcal : d.filter r₁ = d.calendar r₁ := by simp [Redate.filter, hk₁]
    obtain ⟨hs, he⟩ := d.calendar_dates hk₁ (by rw [filterWith_cells_length, filterWith_kind, hr])
    -- the stages after it keep the dates
    have hkeep : ∀ name, name ≠ "service_id" → (p.filter m r).2.date? name = (d.calendar r₁).date? name :=
      fun name hname => by
        rw [hsplit, Record.date?, Record.date?, filterWith_cell_of_calendar m hname B hBn _
          (by rw [Redate.filter_kind, hk₁]), hcal]
    have hfirst : d.InWindow d.target := by
      rw [Redate.inWindow_iff]
      omega
    have hlast : d.InWindow d.targetEnd := by
      rw [Redate.inWindow_iff]
      simp only [Redate.targetEnd, Redate.shift]
      omega
    exact ⟨⟨d.target, (hkeep _ (by decide)).trans hs, hfirst⟩, d.targetEnd, (hkeep _ (by decide)).trans he, hlast⟩
  · have hk' : r.kind = .calendarDate := by rwa [filter_kind] at hk
    rw [filter_of_calendarDate p hk']
    exact ⟨hk', rfl⟩

/-- With one redating, what the stages make of a record with a cell per column is, as far as
dates go: a calendar inside the window, or one created from the date of the calendar date by
a stage before the redating; a calendar date with its date inside the window. -/
theorem Makes.dated {p₀ : Pipeline} (hp₀ : p₀.RedatesOnce d before after) (hbefore : "redate" ∉ before)
    (hafter : "redate" ∉ after) (hd : 1 ≤ d.targetDays) {r out : Record}
    (hr : r.cells.length = r.kind.columns.length) (h : p₀.Makes r out) :
    d.Dated ("implicit_service" ∈ before) r d.DateIn out := by
  obtain ⟨p, m, hreach, hout⟩ := h
  have hp := hp₀.of_reaches hreach
  have hx := dated_filter (m := m) hp hafter hd hr ("implicit_service" ∈ before)
  obtain ⟨A, B, hstages, hA, hB⟩ := hp.filter (m := m) r
  -- the expansions run in three stretches: before the redating, the redating, after it
  rw [Pipeline.expand, hstages, expandWith_append] at hout
  simp only [expandWith] at hout
  have hbefore' : ∀ st ∈ A, st.name ∈ before := fun st hst => hA ▸ List.mem_map_of_mem hst
  have hafter' : ∀ st ∈ B, st.name ∈ after := fun st hst => hB ▸ List.mem_map_of_mem hst
  have h₁ := forall_expandWith m
    (P := d.Dated ("implicit_service" ∈ before) r fun x => r.kind = .calendarDate ∧ x.date? "date" = r.date? "date")
    (fun st => st.name ∈ before) (fun _ _ h => by simpa using h)
    (fun st x hst hx => Stage.dated_expand (fun heq => hbefore (heq ▸ hst))
      (fun himp _ dt _ hcd hdt => .inr ⟨himp ▸ hst, hcd.1, hdt.symm.trans hcd.2⟩) hx)
    A [(p.filter m r).2] hbefore' (by simpa using hx)
  have h₂ := Stage.forall_expandAll m (· = .redate d) (fun _ _ h => by subst h; rfl)
    (fun _ _ h hx => by subst h; exact Stage.dated_expand_redate hx) _ _ rfl h₁
  exact forall_expandWith m (fun st => st.name ∈ after) (fun _ _ h => by simpa using h)
    (fun st x hst hx => Stage.dated_expand (fun heq => hafter (heq ▸ hst))
      (fun _ _ dt _ hcd hdt => .inl (hcd dt hdt)) hx)
    B _ hafter' h₂ out hout

end Pipeline

namespace StageConfig

/-- A stage is built under the name of its configuration. -/
theorem build_name {c : StageConfig} {st : Stage} (h : c.build = .ok st) : st.name = c.name := by
  cases c with
  | redate start sd target td =>
    simp only [build] at h
    split at h
    · cases h
      rfl
    · cases h
  | _ => simp only [build, Except.ok.injEq] at h; subst h; rfl

/-- A redating is built only with a source and a target window of one day at least. -/
theorem build_redate {start target : Date} {sd td : Int} {st : Stage}
    (h : (StageConfig.redate start sd target td).build = .ok st) :
    st = .redate ⟨start, sd, target, td⟩ ∧ 1 ≤ td := by
  simp only [build, Redate.make?] at h
  split at h
  · rename_i hmake
    cases h
    split at hmake
    · cases hmake
    · rename_i hdays
      cases hmake
      simp only [Bool.or_eq_true, decide_eq_true_eq, not_or, not_lt] at hdays
      exact ⟨rfl, hdays.2⟩
  · cases h

theorem buildAll_cons_eq_ok {c : StageConfig} {rest : List StageConfig} {p : Pipeline} :
    buildAll (c :: rest) = .ok p ↔ ∃ st q, c.build = .ok st ∧ buildAll rest = .ok q ∧ p = ⟨st :: q.stages⟩ := by
  simp only [buildAll]
  cases hc : c.build <;> cases hr : buildAll rest <;>
    simp [bind, Except.bind, pure, Except.pure, eq_comm]

/-- The stages are built under the names of their configurations, in order. -/
theorem buildAll_names : ∀ {cs : List StageConfig} {p : Pipeline}, buildAll cs = .ok p →
    p.stages.map Stage.name = cs.map StageConfig.name
  | [], p, h => by
    simp only [buildAll, Except.ok.injEq] at h
    subst h
    rfl
  | c :: rest, p, h => by
    obtain ⟨st, q, hc, hq, rfl⟩ := buildAll_cons_eq_ok.mp h
    simp [build_name hc, buildAll_names hq]

/-- Building configurations one after the other builds each part. -/
theorem buildAll_append : ∀ {cs₁ cs₂ : List StageConfig} {p : Pipeline}, buildAll (cs₁ ++ cs₂) = .ok p →
    ∃ p₁ p₂, buildAll cs₁ = .ok p₁ ∧ buildAll cs₂ = .ok p₂ ∧ p.stages = p₁.stages ++ p₂.stages
  | [], _, p, h => ⟨{}, p, rfl, h, rfl⟩
  | c :: rest, cs₂, p, h => by
    obtain ⟨st, q, hc, hq, rfl⟩ := buildAll_cons_eq_ok.mp h
    obtain ⟨p₁, p₂, h₁, h₂, hstages⟩ := buildAll_append hq
    exact ⟨⟨st :: p₁.stages⟩, p₂, buildAll_cons_eq_ok.mpr ⟨st, p₁, hc, h₁, rfl⟩, h₂, by simp [hstages]⟩

/-- Stages built from configurations with one redating hold it once, between the stages of
the configurations around it, and its target window has a day at least. -/
theorem redatesOnce_of_buildAll {pre post : List StageConfig} {start target : Date} {sd td : Int}
    {p : Pipeline} (h : buildAll (pre ++ .redate start sd target td :: post) = .ok p) :
    p.RedatesOnce ⟨start, sd, target, td⟩ (pre.map name) (post.map name) ∧ 1 ≤ td := by
  obtain ⟨p₁, p₂, h₁, h₂, hstages⟩ := buildAll_append h
  obtain ⟨st, q, hst, hq, rfl⟩ := buildAll_cons_eq_ok.mp h₂
  obtain ⟨rfl, htd⟩ := build_redate hst
  exact ⟨⟨p₁.stages, q.stages, hstages, buildAll_names h₁, buildAll_names hq⟩, htd⟩

theorem eq_implicitService_of_name {c : StageConfig} (h : c.name = "implicit_service") : c = .implicitService := by
  cases c <;> simp_all [name]

end StageConfig

/-- Whatever the source, destination, options and preset map, a copy whose stages come from
configurations with one redating hands its destination calendars inside the target window,
except those that a stage creating calendars for calendar dates, placed before the
redating, made from the date of a calendar date of the source; and calendar dates whose date,
if they have one, lies inside the window. Records are taken as reading builds them, with a
cell per column. -/
theorem copyFeed_keeps_dates_in_window {σ : Type} (source : Source) (sink : Sink σ) (store : σ)
    (map : IdMap) (options : CopyOptions) (cancelled : Bool) {pre post : List StageConfig}
    {start target : Date} {sd td : Int} {p : Pipeline}
    (hbuild : StageConfig.buildAll (pre ++ .redate start sd target td :: post) = .ok p)
    (honce : ∀ c ∈ pre ++ post, c.name ≠ "redate")
    (hfull : ∀ r, source.HandsOut r → r.cells.length = r.kind.columns.length) :
    ∀ e ∈ (copyFeed source sink.logged (store, []) map p options cancelled).2.store.2,
      (e.kind = .calendar → (⟨start, sd, target, td⟩ : Redate).CalendarIn e ∨
        (.implicitService ∈ pre ∧ ∃ r, source.HandsOut r ∧ r.kind = .calendarDate ∧
          e.date? "start_date" = r.date? "date" ∧ e.date? "end_date" = r.date? "date")) ∧
      (e.kind = .calendarDate → ∀ t, e.date? "date" = some t → (⟨start, sd, target, td⟩ : Redate).InWindow t) := by
  intro e he
  obtain ⟨out, ⟨r, hr, hmakes⟩, lookup, hkeys⟩ :=
    (copyFeed_writes_stage_outputs source sink store map p options cancelled).log e he
  obtain ⟨hshape, htd⟩ := StageConfig.redatesOnce_of_buildAll hbuild
  have hnone : ∀ cs : List StageConfig, (∀ c ∈ cs, c.name ≠ "redate") → "redate" ∉ cs.map StageConfig.name :=
    fun cs hcs hmem => by
      obtain ⟨c, hc, hname⟩ := List.mem_map.mp hmem
      exact hcs c hc hname
  have hdated := hmakes.dated hshape (hnone pre fun c hc => honce c (List.mem_append_left _ hc))
    (hnone post fun c hc => honce c (List.mem_append_right _ hc)) htd (hfull r hr)
  -- remapping references keeps the kind and the dates
  have hk : e.kind = out.kind := Record.updateKeys_kind hkeys
  have hdate : ∀ name, name ∉ out.kind.references.map Prod.fst → e.date? name = out.date? name :=
    fun name h => by simp only [Record.date?, Record.cell_updateKeys_of_not_ref hkeys h]
  refine ⟨fun hc => ?_, fun hc t ht => ?_⟩
  · have hoc : out.kind = .calendar := hk ▸ hc
    simp only [Redate.CalendarIn]
    rw [hdate "start_date" (by rw [hoc]; decide), hdate "end_date" (by rw [hoc]; decide)]
    rcases hdated.1 hoc with hin | ⟨hearly, hrk, hs, hend⟩
    · exact .inl hin
    · obtain ⟨c, hc, hname⟩ := List.mem_map.mp hearly
      exact .inr ⟨StageConfig.eq_implicitService_of_name hname ▸ hc, r, hr, hrk, hs, hend⟩
  · have hoc : out.kind = .calendarDate := hk ▸ hc
    rw [hdate "date" (by rw [hoc]; decide)] at ht
    exact hdated.2 hoc t ht

/-- A record a feed in memory hands out is one of its records. -/
theorem MemoryFeed.mem_of_handsOut {f : MemoryFeed} {r : Record} (h : f.source.HandsOut r) :
    ∃ x ∈ f.collections, r ∈ x.2 := by
  rcases h with ⟨k, st, hread, hr⟩ | ⟨trips, st, hst, hr⟩
  · simp only [MemoryFeed.source, Except.ok.injEq, Option.map_eq_some_iff] at hread
    obtain ⟨rs, hrs, rfl⟩ := hread
    obtain ⟨l₁, l₂, hl, -⟩ := List.lookup_eq_some_iff.mp hrs
    obtain ⟨r', hr', he⟩ := List.mem_map.mp hr
    cases he
    exact ⟨(k, rs), by simp [hl], hr'⟩
  · obtain ⟨sts, hsts, hr', -⟩ := MemoryFeed.mem_stopTimes (Except.ok.inj hst) hr
    obtain ⟨l₁, l₂, hl, -⟩ := List.lookup_eq_some_iff.mp hsts
    exact ⟨(.stopTime, sts), by simp [hl], hr'⟩

/-- A calendar running every day of 2024, and a calendar date of a service it does not define,
on 2024-01-03. Days count from 1970-01-01: 2024-01-01 is day 19723. -/
def holidayFeed : MemoryFeed :=
  MemoryFeed.ofRecords [
    { kind := .calendar, line := some 2,
      cells := [some (.text "C"), some (.flag true), some (.flag true), some (.flag true),
        some (.flag true), some (.flag true), some (.flag true), some (.flag true),
        some (.date ⟨19723⟩), some (.date ⟨20088⟩)] },
    { kind := .calendarDate, line := some 2,
      cells := [some (.text "S"), some (.date ⟨19725⟩), some (.int 1)] }]

/-- The week from 2024-01-01, replayed over the two weeks from 2025-06-02 (day 20241). -/
def holidayRedating : StageConfig := .redate ⟨19723⟩ 7 ⟨20241⟩ 14

/-- The redating, then the stages that create networks and services, as the default expansions
place them. -/
def redatingFirst : Pipeline := ⟨[.redate ⟨⟨19723⟩, 7, ⟨20241⟩, 14⟩, .network {}, .implicitService {}]⟩

/-- Copying the small feed redated, with the stages that create networks and services after the
redating: calendars and calendar dates land inside the two target weeks. -/
theorem holidayFeed_copy_in_window :
    StageConfig.buildAll ([] ++ holidayRedating :: [.network, .implicitService]) = .ok redatingFirst ∧
      (∀ c ∈ ([] : List StageConfig) ++ [.network, .implicitService], c.name ≠ "redate") ∧
      (∀ r, holidayFeed.source.HandsOut r → r.cells.length = r.kind.columns.length) ∧
      ∀ e ∈ (copyFeed holidayFeed.source MemoryFeed.sink.logged ({}, []) IdMap.empty redatingFirst {}
          false).2.store.2,
        (e.kind = .calendar → (⟨⟨19723⟩, 7, ⟨20241⟩, 14⟩ : Redate).CalendarIn e ∨
          (StageConfig.implicitService ∈ ([] : List StageConfig) ∧ ∃ r, holidayFeed.source.HandsOut r ∧
            r.kind = .calendarDate ∧ e.date? "start_date" = r.date? "date" ∧
            e.date? "end_date" = r.date? "date")) ∧
        (e.kind = .calendarDate → ∀ t, e.date? "date" = some t →
          (⟨⟨19723⟩, 7, ⟨20241⟩, 14⟩ : Redate).InWindow t) := by
  have hbuild : StageConfig.buildAll ([] ++ holidayRedating :: [.network, .implicitService]) = .ok redatingFirst :=
    rfl
  have honce : ∀ c ∈ ([] : List StageConfig) ++ [.network, .implicitService], c.name ≠ "redate" := by decide
  have hfull : ∀ r, holidayFeed.source.HandsOut r → r.cells.length = r.kind.columns.length := by
    intro r hr
    obtain ⟨x, hx, hrx⟩ := MemoryFeed.mem_of_handsOut hr
    have hall : ∀ x ∈ holidayFeed.collections, ∀ r ∈ x.2, r.cells.length = r.kind.columns.length := by
      decide
    exact hall x hx r hrx
  exact ⟨hbuild, honce, hfull,
    copyFeed_keeps_dates_in_window holidayFeed.source MemoryFeed.sink {} IdMap.empty {} false hbuild honce hfull⟩

/-- The stages that create services placed before the redating: the calendar created for the
calendar date of 2024-01-03 keeps that date, outside the target weeks. -/
def implicitFirst : Pipeline := ⟨[.implicitService {}, .redate ⟨⟨19723⟩, 7, ⟨20241⟩, 14⟩]⟩

theorem copyFeed_writes_calendar_outside_window :
    StageConfig.buildAll [.implicitService, holidayRedating] = .ok implicitFirst ∧
      ∃ e ∈ (copyFeed holidayFeed.source MemoryFeed.sink.logged ({}, []) IdMap.empty implicitFirst {}
          false).2.store.2,
        e.kind = .calendar ∧ e.date? "start_date" = some ⟨19725⟩ ∧
          ¬(⟨⟨19723⟩, 7, ⟨20241⟩, 14⟩ : Redate).InWindow ⟨19725⟩ :=
  ⟨rfl, by decide +kernel⟩

end TransitFeed

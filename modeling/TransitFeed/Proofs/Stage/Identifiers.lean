import TransitFeed.Proofs.Feed.Remap

/-!
# Which identifiers the stages give out

Stages keep state from one record to the next; the states they go through from a start are
those reached by filtering and expanding records. Filtering and expanding keep every prefix
stage as it is, so the prefixes a pipeline puts before the identifiers of a collection are
those of its start, whatever records went through it.

A filter changes an identifier only by putting the prefixes of the record's collection in
front of it. An expansion does not filter again what it gives: the record itself, copies of
a calendar date for its service, and the records it creates, a network for the network a
route names and a calendar for the service of a calendar date, which take the bare name the
record gave. Main statement: `Pipeline.Makes.entityId_of_prefixesFor`.
-/

namespace TransitFeed

/-- A created network has the identifier it was created with. -/
theorem Created.network_entityId (id : String) : (network id).entityId = id := by
  have hidx : Kind.network.columnIndex? "network_id" = some 0 := by decide
  simp [network, Record.setEntityId, Record.entityId, Kind.idColumn?, Record.setCell, Record.str,
    Record.cell, Record.empty, hidx, Kind.columns, Cell.toText, FieldValue.toText]

/-- A created calendar has the identifier of the service it was created for. -/
theorem Created.calendar_entityId (id : String) (d : Date) : (calendar id d).entityId = id := by
  have hidx : Kind.calendar.columnIndex? "service_id" = some 0 := by decide
  have hstart : Kind.calendar.columnIndex? "start_date" = some 8 := by decide
  have hend : Kind.calendar.columnIndex? "end_date" = some 9 := by decide
  simp [calendar, Record.setEntityId, Record.entityId, Kind.idColumn?, Record.setCell, Record.str,
    Record.cell, Record.empty, hidx, hstart, hend, Kind.columns, Cell.toText, FieldValue.toText]

@[simp] theorem Created.network_kind (id : String) : (network id).kind = .network := by
  simp [network, Record.empty]

@[simp] theorem Created.calendar_kind (id : String) (d : Date) : (calendar id d).kind = .calendar := by
  simp [calendar, Record.empty]

/-- A calendar date has no identifier. -/
theorem Record.entityId_of_calendarDate {r : Record} (h : r.kind = .calendarDate) : r.entityId = "" := by
  simp [entityId, h, Kind.idColumn?]

namespace Stage

variable (m : IdMap) (c : Kind)

@[simp] theorem prefixFor?_filter (st : Stage) (r : Record) :
    (st.filter m r).1.prefixFor? c = st.prefixFor? c := by
  cases st <;> rfl

@[simp] theorem prefixFor?_expand (st : Stage) (r : Record) :
    (st.expand m r).1.prefixFor? c = st.prefixFor? c := by
  cases st <;> rfl

theorem prefixFor?_expandAll : ∀ (st : Stage) (rs : List Record),
    (st.expandAll m rs).1.prefixFor? c = st.prefixFor? c
  | _, [] => rfl
  | st, r :: rs => by
    simp only [expandAll]
    rw [prefixFor?_expandAll, prefixFor?_expand]

variable {m}

/-- A stage changes a route in its identifier and its agency at most. -/
theorem filter_cell_of_route (st : Stage) {r : Record} (h : r.kind = .route) {name : String}
    (hid : name ≠ "route_id") (hagency : name ≠ "agency_id") :
    (st.filter m r).2.cell name = r.cell name := by
  cases st with
  | rename p =>
    simp only [filter, Prefixes.apply, h]
    repeat' split
    all_goals simp_all [Record.setEntityId, Kind.idColumn?, Record.cell_setCell_of_ne _ _ (Ne.symm hid)]
  | redate d => simp [filter, Redate.filter, h]
  | defaultAgency s =>
    simp only [filter, AgencyDefault.apply, h]
    repeat' split
    all_goals simp [Record.cell_setCell_of_ne _ _ (Ne.symm hagency)]
  | agencyTimezone s => simp [filter, AgencyZone.apply, h]
  | shapeDist w => simp [filter, Walk.apply, h]
  | network s | implicitService s => rfl

/-- No stage changes a calendar date, which has no identifier. -/
theorem filter_of_calendarDate (st : Stage) {r : Record} (h : r.kind = .calendarDate) :
    (st.filter m r).2 = r := by
  have hid := Record.entityId_of_calendarDate h
  cases st with
  | rename p =>
    simp only [filter, Prefixes.apply, h]
    repeat' split
    all_goals simp_all
  | redate d => simp [filter, Redate.filter, h]
  | defaultAgency s => simp [filter, AgencyDefault.apply, h]
  | agencyTimezone s => simp [filter, AgencyZone.apply, h]
  | shapeDist w => simp [filter, Walk.apply, h]
  | network s | implicitService s => rfl

/-- What an expansion gives for a record: the record itself, a calendar date of the same
service, the network a route names, or a calendar for the service of a calendar date. -/
inductive Gives (r : Record) : Record → Prop
  | self : Gives r r
  | sameService {out : Record} : r.kind = .calendarDate → out.kind = .calendarDate →
      out.str "service_id" = r.str "service_id" → Gives r out
  | network : r.kind = .route → Gives r (Created.network (r.str "network_id"))
  | calendar (d : Date) : r.kind = .calendarDate → Gives r (Created.calendar (r.str "service_id") d)

/-- Expansions after expansions: what the second gives of what the first gave, the first could
have given. -/
theorem Gives.trans {r x y : Record} (hx : Gives r x) (hy : Gives x y) : Gives r y := by
  cases hx with
  | self => exact hy
  | sameService hr hx hsame =>
    cases hy with
    | self => exact .sameService hr hx hsame
    | sameService _ hy hsame' => exact .sameService hr hy (hsame'.trans hsame)
    | network hroute => simp [hx] at hroute
    | calendar d _ => rw [hsame]; exact .calendar d hr
  | network hr =>
    cases hy with
    | self => exact .network hr
    | sameService hx _ _ | network hx | calendar _ hx => simp at hx
  | calendar d hr =>
    cases hy with
    | self => exact .calendar d hr
    | sameService hx _ _ | network hx | calendar _ hx => simp at hx

/-- What a stage's expansion gives instead of a record. -/
theorem gives_of_expand {st : Stage} {r : Record} {outs : List Record}
    (h : (st.expand m r).2 = some outs) : ∀ out ∈ outs, Gives r out := by
  cases st with
  | redate d =>
    simp only [expand, Redate.expand] at h
    split at h
    · rename_i hk _
      cases h
      intro out hout
      obtain ⟨t, -, rfl⟩ := List.mem_map.mp hout
      have hdate : "date" ≠ "service_id" := by decide
      exact .sameService hk (by simp [hk]) (by simp [Record.str, Record.cell_setCell_of_ne _ _ hdate])
    · cases h
  | network s =>
    simp only [expand, Created.networks] at h
    split at h
    · rename_i id hk hcell
      split at h
      · cases h
      · cases h
        -- the created network is named by the route's network column
        have hname : r.str "network_id" = id := by simp [Record.str, hcell, Cell.toText, FieldValue.toText]
        intro out hout
        rcases List.mem_pair.mp hout with rfl | rfl
        · rw [← hname]
          exact .network hk
        · exact .self
    · cases h
  | implicitService s =>
    simp only [expand, Created.services] at h
    split at h
    · rename_i hk
      split at h
      · cases h
      · split at h
        · cases h
          intro out hout
          rcases List.mem_pair.mp hout with rfl | rfl
          · exact .calendar _ hk
          · exact .self
        · cases h
    · cases h
  | rename _ | defaultAgency _ | agencyTimezone _ | shapeDist _ => cases h

theorem gives_of_mem_expandAll : ∀ (st : Stage) (rs : List Record) (out : Record),
    out ∈ (st.expandAll m rs).2 → ∃ r ∈ rs, Gives r out
  | _, [], _, h => by simp [expandAll] at h
  | st, r :: rs, out, h => by
    simp only [expandAll, List.mem_append] at h
    rcases h with h | h
    · -- given for the first record, or the record itself when the stage keeps it
      refine ⟨r, List.mem_cons_self, ?_⟩
      cases he : (st.expand m r).2 with
      | none =>
        rw [he, Option.getD_none, List.mem_singleton] at h
        exact h ▸ .self
      | some outs =>
        rw [he, Option.getD_some] at h
        exact gives_of_expand he out h
    · obtain ⟨x, hx, hgives⟩ := gives_of_mem_expandAll _ rs out h
      exact ⟨x, List.mem_cons_of_mem _ hx, hgives⟩

end Stage

namespace Pipeline

variable (m : IdMap)

/-- The prefixes the stages of a pipeline put before the filled identifiers of a collection,
in stage order. -/
def prefixesFor (p : Pipeline) (c : Kind) : List String := p.stages.filterMap (Stage.prefixFor? c)

theorem filterMap_prefixFor?_filterWith (c : Kind) : ∀ (stages : List Stage) (r : Record),
    (filterWith m stages r).1.filterMap (Stage.prefixFor? c) = stages.filterMap (Stage.prefixFor? c)
  | [], _ => rfl
  | st :: rest, r => by
    simp only [filterWith, List.filterMap_cons, Stage.prefixFor?_filter]
    rw [filterMap_prefixFor?_filterWith c rest]

theorem filterMap_prefixFor?_expandWith (c : Kind) : ∀ (stages : List Stage) (rs : List Record),
    (expandWith m stages rs).1.filterMap (Stage.prefixFor? c) = stages.filterMap (Stage.prefixFor? c)
  | [], _ => rfl
  | st :: rest, rs => by
    simp only [expandWith, List.filterMap_cons, Stage.prefixFor?_expandAll]
    rw [filterMap_prefixFor?_expandWith c rest]

@[simp] theorem prefixesFor_filter (p : Pipeline) (r : Record) (c : Kind) :
    (p.filter m r).1.prefixesFor c = p.prefixesFor c :=
  filterMap_prefixFor?_filterWith m c p.stages r

@[simp] theorem prefixesFor_expand (p : Pipeline) (r : Record) (c : Kind) :
    (p.expand m r).1.prefixesFor c = p.prefixesFor c :=
  filterMap_prefixFor?_expandWith m c p.stages [r]

/-- The filters put the prefixes of the record's collection in front of a filled identifier. -/
theorem filter_entityId_eq (p : Pipeline) (r : Record) :
    (p.filter m r).2.entityId = (p.prefixesFor r.kind).foldl Prefixes.prefixId r.entityId :=
  filterWith_entityId_eq m p.stages r

variable {m}

theorem filterWith_cell_of_route {name : String} (hid : name ≠ "route_id") (hagency : name ≠ "agency_id") :
    ∀ (stages : List Stage) (r : Record), r.kind = .route →
      (filterWith m stages r).2.cell name = r.cell name
  | [], _, _ => rfl
  | st :: rest, r, h => by
    simp only [filterWith]
    rw [filterWith_cell_of_route hid hagency rest _ (by rw [Stage.filter_kind, h]),
      Stage.filter_cell_of_route st h hid hagency]

/-- The filters change a route in its identifier and its agency at most. -/
theorem filter_cell_of_route (p : Pipeline) {r : Record} (h : r.kind = .route) {name : String}
    (hid : name ≠ "route_id") (hagency : name ≠ "agency_id") : (p.filter m r).2.cell name = r.cell name :=
  filterWith_cell_of_route hid hagency p.stages r h

theorem filterWith_of_calendarDate : ∀ (stages : List Stage) (r : Record), r.kind = .calendarDate →
    (filterWith m stages r).2 = r
  | [], _, _ => rfl
  | st :: rest, r, h => by
    simp only [filterWith]
    rw [filterWith_of_calendarDate rest _ (by rw [Stage.filter_kind, h]), Stage.filter_of_calendarDate st h]

/-- The filters leave a calendar date as it is. -/
theorem filter_of_calendarDate (p : Pipeline) {r : Record} (h : r.kind = .calendarDate) :
    (p.filter m r).2 = r :=
  filterWith_of_calendarDate p.stages r h

theorem gives_of_mem_expandWith : ∀ (stages : List Stage) (rs : List Record) (out : Record),
    out ∈ (expandWith m stages rs).2 → ∃ r ∈ rs, Stage.Gives r out
  | [], _, out, h => ⟨out, h, .self⟩
  | st :: rest, rs, out, h => by
    simp only [expandWith] at h
    -- through the later stages back to what this stage gave, then back to the records
    obtain ⟨x, hx, hxy⟩ := gives_of_mem_expandWith rest _ out h
    obtain ⟨r, hr, hrx⟩ := Stage.gives_of_mem_expandAll st rs x hx
    exact ⟨r, hr, hrx.trans hxy⟩

/-- What a pipeline's expansions give instead of a record. -/
theorem gives_of_mem_expand (p : Pipeline) {r out : Record} (h : out ∈ (p.expand m r).2) :
    Stage.Gives r out := by
  obtain ⟨x, hx, hgives⟩ := gives_of_mem_expandWith p.stages [r] out h
  rw [List.mem_singleton.mp hx] at hgives
  exact hgives

/-- The states stages go through from a start, as they filter and expand records. -/
inductive Reaches (p₀ : Pipeline) : Pipeline → Prop
  | refl : Reaches p₀ p₀
  | filter {p : Pipeline} (m : IdMap) (r : Record) : Reaches p₀ p → Reaches p₀ (p.filter m r).1
  | expand {p : Pipeline} (m : IdMap) (r : Record) : Reaches p₀ p → Reaches p₀ (p.expand m r).1

/-- A property of the start that filtering and expanding keep holds of every state reached. -/
theorem Reaches.invariant {p₀ p : Pipeline} (Inv : Pipeline → Prop) (h₀ : Inv p₀)
    (hfilter : ∀ p m r, Inv p → Inv (p.filter m r).1)
    (hexpand : ∀ p m r, Inv p → Inv (p.expand m r).1) (h : p₀.Reaches p) : Inv p := by
  induction h with
  | refl => exact h₀
  | filter m r _ ih => exact hfilter _ m r ih
  | expand m r _ ih => exact hexpand _ m r ih

/-- Every state reached puts the prefixes of the start before the identifiers of a collection. -/
theorem Reaches.prefixesFor {p₀ p : Pipeline} (h : p₀.Reaches p) (c : Kind) :
    p.prefixesFor c = p₀.prefixesFor c :=
  h.invariant (fun p => p.prefixesFor c = p₀.prefixesFor c) rfl
    (fun p m r hp => (prefixesFor_filter m p r c).trans hp)
    (fun p m r hp => (prefixesFor_expand m p r c).trans hp)

/-- What stages make of a record in a state they reach: the records that their expansions
give for the record their filters changed. -/
def Makes (p₀ : Pipeline) (r out : Record) : Prop :=
  ∃ p m, p₀.Reaches p ∧ out ∈ ((p.filter m r).1.expand m (p.filter m r).2).2

/-- When the stages prefix a collection with one prefix, what they make of a record with a
filled identifier of that collection carries the prefix before the identifier of the record;
unless an expansion created it, as a network that a route names or as a calendar for the
service of a calendar date, with the bare name the route or the calendar date gave. -/
theorem Makes.entityId_of_prefixesFor {p₀ : Pipeline} {c : Kind} {pre : String}
    (hpre : p₀.prefixesFor c = [pre]) {r out : Record} (h : p₀.Makes r out) (hkind : out.kind = c)
    (hid : out.entityId ≠ "") :
    (r.kind = c ∧ out.entityId = pre ++ r.entityId) ∨
      (c = .network ∧ r.kind = .route ∧ out.entityId = r.str "network_id") ∨
      (c = .calendar ∧ r.kind = .calendarDate ∧ out.entityId = r.str "service_id") := by
  obtain ⟨p, m, hreach, hout⟩ := h
  have hp : p.prefixesFor c = [pre] := (hreach.prefixesFor c).trans hpre
  have hfkind : (p.filter m r).2.kind = r.kind := filter_kind m p r
  cases gives_of_mem_expand _ hout with
  | self =>
    -- the record the filters changed, whose identifier took the one prefix
    have hrk : r.kind = c := hfkind ▸ hkind
    have hfid := filter_entityId_eq m p r
    rw [hrk, hp] at hfid
    have hr : r.entityId ≠ "" := by
      intro hr
      simp [hfid, Prefixes.prefixId, hr] at hid
    exact .inl ⟨hrk, by simp [hfid, Prefixes.prefixId, hr]⟩
  | sameService _ hcd _ => exact absurd (Record.entityId_of_calendarDate hcd) hid
  | network hroute =>
    -- a created network, named by the route's network column, which the filters keep
    have hnet : (p.filter m r).2.str "network_id" = r.str "network_id" := by
      rw [Record.str, filter_cell_of_route p (hfkind ▸ hroute) (by decide) (by decide), ← Record.str]
    refine .inr (.inl ⟨by simpa using hkind.symm, hfkind ▸ hroute, ?_⟩)
    rw [Created.network_entityId, hnet]
  | calendar d hcd =>
    -- a created calendar, for the service of a calendar date that the filters kept as it is
    have hdate : (p.filter m r).2 = r := filter_of_calendarDate p (hfkind ▸ hcd)
    refine .inr (.inr ⟨by simpa using hkind.symm, hfkind ▸ hcd, ?_⟩)
    rw [Created.calendar_entityId, hdate]

end Pipeline

end TransitFeed

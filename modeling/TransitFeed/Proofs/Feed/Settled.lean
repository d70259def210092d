import TransitFeed.Proofs.Feed.KeyUpdate
import TransitFeed.Proofs.Feed.Closed

/-!
# Records remapped through an identity map

A destination that keeps identifiers as they are fills the identifier map of a copy with
entries that send an identifier to itself, and knows the empty identifier of the single agency
only. Remapping a record through such a map changes one kind of cell: an optional reference
that holds the empty text becomes absent. Everything else stays, so a well-formed record that
passes its checks stays so, and a record with no such cell, a *settled* one, comes back as it
was.
-/

namespace TransitFeed

/-- A lookup that gives back every identifier it knows as it is, and knows the empty identifier
of agencies only. -/
def IdentityLookup (lookup : KeyLookup) : Prop :=
  ∀ t o n, lookup t o = some n → n = o ∧ (o = "" → t = .agency)

/-- Whether a cell holds the empty text. -/
def Cell.isEmptyText : Cell → Bool
  | some (.text s) => s.isEmpty
  | _ => false

theorem Cell.isEmptyText_iff {c : Cell} : Cell.isEmptyText c = true ↔ c = some (.text "") := by
  cases c with
  | none => simp [Cell.isEmptyText]
  | some v => cases v <;> simp [Cell.isEmptyText]

namespace Column

/-- The cell a remapping through an identity map leaves: an optional reference holding the
empty text becomes absent, any other cell stays. -/
def settle (col : Column) (c : Cell) : Cell :=
  if col.target.isSome && col.optional && Cell.isEmptyText c then none else c

/-- An optional reference after settling holds no empty text. -/
theorem settle_ne_empty (col : Column) (c : Cell) (hopt : (col.target.isSome && col.optional) = true) :
    col.settle c ≠ some (.text "") := by
  unfold settle
  split
  · simp
  · rename_i hc
    rw [hopt, Bool.true_and] at hc
    exact fun h => hc (Cell.isEmptyText_iff.mpr h)

/-- Settling keeps every cell but an optional reference holding the empty text. -/
theorem settle_of_not {col : Column} {c : Cell}
    (h : ¬((col.target.isSome && col.optional) = true ∧ c = some (.text ""))) : col.settle c = c := by
  unfold settle
  split
  · rename_i hc
    simp only [Bool.and_eq_true] at hc
    exact absurd ⟨by simp [hc.1.1, hc.1.2], Cell.isEmptyText_iff.mp hc.2⟩ h
  · rfl

end Column

namespace Kind

/-- Optional references are never required and carry neither a range nor codes. -/
theorem optional_reference_plain (k : Kind) : ∀ col ∈ k.columns, col.target.isSome = true →
    col.optional = true → col.required = false ∧ col.range = none ∧ col.allowed = [] := by
  cases k <;> decide

/-- Only the column named `agency_id` refers to agencies. -/
theorem name_of_target_agency (k : Kind) : ∀ col ∈ k.columns, col.target = some .agency →
    col.name = "agency_id" := by
  cases k <;> decide

/-- The references of a stop time are plain columns. -/
theorem stopTime_references_plain : ∀ col ∈ Kind.stopTime.columns, col.target.isSome = true →
    col.optional = false := by
  decide

end Kind

namespace Record

/-- No optional reference of the record holds the empty text. -/
def RefsSettled (r : Record) : Prop :=
  ∀ col ∈ r.kind.columns, col.target.isSome = true → col.optional = true → r.cell col.name ≠ some (.text "")

/-- A stop time is always settled: its references are plain columns. -/
theorem refsSettled_of_stopTime {r : Record} (hk : r.kind = .stopTime) : r.RefsSettled := by
  intro col hcol href hopt
  rw [hk] at hcol
  simp [Kind.stopTime_references_plain col hcol href] at hopt

/-- The cell of the column at a position is the cell at that position. -/
theorem cell_of_getElem? (r : Record) {i : Nat} {col : Column} (h : r.kind.columns[i]? = some col) :
    r.cell col.name = r.cells[i]?.getD none := by
  obtain ⟨hi, hget⟩ := List.getElem?_eq_some_iff.mp h
  obtain ⟨j, hj, hcol, hidx⟩ := Kind.columnIndex?_of_mem (hget ▸ List.getElem_mem hi)
  -- the column found by name is the one at this position, since names do not repeat
  have hji : j = i := by
    have hj' : j < r.kind.columnNames.length := by simpa [Kind.columnNames] using hj
    have hi' : i < r.kind.columnNames.length := by simpa [Kind.columnNames] using hi
    have hnames : r.kind.columnNames[j] = r.kind.columnNames[i] := by
      simp [Kind.columnNames, hcol, hget]
    exact r.kind.columnNames_nodup.getElem_inj_iff.mp hnames
  subst hji
  simp [cell, hidx]

/-- Two records of one kind, line, extra columns and reading problems, each with a cell for
every column, are one record when every column has the same cell in both. -/
theorem eq_of_cell_eq {r e : Record} (hk : e.kind = r.kind) (hline : e.line = r.line)
    (hextra : e.extra = r.extra) (hload : e.loadIssues = r.loadIssues)
    (hr : r.cells.length = r.kind.columns.length) (he : e.cells.length = e.kind.columns.length)
    (hcell : ∀ col ∈ r.kind.columns, e.cell col.name = r.cell col.name) : e = r := by
  have hcells : e.cells = r.cells := by
    refine List.ext_getElem (by rw [he, hr, hk]) fun i hie hir => ?_
    have hi : i < r.kind.columns.length := hr ▸ hir
    have hcol : r.kind.columns[i]? = some r.kind.columns[i] := List.getElem?_eq_getElem hi
    have hget := hcell _ (List.getElem_mem hi)
    have hcol' : e.kind.columns[i]? = some r.kind.columns[i] := by rw [hk]; exact hcol
    rw [cell_of_getElem? r hcol, cell_of_getElem? e hcol'] at hget
    simpa [hie, hir] using hget
  cases e
  cases r
  simp_all

/-- Whether a column is filled in depends on its cell only. -/
theorem isPresent_congr {r e : Record} (hk : e.kind = r.kind) {name : String}
    (hc : e.cell name = r.cell name) : e.isPresent name = r.isPresent name := by
  unfold isPresent
  rw [hk, hc]

/-- The rules of a kind read no reference to an agency: two records of one kind that agree on
every other column break the same rules. -/
theorem kindRules_congr {r e : Record} (hk : e.kind = r.kind)
    (hc : ∀ name, name ≠ "agency_id" → e.cell name = r.cell name) : e.kindRules = r.kindRules := by
  unfold kindRules
  rw [hk]
  cases r.kind
  case feedInfo =>
    unfold feedInfoRules date?
    rw [hc "feed_start_date" (by decide), hc "feed_end_date" (by decide)]
  case stop =>
    unfold stopRules isPresent int? str
    rw [hk, hc "parent_station" (by decide), hc "location_type" (by decide), hc "stop_id" (by decide),
      hc "stop_name" (by decide), hc "stop_lat" (by decide), hc "stop_lon" (by decide)]
  case calendar =>
    unfold calendarRules date?
    rw [hc "start_date" (by decide), hc "end_date" (by decide)]
  case route =>
    unfold routeRules isPresent int?
    rw [hk, hc "route_short_name" (by decide), hc "route_long_name" (by decide), hc "route_type" (by decide)]
  case stopTime =>
    unfold stopTimeRules isPresent int? time?
    rw [hk, hc "arrival_time" (by decide), hc "departure_time" (by decide), hc "timepoint" (by decide)]
  case frequency =>
    unfold frequencyRules time?
    rw [hc "start_time" (by decide), hc "end_time" (by decide)]
  case transfer =>
    show e.transferRules = r.transferRules
    have hint : e.int? "transfer_type" = r.int? "transfer_type" := by
      unfold int?
      rw [hc _ (by decide)]
    unfold transferRules
    rw [hint]
    by_cases ht : (r.int? "transfer_type").getD 0 ≤ 3
    · simp only [ht, if_true, isPresent_congr hk (hc "from_stop_id" (by decide)),
        isPresent_congr hk (hc "to_stop_id" (by decide))]
    · simp only [ht, if_false, isPresent_congr hk (hc "from_trip_id" (by decide)),
        isPresent_congr hk (hc "to_trip_id" (by decide))]
  case fareAttribute =>
    unfold fareRules str
    rw [hc "price" (by decide), hc "currency_type" (by decide)]
  all_goals rfl
/-- Checks that append what each step finds find nothing when they start from nothing and no
step finds anything. -/
theorem foldl_append_eq_nil_of {α : Type} (g : List Issue → α → List Issue) :
    ∀ (l : List α), (∀ x ∈ l, g [] x = []) → l.foldl (fun acc x => acc ++ g acc x) [] = []
  | [], _ => rfl
  | x :: l, h => by
    rw [List.foldl_cons, h x List.mem_cons_self, List.nil_append]
    exact foldl_append_eq_nil_of g l fun y hy => h y (List.mem_cons_of_mem _ hy)

variable {lookup : KeyLookup} {r e : Record}

/-- Through an identity map, a remapping settles every cell of a well-formed record. -/
theorem Remapped.cell_eq_settle (h : r.Remapped lookup e) (hid : IdentityLookup lookup) (hs : r.Shaped)
    {col : Column} (hcol : col ∈ r.kind.columns) : e.cell col.name = col.settle (r.cell col.name) := by
  cases ht : col.target with
  | none => simp [h.kept col hcol (.inl ht), Column.settle, ht]
  | some t =>
    by_cases hp : Cell.present col.optional (r.cell col.name) = true
    · obtain ⟨new, hnew, hcell⟩ := h.replaced col hcol t ht hp
      obtain ⟨rfl, -⟩ := hid t _ new hnew
      -- a filled reference holds a text, which the identity gives back
      have htext := Kind.type_eq_text_of_target _ _ hcol (by simp [ht])
      cases hc : r.cell col.name with
      | none => simp [hc, Cell.present] at hp
      | some v =>
        have hv := hs.admits hcol hc
        rw [htext] at hv
        cases v with
        | text x =>
          rw [hcell]
          simp [str, hc, Column.settle, ht, Cell.isEmptyText, Cell.toText, FieldValue.toText]
        | _ => simp [FieldType.admits] at hv
    · -- a reference left empty is kept, and is no empty text unless it is plain
      rw [h.kept col hcol (.inr (by simpa using hp))]
      refine (Column.settle_of_not fun hsettle => hp ?_).symm
      obtain ⟨hopt, hempty⟩ := hsettle
      simp only [Bool.and_eq_true] at hopt
      simp [hempty, hopt.2, Cell.present]

/-- A record remapped through an identity map is well formed. -/
theorem Remapped.shaped (h : r.Remapped lookup e) (hid : IdentityLookup lookup) (hs : r.Shaped) :
    e.Shaped := by
  refine ⟨by rw [h.length, hs.1, h.kind], fun p hp => ?_⟩
  obtain ⟨col, c⟩ := p
  have hcol : col ∈ r.kind.columns := h.kind ▸ (List.of_mem_zip hp).1
  rw [← cell_of_mem_zip hp, h.cell_eq_settle hid hs hcol]
  unfold Column.settle
  split
  · rfl
  · exact hs.2 _ (hs.mem_zip hcol)

/-- A record remapped through an identity map is settled. -/
theorem Remapped.refsSettled (h : r.Remapped lookup e) (hid : IdentityLookup lookup) (hs : r.Shaped) :
    e.RefsSettled := fun col hcol href hopt => by
  rw [h.cell_eq_settle hid hs (h.kind ▸ hcol)]
  exact col.settle_ne_empty _ (by simp [href, hopt])

/-- A settled, well-formed record remapped through an identity map comes back as it was. -/
theorem Remapped.eq_self (h : r.Remapped lookup e) (hid : IdentityLookup lookup) (hs : r.Shaped)
    (hsettled : r.RefsSettled) : e = r := by
  refine eq_of_cell_eq h.kind h.line h.extra h.loadIssues hs.1 (h.shaped hid hs).1 fun col hcol => ?_
  rw [h.cell_eq_settle hid hs hcol]
  refine Column.settle_of_not fun hsettle => ?_
  obtain ⟨hopt, hempty⟩ := hsettle
  simp only [Bool.and_eq_true] at hopt
  exact hsettled col hcol hopt.1 hopt.2 hempty

/-- Through an identity map, a cell changes only in a reference to agencies. -/
theorem Remapped.cell_eq_of_ne_agency (h : r.Remapped lookup e) (hid : IdentityLookup lookup)
    (hs : r.Shaped) {name : String} (hname : name ≠ "agency_id") : e.cell name = r.cell name := by
  cases hidx : r.kind.columnIndex? name with
  | none =>
    have hidx' : e.kind.columnIndex? name = none := by rw [h.kind, hidx]
    simp [cell, hidx, hidx']
  | some i =>
    -- the name is the name of a column, whose cell is settled
    have hnames := columnNames_of_columnIndex hidx
    simp only [Kind.columnNames, List.getElem?_map, Option.map_eq_some_iff] at hnames
    obtain ⟨col, hget, rfl⟩ := hnames
    have hcol : col ∈ r.kind.columns := List.mem_of_getElem? hget
    rw [h.cell_eq_settle hid hs hcol]
    refine Column.settle_of_not fun hsettle => hname ?_
    obtain ⟨hopt, hempty⟩ := hsettle
    simp only [Bool.and_eq_true] at hopt
    -- an optional reference holding the empty text resolved, so it refers to agencies
    obtain ⟨t, ht⟩ := Option.isSome_iff_exists.mp hopt.1
    have hp : Cell.present col.optional (r.cell col.name) = true := by
      simp [hempty, hopt.2, Cell.present]
    obtain ⟨new, hnew, -⟩ := h.replaced col hcol t ht hp
    have hstr : r.str col.name = "" := by simp [str, hempty, Cell.toText, FieldValue.toText]
    rw [hstr] at hnew
    have hag : t = .agency := (hid t "" new hnew).2 rfl
    exact Kind.name_of_target_agency r.kind col hcol (hag ▸ ht)

/-- A record that passes its checks still passes them once remapped through an identity map. -/
theorem Remapped.errors_eq_nil (h : r.Remapped lookup e) (hid : IdentityLookup lookup) (hs : r.Shaped)
    (he : r.errors = []) : e.errors = [] := by
  simp only [errors, List.map_eq_nil_iff, List.append_eq_nil_iff] at he ⊢
  obtain ⟨hload, hcols⟩ := foldl_append_eq_nil
    (fun found (p : Column × Cell) => columnIssues found p.1 p.2) _ _ he.1
  refine ⟨?_, ?_⟩
  · rw [h.loadIssues, hload]
    refine foldl_append_eq_nil_of (fun found (p : Column × Cell) => columnIssues found p.1 p.2) _
      fun p hp => ?_
    obtain ⟨col, c⟩ := p
    have hcol : col ∈ r.kind.columns := h.kind ▸ (List.of_mem_zip hp).1
    dsimp only
    rw [← cell_of_mem_zip hp, h.cell_eq_settle hid hs hcol]
    unfold Column.settle
    split
    · -- an optional reference left absent is no problem
      rename_i hempty
      simp only [Bool.and_eq_true] at hempty
      obtain ⟨hreq, -, -⟩ := Kind.optional_reference_plain _ col hcol hempty.1.1 hempty.1.2
      simp [columnIssues, Cell.present, hreq]
    · exact hcols _ (hs.mem_zip hcol)
  · rw [kindRules_congr h.kind fun name hname => h.cell_eq_of_ne_agency hid hs hname]
    exact he.2

end Record

end TransitFeed

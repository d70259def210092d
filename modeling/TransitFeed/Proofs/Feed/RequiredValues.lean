import TransitFeed.Feed.Load
import TransitFeed.Feed.Check
import TransitFeed.Proofs.Copy.Expansions

/-!
# Missing required values

A required value can be missed in two places. Reading a row flags a blank value at once for a
column whose cell is filled in before anything is read (a number, a flag: their default is
filled in); the checks of a record flag a required column whose cell is not filled in (an
optional column, or a text, left empty). Between the two every required column of the header
that the row leaves blank is reported (`load_reports_missing_required`), save one case: a
row too short to reach the column leaves a column with a filled-in default as it was, and
nothing flags it.

A header row that is accepted names no column twice, so a column is read from one position of
the row only; every other position leaves its cell alone.
-/

namespace TransitFeed

namespace ColumnMap

/-- The scan of the headers sends each header to its column and fails on a repeated one. -/
theorem build_scan_ok {k : Kind} {file : String} :
    ∀ {seen headers : List String} {cols : List (Option Nat)}, build.scan k file seen headers = .ok cols →
      cols = headers.map k.columnIndex? ∧ headers.Nodup ∧ ∀ h ∈ headers, h ∉ seen
  | seen, [], cols, h => by
    cases h
    exact ⟨rfl, List.nodup_nil, fun _ hh => absurd hh List.not_mem_nil⟩
  | seen, x :: rest, cols, h => by
    unfold build.scan at h
    split at h
    · cases h
    · rename_i hx
      cases hs : build.scan k file (x :: seen) rest with
      | error e => rw [hs] at h; cases h
      | ok tail =>
        rw [hs] at h
        cases h
        obtain ⟨rfl, hnd, hnot⟩ := build_scan_ok hs
        have hxseen : x ∉ seen := fun hmem => hx (List.elem_iff.mpr hmem)
        refine ⟨rfl, List.nodup_cons.mpr ⟨fun hmem => hnot x hmem (List.mem_cons_self ..), hnd⟩, ?_⟩
        intro h hh
        rcases List.mem_cons.mp hh with rfl | hh
        · exact hxseen
        · exact fun hmem => hnot h hh (List.mem_cons_of_mem _ hmem)

/-- An accepted header row names no column twice, and the map sends each header to its column
of the kind. -/
theorem build_ok {k : Kind} {file : String} {headers : List String} {m : ColumnMap}
    (h : build k file headers = .ok m) :
    m.kind = k ∧ m.headers = headers ∧ m.columns = headers.map k.columnIndex? ∧ headers.Nodup := by
  unfold build at h
  split at h
  · cases h
  · rename_i cols hscan
    split at h
    · cases h
    · cases h
      obtain ⟨hcols, hnd, -⟩ := build_scan_ok hscan
      exact ⟨rfl, rfl, hcols, hnd⟩

/-- In an accepted header row only the header naming a column sends a position to it, since no
header repeats. -/
theorem eq_of_getElem?_columns {k : Kind} {file : String} {headers : List String} {m : ColumnMap}
    (hm : build k file headers = .ok m) {name : String} {f i j : Nat}
    (hi : headers[i]? = some name) (hidx : k.columnIndex? name = some f)
    (hj : m.columns[j]? = some (some f)) : j = i := by
  obtain ⟨-, -, hcols, hnd⟩ := build_ok hm
  rw [hcols, List.getElem?_map] at hj
  cases hhj : headers[j]? with
  | none => simp [hhj] at hj
  | some name' =>
    simp only [hhj, Option.map_some, Option.some.injEq] at hj
    have hname : name' = name := by
      have h1 := Record.columnNames_of_columnIndex hj
      have h2 := Record.columnNames_of_columnIndex hidx
      rw [h1] at h2
      exact Option.some.inj h2
    have hjlt : j < headers.length := (List.getElem?_eq_some_iff.mp hhj).1
    exact (List.getElem?_inj hjlt hnd).mp (by rw [hhj, hi, hname])

end ColumnMap

namespace Record

/-- Reading a value adds to the problems found so far and takes none away. -/
theorem issues_prefix_readValue (m : ColumnMap) (st : Reading) (i : Nat) (raw : String) :
    st.issues <+: (readValue m st i raw).issues := by
  unfold readValue
  dsimp only
  split
  · split
    · exact List.prefix_refl _
    · split
      · split
        · exact List.prefix_append _ _
        · exact List.prefix_refl _
      · split
        · exact List.prefix_refl _
        · exact List.prefix_append _ _
  · exact List.prefix_refl _
  · exact List.prefix_append _ _

/-- Reading values adds to the problems found so far and takes none away. -/
theorem issues_prefix_foldl (m : ColumnMap) :
    ∀ (xs : List (String × Nat)) (st : Reading),
      st.issues <+: (xs.foldl (fun st x => readValue m st x.2 x.1) st).issues
  | [], _ => List.prefix_refl _
  | x :: xs, st => (issues_prefix_readValue m st x.2 x.1).trans (issues_prefix_foldl m xs _)

/-- Reading a value at a position that is not a column's leaves that column's cell. -/
theorem cells_readValue_of_ne (m : ColumnMap) (st : Reading) {i f : Nat} (raw : String)
    (hi : m.columns[i]? ≠ some (some f)) :
    (readValue m st i raw).record.cells[f]? = st.record.cells[f]? := by
  unfold readValue
  dsimp only
  split
  · rename_i f' hf'
    have hne : f' ≠ f := fun h => hi (h ▸ hf')
    split
    · rfl
    · split
      · split <;> rfl
      · split
        · exact List.getElem?_set_ne hne
        · rfl
  · rfl
  · rfl

/-- A blank value at a column's position leaves its cell, and is a required problem when the
column is required and its cell is filled in so far. -/
theorem readValue_blank (m : ColumnMap) (st : Reading) {i f : Nat} {col : Column} {raw : String}
    (hi : m.columns[i]? = some (some f)) (hf : m.kind.columns[f]? = some col)
    (hblank : (trimBlanks raw).isEmpty = true) :
    (readValue m st i raw).record.cells[f]? = st.record.cells[f]? ∧
      (col.required = true → Cell.present col.optional ((st.record.cells[f]?).getD none) = true →
        Issue.required col.name ∈ (readValue m st i raw).issues) := by
  unfold readValue
  simp only [hi, hf, hblank, if_true]
  split
  · exact ⟨rfl, fun _ _ => List.mem_append_right _ (List.mem_singleton_self _)⟩
  · rename_i h
    refine ⟨rfl, fun hreq hp => ?_⟩
    simp [hreq, hp] at h

/-- Reading values that leave a column blank wherever they reach it keeps the column's cell,
and flags the column when it is required, filled in at the start, and reached. -/
theorem foldl_readValue_blank (m : ColumnMap) {f : Nat} {col : Column} (hf : m.kind.columns[f]? = some col) :
    ∀ (xs : List (String × Nat)), (∀ x ∈ xs, m.columns[x.2]? = some (some f) → (trimBlanks x.1).isEmpty = true) →
      ∀ st : Reading,
        (xs.foldl (fun st x => readValue m st x.2 x.1) st).record.cells[f]? = st.record.cells[f]? ∧
        (col.required = true → Cell.present col.optional ((st.record.cells[f]?).getD none) = true →
          (∃ x ∈ xs, m.columns[x.2]? = some (some f)) →
            Issue.required col.name ∈ (xs.foldl (fun st x => readValue m st x.2 x.1) st).issues)
  | [], _, st => ⟨rfl, fun _ _ ⟨_, hx, _⟩ => absurd hx List.not_mem_nil⟩
  | x :: xs, hblank, st => by
    have hrest := foldl_readValue_blank m hf xs (fun y hy => hblank y (List.mem_cons_of_mem _ hy))
    -- the head keeps the cell: it is either another column's value or a blank one
    have hhead : (readValue m st x.2 x.1).record.cells[f]? = st.record.cells[f]? := by
      by_cases hx : m.columns[x.2]? = some (some f)
      · exact (readValue_blank m st hx hf (hblank x (List.mem_cons_self ..) hx)).1
      · exact cells_readValue_of_ne m st x.1 hx
    obtain ⟨hcells, hissue⟩ := hrest (readValue m st x.2 x.1)
    rw [List.foldl_cons, hcells, hhead]
    refine ⟨rfl, fun hreq hp ⟨y, hy, hyf⟩ => ?_⟩
    by_cases hx : m.columns[x.2]? = some (some f)
    · -- the head is the column's blank value: flagged there, and problems are never taken away
      have hnow := (readValue_blank m st hx hf (hblank x (List.mem_cons_self ..) hx)).2 hreq hp
      exact (issues_prefix_foldl m xs _).subset hnow
    · rcases List.mem_cons.mp hy with rfl | hy
      · exact absurd hyf hx
      · exact hissue hreq (hhead ▸ hp) ⟨y, hy, hyf⟩

/-- Reading a value keeps the kind of the record. -/
theorem kind_readValue (m : ColumnMap) (st : Reading) (i : Nat) (raw : String) :
    (readValue m st i raw).record.kind = st.record.kind := by
  unfold readValue
  dsimp only
  split
  · split
    · rfl
    · split
      · split <;> rfl
      · split <;> rfl
  · rfl
  · rfl

/-- Reading values never changes the kind of the record being read. -/
theorem kind_foldl_readValue (m : ColumnMap) :
    ∀ (xs : List (String × Nat)) (st : Reading),
      (xs.foldl (fun st x => readValue m st x.2 x.1) st).record.kind = st.record.kind
  | [], _ => rfl
  | x :: xs, st => (kind_foldl_readValue m xs _).trans (kind_readValue m st x.2 x.1)

/-- A record read from a row is of the kind of the header. -/
theorem kind_load (m : ColumnMap) (values : List String) (line : Option Nat) :
    (load m values line).kind = m.kind :=
  kind_foldl_readValue m values.zipIdx _

theorem cells_load (m : ColumnMap) (values : List String) (line : Option Nat) :
    (load m values line).cells =
      (values.zipIdx.foldl (fun st x => readValue m st x.2 x.1) { record := empty m.kind }).record.cells := rfl

theorem loadIssues_load (m : ColumnMap) (values : List String) (line : Option Nat) :
    (load m values line).loadIssues =
      (values.zipIdx.foldl (fun st x => readValue m st x.2 x.1) { record := empty m.kind }).issues.map
        (·.atLine line) := rfl

/-- The checks of the columns add to the problems found so far and take none away. -/
theorem prefix_foldl_columnIssues :
    ∀ (l : List (Column × Cell)) (acc : List Issue),
      acc <+: l.foldl (fun found p => found ++ columnIssues found p.1 p.2) acc
  | [], acc => List.prefix_refl acc
  | _ :: l, _ => (List.prefix_append _ _).trans (prefix_foldl_columnIssues l _)

/-- The problems met while reading a record are among its problems. -/
theorem mem_errors_of_mem_loadIssues (r : Record) {e : Issue} (he : e ∈ r.loadIssues) :
    e.atLine r.line ∈ r.errors :=
  List.mem_map_of_mem (List.mem_append_left _ ((prefix_foldl_columnIssues _ _).subset he))

/-- Once the checks of the columns pass a required column left blank, the problems found hold
one on that column. -/
theorem exists_field_foldl_columnIssues {col : Column} {c : Cell} (hreq : col.required = true)
    (hc : Cell.present col.optional c = false) :
    ∀ (l : List (Column × Cell)) (acc : List Issue), (col, c) ∈ l →
      ∃ e ∈ l.foldl (fun found p => found ++ columnIssues found p.1 p.2) acc, e.field = some col.name
  | [], _, hmem => absurd hmem List.not_mem_nil
  | p :: l, acc, hmem => by
    rcases List.mem_cons.mp hmem with rfl | hmem
    · rw [List.foldl_cons]
      -- the column's check either finds a problem on it already or adds the missing value
      by_cases hany : acc.any (·.field == some col.name) = true
      · obtain ⟨e, he, hfield⟩ := List.any_eq_true.mp hany
        exact ⟨e, (prefix_foldl_columnIssues l _).subset (List.mem_append_left _ he), by simpa using hfield⟩
      · refine ⟨Issue.required col.name, (prefix_foldl_columnIssues l _).subset ?_, rfl⟩
        refine List.mem_append_right _ ?_
        simp only [columnIssues, hany, hc, hreq]
        simp
    · exact exists_field_foldl_columnIssues hreq hc l _ hmem

/-- A required column that is not filled in is a problem of the record on that column. -/
theorem exists_error_of_absent (r : Record) {col : Column} {c : Cell}
    (hz : (col, c) ∈ r.kind.columns.zip r.cells) (hreq : col.required = true)
    (hc : Cell.present col.optional c = false) : ∃ e ∈ r.errors, e.field = some col.name := by
  obtain ⟨e, he, hfield⟩ := exists_field_foldl_columnIssues hreq hc _ r.loadIssues hz
  exact ⟨e.atLine r.line, List.mem_map_of_mem (List.mem_append_left _ he), by simp [hfield]⟩

end Record

open Record in
/-- A required column of the header that a row leaves blank is reported among the problems of
the record read from the row, when the row reaches the column or the column's cell starts out
empty; either way the record keeps the cell the column starts with. So a row too short to reach
a required number or flag, whose default is filled in from the start, is the one case left
unreported. -/
theorem load_reports_missing_required {k : Kind} {file : String} {headers : List String}
    {m : ColumnMap} (hm : ColumnMap.build k file headers = .ok m) (values : List String)
    (line : Option Nat) {col : Column} (hcol : col ∈ k.columns) (hreq : col.required = true)
    {i : Nat} (hi : headers[i]? = some col.name)
    (hblank : ∀ v, values[i]? = some v → (trimBlanks v).isEmpty = true) :
    (i < values.length ∨ Cell.present col.optional col.initial = false →
      ∃ e ∈ (load m values line).errors, e.field = some col.name) ∧
    (load m values line).cell col.name = col.initial := by
  obtain ⟨hkind, -, hcols, -⟩ := ColumnMap.build_ok hm
  obtain ⟨f, hf, hfcol, hidx⟩ := Kind.columnIndex?_of_mem hcol
  have hf' : m.kind.columns[f]? = some col := by rw [hkind, List.getElem?_eq_getElem hf, hfcol]
  have hmi : m.columns[i]? = some (some f) := by simp [hcols, hi, hidx]
  -- every value the row sends to the column stands at the column's own header, so is blank
  have hblank' : ∀ x ∈ values.zipIdx, m.columns[x.2]? = some (some f) → (trimBlanks x.1).isEmpty = true := by
    intro x hx hxf
    have hget := List.mem_zipIdx_iff_getElem?.mp hx
    rw [ColumnMap.eq_of_getElem?_columns hm hi hidx hxf] at hget
    exact hblank x.1 hget
  obtain ⟨hcell, hissue⟩ := foldl_readValue_blank m hf' values.zipIdx hblank' { record := empty m.kind }
  have hstart : (empty m.kind).cells[f]? = some col.initial := by
    simp [empty, hf', List.getElem?_map]
  have hfinal : (load m values line).cells[f]? = some col.initial := by
    rw [cells_load, hcell, hstart]
  have hkind' : (load m values line).kind = k := (kind_load m values line).trans hkind
  have hcellName : (load m values line).cell col.name = col.initial := by
    simp [cell, hkind', hidx, hfinal]
  refine ⟨fun hcase => ?_, hcellName⟩
  by_cases hp : Cell.present col.optional col.initial = true
  · -- the default is filled in: the row reaches the column, and the blank there is flagged
    have hlt : i < values.length := by
      rcases hcase with h | h
      · exact h
      · rw [hp] at h
        cases h
    have hmem : (values[i], i) ∈ values.zipIdx := List.mem_zipIdx_iff_getElem?.mpr (by simp [hlt])
    have hreq' := hissue hreq (by simpa [hstart] using hp) ⟨_, hmem, hmi⟩
    have hload : (Issue.required col.name).atLine line ∈ (load m values line).loadIssues := by
      rw [loadIssues_load]
      exact List.mem_map_of_mem hreq'
    exact ⟨_, mem_errors_of_mem_loadIssues _ hload, by simp [Issue.required]⟩
  · -- the cell starts out empty and stays so: the checks of the record flag it
    have hz : (col, col.initial) ∈ (load m values line).kind.columns.zip (load m values line).cells := by
      refine List.mem_of_getElem? (i := f) ?_
      rw [List.getElem?_zip_eq_some, hkind', List.getElem?_eq_getElem hf, hfcol, hfinal]
      exact ⟨rfl, rfl⟩
    exact exists_error_of_absent _ hz hreq (by simpa using hp)

/-- The header row of levels with their identifier and index, as matched. -/
def levelColumns : ColumnMap := ⟨.level, [some 0, some 1], ["level_id", "level_index"]⟩

theorem levelColumns_build :
    ColumnMap.build .level "levels.txt" ["level_id", "level_index"] = .ok levelColumns := rfl

/-- A level whose index is left blank is reported on level_index. -/
theorem blankLevelIndex_reported :
    ∃ e ∈ (Record.load levelColumns ["L", ""] (some 2)).errors, e.field = some "level_index" :=
  (load_reports_missing_required levelColumns_build ["L", ""] (some 2)
    (show (Column.plain "level_index" .real).req ∈ Kind.level.columns from
      List.mem_cons_of_mem _ (List.mem_cons_self ..)) rfl (i := 1) rfl
    (fun v hv => by
      obtain rfl : "" = v := Option.some.inj hv
      rfl)).1 (.inl (by decide))

/-- A row of levels too short to reach level_index leaves the index at the 0 it starts with,
and the record read has no problem at all. -/
theorem load_short_row_skips_required_index :
    ["level_id", "level_index"][1]? = some "level_index" ∧ ["L"].length ≤ 1 ∧
      (Record.load levelColumns ["L"] (some 2)).errors = [] := by
  decide

end TransitFeed

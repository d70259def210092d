import Mathlib.Data.List.TakeDrop
import Mathlib.Data.List.TakeWhile
import TransitFeed.Proofs.Store.RowIds

/-!
# Row ids read back from the relational store

Writing a record into the relational store gives it the next row id of its collection's
table: the records of a collection get the row ids 1, 2, 3, … in the order they are written,
and every write of a record built for its kind succeeds. Reading the store back resolves a
row id to the identifier of its row by grouping the table on the identifier column, each
group standing for its least row id.

Together: the row id a record was written with reads back as its identifier exactly when no
earlier record of its collection had the same identifier, and as nothing otherwise. A
reference to a record whose identifier had been written before dangles once read back.
-/

namespace TransitFeed

open Sql

/-! ### Names of the tables and their columns -/

namespace Sql

/-- A name without capitals is its own lower case form. -/
theorem toLower_eq_self {s : String} (h : s.toList.all (fun c => !c.isUpper) = true) :
    s.toLower = s := by
  have hlower : s.toLower = s.map Char.toLower := rfl
  rw [← String.toList_inj, hlower, String.toList_map]
  calc s.toList.map Char.toLower = s.toList.map id := List.map_congr_left fun c hc => by
        have hc : c.isUpper = false := by simpa using List.all_eq_true.mp h c hc
        have hupper : c.isUpper = decide (c.val ≥ 'A'.val ∧ c.val ≤ 'Z'.val) := rfl
        rw [hupper] at hc
        exact dif_neg (of_decide_eq_false hc)
    _ = s.toList := List.map_id _

/-- Two names without capitals are the same but for case only when they are equal. -/
theorem sameName_iff {a b : String} (ha : a.toLower = a) (hb : b.toLower = b) :
    sameName a b = true ↔ a = b := by
  simp [sameName, ha, hb]

/-- In a table whose column names differ and have no capitals, a column is found by its name at
its place. -/
theorem Table.columnIndex?_getElem {t : Table} (hlower : ∀ n ∈ t.columnNames, n.toLower = n)
    (hnodup : t.columnNames.Nodup) {i : Nat} (hi : i < t.columnNames.length) :
    t.columnIndex? t.columnNames[i] = some i := by
  have hname : ∀ c ∈ t.columns, c.name.toLower = c.name := fun c hc =>
    hlower c.name (List.mem_map_of_mem hc)
  have hmem : t.columnNames[i] ∈ t.columnNames := List.getElem_mem hi
  rw [Table.columnIndex?, List.findIdx?_eq_some_iff_getElem]
  have hic : i < t.columns.length := by simpa [Table.columnNames] using hi
  refine ⟨hic, ?_, fun j hj => ?_⟩
  · simp [sameName, Table.columnNames]
  · have hjc : j < t.columnNames.length := by omega
    have hne : t.columnNames[j] ≠ t.columnNames[i] := fun he =>
      absurd (hnodup.getElem_inj_iff.mp he) (by omega)
    rw [sameName_iff (hname _ (List.getElem_mem _)) (hlower _ hmem)]
    simpa [Table.columnNames] using hne

end Sql

namespace Kind

/-- The columns of the table of every collection: the row id, the collection's columns and the
extra columns. -/
theorem table_columnNames (k : Kind) :
    k.table.columnNames = "id" :: k.columnNames ++ [extraColumn] := by
  simp [Kind.table, Table.columnNames, List.map_map, Function.comp_def]

/-- The names of the tables' columns have no capitals. -/
theorem table_columnNames_lower : ∀ k : Kind, ∀ n ∈ k.table.columnNames, n.toLower = n := by
  have hall : ∀ k ∈ Kind.all, ∀ n ∈ k.table.columnNames, n.toList.all (fun c => !c.isUpper) = true := by
    decide +kernel
  exact fun k n hn => Sql.toLower_eq_self (hall k (Kind.mem_all k) n hn)

/-- No two columns of a table share a name. -/
theorem table_columnNames_nodup : ∀ k : Kind, k.table.columnNames.Nodup := by
  have hall : ∀ k ∈ Kind.all, k.table.columnNames.Nodup := by decide +kernel
  exact fun k => hall k (Kind.mem_all k)

/-- Different collections have tables of different names, whatever the case. -/
theorem tableName_sameName : ∀ {k k' : Kind}, sameName k.tableName k'.tableName = true → k = k' := by
  have hall : ∀ k ∈ Kind.all, ∀ k' ∈ Kind.all, sameName k.tableName k'.tableName = true → k = k' := by
    decide +kernel
  intro k k' h
  exact hall k (Kind.mem_all k) k' (Kind.mem_all k') h

/-- The row id is the first column of every table. -/
theorem table_columnIndex?_id (k : Kind) : k.table.columnIndex? "id" = some 0 := by
  have h := Sql.Table.columnIndex?_getElem (table_columnNames_lower k) (table_columnNames_nodup k)
    (i := 0) (by simp [table_columnNames])
  simpa [table_columnNames] using h

/-- A column of a collection stands one place further in its table. -/
theorem table_columnIndex? (k : Kind) {i : Nat} (hi : i < (k.columnNames ++ [extraColumn]).length) :
    k.table.columnIndex? (k.columnNames ++ [extraColumn])[i] = some (i + 1) := by
  have h := Sql.Table.columnIndex?_getElem (table_columnNames_lower k) (table_columnNames_nodup k)
    (i := i + 1) (by simp [table_columnNames] at hi ⊢; omega)
  simpa [table_columnNames] using h

end Kind

/-! ### Inserting rows -/

namespace Sql.Table

/-- The values of a row as a table stores them, each converted to its column's affinity. -/
def stored (t : Table) (row : List SqlValue) : List SqlValue :=
  (t.columns.zip row).map fun x => x.1.affinity.apply x.2

theorem le_foldl_max (rows : List (Int × List SqlValue)) (m : Int) :
    m ≤ rows.foldl (fun m x => max m x.1) m ∧
      ∀ x ∈ rows, x.1 ≤ rows.foldl (fun m x => max m x.1) m := by
  induction rows generalizing m with
  | nil => simp
  | cons x rows ih =>
    obtain ⟨hm, hrows⟩ := ih (max m x.1)
    refine ⟨le_trans (le_max_left _ _) hm, fun y hy => ?_⟩
    rcases List.mem_cons.mp hy with rfl | hy
    · exact le_trans (le_max_right _ _) hm
    · exact hrows y hy

theorem foldl_max_le {rows : List (Int × List SqlValue)} {m b : Int} (hm : m ≤ b)
    (h : ∀ x ∈ rows, x.1 ≤ b) : rows.foldl (fun m x => max m x.1) m ≤ b := by
  induction rows generalizing m with
  | nil => exact hm
  | cons x rows ih =>
    exact ih (max_le hm (h x List.mem_cons_self)) fun y hy => h y (List.mem_cons_of_mem _ hy)

/-- A row id given by the table is above every row id it holds. -/
theorem lt_nextRowid (t : Table) : ∀ x ∈ t.rows, x.1 < t.nextRowid := fun x hx => by
  have hle := (le_foldl_max t.rows 0).2 x hx
  simp only [nextRowid]
  split <;> omega

/-- A row whose row id is above every other goes last. -/
theorem place_of_lt {rows : List (Int × List SqlValue)} {row : Int × List SqlValue}
    (h : ∀ x ∈ rows, x.1 < row.1) : place rows row = rows ++ [row] := by
  have htake : rows.takeWhile (fun x => decide (x.1 < row.1)) = rows :=
    List.takeWhile_eq_self_iff.mpr fun x hx => by simpa using h x hx
  have hdrop : rows.dropWhile (fun x => decide (x.1 < row.1)) = [] :=
    List.dropWhile_eq_nil_iff.mpr fun x hx => by simpa using h x hx
  simp only [place, List.span_eq_takeWhile_dropWhile, htake, hdrop]

/-- Inserting a row whose row id cell is nothing into a table whose first column holds the row
id: the row gets the next row id in that cell and goes last. -/
theorem insert_of_null {t : Table} {row : List SqlValue} (hid : t.idColumn = some 0)
    (hnull : (t.stored row).getD 0 .null = .null) :
    t.insert row = .ok ({ t with
      rows := t.rows ++ [(t.nextRowid, (t.stored row).set 0 (.integer t.nextRowid))]
      sequence := max t.sequence t.nextRowid }, t.nextRowid) := by
  have hfresh : (t.rows.any fun x => x.1 == t.nextRowid) = false := by
    simpa using fun x hx => (lt_nextRowid t x hx).ne
  simp only [insert, hid, stored] at hnull ⊢
  rw [hnull]
  simp only [pure, Except.pure, bind, Except.bind, hfresh]
  rw [place_of_lt fun x hx => lt_nextRowid t x hx]
  rfl

end Sql.Table

/-- A step of a computation that may fail, taken for each member of a list, that never fails is
a map. -/
theorem mapM_except_eq {α β ε : Type} {f : α → Except ε β} (g : α → β) :
    ∀ {l : List α}, (∀ a ∈ l, f a = .ok (g a)) → l.mapM f = .ok (l.map g)
  | [], _ => rfl
  | a :: l, h => by
    rw [List.mapM_cons, h a List.mem_cons_self, mapM_except_eq g fun b hb => h b (List.mem_cons_of_mem _ hb)]
    rfl

/-- Placing values at the positions 1, 2, 3, … of a row that starts with an empty cell. -/
theorem map_range_idxOf? (values : List SqlValue) :
    (List.range (values.length + 1)).map (fun i =>
      match ((List.range values.length).map (· + 1)).idxOf? i with
      | some j => values.getD j .null
      | none => .null) = .null :: values := by
  refine List.ext_getElem (by simp) fun i hi _ => ?_
  cases i with
  | zero =>
    have hnone : ((List.range values.length).map (· + 1)).idxOf? 0 = none := by simp
    simp [hnone]
  | succ i =>
    have hi' : i < values.length := by simp at hi; omega
    have hsome : ((List.range values.length).map (· + 1)).idxOf? (i + 1) = some i := by
      rw [List.idxOf?_eq_some_iff]
      exact ⟨by simpa using hi', by simp, fun j hj => by simp; omega⟩
    simp [hsome, hi']

/-- Writing the values of a collection's columns and of its extra columns, by name, into a table
with the columns of the collection's table: the row id cell is left empty and the values follow
in order. -/
theorem Database.insert_named {db : Database} {k : Kind} {T : Table}
    (ht : db.table? k.tableName = some T) (hcols : T.columns = k.table.columns) {values : List SqlValue}
    (hlen : values.length = k.columnNames.length + 1) :
    db.insert k.tableName (some (k.columnNames ++ [extraColumn])) values =
      (T.insert (.null :: values)).map fun x => (db.setTable x.1, x.2) := by
  have hnames : (k.columnNames ++ [extraColumn]).length = values.length := by simp [hlen]
  have hcount : T.columns.length = values.length + 1 := by
    rw [hcols, hlen]
    simp [Kind.table, Kind.columnNames]
  have hindex : ∀ n, T.columnIndex? n = k.table.columnIndex? n := fun n => by
    simp only [Table.columnIndex?, hcols]
  -- each named column is found one place after its place among the names
  have hpositions : (k.columnNames ++ [extraColumn]).map (fun n => (k.table.columnIndex? n).getD 0) =
      (List.range values.length).map (· + 1) := by
    refine List.ext_getElem (by simp [hlen]) fun i hi _ => ?_
    have hi' : i < (k.columnNames ++ [extraColumn]).length := by simpa using hi
    rw [List.getElem_map, Kind.table_columnIndex? k hi', List.getElem_map, List.getElem_range]
    rfl
  simp only [Database.insert, ht, hnames, ne_eq, not_true_eq_false, if_false]
  rw [mapM_except_eq (fun n => (k.table.columnIndex? n).getD 0) ?_]
  · rw [hpositions, hcount]
    -- the row is the empty row id cell followed by the values, whichever way its match is spelled
    exact congrArg (fun row => (T.insert row).map fun x => (db.setTable x.1, x.2)) (map_range_idxOf? values)
  · intro n hn
    obtain ⟨i, hi, rfl⟩ := List.getElem_of_mem hn
    rw [hindex, Kind.table_columnIndex? k hi]
    rfl

/-- The table of a collection stores a row of its cells as it is: the row id cell in an integer
column, the collection's cells in columns of no affinity, the extra columns as a text. -/
theorem Kind.table_stored (k : Kind) {cells : List SqlValue} (hlen : cells.length = k.columnNames.length)
    {extra : SqlValue} (hextra : extra = .null ∨ ∃ s, extra = .text s) :
    k.table.stored (.null :: (cells ++ [extra])) = .null :: (cells ++ [extra]) := by
  have hnames : (k.columnNames.map fun n => ({ name := n } : ColumnDef)).length = cells.length := by
    simp [hlen]
  have hmiddle : ((k.columnNames.map fun n => ({ name := n } : ColumnDef)).zip cells).map
      (fun x => x.1.affinity.apply x.2) = cells := by
    rw [List.zip_map_left, List.map_map]
    have hsnd : ∀ x : String × SqlValue, Affinity.apply .blob x.2 = x.2 := fun x => by
      cases x.2 <;> rfl
    simp only [Function.comp_def, Prod.map, hsnd, id]
    exact List.map_snd_zip (by simp [hlen])
  have hlast : Affinity.apply .text extra = extra := by
    rcases hextra with rfl | ⟨s, rfl⟩ <;> rfl
  simp only [Sql.Table.stored, Kind.table, List.cons_append, List.nil_append, List.zip_cons_cons,
    List.map_cons, List.zip_append hnames, List.map_append, hmiddle, hlast, List.zip_nil_left,
    List.map_nil]
  rfl

/-! ### What writing leaves in the store -/

namespace Record

/-- The cell the store keeps for the extra columns of a record: nothing when there are none. -/
def extraCell (r : Record) : SqlValue := if r.extra.isEmpty then .null else .text (extraJson r.extra)

/-- The row the store keeps for a record written with a row id. -/
def storedRow (r : Record) (rowid : Int) : List SqlValue := .integer rowid :: (r.sqlRow ++ [r.extraCell])

theorem extraCell_cases (r : Record) : r.extraCell = .null ∨ ∃ s, r.extraCell = .text s := by
  unfold extraCell
  split
  · exact .inl rfl
  · exact .inr ⟨_, rfl⟩

theorem sqlRow_length {r : Record} (hr : r.Shaped) : r.sqlRow.length = r.kind.columnNames.length := by
  simp [sqlRow, Kind.columnNames, hr.1]

end Record

/-- The records of a collection among records written in order. -/
def ofKind (k : Kind) (rs : List Record) : List Record := rs.filter (·.kind == k)

/-- The table of a collection once records are written in order: the records of the collection
hold the row ids 1, 2, 3, … in the order they were written. -/
def writtenTable (k : Kind) (rs : List Record) : Table :=
  { k.table with
    rows := (ofKind k rs).mapIdx fun i r => ((i + 1 : Int), r.storedRow (i + 1))
    sequence := (ofKind k rs).length }

theorem ofKind_append_self (rs : List Record) (r : Record) :
    ofKind r.kind (rs ++ [r]) = ofKind r.kind rs ++ [r] := by
  simp [ofKind]

theorem ofKind_append_of_ne {rs : List Record} {r : Record} {k : Kind} (hk : r.kind ≠ k) :
    ofKind k (rs ++ [r]) = ofKind k rs := by
  simp [ofKind, hk]

/-- Writing a record leaves the tables of the other collections as they were. -/
theorem writtenTable_append_of_ne {rs : List Record} {r : Record} {k : Kind} (hk : r.kind ≠ k) :
    writtenTable k (rs ++ [r]) = writtenTable k rs := by
  simp only [writtenTable, ofKind_append_of_ne hk]

/-- The rows of a written table: the n-th record of the collection, at row id n. -/
theorem mem_writtenTable_rows {k : Kind} {rs : List Record} {row : Int × List SqlValue} :
    row ∈ (writtenTable k rs).rows ↔
      ∃ (i : Nat) (h : i < (ofKind k rs).length), row = ((i + 1 : Int), (ofKind k rs)[i].storedRow (i + 1)) := by
  simp only [writtenTable, List.mem_mapIdx]
  constructor
  · rintro ⟨i, h, rfl⟩
    exact ⟨i, h, rfl⟩
  · rintro ⟨i, h, rfl⟩
    exact ⟨i, h, rfl⟩

/-- Every row id of a written table lies between 1 and the number of rows. -/
theorem rowid_le_of_mem {k : Kind} {rs : List Record} {row : Int × List SqlValue}
    (h : row ∈ (writtenTable k rs).rows) : 1 ≤ row.1 ∧ row.1 ≤ (ofKind k rs).length := by
  obtain ⟨i, hi, rfl⟩ := mem_writtenTable_rows.mp h
  omega

/-- The row id the table of a collection gives next: one more than the records written to it. -/
theorem nextRowid_writtenTable (k : Kind) (rs : List Record) :
    (writtenTable k rs).nextRowid = (ofKind k rs).length + 1 := by
  have hle : (writtenTable k rs).rows.foldl (fun m x => max m x.1) 0 ≤ (ofKind k rs).length :=
    Table.foldl_max_le (by omega) fun x hx => (rowid_le_of_mem hx).2
  simp only [Table.nextRowid]
  have hauto : (writtenTable k rs).autoincrement = true := rfl
  have hseq : (writtenTable k rs).sequence = (ofKind k rs).length := rfl
  rw [if_pos hauto, hseq]
  omega

/-- Inserting a record's row into the table of its collection: it goes last, at the next row id. -/
theorem insert_writtenTable {rs : List Record} {r : Record} (hr : r.Shaped) :
    (writtenTable r.kind rs).insert (.null :: (r.sqlRow ++ [r.extraCell])) =
      .ok (writtenTable r.kind (rs ++ [r]), (ofKind r.kind rs).length + 1) := by
  have hstored : (writtenTable r.kind rs).stored (.null :: (r.sqlRow ++ [r.extraCell])) =
      .null :: (r.sqlRow ++ [r.extraCell]) :=
    r.kind.table_stored (Record.sqlRow_length hr) r.extraCell_cases
  rw [Sql.Table.insert_of_null rfl (by rw [hstored]; rfl), hstored, nextRowid_writtenTable]
  simp only [writtenTable, ofKind_append_self, List.mapIdx_concat, List.length_append,
    List.length_singleton]
  have hseq : max ((ofKind r.kind rs).length : Int) ((ofKind r.kind rs).length + 1) =
      (((ofKind r.kind rs).length + 1 : Nat) : Int) := by omega
  rw [hseq]
  rfl

/-- Replacing the table of the collection just written to: every table becomes the one of the
longer history. -/
theorem replace_writtenTable (rs : List Record) (r : Record) (k : Kind) :
    (if sameName (writtenTable k rs).name (writtenTable r.kind (rs ++ [r])).name then
      writtenTable r.kind (rs ++ [r]) else writtenTable k rs) = writtenTable k (rs ++ [r]) := by
  by_cases hk : k = r.kind
  · subst hk
    simp [writtenTable, Kind.table, sameName]
  · have hne : sameName (writtenTable k rs).name (writtenTable r.kind (rs ++ [r])).name = false := by
      by_contra hsame
      exact hk (Kind.tableName_sameName (Bool.not_eq_false _ |>.mp hsame))
    rw [hne, if_neg Bool.false_ne_true, writtenTable_append_of_ne (Ne.symm hk)]

/-- The row ids records are given when written in order after others. -/
def newRowids (rs : List Record) : List Record → List String
  | [] => []
  | r :: more => toString ((ofKind r.kind rs).length + 1 : Int) :: newRowids (rs ++ [r]) more

/-- A store that holds what writing records in order leaves: each of its tables is the table
of a collection after those writes, and every collection written to has its table. -/
structure Holds (db : Database) (rs : List Record) : Prop where
  tables : ∀ t ∈ db.tables, ∃ k, t = writtenTable k rs
  complete : ∀ r ∈ rs, writtenTable r.kind rs ∈ db.tables

theorem holds_empty : Holds {} [] :=
  ⟨by simp, by simp⟩

namespace Holds

variable {db : Database} {rs : List Record}

/-- A table found under the name of a collection is the collection's. -/
theorem table?_eq (h : Holds db rs) {k : Kind} {t : Table} (ht : db.table? k.tableName = some t) :
    t = writtenTable k rs := by
  have hfind : db.tables.find? (fun u => sameName u.name k.tableName) = some t := ht
  obtain ⟨k', rfl⟩ := h.tables t (List.mem_of_find?_eq_some hfind)
  have hname := List.find?_some hfind
  rw [Kind.tableName_sameName (k := k') hname]

/-- A collection written to has its table. -/
theorem table?_of_mem (h : Holds db rs) {r : Record} (hr : r ∈ rs) :
    db.table? r.kind.tableName = some (writtenTable r.kind rs) := by
  cases ht : db.table? r.kind.tableName with
  | none =>
    have hnone : db.tables.find? (fun u => sameName u.name r.kind.tableName) = none := ht
    have := List.find?_eq_none.mp hnone _ (h.complete r hr)
    simp [writtenTable, Kind.table, sameName] at this
  | some t => rw [h.table?_eq ht]

/-- Creating the table of a collection, unless it exists, keeps what the store holds and makes
the table found. -/
theorem create (h : Holds db rs) (k : Kind) :
    ∃ db₁, db.create k.table true = .ok db₁ ∧ Holds db₁ rs ∧
      db₁.table? k.tableName = some (writtenTable k rs) := by
  have hname : k.table.name = k.tableName := rfl
  cases ht : db.table? k.tableName with
  | some t =>
    refine ⟨db, ?_, h, by rw [ht, h.table?_eq ht]⟩
    simp [Database.create, hname, ht]
  | none =>
    -- no record of the collection was written, so its table is the empty one
    have hnone : ofKind k rs = [] := List.filter_eq_nil_iff.mpr fun r hr hk => by
      have hfound := h.table?_of_mem hr
      rw [beq_iff_eq.mp hk, ht] at hfound
      cases hfound
    have hempty : writtenTable k rs = k.table := by
      simp only [writtenTable, hnone]
      rfl
    have hfind : db.tables.find? (fun u => sameName u.name k.tableName) = none := ht
    refine ⟨{ db with tables := db.tables ++ [k.table] }, ?_, ⟨fun t ht' => ?_, fun r hr => ?_⟩, ?_⟩
    · simp [Database.create, hname, ht]
    · rcases List.mem_append.mp ht' with ht' | ht'
      · exact h.tables t ht'
      · exact ⟨k, by rw [List.mem_singleton.mp ht', hempty]⟩
    · exact List.mem_append_left _ (h.complete r hr)
    · have hfind' : (db.tables ++ [k.table]).find? (fun u => sameName u.name k.tableName) = some k.table := by
        rw [List.find?_append, hfind]
        simp [hname, sameName]
      rw [hempty]
      exact hfind'

/-- Writing a record built for its kind: the store takes it, gives it the next row id of its
collection, and holds the longer history. -/
theorem addRecord (h : Holds db rs) {r : Record} (hr : r.Shaped) :
    ∃ db', db.addRecord r = .ok (db', toString ((ofKind r.kind rs).length + 1 : Int)) ∧
      Holds db' (rs ++ [r]) := by
  obtain ⟨db₁, hcreate, h₁, ht₁⟩ := h.create r.kind
  have hlen : (r.sqlRow ++ [r.extraCell]).length = r.kind.columnNames.length + 1 := by
    simp [Record.sqlRow_length hr]
  have hinsert := Database.insert_named ht₁ rfl hlen
  rw [insert_writtenTable hr] at hinsert
  refine ⟨db₁.setTable (writtenTable r.kind (rs ++ [r])), ?_, ⟨fun u hu => ?_, fun r' hr' => ?_⟩⟩
  · simp only [Record.extraCell] at hinsert
    simp only [Database.addRecord, Database.insertRecord, hcreate, Except.map]
    rw [show r.kind.table.name = r.kind.tableName from rfl, hinsert]
    rfl
  -- every table of the store becomes the table of its collection after one more write
  · obtain ⟨u₀, hu₀, rfl⟩ := List.mem_map.mp hu
    obtain ⟨k, rfl⟩ := h₁.tables u₀ hu₀
    exact ⟨k, replace_writtenTable rs r k⟩
  · have hmem : writtenTable r'.kind rs ∈ db₁.tables := by
      rcases List.mem_append.mp hr' with hr' | hr'
      · exact h₁.complete r' hr'
      · rw [List.mem_singleton.mp hr']
        exact List.mem_of_find?_eq_some ht₁
    rw [← replace_writtenTable rs r r'.kind]
    exact List.mem_map_of_mem hmem

/-- The loop that writes a batch, whatever the spelling of its body: every record is taken. -/
theorem forIn_addRecord {f : Record → Database × List String →
      Except FeedError (ForInStep (Database × List String))}
    (hf : ∀ r x, f r x = (x.1.addRecord r).bind fun y => .ok (.yield (y.1, x.2 ++ [y.2]))) :
    ∀ (more : List Record) {db : Database} {rs : List Record} (ids : List String), Holds db rs →
      (∀ r ∈ more, r.Shaped) →
        ∃ db', forIn more (db, ids) f = .ok (db', ids ++ newRowids rs more) ∧ Holds db' (rs ++ more)
  | [], db, rs, ids, h, _ => ⟨db, by rw [List.forIn_nil, newRowids, List.append_nil]; rfl, by simpa using h⟩
  | r :: more, db, rs, ids, h, hs => by
    obtain ⟨db₁, hadd, h₁⟩ := h.addRecord (hs r List.mem_cons_self)
    obtain ⟨db', hloop, h'⟩ :=
      forIn_addRecord hf more (ids ++ [toString ((ofKind r.kind rs).length + 1 : Int)]) h₁
        fun r' hr' => hs r' (List.mem_cons_of_mem _ hr')
    refine ⟨db', ?_, by simpa using h'⟩
    rw [List.forIn_cons, hf, hadd]
    simp only [bind, Except.bind, newRowids]
    simpa using hloop

/-- Writing a batch of records built for their kinds: the store takes every one, gives each the
next row id of its collection, and holds the longer history. -/
theorem addAll (h : Holds db rs) {more : List Record} (hs : ∀ r ∈ more, r.Shaped) :
    ∃ db', Database.sink.addAll db more = .ok (db', newRowids rs more) ∧ Holds db' (rs ++ more) := by
  obtain ⟨db', hloop, h'⟩ := forIn_addRecord
    (f := fun r (x : Database × List String) => do
      let y ← x.1.addRecord r
      pure (ForInStep.yield (y.1, x.2 ++ [y.2]))) (fun _ _ => rfl) more [] h hs
  refine ⟨db', ?_, h'⟩
  simp only [Database.sink]
  rw [hloop]
  rfl

end Holds

/-! ### Reading the row ids back -/

/-- The identifier column of every collection holds texts. -/
theorem Kind.idColumn_text (k : Kind) : ∀ name ∈ k.idColumn?, ∃ c ∈ k.columns, c.name = name ∧ c.type = .text := by
  cases k <;> decide

namespace Record

variable {r : Record} {column : String}

/-- The identifier cell of a record built for its kind holds a text or nothing. -/
theorem idCell_cases (hr : r.Shaped) (hcol : r.kind.idColumn? = some column) :
    r.cell column = none ∨ ∃ s, r.cell column = some (.text s) := by
  obtain ⟨c, hc, rfl, htext⟩ := r.kind.idColumn_text _ hcol
  cases hv : r.cell c.name with
  | none => exact .inl rfl
  | some v =>
    have hadmits := hr.admits hc hv
    rw [htext] at hadmits
    cases v with
    | text s => exact .inr ⟨s, rfl⟩
    | _ => simp [FieldType.admits] at hadmits

/-- The identifier cell of a record built for its kind is stored as a key, and reads back as
the record's identifier. -/
theorem idCell_isKey (hr : r.Shaped) (hcol : r.kind.idColumn? = some column) :
    (Cell.toSql (r.cell column)).isKey ∧ (Cell.toSql (r.cell column)).keyText = r.entityId := by
  have hid : r.entityId = (r.cell column).toText := by simp only [entityId, hcol, str]
  rw [hid]
  rcases idCell_cases hr hcol with hv | ⟨s, hv⟩ <;> rw [hv] <;> exact ⟨rfl, rfl⟩

/-- Identifier cells are stored apart exactly when they differ. -/
theorem toSql_inj_of_cases {a b : Cell} (ha : a = none ∨ ∃ s, a = some (.text s))
    (hb : b = none ∨ ∃ s, b = some (.text s)) (h : Cell.toSql a = Cell.toSql b) : a = b := by
  rcases ha with rfl | ⟨s, rfl⟩ <;> rcases hb with rfl | ⟨t, rfl⟩ <;>
    simp_all [Cell.toSql, FieldValue.toSql]

/-- The cell a stored row keeps for a column of the record. -/
theorem storedRow_getD (hr : r.Shaped) {j : Nat} (hj : r.kind.columnIndex? column = some j) (n : Int) :
    (r.storedRow n).getD (j + 1) .null = Cell.toSql (r.cell column) := by
  have hjlen : j < r.cells.length := by
    rw [hr.1]
    exact (List.idxOf?_eq_some_iff.mp hj).1.trans_le (by simp [Kind.columnNames])
  have hlen : j < (r.cells.map Cell.toSql).length := by simpa using hjlen
  simp only [storedRow, sqlRow, cell, hj, List.getD_eq_getElem?_getD, List.getElem?_cons_succ,
    List.getElem?_append_left hlen, List.getElem?_map, List.getElem?_eq_getElem hjlen, Option.map_some,
    Option.getD_some]

end Record

/-- The table of a collection, read with the row id first and the identifier one place after its
column, is readable: its row ids are the distinct integers 1, 2, 3, … and its identifiers are
texts or nothing. -/
theorem readable_writtenTable {k : Kind} {rs : List Record} (hs : ∀ r ∈ rs, r.Shaped)
    {column : String} (hcol : k.idColumn? = some column) {j : Nat} (hj : k.columnIndex? column = some j) :
    Sql.Database.Readable (writtenTable k rs) 0 (j + 1) := by
  have hkind : ∀ r ∈ ofKind k rs, r.Shaped ∧ r.kind = k := fun r hr => by
    obtain ⟨hr, hk⟩ := List.mem_filter.mp hr
    exact ⟨hs r hr, beq_iff_eq.mp hk⟩
  refine ⟨fun row hrow => ?_, fun row hrow => ?_, ?_⟩
  · obtain ⟨i, hi, rfl⟩ := mem_writtenTable_rows.mp hrow
    exact ⟨i + 1, rfl⟩
  · obtain ⟨i, hi, rfl⟩ := mem_writtenTable_rows.mp hrow
    obtain ⟨hshaped, hk⟩ := hkind _ (List.getElem_mem hi)
    rw [← hk] at hj hcol
    rw [Record.storedRow_getD hshaped hj]
    exact (Record.idCell_isKey hshaped hcol).1
  · -- the row ids are their positions plus one
    have hids : (writtenTable k rs).rows.map (fun row => row.2.getD 0 .null) =
        (ofKind k rs).mapIdx fun i _ => SqlValue.integer (i + 1) := by
      refine List.ext_getElem (by simp [writtenTable]) fun i h₁ h₂ => ?_
      simp [writtenTable, Record.storedRow]
    rw [hids, List.nodup_iff_injective_getElem]
    intro a b hab
    simp only [List.getElem_mapIdx, SqlValue.integer.injEq] at hab
    exact Fin.ext (by omega)

/-- The identifier column of a collection stands one place further in its table. -/
theorem Kind.table_columnIndex?_of_columnIndex? {k : Kind} {column : String} {j : Nat}
    (hj : k.columnIndex? column = some j) : k.table.columnIndex? column = some (j + 1) := by
  obtain ⟨hjlen, hname, -⟩ := List.idxOf?_eq_some_iff.mp hj
  have hj' : j < (k.columnNames ++ [extraColumn]).length := by simp; omega
  have h := Kind.table_columnIndex? k hj'
  rwa [List.getElem_append_left hjlen, hname] at h

/-- The row id the record at a place of a batch is given: one more than the records of its
collection written before it. -/
theorem newRowids_getElem? (r : Record) (post : List Record) :
    ∀ (done pre : List Record), (newRowids done (pre ++ r :: post))[pre.length]? =
      some (toString ((ofKind r.kind (done ++ pre)).length + 1 : Int))
  | done, [] => by simp [newRowids]
  | done, p :: pre => by
    rw [List.cons_append, newRowids, List.length_cons, List.getElem?_cons_succ,
      newRowids_getElem? r post (done ++ [p]) pre]
    simp

/-- In the table of a collection, the row of a record has the least row id among the rows of
its identifier exactly when no earlier record of the collection had that identifier. -/
theorem least_rowid_iff_first {k : Kind} {rs pre post : List Record} {r : Record}
    (hs : ∀ r ∈ rs, r.Shaped) (hrs : rs = pre ++ r :: post) (hk : r.kind = k) {column : String}
    (hcol : k.idColumn? = some column) {j : Nat} (hj : k.columnIndex? column = some j) :
    (∀ row ∈ (writtenTable k rs).rows, row.2.getD (j + 1) .null = Cell.toSql (r.cell column) →
      ∀ n : Int, row.2.getD 0 .null = .integer n → ((ofKind k pre).length + 1 : Int) ≤ n) ↔
    (∀ r' ∈ pre, r'.kind = k → r'.cell column ≠ r.cell column) := by
  have hof : ofKind k rs = ofKind k pre ++ r :: ofKind k post := by
    simp [hrs, ofKind, hk]
  have hkind : ∀ r' ∈ ofKind k rs, r'.Shaped ∧ r'.kind = k := fun r' hr' => by
    obtain ⟨hr', hk'⟩ := List.mem_filter.mp hr'
    exact ⟨hs r' hr', beq_iff_eq.mp hk'⟩
  -- the records of the collection before this one are the first rows of its table
  have hbefore : ∀ i' (hi' : i' < (ofKind k pre).length), ∃ hlt : i' < (ofKind k rs).length,
      (ofKind k rs)[i'] = (ofKind k pre)[i'] := fun i' hi' => by
    have hlt : i' < (ofKind k rs).length := by rw [hof]; simp; omega
    exact ⟨hlt, by simp only [hof]; rw [List.getElem_append_left hi']⟩
  constructor
  · intro hleast r' hr' hk' hsame
    have hmem : r' ∈ ofKind k pre := List.mem_filter.mpr ⟨hr', beq_iff_eq.mpr hk'⟩
    obtain ⟨i', hi', rfl⟩ := List.mem_iff_getElem.mp hmem
    obtain ⟨hlt, heq⟩ := hbefore i' hi'
    obtain ⟨hshaped, hk''⟩ := hkind _ (List.getElem_mem hlt)
    have hrow : ((i' + 1 : Int), (ofKind k rs)[i'].storedRow (i' + 1)) ∈ (writtenTable k rs).rows :=
      mem_writtenTable_rows.mpr ⟨i', hlt, rfl⟩
    have hnat : ((ofKind k rs)[i'].storedRow (i' + 1)).getD (j + 1) .null = Cell.toSql (r.cell column) := by
      rw [Record.storedRow_getD hshaped (hk''.symm ▸ hj), heq, hsame]
    have := hleast _ hrow hnat (i' + 1) rfl
    omega
  · intro hfirst row hrow hnat n hn
    obtain ⟨i', hi', rfl⟩ := mem_writtenTable_rows.mp hrow
    obtain rfl : (i' + 1 : Int) = n := SqlValue.integer.inj hn
    by_contra hlt
    have hi'pre : i' < (ofKind k pre).length := by omega
    obtain ⟨hlt', heq⟩ := hbefore i' hi'pre
    obtain ⟨hshaped, hk''⟩ := hkind _ (List.getElem_mem hlt')
    have hr' := (List.mem_filter.mp (List.getElem_mem hi'pre))
    refine hfirst _ hr'.1 (beq_iff_eq.mp hr'.2) ?_
    rw [← heq]
    refine Record.toSql_inj_of_cases (Record.idCell_cases hshaped (hk''.symm ▸ hcol))
      (Record.idCell_cases (hs r (by simp [hrs])) (hk.symm ▸ hcol)) ?_
    rw [← Record.storedRow_getD hshaped (hk''.symm ▸ hj) (i' + 1)]
    exact hnat

/-- Reading back the store written with a history of records: the row id of a record resolves
to its identifier exactly when no earlier record of its collection had that identifier, and to
nothing otherwise. -/
theorem Holds.naturals_lookup {db : Database} {rs : List Record} (h : Holds db rs)
    (hs : ∀ r ∈ rs, r.Shaped) {pre post : List Record} {r : Record} (hrs : rs = pre ++ r :: post)
    {column : String} (hcol : r.kind.idColumn? = some column) :
    ∃ out, db.naturals r.kind = .ok out ∧
      ∀ x, out.lookup (toString ((ofKind r.kind pre).length + 1 : Int)) = some x ↔
        (∀ r' ∈ pre, r'.kind = r.kind → r'.cell column ≠ r.cell column) ∧ x = r.entityId := by
  have hr : r ∈ rs := by simp [hrs]
  obtain ⟨c, hc, hname, -⟩ := r.kind.idColumn_text column hcol
  obtain ⟨j, -, -, hj⟩ := Kind.columnIndex?_of_mem hc
  rw [hname] at hj
  obtain ⟨out, hnat, hlook⟩ := Sql.Database.naturals_lookup_rowid hcol (h.table?_of_mem hr)
    (by simp [writtenTable, Kind.table]) (Kind.table_columnIndex?_id r.kind)
    (Kind.table_columnIndex?_of_columnIndex? hj) (readable_writtenTable hs hcol hj)
  refine ⟨out, hnat, fun x => ?_⟩
  -- the row of the record comes after those of the earlier records of its collection
  have hof : ofKind r.kind rs = ofKind r.kind pre ++ r :: ofKind r.kind post := by
    simp [hrs, ofKind]
  have hi : (ofKind r.kind pre).length < (ofKind r.kind rs).length := by
    rw [hof]
    simp
  have hrow : (((ofKind r.kind pre).length + 1 : Int), r.storedRow ((ofKind r.kind pre).length + 1)) ∈
      (writtenTable r.kind rs).rows :=
    mem_writtenTable_rows.mpr ⟨_, hi, by simp [hof]⟩
  rw [hlook _ hrow _ rfl x, Record.storedRow_getD (hs r hr) hj, (Record.idCell_isKey (hs r hr) hcol).2,
    least_rowid_iff_first hs hrs rfl hcol hj]

/-- An agency with the identifier A. -/
def agencyA (name url : String) : Record :=
  Record.ofSql .agency [("agency_id", .text "A"), ("agency_name", .text name),
    ("agency_url", .text url), ("agency_timezone", .text "Europe/Paris")]

/-- Two agencies that share the identifier A. -/
def duplicateAgencies : List Record :=
  [agencyA "Ag" "http://a.example", agencyA "Ag2" "http://b.example"]

end TransitFeed

import Mathlib.Data.Fintype.Card
import Mathlib.Data.Fintype.EquivFin
import Mathlib.Data.Fintype.Sets
import Mathlib.Order.WellFounded
import TransitFeed.Proofs.Feed.Remap
import TransitFeed.Proofs.Store.Memory

/-!
# Closed, valid feeds

A feed is valid when every record is well formed (a cell of its column's type for every
column of its kind) and passes its checks, and when the stop times of each trip pass the
sequence checks together. It is closed when every filled reference of every record names
the identifier of a record of the kind it refers to. Its stops may name their parent
stations in any order, as long as no stop is its own ancestor.

What validity gives a record: its required columns are filled in, its identifier is not
empty (the single agency of a feed may have none), and it remaps as soon as the lookup knows
each of its filled references. Among finitely many stops, a relation without cycles leaves
one that no other names as its parent.
-/

namespace TransitFeed

/-- Whether a value is of a column type; integers of every width are integers. -/
def FieldType.admits : FieldType → FieldValue → Bool
  | .text, .text _ => true
  | .int32, .int _ | .int64, .int _ | .nat32, .int _ => true
  | .real, .real _ => true
  | .flag, .flag _ => true
  | .date, .date _ => true
  | .time, .time _ => true
  | .color, .color _ => true
  | _, _ => false

namespace Kind

/-- Every reference names a kind with identifiers, copied before the kind that refers to it,
save the parent station of a stop. -/
theorem target_before (k : Kind) : ∀ c ∈ k.columns, ∀ t ∈ c.target,
    t.idColumn?.isSome ∧ (t.index < k.index ∨ (k = .stop ∧ t = .stop ∧ c.name = "parent_station")) := by
  cases k <;> decide

/-- The identifier column of every kind but agencies is a required text that is never
absent. -/
theorem idColumn_required (k : Kind) (hk : k ≠ .agency) : ∀ name ∈ k.idColumn?,
    ∃ c ∈ k.columns, c.name = name ∧ c.required = true ∧ c.optional = false ∧ c.type = .text := by
  cases k <;> simp at hk <;> decide

/-- The kinds are processed in the order of their positions. -/
theorem all_pairwise : Kind.all.Pairwise fun a b => a.index < b.index := by decide

theorem mem_all (k : Kind) : k ∈ Kind.all := by cases k <;> decide

/-- The kinds still to come, from a kind on, hold none of the kinds before it. -/
theorem not_mem_of_index_lt {k t : Kind} {rest : List Kind} (h : k :: rest <:+ Kind.all)
    (ht : t.index < k.index) : t ∉ k :: rest := by
  have hordered := List.pairwise_cons.mp (all_pairwise.sublist h.sublist)
  rintro (_ | ⟨_, hmem⟩)
  · exact Nat.lt_irrefl _ ht
  · exact Nat.lt_asymm ht (hordered.1 t hmem)

/-- A stop time names its trip in a required reference. -/
theorem stopTime_trip_column :
    ∃ c ∈ Kind.stopTime.columns, c.name = "trip_id" ∧ c.required = true ∧ c.target = some .trip := by
  decide

/-- A stop names its parent station in a reference to stops. -/
theorem stop_parent_column :
    ∃ c ∈ Kind.stop.columns, c.name = "parent_station" ∧ c.target = some .stop := by
  decide

end Kind

namespace Record

/-- A record as reading builds it: a cell for every column of its kind, each absent or of its
column's type. -/
def Shaped (r : Record) : Prop :=
  r.cells.length = r.kind.columns.length ∧
    ∀ p ∈ r.kind.columns.zip r.cells, p.2.all p.1.type.admits = true

instance (r : Record) : Decidable r.Shaped := inferInstanceAs (Decidable (_ ∧ _))

variable {r : Record} {col : Column}

/-- A cell of the pairing of columns with cells is the cell of its column. -/
theorem cell_of_mem_zip {c : Cell} (h : (col, c) ∈ r.kind.columns.zip r.cells) :
    r.cell col.name = c := by
  obtain ⟨i, hi, hget⟩ := List.mem_iff_getElem.mp h
  have hic : i < r.kind.columns.length := by simp at hi; omega
  have hcells : i < r.cells.length := by simp at hi; omega
  rw [List.getElem_zip, Prod.mk.injEq] at hget
  obtain ⟨j, hj, hcol, hidx⟩ := Kind.columnIndex?_of_mem (hget.1 ▸ List.getElem_mem hic)
  -- the column found by name is the one at this position, since names do not repeat
  have hji : j = i := by
    have hj' : j < r.kind.columnNames.length := by simpa [Kind.columnNames] using hj
    have hi' : i < r.kind.columnNames.length := by simpa [Kind.columnNames] using hic
    have hnames : r.kind.columnNames[j] = r.kind.columnNames[i] := by
      simp [Kind.columnNames, hcol, hget.1]
    exact r.kind.columnNames_nodup.getElem_inj_iff.mp hnames
  subst hji
  simp [cell, hidx, hcells, hget.2]

/-- In a well-formed record, every column stands beside its cell. -/
theorem Shaped.mem_zip (hs : r.Shaped) (hcol : col ∈ r.kind.columns) :
    (col, r.cell col.name) ∈ r.kind.columns.zip r.cells := by
  rcases cell_mem_zip hcol with hnone | hmem
  · obtain ⟨i, hi, rfl, hidx⟩ := Kind.columnIndex?_of_mem hcol
    have hcells : i < r.cells.length := hs.1 ▸ hi
    have hz : i < (r.kind.columns.zip r.cells).length := by simp; omega
    have hget := List.getElem_mem hz
    rw [List.getElem_zip] at hget
    simpa [cell, hidx, hcells] using hget
  · exact hmem

/-- In a well-formed record, a filled cell holds a value of its column's type. -/
theorem Shaped.admits (hs : r.Shaped) (hcol : col ∈ r.kind.columns) {v : FieldValue}
    (hv : r.cell col.name = some v) : col.type.admits v = true := by
  have h := hs.2 _ (hs.mem_zip hcol)
  rw [hv] at h
  simpa using h

/-- Checks that append what each step finds find nothing only if they start from nothing and
no step finds anything. -/
theorem foldl_append_eq_nil {α : Type} (g : List Issue → α → List Issue) :
    ∀ (l : List α) (init : List Issue), l.foldl (fun acc x => acc ++ g acc x) init = [] →
      init = [] ∧ ∀ x ∈ l, g [] x = []
  | [], init, h => ⟨h, by simp⟩
  | x :: l, init, h => by
    obtain ⟨hhead, hrest⟩ := foldl_append_eq_nil g l _ h
    obtain ⟨hinit, hx⟩ := List.append_eq_nil_iff.mp hhead
    subst hinit
    exact ⟨rfl, fun y hy => (List.mem_cons.mp hy).elim (fun e => e ▸ hx) (hrest y)⟩

/-- A record without problems fills in every required column. -/
theorem present_of_errors_eq_nil (hs : r.Shaped) (he : r.errors = []) (hcol : col ∈ r.kind.columns)
    (hreq : col.required = true) : Cell.present col.optional (r.cell col.name) = true := by
  simp only [errors, List.map_eq_nil_iff, List.append_eq_nil_iff] at he
  have hcols := (foldl_append_eq_nil (fun found (p : Column × Cell) => columnIssues found p.1 p.2) _ _ he.1).2
    _ (hs.mem_zip hcol)
  cases hpresent : Cell.present col.optional (r.cell col.name)
  · simp [columnIssues, hpresent, hreq] at hcols
  · rfl

/-- A record without problems, other than an agency, has a non-empty identifier when its kind
has identifiers. -/
theorem entityId_ne_empty (hs : r.Shaped) (he : r.errors = []) (hid : r.kind.idColumn?.isSome)
    (hk : r.kind ≠ .agency) : r.entityId ≠ "" := by
  obtain ⟨name, hname⟩ := Option.isSome_iff_exists.mp hid
  obtain ⟨col, hcol, rfl, hreq, hopt, htext⟩ := Kind.idColumn_required r.kind hk _ hname
  have hp := present_of_errors_eq_nil hs he hcol hreq
  rw [entityId, hname]
  cases hc : r.cell col.name with
  | none => simp [hc, Cell.present] at hp
  | some v =>
    have hv := hs.admits hcol hc
    rw [htext] at hv
    cases v <;> simp_all [FieldType.admits, Cell.present, FieldValue.present, str, Cell.toText,
      FieldValue.toText]

/-- The text of a column is given exactly when the column holds a non-empty text. -/
theorem text?_eq_some {name p : String} :
    r.text? name = some p ↔ r.cell name = some (.text p) ∧ p ≠ "" := by
  unfold text?
  split
  · rename_i s hs
    rw [hs]
    by_cases he : s = ""
    · subst he
      constructor
      · intro h
        simp at h
      · rintro ⟨h, hp⟩
        simp only [Option.some.injEq, FieldValue.text.injEq] at h
        exact absurd h.symm hp
    · simp only [String.isEmpty_iff, he, if_false, Option.some.injEq, FieldValue.text.injEq]
      constructor
      · rintro rfl
        exact ⟨rfl, he⟩
      · exact fun h => h.1
  · rename_i hs
    simp only [reduceCtorEq, false_iff, not_and]
    exact fun h => absurd h (hs p)

/-- Resolving succeeds when the lookup knows every filled reference of the pairs. -/
theorem resolveKeys_ok {lookup : KeyLookup} : ∀ {l : List (Column × Cell)},
    (∀ p ∈ l, ∀ t, p.1.target = some t → Cell.present p.1.optional p.2 = true →
      (lookup t p.2.toText).isSome) → ∃ resolved, r.resolveKeys lookup l = .ok resolved
  | [], _ => ⟨[], rfl⟩
  | (col, c) :: rest, h => by
    obtain ⟨tail, htail⟩ := resolveKeys_ok fun p hp => h p (List.mem_cons_of_mem _ hp)
    unfold resolveKeys
    split
    · exact ⟨tail, htail⟩
    · rename_i t ht
      split
      · exact ⟨tail, htail⟩
      · rename_i hpresent
        obtain ⟨new, hnew⟩ := Option.isSome_iff_exists.mp
          (h (col, c) List.mem_cons_self t ht (by simpa using hpresent))
        exact ⟨(col, new) :: tail, by simp [hnew, htail, Except.map]⟩

/-- Remapping succeeds when the lookup knows every filled reference of the record. -/
theorem updateKeys_ok {lookup : KeyLookup}
    (h : ∀ col ∈ r.kind.columns, ∀ t, col.target = some t →
      Cell.present col.optional (r.cell col.name) = true → (lookup t (r.str col.name)).isSome) :
    ∃ e, r.updateKeys lookup = .ok e := by
  obtain ⟨resolved, hres⟩ : ∃ resolved, r.resolveKeys lookup (r.kind.columns.zip r.cells) = .ok resolved :=
    resolveKeys_ok fun p hp t ht hpresent => by
      have hcell := cell_of_mem_zip hp
      have hcol := (List.of_mem_zip hp).1
      rw [← hcell] at hpresent ⊢
      exact h p.1 hcol t ht hpresent
  unfold updateKeys
  rw [hres]
  exact ⟨_, rfl⟩

end Record

/-- A stop waits for its parent station exactly when it names one, as a text, that the map
does not know yet. -/
theorem waitsForParent_eq_true {m : IdMap} {r : Record} :
    Copying.waitsForParent m r = true ↔
      r.kind = .stop ∧ ∃ p, r.text? "parent_station" = some p ∧ m.contains Kind.stop.fileName p = false := by
  unfold Copying.waitsForParent Record.text?
  cases hk : decide (r.kind = .stop)
  · simp_all
  · simp only [decide_eq_true_eq] at hk
    split <;> simp_all

/-- A stop that waits with a larger map waits with a smaller one. -/
theorem waitsForParent_of_le {m m' : IdMap} {r : Record}
    (hm : ∀ c o, m.contains c o = true → m'.contains c o = true) (h : Copying.waitsForParent m' r = true) :
    Copying.waitsForParent m r = true := by
  obtain ⟨hk, p, hp, hc⟩ := waitsForParent_eq_true.mp h
  refine waitsForParent_eq_true.mpr ⟨hk, p, hp, ?_⟩
  cases hmc : m.contains Kind.stop.fileName p
  · rfl
  · simp [hm _ _ hmc] at hc

/-- Among the elements of a list, a relation without cycles leaves one that no element of the
list is related to. -/
theorem exists_minimal_of_acyclic {α : Type} {rel : α → α → Prop}
    (hacyclic : ∀ a, ¬Relation.TransGen rel a a) {l : List α} (hl : l ≠ []) :
    ∃ a ∈ l, ∀ b ∈ l, ¬rel b a := by
  classical
  let path : {x // x ∈ l} → {x // x ∈ l} → Prop := fun a b => Relation.TransGen rel a.1 b.1
  have : IsTrans _ path := ⟨fun _ _ _ hab hbc => hab.trans hbc⟩
  have : Std.Irrefl path := ⟨fun a h => hacyclic a.1 h⟩
  obtain ⟨x, hx⟩ := List.exists_mem_of_ne_nil l hl
  obtain ⟨⟨a, ha⟩, -, hmin⟩ :=
    (Finite.wellFounded_of_trans_of_irrefl path).has_min Set.univ ⟨⟨x, hx⟩, trivial⟩
  exact ⟨a, ha, fun b hb hba => hmin ⟨b, hb⟩ trivial (.single hba)⟩

namespace MemoryFeed

variable (f : MemoryFeed)

/-- Every record of the feed is well formed and passes its checks. -/
def Valid : Prop := ∀ k, ∀ r ∈ f.records k, r.Shaped ∧ r.errors = []

/-- Every filled reference of the feed names the identifier of a record of the kind it refers
to. -/
def Closed : Prop :=
  ∀ k, ∀ r ∈ f.records k, ∀ col ∈ r.kind.columns, ∀ t ∈ col.target,
    Cell.present col.optional (r.cell col.name) = true → ∃ e ∈ f.records t, e.entityId = r.str col.name

/-- A stop of the feed names another as its parent station. -/
def ParentOf (parent child : Record) : Prop :=
  parent ∈ f.records .stop ∧ child ∈ f.records .stop ∧ child.text? "parent_station" = some parent.entityId

/-- No stop of the feed is its own ancestor. -/
def StationsAcyclic : Prop := ∀ r, ¬Relation.TransGen f.ParentOf r r

/-- The stop times of each trip, in feed order, pass the sequence checks together. -/
def TripsPass : Prop :=
  ∀ r ∈ f.records .stopTime,
    (validateStopTimes ((f.records .stopTime).filter fun x => x.str "trip_id" = r.str "trip_id")).2 = []

variable {f}

/-- Stops that each lie deeper than the stop they name as parent station, by some measure,
form no cycle. -/
theorem stationsAcyclic_of_depth (depth : Record → Nat)
    (h : ∀ p ∈ f.records .stop, ∀ c ∈ f.records .stop,
      c.text? "parent_station" = some p.entityId → depth p < depth c) : f.StationsAcyclic := by
  have hdeeper : ∀ a b, Relation.TransGen f.ParentOf a b → depth a < depth b := by
    intro a b hab
    induction hab with
    | single hpc => exact h _ hpc.1 _ hpc.2.1 hpc.2.2
    | tail _ hpc ih => exact ih.trans (h _ hpc.1 _ hpc.2.1 hpc.2.2)
  exact fun r hr => Nat.lt_irrefl _ (hdeeper r r hr)

/-- The records of a collection of a keyed feed are of that collection's kind. -/
theorem kind_of_mem_records (hf : f.Keyed) {k : Kind} {r : Record} (h : r ∈ f.records k) :
    r.kind = k := by
  unfold records at h
  cases hl : f.collections.lookup k with
  | none => simp [hl] at h
  | some rs =>
    rw [hl, Option.getD_some] at h
    obtain ⟨l₁, l₂, hcol, -⟩ := List.lookup_eq_some_iff.mp hl
    exact hf (k, rs) (by simp [hcol]) r h

end MemoryFeed

end TransitFeed

import TransitFeed.Proofs.Copy.Expansions

/-!
# Remapping references all at once

Remapping the references of a record looks up the new identifier of every filled reference
before it writes any. So it either stops at the first filled reference, in column order,
whose text the lookup does not know for its target, with a reference problem that names the
column and its text at the record's line, or it replaces every filled reference by its new
identifier (an optional column becoming absent when that identifier is empty) and keeps
every other cell, the identifier, the line, the extra columns and the problems met while
reading. A record is a value: a remapping that stops gives none back, and the copy keeps the
record it had.

A reference is filled when its cell is present: a plain column unless it holds the empty
text, an optional one whenever it holds a value, the empty text included. A relational store
reads a stored empty text of an optional column as such a value, and remapping looks it up
like any other text. Main statement: `updateKeys_remaps_all_or_stops_at_first`; a remapping
that stops at an optional reference holding the empty text:
`updateKeys_stops_at_empty_parent`.
-/

namespace TransitFeed

namespace Record

@[simp] theorem setCell_extra (r : Record) (name : String) (c : Cell) :
    (r.setCell name c).extra = r.extra := by
  unfold setCell
  split <;> rfl

/-- Setting the cell of a column at a position the record holds takes effect. -/
theorem cell_setCell_of_lt {r : Record} {name : String} {i : Nat}
    (hidx : r.kind.columnIndex? name = some i) (hi : i < r.cells.length) (c : Cell) :
    (r.setCell name c).cell name = c := by
  simp [setCell, cell, hidx, hi]

/-- A fold whose steps keep an invariant, set a cell right whenever they touch its column
from a state of the invariant, and keep it otherwise, leaves it right if it was right before
or if the fold touches it at all. -/
theorem foldl_cell_of_step_within {α : Type} (f : Record → α → Record) (name : String)
    (good : Cell → Prop) (inv : Record → Prop) (touches : α → Prop) (xs : List α)
    (hinv : ∀ r a, inv r → inv (f r a))
    (hset : ∀ r, ∀ a ∈ xs, inv r → touches a → good ((f r a).cell name))
    (hkeep : ∀ r, ∀ a ∈ xs, ¬touches a → (f r a).cell name = r.cell name) (r : Record)
    (hr : inv r) (h : good (r.cell name) ∨ ∃ a ∈ xs, touches a) :
    good ((xs.foldl f r).cell name) := by
  induction xs generalizing r with
  | nil => simpa using h
  | cons a xs ih =>
    rw [List.foldl_cons]
    refine ih (fun r b hb => hset r b (List.mem_cons_of_mem _ hb))
      (fun r b hb => hkeep r b (List.mem_cons_of_mem _ hb)) _ (hinv r a hr) ?_
    by_cases ha : touches a
    · exact .inl (hset r a List.mem_cons_self hr ha)
    · rw [hkeep r a List.mem_cons_self ha]
      rcases h with h | ⟨b, hb, hbt⟩
      · exact .inl h
      · rcases List.mem_cons.mp hb with rfl | hb
        · exact absurd hbt ha
        · exact .inr ⟨b, hb, hbt⟩

/-- A column of a record resolves under a lookup when it is no reference, is not filled in,
or the lookup knows its text for its target. -/
def Resolves (lookup : KeyLookup) (r : Record) (col : Column) : Prop :=
  ∀ t, col.target = some t → Cell.present col.optional (r.cell col.name) = true →
    (lookup t (r.str col.name)).isSome

/-- Where remapping a record stops: at the first column, in column order, that does not
resolve, with the reference problem that names that column and its text at the record's
line. -/
def StopsAt (lookup : KeyLookup) (r : Record) (i : Issue) : Prop :=
  ∃ pre col post t, r.kind.columns = pre ++ col :: post ∧ (∀ c ∈ pre, r.Resolves lookup c) ∧
    col.target = some t ∧ Cell.present col.optional (r.cell col.name) = true ∧
    lookup t (r.str col.name) = none ∧
    i = (Issue.reference col.name (r.str col.name) t.fileName).atLine r.line

/-- What remapping the references of `r` into `r'` keeps and changes: the kind, the line, the
extra columns, the problems met while reading and the number of cells stay; every cell that
is no filled reference stays; and every filled reference takes the new identifier of its
text, or becomes absent when the column is optional and that identifier empty. -/
structure Remapped (lookup : KeyLookup) (r r' : Record) : Prop where
  kind : r'.kind = r.kind
  line : r'.line = r.line
  extra : r'.extra = r.extra
  loadIssues : r'.loadIssues = r.loadIssues
  length : r'.cells.length = r.cells.length
  kept : ∀ col ∈ r.kind.columns,
    (col.target = none ∨ Cell.present col.optional (r.cell col.name) = false) →
      r'.cell col.name = r.cell col.name
  replaced : ∀ col ∈ r.kind.columns, ∀ t, col.target = some t →
    Cell.present col.optional (r.cell col.name) = true →
      ∃ new, lookup t (r.str col.name) = some new ∧
        r'.cell col.name = if col.optional && new.isEmpty then none else some (.text new)

variable {r : Record} {lookup : KeyLookup}

/-- Resolving stops at the first filled reference pair whose text the lookup does not know:
every pair before it resolves. -/
theorem resolveKeys_error_first {i : Issue} : ∀ {l : List (Column × Cell)},
    r.resolveKeys lookup l = .error i →
      ∃ pre p post t, l = pre ++ p :: post ∧
        (∀ q ∈ pre, ∀ t, q.1.target = some t → Cell.present q.1.optional q.2 = true →
          (lookup t q.2.toText).isSome) ∧
        p.1.target = some t ∧ Cell.present p.1.optional p.2 = true ∧ lookup t p.2.toText = none ∧
        i = (Issue.reference p.1.name p.2.toText t.fileName).atLine r.line
  | [], h => by cases h
  | (col, c) :: rest, h => by
    -- the failure lies further on when the head pair resolves; the head resolves, since
    -- resolving went past it
    have further : r.resolveKeys lookup rest = .error i →
        (∀ t, col.target = some t → Cell.present col.optional c = true → (lookup t c.toText).isSome) →
        ∃ pre p post t, (col, c) :: rest = pre ++ p :: post ∧
          (∀ q ∈ pre, ∀ t, q.1.target = some t → Cell.present q.1.optional q.2 = true →
            (lookup t q.2.toText).isSome) ∧
          p.1.target = some t ∧ Cell.present p.1.optional p.2 = true ∧ lookup t p.2.toText = none ∧
          i = (Issue.reference p.1.name p.2.toText t.fileName).atLine r.line := by
      intro hrest hhead
      obtain ⟨pre, p, post, t, rfl, hpre, hrest⟩ := resolveKeys_error_first hrest
      refine ⟨(col, c) :: pre, p, post, t, rfl, ?_, hrest⟩
      rintro q (_ | ⟨_, hq⟩)
      · exact hhead
      · exact hpre q hq
    unfold resolveKeys at h
    split at h
    · rename_i htarget
      exact further h fun t ht => by simp [htarget] at ht
    · rename_i t htarget
      split at h
      · rename_i hpresent
        exact further h fun t' _ hp => by simp_all
      · rename_i hpresent
        dsimp only at h
        split at h
        · rename_i hnone
          cases h
          exact ⟨[], (col, c), rest, t, rfl, by simp, htarget, by simpa using hpresent, hnone, rfl⟩
        · rename_i new hnew
          cases hr : r.resolveKeys lookup rest with
          | ok _ => rw [hr] at h; cases h
          | error e =>
            rw [hr] at h
            cases h
            exact further hr fun t' ht' _ => by
              obtain rfl : t' = t := Option.some.inj (ht'.symm.trans htarget)
              simp [hnew]

/-- Every new identifier resolving gives is the lookup of the text of a filled reference pair
of the list. -/
theorem resolveKeys_entry {resolved : List (Column × String)} : ∀ {l : List (Column × Cell)},
    r.resolveKeys lookup l = .ok resolved →
      ∀ x ∈ resolved, ∃ c t, (x.1, c) ∈ l ∧ x.1.target = some t ∧
        Cell.present x.1.optional c = true ∧ lookup t c.toText = some x.2
  | [], h => by
    cases h
    simp
  | (col, c) :: rest, h => by
    have widen : ∀ x : Column × String, (∃ c t, (x.1, c) ∈ rest ∧ x.1.target = some t ∧
        Cell.present x.1.optional c = true ∧ lookup t c.toText = some x.2) →
        ∃ c' t, (x.1, c') ∈ (col, c) :: rest ∧ x.1.target = some t ∧
          Cell.present x.1.optional c' = true ∧ lookup t c'.toText = some x.2 :=
      fun _ ⟨c', t, hc', hrest⟩ => ⟨c', t, List.mem_cons_of_mem _ hc', hrest⟩
    unfold resolveKeys at h
    split at h
    · exact fun x hx => widen x (resolveKeys_entry h x hx)
    · rename_i t htarget
      split at h
      · exact fun x hx => widen x (resolveKeys_entry h x hx)
      · rename_i hpresent
        dsimp only at h
        split at h
        · cases h
        · rename_i new hnew
          cases hr : r.resolveKeys lookup rest with
          | error e => rw [hr] at h; cases h
          | ok tail =>
            rw [hr] at h
            cases h
            rintro x (_ | ⟨_, hx⟩)
            · exact ⟨c, t, List.mem_cons_self, htarget, by simpa using hpresent, hnew⟩
            · exact widen x (resolveKeys_entry hr x hx)

/-- A split of the pairing of columns with cells is a split of the columns. -/
theorem columns_split_of_zip {cols : List Column} {cells : List Cell} :
    ∀ {pre : List (Column × Cell)} {p : Column × Cell} {post : List (Column × Cell)},
      cols.zip cells = pre ++ p :: post → ∃ rest, cols = pre.map Prod.fst ++ p.1 :: rest := by
  induction cols generalizing cells with
  | nil => intro pre p post h; simp at h
  | cons col cols ih =>
    intro pre p post h
    cases cells with
    | nil => cases pre <;> simp at h
    | cons cell cells =>
      cases pre with
      | nil =>
        simp only [List.zip_cons_cons, List.nil_append, List.cons.injEq] at h
        exact ⟨cols, by simp [← h.1]⟩
      | cons q pre =>
        simp only [List.zip_cons_cons, List.cons_append, List.cons.injEq] at h
        obtain ⟨rest, hrest⟩ := ih h.2
        exact ⟨rest, by simp [← h.1, hrest]⟩

/-- A remapping that fails stops at the first column that does not resolve. -/
theorem stopsAt_of_updateKeys {i : Issue} (h : r.updateKeys lookup = .error i) :
    r.StopsAt lookup i := by
  unfold updateKeys at h
  split at h
  · rename_i e he
    cases h
    obtain ⟨pre, p, post, t, hl, hpre, ht, hpresent, hnone, rfl⟩ := resolveKeys_error_first he
    obtain ⟨rest, hcols⟩ := columns_split_of_zip hl
    -- the pairs met along the way are pairs of the record's columns with their cells
    have hmem : ∀ q ∈ pre ++ p :: post, r.cell q.1.name = q.2 := fun q hq =>
      cell_of_mem_zip (hl ▸ hq)
    have hp := hmem p (by simp)
    refine ⟨pre.map Prod.fst, p.1, rest, t, hcols, ?_, ht, ?_, ?_, ?_⟩
    · intro c hc
      obtain ⟨q, hq, rfl⟩ := List.mem_map.mp hc
      intro t' ht' hpresent'
      have hq' := hmem q (by simp [hq])
      rw [hq'] at hpresent'
      simpa [str, hq'] using hpre q hq t' ht' hpresent'
    · rwa [hp]
    · simpa [str, hp] using hnone
    · simp [str, hp]
  · cases h

/-- One step of a remapping: a column takes a new identifier, read as a value of its type. -/
def remapStep (x : Record) (p : Column × String) : Record :=
  match Cell.parse p.1.type p.1.optional p.2 with
  | .ok c => x.setCell p.1.name c
  | .error _ => x

/-- Remapping resolves every filled reference, then takes the new identifiers one by one. -/
theorem updateKeys_eq (r : Record) (lookup : KeyLookup) :
    r.updateKeys lookup =
      (r.resolveKeys lookup (r.kind.columns.zip r.cells)).map (·.foldl remapStep r) := by
  unfold updateKeys
  split <;> rename_i hres <;> rw [hres] <;> rfl

@[simp] theorem remapStep_kind (x : Record) (p : Column × String) : (remapStep x p).kind = x.kind := by
  unfold remapStep
  split <;> simp

@[simp] theorem remapStep_line (x : Record) (p : Column × String) : (remapStep x p).line = x.line := by
  unfold remapStep
  split <;> simp

@[simp] theorem remapStep_extra (x : Record) (p : Column × String) :
    (remapStep x p).extra = x.extra := by
  unfold remapStep
  split <;> simp

@[simp] theorem remapStep_loadIssues (x : Record) (p : Column × String) :
    (remapStep x p).loadIssues = x.loadIssues := by
  unfold remapStep
  split <;> simp

@[simp] theorem remapStep_cells_length (x : Record) (p : Column × String) :
    (remapStep x p).cells.length = x.cells.length := by
  unfold remapStep
  split <;> simp

theorem cell_remapStep_of_ne (x : Record) {p : Column × String} {name : String}
    (h : p.1.name ≠ name) : (remapStep x p).cell name = x.cell name := by
  unfold remapStep
  split
  · exact cell_setCell_of_ne x _ h
  · rfl

/-- A text column takes the new identifier as it is, or becomes absent when it is optional and
the identifier empty. -/
theorem remapStep_of_text (x : Record) {p : Column × String} (h : p.1.type = .text) :
    remapStep x p = x.setCell p.1.name (if p.1.optional && p.2.isEmpty then none else some (.text p.2)) := by
  simp [remapStep, h, parse_text]

/-- A remapping that succeeds replaces every filled reference by its new identifier and keeps
everything else. -/
theorem remapped_of_updateKeys {r' : Record} (h : r.updateKeys lookup = .ok r') :
    r.Remapped lookup r' := by
  rw [updateKeys_eq] at h
  cases hres : r.resolveKeys lookup (r.kind.columns.zip r.cells) with
  | error e => rw [hres] at h; cases h
  | ok resolved =>
    rw [hres] at h
    cases h
    dsimp only
    -- a new identifier is set only in the filled reference column it was looked up for
    have hentry : ∀ x ∈ resolved, ∀ col ∈ r.kind.columns, x.1.name = col.name →
        x.1 = col ∧ ∃ t, col.target = some t ∧ Cell.present col.optional (r.cell col.name) = true ∧
          lookup t (r.str col.name) = some x.2 := by
      intro x hx col hcol hname
      obtain ⟨c, t, hc, ht, hpresent, hnew⟩ := resolveKeys_entry hres x hx
      obtain rfl : x.1 = col := Kind.eq_of_name_eq (List.of_mem_zip hc).1 hcol hname
      have hcell := cell_of_mem_zip hc
      exact ⟨rfl, t, ht, hcell ▸ hpresent, by simpa [str, hcell] using hnew⟩
    refine ⟨foldl_setCell_kind _ remapStep_kind _ _,
      foldl_invariant line _ remapStep_line _ _, foldl_invariant extra _ remapStep_extra _ _,
      foldl_invariant loadIssues _ remapStep_loadIssues _ _,
      foldl_invariant (·.cells.length) _ remapStep_cells_length _ _,
      fun col hcol hkept => ?_, fun col hcol t ht hpresent => ?_⟩
    · refine cell_foldl _ _ resolved (fun x p hp => cell_remapStep_of_ne x fun hname => ?_) r
      obtain ⟨-, t, ht, hpresent, -⟩ := hentry p hp col hcol hname
      rcases hkept with hnone | habsent
      · simp [ht] at hnone
      · simp [hpresent] at habsent
    · obtain ⟨new, hnew⟩ := resolveKeys_complete hres (col, r.cell col.name)
        ((cell_mem_zip hcol).resolve_left fun hnone => by simp [hnone, Cell.present] at hpresent)
        (by simp [ht]) hpresent
      obtain ⟨-, t', ht', -, hlookup⟩ := hentry _ hnew col hcol rfl
      obtain rfl : t = t' := Option.some.inj (ht.symm.trans ht')
      refine ⟨new, hlookup, ?_⟩
      -- the column sits at a position the record holds, since its cell is filled
      obtain ⟨i, -, -, hidx⟩ := Kind.columnIndex?_of_mem hcol
      have hi : i < r.cells.length := by
        by_contra hge
        simp [cell, hidx, Nat.not_lt.mp hge, Cell.present] at hpresent
      have htext := Kind.type_eq_text_of_target _ _ hcol (by simp [ht])
      refine foldl_cell_of_step_within remapStep col.name
        (· = if col.optional && new.isEmpty then none else some (.text new)) (fun x => x.kind = r.kind ∧ x.cells.length = r.cells.length) (·.1.name = col.name) resolved
        (fun x p hx => by simpa using hx) (fun x p hp hx hname => ?_)
        (fun x p _ hname => cell_remapStep_of_ne x hname) r ⟨rfl, rfl⟩ (.inr ⟨_, hnew, rfl⟩)
      obtain ⟨rfl, t'', ht'', -, hlookup'⟩ := hentry p hp col hcol hname
      obtain rfl : t = t'' := Option.some.inj (ht.symm.trans ht'')
      obtain rfl : p.2 = new := Option.some.inj (hlookup'.symm.trans hlookup)
      rw [remapStep_of_text x htext]
      exact cell_setCell_of_lt (hx.1 ▸ hidx) (hx.2 ▸ hi) _

/-- Remapping the references of a record either stops at the first filled reference whose text
the lookup does not know for its target, with the reference problem that names it, or
replaces every filled reference by its new identifier and keeps everything else, the
identifier included. The two cannot both happen, so remapping fails exactly when some filled
reference does not resolve. -/
theorem updateKeys_remaps_all_or_stops_at_first (r : Record) (lookup : KeyLookup) :
    (∃ i, r.updateKeys lookup = .error i ∧ r.StopsAt lookup i) ∨
      ∃ r', r.updateKeys lookup = .ok r' ∧ r.Remapped lookup r' ∧ r'.entityId = r.entityId := by
  cases h : r.updateKeys lookup with
  | error i => exact .inl ⟨i, rfl, stopsAt_of_updateKeys h⟩
  | ok r' => exact .inr ⟨r', rfl, remapped_of_updateKeys h, entityId_updateKeys h⟩

/-- A stop whose parent station holds the empty text, as a relational store reads it. -/
def emptyParentStop : Record :=
  ((Record.empty .stop).setEntityId "S1").setCell "parent_station" (some (.text ""))

/-- An optional reference holding the empty text is filled, and looked up: the relational store
reads a stored empty text of an optional column as the empty text, and a stop whose parent
station holds it, with no reference of non-empty text, fails to remap under a lookup that
knows nothing, at its parent station. -/
theorem updateKeys_stops_at_empty_parent :
    Cell.ofSql .text true (.text "") = .ok (some (.text "")) ∧ emptyParentStop.Shaped ∧
      (∀ col ∈ emptyParentStop.kind.columns, col.target.isSome → emptyParentStop.str col.name = "") ∧
      emptyParentStop.updateKeys (fun _ _ => none) =
        .error ((Issue.reference "parent_station" "" "stops.txt").atLine none) :=
  ⟨by rfl, by decide +kernel, by decide +kernel, by rfl⟩

end Record

end TransitFeed

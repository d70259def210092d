import Mathlib.Data.List.Nodup
import TransitFeed.Proofs.Stage.Laws

/-!
# Identifiers through the stages and the remapping

Remapping the references of a record leaves its identifier alone and writes, in every
filled reference column, an identifier that the lookup gave for that column's target: a
remapped record refers to nothing the lookup does not know. The stages change the
identifier of a record at most by putting a prefix in front of it.
-/

namespace TransitFeed

namespace Kind

/-- Reference columns hold text. -/
theorem type_eq_text_of_target (k : Kind) : ∀ c ∈ k.columns, c.target.isSome → c.type = .text := by
  cases k <;> decide

/-- No two columns of a kind share a name. -/
theorem columnNames_nodup (k : Kind) : k.columnNames.Nodup := by
  cases k <;> decide

/-- The identifier column of a kind refers to nothing. -/
theorem idColumn_not_reference (k : Kind) :
    ∀ c, k.idColumn? = some c → c ∉ k.references.map Prod.fst := by
  cases k <;> decide

/-- A column of a kind is found by its name at its own position. -/
theorem columnIndex?_of_mem {k : Kind} {col : Column} (h : col ∈ k.columns) :
    ∃ i, ∃ hi : i < k.columns.length, k.columns[i] = col ∧ k.columnIndex? col.name = some i := by
  obtain ⟨i, hi, rfl⟩ := List.mem_iff_getElem.mp h
  refine ⟨i, hi, rfl, ?_⟩
  have hi' : i < k.columnNames.length := by simpa [columnNames] using hi
  have hname : k.columnNames[i] = k.columns[i].name := by simp [columnNames]
  rw [columnIndex?, ← hname, List.idxOf?_eq_some_iff]
  refine ⟨hi', rfl, fun j hj heq => ?_⟩
  have := (List.Nodup.getElem_inj_iff k.columnNames_nodup).mp heq
  omega

/-- Two columns of a kind with one name are one column. -/
theorem eq_of_name_eq {k : Kind} {c c' : Column} (hc : c ∈ k.columns) (hc' : c' ∈ k.columns)
    (h : c.name = c'.name) : c = c' :=
  List.inj_on_of_nodup_map k.columnNames_nodup hc hc' h

end Kind

namespace Record

/-- Setting a cell takes effect, unless the record holds no cell that far, when the column
stays absent. -/
theorem cell_setCell_self (r : Record) (name : String) (c : Cell) :
    (r.setCell name c).cell name = c ∨ ((r.setCell name c).cell name = none ∧ r.cell name = none) := by
  unfold setCell
  split
  · rename_i i hi
    simp only [cell, hi]
    by_cases hlt : i < r.cells.length
    · left
      simp [hlt]
    · right
      simp [hlt]
  · rename_i hi
    right
    simp [cell, hi]

/-- The cell of a column, unless absent, stands beside the column in the pairing of the
kind's columns with the record's cells. -/
theorem cell_mem_zip {r : Record} {col : Column} (h : col ∈ r.kind.columns) :
    r.cell col.name = none ∨ (col, r.cell col.name) ∈ r.kind.columns.zip r.cells := by
  obtain ⟨i, hi, rfl, hidx⟩ := Kind.columnIndex?_of_mem h
  simp only [cell, hidx]
  by_cases hc : i < r.cells.length
  · right
    have hz : i < (r.kind.columns.zip r.cells).length := by simp; omega
    simpa [List.getElem?_eq_getElem hc] using List.getElem_mem hz
  · left
    simp [hc]

/-- A fold that sets a cell right whenever it touches its column, and keeps it otherwise,
leaves it right if it was right before or if the fold touches it at all. -/
theorem foldl_cell_of_step {α : Type} (f : Record → α → Record) (name : String)
    (good : Cell → Prop) (touches : α → Prop) (xs : List α)
    (hset : ∀ r, ∀ a ∈ xs, touches a → good ((f r a).cell name))
    (hkeep : ∀ r, ∀ a ∈ xs, ¬touches a → (f r a).cell name = r.cell name) (r : Record)
    (h : good (r.cell name) ∨ ∃ a ∈ xs, touches a) : good ((xs.foldl f r).cell name) := by
  induction xs generalizing r with
  | nil => simpa using h
  | cons a xs ih =>
    rw [List.foldl_cons]
    refine ih (fun r b hb => hset r b (List.mem_cons_of_mem _ hb))
      (fun r b hb => hkeep r b (List.mem_cons_of_mem _ hb)) _ ?_
    by_cases ha : touches a
    · exact .inl (hset r a (by simp) ha)
    · rw [hkeep r a (by simp) ha]
      rcases h with h | ⟨b, hb, hbt⟩
      · exact .inl h
      · rcases List.mem_cons.mp hb with rfl | hb
        · exact absurd hbt ha
        · exact .inr ⟨b, hb, hbt⟩

/-- Resolving references finds a new identifier for every filled reference column. -/
theorem resolveKeys_complete {r : Record} {lookup : KeyLookup} {l : List (Column × Cell)}
    {resolved : List (Column × String)} (h : r.resolveKeys lookup l = .ok resolved) :
    ∀ p ∈ l, p.1.target.isSome → Cell.present p.1.optional p.2 → ∃ new, (p.1, new) ∈ resolved := by
  induction l generalizing resolved with
  | nil => simp
  | cons p rest ih =>
    obtain ⟨col, cell⟩ := p
    unfold resolveKeys at h
    split at h
    · rename_i htarget
      rintro q (_ | ⟨_, hq⟩)
      · simp [htarget]
      · exact ih h q hq
    · rename_i target htarget
      dsimp only at h
      split at h
      · rename_i hpresent
        rintro q (_ | ⟨_, hq⟩)
        · intro _ hp
          simp_all
        · exact ih h q hq
      · split at h
        · cases h
        · cases hr : r.resolveKeys lookup rest with
          | error e => rw [hr] at h; cases h
          | ok tail =>
            rw [hr] at h
            cases h
            rintro q (_ | ⟨_, hq⟩)
            · exact fun _ _ => ⟨_, List.mem_cons_self⟩
            · intro ht hp
              obtain ⟨new, hnew⟩ := ih hr q hq ht hp
              exact ⟨new, List.mem_cons_of_mem _ hnew⟩

/-- A text column takes the text it is given, or becomes absent when it is optional and the
text is empty. -/
theorem parse_text (optional : Bool) (s : String) :
    Cell.parse .text optional s = .ok (if optional && s.isEmpty then none else some (.text s)) := by
  cases optional <;> by_cases hs : s.isEmpty <;>
    simp [Cell.parse, Cell.parseOptional, FieldType.parse, Except.map, hs]

/-- A remapped record holds, in each filled reference column, an identifier that the lookup
gave for the column's target. -/
theorem updateKeys_reference {r r' : Record} {lookup : KeyLookup}
    (h : r.updateKeys lookup = .ok r') {col : Column} (hcol : col ∈ r.kind.columns) {t : Kind}
    (ht : col.target = some t) (hp : Cell.present col.optional (r'.cell col.name)) :
    ∃ old, lookup t old = some (r'.str col.name) := by
  unfold updateKeys at h
  split at h
  · cases h
  rename_i resolved hres
  cases h
  -- the remapping sets the column right when it reaches it, and reaches it whenever the
  -- column was filled to begin with
  refine foldl_cell_of_step _ col.name
    (fun c => Cell.present col.optional c → ∃ old, lookup t old = some c.toText)
    (fun x => x.1.name = col.name) resolved ?_ ?_ r ?_ hp
  · rintro x ⟨col', new⟩ hmem hname
    dsimp only at hname ⊢
    obtain ⟨⟨c, hc⟩, t', ht', old, hold⟩ := resolveKeys_mem hres _ hmem
    obtain rfl : col' = col := Kind.eq_of_name_eq (List.of_mem_zip hc).1 hcol hname
    obtain rfl : t' = t := Option.some.inj (ht'.symm.trans ht)
    have htext := Kind.type_eq_text_of_target _ _ hcol (by simp [ht])
    rw [htext, parse_text]
    dsimp only
    rcases cell_setCell_self x col'.name (if col'.optional && new.isEmpty then none else some (.text new))
      with hset | ⟨hset, -⟩
    · rw [hset]
      split
      · simp [Cell.present]
      · exact fun _ => ⟨old, hold⟩
    · rw [hset]
      simp [Cell.present]
  · rintro x ⟨col', new⟩ - hne
    dsimp only
    split
    · exact cell_setCell_of_ne _ _ hne
    · rfl
  · rcases cell_mem_zip hcol with hnone | hzip
    · left
      simp [hnone, Cell.present]
    · by_cases hpresent : Cell.present col.optional (r.cell col.name)
      · obtain ⟨new, hnew⟩ := resolveKeys_complete hres _ hzip (by simp [ht]) hpresent
        exact .inr ⟨_, hnew, rfl⟩
      · exact .inl fun h => absurd h hpresent

/-- Two records of one kind with the same identifier cell have the same identifier. -/
theorem entityId_eq_of_cell {r r' : Record} (hk : r'.kind = r.kind)
    (hc : ∀ col, r.kind.idColumn? = some col → r'.cell col = r.cell col) :
    r'.entityId = r.entityId := by
  unfold entityId
  rw [hk]
  split
  · rename_i col hcol
    exact congrArg Cell.toText (hc col hcol)
  · rfl

/-- Remapping references keeps the identifier of a record. -/
theorem entityId_updateKeys {r r' : Record} {lookup : KeyLookup}
    (h : r.updateKeys lookup = .ok r') : r'.entityId = r.entityId :=
  entityId_eq_of_cell (updateKeys_kind h) fun col hcol =>
    cell_updateKeys_of_not_ref h (Kind.idColumn_not_reference _ col hcol)

/-- Setting a cell other than the identifier keeps the identifier. -/
theorem entityId_setCell_of_ne (r : Record) (c : Cell) {name : String}
    (h : ∀ col, r.kind.idColumn? = some col → name ≠ col) : (r.setCell name c).entityId = r.entityId :=
  entityId_eq_of_cell (setCell_kind r name c) fun col hcol => cell_setCell_of_ne r c (h col hcol)

/-- Setting a cell other than the identifier column of the record's kind keeps the identifier. -/
theorem entityId_setCell_of_idColumn_ne (r : Record) (c : Cell) {name : String}
    (h : r.kind.idColumn? ≠ some name) : (r.setCell name c).entityId = r.entityId :=
  entityId_setCell_of_ne r c fun col hcol hname => h (hname ▸ hcol)

/-- Replacing a filled identifier takes effect. -/
theorem entityId_setEntityId {r : Record} (h : r.entityId ≠ "") (id : String) :
    (r.setEntityId id).entityId = id := by
  unfold setEntityId
  unfold entityId at h
  split
  · rename_i col hcol
    rw [hcol] at h
    unfold entityId
    rw [setCell_kind, hcol]
    rcases cell_setCell_self r col (some (.text id)) with hset | ⟨-, hnone⟩
    · simp [str, hset, Cell.toText, FieldValue.toText]
    · simp [str, hnone, Cell.toText] at h
  · rename_i hcol
    simp [hcol] at h

end Record

/-- Prefixing a zone column keeps the identifier, which is another column. -/
theorem Prefixes.prefixCell_entityId (pre : String) (r : Record) {column : String}
    (h : ∀ col, r.kind.idColumn? = some col → column ≠ col) :
    (prefixCell pre r column).entityId = r.entityId := by
  rcases prefixCell_cases pre r column with hcell | ⟨c, hcell⟩
  · rw [hcell]
  · rw [hcell, Record.entityId_setCell_of_ne _ _ h]

/-- Putting a prefix before an identifier leaves an empty identifier empty. -/
def Prefixes.prefixId (id pre : String) : String := if id = "" then "" else pre ++ id

/-- Prefixing identifiers one after the other puts one prefix in front of the first. -/
theorem Prefixes.foldl_prefixId (pres : List String) (id : String) :
    ∃ pre, pres.foldl prefixId id = pre ++ id := by
  induction pres generalizing id with
  | nil => exact ⟨"", by simp⟩
  | cons q pres ih =>
    obtain ⟨pre, hpre⟩ := ih (prefixId id q)
    rw [List.foldl_cons, hpre]
    by_cases hid : id = ""
    · exact ⟨pre, by simp [prefixId, hid]⟩
    · exact ⟨pre ++ q, by simp [prefixId, hid, String.append_assoc]⟩

/-- Prefixes put the prefix of the record's collection in front of a filled identifier. -/
theorem Prefixes.apply_entityId_eq (p : Prefixes) (r : Record) :
    (p.apply r).entityId = (p.lookup? r.kind.fileName).elim r.entityId (prefixId r.entityId) := by
  unfold apply
  extract_lets renamed
  -- the collection's prefix goes in front of a filled identifier
  have hrenamed : renamed.kind = r.kind ∧
      renamed.entityId = (p.lookup? r.kind.fileName).elim r.entityId (prefixId r.entityId) := by
    simp only [renamed]
    split
    · rename_i pre hpre
      split
      · rename_i hempty
        have hid : r.entityId = "" := by simpa using hempty
        simp [hpre, prefixId, hid]
      · rename_i hne
        have hid : r.entityId ≠ "" := by simpa using hne
        exact ⟨by simp, by simp [hpre, prefixId, hid, Record.entityId_setEntityId hid]⟩
    · rename_i hnone
      simp [hnone]
  obtain ⟨hkind, hid⟩ := hrenamed
  rw [← hid]
  -- the zones of stops and fare rules are other columns than the identifier
  split
  · rfl
  · split
    · rename_i hk
      rw [prefixCell_entityId _ _ fun col hc => by simp [hk, Kind.idColumn?] at hc; subst hc; decide]
    · rename_i hk
      -- fare rules have no identifier column at all
      have hnone : ∀ x : Record, x.kind = .fareRule →
          ∀ column col, x.kind.idColumn? = some col → column ≠ col :=
        fun x hx _ col hc => by simp [hx, Kind.idColumn?] at hc
      rw [prefixCell_entityId _ _ (hnone _ (by simp [hk]) _),
        prefixCell_entityId _ _ (hnone _ (by simp [hk]) _), prefixCell_entityId _ _ (hnone _ hk _)]
    · rfl

/-- Moving the dates of a calendar or of the feed information keeps its identifier. -/
theorem Redate.filter_entityId (d : Redate) (r : Record) : (d.filter r).entityId = r.entityId := by
  refine Record.entityId_eq_of_cell (Redate.filter_kind d r) fun col hcol => ?_
  unfold filter
  split
  · rename_i hk
    obtain rfl : col = "service_id" := by simpa [hk, Kind.idColumn?] using hcol.symm
    unfold calendar
    dsimp only
    rw [Record.cell_setCell_of_ne _ _ (by decide), Record.cell_setCell_of_ne _ _ (by decide)]
    exact Record.cell_foldl _ _ _ (fun x w _ => Record.cell_setCell_of_ne _ _ (by cases w <;> decide)) r
  · rename_i hk
    simp [hk, Kind.idColumn?] at hcol
  · rfl

/-- The prefix a stage puts in front of the filled identifiers of a collection: that of a
prefix stage, and none for the others. -/
def Stage.prefixFor? (c : Kind) : Stage → Option String
  | .rename p => p.lookup? c.fileName
  | _ => none

/-- A stage changes an identifier only by putting its prefix for the collection in front. -/
theorem Stage.filter_entityId_eq (st : Stage) (m : IdMap) (r : Record) :
    (st.filter m r).2.entityId = (st.prefixFor? r.kind).elim r.entityId (Prefixes.prefixId r.entityId) := by
  cases st with
  | rename p => exact Prefixes.apply_entityId_eq p r
  | redate d => exact Redate.filter_entityId d r
  | network s | implicitService s => rfl
  | defaultAgency s | agencyTimezone s | shapeDist s =>
    -- the agency, the timezone and the distance are other columns than the identifier
    simp only [filter, prefixFor?, Option.elim, AgencyDefault.apply, AgencyZone.apply, Walk.apply]
    repeat' split
    all_goals simp_all [Record.entityId_setCell_of_idColumn_ne, Kind.idColumn?]

namespace Pipeline

variable (m : IdMap)

/-- The filters put the prefixes of the record's collection in front of a filled identifier,
one after the other in stage order. -/
theorem filterWith_entityId_eq : ∀ (stages : List Stage) (r : Record),
    (filterWith m stages r).2.entityId =
      (stages.filterMap (Stage.prefixFor? r.kind)).foldl Prefixes.prefixId r.entityId
  | [], _ => rfl
  | st :: rest, r => by
    have hrest := filterWith_entityId_eq rest (st.filter m r).2
    simp only [filterWith, Stage.filter_kind] at hrest ⊢
    rw [hrest, Stage.filter_entityId_eq, List.filterMap_cons]
    cases st.prefixFor? r.kind <;> rfl

/-- The filters of a pipeline put at most a prefix in front of the identifier of a record. -/
theorem filter_entityId (p : Pipeline) (r : Record) :
    ∃ pre, (p.filter m r).2.entityId = pre ++ r.entityId :=
  (filterWith_entityId_eq m p.stages r).symm ▸ Prefixes.foldl_prefixId _ _

end Pipeline

end TransitFeed

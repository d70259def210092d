import TransitFeed.Proofs.Copy.TargetWindow
import TransitFeed.Proofs.Feed.Closed
import TransitFeed.Proofs.Copy.Clean
import TransitFeed.Proofs.Copy.EarlyExit
import TransitFeed.Store.Relational
import TransitFeed.Config.Basic

/-!
# Created networks and calendars resolve the references that named them

Two stages create what a feed only names: the network a route names and the calendar of the
service of a calendar date. Each keeps the identifiers it created, creates one only when
neither the identifier map nor its own list knows it, and puts the created record before the
record that named it. A copy writes what the stages made of a record in the order they gave
it, so the created record is written, and its identifier recorded, before the references of
the record that named it are remapped.

So, whatever the source, destination, options and preset map, and however the copy ends, a
copy whose stages create networks keeps no reference problem on the network of a route but
those the source raised and those of an empty network identifier; one whose stages create
calendars keeps no reference problem on the service of a calendar date but those the source
raised and those of calendar dates without a date. No stage creates an identifier twice, and
once the copy ends normally, every identifier a stage created is recorded in the map and its
created record, which has no problem, was handed to the destination:
`copyFeed_created_ids_resolve`.
-/

namespace TransitFeed

namespace Record

@[simp] theorem setCell_line (r : Record) (name : String) (c : Cell) : (r.setCell name c).line = r.line := by
  unfold setCell
  split <;> rfl

@[simp] theorem setCell_loadIssues (r : Record) (name : String) (c : Cell) :
    (r.setCell name c).loadIssues = r.loadIssues := by
  unfold setCell
  split <;> rfl

/-- The identifier a record needs created, with its collection: the network a route names, or
the calendar of the service of a calendar date with a date. -/
def need (x : Record) : Option (Kind × String) :=
  match x.kind with
  | .route =>
    match x.cell "network_id" with
    | some (.text id) => if id.isEmpty then none else some (.network, id)
    | _ => none
  | .calendarDate =>
    if (x.str "service_id").isEmpty || (x.date? "date").isNone then none
    else some (.calendar, x.str "service_id")
  | _ => none

/-- A needed identifier is never empty. -/
theorem need_ne_empty {x : Record} {k : Kind} {id : String} (h : x.need = some (k, id)) : id ≠ "" := by
  unfold need at h
  split at h
  · split at h
    · split at h
      · cases h
      · rename_i hid
        simp only [Option.some.injEq, Prod.mk.injEq] at h
        rw [← h.2]
        simpa using hid
    · cases h
  · split at h
    · cases h
    · rename_i hid
      simp only [Option.some.injEq, Prod.mk.injEq] at h
      rw [← h.2]
      simp only [Bool.or_eq_true, not_or] at hid
      simpa using hid.1
  · cases h

/-- A record the stages made of `x` without creating it: of the same kind, read at the same
line with the same problems; as a route, naming the same network; as a calendar date, of the
same service and dated exactly when `x` is. -/
structure CopyOf (x y : Record) : Prop where
  kind : y.kind = x.kind
  line : y.line = x.line
  loadIssues : y.loadIssues = x.loadIssues
  network : y.kind = .route → y.cell "network_id" = x.cell "network_id"
  service : y.kind = .calendarDate →
    y.cell "service_id" = x.cell "service_id" ∧ (y.date? "date").isSome = (x.date? "date").isSome

namespace CopyOf

theorem refl (x : Record) : CopyOf x x := ⟨rfl, rfl, rfl, fun _ => rfl, fun _ => ⟨rfl, rfl⟩⟩

theorem trans {x y z : Record} (h : CopyOf x y) (h' : CopyOf y z) : CopyOf x z where
  kind := h'.kind.trans h.kind
  line := h'.line.trans h.line
  loadIssues := h'.loadIssues.trans h.loadIssues
  network hz := (h'.network hz).trans (h.network (h'.kind ▸ hz))
  service hz := ⟨(h'.service hz).1.trans (h.service (h'.kind ▸ hz)).1,
    (h'.service hz).2.trans (h.service (h'.kind ▸ hz)).2⟩

/-- A copy needs what the record needs. -/
theorem need_eq {x y : Record} (h : CopyOf x y) : y.need = x.need := by
  unfold need
  rw [h.kind]
  cases hk : x.kind
  case route => rw [h.network (h.kind.trans hk)]
  case calendarDate =>
    obtain ⟨hservice, hdated⟩ := h.service (h.kind.trans hk)
    have hnone : (y.date? "date").isNone = (x.date? "date").isNone := by
      rw [← Option.not_isSome, hdated, Option.not_isSome]
    simp only [str, hservice, hnone]
    rfl
  all_goals rfl

/-- A calendar date moved to another date is a copy of what the original was a copy of. -/
theorem setDate {x y : Record} (h : CopyOf x y) (hdated : y.date? "date" ≠ none) (t : Date) :
    CopyOf x (y.setCell "date" (some (.date t))) := by
  have hcell : y.cell "date" ≠ none := fun hnone => hdated (by simp [date?, hnone])
  have hset : (y.setCell "date" (some (.date t))).cell "date" = some (.date t) :=
    cell_setCell_of_ne_none hcell _
  refine ⟨by simp [h.kind], by simp [h.line], by simp [h.loadIssues], fun hk => ?_, fun hk => ?_⟩
  · rw [cell_setCell_of_ne _ _ (by decide)]
    exact h.network (by simpa using hk)
  · have hy : y.kind = .calendarDate := by simpa using hk
    refine ⟨by rw [cell_setCell_of_ne _ _ (by decide)]; exact (h.service hy).1, ?_⟩
    rw [← (h.service hy).2]
    simp only [date?, hset, Option.isSome_some]
    cases hy' : y.cell "date" with
    | none => exact absurd hy' hcell
    | some v => cases v <;> simp_all [date?]

end CopyOf

end Record

open Record

/-- The record an expansion creates for an identifier of a collection: a network with only its
identifier, or a calendar of the service that runs on one day and on no weekday. -/
def Creation (k : Kind) (id : String) (e : Record) : Prop :=
  (k = .network ∧ e = Created.network id) ∨ (k = .calendar ∧ ∃ d, e = Created.calendar id d)

theorem Created.network_eq (id : String) :
    Created.network id = { kind := .network, cells := [some (.text id), none] } := rfl

theorem Created.calendar_eq (id : String) (d : Date) :
    Created.calendar id d = { kind := .calendar, cells := [some (.text id), some (.flag false),
      some (.flag false), some (.flag false), some (.flag false), some (.flag false),
      some (.flag false), some (.flag false), some (.date d), some (.date d)] } := rfl

/-- Resolving references of columns that refer to nothing resolves nothing. -/
theorem Record.resolveKeys_of_no_target {r : Record} {lookup : KeyLookup} :
    ∀ {l : List (Column × Cell)}, (∀ p ∈ l, p.1.target = none) → r.resolveKeys lookup l = .ok []
  | [], _ => rfl
  | (col, c) :: rest, h => by
    have hcol : col.target = none := h (col, c) List.mem_cons_self
    simp only [Record.resolveKeys, hcol]
    exact resolveKeys_of_no_target fun p hp => h p (List.mem_cons_of_mem _ hp)

/-- A record of a kind without references is remapped to itself. -/
theorem Record.updateKeys_of_no_target {r : Record} (lookup : KeyLookup)
    (h : ∀ col ∈ r.kind.columns, col.target = none) : r.updateKeys lookup = .ok r := by
  unfold updateKeys
  rw [resolveKeys_of_no_target fun p hp => h p.1 (List.of_mem_zip hp).1]
  rfl

namespace Creation

variable {k : Kind} {id : String} {e : Record}

theorem kind (h : Creation k id e) : e.kind = k := by
  rcases h with ⟨rfl, rfl⟩ | ⟨rfl, d, rfl⟩ <;> simp

theorem entityId (h : Creation k id e) : e.entityId = id := by
  rcases h with ⟨-, rfl⟩ | ⟨-, d, rfl⟩
  · exact Created.network_entityId id
  · exact Created.calendar_entityId id d

/-- A created record needs nothing created. -/
theorem need (h : Creation k id e) : e.need = none := by
  rcases h with ⟨-, rfl⟩ | ⟨-, d, rfl⟩ <;> simp [Record.need]

/-- A created record refers to nothing, so remapping keeps it as it is. -/
theorem updateKeys (h : Creation k id e) (lookup : KeyLookup) : e.updateKeys lookup = .ok e := by
  refine Record.updateKeys_of_no_target lookup ?_
  rcases h with ⟨-, rfl⟩ | ⟨-, d, rfl⟩ <;> simp [Kind.columns, Column.plain, Column.opt, Column.req]

/-- A created record with an identifier has no problem. -/
theorem errors (h : Creation k id e) (hid : id ≠ "") : e.errors = [] := by
  rcases h with ⟨-, rfl⟩ | ⟨-, d, rfl⟩
  · simp [Created.network_eq, Record.errors, Kind.columns, Record.columnIssues, Column.plain, Column.opt,
      Column.req, Record.kindRules, Cell.present, FieldValue.present, hid]
  · obtain ⟨hstart, hend⟩ := Created.calendar_dates id d
    have hrules : (Created.calendar id d).kindRules = [] := by
      simp [Record.kindRules, Record.calendarRules, hstart, hend, show ¬d < d from Int.lt_irrefl d.day]
    rw [Record.errors, hrules, Created.calendar_eq]
    simp [Kind.columns, Record.columnIssues, Column.plain, Column.opt, Column.req, Cell.present,
      FieldValue.present, hid]

end Creation

namespace Stage

/-- The identifiers a stage created so far, with their collection. -/
def created : Stage → Option (Kind × List String)
  | .network s => some (.network, s.ids)
  | .implicitService s => some (.calendar, s.ids)
  | _ => none

variable (m : IdMap)

@[simp] theorem created_filter (st : Stage) (r : Record) : (st.filter m r).1.created = st.created := by
  cases st <;> rfl

/-- Every stage keeps a created record as it is. -/
theorem expand_of_creation (st : Stage) {k : Kind} {id : String} {e : Record} (h : Creation k id e) :
    st.expand m e = (st, none) := by
  have hk := h.kind
  rcases h with ⟨rfl, -⟩ | ⟨rfl, -⟩ <;>
    cases st <;> simp [expand, Redate.expand, Created.networks, Created.services, hk]

/-- A stage that keeps each of some records keeps them all, and its state. -/
theorem expandAll_of_keeps {st : Stage} :
    ∀ {ys : List Record}, (∀ y ∈ ys, st.expand m y = (st, none)) → st.expandAll m ys = (st, ys)
  | [], _ => rfl
  | y :: ys, h => by
    simp only [expandAll, h y List.mem_cons_self,
      expandAll_of_keeps fun z hz => h z (List.mem_cons_of_mem _ hz)]
    rfl

theorem expandAll_append (st : Stage) (A B : List Record) :
    st.expandAll m (A ++ B) =
      (((st.expandAll m A).1.expandAll m B).1, (st.expandAll m A).2 ++ ((st.expandAll m A).1.expandAll m B).2) := by
  induction A generalizing st with
  | nil => rfl
  | cons a A ih => simp only [List.cons_append, expandAll, ih, List.append_assoc]

variable {m} {x y : Record} {k : Kind} {ids : List String}

/-- A stage that creates identifiers keeps a copy of `x` when the map or the stage already knows
what `x` needs. -/
theorem expand_keeps_copy {st : Stage} (hst : st.created = some (k, ids)) (hy : CopyOf x y)
    (hknown : ∀ id, x.need = some (k, id) → m.contains k.fileName id = true ∨ id ∈ ids) :
    st.expand m y = (st, none) := by
  have hneed := hy.need_eq
  cases st with
  | network s =>
    simp only [created, Option.some.injEq, Prod.mk.injEq] at hst
    obtain ⟨rfl, rfl⟩ := hst
    simp only [expand, Created.networks]
    split
    · rename_i id hkind hcell
      split
      · rfl
      · rename_i hnew
        simp only [Bool.or_eq_true, not_or, Bool.not_eq_true, List.contains_eq_mem, decide_eq_false_iff_not] at hnew
        have hy : y.need = some (.network, id) := by simp [need, hkind, hcell, hnew.1.1]
        rcases hknown id (hneed ▸ hy) with h | h
        · simp [h] at hnew
        · exact absurd h hnew.2
    · rfl
  | implicitService s =>
    simp only [created, Option.some.injEq, Prod.mk.injEq] at hst
    obtain ⟨rfl, rfl⟩ := hst
    simp only [expand, Created.services]
    split
    · rename_i hkind
      split
      · rfl
      · rename_i hnew
        split
        · rename_i d hd
          simp only [Bool.or_eq_true, not_or, Bool.not_eq_true, List.contains_eq_mem, decide_eq_false_iff_not] at hnew
          have hy : y.need = some (.calendar, y.str "service_id") := by simp [need, hkind, hnew.1.1, hd]
          rcases hknown _ (hneed ▸ hy) with h | h
          · simp [h] at hnew
          · exact absurd h hnew.2
        · rfl
    · rfl
  | _ => simp [created] at hst

/-- A stage that creates identifiers creates what a copy of `x` needs when neither the map nor
the stage knows it, and puts it first. -/
theorem expand_creates {st : Stage} (hst : st.created = some (k, ids)) (hy : CopyOf x y) {id : String}
    (hneed : x.need = some (k, id)) (hm : m.contains k.fileName id = false) (hid : id ∉ ids) :
    ∃ e st', Creation k id e ∧ st'.created = some (k, id :: ids) ∧ st.expand m y = (st', some [e, y]) := by
  have hy' : y.need = some (k, id) := hy.need_eq.trans hneed
  have hne := need_ne_empty hneed
  cases st with
  | network s =>
    simp only [created, Option.some.injEq, Prod.mk.injEq] at hst
    obtain ⟨rfl, rfl⟩ := hst
    unfold need at hy'
    split at hy'
    · rename_i hkind
      split at hy'
      · rename_i id' hcell
        split at hy'
        · cases hy'
        · simp only [Option.some.injEq, Prod.mk.injEq, true_and] at hy'
          subst hy'
          refine ⟨_, .network ⟨id' :: s.ids⟩, .inl ⟨rfl, rfl⟩, rfl, ?_⟩
          simp [expand, Created.networks, hkind, hcell, hm, hid, hne]
      · cases hy'
    · split at hy' <;> simp at hy'
    · cases hy'
  | implicitService s =>
    simp only [created, Option.some.injEq, Prod.mk.injEq] at hst
    obtain ⟨rfl, rfl⟩ := hst
    unfold need at hy'
    split at hy'
    · split at hy'
      · split at hy' <;> simp at hy'
      · cases hy'
    · rename_i hkind
      split at hy'
      · cases hy'
      · rename_i hdated
        simp only [Option.some.injEq, Prod.mk.injEq, true_and] at hy'
        subst hy'
        simp only [Bool.or_eq_true, not_or, Bool.not_eq_true, Option.isNone_iff_eq_none] at hdated
        obtain ⟨d, hd⟩ := Option.ne_none_iff_exists'.mp hdated.2
        refine ⟨_, .implicitService ⟨y.str "service_id" :: s.ids⟩, .inr ⟨rfl, d, rfl⟩, rfl, ?_⟩
        simp [expand, Created.services, hkind, hm, hid, hne, hd]
    · cases hy'
  | _ => simp [created] at hst

/-- Over copies of `x`, a stage that creates identifiers either keeps them all, what `x` needs
being known to the map or to the stage, or creates it once, before them. -/
theorem expandAll_creating {st : Stage} (hst : st.created = some (k, ids)) :
    ∀ ys : List Record, (∀ y ∈ ys, CopyOf x y) →
      (st.expandAll m ys = (st, ys) ∧
        ∀ id, x.need = some (k, id) → ys ≠ [] → m.contains k.fileName id = true ∨ id ∈ ids) ∨
      ∃ id e, x.need = some (k, id) ∧ Creation k id e ∧
        (st.expandAll m ys).1.created = some (k, id :: ids) ∧ (st.expandAll m ys).2 = e :: ys := by
  intro ys hys
  by_cases hknown : ∀ id, x.need = some (k, id) → m.contains k.fileName id = true ∨ id ∈ ids
  · exact .inl ⟨expandAll_of_keeps m fun y hy => expand_keeps_copy hst (hys y hy) hknown,
      fun id h _ => hknown id h⟩
  · push Not at hknown
    obtain ⟨id, hneed, hm, hid⟩ := hknown
    cases ys with
    | nil => exact .inl ⟨rfl, fun _ _ h => absurd rfl h⟩
    | cons y ys =>
      obtain ⟨e, st', he, hcreated, hexp⟩ :=
        expand_creates hst (hys y List.mem_cons_self) hneed (by simpa using hm) hid
      -- the stage now knows the identifier, and keeps the later copies
      have hrest : st'.expandAll m ys = (st', ys) := expandAll_of_keeps m fun z hz =>
        expand_keeps_copy hcreated (hys z (List.mem_cons_of_mem _ hz)) fun id' h' => by
          rw [hneed] at h'
          cases h'
          exact .inr List.mem_cons_self
      refine .inr ⟨id, e, hneed, he, ?_, ?_⟩ <;> simp [expandAll, hexp, hrest, hcreated]

/-- A stage that creates nothing keeps its state, and makes of copies of `x` only copies of `x`. -/
theorem expandAll_of_created_none {st : Stage} (hst : st.created = none) (ys : List Record)
    (hys : ∀ y ∈ ys, CopyOf x y) :
    (st.expandAll m ys).1 = st ∧ ∀ o ∈ (st.expandAll m ys).2, CopyOf x o := by
  cases st with
  | redate d =>
    refine ⟨expandAll_redate m d ys,
      forall_expandAll m (fun st => st = .redate d) (fun st _ h => by subst h; rfl) ?_ _ ys rfl hys⟩
    intro st z hst' hz o ho
    subst hst'
    simp only [expand, Redate.expand] at ho
    split at ho
    · rename_i hdate
      simp only [Option.getD_some, List.mem_map] at ho
      obtain ⟨t, -, rfl⟩ := ho
      exact hz.setDate (by simp [hdate]) t
    · exact (List.mem_singleton.mp ho) ▸ hz
  | network s | implicitService s => simp [created] at hst
  | rename _ | defaultAgency _ | agencyTimezone _ | shapeDist _ =>
    rw [expandAll_of_keeps m fun _ _ => rfl]
    exact ⟨rfl, hys⟩

end Stage

namespace Pipeline

variable {m : IdMap}

/-- Every stage keeps created records as they are, so expanding created records followed by
others gives those records followed by what the others give. -/
theorem expandWith_creations_append : ∀ (ss : List Stage) (made ys : List Record),
    (∀ e ∈ made, ∃ k id, Creation k id e) →
    expandWith m ss (made ++ ys) = ((expandWith m ss ys).1, made ++ (expandWith m ss ys).2)
  | [], _, _, _ => rfl
  | st :: rest, made, ys, h => by
    have hkeep : st.expandAll m made = (st, made) := Stage.expandAll_of_keeps m fun e he => by
      obtain ⟨k, id, hc⟩ := h e he
      exact st.expand_of_creation m hc
    simp only [expandWith, Stage.expandAll_append, hkeep, expandWith_creations_append rest made _ h]

/-- What expanding copies `ys` of a record `x` through stages `ss` gave, `result`: records `made`
created for what `x` needs, then copies `ys'` of `x`, none when there were none. When a stage
creates what `x` needs and copies are left, the map or a stage knew it before, or it was made;
and every identifier the stages hold after, they held before or was made. -/
structure Expansion (m : IdMap) (x : Record) (ss : List Stage) (ys : List Record)
    (result : List Stage × List Record) (made ys' : List Record) : Prop where
  outputs : result.2 = made ++ ys'
  creations : ∀ e ∈ made, ∃ k id, x.need = some (k, id) ∧ Creation k id e
  copies : ∀ y ∈ ys', CopyOf x y
  empty : ys = [] → ys' = []
  served : ∀ k id, x.need = some (k, id) → (∃ st ∈ ss, ∃ ids, st.created = some (k, ids)) → ys' ≠ [] →
    m.contains k.fileName id = true ∨ (∃ st ∈ ss, ∃ ids, st.created = some (k, ids) ∧ id ∈ ids) ∨
      ∃ e ∈ made, Creation k id e
  states : ∀ st' ∈ result.1, ∀ k ids', st'.created = some (k, ids') → ∀ id ∈ ids',
    (∃ st ∈ ss, ∃ ids, st.created = some (k, ids) ∧ id ∈ ids) ∨ ∃ e ∈ made, Creation k id e

namespace Expansion

variable {x : Record}

theorem nil (ys : List Record) (hys : ∀ y ∈ ys, CopyOf x y) : Expansion m x [] ys ([], ys) [] ys where
  outputs := rfl
  creations := by simp
  copies := hys
  empty h := h
  served _ _ _ h := by simp at h
  states _ h := by simp at h

/-- What one stage makes of copies of `x`. -/
theorem stage (st : Stage) (ys : List Record) (hys : ∀ y ∈ ys, CopyOf x y) :
    ∃ made ys', Expansion m x [st] ys ([(st.expandAll m ys).1], (st.expandAll m ys).2) made ys' := by
  cases hst : st.created with
  | none =>
    obtain ⟨hstate, hcopies⟩ := Stage.expandAll_of_created_none (m := m) hst ys hys
    refine ⟨[], (st.expandAll m ys).2, ⟨rfl, by simp, hcopies, fun h => by subst h; rfl, ?_, ?_⟩⟩
    · rintro k id - ⟨st', hst', ids, hids⟩ -
      rw [List.mem_singleton.mp hst', hst] at hids
      cases hids
    · intro st' hst' k ids' hids'
      rw [List.mem_singleton.mp hst', hstate, hst] at hids'
      cases hids'
  | some p =>
    obtain ⟨k, ids⟩ := p
    rcases Stage.expandAll_creating (m := m) hst ys hys with ⟨hkeep, hknown⟩ | ⟨id, e, hneed, he, hcreated, hout⟩
    · -- the stage kept every copy, what they need being known
      refine ⟨[], ys, ⟨by simp [hkeep], by simp, hys, id, ?_, ?_⟩⟩
      · rintro k' id' hneed' ⟨st', hst', ids', hids'⟩ hne
        rw [List.mem_singleton.mp hst', hst] at hids'
        obtain ⟨rfl, rfl⟩ := Prod.mk.inj (Option.some.inj hids')
        rcases hknown id' hneed' hne with h | h
        · exact .inl h
        · exact .inr (.inl ⟨st, List.mem_singleton_self _, _, hst, h⟩)
      · intro st' hst' k' ids' hids' id' hid'
        rw [List.mem_singleton.mp hst', hkeep] at hids'
        exact .inl ⟨st, List.mem_singleton_self _, ids', hids', hid'⟩
    · -- the stage created what the copies need, before them
      refine ⟨[e], ys, ⟨hout, ?_, hys, fun h => h, ?_, ?_⟩⟩
      · intro e' he'
        rw [List.mem_singleton.mp he']
        exact ⟨k, id, hneed, he⟩
      · rintro k' id' hneed' - -
        rw [hneed] at hneed'
        obtain ⟨rfl, rfl⟩ := Prod.mk.inj (Option.some.inj hneed')
        exact .inr (.inr ⟨e, List.mem_singleton_self _, he⟩)
      · intro st' hst' k' ids' hids' id' hid'
        rw [List.mem_singleton.mp hst', hcreated] at hids'
        obtain ⟨rfl, rfl⟩ := Prod.mk.inj (Option.some.inj hids')
        rcases List.mem_cons.mp hid' with rfl | h
        · exact .inr ⟨e, List.mem_singleton_self _, he⟩
        · exact .inl ⟨st, List.mem_singleton_self _, ids, hst, h⟩

/-- A stage, then the stages after it. -/
theorem cons {st st' : Stage} {rest rest' : List Stage} {ys ys₁ ys₂ made₁ made₂ outs₂ : List Record}
    (h₁ : Expansion m x [st] ys ([st'], made₁ ++ ys₁) made₁ ys₁)
    (h₂ : Expansion m x rest ys₁ (rest', outs₂) made₂ ys₂) :
    Expansion m x (st :: rest) ys (st' :: rest', made₁ ++ outs₂) (made₁ ++ made₂) ys₂ where
  outputs := by rw [show outs₂ = made₂ ++ ys₂ from h₂.outputs, List.append_assoc]
  creations e he := by
    rcases List.mem_append.mp he with he | he
    · exact h₁.creations e he
    · exact h₂.creations e he
  copies := h₂.copies
  empty h := h₂.empty (h₁.empty h)
  served k id hneed hcreates hne := by
    obtain ⟨s, hs, ids, hids⟩ := hcreates
    rcases List.mem_cons.mp hs with rfl | hs
    · -- this stage creates it; copies were left after it, since some are left at the end
      have hne₁ : ys₁ ≠ [] := fun h => hne (h₂.empty h)
      rcases h₁.served k id hneed ⟨s, List.mem_singleton_self _, ids, hids⟩ hne₁ with
        h | ⟨s', hs', ids', h⟩ | ⟨e, he, hc⟩
      · exact .inl h
      · exact .inr (.inl ⟨s', List.mem_cons.mpr (.inl (List.mem_singleton.mp hs')), ids', h⟩)
      · exact .inr (.inr ⟨e, List.mem_append_left _ he, hc⟩)
    · rcases h₂.served k id hneed ⟨s, hs, ids, hids⟩ hne with h | ⟨s', hs', ids', h⟩ | ⟨e, he, hc⟩
      · exact .inl h
      · exact .inr (.inl ⟨s', List.mem_cons_of_mem _ hs', ids', h⟩)
      · exact .inr (.inr ⟨e, List.mem_append_right _ he, hc⟩)
  states s hs k ids' hids' id hid := by
    rcases List.mem_cons.mp hs with rfl | hs
    · rcases h₁.states s (List.mem_singleton_self _) k ids' hids' id hid with ⟨s', hs', ids, h⟩ | ⟨e, he, hc⟩
      · exact .inl ⟨s', List.mem_cons.mpr (.inl (List.mem_singleton.mp hs')), ids, h⟩
      · exact .inr ⟨e, List.mem_append_left _ he, hc⟩
    · rcases h₂.states s hs k ids' hids' id hid with ⟨s', hs', ids, h⟩ | ⟨e, he, hc⟩
      · exact .inl ⟨s', List.mem_cons_of_mem _ hs', ids, h⟩
      · exact .inr ⟨e, List.mem_append_right _ he, hc⟩

end Expansion

/-- The expansions of stages make of copies of `x` the records created for what `x` needs, then
copies of `x`. -/
theorem expandWith_copies (x : Record) : ∀ (ss : List Stage) (ys : List Record), (∀ y ∈ ys, CopyOf x y) →
    ∃ made ys', Expansion m x ss ys (expandWith m ss ys) made ys'
  | [], ys, hys => ⟨[], ys, .nil ys hys⟩
  | st :: rest, ys, hys => by
    obtain ⟨made₁, ys₁, h₁⟩ := Expansion.stage st ys hys
    rcases hex : st.expandAll m ys with ⟨st', outs₁⟩
    rw [hex] at h₁
    obtain rfl : outs₁ = made₁ ++ ys₁ := h₁.outputs
    obtain ⟨made₂, ys₂, h₂⟩ := expandWith_copies x rest ys₁ h₁.copies
    rcases hrest : expandWith m rest ys₁ with ⟨rest', outs₂⟩
    rw [hrest] at h₂
    -- what this stage created goes through the later stages as it is
    have hafter := expandWith_creations_append (m := m) rest made₁ ys₁ fun e he =>
      let ⟨k, id, _, hc⟩ := h₁.creations e he
      ⟨k, id, hc⟩
    refine ⟨made₁ ++ made₂, ys₂, ?_⟩
    simp only [expandWith, hex, hafter, hrest]
    exact Expansion.cons h₁ h₂

end Pipeline

namespace Issue

@[simp] theorem atLine_kind (i : Issue) (l : Option Nat) : (i.atLine l).kind = i.kind := by
  unfold atLine
  split <;> rfl

@[simp] theorem atLine_field (i : Issue) (l : Option Nat) : (i.atLine l).field = i.field := by
  unfold atLine
  split <;> rfl

@[simp] theorem atLine_value (i : Issue) (l : Option Nat) : (i.atLine l).value = i.value := by
  unfold atLine
  split <;> rfl

end Issue

namespace Record

/-- The checks of a column find no reference problem. -/
theorem kind_ne_reference_of_columnIssues {found : List Issue} {col : Column} {cell : Cell} {i : Issue}
    (h : i ∈ columnIssues found col cell) : i.kind ≠ .reference := by
  unfold columnIssues at h
  dsimp only at h
  split at h
  · simp at h
  split at h
  · split at h <;> simp_all [Issue.required]
  rcases List.mem_append.mp h with h | h
  · split at h
    · split at h <;> simp_all [Issue.range]
    · simp at h
  · split at h
    · simp at h
    · split at h
      · split at h <;> simp_all [Issue.enumeration]
      · simp at h

/-- The checks of the columns add no reference problem to those found before. -/
theorem mem_of_mem_foldl_columnIssues {j : Issue} (hkind : j.kind = .reference) :
    ∀ (l : List (Column × Cell)) (acc : List Issue),
      j ∈ l.foldl (fun found p => found ++ columnIssues found p.1 p.2) acc → j ∈ acc
  | [], _, hj => hj
  | _ :: l, _, hj => by
    rcases List.mem_append.mp (mem_of_mem_foldl_columnIssues hkind l _ hj) with hj | hj
    · exact hj
    · exact absurd hkind (kind_ne_reference_of_columnIssues hj)

/-- The reference problems of a route or a calendar date are those met while reading it. -/
theorem errors_reference {r : Record} (hk : r.kind = .route ∨ r.kind = .calendarDate) {i : Issue}
    (hi : i ∈ r.errors) (hkind : i.kind = .reference) : ∃ j ∈ r.loadIssues, i = j.atLine r.line := by
  simp only [errors, List.mem_map] at hi
  obtain ⟨j, hj, rfl⟩ := hi
  rw [Issue.atLine_kind] at hkind
  refine ⟨j, ?_, rfl⟩
  rcases List.mem_append.mp hj with hj | hj
  · -- the checks of the columns add no reference problem to those met while reading
    exact mem_of_mem_foldl_columnIssues hkind _ _ hj
  · rcases hk with hk | hk
    · -- the rules of routes find a missing name or a route type outside its set
      simp only [kindRules, hk, routeRules] at hj
      rcases List.mem_append.mp hj with hj | hj <;> split at hj <;> simp_all [Issue.required, Issue.enumeration]
    · simp [kindRules, hk] at hj

/-- A reference that does not resolve: the first filled reference column whose target the
lookup does not know. -/
theorem resolveKeys_error {r : Record} {lookup : KeyLookup} {i : Issue} :
    ∀ {l : List (Column × Cell)}, r.resolveKeys lookup l = .error i →
      ∃ p ∈ l, ∃ t, p.1.target = some t ∧ Cell.present p.1.optional p.2 = true ∧
        lookup t p.2.toText = none ∧ i = (Issue.reference p.1.name p.2.toText t.fileName).atLine r.line
  | [], h => by cases h
  | (col, c) :: rest, h => by
    unfold resolveKeys at h
    split at h
    · obtain ⟨p, hp, hrest⟩ := resolveKeys_error h
      exact ⟨p, List.mem_cons_of_mem _ hp, hrest⟩
    · rename_i t ht
      split at h
      · obtain ⟨p, hp, hrest⟩ := resolveKeys_error h
        exact ⟨p, List.mem_cons_of_mem _ hp, hrest⟩
      · rename_i hpresent
        dsimp only at h
        split at h
        · rename_i hnone
          cases h
          exact ⟨(col, c), List.mem_cons_self, t, ht, by simpa using hpresent, hnone, rfl⟩
        · cases hr : r.resolveKeys lookup rest with
          | ok _ => rw [hr] at h; cases h
          | error e =>
            rw [hr] at h
            cases h
            obtain ⟨p, hp, hrest⟩ := resolveKeys_error hr
            exact ⟨p, List.mem_cons_of_mem _ hp, hrest⟩

/-- A record fails to be remapped on a filled reference column whose target the lookup does not
know. -/
theorem updateKeys_error {r : Record} {lookup : KeyLookup} {i : Issue} (h : r.updateKeys lookup = .error i) :
    ∃ col ∈ r.kind.columns, ∃ t, col.target = some t ∧ Cell.present col.optional (r.cell col.name) = true ∧
      lookup t (r.str col.name) = none ∧
      i = (Issue.reference col.name (r.str col.name) t.fileName).atLine r.line := by
  unfold updateKeys at h
  split at h
  · rename_i e he
    cases h
    obtain ⟨p, hp, t, ht, hpresent, hnone, rfl⟩ := resolveKeys_error he
    have hcell := cell_of_mem_zip hp
    refine ⟨p.1, (List.of_mem_zip hp).1, t, ht, ?_, ?_, ?_⟩ <;> simp only [str, hcell] <;> assumption
  · cases h

end Record

/-- The problems a source raises for a collection: the rows of its stream it could not read,
and the problems met while reading the records of that collection it hands out. -/
def Source.Raises (source : Source) (k : Kind) (i : Issue) : Prop :=
  (∃ st, source.read k = .ok (some st) ∧ .error i ∈ st.items) ∨
    ∃ r, source.HandsOut r ∧ r.kind = k ∧ ∃ j ∈ r.loadIssues, i = j.atLine r.line

/-- Stages that create the identifiers of a collection. -/
def Pipeline.Creates (p : Pipeline) (k : Kind) : Prop :=
  ∃ st ∈ p.stages, ∃ ids, st.created = some (k, ids)

/-- The reference problems a report of collection `k` may keep in a copy that started with the
stages `p₀`: with stages creating networks, a problem on the network of a route is one the
source raised or one of an empty network identifier; with stages creating calendars, a problem
on the service of a calendar date is one the source raised or one of a calendar date that the
source handed out without a date. -/
def Allowed (source : Source) (p₀ : Pipeline) (k : Kind) (i : Issue) : Prop :=
  (k = .route → p₀.Creates .network → i.kind = .reference → i.field = some "network_id" →
    source.Raises .route i ∨ i.value = some "") ∧
  (k = .calendarDate → p₀.Creates .calendar → i.kind = .reference → i.field = some "service_id" →
    source.Raises .calendarDate i ∨
      ∃ r, source.HandsOut r ∧ r.kind = .calendarDate ∧ r.date? "date" = none ∧
        i.value = some (r.str "service_id"))

/-- A record the filters made of a record that the source handed out, read as readers build
records. -/
def FromSource (source : Source) (x : Record) : Prop :=
  ∃ r, source.HandsOut r ∧ r.Shaped ∧ CopyOf r x

namespace Record

/-- What a record needs comes from a route or a calendar date. -/
theorem need_kind {x : Record} {k : Kind} {id : String} (h : x.need = some (k, id)) :
    (k = .network ∧ x.kind = .route) ∨ (k = .calendar ∧ x.kind = .calendarDate) := by
  unfold need at h
  split at h
  · rename_i hk
    split at h
    · split at h
      · cases h
      · exact .inl ⟨(Prod.mk.inj (Option.some.inj h)).1.symm, hk⟩
    · cases h
  · rename_i hk
    split at h
    · cases h
    · exact .inr ⟨(Prod.mk.inj (Option.some.inj h)).1.symm, hk⟩
  · cases h

end Record

namespace Pipeline

variable (m : IdMap)

theorem filterWith_invariant {β : Type} (g : Record → β) (hg : ∀ r name c, g (r.setCell name c) = g r) :
    ∀ (stages : List Stage) (r : Record), g (filterWith m stages r).2 = g r
  | [], _ => rfl
  | st :: rest, r => by
    simp only [filterWith]
    rw [filterWith_invariant g hg rest, Stage.filter_invariant m g hg]

/-- The filters make a copy of a record. -/
theorem copyOf_filter (p : Pipeline) (r : Record) : CopyOf r (p.filter m r).2 := by
  refine ⟨filter_kind m p r, filterWith_invariant m (·.line) (by simp) p.stages r,
    filterWith_invariant m (·.loadIssues) (by simp) p.stages r, fun hk => ?_, fun hk => ?_⟩
  · rw [filter_kind] at hk
    exact filter_cell_of_route p hk (by decide) (by decide)
  · rw [filter_kind] at hk
    rw [filter_of_calendarDate p hk]
    exact ⟨rfl, rfl⟩

theorem map_created_filterWith : ∀ (stages : List Stage) (r : Record),
    (filterWith m stages r).1.map Stage.created = stages.map Stage.created
  | [], _ => rfl
  | st :: rest, r => by
    simp only [filterWith, List.map_cons, Stage.created_filter, map_created_filterWith rest]

variable {m}

/-- Stages that create the identifiers of a collection are known by their names. -/
theorem Creates.of_names {p q : Pipeline} (h : q.names = p.names) {k : Kind} (hp : p.Creates k) :
    q.Creates k := by
  obtain ⟨st, hst, ids, hids⟩ := hp
  have hname : st.name ∈ q.names := by
    rw [h]
    exact List.mem_map_of_mem hst
  obtain ⟨st', hst', hname'⟩ := List.mem_map.mp hname
  refine ⟨st', hst', ?_⟩
  cases st <;> cases st' <;> simp_all [Stage.created, Stage.name]

end Pipeline

section Resolution

open Copying

variable {σ : Type} (source : Source) (p₀ : Pipeline)

/-- The reports are in collection order and keep only allowed problems, and the stages are
those the copy started with, in the states they reached. -/
structure Resolving (s : Run (σ × List Record)) : Prop where
  ordered : ReportsOrdered s.reports
  reports : ∀ k, ∀ i ∈ (s.report k).errors, Allowed source p₀ k i
  names : s.pipeline.names = p₀.names

/-- An identifier of a collection is recorded: the map knows it, and a record created for it
was handed to the destination. -/
def Recorded (s : Run (σ × List Record)) (k : Kind) (id : String) : Prop :=
  s.map.contains k.fileName id = true ∧ ∃ e ∈ s.store.2, Creation k id e

/-- Every identifier a stage created is recorded. -/
def Known (s : Run (σ × List Record)) : Prop :=
  ∀ st ∈ s.pipeline.stages, ∀ k ids, st.created = some (k, ids) → ∀ id ∈ ids, Recorded s k id

/-- The map and the log of the later state extend those of the earlier one. -/
def Grew (s s' : Run (σ × List Record)) : Prop := MapGrows s s' ∧ s.store.2 <+: s'.store.2

/-- The map and the log grew, and the stages stayed as they were. -/
def Stayed (s s' : Run (σ × List Record)) : Prop := Grew s s' ∧ s'.pipeline = s.pipeline

instance : IsPreorder (Run (σ × List Record)) Grew where
  refl _ := ⟨fun _ _ h => h, List.prefix_refl _⟩
  trans _ _ _ h h' := ⟨fun c o hc => h'.1 c o (h.1 c o hc), h.2.trans h'.2⟩

instance : IsPreorder (Run (σ × List Record)) Stayed where
  refl s := ⟨refl_of Grew s, rfl⟩
  trans _ _ _ h h' := ⟨trans_of Grew h.1 h'.1, h'.2.trans h.2⟩

/-- While the records created for what `x` needs, `made`, and the copies `ys` of `x` are still to
be written: what the copies need, when the stages create it, is known to the map or created
among `made`, and every identifier a stage holds is recorded or created among `made`. -/
def PendingWith (x : Record) (made ys : List Record) (s : Run (σ × List Record)) : Prop :=
  (∀ k id, x.need = some (k, id) → p₀.Creates k → ys ≠ [] →
      s.map.contains k.fileName id = true ∨ ∃ e ∈ made, Creation k id e) ∧
    ∀ st ∈ s.pipeline.stages, ∀ k ids, st.created = some (k, ids) → ∀ id ∈ ids,
      Recorded s k id ∨ ∃ e ∈ made, Creation k id e

/-- Before what the stages made of a record `x` is written: records created for what `x` needs,
then copies of `x`, still to be written as `PendingWith` says. -/
def Pending (x : Record) (outs : List Record) (s : Run (σ × List Record)) : Prop :=
  ∃ made ys, outs = made ++ ys ∧ (∀ e ∈ made, ∃ k id, x.need = some (k, id) ∧ Creation k id e) ∧
    (∀ y ∈ ys, CopyOf x y) ∧ PendingWith p₀ x made ys s

variable {source p₀}

theorem Recorded.mono {s s' : Run (σ × List Record)} {k : Kind} {id : String} (h : Recorded s k id)
    (hg : Grew s s') : Recorded s' k id :=
  ⟨hg.1 _ _ h.1, let ⟨e, he, hc⟩ := h.2; ⟨e, hg.2.subset he, hc⟩⟩

theorem Known.mono {s s' : Run (σ × List Record)} (h : Known s) (hs : Stayed s s') : Known s' := by
  intro st hst k ids hids id hid
  rw [hs.2] at hst
  exact (h st hst k ids hids id hid).mono hs.1

theorem PendingWith.mono {x : Record} {made ys : List Record} {s s' : Run (σ × List Record)}
    (h : PendingWith p₀ x made ys s) (hs : Stayed s s') : PendingWith p₀ x made ys s' := by
  obtain ⟨hserved, hknown⟩ := h
  refine ⟨fun k id hneed hk hne => ?_, fun st hst k ids hids id hid => ?_⟩
  · rcases hserved k id hneed hk hne with h | h
    · exact .inl (hs.1.1 _ _ h)
    · exact .inr h
  · rw [hs.2] at hst
    rcases hknown st hst k ids hids id hid with h | h
    · exact .inl (h.mono hs.1)
    · exact .inr h

/-- Once the first record created is written and recorded, the others are still to come. -/
theorem PendingWith.written {x e : Record} {made ys : List Record} {s : Run (σ × List Record)}
    (h : PendingWith p₀ x (e :: made) ys s) {k : Kind} {id : String} (he : Creation k id e)
    (hrec : Recorded s k id) : PendingWith p₀ x made ys s := by
  obtain ⟨hserved, hknown⟩ := h
  -- a creation names its collection and its identifier, so `e` stands for `id` alone
  have hsame : ∀ k' id', Creation k' id' e → k' = k ∧ id' = id := fun k' id' he' =>
    ⟨he'.kind.symm.trans he.kind, he'.entityId.symm.trans he.entityId⟩
  refine ⟨fun k' id' hneed hk hne => ?_, fun st hst k' ids hids id' hid => ?_⟩
  · rcases hserved k' id' hneed hk hne with h | ⟨e', he', hc⟩
    · exact .inl h
    rcases List.mem_cons.mp he' with rfl | he'
    · obtain ⟨rfl, rfl⟩ := hsame k' id' hc
      exact .inl hrec.1
    · exact .inr ⟨e', he', hc⟩
  · rcases hknown st hst k' ids hids id' hid with h | ⟨e', he', hc⟩
    · exact .inl h
    rcases List.mem_cons.mp he' with rfl | he'
    · obtain ⟨rfl, rfl⟩ := hsame k' id' hc
      exact .inl hrec
    · exact .inr ⟨e', he', hc⟩

/-- With nothing left to write, every identifier a stage holds is recorded. -/
theorem PendingWith.known {x : Record} {ys : List Record} {s : Run (σ × List Record)}
    (h : PendingWith p₀ x [] ys s) : Known s := by
  intro st hst k ids hids id hid
  simpa using h.2 st hst k ids hids id hid

theorem mem_errors_foldl_addError (limit : Nat) :
    ∀ (errors : List Issue) (c : CollectionReport) {i : Issue},
      i ∈ (errors.foldl (fun c e => c.addError e limit) c).errors → i ∈ c.errors ∨ i ∈ errors
  | [], _, _, h => .inl h
  | e :: es, c, i, h => by
    rcases mem_errors_foldl_addError limit es _ h with h | h
    · simp only [CollectionReport.addError] at h
      split at h
      · rcases List.mem_append.mp h with h | h
        · exact .inl h
        · exact .inr (by simp_all)
      · exact .inl h
    · exact .inr (List.mem_cons_of_mem _ h)

namespace Resolving

variable {s s' : Run (σ × List Record)}

theorem start (store : σ) (map : IdMap) (options : CopyOptions) :
    Resolving source p₀ ({ store := (store, []), map, pipeline := p₀, options } : Run (σ × List Record)) :=
  ⟨List.Pairwise.nil, fun _ _ hi => by simp [Run.report] at hi, rfl⟩

/-- Only the reports and the stages matter. -/
theorem of_eq (h : Resolving source p₀ s) (hreports : s'.reports = s.reports)
    (hpipeline : s'.pipeline = s.pipeline) : Resolving source p₀ s' :=
  ⟨hreports ▸ h.ordered, fun k => by simp only [Run.report, hreports]; exact h.reports k,
    hpipeline ▸ h.names⟩

/-- Changing the report of one collection so that it keeps allowed problems only. -/
theorem update (h : Resolving source p₀ s) {k : Kind} {f : CollectionReport → CollectionReport}
    (hf : ∀ c, (f c).kind = c.kind) (hkept : ∀ i ∈ (f (s.report k)).errors, Allowed source p₀ k i) :
    Resolving source p₀ { s with reports := updateReport k f s.reports } := by
  refine ⟨updateReport_ordered hf h.ordered, fun k' i hi => ?_, h.names⟩
  simp only [Run.report, reportOf_updateReport hf h.ordered] at hi
  split at hi
  · rename_i hk
    subst hk
    exact hkept i hi
  · exact h.reports k' i hi

/-- Adding warnings keeps the invariant. -/
theorem warnsOnly (h : Resolving source p₀ s) (hw : WarnsOnly s.reports s'.reports)
    (hpipeline : s'.pipeline = s.pipeline) : Resolving source p₀ s' := by
  obtain ⟨hordered, htally⟩ := hw h.ordered
  refine ⟨hordered, fun k i hi => h.reports k i ?_, hpipeline ▸ h.names⟩
  have hkept : (s'.report k).errors = (s.report k).errors := congrArg CollectionReport.Tally.kept (htally k)
  rwa [hkept] at hi

end Resolving

/-- Problems of collections other than routes and calendar dates are always allowed. -/
theorem allowed_of_ne {k : Kind} (hroute : k ≠ .route) (hdate : k ≠ .calendarDate) (i : Issue) :
    Allowed source p₀ k i :=
  ⟨fun h => absurd h hroute, fun h => absurd h hdate⟩

/-- The unreadable rows of a collection's stream are raised by the source. -/
theorem allowed_of_item {k : Kind} {st : Stream} (hread : source.read k = .ok (some st)) {i : Issue}
    (hi : .error i ∈ st.items) : Allowed source p₀ k i :=
  ⟨fun hk _ _ _ => .inl (.inl ⟨st, hk ▸ hread, hi⟩), fun hk _ _ _ => .inl (.inl ⟨st, hk ▸ hread, hi⟩)⟩

/-- The problems of a copy of a record the source handed out are those the source raised, as
far as references go. -/
theorem allowed_of_copy {x y : Record} (hx : FromSource source x) (hy : CopyOf x y) :
    ∀ i ∈ y.errors, Allowed source p₀ y.kind i := by
  obtain ⟨r, hr, -, hrx⟩ := hx
  have hry := hrx.trans hy
  -- a reference problem of the copy was met while reading the source record
  have hraised : y.kind = .route ∨ y.kind = .calendarDate → ∀ i ∈ y.errors, i.kind = .reference →
      source.Raises y.kind i := fun hk i hi hkind => by
    obtain ⟨j, hj, rfl⟩ := errors_reference hk hi hkind
    exact .inr ⟨r, hr, hry.kind.symm, j, hry.loadIssues ▸ hj, by rw [hry.line]⟩
  intro i hi
  exact ⟨fun hk _ hkind _ => .inl (hk ▸ hraised (.inl hk) i hi hkind),
    fun hk _ hkind _ => .inl (hk ▸ hraised (.inr hk) i hi hkind)⟩

theorem route_network_column : ∀ col ∈ Kind.route.columns, col.name = "network_id" →
    col.target = some .network ∧ col.type = .text ∧ col.optional = true := by
  decide

theorem calendarDate_service_column : ∀ col ∈ Kind.calendarDate.columns, col.name = "service_id" →
    col.target = some .calendar ∧ col.type = .text ∧ col.optional = false := by
  decide

/-- A route copied from one the source handed out, whose network the map does not know while it
knows what the route needs, names the empty network. -/
theorem network_empty_of_unknown {x y : Record} (hx : FromSource source x) (hy : CopyOf x y)
    (hk : y.kind = .route) {m : IdMap}
    (hserved : ∀ id, x.need = some (.network, id) → m.contains Kind.network.fileName id = true)
    {opt : Bool} (hpresent : Cell.present opt (y.cell "network_id") = true)
    (hunknown : m.contains Kind.network.fileName (y.str "network_id") = false) :
    y.str "network_id" = "" := by
  obtain ⟨r, -, hshaped, hrx⟩ := hx
  have hxk : x.kind = .route := hy.kind.symm.trans hk
  have hrk : r.kind = .route := hrx.kind.symm.trans hxk
  have hcell : y.cell "network_id" = r.cell "network_id" := (hy.network hk).trans (hrx.network hxk)
  obtain ⟨col, hcol, hname, htype⟩ :
      ∃ col ∈ Kind.route.columns, col.name = "network_id" ∧ col.type = .text := by decide
  -- the source gave a text, or nothing, for the network
  cases hv : r.cell "network_id" with
  | none => simp [hcell, hv, Cell.present] at hpresent
  | some v =>
    have hadmits := hshaped.admits (hrk ▸ hcol) (hname ▸ hv)
    rw [htype] at hadmits
    cases v with
    | text n =>
      by_cases hn : n = ""
      · simp [str, hcell, hv, hn, Cell.toText, FieldValue.toText]
      · -- a route naming a network needs it, and the map knows what it needs
        have hneed : x.need = some (.network, n) := by simp [need, hxk, hrx.network hxk, hv, hn]
        simp [str, hcell, hv, Cell.toText, FieldValue.toText, hserved _ hneed] at hunknown
    | _ => simp [FieldType.admits] at hadmits

/-- A calendar date copied from one the source handed out, whose service the map does not know
while it knows what the calendar date needs, was handed out without a date. -/
theorem undated_of_unknown_service {x y : Record} (hx : FromSource source x) (hy : CopyOf x y)
    (hk : y.kind = .calendarDate) {m : IdMap}
    (hserved : ∀ id, x.need = some (.calendar, id) → m.contains Kind.calendar.fileName id = true)
    (hpresent : Cell.present false (y.cell "service_id") = true)
    (hunknown : m.contains Kind.calendar.fileName (y.str "service_id") = false) :
    ∃ r, source.HandsOut r ∧ r.kind = .calendarDate ∧ r.date? "date" = none ∧
      r.str "service_id" = y.str "service_id" := by
  obtain ⟨r, hr, hshaped, hrx⟩ := hx
  have hxk : x.kind = .calendarDate := hy.kind.symm.trans hk
  have hrk : r.kind = .calendarDate := hrx.kind.symm.trans hxk
  obtain ⟨hcell, -⟩ := hy.service hk
  obtain ⟨hcell', hdated'⟩ := hrx.service hxk
  obtain ⟨col, hcol, hname, htype⟩ :
      ∃ col ∈ Kind.calendarDate.columns, col.name = "service_id" ∧ col.type = .text := by decide
  refine ⟨r, hr, hrk, ?_, by simp [str, hcell, hcell']⟩
  -- a dated calendar date needs its service, which the map would know
  cases hd : r.date? "date" with
  | none => rfl
  | some d =>
    exfalso
    cases hv : r.cell "service_id" with
    | none => simp [hcell, hcell', hv, Cell.present] at hpresent
    | some v =>
      have hadmits := hshaped.admits (hrk ▸ hcol) (hname ▸ hv)
      rw [htype] at hadmits
      cases v with
      | text n =>
        have hn : n ≠ "" := by
          simpa [hcell, hcell', hv, Cell.present, FieldValue.present] using hpresent
        have hxdated : x.date? "date" ≠ none := fun h => by rw [h, hd] at hdated'; cases hdated'
        have hneed : x.need = some (.calendar, n) := by
          simp [need, hxk, str, hcell', hv, hn, hxdated, Cell.toText, FieldValue.toText]
        simp [str, hcell, hcell', hv, Cell.toText, FieldValue.toText, hserved _ hneed] at hunknown
      | _ => simp [FieldType.admits] at hadmits

/-- A copy of a record the source handed out fails to be remapped on the network of a route only
when that network is empty, and on the service of a calendar date only when the calendar date
has no date, once what it needs, when stages create it, is known to the map. -/
theorem allowed_of_keys {x y : Record} (hx : FromSource source x) (hy : CopyOf x y) {m : IdMap}
    (hserved : ∀ k id, x.need = some (k, id) → p₀.Creates k → m.contains k.fileName id = true) {i : Issue}
    (hi : y.updateKeys (fun k old => m.get? k.fileName old) = .error i) :
    Allowed source p₀ y.kind (i.atLine y.line) := by
  obtain ⟨col, hcol, t, ht, hpresent, hnone, rfl⟩ := updateKeys_error hi
  -- the failing lookup rules out an identifier the map knows
  have hunknown : ∀ k : Kind, k.fileName = t.fileName → m.contains k.fileName (y.str col.name) = false := by
    intro k hk
    simp [IdMap.contains, hk, hnone]
  refine ⟨fun hk hnet _ hfield => .inr ?_, fun hk hcal _ hfield => .inr ?_⟩
  · have hname : col.name = "network_id" := by simpa [Issue.reference] using hfield
    obtain ⟨htarget, -, -⟩ := route_network_column col (by rwa [hk] at hcol) hname
    obtain rfl : t = .network := by rw [htarget] at ht; exact (Option.some.inj ht).symm
    rw [hname] at hpresent hunknown ⊢
    have hempty := network_empty_of_unknown hx hy hk (fun id hneed => hserved _ id hneed hnet) hpresent
      (hunknown .network rfl)
    simp [Issue.reference, hempty]
  · have hname : col.name = "service_id" := by simpa [Issue.reference] using hfield
    obtain ⟨htarget, -, hopt⟩ := calendarDate_service_column col (by rwa [hk] at hcol) hname
    obtain rfl : t = .calendar := by rw [htarget] at ht; exact (Option.some.inj ht).symm
    rw [hname, hopt] at hpresent
    rw [hname] at hunknown ⊢
    obtain ⟨r, hr, hrk, hd, hservice⟩ := undated_of_unknown_service hx hy hk
      (fun id hneed => hserved _ id hneed hcal) hpresent (hunknown .calendar rfl)
    exact ⟨r, hr, hrk, hd, by simp [Issue.reference, hservice]⟩


/-! ### The walk of a copy -/

/-- A step that keeps the stages keeps every identifier they hold recorded. -/
theorem Copying.Keeps.known {α : Type} {P : Run (σ × List Record) → Prop}
    {x : Copying (σ × List Record) α} {Q : α → Run (σ × List Record) → Prop}
    (h : Keeps (Resolving source p₀) Stayed P x Q) :
    Keeps (Resolving source p₀) Grew (fun s => P s ∧ Known s) x fun a s => Q a s ∧ Known s :=
  (h.frame fun _ _ hk hs => hk.mono hs).coarsen fun _ _ hs => hs.1

/-- A step with no precondition and no postcondition that keeps the stages keeps every
identifier they hold recorded. -/
theorem Copying.Keeps.stays_known {α : Type} {x : Copying (σ × List Record) α}
    (h : Keeps (Resolving source p₀) Stayed (fun _ => True) x fun _ _ => True) :
    Keeps (Resolving source p₀) Grew Known x fun _ => Known :=
  h.known.mono (fun _ h => ⟨trivial, h⟩) fun _ _ h => h.2

theorem stayed_of_eq {s s' : Run (σ × List Record)} (hstore : s'.store = s.store)
    (hmap : s'.map = s.map) (hpipeline : s'.pipeline = s.pipeline) : Stayed s s' :=
  ⟨⟨fun _ _ h => by rw [hmap]; exact h, by rw [hstore]⟩, hpipeline⟩

theorem countRead_resolving (k : Kind) :
    Keeps (Resolving source p₀) Stayed (fun _ => True) (countRead (σ := σ × List Record) k)
      fun _ _ => True := by
  intro s hi _
  rw [exec_countRead]
  exact ⟨hi.update (fun _ => rfl) (hi.reports k), stayed_of_eq rfl rfl rfl, fun _ _ => trivial⟩

theorem warn_resolving (k : Kind) (ws : List Issue) :
    Keeps (Resolving source p₀) Stayed (fun _ => True) (warn (σ := σ × List Record) k ws)
      fun _ _ => True := by
  intro s hi _
  rw [exec_warn]
  exact ⟨hi.warnsOnly (warnsOnly_updateReport k ws _ s.reports) rfl, stayed_of_eq rfl rfl rfl,
    fun _ _ => trivial⟩

/-- Dropping records with allowed problems keeps the invariant. -/
theorem reject_resolving (k : Kind) (errors : List Issue) (dropped : Nat)
    (herr : ∀ i ∈ errors, Allowed source p₀ k i) :
    Keeps (Resolving source p₀) Stayed (fun _ => True) (reject (σ := σ × List Record) k errors dropped)
      fun _ _ => True := by
  intro s hi _
  cases hf : s.options.failFast
  · rw [exec_reject_lenient _ _ _ _ hf]
    refine ⟨hi.update (fun c => (CollectionReport.foldl_addError errors _ _).1) fun i h => ?_,
      stayed_of_eq rfl rfl rfl, fun _ _ => trivial⟩
    rcases mem_errors_foldl_addError _ errors _ h with h | h
    · exact hi.reports k i h
    · exact herr i h
  · cases errors with
    | nil =>
      have hnil : exec (reject (σ := σ × List Record) k [] dropped) s = (.ok (), s) := by
        simp [reject, exec_bind, hf]
      rw [hnil]
      exact ⟨hi, refl_of Stayed s, fun _ _ => trivial⟩
    | cons e es =>
      rw [exec_reject_failFast _ _ _ _ _ hf]
      exact ⟨hi, refl_of Stayed s, fun _ h => by cases h⟩

/-- What preparing a record gave: a ready record is the record remapped, a waiting one is the
record itself, a stop, and a dropped one had problems or a reference that did not resolve. -/
def PreparedOf (r : Record) : Prepared → Prop
  | .ready e => ∃ lookup, r.updateKeys lookup = .ok e
  | .deferred e => e = r ∧ r.kind = .stop
  | .rejected => r.errors ≠ [] ∨ ∃ lookup i, r.updateKeys lookup = .error i

variable (source p₀) in
/-- The problems of remapping a record on the map of a state are allowed. -/
def KeysAllowed (r : Record) (s : Run (σ × List Record)) : Prop :=
  ∀ i, r.updateKeys (fun k old => s.map.get? k.fileName old) = .error i →
    Allowed source p₀ r.kind (i.atLine r.line)

theorem prepare_resolving (r : Record) (canDefer : Bool)
    (hown : ∀ i ∈ r.errors, Allowed source p₀ r.kind i) :
    Keeps (Resolving source p₀) Stayed (KeysAllowed source p₀ r) (prepare (σ := σ × List Record) r canDefer)
      fun p _ => PreparedOf r p := by
  have hreject : ∀ errors, (∀ i ∈ errors, Allowed source p₀ r.kind i) → PreparedOf r .rejected →
      Keeps (Resolving source p₀) Stayed (fun _ => True)
        (reject (σ := σ × List Record) r.kind errors 1 >>= fun _ => pure Prepared.rejected)
        fun p _ => PreparedOf r p :=
    fun errors herr hrejected => (reject_resolving r.kind errors 1 herr).bind fun _ =>
      Keeps.pure _ fun _ _ => hrejected
  intro s hi hkeys
  rw [exec_prepare]
  split
  · rename_i he
    exact hreject _ hown (.inl he.1) s hi trivial
  split
  · rename_i hw
    exact ⟨hi, refl_of Stayed s, fun a ha => by
      cases ha
      exact ⟨rfl, (waitsForParent_eq_true.mp hw.2).1⟩⟩
  split
  · rename_i i hkey
    exact hreject _ (by simpa using hkeys i hkey) (.inr ⟨_, i, hkey⟩) s hi trivial
  · rename_i e hkey
    exact ⟨hi.warnsOnly (warnsOnly_updateReport _ _ _ _) rfl, stayed_of_eq rfl rfl rfl,
      fun a ha => by cases ha; exact ⟨_, hkey⟩⟩

/-- Writing a record logs it and, when its kind has identifiers, records the identifier it is
written under. -/
theorem write_resolving (sink : Sink σ) (e : Record) (oldId : String) :
    Keeps (Resolving source p₀) Stayed (fun _ => True) (write sink.logged e oldId)
      fun _ s => e ∈ s.store.2 ∧
        (e.kind.idColumn?.isSome → oldId ≠ "" → s.map.contains e.kind.fileName oldId = true) := by
  refine Keeps.write fun s st newId hi _ hadd => ?_
  obtain ⟨store, -, rfl⟩ := Sink.logged_add_eq_ok hadd
  -- the destination takes the record, then the map notes it, which only adds warnings
  obtain ⟨-, hpipeline, -, hwarn⟩ :=
    note_frame e oldId newId { s with store := (store, s.store.2 ++ [e]) }
  have hstored : Resolving source p₀ { s with store := (store, s.store.2 ++ [e]) } := hi.of_eq rfl rfl
  have hnoted := hstored.warnsOnly hwarn hpipeline
  have hlog : (written s e oldId newId (store, s.store.2 ++ [e])).store.2 = s.store.2 ++ [e] := by
    simp
  refine ⟨hnoted.update (fun _ => rfl) (hnoted.reports e.kind), ⟨⟨fun c o h => note_contains_of h, ?_⟩, ?_⟩,
    ⟨?_, fun hid hne => note_contains_self hid (.inl hne)⟩⟩
  · show s.store.2 <+: (written s e oldId newId (store, s.store.2 ++ [e])).store.2
    rw [hlog]
    exact List.prefix_append _ _
  · simp
  · rw [hlog]
    simp

theorem flush_resolving (sink : Sink σ) (batch : List Record) :
    Keeps (Resolving source p₀) Stayed (fun _ => True) (flush sink.logged batch) fun _ _ => True := by
  refine Keeps.flush fun s st ids hi _ hadd => ?_
  obtain ⟨store, -, rfl⟩ := Sink.logged_addAll_eq_ok hadd
  have hstored : Resolving source p₀ { s with store := (store, s.store.2 ++ batch) } := hi.of_eq rfl rfl
  exact ⟨hstored.update (fun _ => rfl) (hi.reports _), ⟨fun _ _ h => h, List.prefix_append _ _⟩, rfl⟩

/-- The filters keep what every stage created, and change no cell an expansion reads. -/
theorem filterStages_resolving (r : Record) :
    Keeps (Resolving source p₀) Grew Known (filterStages (σ := σ × List Record) r)
      fun r' s => CopyOf r r' ∧ Known s := by
  intro s hi hk
  rw [exec_filterStages]
  have hnames : (s.pipeline.filter s.map r).1.names = s.pipeline.names :=
    Pipeline.map_name_filterWith s.map s.pipeline.stages r
  refine ⟨⟨hi.ordered, hi.reports, hnames.trans hi.names⟩, refl_of Grew s, fun a ha => ?_⟩
  cases ha
  refine ⟨Pipeline.copyOf_filter s.map s.pipeline r, fun st hst k ids hids id hid => ?_⟩
  have hmem : st.created ∈ s.pipeline.stages.map Stage.created := by
    rw [← Pipeline.map_created_filterWith s.map s.pipeline.stages r]
    exact List.mem_map_of_mem hst
  obtain ⟨st₀, hst₀, heq⟩ := List.mem_map.mp hmem
  exact hk st₀ hst₀ k ids (heq.trans hids) id hid

/-- The expansions of a record give what `Pending` says. -/
theorem expandStages_resolving (x : Record) :
    Keeps (Resolving source p₀) Grew Known (expandStages (σ := σ × List Record) x)
      fun outs s => Pending p₀ x outs s := by
  intro s hi hk
  rw [exec_expandStages]
  obtain ⟨made, ys, hexp⟩ :=
    Pipeline.expandWith_copies (m := s.map) x s.pipeline.stages [x] (by simpa using CopyOf.refl x)
  have hnames : (s.pipeline.expand s.map x).1.names = s.pipeline.names :=
    Pipeline.map_name_expandWith s.map s.pipeline.stages [x]
  refine ⟨⟨hi.ordered, hi.reports, hnames.trans hi.names⟩, refl_of Grew s, fun a ha => ?_⟩
  cases ha
  refine ⟨made, ys, hexp.outputs, hexp.creations, hexp.copies, fun k id hneed hcreates hne => ?_,
    fun st hst k ids hids id hid => ?_⟩
  · -- what the copies need is known, held by a stage and so recorded, or created now
    obtain ⟨st, hst, ids, hids⟩ := Pipeline.Creates.of_names hi.names hcreates
    rcases hexp.served k id hneed ⟨st, hst, ids, hids⟩ hne with h | ⟨st', hst', ids', hids', hid'⟩ | h
    · exact .inl h
    · exact .inl (hk st' hst' k ids' hids' id hid').1
    · exact .inr h
  · rcases hexp.states st hst k ids hids id hid with ⟨st', hst', ids', hids', hid'⟩ | h
    · exact .inl (hk st' hst' k ids' hids' id hid')
    · exact .inr h

section Settle

variable (sink : Sink σ) (oldId filteredId : String) {x out : Record} {rest : List Record}
  {s₀ : Run (σ × List Record)}
  (tail : ∀ waiting : List (Record × String), (∀ q ∈ waiting, q.1.kind = .stop) →
    Keeps (Resolving source p₀) Stayed (Pending p₀ x rest)
      (settle sink.logged x.kind oldId filteredId rest >>= fun l => pure (waiting ++ l))
      fun w s => (∀ q ∈ w, q.1.kind = .stop) ∧ Known s)

include tail in
/-- A record a stage created for what `x` needs comes first: it has no problem and refers to
nothing, so it is written under the identifier it was created for, which the map then records,
and the later outputs are settled after it. -/
theorem settle_created_resolving {made ys : List Record} (hsplit : rest = made ++ ys)
    (hmade : ∀ e ∈ out :: made, ∃ k id, x.need = some (k, id) ∧ Creation k id e)
    (hys : ∀ y ∈ ys, CopyOf x y) (hwith : PendingWith p₀ x (out :: made) ys s₀) :
    Keeps (Resolving source p₀) Stayed (fun s => s = s₀)
      (settle sink.logged x.kind oldId filteredId (out :: rest))
      fun w s => (∀ q ∈ w, q.1.kind = .stop) ∧ Known s := by
  subst hsplit
  rw [settle]
  obtain ⟨k, id, hneed, hcreation⟩ := hmade out List.mem_cons_self
  have hid := need_ne_empty hneed
  have hkinds := need_kind hneed
  have hkind : out.kind ≠ x.kind := by
    rw [hcreation.kind]
    rcases hkinds with ⟨rfl, h⟩ | ⟨rfl, h⟩ <;> simp [h]
  have hsource : (if out.kind = x.kind && out.entityId == filteredId then oldId else out.entityId) = id := by
    simp [hkind, hcreation.entityId]
  have hidColumn : out.kind.idColumn?.isSome := by
    rw [hcreation.kind]
    rcases hkinds with ⟨rfl, -⟩ | ⟨rfl, -⟩ <;> rfl
  have hrest : ∀ s : Run (σ × List Record), out ∈ s.store.2 → s.map.contains k.fileName id = true →
      PendingWith p₀ x (out :: made) ys s → Pending p₀ x (made ++ ys) s :=
    fun s hlog hmap hw => ⟨made, ys, rfl, fun e he => hmade e (List.mem_cons_of_mem _ he), hys,
      hw.written hcreation ⟨hmap, out, hlog, hcreation⟩⟩
  -- a created record refers to nothing, so it is never dropped for a reference
  have hkeys : ∀ s : Run (σ × List Record), KeysAllowed source p₀ out s := fun s i hkey => by
    rw [hcreation.updateKeys] at hkey
    cases hkey
  refine (((prepare_resolving out true fun i hi => by simp [hcreation.errors hid] at hi).frame
    fun _ _ h hs => h.mono hs).bind fun p => ?_).mono (fun s hs => ⟨hkeys s, hs ▸ hwith⟩)
    fun _ _ h => h
  cases p with
  | ready e' =>
    simp only [pure_bind, hsource]
    refine Keeps.of_fact_and fun hready => ?_
    obtain ⟨lookup, hupdate⟩ := hready
    obtain rfl : e' = out := by
      rw [hcreation.updateKeys lookup] at hupdate
      exact (Except.ok.inj hupdate).symm
    refine (((write_resolving sink e' id).frame fun _ _ h hs => h.mono hs).mono
      (fun _ h => ⟨trivial, h⟩) fun _ _ h => h).bind fun _ => ?_
    exact (tail [] (by simp)).mono (fun s h => hrest s h.1.1
      (hcreation.kind ▸ h.1.2 hidColumn hid) h.2) fun _ _ h => h
  | deferred e' =>
    -- only a stop waits, and a stage creates networks and calendars
    refine Keeps.of_fact_and fun hdeferred => ?_
    have hstop := hdeferred.2
    rw [hcreation.kind] at hstop
    rcases hkinds with ⟨rfl, -⟩ | ⟨rfl, -⟩ <;> cases hstop
  | rejected =>
    refine Keeps.of_fact_and fun h => ?_
    rcases h with h | ⟨lookup, i, hupdate⟩
    · exact absurd (hcreation.errors hid) h
    · rw [hcreation.updateKeys lookup] at hupdate
      cases hupdate

include tail in
/-- A copy of `x`, all records created for it written: it is remapped on a map that knows what
it needs, waits as a stop, or is dropped with an allowed problem, and the later outputs are
settled after it. -/
theorem settle_copy_resolving (hx : FromSource source x) (hys : ∀ y ∈ out :: rest, CopyOf x y)
    (hwith : PendingWith p₀ x [] (out :: rest) s₀) :
    Keeps (Resolving source p₀) Stayed (fun s => s = s₀)
      (settle sink.logged x.kind oldId filteredId (out :: rest))
      fun w s => (∀ q ∈ w, q.1.kind = .stop) ∧ Known s := by
  rw [settle]
  have hy := hys out List.mem_cons_self
  obtain ⟨hserved, hknown⟩ := hwith
  have hrest : ∀ s : Run (σ × List Record), PendingWith p₀ x [] rest s → Pending p₀ x rest s :=
    fun s hw => ⟨[], rest, rfl, by simp, fun y hy => hys y (List.mem_cons_of_mem _ hy), hw⟩
  have hwith : PendingWith p₀ x [] rest s₀ :=
    ⟨fun k id hneed hc _ => hserved k id hneed hc (List.cons_ne_nil _ _), hknown⟩
  have hkeys : KeysAllowed source p₀ out s₀ := fun i hkey =>
    allowed_of_keys hx hy (fun k id hneed hc =>
      (hserved k id hneed hc (List.cons_ne_nil _ _)).resolve_right (by simp)) hkey
  refine (((prepare_resolving out true (allowed_of_copy hx hy)).frame
    fun _ _ (h : PendingWith p₀ x [] rest _) hs => h.mono hs).bind
    fun p => ?_).mono (fun s hs => hs ▸ ⟨hkeys, hwith⟩) fun _ _ h => h
  cases p with
  | ready e' =>
    simp only [pure_bind]
    refine Keeps.of_fact_and fun _ => ?_
    exact (((write_resolving sink e' _).frame fun _ _ h hs => h.mono hs).mono (fun _ h => ⟨trivial, h⟩)
      fun _ _ h => h).bind fun _ => (tail [] (by simp)).mono (fun s h => hrest s h.2)
        fun _ _ h => h
  | deferred e' =>
    simp only [pure_bind]
    refine Keeps.of_fact_and fun hdeferred => ?_
    obtain ⟨he, hstop⟩ := hdeferred
    subst he
    exact (tail _ (by simpa using hstop)).mono hrest fun _ _ h => h
  | rejected =>
    simp only [pure_bind]
    refine Keeps.of_fact_and fun _ => ?_
    exact (tail [] (by simp)).mono hrest fun _ _ h => h

end Settle

/-- Settling what the stages made of a record of the source: every created record is written
under its own identifier and so recorded; a copy is remapped on a map that knows what it needs,
or dropped with an allowed problem. -/
theorem settle_resolving (sink : Sink σ) (oldId filteredId : String) {x : Record}
    (hx : FromSource source x) : ∀ outs : List Record,
      Keeps (Resolving source p₀) Stayed (Pending p₀ x outs)
        (settle sink.logged x.kind oldId filteredId outs)
        fun w s => (∀ q ∈ w, q.1.kind = .stop) ∧ Known s
  | [] => Keeps.pure _ fun _ hpend => by
    obtain ⟨made, ys, hsplit, -, -, hwith⟩ := hpend
    obtain ⟨rfl, -⟩ := List.append_eq_nil_iff.mp hsplit.symm
    exact ⟨by simp, hwith.known⟩
  | out :: rest => by
    -- the later outputs, after what waits from this one
    have tail : ∀ waiting : List (Record × String), (∀ q ∈ waiting, q.1.kind = .stop) →
        Keeps (Resolving source p₀) Stayed (Pending p₀ x rest)
          (settle sink.logged x.kind oldId filteredId rest >>= fun l => pure (waiting ++ l))
          fun w s => (∀ q ∈ w, q.1.kind = .stop) ∧ Known s := fun waiting hw =>
      (settle_resolving sink oldId filteredId hx rest).bind fun _ => Keeps.pure _ fun _ h =>
        ⟨fun q hq => (List.mem_append.mp hq).elim (hw q) (h.1 q), h.2⟩
    refine Keeps.of_start fun s₀ hpend => ?_
    obtain ⟨made, ys, hsplit, hmade, hys, hwith⟩ := hpend
    -- the records created for `x` come first, then its copies
    cases made with
    | cons e made =>
      obtain ⟨rfl, hrest⟩ := List.cons_eq_cons.mp hsplit
      exact settle_created_resolving sink oldId filteredId tail hrest hmade hys hwith
    | nil =>
      rw [List.nil_append] at hsplit
      subst hsplit
      exact settle_copy_resolving sink oldId filteredId tail hx hys hwith

theorem process_resolving (sink : Sink σ) {r : Record} (hr : source.HandsOut r) (hshaped : r.Shaped) :
    Keeps (Resolving source p₀) Grew Known (process sink.logged r)
      fun w s => (∀ q ∈ w, q.1.kind = .stop) ∧ Known s := by
  unfold process
  refine (filterStages_resolving r).bind fun r' => Keeps.of_fact_and fun hcopy => ?_
  exact (expandStages_resolving r').bind fun outs =>
    (settle_resolving sink _ _ ⟨r, hr, hshaped, hcopy⟩ outs).coarsen fun _ _ h => h.1

/-- The problems of stops and stop times are always allowed. -/
theorem allowed_of_stop {k : Kind} (hk : k = .stop ∨ k = .stopTime) (i : Issue) :
    Allowed source p₀ k i :=
  allowed_of_ne (by rcases hk with rfl | rfl <;> decide) (by rcases hk with rfl | rfl <;> decide) i

theorem retryOnce_resolving (sink : Sink σ) : ∀ waiting : List (Record × String),
    (∀ q ∈ waiting, q.1.kind = .stop) → Keeps (Resolving source p₀) Stayed (fun _ => True)
      (retryOnce sink.logged waiting) fun w _ => ∀ q ∈ w, q.1.kind = .stop
  | [], _ => Keeps.pure _ fun _ _ => by simp
  | (e, oldId) :: rest, hw => by
    rw [retryOnce]
    have hstop : e.kind = .stop := hw _ List.mem_cons_self
    refine ((prepare_resolving e true fun i _ => allowed_of_stop (.inl hstop) i).mono
      (fun _ _ i _ => allowed_of_stop (.inl hstop) _) fun _ _ h => h).bind fun p => ?_
    dsimp only
    -- the stops after this one, after this one if it still waits
    have tail : ∀ w, (∀ q ∈ w, q.1.kind = .stop) → Keeps (Resolving source p₀) Stayed (fun _ => True)
        (retryOnce sink.logged rest >>= fun l => pure (w ++ l)) fun w _ => ∀ q ∈ w, q.1.kind = .stop :=
      fun w hw' => (retryOnce_resolving sink rest fun q hq => hw q (List.mem_cons_of_mem _ hq)).bind
        fun _ => Keeps.pure _ fun _ hl q hq => (List.mem_append.mp hq).elim (hw' q) (hl q)
    cases p with
    | ready e' =>
      simp only [pure_bind]
      exact ((write_resolving sink e' oldId).mono (fun _ _ => trivial) fun _ _ _ => trivial).bind
        fun _ => tail [] (by simp)
    | deferred e' =>
      simp only [pure_bind]
      refine Keeps.of_fact fun hdeferred => tail _ ?_
      obtain ⟨he, -⟩ := hdeferred
      subst he
      simpa using hstop
    | rejected =>
      simp only [pure_bind]
      exact (tail [] (by simp)).mono (fun _ _ => trivial) fun _ _ h => h

theorem retryDeferred_loop_resolving (sink : Sink σ) : ∀ (fuel : Nat) (waiting : List (Record × String)),
    (∀ q ∈ waiting, q.1.kind = .stop) → Keeps (Resolving source p₀) Stayed (fun _ => True)
      (retryDeferred.loop sink.logged waiting fuel) fun w _ => ∀ q ∈ w, q.1.kind = .stop
  | 0, _, hw => Keeps.pure _ fun _ _ => hw
  | fuel + 1, waiting, hw => by
    rw [retryDeferred.loop]
    split
    · exact Keeps.pure _ fun _ _ => hw
    refine (retryOnce_resolving sink waiting hw).bind fun pending => ?_
    refine Keeps.of_fact fun hpending => ?_
    split
    · exact Keeps.pure _ fun _ _ => hpending
    · exact retryDeferred_loop_resolving sink fuel pending hpending

theorem retryDeferred_resolving (sink : Sink σ) (waiting : List (Record × String))
    (hw : ∀ q ∈ waiting, q.1.kind = .stop) :
    Keeps (Resolving source p₀) Stayed (fun _ => True) (retryDeferred sink.logged waiting)
      fun _ _ => True := by
  unfold retryDeferred
  refine (retryDeferred_loop_resolving sink _ waiting hw).bind fun left => ?_
  refine Keeps.of_fact fun hleft => ?_
  refine (Keeps.forIn (fun _ _ => True) (fun q hq _ => ?_) ()).bind fun _ =>
    Keeps.pure _ fun _ _ => trivial
  obtain ⟨e, oldId⟩ := q
  have hstop : e.kind = .stop := hleft _ hq
  dsimp only
  refine ((prepare_resolving e false fun i _ => allowed_of_stop (.inl hstop) i).mono
    (fun _ _ i _ => allowed_of_stop (.inl hstop) _) fun _ _ h => h).bind fun p => ?_
  cases p with
  | ready e' =>
    exact ((write_resolving sink e' oldId).mono (fun _ _ => trivial) fun _ _ _ => trivial).bind
      fun _ => Keeps.pure _ fun _ _ => trivial
  | deferred _ | rejected => exact Keeps.pure _ fun _ _ => trivial

/-- Copying the items of a collection's stream: the records go through the stages, and the
unreadable rows are dropped with the problem the source raised. -/
theorem copyItems_resolving (sink : Sink σ) (k : Kind) {st : Stream}
    (hread : source.read k = .ok (some st)) (hshaped : ∀ r, source.HandsOut r → r.Shaped) :
    ∀ (i : Nat) (items : List (Except Issue Record)), (∀ item ∈ items, item ∈ st.items) →
      Keeps (Resolving source p₀) Grew Known (copyItems sink.logged k st i items)
        fun w s => (∀ q ∈ w, q.1.kind = .stop) ∧ Known s
  | _, [], _ => Keeps.pure _ fun _ hk => ⟨by simp, hk⟩
  | i, item :: rest, hitems => by
    simp only [copyItems]
    refine (countRead_resolving k).stays_known.bind fun _ => ?_
    refine (Keeps.guarded (Q := fun w s => (∀ q ∈ w, q.1.kind = .stop) ∧ Known s) ?_ st (i + 1)).bind
      fun waiting => ?_
    · have hitem : item ∈ st.items := hitems item List.mem_cons_self
      split
      · rename_i r
        have hr : source.HandsOut r := .inl ⟨k, st, hread, hitem⟩
        exact process_resolving sink hr (hshaped r hr)
      · rename_i issue
        exact (reject_resolving k [issue] 1 (by simpa using allowed_of_item hread hitem)).stays_known.bind
          fun _ => Keeps.pure _ fun _ hk => ⟨by simp, hk⟩
    · refine Keeps.of_fact_and fun hw => ?_
      exact (copyItems_resolving sink k hread hshaped (i + 1) rest
        fun item hitem => hitems item (List.mem_cons_of_mem _ hitem)).bind fun _ =>
          Keeps.pure _ fun _ h => ⟨fun q hq => (List.mem_append.mp hq).elim (hw q) (h.1 q), h.2⟩

theorem copyCollection_resolving (sink : Sink σ) (k : Kind)
    (hshaped : ∀ r, source.HandsOut r → r.Shaped) :
    Keeps (Resolving source p₀) Grew Known (copyCollection source sink.logged k) fun _ => Known :=
  Keeps.copyCollection (fun st hread => copyItems_resolving sink k hread hshaped 0 st.items fun _ h => h)
    fun waiting => Keeps.of_fact_and fun hw => (retryDeferred_resolving sink waiting hw).stays_known

/-- A stop time needs nothing created, so the stages make copies of it only. -/
theorem processStopTime_resolving (sink : Sink σ) {r : Record} (hst : r.kind = .stopTime) :
    Keeps (Resolving source p₀) Grew Known (processStopTime sink.logged r) fun _ => Known := by
  unfold processStopTime
  refine (filterStages_resolving r).bind fun r' => Keeps.of_fact_and fun hcopy => ?_
  refine (expandStages_resolving r').bind fun outs => Keeps.of_start fun s₀ hpend => ?_
  obtain ⟨made, ys, rfl, hmade, hys, hwith⟩ := hpend
  have hneed : r'.need = none := by
    cases h : r'.need with
    | none => rfl
    | some n =>
      obtain ⟨k, id⟩ := n
      rcases need_kind h with ⟨-, hk⟩ | ⟨-, hk⟩ <;> rw [hcopy.kind, hst] at hk <;> cases hk
  obtain rfl : made = [] := List.eq_nil_iff_forall_not_mem.mpr fun e he => by
    obtain ⟨k, id, h, -⟩ := hmade e he
    rw [hneed] at h
    cases h
  have hkind : ∀ out ∈ [] ++ ys, out.kind = .stopTime := fun out hout =>
    ((hys out (by simpa using hout)).kind.trans hcopy.kind).trans hst
  dsimp only
  refine ((Keeps.forIn (fun _ s => Known s) (fun out hout batch => ?_) []).mono
    (fun s hs => hs ▸ hwith.known) fun _ _ h => h).bind fun _ => Keeps.pure _ fun _ h => h
  have hallowed : ∀ i, Allowed source p₀ out.kind i := allowed_of_stop (.inr (hkind out hout))
  refine ((prepare_resolving out false fun i _ => hallowed i).known.mono
    (fun _ hk => ⟨fun _ _ => hallowed _, hk⟩) fun _ _ h => h).bind fun p => ?_
  cases p with
  | ready e =>
    dsimp only
    split
    · exact Keeps.pure _ fun _ h => h.2
    · exact ((write_resolving sink e out.entityId).known.mono (fun _ h => ⟨trivial, h.2⟩)
        fun _ _ h => h).bind fun _ => Keeps.pure _ fun _ h => h.2
  | deferred _ | rejected => exact Keeps.pure _ fun _ h => h.2

theorem copyTrip_resolving (sink : Sink σ) (batchSize : Nat) (sts batch : List Record)
    (hsts : ∀ r ∈ sts, r.kind = .stopTime) :
    Keeps (Resolving source p₀) Grew Known (copyTrip sink.logged batchSize sts batch) fun _ => Known := by
  unfold copyTrip
  rcases hvalid : validateStopTimes sts with ⟨sorted, errors⟩
  dsimp only
  have hsorted : ∀ r ∈ sorted, r.kind = .stopTime := fun r hr =>
    hsts r ((perm_validateStopTimes sts).subset (by rw [hvalid]; exact hr))
  -- each stop time of the trip joins the batch, which is written whenever it is full
  have hloop : Keeps (Resolving source p₀) Grew Known
      (forIn sorted batch fun st b => processStopTime sink.logged st >>= fun more =>
        if (b ++ more).length ≥ batchSize then
          flush sink.logged (b ++ more) >>= fun _ => pure (ForInStep.yield [])
        else pure (ForInStep.yield (b ++ more))) fun _ => Known := by
    refine Keeps.forIn (fun _ s => Known s) (fun st hst b => ?_) batch
    refine (processStopTime_resolving sink (hsorted st hst)).bind fun more => ?_
    split
    · exact (flush_resolving sink _).stays_known.bind fun _ => Keeps.pure _ fun _ h => h
    · exact Keeps.pure _ fun _ h => h
  split
  · refine Keeps.get.bind fun _ => ?_
    refine Keeps.mono ?_ (fun _ h => h.2) fun _ _ h => h
    split
    · exact (reject_resolving _ _ _ fun i _ => allowed_of_stop (.inr rfl) i).stays_known.bind fun _ =>
        Keeps.pure _ fun _ h => h
    · exact (warn_resolving _ _).stays_known.bind fun _ => hloop.bind fun _ => Keeps.pure _ fun _ h => h
  · exact hloop.bind fun _ => Keeps.pure _ fun _ h => h

theorem copyChunk_resolving (sink : Sink σ) (batchSize : Nat) (chunk : List String) :
    Keeps (Resolving source p₀) Grew Known (copyChunk source sink.logged batchSize chunk)
      fun _ => Known := by
  unfold copyChunk
  split
  · exact Keeps.throw _
  · exact Keeps.pure _ fun _ h => h
  · rename_i st _
    refine (Keeps.forIn (fun _ s => Known s) (fun _ _ _ => (countRead_resolving _).stays_known.bind fun _ =>
      Keeps.pure _ fun _ h => h) ()).bind fun _ => (Keeps.finish st).bind fun _ => ?_
    rcases hgroups : groupByTrip st.items with ⟨groups, problems⟩
    dsimp only
    refine (Keeps.forIn (fun _ s => Known s) (fun _ _ _ => (reject_resolving _ _ _ fun i _ =>
      allowed_of_stop (.inr rfl) i).stays_known.bind fun _ => Keeps.pure _ fun _ h => h) ()).bind
        fun _ => ?_
    -- the trips of the chunk add their stop times to one batch, written at the end
    refine (Keeps.forIn (fun _ s => Known s) (fun trip _ b => ?_) []).bind fun batch => ?_
    · split
      · rename_i sts hlookup
        have hstops : tripStops st.items trip = sts :=
          tripStops_of_lookup_groupByTrip (by rw [hgroups]; exact hlookup)
        have hsts : ∀ r ∈ sts, r.kind = .stopTime := fun r hr =>
          (mem_tripStops.mp (by rw [hstops]; exact hr)).2.1
        exact (copyTrip_resolving sink batchSize sts b hsts).bind fun _ => Keeps.pure _ fun _ h => h
      · exact Keeps.pure _ fun _ h => h
    · exact (flush_resolving sink batch).stays_known.bind fun _ => Keeps.pure _ fun _ h => h

theorem rejectOrphans_resolving (tripIds : List String) :
    Keeps (Resolving source p₀) Grew Known (rejectOrphans (σ := σ × List Record) source tripIds)
      fun _ => Known := by
  unfold rejectOrphans
  split
  · exact Keeps.throw _
  · exact Keeps.pure _ fun _ h => h
  · rename_i st _
    refine (Keeps.forIn (fun _ s => Known s) (fun q _ _ => ?_) ()).bind fun _ => Keeps.finish st
    obtain ⟨item, i⟩ := q
    dsimp only
    exact (countRead_resolving _).stays_known.bind fun _ => (Keeps.guarded
      (reject_resolving _ _ _ fun i _ => allowed_of_stop (.inr rfl) i).stays_known st (i + 1)).bind
        fun _ => Keeps.pure _ fun _ h => h

theorem copyStopTimes_resolving (sink : Sink σ) :
    Keeps (Resolving source p₀) Grew Known (copyStopTimes source sink.logged) fun _ => Known :=
  Keeps.copyStopTimes (fun n chunk => copyChunk_resolving sink n chunk) fun trips =>
    rejectOrphans_resolving trips

theorem copyAll_resolving (sink : Sink σ) (hshaped : ∀ r, source.HandsOut r → r.Shaped) :
    Keeps (Resolving source p₀) Grew Known (copyAll source sink.logged) fun _ => Known :=
  Keeps.copyAll (copyStopTimes_resolving sink) fun k => copyCollection_resolving sink k hshaped

end Resolution

/-! ### Identifiers created once -/

namespace Created

/-- Creating networks adds a new, non-empty identifier, or nothing. -/
theorem ids_networks (s : Created) (m : IdMap) (r : Record) :
    (s.networks m r).1.ids = s.ids ∨ ∃ id, id ≠ "" ∧ id ∉ s.ids ∧ (s.networks m r).1.ids = id :: s.ids := by
  unfold networks
  split
  · rename_i id _ _
    split
    · exact .inl rfl
    · rename_i hnew
      simp only [Bool.or_eq_true, not_or, Bool.not_eq_true, List.contains_eq_mem,
        decide_eq_false_iff_not] at hnew
      exact .inr ⟨id, by simpa using hnew.1.1, hnew.2, rfl⟩
  · exact .inl rfl

/-- Creating calendars adds a new, non-empty identifier, or nothing. -/
theorem ids_services (s : Created) (m : IdMap) (r : Record) :
    (s.services m r).1.ids = s.ids ∨ ∃ id, id ≠ "" ∧ id ∉ s.ids ∧ (s.services m r).1.ids = id :: s.ids := by
  unfold services
  split
  · dsimp only
    split
    · exact .inl rfl
    · rename_i hnew
      simp only [Bool.or_eq_true, not_or, Bool.not_eq_true, List.contains_eq_mem,
        decide_eq_false_iff_not] at hnew
      split
      · exact .inr ⟨_, by simpa using hnew.1.1, hnew.2, rfl⟩
      · exact .inl rfl
  · exact .inl rfl

end Created

namespace Stage

/-- The identifiers a stage created are distinct, and none is empty. -/
def Fresh (st : Stage) : Prop := ∀ k ids, st.created = some (k, ids) → ids.Nodup ∧ "" ∉ ids

theorem Fresh.of_created {st st' : Stage} (h : st.Fresh) (hc : st'.created = st.created) : st'.Fresh :=
  fun k ids hids => h k ids (hc.symm ▸ hids)

theorem fresh_cons {ids : List String} (h : ids.Nodup ∧ "" ∉ ids) {id : String} (hid : id ≠ "")
    (hnew : id ∉ ids) : (id :: ids).Nodup ∧ "" ∉ id :: ids :=
  ⟨List.nodup_cons.mpr ⟨hnew, h.1⟩, by simp [Ne.symm hid, h.2]⟩

theorem Fresh.expand {st : Stage} (h : st.Fresh) (m : IdMap) (r : Record) : (st.expand m r).1.Fresh := by
  cases st with
  | network s =>
    intro k ids hids
    simp only [Stage.expand, created, Option.some.injEq, Prod.mk.injEq] at hids
    obtain ⟨rfl, rfl⟩ := hids
    rcases Created.ids_networks s m r with heq | ⟨id, hid, hnew, heq⟩
    · rw [heq]
      exact h .network s.ids rfl
    · rw [heq]
      exact fresh_cons (h .network s.ids rfl) hid hnew
  | implicitService s =>
    intro k ids hids
    simp only [Stage.expand, created, Option.some.injEq, Prod.mk.injEq] at hids
    obtain ⟨rfl, rfl⟩ := hids
    rcases Created.ids_services s m r with heq | ⟨id, hid, hnew, heq⟩
    · rw [heq]
      exact h .calendar s.ids rfl
    · rw [heq]
      exact fresh_cons (h .calendar s.ids rfl) hid hnew
  | _ => exact h

theorem Fresh.expandAll (m : IdMap) : ∀ {st : Stage}, st.Fresh → ∀ ys, (st.expandAll m ys).1.Fresh
  | _, h, [] => h
  | _, h, y :: ys => Fresh.expandAll m (h.expand m y) ys

end Stage

namespace Pipeline

/-- The identifiers every stage created are distinct, and none is empty. -/
def Fresh (p : Pipeline) : Prop := ∀ st ∈ p.stages, st.Fresh

theorem Fresh.filter {p : Pipeline} (h : p.Fresh) (m : IdMap) (r : Record) : (p.filter m r).1.Fresh := by
  intro st hst
  have hmem : st.created ∈ p.stages.map Stage.created := by
    rw [← map_created_filterWith m p.stages r]
    exact List.mem_map_of_mem hst
  obtain ⟨st₀, hst₀, heq⟩ := List.mem_map.mp hmem
  exact (h st₀ hst₀).of_created heq.symm

theorem fresh_expandWith (m : IdMap) : ∀ (stages : List Stage) (rs : List Record),
    (∀ st ∈ stages, st.Fresh) → ∀ st ∈ (expandWith m stages rs).1, st.Fresh
  | [], _, _, _, hst => absurd hst List.not_mem_nil
  | st₀ :: rest, rs, h, st, hst => by
    simp only [expandWith, List.mem_cons] at hst
    rcases hst with rfl | hst
    · exact (h st₀ List.mem_cons_self).expandAll m rs
    · exact fresh_expandWith m rest _ (fun s hs => h s (List.mem_cons_of_mem _ hs)) st hst

theorem Fresh.expand {p : Pipeline} (h : p.Fresh) (m : IdMap) (r : Record) : (p.expand m r).1.Fresh :=
  fresh_expandWith m p.stages [r] h

/-- Every state the stages reach from a start whose identifiers are fresh has fresh
identifiers. -/
theorem Reaches.fresh {p₀ p : Pipeline} (h : p₀.Reaches p) (h₀ : p₀.Fresh) : p.Fresh :=
  h.invariant Fresh h₀ (fun _ m r hp => hp.filter m r) fun _ m r hp => hp.expand m r

end Pipeline

namespace StageConfig

/-- Every stage configured is built into the pipeline. -/
theorem mem_buildAll : ∀ {cs : List StageConfig} {p : Pipeline}, buildAll cs = .ok p →
    ∀ c ∈ cs, ∃ st ∈ p.stages, c.build = .ok st
  | [], _, _, _, hc => absurd hc List.not_mem_nil
  | _ :: _, _, h, c, hc => by
    obtain ⟨st, q, hbuild, hq, rfl⟩ := buildAll_cons_eq_ok.mp h
    rcases List.mem_cons.mp hc with rfl | hc
    · exact ⟨st, List.mem_cons_self, hbuild⟩
    · obtain ⟨st', hst', hb⟩ := mem_buildAll hq c hc
      exact ⟨st', List.mem_cons_of_mem _ hst', hb⟩

/-- A stage starts having created nothing. -/
theorem created_build {c : StageConfig} {st : Stage} (h : c.build = .ok st) :
    ∀ k ids, st.created = some (k, ids) → ids = [] := by
  intro k ids hids
  cases c with
  | redate start sd target td =>
    simp only [build] at h
    split at h
    · cases h
      simp [Stage.created] at hids
    · cases h
  | network | implicitService =>
    simp only [build, Except.ok.injEq] at h
    subst h
    simp only [Stage.created, Option.some.injEq, Prod.mk.injEq] at hids
    exact hids.2.symm
  | _ =>
    simp only [build, Except.ok.injEq] at h
    subst h
    simp [Stage.created] at hids

theorem buildAll_created : ∀ {cs : List StageConfig} {p : Pipeline}, buildAll cs = .ok p →
    ∀ st ∈ p.stages, ∀ k ids, st.created = some (k, ids) → ids = []
  | [], _, h, st, hst => by
    simp only [buildAll, Except.ok.injEq] at h
    subst h
    exact absurd hst List.not_mem_nil
  | _ :: _, _, h, st, hst => by
    obtain ⟨st₀, q, hbuild, hq, rfl⟩ := buildAll_cons_eq_ok.mp h
    rcases List.mem_cons.mp hst with rfl | hst
    · exact created_build hbuild
    · exact buildAll_created hq st hst

/-- The stages a pipeline is built with start fresh. -/
theorem fresh_buildAll {cs : List StageConfig} {p : Pipeline} (h : buildAll cs = .ok p) : p.Fresh := by
  intro st hst k ids hids
  rw [buildAll_created h st hst k ids hids]
  simp

/-- A pipeline built with a stage that creates the identifiers of a collection creates them. -/
theorem creates_of_mem {cs : List StageConfig} {p : Pipeline} (h : buildAll cs = .ok p) {c : StageConfig}
    (hc : c ∈ cs) {k : Kind} (hk : ∀ st, c.build = .ok st → ∃ ids, st.created = some (k, ids)) :
    p.Creates k :=
  let ⟨st, hst, hbuild⟩ := mem_buildAll h c hc
  ⟨st, hst, hk st hbuild⟩

end StageConfig

/-- With the stages that create networks, a route dropped for its network is one whose
network the source already reported, or one naming the empty network; with the stages that
create calendars, a calendar date dropped for its service is one whose service the source
already reported, or one the source gave without a date. Every identifier such a stage
created is created once, and, when the copy finishes, recorded in the map and written as a
record with no problem. This holds of every copy, whatever the source, destination, options
and preset map, as long as the records the source hands out are shaped as readers shape
them. -/
theorem copyFeed_created_ids_resolve {σ : Type} (source : Source) (sink : Sink σ) (store : σ)
    (map : IdMap) (options : CopyOptions) (cancelled : Bool) {cs : List StageConfig} {p : Pipeline}
    (hbuild : StageConfig.buildAll cs = .ok p) (hshaped : ∀ r, source.HandsOut r → r.Shaped) :
    let run := copyFeed source sink.logged (store, []) map p options cancelled
    (StageConfig.network ∈ cs → ∀ i ∈ (run.2.report .route).errors, i.kind = .reference →
      i.field = some "network_id" → source.Raises .route i ∨ i.value = some "") ∧
    (StageConfig.implicitService ∈ cs → ∀ i ∈ (run.2.report .calendarDate).errors,
      i.kind = .reference → i.field = some "service_id" → source.Raises .calendarDate i ∨
        ∃ r, source.HandsOut r ∧ r.kind = .calendarDate ∧ r.date? "date" = none ∧
          i.value = some (r.str "service_id")) ∧
    ∀ st ∈ run.2.pipeline.stages, ∀ k ids, st.created = some (k, ids) → ids.Nodup ∧
      ((∃ result, run.1 = .ok result) → ∀ id ∈ ids, run.2.map.contains k.fileName id = true ∧
        ∃ e ∈ run.2.store.2, Creation k id e ∧ e.errors = []) := by
  intro run
  have hstart : Resolving source p ({ store := (store, []), map, pipeline := p, options } : Run (σ × List Record)) :=
    Resolving.start store map options
  have hknown₀ : Known ({ store := (store, []), map, pipeline := p, options } : Run (σ × List Record)) :=
    fun st hst k ids hids id hid => by
      rw [StageConfig.buildAll_created hbuild st hst k ids hids] at hid
      cases hid
  -- the invariant holds at the end, and every created identifier is recorded once the copy finishes
  have hend : Resolving source p run.2 ∧ ((∃ result, run.1 = .ok result) → Known run.2) := by
    cases cancelled with
    | true => exact ⟨hstart, fun _ => hknown₀⟩
    | false =>
      obtain ⟨hi, -, hq⟩ := copyAll_resolving sink hshaped _ hstart hknown₀
      refine ⟨hi, fun hok => hq () ?_⟩
      obtain ⟨result, hres⟩ := hok
      simp only [run, Copying.copyFeed_false_eq] at hres
      cases hx : (Copying.exec (Copying.copyAll source sink.logged) _).1 with
      | error e =>
        rw [hx] at hres
        cases hres
      | ok u => rfl
  have hfresh : run.2.pipeline.Fresh :=
    (copyFeed_writes_stage_outputs source sink store map p options cancelled).stages.fresh
      (StageConfig.fresh_buildAll hbuild)
  refine ⟨fun hnet i hi hkind hfield => (hend.1.reports .route i hi).1 rfl ?_ hkind hfield,
    fun hcal i hi hkind hfield => (hend.1.reports .calendarDate i hi).2 rfl ?_ hkind hfield,
    fun st hst k ids hids => ⟨(hfresh st hst k ids hids).1, fun hok id hid => ?_⟩⟩
  · exact StageConfig.creates_of_mem hbuild hnet fun st h => by cases h; exact ⟨_, rfl⟩
  · exact StageConfig.creates_of_mem hbuild hcal fun st h => by cases h; exact ⟨_, rfl⟩
  · obtain ⟨hmap, e, he, hc⟩ := hend.2 hok st hst k ids hids id hid
    exact ⟨hmap, e, he, hc, hc.errors fun h => (hfresh st hst k ids hids).2 (h ▸ hid)⟩


/-- The stages of the default expansions: networks, then calendars, created for what routes
and calendar dates name. -/
def creatingStages : Pipeline := ⟨[.network {}, .implicitService {}]⟩

/-- Copying the small feed whose route names a network it does not define, with the default
expansions: the network is created once, recorded and written without problem, and nothing is
dropped for a reference to it. -/
theorem networkRouteFeed_created_ids_resolve :
    StageConfig.buildAll Configuration.defaultExpansions = .ok creatingStages ∧
      (∀ r, networkRouteFeed.source.HandsOut r → r.Shaped) ∧
      let run := copyFeed networkRouteFeed.source MemoryFeed.sink.logged ({}, []) IdMap.empty
        creatingStages {} false
      (StageConfig.network ∈ Configuration.defaultExpansions → ∀ i ∈ (run.2.report .route).errors,
        i.kind = .reference → i.field = some "network_id" →
          networkRouteFeed.source.Raises .route i ∨ i.value = some "") ∧
      (StageConfig.implicitService ∈ Configuration.defaultExpansions → ∀ i ∈ (run.2.report .calendarDate).errors,
        i.kind = .reference → i.field = some "service_id" →
          networkRouteFeed.source.Raises .calendarDate i ∨
            ∃ r, networkRouteFeed.source.HandsOut r ∧ r.kind = .calendarDate ∧
              r.date? "date" = none ∧ i.value = some (r.str "service_id")) ∧
      ∀ st ∈ run.2.pipeline.stages, ∀ k ids, st.created = some (k, ids) → ids.Nodup ∧
        ((∃ result, run.1 = .ok result) → ∀ id ∈ ids, run.2.map.contains k.fileName id = true ∧
          ∃ e ∈ run.2.store.2, Creation k id e ∧ e.errors = []) := by
  have hshaped : ∀ r, networkRouteFeed.source.HandsOut r → r.Shaped := by
    intro r hr
    obtain ⟨x, hx, hrx⟩ := MemoryFeed.mem_of_handsOut hr
    have hall : ∀ x ∈ networkRouteFeed.collections, ∀ r ∈ x.2, r.Shaped := by decide
    exact hall x hx r hrx
  exact ⟨rfl, hshaped, copyFeed_created_ids_resolve networkRouteFeed.source MemoryFeed.sink {}
    IdMap.empty {} false rfl hshaped⟩

/-- A store whose route names its network by a text where a row of the networks table is
expected, and has no such table. -/
def danglingNetworkStore : Sql.Database where
  tables := [
    { name := "agency"
      columns := [{ name := "id", affinity := .integer }, { name := "agency_id" }, { name := "agency_name" },
        { name := "agency_url" }, { name := "agency_timezone" }, { name := "_extra", affinity := .text }]
      idColumn := some 0
      autoincrement := true
      rows := [(1, [.integer 1, .text "A", .text "Ag", .text "http://a.example", .text "Europe/Paris", .null])]
      sequence := 1 },
    { name := "routes"
      columns := [{ name := "id", affinity := .integer }, { name := "route_id" }, { name := "agency_id" },
        { name := "route_short_name" }, { name := "route_type" }, { name := "network_id" },
        { name := "_extra", affinity := .text }]
      idColumn := some 0
      autoincrement := true
      rows := [(1, [.integer 1, .text "R", .text "1", .text "r", .integer 3, .text "N1", .null])]
      sequence := 1 }]

/-- With the default expansions, a route whose network the store cannot resolve is dropped for
its network, though the stages would have created it: the store reports the problem while
reading the route. -/
theorem copyFeed_drops_route_of_dangling_network :
    StageConfig.buildAll Configuration.defaultExpansions = .ok creatingStages ∧
      ∃ i ∈ ((copyFeed danglingNetworkStore.source MemoryFeed.sink ({} : MemoryFeed) IdMap.empty
          creatingStages {} false).2.report .route).errors,
        i.kind = .reference ∧ i.field = some "network_id" ∧ i.value = some "N1" := by
  refine ⟨rfl, ?_⟩
  decide +kernel

end TransitFeed

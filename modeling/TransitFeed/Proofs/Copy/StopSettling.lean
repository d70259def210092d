import TransitFeed.Proofs.Feed.KeyUpdate

/-!
# Settling stops one at a time

A stop is written once its parent station resolves, so a copy of the stops of a collection
writes a least set: the set `Settles` holds each eligible stop (its problems allowed, its
level absent or known) whose parent station is absent, known to the map the copy starts
from, or the non-empty identifier of a stop of the set. This module tracks a copy of such a
collection, from the state `s₀` it starts in, into a logging destination: `Tracked` says
what every later state keeps (each record handed over is a remapped stop of the set, the map
knows exactly the stops known from the start or handed over), `ProblemsSince` records the
problems met since the start in order, and `Fated` says what became of a stop. The main result,
`settle_stop`, is the step: preparing one stop and settling it keeps all of this, and either
writes the stop, lets it wait for its parent, or drops it as outside the set, with the problem
of its parent station when that is all that kept it out.
-/

namespace TransitFeed

namespace Kind

/-- A stop refers to its parent station, a stop, and to its level, in two optional columns. -/
theorem stop_targets : ∀ col ∈ Kind.stop.columns, col.target.isSome = true →
    ((col.name = "parent_station" ∧ col.target = some .stop) ∨
      (col.name = "level_id" ∧ col.target = some .level)) ∧ col.optional = true := by
  decide

end Kind

/-- Placing a problem at a line a second time changes nothing. -/
theorem Issue.atLine_atLine (i : Issue) (line : Option Nat) :
    (i.atLine line).atLine line = i.atLine line := by
  cases h : i.line <;> cases line <;> simp [Issue.atLine, h]

namespace Record

/-- The problem of a stop whose parent station was not copied: its parent's text, at its line. -/
def parentIssue (r : Record) : Issue :=
  (Issue.reference "parent_station" (r.str "parent_station") Kind.stop.fileName).atLine r.line

/-- A stop that a copy from the map `m` writes once its parent station is copied: its problems,
if any, are allowed, and its level is absent or known to `m`. -/
structure Eligible (m : IdMap) (allow : Bool) (r : Record) : Prop where
  admitted : r.errors = [] ∨ allow = true
  level : ∀ l, r.cell "level_id" = some (.text l) → m.contains Kind.level.fileName l = true

variable {r : Record}

/-- A filled text column of a well-formed record holds a text. -/
theorem text_cell_cases (hs : r.Shaped) {col : Column} (hcol : col ∈ r.kind.columns)
    (htext : col.type = .text) : r.cell col.name = none ∨ ∃ p, r.cell col.name = some (.text p) := by
  cases hc : r.cell col.name with
  | none => exact .inl rfl
  | some v =>
    have hv := hs.admits hcol hc
    rw [htext] at hv
    cases v <;> simp_all [FieldType.admits]

/-- The text of a cell holding a text. -/
theorem str_of_cell {name p : String} (h : r.cell name = some (.text p)) : r.str name = p := by
  simp [str, h, Cell.toText, FieldValue.toText]

section Stop

variable (hs : r.Shaped) (hk : r.kind = .stop) {m : IdMap}
include hs hk

/-- A well-formed stop whose level is absent or known to a map fails to remap under it only at
its parent station, whose text the map does not know. -/
theorem updateKeys_stop_error
    (hlevel : ∀ l, r.cell "level_id" = some (.text l) → m.contains Kind.level.fileName l = true)
    {i : Issue} (h : r.updateKeys (fun k old => m.get? k.fileName old) = .error i) :
    i = r.parentIssue ∧
      ∃ p, r.cell "parent_station" = some (.text p) ∧ m.contains Kind.stop.fileName p = false := by
  obtain ⟨pre, col, post, t, hcols, -, ht, hpresent, hnone, rfl⟩ := stopsAt_of_updateKeys h
  have hcol : col ∈ r.kind.columns := by simp [hcols]
  obtain ⟨hnamed, -⟩ := Kind.stop_targets col (hk ▸ hcol) (by simp [ht])
  rcases text_cell_cases hs hcol (Kind.type_eq_text_of_target _ col hcol (by simp [ht])) with
    hcell | ⟨p, hp⟩
  · simp [hcell, Cell.present] at hpresent
  rw [str_of_cell hp] at hnone
  rcases hnamed with ⟨hname, ht'⟩ | ⟨hname, ht'⟩
  · obtain rfl : t = .stop := Option.some.inj (ht.symm.trans ht')
    refine ⟨by rw [parentIssue, hname], p, hname ▸ hp, ?_⟩
    simpa [IdMap.contains] using hnone
  · -- a known level resolves
    obtain rfl : t = .level := Option.some.inj (ht.symm.trans ht')
    have hknown := hlevel p (hname ▸ hp)
    simp [IdMap.contains, hnone] at hknown

omit hs in
/-- A stop whose parent station holds a text that a map does not know fails to remap under it. -/
theorem updateKeys_stop_error_of_parent {p : String} (hp : r.cell "parent_station" = some (.text p))
    (hunknown : m.contains Kind.stop.fileName p = false) :
    ∃ i, r.updateKeys (fun k old => m.get? k.fileName old) = .error i := by
  cases h : r.updateKeys (fun k old => m.get? k.fileName old) with
  | error i => exact ⟨i, rfl⟩
  | ok e =>
    obtain ⟨col, hcol, hname, htarget⟩ := Kind.stop_parent_column
    have hopt := (Kind.stop_targets col hcol (by simp [htarget])).2
    obtain ⟨new, hnew, -⟩ := (remapped_of_updateKeys h).replaced col (hk ▸ hcol) .stop htarget
      (by simp [hname, hp, Cell.present, hopt])
    rw [hname, str_of_cell hp] at hnew
    simp [IdMap.contains, hnew] at hunknown

end Stop

/-- A remapping that succeeds under a map finds each filled optional reference in it. -/
theorem contains_of_updateKeys {m : IdMap} {e : Record}
    (he : r.updateKeys (fun k old => m.get? k.fileName old) = .ok e) {col : Column}
    (hcol : col ∈ r.kind.columns) {t : Kind} (ht : col.target = some t) (hopt : col.optional = true)
    {p : String} (hp : r.cell col.name = some (.text p)) : m.contains t.fileName p = true := by
  obtain ⟨new, hnew, -⟩ := (remapped_of_updateKeys he).replaced col hcol t ht
    (by simp [hp, Cell.present, hopt])
  rw [str_of_cell hp] at hnew
  simp [IdMap.contains, hnew]

/-- A stop remapped under a map has its parent station and its level, when filled, known to it. -/
theorem known_of_updateKeys_stop (hk : r.kind = .stop) {m : IdMap} {e : Record}
    (he : r.updateKeys (fun k old => m.get? k.fileName old) = .ok e) :
    (∀ p, r.cell "parent_station" = some (.text p) → m.contains Kind.stop.fileName p = true) ∧
      ∀ l, r.cell "level_id" = some (.text l) → m.contains Kind.level.fileName l = true := by
  obtain ⟨cp, hcp, hnp, htp⟩ : ∃ c ∈ Kind.stop.columns, c.name = "parent_station" ∧ c.target = some .stop := by
    decide
  obtain ⟨cl, hcl, hnl, htl⟩ : ∃ c ∈ Kind.stop.columns, c.name = "level_id" ∧ c.target = some .level := by
    decide
  refine ⟨fun p hp => ?_, fun l hl => ?_⟩
  · exact contains_of_updateKeys he (hk ▸ hcp) htp (Kind.stop_targets cp hcp (by simp [htp])).2 (hnp ▸ hp)
  · exact contains_of_updateKeys he (hk ▸ hcl) htl (Kind.stop_targets cl hcl (by simp [htl])).2 (hnl ▸ hl)

/-- A stop waits for its parent station when the station's text is not empty and not known. -/
theorem waitsForParent_stop (hk : r.kind = .stop) {m : IdMap} :
    Copying.waitsForParent m r = true ↔
      ∃ p, r.cell "parent_station" = some (.text p) ∧ p ≠ "" ∧ m.contains Kind.stop.fileName p = false := by
  rw [waitsForParent_eq_true]
  constructor
  · rintro ⟨-, p, hp, hc⟩
    obtain ⟨hcell, hne⟩ := text?_eq_some.mp hp
    exact ⟨p, hcell, hne, hc⟩
  · rintro ⟨p, hcell, hne, hc⟩
    exact ⟨hk, p, text?_eq_some.mpr ⟨hcell, hne⟩, hc⟩

/-- A stop without problems and without a level is eligible. -/
theorem eligible_of_level_none {m : IdMap} {allow : Bool} (he : r.errors = [])
    (hl : r.cell "level_id" = none) : r.Eligible m allow :=
  ⟨.inl he, fun l h => by simp [hl] at h⟩

end Record

end TransitFeed

namespace TransitFeed

namespace Copying

variable {σ : Type}

/-- The stops of a collection that a copy writes, from the map `m` it starts with and with
problems allowed or not: the least set that holds every eligible stop of the collection whose
parent station is absent, known to `m`, or the non-empty identifier of a stop of the set. -/
inductive Settles (m : IdMap) (allow : Bool) (stops : List Record) : Record → Prop
  | orphan {r : Record} : r ∈ stops → r.Eligible m allow → r.cell "parent_station" = none →
      Settles m allow stops r
  | known {r : Record} {p : String} : r ∈ stops → r.Eligible m allow →
      r.cell "parent_station" = some (.text p) → m.contains Kind.stop.fileName p = true →
      Settles m allow stops r
  | child {r q : Record} : r ∈ stops → r.Eligible m allow → Settles m allow stops q →
      q.entityId ≠ "" → r.cell "parent_station" = some (.text q.entityId) → Settles m allow stops r

namespace Settles

variable {m : IdMap} {allow : Bool} {stops : List Record} {r : Record}

theorem mem (h : Settles m allow stops r) : r ∈ stops := by
  cases h <;> assumption

theorem eligible (h : Settles m allow stops r) : r.Eligible m allow := by
  cases h <;> assumption

/-- The set depends on the stops of the collection, not on their order. -/
theorem of_subset {stops' : List Record} (hsub : ∀ x ∈ stops, x ∈ stops')
    (h : Settles m allow stops r) : Settles m allow stops' r := by
  induction h with
  | orphan hr he hp => exact .orphan (hsub _ hr) he hp
  | known hr he hp hc => exact .known (hsub _ hr) he hp hc
  | child hr he _ hq hp ih => exact .child (hsub _ hr) he ih hq hp

theorem perm_iff {stops' : List Record} (h : stops'.Perm stops) :
    Settles m allow stops' r ↔ Settles m allow stops r :=
  ⟨of_subset fun _ hx => h.subset hx, of_subset fun _ hx => h.symm.subset hx⟩

end Settles

/-- The errors a report keeps and counts after more problems depend only on those it kept and
counted before. -/
theorem CollectionReport.foldl_addError_congr (es : List Issue) (limit : Nat)
    {c d : CollectionReport} (he : c.errors = d.errors) (hk : c.errorsByKind = d.errorsByKind) :
    (es.foldl (fun c i => c.addError i limit) c).errors = (es.foldl (fun c i => c.addError i limit) d).errors ∧
      (es.foldl (fun c i => c.addError i limit) c).errorsByKind =
        (es.foldl (fun c i => c.addError i limit) d).errorsByKind := by
  induction es generalizing c d with
  | nil => exact ⟨he, hk⟩
  | cons i es ih =>
    exact ih (by simp [CollectionReport.addError, he]) (by simp [CollectionReport.addError, hk])

/-- Writing a stop records its old identifier alone, as a stop, and only when it is not empty. -/
theorem contains_written_stop {τ : Type} (s : Run τ) {e : Record} (hek : e.kind = .stop)
    (oldId newId : String) (store : τ) (c o : String) :
    (written s e oldId newId store).map.contains c o =
      (decide (oldId ≠ "" ∧ c = Kind.stop.fileName ∧ o = oldId) || s.map.contains c o) := by
  simp only [written, IdMap.contains, note_get?, notes, hek]
  by_cases hc : oldId ≠ "" ∧ c = Kind.stop.fileName ∧ o = oldId
  · simp [hc, Kind.idColumn?]
  · rw [if_neg (by simpa [Kind.idColumn?] using hc)]
    simp [hc]

/-! ### Following a copy of the stops -/

section Tracking

variable (s₀ : Run (σ × List Record)) (stops : List Record)

/-- The records handed to a logging destination between two states. -/
def handedSince (s s' : Run (σ × List Record)) : List Record := s'.store.2.drop s.store.2.length

/-- A stop was handed over since `s₀`: a record with its identifier was. -/
def Handed (s : Run (σ × List Record)) (r : Record) : Prop :=
  ∃ e ∈ handedSince s₀ s, e.entityId = r.entityId

/-- What a copy of a collection of stops keeps from the state `s₀` it started in: the options
and the empty pipeline; reports in collection order; a log that grew, each new record a stop of
the set remapped, no identifier twice; as identifiers of stops, those `s₀` knew and those of the
stops handed over; and the levels `s₀` knew. -/
structure Tracked (s : Run (σ × List Record)) : Prop where
  options : s.options = s₀.options
  stages : s.pipeline.stages = []
  ordered : ReportsOrdered s.reports
  log : s₀.store.2 <+: s.store.2
  copies : ∀ e ∈ handedSince s₀ s, ∃ r, Settles s₀.map s₀.options.allowEntityErrors stops r ∧
    ∃ lookup, r.updateKeys lookup = .ok e
  distinct : ((handedSince s₀ s).map Record.entityId).Nodup
  stopKeys : ∀ p, s.map.contains Kind.stop.fileName p = true ↔
    s₀.map.contains Kind.stop.fileName p = true ∨ ∃ e ∈ handedSince s₀ s, e.entityId = p ∧ p ≠ ""
  levelKeys : ∀ l, s.map.contains Kind.level.fileName l = s₀.map.contains Kind.level.fileName l

/-- The report of the stops kept and counted, since `s₀`, the problems `P` in order. -/
def ProblemsSince (P : List Issue) (s : Run (σ × List Record)) : Prop :=
  (s.report .stop).errors =
      (P.foldl (fun c i => c.addError i s₀.options.errorLimit) (s₀.report .stop)).errors ∧
    (s.report .stop).errorsByKind =
      (P.foldl (fun c i => c.addError i s₀.options.errorLimit) (s₀.report .stop)).errorsByKind

/-- What became of a stop by the state `s`, with the problems `P` recorded: it was handed over,
or it lies outside the set the copy writes and was dropped, with the problem of its parent
station when it was eligible. -/
def Fated (P : List Issue) (s : Run (σ × List Record)) (r : Record) : Prop :=
  Handed s₀ s r ∨ (¬Settles s₀.map s₀.options.allowEntityErrors stops r ∧
    (r.Eligible s₀.map s₀.options.allowEntityErrors → r.parentIssue ∈ P))

end Tracking

section Tracking

variable {s₀ : Run (σ × List Record)} {stops : List Record} {s s' : Run (σ × List Record)}
  {sink : Sink σ}

theorem handedSince_of_eq {L : List Record} (h : s'.store.2 = s.store.2 ++ L) : handedSince s s' = L := by
  simp [handedSince, h]

@[simp] theorem handedSince_self : handedSince s s = [] := by
  simp [handedSince]

/-- The records handed over since `s₀` grow with the log. -/
theorem handedSince_append (h₀ : s₀.store.2 <+: s.store.2) (h : s.store.2 <+: s'.store.2) :
    handedSince s₀ s' = handedSince s₀ s ++ handedSince s s' := by
  obtain ⟨L, hL⟩ := h₀
  obtain ⟨L', hL'⟩ := h
  rw [handedSince_of_eq hL.symm, handedSince_of_eq hL'.symm, handedSince_of_eq (s := s₀)
    (by rw [← hL', ← hL, List.append_assoc])]

theorem Handed.mono {r : Record} (h₀ : s₀.store.2 <+: s.store.2) (h : s.store.2 <+: s'.store.2)
    (hr : Handed s₀ s r) : Handed s₀ s' r := by
  obtain ⟨e, he, hid⟩ := hr
  exact ⟨e, by rw [handedSince_append h₀ h]; exact List.mem_append_left _ he, hid⟩

theorem Fated.mono {P : List Issue} {r : Record} (P' : List Issue) (h₀ : s₀.store.2 <+: s.store.2)
    (h : s.store.2 <+: s'.store.2) (hr : Fated s₀ stops P s r) : Fated s₀ stops (P ++ P') s' r :=
  hr.imp (Handed.mono h₀ h) fun ⟨hout, hissue⟩ =>
    ⟨hout, fun he => List.mem_append_left _ (hissue he)⟩

namespace Tracked

/-- The start of a copy of the stops tracks itself. -/
theorem start (hstages : s₀.pipeline.stages = []) (hordered : ReportsOrdered s₀.reports) :
    Tracked s₀ stops s₀ where
  options := rfl
  stages := hstages
  ordered := hordered
  log := List.prefix_refl _
  copies := by simp
  distinct := by simp
  stopKeys := by simp
  levelKeys := fun _ => rfl

/-- Changing only the reports, keeping them in collection order, keeps what a copy of the stops
tracks. -/
theorem withReports (h : Tracked s₀ stops s) {rs : List CollectionReport} (hrs : ReportsOrdered rs) :
    Tracked s₀ stops { s with reports := rs } :=
  { h with ordered := hrs }

/-- Dropping stops keeps what a copy of the stops tracks. -/
theorem dropInto (h : Tracked s₀ stops s) (es : List Issue) (n : Nat) :
    Tracked s₀ stops { s with reports := updateReport .stop (dropInto es n s.options.errorLimit) s.reports } :=
  h.withReports (updateReport_ordered (f := Copying.dropInto es n s.options.errorLimit)
    (fun _ => (CollectionReport.foldl_addError es _ _).1) h.ordered)

/-- Writing a remapped stop of the set, not handed over yet, to a logging destination that
takes everything: the copy joins the log and the stop's identifier the map, and the problems
stay as they were. -/
theorem write (hsink : sink.NeverFails) (h : Tracked s₀ stops s) {r e : Record}
    (hW : Settles s₀.map s₀.options.allowEntityErrors stops r) (hk : r.kind = .stop)
    {lookup : KeyLookup} (he : r.updateKeys lookup = .ok e) (hnew : ¬Handed s₀ s r) :
    ∃ s', exec (Copying.write sink.logged e r.entityId) s = (.ok (), s') ∧ Tracked s₀ stops s' ∧
      s'.store.2 = s.store.2 ++ [e] ∧ ∀ P, ProblemsSince s₀ P s → ProblemsSince s₀ P s' := by
  obtain ⟨⟨store, newId⟩, hadd⟩ := hsink.add s.store.1 e
  have hlogged : sink.logged.add s.store e = .ok ((store, s.store.2 ++ [e]), newId) := by
    simp [Sink.logged, hadd, Except.map]
  refine ⟨_, by rw [exec_write, hlogged], ?_⟩
  have hek : e.kind = .stop := (Record.updateKeys_kind he).trans hk
  have hid : e.entityId = r.entityId := Record.entityId_updateKeys he
  have hwarn := (note_frame e r.entityId newId { s with store := (store, s.store.2 ++ [e]) }).2.2.2
  have hlog : (written s e r.entityId newId (store, s.store.2 ++ [e])).store.2 = s.store.2 ++ [e] := by
    simp
  have hordered := (hwarn h.ordered).1
  have hhanded : handedSince s₀ (written s e r.entityId newId (store, s.store.2 ++ [e])) =
      handedSince s₀ s ++ [e] := by
    rw [handedSince_append h.log (by rw [hlog]; exact List.prefix_append _ _), handedSince_of_eq hlog]
  have hcontains := contains_written_stop s hek r.entityId newId (store, s.store.2 ++ [e])
  have hf : ∀ c : CollectionReport, ({ c with written := c.written + 1 } : CollectionReport).kind = c.kind :=
    fun _ => rfl
  refine ⟨⟨by simpa using h.options, by simpa using h.stages, updateReport_ordered hf hordered, ?_, ?_, ?_,
    ?_, ?_⟩, hlog, ?_⟩
  · rw [hlog]
    exact h.log.trans (List.prefix_append _ _)
  · rw [hhanded]
    intro e' he'
    rcases List.mem_append.mp he' with he' | he'
    · exact h.copies e' he'
    · obtain rfl := List.mem_singleton.mp he'
      exact ⟨r, hW, lookup, he⟩
  · rw [hhanded, List.map_append, List.nodup_append]
    refine ⟨h.distinct, by simp, ?_⟩
    intro a ha b hb
    obtain rfl : b = r.entityId := by simpa [hid] using hb
    rintro rfl
    obtain ⟨e', he', hid'⟩ := List.mem_map.mp ha
    exact hnew ⟨e', he', hid'⟩
  · intro p
    rw [hcontains, hhanded, Bool.or_eq_true, h.stopKeys p]
    constructor
    · rintro (hnew' | hold | ⟨e', he', rfl, hne⟩)
      · simp only [decide_eq_true_eq] at hnew'
        exact .inr ⟨e, by simp, by rw [hid, hnew'.2.2], hnew'.2.2 ▸ hnew'.1⟩
      · exact .inl hold
      · exact .inr ⟨e', List.mem_append_left _ he', rfl, hne⟩
    · rintro (hold | ⟨e', he', rfl, hne⟩)
      · exact .inr (.inl hold)
      · rcases List.mem_append.mp he' with he' | he'
        · exact .inr (.inr ⟨e', he', rfl, hne⟩)
        · obtain rfl := List.mem_singleton.mp he'
          have hne' : r.entityId ≠ "" := hid ▸ hne
          exact .inl (by simp [hid, hne'])
  · intro l
    rw [hcontains, h.levelKeys]
    simp [Kind.fileName]
  · -- counting the written record and noting it leave the problems as they were
    intro P hP
    have htally := (hwarn h.ordered).2 .stop
    simp only [ProblemsSince, Run.report, written, hek]
    rw [reportOf_updateReport hf hordered, if_pos rfl]
    exact ⟨(congrArg CollectionReport.Tally.kept htally).trans hP.1,
      (congrArg CollectionReport.Tally.problems htally).trans hP.2⟩

end Tracked

/-- Dropping stops records their problems after those recorded before. -/
theorem ProblemsSince.dropInto (h : Tracked s₀ stops s) (es : List Issue) (n : Nat) {P : List Issue}
    (hP : ProblemsSince s₀ P s) :
    ProblemsSince s₀ (P ++ es)
      { s with reports := updateReport .stop (dropInto es n s.options.errorLimit) s.reports } := by
  have hf : ∀ c, (Copying.dropInto es n s.options.errorLimit c).kind = c.kind := fun c =>
    (CollectionReport.foldl_addError es _ _).1
  have hcongr := CollectionReport.foldl_addError_congr es s₀.options.errorLimit
    (c := { s.report .stop with dropped := (s.report .stop).dropped + n }) hP.1 hP.2
  simp only [ProblemsSince, Run.report, List.foldl_append]
  rw [reportOf_updateReport hf h.ordered, if_pos rfl, Copying.dropInto, h.options]
  exact hcongr

/-- A change of the report of a collection that keeps the problems it kept and counted leaves
the problems as they were. -/
theorem ProblemsSince.update (h : Tracked s₀ stops s) (k : Kind) {f : CollectionReport → CollectionReport}
    (hf : ∀ c, (f c).kind = c.kind) (he : ∀ c, (f c).errors = c.errors)
    (hk : ∀ c, (f c).errorsByKind = c.errorsByKind) {P : List Issue} (hP : ProblemsSince s₀ P s) :
    ProblemsSince s₀ P { s with reports := updateReport k f s.reports } := by
  simp only [ProblemsSince, Run.report]
  rw [reportOf_updateReport hf h.ordered]
  split
  · rename_i hstop
    subst hstop
    exact ⟨(he _).trans hP.1, (hk _).trans hP.2⟩
  · exact hP

/-- Warnings added to the report of a collection leave its problems as they were. -/
theorem ProblemsSince.warn (h : Tracked s₀ stops s) (k : Kind) (ws : List Issue) (limit : Nat)
    {P : List Issue} (hP : ProblemsSince s₀ P s) :
    ProblemsSince s₀ P
      { s with reports := updateReport k (fun c => ws.foldl (fun c w => c.addWarning w limit) c) s.reports } :=
  ProblemsSince.update h k (fun c => (CollectionReport.foldl_addWarning ws limit c).1)
    (fun c => congrArg CollectionReport.Tally.kept (CollectionReport.foldl_addWarning ws limit c).2)
    (fun c => congrArg CollectionReport.Tally.problems (CollectionReport.foldl_addWarning ws limit c).2) hP

end Tracking

/-! ### Settling one stop -/

section Settling

variable (s₀ : Run (σ × List Record)) (stops : List Record)

/-- What preparing a stop of the collection, and settling it under its own identifier, does:
keep it waiting, the state as it was; write it, its copy joining the log; or drop it, a stop
outside the set, with its problems recorded. -/
inductive StopSettled (r : Record) (s : Run (σ × List Record)) :
    List (Record × String) → Run (σ × List Record) → Prop
  | deferred : waitsForParent s.map r = true →
      (r.errors = [] ∨ s₀.options.allowEntityErrors = true) → StopSettled r s [(r, r.entityId)] s
  | written {s' : Run (σ × List Record)} {e : Record} : Tracked s₀ stops s' →
      s'.store.2 = s.store.2 ++ [e] → e.entityId = r.entityId →
      (∀ P, ProblemsSince s₀ P s → ProblemsSince s₀ P s') → StopSettled r s [] s'
  | dropped {s' : Run (σ × List Record)} {es : List Issue} : Tracked s₀ stops s' →
      s'.store = s.store → s'.map = s.map →
      (∀ P, ProblemsSince s₀ P s → ProblemsSince s₀ (P ++ es) s') →
      ¬Settles s₀.map s₀.options.allowEntityErrors stops r →
      (r.Eligible s₀.map s₀.options.allowEntityErrors → r.parentIssue ∈ es) → StopSettled r s [] s'

end Settling

section Settling

variable {s₀ : Run (σ × List Record)} {stops : List Record} {s : Run (σ × List Record)}
  {sink : Sink σ}

/-- A stop of the collection that a copy writes, remapped under a tracked state: every
reference it has resolved, so its parent station, when filled, was known at the start or is a
stop handed over since, which lies in the set. -/
theorem settles_of_updateKeys (hs : Tracked s₀ stops s) {r e : Record} (hr : r ∈ stops)
    (hk : r.kind = .stop) (hshaped : r.Shaped)
    (hadm : r.errors = [] ∨ s₀.options.allowEntityErrors = true)
    (he : r.updateKeys (fun k old => s.map.get? k.fileName old) = .ok e) :
    Settles s₀.map s₀.options.allowEntityErrors stops r := by
  obtain ⟨hparent, hlevel⟩ := Record.known_of_updateKeys_stop hk he
  have heligible : r.Eligible s₀.map s₀.options.allowEntityErrors :=
    ⟨hadm, fun l hl => by rw [← hs.levelKeys]; exact hlevel l hl⟩
  obtain ⟨col, hcol, hname, htarget⟩ := Kind.stop_parent_column
  rcases Record.text_cell_cases hshaped (hk ▸ hcol) (Kind.type_eq_text_of_target _ col hcol (by simp [htarget]))
    with hnone | ⟨p, hp⟩
  · exact .orphan hr heligible (hname ▸ hnone)
  rw [hname] at hp
  rcases (hs.stopKeys p).mp (hparent p hp) with hknown | ⟨e', he', rfl, hne⟩
  · exact .known hr heligible hp hknown
  · -- the parent is a stop handed over since the start, so one of the set
    obtain ⟨q, hq, lookup, hqe⟩ := hs.copies e' he'
    have hid : e'.entityId = q.entityId := Record.entityId_updateKeys hqe
    rw [hid] at hp hne
    exact .child hr heligible hq hne hp


/-- Preparing a record whose problems do not stop it and which does not wait, when its
remapping fails: it is dropped with the problem of the remapping. -/
theorem exec_prepare_of_keys_error {τ : Type} {s : Run τ} {r : Record} {canDefer : Bool}
    (hlenient : s.options.failFast = false)
    (herr : ¬(r.errors ≠ [] ∧ s.options.allowEntityErrors = false))
    (hwait : ¬(canDefer = true ∧ waitsForParent s.map r = true)) {i : Issue}
    (hkeys : r.updateKeys (fun k old => s.map.get? k.fileName old) = .error i) :
    exec (prepare r canDefer) s = (.ok .rejected,
      { s with reports := updateReport r.kind (dropInto [i.atLine r.line] 1 s.options.errorLimit) s.reports }) := by
  rw [exec_prepare, if_neg herr, if_neg hwait, hkeys]
  dsimp only
  rw [exec_bind_of_ok (exec_reject_lenient _ _ _ _ hlenient)]
  rfl

/-- A stop that does not wait for its parent, and whose remapping fails under a tracked state,
lies outside the set: the reference that failed is its parent station, empty as the stop does
not wait, and the empty identifier is neither known at the start nor handed over since. -/
theorem not_settles_of_keys_error (hs : Tracked s₀ stops s) {r : Record} (hk : r.kind = .stop)
    (hshaped : r.Shaped) (hwait : ¬waitsForParent s.map r = true) {i : Issue}
    (hkeys : r.updateKeys (fun k old => s.map.get? k.fileName old) = .error i) :
    ¬Settles s₀.map s₀.options.allowEntityErrors stops r := by
  intro hW
  obtain ⟨-, p, hp, hunknown⟩ := Record.updateKeys_stop_error hshaped hk
    (fun l hl => by rw [hs.levelKeys]; exact hW.eligible.level l hl) hkeys
  obtain rfl : p = "" := by
    by_contra hne
    exact hwait ((Record.waitsForParent_stop hk).mpr ⟨p, hp, hne, hunknown⟩)
  cases hW with
  | orphan _ _ hnone => simp [hnone] at hp
  | known _ _ hp' hc =>
    rw [hp] at hp'
    obtain rfl := FieldValue.text.inj (Option.some.inj hp')
    rw [(hs.stopKeys "").mpr (.inl hc)] at hunknown
    cases hunknown
  | child _ _ _ hq hp' =>
    rw [hp] at hp'
    exact hq (FieldValue.text.inj (Option.some.inj hp')).symm

/-- A stop outside the set whose remapping fails under a tracked state is dropped with the
problem of the remapping: that of its parent station when it is eligible. -/
theorem StopSettled.of_keys_error (hstops : ∀ r ∈ stops, r.kind = .stop ∧ r.Shaped)
    (hs : Tracked s₀ stops s) {r : Record} (hr : r ∈ stops) {i : Issue}
    (hkeys : r.updateKeys (fun k old => s.map.get? k.fileName old) = .error i)
    (hout : ¬Settles s₀.map s₀.options.allowEntityErrors stops r) :
    StopSettled s₀ stops r s []
      { s with reports := updateReport .stop (dropInto [i.atLine r.line] 1 s.options.errorLimit) s.reports } := by
  obtain ⟨hk, hshaped⟩ := hstops r hr
  refine .dropped (hs.dropInto _ 1) rfl rfl (fun _ hP => ProblemsSince.dropInto hs _ 1 hP) hout
    fun hel => ?_
  obtain ⟨rfl, -⟩ := Record.updateKeys_stop_error hshaped hk
    (fun l hl => by rw [hs.levelKeys]; exact hel.level l hl) hkeys
  simp [Record.parentIssue, Issue.atLine_atLine]

/-- Preparing a stop of the collection that is not handed over yet, in a tracked state, and
settling it: it waits, is written, or is dropped. -/
theorem settle_stop (hsink : sink.NeverFails) (hfast : s₀.options.failFast = false)
    (hstops : ∀ r ∈ stops, r.kind = .stop ∧ r.Shaped) (hs : Tracked s₀ stops s) {r : Record}
    (hr : r ∈ stops) (hnew : ¬Handed s₀ s r) :
    ∃ o s₁ w s₂, exec (prepare r true) s = (.ok o, s₁) ∧ Settled sink.logged r.entityId o s₁ w s₂ ∧
      StopSettled s₀ stops r s w s₂ := by
  obtain ⟨hk, hshaped⟩ := hstops r hr
  have hlenient : s.options.failFast = false := by rw [hs.options, hfast]
  have hallow : s.options.allowEntityErrors = s₀.options.allowEntityErrors := by rw [hs.options]
  -- dropping the stop with some problems, when it lies outside the set
  have drop : ∀ es, ¬Settles s₀.map s₀.options.allowEntityErrors stops r →
      (r.Eligible s₀.map s₀.options.allowEntityErrors → r.parentIssue ∈ es) →
      StopSettled s₀ stops r s []
        { s with reports := updateReport .stop (dropInto es 1 s.options.errorLimit) s.reports } :=
    fun es hout hissue => .dropped (hs.dropInto es 1) rfl rfl
      (fun _ hP => ProblemsSince.dropInto hs es 1 hP) hout hissue
  by_cases herr : r.errors ≠ [] ∧ s.options.allowEntityErrors = false
  · -- a stop with problems, not allowed, is dropped with them
    have hnot : ¬(r.errors = [] ∨ s₀.options.allowEntityErrors = true) := by
      rw [← hallow]
      simp [herr.1, herr.2]
    refine ⟨.rejected, _, [], _, ?_, ⟨rfl, rfl⟩,
      drop r.errors (fun hW => hnot hW.eligible.admitted) fun hel => absurd hel.admitted hnot⟩
    rw [exec_prepare, if_pos herr, exec_bind_of_ok (exec_reject_lenient _ _ _ _ hlenient), hk]
    rfl
  have hadm : r.errors = [] ∨ s₀.options.allowEntityErrors = true := by
    rw [← hallow]
    by_cases he : r.errors = []
    · exact .inl he
    · exact .inr (by simpa [he] using herr)
  by_cases hwait : waitsForParent s.map r = true
  · exact ⟨.deferred r, s, _, s, by rw [exec_prepare, if_neg herr, if_pos ⟨rfl, hwait⟩], ⟨rfl, rfl⟩,
      .deferred hwait hadm⟩
  cases hkeys : r.updateKeys (fun k old => s.map.get? k.fileName old) with
  | error i =>
    -- a reference did not resolve: the stop lies outside the set
    refine ⟨.rejected, _, [], _, ?_, ⟨rfl, rfl⟩,
      StopSettled.of_keys_error hstops hs hr hkeys (not_settles_of_keys_error hs hk hshaped hwait hkeys)⟩
    rw [exec_prepare_of_keys_error hlenient herr (fun h => hwait h.2) hkeys, hk]
  | ok e =>
    -- every reference resolved: the stop lies in the set and is written
    have hprep := exec_prepare (σ := σ × List Record) r true s
    rw [if_neg herr, if_neg fun h => hwait h.2, hkeys] at hprep
    dsimp only at hprep
    have hW := settles_of_updateKeys hs hr hk hshaped hadm hkeys
    have hs₁ := hs.withReports (updateReport_ordered (k := r.kind)
      (f := fun c => (r.warnings ++ r.errors).foldl (fun c w => c.addWarning w s.options.errorLimit) c)
      (fun c => (CollectionReport.foldl_addWarning _ _ c).1) hs.ordered)
    obtain ⟨s₂, hw, htr, hlog, hprob⟩ := hs₁.write hsink hW hk hkeys hnew
    exact ⟨.ready e, _, [], s₂, hprep, ⟨hw, rfl⟩, .written htr hlog (Record.entityId_updateKeys hkeys)
      fun P hP => hprob P (ProblemsSince.warn hs r.kind _ _ hP)⟩

namespace StopSettled

variable {r : Record} {s s' : Run (σ × List Record)} {w : List (Record × String)}

theorem tracked (h : StopSettled s₀ stops r s w s') (hs : Tracked s₀ stops s) : Tracked s₀ stops s' := by
  cases h with
  | deferred => exact hs
  | written ht => exact ht
  | dropped ht => exact ht

theorem log (h : StopSettled s₀ stops r s w s') : s.store.2 <+: s'.store.2 := by
  cases h with
  | deferred => exact List.prefix_refl _
  | written _ hlog => rw [hlog]; exact List.prefix_append _ _
  | dropped _ hstore => rw [hstore]

/-- Settling a stop hands over nothing but its own copy. -/
theorem handed (h : StopSettled s₀ stops r s w s') :
    ∀ e ∈ handedSince s s', e.entityId = r.entityId ∧ w = [] := by
  cases h with
  | deferred => simp
  | written _ hlog hid =>
    rw [handedSince_of_eq hlog]
    simpa using hid
  | dropped _ hstore => simp [handedSince, hstore]

/-- A settled stop met its fate, or waits under its identifier with nothing changed. -/
theorem fate (h : StopSettled s₀ stops r s w s') (hs : Tracked s₀ stops s) {P : List Issue}
    (hP : ProblemsSince s₀ P s) :
    ∃ P', ProblemsSince s₀ (P ++ P') s' ∧
      ((w = [] ∧ Fated s₀ stops (P ++ P') s' r) ∨ (w = [(r, r.entityId)] ∧ P' = [] ∧ s' = s)) := by
  cases h with
  | deferred => exact ⟨[], by simpa using hP, .inr ⟨rfl, rfl, rfl⟩⟩
  | @written s' e _ hlog hid hprob =>
    refine ⟨[], by simpa using hprob P hP, .inl ⟨rfl, .inl ⟨e, ?_, hid⟩⟩⟩
    rw [handedSince_append hs.log (by rw [hlog]; exact List.prefix_append _ _), handedSince_of_eq hlog]
    simp
  | @dropped s' es _ _ _ hprob hout hissue =>
    exact ⟨es, hprob P hP, .inl ⟨rfl, .inr ⟨hout, fun hel => List.mem_append_right _ (hissue hel)⟩⟩⟩

/-- A settled stop waits, on the map as it was, with its problems allowed and nothing changed;
or nothing waits. -/
theorem waiting (h : StopSettled s₀ stops r s w s') :
    w = [] ∨ (w = [(r, r.entityId)] ∧ s' = s ∧ waitsForParent s.map r = true ∧
      (r.errors = [] ∨ s₀.options.allowEntityErrors = true)) := by
  cases h with
  | deferred hwait hadm => exact .inr ⟨rfl, rfl, hwait, hadm⟩
  | written => exact .inl rfl
  | dropped => exact .inl rfl

/-- Settling a stop hands over no other stop. -/
theorem fresh (h : StopSettled s₀ stops r s w s') (hs : Tracked s₀ stops s) {r' : Record}
    (hne : r'.entityId ≠ r.entityId) (hr' : ¬Handed s₀ s r') : ¬Handed s₀ s' r' := by
  rintro ⟨e, he, hid⟩
  rw [handedSince_append hs.log h.log] at he
  rcases List.mem_append.mp he with he | he
  · exact hr' ⟨e, he, hid⟩
  · exact hne (hid.symm.trans (h.handed e he).1)

theorem map_of_log (h : StopSettled s₀ stops r s w s') (hlog : s'.store.2 = s.store.2) :
    s'.map = s.map := by
  cases h with
  | deferred => rfl
  | written _ hlog' => simp [hlog'] at hlog
  | dropped _ _ hmap => exact hmap

end StopSettled

end Settling

end Copying

end TransitFeed

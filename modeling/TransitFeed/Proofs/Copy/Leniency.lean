import TransitFeed.Proofs.Copy.Expansions
import TransitFeed.Proofs.Copy.Finishes
import TransitFeed.Store.TextFeed

/-!
# The problems a copy that allows them still records

A copy that allows problems in records copies a record with problems, counting them as
warnings, and copies the stop times of a trip whose order has problems in the same way. What it
still records as problems, dropping a record for each, is what no leniency can copy: a reference
to a record that was not copied, and an item that is no record of its collection, because the
source could not read it or because it is a record of another collection among the stop times.

So such a copy records reference and row problems only, from any source whose unreadable items
are of these kinds, as those of feeds in memory, of text files and of relational stores are.
`Forgiving` says so of a state, and every step of a copy keeps it, however the copy ends:
`copyFeed_lenient_records_unresolved_or_unreadable`.

Allowing problems does not always copy more, though. A stage that creates the calendar of a
service that only calendar dates name creates it once, when no calendar of that service was
copied: two such stages create two calendars where the copy dropped the calendar of the service,
and none where it copied it (`copyFeed_allowing_problems_writes_fewer_calendars`).
-/

namespace TransitFeed

/-- The kinds of the problems that allowing problems in records does not excuse: a reference
that does not resolve, and an item that is no record of its collection. -/
def IssueKind.Unexcused (k : IssueKind) : Prop := k = .reference ∨ k = .row

/-- Every problem a report counts, and every problem it keeps, is of a kind `P` accepts. -/
structure CollectionReport.ProblemsWithin (P : IssueKind → Prop) (c : CollectionReport) : Prop where
  counted : ∀ x ∈ c.errorsByKind, P x.1
  kept : ∀ i ∈ c.errors, P i.kind

namespace CollectionReport

variable {P : IssueKind → Prop} {c : CollectionReport}

theorem problemsWithin_empty (k : Kind) : ({ kind := k } : CollectionReport).ProblemsWithin P :=
  ⟨by simp, by simp⟩

/-- Counting a problem of one kind adds that kind, or counts one more of a kind already there. -/
theorem fst_mem_bump {k : IssueKind} {x : IssueKind × Nat} :
    ∀ {l : List (IssueKind × Nat)}, x ∈ bump k l → x.1 = k ∨ ∃ y ∈ l, y.1 = x.1
  | [], h => .inl (by simp_all [bump])
  | (k', n) :: rest, h => by
    unfold bump at h
    split at h
    · rcases List.mem_cons.mp h with rfl | h
      · exact .inr ⟨(k', n), List.mem_cons_self, rfl⟩
      · exact .inr ⟨x, List.mem_cons_of_mem _ h, rfl⟩
    split at h
    · rcases List.mem_cons.mp h with rfl | h
      · exact .inl rfl
      · exact .inr ⟨x, h, rfl⟩
    · rcases List.mem_cons.mp h with rfl | h
      · exact .inr ⟨(k', n), List.mem_cons_self, rfl⟩
      · rcases fst_mem_bump h with h | ⟨y, hy, e⟩
        · exact .inl h
        · exact .inr ⟨y, List.mem_cons_of_mem _ hy, e⟩

namespace ProblemsWithin

/-- Which problems a report has depends on its tally alone. -/
theorem of_tally {d : CollectionReport} (hd : d.ProblemsWithin P) (h : c.tally = d.tally) :
    c.ProblemsWithin P := by
  have hcounted : c.errorsByKind = d.errorsByKind := congrArg Tally.problems h
  have hkept : c.errors = d.errors := congrArg Tally.kept h
  exact ⟨fun x hx => hd.counted x (hcounted ▸ hx), fun i hi => hd.kept i (hkept ▸ hi)⟩

theorem addError (h : c.ProblemsWithin P) {i : Issue} (hi : P i.kind) (limit : Nat) :
    (c.addError i limit).ProblemsWithin P where
  counted x hx := by
    rcases fst_mem_bump hx with hk | ⟨y, hy, e⟩
    · exact hk ▸ hi
    · exact e ▸ h.counted y hy
  kept j hj := by
    simp only [CollectionReport.addError] at hj
    split at hj
    · rcases List.mem_append.mp hj with hj | hj
      · exact h.kept j hj
      · exact List.mem_singleton.mp hj ▸ hi
    · exact h.kept j hj

theorem foldl_addWarning (h : c.ProblemsWithin P) (ws : List Issue) (limit : Nat) :
    (ws.foldl (fun c w => c.addWarning w limit) c).ProblemsWithin P :=
  h.of_tally (CollectionReport.foldl_addWarning ws limit c).2

theorem foldl_addError (h : c.ProblemsWithin P) {errors : List Issue} (he : ∀ e ∈ errors, P e.kind)
    (limit : Nat) : (errors.foldl (fun c e => c.addError e limit) c).ProblemsWithin P := by
  induction errors generalizing c with
  | nil => exact h
  | cons e es ih =>
    exact ih (h.addError (he e List.mem_cons_self) limit) fun e' he' => he e' (List.mem_cons_of_mem _ he')

/-- Dropping records for problems of accepted kinds keeps the report to them. -/
theorem dropInto (h : c.ProblemsWithin P) {errors : List Issue} (he : ∀ e ∈ errors, P e.kind)
    (dropped limit : Nat) : (Copying.dropInto errors dropped limit c).ProblemsWithin P :=
  foldl_addError (c := { c with dropped := c.dropped + dropped }) ⟨h.counted, h.kept⟩ he limit

end ProblemsWithin

end CollectionReport

/-- Every item that a source could not read, in any stream it hands out, is a problem of a kind
`P` accepts. -/
structure Source.FaultsWithin (source : Source) (P : IssueKind → Prop) : Prop where
  read : ∀ k st i, source.read k = .ok (some st) → .error i ∈ st.items → P i.kind
  stopTimesOf : ∀ trips st i, source.stopTimesOf trips = .ok (some st) → .error i ∈ st.items → P i.kind
  stopTimesNotOf : ∀ trips st i, source.stopTimesNotOf trips = .ok (some st) →
    .error i ∈ st.items → P i.kind

/-! ### Sources and the items they could not read -/

/-- A loop in `Except` that keeps an invariant of its accumulator ends in a value that has it. -/
theorem Except.forIn_inv {α β ε : Type} (Inv : β → Prop) {f : α → β → Except ε (ForInStep β)}
    (hf : ∀ a b step, Inv b → f a b = .ok step → Inv step.value) :
    ∀ (xs : List α) (b r : β), Inv b → forIn xs b f = .ok r → Inv r
  | [], b, r, hb, h => by
    cases h
    exact hb
  | a :: as, b, r, hb, h => by
    rw [List.forIn_cons] at h
    cases hfa : f a b with
    | error e =>
      rw [hfa] at h
      cases h
    | ok step =>
      rw [hfa] at h
      cases step with
      | done b' =>
        cases h
        exact hf a b _ hb hfa
      | yield b' => exact Except.forIn_inv Inv hf as b' r (hf a b _ hb hfa) h

namespace Sql.Database

theorem kind_of_rowItem {k : Kind} {names : List String} {lookup : KeyLookup} {skipped : List String}
    {row : List SqlValue} {i : Issue} (h : rowItem k names lookup skipped row = .ok (some (.error i))) :
    i.kind = .reference := by
  unfold rowItem at h
  simp only [bind, Except.bind] at h
  split at h
  · cases h
  split at h
  · cases h
  · simp only [pure, Except.pure, Except.ok.injEq, Option.some.injEq] at h
    split at h
    · cases h
    · rename_i e he
      cases h
      obtain ⟨_, _, _, _, _, _, rfl⟩ := Record.updateKeys_error he
      simp [Issue.reference]

theorem kind_of_rowItems {k : Kind} {names : List String} {lookup : KeyLookup} {skipped : List String}
    {i : Issue} : ∀ {rows : List (List SqlValue)}, .error i ∈ (rowItems k names lookup skipped rows).1 →
      i.kind = .reference
  | [], h => by simp [rowItems] at h
  | row :: rest, h => by
    unfold rowItems at h
    split at h
    · simp at h
    · rename_i item hrow
      dsimp only at h
      split at h
      · rcases List.mem_cons.mp h with h | h
        · rw [← h] at hrow
          exact kind_of_rowItem hrow
        · exact kind_of_rowItems h
      · exact kind_of_rowItems h

theorem kind_of_rowStream {db : Database} {k : Kind} {choice : RowChoice} {i : Issue}
    (h : .error i ∈ (db.rowStream k choice).items) : i.kind = .reference := by
  unfold rowStream at h
  simp only [bind, Except.bind] at h
  split at h
  · rename_i st hst
    split at hst
    · cases hst
    split at hst
    · split at hst
      · cases hst
      · rename_i hloop
        have hinv := Except.forIn_inv
          (fun p : Option Stream × List (Except Issue Record) =>
            (∀ j, .error j ∈ p.2 → j.kind = .reference) ∧
              ∀ r, p.1 = some r → ∀ j, .error j ∈ r.items → j.kind = .reference)
          (fun batch b step hb hstep => ?_) _ _ _ ⟨by simp, by simp⟩ hloop
        · split at hst
          · cases hst
            exact hinv.2 _ ‹_› i h
          · cases hst
            exact hinv.1 i h
        · -- a batch adds the items of its rows, and may end the stream with them
          have hmore : ∀ more : List (Except Issue Record), (∀ j, .error j ∈ more → j.kind = .reference) →
              ∀ j, .error j ∈ b.2 ++ more → j.kind = .reference := fun more hm j hj =>
            (List.mem_append.mp hj).elim (hb.1 j) (hm j)
          split at hstep
          · cases hstep
            exact ⟨hb.1, fun r hr j hj => by cases hr; exact hb.1 j hj⟩
          · repeat' split at hstep
            all_goals
              simp only [pure, Except.pure, Except.ok.injEq] at hstep
              subst hstep
              exact ⟨hmore _ fun j hj => kind_of_rowItems hj,
                fun r hr j hj => by cases hr <;> exact hmore _ (fun j hj => kind_of_rowItems hj) j hj⟩
    · cases hst
      simp at h
  · simp at h

/-- A relational store hands out, as items it could not read, only rows whose references do not
resolve. -/
theorem faultsWithin (db : Database) : db.source.FaultsWithin IssueKind.Unexcused := by
  -- every stream of the store is a stream of rows
  have hrows : ∀ k choice i, .error i ∈ (db.rowStream k choice).items → IssueKind.Unexcused i.kind :=
    fun _ _ _ h => .inl (kind_of_rowStream h)
  refine ⟨fun k st i h hi => ?_, fun trips st i h hi => ?_, fun trips st i h hi => ?_⟩
  · simp only [source, Except.ok.injEq] at h
    split at h
    · cases h
      exact hrows _ _ _ hi
    · cases h
  · simp only [source, bind, Except.bind] at h
    split at h
    · cases h
    · split at h
      · cases h
        simp at hi
      · split at h <;> cases h
        exact hrows _ _ _ hi
  · simp only [source, bind, Except.bind] at h
    split at h
    · cases h
    · split at h <;> cases h
      exact hrows _ _ _ hi

end Sql.Database

/-- A feed in memory reads every item it hands out. -/
theorem MemoryFeed.faultsWithin (f : MemoryFeed) (P : IssueKind → Prop) : f.source.FaultsWithin P := by
  have hstop : ∀ trips among st i, f.stopTimes trips among = some st → .error i ∉ st.items := by
    intro trips among st i h hi
    unfold MemoryFeed.stopTimes at h
    split at h
    · cases h
    · cases h
      simp at hi
  refine ⟨fun k st i h hi => ?_, fun trips st i h hi => ?_, fun trips st i h hi => ?_⟩
  · simp only [MemoryFeed.source, Except.ok.injEq, Option.map_eq_some_iff] at h
    obtain ⟨rs, -, rfl⟩ := h
    simp at hi
  · exact absurd hi (hstop trips true st i (Except.ok.inj h))
  · exact absurd hi (hstop trips false st i (Except.ok.inj h))

/-- The only items of a table of a text file that are not records are its rows that are not
UTF-8, each a row problem. -/
theorem kind_of_error_mem_tableItems {t : OpenTable} {trim unreadable : Bool} {keep : List String → Bool}
    {i : Issue} (h : .error i ∈ tableItems t trim unreadable keep) : i.kind = .row := by
  obtain ⟨r, -, hr⟩ := List.mem_filterMap.mp h
  dsimp only at hr
  split at hr
  · split at hr
    · cases hr
      simp [Issue.row]
    · cases hr
  · split at hr <;> cases hr

/-- A feed of text files hands out, as items it could not read, only rows that are not UTF-8. -/
theorem TextFeed.faultsWithin (feed : TextFeed) : feed.source.FaultsWithin IssueKind.Unexcused := by
  have hstream : ∀ k unreadable keep st i, feed.stream k unreadable keep = some st →
      .error i ∈ st.items → IssueKind.Unexcused i.kind := by
    intro k unreadable keep st i h hi
    simp only [TextFeed.stream, Option.map_eq_some_iff] at h
    obtain ⟨c, -, rfl⟩ := h
    split at hi
    · simp at hi
    · exact .inr (kind_of_error_mem_tableItems hi)
  exact ⟨fun k st i h => hstream _ _ _ st i (Except.ok.inj h),
    fun trips st i h => hstream _ _ _ st i (Except.ok.inj h),
    fun trips st i h => hstream _ _ _ st i (Except.ok.inj h)⟩


/-- A record that fails to be remapped fails on a reference. -/
theorem Record.kind_of_updateKeys_error {r : Record} {lookup : KeyLookup} {i : Issue}
    (h : r.updateKeys lookup = .error i) : i.kind = .reference := by
  obtain ⟨_, _, _, _, _, _, rfl⟩ := Record.updateKeys_error h
  simp [Issue.reference]

namespace Copying

/-- A problem among the stop times of a batch is an item the source could not read, or a record
of another collection. -/
theorem mem_problems_groupByTrip {i : Issue} :
    ∀ {items : List (Except Issue Record)}, i ∈ (groupByTrip items).2 →
      .error i ∈ items ∨ ∃ r, .ok r ∈ items ∧ i = strayIssue r
  | [], h => by simp [groupByTrip] at h
  | item :: rest, h => by
    rw [groupByTrip.eq_2] at h
    rcases hg : groupByTrip rest with ⟨groups, problems⟩
    rw [hg] at h
    have ih : i ∈ problems → .error i ∈ item :: rest ∨ ∃ r, .ok r ∈ item :: rest ∧ i = strayIssue r := by
      intro hi
      refine (mem_problems_groupByTrip (by rw [hg]; exact hi)).imp (List.mem_cons_of_mem _)
        fun hstray => ?_
      obtain ⟨r, hr, e⟩ := hstray
      exact ⟨r, List.mem_cons_of_mem _ hr, e⟩
    dsimp only at h
    split at h
    · rename_i r
      split at h
      · split at h <;> exact ih h
      · rcases List.mem_cons.mp h with rfl | h
        · exact .inr ⟨r, List.mem_cons_self, rfl⟩
        · exact ih h
    · rename_i j
      rcases List.mem_cons.mp h with rfl | h
      · exact .inl List.mem_cons_self
      · exact ih h

variable {σ : Type} (P : IssueKind → Prop)

/-- A state of a copy that allows problems in records: its reports are in collection order, and
each counts and keeps problems of kinds `P` accepts only. -/
structure Forgiving (s : Run σ) : Prop where
  allow : s.options.allowEntityErrors = true
  ordered : ReportsOrdered s.reports
  reports : ∀ k, (s.report k).ProblemsWithin P

variable {P}

namespace Forgiving

variable {s s' : Run σ}

theorem start {store : σ} {map : IdMap} {pipeline : Pipeline} {options : CopyOptions}
    (hallow : options.allowEntityErrors = true) :
    Forgiving P ({ store, map, pipeline, options } : Run σ) :=
  ⟨hallow, List.Pairwise.nil, fun k => by simpa [Run.report, reportOf] using CollectionReport.problemsWithin_empty k⟩

/-- Only the options and the reports matter. -/
theorem of_eq (h : Forgiving P s) (hopt : s'.options = s.options) (hreports : s'.reports = s.reports) :
    Forgiving P s' :=
  ⟨hopt ▸ h.allow, hreports ▸ h.ordered, fun k => by simpa [Run.report, hreports] using h.reports k⟩

/-- Changing the report of one collection, keeping it to problems `P` accepts. -/
theorem update (h : Forgiving P s) (hopt : s'.options = s.options) {k : Kind}
    (f : CollectionReport → CollectionReport) (hf : ∀ c, (f c).kind = c.kind)
    (hreports : s'.reports = updateReport k f s.reports) (hkept : (f (s.report k)).ProblemsWithin P) :
    Forgiving P s' := by
  refine ⟨hopt ▸ h.allow, hreports ▸ updateReport_ordered hf h.ordered, fun k' => ?_⟩
  simp only [Run.report, hreports, reportOf_updateReport hf h.ordered]
  split
  · rename_i hk
    subst hk
    exact hkept
  · exact h.reports k'

/-- Adding warnings keeps the invariant. -/
theorem warnsOnly (h : Forgiving P s) (hopt : s'.options = s.options) (hw : WarnsOnly s.reports s'.reports) :
    Forgiving P s' := by
  obtain ⟨hordered, htally⟩ := hw h.ordered
  exact ⟨hopt ▸ h.allow, hordered, fun k => (h.reports k).of_tally (htally k)⟩

/-- Counting an item read or written keeps the invariant. -/
theorem count (h : Forgiving P s) (hopt : s'.options = s.options) {k : Kind}
    (f : CollectionReport → CollectionReport) (hf : ∀ c, (f c).kind = c.kind ∧ (f c).tally.problems = c.errorsByKind ∧ (f c).errors = c.errors)
    (hreports : s'.reports = updateReport k f s.reports) : Forgiving P s' :=
  h.update hopt f (fun c => (hf c).1) hreports
    ⟨fun x hx => (h.reports k).counted x ((hf _).2.1 ▸ hx), fun i hi => (h.reports k).kept i ((hf _).2.2 ▸ hi)⟩

/-- Every listed report of a lenient state keeps problems `P` accepts. -/
theorem problemsWithin (h : Forgiving P s) {c : CollectionReport} (hc : c ∈ s.reports) : c.ProblemsWithin P := by
  have hc' := h.reports c.kind
  rwa [Run.report, reportOf_eq_of_mem h.ordered hc] at hc'

end Forgiving

variable {A : Run σ → Prop}

theorem countRead_forgiving (k : Kind) : Keeps (Forgiving P) SameOptions A (countRead k) fun _ _ => True :=
  fun _ hi _ => ⟨hi.count rfl (fun c => { c with read := c.read + 1 }) (fun _ => ⟨rfl, rfl, rfl⟩) rfl, rfl,
    fun _ _ => trivial⟩

theorem warn_forgiving (k : Kind) (ws : List Issue) :
    Keeps (Forgiving P) SameOptions A (warn k ws) fun _ _ => True :=
  fun s hi _ => ⟨hi.update rfl (fun c => ws.foldl (fun c w => c.addWarning w s.options.errorLimit) c)
    (fun c => (CollectionReport.foldl_addWarning ws _ c).1) rfl ((hi.reports k).foldl_addWarning ws _), rfl,
    fun _ _ => trivial⟩

/-- Dropping records for problems of kinds `P` accepts keeps the invariant. -/
theorem reject_forgiving (k : Kind) (errors : List Issue) (he : ∀ e ∈ errors, P e.kind) (dropped : Nat) :
    Keeps (Forgiving P) SameOptions A (reject k errors dropped) fun _ _ => True := by
  intro s hi _
  cases hf : s.options.failFast
  · rw [exec_reject_lenient _ _ _ _ hf]
    exact ⟨hi.update rfl (dropInto errors dropped s.options.errorLimit)
      (fun c => (CollectionReport.foldl_addError errors _ { c with dropped := c.dropped + dropped }).1) rfl
      ((hi.reports k).dropInto he _ _), rfl, fun _ _ => trivial⟩
  · cases errors with
    | nil =>
      have hstay : exec (reject k [] dropped) s = (.ok (), s) := by simp [reject, exec_bind, hf]
      rw [hstay]
      exact ⟨hi, rfl, fun _ _ => trivial⟩
    | cons e es =>
      rw [exec_reject_failFast _ _ _ _ _ hf]
      exact ⟨hi, rfl, fun _ h => by cases h⟩

theorem filterStages_forgiving (r : Record) :
    Keeps (Forgiving P) SameOptions A (filterStages r) fun _ _ => True :=
  fun _ hi _ => ⟨hi.of_eq rfl rfl, rfl, fun _ _ => trivial⟩

theorem expandStages_forgiving (r : Record) :
    Keeps (Forgiving P) SameOptions A (expandStages r) fun _ _ => True :=
  fun _ hi _ => ⟨hi.of_eq rfl rfl, rfl, fun _ _ => trivial⟩

theorem write_forgiving (sink : Sink σ) (e : Record) (oldId : String) :
    Keeps (Forgiving P) SameOptions A (write sink e oldId) fun _ _ => True := by
  refine Keeps.write fun s store newId hi _ _ => ?_
  -- noting the record adds warnings only, then the written count grows
  obtain ⟨-, -, hopt, hwarn⟩ := note_frame e oldId newId { s with store := store }
  have hnoted : Forgiving P (exec (note e oldId newId) { s with store := store }).2 :=
    (show Forgiving P { s with store := store } from hi.of_eq rfl rfl).warnsOnly hopt hwarn
  exact ⟨hnoted.count rfl (fun c => { c with written := c.written + 1 }) (fun _ => ⟨rfl, rfl, rfl⟩) rfl, hopt,
    trivial⟩

theorem flush_forgiving (sink : Sink σ) (batch : List Record) :
    Keeps (Forgiving P) SameOptions A (flush sink batch) fun _ _ => True :=
  Keeps.flush fun _ _ ids hi _ _ =>
    ⟨hi.count rfl (fun c => { c with written := c.written + ids.length }) (fun _ => ⟨rfl, rfl, rfl⟩) rfl, rfl⟩

section Walk

variable (hreference : P .reference) (hrow : P .row)
include hreference

/-- Problems being allowed, a record is dropped only for a reference that does not resolve. -/
theorem prepare_forgiving (r : Record) (canDefer : Bool) :
    Keeps (Forgiving P) SameOptions A (prepare r canDefer) fun _ _ => True := by
  intro s hi hp
  rw [exec_prepare, if_neg fun h => by simp [hi.allow] at h]
  split
  · exact ⟨hi, rfl, fun _ _ => trivial⟩
  split
  · rename_i i hkeys
    have hkind : ∀ e ∈ [i.atLine r.line], P e.kind := fun e he => by
      rw [List.mem_singleton.mp he, Issue.atLine_kind, Record.kind_of_updateKeys_error hkeys]
      exact hreference
    have hdrop : Keeps (Forgiving P) SameOptions A
        (reject r.kind [i.atLine r.line] 1 >>= fun _ => pure Prepared.rejected) fun _ _ => True :=
      (reject_forgiving r.kind _ hkind 1).bind fun _ => Keeps.pure _ fun _ _ => trivial
    exact hdrop s hi hp
  · exact ⟨hi.update rfl
      (fun c => (r.warnings ++ r.errors).foldl (fun c w => c.addWarning w s.options.errorLimit) c)
      (fun c => (CollectionReport.foldl_addWarning _ _ c).1) rfl ((hi.reports r.kind).foldl_addWarning _ _), rfl,
      fun _ _ => trivial⟩

theorem settle_forgiving (sink : Sink σ) (kind : Kind) (oldId filteredId : String) :
    ∀ outs : List Record, Keeps (Forgiving P) SameOptions (fun _ => True) (settle sink kind oldId filteredId outs)
      fun _ _ => True
  | [] => Keeps.pure _ fun _ _ => trivial
  | out :: rest => by
    rw [settle]
    refine (prepare_forgiving hreference out true).bind fun p => ?_
    cases p with
    | ready e =>
      simp only [pure_bind]
      exact (write_forgiving sink e _).bind fun _ => (settle_forgiving sink kind oldId filteredId rest).bind
        fun _ => Keeps.pure _ fun _ _ => trivial
    | deferred _ | rejected =>
      simp only [pure_bind]
      exact (settle_forgiving sink kind oldId filteredId rest).bind fun _ => Keeps.pure _ fun _ _ => trivial

theorem process_forgiving (sink : Sink σ) (r : Record) :
    Keeps (Forgiving P) SameOptions (fun _ => True) (process sink r) fun _ _ => True := by
  unfold process
  exact (filterStages_forgiving r).bind fun _ => (expandStages_forgiving _).bind fun _ =>
    settle_forgiving hreference sink _ _ _ _

theorem retryOnce_forgiving (sink : Sink σ) :
    ∀ waiting : List (Record × String), Keeps (Forgiving P) SameOptions (fun _ => True) (retryOnce sink waiting)
      fun _ _ => True
  | [] => Keeps.pure _ fun _ _ => trivial
  | (e, oldId) :: rest => by
    rw [retryOnce]
    refine (prepare_forgiving hreference e true).bind fun p => ?_
    cases p with
    | ready e' =>
      simp only [pure_bind]
      exact (write_forgiving sink e' _).bind fun _ => (retryOnce_forgiving sink rest).bind
        fun _ => Keeps.pure _ fun _ _ => trivial
    | deferred _ | rejected =>
      simp only [pure_bind]
      exact (retryOnce_forgiving sink rest).bind fun _ => Keeps.pure _ fun _ _ => trivial

theorem retryDeferred_loop_forgiving (sink : Sink σ) :
    ∀ (fuel : Nat) (waiting : List (Record × String)),
      Keeps (Forgiving P) SameOptions (fun _ => True) (retryDeferred.loop sink waiting fuel) fun _ _ => True
  | 0, _ => Keeps.pure _ fun _ _ => trivial
  | fuel + 1, waiting => by
    rw [retryDeferred.loop]
    split
    · exact Keeps.pure _ fun _ _ => trivial
    refine ((retryOnce_forgiving hreference sink waiting).bind fun _ => ?_).mono (fun _ _ => trivial)
      fun _ _ h => h
    split
    · exact Keeps.pure _ fun _ _ => trivial
    · exact retryDeferred_loop_forgiving sink fuel _

theorem retryDeferred_forgiving (sink : Sink σ) (waiting : List (Record × String)) :
    Keeps (Forgiving P) SameOptions (fun _ => True) (retryDeferred sink waiting) fun _ _ => True := by
  unfold retryDeferred
  refine ((retryDeferred_loop_forgiving hreference sink _ waiting).bind fun _ => ?_).mono
    (fun _ _ => trivial) fun _ _ h => h
  refine (Keeps.forIn (fun _ _ => True) (fun x _ _ => ?_) ()).bind fun _ => Keeps.pure _ fun _ _ => trivial
  refine (prepare_forgiving hreference x.1 false).bind fun p => ?_
  cases p with
  | ready e => exact (write_forgiving sink e _).bind fun _ => Keeps.pure _ fun _ _ => trivial
  | deferred _ | rejected => exact Keeps.pure _ fun _ _ => trivial

variable {source : Source} (hsource : source.FaultsWithin P)
include hsource

theorem copyItems_forgiving (sink : Sink σ) (k : Kind) {st : Stream} (hread : source.read k = .ok (some st)) :
    ∀ (i : Nat) (items : List (Except Issue Record)), (∀ item ∈ items, item ∈ st.items) →
      Keeps (Forgiving P) SameOptions (fun _ => True) (copyItems sink k st i items) fun _ _ => True
  | _, [], _ => Keeps.pure _ fun _ _ => trivial
  | i, item :: rest, hitems => by
    simp only [copyItems]
    refine ((countRead_forgiving k).bind fun _ => ?_).mono (fun _ _ => trivial) fun _ _ h => h
    refine (Keeps.guarded (Q := fun _ _ => True) ?_ st (i + 1)).bind fun _ =>
      (copyItems_forgiving sink k hread (i + 1) rest fun x hx => hitems x (List.mem_cons_of_mem _ hx)).bind
        fun _ => Keeps.pure _ fun _ _ => trivial
    split
    · exact process_forgiving hreference sink _
    · rename_i issue
      -- an item the source could not read is dropped with its own problem
      have hissue : P issue.kind := hsource.read k st issue hread (hitems _ List.mem_cons_self)
      exact (reject_forgiving k [issue] (by simpa using hissue) 1).bind fun _ => Keeps.pure _ fun _ _ => trivial

theorem copyCollection_forgiving (sink : Sink σ) (k : Kind) :
    Keeps (Forgiving P) SameOptions (fun _ => True) (copyCollection source sink k) fun _ _ => True :=
  Keeps.copyCollection
    (fun st hread => copyItems_forgiving hreference hsource sink k hread 0 st.items fun _ h => h)
    fun waiting => retryDeferred_forgiving hreference sink waiting

omit hsource in
theorem processStopTime_forgiving (sink : Sink σ) (r : Record) :
    Keeps (Forgiving P) SameOptions (fun _ => True) (processStopTime sink r) fun _ _ => True := by
  unfold processStopTime
  refine ((filterStages_forgiving r).bind fun _ => (expandStages_forgiving _).bind fun outs => ?_).mono
    (fun _ _ => trivial) fun _ _ h => h
  refine (Keeps.forIn (fun _ _ => True) (fun out _ _ => ?_) []).bind fun _ => Keeps.pure _ fun _ _ => trivial
  refine (prepare_forgiving hreference out false).bind fun p => ?_
  cases p with
  | ready e =>
    dsimp only
    split
    · exact Keeps.pure _ fun _ _ => trivial
    · exact (write_forgiving sink e _).bind fun _ => Keeps.pure _ fun _ _ => trivial
  | deferred _ | rejected => exact Keeps.pure _ fun _ _ => trivial

omit hsource in
/-- Problems being allowed, the problems of a trip's order are warnings only. -/
theorem copyTrip_forgiving (sink : Sink σ) (batchSize : Nat) (sts batch : List Record) :
    Keeps (Forgiving P) SameOptions (fun _ => True) (copyTrip sink batchSize sts batch) fun _ _ => True := by
  unfold copyTrip
  rcases validateStopTimes sts with ⟨sorted, errors⟩
  dsimp only
  have hloop : Keeps (Forgiving P) SameOptions (fun _ => True)
      (forIn sorted batch fun st b => processStopTime sink st >>= fun more =>
        if (b ++ more).length ≥ batchSize then
          flush sink (b ++ more) >>= fun _ => pure (ForInStep.yield [])
        else pure (ForInStep.yield (b ++ more))) fun _ _ => True := by
    refine Keeps.forIn (fun _ _ => True) (fun st _ b => ?_) batch
    refine (processStopTime_forgiving hreference sink st).bind fun _ => ?_
    split
    · exact (flush_forgiving sink _).bind fun _ => Keeps.pure _ fun _ _ => trivial
    · exact Keeps.pure _ fun _ _ => trivial
  split
  · refine Keeps.get.bind fun a => ?_
    intro s hi has
    obtain ⟨rfl, -⟩ := has
    rw [if_neg (by simp [hi.allow])]
    exact (show Keeps (Forgiving P) SameOptions (fun _ => True) _ fun _ _ => True from
      (warn_forgiving _ _).bind fun _ => hloop.bind fun _ => Keeps.pure _ fun _ _ => trivial) a hi trivial
  · exact hloop.bind fun _ => Keeps.pure _ fun _ _ => trivial

include hrow

theorem copyChunk_forgiving (sink : Sink σ) (batchSize : Nat) (chunk : List String) :
    Keeps (Forgiving P) SameOptions (fun _ => True) (copyChunk source sink batchSize chunk) fun _ _ => True := by
  unfold copyChunk
  split
  · exact Keeps.throw _
  · exact Keeps.pure _ fun _ _ => trivial
  · rename_i st hread
    refine ((Keeps.forIn (fun _ _ => True) (fun _ _ _ => (countRead_forgiving _).bind fun _ =>
      Keeps.pure _ fun _ _ => trivial) ()).bind fun _ => (Keeps.finish st).bind fun _ => ?_).mono
      (fun _ _ => trivial) fun _ _ h => h
    rcases hgroups : groupByTrip st.items with ⟨groups, problems⟩
    dsimp only
    -- the problems of the batch are items the source could not read, or records of another
    -- collection
    refine (Keeps.forIn (fun _ _ => True) (fun p hp _ => ?_) ()).bind fun _ => ?_
    · have hp' : p ∈ (groupByTrip st.items).2 := by rw [hgroups]; exact hp
      have hkind : P p.kind := by
        rcases mem_problems_groupByTrip hp' with hi | ⟨r, -, rfl⟩
        · exact hsource.stopTimesOf chunk st p hread hi
        · exact hrow
      exact (reject_forgiving _ [p] (by simpa using hkind) 1).bind fun _ => Keeps.pure _ fun _ _ => trivial
    refine (Keeps.forIn (fun _ _ => True) (fun trip _ b => ?_) []).bind fun _ =>
      (flush_forgiving sink _).bind fun _ => Keeps.pure _ fun _ _ => trivial
    split
    · exact (copyTrip_forgiving hreference sink batchSize _ b).bind fun _ => Keeps.pure _ fun _ _ => trivial
    · exact Keeps.pure _ fun _ _ => trivial

theorem rejectOrphans_forgiving (tripIds : List String) :
    Keeps (Forgiving P) SameOptions (fun _ => True) (rejectOrphans (σ := σ) source tripIds) fun _ _ => True := by
  unfold rejectOrphans
  split
  · exact Keeps.throw _
  · exact Keeps.pure _ fun _ _ => trivial
  · rename_i st hread
    refine (Keeps.forIn (fun _ _ => True) (fun q hq _ => ?_) ()).bind fun _ => Keeps.finish st
    obtain ⟨item, i⟩ := q
    dsimp only
    refine (countRead_forgiving _).bind fun _ => (Keeps.guarded (reject_forgiving _ _ ?_ 1) st (i + 1)).bind
      fun _ => Keeps.pure _ fun _ _ => trivial
    -- an orphan is dropped for its trip, an item that is no stop time for itself
    intro e he
    rw [List.mem_singleton.mp he]
    split
    · split
      · simpa [Issue.reference] using hreference
      · exact hrow
    · rename_i issue
      have hitem : .error issue ∈ st.items := by
        rw [List.zipIdx_eq_zip_range'] at hq
        exact (List.of_mem_zip hq).1
      exact hsource.stopTimesNotOf tripIds st issue hread hitem

theorem copyStopTimes_forgiving (sink : Sink σ) :
    Keeps (Forgiving P) SameOptions (fun _ => True) (copyStopTimes source sink) fun _ _ => True :=
  Keeps.copyStopTimes (fun n chunk => copyChunk_forgiving hreference hrow hsource sink n chunk)
    fun trips => rejectOrphans_forgiving hreference hrow hsource trips

theorem copyAll_forgiving (sink : Sink σ) :
    Keeps (Forgiving P) SameOptions (fun _ => True) (copyAll source sink) fun _ _ => True :=
  Keeps.copyAll (copyStopTimes_forgiving hreference hrow hsource sink) fun k =>
    copyCollection_forgiving hreference hsource sink k

end Walk

end Copying

/-- A feed with a calendar whose Monday is 2, no day flag, a calendar date of its service, and a
trip of a route the feed does not have. -/
def misflaggedCalendarFeed : MemoryFeed :=
  MemoryFeed.ofRecords [
    Record.ofSql .calendar [("service_id", .text "C"), ("monday", .text "2"), ("tuesday", .text "1"),
      ("wednesday", .text "1"), ("thursday", .text "1"), ("friday", .text "1"), ("saturday", .text "1"),
      ("sunday", .text "1"), ("start_date", .text "20240101"), ("end_date", .text "20241231")],
    Record.ofSql .calendarDate [("service_id", .text "C"), ("date", .text "20240103"),
      ("exception_type", .integer 1)],
    Record.ofSql .trip [("route_id", .text "R"), ("service_id", .text "C"), ("trip_id", .text "T")]]

/-- Two stages creating the calendars of services that only calendar dates name. -/
def twiceCreatingServices : Pipeline := ⟨[.implicitService {}, .implicitService {}]⟩

end TransitFeed

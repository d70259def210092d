import TransitFeed.Proofs.Copy.Collection
import TransitFeed.Proofs.Copy.WriteLog

/-!
# Stopping at the first problem

With `failFast` a copy ends with the first problem of a record it drops, where it would
otherwise record the problem and go on. Only dropping a record looks at `failFast`, so a step
run from one state with and without it goes the same way as long as the run without records
no problem. When it records one, the run with `failFast` stops there, in the state the other
run was in, with that problem; or, inside a step over the items of a stream that failed
close enough behind, with the stream's own error.

`Mirrors Alt x` says so of a step `x`, for a logging destination, whose log of what it was
handed grows along a run; `Alt` lists the errors, other than the problem, that the run with
`failFast` may stop with. Mirrors compose along the monad: sequences, loops over lists, steps
that read the state but not `failFast`, and guarded steps over a stream.
-/

namespace TransitFeed

/-- The state of a copy with `failFast` on. -/
def Run.failingFast {σ : Type} (s : Run σ) : Run σ :=
  { s with options := { s.options with failFast := true } }

/-- The error a guarded step ends with when the step fails: the stream's own error when the
reading had reached it, the step's otherwise. -/
def Stream.blame (st : Stream) (position bufferSize : Nat) (e : FeedError) : FeedError :=
  match st.failure with
  | some f => if st.items.length ≤ position + Nat.max 1 bufferSize then f else e
  | none => e

theorem Stream.blame_cases (st : Stream) (position bufferSize : Nat) (e : FeedError) :
    st.blame position bufferSize e = e ∨ st.failure = some (st.blame position bufferSize e) := by
  unfold Stream.blame
  split
  · rename_i f hf
    split
    · exact .inr hf
    · exact .inl rfl
  · exact .inl rfl

namespace CollectionReport

theorem sum_bump (k : IssueKind) (l : List (IssueKind × Nat)) :
    ((bump k l).map (·.2)).foldr (· + ·) 0 = (l.map (·.2)).foldr (· + ·) 0 + 1 := by
  induction l with
  | nil => rfl
  | cons x rest ih =>
    obtain ⟨k', n⟩ := x
    simp only [bump]
    split
    · simp only [List.map_cons, List.foldr_cons]
      omega
    · split
      · simp only [List.map_cons, List.foldr_cons]
        omega
      · simp only [List.map_cons, List.foldr_cons, ih]
        omega

/-- A problem adds one to the count of problems. -/
@[simp] theorem errorCount_addError (c : CollectionReport) (i : Issue) (limit : Nat) :
    (c.addError i limit).errorCount = c.errorCount + 1 :=
  sum_bump i.kind c.errorsByKind

/-- Problems are kept after those kept before. -/
theorem errors_prefix_addError (c : CollectionReport) (i : Issue) (limit : Nat) :
    c.errors <+: (c.addError i limit).errors := by
  simp only [addError]
  split
  · exact List.prefix_append _ _
  · exact List.prefix_refl _

end CollectionReport

namespace Copying

variable {σ : Type}

section Reports

open CollectionReport

/-- Problems added one after the other are counted and kept after those kept before. -/
theorem foldl_addError_errors (es : List Issue) (limit : Nat) (c : CollectionReport) :
    (es.foldl (fun c e => c.addError e limit) c).kind = c.kind ∧
      c.errors <+: (es.foldl (fun c e => c.addError e limit) c).errors ∧
      (es.foldl (fun c e => c.addError e limit) c).errorCount = c.errorCount + es.length := by
  induction es generalizing c with
  | nil => exact ⟨rfl, List.prefix_refl _, rfl⟩
  | cons e es ih =>
    obtain ⟨hk, hkept, hcount⟩ := ih (c.addError e limit)
    refine ⟨by simpa using hk, (errors_prefix_addError c e limit).trans hkept, ?_⟩
    rw [List.foldl_cons, hcount, errorCount_addError, List.length_cons]
    omega

/-- Dropping records counts their problems and keeps them after those kept before. -/
theorem dropInto_grows (errors : List Issue) (dropped limit : Nat) (c : CollectionReport) :
    (dropInto errors dropped limit c).kind = c.kind ∧
      c.errors <+: (dropInto errors dropped limit c).errors ∧
      (dropInto errors dropped limit c).errorCount = c.errorCount + errors.length :=
  foldl_addError_errors errors limit { c with dropped := c.dropped + dropped }

/-- The first problem of records dropped is kept right after those kept before, if there is
room. -/
theorem dropInto_first (e : Issue) (es : List Issue) (dropped limit : Nat) (c : CollectionReport)
    (hroom : c.errors.length < limit) :
    c.errors ++ [e] <+: (dropInto (e :: es) dropped limit c).errors := by
  have hfirst : ({ c with dropped := c.dropped + dropped }.addError e limit).errors = c.errors ++ [e] := by
    simp [addError, hroom]
  rw [← hfirst]
  exact (foldl_addError_errors es limit _).2.1

end Reports

/-- A state of a copy without `failFast`, with its reports in collection order. -/
structure Lenient (s : Run σ) : Prop where
  failFast : s.options.failFast = false
  ordered : ReportsOrdered s.reports

/-- From a state of a copy to a later one: the options stay, the log of a logging destination
grows, the reports stay in collection order, and every report keeps the problems it kept and
counts at least as many. -/
structure Grows (s t : Run (σ × List Record)) : Prop where
  options : t.options = s.options
  log : s.store.2 <+: t.store.2
  ordered : ReportsOrdered t.reports
  kept : ∀ k, (s.report k).errors <+: (t.report k).errors
  count : ∀ k, (s.report k).errorCount ≤ (t.report k).errorCount

/-- No problem was recorded from a state to a later one. -/
def SameErrors (s t : Run σ) : Prop :=
  ∀ k, (t.report k).errorsByKind = (s.report k).errorsByKind ∧ (t.report k).errors = (s.report k).errors

/-- The problem `e` of collection `k` was recorded from a state to a later one: the count of
problems of `k` grew, and `e` came right after the problems kept before, if there was room. -/
structure Records (u t : Run σ) (k : Kind) (e : Issue) : Prop where
  count : (u.report k).errorCount < (t.report k).errorCount
  kept : (u.report k).errors.length < u.options.errorLimit →
    (u.report k).errors ++ [e] <+: (t.report k).errors

namespace Grows

variable {s t r : Run (σ × List Record)}

theorem refl (h : ReportsOrdered s.reports) : Grows s s :=
  ⟨rfl, List.prefix_refl _, h, fun _ => List.prefix_refl _, fun _ => Nat.le_refl _⟩

theorem trans (h₁ : Grows s t) (h₂ : Grows t r) : Grows s r :=
  ⟨h₂.options.trans h₁.options, h₁.log.trans h₂.log, h₂.ordered,
    fun k => (h₁.kept k).trans (h₂.kept k), fun k => Nat.le_trans (h₁.count k) (h₂.count k)⟩

theorem lenient (hs : Lenient s) (h : Grows s t) : Lenient t :=
  ⟨by rw [h.options]; exact hs.failFast, h.ordered⟩

/-- Changing the report of one collection in a way that keeps its problems and adds to them. -/
theorem update (hs : ReportsOrdered s.reports) {k : Kind} {g : CollectionReport → CollectionReport}
    (hg : ∀ c, (g c).kind = c.kind ∧ c.errors <+: (g c).errors ∧ c.errorCount ≤ (g c).errorCount)
    (ht : t = { s with reports := updateReport k g s.reports }) : Grows s t := by
  subst ht
  have hkind : ∀ c, (g c).kind = c.kind := fun c => (hg c).1
  refine ⟨rfl, List.prefix_refl _, updateReport_ordered hkind hs, fun k' => ?_, fun k' => ?_⟩
  · simp only [Run.report, reportOf_updateReport hkind hs]
    split
    · rename_i hk
      subst hk
      exact (hg _).2.1
    · exact List.prefix_refl _
  · simp only [Run.report, reportOf_updateReport hkind hs]
    split
    · rename_i hk
      subst hk
      exact (hg _).2.2
    · exact Nat.le_refl _

end Grows

namespace SameErrors

variable {s t r : Run σ}

theorem refl (s : Run σ) : SameErrors s s := fun _ => ⟨rfl, rfl⟩

theorem trans (h₁ : SameErrors s t) (h₂ : SameErrors t r) : SameErrors s r :=
  fun k => ⟨(h₂ k).1.trans (h₁ k).1, (h₂ k).2.trans (h₁ k).2⟩

/-- Changing the report of one collection in a way that keeps its problems. -/
theorem update (hs : ReportsOrdered s.reports) {k : Kind} {g : CollectionReport → CollectionReport}
    (ht : t.reports = updateReport k g s.reports)
    (hg : ∀ c, (g c).kind = c.kind ∧ (g c).errorsByKind = c.errorsByKind ∧ (g c).errors = c.errors) :
    SameErrors s t := by
  intro k'
  simp only [Run.report, ht, reportOf_updateReport (fun c => (hg c).1) hs]
  split
  · rename_i hk
    subst hk
    exact (hg _).2
  · exact ⟨rfl, rfl⟩

/-- A state that records no problem counts none either. -/
theorem errorCount_eq (h : SameErrors s t) (k : Kind) : (t.report k).errorCount = (s.report k).errorCount := by
  simp only [CollectionReport.errorCount, (h k).1]

end SameErrors

theorem Records.mono {u t r : Run (σ × List Record)} {k : Kind} {e : Issue} (h : Records u t k e)
    (hg : Grows t r) : Records u r k e :=
  ⟨Nat.lt_of_lt_of_le h.count (hg.count k), fun hroom => (h.kept hroom).trans (hg.kept k)⟩

/-- How the run of a step with `failFast` follows the run from the same state without: it goes
the same way, the run without recording no problem; or it stops, in a state `u` between the
start and the end of the run without, which records its first problem `e` after `u`, with `e`
or with an error that `Alt` allows. -/
def Track (Alt : FeedError → Prop) {α : Type} (s : Run (σ × List Record))
    (R F : Except FeedError α × Run (σ × List Record)) : Prop :=
  (F = (R.1, R.2.failingFast) ∧ SameErrors s R.2) ∨
    ∃ u k e E, F = (.error E, u.failingFast) ∧ Grows s u ∧ Grows u R.2 ∧ SameErrors s u ∧
      Records u R.2 k e ∧ (E = .entity k.fileName e ∨ Alt E)

/-- Run from a state without `failFast` and from the same state with it, the step `x` is
followed as `Track` says, and the run without ends in a later state. -/
def Mirrors (Alt : FeedError → Prop) {α : Type} (x : Copying (σ × List Record) α) : Prop :=
  ∀ s, Lenient s → Grows s (exec x s).2 ∧ Track Alt s (exec x s) (exec x s.failingFast)

namespace Mirrors

variable {Alt Alt' : FeedError → Prop} {α β : Type}

theorem mono {x : Copying (σ × List Record) α} (h : Mirrors Alt x) (hAlt : ∀ f, Alt f → Alt' f) :
    Mirrors Alt' x := by
  intro s hl
  obtain ⟨hg, htrack⟩ := h s hl
  refine ⟨hg, ?_⟩
  rcases htrack with hsame | ⟨u, k, e, E, hF, hsu, hur, hse, hrec, hE⟩
  · exact .inl hsame
  · exact .inr ⟨u, k, e, E, hF, hsu, hur, hse, hrec, hE.imp id (hAlt E)⟩

/-- A step that does not look at `failFast` and records no problem goes the same way in both
runs. -/
theorem of_exec {x : Copying (σ × List Record) α}
    (hx : ∀ s, exec x s.failingFast = ((exec x s).1, (exec x s).2.failingFast))
    (hs : ∀ s, Lenient s → Grows s (exec x s).2 ∧ SameErrors s (exec x s).2) : Mirrors Alt x := by
  intro s hl
  obtain ⟨hg, hsame⟩ := hs s hl
  exact ⟨hg, .inl ⟨hx s, hsame⟩⟩

theorem pure (a : α) : Mirrors Alt (pure a : Copying (σ × List Record) α) :=
  of_exec (fun _ => rfl) fun s hl => ⟨.refl hl.ordered, .refl s⟩

theorem throw (e : FeedError) : Mirrors Alt (throw e : Copying (σ × List Record) α) :=
  of_exec (fun _ => rfl) fun s hl => ⟨.refl hl.ordered, .refl s⟩

theorem bind {x : Copying (σ × List Record) α} {f : α → Copying (σ × List Record) β}
    (hx : Mirrors Alt x) (hf : ∀ a, Mirrors Alt (f a)) : Mirrors Alt (x >>= f) := by
  intro s hl
  obtain ⟨hg, htrack⟩ := hx s hl
  -- the run without failFast goes on from where the first step ended
  have hafter : Grows (exec x s).2 (exec (x >>= f) s).2 := by
    rcases hR : exec x s with ⟨_ | a, r⟩
    · rw [exec_bind_of_error hR]
      rw [hR] at hg
      exact .refl hg.ordered
    · rw [exec_bind_of_ok hR]
      rw [hR] at hg
      exact (hf a r (hg.lenient hl)).1
  refine ⟨hg.trans hafter, ?_⟩
  rcases htrack with ⟨hF, hsame⟩ | ⟨u, k, e, E, hF, hsu, hur, hse, hrec, hE⟩
  · rcases hR : exec x s with ⟨_ | a, r⟩
    · rw [hR] at hF hsame
      rw [exec_bind_of_error hR, exec_bind_of_error hF]
      exact .inl ⟨rfl, hsame⟩
    · -- both runs go on with the second step, from mirrored states
      rw [hR] at hF hsame hg
      rw [exec_bind_of_ok hR, exec_bind_of_ok hF]
      rcases (hf a r (hg.lenient hl)).2 with ⟨hF', hsame'⟩ | ⟨u, k, e, E, hF', hsu, hur, hse, hrec, hE⟩
      · exact .inl ⟨hF', hsame.trans hsame'⟩
      · exact .inr ⟨u, k, e, E, hF', hg.trans hsu, hur, hsame.trans hse, hrec, hE⟩
  · -- the run with failFast stopped; the other one goes on and keeps what it recorded
    rw [exec_bind_of_error hF]
    exact .inr ⟨u, k, e, E, rfl, hsu, hur.trans hafter, hse, hrec.mono hafter, hE⟩

theorem forIn {xs : List α} {f : α → β → Copying (σ × List Record) (ForInStep β)}
    (hf : ∀ a ∈ xs, ∀ b, Mirrors Alt (f a b)) (b : β) : Mirrors Alt (forIn xs b f) := by
  induction xs generalizing b with
  | nil => exact pure b
  | cons a as ih =>
    rw [List.forIn_cons]
    refine bind (hf a List.mem_cons_self b) fun step => ?_
    cases step with
    | done b' => exact pure b'
    | yield b' => exact ih (fun x hx => hf x (List.mem_cons_of_mem _ hx)) b'

/-- A step that reads the state, but not `failFast`. -/
theorem get_bind {f : Run (σ × List Record) → Copying (σ × List Record) α}
    (hf : ∀ t, f t.failingFast = f t) (h : ∀ t, Mirrors Alt (f t)) : Mirrors Alt (get >>= f) := by
  intro s hl
  have hR : exec (get >>= f) s = exec (f s) s := by rw [exec_bind, exec_get]
  have hF : exec (get >>= f) s.failingFast = exec (f s.failingFast) s.failingFast := by
    rw [exec_bind, exec_get]
  rw [hR, hF, hf]
  exact h s s hl

/-- Dropping records with problems counts them and keeps the first right after the problems
kept before, if there is room. -/
theorem grows_records_dropInto {s t : Run (σ × List Record)} (hs : ReportsOrdered s.reports) (k : Kind)
    (e : Issue) (es : List Issue) (dropped : Nat)
    (ht : t = { s with reports := updateReport k (dropInto (e :: es) dropped s.options.errorLimit) s.reports }) :
    Grows s t ∧ Records s t k e := by
  have hkind := fun c => (dropInto_grows (e :: es) dropped s.options.errorLimit c).1
  refine ⟨.update hs (fun c => ⟨hkind c, (dropInto_grows _ _ _ c).2.1,
    by rw [(dropInto_grows _ _ _ c).2.2]; omega⟩) ht, ?_⟩
  -- only the report of `k` changes
  have hreport : t.report k = dropInto (e :: es) dropped s.options.errorLimit (s.report k) := by
    simp only [ht, Run.report, reportOf_updateReport hkind hs, ↓reduceIte]
  constructor
  · rw [hreport, (dropInto_grows _ _ _ _).2.2, List.length_cons]
    omega
  · intro hroom
    rw [hreport]
    exact dropInto_first e es dropped _ _ hroom

/-- Dropping records with problems: the run without `failFast` records the first problem, and
the run with it stops before, with that problem. -/
theorem reject (k : Kind) {errors : List Issue} (hne : errors ≠ []) (dropped : Nat) :
    Mirrors Alt (reject k errors dropped : Copying (σ × List Record) Unit) := by
  obtain ⟨e, es, rfl⟩ := List.exists_cons_of_ne_nil hne
  intro s hl
  rw [exec_reject_lenient k _ dropped s hl.failFast, exec_reject_failFast k e es dropped s.failingFast rfl]
  obtain ⟨hg, hrec⟩ := grows_records_dropInto hl.ordered k e es dropped rfl
  exact ⟨hg, .inr ⟨s, k, e, _, rfl, .refl hl.ordered, hg, .refl s, hrec, .inl rfl⟩⟩

end Mirrors

theorem exec_guarded {α : Type} (st : Stream) (position : Nat) (x : Copying σ α) (s : Run σ) :
    exec (guarded st position x) s =
      match exec x s with
      | (.ok a, s') => (.ok a, s')
      | (.error e, s') => (.error (st.blame position s'.options.bufferSize e), s') := by
  rw [guarded, exec_tryCatch]
  rcases exec x s with ⟨_ | a, s'⟩
  · dsimp only
    unfold Stream.blame
    cases hf : st.failure with
    | none => rfl
    | some f =>
      simp only [exec_bind, exec_get]
      split <;> rfl
  · rfl

/-- An error of a guarded step gives way to the stream's own error, which the run with
`failFast` may then stop with. -/
theorem Mirrors.guarded {Alt : FeedError → Prop} {α : Type} {step : Copying (σ × List Record) α}
    (h : Mirrors Alt step) (st : Stream) (position : Nat) :
    Mirrors (fun f => Alt f ∨ st.failure = some f) (guarded st position step) := by
  intro s hl
  obtain ⟨hg, htrack⟩ := h s hl
  rw [exec_guarded, exec_guarded]
  rcases htrack with ⟨hF, hsame⟩ | ⟨u, k, e, E, hF, hsu, hur, hse, hrec, hE⟩
  · -- the same outcome; an error gives way to the stream's in both runs alike
    rw [hF]
    rcases hR : exec step s with ⟨_ | a, r⟩ <;> rw [hR] at hg hsame <;> exact ⟨hg, .inl ⟨rfl, hsame⟩⟩
  · rw [hF]
    have hE' : st.blame position u.failingFast.options.bufferSize E = .entity k.fileName e ∨
        (Alt (st.blame position u.failingFast.options.bufferSize E) ∨
          st.failure = some (st.blame position u.failingFast.options.bufferSize E)) := by
      rcases Stream.blame_cases st position u.failingFast.options.bufferSize E with hb | hb
      · rw [hb]
        exact hE.imp id .inl
      · exact .inr (.inr hb)
    -- the run without failFast ends in the step's state, whatever its outcome
    rcases hR : exec step s with ⟨_ | a, r⟩ <;> rw [hR] at hg hur hrec <;>
      exact ⟨hg, .inr ⟨u, k, e, _, rfl, hsu, hur, hse, hrec, hE'⟩⟩

end Copying

end TransitFeed

import TransitFeed.Copy.Engine

/-!
# The report of a collection

A copy keeps its reports in a list, in collection order, one per collection something
happened to. Reading the report of a collection off such a list, a collection with none
has an empty report; updating the report of one collection leaves every other one as it
was. The counts of a report (items read, written and dropped, problems per kind and the
problems kept) are its tally: warnings never change it.
-/

namespace TransitFeed

theorem Kind.index_injective : Function.Injective Kind.index := by
  intro a b h
  cases a <;> cases b <;> simp_all [Kind.index]

namespace CollectionReport

/-- What a report says of the items of its collection, warnings aside. -/
structure Tally where
  read : Nat
  written : Nat
  dropped : Nat
  problems : List (IssueKind × Nat)
  kept : List Issue

/-- The counts of a report and the problems it keeps. -/
def tally (c : CollectionReport) : Tally := ⟨c.read, c.written, c.dropped, c.errorsByKind, c.errors⟩

@[simp] theorem addWarning_kind (c : CollectionReport) (i : Issue) (limit : Nat) :
    (c.addWarning i limit).kind = c.kind := rfl

@[simp] theorem addWarning_tally (c : CollectionReport) (i : Issue) (limit : Nat) :
    (c.addWarning i limit).tally = c.tally := rfl

@[simp] theorem addError_kind (c : CollectionReport) (i : Issue) (limit : Nat) :
    (c.addError i limit).kind = c.kind := rfl

@[simp] theorem addError_read (c : CollectionReport) (i : Issue) (limit : Nat) :
    (c.addError i limit).read = c.read := rfl

@[simp] theorem addError_written (c : CollectionReport) (i : Issue) (limit : Nat) :
    (c.addError i limit).written = c.written := rfl

@[simp] theorem addError_dropped (c : CollectionReport) (i : Issue) (limit : Nat) :
    (c.addError i limit).dropped = c.dropped := rfl

/-- Warnings leave the kind and the tally of a report as they were. -/
theorem foldl_addWarning (ws : List Issue) (limit : Nat) (c : CollectionReport) :
    (ws.foldl (fun c w => c.addWarning w limit) c).kind = c.kind ∧
      (ws.foldl (fun c w => c.addWarning w limit) c).tally = c.tally := by
  induction ws generalizing c with
  | nil => exact ⟨rfl, rfl⟩
  | cons w ws ih => simpa using ih (c.addWarning w limit)

/-- Problems leave the kind and the item counts of a report as they were. -/
theorem foldl_addError (es : List Issue) (limit : Nat) (c : CollectionReport) :
    (es.foldl (fun c e => c.addError e limit) c).kind = c.kind ∧
      (es.foldl (fun c e => c.addError e limit) c).read = c.read ∧
      (es.foldl (fun c e => c.addError e limit) c).written = c.written ∧
      (es.foldl (fun c e => c.addError e limit) c).dropped = c.dropped := by
  induction es generalizing c with
  | nil => exact ⟨rfl, rfl, rfl, rfl⟩
  | cons e es ih => simpa using ih (c.addError e limit)

end CollectionReport

/-- The report of a collection in a list of reports, an empty one if it has none. -/
def reportOf (rs : List CollectionReport) (k : Kind) : CollectionReport :=
  (rs.find? fun c => c.kind = k).getD { kind := k }

/-- Reports listed in collection order, at most one per collection. -/
def ReportsOrdered (rs : List CollectionReport) : Prop :=
  rs.Pairwise fun a b => a.kind.index < b.kind.index

@[simp] theorem reportOf_nil (k : Kind) : reportOf [] k = { kind := k } := rfl

theorem reportOf_cons (c : CollectionReport) (rs : List CollectionReport) (k : Kind) :
    reportOf (c :: rs) k = if c.kind = k then c else reportOf rs k := by
  by_cases h : c.kind = k <;> simp [reportOf, h]

@[simp] theorem reportOf_kind (rs : List CollectionReport) (k : Kind) : (reportOf rs k).kind = k := by
  induction rs with
  | nil => rfl
  | cons c rs ih =>
    rw [reportOf_cons]
    split <;> assumption

/-- A collection listed after a later one is not listed at all. -/
theorem reportOf_of_lt {rs : List CollectionReport} {k : Kind}
    (h : ∀ c ∈ rs, k.index < c.kind.index) : reportOf rs k = { kind := k } := by
  induction rs with
  | nil => rfl
  | cons c rs ih =>
    have hc : c.kind ≠ k := fun e => by simpa [e] using h c (by simp)
    rw [reportOf_cons, if_neg hc]
    exact ih fun c' hc' => h c' (by simp [hc'])

theorem mem_updateReport {k : Kind} {f : CollectionReport → CollectionReport}
    (hf : ∀ c, (f c).kind = c.kind) {rs : List CollectionReport} {c' : CollectionReport}
    (h : c' ∈ Copying.updateReport k f rs) : c'.kind = k ∨ ∃ c ∈ rs, c'.kind = c.kind := by
  induction rs with
  | nil => simp_all [Copying.updateReport]
  | cons c rs ih =>
    simp only [Copying.updateReport] at h
    split at h
    · rcases List.mem_cons.mp h with rfl | h
      · exact .inr ⟨c, by simp, hf c⟩
      · exact .inr ⟨c', by simp [h], rfl⟩
    · split at h
      · rcases List.mem_cons.mp h with rfl | h
        · exact .inl (by simp [hf])
        · exact .inr ⟨c', h, rfl⟩
      · rcases List.mem_cons.mp h with rfl | h
        · exact .inr ⟨c', by simp, rfl⟩
        · rcases ih h with hk | ⟨d, hd, e⟩
          · exact .inl hk
          · exact .inr ⟨d, List.mem_cons_of_mem _ hd, e⟩

section Update

variable {k : Kind} {f : CollectionReport → CollectionReport}

/-- Updating a report keeps the list in collection order. -/
theorem updateReport_ordered (hf : ∀ c, (f c).kind = c.kind) {rs : List CollectionReport}
    (h : ReportsOrdered rs) : ReportsOrdered (Copying.updateReport k f rs) := by
  induction rs with
  | nil => simp [Copying.updateReport, ReportsOrdered]
  | cons c rs ih =>
    have hrest : ReportsOrdered rs := (List.pairwise_cons.mp h).2
    have hc : ∀ d ∈ rs, c.kind.index < d.kind.index := (List.pairwise_cons.mp h).1
    simp only [Copying.updateReport]
    split
    · exact List.pairwise_cons.mpr ⟨by simpa [hf] using hc, hrest⟩
    · split
      · refine List.pairwise_cons.mpr ⟨?_, h⟩
        intro d hd
        rcases List.mem_cons.mp hd with rfl | hd
        · simpa [hf]
        · simpa [hf] using Nat.lt_trans ‹_› (hc d hd)
      · refine List.pairwise_cons.mpr ⟨?_, ih hrest⟩
        intro d hd
        rcases mem_updateReport hf hd with hk | ⟨e, he, hde⟩
        · have hne : c.kind.index ≠ k.index := fun e => ‹¬c.kind = k› (Kind.index_injective e)
          rw [hk]
          omega
        · rw [hde]
          exact hc e he

/-- Updating the report of a collection changes that report alone. -/
theorem reportOf_updateReport (hf : ∀ c, (f c).kind = c.kind) {rs : List CollectionReport}
    (h : ReportsOrdered rs) (k' : Kind) :
    reportOf (Copying.updateReport k f rs) k' =
      if k' = k then f (reportOf rs k) else reportOf rs k' := by
  induction rs with
  | nil =>
    by_cases hk : k' = k
    · subst hk
      simp [Copying.updateReport, reportOf_cons, hf]
    · simp [Copying.updateReport, reportOf_cons, hf, hk, Ne.symm hk]
  | cons c rs ih =>
    have hrest : ReportsOrdered rs := (List.pairwise_cons.mp h).2
    have hc : ∀ d ∈ rs, c.kind.index < d.kind.index := (List.pairwise_cons.mp h).1
    simp only [Copying.updateReport]
    split
    · rename_i hck
      subst hck
      by_cases hk : k' = c.kind
      · simp [reportOf_cons, hf, hk]
      · simp [reportOf_cons, hf, hk, Ne.symm hk]
    · rename_i hck
      split
      · rename_i hlt
        -- the new report goes first; the collection had none, since every later one is larger
        have hnone : reportOf (c :: rs) k = { kind := k } := by
          refine reportOf_of_lt fun d hd => ?_
          rcases List.mem_cons.mp hd with rfl | hd
          · exact hlt
          · exact Nat.lt_trans hlt (hc d hd)
        by_cases hk : k' = k
        · subst hk
          simp [reportOf_cons, hf, hnone]
        · simp [reportOf_cons, hf, hk, Ne.symm hk]
      · simp only [reportOf_cons, ih hrest]
        by_cases hk : k' = k
        · subst hk
          simp [hck]
        · by_cases hc' : c.kind = k' <;> simp [hk, hc']

end Update

/-- In a list in collection order, a listed report is the report of its collection. -/
theorem reportOf_eq_of_mem {rs : List CollectionReport} (h : ReportsOrdered rs)
    {c : CollectionReport} (hc : c ∈ rs) : reportOf rs c.kind = c := by
  induction rs with
  | nil => simp at hc
  | cons d rs ih =>
    rw [reportOf_cons]
    rcases List.mem_cons.mp hc with rfl | hc
    · simp
    · have hlt := (List.pairwise_cons.mp h).1 c hc
      have hne : d.kind ≠ c.kind := fun e => by simp [e] at hlt
      rw [if_neg hne]
      exact ih (List.pairwise_cons.mp h).2 hc

end TransitFeed

import TransitFeed.Proofs.Copy.Steps

/-!
# How a collection is copied

The runs of the steps that copy a collection other than stop times, read off as relations
between the states they start and end in. A record, once prepared, is settled: written
under its source identifier, kept waiting, or dropped. A collection settles each record
its items became, retries the waiting stops round after round, and last prepares those
still waiting without letting them wait again. Guarding a step against the stream's own
error changes only which error ends the copy. A whole copy takes the collections in
order, stop times with their own steps.
-/

namespace TransitFeed

namespace Copying

variable {σ : Type}

/-- A guarded step ends normally exactly when the step does. -/
theorem exec_guarded_eq_ok {α : Type} (st : Stream) (position : Nat) (x : Copying σ α)
    (s s' : Run σ) (a : α) :
    exec (guarded st position x) s = (.ok a, s') ↔ exec x s = (.ok a, s') := by
  rw [guarded, exec_tryCatch]
  rcases exec x s with ⟨_ | b, s1⟩
  · -- the handler ends the copy whichever error it picks
    dsimp only
    refine ⟨fun h => ?_, fun h => by cases h⟩
    revert h
    split
    · rw [exec_bind, exec_get]
      dsimp only
      split <;> simp
    · simp
  · rfl

/-- A stream ends without its own error. -/
theorem exec_finish (st : Stream) (s : Run σ) :
    exec (finish st) s = match st.failure with
      | some f => (.error f, s)
      | none => (.ok (), s) := by
  cases h : st.failure <;> simp only [finish, h] <;> rfl

theorem finish_ok {st : Stream} {s s' : Run σ} (h : exec (finish st) s = (.ok (), s')) :
    st.failure = none ∧ s' = s := by
  rw [exec_finish] at h
  split at h
  · cases h
  · exact ⟨‹_›, (Prod.mk.inj h).2.symm⟩

/-- What becomes of a prepared record of a collection: a ready record is written under its
source identifier, a waiting one is kept with it, and a dropped one is done with. -/
def Settled (sink : Sink σ) (oldId : String) : Prepared → Run σ → List (Record × String) → Run σ → Prop
  | .ready e, s, w, s' => exec (write sink e oldId) s = (.ok (), s') ∧ w = []
  | .deferred e, s, w, s' => w = [(e, oldId)] ∧ s' = s
  | .rejected, s, w, s' => w = [] ∧ s' = s

/-- Settling a prepared record, then going on with what waits. -/
theorem exec_settled_eq_ok {β : Type} (sink : Sink σ) (oldId : String) (out : Prepared)
    (k : List (Record × String) → Copying σ β) (s s' : Run σ) (b : β) :
    exec (match out with
      | .ready e => write sink e oldId >>= fun _ => pure [] >>= k
      | .deferred e => pure [(e, oldId)] >>= k
      | .rejected => pure [] >>= k) s = (.ok b, s') ↔
      ∃ w s1, Settled sink oldId out s w s1 ∧ exec (k w) s1 = (.ok b, s') := by
  cases out with
  | ready e =>
    simp only [exec_bind_eq_ok, Settled, pure_bind]
    constructor
    · rintro ⟨_, s1, hw, hk⟩
      exact ⟨[], s1, ⟨hw, rfl⟩, hk⟩
    · rintro ⟨w, s1, ⟨hw, rfl⟩, hk⟩
      exact ⟨(), s1, hw, hk⟩
  | deferred e =>
    simp only [Settled, pure_bind]
    exact ⟨fun h => ⟨_, _, ⟨rfl, rfl⟩, h⟩, fun ⟨_, _, ⟨hw, hs⟩, h⟩ => hw ▸ hs ▸ h⟩
  | rejected =>
    simp only [Settled, pure_bind]
    exact ⟨fun h => ⟨_, _, ⟨rfl, rfl⟩, h⟩, fun ⟨_, _, ⟨hw, hs⟩, h⟩ => hw ▸ hs ▸ h⟩

/-- Settling the records a source record became: each is prepared, and may wait. -/
theorem exec_settle_cons_eq_ok (sink : Sink σ) (kind : Kind) (oldId filteredId : String)
    (out : Record) (rest : List Record) (s s' : Run σ) (w : List (Record × String)) :
    exec (settle sink kind oldId filteredId (out :: rest)) s = (.ok w, s') ↔
      ∃ o s1, exec (prepare out true) s = (.ok o, s1) ∧ ∃ w1 s2 w2,
        Settled sink (if (out.kind = kind && out.entityId == filteredId) = true then oldId
          else out.entityId) o s1 w1 s2 ∧
        exec (settle sink kind oldId filteredId rest) s2 = (.ok w2, s') ∧ w = w1 ++ w2 := by
  rw [settle.eq_2, exec_bind_eq_ok]
  refine exists_congr fun o => exists_congr fun s1 => and_congr_right fun _ => ?_
  refine (exec_settled_eq_ok sink _ o
    (fun waiting => settle sink kind oldId filteredId rest >>= fun l => pure (waiting ++ l)) s1 s' w).trans ?_
  simp only [exec_bind_eq_ok, exec_pure, Prod.mk.injEq, Except.ok.injEq]
  constructor
  · rintro ⟨w1, s2, hs, w2, s3, hr, rfl, rfl⟩
    exact ⟨w1, s2, w2, hs, hr, rfl⟩
  · rintro ⟨w1, s2, w2, hs, hr, rfl⟩
    exact ⟨w1, s2, hs, w2, s', hr, rfl, rfl⟩

/-- A round of retries prepares each waiting stop again, and settles it. -/
theorem exec_retryOnce_cons_eq_ok (sink : Sink σ) (e : Record) (oldId : String)
    (rest : List (Record × String)) (s s' : Run σ) (w : List (Record × String)) :
    exec (retryOnce sink ((e, oldId) :: rest)) s = (.ok w, s') ↔
      ∃ o s1, exec (prepare e true) s = (.ok o, s1) ∧ ∃ w1 s2 w2, Settled sink oldId o s1 w1 s2 ∧
        exec (retryOnce sink rest) s2 = (.ok w2, s') ∧ w = w1 ++ w2 := by
  rw [retryOnce.eq_2, exec_bind_eq_ok]
  refine exists_congr fun o => exists_congr fun s1 => and_congr_right fun _ => ?_
  refine (exec_settled_eq_ok sink oldId o
    (fun waiting => retryOnce sink rest >>= fun l => pure (waiting ++ l)) s1 s' w).trans ?_
  simp only [exec_bind_eq_ok, exec_pure, Prod.mk.injEq, Except.ok.injEq]
  constructor
  · rintro ⟨w1, s2, hs, w2, s3, hr, rfl, rfl⟩
    exact ⟨w1, s2, w2, hs, hr, rfl⟩
  · rintro ⟨w1, s2, w2, hs, hr, rfl⟩
    exact ⟨w1, s2, hs, w2, s', hr, rfl, rfl⟩

@[simp] theorem exec_loop_zero (sink : Sink σ) (deferred : List (Record × String)) (s : Run σ) :
    exec (retryDeferred.loop sink deferred 0) s = (.ok deferred, s) := rfl

/-- The rounds of retries end when no stop waits, when none moved, or when the rounds run out;
otherwise the stops still waiting go to the next round. -/
theorem loop_succ_ok {sink : Sink σ} {deferred w : List (Record × String)} {n : Nat} {s s' : Run σ}
    (h : exec (retryDeferred.loop sink deferred (n + 1)) s = (.ok w, s')) :
    (w = deferred ∧ s' = s) ∨ ∃ pending s1, exec (retryOnce sink deferred) s = (.ok pending, s1) ∧
      ((w = pending ∧ s' = s1) ∨ exec (retryDeferred.loop sink pending n) s1 = (.ok w, s')) := by
  rw [retryDeferred.loop.eq_2, exec_ite] at h
  split at h
  · exact .inl ⟨(Except.ok.inj (Prod.mk.inj h).1).symm, (Prod.mk.inj h).2.symm⟩
  · obtain ⟨pending, s1, hr, h⟩ := exec_bind_eq_ok.mp h
    refine .inr ⟨pending, s1, hr, ?_⟩
    rw [exec_ite] at h
    split at h
    · exact .inl ⟨(Except.ok.inj (Prod.mk.inj h).1).symm, (Prod.mk.inj h).2.symm⟩
    · exact .inr h

/-- The last pass over the stops still waiting: each is prepared without waiting, and
written when ready. -/
def Leftover (sink : Sink σ) : List (Record × String) → Run σ → Run σ → Prop
  | [], s, s' => s' = s
  | (e, oldId) :: rest, s, s' => ∃ o s1 s2, exec (prepare e false) s = (.ok o, s1) ∧
      (match o with
        | .ready e' => exec (write sink e' oldId) s1 = (.ok (), s2)
        | _ => s2 = s1) ∧
      Leftover sink rest s2 s'

/-- Retrying the waiting stops runs the rounds of retries, then the last pass. -/
theorem retryDeferred_ok {sink : Sink σ} {deferred : List (Record × String)} {s s' : Run σ}
    (h : exec (retryDeferred sink deferred) s = (.ok (), s')) :
    ∃ left s1, exec (retryDeferred.loop sink deferred (deferred.length + 1)) s = (.ok left, s1) ∧
      Leftover sink left s1 s' := by
  rw [retryDeferred] at h
  obtain ⟨left, s1, hl, h⟩ := exec_bind_eq_ok.mp h
  obtain ⟨_, s2, hfor, hp⟩ := exec_bind_eq_ok.mp h
  obtain rfl : s2 = s' := (Prod.mk.inj hp).2
  refine ⟨left, s1, hl, ?_⟩
  clear hl hp h
  -- the last pass, one waiting stop at a time
  induction left generalizing s1 with
  | nil => exact (Prod.mk.inj hfor).2.symm
  | cons x rest ih =>
    obtain ⟨e, oldId⟩ := x
    rw [exec_forIn_cons] at hfor
    split at hfor
    · rename_i hstep
      obtain ⟨o, t1, hp, hstep⟩ := exec_bind_eq_ok.mp hstep
      cases o <;> simp at hstep
      rename_i e'
      obtain ⟨_, t2, hw, hs⟩ := exec_bind_eq_ok.mp hstep
      cases hs
    · rename_i hstep
      obtain ⟨o, t1, hp, hstep⟩ := exec_bind_eq_ok.mp hstep
      refine ⟨o, t1, _, hp, ?_, ih _ hfor⟩
      cases o with
      | ready e' =>
        obtain ⟨_, t2, hw, hs⟩ := exec_bind_eq_ok.mp hstep
        obtain rfl := (Prod.mk.inj hs).2
        exact hw
      | deferred e' => exact (Prod.mk.inj hstep).2.symm
      | rejected => exact (Prod.mk.inj hstep).2.symm
    · cases hfor

/-- Counting an item as read, then running a guarded step for it and the rest of the items. -/
theorem exec_counted_eq_ok (k : Kind) (st : Stream) (position : Nat)
    (x more : Copying σ (List (Record × String))) (s s' : Run σ) (w : List (Record × String)) :
    exec (countRead k >>= fun _ => guarded st position x >>= fun w1 => more >>= fun w2 =>
        pure (w1 ++ w2)) s = (.ok w, s') ↔
      ∃ w1 s1 w2, exec x (exec (countRead k) s).2 = (.ok w1, s1) ∧ exec more s1 = (.ok w2, s') ∧
        w = w1 ++ w2 := by
  have hcount : exec (countRead k) s = (.ok (), (exec (countRead k) s).2) := rfl
  rw [exec_bind_of_ok hcount]
  simp only [exec_bind_eq_ok, exec_guarded_eq_ok, exec_pure, Prod.mk.injEq, Except.ok.injEq]
  constructor
  · rintro ⟨w1, s1, h1, w2, s2, h2, rfl, rfl⟩
    exact ⟨w1, s1, w2, h1, h2, rfl⟩
  · rintro ⟨w1, s1, w2, h1, h2, rfl⟩
    exact ⟨w1, s1, h1, w2, s', h2, rfl, rfl⟩

/-- Copying the items of a stream counts each as read, then copies the record it holds or
drops the row that could not be read. -/
theorem exec_copyItems_cons_eq_ok (sink : Sink σ) (k : Kind) (st : Stream) (i : Nat)
    (item : Except Issue Record) (rest : List (Except Issue Record)) (s s' : Run σ)
    (w : List (Record × String)) :
    exec (copyItems sink k st i (item :: rest)) s = (.ok w, s') ↔
      ∃ w1 s1 w2, exec (match item with
          | .ok r => process sink r
          | .error issue => reject k [issue] 1 >>= fun _ => pure []) (exec (countRead k) s).2 =
            (.ok w1, s1) ∧
        exec (copyItems sink k st (i + 1) rest) s1 = (.ok w2, s') ∧ w = w1 ++ w2 := by
  cases item with
  | ok r => exact exec_counted_eq_ok k st (i + 1) _ _ s s' w
  | error issue => exact exec_counted_eq_ok k st (i + 1) _ _ s s' w

/-- A record of a collection goes through the filters and the expansions of the stages, and
the records it became are settled. -/
theorem exec_process (sink : Sink σ) (r : Record) (s : Run σ) :
    exec (process sink r) s =
      let filtered := s.pipeline.filter s.map r
      let expanded := filtered.1.expand s.map filtered.2
      exec (settle sink filtered.2.kind r.entityId filtered.2.entityId expanded.2)
        { s with pipeline := expanded.1 } := by
  unfold process
  rw [exec_bind_of_ok (exec_filterStages r s), exec_bind_of_ok (exec_expandStages _ _)]

/-- A collection the source has is copied item by item, ends without the stream's own error,
and has its waiting stops retried; a collection it does not have is skipped. -/
theorem copyCollection_ok {source : Source} {sink : Sink σ} {k : Kind} {s s' : Run σ}
    (h : exec (copyCollection source sink k) s = (.ok (), s')) :
    (source.read k = .ok none ∧ s' = s) ∨
      ∃ st, source.read k = .ok (some st) ∧ st.failure = none ∧
        ∃ w s1, exec (copyItems sink k st 0 st.items) s = (.ok w, s1) ∧
          exec (retryDeferred sink w) s1 = (.ok (), s') := by
  unfold copyCollection at h
  split at h
  · cases h
  · exact .inl ⟨‹_›, (Prod.mk.inj h).2.symm⟩
  · rename_i st hread
    obtain ⟨w, s1, hitems, h⟩ := exec_bind_eq_ok.mp h
    obtain ⟨_, s2, hfinish, h⟩ := exec_bind_eq_ok.mp h
    obtain ⟨hfailure, hs⟩ := finish_ok hfinish
    exact .inr ⟨st, hread, hfailure, w, s1, hitems, hs ▸ h⟩

/-- Copying collections in order, stop times with their own steps. -/
def AllRun (source : Source) (sink : Sink σ) : List Kind → Run σ → Run σ → Prop
  | [], s, s' => s' = s
  | k :: rest, s, s' => ∃ s1,
      exec (if k = .stopTime then copyStopTimes source sink else copyCollection source sink k) s =
        (.ok (), s1) ∧ AllRun source sink rest s1 s'

/-- A collection counted at most once in a list that starts with it is not listed again. -/
theorem not_mem_of_count_cons_le_one {k : Kind} {ks : List Kind} (h : (k :: ks).count k ≤ 1) :
    k ∉ ks := by
  rw [List.count_cons_self] at h
  exact List.count_eq_zero.mp (by omega)

/-- A whole copy runs through every collection in order. -/
theorem copyAll_ok {source : Source} {sink : Sink σ} {s s' : Run σ}
    (h : exec (copyAll source sink) s = (.ok (), s')) : AllRun source sink Kind.all s s' := by
  unfold copyAll at h
  obtain ⟨_, s1, hfor, hp⟩ := exec_bind_eq_ok.mp h
  obtain ⟨-, rfl⟩ := Prod.mk.inj hp
  clear h hp
  generalize Kind.all = ks at hfor ⊢
  induction ks generalizing s with
  | nil => exact (Prod.mk.inj hfor).2.symm
  | cons k rest ih =>
    rw [exec_forIn_cons] at hfor
    split at hfor
    · rename_i hstep
      split at hstep <;>
        · obtain ⟨_, _, _, hs⟩ := exec_bind_eq_ok.mp hstep
          cases hs
    · rename_i hstep
      refine ⟨_, ?_, ih hfor⟩
      rw [exec_ite]
      split at hstep <;>
        · rename_i hk
          simp only [hk, if_true, if_false]
          obtain ⟨_, t, hc, hs⟩ := exec_bind_eq_ok.mp hstep
          obtain ⟨-, rfl⟩ := Prod.mk.inj hs
          exact hc
    · cases hfor

end Copying

/-- A copy that finishes was cancelled before it started, with nothing to report, or ran
through every collection and reports what it did. -/
theorem copyFeed_ok {σ : Type} {source : Source} {sink : Sink σ} {store : σ} {map : IdMap}
    {pipeline : Pipeline} {options : CopyOptions} {cancelled : Bool} {result : CopyResult}
    (h : (copyFeed source sink store map pipeline options cancelled).1 = .ok result) :
    (cancelled = true ∧ result.collections = [] ∧
      (copyFeed source sink store map pipeline options cancelled).2 = { store, map, pipeline, options }) ∨
    (cancelled = false ∧ result.collections = (copyFeed source sink store map pipeline options cancelled).2.reports ∧
      Copying.AllRun source sink Kind.all { store, map, pipeline, options }
        (copyFeed source sink store map pipeline options cancelled).2) := by
  unfold copyFeed at h ⊢
  cases cancelled with
  | true =>
    cases Except.ok.inj h
    exact .inl ⟨rfl, rfl, rfl⟩
  | false =>
    refine .inr ⟨rfl, ?_⟩
    -- the copy is the run of every collection, from the state it starts in
    change (match Copying.exec (Copying.copyAll source sink) { store, map, pipeline, options } with
      | (outcome, run) =>
        (outcome.map fun () => ({ status := .completed, collections := run.reports } : CopyResult), run)).1 =
        .ok result at h
    change result.collections =
        (match Copying.exec (Copying.copyAll source sink) { store, map, pipeline, options } with
          | (outcome, run) =>
            (outcome.map fun () => ({ status := .completed, collections := run.reports } : CopyResult),
              run)).2.reports ∧
      Copying.AllRun source sink Kind.all { store, map, pipeline, options }
        (match Copying.exec (Copying.copyAll source sink) { store, map, pipeline, options } with
          | (outcome, run) =>
            (outcome.map fun () => ({ status := .completed, collections := run.reports } : CopyResult), run)).2
    rcases hx : Copying.exec (Copying.copyAll source sink) { store, map, pipeline, options } with
      ⟨_ | ⟨⟩, run⟩
    · rw [hx] at h
      cases h
    · rw [hx] at h
      cases Except.ok.inj h
      exact ⟨rfl, Copying.copyAll_ok hx⟩

end TransitFeed

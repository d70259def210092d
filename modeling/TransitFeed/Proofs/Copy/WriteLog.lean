import TransitFeed.Proofs.Copy.Collection
import TransitFeed.Proofs.Stage.Laws
import TransitFeed.Proofs.Store.Memory

/-!
# What a copy hands its destination

A destination that keeps a log of every record it is handed shows what a copy wrote, in
the order it wrote it: a record written alone joins the log, and a batch joins it in
order. No other step of a copy touches the destination, and none changes the options.

Copying a collection other than the stop times hands the destination no stop time: its
stream holds records of that collection, the stages make stop times only out of stop
times, and a record waiting for its parent stays what it is.
-/

namespace TransitFeed

variable {σ : Type}

/-- A destination that also keeps, in order, every record it is handed. -/
def Sink.logged (sink : Sink σ) : Sink (σ × List Record) where
  add s r := (sink.add s.1 r).map fun x => ((x.1, s.2 ++ [r]), x.2)
  addAll s rs := (sink.addAll s.1 rs).map fun x => ((x.1, s.2 ++ rs), x.2)

/-- A logging destination takes a record when the destination it wraps does, and logs it. -/
theorem Sink.logged_add_eq_ok {sink : Sink σ} {st st' : σ × List Record} {e : Record} {newId : String}
    (h : sink.logged.add st e = .ok (st', newId)) :
    ∃ store, sink.add st.1 e = .ok (store, newId) ∧ st' = (store, st.2 ++ [e]) := by
  cases hadd : sink.add st.1 e with
  | error err => simp [Sink.logged, hadd, Except.map] at h
  | ok accepted =>
    simp only [Sink.logged, hadd, Except.map, Except.ok.injEq, Prod.mk.injEq] at h
    exact ⟨accepted.1, by rw [← h.2], h.1.symm⟩

/-- A logging destination takes a batch when the destination it wraps does, and logs it. -/
theorem Sink.logged_addAll_eq_ok {sink : Sink σ} {st st' : σ × List Record} {batch : List Record}
    {ids : List String} (h : sink.logged.addAll st batch = .ok (st', ids)) :
    ∃ store, sink.addAll st.1 batch = .ok (store, ids) ∧ st' = (store, st.2 ++ batch) := by
  cases hadd : sink.addAll st.1 batch with
  | error err => simp [Sink.logged, hadd, Except.map] at h
  | ok accepted =>
    simp only [Sink.logged, hadd, Except.map, Except.ok.injEq, Prod.mk.injEq] at h
    exact ⟨accepted.1, by rw [← h.2], h.1.symm⟩

namespace Copying

variable {sink : Sink σ} {s s' : Run (σ × List Record)}

/-- Writing a record to a logging destination adds it to the log and keeps the options. -/
theorem logged_write {e : Record} {oldId : String}
    (h : exec (write sink.logged e oldId) s = (.ok (), s')) :
    s'.store.2 = s.store.2 ++ [e] ∧ s'.options = s.options := by
  rw [exec_write] at h
  cases hadd : sink.logged.add s.store e with
  | error err =>
    rw [hadd] at h
    cases h
  | ok x =>
    rw [hadd] at h
    obtain ⟨-, rfl⟩ := Prod.mk.inj h
    obtain ⟨store, -, hstore⟩ := Sink.logged_add_eq_ok hadd
    simp [hstore]

/-- Writing a batch to a logging destination adds its records to the log, in order, and
keeps the options. -/
theorem logged_flush {batch : List Record} (h : exec (flush sink.logged batch) s = (.ok (), s')) :
    s'.store.2 = s.store.2 ++ batch ∧ s'.options = s.options := by
  rw [exec_flush] at h
  split at h
  · subst batch
    obtain ⟨-, rfl⟩ := Prod.mk.inj h
    simp
  · cases hadd : sink.addAll s.store.1 batch with
    | error err =>
      simp only [Sink.logged, hadd, Except.map] at h
      cases h
    | ok x =>
      simp only [Sink.logged, hadd, Except.map] at h
      obtain ⟨-, rfl⟩ := Prod.mk.inj h
      exact ⟨rfl, rfl⟩

/-- From one state of a copy to a later one, the options stay and the destination is handed
no stop time. -/
structure NoStopTimes (s s' : Run (σ × List Record)) : Prop where
  options : s'.options = s.options
  log : ∃ ws, s'.store.2 = s.store.2 ++ ws ∧ ∀ w ∈ ws, w.kind ≠ .stopTime

namespace NoStopTimes

theorem refl (s : Run (σ × List Record)) : NoStopTimes s s :=
  ⟨rfl, [], by simp, by simp⟩

theorem trans {s1 s2 s3 : Run (σ × List Record)} (h1 : NoStopTimes s1 s2) (h2 : NoStopTimes s2 s3) :
    NoStopTimes s1 s3 := by
  obtain ⟨ho1, ws1, hl1, hw1⟩ := h1
  obtain ⟨ho2, ws2, hl2, hw2⟩ := h2
  refine ⟨ho2.trans ho1, ws1 ++ ws2, by rw [hl2, hl1, List.append_assoc], fun w hw => ?_⟩
  rcases List.mem_append.mp hw with hw | hw
  · exact hw1 w hw
  · exact hw2 w hw

/-- A step that leaves the destination and the options alone. -/
theorem of_eq (hstore : s'.store = s.store) (hopt : s'.options = s.options) : NoStopTimes s s' :=
  ⟨hopt, [], by simp [hstore], by simp⟩

/-- A step that leaves the destination and the options alone, then a stretch. -/
theorem of_eq_trans {s1 : Run (σ × List Record)} (h : NoStopTimes s1 s') (hstore : s1.store = s.store)
    (hopt : s1.options = s.options) : NoStopTimes s s' :=
  (of_eq hstore hopt).trans h

/-- Writing a record other than a stop time. -/
theorem write {e : Record} {oldId : String} (he : e.kind ≠ .stopTime)
    (h : exec (write sink.logged e oldId) s = (.ok (), s')) : NoStopTimes s s' := by
  obtain ⟨hlog, hopt⟩ := logged_write h
  exact ⟨hopt, [e], hlog, by simpa using he⟩

/-- Settling a prepared record other than a stop time hands the destination no stop time,
and what waits is no stop time either. -/
theorem settled {oldId : String} {r : Record} {canDefer : Bool} {o : Prepared}
    {s1 s2 : Run (σ × List Record)} {w : List (Record × String)} (hr : r.kind ≠ .stopTime)
    (hp : exec (prepare r canDefer) s = (.ok o, s1)) (hs : Settled sink.logged oldId o s1 w s2) :
    NoStopTimes s s2 ∧ ∀ x ∈ w, x.1.kind ≠ .stopTime := by
  rcases prepare_cases hp with ⟨-, -, rfl, rfl⟩ | ⟨e, hkeys, rfl, rfl⟩ | ⟨rfl, errors, -, rfl⟩
  · obtain ⟨rfl, rfl⟩ := hs
    exact ⟨refl _, by simpa using hr⟩
  · obtain ⟨hw, rfl⟩ := hs
    refine ⟨of_eq_trans (write ?_ hw) rfl rfl, by simp⟩
    rwa [Record.updateKeys_kind hkeys]
  · obtain ⟨rfl, rfl⟩ := hs
    exact ⟨of_eq rfl rfl, by simp⟩

/-- Settling the records another record became. -/
theorem settle {kind : Kind} {oldId filteredId : String} {outs : List Record}
    {w : List (Record × String)} (houts : ∀ o ∈ outs, o.kind ≠ .stopTime)
    (hw : exec (settle sink.logged kind oldId filteredId outs) s = (.ok w, s')) :
    NoStopTimes s s' ∧ ∀ x ∈ w, x.1.kind ≠ .stopTime := by
  induction outs generalizing s w with
  | nil =>
    obtain ⟨rfl, rfl⟩ := exec_pure_eq_ok hw
    exact ⟨refl _, by simp⟩
  | cons out rest ih =>
    obtain ⟨o, s1, hp, w1, s2, w2, hs, hrest, rfl⟩ := (exec_settle_cons_eq_ok ..).mp hw
    obtain ⟨h1, hw1⟩ := settled (houts out (by simp)) hp hs
    obtain ⟨h2, hw2⟩ := ih (fun o ho => houts o (List.mem_cons_of_mem _ ho)) hrest
    refine ⟨h1.trans h2, fun x hx => ?_⟩
    rcases List.mem_append.mp hx with hx | hx
    · exact hw1 x hx
    · exact hw2 x hx

/-- A round of retries of records other than stop times. -/
theorem retryOnce {d w : List (Record × String)} (hd : ∀ x ∈ d, x.1.kind ≠ .stopTime)
    (hw : exec (retryOnce sink.logged d) s = (.ok w, s')) :
    NoStopTimes s s' ∧ ∀ x ∈ w, x.1.kind ≠ .stopTime := by
  induction d generalizing s w with
  | nil =>
    obtain ⟨rfl, rfl⟩ := exec_pure_eq_ok hw
    exact ⟨refl _, by simp⟩
  | cons x rest ih =>
    obtain ⟨e, oldId⟩ := x
    obtain ⟨o, s1, hp, w1, s2, w2, hs, hrest, rfl⟩ := (exec_retryOnce_cons_eq_ok ..).mp hw
    obtain ⟨h1, hw1⟩ := settled (hd (e, oldId) (by simp)) hp hs
    obtain ⟨h2, hw2⟩ := ih (fun x hx => hd x (List.mem_cons_of_mem _ hx)) hrest
    refine ⟨h1.trans h2, fun x hx => ?_⟩
    rcases List.mem_append.mp hx with hx | hx
    · exact hw1 x hx
    · exact hw2 x hx

/-- The rounds of retries. -/
theorem loop {d w : List (Record × String)} {n : Nat} (hd : ∀ x ∈ d, x.1.kind ≠ .stopTime)
    (hw : exec (retryDeferred.loop sink.logged d n) s = (.ok w, s')) :
    NoStopTimes s s' ∧ ∀ x ∈ w, x.1.kind ≠ .stopTime := by
  induction n generalizing d s with
  | zero =>
    obtain ⟨rfl, rfl⟩ := exec_pure_eq_ok hw
    exact ⟨refl _, hd⟩
  | succ n ih =>
    rcases loop_succ_ok hw with ⟨rfl, rfl⟩ | ⟨pending, s1, hr, ⟨rfl, rfl⟩ | hnext⟩
    · exact ⟨refl _, hd⟩
    · exact retryOnce hd hr
    · obtain ⟨h1, hp⟩ := retryOnce hd hr
      obtain ⟨h2, hw2⟩ := ih hp hnext
      exact ⟨h1.trans h2, hw2⟩

/-- The last pass over the records still waiting. -/
theorem leftover {left : List (Record × String)} (hl : ∀ x ∈ left, x.1.kind ≠ .stopTime)
    (h : Leftover sink.logged left s s') : NoStopTimes s s' := by
  induction left generalizing s with
  | nil =>
    subst h
    exact refl _
  | cons x rest ih =>
    obtain ⟨e, oldId⟩ := x
    obtain ⟨o, s1, s2, hp, hs, hrest⟩ := h
    refine NoStopTimes.trans ?_ (ih (fun x hx => hl x (List.mem_cons_of_mem _ hx)) hrest)
    rcases prepare_cases hp with ⟨hdefer, -⟩ | ⟨e', hkeys, rfl, rfl⟩ | ⟨rfl, errors, -, rfl⟩
    · cases hdefer
    · dsimp only at hs
      refine of_eq_trans (write ?_ hs) rfl rfl
      rw [Record.updateKeys_kind hkeys]
      exact hl (e, oldId) (by simp)
    · subst hs
      exact of_eq rfl rfl

/-- Retrying the waiting records other than stop times. -/
theorem retryDeferred {d : List (Record × String)} (hd : ∀ x ∈ d, x.1.kind ≠ .stopTime)
    (hw : exec (retryDeferred sink.logged d) s = (.ok (), s')) : NoStopTimes s s' := by
  obtain ⟨left, s1, hl, hleft⟩ := retryDeferred_ok hw
  obtain ⟨h1, hleft'⟩ := loop hd hl
  exact h1.trans (leftover hleft' hleft)

/-- Copying a record other than a stop time: the stages make no stop time out of it. -/
theorem process {r : Record} {w : List (Record × String)} (hr : r.kind ≠ .stopTime)
    (hw : exec (process sink.logged r) s = (.ok w, s')) :
    NoStopTimes s s' ∧ ∀ x ∈ w, x.1.kind ≠ .stopTime := by
  rw [exec_process] at hw
  have houts := Pipeline.expand_kind_ne_stopTime s.map (s.pipeline.filter s.map r).1
    (r := (s.pipeline.filter s.map r).2) (by rwa [Pipeline.filter_kind])
  obtain ⟨h1, hw1⟩ := settle houts hw
  exact ⟨of_eq_trans h1 rfl rfl, hw1⟩

/-- Copying the items of a stream of records other than stop times. -/
theorem copyItems {k : Kind} {st : Stream} {i : Nat} {items : List (Except Issue Record)}
    {w : List (Record × String)} (hk : k ≠ .stopTime) (hkind : ∀ r, Except.ok r ∈ items → r.kind = k)
    (hw : exec (copyItems sink.logged k st i items) s = (.ok w, s')) :
    NoStopTimes s s' ∧ ∀ x ∈ w, x.1.kind ≠ .stopTime := by
  induction items generalizing i s w with
  | nil =>
    obtain ⟨rfl, rfl⟩ := exec_pure_eq_ok hw
    exact ⟨refl _, by simp⟩
  | cons item rest ih =>
    obtain ⟨w1, s1, w2, hitem, hrest, rfl⟩ := (exec_copyItems_cons_eq_ok ..).mp hw
    have hcount : NoStopTimes s (exec (countRead k) s).2 := of_eq rfl rfl
    have h1 : NoStopTimes s s1 ∧ ∀ x ∈ w1, x.1.kind ≠ .stopTime := by
      cases item with
      | ok r =>
        obtain ⟨h, hw1⟩ := process (by rw [hkind r (by simp)]; exact hk) hitem
        exact ⟨hcount.trans h, hw1⟩
      | error issue =>
        obtain ⟨rfl, -, rfl⟩ := reject_bind_ok (List.cons_ne_nil _ _) hitem
        exact ⟨hcount.trans (of_eq rfl rfl), by simp⟩
    obtain ⟨h2, hw2⟩ := ih (fun r hr => hkind r (List.mem_cons_of_mem _ hr)) hrest
    refine ⟨h1.1.trans h2, fun x hx => ?_⟩
    rcases List.mem_append.mp hx with hx | hx
    · exact h1.2 x hx
    · exact hw2 x hx

/-- Copying a collection other than the stop times, from a source whose streams hold records
of their collection, hands the destination no stop time. -/
theorem copyCollection {source : Source} {k : Kind} (hsource : source.Faithful) (hk : k ≠ .stopTime)
    (hw : exec (copyCollection source sink.logged k) s = (.ok (), s')) : NoStopTimes s s' := by
  rcases copyCollection_ok hw with ⟨-, rfl⟩ | ⟨st, hread, -, w, s1, hitems, hretry⟩
  · exact refl _
  · obtain ⟨h1, hw1⟩ := copyItems hk (fun r hr => hsource.read_kind k st r hread hr) hitems
    exact h1.trans (retryDeferred hw1 hretry)

end NoStopTimes

end Copying

end TransitFeed

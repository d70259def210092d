import TransitFeed.Proofs.Copy.StopTimes
import TransitFeed.Proofs.Stage.Laws
import TransitFeed.Proofs.Store.Memory
import TransitFeed.Feed.Load

/-!
# Every item read is accounted for

A copy counts each item it takes from a stream as read, and each record it decides on as
written or dropped. The ledger of a state says that the two agree up to the records not
decided yet: for every collection, the items read are those written, those dropped and
those still pending. Each step of a copy keeps the ledger, moving records from pending to
written or dropped; a whole copy ends with nothing pending, so in every report of a
finished copy the items read are exactly those written and those dropped.

This holds of a pipeline that never replaces a record (a replaced record would be
counted once and decided as many times as it has replacements) and of a destination that
gives one identifier per record of a batch, as destinations promise.
-/

namespace TransitFeed

namespace Copying

variable {σ : Type}

/-- Every item read is written, dropped or pending, where `pending` lists the kinds of the
records not decided yet; the pipeline never replaces a record. -/
structure Ledger (s : Run σ) (pending : List Kind) : Prop where
  ordered : ReportsOrdered s.reports
  balanced : ∀ k, (s.report k).read = (s.report k).written + (s.report k).dropped + pending.count k
  quiet : s.pipeline.Quiet

namespace Ledger

variable {s s' : Run σ} {p p' : List Kind}

/-- Only how many records of each kind are pending matters. -/
theorem congr (h : Ledger s p) (hc : ∀ k, p.count k = p'.count k) : Ledger s p' :=
  ⟨h.ordered, fun k => hc k ▸ h.balanced k, h.quiet⟩

/-- Warnings keep the ledger. -/
theorem warnsOnly (h : Ledger s p) (hw : WarnsOnly s.reports s'.reports)
    (hp : s'.pipeline = s.pipeline) : Ledger s' p where
  ordered := (hw h.ordered).1
  balanced k := by
    have ht := (hw h.ordered).2 k
    simp only [CollectionReport.tally, CollectionReport.Tally.mk.injEq] at ht
    simpa only [Run.report, ht.1, ht.2.1, ht.2.2.1] using h.balanced k
  quiet := hp ▸ h.quiet

/-- Warnings of a collection keep the ledger. -/
theorem warn (h : Ledger s p) (k : Kind) (ws : List Issue) (limit : Nat) :
    Ledger { s with
      reports := updateReport k (fun c => ws.foldl (fun c w => c.addWarning w limit) c) s.reports } p :=
  h.warnsOnly (warnsOnly_updateReport k ws limit s.reports) rfl

/-- Changing the report of one collection keeps the ledger when the change moves records of
that collection between pending and the counts of its report. -/
theorem update {q q' : List Kind} {k : Kind} {f : CollectionReport → CollectionReport}
    (h : Ledger s q) (hf : ∀ c, (f c).kind = c.kind)
    (hk : ∀ c : CollectionReport, c.read = c.written + c.dropped + q.count k →
      (f c).read = (f c).written + (f c).dropped + q'.count k)
    (hother : ∀ k', k' ≠ k → q.count k' = q'.count k')
    (hr : s'.reports = updateReport k f s.reports) (hp : s'.pipeline = s.pipeline) :
    Ledger s' q' := by
  refine ⟨hr ▸ updateReport_ordered hf h.ordered, fun k' => ?_, hp ▸ h.quiet⟩
  simp only [Run.report, hr, reportOf_updateReport hf h.ordered]
  split
  · subst k'
    exact hk _ (h.balanced k)
  · rw [← hother k' ‹_›]
    exact h.balanced k'

theorem count_replicate_append_of_ne {k k' : Kind} (n : Nat) (q : List Kind) (hne : k' ≠ k) :
    (List.replicate n k ++ q).count k' = q.count k' := by
  simp [List.count_replicate, Ne.symm hne]

/-- Counting an item read of a collection makes one more record of it pending. -/
theorem countRead (h : Ledger s p) (k : Kind) : Ledger (exec (countRead k) s).2 (k :: p) :=
  h.update (f := fun c => { c with read := c.read + 1 }) (fun _ => rfl)
    (fun c hc => by simp only [List.count_cons_self]; omega)
    (fun k' hne => (List.count_cons_of_ne (Ne.symm hne)).symm) rfl rfl

/-- Dropping `dropped` pending records of a collection decides them. -/
theorem drop (dropped : Nat) {k : Kind} {errors : List Issue} {limit : Nat}
    (h : Ledger s (List.replicate dropped k ++ p))
    (hr : s'.reports = updateReport k (dropInto errors dropped limit) s.reports)
    (hp : s'.pipeline = s.pipeline) : Ledger s' p := by
  refine h.update (f := dropInto errors dropped limit)
    (fun c => (CollectionReport.foldl_addError errors limit _).1) (fun c hc => ?_)
    (fun k' hne => count_replicate_append_of_ne dropped p hne) hr hp
  obtain ⟨-, hread, hwritten, hdropped⟩ :=
    CollectionReport.foldl_addError errors limit { c with dropped := c.dropped + dropped }
  simp only [dropInto, hread, hwritten, hdropped]
  simp only [List.count_append, List.count_replicate_self] at hc
  omega

/-- Writing a pending record decides it. -/
theorem write {sink : Sink σ} {r : Record} {oldId : String} (h : Ledger s (r.kind :: p))
    (hw : exec (write sink r oldId) s = (.ok (), s')) : Ledger s' p := by
  rw [exec_write] at hw
  split at hw
  · cases hw
  · rename_i store newId _
    obtain ⟨-, rfl⟩ := Prod.mk.inj hw
    obtain ⟨-, hpipe, -, hwarn⟩ := note_frame r oldId newId { s with store := store }
    have hnoted : Ledger (exec (note r oldId newId) { s with store := store }).2 (r.kind :: p) :=
      warnsOnly (s := { s with store := store }) ⟨h.ordered, h.balanced, h.quiet⟩ hwarn hpipe
    refine hnoted.update (f := fun c => { c with written := c.written + 1 }) (fun _ => rfl)
      (fun c hc => ?_) (fun k' hne => List.count_cons_of_ne (Ne.symm hne)) rfl rfl
    simp only [List.count_cons_self] at hc
    dsimp only
    omega

/-- Writing a batch of pending stop times decides them all, when the destination gives one
identifier per record. -/
theorem flush {sink : Sink σ} {batch : List Record}
    (hsink : sink.OneIdEach) (h : Ledger s (List.replicate batch.length .stopTime ++ p))
    (hw : exec (flush sink batch) s = (.ok (), s')) : Ledger s' p := by
  rw [exec_flush] at hw
  split at hw
  · subst batch
    obtain ⟨-, rfl⟩ := Prod.mk.inj hw
    simpa using h
  · split at hw
    · cases hw
    · rename_i store ids hadd
      obtain ⟨-, rfl⟩ := Prod.mk.inj hw
      have hlen := hsink _ _ _ _ hadd
      refine h.update (f := fun c => { c with written := c.written + ids.length }) (fun _ => rfl)
        (fun c hc => ?_)
        (fun k' hne => count_replicate_append_of_ne _ p hne) rfl rfl
      simp only [List.count_append, List.count_replicate_self] at hc
      dsimp only
      omega

/-- The records waiting in a collection stay pending. -/
abbrev waitingKinds (w : List (Record × String)) : List Kind := w.map fun x => x.1.kind

/-- Settling a prepared record keeps the ledger: a waiting record stays pending, a ready one
is written and a dropped one is counted. -/
theorem settled {sink : Sink σ} {oldId : String} {r : Record} {canDefer : Bool} {o : Prepared}
    {s1 s2 : Run σ} {w : List (Record × String)} (h : Ledger s (r.kind :: p))
    (hp : exec (prepare r canDefer) s = (.ok o, s1)) (hs : Settled sink oldId o s1 w s2) :
    Ledger s2 (waitingKinds w ++ p) := by
  rcases prepare_cases hp with ⟨-, -, rfl, rfl⟩ | ⟨e, hkeys, rfl, rfl⟩ | ⟨rfl, errors, -, rfl⟩
  · obtain ⟨rfl, rfl⟩ := hs
    exact h
  · obtain ⟨hw, rfl⟩ := hs
    refine Ledger.write ?_ hw
    rw [Record.updateKeys_kind hkeys]
    exact h.warn _ _ _
  · obtain ⟨rfl, rfl⟩ := hs
    exact h.drop 1 rfl rfl

/-- Settling the records a source record became keeps the ledger. -/
theorem settle {sink : Sink σ} {kind : Kind} {oldId filteredId : String} {outs : List Record}
    {w : List (Record × String)} (h : Ledger s (outs.map Record.kind ++ p))
    (hw : exec (settle sink kind oldId filteredId outs) s = (.ok w, s')) :
    Ledger s' (waitingKinds w ++ p) := by
  induction outs generalizing s w p with
  | nil =>
    obtain ⟨rfl, rfl⟩ := exec_pure_eq_ok hw
    exact h
  | cons out rest ih =>
    obtain ⟨o, s1, hp, w1, s2, w2, hs, hrest, rfl⟩ := (exec_settle_cons_eq_ok ..).mp hw
    have h2 := settled (p := rest.map Record.kind ++ p) h hp hs
    have h3 := ih (p := waitingKinds w1 ++ p)
      (h2.congr fun k => by simp only [List.count_append]; omega) hrest
    exact h3.congr fun k => by simp only [waitingKinds, List.map_append, List.count_append]; omega

/-- A round of retries keeps the ledger. -/
theorem retryOnce {sink : Sink σ} {d w : List (Record × String)} (h : Ledger s (waitingKinds d ++ p))
    (hw : exec (retryOnce sink d) s = (.ok w, s')) : Ledger s' (waitingKinds w ++ p) := by
  induction d generalizing s w p with
  | nil =>
    obtain ⟨rfl, rfl⟩ := exec_pure_eq_ok hw
    exact h
  | cons x rest ih =>
    obtain ⟨e, oldId⟩ := x
    obtain ⟨o, s1, hp, w1, s2, w2, hs, hrest, rfl⟩ := (exec_retryOnce_cons_eq_ok ..).mp hw
    have h2 := settled (p := waitingKinds rest ++ p) h hp hs
    have h3 := ih (p := waitingKinds w1 ++ p)
      (h2.congr fun k => by simp only [List.count_append]; omega) hrest
    exact h3.congr fun k => by simp only [waitingKinds, List.map_append, List.count_append]; omega

/-- The rounds of retries keep the ledger. -/
theorem loop {sink : Sink σ} {d w : List (Record × String)} {n : Nat}
    (h : Ledger s (waitingKinds d ++ p))
    (hw : exec (retryDeferred.loop sink d n) s = (.ok w, s')) : Ledger s' (waitingKinds w ++ p) := by
  induction n generalizing d s with
  | zero =>
    obtain ⟨rfl, rfl⟩ := exec_pure_eq_ok hw
    exact h
  | succ n ih =>
    rcases loop_succ_ok hw with ⟨rfl, rfl⟩ | ⟨pending, s1, hr, ⟨rfl, rfl⟩ | hnext⟩
    · exact h
    · exact h.retryOnce hr
    · exact ih (h.retryOnce hr) hnext

/-- The last pass decides every stop still waiting: it is written or dropped. -/
theorem leftover {sink : Sink σ} {left : List (Record × String)} (h : Ledger s (waitingKinds left ++ p))
    (hl : Leftover sink left s s') : Ledger s' p := by
  induction left generalizing s with
  | nil =>
    subst hl
    exact h
  | cons x rest ih =>
    obtain ⟨e, oldId⟩ := x
    obtain ⟨o, s1, s2, hp, hs, hrest⟩ := hl
    refine ih ?_ hrest
    rcases prepare_cases hp with ⟨hdefer, -⟩ | ⟨e', hkeys, rfl, rfl⟩ | ⟨rfl, errors, -, rfl⟩
    · cases hdefer
    · refine Ledger.write ?_ hs
      rw [Record.updateKeys_kind hkeys]
      exact h.warn _ _ _
    · subst hs
      exact h.drop 1 rfl rfl

/-- Retrying the waiting stops decides every one of them. -/
theorem retryDeferred {sink : Sink σ} {d : List (Record × String)} (h : Ledger s (waitingKinds d ++ p))
    (hw : exec (retryDeferred sink d) s = (.ok (), s')) : Ledger s' p := by
  obtain ⟨left, s1, hl, hleft⟩ := retryDeferred_ok hw
  exact (h.loop hl).leftover hleft

/-- Copying a record of a collection through a pipeline that never replaces a record keeps
the ledger: the record is decided, or waits. -/
theorem process {sink : Sink σ} {r : Record} {w : List (Record × String)} (h : Ledger s (r.kind :: p))
    (hw : exec (process sink r) s = (.ok w, s')) : Ledger s' (waitingKinds w ++ p) := by
  rw [exec_process] at hw
  dsimp only at hw
  have hquiet := Pipeline.quiet_filter s.map h.quiet r
  rw [Pipeline.expand_of_quiet s.map hquiet] at hw
  have hl : Ledger { s with pipeline := (s.pipeline.filter s.map r).1 }
      ([(s.pipeline.filter s.map r).2].map Record.kind ++ p) := by
    rw [List.map_singleton, Pipeline.filter_kind, List.singleton_append]
    exact ⟨h.ordered, h.balanced, hquiet⟩
  exact hl.settle hw

/-- Copying the items of a stream of records of one collection keeps the ledger: each item is
counted, then decided, or waits. -/
theorem copyItems {sink : Sink σ} {k : Kind} {st : Stream} {i : Nat}
    {items : List (Except Issue Record)} {w : List (Record × String)}
    (hkind : ∀ r, Except.ok r ∈ items → r.kind = k) (h : Ledger s p)
    (hw : exec (copyItems sink k st i items) s = (.ok w, s')) : Ledger s' (waitingKinds w ++ p) := by
  induction items generalizing i s w p with
  | nil =>
    obtain ⟨rfl, rfl⟩ := exec_pure_eq_ok hw
    exact h
  | cons item rest ih =>
    obtain ⟨w1, s1, w2, hitem, hrest, rfl⟩ := (exec_copyItems_cons_eq_ok ..).mp hw
    have hcounted := h.countRead k
    have h1 : Ledger s1 (waitingKinds w1 ++ p) := by
      cases item with
      | ok r =>
        have hr : Ledger (exec (Copying.countRead k) s).2 (r.kind :: p) := by
          rw [hkind r (by simp)]
          exact hcounted
        exact hr.process hitem
      | error issue =>
        obtain ⟨rfl, -, rfl⟩ := reject_bind_ok (List.cons_ne_nil _ _) hitem
        exact hcounted.drop 1 rfl rfl
    have h2 := ih (p := waitingKinds w1 ++ p) (fun r hr => hkind r (List.mem_cons_of_mem _ hr)) h1 hrest
    exact h2.congr fun k => by simp only [waitingKinds, List.map_append, List.count_append]; omega

/-- Copying a collection whose stream holds records of it keeps the ledger balanced. -/
theorem copyCollection {source : Source} {sink : Sink σ} {k : Kind} (hsource : source.Faithful)
    (h : Ledger s p) (hw : exec (copyCollection source sink k) s = (.ok (), s')) : Ledger s' p := by
  rcases copyCollection_ok hw with ⟨-, rfl⟩ | ⟨st, hread, -, w, s1, hitems, hretry⟩
  · exact h
  · exact (h.copyItems (fun r hr => hsource.read_kind k st r hread hr) hitems).retryDeferred hretry

/-- Counting `n` items of a collection as read makes them pending. -/
theorem countedRead (h : Ledger s p) (k : Kind) (n : Nat) :
    Ledger (Copying.countedRead k n s) (List.replicate n k ++ p) := by
  induction n generalizing s p with
  | zero => exact h
  | succ n ih =>
    have h' := ih (h.countRead k)
    rw [List.replicate_succ', List.append_assoc]
    exact h'

/-- Pending records of one collection count only by their number. -/
theorem regroup {k : Kind} {a b : Nat} {q q' : List Kind} (h : Ledger s (List.replicate a k ++ q))
    (hq : a + q.count k = b + q'.count k) (hother : ∀ k', k' ≠ k → q.count k' = q'.count k') :
    Ledger s (List.replicate b k ++ q') := by
  refine h.congr fun k' => ?_
  by_cases hk : k' = k
  · subst hk
    simpa [List.count_replicate_self] using hq
  · simp [count_replicate_append_of_ne _ _ hk, hother k' hk]

/-- Dropping problems one at a time decides as many pending records. -/
theorem dropsEach {k : Kind} {problems : List Issue}
    (h : Ledger s (List.replicate problems.length k ++ p)) (hd : DropsEach k problems s s') :
    Ledger s' p := by
  induction problems generalizing s with
  | nil =>
    subst hd
    exact h
  | cons i rest ih =>
    obtain ⟨s1, hr, hrest⟩ := hd
    obtain ⟨-, rfl⟩ := reject_ok hr
    refine ih ?_ hrest
    exact Ledger.drop (p := List.replicate rest.length k ++ p) 1 h rfl rfl

/-- Batching the records a stop time became keeps the ledger: what joins the batch stays
pending, and every record in the batch is a stop time. -/
theorem batched {sink : Sink σ} {outs acc b : List Record}
    (h : Ledger s (List.replicate (outs.length + acc.length) .stopTime ++ p))
    (houts : ∀ o ∈ outs, o.kind = .stopTime) (hacc : ∀ e ∈ acc, e.kind = .stopTime)
    (hb : Batched sink outs acc s b s') :
    Ledger s' (List.replicate b.length .stopTime ++ p) ∧ ∀ e ∈ b, e.kind = .stopTime := by
  induction outs generalizing acc s with
  | nil =>
    obtain ⟨rfl, rfl⟩ := hb
    exact ⟨by simpa using h, hacc⟩
  | cons out rest ih =>
    obtain ⟨o, s1, hp, hb⟩ := hb
    have hout := houts out (by simp)
    have hrest : ∀ o ∈ rest, o.kind = .stopTime := fun o ho => houts o (List.mem_cons_of_mem _ ho)
    rcases prepare_cases hp with ⟨hdefer, -⟩ | ⟨e, hkeys, rfl, rfl⟩ | ⟨rfl, errors, -, rfl⟩
    · cases hdefer
    · -- a ready stop time joins the batch and stays pending
      have he : e.kind = .stopTime := (Record.updateKeys_kind hkeys).trans hout
      simp only [he, if_true] at hb
      refine ih (h.warn _ _ _ |>.regroup ?_ fun _ _ => rfl) hrest ?_ hb
      · simp only [List.length_cons, List.length_append, List.length_nil]
        omega
      · intro x hx
        rcases List.mem_append.mp hx with hx | hx
        · exact hacc x hx
        · rw [List.mem_singleton.mp hx, he]
    · -- a dropped stop time is decided
      have h1 : Ledger s
          (List.replicate 1 out.kind ++ (List.replicate (rest.length + acc.length) .stopTime ++ p)) := by
        rw [hout, ← List.append_assoc, ← List.replicate_add]
        exact h.regroup (by simp only [List.length_cons]; omega) fun _ _ => rfl
      refine ih ?_ hrest hacc hb
      exact h1.drop 1 rfl rfl

/-- Copying a stop time through a pipeline that never replaces a record keeps the ledger:
the stop time is dropped, or joins the batch it returns. -/
theorem processStopTime {sink : Sink σ} {st : Record} {more : List Record} (hst : st.kind = .stopTime)
    (h : Ledger s (.stopTime :: p)) (hw : exec (processStopTime sink st) s = (.ok more, s')) :
    Ledger s' (List.replicate more.length .stopTime ++ p) ∧ ∀ e ∈ more, e.kind = .stopTime := by
  have hb := processStopTime_ok hw
  have hquiet := Pipeline.quiet_filter s.map h.quiet st
  rw [Pipeline.expand_of_quiet s.map hquiet] at hb
  refine batched ?_ ?_ (fun _ h => by cases h) hb
  · exact ⟨h.ordered, h.balanced, hquiet⟩
  · intro o ho
    rw [List.mem_singleton.mp ho, Pipeline.filter_kind, hst]

section Batches

variable {sink : Sink σ} {batchSize : Nat} (hsink : sink.OneIdEach)
include hsink

/-- Copying the sorted stop times of a trip keeps the ledger: each is dropped or batched,
and every full batch is written. -/
theorem tripRun {sts acc b : List Record}
    (h : Ledger s (List.replicate (sts.length + acc.length) .stopTime ++ p))
    (hsts : ∀ x ∈ sts, x.kind = .stopTime) (hacc : ∀ e ∈ acc, e.kind = .stopTime)
    (hr : TripRun sink batchSize sts acc s b s') :
    Ledger s' (List.replicate b.length .stopTime ++ p) ∧ ∀ e ∈ b, e.kind = .stopTime := by
  induction sts generalizing acc s with
  | nil =>
    obtain ⟨rfl, rfl⟩ := hr
    exact ⟨by simpa using h, hacc⟩
  | cons st rest ih =>
    obtain ⟨more, s1, hst, hr⟩ := hr
    have hrest : ∀ x ∈ rest, x.kind = .stopTime := fun x hx => hsts x (List.mem_cons_of_mem _ hx)
    -- the stop time at hand, with the others of the trip and the batch still pending
    have h0 : Ledger s (.stopTime :: (List.replicate (rest.length + acc.length) .stopTime ++ p)) := by
      rw [← List.cons_append, ← List.replicate_succ]
      exact h.regroup (by simp only [List.length_cons]; omega) fun _ _ => rfl
    obtain ⟨h1, hmore⟩ := processStopTime (hsts st (by simp)) h0 hst
    have hjoined : ∀ e ∈ acc ++ more, e.kind = .stopTime := fun e he =>
      (List.mem_append.mp he).elim (hacc e) (hmore e)
    split at hr
    · obtain ⟨s2, hflush, hr⟩ := hr
      have h2 : Ledger s1 (List.replicate (acc ++ more).length .stopTime ++
          (List.replicate rest.length .stopTime ++ p)) :=
        h1.regroup (by simp [List.count_replicate_self]; omega)
          (fun k hk => by simp [count_replicate_append_of_ne _ _ hk])
      exact ih (by simpa using h2.flush hsink hflush) hrest (fun _ h => by cases h) hr
    · refine ih ?_ hrest hjoined hr
      exact h1.regroup (by simp [List.count_replicate_self]; omega)
        (fun k hk => by simp [count_replicate_append_of_ne _ _ hk])

/-- Copying the stop times of a trip keeps the ledger: with problems not allowed, the whole
trip is dropped; otherwise each stop time is dropped or batched. -/
theorem copyTrip {sts acc b : List Record}
    (h : Ledger s (List.replicate (sts.length + acc.length) .stopTime ++ p))
    (hsts : ∀ x ∈ sts, x.kind = .stopTime) (hacc : ∀ e ∈ acc, e.kind = .stopTime)
    (hw : exec (copyTrip sink batchSize sts acc) s = (.ok b, s')) :
    Ledger s' (List.replicate b.length .stopTime ++ p) ∧ ∀ e ∈ b, e.kind = .stopTime := by
  rcases hv : validateStopTimes sts with ⟨sorted, errors⟩
  have hperm : sorted.Perm sts := by
    have hp := perm_validateStopTimes sts
    rw [hv] at hp
    exact hp
  have hsorted : ∀ x ∈ sorted, x.kind = .stopTime := fun x hx => hsts x (hperm.subset hx)
  rw [← hperm.length_eq] at h
  rcases copyTrip_ok hv hw with ⟨hne, -, rfl, hr⟩ | ⟨s1, hs1, hrun⟩
  · -- the whole trip is dropped with its problems
    obtain ⟨e, es, rfl⟩ := List.exists_cons_of_ne_nil hne
    obtain ⟨-, rfl⟩ := reject_ok hr
    refine ⟨?_, hacc⟩
    rw [List.replicate_add, List.append_assoc] at h
    exact h.drop _ rfl rfl
  · have h1 : Ledger s1 (List.replicate (sorted.length + acc.length) .stopTime ++ p) := by
      rcases hs1 with ⟨-, rfl⟩ | ⟨-, -, rfl⟩
      · exact h
      · exact h.warn _ _ _
    exact tripRun hsink h1 hsorted hacc hrun

/-- Copying the trips of a batch from their groups keeps the ledger. -/
theorem chunkRun {groups : List (String × List Record)} {trips : List String} {acc b : List Record}
    (hgroups : ∀ t, ∀ x ∈ (groups.lookup t).getD [], x.kind = .stopTime)
    (h : Ledger s (List.replicate ((trips.map fun t => ((groups.lookup t).getD []).length).sum +
      acc.length) .stopTime ++ p))
    (hacc : ∀ e ∈ acc, e.kind = .stopTime) (hr : ChunkRun sink batchSize groups trips acc s b s') :
    Ledger s' (List.replicate b.length .stopTime ++ p) ∧ ∀ e ∈ b, e.kind = .stopTime := by
  induction trips generalizing acc s with
  | nil =>
    obtain ⟨rfl, rfl⟩ := hr
    exact ⟨by simpa using h, hacc⟩
  | cons trip rest ih =>
    unfold ChunkRun at hr
    have hg := hgroups trip
    split at hr
    · rename_i sts hl
      obtain ⟨b1, s1, ht, hr⟩ := hr
      rw [hl] at hg
      -- the trip's stop times and the batch first, the other trips after
      have h0 : Ledger s (List.replicate (sts.length + acc.length) .stopTime ++
          (List.replicate (rest.map fun t => ((groups.lookup t).getD []).length).sum .stopTime ++ p)) :=
        h.regroup (by simp [hl, List.count_replicate_self]; omega)
          (fun k hk => by simp [count_replicate_append_of_ne _ _ hk])
      obtain ⟨h1, hb1⟩ := copyTrip hsink h0 hg hacc ht
      exact ih (h1.regroup (by simp [List.count_replicate_self]; omega)
        (fun k hk => by simp [count_replicate_append_of_ne _ _ hk])) hb1 hr
    · rename_i hl
      exact ih (h.regroup (by simp [hl]) fun _ _ => rfl) hacc hr

/-- Copying a batch of trips keeps the ledger balanced when the source hands out only stop
times of the trips asked for, and no trip is asked for twice. -/
theorem copyChunk {source : Source} {chunk : List String} {b : Bool} (hsource : source.Faithful)
    (hnodup : chunk.Nodup) (h : Ledger s p)
    (hw : exec (copyChunk source sink batchSize chunk) s = (.ok b, s')) : Ledger s' p := by
  rcases copyChunk_ok hw with ⟨-, -, rfl⟩ | ⟨st, hsome, -, -, s2, hdrops, batch, s3, hrun, hflush⟩
  · exact h
  · have hlen := length_eq_problems_add_groups hnodup fun r hr hk =>
      hsource.stopTimesOf_trip chunk st r hsome hr hk
    -- every item read is pending, a problem or in the group of a trip of the batch
    have h1 : Ledger (Copying.countedRead .stopTime st.items.length s)
        (List.replicate (groupByTrip st.items).2.length .stopTime ++
          (List.replicate (chunk.map fun t => (((groupByTrip st.items).1.lookup t).getD []).length).sum
            .stopTime ++ p)) := by
      rw [← List.append_assoc, ← List.replicate_add, ← hlen]
      exact h.countedRead .stopTime st.items.length
    have h2 := h1.dropsEach hdrops
    obtain ⟨h3, -⟩ := chunkRun hsink (fun t x hx => kind_of_mem_groupByTrip hx)
      (by simpa using h2) (fun _ h => by cases h) hrun
    exact h3.flush hsink hflush

/-- Copying the batches of trips keeps the ledger balanced. -/
theorem chunksRun {source : Source} {cs : List (List String)} {stopped : Bool}
    (hsource : source.Faithful) (hnodup : ∀ c ∈ cs, c.Nodup) (h : Ledger s p)
    (hr : ChunksRun source sink batchSize cs s s' stopped) : Ledger s' p := by
  induction cs generalizing s with
  | nil =>
    obtain ⟨rfl, -⟩ := hr
    exact h
  | cons c cs ih =>
    obtain ⟨b, s1, hc, hr⟩ := hr
    have h1 := h.copyChunk hsink hsource (hnodup c (by simp)) hc
    split at hr
    · exact ih (fun c hc => hnodup c (List.mem_cons_of_mem _ hc)) h1 hr
    · obtain ⟨rfl, -⟩ := hr
      exact h1

end Batches

/-- Dropping the stop times of trips that were not copied keeps the ledger balanced: each
is counted as read, then dropped. -/
theorem orphaned {items : List (Except Issue Record)} (h : Ledger s p) (ho : Orphaned items s s') :
    Ledger s' p := by
  induction items generalizing s with
  | nil =>
    subst ho
    exact h
  | cons item rest ih =>
    obtain ⟨s1, hr, hrest⟩ := ho
    obtain ⟨-, rfl⟩ := reject_ok hr
    refine ih ?_ hrest
    exact (h.countRead .stopTime).drop 1 rfl rfl

/-- Copying the stop times keeps the ledger balanced when the source hands out only stop
times of the trips asked for. -/
theorem copyStopTimes {source : Source} {sink : Sink σ} (hsource : source.Faithful)
    (hsink : sink.OneIdEach) (h : Ledger s p) (hw : exec (copyStopTimes source sink) s = (.ok (), s')) : Ledger s' p := by
  obtain ⟨s1, stopped, hrun, hend⟩ := copyStopTimes_ok hw
  -- the batches are pieces of the copied trips, each listed once
  have hnodup : ∀ c ∈ chunks (Nat.max 1 s.options.batchSize) (s.map.keysFor Kind.trip.fileName),
      c.Nodup := fun c hc => (sublist_of_mem_chunks hc).nodup (IdMap.nodup_keysFor _ _)
  have h1 := h.chunksRun hsink hsource hnodup hrun
  rcases hend with ⟨-, rfl⟩ | ⟨-, horphans⟩
  · exact h1
  · rcases rejectOrphans_ok horphans with ⟨-, rfl⟩ | ⟨st, -, -, ho⟩
    · exact h1
    · exact h1.orphaned ho


/-- A whole copy keeps the ledger balanced. -/
theorem allRun {source : Source} {sink : Sink σ} {ks : List Kind} (hsource : source.Faithful)
    (hsink : sink.OneIdEach) (h : Ledger s p) (hr : AllRun source sink ks s s') : Ledger s' p := by
  induction ks generalizing s with
  | nil =>
    subst hr
    exact h
  | cons k ks ih =>
    obtain ⟨s1, hk, hr⟩ := hr
    refine ih ?_ hr
    rw [exec_ite] at hk
    split at hk
    · exact h.copyStopTimes hsource hsink hk
    · exact h.copyCollection hsource hk

/-- A copy starts with nothing read. -/
theorem start (store : σ) (map : IdMap) (pipeline : Pipeline) (options : CopyOptions)
    (hquiet : pipeline.Quiet) : Ledger ({ store, map, pipeline, options } : Run σ) [] :=
  ⟨List.Pairwise.nil, fun _ => rfl, hquiet⟩

/-- With nothing pending, every listed report balances. -/
theorem balanced_of_mem (h : Ledger s []) {c : CollectionReport} (hc : c ∈ s.reports) :
    c.read = c.written + c.dropped := by
  have hb := h.balanced c.kind
  rw [Run.report, reportOf_eq_of_mem h.ordered hc] at hb
  simpa using hb

end Ledger

end Copying

/-- Every item a finished copy read is accounted for exactly once: in the report of every
collection, the items read are those written and those dropped. This holds of a source and a
destination that keep their promises, and of stages that never replace a record. -/
theorem copyFeed_read_eq_written_add_dropped {σ : Type} {source : Source} {sink : Sink σ}
    {store : σ} {map : IdMap} {pipeline : Pipeline} {options : CopyOptions} {cancelled : Bool}
    {result : CopyResult} (hsource : source.Faithful) (hsink : sink.OneIdEach)
    (hquiet : pipeline.Quiet)
    (h : (copyFeed source sink store map pipeline options cancelled).1 = .ok result) :
    ∀ c ∈ result.collections, c.read = c.written + c.dropped := by
  rcases copyFeed_ok h with ⟨-, hnone, -⟩ | ⟨-, hreports, hrun⟩
  · simp [hnone]
  · have hend := (Copying.Ledger.start store map pipeline options hquiet).allRun hsource hsink hrun
    rw [hreports]
    exact fun c hc => hend.balanced_of_mem hc

/-- A small feed in memory: an agency, a stop without a position, a route, a trip of a
service without calendar, and two stop times of that trip. -/
def sampleFeed : MemoryFeed :=
  MemoryFeed.ofRecords [
    Record.ofSql .agency [("agency_id", .text "A"), ("agency_name", .text "Ag"),
      ("agency_url", .text "http://a.example"), ("agency_timezone", .text "Europe/Paris")],
    Record.ofSql .stop [("stop_id", .text "S1"), ("stop_name", .text "One")],
    Record.ofSql .route [("route_id", .text "R"), ("agency_id", .text "A"), ("route_short_name", .text "r"),
      ("route_type", .integer 3)],
    Record.ofSql .trip [("route_id", .text "R"), ("service_id", .text "C"), ("trip_id", .text "T")],
    Record.ofSql .stopTime [("trip_id", .text "T"), ("stop_id", .text "S1"),
      ("stop_sequence", .integer 1)],
    Record.ofSql .stopTime [("trip_id", .text "T"), ("stop_id", .text "S1"),
      ("stop_sequence", .integer 2)]]

/-- Copying the small feed drops the stop, the trip and its stop times, and every report
balances. -/
theorem sampleFeed_copy_balances :
    ∃ result, (copyFeed sampleFeed.source MemoryFeed.sink {} IdMap.empty {} {}).1 = .ok result ∧
      result.collections.map (fun c => (c.read, c.written, c.dropped)) =
        [(1, 1, 0), (1, 0, 1), (1, 1, 0), (1, 0, 1), (2, 0, 2)] ∧
      ∀ c ∈ result.collections, c.read = c.written + c.dropped := by
  have hcounts : ((copyFeed sampleFeed.source MemoryFeed.sink {} IdMap.empty {} {}).1.toOption.map
      fun r => r.collections.map fun c => (c.read, c.written, c.dropped)) =
        some [(1, 1, 0), (1, 0, 1), (1, 1, 0), (1, 0, 1), (2, 0, 2)] := by
    decide +kernel
  cases h : (copyFeed sampleFeed.source MemoryFeed.sink {} IdMap.empty {} {}).1 with
  | error e =>
    rw [h] at hcounts
    cases hcounts
  | ok result =>
    rw [h] at hcounts
    exact ⟨result, rfl, Option.some.inj hcounts,
      copyFeed_read_eq_written_add_dropped (MemoryFeed.faithful_source (MemoryFeed.keyed_ofRecords _))
        MemoryFeed.oneIdEach_sink (fun _ hst => absurd hst List.not_mem_nil) h⟩

end TransitFeed

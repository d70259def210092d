import TransitFeed.Proofs.Copy.StopSettling

/-!
# Stops deferred until their parent station is copied

A stop whose parent station is not copied yet waits. After the first pass over the
collection, the copy retries the waiting stops round after round, for as long as a round
moves one, then prepares those left once more without letting them wait, so that they fail
on their parent station. The copy of a collection of stops then writes exactly the least set
of `Settles`, whatever the order of the stops: a stop of the set is written in the round
after its parent at the latest, so one left at the end waits for a parent outside the set. The
rounds never need more than one per waiting stop and one more, since each round that does not
end them moves a stop.
-/

namespace TransitFeed

namespace Copying

variable {σ : Type}

/-! ### Settling stops one after another -/

section Sweeping

variable (s₀ : Run (σ × List Record)) (stops : List Record)

/-- A change of state that only counts: the log and the map stay, and so do what a copy of the
stops tracks and the problems it recorded. -/
structure Recount (s s₁ : Run (σ × List Record)) : Prop where
  store : s₁.store = s.store
  map : s₁.map = s.map
  tracked : Tracked s₀ stops s →
    Tracked s₀ stops s₁ ∧ ∀ P, ProblemsSince s₀ P s → ProblemsSince s₀ P s₁

/-- Stops settled one after another from `s`, each after a change that only counts, keeping the
stops of `w` waiting and ending in `s'`. -/
inductive Sweep : List Record → Run (σ × List Record) → List (Record × String) →
    Run (σ × List Record) → Prop
  | nil (s : Run (σ × List Record)) : Sweep [] s [] s
  | cons {r : Record} {rest : List Record} {s s₁ s₂ s' : Run (σ × List Record)}
      {w₁ w₂ : List (Record × String)} : Recount s₀ stops s s₁ → StopSettled s₀ stops r s₁ w₁ s₂ →
      Sweep rest s₂ w₂ s' → Sweep (r :: rest) s (w₁ ++ w₂) s'

/-- The stops waiting in a state: each a stop of the collection under its own identifier, with
its problems allowed and not handed over, no two with one identifier. -/
structure WaitList (s : Run (σ × List Record)) (w : List (Record × String)) : Prop where
  stops : ∀ x ∈ w, x.2 = x.1.entityId ∧ x.1 ∈ stops ∧
    (x.1.errors = [] ∨ s₀.options.allowEntityErrors = true)
  fresh : ∀ x ∈ w, ¬Handed s₀ s x.1
  distinct : (w.map fun x => x.1.entityId).Nodup

/-- What settling the stops `xs` one after another from `s` gives: the state stays tracked and
its log grows, by copies of stops of `xs` that do not wait; each stop of `xs` met its fate or
waits in `w`, the problems recorded after those before; the stops waiting form a wait list, in
the order of `xs`; and when nothing was handed over, the map is as it was and they all wait on
it. -/
structure Swept (xs : List Record) (s : Run (σ × List Record)) (w : List (Record × String))
    (s' : Run (σ × List Record)) : Prop where
  tracked : Tracked s₀ stops s'
  log : s.store.2 <+: s'.store.2
  fates : ∀ P, ProblemsSince s₀ P s → ∃ P', ProblemsSince s₀ (P ++ P') s' ∧
    ∀ r ∈ xs, Fated s₀ stops (P ++ P') s' r ∨ (r, r.entityId) ∈ w
  handed : ∀ e ∈ handedSince s s', ∃ r ∈ xs, (r, r.entityId) ∉ w ∧ e.entityId = r.entityId
  waiting : WaitList s₀ stops s' w
  sublist : w.Sublist (xs.map fun r => (r, r.entityId))
  map : s'.store.2 = s.store.2 → s'.map = s.map
  still : s'.store.2 = s.store.2 → ∀ x ∈ w, waitsForParent s'.map x.1 = true

/-- What the rounds of retries give from a state where the stops of `d` wait: the state stays
tracked and its log grows; each stop of `d` met its fate or is left; and the stops left form a
wait list, every one waiting on the final map. -/
structure Rounds (d : List (Record × String)) (s : Run (σ × List Record))
    (left : List (Record × String)) (s' : Run (σ × List Record)) : Prop where
  tracked : Tracked s₀ stops s'
  log : s.store.2 <+: s'.store.2
  fates : ∀ P, ProblemsSince s₀ P s → ∃ P', ProblemsSince s₀ (P ++ P') s' ∧
    ∀ x ∈ d, Fated s₀ stops (P ++ P') s' x.1 ∨ x ∈ left
  waiting : WaitList s₀ stops s' left
  still : ∀ x ∈ left, waitsForParent s'.map x.1 = true

end Sweeping

section Sweeping

variable {s₀ : Run (σ × List Record)} {stops : List Record}

/-- A log between two others equal to each other is equal to them. -/
theorem eq_of_prefix_of_prefix {a b c : List Record} (hab : a <+: b) (hbc : b <+: c) (hca : c = a) :
    b = a := by
  subst hca
  exact (hab.eq_of_length (Nat.le_antisymm hab.length_le hbc.length_le)).symm

/-- A log that grew by nothing is the same log. -/
theorem log_eq_of_handedSince_nil {s s' : Run (σ × List Record)} (h : s.store.2 <+: s'.store.2)
    (hnil : handedSince s s' = []) : s'.store.2 = s.store.2 := by
  obtain ⟨L, hL⟩ := h
  rw [handedSince_of_eq hL.symm] at hnil
  simp [← hL, hnil]

/-- A wait list lists its stops, each under its own identifier. -/
theorem WaitList.map_fst {s : Run (σ × List Record)} {d : List (Record × String)}
    (hw : WaitList s₀ stops s d) : (d.map Prod.fst).map (fun r => (r, r.entityId)) = d := by
  rw [List.map_map]
  conv_rhs => rw [← List.map_id d]
  exact List.map_congr_left fun x hx => by
    obtain ⟨h, -⟩ := hw.stops x hx
    simp [← h]

theorem handed_of_store {s s' : Run (σ × List Record)} (h : s'.store = s.store) {r : Record} :
    Handed s₀ s' r ↔ Handed s₀ s r := by
  simp [Handed, handedSince, h]

namespace Swept

variable {xs : List Record} {s s' : Run (σ × List Record)} {w : List (Record × String)}

/-- Settling no stop leaves the state and nothing waiting. -/
theorem nil (hs : Tracked s₀ stops s) : Swept s₀ stops [] s [] s :=
  ⟨hs, List.prefix_refl _, fun P hP => ⟨[], by simpa using hP, by simp⟩, by simp,
    ⟨by simp, by simp, by simp⟩, List.nil_sublist _, fun _ => rfl, by simp⟩

/-- A stop left waiting is one of the stops settled. -/
theorem fst_mem (h : Swept s₀ stops xs s w s') {x : Record × String} (hx : x ∈ w) : x.1 ∈ xs := by
  obtain ⟨y, hy, rfl⟩ := List.mem_map.mp (h.sublist.subset hx)
  exact hy

/-! One stop settled after a change that only counts, then the rest: each field of `Swept`
for the whole from the stop's `StopSettled` and the rest's `Swept`. -/

section Cons

variable {r : Record} {rest : List Record} {s₁ s₂ : Run (σ × List Record)}
  {w₁ w₂ : List (Record × String)}

theorem cons_log (hrec : Recount s₀ stops s s₁) (hset : StopSettled s₀ stops r s₁ w₁ s₂)
    (ih : Swept s₀ stops rest s₂ w₂ s') : s.store.2 <+: s'.store.2 := by
  rw [← hrec.store]
  exact hset.log.trans ih.log

/-- What is handed over is the stop's own copy, then what the rest hands over. -/
theorem handedSince_cons (hrec : Recount s₀ stops s s₁) (hset : StopSettled s₀ stops r s₁ w₁ s₂)
    (ih : Swept s₀ stops rest s₂ w₂ s') :
    handedSince s s' = handedSince s₁ s₂ ++ handedSince s₂ s' := by
  rw [handedSince_append (hrec.store ▸ hset.log) ih.log]
  simp [handedSince, hrec.store]

/-- The problems of the stop come before those of the rest. -/
theorem cons_fates (hset : StopSettled s₀ stops r s₁ w₁ s₂) (ih : Swept s₀ stops rest s₂ w₂ s')
    (hs₁ : Tracked s₀ stops s₁) (hprob₁ : ∀ P, ProblemsSince s₀ P s → ProblemsSince s₀ P s₁)
    {P : List Issue} (hP : ProblemsSince s₀ P s) :
    ∃ P', ProblemsSince s₀ (P ++ P') s' ∧
      ∀ r' ∈ r :: rest, Fated s₀ stops (P ++ P') s' r' ∨ (r', r'.entityId) ∈ w₁ ++ w₂ := by
  obtain ⟨P₁, hP₁, hfate⟩ := hset.fate hs₁ (hprob₁ P hP)
  obtain ⟨P₂, hP₂, hrest⟩ := ih.fates (P ++ P₁) hP₁
  refine ⟨P₁ ++ P₂, by simpa using hP₂, fun r' hr' => ?_⟩
  rcases List.mem_cons.mp hr' with rfl | hr'
  · rcases hfate with ⟨-, hfated⟩ | ⟨rfl, -, -⟩
    · exact .inl (by simpa using hfated.mono P₂ (hset.tracked hs₁).log ih.log)
    · exact .inr (List.mem_append_left _ List.mem_cons_self)
  · rcases hrest r' hr' with hfated | hin
    · exact .inl (by simpa using hfated)
    · exact .inr (List.mem_append_right _ hin)

theorem cons_handed (hrec : Recount s₀ stops s s₁) (hset : StopSettled s₀ stops r s₁ w₁ s₂)
    (ih : Swept s₀ stops rest s₂ w₂ s') (hr_rest : ∀ r' ∈ rest, r'.entityId ≠ r.entityId) :
    ∀ e ∈ handedSince s s', ∃ r' ∈ r :: rest, (r', r'.entityId) ∉ w₁ ++ w₂ ∧ e.entityId = r'.entityId := by
  intro e he
  rw [handedSince_cons hrec hset ih] at he
  rcases List.mem_append.mp he with he | he
  · -- the stop's own copy
    obtain ⟨hid, rfl⟩ := hset.handed e he
    exact ⟨r, List.mem_cons_self, fun hin => hr_rest r (ih.fst_mem (by simpa using hin)) rfl, hid⟩
  · obtain ⟨r', hr', hnot, hid⟩ := ih.handed e he
    refine ⟨r', List.mem_cons_of_mem _ hr', fun hin => ?_, hid⟩
    rcases List.mem_append.mp hin with hin | hin
    · rcases hset.waiting with rfl | ⟨rfl, -⟩
      · simp at hin
      · exact hr_rest r' hr' (by simp at hin; exact hin.2)
    · exact hnot hin

theorem cons_waiting (hrec : Recount s₀ stops s s₁) (hset : StopSettled s₀ stops r s₁ w₁ s₂)
    (ih : Swept s₀ stops rest s₂ w₂ s') (hs₁ : Tracked s₀ stops s₁)
    (hr_rest : ∀ r' ∈ rest, r'.entityId ≠ r.entityId) (hr : r ∈ stops) (hfresh : ¬Handed s₀ s r) :
    WaitList s₀ stops s' (w₁ ++ w₂) := by
  refine ⟨fun x hx => ?_, fun x hx => ?_, ?_⟩
  · rcases List.mem_append.mp hx with hx | hx
    · rcases hset.waiting with rfl | ⟨rfl, -, -, hadm⟩
      · simp at hx
      · obtain rfl := List.mem_singleton.mp hx
        exact ⟨rfl, hr, hadm⟩
    · exact ih.waiting.stops x hx
  · rcases List.mem_append.mp hx with hx | hx
    · -- a waiting stop was left as it was, and the rest hands over none with its identifier
      rcases hset.waiting with rfl | ⟨rfl, rfl, -⟩
      · simp at hx
      obtain rfl := List.mem_singleton.mp hx
      rintro ⟨e, he, hid⟩
      rw [handedSince_append hs₁.log ih.log] at he
      rcases List.mem_append.mp he with he | he
      · exact hfresh ((handed_of_store hrec.store).mp ⟨e, he, hid⟩)
      · obtain ⟨r', hr', -, hid'⟩ := ih.handed e he
        exact hr_rest r' hr' (hid'.symm.trans hid)
    · exact ih.waiting.fresh x hx
  · rw [List.map_append, List.nodup_append]
    refine ⟨by rcases hset.waiting with rfl | ⟨rfl, -⟩ <;> simp, ih.waiting.distinct, fun a ha b hb => ?_⟩
    rcases hset.waiting with rfl | ⟨rfl, -⟩
    · simp at ha
    · obtain rfl : a = r.entityId := by simpa using ha
      obtain ⟨x, hx, rfl⟩ := List.mem_map.mp hb
      exact fun h => hr_rest x.1 (ih.fst_mem hx) h.symm

theorem cons_sublist (hset : StopSettled s₀ stops r s₁ w₁ s₂) (ih : Swept s₀ stops rest s₂ w₂ s') :
    (w₁ ++ w₂).Sublist ((r :: rest).map fun r => (r, r.entityId)) := by
  rw [List.map_cons]
  rcases hset.waiting with rfl | ⟨rfl, -⟩
  · exact ih.sublist.cons _
  · exact ih.sublist.cons_cons _

/-- With nothing handed over, nothing changed between the stops: the map is as it was, and
the stops waiting wait on it. -/
theorem cons_unmoved (hrec : Recount s₀ stops s s₁) (hset : StopSettled s₀ stops r s₁ w₁ s₂)
    (ih : Swept s₀ stops rest s₂ w₂ s') (hsame : s'.store.2 = s.store.2) :
    s'.map = s.map ∧ ∀ x ∈ w₁ ++ w₂, waitsForParent s'.map x.1 = true := by
  have h₂ : s₂.store.2 = s₁.store.2 := by
    rw [hrec.store]
    exact eq_of_prefix_of_prefix (hrec.store ▸ hset.log) ih.log hsame
  have h' : s'.store.2 = s₂.store.2 := by
    rw [h₂, hrec.store]
    exact hsame
  refine ⟨by rw [ih.map h', hset.map_of_log h₂, hrec.map], fun x hx => ?_⟩
  rcases List.mem_append.mp hx with hx | hx
  · rcases hset.waiting with rfl | ⟨rfl, rfl, hwait, -⟩
    · simp at hx
    · obtain rfl := List.mem_singleton.mp hx
      rw [ih.map h']
      exact hwait
  · exact ih.still h' x hx

/-- Settling one stop, after a change that only counts, then the rest. -/
theorem cons (hrec : Recount s₀ stops s s₁) (hset : StopSettled s₀ stops r s₁ w₁ s₂)
    (ih : Swept s₀ stops rest s₂ w₂ s') (hs₁ : Tracked s₀ stops s₁)
    (hprob₁ : ∀ P, ProblemsSince s₀ P s → ProblemsSince s₀ P s₁)
    (hr_rest : ∀ r' ∈ rest, r'.entityId ≠ r.entityId) (hr : r ∈ stops) (hfresh : ¬Handed s₀ s r) :
    Swept s₀ stops (r :: rest) s (w₁ ++ w₂) s' where
  tracked := ih.tracked
  log := cons_log hrec hset ih
  fates _ hP := cons_fates hset ih hs₁ hprob₁ hP
  handed := cons_handed hrec hset ih hr_rest
  waiting := cons_waiting hrec hset ih hs₁ hr_rest hr hfresh
  sublist := cons_sublist hset ih
  map hsame := (cons_unmoved hrec hset ih hsame).1
  still hsame := (cons_unmoved hrec hset ih hsame).2

end Cons

end Swept

/-- What settling stops one after another gives, for stops of the collection with distinct
identifiers, none handed over yet. -/
theorem Sweep.swept {xs : List Record} {s s' : Run (σ × List Record)} {w : List (Record × String)}
    (h : Sweep s₀ stops xs s w s') (hs : Tracked s₀ stops s) (hxs : ∀ r ∈ xs, r ∈ stops)
    (hnodup : (xs.map Record.entityId).Nodup) (hfresh : ∀ r ∈ xs, ¬Handed s₀ s r) :
    Swept s₀ stops xs s w s' := by
  induction h with
  | nil s => exact Swept.nil hs
  | @cons r rest s s₁ s₂ s' w₁ w₂ hrec hset hrest ih =>
    obtain ⟨hs₁, hprob₁⟩ := hrec.tracked hs
    have hr_rest : ∀ r' ∈ rest, r'.entityId ≠ r.entityId := fun r' hr' he =>
      (List.nodup_cons.mp hnodup).1 (he ▸ List.mem_map_of_mem hr')
    -- the rest is fresh once this stop is settled
    have hfresh₂ : ∀ r' ∈ rest, ¬Handed s₀ s₂ r' := fun r' hr' =>
      hset.fresh hs₁ (hr_rest r' hr') fun h =>
        hfresh r' (List.mem_cons_of_mem _ hr') ((handed_of_store hrec.store).mp h)
    have hrest_swept := ih (hset.tracked hs₁) (fun r' hr' => hxs r' (List.mem_cons_of_mem _ hr'))
      (List.nodup_cons.mp hnodup).2 hfresh₂
    exact Swept.cons hrec hset hrest_swept hs₁ hprob₁ hr_rest (hxs r List.mem_cons_self)
      (hfresh r List.mem_cons_self)

end Sweeping

/-! ### The passes over the stops -/

section Passes

variable {s₀ : Run (σ × List Record)} {stops : List Record} {sink : Sink σ}

/-- Counting an item read only counts. -/
theorem recount_countRead (s : Run (σ × List Record)) :
    Recount s₀ stops s (exec (countRead .stop) s).2 :=
  ⟨rfl, rfl, fun hs => ⟨hs.withReports (updateReport_ordered (k := .stop)
      (f := fun c => { c with read := c.read + 1 }) (fun _ => rfl) hs.ordered),
    fun _ hP => ProblemsSince.update hs .stop (f := fun c => { c with read := c.read + 1 })
      (fun _ => rfl) (fun _ => rfl) (fun _ => rfl) hP⟩⟩

theorem Recount.refl (s : Run (σ × List Record)) : Recount s₀ stops s s :=
  ⟨rfl, rfl, fun hs => ⟨hs, fun _ h => h⟩⟩

/-- Without stages, copying a record is settling it alone under its own identifier. -/
theorem exec_process_of_stages_nil {τ : Type} {sink : Sink τ} {s : Run τ} (hs : s.pipeline.stages = [])
    (r : Record) : exec (process sink r) s = exec (settle sink r.kind r.entityId r.entityId [r]) s := by
  rw [exec_process]
  simp only [Pipeline.filter_of_stages_nil hs, Pipeline.expand_of_stages_nil hs]

/-- A round of retries keeps at most the stops it was given. -/
theorem retryOnce_length_le {τ : Type} {sink : Sink τ} :
    ∀ {d w : List (Record × String)} {s s' : Run τ},
      exec (retryOnce sink d) s = (.ok w, s') → w.length ≤ d.length
  | [], w, s, s', h => by
    obtain ⟨hb, -⟩ := Prod.mk.inj h
    cases Except.ok.inj hb
    simp
  | (e, oldId) :: rest, w, s, s', h => by
    obtain ⟨o, s₁, -, w₁, s₂, w₂, hsettled, hrest, rfl⟩ := (exec_retryOnce_cons_eq_ok ..).mp h
    have h₁ : w₁.length ≤ 1 := by
      cases o <;> simp only [Settled] at hsettled <;> simp [hsettled.2, hsettled.1]
    have h₂ := retryOnce_length_le hrest
    simp only [List.length_append, List.length_cons]
    omega

/-- A round more than the stops waiting is never needed: each round that does not end the
retries moves a stop, so a further round of fuel changes nothing. -/
theorem loop_succ_of_length_lt {τ : Type} {sink : Sink τ} :
    ∀ (n : Nat) (d : List (Record × String)) (s : Run τ), d.length < n →
      exec (retryDeferred.loop sink d (n + 1)) s = exec (retryDeferred.loop sink d n) s
  | 0, _, _, h => absurd h (Nat.not_lt_zero _)
  | n + 1, d, s, h => by
    rw [retryDeferred.loop.eq_2, retryDeferred.loop.eq_2, exec_ite, exec_ite]
    split
    · rfl
    rw [exec_bind, exec_bind]
    rcases hround : exec (retryOnce sink d) s with ⟨_ | pending, s₁⟩
    · rfl
    dsimp only
    rw [exec_ite, exec_ite]
    split
    · rfl
    · rename_i hmoved
      have hle := retryOnce_length_le hround
      have hne : pending.length ≠ d.length := fun heq => hmoved (by simp [heq])
      exact loop_succ_of_length_lt n pending s₁ (by omega)

/-- However many rounds beyond one per waiting stop are allowed, the retries end as with one
round per waiting stop and one more. -/
theorem loop_eq_of_length_lt {τ : Type} {sink : Sink τ} {d : List (Record × String)} {s : Run τ}
    {n : Nat} (h : d.length < n) :
    exec (retryDeferred.loop sink d n) s = exec (retryDeferred.loop sink d (d.length + 1)) s := by
  induction n with
  | zero => exact absurd h (Nat.not_lt_zero _)
  | succ n ih =>
    rcases Nat.lt_succ_iff_lt_or_eq.mp h with hlt | heq
    · rw [loop_succ_of_length_lt n d s hlt, ih hlt]
    · rw [heq]

variable (hsink : sink.NeverFails) (hfast : s₀.options.failFast = false)
  (hstops : ∀ r ∈ stops, r.kind = .stop ∧ r.Shaped)
include hsink hfast hstops

/-- The first pass over the stops of a stream settles them one after another, each once counted. -/
theorem copyItems_sweep (st : Stream) : ∀ (i : Nat) (rest : List Record) (s : Run (σ × List Record)),
    (∀ r ∈ rest, r ∈ stops) → (rest.map Record.entityId).Nodup → Tracked s₀ stops s →
    (∀ r ∈ rest, ¬Handed s₀ s r) →
    ∃ w s', exec (copyItems sink.logged .stop st i (rest.map .ok)) s = (.ok w, s') ∧
      Sweep s₀ stops rest s w s'
  | _, [], s, _, _, _, _ => ⟨[], s, rfl, .nil s⟩
  | i, r :: rest, s, hmem, hnodup, hs, hfresh => by
    have hrec : Recount s₀ stops s _ := recount_countRead s
    obtain ⟨hs₁, -⟩ := hrec.tracked hs
    obtain ⟨o, s₁', w₁, s₂, hprep, hsettled, hset⟩ := settle_stop hsink hfast hstops hs₁
      (hmem r List.mem_cons_self) ((handed_of_store hrec.store).not.mpr (hfresh r List.mem_cons_self))
    have hr_rest : ∀ r' ∈ rest, r'.entityId ≠ r.entityId := fun r' hr' he =>
      (List.nodup_cons.mp hnodup).1 (he ▸ List.mem_map_of_mem hr')
    obtain ⟨w₂, s', hrest, hsweep⟩ := copyItems_sweep st (i + 1) rest s₂
      (fun r' hr' => hmem r' (List.mem_cons_of_mem _ hr')) (List.nodup_cons.mp hnodup).2
      (hset.tracked hs₁) fun r' hr' => hset.fresh hs₁ (hr_rest r' hr')
        ((handed_of_store hrec.store).not.mpr (hfresh r' (List.mem_cons_of_mem _ hr')))
    refine ⟨w₁ ++ w₂, s', ?_, .cons hrec hset hsweep⟩
    rw [List.map_cons, exec_copyItems_cons_eq_ok]
    refine ⟨w₁, s₂, w₂, ?_, hrest, rfl⟩
    rw [exec_process_of_stages_nil hs₁.stages, exec_settle_cons_eq_ok]
    exact ⟨o, s₁', hprep, w₁, s₂, [], by rw [ite_self]; exact hsettled, rfl, by simp⟩

/-- A round of retries settles the waiting stops one after another. -/
theorem retryOnce_sweep : ∀ (d : List (Record × String)) (s : Run (σ × List Record)),
    Tracked s₀ stops s → WaitList s₀ stops s d →
    ∃ pending s', exec (retryOnce sink.logged d) s = (.ok pending, s') ∧
      Sweep s₀ stops (d.map Prod.fst) s pending s'
  | [], s, _, _ => ⟨[], s, rfl, .nil s⟩
  | (e, oldId) :: rest, s, hs, hw => by
    obtain ⟨hold, hmem, -⟩ := hw.stops _ List.mem_cons_self
    dsimp only at hold hmem
    subst hold
    obtain ⟨o, s₁, w₁, s₂, hprep, hsettled, hset⟩ :=
      settle_stop hsink hfast hstops hs hmem (hw.fresh _ List.mem_cons_self)
    have hdistinct := List.nodup_cons.mp
      (show (e.entityId :: rest.map fun x => x.1.entityId).Nodup from hw.distinct)
    have hw₂ : WaitList s₀ stops s₂ rest :=
      ⟨fun x hx => hw.stops x (List.mem_cons_of_mem _ hx),
        fun x hx => hset.fresh hs (fun h => hdistinct.1 (h ▸ List.mem_map_of_mem (f := fun x => x.1.entityId) hx))
          (hw.fresh x (List.mem_cons_of_mem _ hx)), hdistinct.2⟩
    obtain ⟨pending, s', hrest, hsweep⟩ := retryOnce_sweep rest s₂ (hset.tracked hs) hw₂
    exact ⟨w₁ ++ pending, s', (exec_retryOnce_cons_eq_ok _ _ _ _ _ _ _).mpr
      ⟨o, s₁, hprep, w₁, s₂, pending, hsettled, hrest, rfl⟩, .cons (Recount.refl s) hset hsweep⟩

omit hsink hfast hstops in
/-- Settling the stops of a wait list one after another. -/
theorem Sweep.swept_of_waitList {d pending : List (Record × String)} {s s' : Run (σ × List Record)}
    (h : Sweep s₀ stops (d.map Prod.fst) s pending s') (hs : Tracked s₀ stops s)
    (hw : WaitList s₀ stops s d) : Swept s₀ stops (d.map Prod.fst) s pending s' :=
  h.swept hs (fun r hr => by
      obtain ⟨x, hx, rfl⟩ := List.mem_map.mp hr
      exact (hw.stops x hx).2.1)
    (by rw [List.map_map]; exact hw.distinct) fun r hr => by
      obtain ⟨x, hx, rfl⟩ := List.mem_map.mp hr
      exact hw.fresh x hx

/-- The rounds of retries, with one round more than stops waiting: each round either moves a
stop, and the next has one stop less to move, or moves none and ends the rounds with every stop
left waiting on the map. -/
theorem loop_rounds : ∀ (n : Nat) (d : List (Record × String)) (s : Run (σ × List Record)),
    d.length < n → Tracked s₀ stops s → WaitList s₀ stops s d →
    ∃ left s', exec (retryDeferred.loop sink.logged d n) s = (.ok left, s') ∧
      Rounds s₀ stops d s left s'
  | 0, _, _, hlt, _, _ => absurd hlt (Nat.not_lt_zero _)
  | n + 1, d, s, hlt, hs, hw => by
    by_cases hempty : d = []
    · subst hempty
      exact ⟨[], s, rfl, ⟨hs, List.prefix_refl _, fun P hP => ⟨[], by simpa using hP, by simp⟩, hw,
        by simp⟩⟩
    obtain ⟨pending, s₁, hround, hsweep⟩ := retryOnce_sweep hsink hfast hstops d s hs hw
    have hswept := hsweep.swept_of_waitList hs hw
    have hsub : pending.Sublist d := hw.map_fst ▸ hswept.sublist
    have hpair : ∀ x ∈ d, (x.1, x.1.entityId) = x := fun x hx => by
      obtain ⟨h, -⟩ := hw.stops x hx
      rw [← h]
    -- what became of the stops of this round
    have hround_fates : ∀ P, ProblemsSince s₀ P s → ∃ P', ProblemsSince s₀ (P ++ P') s₁ ∧
        ∀ x ∈ d, Fated s₀ stops (P ++ P') s₁ x.1 ∨ x ∈ pending := by
      intro P hP
      obtain ⟨P', hP', hfate⟩ := hswept.fates P hP
      refine ⟨P', hP', fun x hx => ?_⟩
      rcases hfate x.1 (List.mem_map_of_mem hx) with h | h
      · exact .inl h
      · exact .inr (hpair x hx ▸ h)
    have hexec : exec (retryDeferred.loop sink.logged d (n + 1)) s =
        if (pending.isEmpty || pending.length == d.length) = true then (.ok pending, s₁)
        else exec (retryDeferred.loop sink.logged pending n) s₁ := by
      rw [retryDeferred.loop.eq_2, exec_ite, if_neg (by simpa using hempty), exec_bind_of_ok hround,
        exec_ite]
      rfl
    by_cases hstop : pending = [] ∨ pending.length = d.length
    · -- the rounds end here
      rw [if_pos (by simpa [List.isEmpty_iff] using hstop)] at hexec
      refine ⟨pending, s₁, hexec, ⟨hswept.tracked, hswept.log, hround_fates, hswept.waiting, ?_⟩⟩
      rcases hstop with rfl | hlen
      · simp
      · -- no stop moved: nothing was handed over, and all still wait, on the same map
        have heq : pending = d := hsub.eq_of_length hlen
        have hnil : handedSince s s₁ = [] := by
          refine List.eq_nil_iff_forall_not_mem.mpr fun e he => ?_
          obtain ⟨r, hr, hnot, -⟩ := hswept.handed e he
          obtain ⟨x, hx, rfl⟩ := List.mem_map.mp hr
          exact hnot (heq ▸ (hpair x hx).symm ▸ hx)
        exact hswept.still (log_eq_of_handedSince_nil hswept.log hnil)
    · -- a stop moved, and fewer wait for the next round
      rw [if_neg (by simpa [List.isEmpty_iff] using hstop)] at hexec
      have hshorter : pending.length < d.length :=
        lt_of_le_of_ne hsub.length_le fun h => hstop (.inr h)
      obtain ⟨left, s', hrest, hrounds⟩ :=
        loop_rounds n pending s₁ (by omega) hswept.tracked hswept.waiting
      refine ⟨left, s', hexec.trans hrest, ⟨hrounds.tracked, hswept.log.trans hrounds.log,
        fun P hP => ?_, hrounds.waiting, hrounds.still⟩⟩
      obtain ⟨P₁, hP₁, hf₁⟩ := hround_fates P hP
      obtain ⟨P₂, hP₂, hf₂⟩ := hrounds.fates (P ++ P₁) hP₁
      refine ⟨P₁ ++ P₂, by simpa using hP₂, fun x hx => ?_⟩
      rcases hf₁ x hx with h | h
      · exact .inl (by simpa using h.mono P₂ hswept.tracked.log hrounds.log)
      · exact (hf₂ x h).imp (fun h' => by simpa using h') id

omit hsink in
/-- A stop left waiting on the map, outside the set, is prepared without waiting and dropped:
its parent station does not resolve. -/
theorem prepare_leftover {s : Run (σ × List Record)} (hs : Tracked s₀ stops s) {x : Record}
    (hx : x ∈ stops) (hadm : x.errors = [] ∨ s₀.options.allowEntityErrors = true)
    (hwait : waitsForParent s.map x = true)
    (hout : ¬Settles s₀.map s₀.options.allowEntityErrors stops x) :
    ∃ s', exec (prepare x false) s = (.ok .rejected, s') ∧ StopSettled s₀ stops x s [] s' ∧
      s'.map = s.map := by
  obtain ⟨hk, -⟩ := hstops x hx
  obtain ⟨p, hp, -, hunknown⟩ := (Record.waitsForParent_stop hk).mp hwait
  obtain ⟨i, hkeys⟩ := Record.updateKeys_stop_error_of_parent hk hp hunknown
  have herr : ¬(x.errors ≠ [] ∧ s.options.allowEntityErrors = false) := by
    rw [hs.options]
    rcases hadm with h | h <;> simp [h]
  refine ⟨_, ?_, StopSettled.of_keys_error hstops hs hx hkeys hout, rfl⟩
  rw [exec_prepare_of_keys_error (by rw [hs.options, hfast]) herr (fun h => by cases h.1) hkeys, hk]

omit hsink hfast in
/-- At the end of the rounds every stop of the set was handed over: a stop left waiting on the
map has a parent station the map does not know, so neither an absent one, nor one known from
the start, nor one handed over; by induction on the set. -/
theorem handed_of_settles {s : Run (σ × List Record)} (hs : Tracked s₀ stops s)
    {left : List (Record × String)}
    (hfate : ∀ r ∈ stops, Handed s₀ s r ∨ ¬Settles s₀.map s₀.options.allowEntityErrors stops r ∨
      (r, r.entityId) ∈ left)
    (hstill : ∀ x ∈ left, waitsForParent s.map x.1 = true) {r : Record}
    (h : Settles s₀.map s₀.options.allowEntityErrors stops r) : Handed s₀ s r := by
  -- a stop of the set whose parent station the map knows, if it has one, is not left waiting
  have key : ∀ {r : Record}, Settles s₀.map s₀.options.allowEntityErrors stops r →
      (∀ p, r.cell "parent_station" = some (.text p) → s.map.contains Kind.stop.fileName p = true) →
      Handed s₀ s r := by
    intro r hr hknown
    rcases hfate r hr.mem with h | h | h
    · exact h
    · exact absurd hr h
    · obtain ⟨p, hp, -, hunknown⟩ :=
        (Record.waitsForParent_stop (hstops r hr.mem).1).mp (hstill _ h)
      simp [hknown p hp] at hunknown
  induction h with
  | @orphan r hr helig hnone =>
    exact key (.orphan hr helig hnone) fun p hp => by simp [hnone] at hp
  | @known r p hr helig hp hm =>
    refine key (.known hr helig hp hm) fun p' hp' => ?_
    obtain rfl : p = p' := by simpa [hp] using hp'
    exact (hs.stopKeys p).mpr (.inl hm)
  | @child r q hr helig hq hne hp ih =>
    refine key (.child hr helig hq hne hp) fun p' hp' => ?_
    obtain rfl : _ = p' := by simpa [hp] using hp'
    obtain ⟨e, he, hid⟩ := ih
    exact (hs.stopKeys _).mpr (.inr ⟨e, he, hid, hne⟩)

omit hsink in
/-- The last pass of retrying, over stops outside the set that wait on the map: each is
prepared without waiting and dropped. -/
theorem retryDeferred_drops {d left : List (Record × String)} {s s₁ : Run (σ × List Record)}
    (hloop : exec (retryDeferred.loop sink.logged d (d.length + 1)) s = (.ok left, s₁))
    (htr : Tracked s₀ stops s₁)
    (hleft : ∀ x ∈ left, x.1 ∈ stops ∧ (x.1.errors = [] ∨ s₀.options.allowEntityErrors = true) ∧
      waitsForParent s₁.map x.1 = true ∧ ¬Settles s₀.map s₀.options.allowEntityErrors stops x.1) :
    ∃ s', exec (retryDeferred sink.logged d) s = (.ok (), s') ∧
      Sweep s₀ stops (left.map Prod.fst) s₁ [] s' := by
  rw [retryDeferred, exec_bind_of_ok hloop]
  clear hloop
  induction left generalizing s₁ with
  | nil => exact ⟨s₁, rfl, .nil s₁⟩
  | cons x rest ih =>
    obtain ⟨e, oldId⟩ := x
    obtain ⟨hx, hadm, hwait, hout⟩ := hleft _ List.mem_cons_self
    obtain ⟨t, hprep, hset, hmap⟩ := prepare_leftover hfast hstops htr hx hadm hwait hout
    rw [List.forIn_cons, bind_assoc]
    dsimp only
    rw [bind_assoc, exec_bind_of_ok hprep]
    dsimp only
    rw [pure_bind]
    have hkeep : ∀ y ∈ rest, y.1 ∈ stops ∧ (y.1.errors = [] ∨ s₀.options.allowEntityErrors = true) ∧
        waitsForParent t.map y.1 = true ∧ ¬Settles s₀.map s₀.options.allowEntityErrors stops y.1 := by
      intro y hy
      rw [hmap]
      exact hleft y (List.mem_cons_of_mem _ hy)
    obtain ⟨s', hrest, hsweep⟩ := ih (hset.tracked htr) hkeep
    exact ⟨s', hrest, .cons (Recount.refl s₁) hset hsweep⟩

/-- Retrying the stops that wait: the rounds leave only stops outside the set, each waiting on
the map, and the last pass drops them, so every stop of the set has been handed over. -/
theorem retryDeferred_settles (d : List (Record × String)) (s : Run (σ × List Record))
    (hs : Tracked s₀ stops s) (hw : WaitList s₀ stops s d) {P : List Issue}
    (hP : ProblemsSince s₀ P s)
    (hfate : ∀ r ∈ stops, Fated s₀ stops P s r ∨ (r, r.entityId) ∈ d) :
    ∃ s' P', exec (retryDeferred sink.logged d) s = (.ok (), s') ∧ Tracked s₀ stops s' ∧
      ProblemsSince s₀ (P ++ P') s' ∧ (∀ r ∈ stops, Fated s₀ stops (P ++ P') s' r) ∧
      ∀ r, Settles s₀.map s₀.options.allowEntityErrors stops r → Handed s₀ s' r := by
  obtain ⟨left, s₁, hloop, hrounds⟩ :=
    loop_rounds hsink hfast hstops _ d s (Nat.lt_succ_self _) hs hw
  obtain ⟨P₁, hP₁, hf₁⟩ := hrounds.fates P hP
  have hfate₁ : ∀ r ∈ stops, Fated s₀ stops (P ++ P₁) s₁ r ∨ (r, r.entityId) ∈ left := by
    intro r hr
    rcases hfate r hr with h | h
    · exact .inl (h.mono P₁ hs.log hrounds.log)
    · exact hf₁ _ h
  have hhanded : ∀ r, Settles s₀.map s₀.options.allowEntityErrors stops r → Handed s₀ s₁ r :=
    fun r => handed_of_settles hstops hrounds.tracked (fun r hr => (hfate₁ r hr).elim
      (fun h => h.imp_right fun h => .inl h.1) fun h => .inr (.inr h)) hrounds.still
  -- the stops left wait on the map and lie outside the set
  have hleft : ∀ x ∈ left, x.1 ∈ stops ∧ (x.1.errors = [] ∨ s₀.options.allowEntityErrors = true) ∧
      waitsForParent s₁.map x.1 = true ∧ ¬Settles s₀.map s₀.options.allowEntityErrors stops x.1 := by
    intro x hx
    obtain ⟨-, hmem, hadm⟩ := hrounds.waiting.stops x hx
    exact ⟨hmem, hadm, hrounds.still x hx, fun h => hrounds.waiting.fresh x hx (hhanded _ h)⟩
  obtain ⟨s', hexec, hsweep⟩ := retryDeferred_drops hfast hstops hloop hrounds.tracked hleft
  have hswept := hsweep.swept_of_waitList hrounds.tracked hrounds.waiting
  obtain ⟨P₂, hP₂, hf₂⟩ := hswept.fates (P ++ P₁) hP₁
  refine ⟨s', P₁ ++ P₂, hexec, hswept.tracked, by simpa using hP₂, fun r hr => ?_,
    fun r h => (hhanded r h).mono hrounds.tracked.log hswept.log⟩
  rcases hfate₁ r hr with h | h
  · simpa using h.mono P₂ hrounds.tracked.log hswept.log
  · simpa using (hf₂ r (List.mem_map_of_mem (f := Prod.fst) h)).resolve_right (by simp)

/-- Copying a collection of stops with distinct identifiers, read whole, with no stage: it ends
normally, each stop of the set handed over and each other one met its fate. -/
theorem copyCollection_stops {source : Source} {st : Stream}
    (hread : source.read .stop = .ok (some st)) (hitems : st.items = stops.map .ok)
    (hfailure : st.failure = none) (hnodup : (stops.map Record.entityId).Nodup)
    (hstages : s₀.pipeline.stages = []) (hordered : ReportsOrdered s₀.reports) :
    ∃ s' P, exec (copyCollection source sink.logged .stop) s₀ = (.ok (), s') ∧ Tracked s₀ stops s' ∧
      ProblemsSince s₀ P s' ∧ (∀ r ∈ stops, Fated s₀ stops P s' r) ∧
      ∀ r, Settles s₀.map s₀.options.allowEntityErrors stops r → Handed s₀ s' r := by
  have hs₀ : Tracked s₀ stops s₀ := Tracked.start hstages hordered
  have hfresh : ∀ r ∈ stops, ¬Handed s₀ s₀ r := fun r _ => by simp [Handed]
  obtain ⟨w, s₁, hfirst, hsweep⟩ :=
    copyItems_sweep hsink hfast hstops st 0 stops s₀ (fun r hr => hr) hnodup hs₀ hfresh
  have hswept := hsweep.swept hs₀ (fun r hr => hr) hnodup hfresh
  obtain ⟨P₁, hP₁, hf₁⟩ := hswept.fates [] ⟨rfl, rfl⟩
  obtain ⟨s', P₂, hretry, htr, hP₂, hfate, hhanded⟩ :=
    retryDeferred_settles hsink hfast hstops w s₁ hswept.tracked hswept.waiting hP₁ hf₁
  refine ⟨s', [] ++ P₁ ++ P₂, ?_, htr, hP₂, hfate, hhanded⟩
  rw [copyCollection, hread]
  dsimp only
  rw [hitems, exec_bind_of_ok hfirst, exec_bind_of_ok (show exec (finish st) s₁ = (.ok (), s₁) by rw [exec_finish, hfailure]), hretry]

end Passes

section Copy

variable {source : Source} {st : Stream} {stops : List Record} {sink : Sink σ}
  {s₀ : Run (σ × List Record)}

/-- Copying a collection of stops with distinct identifiers, read whole, with no stage and
without failing fast, to a destination that takes everything, ends normally. It writes exactly
the stops of the least set that holds every eligible stop whose parent station is absent, known
from the start, or the non-empty identifier of a stop of the set: each remapped, once. That set
does not depend on the order of the stops, and neither do the stops written nor the identifiers
the map knows after. Every other stop is dropped, with the problem of its parent station when
nothing else kept it out. And the rounds of retries never need more than one per waiting stop
and one more. -/
theorem copyCollection_writes_least_settled_set
    (hread : source.read .stop = .ok (some st)) (hitems : st.items = stops.map .ok)
    (hfailure : st.failure = none) (hstops : ∀ r ∈ stops, r.kind = .stop ∧ r.Shaped)
    (hnodup : (stops.map Record.entityId).Nodup) (hstages : s₀.pipeline.stages = [])
    (hordered : ReportsOrdered s₀.reports) (hfast : s₀.options.failFast = false)
    (hsink : sink.NeverFails) :
    ∃ s' P, exec (copyCollection source sink.logged .stop) s₀ = (.ok (), s') ∧
      (∀ order, order.Perm stops → ∀ r ∈ stops,
        (∃ e ∈ handedSince s₀ s', e.entityId = r.entityId) ↔
          Settles s₀.map s₀.options.allowEntityErrors order r) ∧
      (∀ e ∈ handedSince s₀ s', ∃ r, Settles s₀.map s₀.options.allowEntityErrors stops r ∧
        ∃ lookup, r.updateKeys lookup = .ok e) ∧
      ((handedSince s₀ s').map Record.entityId).Nodup ∧
      (∀ order, order.Perm stops → ∀ p, s'.map.contains Kind.stop.fileName p = true ↔
        s₀.map.contains Kind.stop.fileName p = true ∨
          p ≠ "" ∧ ∃ r, Settles s₀.map s₀.options.allowEntityErrors order r ∧ r.entityId = p) ∧
      ProblemsSince s₀ P s' ∧
      (∀ r ∈ stops, ¬Settles s₀.map s₀.options.allowEntityErrors stops r →
        r.Eligible s₀.map s₀.options.allowEntityErrors → r.parentIssue ∈ P) ∧
      ∀ (d : List (Record × String)) (t : Run (σ × List Record)) (n : Nat), d.length < n →
        exec (retryDeferred.loop sink.logged d n) t =
          exec (retryDeferred.loop sink.logged d (d.length + 1)) t := by
  obtain ⟨s', P, hexec, htr, hP, hfate, hhanded⟩ :=
    copyCollection_stops hsink hfast hstops hread hitems hfailure hnodup hstages hordered
  -- a copy handed over is one of a stop of the set, the only stop with its identifier
  have hwritten : ∀ r ∈ stops, Handed s₀ s' r ↔ Settles s₀.map s₀.options.allowEntityErrors stops r := by
    intro r hr
    refine ⟨fun ⟨e, he, hid⟩ => ?_, hhanded r⟩
    obtain ⟨r', hset, lookup, hkeys⟩ := htr.copies e he
    obtain rfl : r' = r := List.inj_on_of_nodup_map hnodup hset.mem hr
      (by rw [← Record.entityId_updateKeys hkeys, hid])
    exact hset
  refine ⟨s', P, hexec, fun order hperm r hr => (hwritten r hr).trans (Settles.perm_iff hperm).symm,
    htr.copies, htr.distinct, fun order hperm p => ?_, hP, fun r hr hout helig => ?_,
    fun d t n h => loop_eq_of_length_lt h⟩
  · rw [htr.stopKeys]
    refine or_congr_right ⟨?_, ?_⟩
    · rintro ⟨e, he, rfl, hne⟩
      obtain ⟨r, hset, lookup, hkeys⟩ := htr.copies e he
      exact ⟨hne, r, (Settles.perm_iff hperm).mpr hset, Record.entityId_updateKeys hkeys |>.symm⟩
    · rintro ⟨hne, r, hset, rfl⟩
      obtain ⟨e, he, hid⟩ := hhanded r ((Settles.perm_iff hperm).mp hset)
      exact ⟨e, he, hid, hne⟩
  · rcases hfate r hr with hw | ⟨-, hissue⟩
    · exact absurd ((hwritten r hr).mp hw) hout
    · exact hissue helig

/-- A platform whose parent station is `S`. -/
def platformStop : Record :=
  Record.ofSql .stop [("stop_id", .text "P"), ("stop_name", .text "Platform"), ("stop_lat", .text "1"),
    ("stop_lon", .text "1"), ("parent_station", .text "S")]

/-- The station `S`. -/
def stationStop : Record :=
  Record.ofSql .stop [("stop_id", .text "S"), ("stop_name", .text "Station"), ("stop_lat", .text "1"),
    ("stop_lon", .text "1"), ("location_type", .integer 1)]

/-- The start of a copy into a feed in memory, with default options and no stage. -/
def memoryStart : Run (MemoryFeed × List Record) :=
  { store := ({}, []), map := IdMap.empty, pipeline := {}, options := {} }

/-- A platform listed before its station: the copy ends normally and writes both, the station
having no parent and the platform's parent being the station. -/
theorem platformFirst_copy_writes_both :
    (MemoryFeed.source ⟨[(.stop, [platformStop, stationStop])]⟩).read .stop =
        .ok (some { items := [platformStop, stationStop].map .ok }) ∧
      (∀ r ∈ [platformStop, stationStop], r.kind = .stop ∧ r.Shaped) ∧
      ([platformStop, stationStop].map Record.entityId).Nodup ∧
      ∃ s', exec (copyCollection (MemoryFeed.source ⟨[(.stop, [platformStop, stationStop])]⟩)
          MemoryFeed.sink.logged .stop) memoryStart = (.ok (), s') ∧
        ∀ r ∈ [platformStop, stationStop], ∃ e ∈ s'.store.2, e.entityId = r.entityId := by
  have hread : (MemoryFeed.source ⟨[(.stop, [platformStop, stationStop])]⟩).read .stop =
      .ok (some { items := [platformStop, stationStop].map .ok }) := rfl
  have hstops : ∀ r ∈ [platformStop, stationStop], r.kind = .stop ∧ r.Shaped := by decide +kernel
  have hnodup : ([platformStop, stationStop].map Record.entityId).Nodup := by decide +kernel
  obtain ⟨s', P, hexec, hwritten, -⟩ := copyCollection_writes_least_settled_set hread rfl rfl hstops
    hnodup (show memoryStart.pipeline.stages = [] from rfl) List.Pairwise.nil rfl
    MemoryFeed.neverFails_sink
  refine ⟨hread, hstops, hnodup, s', hexec, fun r hr => ?_⟩
  have hstation : Settles memoryStart.map memoryStart.options.allowEntityErrors
      [platformStop, stationStop] stationStop :=
    .orphan (by simp) (Record.eligible_of_level_none (by decide +kernel) rfl) rfl
  have hplatform : Settles memoryStart.map memoryStart.options.allowEntityErrors
      [platformStop, stationStop] platformStop :=
    .child (by simp) (Record.eligible_of_level_none (by decide +kernel) rfl) hstation (by decide) rfl
  have hset : Settles memoryStart.map memoryStart.options.allowEntityErrors
      [platformStop, stationStop] r := by
    rcases List.mem_pair.mp hr with rfl | rfl
    · exact hplatform
    · exact hstation
  simpa [handedSince, memoryStart] using (hwritten _ (List.Perm.refl _) r hr).mpr hset

/-- A stop whose parent station is present and empty, as a relational source reads a stored
empty text. -/
def blankParentStop : Record :=
  Record.ofSql .stop [("stop_id", .text "S1"), ("stop_name", .text "One"), ("stop_lat", .text "1"),
    ("stop_lon", .text "1"), ("parent_station", .text "")]

/-- A stop whose parent station is `S1`. -/
def blankParentChild : Record :=
  Record.ofSql .stop [("stop_id", .text "S2"), ("stop_name", .text "Two"), ("stop_lat", .text "1"),
    ("stop_lon", .text "1"), ("parent_station", .text "S1")]

/-- An empty parent station is looked up like any other: with nothing known, a stop whose
parent station is the empty text is dropped, and so is a stop whose parent it is, though both
are eligible. -/
theorem copyCollection_drops_stop_under_empty_parent :
    blankParentStop.cell "parent_station" = some (.text "") ∧
      blankParentChild.cell "parent_station" = some (.text blankParentStop.entityId) ∧
      (∀ r ∈ [blankParentChild, blankParentStop],
        r.Eligible memoryStart.map memoryStart.options.allowEntityErrors) ∧
      ∃ s', exec (copyCollection (MemoryFeed.source ⟨[(.stop, [blankParentChild, blankParentStop])]⟩)
          MemoryFeed.sink.logged .stop) memoryStart = (.ok (), s') ∧ s'.store.2 = [] := by
  have hcopy : (exec (copyCollection (MemoryFeed.source ⟨[(.stop, [blankParentChild, blankParentStop])]⟩)
        MemoryFeed.sink.logged .stop) memoryStart).1 = .ok () ∧
      (exec (copyCollection (MemoryFeed.source ⟨[(.stop, [blankParentChild, blankParentStop])]⟩)
        MemoryFeed.sink.logged .stop) memoryStart).2.store.2.isEmpty = true := by
    decide +kernel
  refine ⟨rfl, rfl, fun r hr => ?_, ?_⟩
  · rcases List.mem_pair.mp hr with rfl | rfl
    · exact Record.eligible_of_level_none (by decide +kernel) rfl
    · exact Record.eligible_of_level_none (by decide +kernel) rfl
  · generalize exec (copyCollection (MemoryFeed.source ⟨[(.stop, [blankParentChild, blankParentStop])]⟩)
      MemoryFeed.sink.logged .stop) memoryStart = x at hcopy
    obtain ⟨o, s'⟩ := x
    obtain ⟨rfl, hnil⟩ := hcopy
    exact ⟨s', rfl, List.isEmpty_iff.mp hnil⟩

end Copy

end Copying

end TransitFeed

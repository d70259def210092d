import TransitFeed.Proofs.Copy.Clean

/-!
# A closed, valid feed is copied collection by collection

Copied in order, a collection of a closed, valid feed finds the targets of its references
already recorded in the identifier map, save the parent stations of stops. So each of its
records is written and recorded, or, for a stop whose parent station is not copied yet,
waits. The stops that wait are retried round after round: in each round the waiting stop
whose parent is no waiting stop (there is one, since no stop is its own ancestor) finds its
parent copied and is written, so that the rounds, as many as there were waiting stops, leave
none waiting. A whole collection thus ends recorded, with nothing dropped.
-/

namespace TransitFeed

namespace Copying

variable {σ : Type} {f : MemoryFeed}

/-- The identifier of a record is recorded, if its kind has identifiers. -/
def Recorded (s : Run σ) (r : Record) : Prop :=
  r.kind.idColumn?.isSome → s.map.contains r.kind.fileName r.entityId = true

theorem Recorded.stable (r : Record) : ∀ s s' : Run σ, Recorded s r → MapGrows s s' → Recorded s' r :=
  fun _ _ h hg hid => hg _ _ (h hid)

/-- Every record of the collections copied before a kind is recorded. -/
def CopiedBefore (f : MemoryFeed) (k : Kind) (s : Run σ) : Prop :=
  ∀ t, t.index < k.index → ∀ r ∈ f.records t, Recorded s r

theorem CopiedBefore.stable (f : MemoryFeed) (k : Kind) :
    ∀ s s' : Run σ, CopiedBefore f k s → MapGrows s s' → CopiedBefore f k s' :=
  fun _ _ h hg t ht r hr => Recorded.stable r _ _ (h t ht r hr) hg

/-- The map knows at least what a given map knows. -/
def MapAbove (m : IdMap) (s : Run σ) : Prop := ∀ c o, m.contains c o = true → s.map.contains c o = true

theorem MapAbove.stable (m : IdMap) : ∀ s s' : Run σ, MapAbove m s → MapGrows s s' → MapAbove m s' :=
  fun _ _ h hg c o hc => hg c o (h c o hc)

/-- Stops waiting for their parent, each with its own identifier. -/
def Waiting (f : MemoryFeed) (d : List (Record × String)) : Prop :=
  ∀ x ∈ d, x.1 ∈ f.records .stop ∧ x.2 = x.1.entityId

/-- The stops of a list waiting for their parent: the relation between them has no cycle, so
one of them waits for none of the others. -/
theorem exists_first_waiting (hacyclic : f.StationsAcyclic) {d : List (Record × String)}
    (hne : d ≠ []) : ∃ w ∈ d, ∀ b ∈ d, ¬f.ParentOf b.1 w.1 :=
  @exists_minimal_of_acyclic _ (fun a b : Record × String => f.ParentOf a.1 b.1)
    (fun a h => hacyclic a.1 (h.lift Prod.fst fun _ _ h => h)) d hne

section Feed

variable (hkeyed : f.Keyed) (hvalid : f.Valid) (hclosed : f.Closed)
include hkeyed hvalid hclosed

/-- A record copied after every kind it may refer to has its references known, or is a stop
that waits for its parent station. -/
theorem refsKnown_or_waits {k : Kind} {r : Record} (hr : r ∈ f.records k) {s : Run σ}
    (hs : CopiedBefore f k s) : RefsKnown s.map r ∨ waitsForParent s.map r = true := by
  by_cases hw : waitsForParent s.map r = true
  · exact .inr hw
  refine .inl fun col hcol t ht hpresent => ?_
  have hk : r.kind = k := MemoryFeed.kind_of_mem_records hkeyed hr
  obtain ⟨e, he, hid⟩ := hclosed k r hr col hcol t ht hpresent
  have hek : e.kind = t := MemoryFeed.kind_of_mem_records hkeyed he
  obtain ⟨hidt, hbefore | ⟨hstop, rfl, hname⟩⟩ := Kind.target_before r.kind col hcol t ht
  · -- the target kind was copied before
    have hrec := hs t (hk ▸ hbefore) e he (hek ▸ hidt)
    rwa [hek, hid] at hrec
  · -- the parent station of a stop that does not wait is copied, or is no stop at all
    have htext : col.type = .text := Kind.type_eq_text_of_target r.kind col hcol (by simp [ht])
    cases hc : r.cell col.name with
    | none => simp [hc, Cell.present] at hpresent
    | some v =>
      have hv := (hvalid k r hr).1.admits hcol hc
      rw [htext] at hv
      cases v with
      | text p =>
        by_cases hp : p = ""
        · -- a parent named by the empty text would be a stop without identifier
          subst hp
          have hne := Record.entityId_ne_empty (hvalid .stop e he).1 (hvalid .stop e he).2 (hek ▸ hidt)
            (by rw [hek]; decide)
          simp [hid, Record.str, hc, Cell.toText, FieldValue.toText] at hne
        · cases hcont : s.map.contains Kind.stop.fileName p
          · refine absurd (waitsForParent_eq_true.mpr ⟨hstop, p, ?_, hcont⟩) hw
            simp [Record.text?, ← hname, hc, hp]
          · simpa [Record.str, hc, Cell.toText, FieldValue.toText] using hcont
      | _ => simp [FieldType.admits] at hv

/-- A record of a closed, valid feed, prepared once every kind it may refer to is copied, is
ready with its kind and identifier, or is a stop that waits for its parent station. -/
theorem prepare_record_runs {k : Kind} {r : Record} (hr : r ∈ f.records k) {F : Run σ → Prop}
    (hF : ∀ s s', F s → MapGrows s s' → F s') (hcopied : ∀ s, F s → CopiedBefore f k s) :
    Runs Smooth MapGrows F (prepare r true) fun p s =>
      ((∃ e, p = .ready e ∧ e.kind = r.kind ∧ e.entityId = r.entityId) ∨
        (p = .deferred r ∧ waitsForParent s.map r = true)) ∧ F s :=
  ((prepare_runs (hvalid k r hr).2 true).frame hF).mono
    (fun s hs => ⟨(refsKnown_or_waits hkeyed hvalid hclosed hr (hcopied s hs)).imp_right
      fun hw => ⟨rfl, hw⟩, hs⟩) fun _ _ h => h

omit hkeyed hclosed in
/-- The identifier of a record of a closed, valid feed, other than an agency's, is not empty. -/
theorem entityId_ne_empty_of_mem {k : Kind} {r : Record} (hr : r ∈ f.records k)
    (hid : r.kind.idColumn?.isSome) : r.entityId ≠ "" ∨ r.kind = .agency := by
  by_cases ha : r.kind = .agency
  · exact .inr ha
  · exact .inl (Record.entityId_ne_empty (hvalid k r hr).1 (hvalid k r hr).2 hid ha)

variable {sink : Sink σ} (hsink : sink.NeverFails)
include hsink

/-- A record of a closed, valid feed is written and recorded, or is a stop that waits. -/
theorem process_runs {k : Kind} {r : Record} (hr : r ∈ f.records k) :
    Runs Smooth MapGrows (CopiedBefore f k) (process sink r) fun w s =>
      CopiedBefore f k s ∧ ((w = [] ∧ Recorded s r) ∨ (w = [(r, r.entityId)] ∧ r.kind = .stop)) := by
  have hstable := CopiedBefore.stable (σ := σ) f k
  unfold process
  refine ((filterStages_runs r).frame_of hstable).bind fun r' => Runs.of_fact fun hr' => ?_
  subst r'
  refine ((expandStages_runs r).frame_of hstable).bind fun outs => Runs.of_fact fun hout => ?_
  subst outs
  rw [settle]
  refine (prepare_record_runs hkeyed hvalid hclosed hr hstable fun _ h => h).bind fun p => ?_
  have hsource : (if (r.kind = r.kind && r.entityId == r.entityId) = true then r.entityId
      else r.entityId) = r.entityId := by simp
  dsimp only
  rw [hsource]
  cases p with
  | ready e =>
    -- a ready record is written under its own identifier, which is then recorded
    dsimp only
    refine Runs.of_pre (φ := e.kind = r.kind ∧ e.entityId = r.entityId) (fun s h => by simpa using h.1)
      fun hsame => ?_
    have hek := hsame.1
    refine (((write_runs hsink e r.entityId).frame_of hstable).bind fun _ => ?_).mono
      (fun s h => h.2) fun _ _ h => h
    simp only [pure_bind, settle]
    refine Runs.pure _ fun s h => ⟨h.2, .inl ⟨rfl, fun hid => ?_⟩⟩
    rw [← hek] at hid ⊢
    refine h.1 hid ?_
    rw [hek] at hid ⊢
    exact entityId_ne_empty_of_mem hvalid hr hid
  | deferred e =>
    -- a stop whose parent is not copied yet waits
    dsimp only
    refine Runs.of_pre (φ := e = r) (fun s h => by simp at h; exact h.1.1) fun hen => ?_
    subst e
    simp only [pure_bind, settle]
    refine Runs.pure _ fun s hs => ⟨hs.2, .inr ⟨rfl, ?_⟩⟩
    simp at hs
    exact (waitsForParent_eq_true.mp hs.1).1
  | rejected => exact fun s _ h => by simp at h

/-- Copying records of a collection writes and records each of them, or keeps it waiting when
it is a stop, with its own identifier. -/
theorem copyItems_runs {k : Kind} (st : Stream) : ∀ (i : Nat) (rs : List Record),
    (∀ r ∈ rs, r ∈ f.records k) →
    Runs Smooth MapGrows (CopiedBefore f k) (copyItems sink k st i (rs.map .ok)) fun w s =>
      CopiedBefore f k s ∧ (∀ x ∈ w, x.1 ∈ rs ∧ x.1.kind = .stop ∧ x.2 = x.1.entityId) ∧
        ∀ r ∈ rs, Recorded s r ∨ (r, r.entityId) ∈ w
  | _, [], _ => Runs.pure [] fun _ h => ⟨h, by simp, by simp⟩
  | i, r :: rest, hrs => by
    have hstable := CopiedBefore.stable (σ := σ) f k
    simp only [List.map_cons, copyItems]
    refine ((countRead_runs k).frame_of hstable).bind fun _ => ?_
    refine ((Runs.guarded (process_runs hkeyed hvalid hclosed hsink (hrs r List.mem_cons_self)) st
      (i + 1)).mono (fun _ h => h.2) fun _ _ h => h).bind fun w => ?_
    -- what waits from this record is the record itself, and it is recorded otherwise
    refine (Runs.of_pre (φ := ∀ x ∈ w, x = (r, r.entityId) ∧ r.kind = .stop)
      (fun s h => by rcases h.2 with ⟨rfl, -⟩ | ⟨rfl, hk⟩ <;> simp [*]) fun hw => ?_)
    have hdone : ∀ s s' : Run σ, (Recorded s r ∨ (r, r.entityId) ∈ w) → MapGrows s s' →
        Recorded s' r ∨ (r, r.entityId) ∈ w :=
      fun s s' h hg => h.imp_left fun hr => Recorded.stable r s s' hr hg
    refine ((((copyItems_runs st (i + 1) rest fun x hx => hrs x (List.mem_cons_of_mem _ hx)).frame
      hdone).mono (fun s h => ⟨h.1, ?_⟩) fun _ _ h => h).bind fun l => ?_)
    · rcases h.2 with ⟨rfl, hrec⟩ | ⟨rfl, -⟩
      · exact .inl hrec
      · exact .inr List.mem_cons_self
    · refine Runs.pure _ fun s ⟨⟨hs, hl, hcov⟩, hr⟩ => ⟨hs, fun x hx => ?_, fun r' hr' => ?_⟩
      · rcases List.mem_append.mp hx with hx | hx
        · obtain ⟨rfl, hk⟩ := hw x hx
          exact ⟨List.mem_cons_self, hk, rfl⟩
        · obtain ⟨hmem, hk, hid⟩ := hl x hx
          exact ⟨List.mem_cons_of_mem _ hmem, hk, hid⟩
      · rcases List.mem_cons.mp hr' with rfl | hr'
        · exact hr.imp_right fun h => List.mem_append_left _ h
        · exact (hcov r' hr').imp_right fun h => List.mem_append_right _ h

/-- A round of retries writes and records every waiting stop whose parent is copied by now;
the stops it leaves waiting, in order, waited already when the round began. -/
theorem retryOnce_runs (m₀ : IdMap) : ∀ d : List (Record × String), Waiting f d →
    Runs Smooth MapGrows (fun s => CopiedBefore f .stop s ∧ MapAbove m₀ s) (retryOnce sink d)
      fun pending s => (CopiedBefore f .stop s ∧ MapAbove m₀ s) ∧ pending.Sublist d ∧
        (∀ x ∈ d, x ∈ pending ∨ Recorded s x.1) ∧ ∀ x ∈ pending, waitsForParent m₀ x.1 = true
  | [], _ => Runs.pure [] fun _ h => ⟨h, List.Sublist.slnil, by simp, by simp⟩
  | (e, oldId) :: rest, hd => by
    obtain ⟨he, hid⟩ : e ∈ f.records .stop ∧ oldId = e.entityId := hd _ List.mem_cons_self
    have hF : ∀ s s' : Run σ, CopiedBefore f .stop s ∧ MapAbove m₀ s → MapGrows s s' →
        CopiedBefore f .stop s' ∧ MapAbove m₀ s' :=
      fun s s' h hg => ⟨CopiedBefore.stable f _ s s' h.1 hg, MapAbove.stable m₀ s s' h.2 hg⟩
    -- the stops after this one, once this one is written or kept waiting
    have tail : ∀ w : List (Record × String), w.Sublist [(e, oldId)] →
        (∀ x ∈ w, waitsForParent m₀ x.1 = true) →
        Runs Smooth MapGrows
          (fun s => (CopiedBefore f .stop s ∧ MapAbove m₀ s) ∧ (Recorded s e ∨ (e, oldId) ∈ w))
          (retryOnce sink rest >>= fun l => pure (w ++ l)) fun pending s =>
            (CopiedBefore f .stop s ∧ MapAbove m₀ s) ∧ pending.Sublist ((e, oldId) :: rest) ∧
              (∀ x ∈ (e, oldId) :: rest, x ∈ pending ∨ Recorded s x.1) ∧
              ∀ x ∈ pending, waitsForParent m₀ x.1 = true := by
      intro w hsub hwait
      have hdone : ∀ s s' : Run σ, (Recorded s e ∨ (e, oldId) ∈ w) → MapGrows s s' →
          Recorded s' e ∨ (e, oldId) ∈ w :=
        fun s s' h hg => h.imp_left fun hr => Recorded.stable e s s' hr hg
      refine ((retryOnce_runs m₀ rest fun x hx => hd x (List.mem_cons_of_mem _ hx)).frame hdone).bind
        fun l => Runs.pure _ fun s h => ⟨h.1.1, hsub.append h.1.2.1, ?_, ?_⟩
      · obtain ⟨⟨-, -, hcov, -⟩, hthis⟩ := h
        intro x hx
        rcases List.mem_cons.mp hx with rfl | hx
        · exact hthis.symm.imp_left fun h => List.mem_append_left _ h
        · exact (hcov x hx).imp_left fun h => List.mem_append_right _ h
      · obtain ⟨⟨-, -, -, hwl⟩, -⟩ := h
        intro x hx
        rcases List.mem_append.mp hx with hx | hx
        · exact hwait x hx
        · exact hwl x hx
    rw [retryOnce]
    refine (prepare_record_runs hkeyed hvalid hclosed he hF fun _ h => h.1).bind fun p => ?_
    cases p with
    | ready e' =>
      -- a stop whose parent is copied by now is written under its identifier, and recorded
      dsimp only
      refine Runs.of_pre (φ := e'.kind = e.kind ∧ e'.entityId = e.entityId) (fun s h => by simpa using h.1)
        fun hsame => ?_
      have hek := hsame.1
      refine ((((write_runs hsink e' oldId).frame_of hF).mono (fun s h => h.2) fun _ _ h => h).bind
        fun _ => ?_)
      simp only [pure_bind]
      refine (tail [] (List.nil_sublist _) (by simp)).mono (fun s h => ⟨h.2, .inl ?_⟩)
        fun _ _ h => h
      intro hidk
      rw [← hek] at hidk
      have hrec' := h.1 hidk
      rw [hek, hid] at hrec'
      rw [hek] at hidk
      exact hrec' (entityId_ne_empty_of_mem hvalid he hidk)
    | deferred e' =>
      -- a stop whose parent is still not copied waited already when the round began
      dsimp only
      refine Runs.of_pre (φ := e' = e ∧ waitsForParent m₀ e = true) (fun s h => ?_) fun hwaits => ?_
      · simp only [Prepared.deferred.injEq, reduceCtorEq, false_and, exists_false, false_or] at h
        exact ⟨h.1.1, waitsForParent_of_le h.2.2 h.1.2⟩
      obtain ⟨hen, hw⟩ := hwaits
      subst e'
      simp only [pure_bind]
      exact (tail [(e, oldId)] (List.Sublist.refl _) (by simpa using hw)).mono
        (fun s h => ⟨h.2, .inr List.mem_cons_self⟩) fun _ _ h => h
    | rejected => exact fun s _ h => by simp at h

omit hvalid hsink in
/-- A waiting stop whose parent station is no waiting stop finds its parent recorded, and waits
no more. -/
theorem not_waits_of_minimal {s : Run σ} {d : List (Record × String)} (hd : Waiting f d)
    (hcov : ∀ r ∈ f.records .stop, Recorded s r ∨ (r, r.entityId) ∈ d) {w : Record × String}
    (hw : w ∈ d) (hmin : ∀ b ∈ d, ¬f.ParentOf b.1 w.1) : waitsForParent s.map w.1 = false := by
  cases hwait : waitsForParent s.map w.1
  · rfl
  obtain ⟨-, p, hp, hcont⟩ := waitsForParent_eq_true.mp hwait
  obtain ⟨hws, -⟩ := hd w hw
  obtain ⟨hcell, hne⟩ := Record.text?_eq_some.mp hp
  -- the parent station names a stop of the feed
  obtain ⟨col, hcol, hname, htarget⟩ := Kind.stop_parent_column
  have hk : w.1.kind = .stop := MemoryFeed.kind_of_mem_records hkeyed hws
  have hpresent : Cell.present col.optional (w.1.cell col.name) = true := by
    simp [hname, hcell, Cell.present, FieldValue.present, hne]
  obtain ⟨e, he, heid⟩ := hclosed .stop w.1 hws col (hk ▸ hcol) .stop htarget hpresent
  have hstr : w.1.str col.name = p := by simp [Record.str, hname, hcell, Cell.toText, FieldValue.toText]
  -- that stop is no waiting stop, so it is recorded
  have hparent : f.ParentOf e w.1 := ⟨he, hws, by rw [hp, heid, hstr]⟩
  have hrec := (hcov e he).resolve_right fun hin => hmin _ hin hparent
  have hek : e.kind = .stop := MemoryFeed.kind_of_mem_records hkeyed he
  have hcontains := hrec (by rw [hek]; rfl)
  rw [hek, heid, hstr] at hcontains
  rw [hcontains] at hcont
  cases hcont

/-- The rounds of retries leave no stop waiting when each round may lose one waiting stop:
every round writes one, so fewer rounds than waiting stops plus one suffice. -/
theorem loop_runs (hacyclic : f.StationsAcyclic) : ∀ (fuel : Nat) (d : List (Record × String)),
    Waiting f d → d.length < fuel →
    Runs Smooth MapGrows
      (fun s => CopiedBefore f .stop s ∧ ∀ r ∈ f.records .stop, Recorded s r ∨ (r, r.entityId) ∈ d)
      (retryDeferred.loop sink d fuel) fun left s =>
        left = [] ∧ CopiedBefore f .stop s ∧ ∀ r ∈ f.records .stop, Recorded s r
  | 0, _, _, hlt => absurd hlt (Nat.not_lt_zero _)
  | fuel + 1, d, hd, hlt => by
    rw [retryDeferred.loop]
    split
    · -- nothing waits
      rename_i hempty
      obtain rfl : d = [] := List.isEmpty_iff.mp hempty
      exact Runs.pure [] fun s h => ⟨rfl, h.1, fun r hr => (h.2 r hr).resolve_right (by simp)⟩
    rename_i hempty
    intro s hi hpre
    obtain ⟨hs, hcov⟩ := hpre
    -- a round from here moves the stop that waits for no other waiting stop
    obtain ⟨pending, s₁, hround, hi₁, hg₁, ⟨hs₁, -⟩, hsub, hdone, hwaited⟩ :=
      retryOnce_runs hkeyed hvalid hclosed hsink s.map d hd s hi ⟨hs, fun _ _ h => h⟩
    obtain ⟨w, hw, hmin⟩ := exists_first_waiting hacyclic (by simpa using hempty)
    have hmoved : w ∉ pending := fun hin => by
      have hstill := hwaited w hin
      rw [not_waits_of_minimal hkeyed hclosed hd hcov hw hmin] at hstill
      cases hstill
    have hshorter : pending.length < d.length :=
      Nat.lt_of_le_of_ne hsub.length_le fun h => hmoved ((hsub.eq_of_length h) ▸ hw)
    have hcov₁ : ∀ r ∈ f.records .stop, Recorded s₁ r ∨ (r, r.entityId) ∈ pending := fun r hr =>
      ((hcov r hr).imp_left fun hrec => Recorded.stable r s s₁ hrec hg₁).elim .inl
        fun hin => (hdone _ hin).symm
    have hnext : Runs Smooth MapGrows
        (fun s => CopiedBefore f .stop s ∧ ∀ r ∈ f.records .stop, Recorded s r ∨ (r, r.entityId) ∈ pending)
        (if (pending.isEmpty || pending.length == d.length) = true then pure pending
          else retryDeferred.loop sink pending fuel) fun left s =>
            left = [] ∧ CopiedBefore f .stop s ∧ ∀ r ∈ f.records .stop, Recorded s r := by
      split
      · rename_i hstop
        have hnil : pending = [] := by
          simp only [Bool.or_eq_true, List.isEmpty_iff, beq_iff_eq] at hstop
          exact hstop.resolve_right (Nat.ne_of_lt hshorter)
        subst hnil
        exact Runs.pure [] fun s h => ⟨rfl, h.1, fun r hr => (h.2 r hr).resolve_right (by simp)⟩
      · exact loop_runs hacyclic fuel pending (fun x hx => hd x (hsub.subset hx)) (by omega)
    obtain ⟨left, s₂, hrest, hi₂, hg₂, hpost⟩ := hnext s₁ hi₁ ⟨hs₁, hcov₁⟩
    exact ⟨left, s₂, by rw [exec_bind_of_ok hround, hrest], hi₂, trans_of MapGrows hg₁ hg₂, hpost⟩

/-- Retrying the stops that wait leaves every stop recorded. -/
theorem retryDeferred_runs (hacyclic : f.StationsAcyclic) (d : List (Record × String))
    (hd : Waiting f d) :
    Runs Smooth MapGrows
      (fun s => CopiedBefore f .stop s ∧ ∀ r ∈ f.records .stop, Recorded s r ∨ (r, r.entityId) ∈ d)
      (retryDeferred sink d) fun _ s => CopiedBefore f .stop s ∧ ∀ r ∈ f.records .stop, Recorded s r := by
  unfold retryDeferred
  refine (loop_runs hkeyed hvalid hclosed hsink hacyclic _ d hd (Nat.lt_succ_self _)).bind
    fun left => Runs.of_fact fun hleft => ?_
  -- nothing is left for the last pass
  subst hleft
  simp only [List.forIn_nil]
  exact Runs.pure _ fun _ h => h

/-- A collection other than stop times, copied once every kind it may refer to is, ends with
each of its records recorded. -/
theorem copyCollection_runs (hacyclic : f.StationsAcyclic) (k : Kind) :
    Runs Smooth MapGrows (CopiedBefore f k) (copyCollection f.source sink k) fun _ s =>
      CopiedBefore f k s ∧ ∀ r ∈ f.records k, Recorded s r := by
  unfold copyCollection
  cases hlookup : f.collections.lookup k with
  | none =>
    -- a collection the feed does not have is skipped
    have hread : f.source.read k = .ok none := by simp [MemoryFeed.source, hlookup]
    have hnone : f.records k = [] := by simp [MemoryFeed.records, hlookup]
    rw [hread]
    exact Runs.pure () fun _ h => ⟨h, by simp [hnone]⟩
  | some rs =>
    have hread : f.source.read k = .ok (some { items := rs.map .ok }) := by
      simp [MemoryFeed.source, hlookup]
    have hrs : f.records k = rs := by simp [MemoryFeed.records, hlookup]
    rw [hread]
    dsimp only
    refine (copyItems_runs hkeyed hvalid hclosed hsink _ 0 rs fun r hr => hrs ▸ hr).bind
      fun w => ?_
    refine Runs.of_pre (φ := ∀ x ∈ w, x.1 ∈ rs ∧ x.1.kind = .stop ∧ x.2 = x.1.entityId)
      (fun _ h => h.2.1) fun hw => ?_
    refine (Runs.finish rfl).bind fun _ => ?_
    by_cases hk : k = .stop
    · -- the stops that wait are retried
      subst hk
      exact (retryDeferred_runs hkeyed hvalid hclosed hsink hacyclic w
        fun x hx => ⟨hrs ▸ (hw x hx).1, (hw x hx).2.2⟩).mono
          (fun _ h => ⟨h.1, hrs ▸ h.2.2⟩) fun _ _ h => ⟨h.1, hrs ▸ h.2⟩
    · -- only stops wait, so nothing waits in another collection
      have hnil : w = [] := List.eq_nil_iff_forall_not_mem.mpr fun x hx =>
        hk ((MemoryFeed.kind_of_mem_records hkeyed (hrs ▸ (hw x hx).1)).symm.trans (hw x hx).2.1)
      subst hnil
      exact Runs.of_exec_eq fun _ _ h =>
        ⟨(), rfl, h.1, fun r hr => (h.2.2 r (hrs ▸ hr)).resolve_right (by simp)⟩

end Feed

end Copying

end TransitFeed

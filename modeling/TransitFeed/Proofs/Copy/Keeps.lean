import Mathlib.Order.Defs.Unbundled
import TransitFeed.Proofs.Copy.Steps

/-!
# What a step of a copy keeps, whatever its outcome

A copy can end with an error at almost every step, and the state it ends in is handed back.
To say what holds of that state too, a step is specified by `Keeps I R P x Q`: run from a
state satisfying the invariant `I` and the precondition `P`, the step `x` ends, normally or
not, in a state satisfying `I` and related by `R` to the state it started from; when it ends
normally, its value satisfies `Q` in the final state. The relation is a preorder, such as
"the destination only grew", so that facts stable under it survive later steps.

Specifications compose along the monad: sequencing, branches, handlers and loops over lists.
A write is specified by what it does once the destination accepts it.
-/

namespace TransitFeed

namespace Copying

variable {σ : Type} (I : Run σ → Prop) (R : Run σ → Run σ → Prop)

/-- Run from a state satisfying `I` and `P`, the step `x` ends, normally or not, in a state
satisfying `I` and related by `R` to the start; when it ends normally, its value satisfies `Q`
in the final state. -/
def Keeps {α : Type} (P : Run σ → Prop) (x : Copying σ α) (Q : α → Run σ → Prop) : Prop :=
  ∀ s, I s → P s → I (exec x s).2 ∧ R s (exec x s).2 ∧ ∀ a, (exec x s).1 = .ok a → Q a (exec x s).2

variable {I R} {α β : Type} {P P' : Run σ → Prop} {Q Q' : α → Run σ → Prop}

namespace Keeps

theorem mono {x : Copying σ α} (h : Keeps I R P x Q) (hP : ∀ s, P' s → P s)
    (hQ : ∀ a s, Q a s → Q' a s) : Keeps I R P' x Q' := fun s hi hp =>
  let ⟨hi', hr, hq⟩ := h s hi (hP s hp)
  ⟨hi', hr, fun a ha => hQ a _ (hq a ha)⟩

/-- A fact that the relation carries along holds after the step as before it. -/
theorem frame {F : Run σ → Prop} (hF : ∀ s s', F s → R s s' → F s') {x : Copying σ α}
    (h : Keeps I R P x Q) : Keeps I R (fun s => P s ∧ F s) x (fun a s => Q a s ∧ F s) :=
  fun s hi ⟨hp, hf⟩ =>
    let ⟨hi', hr, hq⟩ := h s hi hp
    ⟨hi', hr, fun a ha => ⟨hq a ha, hF s _ hf hr⟩⟩

/-- A fact that the relation carries along holds after a step without precondition. -/
theorem frame_of {F : Run σ → Prop} (hF : ∀ s s', F s → R s s' → F s') {x : Copying σ α}
    (h : Keeps I R (fun _ => True) x Q) : Keeps I R F x fun a s => Q a s ∧ F s :=
  (h.frame hF).mono (fun _ hf => ⟨trivial, hf⟩) fun _ _ h => h

/-- A precondition that does not depend on the state is a hypothesis. -/
theorem of_fact {φ : Prop} {x : Copying σ α} (h : φ → Keeps I R (fun _ => True) x Q) :
    Keeps I R (fun _ => φ) x Q :=
  fun s hi hφ => h hφ s hi trivial

/-- A fact of a precondition that does not depend on the state is a hypothesis. -/
theorem of_fact_and {φ : Prop} {x : Copying σ α} (h : φ → Keeps I R P x Q) :
    Keeps I R (fun s => φ ∧ P s) x Q := fun s hi hp =>
  h hp.1 s hi hp.2

/-- A step is specified from each state of its precondition in turn. -/
theorem of_start {x : Copying σ α} (h : ∀ s₀, P s₀ → Keeps I R (fun s => s = s₀) x Q) :
    Keeps I R P x Q := fun s hi hp =>
  h s hp s hi rfl

/-- A step specified with a finer relation between states is specified with a coarser one. -/
theorem coarsen {R' : Run σ → Run σ → Prop} {x : Copying σ α} (h : Keeps I R P x Q)
    (hR : ∀ s s', R s s' → R' s s') : Keeps I R' P x Q := fun s hi hp =>
  let ⟨hi', hr, hq⟩ := h s hi hp
  ⟨hi', hR _ _ hr, hq⟩

variable [IsPreorder (Run σ) R]

/-- A step that leaves the state as it is. -/
theorem of_exec_eq {x : Copying σ α} (h : ∀ s, I s → P s → (exec x s).2 = s ∧
    ∀ a, (exec x s).1 = .ok a → Q a s) : Keeps I R P x Q := by
  intro s hi hp
  obtain ⟨hs, hq⟩ := h s hi hp
  rw [hs]
  exact ⟨hi, refl_of R s, hq⟩

theorem pure (a : α) (h : ∀ s, P s → Q a s) : Keeps I R P (pure a : Copying σ α) Q :=
  of_exec_eq fun s _ hp => ⟨rfl, fun b hb => by cases hb; exact h s hp⟩

theorem get : Keeps I R P (get : Copying σ (Run σ)) fun a s => a = s ∧ P s :=
  of_exec_eq fun _ _ hp => ⟨rfl, fun _ ha => by cases ha; exact ⟨rfl, hp⟩⟩

theorem throw (e : FeedError) : Keeps I R P (throw e : Copying σ α) Q :=
  of_exec_eq fun _ _ _ => ⟨rfl, fun _ hb => by cases hb⟩

theorem bind {x : Copying σ α} {f : α → Copying σ β} {Q₁ : α → Run σ → Prop}
    {Q : β → Run σ → Prop} (hx : Keeps I R P x Q₁) (hf : ∀ a, Keeps I R (Q₁ a) (f a) Q) :
    Keeps I R P (x >>= f) Q := by
  intro s hi hp
  obtain ⟨hi₁, hr₁, hq₁⟩ := hx s hi hp
  rw [exec_bind]
  revert hi₁ hr₁ hq₁
  rcases exec x s with ⟨_ | a, s₁⟩
  · intro hi₁ hr₁ _
    exact ⟨hi₁, hr₁, fun _ hb => by cases hb⟩
  · intro hi₁ hr₁ hq₁
    obtain ⟨hi₂, hr₂, hq₂⟩ := hf a s₁ hi₁ (hq₁ a rfl)
    exact ⟨hi₂, trans_of R hr₁ hr₂, hq₂⟩

/-- A handler that runs from wherever the step failed. -/
theorem tryCatch {x : Copying σ α} {handle : FeedError → Copying σ α} (hx : Keeps I R P x Q)
    (hh : ∀ e, Keeps I R (fun _ => True) (handle e) Q) : Keeps I R P (tryCatch x handle) Q := by
  intro s hi hp
  obtain ⟨hi₁, hr₁, hq₁⟩ := hx s hi hp
  rw [exec_tryCatch]
  revert hi₁ hr₁ hq₁
  rcases exec x s with ⟨e | a, s₁⟩
  · intro hi₁ hr₁ _
    obtain ⟨hi₂, hr₂, hq₂⟩ := hh e s₁ hi₁ trivial
    exact ⟨hi₂, trans_of R hr₁ hr₂, hq₂⟩
  · intro hi₁ hr₁ hq₁
    exact ⟨hi₁, hr₁, hq₁⟩

/-- A loop over a list keeps an invariant of its accumulator that every turn keeps. -/
theorem forIn {xs : List α} {f : α → β → Copying σ (ForInStep β)} (Inv : β → Run σ → Prop)
    (hf : ∀ a ∈ xs, ∀ b, Keeps I R (Inv b) (f a b) fun r s => Inv r.value s) (b : β) :
    Keeps I R (Inv b) (forIn xs b f) Inv := by
  induction xs generalizing b with
  | nil => exact pure b fun _ h => h
  | cons a as ih =>
    rw [List.forIn_cons]
    refine bind (hf a List.mem_cons_self b) fun step => ?_
    cases step with
    | done b' => exact pure b' fun _ h => h
    | yield b' => exact ih (fun x hx => hf x (List.mem_cons_of_mem _ hx)) b'

/-- An error of a step over a stream gives way to the stream's own error, from the same
state. -/
theorem guarded {step : Copying σ α} (h : Keeps I R P step Q) (st : Stream) (position : Nat) :
    Keeps I R P (Copying.guarded st position step) Q := by
  unfold Copying.guarded
  refine h.tryCatch fun e => ?_
  split
  · exact get.bind fun _ => by split <;> exact throw _
  · exact throw _

theorem finish (st : Stream) : Keeps I R P (Copying.finish st) fun _ => P := by
  unfold Copying.finish
  split
  · exact throw _
  · exact pure () fun _ h => h

/-- Writing a record keeps what every write the destination accepts keeps: a record it
refuses leaves the state as it was. -/
theorem write {sink : Sink σ} {e : Record} {oldId : String} {Q : Unit → Run σ → Prop}
    (h : ∀ s store newId, I s → P s → sink.add s.store e = .ok (store, newId) →
      I (written s e oldId newId store) ∧ R s (written s e oldId newId store) ∧
        Q () (written s e oldId newId store)) :
    Keeps I R P (Copying.write sink e oldId) Q := by
  intro s hi hp
  rw [exec_write]
  cases hadd : sink.add s.store e with
  | error err => exact ⟨hi, refl_of R s, fun _ ha => by cases ha⟩
  | ok accepted =>
    obtain ⟨store, newId⟩ := accepted
    obtain ⟨hi', hr, hq⟩ := h s store newId hi hp hadd
    exact ⟨hi', hr, fun _ _ => hq⟩

/-- Writing a batch keeps what every batch the destination accepts keeps: an empty batch, or
one it refuses, leaves the state as it was. -/
theorem flush {sink : Sink σ} {batch : List Record}
    (h : ∀ s store (ids : List String), I s → P s → sink.addAll s.store batch = .ok (store, ids) →
      I { s with
          store := store
          reports := updateReport .stopTime (fun c => { c with written := c.written + ids.length }) s.reports } ∧
        R s { s with
          store := store
          reports := updateReport .stopTime (fun c => { c with written := c.written + ids.length }) s.reports }) :
    Keeps I R P (Copying.flush sink batch) fun _ _ => True := by
  intro s hi hp
  rw [exec_flush]
  split
  · exact ⟨hi, refl_of R s, fun _ _ => trivial⟩
  cases hadd : sink.addAll s.store batch with
  | error err => exact ⟨hi, refl_of R s, fun _ ha => by cases ha⟩
  | ok accepted =>
    obtain ⟨store, ids⟩ := accepted
    obtain ⟨hi', hr⟩ := h s store ids hi hp hadd
    exact ⟨hi', hr, fun _ _ => trivial⟩

/-! ### The outer steps of a copy

Each keeps what its parts keep, whatever the invariant and whatever fact `F` of the state
the parts carry along.
-/

section Outer

variable {F : Run σ → Prop} {source : Source} {sink : Sink σ}

/-- Copying a collection keeps what copying its items keeps, ending with some fact `W` of what
waits, and what retrying what waits keeps from `W`. -/
theorem copyCollection {k : Kind} {W : List (Record × String) → Run σ → Prop}
    (hitems : ∀ st, source.read k = .ok (some st) → Keeps I R F (copyItems sink k st 0 st.items) W)
    (hretry : ∀ waiting, Keeps I R (W waiting) (retryDeferred sink waiting) fun _ => F) :
    Keeps I R F (Copying.copyCollection source sink k) fun _ => F := by
  unfold Copying.copyCollection
  split
  · exact throw _
  · exact pure _ fun _ h => h
  · rename_i st hread
    exact (hitems st hread).bind fun waiting => (finish st).bind fun _ => hretry waiting

/-- The pass over the stop times keeps what copying a batch of trips and dropping the stop
times of the other trips keep. -/
theorem copyStopTimes
    (hchunk : ∀ batchSize chunk, Keeps I R F (copyChunk source sink batchSize chunk) fun _ => F)
    (horphans : ∀ trips, Keeps I R F (rejectOrphans source trips) fun _ => F) :
    Keeps I R F (Copying.copyStopTimes source sink) fun _ => F := by
  unfold Copying.copyStopTimes
  refine get.bind fun _ => ?_
  refine mono ?_ (fun _ h => h.2) fun _ _ h => h
  dsimp only
  refine (forIn (fun _ s => F s) (fun chunk _ _ => ?_) (none, ())).bind fun r => ?_
  · refine (hchunk _ chunk).bind fun _ => ?_
    split <;> exact pure _ fun _ h => h
  · -- the loop ended early, with no stop times for a batch, or goes on to the orphans
    split
    · exact pure _ fun _ h => h
    · exact horphans _

/-- A whole copy keeps what the pass over the stop times and the copy of every other collection
keep. -/
theorem copyAll (hstops : Keeps I R F (Copying.copyStopTimes source sink) fun _ => F)
    (hcollection : ∀ k, Keeps I R F (Copying.copyCollection source sink k) fun _ => F) :
    Keeps I R F (Copying.copyAll source sink) fun _ => F := by
  unfold Copying.copyAll
  refine (forIn (fun _ s => F s) (fun k _ _ => ?_) ()).bind fun _ => pure _ fun _ h => h
  split
  · exact hstops.bind fun _ => pure _ fun _ h => h
  · exact (hcollection k).bind fun _ => pure _ fun _ h => h

end Outer

end Keeps

end Copying

end TransitFeed

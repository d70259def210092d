import Mathlib.Order.Defs.Unbundled
import TransitFeed.Proofs.Copy.Collection

/-!
# Steps of a copy that end normally

Beside `Keeps`, which says what holds however a step ends, `Runs I R P x Q` says that the
step ends normally: run from a state satisfying the invariant `I` and the precondition `P`,
the step `x` gives a value and ends in a state satisfying `I`, related by the preorder `R` to
the state it started from, where the value satisfies `Q`. This is what a proof that a copy
succeeds is made of; its rules mirror those of `Keeps`.
-/

namespace TransitFeed

namespace Copying

variable {σ : Type} (I : Run σ → Prop) (R : Run σ → Run σ → Prop)

/-- Run from a state satisfying `I` and `P`, the step `x` ends normally, in a state satisfying
`I` and related by `R` to the start, with a value satisfying `Q` there. -/
def Runs {α : Type} (P : Run σ → Prop) (x : Copying σ α) (Q : α → Run σ → Prop) : Prop :=
  ∀ s, I s → P s → ∃ a s', exec x s = (.ok a, s') ∧ I s' ∧ R s s' ∧ Q a s'

variable {I R} {α β : Type} {P P' : Run σ → Prop} {Q Q' : α → Run σ → Prop}

namespace Runs

theorem mono {x : Copying σ α} (h : Runs I R P x Q) (hP : ∀ s, P' s → P s)
    (hQ : ∀ a s, Q a s → Q' a s) : Runs I R P' x Q' := fun s hi hp =>
  let ⟨a, s', hx, hi', hr, hq⟩ := h s hi (hP s hp)
  ⟨a, s', hx, hi', hr, hQ a s' hq⟩

/-- A fact that the relation carries along holds after the step as before it. -/
theorem frame {F : Run σ → Prop} (hF : ∀ s s', F s → R s s' → F s') {x : Copying σ α}
    (h : Runs I R P x Q) : Runs I R (fun s => P s ∧ F s) x (fun a s => Q a s ∧ F s) :=
  fun s hi ⟨hp, hf⟩ =>
    let ⟨a, s', hx, hi', hr, hq⟩ := h s hi hp
    ⟨a, s', hx, hi', hr, hq, hF s s' hf hr⟩

/-- A fact that the relation carries along holds after a step without precondition. -/
theorem frame_of {F : Run σ → Prop} (hF : ∀ s s', F s → R s s' → F s') {x : Copying σ α}
    (h : Runs I R (fun _ => True) x Q) : Runs I R F x fun a s => Q a s ∧ F s :=
  (h.frame hF).mono (fun _ hf => ⟨trivial, hf⟩) fun _ _ h => h

/-- A fact that every state satisfying the precondition gives is a hypothesis. -/
theorem of_pre {φ : Prop} {x : Copying σ α} (hφ : ∀ s, P s → φ) (h : φ → Runs I R P x Q) :
    Runs I R P x Q :=
  fun s hi hp => h (hφ s hp) s hi hp

/-- A precondition that does not depend on the state is a hypothesis. -/
theorem of_fact {φ : Prop} {x : Copying σ α} (h : φ → Runs I R P x Q) :
    Runs I R (fun s => φ ∧ P s) x Q :=
  fun s hi ⟨hφ, hp⟩ => h hφ s hi hp

/-- A step over a stream that ends normally is not touched by the stream's error. -/
theorem guarded {step : Copying σ α} (h : Runs I R P step Q) (st : Stream) (position : Nat) :
    Runs I R P (Copying.guarded st position step) Q := fun s hi hp =>
  let ⟨a, s', hx, hi', hr, hq⟩ := h s hi hp
  ⟨a, s', (exec_guarded_eq_ok st position step s s' a).mpr hx, hi', hr, hq⟩

variable [IsPreorder (Run σ) R]

/-- A step that ends normally where it started. -/
theorem of_exec_eq {x : Copying σ α} (h : ∀ s, I s → P s → ∃ a, exec x s = (.ok a, s) ∧ Q a s) :
    Runs I R P x Q := fun s hi hp =>
  let ⟨a, hx, hq⟩ := h s hi hp
  ⟨a, s, hx, hi, refl_of R s, hq⟩

theorem pure (a : α) (h : ∀ s, P s → Q a s) : Runs I R P (pure a : Copying σ α) Q :=
  of_exec_eq fun s _ hp => ⟨a, rfl, h s hp⟩

theorem get : Runs I R P (get : Copying σ (Run σ)) fun a s => a = s ∧ P s :=
  of_exec_eq fun s _ hp => ⟨s, rfl, rfl, hp⟩

theorem bind {x : Copying σ α} {f : α → Copying σ β} {Q₁ : α → Run σ → Prop}
    {Q : β → Run σ → Prop} (hx : Runs I R P x Q₁) (hf : ∀ a, Runs I R (Q₁ a) (f a) Q) :
    Runs I R P (x >>= f) Q := fun s hi hp =>
  let ⟨a, s₁, hx₁, hi₁, hr₁, hq₁⟩ := hx s hi hp
  let ⟨b, s₂, hf₂, hi₂, hr₂, hq₂⟩ := hf a s₁ hi₁ hq₁
  ⟨b, s₂, by rw [exec_bind_of_ok hx₁, hf₂], hi₂, trans_of R hr₁ hr₂, hq₂⟩

/-- A loop over a list ends normally when every turn does, keeping an invariant that knows the
elements still to come: a turn that stops the loop leaves none. -/
theorem forIn_suffix {xs : List α} {f : α → β → Copying σ (ForInStep β)}
    (Inv : List α → β → Run σ → Prop)
    (hf : ∀ a rest, a :: rest <:+ xs → ∀ b, Runs I R (Inv (a :: rest) b) (f a b) fun r s =>
      match r with
      | .done b' => Inv [] b' s
      | .yield b' => Inv rest b' s)
    (b : β) : Runs I R (Inv xs b) (forIn xs b f) (Inv []) := by
  induction xs generalizing b with
  | nil => exact pure b fun _ h => h
  | cons a as ih =>
    rw [List.forIn_cons]
    refine bind (hf a as List.suffix_rfl b) fun step => ?_
    cases step with
    | done b' => exact pure b' fun _ h => h
    | yield b' =>
      exact ih (fun x rest hx => hf x rest (hx.trans (List.suffix_cons a as))) b'

/-- A loop over a list ends normally when every turn does, keeping an invariant of its
accumulator. -/
theorem forIn {xs : List α} {f : α → β → Copying σ (ForInStep β)} (Inv : β → Run σ → Prop)
    (hf : ∀ a ∈ xs, ∀ b, Runs I R (Inv b) (f a b) fun r s => Inv r.value s) (b : β) :
    Runs I R (Inv b) (forIn xs b f) Inv := by
  induction xs generalizing b with
  | nil => exact pure b fun _ h => h
  | cons a as ih =>
    rw [List.forIn_cons]
    refine bind (hf a List.mem_cons_self b) fun step => ?_
    cases step with
    | done b' => exact pure b' fun _ h => h
    | yield b' => exact ih (fun x hx => hf x (List.mem_cons_of_mem _ hx)) b'

/-- A stream without an error of its own ends normally. -/
theorem finish {st : Stream} (h : st.failure = none) : Runs I R P (Copying.finish st) fun _ => P :=
  of_exec_eq fun s _ hp => ⟨(), by rw [exec_finish, h], hp⟩

end Runs

end Copying

end TransitFeed

import TransitFeed.Copy.Engine

/-!
# Running the steps of a copy

A step of a copy runs from a state to an outcome and a final state; the final state is
kept when the step fails. This file gives the equations that run the monad's building
blocks, and a view of the reports: the report of a collection, read off a list kept in
collection order.
-/

namespace TransitFeed

namespace Copying

variable {σ : Type}

/-- Runs a step of a copy from a state, giving its outcome and the state it ends in. -/
def exec {α : Type} (x : Copying σ α) (s : Run σ) : Except FeedError α × Run σ :=
  x.run.run s

@[simp] theorem exec_pure {α : Type} (a : α) (s : Run σ) :
    exec (pure a : Copying σ α) s = (.ok a, s) := rfl

/-- A value handed back ends normally where it started. -/
theorem exec_pure_eq_ok {α : Type} {a b : α} {s s' : Run σ}
    (h : exec (pure a : Copying σ α) s = (.ok b, s')) : a = b ∧ s = s' := by
  simpa only [exec_pure, Prod.mk.injEq, Except.ok.injEq] using h

@[simp] theorem exec_get (s : Run σ) : exec (get : Copying σ (Run σ)) s = (.ok s, s) := rfl

@[simp] theorem exec_set (s t : Run σ) : exec (set t : Copying σ Unit) s = (.ok (), t) := rfl

@[simp] theorem exec_modify (f : Run σ → Run σ) (s : Run σ) :
    exec (modify f : Copying σ Unit) s = (.ok (), f s) := rfl

@[simp] theorem exec_throw {α : Type} (e : FeedError) (s : Run σ) :
    exec (throw e : Copying σ α) s = (.error e, s) := rfl

/-- A failed first step ends the sequence; otherwise the second runs from where it ended. -/
theorem exec_bind {α β : Type} (x : Copying σ α) (f : α → Copying σ β) (s : Run σ) :
    exec (x >>= f) s =
      match exec x s with
      | (.ok a, s') => exec (f a) s'
      | (.error e, s') => (.error e, s') := by
  simp only [exec, ExceptT.run_bind, StateT.run_bind]
  rcases x.run.run s with ⟨_ | a, s'⟩ <;> rfl

/-- A sequence ends normally exactly when both of its steps do, one after the other. -/
theorem exec_bind_eq_ok {α β : Type} {x : Copying σ α} {f : α → Copying σ β} {s s'' : Run σ}
    {b : β} :
    exec (x >>= f) s = (.ok b, s'') ↔ ∃ a s', exec x s = (.ok a, s') ∧ exec (f a) s' = (.ok b, s'') := by
  rw [exec_bind]
  rcases exec x s with ⟨_ | a, s'⟩
  · simp
  · exact ⟨fun h => ⟨a, s', rfl, h⟩, fun ⟨a', t, h, h'⟩ => by cases h; exact h'⟩

theorem exec_bind_of_ok {α β : Type} {x : Copying σ α} {s s' : Run σ} {a : α}
    (h : exec x s = (.ok a, s')) (f : α → Copying σ β) : exec (x >>= f) s = exec (f a) s' := by
  rw [exec_bind, h]

theorem exec_bind_of_error {α β : Type} {x : Copying σ α} {s s' : Run σ} {e : FeedError}
    (h : exec x s = (.error e, s')) (f : α → Copying σ β) :
    exec (x >>= f) s = (.error e, s') := by
  rw [exec_bind, h]

@[simp] theorem exec_forIn_nil {α β : Type} (b : β) (f : α → β → Copying σ (ForInStep β))
    (s : Run σ) : exec (forIn [] b f) s = (.ok b, s) := rfl

/-- A loop over a list runs its body on the head, then the rest of the loop unless the body
stopped it. -/
theorem exec_forIn_cons {α β : Type} (a : α) (as : List α) (b : β)
    (f : α → β → Copying σ (ForInStep β)) (s : Run σ) :
    exec (forIn (a :: as) b f) s =
      match exec (f a b) s with
      | (.ok (.done b'), s') => (.ok b', s')
      | (.ok (.yield b'), s') => exec (forIn as b' f) s'
      | (.error e, s') => (.error e, s') := by
  rw [List.forIn_cons, exec_bind]
  rcases exec (f a b) s with ⟨_ | (b' | b'), s'⟩ <;> rfl

/-- A handler runs only when the step fails, from the state the step failed in. -/
theorem exec_tryCatch {α : Type} (x : Copying σ α) (handle : FeedError → Copying σ α)
    (s : Run σ) :
    exec (tryCatch x handle) s =
      match exec x s with
      | (.ok a, s') => (.ok a, s')
      | (.error e, s') => exec (handle e) s' := by
  simp only [exec, tryCatch, tryCatchThe, MonadExceptOf.tryCatch, ExceptT.tryCatch, ExceptT.mk,
    ExceptT.run, StateT.run, bind, StateT.bind]
  rcases x s with ⟨_ | a, s'⟩ <;> rfl

end Copying

end TransitFeed

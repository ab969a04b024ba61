import PmacPoll.Transport

/-!
# Running actions

What the steps of an `EStateM` program do to a state, as equations for `simp`. Opening a program
with them leaves one `match` for each call in it, and a proof goes on by cases on what the call
comes to.
-/

namespace PmacPoll

variable {ε σ α β : Type}

/-- The state that a run ends in, whatever it comes to. -/
def finalState : EStateM.Result ε σ α → σ
  | .ok _ state => state
  | .error _ state => state

namespace Running

/-- Of two steps the second one runs from where the first one has ended, unless that failed. -/
theorem bind_run (x : EStateM ε σ α) (f : α → EStateM ε σ β) (s : σ) :
    (x >>= f) s = match x s with
      | .ok a s' => f a s'
      | .error e s' => .error e s' := rfl

/-- A value is returned and nothing changes. -/
theorem pure_run (a : α) (s : σ) : (pure a : EStateM ε σ α) s = .ok a s := rfl

/-- An error is raised and nothing changes. -/
theorem throw_run (e : ε) (s : σ) : (throw e : EStateM ε σ α) s = .error e s := rfl

/-- The state is read and nothing changes. -/
theorem get_run (s : σ) : (get : EStateM ε σ σ) s = .ok s s := rfl

/-- The state is replaced. -/
theorem set_run (s' s : σ) : (set s' : EStateM ε σ PUnit) s = .ok ⟨⟩ s' := rfl

/-- The state is replaced by its image. -/
theorem modify_run (f : σ → σ) (s : σ) : (modify f : EStateM ε σ PUnit) s = .ok ⟨⟩ (f s) := rfl

/-- A choice between two steps runs the one that was chosen. -/
theorem ite_run (c : Prop) [Decidable c] (x y : EStateM ε σ α) (s : σ) :
    (if c then x else y) s = if c then x s else y s := by
  split <;> rfl

/-- An attempt ends without an error, and tells what came of it. -/
theorem attempt_run (call : Link σ α) (s : σ) :
    Link.attempt call s = match call s with
      | .ok a s' => .ok (.ok a) s'
      | .error cause s' => .ok (.error cause) s' := rfl

/-- To pass on what a run comes to leaves its state. -/
theorem finalState_bind_pure (x : EStateM ε σ α) (f : α → β) (s : σ) :
    finalState ((x >>= fun a => pure (f a)) s) = finalState (x s) := by
  rw [bind_run]
  cases x s <;> rfl

end Running

end PmacPoll

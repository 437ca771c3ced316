import Mathlib.Init

/-!
# Computations that leave a state behind

A computation on a state returns a value or stops with an error.  In either case there is a
state afterwards, so that what has been done before an error is not lost.  The file gives
the rules by which such computations are run step by step.
-/

namespace OgWebserver.Transition

universe u

variable {ε σ α β : Type u}

/-- Behind a computation that returns, the next one goes on from its state. -/
theorem bind_of_ok {first : EStateM ε σ α} {second : α → EStateM ε σ β} {s s' : σ} {a : α}
    (ran : first s = .ok a s') : (first >>= second) s = second a s' := by
  simp only [bind, EStateM.bind, ran]

/-- An error ends the whole computation. -/
theorem bind_of_error {first : EStateM ε σ α} {second : α → EStateM ε σ β} {s s' : σ} {e : ε}
    (ran : first s = .error e s') : (first >>= second) s = .error e s' := by
  simp only [bind, EStateM.bind, ran]

/-- The state behind a computation. -/
def stateBehind : EStateM.Result ε σ α → σ
  | .ok _ s => s
  | .error _ s => s

/-- What a computation without a value makes visible of its state, unless it stops. -/
def outcome (view : σ → β) : EStateM.Result ε σ PUnit → Except ε β
  | .ok _ s => .ok (view s)
  | .error e _ => .error e

section Primitives

variable (s : σ) (second : α → EStateM ε σ β)

@[simp]
theorem pure_run (a : α) : (pure a : EStateM ε σ α) s = .ok a s :=
  rfl

@[simp]
theorem throw_run (e : ε) : (throw e : EStateM ε σ α) s = .error e s :=
  rfl

@[simp]
theorem modify_run (f : σ → σ) : (modify f : EStateM ε σ PUnit) s = .ok ⟨⟩ (f s) :=
  rfl

@[simp]
theorem bind_pure_run (a : α) : (pure a >>= second) s = second a s :=
  rfl

@[simp]
theorem bind_throw_run (e : ε) : (throw e >>= second) s = .error e s :=
  rfl

@[simp]
theorem bind_modify_run (f : σ → σ) (next : PUnit → EStateM ε σ β) :
    (modify f >>= next) s = next ⟨⟩ (f s) :=
  rfl

@[simp]
theorem bind_get_run (next : σ → EStateM ε σ β) : (get >>= next) s = next s s :=
  rfl

@[simp]
theorem bind_set_run (s' : σ) (next : PUnit → EStateM ε σ β) : (set s' >>= next) s = next ⟨⟩ s' :=
  rfl

@[simp]
theorem bind_liftExcept_ok (a : α) :
    ((liftExcept (.ok a : Except ε α) : EStateM ε σ α) >>= second) s = second a s :=
  rfl

@[simp]
theorem bind_liftExcept_error (e : ε) :
    ((liftExcept (.error e : Except ε α) : EStateM ε σ α) >>= second) s = .error e s :=
  rfl

end Primitives

end OgWebserver.Transition

import Mathlib.Data.Set.Card
import Mathlib.Logic.Relation

/-!
# Recursion along a relation

A recursion that goes from a point to all that are related to it returns if no path is
too long.  On finitely many points this is so if and only if none that it comes to lies
on a cycle.
-/

namespace OgWebserver.Transition

universe u

variable {α : Type u} {r : α → α → Prop} {a b : α} {n m : Nat}

open Relation

/-- No path from the point has as many points as this. -/
def Shallow (r : α → α → Prop) : Nat → α → Prop
  | 0, _ => False
  | n + 1, a => ∀ b, r a b → Shallow r n b

theorem Shallow.mono (shallow : Shallow r n a) (le : n ≤ m) : Shallow r m a := by
  induction n generalizing m a with
  | zero => exact shallow.elim
  | succ n ih =>
      rcases m with _ | m
      · omega
      · intro b related
        exact ih (shallow b related) (by omega)

theorem Shallow.of_reflTransGen (shallow : Shallow r n a) (path : ReflTransGen r a b) :
    Shallow r n b := by
  induction path with
  | refl => exact shallow
  | tail _ related ih =>
      rcases n with _ | n
      · exact ih.elim
      · exact (ih _ related).mono (Nat.le_succ n)

/-- A cycle is a path without end. -/
theorem Shallow.not_cycle (shallow : Shallow r n a) : ¬ TransGen r a a := by
  induction n generalizing a with
  | zero => exact shallow.elim
  | succ n ih =>
      intro cycle
      rcases TransGen.head'_iff.mp cycle with ⟨b, related, back⟩
      exact ih (shallow b related) (TransGen.tail' back related)

/-- What a path leads to. -/
def reached (r : α → α → Prop) (a : α) : Set α :=
  {b | TransGen r a b}

/-- Without cycles, each point that is passed is one that is not reached again. -/
theorem shallow_reached (finite : {b | ∃ a, r a b}.Finite)
    (acyclic : ∀ b, ReflTransGen r a b → ¬ TransGen r b b) :
    Shallow r ((reached r a).ncard + 1) a := by
  have finite_ : ∀ a, (reached r a).Finite := by
    intro a
    apply finite.subset
    intro b path
    rcases TransGen.tail'_iff.mp path with ⟨c, _, related⟩
    exact ⟨c, related⟩
  induction size : (reached r a).ncard using Nat.strong_induction_on generalizing a with
  | _ count ih =>
      intro b related
      have fewer : (reached r b).ncard < count := by
        rw [← size]
        apply Set.ncard_lt_ncard _ (finite_ a)
        constructor
        · intro c path
          exact TransGen.head related path
        · intro all
          have again : b ∈ reached r b := all (TransGen.single related)
          exact acyclic b (ReflTransGen.single related) again
      have inner := ih _ fewer (fun c path => acyclic c (path.head related)) rfl
      exact inner.mono fewer

/-- Paths from the point are bounded if and only if none of them comes to a cycle. -/
theorem exists_shallow_iff (finite : {b | ∃ a, r a b}.Finite) :
    (∃ n, Shallow r n a) ↔ ∀ b, ReflTransGen r a b → ¬ TransGen r b b := by
  constructor
  · rintro ⟨n, shallow⟩ b path
    exact (shallow.of_reflTransGen path).not_cycle
  · intro acyclic
    exact ⟨_, shallow_reached finite acyclic⟩

end OgWebserver.Transition

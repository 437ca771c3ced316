import OgWebserver.Transition.Run

/-!
# Labelled systems

A system takes steps that a label describes in full, with everything its environment
decides.  A property of the states it reaches may depend on what the environment does, so
runs are restricted to the labels that are allowed.
-/

namespace OgWebserver.Transition

universe u v

/-- Where a system can start, and what a labelled step does, where it is possible. -/
structure System (σ : Type u) (α : Type v) where
  init : σ → Prop
  step : σ → α → Except Unit σ

namespace System

variable {σ : Type u} {α : Type v} {sys : System σ α} {allowed : α → Prop} {s t : σ}

/-- Some run with allowed labels only ends in the state. -/
def Reached (sys : System σ α) (allowed : α → Prop) (t : σ) : Prop :=
  ∃ s labels, sys.init s ∧ (∀ label ∈ labels, allowed label) ∧ run sys.step s labels = .ok t

/-- Some run ends in the state. -/
abbrev Reachable (sys : System σ α) (t : σ) : Prop :=
  sys.Reached (fun _ => True) t

theorem Reached.start (init : sys.init s) : sys.Reached allowed s :=
  ⟨s, [], init, by simp, rfl⟩

theorem Reached.next {label : α} (run : sys.Reached allowed s) (ok : allowed label)
    (step : sys.step s label = .ok t) : sys.Reached allowed t := by
  rcases run with ⟨first, labels, init, all, ran⟩
  refine ⟨first, labels ++ [label], init, ?_, ?_⟩
  · intro other member
    rcases List.mem_append.mp member with here | here
    · exact all other here
    · obtain rfl := List.mem_singleton.mp here
      exact ok
  · apply run_append_eq_ok_iff.mpr
    exact ⟨s, ran, run_singleton_eq_ok_iff.mpr step⟩

theorem Reached.mono {more : α → Prop} (run : sys.Reached allowed s)
    (weaker : ∀ label, allowed label → more label) : sys.Reached more s := by
  rcases run with ⟨first, labels, init, all, ran⟩
  exact ⟨first, labels, init, fun label member => weaker label (all label member), ran⟩

/-- What holds at the start and is kept by every allowed step holds in every state reached. -/
theorem Reached.invariant {P : σ → Prop} (run : sys.Reached allowed t)
    (start : ∀ s, sys.init s → P s)
    (keeps : ∀ s label t, P s → allowed label → sys.step s label = .ok t → P t) : P t := by
  rcases run with ⟨first, labels, init, all, ran⟩
  apply run_invariant _ (start first init) ran
  intro label member s t holds step
  exact keeps s label t holds (all label member) step

/-- Does the run that the labels describe end in such a state? -/
def ends (sys : System σ α) (s : σ) (labels : List α) (P : σ → Bool) : Bool :=
  match run sys.step s labels with
  | .ok t => P t
  | .error _ => false

theorem exists_reached {labels : List α} {P : σ → Bool} (init : sys.init s)
    (all : ∀ label ∈ labels, allowed label) (ends : sys.ends s labels P = true) :
    ∃ t, sys.Reached allowed t ∧ P t = true := by
  unfold System.ends at ends
  split at ends
  · rename_i t ran
    exact ⟨t, ⟨s, labels, init, all, ran⟩, ends⟩
  · cases ends

end System

/-! ## Numbers handed out -/

/-- Who holds each number, if anyone does. -/
abbrev Holders (κ : Type u) : Type u :=
  Nat → Option κ

namespace Holders

variable {κ : Type u} {holders : Holders κ} {n m : Nat} {k l : κ}

/-- The number is handed out. -/
def take (holders : Holders κ) (n : Nat) (k : κ) : Holders κ :=
  fun m => if m = n then some k else holders m

/-- The number is given back. -/
def free (holders : Holders κ) (n : Nat) : Holders κ :=
  fun m => if m = n then none else holders m

@[simp]
theorem take_self : holders.take n k n = some k := by
  simp [take]

@[simp]
theorem free_self : holders.free n n = none := by
  simp [free]

theorem take_of_ne (ne : m ≠ n) : holders.take n k m = holders m := by
  simp [take, ne]

theorem free_of_ne (ne : m ≠ n) : holders.free n m = holders m := by
  simp [free, ne]

/-- A number that is held is not one that is still to be handed out. -/
theorem ne_of_fresh (fresh : holders n = none) (held : holders m = some k) : m ≠ n := by
  rintro rfl
  rw [fresh] at held
  cases held

/-- Whoever holds a number keeps it while another one is handed out. -/
theorem take_of_held (fresh : holders n = none) (held : holders m = some k) :
    holders.take n l m = some k := by
  rw [take_of_ne (ne_of_fresh fresh held)]
  exact held

/-- Whoever holds a number keeps it while others give theirs back. -/
theorem free_of_held (other : holders n ≠ some k) (held : holders m = some k) :
    holders.free n m = some k := by
  rw [free_of_ne]
  · exact held
  · rintro rfl
    exact other held

end Holders

end OgWebserver.Transition

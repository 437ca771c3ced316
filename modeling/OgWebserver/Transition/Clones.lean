import Mathlib.Algebra.BigOperators.Group.Finset.Piecewise
import Mathlib.Data.Fintype.Basic
import OgWebserver.Transition.Run

/-!
# Clones

Several copies of one machine, none of which sees the others.  Each step is one of some copy,
and puts something out; so each copy is where it would be alone, whatever the order.
-/

namespace OgWebserver.Transition

universe u v w x y

variable {σ : Type u} {α : Type v} {β : Type w} {ε : Type x} {ι : Type y}
variable {step : σ → α → Except ε (σ × List β)}

/-- One machine, and what it puts out. -/
def runOut (step : σ → α → Except ε (σ × List β)) : σ → List α → Except ε (σ × List β)
  | s, [] => .ok (s, [])
  | s, a :: rest =>
      match step s a with
      | .error e => .error e
      | .ok (s, out) =>
          match runOut step s rest with
          | .error e => .error e
          | .ok (s, more) => .ok (s, out ++ more)

/-- The inputs, or outputs, of one of the copies. -/
def ofClone [DecidableEq ι] (i : ι) (l : List (ι × α)) : List α :=
  l.filterMap fun p => if p.1 = i then some p.2 else none

/-- The copies, where each input is one for some copy. -/
def runClones [DecidableEq ι] (step : σ → α → Except ε (σ × List β)) :
    (ι → σ) → List (ι × α) → Except ε ((ι → σ) × List (ι × β))
  | s, [] => .ok (s, [])
  | s, (i, a) :: rest =>
      match step (s i) a with
      | .error e => .error e
      | .ok (next, out) =>
          match runClones step (Function.update s i next) rest with
          | .error e => .error e
          | .ok (s, more) => .ok (s, out.map (Prod.mk i) ++ more)

section Clones

variable [DecidableEq ι] {s t : ι → σ} {inputs : List (ι × α)} {outputs : ι → List β}

@[simp]
theorem ofClone_append (i : ι) (l l' : List (ι × α)) :
    ofClone i (l ++ l') = ofClone i l ++ ofClone i l' :=
  List.filterMap_append

@[simp]
theorem mem_ofClone {i : ι} {l : List (ι × α)} {a : α} : a ∈ ofClone i l ↔ (i, a) ∈ l := by
  simp [ofClone]

theorem ofClone_self (i : ι) (a : α) (rest : List (ι × α)) :
    ofClone i ((i, a) :: rest) = a :: ofClone i rest := by
  simp [ofClone]

theorem ofClone_of_ne {i j : ι} (ne : j ≠ i) (a : α) (rest : List (ι × α)) :
    ofClone i ((j, a) :: rest) = ofClone i rest := by
  simp [ofClone, ne]

theorem ofClone_map_self (i : ι) (out : List β) : ofClone i (out.map (Prod.mk i)) = out := by
  simp [ofClone, List.filterMap_map]

theorem ofClone_map_of_ne {i j : ι} (ne : j ≠ i) (out : List β) :
    ofClone i (out.map (Prod.mk j)) = [] := by
  simp [ofClone, List.filterMap_map, ne]

theorem runOut_cons_eq_ok_iff {s : σ} {a : α} {rest : List α} {t : σ} {all : List β} :
    runOut step s (a :: rest) = .ok (t, all) ↔
      ∃ m out more, step s a = .ok (m, out) ∧ runOut step m rest = .ok (t, more) ∧
        all = out ++ more := by
  cases moves : step s a with
  | error e => simp [runOut, moves]
  | ok first =>
      rcases first with ⟨m, out⟩
      cases others : runOut step m rest with
      | error e => simp [runOut, moves, others]
      | ok last =>
          rcases last with ⟨final, more⟩
          simp only [runOut, moves, others, Except.ok.injEq, Prod.mk.injEq]
          constructor
          · rintro ⟨rfl, rfl⟩
            exact ⟨m, out, more, ⟨rfl, rfl⟩, by rw [others], rfl⟩
          · rintro ⟨_, _, _, ⟨rfl, rfl⟩, ran, rfl⟩
            rw [others] at ran
            cases ran
            exact ⟨rfl, rfl⟩

/-- Each copy is where it would be alone, and has put out what it would alone. -/
theorem runClones_eq_ok (alone : ∀ i, runOut step (s i) (ofClone i inputs) = .ok (t i, outputs i)) :
    ∃ all, runClones step s inputs = .ok (t, all) ∧ ∀ i, ofClone i all = outputs i := by
  induction inputs generalizing s outputs with
  | nil =>
      have stays (i : ι) : s i = t i ∧ [] = outputs i := by
        simpa [ofClone, runOut] using alone i
      refine ⟨[], ?_, fun i => (stays i).2⟩
      rw [runClones, funext fun i => (stays i).1]
  | cons input rest ih =>
      rcases input with ⟨i, a⟩
      have own := alone i
      rw [ofClone_self] at own
      rcases runOut_cons_eq_ok_iff.mp own with ⟨next, out, more, moves, others, split⟩
      have later (j : ι) : runOut step (Function.update s i next j) (ofClone j rest) =
          .ok (t j, Function.update outputs i more j) := by
        by_cases same : j = i
        · subst same
          rw [Function.update_self, Function.update_self]
          exact others
        · rw [Function.update_of_ne same, Function.update_of_ne same,
            ← ofClone_of_ne (Ne.symm same) a rest]
          exact alone j
      rcases ih later with ⟨all, ran, each⟩
      refine ⟨out.map (Prod.mk i) ++ all, ?_, ?_⟩
      · simp only [runClones, moves, ran]
      · intro j
        rw [ofClone_append, each j]
        by_cases same : j = i
        · subst same
          rw [ofClone_map_self, Function.update_self, split]
        · rw [ofClone_map_of_ne (Ne.symm same), Function.update_of_ne same, List.nil_append]

/-- All that is counted in one copy or another. -/
theorem sum_countP_ofClone [Fintype ι] (p : α → Bool) (l : List (ι × α)) :
    ∑ i, (ofClone i l).countP p = l.countP fun q => p q.2 := by
  induction l with
  | nil => simp [ofClone]
  | cons q l ih =>
      rcases q with ⟨i, a⟩
      have each (j : ι) : (ofClone j ((i, a) :: l)).countP p =
          (ofClone j l).countP p + if j = i then (if p a then 1 else 0) else 0 := by
        by_cases same : j = i
        · subst same
          rw [ofClone_self, List.countP_cons, if_pos rfl]
        · rw [ofClone_of_ne (Ne.symm same), if_neg same, Nat.add_zero]
      rw [Finset.sum_congr rfl fun j _ => each j, Finset.sum_add_distrib, ih, List.countP_cons,
        Finset.sum_ite_eq' Finset.univ i, if_pos (Finset.mem_univ i)]

end Clones

end OgWebserver.Transition

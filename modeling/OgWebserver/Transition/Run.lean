import Mathlib.Data.List.Induction

/-!
# Runs of fallible actions

A program that performs a list of actions on a state, each of which may stop
it, is a left fold in `Except`.  The file gives the inversion of such runs, the
induction principle for invariants, and the final value of a variable that
some of the actions overwrite.
-/

namespace OgWebserver.Transition

universe u v w x

variable {σ : Type u} {α : Type v} {ε : Type w} {β : Type x}

theorem except_ok_bind {β : Type v} (a : α) (second : α → Except ε β) :
    (Except.ok a >>= second) = second a :=
  rfl

theorem except_error_bind {β : Type v} (e : ε) (second : α → Except ε β) :
    (Except.error e >>= second) = .error e :=
  rfl

/-- Inversion of sequencing. -/
theorem bind_eq_ok_iff {β : Type v} {first : Except ε α} {second : α → Except ε β} {r : β} :
    (first >>= second) = .ok r ↔ ∃ a, first = .ok a ∧ second a = .ok r := by
  cases first with
  | error e => simp [bind, Except.bind]
  | ok a => simp [bind, Except.bind]

/-- Perform the actions one after another; the first failure ends the run. -/
def run (step : σ → α → Except ε σ) : σ → List α → Except ε σ
  | s, [] => .ok s
  | s, a :: rest =>
      match step s a with
      | .ok next => run step next rest
      | .error e => .error e

@[simp]
theorem run_nil (step : σ → α → Except ε σ) (s : σ) : run step s [] = .ok s :=
  rfl

@[simp]
theorem run_cons_eq_ok_iff {step : σ → α → Except ε σ} {s t : σ} {a : α} {rest : List α} :
    run step s (a :: rest) = .ok t ↔ ∃ m, step s a = .ok m ∧ run step m rest = .ok t := by
  simp only [run]
  cases step s a with
  | ok m => simp
  | error e => simp

theorem run_singleton_eq_ok_iff {step : σ → α → Except ε σ} {s t : σ} {a : α} :
    run step s [a] = .ok t ↔ step s a = .ok t := by
  simp

theorem run_append_eq_ok_iff {step : σ → α → Except ε σ} {s t : σ} {first second : List α} :
    run step s (first ++ second) = .ok t ↔
      ∃ m, run step s first = .ok m ∧ run step m second = .ok t := by
  induction first generalizing s with
  | nil => simp
  | cons a rest ih =>
      simp only [List.cons_append, run_cons_eq_ok_iff, ih]
      constructor
      · rintro ⟨n, one, m, more, last⟩
        exact ⟨m, ⟨n, one, more⟩, last⟩
      · rintro ⟨m, ⟨n, one, more⟩, last⟩
        exact ⟨n, one, m, more, last⟩

/-- A property that each of the given actions preserves holds after the run. -/
theorem run_invariant {step : σ → α → Except ε σ} {P : σ → Prop} {actions : List α}
    (keeps : ∀ a ∈ actions, ∀ s t, P s → step s a = .ok t → P t)
    {s t : σ} (start : P s) (ran : run step s actions = .ok t) : P t := by
  induction actions generalizing s with
  | nil =>
      obtain rfl := Except.ok.inj ran
      exact start
  | cons a rest ih =>
      rcases run_cons_eq_ok_iff.mp ran with ⟨m, one, more⟩
      exact ih (fun b member => keeps b (List.mem_cons_of_mem a member))
        (keeps a List.mem_cons_self s m start one) more

/-- Final value of a variable that starts as `init` and that some actions
overwrite. -/
def lastWrite (write : α → Option β) (init : β) (actions : List α) : β :=
  actions.foldl (fun value a => (write a).getD value) init

@[simp]
theorem lastWrite_nil (write : α → Option β) (init : β) : lastWrite write init [] = init :=
  rfl

@[simp]
theorem lastWrite_cons (write : α → Option β) (init : β) (a : α) (rest : List α) :
    lastWrite write init (a :: rest) = lastWrite write ((write a).getD init) rest :=
  rfl

@[simp]
theorem lastWrite_append (write : α → Option β) (init : β) (first second : List α) :
    lastWrite write init (first ++ second) = lastWrite write (lastWrite write init first) second :=
  List.foldl_append

/-- Actions that do not write leave the variable alone. -/
theorem lastWrite_eq_init {write : α → Option β} {actions : List α}
    (silent : ∀ a ∈ actions, write a = none) (init : β) :
    lastWrite write init actions = init := by
  induction actions with
  | nil => rfl
  | cons a rest ih =>
      rw [lastWrite_cons, silent a List.mem_cons_self]
      exact ih fun b member => silent b (List.mem_cons_of_mem a member)

/-- The final value is the last one written, or the initial one. -/
theorem lastWrite_eq_getLast? (write : α → Option β) (init : β) (actions : List α) :
    lastWrite write init actions = (actions.filterMap write).getLast?.getD init := by
  induction actions generalizing init with
  | nil => rfl
  | cons a rest ih =>
      rw [lastWrite_cons, ih]
      cases h : write a with
      | none => simp [h]
      | some v =>
          rw [List.filterMap_cons_some h, List.getLast?_cons]
          rfl

/-- The initial value does not matter if and only if some action overwrites it. -/
theorem lastWrite_eq_lastWrite_iff {write : α → Option β} {first second : β} {actions : List α} :
    lastWrite write first actions = lastWrite write second actions ↔
      (∃ a ∈ actions, (write a).isSome) ∨ first = second := by
  induction actions generalizing first second with
  | nil => simp
  | cons a rest ih =>
      rw [lastWrite_cons, lastWrite_cons, ih]
      cases h : write a with
      | none => simp [h]
      | some v => simp [h]

end OgWebserver.Transition

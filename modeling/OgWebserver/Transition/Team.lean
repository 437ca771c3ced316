import Mathlib.Algebra.BigOperators.Group.List.Basic
import Mathlib.Algebra.GroupWithZero.Nat
import OgWebserver.Transition.System
import OgWebserver.Transition.Threads

/-!
# Teams of threads

Any number of threads take steps on a shared state, in any order, and new ones join.  Where a
thread joins only when all others are done, each runs as it would alone.
-/

namespace OgWebserver.Transition

variable {κ σ ρ ε : Type}

structure Team (κ σ : Type) where
  threads : List κ
  shared : σ

inductive TeamLabel (κ : Type)
  | joins (k : κ)
  | goes (j : Nat)

/-- A step of a thread that fails ends the process, so nothing follows upon it. -/
def Team.step (prog : Program κ σ ρ ε) (admits : Team κ σ → κ → Bool) (team : Team κ σ) :
    TeamLabel κ → Except Unit (Team κ σ)
  | .joins k =>
      if admits team k then .ok { team with threads := team.threads ++ [k] } else .error ()
  | .goes j =>
      match team.threads[j]? with
      | none => .error ()
      | some k =>
          match prog.step k team.shared with
          | .error _ => .error ()
          | .ok (k', s, _) => .ok { threads := team.threads.set j k', shared := s }

/-- The threads of a program, from a shared state on. -/
def Program.team (prog : Program κ σ ρ ε) (admits : Team κ σ → κ → Bool) (s : σ) :
    System (Team κ σ) (TeamLabel κ) where
  init team := team = { threads := [], shared := s }
  step := Team.step prog admits

/-- No thread is at a step that fails. -/
def Team.Safe (prog : Program κ σ ρ ε) (team : Team κ σ) : Prop :=
  ∀ k ∈ team.threads, ∀ e, prog.step k team.shared ≠ .error e

section Steps

variable {prog : Program κ σ ρ ε} {admits : Team κ σ → κ → Bool} {team after : Team κ σ}
variable {s : σ} {allowed : TeamLabel κ → Prop}

/-- What a step of a team can be. -/
inductive Team.Moves (prog : Program κ σ ρ ε) (admits : Team κ σ → κ → Bool) (team : Team κ σ) :
    Team κ σ → Prop
  | joins {k} (admitted : admits team k = true) :
      Moves prog admits team { team with threads := team.threads ++ [k] }
  | goes {j k k' s out} (here : team.threads[j]? = some k)
      (step : prog.step k team.shared = .ok (k', s, out)) :
      Moves prog admits team { threads := team.threads.set j k', shared := s }

theorem Team.moves_of_step {label : TeamLabel κ} (step : team.step prog admits label = .ok after) :
    team.Moves prog admits after := by
  cases label with
  | joins k =>
      rw [Team.step] at step
      split at step
      · rename_i admitted
        obtain rfl := Except.ok.inj step
        exact .joins admitted
      · cases step
  | goes j =>
      simp only [Team.step] at step
      split at step
      · cases step
      · rename_i k here
        split at step
        · cases step
        · rename_i k' s out next
          obtain rfl := Except.ok.inj step
          exact .goes here next

variable (admits) in
theorem Team.step_goes {j : Nat} {k k' : κ} {s' : σ} {out : List ρ}
    (here : team.threads[j]? = some k) (step : prog.step k team.shared = .ok (k', s', out)) :
    team.step prog admits (.goes j) =
      .ok { threads := team.threads.set j k', shared := s' } := by
  simp only [Team.step, here, step]

theorem Team.reached_goes {j : Nat} {k k' : κ} {s' : σ} {out : List ρ}
    (here : team.threads[j]? = some k) (step : prog.step k team.shared = .ok (k', s', out))
    {start : σ} (reached : (prog.team admits start).Reachable team) :
    (prog.team admits start).Reachable { threads := team.threads.set j k', shared := s' } := by
  have goes : (prog.team admits start).step team (.goes j) =
      .ok { threads := team.threads.set j k', shared := s' } :=
    Team.step_goes admits here step
  exact reached.next trivial goes

theorem Team.reached_joins {k : κ} (admitted : admits team k = true) {start : σ}
    (reached : (prog.team admits start).Reachable team) :
    (prog.team admits start).Reachable { team with threads := team.threads ++ [k] } := by
  have joins : (prog.team admits start).step team (.joins k) =
      .ok { team with threads := team.threads ++ [k] } :=
    if_pos admitted
  exact reached.next trivial joins

/-- The thread that has joined last runs for a while. -/
theorem Team.reached_last {front : List κ} {k k' : κ} {s' : σ} {out : List ρ}
    (run : Steps prog k s out k' s') {start : σ}
    (reached : (prog.team admits start).Reachable { threads := front ++ [k], shared := s }) :
    (prog.team admits start).Reachable { threads := front ++ [k'], shared := s' } := by
  induction run with
  | refl => exact reached
  | @head k k₁ _ s s₁ _ _ _ step _ ih =>
      have last : (front ++ [k])[front.length]? = some k := List.getElem?_concat_length
      have moved := Team.reached_goes last step reached
      rw [List.set_append_right _ _ (Nat.le_refl _), Nat.sub_self] at moved
      exact ih moved

/-! ## Counting threads -/

/-- What is counted when one thread has moved. -/
theorem countP_set_add (p : κ → Bool) {l : List κ} {j : Nat} (inside : j < l.length) (k : κ) :
    (l.set j k).countP p + (p l[j]).toNat = l.countP p + (p k).toNat := by
  have among : (if p l[j] then 1 else 0) ≤ l.countP p := List.boole_getElem_le_countP inside
  have rank : ∀ own : Bool, own.toNat = if own then 1 else 0 := by
    rintro (_ | _) <;> rfl
  rw [List.countP_set inside, rank, rank]
  omega

theorem toNat_le_countP {p : κ → Bool} {l : List κ} {k : κ} (member : k ∈ l) :
    (p k).toNat ≤ l.countP p := by
  cases own : p k with
  | false => exact Nat.zero_le _
  | true => exact List.countP_pos_iff.mpr ⟨k, member, own⟩

/-- Two threads that are both counted. -/
theorem two_le_countP {p : κ → Bool} {l : List κ} {i j : Nat} {k k' : κ} (first : l[i]? = some k)
    (second : l[j]? = some k') (ne : i ≠ j) (own : p k = true) (other : p k' = true) :
    2 ≤ l.countP p := by
  wlog before : i < j generalizing i j k k'
  · exact this second first ne.symm other own (Nat.lt_of_le_of_ne (Nat.le_of_not_lt before) ne.symm)
  have front : 0 < (l.take j).countP p := by
    have here : (l.take j)[i]? = some k := by rwa [List.getElem?_take_of_lt before]
    exact List.countP_pos_iff.mpr ⟨k, List.mem_of_getElem? here, own⟩
  have back : 0 < (l.drop j).countP p := by
    have here : (l.drop j)[0]? = some k' := by rwa [List.getElem?_drop]
    exact List.countP_pos_iff.mpr ⟨k', List.mem_of_getElem? here, other⟩
  rw [← List.take_append_drop j l, List.countP_append]
  omega

/-! ## To the end -/

theorem sum_set_add {l : List Nat} {j : Nat} (inside : j < l.length) (n : Nat) :
    (l.set j n).sum + l[j] = l.sum + n := by
  have split := List.sum_take_add_sum_drop l j
  rw [List.drop_eq_getElem_cons inside, List.sum_cons] at split
  rw [List.sum_set, if_pos inside]
  omega

/-- If some thread can always go on as long as not all are done, then from every state some turns
of the threads bring all of them to their end. -/
theorem Team.exists_done {rank : κ → Nat} {start : σ}
    (progress : ∀ team : Team κ σ, (prog.team admits start).Reachable team →
      (∃ k ∈ team.threads, ¬ prog.done k) → ∃ k ∈ team.threads, ∃ k' s' out,
        prog.step k team.shared = .ok (k', s', out) ∧ rank k' < rank k)
    (reached : (prog.team admits start).Reachable team) :
    ∃ (turns : List Nat) (last : Team κ σ),
      run (Team.step prog admits) team (turns.map .goes) = .ok last ∧
        (∀ k ∈ last.threads, prog.done k) ∧ last.threads.length = team.threads.length := by
  induction total : (team.threads.map rank).sum using Nat.strongRecOn generalizing team with
  | ind n ih =>
      by_cases all : ∀ k ∈ team.threads, prog.done k
      · exact ⟨[], team, rfl, all, rfl⟩
      · push Not at all
        rcases progress team reached all with ⟨k, member, k', s', out, step, lower⟩
        rcases List.mem_iff_getElem?.mp member with ⟨j, here⟩
        rcases List.getElem?_eq_some_iff.mp here with ⟨inside, rfl⟩
        have ranked : j < (team.threads.map rank).length := by rwa [List.length_map]
        have change := sum_set_add ranked (rank k')
        rw [List.getElem_map, ← List.map_set] at change
        have less : ((team.threads.set j k').map rank).sum < n := by omega
        rcases ih _ less (Team.reached_goes here step reached) rfl with
          ⟨turns, last, ran, done, length⟩
        have goes := Team.step_goes admits here step
        exact ⟨j :: turns, last, run_cons_eq_ok_iff.mpr ⟨_, goes, ran⟩, done,
          length.trans (List.length_set ..)⟩

/-! ## One at a time -/

/-- A thread alone is done in one place only. -/
theorem Steps.end_unique {k k' k'' : κ} {s' s'' : σ} {out out' : List ρ}
    (run : Steps prog k s out k' s') (done : prog.done k') (run' : Steps prog k s out' k'' s'')
    (done' : prog.done k'') : k' = k'' := by
  have stays : ∀ {k s out k₁ s₁}, Steps prog k s out k₁ s₁ → prog.done k → k = k₁ := by
    intro k s out k₁ s₁ run done
    induction run with
    | refl => rfl
    | @head k _ _ s _ _ first _ step _ ih =>
        obtain ⟨rfl, rfl, rfl⟩ : k = _ ∧ s = _ ∧ [] = first := by
          simpa using (prog.stops done).symm.trans step
        exact ih done
  induction run generalizing out' with
  | refl => exact stays run' done
  | head step more ih =>
      cases run' with
      | refl => exact (stays (.head step more) done').symm
      | head step' more' =>
          obtain ⟨rfl, rfl, rfl⟩ : _ = _ ∧ _ = _ ∧ _ = _ := by
            simpa using step'.symm.trans step
          exact ih done more'

/-- A thread that has come from a state in which it may begin. -/
def Program.Came (prog : Program κ σ ρ ε) (begins : κ → Prop) (quiet : σ → Prop) (k : κ) (s : σ) :
    Prop :=
  ∃ k₀ s₀ out, begins k₀ ∧ quiet s₀ ∧ Steps prog k₀ s₀ out k s

/-- Each thread has come from a state between two threads, and one at most is not done: what is
shared is as this one has left it. -/
structure Team.OneAtATime (prog : Program κ σ ρ ε) (begins : κ → Prop) (quiet : σ → Prop)
    (team : Team κ σ) : Prop where
  came : ∀ k ∈ team.threads, ∃ s, prog.Came begins quiet k s ∧ (prog.done k ∨ s = team.shared)
  others : ∀ (i j : Nat) (k l : κ), team.threads[i]? = some k → team.threads[j]? = some l → i ≠ j →
    prog.done k ∨ prog.done l
  quiet : (∀ k ∈ team.threads, prog.done k) → quiet team.shared

/-- Where a thread joins only when all others are done, and leaves the shared state as it must
be for the next, each runs as it would alone. -/
theorem Team.oneAtATime {begins : κ → Prop} {quiet : σ → Prop} (start : quiet s)
    (joins : ∀ team k, admits team k = true → begins k ∧ ∀ l ∈ team.threads, prog.done l)
    (leaves : ∀ k s, prog.Came begins quiet k s → prog.done k → quiet s)
    (run : (prog.team admits s).Reached allowed team) :
    team.OneAtATime prog begins quiet := by
  apply run.invariant
  · rintro _ rfl
    exact ⟨by simp, by simp, fun _ => start⟩
  · intro team label after inv _ step
    cases Team.moves_of_step step with
    | @joins k admitted =>
        rcases joins _ _ admitted with ⟨begin, others⟩
        have free := inv.quiet others
        refine ⟨?_, ?_, fun _ => free⟩
        · intro l member
          rcases List.mem_append.mp member with old | new
          · exact inv.came l old
          · obtain rfl := List.mem_singleton.mp new
            exact ⟨team.shared, ⟨l, team.shared, [], begin, free, .refl⟩, .inr rfl⟩
        · intro i j l l' here there ne
          have old (m : Nat) (inside : m < team.threads.length) (a : κ)
              (is : (team.threads ++ [k])[m]? = some a) : prog.done a := by
            rw [List.getElem?_append_left inside] at is
            exact others a (List.mem_of_getElem? is)
          rcases Nat.lt_or_ge i team.threads.length with first | first
          · exact .inl (old i first l here)
          · have bound := (List.getElem?_eq_some_iff.mp there).1
            have bound' := (List.getElem?_eq_some_iff.mp here).1
            simp only [List.length_append, List.length_singleton] at bound bound'
            exact .inr (old j (by omega) l' there)
    | @goes j k k' s' out here next =>
        by_cases done : prog.done k
        · obtain ⟨rfl, rfl, rfl⟩ : k = k' ∧ team.shared = s' ∧ [] = out := by
            simpa using (prog.stops done).symm.trans next
          rcases List.getElem?_eq_some_iff.mp here with ⟨inside, rfl⟩
          rw [List.set_getElem_self]
          exact inv
        · have each (m : Nat) (l : κ) (is : (team.threads.set j k')[m]? = some l) :
              m = j ∧ l = k' ∨ m ≠ j ∧ prog.done l ∧ l ∈ team.threads := by
            by_cases same : j = m
            · subst same
              rw [List.getElem?_set_self (List.getElem?_eq_some_iff.mp here).1] at is
              exact .inl ⟨rfl, (Option.some.inj is).symm⟩
            · rw [List.getElem?_set_ne same] at is
              rcases inv.others j m k l here is same with own | other
              · exact absurd own done
              · exact .inr ⟨Ne.symm same, other, List.mem_of_getElem? is⟩
          rcases inv.came k (List.mem_of_getElem? here) with ⟨_, came, own | rfl⟩
          · exact absurd own done
          rcases came with ⟨k₀, s₀, before, begin, free, steps⟩
          have came : prog.Came begins quiet k' s' :=
            ⟨k₀, s₀, before ++ out, begin, free, steps.trans (.single next)⟩
          refine ⟨?_, ?_, ?_⟩
          · intro l member
            rcases List.mem_iff_getElem?.mp member with ⟨m, is⟩
            rcases each m l is with ⟨_, rfl⟩ | ⟨_, other, old⟩
            · exact ⟨s', came, .inr rfl⟩
            · rcases inv.came l old with ⟨s, came, _⟩
              exact ⟨s, came, .inl other⟩
          · intro i m l l' first second ne
            rcases each i l first with ⟨rfl, _⟩ | ⟨_, other, _⟩
            · rcases each m l' second with ⟨rfl, _⟩ | ⟨_, other, _⟩
              · exact absurd rfl ne
              · exact .inr other
            · exact .inl other
          · intro all
            have here' : k' ∈ team.threads.set j k' :=
              List.mem_set (List.getElem?_eq_some_iff.mp here).1 k'
            exact leaves k' s' came (all k' here')

theorem Team.OneAtATime.safe {begins : κ → Prop} {quiet : σ → Prop}
    (alone : team.OneAtATime prog begins quiet)
    (sound : ∀ k s, prog.Came begins quiet k s → ∀ e, prog.step k s ≠ .error e) :
    team.Safe prog := by
  intro k member e
  rcases alone.came k member with ⟨s, came, done | rfl⟩
  · rw [prog.stops done]
    exact fun failed => by cases failed
  · exact sound k _ came e

end Steps

end OgWebserver.Transition

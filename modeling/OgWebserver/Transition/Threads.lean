import Mathlib.Data.List.Basic

/-!
# Two threads

Two threads take steps on a shared state, in any order.  Each puts out what its client
sees.  When does every interleaving put out what each thread puts out alone?  It is enough
that each thread keeps step with a run of its own, whoever moves.
-/

namespace OgWebserver.Transition

/-- What a thread does: a step may fail, which ends the whole process; a thread that is done
does nothing more. -/
structure Program (κ σ ρ ε : Type) where
  step : κ → σ → Except ε (κ × σ × List ρ)
  done : κ → Prop
  stops : ∀ {k s}, done k → step k s = .ok (k, s, [])

/-- A run of one thread alone, and what it puts out. -/
inductive Steps {κ σ ρ ε : Type} (prog : Program κ σ ρ ε) :
    κ → σ → List ρ → κ → σ → Prop
  | refl {k s} : Steps prog k s [] k s
  | head {k k' k'' s s' s'' first rest} (step : prog.step k s = .ok (k', s', first))
      (run : Steps prog k' s' rest k'' s'') : Steps prog k s (first ++ rest) k'' s''

section Alone

variable {κ σ ρ ε : Type} {prog : Program κ σ ρ ε}
variable {k k' k'' : κ} {s s' s'' : σ} {out out' : List ρ}

/-- The thread alone puts this out and is done. -/
def Gives (prog : Program κ σ ρ ε) (k : κ) (s : σ) (out : List ρ) : Prop :=
  ∃ k' s', Steps prog k s out k' s' ∧ prog.done k'

/-- The thread alone comes to a step that fails. -/
def Fails (prog : Program κ σ ρ ε) (k : κ) (s : σ) : Prop :=
  ∃ out k' s' e, Steps prog k s out k' s' ∧ prog.step k' s' = .error e

theorem Steps.single (step : prog.step k s = .ok (k', s', out)) : Steps prog k s out k' s' := by
  have run := Steps.head step .refl
  rwa [List.append_nil] at run

/-- A step that puts out nothing, and a run. -/
theorem Steps.silent (step : prog.step k s = .ok (k', s', []))
    (run : Steps prog k' s' out k'' s'') : Steps prog k s out k'' s'' :=
  .head step run

theorem Steps.trans (first : Steps prog k s out k' s') (second : Steps prog k' s' out' k'' s'') :
    Steps prog k s (out ++ out') k'' s'' := by
  induction first with
  | refl => exact second
  | head step _ ih =>
      rw [List.append_assoc]
      exact .head step (ih second)

theorem Steps.gives (run : Steps prog k s out k' s') (gives : Gives prog k' s' out') :
    Gives prog k s (out ++ out') := by
  rcases gives with ⟨k'', s'', rest, done⟩
  exact ⟨k'', s'', run.trans rest, done⟩

theorem Steps.fails (run : Steps prog k s out k' s') (fails : Fails prog k' s') :
    Fails prog k s := by
  rcases fails with ⟨out', k'', s'', e, rest, failed⟩
  exact ⟨out ++ out', k'', s'', e, run.trans rest, failed⟩

/-- A thread that will be done takes its next step. -/
theorem Gives.step (gives : Gives prog k s out) :
    ∃ k' s' first rest, prog.step k s = .ok (k', s', first) ∧ out = first ++ rest ∧
      Gives prog k' s' rest := by
  rcases gives with ⟨k', s', run, done⟩
  cases run with
  | refl => exact ⟨k, s, [], [], prog.stops done, rfl, k, s, .refl, done⟩
  | head step run => exact ⟨_, _, _, _, step, rfl, _, _, run, done⟩

/-- What is left of a run that will be done. -/
theorem Gives.rest (run : Steps prog k s out k' s') {all : List ρ} (gives : Gives prog k s all) :
    ∃ rest, all = out ++ rest ∧ Gives prog k' s' rest := by
  induction run generalizing all with
  | refl => exact ⟨all, rfl, gives⟩
  | head step _ ih =>
      rcases gives.step with ⟨k₁, s₁, first, rest, step', rfl, later⟩
      obtain ⟨rfl, rfl, rfl⟩ : k₁ = _ ∧ s₁ = _ ∧ first = _ := by
        simpa using step'.symm.trans step
      rcases ih later with ⟨last, rfl, left⟩
      exact ⟨last, by rw [List.append_assoc], left⟩

theorem Gives.of_done (gives : Gives prog k s out) (done : prog.done k) : out = [] := by
  rcases gives with ⟨k', s', run, -⟩
  induction run with
  | refl => rfl
  | @head k _ _ s _ _ first _ step _ ih =>
      obtain ⟨rfl, rfl, rfl⟩ : k = _ ∧ s = _ ∧ [] = first := by
        simpa using (prog.stops done).symm.trans step
      exact ih done

/-- A thread puts out one thing only. -/
theorem Gives.unique (gives : Gives prog k s out) (gives' : Gives prog k s out') : out = out' := by
  rcases gives with ⟨k', s', run, done⟩
  rcases gives'.rest run with ⟨rest, rfl, last⟩
  rw [last.of_done done, List.append_nil]

/-- There is one state at most in which a thread alone is done. -/
theorem Steps.done_unique (run : Steps prog k s out k' s') (done : prog.done k')
    (run' : Steps prog k s out' k'' s'') (done' : prog.done k'') : out = out' ∧ s' = s'' := by
  have stays : ∀ {k s out k₁ s₁}, Steps prog k s out k₁ s₁ → prog.done k → out = [] ∧ s = s₁ := by
    intro k s out k₁ s₁ run done
    induction run with
    | refl => exact ⟨rfl, rfl⟩
    | @head k _ _ s _ _ first _ step _ ih =>
        obtain ⟨rfl, rfl, rfl⟩ : k = _ ∧ s = _ ∧ [] = first := by
          simpa using (prog.stops done).symm.trans step
        exact ih done
  induction run generalizing out' with
  | refl =>
      rcases stays run' done with ⟨rfl, rfl⟩
      exact ⟨rfl, rfl⟩
  | head step more ih =>
      cases run' with
      | refl =>
          rcases stays (.head step more) done' with ⟨none_, rfl⟩
          exact ⟨none_, rfl⟩
      | head step' more' =>
          obtain ⟨rfl, rfl, rfl⟩ : _ = _ ∧ _ = _ ∧ _ = _ := by
            simpa using step.symm.trans step'
          rcases ih done more' with ⟨rfl, rfl⟩
          exact ⟨rfl, rfl⟩

theorem Gives.not_fails (gives : Gives prog k s out) : ¬ Fails prog k s := by
  rintro ⟨out', k', s', e, run, failed⟩
  rcases gives.rest run with ⟨rest, _, last⟩
  rcases last.step with ⟨_, _, _, _, step, _⟩
  rw [failed] at step
  cases step

end Alone

/-! ## Interleavings -/

/-- Where two threads are, and what they have put out. -/
structure Pair (κ₁ κ₂ σ ρ : Type) where
  left : κ₁
  right : κ₂
  shared : σ
  leftOut : List ρ
  rightOut : List ρ

/-- The states that the threads can reach together. -/
inductive Interleaves {κ₁ κ₂ σ ρ ε : Type} (l : Program κ₁ σ ρ ε) (r : Program κ₂ σ ρ ε) :
    Pair κ₁ κ₂ σ ρ → Pair κ₁ κ₂ σ ρ → Prop
  | refl {c} : Interleaves l r c c
  | left {c c' k s out} (run : Interleaves l r c c')
      (step : l.step c'.left c'.shared = .ok (k, s, out)) :
      Interleaves l r c { c' with left := k, shared := s, leftOut := c'.leftOut ++ out }
  | right {c c' k s out} (run : Interleaves l r c c')
      (step : r.step c'.right c'.shared = .ok (k, s, out)) :
      Interleaves l r c { c' with right := k, shared := s, rightOut := c'.rightOut ++ out }

section Interleaving

variable {κ₁ κ₂ σ ρ ε : Type} (l : Program κ₁ σ ρ ε) (r : Program κ₂ σ ρ ε)

/-- However the threads interleave, no step fails, both can be brought to an end, and what
each has put out then is what it puts out alone. -/
def Isolated (k₁ : κ₁) (k₂ : κ₂) (s : σ) : Prop :=
  ∃ out₁ out₂, Gives l k₁ s out₁ ∧ Gives r k₂ s out₂ ∧
    ∀ c, Interleaves l r ⟨k₁, k₂, s, [], []⟩ c →
      (∀ e, l.step c.left c.shared ≠ .error e) ∧ (∀ e, r.step c.right c.shared ≠ .error e) ∧
      (l.done c.left → c.leftOut = out₁) ∧ (r.done c.right → c.rightOut = out₂) ∧
      ∃ c', Interleaves l r c c' ∧ l.done c'.left ∧ r.done c'.right

variable {l r}

theorem Interleaves.trans {c c' c'' : Pair κ₁ κ₂ σ ρ} (first : Interleaves l r c c')
    (second : Interleaves l r c' c'') : Interleaves l r c c'' := by
  induction second with
  | refl => exact first
  | left _ step ih => exact .left ih step
  | right _ step ih => exact .right ih step

/-- The left thread runs alone for a while. -/
theorem Interleaves.runLeft {c : Pair κ₁ κ₂ σ ρ} {k : κ₁} {s : σ} {out : List ρ}
    (run : Steps l c.left c.shared out k s) :
    Interleaves l r c { c with left := k, shared := s, leftOut := c.leftOut ++ out } := by
  generalize left : c.left = k₀ at run
  generalize shared : c.shared = s₀ at run
  induction run generalizing c with
  | refl =>
      subst left shared
      rw [List.append_nil]
      exact .refl
  | @head _ k' _ _ s' _ first rest step _ ih =>
      subst left shared
      have more := @ih { c with left := k', shared := s', leftOut := c.leftOut ++ first } rfl rfl
      rw [List.append_assoc] at more
      exact (Interleaves.left .refl step).trans more

theorem Interleaves.runRight {c : Pair κ₁ κ₂ σ ρ} {k : κ₂} {s : σ} {out : List ρ}
    (run : Steps r c.right c.shared out k s) :
    Interleaves l r c { c with right := k, shared := s, rightOut := c.rightOut ++ out } := by
  generalize right : c.right = k₀ at run
  generalize shared : c.shared = s₀ at run
  induction run generalizing c with
  | refl =>
      subst right shared
      rw [List.append_nil]
      exact .refl
  | @head _ k' _ _ s' _ first rest step _ ih =>
      subst right shared
      have more := @ih { c with right := k', shared := s', rightOut := c.rightOut ++ first } rfl rfl
      rw [List.append_assoc] at more
      exact (Interleaves.right .refl step).trans more

/-! ## Sides -/

def Pair.swap (c : Pair κ₁ κ₂ σ ρ) : Pair κ₂ κ₁ σ ρ :=
  ⟨c.right, c.left, c.shared, c.rightOut, c.leftOut⟩

theorem Interleaves.swap {c c' : Pair κ₁ κ₂ σ ρ} (run : Interleaves l r c c') :
    Interleaves r l c.swap c'.swap := by
  induction run with
  | refl => exact .refl
  | left _ step ih => exact .right ih step
  | right _ step ih => exact .left ih step

theorem Isolated.symm {k₁ : κ₁} {k₂ : κ₂} {s : σ} (isolated : Isolated l r k₁ k₂ s) :
    Isolated r l k₂ k₁ s := by
  rcases isolated with ⟨out₁, out₂, gives₁, gives₂, all⟩
  refine ⟨out₂, out₁, gives₂, gives₁, ?_⟩
  intro c run
  rcases all c.swap run.swap with ⟨ok₁, ok₂, same₁, same₂, c', more, done₁, done₂⟩
  exact ⟨ok₂, ok₁, same₂, same₁, c'.swap, more.swap, done₂, done₁⟩

/-! ## Keeping step -/

/-- Relations between where a thread is, with the other one and the shared state, and where
it is in a run alone: each step of the run alone is one of the thread, and leaves the other
thread where it is in its own run. -/
structure Tracking (l : Program κ₁ σ ρ ε) (r : Program κ₂ σ ρ ε)
    (T₁ : κ₁ → κ₂ → σ → κ₁ → σ → Prop) (T₂ : κ₂ → κ₁ → σ → κ₂ → σ → Prop) : Prop where
  left : ∀ {k o s a sa b sb a' sa' out}, T₁ k o s a sa → T₂ o k s b sb →
    l.step a sa = .ok (a', sa', out) →
    ∃ k' s', l.step k s = .ok (k', s', out) ∧ T₁ k' o s' a' sa' ∧ T₂ o k' s' b sb
  right : ∀ {k o s a sa b sb b' sb' out}, T₁ k o s a sa → T₂ o k s b sb →
    r.step b sb = .ok (b', sb', out) →
    ∃ o' s', r.step o s = .ok (o', s', out) ∧ T₁ k o' s' a sa ∧ T₂ o' k s' b' sb'
  doneLeft : ∀ {k o s a sa}, T₁ k o s a sa → (l.done k ↔ l.done a)
  doneRight : ∀ {o k s b sb}, T₂ o k s b sb → (r.done o ↔ r.done b)

section Tracked

variable {T₁ : κ₁ → κ₂ → σ → κ₁ → σ → Prop} {T₂ : κ₂ → κ₁ → σ → κ₂ → σ → Prop}

theorem Tracking.symm (tracking : Tracking l r T₁ T₂) : Tracking r l T₂ T₁ where
  left own other step := by
    rcases tracking.right other own step with ⟨k', s', is, other, own⟩
    exact ⟨k', s', is, own, other⟩
  right own other step := by
    rcases tracking.left other own step with ⟨k', s', is, other, own⟩
    exact ⟨k', s', is, own, other⟩
  doneLeft := tracking.doneRight
  doneRight := tracking.doneLeft

/-- The left thread can go on as it would alone. -/
theorem Tracking.finishLeft (tracking : Tracking l r T₁ T₂) {k : κ₁} {o : κ₂} {s : σ}
    {leftOut rightOut rest : List ρ} {a a' : κ₁} {sa sa' : σ} {b : κ₂} {sb : σ}
    (run : Steps l a sa rest a' sa') (own : T₁ k o s a sa) (other : T₂ o k s b sb) :
    ∃ k' s', Interleaves l r ⟨k, o, s, leftOut, rightOut⟩ ⟨k', o, s', leftOut ++ rest, rightOut⟩ ∧
      T₁ k' o s' a' sa' ∧ T₂ o k' s' b sb := by
  induction run generalizing k s leftOut with
  | refl =>
      refine ⟨k, s, ?_, own, other⟩
      rw [List.append_nil]
      exact .refl
  | @head _ _ _ _ _ _ first rest step _ ih =>
      rcases tracking.left own other step with ⟨k', s', is, own, other⟩
      rcases @ih k' s' (leftOut ++ first) own other with ⟨k'', s'', more, own, other⟩
      refine ⟨k'', s'', ?_, own, other⟩
      rw [← List.append_assoc]
      exact (Interleaves.left .refl is).trans more

/-- Both threads keep step with runs alone, whatever the order. -/
theorem Tracking.reached (tracking : Tracking l r T₁ T₂) {c c' : Pair κ₁ κ₂ σ ρ}
    {out₁ out₂ : List ρ} {s : σ} (gives₁ : Gives l c.left s out₁) (gives₂ : Gives r c.right s out₂)
    (run : Interleaves l r c c') (start : c.shared = s ∧ c.leftOut = [] ∧ c.rightOut = [])
    (own : T₁ c.left c.right c.shared c.left s) (other : T₂ c.right c.left c.shared c.right s) :
    ∃ a sa b sb, Steps l c.left s c'.leftOut a sa ∧ Steps r c.right s c'.rightOut b sb ∧
      T₁ c'.left c'.right c'.shared a sa ∧ T₂ c'.right c'.left c'.shared b sb := by
  induction run with
  | refl =>
      refine ⟨_, s, _, s, ?_, ?_, own, other⟩
      · rw [start.2.1]
        exact .refl
      · rw [start.2.2]
        exact .refl
  | left _ step ih =>
      rcases ih with ⟨a, sa, b, sb, runLeft, runRight, own, other⟩
      rcases (gives₁.rest runLeft) with ⟨_, _, later⟩
      rcases later.step with ⟨a', sa', first, _, alone, _, _⟩
      rcases tracking.left own other alone with ⟨k', s', is, own, other⟩
      obtain ⟨rfl, rfl, rfl⟩ : k' = _ ∧ s' = _ ∧ first = _ := by
        simpa using is.symm.trans step
      exact ⟨a', sa', b, sb, runLeft.trans (.single alone), runRight, own, other⟩
  | right _ step ih =>
      rcases ih with ⟨a, sa, b, sb, runLeft, runRight, own, other⟩
      rcases (gives₂.rest runRight) with ⟨_, _, later⟩
      rcases later.step with ⟨b', sb', first, _, alone, _, _⟩
      rcases tracking.right own other alone with ⟨o', s', is, own, other⟩
      obtain ⟨rfl, rfl, rfl⟩ : o' = _ ∧ s' = _ ∧ first = _ := by
        simpa using is.symm.trans step
      exact ⟨a, sa, b', sb', runLeft, runRight.trans (.single alone), own, other⟩

/-- Threads that keep step with runs alone are isolated. -/
theorem Tracking.isolated (tracking : Tracking l r T₁ T₂) {k₁ : κ₁} {k₂ : κ₂} {s : σ}
    {out₁ out₂ : List ρ} (gives₁ : Gives l k₁ s out₁) (gives₂ : Gives r k₂ s out₂)
    (own : T₁ k₁ k₂ s k₁ s) (other : T₂ k₂ k₁ s k₂ s) : Isolated l r k₁ k₂ s := by
  refine ⟨out₁, out₂, gives₁, gives₂, ?_⟩
  intro c run
  rcases @Tracking.reached _ _ _ _ _ _ _ _ _ tracking ⟨k₁, k₂, s, [], []⟩ c _ _ s gives₁ gives₂ run
    ⟨rfl, rfl, rfl⟩ own other with ⟨a, sa, b, sb, runLeft, runRight, own, other⟩
  rcases gives₁.rest runLeft with ⟨rest₁, is₁, left₁⟩
  rcases gives₂.rest runRight with ⟨rest₂, is₂, left₂⟩
  refine ⟨?_, ?_, ?_, ?_, ?_⟩
  · intro e failed
    rcases left₁.step with ⟨_, _, _, _, alone, _⟩
    rcases tracking.left own other alone with ⟨_, _, is, _⟩
    rw [failed] at is
    cases is
  · intro e failed
    rcases left₂.step with ⟨_, _, _, _, alone, _⟩
    rcases tracking.right own other alone with ⟨_, _, is, _⟩
    rw [failed] at is
    cases is
  · intro done
    rw [is₁, left₁.of_done ((tracking.doneLeft own).mp done), List.append_nil]
  · intro done
    rw [is₂, left₂.of_done ((tracking.doneRight other).mp done), List.append_nil]
  · rcases left₁ with ⟨a', sa', last₁, done₁⟩
    rcases left₂ with ⟨b', sb', last₂, done₂⟩
    rcases @Tracking.finishLeft _ _ _ _ _ _ _ _ _ tracking _ _ _ c.leftOut c.rightOut _ _ _ _ _ _ _
      last₁ own other with ⟨k', s', first, own, other⟩
    rcases @Tracking.finishLeft _ _ _ _ _ _ _ _ _ tracking.symm _ _ _ c.rightOut
      (c.leftOut ++ rest₁) _ _ _ _ _ _ _ last₂ other own with ⟨o', s'', second, other, own⟩
    exact ⟨_, first.trans second.swap, (tracking.doneLeft own).mpr done₁,
      (tracking.doneRight other).mpr done₂⟩

end Tracked

end Interleaving

end OgWebserver.Transition

import OgWebserver.Worker.Epoll

/-!
# Staying in service

The event loop is to serve for ever, whatever clients do.  It ends when `accept` fails, which
a client can bring about that is gone again before it is accepted, and when a signal kills the
process.  Nothing else that clients can do ends it.
-/

namespace OgWebserver.Worker

open Text Transition Socket

/-- The loop goes on. -/
def EventLoop.running : EventLoop → Bool
  | .removing _ | .closing _ | .ended _ => false
  | .waiting | .events _ | .adding _ | .handling _ _ => true

/-- Neither `epoll` nor the listening socket are in trouble. -/
def EpollLabel.healthy : EpollLabel → Bool
  | .waits batch => batch.all fun ev => ev.registered != .server || !ev.hangup
  | .waitFails => false
  | .adds ok => ok
  | _ => true

/-- No connection is there to be accepted any more, or the process is killed. -/
def EpollLabel.fatal : EpollLabel → Bool
  | .acceptFails errno => errno != eintr
  | .dies => true
  | _ => false

namespace Epoll

variable {sockFd : Nat} {s t : Epoll}

/-- The loop goes on, and the listening socket is open. -/
def Serving (sockFd : Nat) (s : Epoll) : Prop :=
  s.loop.running = true ∧ s.pool.process.opener sockFd = some .server

/-- No event tells of an error on the listening socket. -/
def Calm (s : Epoll) : Prop :=
  ∀ ev ∈ s.loop.todo, ev.registered = .server → ev.hangup = false

/-- Only the listening socket has its descriptor. -/
theorem Invariant.dataFd_ne (inv : s.Invariant sockFd) {ev : Ready} {r : Nat}
    (pending : ev ∈ s.loop.todo) (connection : ev.registered = .request r) :
    s.pool.dataFd sockFd ev.registered ≠ some sockFd := by
  rcases inv.pending ev pending r connection with ⟨_, q, here, queued⟩
  have own := (inv.sound.owns r q here).held q.fd (by simp [queued, Phase.held])
  simp only [connection, Pool.dataFd, here, Option.map_some]
  intro same
  rw [Option.some.inj same, inv.listening] at own
  cases own

/-- While a request is handled, the loop has its events still to come. -/
theorem Invariant.after_running (inv : s.Invariant sockFd) {r : Nat} {todo : List Ready}
    {call : Call} {pool : Pool} (called : s.pool.call false r call = .ok pool) :
    (pool.after r todo).running = true ∧ (pool.after r todo).todo = todo := by
  rcases Pool.call_eq_ok_iff.mp called with ⟨q, phase, p, here, next, performed, rfl⟩
  unfold Pool.after
  rw [Pool.set_self, Option.map_some]
  split
  · exact ⟨rfl, rfl⟩
  · rename_i exited
    exact absurd (Option.some.inj exited) (inv.not_exited here next performed)
  · exact ⟨rfl, rfl⟩

theorem begin_runs {phase : Phase} {todo : List Ready} {opener : Opener}
    (began : s.begin phase todo opener = .ok t)
    (calm : ∀ ev ∈ todo, ev.registered = .server → ev.hangup = false) :
    t.loop.running = true ∧ t.Calm := by
  cases opener with
  | server => cases began
  | request r =>
      rcases bind_eq_ok_iff.mp began with ⟨pool, _, same⟩
      obtain rfl := Except.ok.inj same
      exact ⟨rfl, calm⟩

/-- The loop goes on in a step that is not fatal. -/
theorem Invariant.runs (inv : s.Invariant sockFd) (running : s.loop.running = true)
    (calm : s.Calm) {label : EpollLabel} (healthy : label.healthy = true)
    (harmless : label.fatal = false) (step : s.step sockFd label = .ok t) :
    t.loop.running = true ∧ t.Calm := by
  have later : ∀ {ev todo}, s.loop = .events (ev :: todo) →
      ∀ ev ∈ todo, ev.registered = .server → ev.hangup = false := by
    intro ev todo events other member
    apply calm other
    rw [events]
    exact List.mem_cons_of_mem ev member
  cases moves_of_step step with
  | waits waiting _ _ =>
      refine ⟨rfl, ?_⟩
      intro ev member listener
      have fine := List.all_eq_true.mp healthy ev member
      simpa [listener] using fine
  | waitFails waiting => cases healthy
  | batchEnds events => exact ⟨rfl, by simp [Calm, EventLoop.todo]⟩
  | @listenerFails ev _ events hangup listener =>
      have first : ev ∈ s.loop.todo := by
        rw [events]
        exact List.mem_cons_self
      cases opener : ev.registered with
      | server =>
          rw [calm ev first opener] at hangup
          cases hangup
      | request r => exact absurd listener (inv.dataFd_ne first opener)
  | begins events _ began => exact begin_runs began (later events)
  | skips events _ _ => exact ⟨rfl, later events⟩
  | accepts events _ _ _ => exact ⟨rfl, later events⟩
  | interrupted events => exact ⟨running, calm⟩
  | acceptFails events fails => exact absurd (by simpa [EpollLabel.fatal] using harmless) fails
  | adds adding =>
      refine ⟨rfl, ?_⟩
      intro ev member
      apply calm ev
      rw [adding]
      exact member
  | addFails adding => cases healthy
  | calls handling _ called =>
      rcases inv.after_running called with ⟨goes, same⟩
      refine ⟨goes, ?_⟩
      intro ev member
      apply calm ev
      rw [handling]
      exact same ▸ member
  | removes removing =>
      rw [removing] at running
      cases running
  | closes closing =>
      rw [closing] at running
      cases running
  | dies handling => cases harmless

/-- In a run in which no `accept` fails, except by an interruption, and no signal kills the
process, the server stays in service, whatever else clients do. -/
theorem serving_of_reached
    (run : (epoll sockFd).Reached
      (fun label => label.healthy = true ∧ label.fatal = false) s) :
    s.Serving sockFd := by
  have all : s.Invariant sockFd ∧ s.loop.running = true ∧ s.Calm := by
    apply run.invariant
    · intro s init
      refine ⟨invariant_init init, ?_⟩
      rw [Calm, init.2.2]
      simp [EventLoop.running, EventLoop.todo]
    · rintro s label t ⟨inv, running, calm⟩ ⟨healthy, harmless⟩ step
      have more := inv.runs running calm healthy harmless step
      rcases inv.step step with inv' | ⟨ending, ended⟩
      · exact ⟨inv', more⟩
      · rw [ended] at more
        cases more.1
  exact ⟨all.2.1, all.1.listening⟩

theorem serving_of_renewed :
    ∃ s : Epoll, s.loop = .waiting ∧ s.Serving 3 := by
  have ends : (epoll 3).ends idle renewed (fun s => decide (s.loop = .waiting)) = true := by
    decide
  have fine : ∀ label ∈ renewed, label.healthy = true ∧ label.fatal = false := by decide
  rcases System.exists_reached init_idle fine ends with ⟨s, run, waiting⟩
  exact ⟨s, of_decide_eq_true waiting, serving_of_reached run⟩

/-- A connection is reset before it is accepted. -/
def reset : List EpollLabel :=
  [.waits [{ registered := .server, hangup := false, input := true }],
    .acceptFails eagain, .call .removes, .call (.closes 3)]

theorem reset_ends_service :
    ∃ s : Epoll, (epoll 3).Reached (fun label => label.healthy = true ∧ label ≠ .dies) s ∧
      s.loop = .ended .returned ∧ s.pool.process.opener 3 = none ∧ ¬ s.Serving 3 := by
  have ends : (epoll 3).ends idle reset (fun s => decide (s.loop = .ended .returned ∧
      s.pool.process.opener 3 = none)) = true := by
    decide
  have fine : ∀ label ∈ reset, label.healthy = true ∧ label ≠ .dies := by decide
  rcases System.exists_reached init_idle fine ends with ⟨s, run, both⟩
  rcases of_decide_eq_true both with ⟨ended, closed⟩
  refine ⟨s, run, ended, closed, ?_⟩
  rintro ⟨running, _⟩
  rw [ended] at running
  cases running

end Epoll

end OgWebserver.Worker

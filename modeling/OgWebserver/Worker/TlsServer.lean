import OgWebserver.Worker.Ownership

/-!
# The threads of the TLS server

`tlsServer` accepts connections and starts a thread for each.  The threads and the accept
loop take their system calls in any order.  Descriptors stay with the requests that have
opened them, as long as no upstream breaks off: then `recvData` closes the upstream, and the
handler closes it again, whoever has its number by now.
-/

namespace OgWebserver.Worker

open Text Transition

/-- Where the accept loop is. -/
inductive AcceptLoop
  | accepting
  | queueing (r : Nat)
  | creating (r : Nat)
  /-- At the `cleanup` of the listening socket. -/
  | removing
  | closing
  | returned
  deriving DecidableEq

structure TlsServer where
  pool : Pool
  main : AcceptLoop

/-- A step of the accept loop or of a thread. -/
inductive TlsLabel
  | accepts (r n : Nat) (ip : Bytes)
  | acceptFails
  | queues
  /-- `pthread_create`. -/
  | creates (started : Bool)
  | call (who : Opener) (call : Call)
  deriving DecidableEq

/-- The accept loop, and beside it the threads. -/
def TlsServer.step (sockFd : Nat) (s : TlsServer) : TlsLabel → Except Unit TlsServer
  | .accepts r n ip =>
      match s.main with
      | .accepting => do
          let pool ← s.pool.accept r n ip
          .ok { pool := pool, main := .queueing r }
      | _ => .error ()
  | .acceptFails =>
      match s.main with
      | .accepting => .ok { s with main := .removing }
      | _ => .error ()
  | .queues =>
      match s.main with
      | .queueing r => do
          let pool ← s.pool.call true r .queues
          .ok { pool := pool, main := .creating r }
      | _ => .error ()
  | .creates started =>
      match s.main with
      | .creating r =>
          if started then do
            let pool ← s.pool.call true r .starts
            .ok { pool := pool, main := .accepting }
          else .ok { s with main := .accepting }
      | _ => .error ()
  | .call .server call =>
      match s.main, call with
      | .removing, .removes =>
          .ok
            { pool := { s.pool with process := s.pool.process.remove sockFd }
              main := .closing }
      | .closing, .closes n =>
          if n = sockFd then
            .ok
              { pool := { s.pool with process := s.pool.process.close sockFd }
                main := .returned }
          else .error ()
      | _, _ => .error ()
  | .call (.request r) call =>
      if call.ofThread then do
        let pool ← s.pool.call true r call
        .ok { s with pool := pool }
      else .error ()

/-- `tlsServer`, behind `createBindAndListen`. -/
def tlsServer (sockFd : Nat) : System TlsServer TlsLabel where
  init s := s.pool.process.Fresh sockFd ∧ (∀ r, s.pool.requests r = none) ∧ s.main = .accepting
  step := TlsServer.step sockFd

/-- Whatever is closed next is open, and has been opened by whoever closes it; and the list
has each descriptor once. -/
def TlsServer.DescriptorsOwned (sockFd : Nat) (s : TlsServer) : Prop :=
  (∀ who n t, s.step sockFd (.call who (.closes n)) = .ok t →
    s.pool.process.opener n = some who) ∧
  UniqueFds s.pool.process.clients

/-- An upstream breaks off: `recv` fails there, and not because it would block or has been
interrupted. -/
def TlsLabel.breaksOff : TlsLabel → Bool
  | .call (.request _) .receiveFails => true
  | _ => false

/-- What holds as long as no upstream breaks off. -/
structure TlsServer.Invariant (sockFd : Nat) (s : TlsServer) : Prop where
  sound : s.pool.Sound
  unfailed : ∀ r q, s.pool.requests r = some q → q.phase.failed = false
  listening : s.main ≠ .returned → s.pool.process.opener sockFd = some .server

namespace TlsServer

variable {sockFd : Nat} {s t : TlsServer}

theorem Invariant.settled (inv : s.Invariant sockFd) (r : Nat) : s.pool.Settled r :=
  fun r' q' _ there => Phase.stale_of_not_failed (inv.unfailed r' q' there)

theorem invariant_init (init : (tlsServer sockFd).init s) : s.Invariant sockFd := by
  rcases init with ⟨fresh, none, _⟩
  constructor
  · exact Pool.Sound.start fresh none
  · intro r q here
    rw [none r] at here
    cases here
  · intro _
    exact fresh.listening

/-- A call on behalf of a request keeps the invariant. -/
theorem Invariant.call (inv : s.Invariant sockFd) {r : Nat} {call : Call} {pool : Pool}
    {main : AcceptLoop} (called : s.pool.call true r call = .ok pool)
    (succeeds : call ≠ .receiveFails) (running : main ≠ .returned → s.main ≠ .returned) :
    Invariant sockFd { pool := pool, main := main } := by
  have sound := inv.sound.step (inv.settled r) called
  rcases Pool.call_eq_ok_iff.mp called with ⟨q, phase, p, here, next, performed, rfl⟩
  constructor
  · exact sound
  · intro r' q' there
    by_cases same : r' = r
    · subst same
      obtain rfl := Option.some.inj ((Pool.set_self p).symm.trans there)
      exact Phase.next_failed next (inv.unfailed r' q here) succeeds
    · exact inv.unfailed r' q' ((Pool.set_of_ne same p).symm.trans there)
  · intro open_
    apply (inv.sound.owns r q here).frame next performed _ (inv.listening (running open_))
    simp

theorem Invariant.accept (inv : s.Invariant sockFd) {r n : Nat} {ip : Bytes} {pool : Pool}
    {main : AcceptLoop} (accepted : s.pool.accept r n ip = .ok pool)
    (running : s.main ≠ .returned) : Invariant sockFd { pool := pool, main := main } := by
  have sound := inv.sound.accept (inv.settled r) accepted
  rcases Pool.accept_eq_ok_iff.mp accepted with ⟨new, fresh, rfl⟩
  constructor
  · exact sound
  · intro r' q' there
    by_cases same : r' = r
    · subst same
      obtain rfl := Option.some.inj ((Pool.set_self _).symm.trans there)
      rfl
    · exact inv.unfailed r' q' ((Pool.set_of_ne same _).symm.trans there)
  · intro _
    exact Holders.take_of_held fresh (inv.listening running)

/-- What a step can be, and what it does. -/
inductive Moves (sockFd : Nat) (s : TlsServer) : TlsLabel → TlsServer → Prop
  | accepts {r n ip pool} (main : s.main = .accepting)
      (accepted : s.pool.accept r n ip = .ok pool) :
      Moves sockFd s (.accepts r n ip) { pool := pool, main := .queueing r }
  | acceptFails (main : s.main = .accepting) :
      Moves sockFd s .acceptFails { s with main := .removing }
  | queues {r pool} (main : s.main = .queueing r)
      (called : s.pool.call true r .queues = .ok pool) :
      Moves sockFd s .queues { pool := pool, main := .creating r }
  | starts {r pool} (main : s.main = .creating r)
      (called : s.pool.call true r .starts = .ok pool) :
      Moves sockFd s (.creates true) { pool := pool, main := .accepting }
  | createFails {r} (main : s.main = .creating r) :
      Moves sockFd s (.creates false) { s with main := .accepting }
  | removes (main : s.main = .removing) :
      Moves sockFd s (.call .server .removes)
        { pool := { s.pool with process := s.pool.process.remove sockFd }, main := .closing }
  | closes (main : s.main = .closing) :
      Moves sockFd s (.call .server (.closes sockFd))
        { pool := { s.pool with process := s.pool.process.close sockFd }, main := .returned }
  | calls {r call pool} (ofThread : call.ofThread = true)
      (called : s.pool.call true r call = .ok pool) :
      Moves sockFd s (.call (.request r) call) { s with pool := pool }

theorem moves_accepts {r n : Nat} {ip : Bytes} (step : s.step sockFd (.accepts r n ip) = .ok t) :
    Moves sockFd s (.accepts r n ip) t := by
  simp only [TlsServer.step] at step
  cases main : s.main with
  | accepting =>
      simp only [main] at step
      rcases bind_eq_ok_iff.mp step with ⟨pool, accepted, same⟩
      obtain rfl := Except.ok.inj same
      exact .accepts main accepted
  | _ => simp [main] at step

theorem moves_acceptFails (step : s.step sockFd .acceptFails = .ok t) :
    Moves sockFd s .acceptFails t := by
  simp only [TlsServer.step] at step
  cases main : s.main with
  | accepting =>
      simp only [main] at step
      obtain rfl := Except.ok.inj step
      exact .acceptFails main
  | _ => simp [main] at step

theorem moves_queues (step : s.step sockFd .queues = .ok t) : Moves sockFd s .queues t := by
  simp only [TlsServer.step] at step
  cases main : s.main with
  | queueing r =>
      simp only [main] at step
      rcases bind_eq_ok_iff.mp step with ⟨pool, called, same⟩
      obtain rfl := Except.ok.inj same
      exact .queues main called
  | _ => simp [main] at step

theorem moves_creates {started : Bool} (step : s.step sockFd (.creates started) = .ok t) :
    Moves sockFd s (.creates started) t := by
  simp only [TlsServer.step] at step
  cases main : s.main with
  | creating r =>
      simp only [main] at step
      cases started with
      | true =>
          rcases bind_eq_ok_iff.mp step with ⟨pool, called, same⟩
          obtain rfl := Except.ok.inj same
          exact .starts main called
      | false =>
          obtain rfl := Except.ok.inj step
          exact .createFails main
  | _ => simp [main] at step

theorem moves_request {r : Nat} {call : Call}
    (step : s.step sockFd (.call (.request r) call) = .ok t) :
    Moves sockFd s (.call (.request r) call) t := by
  simp only [TlsServer.step] at step
  by_cases ofThread : call.ofThread = true
  · rw [if_pos ofThread] at step
    rcases bind_eq_ok_iff.mp step with ⟨pool, called, same⟩
    obtain rfl := Except.ok.inj same
    exact .calls ofThread called
  · rw [if_neg ofThread] at step
    cases step

/-- The main thread calls at its own `cleanup` only. -/
theorem moves_server {call : Call} (step : s.step sockFd (.call .server call) = .ok t) :
    Moves sockFd s (.call .server call) t := by
  cases main : s.main with
  | removing =>
      cases call with
      | removes =>
          simp only [TlsServer.step, main] at step
          obtain rfl := Except.ok.inj step
          exact .removes main
      | _ => simp [TlsServer.step, main] at step
  | closing =>
      cases call with
      | closes n =>
          simp only [TlsServer.step, main] at step
          by_cases listener : n = sockFd
          · rw [if_pos listener] at step
            obtain rfl := Except.ok.inj step
            exact listener ▸ .closes main
          · rw [if_neg listener] at step
            cases step
      | _ => simp [TlsServer.step, main] at step
  | _ => simp [TlsServer.step, main] at step

theorem moves_of_step {label : TlsLabel} (step : s.step sockFd label = .ok t) :
    Moves sockFd s label t := by
  cases label with
  | accepts r n ip => exact moves_accepts step
  | acceptFails => exact moves_acceptFails step
  | queues => exact moves_queues step
  | creates started => exact moves_creates step
  | call who call =>
      cases who with
      | request r => exact moves_request step
      | server => exact moves_server step

theorem Invariant.step (inv : s.Invariant sockFd) {label : TlsLabel}
    (succeeds : label.breaksOff = false) (step : s.step sockFd label = .ok t) :
    t.Invariant sockFd := by
  cases moves_of_step step with
  | accepts main accepted => exact inv.accept accepted (by simp [main])
  | acceptFails main =>
      exact ⟨inv.sound, inv.unfailed, fun _ => inv.listening (by simp [main])⟩
  | queues main called => exact inv.call called (by simp) (by simp [main])
  | starts main called => exact inv.call called (by simp) (by simp [main])
  | createFails main =>
      exact ⟨inv.sound, inv.unfailed, fun _ => inv.listening (by simp [main])⟩
  | removes main =>
      have own := inv.listening (by simp [main])
      rw [inv.sound.remove_server inv.settled own]
      exact ⟨inv.sound, inv.unfailed, fun _ => own⟩
  | closes main =>
      have own := inv.listening (by simp [main])
      exact ⟨inv.sound.close_server inv.settled own, inv.unfailed, by simp⟩
  | calls _ called =>
      apply inv.call called _ id
      rintro rfl
      cases succeeds

/-- As long as no upstream has broken off, descriptors are closed by their owners. -/
theorem Invariant.owned (inv : s.Invariant sockFd) : s.DescriptorsOwned sockFd := by
  refine ⟨?_, inv.sound.unique⟩
  intro who n t step
  cases moves_of_step step with
  | closes main => exact inv.listening (by simp [main])
  | @calls r _ _ _ called =>
      rcases Pool.call_eq_ok_iff.mp called with ⟨q, phase, p, here, next, _, _⟩
      rcases (inv.sound.owns r q here).closes next with own | stale
      · exact own
      · rw [Phase.stale_of_not_failed (inv.unfailed r q here)] at stale
        cases stale

/-- In a run in which no upstream breaks off, each descriptor is closed by the request that
has opened it, and no descriptor is in the list twice. -/
theorem descriptorsOwned_of_reached
    (run : (tlsServer sockFd).Reached (fun label => label.breaksOff = false) s) :
    s.DescriptorsOwned sockFd := by
  have inv : s.Invariant sockFd := by
    apply run.invariant
    · exact fun _ init => invariant_init init
    · exact fun _ _ _ inv succeeds step => inv.step succeeds step
  exact inv.owned

/-- A server with the listening socket 3, and nothing else open. -/
def idle : TlsServer :=
  { pool := { process := listening 3, requests := fun _ => none }
    main := .accepting }

theorem init_idle : (tlsServer 3).init idle :=
  ⟨fresh_listening 3, fun _ => rfl, rfl⟩

/-- A client is connected, and its request forwarded. -/
def forwarded : List TlsLabel :=
  [.accepts 0 5 (bytes "10.0.0.1"), .queues, .creates true,
    .call (.request 0) .proceeds, .call (.request 0) (.opens .upstream 6),
    .call (.request 0) .proceeds,
    .call (.request 0) (.getsClient (some { fd := 5, ip := bytes "10.0.0.1" }))]

theorem descriptorsOwned_of_forwarded :
    ∃ s : TlsServer, s.DescriptorsOwned 3 ∧ s.pool.process.opener 6 = some (.request 0) := by
  have ends : (tlsServer 3).ends idle forwarded
      (fun s => decide (s.pool.process.opener 6 = some (.request 0))) = true := by
    decide
  have steady : ∀ label ∈ forwarded, label.breaksOff = false := by decide
  rcases System.exists_reached init_idle steady ends with ⟨s, run, own⟩
  exact ⟨s, descriptorsOwned_of_reached run, of_decide_eq_true own⟩

/-- The upstream breaks off, and the next client gets its descriptor. -/
def reused : List TlsLabel :=
  forwarded ++
    [.call (.request 0) .receiveFails, .call (.request 0) (.closes 6),
      .accepts 1 6 (bytes "10.0.0.2"), .queues, .creates true]

/-- Then the first request closes the socket of the second one, and a third one gets an entry
with the same descriptor. -/
def closedTwice : List TlsLabel :=
  reused ++ [.call (.request 0) (.closes 6), .accepts 2 6 (bytes "10.0.0.3"), .queues]

theorem broken_upstream_closes_other :
    (∃ s t, (tlsServer 3).Reachable s ∧
      s.step 3 (.call (.request 0) (.closes 6)) = .ok t ∧
      s.pool.process.opener 6 = some (.request 1)) ∧
    ∃ s, (tlsServer 3).Reachable s ∧ ¬ UniqueFds s.pool.process.clients := by
  constructor
  · have ends : (tlsServer 3).ends idle reused (fun s =>
        (s.step 3 (.call (.request 0) (.closes 6))).isOk &&
          decide (s.pool.process.opener 6 = some (.request 1))) = true := by
      decide
    rcases System.exists_reached init_idle (fun _ _ => trivial) ends with ⟨s, run, both⟩
    rcases (Bool.and_eq_true _ _).mp both with ⟨closes, own⟩
    cases step : s.step 3 (.call (.request 0) (.closes 6)) with
    | error e =>
        rw [step] at closes
        cases closes
    | ok t => exact ⟨s, t, run, step, of_decide_eq_true own⟩
  · have ends : (tlsServer 3).ends idle closedTwice
        (fun s => decide (¬ UniqueFds s.pool.process.clients)) = true := by
      decide
    rcases System.exists_reached init_idle (fun _ _ => trivial) ends with ⟨s, run, twice⟩
    exact ⟨s, run, of_decide_eq_true twice⟩

end TlsServer

end OgWebserver.Worker

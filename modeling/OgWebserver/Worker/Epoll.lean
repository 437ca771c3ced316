import OgWebserver.Socket.RecvData
import OgWebserver.Worker.Ownership

/-!
# The event loop of the plain server

`server` waits for events and handles them one after another, each to its end.  Whatever
happens to the connections, the client list is that of the connections not yet cleaned up
whenever the loop waits.  The loop itself goes on only as long as `accept` does not fail and
nothing kills the process.
-/

namespace OgWebserver.Worker

open Text Transition Socket

/-- An event for a registered descriptor: that of the listening socket or of a connection. -/
structure Ready where
  registered : Opener
  /-- One of `EPOLLERR`, `EPOLLHUP` and `EPOLLRDHUP`. -/
  hangup : Bool
  /-- `EPOLLIN`. -/
  input : Bool
  deriving DecidableEq

/-- How the process ends. -/
inductive Ending
  /-- `server` returns. -/
  | returned
  /-- `exit(1)`. -/
  | exited
  /-- By a signal. -/
  | killed
  deriving DecidableEq

/-- Where the loop is, and which events it still has to handle. -/
inductive EventLoop
  | waiting
  | events (todo : List Ready)
  /-- At the `epoll_ctl` for a new connection. -/
  | adding (todo : List Ready)
  /-- In `processInput` or `cleanup` of a connection. -/
  | handling (r : Nat) (todo : List Ready)
  /-- At the `cleanup` of the listening socket. -/
  | removing (ending : Ending)
  | closing (ending : Ending)
  | ended (ending : Ending)
  deriving DecidableEq

structure Epoll where
  pool : Pool
  loop : EventLoop

/-- What the loop does next, with what its surroundings decide. -/
inductive EpollLabel
  /-- `epoll_wait` returns with these events. -/
  | waits (batch : List Ready)
  /-- It fails with an `errno` other than `EINTR`. -/
  | waitFails
  /-- The next event of the batch, or its end, where no call can fail. -/
  | next
  | accepts (r n : Nat) (ip : Bytes)
  | acceptFails (errno : Nat)
  /-- `epoll_ctl`. -/
  | adds (ok : Bool)
  | call (call : Call)
  /-- A signal kills the process, as `SIGSEGV` does, or `SIGPIPE` at a `send` to a client that
  has gone. -/
  | dies
  deriving DecidableEq

/-- `epoll_event.data.fd`, as `epoll_ctl` has been given it. -/
def Pool.dataFd (sockFd : Nat) (pool : Pool) : Opener → Option Nat
  | .server => some sockFd
  | .request r => (pool.requests r).map (·.fd)

/-- Is it in the interest list?  A connection is from `epoll_ctl` until its socket is closed. -/
def Pool.registers (pool : Pool) : Opener → Bool
  | .server => true
  | .request r => (pool.requests r).any (·.phase == .queued)

/-- The handling of an event for a connection begins, wherever the connection is. -/
def Pool.enter (pool : Pool) (r : Nat) (phase : Phase) : Except Unit Pool :=
  match pool.requests r with
  | none => .error ()
  | some q => .ok (pool.set r { q with phase := phase } pool.process)

/-- Behind a call of the request that is handled. -/
def Pool.after (pool : Pool) (r : Nat) (todo : List Ready) : EventLoop :=
  match (pool.requests r).map Request.phase with
  | some .done => .events todo
  | some .exited => .ended .exited
  | _ => .handling r todo

/-- The connection of an event goes to this phase. -/
def Epoll.begin (s : Epoll) (phase : Phase) (todo : List Ready) : Opener → Except Unit Epoll
  | .server => .error ()
  | .request r => do
      let pool ← s.pool.enter r phase
      .ok { pool := pool, loop := .handling r todo }

/-- `server`, behind `createBindAndListen`. -/
def Epoll.step (sockFd : Nat) (s : Epoll) : EpollLabel → Except Unit Epoll
  | .waits batch =>
      match s.loop with
      | .waiting =>
          if (batch.map (·.registered)).Nodup ∧
              batch.all (fun ev => s.pool.registers ev.registered) then
            .ok { s with loop := .events batch }
          else .error ()
      | _ => .error ()
  | .waitFails =>
      match s.loop with
      | .waiting => .ok { s with loop := .removing .returned }
      | _ => .error ()
  | .next =>
      match s.loop with
      | .events [] => .ok { s with loop := .waiting }
      | .events (ev :: todo) =>
          if ev.hangup then
            if s.pool.dataFd sockFd ev.registered = some sockFd then
              .ok { s with loop := .removing .exited }
            else s.begin (.removing false) todo ev.registered
          else if ev.input then
            if s.pool.dataFd sockFd ev.registered = some sockFd then .error ()
            else s.begin .reading todo ev.registered
          else .ok { s with loop := .events todo }
      | _ => .error ()
  | .accepts r n ip =>
      match s.loop with
      | .events (ev :: todo) =>
          if !ev.hangup && ev.input && s.pool.dataFd sockFd ev.registered = some sockFd then do
            let pool ← s.pool.accept r n ip
            let pool ← pool.call false r .queues
            .ok { pool := pool, loop := .adding todo }
          else .error ()
      | _ => .error ()
  | .acceptFails errno =>
      match s.loop with
      | .events (ev :: _) =>
          if !ev.hangup && ev.input && s.pool.dataFd sockFd ev.registered = some sockFd then
            -- `accept` is called again
            if errno = eintr then .ok s else .ok { s with loop := .removing .returned }
          else .error ()
      | _ => .error ()
  | .adds ok =>
      match s.loop with
      | .adding todo => .ok { s with loop := if ok then .events todo else .removing .exited }
      | _ => .error ()
  | .call call =>
      match s.loop, call with
      | .handling r todo, call =>
          if call.ofThread then do
            let pool ← s.pool.call false r call
            .ok { pool := pool, loop := pool.after r todo }
          else .error ()
      | .removing ending, .removes =>
          .ok
            { pool := { s.pool with process := s.pool.process.remove sockFd }
              loop := .closing ending }
      | .closing ending, .closes n =>
          if n = sockFd then
            .ok
              { pool := { s.pool with process := s.pool.process.close sockFd }
                loop := .ended ending }
          else .error ()
      | _, _ => .error ()
  | .dies =>
      match s.loop with
      | .handling _ _ => .ok { s with loop := .ended .killed }
      | _ => .error ()

/-- The event loop: the server has opened the listening socket and whatever else is open, and
waits for the first time. -/
def epoll (sockFd : Nat) : System Epoll EpollLabel where
  init s := s.pool.process.Fresh sockFd ∧ (∀ r, s.pool.requests r = none) ∧ s.loop = .waiting
  step := Epoll.step sockFd

theorem Pool.registers_request_iff {pool : Pool} {r : Nat} :
    pool.registers (.request r) = true ↔
      ∃ q, pool.requests r = some q ∧ q.phase = .queued := by
  unfold Pool.registers
  cases here : pool.requests r <;> simp [here]

theorem Pool.enter_eq_ok_iff {pool pool' : Pool} {r : Nat} {phase : Phase} :
    pool.enter r phase = .ok pool' ↔
      ∃ q, pool.requests r = some q ∧
        pool' = pool.set r { q with phase := phase } pool.process := by
  unfold Pool.enter
  cases pool.requests r <;> simp [@eq_comm _ pool']

/-! ## Single steps -/

/-- The steps of the loop, with what they depend on. -/
inductive Epoll.Moves (sockFd : Nat) (s : Epoll) : EpollLabel → Epoll → Prop
  | waits {batch} (waiting : s.loop = .waiting) (distinct : (batch.map (·.registered)).Nodup)
      (registered : batch.all (fun ev => s.pool.registers ev.registered) = true) :
      Moves sockFd s (.waits batch) { s with loop := .events batch }
  | waitFails (waiting : s.loop = .waiting) :
      Moves sockFd s .waitFails { s with loop := .removing .returned }
  | batchEnds (events : s.loop = .events []) : Moves sockFd s .next { s with loop := .waiting }
  | listenerFails {ev todo} (events : s.loop = .events (ev :: todo)) (hangup : ev.hangup = true)
      (listener : s.pool.dataFd sockFd ev.registered = some sockFd) :
      Moves sockFd s .next { s with loop := .removing .exited }
  | begins {ev todo t} (events : s.loop = .events (ev :: todo))
      (connection : s.pool.dataFd sockFd ev.registered ≠ some sockFd)
      (began : s.begin (if ev.hangup then .removing false else .reading) todo ev.registered =
        .ok t) :
      Moves sockFd s .next t
  | skips {ev todo} (events : s.loop = .events (ev :: todo)) (nothing : ev.hangup = false)
      (noInput : ev.input = false) : Moves sockFd s .next { s with loop := .events todo }
  | accepts {ev todo r n ip pool pool'} (events : s.loop = .events (ev :: todo))
      (listener : s.pool.dataFd sockFd ev.registered = some sockFd)
      (accepted : s.pool.accept r n ip = .ok pool)
      (queued : pool.call false r .queues = .ok pool') :
      Moves sockFd s (.accepts r n ip) { pool := pool', loop := .adding todo }
  | interrupted {ev todo} (events : s.loop = .events (ev :: todo)) :
      Moves sockFd s (.acceptFails eintr) s
  | acceptFails {errno ev todo} (events : s.loop = .events (ev :: todo)) (fails : errno ≠ eintr) :
      Moves sockFd s (.acceptFails errno) { s with loop := .removing .returned }
  | adds {todo} (adding : s.loop = .adding todo) :
      Moves sockFd s (.adds true) { s with loop := .events todo }
  | addFails {todo} (adding : s.loop = .adding todo) :
      Moves sockFd s (.adds false) { s with loop := .removing .exited }
  | calls {r todo call pool} (handling : s.loop = .handling r todo) (ofThread : call.ofThread = true)
      (called : s.pool.call false r call = .ok pool) :
      Moves sockFd s (.call call) { pool := pool, loop := pool.after r todo }
  | removes {ending} (removing : s.loop = .removing ending) :
      Moves sockFd s (.call .removes)
        { pool := { s.pool with process := s.pool.process.remove sockFd }
          loop := .closing ending }
  | closes {ending} (closing : s.loop = .closing ending) :
      Moves sockFd s (.call (.closes sockFd))
        { pool := { s.pool with process := s.pool.process.close sockFd }
          loop := .ended ending }
  | dies {r todo} (handling : s.loop = .handling r todo) :
      Moves sockFd s .dies { s with loop := .ended .killed }

/-! ## What holds while the loop runs -/

/-- The request that is handled. -/
def EventLoop.active : EventLoop → Option Nat
  | .handling r _ => some r
  | _ => none

/-- The events still to be handled, after the present one. -/
def EventLoop.todo : EventLoop → List Ready
  | .events todo | .adding todo | .handling _ todo => todo
  | _ => []

/-- Connections that are not handled wait or are cleaned up, and each event to be handled is
for one that waits. -/
structure Epoll.Invariant (sockFd : Nat) (s : Epoll) : Prop where
  sound : s.pool.Sound
  idle : ∀ r q, s.pool.requests r = some q → s.loop.active ≠ some r →
    q.phase = .queued ∨ q.phase = .done
  pending : ∀ ev ∈ s.loop.todo, ∀ r, ev.registered = .request r →
    s.loop.active ≠ some r ∧ ∃ q, s.pool.requests r = some q ∧ q.phase = .queued
  distinct : (s.loop.todo.map (·.registered)).Nodup
  listening : s.pool.process.opener sockFd = some .server

namespace Epoll

variable {sockFd : Nat} {s t : Epoll}

theorem moves_waits {batch : List Ready} (step : s.step sockFd (.waits batch) = .ok t) :
    Moves sockFd s (.waits batch) t := by
  simp only [Epoll.step] at step
  cases loop : s.loop with
  | waiting =>
      simp only [loop] at step
      by_cases both : (batch.map (·.registered)).Nodup ∧
          batch.all (fun ev => s.pool.registers ev.registered)
      · rw [if_pos both] at step
        obtain rfl := Except.ok.inj step
        exact .waits loop both.1 both.2
      · rw [if_neg both] at step
        cases step
  | _ => simp [loop] at step

theorem moves_waitFails (step : s.step sockFd .waitFails = .ok t) :
    Moves sockFd s .waitFails t := by
  simp only [Epoll.step] at step
  cases loop : s.loop with
  | waiting =>
      simp only [loop] at step
      obtain rfl := Except.ok.inj step
      exact .waitFails loop
  | _ => simp [loop] at step

theorem moves_next (step : s.step sockFd .next = .ok t) : Moves sockFd s .next t := by
  simp only [Epoll.step] at step
  cases loop : s.loop with
  | events todo =>
      cases todo with
      | nil =>
          simp only [loop] at step
          obtain rfl := Except.ok.inj step
          exact .batchEnds loop
      | cons ev todo =>
          simp only [loop] at step
          cases hangup : ev.hangup with
          | true =>
              rw [hangup, if_pos rfl] at step
              by_cases listener : s.pool.dataFd sockFd ev.registered = some sockFd
              · rw [if_pos listener] at step
                obtain rfl := Except.ok.inj step
                exact .listenerFails loop hangup listener
              · rw [if_neg listener] at step
                exact .begins loop listener (by rw [hangup, if_pos rfl, step])
          | false =>
              rw [hangup, if_neg Bool.false_ne_true] at step
              cases input : ev.input with
              | true =>
                  rw [input, if_pos rfl] at step
                  by_cases listener : s.pool.dataFd sockFd ev.registered = some sockFd
                  · rw [if_pos listener] at step
                    cases step
                  · rw [if_neg listener] at step
                    exact .begins loop listener (by
                      rw [hangup, if_neg Bool.false_ne_true, step])
              | false =>
                  rw [input, if_neg Bool.false_ne_true] at step
                  obtain rfl := Except.ok.inj step
                  exact .skips loop hangup input
  | _ => simp [loop] at step

/-- Both outcomes of `accept` belong to an event of the listening socket. -/
theorem listener_of_accepting {ev : Ready}
    (accepting : (!ev.hangup && ev.input &&
      decide (s.pool.dataFd sockFd ev.registered = some sockFd)) = true) :
    s.pool.dataFd sockFd ev.registered = some sockFd := by
  rw [Bool.and_eq_true] at accepting
  exact of_decide_eq_true accepting.2

theorem moves_accepts {r n : Nat} {ip : Bytes} (step : s.step sockFd (.accepts r n ip) = .ok t) :
    Moves sockFd s (.accepts r n ip) t := by
  simp only [Epoll.step] at step
  cases loop : s.loop with
  | events todo =>
      cases todo with
      | nil => simp [loop] at step
      | cons ev todo =>
          simp only [loop] at step
          split at step
          case isFalse => cases step
          case isTrue accepting =>
            rcases bind_eq_ok_iff.mp step with ⟨pool, accepted, more⟩
            rcases bind_eq_ok_iff.mp more with ⟨pool', queued, same⟩
            obtain rfl := Except.ok.inj same
            exact .accepts loop (listener_of_accepting accepting) accepted queued
  | _ => simp [loop] at step

theorem moves_acceptFails {errno : Nat} (step : s.step sockFd (.acceptFails errno) = .ok t) :
    Moves sockFd s (.acceptFails errno) t := by
  simp only [Epoll.step] at step
  cases loop : s.loop with
  | events todo =>
      cases todo with
      | nil => simp [loop] at step
      | cons ev todo =>
          simp only [loop] at step
          split at step
          case isFalse => cases step
          case isTrue =>
            by_cases again : errno = eintr
            · rw [if_pos again] at step
              obtain rfl := Except.ok.inj step
              exact again ▸ .interrupted loop
            · rw [if_neg again] at step
              obtain rfl := Except.ok.inj step
              exact .acceptFails loop again
  | _ => simp [loop] at step

theorem moves_adds {ok : Bool} (step : s.step sockFd (.adds ok) = .ok t) :
    Moves sockFd s (.adds ok) t := by
  simp only [Epoll.step] at step
  cases loop : s.loop with
  | adding todo =>
      simp only [loop] at step
      obtain rfl := Except.ok.inj step
      cases ok with
      | true => exact .adds loop
      | false => exact .addFails loop
  | _ => simp [loop] at step

theorem moves_call {call : Call} (step : s.step sockFd (.call call) = .ok t) :
    Moves sockFd s (.call call) t := by
  cases loop : s.loop with
  | handling r todo =>
      simp only [Epoll.step, loop] at step
      by_cases ofThread : call.ofThread = true
      · rw [if_pos ofThread] at step
        rcases bind_eq_ok_iff.mp step with ⟨pool, called, same⟩
        obtain rfl := Except.ok.inj same
        exact .calls loop ofThread called
      · rw [if_neg ofThread] at step
        cases step
  | removing ending =>
      cases call with
      | removes =>
          simp only [Epoll.step, loop] at step
          obtain rfl := Except.ok.inj step
          exact .removes loop
      | _ => simp [Epoll.step, loop] at step
  | closing ending =>
      cases call with
      | closes n =>
          simp only [Epoll.step, loop] at step
          by_cases own : n = sockFd
          · rw [if_pos own] at step
            obtain rfl := Except.ok.inj step
            exact own ▸ .closes loop
          · rw [if_neg own] at step
            cases step
      | _ => simp [Epoll.step, loop] at step
  | _ => simp [Epoll.step, loop] at step

theorem moves_dies (step : s.step sockFd .dies = .ok t) : Moves sockFd s .dies t := by
  simp only [Epoll.step] at step
  cases loop : s.loop with
  | handling r todo =>
      simp only [loop] at step
      obtain rfl := Except.ok.inj step
      exact .dies loop
  | _ => simp [loop] at step

theorem moves_of_step {label : EpollLabel} (step : s.step sockFd label = .ok t) :
    Moves sockFd s label t := by
  cases label with
  | waits batch => exact moves_waits step
  | waitFails => exact moves_waitFails step
  | next => exact moves_next step
  | accepts r n ip => exact moves_accepts step
  | acceptFails errno => exact moves_acceptFails step
  | adds ok => exact moves_adds step
  | call call => exact moves_call step
  | dies => exact moves_dies step

theorem invariant_init (init : (epoll sockFd).init s) : s.Invariant sockFd := by
  rcases init with ⟨fresh, none, waiting⟩
  have unused : ∀ r q, s.pool.requests r ≠ some q := by
    intro r q here
    rw [none r] at here
    cases here
  constructor
  · exact Pool.Sound.start fresh none
  · exact fun r q here => absurd here (unused r q)
  · rw [waiting]
    simp [EventLoop.todo]
  · rw [waiting]
    simp [EventLoop.todo]
  · exact fresh.listening

/-- No request but the one that is handled is about to close a descriptor again. -/
theorem Invariant.settled (inv : s.Invariant sockFd) {r : Nat}
    (active : ∀ r', r' ≠ r → s.loop.active ≠ some r') : s.pool.Settled r := by
  intro r' q' ne there
  rcases inv.idle r' q' there (active r' ne) with queued | done
  · simp [queued, Phase.stale]
  · simp [done, Phase.stale]

theorem Invariant.waits (inv : s.Invariant sockFd) {batch : List Ready}
    (waiting : s.loop = .waiting) (distinct : (batch.map (·.registered)).Nodup)
    (registered : batch.all (fun ev => s.pool.registers ev.registered) = true) :
    Invariant sockFd { s with loop := .events batch } where
  sound := inv.sound
  idle := by
    intro r q here _
    apply inv.idle r q here
    simp [waiting, EventLoop.active]
  pending := by
    intro ev member r connection
    refine ⟨by simp [EventLoop.active], ?_⟩
    have in_ := List.all_eq_true.mp registered ev member
    rw [connection] at in_
    exact Pool.registers_request_iff.mp in_
  distinct := distinct
  listening := inv.listening

/-- The handling of an event begins. -/
theorem Invariant.begin (inv : s.Invariant sockFd) {ev : Ready} {todo : List Ready}
    (events : s.loop = .events (ev :: todo)) {phase : Phase}
    (same : phase = .reading ∨ phase = .removing false)
    (began : s.begin phase todo ev.registered = .ok t) : t.Invariant sockFd := by
  have todo_ : s.loop.todo = ev :: todo := by simp [events, EventLoop.todo]
  have active : s.loop.active = none := by simp [events, EventLoop.active]
  have distinct := inv.distinct
  rw [todo_, List.map_cons, List.nodup_cons] at distinct
  rcases distinct with ⟨apart, distinct⟩
  have pending := inv.pending
  rw [todo_] at pending
  cases connection : ev.registered with
  | server =>
      rw [connection] at began
      cases began
  | request r =>
      rw [connection] at began
      rcases bind_eq_ok_iff.mp began with ⟨pool, entered, same_⟩
      obtain rfl := Except.ok.inj same_
      rcases Pool.enter_eq_ok_iff.mp entered with ⟨q, here, rfl⟩
      have queued : q.phase = .queued := by
        rcases pending ev List.mem_cons_self r connection with ⟨_, q', there, queued⟩
        obtain rfl := Option.some.inj (here.symm.trans there)
        exact queued
      constructor
      · apply inv.sound.set_phase here
        · rcases same with rfl | rfl <;> simp [queued, Phase.held]
        · rcases same with rfl | rfl <;> simp [queued, Phase.stale]
        · rcases same with rfl | rfl <;> simp [queued, Phase.listed]
      · intro r' q' there other
        have ne : r' ≠ r := by
          rintro rfl
          exact other rfl
        apply inv.idle r' q' ((Pool.set_of_ne ne _).symm.trans there)
        simp [active]
      · intro later member r' for_
        have ne : r' ≠ r := by
          rintro rfl
          apply apart
          rw [connection, ← for_]
          exact List.mem_map_of_mem member
        refine ⟨?_, ?_⟩
        · simpa [EventLoop.active] using ne.symm
        · rcases pending later (List.mem_cons_of_mem ev member) r' for_ with ⟨_, q', there, waits⟩
          exact ⟨q', (Pool.set_of_ne ne _).trans there, waits⟩
      · exact distinct
      · exact inv.listening

/-- A connection is accepted and queued. -/
theorem Invariant.accept (inv : s.Invariant sockFd) {ev : Ready} {todo : List Ready}
    (events : s.loop = .events (ev :: todo)) {r n : Nat} {ip : Bytes} {pool pool' : Pool}
    (accepted : s.pool.accept r n ip = .ok pool)
    (queued : pool.call false r .queues = .ok pool') :
    Invariant sockFd { pool := pool', loop := .adding todo } := by
  have todo_ : s.loop.todo = ev :: todo := by simp [events, EventLoop.todo]
  have active : s.loop.active = none := by simp [events, EventLoop.active]
  have settled : s.pool.Settled r := inv.settled (by simp [active])
  have sound := inv.sound.accept settled accepted
  rcases Pool.accept_eq_ok_iff.mp accepted with ⟨new, fresh, rfl⟩
  have distinct := inv.distinct
  rw [todo_, List.map_cons, List.nodup_cons] at distinct
  have again := sound.step (by
    intro r' q' ne there
    exact settled r' q' ne ((Pool.set_of_ne ne _).symm.trans there)) queued
  rcases Pool.call_eq_ok_iff.mp queued with ⟨q, phase, p, here, next, performed, rfl⟩
  constructor
  · exact again
  · intro r' q' there _
    by_cases same : r' = r
    · subst same
      obtain rfl := Option.some.inj ((Pool.set_self _).symm.trans there)
      exact .inl (Phase.next_queues next).2
    · rw [Pool.set_of_ne same, Pool.set_of_ne same] at there
      exact inv.idle r' q' there (by simp [active])
  · intro later member r' for_
    rcases inv.pending later (by rw [todo_]; exact List.mem_cons_of_mem ev member) r' for_ with
      ⟨_, q', there, waits⟩
    have ne : r' ≠ r := by
      rintro rfl
      rw [new] at there
      cases there
    refine ⟨by simp [EventLoop.active], q', ?_, waits⟩
    rw [Pool.set_of_ne ne, Pool.set_of_ne ne]
    exact there
  · exact distinct.2
  · apply (sound.owns r q here).frame next performed (by simp)
    exact Holders.take_of_held fresh inv.listening

/-- `getClient` does not end the process. -/
theorem Invariant.not_exited (inv : s.Invariant sockFd) {r : Nat} {q : Request} {call : Call}
    {phase : Phase} {p : Process} (here : s.pool.requests r = some q)
    (next : q.phase.next false q.fd call = some phase)
    (performed : s.pool.process.perform r q call = .ok p) : phase ≠ .exited := by
  rintro rfl
  rcases Phase.next_exited next with ⟨listed, rfl⟩
  have found := Process.perform_getsClient performed
  rw [inv.sound.finds here listed] at found
  cases found

/-- The request that is handled makes a call; at its end the loop goes on. -/
theorem Invariant.call (inv : s.Invariant sockFd) {r : Nat} {todo : List Ready}
    (handling : s.loop = .handling r todo) {call : Call} {pool : Pool}
    (called : s.pool.call false r call = .ok pool) :
    Invariant sockFd { pool := pool, loop := pool.after r todo } := by
  have settled : s.pool.Settled r := by
    apply inv.settled
    intro r' ne
    simpa [handling, EventLoop.active] using ne.symm
  have sound := inv.sound.step settled called
  have pending := inv.pending
  have distinct := inv.distinct
  rw [handling] at pending distinct
  rcases Pool.call_eq_ok_iff.mp called with ⟨q, phase, p, here, next, performed, rfl⟩
  have listening : p.opener sockFd = some .server :=
    (inv.sound.owns r q here).frame next performed (by simp) inv.listening
  have others : ∀ r' q', r' ≠ r →
      (s.pool.set r { q with phase := phase } p).requests r' = some q' →
      q'.phase = .queued ∨ q'.phase = .done := by
    intro r' q' ne there
    apply inv.idle r' q' ((Pool.set_of_ne ne p).symm.trans there)
    simpa [handling, EventLoop.active] using ne.symm
  have later : ∀ ev ∈ todo, ∀ r', ev.registered = .request r' → r' ≠ r ∧
      ∃ q', (s.pool.set r { q with phase := phase } p).requests r' = some q' ∧
        q'.phase = .queued := by
    intro ev member r' for_
    rcases pending ev member r' for_ with ⟨other, q', there, waits⟩
    have ne : r' ≠ r := by
      rintro rfl
      exact other rfl
    exact ⟨ne, q', (Pool.set_of_ne ne p).trans there, waits⟩
  have phase_eq : ((s.pool.set r { q with phase := phase } p).requests r).map Request.phase =
      some phase := by
    rw [Pool.set_self]
    rfl
  unfold Pool.after
  rw [phase_eq]
  split
  · rename_i done
    obtain rfl := Option.some.inj done
    constructor
    · exact sound
    · intro r' q' there _
      by_cases same : r' = r
      · subst same
        obtain rfl := Option.some.inj ((Pool.set_self p).symm.trans there)
        exact .inr rfl
      · exact others r' q' same there
    · intro ev member r' for_
      exact ⟨by simp [EventLoop.active], (later ev member r' for_).2⟩
    · exact distinct
    · exact listening
  · rename_i exited
    exact absurd (Option.some.inj exited) (inv.not_exited here next performed)
  · constructor
    · exact sound
    · intro r' q' there other
      apply others r' q' _ there
      rintro rfl
      exact other rfl
    · intro ev member r' for_
      refine ⟨?_, (later ev member r' for_).2⟩
      simpa [EventLoop.active] using (later ev member r' for_).1.symm
    · exact distinct
    · exact listening

/-- An event without anything to do is passed over. -/
theorem Invariant.skip (inv : s.Invariant sockFd) {ev : Ready} {todo : List Ready}
    (events : s.loop = .events (ev :: todo)) :
    Invariant sockFd { s with loop := .events todo } := by
  have pending := inv.pending
  have distinct := inv.distinct
  rw [events] at pending distinct
  constructor
  · exact inv.sound
  · intro r q here _
    exact inv.idle r q here (by rw [events]; simp [EventLoop.active])
  · intro later member
    exact pending later (List.mem_cons_of_mem ev member)
  · exact (List.nodup_cons.mp distinct).2
  · exact inv.listening

/-- A new connection is in the interest list. -/
theorem Invariant.added (inv : s.Invariant sockFd) {todo : List Ready}
    (adding : s.loop = .adding todo) : Invariant sockFd { s with loop := .events todo } := by
  have pending := inv.pending
  have distinct := inv.distinct
  rw [adding] at pending distinct
  constructor
  · exact inv.sound
  · intro r q here _
    exact inv.idle r q here (by rw [adding]; simp [EventLoop.active])
  · exact pending
  · exact distinct
  · exact inv.listening

/-- The loop goes to the `cleanup` of the listening socket, or to its end. -/
theorem Invariant.leave (inv : s.Invariant sockFd) (active : s.loop.active = none)
    {loop : EventLoop} (todo : loop.todo = []) : Invariant sockFd { s with loop := loop } where
  sound := inv.sound
  idle := fun r q here _ => inv.idle r q here (by simp [active])
  pending := by simp [todo]
  distinct := by simp [todo]
  listening := inv.listening

/-- A step of the loop keeps the invariant, or ends the process. -/
theorem Invariant.step (inv : s.Invariant sockFd) {label : EpollLabel}
    (step : s.step sockFd label = .ok t) :
    t.Invariant sockFd ∨ ∃ ending, t.loop = .ended ending := by
  cases moves_of_step step with
  | waits waiting distinct registered => exact .inl (inv.waits waiting distinct registered)
  | waitFails waiting => exact .inl (inv.leave (by rw [waiting]; rfl) rfl)
  | batchEnds events => exact .inl (inv.leave (by rw [events]; rfl) rfl)
  | listenerFails events _ _ => exact .inl (inv.leave (by rw [events]; rfl) rfl)
  | @begins ev _ _ events _ began =>
      refine .inl (inv.begin events ?_ began)
      cases ev.hangup with
      | true => exact .inr rfl
      | false => exact .inl rfl
  | skips events _ _ => exact .inl (inv.skip events)
  | accepts events _ accepted queued => exact .inl (inv.accept events accepted queued)
  | interrupted events => exact .inl inv
  | acceptFails events _ => exact .inl (inv.leave (by rw [events]; rfl) rfl)
  | adds adding => exact .inl (inv.added adding)
  | addFails adding => exact .inl (inv.leave (by rw [adding]; rfl) rfl)
  | calls handling _ called => exact .inl (inv.call handling called)
  | removes removing =>
      have none : s.loop.active = none := by rw [removing]; rfl
      rw [inv.sound.remove_server (fun r => inv.settled (by simp [none])) inv.listening]
      exact .inl (inv.leave none rfl)
  | @closes ending closing => exact .inr ⟨ending, rfl⟩
  | dies handling => exact .inr ⟨.killed, rfl⟩

/-- A process that has ended takes no more steps. -/
theorem step_of_ended {ending : Ending} (ended : s.loop = .ended ending) (label : EpollLabel) :
    s.step sockFd label = .error () := by
  cases label <;> simp [Epoll.step, ended]

/-- What holds while the loop runs holds in every state reached. -/
theorem invariant_of_reachable (run : (epoll sockFd).Reachable s)
    (running : ∀ ending, s.loop ≠ .ended ending) : s.Invariant sockFd := by
  have either : s.Invariant sockFd ∨ ∃ ending, s.loop = .ended ending := by
    apply run.invariant
    · exact fun _ init => .inl (invariant_init init)
    · rintro s label t (inv | ⟨ending, ended⟩) - step
      · exact inv.step step
      · have stuck := (step_of_ended ended label).symm.trans step
        cases stuck
  rcases either with inv | ⟨ending, ended⟩
  · exact inv
  · exact absurd ended (running ending)

/-! ## The client list -/

/-- No two entries have the same descriptor, and there is one for each connection that has
been accepted and not yet been cleaned up, with its address. -/
def ClientsLive (s : Epoll) : Prop :=
  UniqueFds s.pool.process.clients ∧
    ∀ client, client ∈ s.pool.process.clients ↔
      ∃ r q, s.pool.requests r = some q ∧ q.phase ≠ .done ∧ client = q.entry

/-- Whenever the loop waits, the list is that of the live connections; and a request that
asks for its entry finds it. -/
theorem clientsLive_of_reachable (run : (epoll sockFd).Reachable s) :
    (s.loop = .waiting → s.ClientsLive) ∧
      ∀ r todo q entry t, s.loop = .handling r todo → s.pool.requests r = some q →
        s.step sockFd (.call (.getsClient entry)) = .ok t → entry = some q.entry := by
  constructor
  · intro waiting
    have inv := invariant_of_reachable run (by simp [waiting])
    refine ⟨inv.sound.unique, ?_⟩
    intro client
    rw [inv.sound.entries client]
    have listed_iff : ∀ r q, s.pool.requests r = some q →
        (q.phase.listed = true ↔ q.phase ≠ .done) := by
      intro r q here
      rcases inv.idle r q here (by simp [waiting, EventLoop.active]) with queued | done
      · simp [queued, Phase.listed]
      · simp [done, Phase.listed]
    constructor
    · rintro ⟨r, q, here, listed, rfl⟩
      exact ⟨r, q, here, (listed_iff r q here).mp listed, rfl⟩
    · rintro ⟨r, q, here, live, rfl⟩
      exact ⟨r, q, here, (listed_iff r q here).mpr live, rfl⟩
  · intro r todo q entry t handling here step
    have inv := invariant_of_reachable run (by simp [handling])
    cases moves_of_step step with
    | calls handling' _ called =>
        obtain ⟨rfl, rfl⟩ := EventLoop.handling.inj (handling.symm.trans handling')
        rcases Pool.call_eq_ok_iff.mp called with ⟨q', phase, p, there, next, performed, _⟩
        obtain rfl := Option.some.inj (here.symm.trans there)
        rw [← Process.perform_getsClient performed]
        exact inv.sound.finds here (Phase.next_getsClient next)

/-- A server with the listening socket 3, and nothing else open. -/
def idle : Epoll :=
  { pool := { process := listening 3, requests := fun _ => none }
    loop := .waiting }

theorem init_idle : (epoll 3).init idle :=
  ⟨fresh_listening 3, fun _ => rfl, rfl⟩

/-- One connection is closed by an event, and the next one in the same batch gets its number. -/
def renewed : List EpollLabel :=
  [.waits [{ registered := .server, hangup := false, input := true }],
    .accepts 0 5 (bytes "10.0.0.1"), .adds true, .next,
    .waits [{ registered := .request 0, hangup := true, input := false },
      { registered := .server, hangup := false, input := true }],
    .next, .call .removes, .call (.closes 5),
    .accepts 1 5 (bytes "10.0.0.2"), .adds true, .next]

theorem clientsLive_of_renewed :
    ∃ s : Epoll, s.pool.process.clients = [{ fd := 5, ip := bytes "10.0.0.2" }] ∧
      s.ClientsLive := by
  have ends : (epoll 3).ends idle renewed (fun s => decide (s.loop = .waiting ∧
      s.pool.process.clients = [{ fd := 5, ip := bytes "10.0.0.2" }])) = true := by
    decide
  rcases System.exists_reached init_idle (fun _ _ => trivial) ends with ⟨s, run, both⟩
  rcases of_decide_eq_true both with ⟨waiting, clients⟩
  exact ⟨s, clients, (clientsLive_of_reachable run).1 waiting⟩

end Epoll

end OgWebserver.Worker

import OgWebserver.Request.Dispatch
import OgWebserver.Transition.Team

/-!
# The context of the TLS server

All threads of the TLS server use one `SSL_CTX`.  Each makes an `SSL` object of it, which is
never freed and so keeps a reference; and `cleanup` gives a reference back for each connection.
The threads are counted under a lock.
-/

namespace OgWebserver.Worker

open OgWebserver.Request Transition

/-- What the threads share. -/
structure TlsGlobals where
  /-- The references to the `SSL_CTX`; without any it is freed. -/
  refs : Nat
  /-- `mutex1`. -/
  locked : Bool
  threadCount : Int

/-- What the surroundings make of a connection. -/
structure Surroundings where
  /-- How often `SSL_accept` has to be called again. -/
  retries : Nat
  /-- In `cleanup`, the connection is in the list. -/
  listed : Bool
  deriving DecidableEq

/-- Where a thread is in `processRequest`; it takes the lock when it starts, and once more at
its end. -/
inductive ThreadPlace
  | locks (atEnd : Bool)
  | reads (atEnd : Bool)
  | writes (atEnd : Bool) (threadCount : Int)
  | unlocks (atEnd : Bool)
  /-- At `SSL_new`. -/
  | makes
  /-- At `SSL_accept`, or in `processInput`. -/
  | handles (retries : Nat)
  /-- In `cleanup`. -/
  | frees
  | done
  deriving DecidableEq

structure TlsThread where
  outside : Surroundings
  place : ThreadPlace
  deriving DecidableEq

namespace TlsThread

def step (k : TlsThread) (g : TlsGlobals) :
    Except Fault (TlsThread × TlsGlobals × List Unit) :=
  match k.place with
  | .locks atEnd =>
      if g.locked then .ok (k, g, [])
      else .ok ({ k with place := .reads atEnd }, { g with locked := true }, [])
  | .reads atEnd => .ok ({ k with place := .writes atEnd g.threadCount }, g, [])
  | .writes atEnd n =>
      .ok ({ k with place := .unlocks atEnd },
        { g with threadCount := if atEnd then n - 1 else n + 1 }, [])
  | .unlocks atEnd =>
      .ok ({ k with place := if atEnd then .done else .makes }, { g with locked := false }, [])
  | .makes =>
      if g.refs = 0 then .error .deadObject
      else .ok ({ k with place := .handles k.outside.retries }, { g with refs := g.refs + 1 }, [])
  | .handles 0 => .ok ({ k with place := .frees }, g, [])
  | .handles (n + 1) => .ok ({ k with place := .handles n }, g, [])
  | .frees =>
      if k.outside.listed then
        if g.refs = 0 then .error .deadObject
        else .ok ({ k with place := .locks true }, { g with refs := g.refs - 1 }, [])
      else .ok ({ k with place := .locks true }, g, [])
  | .done => .ok (k, g, [])

/-- It has the lock. -/
def hasLock (k : TlsThread) : Bool :=
  match k.place with
  | .reads _ | .writes _ _ | .unlocks _ => true
  | _ => false

/-- `threadCount` counts it. -/
def counted (k : TlsThread) : Bool :=
  match k.place with
  | .unlocks atEnd => !atEnd
  | .locks atEnd | .reads atEnd | .writes atEnd _ => atEnd
  | .makes | .handles _ | .frees => true
  | .done => false

/-- Its `SSL` object has a reference that `cleanup` has not given back. -/
def hasReference (k : TlsThread) : Bool :=
  match k.place with
  | .handles _ | .frees => true
  | .locks atEnd | .reads atEnd | .writes atEnd _ | .unlocks atEnd => atEnd && !k.outside.listed
  | .done => !k.outside.listed
  | .makes => false

end TlsThread

/-- `processRequest`. -/
def processRequest : Program TlsThread TlsGlobals Unit Fault where
  step := TlsThread.step
  done k := k.place = .done
  stops := by
    rintro ⟨outside, place⟩ g rfl
    rfl

/-- The threads that `tlsServer` creates, one for each connection. -/
def tlsThreads : System (Team TlsThread TlsGlobals) (TeamLabel TlsThread) :=
  processRequest.team (fun _ k => k.place == .locks false)
    { refs := 1, locked := false, threadCount := 0 }

/-- No thread uses a context that has been freed; the server has its own reference, besides
those of the threads.  The lock has one owner at most, and `threadCount` is right. -/
structure ThreadsSound (team : Team TlsThread TlsGlobals) : Prop where
  safe : team.Safe processRequest
  refs : team.shared.refs = 1 + team.threads.countP TlsThread.hasReference
  owner : team.threads.countP TlsThread.hasLock ≤ 1
  count : team.shared.threadCount = team.threads.countP TlsThread.counted

/-! ## Steps -/

section Threads

variable {k k' : TlsThread} {g g' : TlsGlobals} {out : List Unit}
variable {team : Team TlsThread TlsGlobals}

/-- What a step of a thread changes. -/
structure TlsThread.Changes (k : TlsThread) (g : TlsGlobals) (k' : TlsThread) (g' : TlsGlobals) :
    Prop where
  refs : g'.refs + k.hasReference.toNat = g.refs + k'.hasReference.toNat
  lock : g'.locked.toNat + k.hasLock.toNat = g.locked.toNat + k'.hasLock.toNat
  /-- If it has read the counter as it is. -/
  count : (∀ atEnd n, k.place = .writes atEnd n → n = g.threadCount) →
    g'.threadCount + k.counted.toNat = g.threadCount + k'.counted.toNat
  /-- Whoever has no lock leaves the counter alone. -/
  frame : k.hasLock = false → g'.threadCount = g.threadCount
  read : ∀ atEnd n, k'.place = .writes atEnd n → n = g'.threadCount

theorem TlsThread.changes (locked : k.hasLock.toNat ≤ g.locked.toNat)
    (step : processRequest.step k g = .ok (k', g', out)) : k.Changes g k' g' := by
  rcases k with ⟨⟨retries, listed⟩, place⟩
  rcases g with ⟨refs, lock, threadCount⟩
  simp only [processRequest, TlsThread.step] at step
  cases place with
  | locks atEnd =>
      cases lock with
      | true =>
          obtain ⟨rfl, rfl, _⟩ := by simpa using step
          exact ⟨rfl, rfl, fun _ => rfl, fun _ => rfl, by simp⟩
      | false =>
          obtain ⟨rfl, rfl, _⟩ := by simpa using step
          exact ⟨rfl, rfl, fun _ => rfl, fun _ => rfl, by simp⟩
  | reads atEnd =>
      obtain ⟨rfl, rfl, _⟩ := by simpa using step
      exact ⟨rfl, rfl, fun _ => rfl, fun _ => rfl, by simp⟩
  | writes atEnd n =>
      obtain ⟨rfl, rfl, _⟩ := by simpa using step
      refine ⟨rfl, rfl, ?_, by simp [hasLock], by simp⟩
      intro read
      obtain rfl := read atEnd n rfl
      cases atEnd <;> simp [counted]
  | unlocks atEnd =>
      obtain rfl : lock = true := by cases lock <;> simp_all [hasLock]
      obtain ⟨rfl, rfl, _⟩ := by simpa using step
      refine ⟨?_, ?_, ?_, fun _ => rfl, ?_⟩
      all_goals cases atEnd <;> simp [hasReference, hasLock, counted]
  | makes =>
      by_cases gone : refs = 0
      · simp [gone] at step
      · obtain ⟨rfl, rfl, _⟩ := by simpa [gone] using step
        exact ⟨rfl, rfl, fun _ => rfl, fun _ => rfl, by simp⟩
  | handles n =>
      cases n with
      | zero =>
          obtain ⟨rfl, rfl, _⟩ := by simpa using step
          exact ⟨rfl, rfl, fun _ => rfl, fun _ => rfl, by simp⟩
      | succ n =>
          obtain ⟨rfl, rfl, _⟩ := by simpa using step
          exact ⟨rfl, rfl, fun _ => rfl, fun _ => rfl, by simp⟩
  | frees =>
      cases listed with
      | true =>
          by_cases gone : refs = 0
          · simp [gone] at step
          · obtain ⟨rfl, rfl, _⟩ := by simpa [gone] using step
            refine ⟨?_, rfl, fun _ => rfl, fun _ => rfl, by simp⟩
            exact Nat.sub_add_cancel (Nat.pos_of_ne_zero gone)
      | false =>
          obtain ⟨rfl, rfl, _⟩ := by simpa using step
          exact ⟨rfl, rfl, fun _ => rfl, fun _ => rfl, by simp⟩
  | done =>
      obtain ⟨rfl, rfl, _⟩ := by simpa using step
      exact ⟨rfl, rfl, fun _ => rfl, fun _ => rfl, by simp⟩

/-- Only a context that has been freed makes a step fail. -/
theorem TlsThread.step_ne_error (alive : g.refs ≠ 0) (e : Fault) :
    processRequest.step k g ≠ .error e := by
  rcases k with ⟨outside, place⟩
  cases place with
  | handles n => cases n <;> simp [processRequest, TlsThread.step]
  | _ =>
      simp only [processRequest, TlsThread.step, alive, if_false]
      try split
      all_goals simp

/-! ## Runs -/

variable {allowed : TeamLabel TlsThread → Prop}

/-- A thread starts at its first lock. -/
theorem fresh_of_admitted (admitted : (k.place == .locks false) = true) :
    k.hasReference = false ∧ k.hasLock = false ∧ k.counted = false ∧
      ∀ atEnd n, k.place ≠ .writes atEnd n := by
  rcases k with ⟨outside, place⟩
  obtain rfl := beq_iff_eq.mp admitted
  exact ⟨rfl, rfl, rfl, by simp⟩

/-- What is known of the counter, while some thread may be about to write it. -/
structure Counting (team : Team TlsThread TlsGlobals) : Prop where
  locked : team.shared.locked.toNat = team.threads.countP TlsThread.hasLock
  refs : team.shared.refs = 1 + team.threads.countP TlsThread.hasReference
  count : team.shared.threadCount = team.threads.countP TlsThread.counted
  read : ∀ k ∈ team.threads, ∀ atEnd n, k.place = .writes atEnd n → n = team.shared.threadCount

theorem Counting.joins (inv : Counting team) (admitted : (k.place == .locks false) = true) :
    Counting { team with threads := team.threads ++ [k] } := by
  rcases fresh_of_admitted admitted with ⟨noReference, noLock, uncounted, elsewhere⟩
  refine ⟨?_, ?_, ?_, ?_⟩
  · simp [inv.locked, noLock]
  · simp [inv.refs, noReference]
  · simp [inv.count, uncounted]
  · intro l member atEnd n writes
    rcases List.mem_append.mp member with old | new
    · exact inv.read l old atEnd n writes
    · obtain rfl := List.mem_singleton.mp new
      exact absurd writes (elsewhere atEnd n)

theorem Counting.goes (inv : Counting team) {j : Nat} (here : team.threads[j]? = some k)
    (step : processRequest.step k team.shared = .ok (k', g', out)) :
    Counting { threads := team.threads.set j k', shared := g' } := by
  rcases List.getElem?_eq_some_iff.mp here with ⟨inside, rfl⟩
  have locks := countP_set_add TlsThread.hasLock inside k'
  have references := countP_set_add TlsThread.hasReference inside k'
  have counts := countP_set_add TlsThread.counted inside k'
  have own : team.threads[j].hasLock.toNat ≤ team.shared.locked.toNat := by
    rw [inv.locked]
    exact toNat_le_countP (List.getElem_mem inside)
  have changes := TlsThread.changes own step
  have count := changes.count (inv.read _ (List.getElem_mem inside))
  have locked := inv.locked
  have refs := inv.refs
  have counted := inv.count
  refine ⟨?_, ?_, ?_, ?_⟩
  · show g'.locked.toNat = (team.threads.set j k').countP TlsThread.hasLock
    have lock := changes.lock
    omega
  · show g'.refs = 1 + (team.threads.set j k').countP TlsThread.hasReference
    have ref := changes.refs
    omega
  · show g'.threadCount = (team.threads.set j k').countP TlsThread.counted
    omega
  · intro l member atEnd n writes
    rcases List.mem_iff_getElem?.mp member with ⟨i, is⟩
    by_cases same : j = i
    · subst same
      rw [List.getElem?_set_self inside] at is
      obtain rfl := Option.some.inj is
      exact changes.read atEnd n writes
    · rw [List.getElem?_set_ne same] at is
      rw [inv.read l (List.mem_of_getElem? is) atEnd n writes]
      apply (changes.frame _).symm
      by_contra both
      have owner : l.hasLock = true := by
        rw [TlsThread.hasLock, writes]
      have two := two_le_countP here is same ((Bool.not_eq_false _).mp both) owner
      rw [← locked] at two
      exact absurd (two.trans (Bool.toNat_le _)) (by decide)

theorem counting (run : tlsThreads.Reached allowed team) : Counting team := by
  apply run.invariant
  · rintro _ rfl
    exact ⟨rfl, rfl, rfl, by simp⟩
  · intro team label after inv _ step
    have step : team.step processRequest (fun _ k => k.place == .locks false) label = .ok after :=
      step
    cases Team.moves_of_step step with
    | joins admitted => exact inv.joins admitted
    | goes here next => exact inv.goes here next

/-! ## To the end -/

/-- What a thread still has to do. -/
def TlsThread.rank (k : TlsThread) : Nat :=
  match k.place with
  | .locks false => k.outside.retries + 12
  | .reads false => k.outside.retries + 11
  | .writes false _ => k.outside.retries + 10
  | .unlocks false => k.outside.retries + 9
  | .makes => k.outside.retries + 8
  | .handles n => n + 7
  | .frees => 6
  | .locks true => 5
  | .reads true => 4
  | .writes true _ => 3
  | .unlocks true => 2
  | .done => 1

/-- A thread goes on, unless another one has the lock. -/
theorem TlsThread.advances (alive : g.refs ≠ 0) (free : g.locked = false ∨ k.hasLock = true)
    (busy : k.place ≠ .done) :
    ∃ k' g' out, processRequest.step k g = .ok (k', g', out) ∧ k'.rank < k.rank := by
  rcases k with ⟨⟨retries, listed⟩, place⟩
  cases place with
  | locks atEnd =>
      have unlocked : g.locked = false := free.resolve_right (by simp [hasLock])
      exact ⟨_, _, _, if_neg (by simp [unlocked]), by cases atEnd <;> simp [rank]⟩
  | reads atEnd => exact ⟨_, _, _, rfl, by cases atEnd <;> simp [rank]⟩
  | writes atEnd n => exact ⟨_, _, _, rfl, by cases atEnd <;> simp [rank]⟩
  | unlocks atEnd => exact ⟨_, _, _, rfl, by cases atEnd <;> simp [rank]⟩
  | makes => exact ⟨_, _, _, if_neg alive, by simp [rank]⟩
  | handles n => cases n <;> exact ⟨_, _, _, rfl, by simp [rank]⟩
  | frees =>
      cases listed with
      | true =>
          exact ⟨{ outside := ⟨retries, true⟩, place := .locks true }, { g with refs := g.refs - 1 },
            [], by simp [processRequest, TlsThread.step, alive], by simp [rank]⟩
      | false =>
          exact ⟨{ outside := ⟨retries, false⟩, place := .locks true }, g, [],
            by simp [processRequest, TlsThread.step], by simp [rank]⟩
  | done => exact absurd rfl busy

/-- While some thread is not done, one can go on: the owner of the lock, if there is one. -/
theorem exists_advances (run : tlsThreads.Reachable team)
    (busy : ∃ k ∈ team.threads, ¬ processRequest.done k) :
    ∃ k ∈ team.threads, ∃ k' g' out,
      processRequest.step k team.shared = .ok (k', g', out) ∧ k'.rank < k.rank := by
  rcases busy with ⟨k, member, busy⟩
  have inv := counting run
  have alive : team.shared.refs ≠ 0 := by
    rw [inv.refs, Nat.add_comm]
    exact Nat.succ_ne_zero _
  cases lock : team.shared.locked with
  | false => exact ⟨k, member, TlsThread.advances alive (.inl lock) busy⟩
  | true =>
      have one : 0 < team.threads.countP TlsThread.hasLock := by
        rw [← inv.locked, lock]
        exact Nat.one_pos
      rcases List.countP_pos_iff.mp one with ⟨owner, among, owns⟩
      refine ⟨owner, among, TlsThread.advances alive (.inr owns) ?_⟩
      intro done
      rw [TlsThread.hasLock, done] at owns
      cases owns

/-- Whatever the threads do, and in whatever order, no one uses a freed context; and they never
block each other for good: from every state they can all go on to their end. -/
theorem threadsSound (reached : tlsThreads.Reachable team) :
    ThreadsSound team ∧ ∃ (turns : List Nat) (last : Team TlsThread TlsGlobals),
      run tlsThreads.step team (turns.map .goes) = .ok last ∧
        last.threads.length = team.threads.length ∧ ∀ k ∈ last.threads, k.place = .done := by
  have inv := counting reached
  constructor
  · refine ⟨?_, inv.refs, ?_, inv.count⟩
    · intro k member e
      apply TlsThread.step_ne_error
      rw [inv.refs, Nat.add_comm]
      exact Nat.succ_ne_zero _
    · rw [← inv.locked]
      exact Bool.toNat_le _
  · rcases Team.exists_done (fun _ => exists_advances) reached with
      ⟨turns, last, ran, done, length⟩
    exact ⟨turns, last, ran, length, done⟩

end Threads

/-- Two connections, one of them in `SSL_accept` and the other at the lock. -/
def twoConnections : List (TeamLabel TlsThread) :=
  let connection : TlsThread :=
    { outside := { retries := 1, listed := true }, place := .locks false }
  [.joins connection, .joins connection, .goes 0, .goes 1, .goes 0, .goes 0, .goes 0, .goes 0,
    .goes 1]

theorem threadsSound_twoConnections :
    ∃ team, (ThreadsSound team ∧ ∃ (turns : List Nat) (last : Team TlsThread TlsGlobals),
        run tlsThreads.step team (turns.map .goes) = .ok last ∧
          last.threads.length = team.threads.length ∧ ∀ k ∈ last.threads, k.place = .done) ∧
      team.shared.refs = 2 ∧ team.threads.length = 2 := by
  have ends : tlsThreads.ends
      { threads := [], shared := { refs := 1, locked := false, threadCount := 0 } } twoConnections
      (fun team => decide (team.shared.refs = 2 ∧ team.threads.length = 2)) = true := by
    decide
  rcases System.exists_reached rfl (fun _ _ => trivial) ends with ⟨team, reached, both⟩
  exact ⟨team, threadsSound reached, of_decide_eq_true both⟩

end OgWebserver.Worker

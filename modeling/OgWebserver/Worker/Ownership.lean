import OgWebserver.Worker.Calls

/-!
# Descriptors and their requests

Each request owns the descriptors it has open, and each entry of the client list is that of
one request.  A call of one request leaves this as it is, as long as none of the other
requests is about to close a descriptor a second time.
-/

namespace OgWebserver.Worker

open Text Transition

/-! ## One request -/

/-- The transitions of a request. -/
inductive Phase.Moves (secure : Bool) (fd : Nat) : Phase → Call → Phase → Prop
  | queues : Moves secure fd .accepted .queues .queued
  | starts : Moves secure fd .queued .starts .reading
  | reads : Moves secure fd .reading .proceeds .choosing
  | handshakeFails (tls : secure = true) : Moves secure fd .reading .returns (.removing false)
  | clientFails (plain : secure = false) : Moves secure fd .reading .receiveFails .clientFailed
  | closesFailed : Moves secure fd .clientFailed (.closes fd) (.removing true)
  | returns : Moves secure fd .choosing .returns (.removing false)
  | opensFile {n} : Moves secure fd .choosing (.opens .file n) (.file n)
  | opensDirectory {n} : Moves secure fd .choosing (.opens .directory n) (.directory n)
  | opensUpstream {n} : Moves secure fd .choosing (.opens .upstream n) (.connecting n)
  | closesFile {n} : Moves secure fd (.file n) (.closes n) (.removing false)
  | forgetsFile {n m} : Moves secure fd (.file m) (.opens .upstream n) (.connecting n)
  | closesDirectory {n} : Moves secure fd (.directory n) (.closes n) (.removing false)
  | connects {n} : Moves secure fd (.connecting n) .proceeds (.forwarding n)
  | connectFails {n} : Moves secure fd (.connecting n) .connectFails (.connectFailed n)
  | closesUnconnected {n} : Moves secure fd (.connectFailed n) (.closes n) (.removing false)
  | forwards {n} : Moves secure fd (.forwarding n) .proceeds (.relaying n)
  | finds {n entry} : Moves secure fd (.forwarding n) (.getsClient (some entry)) (.relaying n)
  | exits {n} : Moves secure fd (.forwarding n) (.getsClient none) .exited
  | relays {n} : Moves secure fd (.relaying n) .proceeds (.closing n false)
  | upstreamFails {n} : Moves secure fd (.relaying n) .receiveFails (.upstreamFailed n)
  | closesUpstream {n} : Moves secure fd (.upstreamFailed n) (.closes n) (.closing n true)
  | closes {n again} : Moves secure fd (.closing n again) (.closes n) (.removing false)
  | removes {again} : Moves secure fd (.removing again) .removes (.closingClient again)
  | closesClient {again} : Moves secure fd (.closingClient again) (.closes fd) .done

section Phase

variable {secure : Bool} {fd : Nat} {phase phase' : Phase} {call : Call}

theorem Phase.moves_of_next (next : phase.next secure fd call = some phase') :
    Moves secure fd phase call phase' := by
  unfold Phase.next at next
  split at next
  all_goals try split at next
  all_goals try cases next
  all_goals
    try subst_vars
    constructor
  all_goals simp_all

/-- A request opens one descriptor besides the client's socket. -/
theorem Phase.next_opens {what : Opened} {n : Nat}
    (next : phase.next secure fd (.opens what n) = some phase') :
    fd ∈ phase.held fd ∧ phase'.held fd = [n, fd] ∧ phase'.stale fd = [] := by
  cases moves_of_next next <;> simp [Phase.held, Phase.stale]

/-- A descriptor closed was open, unless it had been closed before. -/
theorem Phase.next_closes {n : Nat} (next : phase.next secure fd (.closes n) = some phase') :
    (phase.stale fd = [] ∧ phase.held fd = n :: phase'.held fd ∧
      (phase'.stale fd).Sublist [n]) ∨
    (phase.stale fd = [n] ∧ phase'.held fd = phase.held fd ∧ phase'.stale fd = []) := by
  cases moves_of_next next
  case closes again =>
    cases again <;> simp [Phase.held, Phase.stale]
  case closesClient again =>
    cases again <;> simp [Phase.held, Phase.stale]
  all_goals simp [Phase.held, Phase.stale]

/-- Other calls touch no descriptor. -/
theorem Phase.next_held (next : phase.next secure fd call = some phase')
    (opens : ∀ what n, call ≠ .opens what n) (closes : ∀ n, call ≠ .closes n) :
    (phase'.held fd).Sublist (phase.held fd) ∧ phase'.stale fd = phase.stale fd := by
  cases moves_of_next next
  case removes again =>
    cases again <;> simp [Phase.held, Phase.stale]
  case opensFile n => exact absurd rfl (opens .file n)
  case opensDirectory n => exact absurd rfl (opens .directory n)
  case opensUpstream n => exact absurd rfl (opens .upstream n)
  case forgetsFile n m => exact absurd rfl (opens .upstream n)
  all_goals first
    | exact absurd rfl (closes _)
    | simp [Phase.held, Phase.stale]

/-- The descriptor of an entry in the list is open, or has been closed early. -/
theorem Phase.listed_cases (listed : phase.listed = true) :
    fd ∈ phase.held fd ∨ phase.stale fd = [fd] := by
  cases phase
  case removing again =>
    cases again <;> simp [Phase.held, Phase.stale]
  case closing n again =>
    cases again <;> simp [Phase.held]
  all_goals simp_all [Phase.held, Phase.listed]

/-- Only two calls change whether a connection is in the list. -/
theorem Phase.next_listed (next : phase.next secure fd call = some phase') :
    phase'.listed =
      (if call = .queues then true else if call = .removes then false else phase.listed) := by
  cases moves_of_next next <;> simp [Phase.listed]

/-- What `removeClientConnection` removes was in the list. -/
theorem Phase.next_removes (next : phase.next secure fd .removes = some phase') :
    phase.listed = true := by
  cases moves_of_next next
  rfl

/-- Only a missing entry ends the process. -/
theorem Phase.next_exited (next : phase.next secure fd call = some .exited) :
    phase.listed = true ∧ call = .getsClient none := by
  cases moves_of_next next
  exact ⟨rfl, rfl⟩

/-- A request that asks for its entry has one. -/
theorem Phase.next_getsClient {entry : Option ClientConnection}
    (next : phase.next secure fd (.getsClient entry) = some phase') : phase.listed = true := by
  cases moves_of_next next <;> rfl

/-- A connection that is queued has its socket open. -/
theorem Phase.next_queues (next : phase.next secure fd .queues = some phase') :
    phase = .accepted ∧ phase' = .queued := by
  cases moves_of_next next
  exact ⟨rfl, rfl⟩

/-- Some `recv` has failed, and left a descriptor that is closed, or will be, twice. -/
def Phase.failed : Phase → Bool
  | .clientFailed | .upstreamFailed _ | .closing _ true | .removing true | .closingClient true =>
      true
  | _ => false

theorem Phase.stale_of_not_failed (fine : phase.failed = false) : phase.stale fd = [] := by
  unfold Phase.failed at fine
  split at fine
  all_goals try cases fine
  simp_all [Phase.stale]

/-- A request gets there only by a failed `recv`. -/
theorem Phase.next_failed (next : phase.next secure fd call = some phase')
    (fine : phase.failed = false) (succeeds : call ≠ .receiveFails) : phase'.failed = false := by
  cases moves_of_next next
  case clientFails => exact absurd rfl succeeds
  case upstreamFails n => exact absurd rfl succeeds
  case closesFailed => cases fine
  case closesUpstream n => cases fine
  case removes again =>
    cases again with
    | false => rfl
    | true => cases fine
  all_goals rfl

end Phase

/-! ## Owning -/

/-- The request owns the descriptors it has open, and those it will close again are closed. -/
structure Request.Owns (r : Nat) (q : Request) (p : Process) : Prop where
  held : ∀ n ∈ q.phase.held q.fd, p.opener n = some (.request r)
  nodup : (q.phase.held q.fd).Nodup
  stale : ∀ n ∈ q.phase.stale q.fd, p.opener n = none

section Owns

variable {secure : Bool} {r : Nat} {q : Request} {p p' : Process} {call : Call} {phase : Phase}

theorem Process.perform_opens_iff {what : Opened} {n : Nat} :
    p.perform r q (.opens what n) = .ok p' ↔
      p.opener n = none ∧ p' = { p with opener := p.opener.take n (.request r) } := by
  simp only [Process.perform]
  split
  · rename_i fresh
    simp [fresh, eq_comm]
  · rename_i taken
    simp [taken]

theorem Process.perform_getsClient {entry : Option ClientConnection}
    (performed : p.perform r q (.getsClient entry) = .ok p') :
    getClientConnection q.fd p.clients = entry := by
  simp only [Process.perform] at performed
  split at performed
  · assumption
  · cases performed

/-- Only `open` and `close` change who has opened what. -/
theorem Process.perform_opener (performed : p.perform r q call = .ok p')
    (opens : ∀ what n, call ≠ .opens what n) (closes : ∀ n, call ≠ .closes n) :
    p'.opener = p.opener := by
  cases call with
  | opens what n => exact absurd rfl (opens what n)
  | closes n => exact absurd rfl (closes n)
  | getsClient entry =>
      simp only [Process.perform] at performed
      split at performed
      · obtain rfl := Except.ok.inj performed
        rfl
      · cases performed
  | _ =>
      obtain rfl := Except.ok.inj performed
      rfl

/-- A call opens something, or closes something, or does neither. -/
theorem Call.cases (call : Call) :
    (∃ what n, call = .opens what n) ∨ (∃ n, call = .closes n) ∨
      (∀ what n, call ≠ .opens what n) ∧ ∀ n, call ≠ .closes n := by
  cases call <;> simp

/-- A request that owns its descriptors owns them after its next call. -/
theorem Request.Owns.next (owns : q.Owns r p)
    (next : q.phase.next secure q.fd call = some phase)
    (performed : p.perform r q call = .ok p') :
    Request.Owns r { q with phase := phase } p' := by
  rcases call.cases with ⟨what, n, rfl⟩ | ⟨n, rfl⟩ | ⟨opens, closes⟩
  · rcases Process.perform_opens_iff.mp performed with ⟨fresh, rfl⟩
    rcases Phase.next_opens next with ⟨client, held, stale⟩
    have own := owns.held q.fd client
    have ne : q.fd ≠ n := Holders.ne_of_fresh fresh own
    constructor
    · rw [held]
      intro m member
      simp only [List.mem_cons, List.not_mem_nil, or_false] at member
      rcases member with rfl | rfl
      · exact Holders.take_self
      · exact Holders.take_of_held fresh own
    · rw [held]
      simp [ne.symm]
    · rw [stale]
      simp
  · obtain rfl := Except.ok.inj performed
    rcases Phase.next_closes next with ⟨stale, held, later⟩ | ⟨stale, held, later⟩
    · have nodup := owns.nodup
      rw [held] at nodup
      rcases List.nodup_cons.mp nodup with ⟨apart, nodup⟩
      constructor
      · intro m member
        have ne : m ≠ n := fun same => apart (same ▸ member)
        have own := owns.held m (by rw [held]; exact List.mem_cons_of_mem n member)
        exact (Holders.free_of_ne ne).trans own
      · exact nodup
      · intro m member
        obtain rfl := List.mem_singleton.mp (later.subset member)
        exact Holders.free_self
    · have closed := owns.stale n (by rw [stale]; exact List.mem_singleton_self n)
      constructor
      · intro m member
        have own := owns.held m (by rwa [held] at member)
        exact (Holders.free_of_ne (Holders.ne_of_fresh closed own)).trans own
      · rw [held]
        exact owns.nodup
      · rw [later]
        simp
  · rcases Phase.next_held next opens closes with ⟨held, stale⟩
    have same := Process.perform_opener performed opens closes
    constructor
    · intro n member
      rw [same]
      exact owns.held n (held.subset member)
    · exact held.nodup owns.nodup
    · intro n member
      rw [same]
      exact owns.stale n (stale ▸ member)

/-- A descriptor closed is the request's own, unless it has been closed before. -/
theorem Request.Owns.closes (owns : q.Owns r p) {n : Nat}
    (next : q.phase.next secure q.fd (.closes n) = some phase) :
    p.opener n = some (.request r) ∨ q.phase.stale q.fd = [n] := by
  rcases Phase.next_closes next with ⟨_, held, _⟩ | ⟨stale, _⟩
  · exact .inl (owns.held n (by rw [held]; exact List.mem_cons_self))
  · exact .inr stale

/-- What another party has opened is left alone. -/
theorem Request.Owns.frame (owns : q.Owns r p)
    (next : q.phase.next secure q.fd call = some phase)
    (performed : p.perform r q call = .ok p') {n : Nat} {opener : Opener}
    (other : opener ≠ .request r) (own : p.opener n = some opener) :
    p'.opener n = some opener := by
  rcases call.cases with ⟨what, m, rfl⟩ | ⟨m, rfl⟩ | ⟨opens, closes⟩
  · rcases Process.perform_opens_iff.mp performed with ⟨fresh, rfl⟩
    exact Holders.take_of_held fresh own
  · obtain rfl := Except.ok.inj performed
    apply Holders.free_of_held _ own
    rcases owns.closes next with held | stale
    · rw [held]
      simpa using other.symm
    · rw [owns.stale m (by rw [stale]; exact List.mem_singleton_self m)]
      simp
  · rw [Process.perform_opener performed opens closes]
    exact own

/-- The list changes in two calls only. -/
theorem Process.perform_clients (performed : p.perform r q call = .ok p') :
    p'.clients =
      (if call = .queues then q.entry :: p.clients
      else if call = .removes then removeClientConnection q.fd p.clients else p.clients) := by
  cases call with
  | opens what n =>
      rcases Process.perform_opens_iff.mp performed with ⟨_, rfl⟩
      simp
  | getsClient entry =>
      simp only [Process.perform] at performed
      split at performed
      · obtain rfl := Except.ok.inj performed
        simp
      · cases performed
  | _ =>
      obtain rfl := Except.ok.inj performed
      simp [setClientConnection]

/-- A request that closes nothing twice still owns its descriptors when those that another
request does not own have changed. -/
theorem Request.Owns.of_frame (owns : q.Owns r p) (settled : q.phase.stale q.fd = [])
    (frame : ∀ n, p.opener n = some (.request r) → p'.opener n = some (.request r)) :
    q.Owns r p' where
  held := fun n member => frame n (owns.held n member)
  nodup := owns.nodup
  stale := by
    rw [settled]
    simp

end Owns

/-! ## All requests -/

/-- No other request is about to close a descriptor again. -/
def Pool.Settled (pool : Pool) (r : Nat) : Prop :=
  ∀ r' q', r' ≠ r → pool.requests r' = some q' → q'.phase.stale q'.fd = []

/-- Every request owns its descriptors, and the list has one entry for each that is listed,
with its address. -/
structure Pool.Sound (pool : Pool) : Prop where
  owns : ∀ r q, pool.requests r = some q → q.Owns r pool.process
  unique : UniqueFds pool.process.clients
  entries : ∀ client, client ∈ pool.process.clients ↔
    ∃ r q, pool.requests r = some q ∧ q.phase.listed = true ∧ client = q.entry

section Pool

variable {secure : Bool} {pool pool' : Pool} {r r' : Nat} {q q' : Request} {call : Call}

theorem Pool.set_self (p : Process) : (pool.set r q p).requests r = some q := by
  simp [Pool.set]

theorem Pool.set_of_ne (ne : r' ≠ r) (p : Process) :
    (pool.set r q p).requests r' = pool.requests r' := by
  simp [Pool.set, ne]

theorem Pool.exists_iff {P : Request → Prop} (here : pool.requests r = some q) :
    (∃ r' q', pool.requests r' = some q' ∧ P q') ↔
      P q ∨ ∃ r' q', r' ≠ r ∧ pool.requests r' = some q' ∧ P q' := by
  constructor
  · rintro ⟨r', q', there, holds⟩
    by_cases same : r' = r
    · subst same
      obtain rfl := Option.some.inj (here.symm.trans there)
      exact .inl holds
    · exact .inr ⟨r', q', same, there, holds⟩
  · rintro (holds | ⟨r', q', ne, there, holds⟩)
    · exact ⟨r, q, here, holds⟩
    · exact ⟨r', q', there, holds⟩

/-- One request has changed, the others have not. -/
theorem Pool.exists_set_iff {P : Request → Prop} (p : Process) :
    (∃ r' q', (pool.set r q p).requests r' = some q' ∧ P q') ↔
      P q ∨ ∃ r' q', r' ≠ r ∧ pool.requests r' = some q' ∧ P q' := by
  rw [Pool.exists_iff (Pool.set_self p)]
  apply or_congr_right
  apply exists_congr
  intro r'
  apply exists_congr
  intro q'
  apply and_congr_right
  intro ne
  rw [Pool.set_of_ne ne]

theorem Pool.call_eq_ok_iff :
    pool.call secure r call = .ok pool' ↔
      ∃ q phase p, pool.requests r = some q ∧ q.phase.next secure q.fd call = some phase ∧
        pool.process.perform r q call = .ok p ∧
        pool' = pool.set r { q with phase := phase } p := by
  unfold Pool.call
  cases here : pool.requests r with
  | none => simp
  | some q =>
      cases next : q.phase.next secure q.fd call with
      | none => simp [next]
      | some phase => simp [next, bind_eq_ok_iff, @eq_comm _ pool']

theorem Pool.accept_eq_ok_iff {n : Nat} {ip : Bytes} :
    pool.accept r n ip = .ok pool' ↔
      pool.requests r = none ∧ pool.process.opener n = none ∧
        pool' = pool.set r { fd := n, ip := ip, phase := .accepted }
          { pool.process with opener := pool.process.opener.take n (.request r) } := by
  unfold Pool.accept
  split
  · rename_i fresh
    simp [fresh, eq_comm]
  · rename_i taken
    simp only [reduceCtorEq, false_iff]
    rintro ⟨new, fresh, _⟩
    exact taken ⟨new, fresh⟩

namespace Pool.Sound

/-- Before the first connection. -/
theorem start {sockFd : Nat} (fresh : pool.process.Fresh sockFd)
    (none : ∀ r, pool.requests r = none) : pool.Sound := by
  have unused : ∀ r q, pool.requests r ≠ some q := by
    intro r q here
    rw [none r] at here
    cases here
  constructor
  · exact fun r q here => absurd here (unused r q)
  · rw [UniqueFds, fresh.clients]
    exact List.nodup_nil
  · intro client
    rw [fresh.clients]
    simp [unused]

/-- Connections in the list have different descriptors. -/
theorem fd_ne (sound : pool.Sound) (here : pool.requests r = some q)
    (there : pool.requests r' = some q') (ne : r' ≠ r)
    (mine : q.fd ∈ q.phase.held q.fd ∨ q.phase.stale q.fd = [q.fd])
    (listed : q'.phase.listed = true) (settled : q'.phase.stale q'.fd = []) : q'.fd ≠ q.fd := by
  have other : pool.process.opener q'.fd = some (.request r') := by
    rcases @Phase.listed_cases q'.fd _ listed with held | stale
    · exact (sound.owns r' q' there).held q'.fd held
    · rw [settled] at stale
      cases stale
  intro same
  rw [same] at other
  rcases mine with held | stale
  · have own := (sound.owns r q here).held q.fd held
    rw [own] at other
    apply ne
    simpa [eq_comm] using other
  · have closed := (sound.owns r q here).stale q.fd (by simp [stale])
    rw [closed] at other
    cases other

/-- A connection in the list is found by its descriptor. -/
theorem finds (sound : pool.Sound) (here : pool.requests r = some q)
    (listed : q.phase.listed = true) :
    getClientConnection q.fd pool.process.clients = some q.entry :=
  sound.unique.getClientConnection_eq ((sound.entries q.entry).mpr ⟨r, q, here, listed, rfl⟩)

/-- The entries of the other requests. -/
theorem entries_ne (sound : pool.Sound) (settled : pool.Settled r)
    (here : pool.requests r = some q)
    (mine : q.fd ∈ q.phase.held q.fd ∨ q.phase.stale q.fd = [q.fd]) (client : ClientConnection) :
    (client ∈ pool.process.clients ∧ client.fd ≠ q.fd) ↔
      ∃ r' q', r' ≠ r ∧ pool.requests r' = some q' ∧ q'.phase.listed = true ∧
        client = q'.entry := by
  constructor
  · rintro ⟨member, ne⟩
    rcases (sound.entries client).mp member with ⟨r', q', there, listed, rfl⟩
    refine ⟨r', q', ?_, there, listed, rfl⟩
    rintro rfl
    obtain rfl := Option.some.inj (here.symm.trans there)
    exact ne rfl
  · rintro ⟨r', q', ne, there, listed, rfl⟩
    constructor
    · exact (sound.entries q'.entry).mpr ⟨r', q', there, listed, rfl⟩
    · exact sound.fd_ne here there ne mine listed (settled r' q' ne there)

/-- A queued connection gets an entry of its own. -/
theorem unique_queues (sound : pool.Sound) (settled : pool.Settled r)
    (here : pool.requests r = some q) (accepted : q.phase = .accepted) :
    UniqueFds (q.entry :: pool.process.clients) := by
  apply uniqueFds_cons.mpr
  refine ⟨?_, sound.unique⟩
  intro client member
  rcases (sound.entries client).mp member with ⟨r', q', there, listed, rfl⟩
  have ne : r' ≠ r := by
    rintro rfl
    obtain rfl := Option.some.inj (here.symm.trans there)
    rw [accepted] at listed
    cases listed
  apply Ne.symm
  apply sound.fd_ne here there ne _ listed (settled r' q' ne there)
  simp [accepted, Phase.held]

/-- A call of one request keeps the pool sound, unless another request is about to close a
descriptor again. -/
theorem step (sound : pool.Sound) (settled : pool.Settled r)
    (called : pool.call secure r call = .ok pool') : pool'.Sound := by
  rcases Pool.call_eq_ok_iff.mp called with ⟨q, phase, p, here, next, performed, rfl⟩
  have owns := sound.owns r q here
  have clients := Process.perform_clients performed
  have listed := Phase.next_listed next
  constructor
  · intro r' q' there
    by_cases same : r' = r
    · subst same
      obtain rfl := Option.some.inj ((Pool.set_self p).symm.trans there)
      exact owns.next next performed
    · rw [Pool.set_of_ne same] at there
      apply (sound.owns r' q' there).of_frame (settled r' q' same there)
      intro n own
      apply owns.frame next performed _ own
      simpa using same
  · change UniqueFds p.clients
    rw [clients]
    split
    · rename_i queues
      subst queues
      exact sound.unique_queues settled here (Phase.next_queues next).1
    · split
      · exact sound.unique.remove q.fd
      · exact sound.unique
  · intro client
    change client ∈ p.clients ↔ _
    have before := sound.entries client
    rw [Pool.exists_iff here] at before
    rw [Pool.exists_set_iff p, clients]
    dsimp only
    rw [listed]
    split
    · rename_i queues
      subst queues
      rw [(Phase.next_queues next).1] at before
      rw [List.mem_cons, before]
      simp [Phase.listed, Request.entry]
    · split
      · rename_i removes
        subst removes
        have mine := @Phase.listed_cases q.fd _ (Phase.next_removes next)
        rw [sound.unique.mem_remove_iff, sound.entries_ne settled here mine]
        simp
      · exact before

/-- A new connection keeps the pool sound, unless some request is about to close a descriptor
again. -/
theorem accept (sound : pool.Sound) (settled : pool.Settled r) {n : Nat} {ip : Bytes}
    (accepted : pool.accept r n ip = .ok pool') : pool'.Sound := by
  rcases Pool.accept_eq_ok_iff.mp accepted with ⟨new, fresh, rfl⟩
  constructor
  · intro r' q' there
    by_cases same : r' = r
    · subst same
      obtain rfl := Option.some.inj ((Pool.set_self _).symm.trans there)
      constructor
      · intro m member
        obtain rfl := List.mem_singleton.mp member
        exact Holders.take_self
      · simp [Phase.held]
      · simp [Phase.stale]
    · rw [Pool.set_of_ne same] at there
      apply (sound.owns r' q' there).of_frame (settled r' q' same there)
      intro m own
      exact Holders.take_of_held fresh own
  · exact sound.unique
  · intro client
    change client ∈ pool.process.clients ↔ _
    rw [Pool.exists_set_iff, sound.entries client]
    simp only [Phase.listed, Bool.false_eq_true, false_and, false_or]
    constructor
    · rintro ⟨r', q', there, listed, rfl⟩
      refine ⟨r', q', ?_, there, listed, rfl⟩
      rintro rfl
      rw [new] at there
      cases there
    · rintro ⟨r', q', _, there, listed, rfl⟩
      exact ⟨r', q', there, listed, rfl⟩

/-- A request may go on somewhere else, with the same descriptors and the same entry. -/
theorem set_phase (sound : pool.Sound) (here : pool.requests r = some q) {phase : Phase}
    (held : phase.held q.fd = q.phase.held q.fd) (stale : phase.stale q.fd = q.phase.stale q.fd)
    (listed : phase.listed = q.phase.listed) :
    (pool.set r { q with phase := phase } pool.process).Sound := by
  constructor
  · intro r' q' there
    by_cases same : r' = r
    · subst same
      obtain rfl := Option.some.inj ((Pool.set_self _).symm.trans there)
      have owns := sound.owns r' q here
      constructor
      · intro n member
        exact owns.held n (held ▸ member)
      · rw [held]
        exact owns.nodup
      · intro n member
        exact owns.stale n (stale ▸ member)
    · exact sound.owns r' q' ((Pool.set_of_ne same _).symm.trans there)
  · exact sound.unique
  · intro client
    have before := sound.entries client
    rw [Pool.exists_iff here] at before
    rw [Pool.exists_set_iff, listed]
    exact before

/-- `cleanup` of a descriptor of the server finds no connection. -/
theorem remove_server (sound : pool.Sound) (settled : ∀ r, pool.Settled r) {fd : Nat}
    (own : pool.process.opener fd = some .server) : pool.process.remove fd = pool.process := by
  have none : removeClientConnection fd pool.process.clients = pool.process.clients := by
    apply List.eraseP_of_forall_not
    intro client member same
    rcases (sound.entries client).mp member with ⟨r, q, here, listed, rfl⟩
    have held : q.fd ∈ q.phase.held q.fd := by
      rcases @Phase.listed_cases q.fd _ listed with held | stale
      · exact held
      · rw [settled (r + 1) r q (Nat.succ_ne_self r).symm here] at stale
        cases stale
    have other := (sound.owns r q here).held q.fd held
    obtain rfl : q.fd = fd := by simpa [Request.entry] using same
    rw [own] at other
    cases other
  rw [Process.remove, none]

/-- The server may close what it has opened itself. -/
theorem close_server (sound : pool.Sound) (settled : ∀ r, pool.Settled r) {fd : Nat}
    (own : pool.process.opener fd = some .server) :
    Pool.Sound { pool with process := pool.process.close fd } := by
  constructor
  · intro r q here
    apply (sound.owns r q here).of_frame (settled (r + 1) r q (Nat.succ_ne_self r).symm here)
    intro n held
    apply Holders.free_of_held _ held
    rw [own]
    simp
  · exact sound.unique
  · exact sound.entries

end Pool.Sound

end Pool

end OgWebserver.Worker

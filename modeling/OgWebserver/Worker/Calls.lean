import OgWebserver.Text.Bytes
import OgWebserver.Transition.System

/-!
# The system calls of a request

From `accept` to the last `close` a request is a sequence of system calls on a few
descriptors and on the list of client connections.  The file has this sequence for both
servers: what can follow upon what, what each call does to the process, and which
descriptors the request has open in between.
-/

namespace OgWebserver.Worker

open Text Transition

/-! ## The list of client connections -/

/-- `_clientConnection`, as far as anything but a thread reads it. -/
structure ClientConnection where
  fd : Nat
  ip : Bytes
  deriving DecidableEq

def setClientConnection (client : ClientConnection) (clients : List ClientConnection) :
    List ClientConnection :=
  client :: clients

def getClientConnection (fd : Nat) (clients : List ClientConnection) : Option ClientConnection :=
  clients.find? (·.fd == fd)

def removeClientConnection (fd : Nat) (clients : List ClientConnection) :
    List ClientConnection :=
  clients.eraseP (·.fd == fd)

/-- No two entries have the same descriptor. -/
def UniqueFds (clients : List ClientConnection) : Prop :=
  (clients.map (·.fd)).Nodup

instance (clients : List ClientConnection) : Decidable (UniqueFds clients) :=
  inferInstanceAs (Decidable (clients.map (·.fd)).Nodup)

theorem uniqueFds_cons {client : ClientConnection} {clients : List ClientConnection} :
    UniqueFds (client :: clients) ↔
      (∀ other ∈ clients, client.fd ≠ other.fd) ∧ UniqueFds clients := by
  simp [UniqueFds, eq_comm]

theorem UniqueFds.remove {clients : List ClientConnection} (unique : UniqueFds clients)
    (fd : Nat) : UniqueFds (removeClientConnection fd clients) := by
  have fewer : (removeClientConnection fd clients).Sublist clients := List.eraseP_sublist
  exact (fewer.map _).nodup unique

/-- Where descriptors are unique, the entry removed is the only one with the descriptor. -/
theorem UniqueFds.mem_remove_iff {clients : List ClientConnection} (unique : UniqueFds clients)
    {fd : Nat} {client : ClientConnection} :
    client ∈ removeClientConnection fd clients ↔ client ∈ clients ∧ client.fd ≠ fd := by
  induction clients with
  | nil => simp [removeClientConnection]
  | cons first rest ih =>
      rcases uniqueFds_cons.mp unique with ⟨others, unique⟩
      by_cases here : first.fd = fd
      · have removed : removeClientConnection fd (first :: rest) = rest := by
          simp [removeClientConnection, here]
        rw [removed]
        constructor
        · intro member
          refine ⟨List.mem_cons_of_mem first member, ?_⟩
          rw [← here]
          exact (others client member).symm
        · rintro ⟨member, ne⟩
          rcases List.mem_cons.mp member with rfl | member
          · exact absurd here ne
          · exact member
      · have kept : removeClientConnection fd (first :: rest) =
            first :: removeClientConnection fd rest := by
          simp [removeClientConnection, here]
        rw [kept, List.mem_cons, List.mem_cons, ih unique]
        constructor
        · rintro (rfl | ⟨member, ne⟩)
          · exact ⟨.inl rfl, here⟩
          · exact ⟨.inr member, ne⟩
        · rintro ⟨rfl | member, ne⟩
          · exact .inl rfl
          · exact .inr ⟨member, ne⟩

/-- Where descriptors are unique, each entry is found by its descriptor. -/
theorem UniqueFds.getClientConnection_eq {clients : List ClientConnection}
    (unique : UniqueFds clients) {client : ClientConnection} (member : client ∈ clients) :
    getClientConnection client.fd clients = some client := by
  induction clients with
  | nil => cases member
  | cons first rest ih =>
      rcases uniqueFds_cons.mp unique with ⟨others, unique⟩
      rcases List.mem_cons.mp member with rfl | member
      · simp [getClientConnection]
      · have ne : first.fd ≠ client.fd := others client member
        have later := ih unique member
        simpa [getClientConnection, ne] using later

/-! ## Calls -/

/-- Who has opened a descriptor. -/
inductive Opener
  | server
  | request (r : Nat)
  deriving DecidableEq

/-- What a request opens besides the client's socket. -/
inductive Opened
  /-- `open`, in the handlers and in `openDefaultIndexFile`. -/
  | file
  /-- `opendir`, in `showDirectoryListing`. -/
  | directory
  /-- `socket`, in `getUpstreamServer`. -/
  | upstream
  deriving DecidableEq

/-- What a request does next, with all that its surroundings decide. -/
inductive Call
  /-- `queueClientConnection`. -/
  | queues
  /-- The thread for the connection begins. -/
  | starts
  /-- The call that is next succeeds, or is not needed. -/
  | proceeds
  /-- `SSL_accept` fails, or `processInput` returns with nothing open but the client. -/
  | returns
  | connectFails
  /-- `recv` fails with an `errno` other than `EAGAIN` and `EINTR`. -/
  | receiveFails
  | opens (what : Opened) (n : Nat)
  | closes (n : Nat)
  /-- `getClientConnection`, in `getClient`. -/
  | getsClient (entry : Option ClientConnection)
  /-- `removeClientConnection`, in `cleanup`. -/
  | removes
  deriving DecidableEq

/-- The calls that are made for a request while it is handled. -/
def Call.ofThread : Call → Bool
  | .queues | .starts => false
  | _ => true

/-- How far a request has got. -/
inductive Phase
  | accepted
  | queued
  /-- At `SSL_accept`, or in the `recvData` of `processInput`. -/
  | reading
  /-- `recvData` has given the client up, and closes its socket. -/
  | clientFailed
  /-- In `processInput`, nothing open but the client. -/
  | choosing
  | file (n : Nat)
  | directory (n : Nat)
  | connecting (n : Nat)
  | connectFailed (n : Nat)
  /-- The headers go to the upstream. -/
  | forwarding (n : Nat)
  /-- The response comes from the upstream. -/
  | relaying (n : Nat)
  /-- `recvData` has given the upstream up, and closes its socket. -/
  | upstreamFailed (n : Nat)
  /-- The handler closes the upstream, after `recvData` has if `again`. -/
  | closing (n : Nat) (again : Bool)
  /-- At the beginning of `cleanup`. -/
  | removing (again : Bool)
  /-- `cleanup` closes the client's socket, after `recvData` has if `again`. -/
  | closingClient (again : Bool)
  | done
  /-- `getClient` has ended the process. -/
  | exited
  deriving DecidableEq

/-- The next phase, where the call is possible; `secure` for a TLS thread. -/
def Phase.next (secure : Bool) (fd : Nat) : Phase → Call → Option Phase
  | .accepted, .queues => some .queued
  | .queued, .starts => some .reading
  | .reading, .proceeds => some .choosing
  | .reading, .returns => if secure then some (.removing false) else none
  | .reading, .receiveFails => if secure then none else some .clientFailed
  | .clientFailed, .closes n => if n = fd then some (.removing true) else none
  | .choosing, .returns => some (.removing false)
  | .choosing, .opens .file n => some (.file n)
  | .choosing, .opens .directory n => some (.directory n)
  | .choosing, .opens .upstream n => some (.connecting n)
  | .file n, .closes m => if m = n then some (.removing false) else none
  -- the index file of a directory stays open where `try_files` goes to the upstream
  | .file _, .opens .upstream n => some (.connecting n)
  | .directory n, .closes m => if m = n then some (.removing false) else none
  | .connecting n, .proceeds => some (.forwarding n)
  | .connecting n, .connectFails => some (.connectFailed n)
  | .connectFailed n, .closes m => if m = n then some (.removing false) else none
  -- without a blank line behind the headers, `getClient` is not called
  | .forwarding n, .proceeds => some (.relaying n)
  | .forwarding n, .getsClient (some _) => some (.relaying n)
  | .forwarding _, .getsClient none => some .exited
  | .relaying n, .proceeds => some (.closing n false)
  | .relaying n, .receiveFails => some (.upstreamFailed n)
  | .upstreamFailed n, .closes m => if m = n then some (.closing n true) else none
  | .closing n _, .closes m => if m = n then some (.removing false) else none
  | .removing again, .removes => some (.closingClient again)
  | .closingClient _, .closes n => if n = fd then some .done else none
  | _, _ => none

/-- The descriptors a request has open, as it has to close them; the index file that
`try_files` forgets is not among them. -/
def Phase.held (fd : Nat) : Phase → List Nat
  | .file n | .directory n | .connecting n | .connectFailed n | .forwarding n | .relaying n
  | .upstreamFailed n => [n, fd]
  | .closing n again => if again then [fd] else [n, fd]
  | .removing again | .closingClient again => if again then [] else [fd]
  | .done => []
  | .accepted | .queued | .reading | .clientFailed | .choosing | .exited => [fd]

/-- The descriptors it has closed, and will close again. -/
def Phase.stale (fd : Nat) : Phase → List Nat
  | .closing n true => [n]
  | .removing true | .closingClient true => [fd]
  | _ => []

/-- Is the connection in the list? -/
def Phase.listed : Phase → Bool
  | .accepted | .closingClient _ | .done => false
  | _ => true

/-! ## The process -/

/-- What the requests of a process share. -/
structure Process where
  opener : Holders Opener
  clients : List ClientConnection

/-- One request.  The descriptor and the address are those of its connection. -/
structure Request where
  fd : Nat
  ip : Bytes
  phase : Phase
  deriving DecidableEq

def Request.entry (q : Request) : ClientConnection :=
  { fd := q.fd, ip := q.ip }

def Process.close (p : Process) (n : Nat) : Process :=
  { p with opener := p.opener.free n }

def Process.remove (p : Process) (fd : Nat) : Process :=
  { p with clients := removeClientConnection fd p.clients }

@[simp]
theorem Process.close_opener (p : Process) (n : Nat) : (p.close n).opener = p.opener.free n :=
  rfl

@[simp]
theorem Process.close_clients (p : Process) (n : Nat) : (p.close n).clients = p.clients :=
  rfl

@[simp]
theorem Process.remove_opener (p : Process) (fd : Nat) : (p.remove fd).opener = p.opener :=
  rfl

@[simp]
theorem Process.remove_clients (p : Process) (fd : Nat) :
    (p.remove fd).clients = removeClientConnection fd p.clients :=
  rfl

/-- What a call does to the process, if the process allows it: a descriptor handed out is
one that is not open. -/
def Process.perform (p : Process) (r : Nat) (q : Request) : Call → Except Unit Process
  | .opens _ n =>
      if p.opener n = none then .ok { p with opener := p.opener.take n (.request r) }
      else .error ()
  | .closes n => .ok (p.close n)
  | .queues => .ok { p with clients := setClientConnection q.entry p.clients }
  | .removes => .ok (p.remove q.fd)
  | .getsClient entry =>
      if getClientConnection q.fd p.clients = entry then .ok p else .error ()
  | .starts | .proceeds | .returns | .connectFails | .receiveFails => .ok p

/-- A process and its requests, past and present. -/
structure Pool where
  process : Process
  requests : Nat → Option Request

def Pool.set (pool : Pool) (r : Nat) (q : Request) (p : Process) : Pool :=
  { process := p, requests := fun i => if i = r then some q else pool.requests i }

/-- `accept`: a new connection on a descriptor that is not open. -/
def Pool.accept (pool : Pool) (r n : Nat) (ip : Bytes) : Except Unit Pool :=
  if pool.requests r = none ∧ pool.process.opener n = none then
    .ok (pool.set r { fd := n, ip := ip, phase := .accepted }
      { pool.process with opener := pool.process.opener.take n (.request r) })
  else .error ()

/-- The next call of a request. -/
def Pool.call (secure : Bool) (pool : Pool) (r : Nat) (call : Call) : Except Unit Pool :=
  match pool.requests r with
  | none => .error ()
  | some q =>
      match q.phase.next secure q.fd call with
      | none => .error ()
      | some phase => do
          let p ← pool.process.perform r q call
          .ok (pool.set r { q with phase := phase } p)

/-- Before the first connection: the server has opened the listening socket, and whatever
else is open. -/
structure Process.Fresh (sockFd : Nat) (p : Process) : Prop where
  listening : p.opener sockFd = some .server
  others : ∀ n opener, p.opener n = some opener → opener = .server
  clients : p.clients = []

/-- A process that has opened the listening socket only. -/
def listening (sockFd : Nat) : Process :=
  { opener := Holders.take (fun _ => none) sockFd .server, clients := [] }

theorem fresh_listening (sockFd : Nat) : (listening sockFd).Fresh sockFd where
  listening := by simp [Worker.listening]
  others := by
    intro n opener own
    simp only [Worker.listening] at own
    by_cases same : n = sockFd
    · rw [same, Holders.take_self] at own
      exact (Option.some.inj own).symm
    · rw [Holders.take_of_ne same] at own
      cases own
  clients := rfl

end OgWebserver.Worker

import OgWebserver.Config.Check

/-!
# Processes and their ports

`startProcesses` enters every port number of the configured servers once, with
as many processes as there should be workers.  Numbers are compared as `int`
values here and by `checkPorts`, but a socket is bound to the number cut down to
16 bits.
-/

namespace OgWebserver.Startup

open Text Config

/-- An entry of the process list; the server is given by its position. -/
structure Proc where
  server : Nat
  portNum : Int32
  tls : Bool
  deriving DecidableEq

/-- `uniquePort`. -/
def uniquePort (portNum : Int32) (procList : List Proc) : Bool :=
  procList.all fun p => p.portNum != portNum

/-- The body of the inner loop of `startProcesses`: a new port is put in front of
the list, once for each worker. -/
def enlist (workers : Int32) (procList : List Proc) (p : Proc) : List Proc :=
  if uniquePort p.portNum procList then List.replicate workers.toInt.toNat p ++ procList
  else procList

/-- The process list that `startProcesses` builds. -/
def buildProcList (workers : Int32) (servers : List Server) : List Proc :=
  servers.zipIdx.foldl
    (fun procList server =>
      server.1.ports.foldl
        (fun procList port =>
          enlist workers procList
            { server := server.2, portNum := port.portNum, tls := port.tls })
        procList)
    []

/-- The port that `createBindAndListen` binds the socket of a process to. -/
def Proc.bound (p : Proc) : UInt16 :=
  htons p.portNum

/-- No port is served with TLS by one process and in plain by another. -/
def OneProtocol (procList : List Proc) : Prop :=
  ∀ p ∈ procList, ∀ q ∈ procList, p.bound = q.bound → p.tls = q.tls

/-! ## The list -/

/-- All ports of all servers, in the order they are entered. -/
def candidates (servers : List Server) : List Proc :=
  servers.zipIdx.flatMap fun server =>
    server.1.ports.map fun port =>
      { server := server.2, portNum := port.portNum, tls := port.tls }

variable {workers : Int32} {servers : List Server} {procList : List Proc} {p q : Proc}

theorem buildProcList_eq (workers : Int32) (servers : List Server) :
    buildProcList workers servers = (candidates servers).foldl (enlist workers) [] := by
  rw [candidates, List.foldl_flatMap]
  simp only [List.foldl_map]
  rfl

theorem mem_candidates_iff :
    p ∈ candidates servers ↔ ∃ server, servers[p.server]? = some server ∧
      { portNum := p.portNum, tls := p.tls } ∈ server.ports := by
  simp only [candidates, List.mem_flatMap, List.mem_map, Prod.exists, List.mem_zipIdx_iff_getElem?]
  constructor
  · rintro ⟨server, i, here, port, member, rfl⟩
    exact ⟨server, here, member⟩
  · rintro ⟨server, here, member⟩
    exact ⟨server, p.server, here, _, member, rfl⟩

theorem mem_of_mem_enlist (member : q ∈ enlist workers procList p) : q ∈ procList ∨ q = p := by
  simp only [enlist] at member
  split at member
  · rcases List.mem_append.mp member with member | member
    · exact .inr (List.eq_of_mem_replicate member)
    · exact .inl member
  · exact .inl member

/-- Every entry is one of the ports. -/
theorem mem_of_mem_foldl_enlist {ports : List Proc}
    (member : q ∈ ports.foldl (enlist workers) procList) : q ∈ procList ∨ q ∈ ports := by
  induction ports generalizing procList with
  | nil => exact .inl member
  | cons p rest ih =>
      rcases ih member with member | member
      · rcases mem_of_mem_enlist member with member | rfl
        · exact .inl member
        · exact .inr List.mem_cons_self
      · exact .inr (List.mem_cons_of_mem p member)

theorem subset_enlist (workers : Int32) (procList : List Proc) (p : Proc) :
    procList ⊆ enlist workers procList p := by
  intro q member
  simp only [enlist]
  split
  · exact List.mem_append_right _ member
  · exact member

theorem subset_foldl_enlist (workers : Int32) (ports procList : List Proc) :
    procList ⊆ ports.foldl (enlist workers) procList := by
  induction ports generalizing procList with
  | nil => exact List.Subset.refl procList
  | cons p rest ih => exact List.Subset.trans (subset_enlist workers procList p) (ih _)

/-- With workers, every port number gets an entry. -/
theorem exists_mem_foldl_enlist {ports : List Proc} (some_ : 0 < workers.toInt)
    (member : p ∈ ports) : ∃ q ∈ ports.foldl (enlist workers) procList, q.portNum = p.portNum := by
  induction ports generalizing procList with
  | nil => cases member
  | cons first rest ih =>
      rcases List.mem_cons.mp member with rfl | member
      · have entered : ∃ q ∈ enlist workers procList p, q.portNum = p.portNum := by
          simp only [enlist]
          split
          case isTrue =>
            refine ⟨p, List.mem_append_left _ (List.mem_replicate.mpr ⟨?_, rfl⟩), rfl⟩
            omega
          case isFalse known =>
            simpa [uniquePort] using known
        rcases entered with ⟨q, entered, same⟩
        exact ⟨q, subset_foldl_enlist workers rest _ entered, same⟩
      · exact ih member

theorem enlist_of_noWorkers (none : workers.toInt ≤ 0) (procList : List Proc) (p : Proc) :
    enlist workers procList p = procList := by
  have zero : workers.toInt.toNat = 0 := by omega
  simp [enlist, zero]

theorem buildProcList_of_noWorkers (none : workers.toInt ≤ 0) (servers : List Server) :
    buildProcList workers servers = [] := by
  rw [buildProcList_eq]
  induction candidates servers with
  | nil => rfl
  | cons p rest ih => rw [List.foldl_cons, enlist_of_noWorkers none, ih]

/-! ## Ports of an accepted configuration -/

section Accepted

variable {env : CheckEnv} {s t : ParseState}

/-- No server has the port with the other TLS flag. -/
theorem tls_of_checkPorts {portNum : Int32} {tls : Bool} (checked : checkPorts servers portNum tls)
    {server : Server} (member : server ∈ servers) {port : Port} (has : port ∈ server.ports)
    (same : port.portNum = portNum) : port.tls = tls := by
  have each := List.all_eq_true.mp (List.all_eq_true.mp checked server member) port has
  simpa [same] using each

/-- The servers of an accepted configuration agree on the TLS flag of a port number. -/
theorem tls_of_accepted (accepted : checkServers env s = .ok t) {server other : Server}
    (member : server ∈ t.serverList) (member' : other ∈ t.serverList) {port port' : Port}
    (has : port ∈ server.ports) (has' : port' ∈ other.ports)
    (same : port.portNum = port'.portNum) : port.tls = port'.tls := by
  have checked := (checkServers_eq_ok accepted).1
  rcases exists_of_forall₂ checked server member with ⟨first, inKept, one⟩
  rcases exists_of_forall₂ checked other member' with ⟨second, inKept', two⟩
  rcases one.same with ⟨_, _, rfl⟩
  rcases two.same with ⟨_, _, rfl⟩
  have own := List.all_eq_true.mp (List.all_eq_true.mp two.ports second inKept') port' has'
  exact tls_of_checkPorts own inKept has same

/-- With workers, every port of an accepted configuration has an entry with its flag. -/
theorem exists_entry (accepted : checkServers env s = .ok t) {workers : Int32}
    (some_ : 0 < workers.toInt) {server : Server} (member : server ∈ t.serverList) {port : Port}
    (has : port ∈ server.ports) :
    ∃ p ∈ buildProcList workers t.serverList,
      p.portNum = port.portNum ∧ p.tls = port.tls := by
  rcases List.mem_iff_getElem?.mp member with ⟨i, here⟩
  have candidate : { server := i, portNum := port.portNum, tls := port.tls } ∈
      candidates t.serverList := mem_candidates_iff.mpr ⟨server, here, has⟩
  rw [buildProcList_eq]
  rcases @exists_mem_foldl_enlist _ [] _ _ some_ candidate with ⟨p, entered, same⟩
  rcases mem_of_mem_foldl_enlist entered with none | declared
  · cases none
  · rcases mem_candidates_iff.mp declared with ⟨other, there, has'⟩
    exact ⟨p, entered, same,
      tls_of_accepted accepted (List.mem_of_getElem? there) member has' has same⟩

/-- Every entry stands for a port of a server. -/
theorem exists_port_of_mem {workers : Int32} {p : Proc}
    (member : p ∈ buildProcList workers servers) :
    ∃ server ∈ servers, { portNum := p.portNum, tls := p.tls } ∈ server.ports := by
  rw [buildProcList_eq] at member
  rcases mem_of_mem_foldl_enlist member with none | declared
  · cases none
  · rcases mem_candidates_iff.mp declared with ⟨server, here, has⟩
    exact ⟨server, List.mem_of_getElem? here, has⟩

/-- No port is served both ways if and only if there are no workers, or any two port
numbers that come to the same 16 bits have the same TLS flag. -/
theorem oneProtocol_iff (accepted : checkServers env s = .ok t) :
    OneProtocol (buildProcList t.workerProcesses t.serverList) ↔
      t.workerProcesses.toInt ≤ 0 ∨
        ∀ server ∈ t.serverList, ∀ port ∈ server.ports,
          ∀ other ∈ t.serverList, ∀ port' ∈ other.ports,
            port.portNum ≠ port'.portNum → htons port.portNum = htons port'.portNum →
              port.tls = port'.tls := by
  by_cases none : t.workerProcesses.toInt ≤ 0
  · rw [buildProcList_of_noWorkers none]
    simp [OneProtocol, none]
  rw [or_iff_right none]
  have some_ : 0 < t.workerProcesses.toInt := by omega
  constructor
  · intro one server member port has other member' port' has' _ bound
    rcases exists_entry accepted some_ member has with ⟨p, entered, number, flag⟩
    rcases exists_entry accepted some_ member' has' with ⟨q, entered', number', flag'⟩
    rw [← flag, ← flag']
    apply one p entered q entered'
    rw [Proc.bound, Proc.bound, number, number', bound]
  · intro apart p member q member' bound
    rcases exists_port_of_mem member with ⟨server, inList, has⟩
    rcases exists_port_of_mem member' with ⟨other, inList', has'⟩
    by_cases same : p.portNum = q.portNum
    · exact tls_of_accepted accepted inList inList' has has' same
    · exact apart server inList _ has other inList' _ has' same bound

end Accepted

/-- One server on port 443 with TLS, and one on another port. -/
def besideTls (portNum : Int32) : ConfigFile :=
  { main := []
    first := .server [.listen (.number 443) [.ssl]]
    rest := [.server [.listen (.number portNum) []]] }

theorem oneProtocol_iff_besideTls :
    ∃ s t, (besideTls 8081).parse (fun _ => none) = .ok s ∧
      checkServers .permissive s = .ok t ∧
      OneProtocol (buildProcList t.workerProcesses t.serverList) := by
  have apart : ∃ s t, (besideTls 8081).parse (fun _ => none) = .ok s ∧
      checkServers .permissive s = .ok t ∧
      ∀ server ∈ t.serverList, ∀ port ∈ server.ports,
        ∀ other ∈ t.serverList, ∀ port' ∈ other.ports,
          port.portNum ≠ port'.portNum → htons port.portNum = htons port'.portNum →
            port.tls = port'.tls := ⟨_, _, rfl, rfl, by decide⟩
  rcases apart with ⟨s, t, parsed, accepted, apart⟩
  exact ⟨s, t, parsed, accepted, (oneProtocol_iff accepted).mpr (.inr apart)⟩

/-- Port number 65979 is bound to port 443. -/
theorem besideTls_not_oneProtocol :
    ∃ s t, (besideTls 65979).parse (fun _ => none) = .ok s ∧
      checkServers .permissive s = .ok t ∧
      ¬ OneProtocol (buildProcList t.workerProcesses t.serverList) := by
  refine ⟨_, _, rfl, rfl, fun one => ?_⟩
  have same := one { server := 0, portNum := 443, tls := true } (by decide)
    { server := 1, portNum := 65979, tls := false } (by decide) (by decide)
  cases same

end OgWebserver.Startup

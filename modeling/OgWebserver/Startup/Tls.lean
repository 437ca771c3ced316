import OgWebserver.Config.Servers
import OgWebserver.Startup.Processes

/-!
# TLS processes and their files

A `listen` directive sets the TLS flag of a port.  `checkServers` looks at the TLS
flag of the server before it checks the certificate and the key, and nothing sets
that flag, so that the files are opened by `configureContext` without a check.
-/

namespace OgWebserver.Startup

open Text Config

/-- The server whose files `configureContext` gives to the TLS library: the first
one with the port. -/
def configureContext (portNum : Int32) (servers : List Server) : Option Server :=
  servers.find? fun server => server.ports.any fun p => p.portNum == portNum

/-- `checkServers` has checked both files of the server, and they are readable. -/
structure Vetted (env : CheckEnv) (server : Server) : Prop where
  reached : server.tls = true
  certFile : checkCertFile env server = .ok ()
  keyFile : checkKeyFile env server = .ok ()

/-- Some port of the server is a TLS port. -/
def HasTlsPort (server : Server) : Prop :=
  ∃ port ∈ server.ports, port.tls = true

/-- Every TLS process gets files that can be read. -/
def ContextsReadable (env : CheckEnv) (workers : Int32) (servers : List Server) : Prop :=
  ∀ p ∈ buildProcList workers servers, p.tls = true →
    ∃ server, configureContext p.portNum servers = some server ∧
      env.readable? server.certFile ∧ env.readable? server.keyFile

/-- Every server with a TLS port has passed the checks, and every TLS process gets
files that can be read. -/
structure TlsVetted (env : CheckEnv) (t : ParseState) : Prop where
  servers : ∀ server ∈ t.serverList, HasTlsPort server → Vetted env server
  contexts : ContextsReadable env t.workerProcesses t.serverList

variable {gethostbyname : Resolver} {file : ConfigFile} {env : CheckEnv} {s t : ParseState}

/-- The checks of the files are never made. -/
theorem tls_of_accepted_file (parsed : file.parse gethostbyname = .ok s)
    (accepted : checkServers env s = .ok t) : ∀ server ∈ t.serverList, server.tls = false := by
  intro server member
  rcases exists_of_forall₂ (checkServers_eq_ok accepted).1 server member with
    ⟨original, inKept, checked⟩
  have inList : original ∈ s.serverList := by
    simp only [CheckEnv.kept] at inKept
    split at inKept
    · exact inKept
    · exact List.mem_of_mem_tail inKept
  rcases checked.same with ⟨_, _, rfl⟩
  exact tls_of_parse parsed original inList

/-- A TLS process gets files that can be read if every server with a TLS port has
such files: the servers agree on the flag of its port. -/
theorem contextsReadable_of_servers (accepted : checkServers env s = .ok t)
    (readable : ∀ server ∈ t.serverList, HasTlsPort server →
      env.readable? server.certFile ∧ env.readable? server.keyFile) :
    ContextsReadable env t.workerProcesses t.serverList := by
  intro p member flag
  rcases exists_port_of_mem member with ⟨server, inList, has⟩
  have listening : ∃ server ∈ t.serverList,
      (server.ports.any fun port => port.portNum == p.portNum) = true :=
    ⟨server, inList, List.any_eq_true.mpr ⟨_, has, by simp⟩⟩
  rcases Option.isSome_iff_exists.mp (List.find?_isSome.mpr listening) with ⟨first, found⟩
  have firstInList := List.mem_of_find?_eq_some found
  have listens : (first.ports.any fun port => port.portNum == p.portNum) = true :=
    @List.find?_some Server (fun server => server.ports.any fun port => port.portNum == p.portNum)
      first t.serverList found
  rcases List.any_eq_true.mp listens with ⟨port, has', same⟩
  have flag' : port.tls = p.tls :=
    tls_of_accepted accepted firstInList inList has' has (by simpa using same)
  exact ⟨first, found, readable first firstInList ⟨port, has', flag'.trans flag⟩⟩

/-- The servers with TLS ports are vetted if and only if there are none. -/
theorem tlsVetted_iff (parsed : file.parse gethostbyname = .ok s)
    (accepted : checkServers env s = .ok t) :
    TlsVetted env t ↔ ∀ server ∈ t.serverList, ¬ HasTlsPort server := by
  constructor
  · intro vetted server member tlsPort
    have set := (vetted.servers server member tlsPort).reached
    rw [tls_of_accepted_file parsed accepted server member] at set
    cases set
  · intro none
    exact
      { servers := fun server member tlsPort => absurd tlsPort (none server member)
        contexts := contextsReadable_of_servers accepted fun server member tlsPort =>
          absurd tlsPort (none server member) }

/-- One server on port 443. -/
def listening443 (options : List ListenOption) : ConfigFile :=
  { main := [], first := .server [.listen (.number 443) options], rest := [] }

theorem tlsVetted_iff_plain :
    ∃ s t, (listening443 []).parse (fun _ => none) = .ok s ∧
      checkServers .permissive s = .ok t ∧ TlsVetted .permissive t := by
  have plain : ∃ s t, (listening443 []).parse (fun _ => none) = .ok s ∧
      checkServers .permissive s = .ok t ∧
      ∀ server ∈ t.serverList, ∀ port ∈ server.ports, ¬ port.tls = true :=
    ⟨_, _, rfl, rfl, by decide⟩
  rcases plain with ⟨s, t, parsed, accepted, plain⟩
  refine ⟨s, t, parsed, accepted, (tlsVetted_iff parsed accepted).mpr ?_⟩
  rintro server member ⟨port, has, flag⟩
  exact plain server member port has flag

/-- With `listen 443 ssl;` alone, a configuration is accepted whose TLS process gets a
null pointer for its certificate. -/
theorem listening443_not_vetted :
    ∃ s t server, (listening443 [.ssl]).parse (fun _ => none) = .ok s ∧
      checkServers .permissive s = .ok t ∧
      { server := 0, portNum := 443, tls := true } ∈
        buildProcList t.workerProcesses t.serverList ∧
      configureContext 443 t.serverList = some server ∧ server.certFile = none ∧
      ¬ TlsVetted .permissive t := by
  refine ⟨_, _, _, rfl, rfl, by decide, rfl, rfl, fun vetted => ?_⟩
  have readable := vetted.contexts { server := 0, portNum := 443, tls := true } (by decide) rfl
  rcases readable with ⟨server, found, cert, _⟩
  obtain rfl := Option.some.inj found
  cases cert

end OgWebserver.Startup

import Mathlib.Data.List.Forall2
import OgWebserver.Config.Grammar

/-!
# Checking a parsed configuration

`checkConfig` and the functions it calls: what `parseConfig` requires of a
configuration before the server starts.
-/

namespace OgWebserver.Config

open Text

/-- What the checks ask of the outside: the command line, and the file system. -/
structure CheckEnv where
  /-- The default server has not been disabled with `-n`. -/
  isDefaultServer : Bool
  /-- `access(path, R_OK)` succeeds. -/
  readable : Bytes → Bool
  /-- `fopen(path, "r")` succeeds. -/
  opens : Bytes → Bool

/-- The environment in which every path is fine and the default server enabled. -/
def CheckEnv.permissive : CheckEnv :=
  { isDefaultServer := true, readable := fun _ => true, opens := fun _ => true }

/-- `access` of a path that may be null. -/
def CheckEnv.readable? (env : CheckEnv) (path : Option Bytes) : Bool :=
  path.any env.readable

/-- `free` of a log file; a null pointer is left alone. -/
def freeLog (logs : List LogFile) : Option Nat → Except Halt (List LogFile)
  | none => .ok logs
  | some log =>
      match logs[log]? with
      | some file =>
          if file.freed then .error .undefined
          else .ok (logs.set log { file with freed := true })
      | none => .error .undefined

/-- `popServer` removes the first server of the list and frees its logs. -/
def popServer (s : ParseState) : Except Halt ParseState :=
  match s.serverList with
  | [] => .error .undefined
  | server :: rest => do
      let accessLogs ← freeLog s.accessLogs server.accessLog
      let errorLogs ← freeLog s.errorLogs server.errorLog
      .ok { s with serverList := rest, accessLogs := accessLogs, errorLogs := errorLogs }

/-- `checkPorts`: no server has the port with the other TLS flag. -/
def checkPorts (servers : List Server) (portNum : Int32) (tls : Bool) : Bool :=
  servers.all fun s => s.ports.all fun p => !(p.portNum == portNum && p.tls != tls)

/-- `portOk`; the outer loop over the servers repeats the same check. -/
def portOk (servers : List Server) (server : Server) : Bool :=
  servers.all fun _ => server.ports.all fun p => checkPorts servers p.portNum p.tls

/-- `checkDocRoots`. -/
def checkDocRoots (env : CheckEnv) : List Location → Except Halt Unit
  | [] => .ok ()
  | loc :: rest =>
      if hasBit loc.type typeProxyPass then
        if loc.passTo.isNone then .error (.exit "Proxy pass missing\n")
        else checkDocRoots env rest
      else if hasBit loc.type typeDocRoot then
        if env.readable? (loc.root.map (·.text)) then checkDocRoots env rest
        else .error (.exit "doc root not valid\n")
      else if hasBit loc.type typeTryFiles then
        if loc.tryTarget.isEmpty then .error (.exit "Try directive incomplete\n")
        else checkDocRoots env rest
      else .error (.exit "Unknown location type\n")

/-- `checkServerNames`. -/
def checkServerNames (server : Server) : Except Halt Unit :=
  if server.serverNames.isEmpty then .error (.exit "missing server name\n") else .ok ()

/-- `checkIndexFiles`. -/
def checkIndexFiles (server : Server) : Except Halt Unit :=
  if server.indexFiles.isEmpty then .error (.exit "missing default index file\n") else .ok ()

/-- `checkAccessLog`: a server without an access log gets the default one. -/
def checkAccessLog (s : ParseState) (server : Server) : Except Halt Server :=
  match server.accessLog.or (getDefaultAccessLog s) with
  | some log => .ok { server with accessLog := some log }
  | none => .error (.exit "missing default access log\n")

/-- `checkErrorLog`: a server without an error log gets the default one. -/
def checkErrorLog (s : ParseState) (server : Server) : Except Halt Server :=
  match server.errorLog.or (getDefaultErrorLog s) with
  | some log => .ok { server with errorLog := some log }
  | none => .error (.exit "missing default error log\n")

/-- `checkCertFile`. -/
def checkCertFile (env : CheckEnv) (server : Server) : Except Halt Unit :=
  if env.readable? server.certFile then .ok ()
  else .error (.exit "certificate file not valid\n")

/-- `checkKeyFile`. -/
def checkKeyFile (env : CheckEnv) (server : Server) : Except Halt Unit :=
  if env.readable? server.keyFile then .ok () else .error (.exit "key file not valid")

/-- The checks of a server that uses TLS. -/
def checkTls (env : CheckEnv) (server : Server) : Except Halt Unit :=
  if server.tls then do
    checkCertFile env server
    checkKeyFile env server
  else .ok ()

/-- The body of the loop of `checkServers`. -/
def checkServer (env : CheckEnv) (s : ParseState) (server : Server) : Except Halt Server := do
  if portOk s.serverList server then
    checkDocRoots env server.locations
    checkServerNames server
    checkIndexFiles server
    let server ← checkAccessLog s server
    let server ← checkErrorLog s server
    checkTls env server
    .ok server
  else .error (.exit "Invalid port configuration\n")

/-- The loop of `checkServers`. -/
def checkEach (env : CheckEnv) (s : ParseState) : List Server → Except Halt (List Server)
  | [] => .ok []
  | server :: rest => do
      let server ← checkServer env s server
      let rest ← checkEach env s rest
      .ok (server :: rest)

/-- The first step of `checkServers`: with the default server disabled, the first
server of the list is removed. -/
def withoutDefault (env : CheckEnv) (s : ParseState) : Except Halt ParseState :=
  if env.isDefaultServer then .ok s else popServer s

/-- `checkServers`. -/
def checkServers (env : CheckEnv) (s : ParseState) : Except Halt ParseState := do
  let s ← withoutDefault env s
  let servers ← checkEach env s s.serverList
  .ok { s with serverList := servers }

/-- `checkConfig`. -/
def checkConfig (env : CheckEnv) (s : ParseState) : Except Halt ParseState :=
  if env.opens s.pidFile then checkServers env s
  else .error (.exit "pid log not valid\n")

/-! ## What an accepted configuration satisfies -/

variable {env : CheckEnv} {s t : ParseState} {server checked : Server}

/-- Location `loc` has passed `checkDocRoots`. -/
structure RootChecked (env : CheckEnv) (loc : Location) : Prop where
  passTo : hasBit loc.type typeProxyPass → loc.passTo.isSome
  root : hasBit loc.type typeProxyPass = false → hasBit loc.type typeDocRoot →
    env.readable? (loc.root.map (·.text))

theorem checkDocRoots_eq_ok {locations : List Location}
    (ran : checkDocRoots env locations = .ok ()) : ∀ loc ∈ locations, RootChecked env loc := by
  induction locations with
  | nil => simp
  | cons loc rest ih =>
      simp only [checkDocRoots] at ran
      refine List.forall_mem_cons.mpr ?_
      split at ran
      case isTrue proxy =>
        split at ran
        · cases ran
        case isFalse given =>
          exact ⟨⟨fun _ => by simpa [Option.isSome_iff_ne_none] using given, by simp [proxy]⟩,
            ih ran⟩
      case isFalse noProxy =>
        have noPassTo : hasBit loc.type typeProxyPass → loc.passTo.isSome :=
          fun proxy => absurd proxy noProxy
        split at ran
        case isTrue doc =>
          split at ran
          case isTrue readable => exact ⟨⟨noPassTo, fun _ _ => readable⟩, ih ran⟩
          case isFalse => cases ran
        case isFalse noDoc =>
          have noRoot : ∀ other : hasBit loc.type typeProxyPass = false,
              hasBit loc.type typeDocRoot → env.readable? (loc.root.map (·.text)) :=
            fun _ doc => absurd doc noDoc
          split at ran
          · split at ran
            · cases ran
            · exact ⟨⟨noPassTo, noRoot⟩, ih ran⟩
          · cases ran

/-- A checked server: as it was, but for its logs, and well formed. -/
structure Checked (env : CheckEnv) (servers : List Server) (server checked : Server) : Prop where
  same : ∃ accessLog errorLog,
    checked = { server with accessLog := some accessLog, errorLog := some errorLog }
  ports : portOk servers server
  roots : ∀ loc ∈ server.locations, RootChecked env loc
  names : server.serverNames ≠ []
  indexFiles : server.indexFiles ≠ []

theorem checkServer_eq_ok (ran : checkServer env s server = .ok checked) :
    Checked env s.serverList server checked := by
  simp only [checkServer] at ran
  split at ran
  case isFalse => cases ran
  case isTrue ports =>
    rcases Transition.bind_eq_ok_iff.mp ran with ⟨_, roots, ran⟩
    rcases Transition.bind_eq_ok_iff.mp ran with ⟨_, names, ran⟩
    rcases Transition.bind_eq_ok_iff.mp ran with ⟨_, indexFiles, ran⟩
    rcases Transition.bind_eq_ok_iff.mp ran with ⟨accessed, access, ran⟩
    rcases Transition.bind_eq_ok_iff.mp ran with ⟨erred, error, ran⟩
    rcases Transition.bind_eq_ok_iff.mp ran with ⟨_, _, done⟩
    obtain rfl := Except.ok.inj done
    have accessSame : ∃ log, accessed = { server with accessLog := some log } := by
      simp only [checkAccessLog] at access
      split at access
      · exact ⟨_, (Except.ok.inj access).symm⟩
      · cases access
    have errorSame : ∃ log, erred = { accessed with errorLog := some log } := by
      simp only [checkErrorLog] at error
      split at error
      · exact ⟨_, (Except.ok.inj error).symm⟩
      · cases error
    rcases accessSame with ⟨accessLog, rfl⟩
    rcases errorSame with ⟨errorLog, rfl⟩
    exact
      { same := ⟨accessLog, errorLog, rfl⟩
        ports := ports
        roots := checkDocRoots_eq_ok roots
        names := by
          simp only [checkServerNames] at names
          split at names
          · cases names
          case isFalse some => simpa using some
        indexFiles := by
          simp only [checkIndexFiles] at indexFiles
          split at indexFiles
          · cases indexFiles
          case isFalse some => simpa using some }

theorem checkEach_eq_ok {servers done : List Server} (ran : checkEach env s servers = .ok done) :
    List.Forall₂ (Checked env s.serverList) servers done := by
  induction servers generalizing done with
  | nil =>
      obtain rfl := Except.ok.inj ran
      exact .nil
  | cons server rest ih =>
      rcases Transition.bind_eq_ok_iff.mp ran with ⟨first, one, ran⟩
      rcases Transition.bind_eq_ok_iff.mp ran with ⟨others, more, last⟩
      obtain rfl := Except.ok.inj last
      exact .cons (checkServer_eq_ok one) (ih more)

/-- Related lists have a property throughout if related members have it alike. -/
theorem forall_iff_of_forall₂ {α β : Type} {R : α → β → Prop} {P : α → Prop} {Q : β → Prop}
    (alike : ∀ a b, R a b → (P a ↔ Q b)) {first : List α} {second : List β}
    (related : List.Forall₂ R first second) : (∀ a ∈ first, P a) ↔ ∀ b ∈ second, Q b := by
  induction related with
  | nil => simp
  | cons here _ ih => rw [List.forall_mem_cons, List.forall_mem_cons, alike _ _ here, ih]

/-- What every related pair gives holds throughout the second list. -/
theorem forall_of_forall₂ {α β : Type} {R : α → β → Prop} {Q : β → Prop}
    (gives : ∀ a b, R a b → Q b) {first : List α} {second : List β}
    (related : List.Forall₂ R first second) : ∀ b ∈ second, Q b := by
  induction related with
  | nil => simp
  | cons here _ ih => exact List.forall_mem_cons.mpr ⟨gives _ _ here, ih⟩

/-- Every member of the second list is related to a member of the first. -/
theorem exists_of_forall₂ {α β : Type} {R : α → β → Prop} {first : List α} {second : List β}
    (related : List.Forall₂ R first second) : ∀ b ∈ second, ∃ a ∈ first, R a b := by
  induction related with
  | nil => simp
  | cons here _ ih =>
      intro b member
      rcases List.mem_cons.mp member with rfl | member
      · exact ⟨_, List.mem_cons_self, here⟩
      · rcases ih b member with ⟨a, inFirst, relates⟩
        exact ⟨a, List.mem_cons_of_mem _ inFirst, relates⟩

/-- The servers that `checkServers` keeps. -/
def CheckEnv.kept (env : CheckEnv) {α : Type} (servers : List α) : List α :=
  if env.isDefaultServer then servers else servers.tail

/-- An accepted configuration: the kept servers have been checked against one
another, and nothing else matters to requests has changed. -/
theorem checkServers_eq_ok (ran : checkServers env s = .ok t) :
    List.Forall₂ (Checked env (env.kept s.serverList)) (env.kept s.serverList) t.serverList ∧
      t.upstreams = s.upstreams ∧ t.passTo = s.passTo := by
  rcases Transition.bind_eq_ok_iff.mp ran with ⟨m, start, rest⟩
  rcases Transition.bind_eq_ok_iff.mp rest with ⟨servers, each, done⟩
  obtain rfl := Except.ok.inj done
  have started : m.serverList = env.kept s.serverList ∧ m.upstreams = s.upstreams ∧
      m.passTo = s.passTo := by
    simp only [withoutDefault, CheckEnv.kept] at start ⊢
    split at start
    case isTrue enabled =>
      obtain rfl := Except.ok.inj start
      simp [enabled]
    case isFalse disabled =>
      simp only [popServer] at start
      split at start
      · cases start
      case h_2 server others list =>
        rcases Transition.bind_eq_ok_iff.mp start with ⟨_, _, start⟩
        rcases Transition.bind_eq_ok_iff.mp start with ⟨_, _, start⟩
        obtain rfl := Except.ok.inj start
        simp [disabled, list]
  have checked := checkEach_eq_ok each
  rw [started.1] at checked
  exact ⟨checked, started.2⟩

end OgWebserver.Config

import OgWebserver.Config.Inherited

/-!
# Logs beside the rest of the state

Until a server block is closed, nothing but the log directives reads the logs, and
these read nothing else.  A run of directives is a run of those that give no log
beside the runs of the two log lists.
-/

namespace OgWebserver.Config

open Text Transition

variable {gethostbyname : Resolver} {s t : ParseState}

/-! ## The run of a log list -/

namespace LogSlot

/-- Give several logs: a second one is not accepted while one is pending. -/
def pushAll (slot : LogSlot) : List Bytes → Option LogSlot
  | [] => some slot
  | path :: rest => if slot.current.isSome then none else (slot.push path).pushAll rest

theorem pushAll_eq_some_iff {slot slot' : LogSlot} {paths : List Bytes} :
    slot.pushAll paths = some slot' ↔
      paths = [] ∧ slot' = slot ∨
        ∃ path, paths = [path] ∧ slot.current = none ∧ slot' = slot.push path := by
  rcases paths with _ | ⟨path, _ | ⟨second, rest⟩⟩
  · simp [pushAll, eq_comm]
  · cases pending : slot.current <;> simp [pushAll, pending, eq_comm]
  · cases pending : slot.current <;> simp [pushAll, pending, push]

end LogSlot

/-! ## Other logs -/

/-- The state with its logs replaced. -/
def ParseState.withLogs (s : ParseState) (access error : LogSlot) : ParseState :=
  { s with
    currentAccessLog := access.current
    accessLogs := access.logs
    currentErrorLog := error.current
    errorLogs := error.logs }

theorem withLogs_self (s : ParseState) :
    s.withLogs s.settings.accessSlot s.settings.errorSlot = s :=
  rfl

def Action.isLog : Action → Bool
  | .accessLog _ | .errorLog _ => true
  | _ => false

/-- Actions that close a server or the http section. -/
def Action.closes : Action → Bool
  | .server | .http => true
  | _ => false

section WithLogs

variable (access error : LogSlot)

theorem fServerName_withLogs (name : CString) (type : ServerNameType) (s : ParseState) :
    fServerName name type (s.withLogs access error) =
      (fServerName name type s).map (·.withLogs access error) := by
  have same : dupName name.text (s.withLogs access error) = dupName name.text s := rfl
  simp only [fServerName, same]
  split
  · cases freeString name <;> rfl
  · rfl

theorem listenPort_withLogs (portNum : Int32) (s : ParseState) :
    listenPort portNum (s.withLogs access error) =
      (listenPort portNum s).withLogs access error := by
  rw [listenPort_eq, listenPort_eq]
  rfl

theorem locationToGroup_withLogs (type group : Nat) (s : ParseState) :
    locationToGroup type group (s.withLogs access error) =
      (locationToGroup type group s).map (·.withLogs access error) := by
  have items : (s.withLogs access error).locations.items = s.locations.items := rfl
  have same : (s.withLogs access error).upstreams = s.upstreams := rfl
  simp only [locationToGroup, items, same]
  cases s.locations.items with
  | nil => rfl
  | cons loc rest =>
      dsimp only
      cases freeGroup s.upstreams loc.group <;> rfl

theorem resolveGroup_withLogs (group : Nat) (s : ParseState) :
    resolveGroup gethostbyname group (s.withLogs access error) =
      (resolveGroup gethostbyname group s).map (·.withLogs access error) := by
  have same : (s.withLogs access error).upstreams = s.upstreams := rfl
  have passTo : (s.withLogs access error).passTo = s.passTo := rfl
  simp only [resolveGroup, same, passTo]
  cases s.upstreams[group]? with
  | none => rfl
  | some g =>
      simp only
      split
      · rfl
      · cases setPassTo gethostbyname g.servers s.passTo <;> rfl

theorem proxyPassToHost_withLogs (type : Nat) (host : Bytes) (port : Int32) (s : ParseState) :
    proxyPassToHost gethostbyname type host port (s.withLogs access error) =
      (proxyPassToHost gethostbyname type host port s).map (·.withLogs access error) := by
  have items : (s.withLogs access error).locations.items = s.locations.items := rfl
  simp only [proxyPassToHost, items]
  cases hostAddress gethostbyname host port with
  | none => rfl
  | some address => cases s.locations.items <;> rfl

theorem pass_withLogs (type : Nat) (host : Bytes) (port : Int32) (s : ParseState) :
    pass gethostbyname type host port (s.withLogs access error) =
      (pass gethostbyname type host port s).map (·.withLogs access error) := by
  have same : (s.withLogs access error).upstreams = s.upstreams := rfl
  simp only [pass, same]
  cases isUpstreamGroup host s.upstreams with
  | error halt => rfl
  | ok found =>
      cases found with
      | none => exact proxyPassToHost_withLogs access error type host port s
      | some group =>
          simp only [bind, Except.bind, proxyPassToUpstreamGroup, locationToGroup_withLogs]
          cases locationToGroup type group s with
          | error halt => rfl
          | ok m => exact resolveGroup_withLogs access error group m

theorem fRoot_withLogs (root : CString) (s : ParseState) :
    fRoot root (s.withLogs access error) = (fRoot root s).map (·.withLogs access error) := by
  have items : (s.withLogs access error).locations.items = s.locations.items := rfl
  simp only [fRoot, items]
  cases s.locations.items with
  | nil => rfl
  | cons loc rest =>
      cases own : loc.root with
      | none => simp only [own]; rfl
      | some old => simp only [own]; cases freeString old <;> rfl

theorem fLocation_withLogs (matchType : MatchType) (match_ : Bytes) (s : ParseState) :
    fLocation matchType match_ (s.withLogs access error) =
      (fLocation matchType match_ s).map (·.withLogs access error) := by
  have same : (s.withLogs access error).locations = s.locations := rfl
  simp only [fLocation, same]
  cases s.locations.head.root.or (s.locations.next.bind (·.root)) <;> rfl

/-- What neither gives a log nor closes a server does the same beside other logs. -/
theorem perform_withLogs {a : Action} (silent : a.isLog = false) (inside : a.closes = false)
    (s : ParseState) :
    perform gethostbyname (s.withLogs access error) a =
      (perform gethostbyname s a).map (·.withLogs access error) := by
  cases a with
  | accessLog | errorLog => cases silent
  | server | http => cases inside
  | pid | workerProcesses | defaultType | autoindex | serverTokens | indexFile | tls | tryTarget
  | upstream => rfl
  | serverName name type => exact fServerName_withLogs access error name type s
  | sslCertificate path =>
      simp only [perform, fSslCertificate_eq]
      rfl
  | sslCertificateKey path =>
      simp only [perform, fSslCertificateKey_eq]
      rfl
  | listen name portNum =>
      cases name with
      | none =>
          simp only [perform, fListen, listenPort_withLogs]
          rfl
      | some name =>
          simp only [perform, fListen, listenPort_withLogs]
          exact fServerName_withLogs access error name _ _
  | root root => exact fRoot_withLogs access error root s
  | expires expires =>
      simp only [perform, fExpires]
      cases freeString expires <;> rfl
  | tryFiles =>
      have same : (s.withLogs access error).locations = s.locations := rfl
      simp only [perform, fTryFiles, same]
      cases s.locations.items <;> rfl
  | protocol p =>
      simp only [perform, fProtocol]
      split_ifs <;> rfl
  | proxyPass host port => exact pass_withLogs access error _ host port s
  | fastcgiPass host port => exact pass_withLogs access error _ host port s
  | location matchType match_ => exact fLocation_withLogs access error matchType match_ s
  | upstreams name =>
      have same : (s.withLogs access error).upstreams = s.upstreams := rfl
      simp only [perform, fUpstreams, setUpstreamList, same]
      split <;> rfl

end WithLogs

/-! ## Runs -/

theorem fAccessLog_withLogs_eq_ok_iff {access error : LogSlot} {path : Bytes} :
    fAccessLog path (s.withLogs access error) = .ok t ↔
      access.current = none ∧ t = s.withLogs (access.push path) error := by
  cases pending : access.current <;>
    simp [fAccessLog, ParseState.withLogs, setAccessLog, LogSlot.push, pending, eq_comm]

theorem fErrorLog_withLogs_eq_ok_iff {access error : LogSlot} {path : Bytes} :
    fErrorLog path (s.withLogs access error) = .ok t ↔
      error.current = none ∧ t = s.withLogs access (error.push path) := by
  cases pending : error.current <;>
    simp [fErrorLog, ParseState.withLogs, setErrorLog, LogSlot.push, pending, eq_comm]

theorem gives_of_silent {a : Action} (silent : a.isLog = false) :
    Inherited.accessLog.gives a = [] ∧ Inherited.errorLog.gives a = [] := by
  cases a with
  | accessLog | errorLog => cases silent
  | _ => exact ⟨rfl, rfl⟩

/-- A run returns if and only if what gives no log does, and neither log is given while
one is pending. -/
theorem run_withLogs_eq_ok_iff {actions : List Action} {access error : LogSlot}
    (inside : ∀ a ∈ actions, a.closes = false) :
    run (perform gethostbyname) (s.withLogs access error) actions = .ok t ↔
      ∃ access' error' u,
        access.pushAll (actions.flatMap Inherited.accessLog.gives) = some access' ∧
          error.pushAll (actions.flatMap Inherited.errorLog.gives) = some error' ∧
            run (perform gethostbyname) s (actions.filter fun a => !a.isLog) = .ok u ∧
              t = u.withLogs access' error' := by
  induction actions generalizing s access error with
  | nil => simp [run, LogSlot.pushAll, eq_comm]
  | cons a rest ih =>
      have later : ∀ b ∈ rest, b.closes = false :=
        fun b member => inside b (List.mem_cons_of_mem a member)
      rw [run_cons_eq_ok_iff]
      cases silent : a.isLog with
      | true =>
          cases a with
          | accessLog path =>
              simp only [perform, fAccessLog_withLogs_eq_ok_iff, List.flatMap_cons,
                Inherited.gives, List.cons_append, List.nil_append, LogSlot.pushAll]
              cases pending : access.current with
              | some n => simp
              | none => simp [ih later, Action.isLog]
          | errorLog path =>
              simp only [perform, fErrorLog_withLogs_eq_ok_iff, List.flatMap_cons,
                Inherited.gives, List.cons_append, List.nil_append, LogSlot.pushAll]
              cases pending : error.current with
              | some n => simp
              | none => simp [ih later, Action.isLog]
          | _ => cases silent
      | false =>
          have gives := gives_of_silent silent
          simp only [perform_withLogs access error silent (inside a List.mem_cons_self),
            List.flatMap_cons, gives.1, gives.2, List.nil_append, List.filter_cons, silent,
            Bool.not_false, if_true, run_cons_eq_ok_iff]
          cases perform gethostbyname s a with
          | error halt => simp [Except.map]
          | ok m => simp [Except.map, ih later]

end OgWebserver.Config

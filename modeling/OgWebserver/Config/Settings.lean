import OgWebserver.Config.Block

/-!
# Settings of a block

The part of the parser's state beside the core: names, ports, index files, logs,
certificate, key and the autoindex flag.  Location directives and upstream
blocks leave it alone.  What the other actions make of it is a function of the
settings only, and so is whether such an action returns.
-/

namespace OgWebserver.Config

open Text Transition

structure Settings where
  indexFiles : Pending Bytes
  serverNames : Pending ServerName
  ports : Pending Port
  currentAccessLog : Option Nat
  currentErrorLog : Option Nat
  certFile : Option Bytes
  keyFile : Option Bytes
  autoIndex : Bool
  accessLogs : List LogFile
  errorLogs : List LogFile

def ParseState.settings (s : ParseState) : Settings :=
  { indexFiles := s.indexFiles
    serverNames := s.serverNames
    ports := s.ports
    currentAccessLog := s.currentAccessLog
    currentErrorLog := s.currentErrorLog
    certFile := s.certFile
    keyFile := s.keyFile
    autoIndex := s.autoIndex
    accessLogs := s.accessLogs
    errorLogs := s.errorLogs }

/-- The actions of location directives, and of the end of a section. -/
def Action.onLocation : Action → Bool
  | .root _ | .expires _ | .tryTarget _ | .tryFiles | .protocol _ | .proxyPass .. => true
  | .fastcgiPass .. | .location .. | .defaultType _ => true
  | _ => false

theorem LocationDirective.onLocation (d : LocationDirective) :
    ∀ a ∈ d.actions, a.onLocation = true := by
  intro a member
  cases d with
  | tryFiles first rest =>
      rcases List.mem_append.mp member with target | last
      · rcases List.mem_map.mp target with ⟨_, _, rfl⟩
        rfl
      · obtain rfl := List.mem_singleton.mp last
        rfl
  | proxyPass scheme host port =>
      rcases List.mem_cons.mp member with rfl | member
      · rfl
      · obtain rfl := List.mem_singleton.mp member
        rfl
  | root | fastcgiPass | expires | expiresOff | defaultType =>
      obtain rfl := List.mem_singleton.mp member
      rfl
  | inert => cases member

theorem Section.onLocation (sec : Section) : ∀ a ∈ sec.actions, a.onLocation = true := by
  intro a member
  rcases List.mem_append.mp member with member | member
  · rcases List.mem_flatMap.mp member with ⟨d, _, inside⟩
    exact d.onLocation a inside
  · obtain rfl := List.mem_singleton.mp member
    rfl

/-- A name the list holds already, the default left aside, is not added again. -/
def addName (serverName : CString) (type : ServerNameType) (p : Pending ServerName) :
    Pending ServerName :=
  if p.items.any fun sn => sn.serverName.text == serverName.text then p
  else p.push { serverName := serverName, type := type }

/-- A port that is not positive, or that the list holds already, is not added. -/
def addPort (portNum : Int32) (p : Pending Port) : Pending Port :=
  if 0 < portNum.toInt && !(p.items.any fun q => q.portNum == portNum) then
    p.push { portNum := portNum, tls := false }
  else p

namespace Settings

/-- The settings after an action that returns. -/
def after (c : Settings) : Action → Settings
  | .autoindex flag => { c with autoIndex := flag }
  | .serverName name type => { c with serverNames := addName name type c.serverNames }
  | .indexFile indexFile => { c with indexFiles := c.indexFiles.push indexFile }
  | .errorLog path =>
      { c with
        errorLogs := c.errorLogs ++ [{ path := path, freed := false }]
        currentErrorLog := some c.errorLogs.length }
  | .accessLog path =>
      { c with
        accessLogs := c.accessLogs ++ [{ path := path, freed := false }]
        currentAccessLog := some c.accessLogs.length }
  | .sslCertificate path => { c with certFile := c.certFile.or (some path) }
  | .sslCertificateKey path => { c with keyFile := c.keyFile.or (some path) }
  | .listen none portNum => { c with ports := addPort portNum c.ports }
  | .listen (some name) portNum =>
      { c with
        ports := addPort portNum c.ports
        serverNames := addName name .serverNameExact c.serverNames }
  | .tls => { c with ports := c.ports.modifyHead fun p => { p with tls := true } }
  | .server =>
      { c with
        serverNames := c.serverNames.clear
        indexFiles := c.indexFiles.clear
        ports := c.ports.clear
        currentAccessLog := none
        currentErrorLog := none
        autoIndex := false
        certFile := none
        keyFile := none }
  | _ => c

/-- The settings after several actions. -/
def afterAll (c : Settings) (actions : List Action) : Settings :=
  actions.foldl after c

@[simp]
theorem afterAll_append (c : Settings) (first second : List Action) :
    c.afterAll (first ++ second) = (c.afterAll first).afterAll second :=
  List.foldl_append

/-- A variable that none of the actions writes. -/
theorem afterAll_field {β : Type} (get : Settings → β) {actions : List Action}
    (silent : ∀ a ∈ actions, ∀ c : Settings, get (c.after a) = get c) (c : Settings) :
    get (c.afterAll actions) = get c := by
  induction actions generalizing c with
  | nil => rfl
  | cons a rest ih =>
      apply (ih (fun b member => silent b (List.mem_cons_of_mem a member)) (c.after a)).trans
      exact silent a List.mem_cons_self c

/-- A location section leaves the settings alone. -/
theorem afterAll_section (c : Settings) (sec : Section) : c.afterAll sec.actions = c := by
  apply afterAll_field id
  intro a member c
  have inside := sec.onLocation a member
  cases a with
  | root | expires | tryTarget | tryFiles | protocol | proxyPass | fastcgiPass | location
  | defaultType => rfl
  | _ => cases inside

end Settings

variable {gethostbyname : Resolver} {s t : ParseState}

theorem addName_eq (serverName : CString) (type : ServerNameType) (s : ParseState) :
    addName serverName type s.serverNames =
      if dupName serverName.text s then s.serverNames
      else s.serverNames.push { serverName := serverName, type := type } :=
  rfl

theorem fServerName_eq_ok_iff {serverName : CString} {type : ServerNameType} :
    fServerName serverName type s = .ok t ↔
      (dupName serverName.text s → serverName.heap) ∧
        t = { s with serverNames := addName serverName type s.serverNames } := by
  rw [addName_eq, fServerName]
  by_cases dup : dupName serverName.text s = true
  · rw [if_pos dup, if_pos dup]
    cases heap : serverName.heap with
    | true =>
        have freed : freeString serverName = .ok () := if_pos heap
        rw [freed]
        constructor
        · intro same
          exact ⟨fun _ => rfl, (Except.ok.inj same).symm⟩
        · rintro ⟨_, rfl⟩
          rfl
    | false =>
        have notFreed : freeString serverName = .error .undefined := if_neg (by simp [heap])
        rw [notFreed]
        constructor
        · intro ran
          cases ran
        · rintro ⟨free, _⟩
          cases free dup
  · rw [if_neg dup, if_neg dup]
    constructor
    · intro same
      exact ⟨fun other => absurd other dup, (Except.ok.inj same).symm⟩
    · rintro ⟨_, rfl⟩
      rfl

theorem listenPort_eq (portNum : Int32) (s : ParseState) :
    listenPort portNum s = { s with ports := addPort portNum s.ports } := by
  by_cases new : 0 < portNum.toInt && !dupPort portNum s
  · have added : addPort portNum s.ports = s.ports.push { portNum := portNum, tls := false } :=
      if_pos new
    rw [listenPort, if_pos new, added]
  · have same : addPort portNum s.ports = s.ports := if_neg new
    rw [listenPort, if_neg new, same]

theorem fSslCertificate_eq (path : Bytes) (s : ParseState) :
    fSslCertificate path s = { s with certFile := s.certFile.or (some path) } := by
  rw [fSslCertificate]
  cases given : s.certFile with
  | none => rfl
  | some first =>
      rw [Option.some_or]
      simp only [← given]

theorem fSslCertificateKey_eq (path : Bytes) (s : ParseState) :
    fSslCertificateKey path s = { s with keyFile := s.keyFile.or (some path) } := by
  rw [fSslCertificateKey]
  cases given : s.keyFile with
  | none => rfl
  | some first =>
      rw [Option.some_or]
      simp only [← given]

theorem settings_pass {type : Nat} {host : Bytes} {port : Int32}
    (ran : pass gethostbyname type host port s = .ok t) : t.settings = s.settings := by
  rcases bind_eq_ok_iff.mp ran with ⟨found, _, rest⟩
  cases found with
  | none =>
      rw [proxyPassToHost_eq_ok rest]
      rfl
  | some group =>
      rcases bind_eq_ok_iff.mp rest with ⟨m, moved, resolved⟩
      rcases resolveGroup_eq_ok resolved with ⟨passTo, _, resolved_eq, _⟩
      rw [resolved_eq, locationToGroup_eq_ok moved]
      rfl

/-- The actions on locations and upstreams leave the settings alone. -/
theorem settings_of_location {a : Action} (location : a.quiet = false) (notServer : a ≠ .server)
    (ran : perform gethostbyname s a = .ok t) : t.settings = s.settings := by
  cases a with
  | pid | workerProcesses | defaultType | autoindex | serverTokens | serverName | indexFile
  | errorLog | accessLog | sslCertificate | sslCertificateKey | listen | tls => cases location
  | server => exact absurd rfl notServer
  | root root =>
      simp only [perform, fRoot] at ran
      split at ran
      · split at ran
        · rcases bind_eq_ok_iff.mp ran with ⟨_, _, done⟩
          rw [← Except.ok.inj done]
          rfl
        · rw [← Except.ok.inj ran]
          rfl
      · rw [← Except.ok.inj ran]
        rfl
  | expires expires =>
      rcases bind_eq_ok_iff.mp ran with ⟨_, _, done⟩
      rw [← Except.ok.inj done]
      rfl
  | tryTarget | http | upstream =>
      rw [← Except.ok.inj ran]
      rfl
  | tryFiles =>
      rw [← Except.ok.inj ran]
      simp only [fTryFiles]
      split <;> rfl
  | protocol p =>
      rw [← Except.ok.inj ran]
      simp only [fProtocol]
      split_ifs <;> rfl
  | proxyPass | fastcgiPass => exact settings_pass ran
  | location matchType match_ =>
      simp only [perform, fLocation] at ran
      split at ran
      · cases ran
      · rw [← Except.ok.inj ran]
        rfl
  | upstreams name =>
      simp only [perform, fUpstreams, setUpstreamList] at ran
      split at ran
      · cases ran
      · rw [← Except.ok.inj ran]
        rfl

/-- What an action that returns makes of the settings. -/
theorem settings_of_perform {a : Action} (ran : perform gethostbyname s a = .ok t) :
    t.settings = s.settings.after a := by
  cases a with
  | serverName name type =>
      rw [(fServerName_eq_ok_iff.mp ran).2]
      rfl
  | listen name portNum =>
      cases name with
      | none =>
          have done := Except.ok.inj ran
          rw [listenPort_eq] at done
          rw [← done]
          rfl
      | some name =>
          have named : fServerName name .serverNameExact (listenPort portNum s) = .ok t := ran
          rw [listenPort_eq] at named
          rw [(fServerName_eq_ok_iff.mp named).2]
          rfl
  | errorLog path =>
      simp only [perform, fErrorLog] at ran
      split at ran
      · cases ran
      · rw [← Except.ok.inj ran]
        rfl
  | accessLog path =>
      simp only [perform, fAccessLog] at ran
      split at ran
      · cases ran
      · rw [← Except.ok.inj ran]
        rfl
  | sslCertificate path =>
      have done := Except.ok.inj ran
      rw [fSslCertificate_eq] at done
      rw [← done]
      rfl
  | sslCertificateKey path =>
      have done := Except.ok.inj ran
      rw [fSslCertificateKey_eq] at done
      rw [← done]
      rfl
  | pid | workerProcesses | defaultType | autoindex | serverTokens | indexFile | tls | server =>
      rw [← Except.ok.inj ran]
      rfl
  | root | expires | tryTarget | tryFiles | protocol | proxyPass | fastcgiPass | location
  | upstream | upstreams | http => exact settings_of_location rfl (by simp) ran

/-- The settings after a run. -/
theorem settings_of_run {actions : List Action}
    (ran : run (perform gethostbyname) s actions = .ok t) :
    t.settings = s.settings.afterAll actions := by
  induction actions generalizing s with
  | nil =>
      rw [← Except.ok.inj ran]
      rfl
  | cons a rest ih =>
      rcases run_cons_eq_ok_iff.mp ran with ⟨m, one, more⟩
      rw [ih more, settings_of_perform one]
      rfl

/-! ## Logs -/

theorem Settings.accessLogs_prefix_after (c : Settings) (a : Action) :
    c.accessLogs <+: (c.after a).accessLogs := by
  cases a with
  | accessLog path => exact List.prefix_append _ _
  | listen name portNum => cases name <;> exact List.prefix_refl _
  | _ => exact List.prefix_refl _

theorem Settings.errorLogs_prefix_after (c : Settings) (a : Action) :
    c.errorLogs <+: (c.after a).errorLogs := by
  cases a with
  | errorLog path => exact List.prefix_append _ _
  | listen name portNum => cases name <;> exact List.prefix_refl _
  | _ => exact List.prefix_refl _

/-- Logs are only ever added. -/
theorem Settings.logs_prefix_afterAll (c : Settings) (actions : List Action) :
    c.accessLogs <+: (c.afterAll actions).accessLogs ∧
      c.errorLogs <+: (c.afterAll actions).errorLogs := by
  induction actions generalizing c with
  | nil => exact ⟨List.prefix_refl _, List.prefix_refl _⟩
  | cons a rest ih =>
      rcases ih (c.after a) with ⟨access, error⟩
      exact ⟨(c.accessLogs_prefix_after a).trans access, (c.errorLogs_prefix_after a).trans error⟩

/-- The default logs stay the first ones. -/
theorem defaultLogs_of_reached {main : List MainDirective} {before : List HttpDirective}
    (reached : Reached gethostbyname main before s) :
    (∃ more, s.accessLogs = defaultAccessLog :: more) ∧
      ∃ more, s.errorLogs = defaultErrorLog :: more := by
  have settings := settings_of_run reached
  have logs := Settings.logs_prefix_afterAll ParseState.initial.settings
    (main.flatMap MainDirective.actions ++ before.flatMap HttpDirective.actions)
  rw [← settings] at logs
  rcases logs with ⟨⟨access, accessLogs⟩, ⟨error, errorLogs⟩⟩
  exact ⟨⟨access, accessLogs.symm⟩, ⟨error, errorLogs.symm⟩⟩

end OgWebserver.Config

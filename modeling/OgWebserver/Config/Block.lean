import OgWebserver.Config.Effect

/-!
# Effects of sections and server blocks

The effect of a whole section, and of a whole server block, on the location
list.  Both are folds of the directive effects; a section header is one more
edit of the head.
-/

namespace OgWebserver.Config

open Text Transition

/-- The effects of several location directives. -/
def touchAll (gethostbyname : Resolver) (names : List Bytes) (ds : List LocationDirective)
    (p : Pending Location) : Pending Location :=
  ds.foldl (fun p d => d.touch gethostbyname names p) p

/-- What closing the section writes into the location. -/
def Section.header (sec : Section) (loc : Location) : Location :=
  { loc with
    matchType := sec.matchType
    match_ := sec.match_
    protocol := lastWrite LocationDirective.protocol? .protocolUnset sec.directives }

/-- The effect of a section on the location list. -/
def Section.touch (gethostbyname : Resolver) (names : List Bytes) (sec : Section)
    (p : Pending Location) : Pending Location :=
  (touchAll gethostbyname names sec.directives p).touch false sec.header

namespace ServerDirective

/-- The effect of a server directive on the location list. -/
def touch (gethostbyname : Resolver) (names : List Bytes) :
    ServerDirective → Pending Location → Pending Location
  | root path, p => (LocationDirective.root path).touch gethostbyname names p
  | location sec, p => sec.touch gethostbyname names p
  | _, p => p

/-- The location directives among a server directive, its own or its section's. -/
def locationDirectives : ServerDirective → List LocationDirective
  | root path => [.root path]
  | location sec => sec.directives
  | _ => []

end ServerDirective

/-- The effect of a server block's body on the location list. -/
def touchBody (gethostbyname : Resolver) (names : List Bytes) (body : List ServerDirective)
    (p : Pending Location) : Pending Location :=
  body.foldl (fun p d => d.touch gethostbyname names p) p

/-- A state between two directives of a server block, or between two blocks. -/
structure Idle (s : ParseState) : Prop where
  tryTargets : s.tryTargets = []
  protocol : s.protocol = .protocolUnset
  /-- No location lacks a root. -/
  rooted : ∀ loc ∈ s.locations.toList, loc.root.isSome
  /-- The default location has no group. -/
  noGroup : s.locations.dflt.group = none

variable {gethostbyname : Resolver} {names : List Bytes} {s t : ParseState}

/-! ## Roots -/

theorem LocationDirective.edit_rooted (fresh : Bool) (d : LocationDirective) (loc : Location)
    (rooted : loc.root.isSome) : (d.edit gethostbyname names fresh loc).root.isSome := by
  cases d with
  | root path => rfl
  | proxyPass scheme host port =>
      simp only [edit, passEdit]
      split <;> exact rooted
  | fastcgiPass host port =>
      simp only [edit, passEdit]
      split <;> exact rooted
  | expires units => exact rooted
  | expiresOff => exact rooted
  | tryFiles first rest => exact rooted
  | defaultType type => exact rooted
  | inert => exact rooted

theorem rooted_touchAll {ds : List LocationDirective} {p : Pending Location}
    (rooted : ∀ loc ∈ p.toList, loc.root.isSome) :
    ∀ loc ∈ (touchAll gethostbyname names ds p).toList, loc.root.isSome := by
  induction ds generalizing p with
  | nil => exact rooted
  | cons d rest ih => exact ih (Pending.forall_toList_touch (d.edit_rooted _) rooted)

theorem rooted_section {sec : Section} {p : Pending Location}
    (rooted : ∀ loc ∈ p.toList, loc.root.isSome) :
    ∀ loc ∈ (sec.touch gethostbyname names p).toList, loc.root.isSome :=
  Pending.forall_toList_touch (fun _ own => own) (rooted_touchAll rooted)

theorem rooted_serverDirective {d : ServerDirective} {p : Pending Location}
    (rooted : ∀ loc ∈ p.toList, loc.root.isSome) :
    ∀ loc ∈ (d.touch gethostbyname names p).toList, loc.root.isSome := by
  cases d with
  | root path => exact Pending.forall_toList_touch (LocationDirective.edit_rooted _ _) rooted
  | location sec => exact rooted_section rooted
  | _ => exact rooted

/-! ## Groups -/

/-- The group of the head after several directives. -/
def groupAfter (names : List Bytes) (group : Option Nat) (ds : List LocationDirective) :
    Option Nat :=
  lastWrite (fun d : LocationDirective => (d.groupTarget names).map some) group ds

/-- From none, the group is that of the last pass. -/
theorem groupAfter_none (ds : List LocationDirective) :
    groupAfter names none ds = (ds.filterMap fun d => d.groupTarget names).getLast? := by
  rw [groupAfter, lastWrite_eq_getLast?, ← List.map_filterMap, List.getLast?_map]
  cases (ds.filterMap fun d => d.groupTarget names).getLast? <;> rfl

/-- The groups that several directives free, when the head has the given group:
each pass to a group frees the one before it. -/
def freedBy (names : List Bytes) (group : Option Nat) (ds : List LocationDirective) : List Nat :=
  (group.toList ++ ds.filterMap fun d => d.groupTarget names).dropLast

theorem freedBy_cons (group : Option Nat) (d : LocationDirective) (rest : List LocationDirective) :
    freedBy names group (d :: rest) =
      (if (d.groupTarget names).isSome then group.toList else []) ++
        freedBy names (groupAfter names group [d]) rest := by
  cases target : d.groupTarget names with
  | none => simp [freedBy, groupAfter, target]
  | some j =>
      have behind : (j :: rest.filterMap fun d => d.groupTarget names) ≠ [] := by simp
      simp [freedBy, groupAfter, target, List.dropLast_append_of_ne_nil behind]

theorem freedBy_append (group : Option Nat) (first second : List LocationDirective) :
    freedBy names group (first ++ second) =
      freedBy names group first ++ freedBy names (groupAfter names group first) second := by
  induction first generalizing group with
  | nil => cases group <;> rfl
  | cons d rest ih =>
      rw [List.cons_append, freedBy_cons, freedBy_cons, ih, List.append_assoc]
      rfl

theorem group_edit (fresh : Bool) (d : LocationDirective) (loc : Location) :
    (d.edit gethostbyname names fresh loc).group = groupAfter names loc.group [d] := by
  cases d with
  | proxyPass | fastcgiPass =>
      simp only [LocationDirective.edit, groupAfter, LocationDirective.groupTarget, passEdit]
      split <;> simp_all
  | root | expires | expiresOff | tryFiles | defaultType | inert => rfl

theorem group_touch (d : LocationDirective) (p : Pending Location) :
    (d.touch gethostbyname names p).head.group = groupAfter names p.head.group [d] := by
  rw [LocationDirective.touch, Pending.head_touch, group_edit]

/-- Directives that edit the default in place do not pass to a group. -/
theorem noGroup_touch {d : LocationDirective} {p : Pending Location}
    (noGroup : p.dflt.group = none) :
    (d.touch gethostbyname names p).dflt.group = none := by
  rcases p.dflt_touch d.creates (d.edit gethostbyname names p.items.isEmpty) with
    same | ⟨inPlace, _, edited⟩
  · exact (congrArg Location.group same).trans noGroup
  · apply (congrArg Location.group edited).trans
    rw [group_edit, noGroup]
    cases d <;> first | rfl | cases inPlace

theorem noGroup_touchAll {ds : List LocationDirective} {p : Pending Location}
    (noGroup : p.dflt.group = none) :
    (touchAll gethostbyname names ds p).dflt.group = none := by
  induction ds generalizing p with
  | nil => exact noGroup
  | cons d rest ih => exact ih (noGroup_touch noGroup)

theorem released_eq {d : LocationDirective} {p : Pending Location}
    (noGroup : p.dflt.group = none) :
    d.released names p = if (d.groupTarget names).isSome then p.head.group.toList else [] := by
  rcases p with ⟨_ | ⟨item, rest⟩, dflt⟩
  · have head : dflt.group = none := noGroup
    simp [LocationDirective.released, Pending.head, head]
  · simp [LocationDirective.released]

/-! ## Sections -/

theorem directives_eq_ok {ds : List LocationDirective} (noTargets : s.tryTargets = [])
    (noGroup : s.locations.dflt.group = none)
    (ran : run (perform gethostbyname) s (ds.flatMap LocationDirective.actions) = .ok t) :
    ∃ passTo defaultType,
      t = { s with
        locations := touchAll gethostbyname s.groupNames ds s.locations
        protocol := lastWrite LocationDirective.protocol? s.protocol ds
        upstreams := markFreed (freedBy s.groupNames s.locations.head.group ds) s.upstreams
        passTo := passTo
        defaultType := defaultType } ∧
      Grows s.passTo passTo ∧
      ∀ d ∈ ds, Resolved gethostbyname s.groupNames s.chains passTo d := by
  induction ds generalizing s with
  | nil =>
      obtain rfl := Except.ok.inj ran
      refine ⟨s.passTo, s.defaultType, ?_, fun _ has => has, by simp⟩
      cases group : s.locations.head.group <;> simp [freedBy, touchAll]
  | cons d rest ih =>
      rw [List.flatMap_cons] at ran
      rcases run_append_eq_ok_iff.mp ran with ⟨m, one, more⟩
      rcases directive_eq_ok noTargets one with ⟨passTo, defaultType, m_eq, grows, resolved⟩
      have midNames : m.groupNames = s.groupNames := by
        rw [m_eq, ParseState.groupNames, map_markFreed fun _ => rfl, ParseState.groupNames]
      have midChains : m.chains = s.chains := by
        rw [m_eq, ParseState.chains, map_markFreed fun _ => rfl, ParseState.chains]
      have midTargets : m.tryTargets = [] := by rw [m_eq]; exact noTargets
      have midLocations : m.locations = d.touch gethostbyname s.groupNames s.locations := by
        rw [m_eq]
      have midGroup : m.locations.dflt.group = none := by
        rw [midLocations]
        exact noGroup_touch noGroup
      rcases ih midTargets midGroup more with ⟨passTo', defaultType', t_eq, grows', resolved'⟩
      have passed : Grows passTo passTo' := by
        rw [m_eq] at grows'
        exact grows'
      refine ⟨passTo', defaultType', ?_, fun n has => passed n (grows n has), ?_⟩
      · rw [t_eq, midNames, midLocations, group_touch, freedBy_cons, ← released_eq noGroup,
          ← markFreed_markFreed, m_eq]
        rfl
      · intro e member
        rw [midNames, midChains] at resolved'
        rcases List.mem_cons.mp member with rfl | member
        · exact resolved.mono passed
        · exact resolved' e member

theorem fLocation_eq_ok {matchType : MatchType} {match_ : Bytes}
    (rooted : s.locations.head.root.isSome) (ran : fLocation matchType match_ s = .ok t) :
    t = { s with
      protocol := .protocolUnset
      locations := s.locations.touch false fun loc =>
        { loc with matchType := matchType, match_ := match_, protocol := s.protocol } } := by
  rcases Option.isSome_iff_exists.mp rooted with ⟨root, own⟩
  simp only [fLocation, own, Option.some_or, Pending.modifyHead_eq_touch] at ran
  rw [← Except.ok.inj ran]
  congr 1
  apply Pending.touch_false_congr
  rw [← own]

/-- The effect of a location section. -/
theorem section_eq_ok {sec : Section} (idle : Idle s)
    (ran : run (perform gethostbyname) s sec.actions = .ok t) :
    ∃ passTo defaultType,
      t = { s with
        locations := sec.touch gethostbyname s.groupNames s.locations
        upstreams :=
          markFreed (freedBy s.groupNames s.locations.head.group sec.directives) s.upstreams
        passTo := passTo
        defaultType := defaultType } ∧
      Grows s.passTo passTo ∧
      ∀ d ∈ sec.directives, Resolved gethostbyname s.groupNames s.chains passTo d := by
  rcases run_append_eq_ok_iff.mp ran with ⟨m, inner, closed⟩
  obtain ⟨passTo, defaultType, rfl, grows, resolved⟩ :=
    directives_eq_ok idle.tryTargets idle.noGroup inner
  have named := run_singleton_eq_ok_iff.mp closed
  have rooted := @rooted_touchAll gethostbyname s.groupNames sec.directives _ idle.rooted
  refine ⟨passTo, defaultType, ?_, grows, resolved⟩
  rw [fLocation_eq_ok (rooted _ (Pending.head_mem_toList _)) named, idle.protocol]
  rfl

/-! ## Server blocks -/

/-- The part of the state that sections, upstream blocks and finished servers
live in. -/
structure Core where
  locations : Pending Location
  tryTargets : List Bytes
  servers : List Upstream
  protocol : Protocol
  serverList : List Server
  upstreams : List Upstreams
  passTo : Nat → Option SockAddr

def ParseState.core (s : ParseState) : Core :=
  { locations := s.locations
    tryTargets := s.tryTargets
    servers := s.servers
    protocol := s.protocol
    serverList := s.serverList
    upstreams := s.upstreams
    passTo := s.passTo }

/-- Actions that leave the core alone. -/
def Action.quiet : Action → Bool
  | pid _ | workerProcesses _ | defaultType _ | autoindex _ | serverTokens _ | serverName ..
  | indexFile _ | errorLog _ | accessLog _ | sslCertificate _ | sslCertificateKey _
  | listen .. | tls => true
  | root _ | expires _ | tryTarget _ | tryFiles | protocol _ | proxyPass .. | fastcgiPass ..
  | location .. | upstream .. | upstreams _ | server | http => false

theorem core_fServerName {serverName : CString} {type : ServerNameType}
    (ran : fServerName serverName type s = .ok t) : t.core = s.core := by
  simp only [fServerName] at ran
  split at ran
  · rcases bind_eq_ok_iff.mp ran with ⟨u, _, done⟩
    obtain rfl := Except.ok.inj done
    rfl
  · obtain rfl := Except.ok.inj ran
    rfl

theorem core_listenPort (portNum : Int32) (s : ParseState) :
    (listenPort portNum s).core = s.core := by
  simp only [listenPort]
  split <;> rfl

theorem core_of_quiet {a : Action} (quiet : a.quiet = true)
    (ran : perform gethostbyname s a = .ok t) : t.core = s.core := by
  cases a with
  | serverName serverName type => exact core_fServerName ran
  | listen name portNum =>
      cases name with
      | none =>
          obtain rfl := Except.ok.inj ran
          exact core_listenPort portNum s
      | some name => exact (core_fServerName ran).trans (core_listenPort portNum s)
  | errorLog path =>
      simp only [perform, fErrorLog] at ran
      split at ran
      · cases ran
      · obtain rfl := Except.ok.inj ran
        rfl
  | accessLog path =>
      simp only [perform, fAccessLog] at ran
      split at ran
      · cases ran
      · obtain rfl := Except.ok.inj ran
        rfl
  | sslCertificate path =>
      obtain rfl := Except.ok.inj ran
      simp only [fSslCertificate]
      split <;> rfl
  | sslCertificateKey path =>
      obtain rfl := Except.ok.inj ran
      simp only [fSslCertificateKey]
      split <;> rfl
  | pid | workerProcesses | defaultType | autoindex | serverTokens | indexFile | tls =>
      obtain rfl := Except.ok.inj ran
      rfl
  | root | expires | tryTarget | tryFiles | protocol | proxyPass | fastcgiPass | location
  | upstream | upstreams | server | http => cases quiet

theorem core_of_quiet_run {actions : List Action} (quiet : ∀ a ∈ actions, a.quiet = true)
    (ran : run (perform gethostbyname) s actions = .ok t) : t.core = s.core :=
  run_invariant (P := fun m => m.core = s.core)
    (fun a member _ _ same one => (core_of_quiet (quiet a member) one).trans same) rfl ran

/-- A server directive other than `root` and `location` makes quiet actions. -/
theorem ServerDirective.quiet_of_idle {d : ServerDirective}
    (idle : d.locationDirectives = []) : ∀ a ∈ d.actions, a.quiet = true := by
  cases d with
  | root path => simp [locationDirectives] at idle
  | location sec => simp [locationDirectives, Section.directives] at idle
  | serverName first rest =>
      intro a member
      rcases List.mem_map.mp member with ⟨name, _, rfl⟩
      rfl
  | listen first rest =>
      intro a member
      rcases List.mem_flatMap.mp member with ⟨option, _, inside⟩
      cases option <;> simp_all [ListenOption.actions, Action.quiet]
  | index first rest =>
      intro a member
      rcases List.mem_map.mp member with ⟨file, _, rfl⟩
      rfl
  | serverTokens | accessLog | errorLog | autoindex | sslCertificate | sslCertificateKey
  | defaultType | inert => simp [actions, Action.quiet]

theorem group_serverDirective (d : ServerDirective) (p : Pending Location) :
    (d.touch gethostbyname names p).head.group =
      groupAfter names p.head.group d.locationDirectives := by
  cases d with
  | root path => exact group_touch (.root path) p
  | location sec =>
      have inner : ∀ (ds : List LocationDirective) (q : Pending Location),
          (touchAll gethostbyname names ds q).head.group = groupAfter names q.head.group ds := by
        intro ds
        induction ds with
        | nil => exact fun _ => rfl
        | cons d rest ih =>
            intro q
            apply (ih _).trans
            rw [group_touch]
            rfl
      simp only [ServerDirective.touch, Section.touch, Pending.head_touch]
      exact inner sec.directives p
  | serverName | serverTokens | accessLog | errorLog | autoindex | listen | sslCertificate
  | sslCertificateKey | index | defaultType | inert => rfl

theorem noGroup_serverDirective {d : ServerDirective} {p : Pending Location}
    (noGroup : p.dflt.group = none) : (d.touch gethostbyname names p).dflt.group = none := by
  cases d with
  | root path => exact noGroup_touch noGroup
  | location sec =>
      rcases Pending.dflt_touch false sec.header
          (touchAll gethostbyname names sec.directives p) with same | ⟨_, _, edited⟩
      · exact (congrArg Location.group same).trans (noGroup_touchAll noGroup)
      · exact (congrArg Location.group edited).trans (noGroup_touchAll noGroup)
  | serverName | serverTokens | accessLog | errorLog | autoindex | listen | sslCertificate
  | sslCertificateKey | index | defaultType | inert => exact noGroup

/-- The effect of server directives on the core: their location directives act
on the location list, and their passes on groups and addresses. -/
structure Built (gethostbyname : Resolver) (body : List ServerDirective) (s t : ParseState) :
    Prop where
  idle : Idle t
  core : t.core = { s.core with
    locations := touchBody gethostbyname s.groupNames body s.locations
    upstreams :=
      markFreed (freedBy s.groupNames s.locations.head.group
        (body.flatMap ServerDirective.locationDirectives)) s.upstreams
    passTo := t.passTo }
  grows : Grows s.passTo t.passTo
  resolved : ∀ d ∈ body.flatMap ServerDirective.locationDirectives,
    Resolved gethostbyname s.groupNames s.chains t.passTo d

/-- Assemble the effect of one server directive. -/
theorem Built.single {d : ServerDirective} (idle : Idle s)
    (core : t.core = { s.core with
      locations := d.touch gethostbyname s.groupNames s.locations
      upstreams :=
        markFreed (freedBy s.groupNames s.locations.head.group d.locationDirectives) s.upstreams
      passTo := t.passTo })
    (grows : Grows s.passTo t.passTo)
    (resolved : ∀ e ∈ d.locationDirectives,
      Resolved gethostbyname s.groupNames s.chains t.passTo e) :
    Built gethostbyname [d] s t := by
  have list : t.locations = d.touch gethostbyname s.groupNames s.locations :=
    congrArg Core.locations core
  exact
    { idle :=
        { tryTargets := (congrArg Core.tryTargets core).trans idle.tryTargets
          protocol := (congrArg Core.protocol core).trans idle.protocol
          rooted := list ▸ rooted_serverDirective idle.rooted
          noGroup := list ▸ noGroup_serverDirective idle.noGroup }
      core := by rw [List.flatMap_singleton]; exact core
      grows := grows
      resolved := by rw [List.flatMap_singleton]; exact resolved }

/-- The effect of a server directive. -/
theorem serverDirective_eq_ok {d : ServerDirective} (idle : Idle s)
    (ran : run (perform gethostbyname) s d.actions = .ok t) : Built gethostbyname [d] s t := by
  cases d with
  | root path =>
      have one := run_singleton_eq_ok_iff.mp ran
      have m_eq := @fRoot_eq_ok gethostbyname _ _ _ one
      have noFree : freedBy s.groupNames s.locations.head.group [.root path] = [] := by
        cases group : s.locations.head.group <;> rfl
      refine Built.single idle ?_ (by rw [m_eq]; exact fun _ has => has) ?_
      · simp only [ServerDirective.locationDirectives, noFree, markFreed_nil]
        rw [m_eq]
        rfl
      · intro e member
        obtain rfl := List.mem_singleton.mp member
        exact .idle rfl rfl
  | location sec =>
      rcases section_eq_ok idle ran with ⟨passTo, _, t_eq, grows, resolved⟩
      have passed : t.passTo = passTo := by rw [t_eq]
      exact Built.single idle (by rw [t_eq]; rfl) (passed ▸ grows) (passed ▸ resolved)
  | serverName | serverTokens | accessLog | errorLog | autoindex | listen | sslCertificate
  | sslCertificateKey | index | defaultType | inert =>
      have core := core_of_quiet_run (ServerDirective.quiet_of_idle rfl) ran
      have passed : t.passTo = s.passTo := congrArg Core.passTo core
      have noFree : freedBy s.groupNames s.locations.head.group [] = [] := by
        cases group : s.locations.head.group <;> rfl
      refine Built.single idle ?_ (by rw [passed]; exact fun _ has => has) (by
        simp [ServerDirective.locationDirectives])
      simp only [ServerDirective.locationDirectives, noFree, markFreed_nil, passed]
      exact core

/-- The effect of a server block's body. -/
theorem body_eq_ok {body : List ServerDirective} (idle : Idle s)
    (ran : run (perform gethostbyname) s (body.flatMap ServerDirective.actions) = .ok t) :
    Built gethostbyname body s t := by
  induction body generalizing s with
  | nil =>
      obtain rfl := Except.ok.inj ran
      have noFree : freedBy s.groupNames s.locations.head.group [] = [] := by
        cases group : s.locations.head.group <;> rfl
      exact
        { idle := idle
          core := by
            simp only [List.flatMap_nil, noFree, markFreed_nil]
            rfl
          grows := fun _ has => has
          resolved := by simp }
  | cons d rest ih =>
      rw [List.flatMap_cons] at ran
      rcases run_append_eq_ok_iff.mp ran with ⟨m, one, more⟩
      have first := serverDirective_eq_ok idle one
      have second := ih first.idle more
      have upstreams : m.upstreams =
          markFreed (freedBy s.groupNames s.locations.head.group d.locationDirectives)
            s.upstreams := by
        have := congrArg Core.upstreams first.core
        rwa [List.flatMap_singleton] at this
      have locations : m.locations = d.touch gethostbyname s.groupNames s.locations :=
        congrArg Core.locations first.core
      have midNames : m.groupNames = s.groupNames := by
        rw [ParseState.groupNames, upstreams, map_markFreed fun _ => rfl, ParseState.groupNames]
      have midChains : m.chains = s.chains := by
        rw [ParseState.chains, upstreams, map_markFreed fun _ => rfl, ParseState.chains]
      have resolved := second.resolved
      have core := second.core
      rw [midNames, midChains] at resolved
      rw [midNames, locations, upstreams, group_serverDirective, markFreed_markFreed,
        ← freedBy_append] at core
      exact
        { idle := second.idle
          core := by
            rw [core, List.flatMap_cons]
            have rest := congrArg (fun c : Core => (c.tryTargets, c.servers, c.protocol,
              c.serverList)) first.core
            simp only [Prod.mk.injEq] at rest
            rcases rest with ⟨targets, servers, protocol, list⟩
            simp only [targets, servers, protocol, list]
            rfl
          grows := fun n has => second.grows n (first.grows n has)
          resolved := by
            intro e member
            rw [List.flatMap_cons] at member
            rcases List.mem_append.mp member with member | member
            · have here := first.resolved e (by rwa [List.flatMap_singleton])
              exact here.mono second.grows
            · exact resolved e member }

/-! ## States between blocks -/

/-- The default location, whatever a section without a location of its own has
written into its header, and `expires` into its expiry. -/
def PlainDefault (loc : Location) : Prop :=
  ∃ matchType match_ protocol expires,
    loc = { defaultLocation with
      matchType := matchType
      match_ := match_
      protocol := protocol
      expires := expires }

/-- A state between two directives of the http section. -/
structure Between (s : ParseState) : Prop extends Idle s where
  noItems : s.locations.items = []
  plain : PlainDefault s.locations.dflt

theorem PlainDefault.rooted {loc : Location} (plain : PlainDefault loc) : loc.root.isSome := by
  rcases plain with ⟨_, _, _, _, rfl⟩
  rfl

theorem PlainDefault.edit {fresh : Bool} {d : LocationDirective} {loc : Location}
    (idle : d.creates = false) (plain : PlainDefault loc) :
    PlainDefault (d.edit gethostbyname names fresh loc) := by
  cases d with
  | root | proxyPass | fastcgiPass | tryFiles => cases idle
  | expires units =>
      rcases plain with ⟨matchType, match_, protocol, _, rfl⟩
      exact ⟨matchType, match_, protocol, expiresValue units, rfl⟩
  | expiresOff | defaultType | inert => exact plain

theorem PlainDefault.header {sec : Section} {loc : Location} (plain : PlainDefault loc) :
    PlainDefault (sec.header loc) := by
  rcases plain with ⟨_, _, _, expires, rfl⟩
  exact ⟨_, _, _, expires, rfl⟩

theorem plain_touch {creates : Bool} {f : Location → Location} {p : Pending Location}
    (keeps : creates = false → ∀ loc, PlainDefault loc → PlainDefault (f loc))
    (plain : PlainDefault p.dflt) : PlainDefault (p.touch creates f).dflt := by
  rcases p.dflt_touch creates f with same | ⟨inPlace, _, edited⟩
  · rw [same]
    exact plain
  · rw [edited]
    exact keeps inPlace _ plain

theorem plain_touchAll {ds : List LocationDirective} {p : Pending Location}
    (plain : PlainDefault p.dflt) : PlainDefault (touchAll gethostbyname names ds p).dflt := by
  induction ds generalizing p with
  | nil => exact plain
  | cons d rest ih => exact ih (plain_touch (fun idle _ => .edit idle) plain)

theorem plain_serverDirective {d : ServerDirective} {p : Pending Location}
    (plain : PlainDefault p.dflt) : PlainDefault (d.touch gethostbyname names p).dflt := by
  cases d with
  | root path => exact plain_touch (fun idle _ => .edit idle) plain
  | location sec => exact plain_touch (fun _ _ => .header) (plain_touchAll plain)
  | serverName | serverTokens | accessLog | errorLog | autoindex | listen | sslCertificate
  | sslCertificateKey | index | defaultType | inert => exact plain

theorem plain_touchBody {body : List ServerDirective} {p : Pending Location}
    (plain : PlainDefault p.dflt) : PlainDefault (touchBody gethostbyname names body p).dflt := by
  induction body generalizing p with
  | nil => exact plain
  | cons d rest ih => exact ih (plain_serverDirective plain)

theorem Between.initial : Between .initial where
  tryTargets := rfl
  protocol := rfl
  rooted := by simp [ParseState.initial, Pending.toList, defaultLocation]
  noGroup := rfl
  noItems := rfl
  plain := ⟨_, _, _, _, rfl⟩

/-- Only the lists of upstreams and servers matter for being between blocks. -/
theorem Between.of_core {t : ParseState} (between : Between s)
    (locations : t.locations = s.locations) (tryTargets : t.tryTargets = s.tryTargets)
    (protocol : t.protocol = s.protocol) : Between t where
  tryTargets := tryTargets.trans between.tryTargets
  protocol := protocol.trans between.protocol
  rooted := locations ▸ between.rooted
  noGroup := locations ▸ between.noGroup
  noItems := locations ▸ between.noItems
  plain := locations ▸ between.plain

theorem Between.of_quiet {t : ParseState} {actions : List Action} (between : Between s)
    (quiet : ∀ a ∈ actions, a.quiet = true)
    (ran : run (perform gethostbyname) s actions = .ok t) : Between t := by
  have same := core_of_quiet_run quiet ran
  exact between.of_core (congrArg Core.locations same) (congrArg Core.tryTargets same)
    (congrArg Core.protocol same)

/-- The effect of a whole server block: the server built from the state `m` at
the end of its body is added to the list. -/
theorem server_eq_ok {body : List ServerDirective} (between : Between s)
    (ran : run (perform gethostbyname) s (serverActions body) = .ok t) :
    Between t ∧ ∃ m, Built gethostbyname body s m ∧
      t.core = { m.core with
        locations := m.locations.clear
        serverList := s.serverList ++ [serverOf m] } := by
  rcases run_append_eq_ok_iff.mp ran with ⟨m, inner, closed⟩
  have done := run_singleton_eq_ok_iff.mp closed
  obtain rfl := Except.ok.inj done
  have built := body_eq_ok between.toIdle inner
  have list : m.locations = touchBody gethostbyname s.groupNames body s.locations :=
    congrArg Core.locations built.core
  have plain : PlainDefault m.locations.dflt := by
    rw [list]
    exact plain_touchBody between.plain
  have servers : m.serverList = s.serverList := congrArg Core.serverList built.core
  refine ⟨?_, m, built, by rw [← servers]; rfl⟩
  exact
    { tryTargets := built.idle.tryTargets
      protocol := built.idle.protocol
      rooted := by
        intro loc member
        obtain rfl : loc = m.locations.dflt := by
          simpa [Pending.toList, Pending.clear, fServer] using member
        exact plain.rooted
      noGroup := built.idle.noGroup
      noItems := rfl
      plain := plain }

/-! ## The http section -/

/-- The chain of upstream nodes after several entries. -/
def addEntries (entries : List UpstreamServer) (servers : List Upstream) : List Upstream :=
  entries.foldl
    (fun servers up =>
      addUpstreams up.host (up.port.getD 8080) up.share.value up.share.value.toInt.toNat servers)
    servers

theorem core_entries {entries : List UpstreamServer}
    (ran : run (perform gethostbyname) s (entries.map UpstreamServer.action) = .ok t) :
    t.core = { s.core with servers := addEntries entries s.servers } := by
  induction entries generalizing s with
  | nil =>
      obtain rfl := Except.ok.inj ran
      rfl
  | cons up rest ih =>
      rcases run_cons_eq_ok_iff.mp ran with ⟨m, one, more⟩
      obtain rfl := Except.ok.inj one
      exact ih more

/-- The effect of an upstream block on the core. -/
theorem upstream_eq_ok {block : UpstreamBlock}
    (ran : run (perform gethostbyname) s block.actions = .ok t) :
    (∀ g ∈ s.upstreams, g.freed = false) ∧
      t.core = { s.core with
        servers := addEntries block.entries s.servers
        upstreams :=
          s.upstreams ++ [Upstreams.new block.name (addEntries block.entries s.servers)] } := by
  rcases run_append_eq_ok_iff.mp ran with ⟨m, inner, closed⟩
  have done := run_singleton_eq_ok_iff.mp closed
  have core := core_entries inner
  have servers : m.servers = addEntries block.entries s.servers := congrArg Core.servers core
  have groups : m.upstreams = s.upstreams := congrArg Core.upstreams core
  rw [← servers] at core ⊢
  rw [← groups]
  simp only [perform, fUpstreams, setUpstreamList] at done
  split at done
  case isTrue => cases done
  case isFalse alive =>
    obtain rfl := Except.ok.inj done
    refine ⟨by simpa using alive, ?_⟩
    exact congrArg
      (fun c : Core =>
        { c with upstreams := m.upstreams ++ [Upstreams.new block.name m.servers] })
      core

/-- The group of an upstream block becomes the last one. -/
theorem upstreams_of_block {block : UpstreamBlock}
    (ran : run (perform gethostbyname) s block.actions = .ok t) :
    t.upstreams = s.upstreams ++ [.new block.name (addEntries block.entries s.servers)] ∧
      t.groupNames = s.groupNames ++ [block.name] ∧
      t.chains = s.chains ++ [addEntries block.entries s.servers] := by
  have upstreams : t.upstreams =
      s.upstreams ++ [.new block.name (addEntries block.entries s.servers)] :=
    congrArg Core.upstreams (upstream_eq_ok ran).2
  refine ⟨upstreams, ?_, ?_⟩
  · rw [ParseState.groupNames, upstreams, List.map_append]
    rfl
  · rw [ParseState.chains, upstreams, List.map_append]
    rfl

/-- The body of the server block a directive is, if it is one. -/
def HttpDirective.server? : HttpDirective → Option (List ServerDirective)
  | server body => some body
  | _ => none

/-- A directive of the http section other than a block makes quiet actions. -/
theorem HttpDirective.quiet_of_idle {d : HttpDirective} (noServer : d.server? = none)
    (noUpstream : d.upstream? = none) : ∀ a ∈ d.actions, a.quiet = true := by
  cases d with
  | server body => cases noServer
  | upstream block => cases noUpstream
  | index first rest =>
      intro a member
      rcases List.mem_map.mp member with ⟨file, _, rfl⟩
      rfl
  | defaultType | accessLog | errorLog | sslCertificate | sslCertificateKey | inert =>
      simp [actions, Action.quiet]

/-- Directives of the http section lead from one state between blocks to the next. -/
theorem Between.httpDirective {d : HttpDirective} (between : Between s)
    (ran : run (perform gethostbyname) s d.actions = .ok t) : Between t := by
  cases d with
  | server body => exact (server_eq_ok between ran).1
  | upstream block =>
      rcases upstream_eq_ok ran with ⟨_, core⟩
      exact between.of_core (congrArg Core.locations core) (congrArg Core.tryTargets core)
        (congrArg Core.protocol core)
  | index | defaultType | accessLog | errorLog | sslCertificate | sslCertificateKey | inert =>
      exact between.of_quiet (HttpDirective.quiet_of_idle rfl rfl) ran

theorem Between.httpDirectives {ds : List HttpDirective} (between : Between s)
    (ran : run (perform gethostbyname) s (ds.flatMap HttpDirective.actions) = .ok t) :
    Between t := by
  induction ds generalizing s with
  | nil =>
      obtain rfl := Except.ok.inj ran
      exact between
  | cons d rest ih =>
      rw [List.flatMap_cons] at ran
      rcases run_append_eq_ok_iff.mp ran with ⟨m, one, more⟩
      exact ih (between.httpDirective one) more

/-- The state in front of a directive of the http section: the main directives
and the directives before it have been performed. -/
def Reached (gethostbyname : Resolver) (main : List MainDirective)
    (before : List HttpDirective) (s : ParseState) : Prop :=
  run (perform gethostbyname) .initial
    (main.flatMap MainDirective.actions ++ before.flatMap HttpDirective.actions) = .ok s

theorem MainDirective.quiet (d : MainDirective) : ∀ a ∈ d.actions, a.quiet = true := by
  cases d <;> simp [actions, Action.quiet]

theorem Between.of_reached {main : List MainDirective} {before : List HttpDirective}
    (reached : Reached gethostbyname main before s) : Between s := by
  rcases run_append_eq_ok_iff.mp reached with ⟨m, head, rest⟩
  have quiet : ∀ a ∈ main.flatMap MainDirective.actions, a.quiet = true := by
    intro a member
    rcases List.mem_flatMap.mp member with ⟨d, _, inside⟩
    exact d.quiet a inside
  exact (Between.initial.of_quiet quiet head).httpDirectives rest

end OgWebserver.Config

import Mathlib.Data.List.Induction
import OgWebserver.Config.Defaults

/-!
# Isolation of server blocks

A server block should build the same server wherever it stands in the file.  A run
of the block behind other blocks is compared with its run from the initial state:
the second run follows the first, and the two servers differ in what the blocks
before have written to the defaults.
-/

namespace OgWebserver.Config

open Text Transition

variable {gethostbyname : Resolver} {s t s' t' : ParseState}

/-! ## What a block starts from -/

/-- The settings that blocks hand over unchanged. -/
def Settings.own (c : Settings) :
    Pending ServerName × Pending Bytes × Option Bytes × Option Bytes × Bool :=
  (c.serverNames, c.indexFiles, c.certFile, c.keyFile, c.autoIndex)

theorem Settings.own_after {c c' : Settings} (same : c.own = c'.own) (a : Action) :
    (c.after a).own = (c'.after a).own := by
  simp only [own, Prod.mk.injEq] at same
  rcases same with ⟨names, files, cert, key, auto⟩
  cases a with
  | listen name portNum => cases name <;> simp [after, own, names, files, cert, key, auto]
  | _ => simp [after, own, names, files, cert, key, auto]

theorem Settings.own_afterAll {c c' : Settings} (same : c.own = c'.own) (actions : List Action) :
    (c.afterAll actions).own = (c'.afterAll actions).own := by
  induction actions generalizing c c' with
  | nil => exact same
  | cons a rest ih => exact ih (own_after same a)

theorem dflt_addName (serverName : CString) (type : ServerNameType) (p : Pending ServerName) :
    (addName serverName type p).dflt = p.dflt := by
  simp only [addName]
  split <;> rfl

/-- The default name and the default index file are never written to. -/
theorem Settings.dflts_afterAll (c : Settings) (actions : List Action) :
    (c.afterAll actions).serverNames.dflt = c.serverNames.dflt ∧
      (c.afterAll actions).indexFiles.dflt = c.indexFiles.dflt := by
  have silent : ∀ a ∈ actions, ∀ c : Settings,
      ((c.after a).serverNames.dflt, (c.after a).indexFiles.dflt) =
        (c.serverNames.dflt, c.indexFiles.dflt) := by
    intro a _ c
    cases a with
    | serverName name type => exact congrArg (·, _) (dflt_addName name type c.serverNames)
    | listen name portNum =>
        cases name with
        | none => rfl
        | some name => exact congrArg (·, _) (dflt_addName name _ c.serverNames)
    | _ => rfl
  have kept := c.afterAll_field (fun c => (c.serverNames.dflt, c.indexFiles.dflt)) silent
  exact Prod.mk.injEq .. ▸ kept

/-- A block leaves nothing pending but what it has written to the defaults. -/
theorem Settings.after_block (c : Settings) (body : List ServerDirective) :
    (c.afterAll (serverActions body)).own =
        (c.serverNames.clear, c.indexFiles.clear, none, none, false) ∧
      (c.afterAll (serverActions body)).ports =
        (portsAfter (listenOptions body) c.ports).clear := by
  rcases c.dflts_afterAll (body.flatMap ServerDirective.actions) with ⟨names, files⟩
  rw [serverActions, afterAll_append, ← ports_body]
  simp only [Pending.clear, ← names, ← files]
  exact ⟨rfl, rfl⟩

/-- The main directives set logs, and nothing that is left out of them. -/
theorem Settings.after_main (c : Settings) (main : List MainDirective) :
    (c.afterAll (main.flatMap MainDirective.actions)).own = c.own ∧
      (c.afterAll (main.flatMap MainDirective.actions)).ports = c.ports := by
  have silent : ∀ a ∈ main.flatMap MainDirective.actions, ∀ c : Settings,
      ((c.after a).own, (c.after a).ports) = (c.own, c.ports) := by
    intro a member c
    rcases List.mem_flatMap.mp member with ⟨d, _, inside⟩
    cases d with
    | inert => cases inside
    | accessLog | errorLog | pid | workerProcesses =>
        obtain rfl := List.mem_singleton.mp inside
        rfl
  have kept := c.afterAll_field (fun c => (c.own, c.ports)) silent
  exact Prod.mk.injEq .. ▸ kept

/-- The header that the blocks have left in the default location. -/
def leakedHeader (blocks : List (List ServerDirective)) : Header :=
  lastWrite LocationStep.header? defaultLocation.header (blocks.flatMap idleSteps)

/-- The expiry that the blocks have left in the default location. -/
def leakedExpires (blocks : List (List ServerDirective)) : Int32 :=
  lastWrite LocationStep.expires? defaultLocation.expires (blocks.flatMap idleSteps)

/-- A state behind server blocks, with no other directive in front of it that blocks
start from. -/
structure Behind (blocks : List (List ServerDirective)) (s : ParseState) : Prop where
  upstreams : s.upstreams = []
  own : s.settings.own = ParseState.initial.settings.own
  noPorts : s.ports.items = []
  portNum : s.ports.dflt.portNum = defaultPort.portNum
  tls : s.ports.dflt.tls = blocks.any fun body => leaksTls (listenOptions body)
  header : s.locations.dflt.header = leakedHeader blocks
  expires : s.locations.dflt.expires = leakedExpires blocks

theorem behind_initial : Behind [] .initial where
  upstreams := rfl
  own := rfl
  noPorts := rfl
  portNum := rfl
  tls := rfl
  header := rfl
  expires := rfl

theorem header_idle {names : List Bytes} (fresh : Bool) (step : LocationStep) (loc : Location)
    (idle : step.creates = false) :
    (step.edit gethostbyname names fresh loc).header = step.header?.getD loc.header := by
  cases step with
  | header sec => rfl
  | directive d =>
      cases d with
      | root | proxyPass | fastcgiPass | tryFiles => cases idle
      | expires | expiresOff | defaultType | inert => rfl

theorem expires_idle {names : List Bytes} (fresh : Bool) (step : LocationStep) (loc : Location)
    (_ : step.creates = false) :
    (step.edit gethostbyname names fresh loc).expires = step.expires?.getD loc.expires := by
  cases step with
  | header sec => rfl
  | directive d => exact (edited fresh d loc).expires

/-- One more block. -/
theorem Behind.block {blocks : List (List ServerDirective)} {body : List ServerDirective}
    (between : Between s) (behind : Behind blocks s)
    (ran : run (perform gethostbyname) s (serverActions body) = .ok t) :
    Behind (blocks ++ [body]) t := by
  rcases server_eq_ok between ran with ⟨_, m, built, core⟩
  rcases s.settings.after_block body with ⟨own, ports⟩
  rw [← settings_of_run ran] at own ports
  have start := behind.own
  simp only [Settings.own, Prod.mk.injEq] at start
  rcases start with ⟨names, files, _⟩
  rw [names, files] at own
  have list : t.locations.dflt =
      ((steps body).foldl (LocationStep.touch gethostbyname s.groupNames) s.locations).dflt := by
    have cleared : t.locations = m.locations.clear := congrArg Core.locations core
    have inner : m.locations = touchBody gethostbyname s.groupNames body s.locations :=
      congrArg Core.locations built.core
    rw [cleared, inner, touchBody_eq_steps]
    rfl
  have portList : t.ports = (portsAfter (listenOptions body) s.ports).clear := ports
  have portDflt : t.ports.dflt = (portsAfter (listenOptions body) s.ports).dflt := by
    rw [portList]
    rfl
  constructor
  · have moved : t.upstreams = m.upstreams := congrArg Core.upstreams core
    have freed := congrArg Core.upstreams built.core
    rw [moved]
    apply freed.trans
    rw [behind.upstreams]
    rfl
  · exact own
  · rw [portList]
    rfl
  · rw [portDflt, dflt_portsAfter]
    exact behind.portNum
  · rw [portDflt, dflt_portsAfter, behind.noPorts, behind.tls]
    simp
  · rw [list, field_dflt header_idle _ between.noItems, behind.header, leakedHeader, leakedHeader,
      List.flatMap_append, lastWrite_append, List.flatMap_singleton]
    rfl
  · rw [list, field_dflt expires_idle _ between.noItems, behind.expires, leakedExpires,
      leakedExpires, List.flatMap_append, lastWrite_append, List.flatMap_singleton]
    rfl

theorem behind_of_reached {main : List MainDirective} {blocks : List (List ServerDirective)}
    (reached : Reached gethostbyname main (blocks.map .server) s) : Behind blocks s := by
  induction blocks using List.reverseRecOn generalizing s with
  | nil =>
      rw [List.map_nil, Reached, List.flatMap_nil, List.append_nil] at reached
      have quiet : ∀ a ∈ main.flatMap MainDirective.actions, a.quiet = true := by
        intro a member
        rcases List.mem_flatMap.mp member with ⟨d, _, inside⟩
        exact d.quiet a inside
      have core := core_of_quiet_run quiet reached
      have locations : s.locations = ParseState.initial.locations := congrArg Core.locations core
      rcases ParseState.initial.settings.after_main main with ⟨own, ports⟩
      rw [← settings_of_run reached] at own ports
      have portList : s.ports = ParseState.initial.ports := ports
      exact
        { upstreams := congrArg Core.upstreams core
          own := own
          noPorts := congrArg Pending.items portList
          portNum := congrArg (·.dflt.portNum) portList
          tls := congrArg (·.dflt.tls) portList
          header := congrArg (·.dflt.header) locations
          expires := congrArg (·.dflt.expires) locations }
  | append_singleton earlier body ih =>
      rw [Reached, List.map_append, List.flatMap_append, ← List.append_assoc] at reached
      rcases run_append_eq_ok_iff.mp reached with ⟨m, front, last⟩
      rw [List.map_singleton, List.flatMap_singleton] at last
      exact (ih front).block (Between.of_reached front) last

/-! ## Following a run -/

/-- Two location lists with the same roots, none of them missing. -/
structure SameRoots (p q : Pending Location) : Prop where
  items : q.items.map (·.root) = p.items.map (·.root)
  dflt : q.dflt.root = p.dflt.root
  rooted : ∀ loc ∈ p.toList, loc.root.isSome

theorem SameRoots.cases {p q : Pending Location} (same : SameRoots p q) :
    (p.items = [] ∧ q.items = []) ∨
      ∃ loc rest loc' rest', p.items = loc :: rest ∧ q.items = loc' :: rest' ∧
        loc'.root = loc.root := by
  have items := same.items
  rcases p with ⟨_ | ⟨loc, rest⟩, dflt⟩ <;> rcases q with ⟨_ | ⟨loc', rest'⟩, dflt'⟩
  · exact .inl ⟨rfl, rfl⟩
  · cases items
  · cases items
  · exact .inr ⟨loc, rest, loc', rest', rfl, rfl, (List.cons.inj items).1⟩

theorem SameRoots.head {p q : Pending Location} (same : SameRoots p q) :
    q.head.root = p.head.root := by
  rcases same.cases with ⟨empty, empty'⟩ | ⟨loc, rest, loc', rest', items, items', root⟩
  · simp [Pending.head, empty, empty', same.dflt]
  · simp [Pending.head, items, items', root]

/-- Edits that agree on roots keep the lists in step. -/
theorem SameRoots.touch {p q : Pending Location} (same : SameRoots p q) {creates : Bool}
    {f g : Location → Location}
    (agree : ∀ a b : Location, a.root.isSome → b.root = a.root →
      (g b).root = (f a).root ∧ (f a).root.isSome) :
    SameRoots (p.touch creates f) (q.touch creates g) where
  items := by
    rcases same.cases with ⟨empty, empty'⟩ | ⟨loc, rest, loc', rest', items, items', root⟩
    · have new := (agree p.dflt q.dflt (same.rooted _ (by simp [Pending.toList])) same.dflt).1
      cases creates <;> simp [Pending.touch, empty, empty', new]
    · have edited := (agree loc loc' (same.rooted _ (by simp [Pending.toList, items])) root).1
      have tails := same.items
      rw [items, items', List.map_cons, List.map_cons, List.cons.injEq] at tails
      rw [Pending.touch_of_cons items, Pending.touch_of_cons items', List.map_cons, List.map_cons,
        edited, tails.2]
  dflt := by
    rcases same.cases with ⟨empty, empty'⟩ | ⟨loc, rest, loc', rest', items, items', root⟩
    · have new := (agree p.dflt q.dflt (same.rooted _ (by simp [Pending.toList])) same.dflt).1
      cases creates <;> simp [Pending.touch, empty, empty', new, same.dflt]
    · rw [Pending.touch_of_cons items, Pending.touch_of_cons items']
      exact same.dflt
  rooted := Pending.forall_toList_touch (fun a some_ => (agree a a some_ rfl).2) same.rooted

/-- The second state has the same names and roots, and no group and no log that the first
lacks: an action that returns from the first returns from the second. -/
structure Follows (s s' : ParseState) : Prop where
  names : s'.serverNames = s.serverNames
  accessLog : s.currentAccessLog = none → s'.currentAccessLog = none
  errorLog : s.currentErrorLog = none → s'.currentErrorLog = none
  noGroups : s.upstreams = [] ∧ s'.upstreams = []
  locations : SameRoots s.locations s'.locations

/-- Actions of server blocks: all but those of upstream blocks and `f_http`. -/
def Action.inBlock : Action → Bool
  | .upstream .. | .upstreams _ | .http => false
  | _ => true

theorem Follows.serverName (follows : Follows s s') {name : CString} {type : ServerNameType}
    (ran : fServerName name type s = .ok t) :
    ∃ t', fServerName name type s' = .ok t' ∧ Follows t t' := by
  rcases fServerName_eq_ok_iff.mp ran with ⟨free, rfl⟩
  have dup : dupName name.text s' = dupName name.text s := by rw [dupName, dupName, follows.names]
  refine ⟨_, fServerName_eq_ok_iff.mpr ⟨dup ▸ free, rfl⟩, ?_⟩
  exact
    { names := congrArg (addName name type) follows.names
      accessLog := follows.accessLog
      errorLog := follows.errorLog
      noGroups := follows.noGroups
      locations := follows.locations }

/-- The locations may be edited in step. -/
theorem Follows.edit (follows : Follows s s') (creates : Bool) {f g : Location → Location}
    (agree : ∀ a b : Location, a.root.isSome → b.root = a.root →
      (g b).root = (f a).root ∧ (f a).root.isSome) (targets targets' : List Bytes)
    (protocol protocol' : Protocol) :
    Follows
      { s with
        locations := s.locations.touch creates f
        tryTargets := targets
        protocol := protocol }
      { s' with
        locations := s'.locations.touch creates g
        tryTargets := targets'
        protocol := protocol' } where
  names := follows.names
  accessLog := follows.accessLog
  errorLog := follows.errorLog
  noGroups := follows.noGroups
  locations := follows.locations.touch agree

theorem Follows.root (follows : Follows s s') {root : CString} (ran : fRoot root s = .ok t) :
    ∃ t', fRoot root s' = .ok t' ∧ Follows t t' := by
  have moved := @Follows.edit s s' follows true
    (fun loc => { loc with root := some root, type := loc.type ||| typeDocRoot })
    (fun loc => { loc with root := some root, type := loc.type ||| typeDocRoot })
    (fun _ _ _ _ => ⟨rfl, rfl⟩) s.tryTargets s'.tryTargets s.protocol s'.protocol
  simp only [fRoot] at ran ⊢
  rcases follows.locations.cases with
    ⟨empty, empty'⟩ | ⟨loc, rest, loc', rest', items, items', same⟩
  · rw [empty] at ran
    rw [Pending.touch_true_of_nil empty, Pending.touch_true_of_nil empty'] at moved
    obtain rfl := Except.ok.inj ran
    rw [empty']
    exact ⟨_, rfl, moved⟩
  · rw [items] at ran
    rw [Pending.touch_of_cons items, Pending.touch_of_cons items'] at moved
    rw [items']
    simp only [same]
    cases own : loc.root with
    | none =>
        simp only [own] at ran
        obtain rfl := Except.ok.inj ran
        exact ⟨_, rfl, moved⟩
    | some old =>
        simp only [own] at ran
        rcases bind_eq_ok_iff.mp ran with ⟨u, freed, done⟩
        obtain rfl := Except.ok.inj done
        exact ⟨_, bind_eq_ok_iff.mpr ⟨u, freed, rfl⟩, moved⟩

theorem Follows.pass (follows : Follows s s') {type : Nat} {host : Bytes} {port : Int32}
    (ran : Config.pass gethostbyname type host port s = .ok t) :
    ∃ t', Config.pass gethostbyname type host port s' = .ok t' ∧ Follows t t' := by
  rcases bind_eq_ok_iff.mp ran with ⟨found, looked, rest⟩
  rw [follows.noGroups.1] at looked
  obtain rfl := Except.ok.inj looked
  have looked' : isUpstreamGroup host s'.upstreams = .ok none := by
    rw [follows.noGroups.2]
    rfl
  simp only [Config.pass, looked']
  have single : proxyPassToHost gethostbyname type host port s = .ok t := rest
  have same : ∀ address bits, ∀ a b : Location, a.root.isSome → b.root = a.root →
      ({ b with passTo := some address, type := b.type ||| bits } : Location).root =
          ({ a with passTo := some address, type := a.type ||| bits } : Location).root ∧
        ({ a with passTo := some address, type := a.type ||| bits } : Location).root.isSome :=
    fun _ _ _ _ some_ same => ⟨same, some_⟩
  show ∃ t', proxyPassToHost gethostbyname type host port s' = .ok t' ∧ Follows t t'
  simp only [proxyPassToHost] at single ⊢
  cases resolved : hostAddress gethostbyname host port with
  | none =>
      rw [resolved] at single
      cases single
  | some address =>
      rw [resolved] at single
      rcases follows.locations.cases with
        ⟨empty, empty'⟩ | ⟨loc, rest, loc', rest', items, items', _⟩
      · have moved := follows.edit true (same address typeProxyPass) s.tryTargets
          s'.tryTargets s.protocol s'.protocol
        rw [Pending.touch_true_of_nil empty, Pending.touch_true_of_nil empty'] at moved
        rw [empty] at single
        rw [empty']
        obtain rfl := Except.ok.inj single
        exact ⟨_, rfl, moved⟩
      · have moved := follows.edit true (same address type) s.tryTargets
          s'.tryTargets s.protocol s'.protocol
        rw [Pending.touch_of_cons items, Pending.touch_of_cons items'] at moved
        rw [items] at single
        rw [items']
        obtain rfl := Except.ok.inj single
        exact ⟨_, rfl, moved⟩

theorem Follows.expires (follows : Follows s s') {expires : CString}
    (ran : fExpires expires s = .ok t) :
    ∃ t', fExpires expires s' = .ok t' ∧ Follows t t' := by
  rcases bind_eq_ok_iff.mp ran with ⟨u, freed, done⟩
  obtain rfl := Except.ok.inj done
  refine ⟨_, bind_eq_ok_iff.mpr ⟨u, freed, rfl⟩, ?_⟩
  have same : ∀ a b : Location, a.root.isSome → b.root = a.root →
      ({ b with expires := expiresValue expires.text } : Location).root =
          ({ a with expires := expiresValue expires.text } : Location).root ∧
        ({ a with expires := expiresValue expires.text } : Location).root.isSome :=
    fun _ _ some_ same => ⟨same, some_⟩
  simp only [Pending.modifyHead_eq_touch]
  exact follows.edit false same s.tryTargets s'.tryTargets s.protocol s'.protocol

theorem Follows.tryFiles (follows : Follows s s') : Follows (fTryFiles s) (fTryFiles s') := by
  have moved := @Follows.edit s s' follows true
    (fun loc => { loc with
      type := loc.type ||| typeTryFiles
      matchType := .unsetMatch
      tryTarget := s.tryTargets })
    (fun loc => { loc with
      type := loc.type ||| typeTryFiles
      matchType := .unsetMatch
      tryTarget := s'.tryTargets })
    (fun _ _ some_ same => ⟨same, some_⟩) [] [] s.protocol s'.protocol
  simp only [fTryFiles]
  rcases follows.locations.cases with ⟨empty, empty'⟩ | ⟨loc, rest, loc', rest', items, items', _⟩
  · rw [Pending.touch_true_of_nil empty, Pending.touch_true_of_nil empty'] at moved
    rw [empty, empty']
    exact moved
  · rw [Pending.touch_of_cons items, Pending.touch_of_cons items'] at moved
    rw [items, items']
    exact moved

theorem Follows.location (follows : Follows s s') {matchType : MatchType} {match_ : Bytes}
    (ran : fLocation matchType match_ s = .ok t) :
    ∃ t', fLocation matchType match_ s' = .ok t' ∧ Follows t t' := by
  rcases Option.isSome_iff_exists.mp
    (follows.locations.rooted _ (Pending.head_mem_toList _)) with ⟨root, own⟩
  have own' : s'.locations.head.root = some root := follows.locations.head.trans own
  simp only [fLocation, own, own', Option.some_or, Pending.modifyHead_eq_touch] at ran ⊢
  obtain rfl := Except.ok.inj ran
  refine ⟨_, rfl, ?_⟩
  exact @Follows.edit s s' follows false
    (fun loc => { loc with
      matchType := matchType
      match_ := match_
      protocol := s.protocol
      root := some root })
    (fun loc => { loc with
      matchType := matchType
      match_ := match_
      protocol := s'.protocol
      root := some root })
    (fun _ _ _ _ => ⟨rfl, rfl⟩) s.tryTargets s'.tryTargets .protocolUnset .protocolUnset

theorem Follows.server (follows : Follows s s') : Follows (fServer s) (fServer s') where
  names := congrArg Pending.clear follows.names
  accessLog := fun _ => rfl
  errorLog := fun _ => rfl
  noGroups := follows.noGroups
  locations :=
    { items := rfl
      dflt := follows.locations.dflt
      rooted := by
        intro loc member
        obtain rfl : loc = s.locations.dflt := by
          simpa [Pending.toList, Pending.clear, fServer] using member
        exact follows.locations.rooted _ (by simp [Pending.toList]) }

/-- Every action of a block that returns in the first state returns in the second. -/
theorem Follows.perform (follows : Follows s s') {a : Action} (inBlock : a.inBlock = true)
    (ran : Config.perform gethostbyname s a = .ok t) :
    ∃ t', Config.perform gethostbyname s' a = .ok t' ∧ Follows t t' := by
  cases a with
  | upstream | upstreams | http => cases inBlock
  | pid | workerProcesses | defaultType | autoindex | serverTokens | indexFile | tls | tryTarget =>
      obtain rfl := Except.ok.inj ran
      exact ⟨_, rfl, follows.names, follows.accessLog, follows.errorLog, follows.noGroups,
        follows.locations⟩
  | protocol p =>
      obtain rfl := Except.ok.inj ran
      refine ⟨_, rfl, ?_⟩
      simp only [fProtocol]
      split_ifs <;> exact ⟨follows.names, follows.accessLog, follows.errorLog, follows.noGroups,
        follows.locations⟩
  | serverName name type => exact follows.serverName ran
  | listen name portNum =>
      have listened : Follows (listenPort portNum s) (listenPort portNum s') := by
        rw [listenPort_eq, listenPort_eq]
        exact ⟨follows.names, follows.accessLog, follows.errorLog, follows.noGroups,
          follows.locations⟩
      cases name with
      | none =>
          obtain rfl := Except.ok.inj ran
          exact ⟨_, rfl, listened⟩
      | some name => exact listened.serverName ran
  | errorLog path =>
      simp only [Config.perform, fErrorLog] at ran ⊢
      split at ran
      · cases ran
      case h_2 none =>
        obtain rfl := Except.ok.inj ran
        rw [follows.errorLog none]
        refine ⟨_, rfl, follows.names, follows.accessLog, ?_, follows.noGroups, follows.locations⟩
        intro given
        cases given
  | accessLog path =>
      simp only [Config.perform, fAccessLog] at ran ⊢
      split at ran
      · cases ran
      case h_2 none =>
        obtain rfl := Except.ok.inj ran
        rw [follows.accessLog none]
        refine ⟨_, rfl, follows.names, ?_, follows.errorLog, follows.noGroups, follows.locations⟩
        intro given
        cases given
  | sslCertificate path =>
      obtain rfl := Except.ok.inj ran
      refine ⟨_, rfl, ?_⟩
      rw [fSslCertificate_eq, fSslCertificate_eq]
      exact ⟨follows.names, follows.accessLog, follows.errorLog, follows.noGroups,
        follows.locations⟩
  | sslCertificateKey path =>
      obtain rfl := Except.ok.inj ran
      refine ⟨_, rfl, ?_⟩
      rw [fSslCertificateKey_eq, fSslCertificateKey_eq]
      exact ⟨follows.names, follows.accessLog, follows.errorLog, follows.noGroups,
        follows.locations⟩
  | root root => exact follows.root ran
  | expires expires => exact follows.expires ran
  | tryFiles =>
      obtain rfl := Except.ok.inj ran
      exact ⟨_, rfl, follows.tryFiles⟩
  | proxyPass host port => exact follows.pass ran
  | fastcgiPass host port => exact follows.pass ran
  | location matchType match_ => exact follows.location ran
  | server =>
      obtain rfl := Except.ok.inj ran
      exact ⟨_, rfl, follows.server⟩

theorem Follows.run {actions : List Action} (follows : Follows s s')
    (inBlock : ∀ a ∈ actions, a.inBlock = true)
    (ran : Transition.run (Config.perform gethostbyname) s actions = .ok t) :
    ∃ t', Transition.run (Config.perform gethostbyname) s' actions = .ok t' := by
  induction actions generalizing s s' with
  | nil => exact ⟨s', rfl⟩
  | cons a rest ih =>
      rcases run_cons_eq_ok_iff.mp ran with ⟨m, one, more⟩
      rcases follows.perform (inBlock a List.mem_cons_self) one with ⟨m', one', follows'⟩
      rcases ih follows' (fun b member => inBlock b (List.mem_cons_of_mem a member)) more with
        ⟨t', more'⟩
      exact ⟨t', run_cons_eq_ok_iff.mpr ⟨m', one', more'⟩⟩

theorem inBlock_of_onLocation {a : Action} (inside : a.onLocation = true) : a.inBlock = true := by
  cases a with
  | upstream | upstreams | http => cases inside
  | _ => rfl

theorem ServerDirective.inBlock (d : ServerDirective) : ∀ a ∈ d.actions, a.inBlock = true := by
  intro a member
  cases d with
  | serverName first rest | index first rest =>
      rcases List.mem_map.mp member with ⟨_, _, rfl⟩
      rfl
  | listen first rest =>
      rcases List.mem_flatMap.mp member with ⟨option, _, inside⟩
      cases option with
      | number | name | wildcard | namePort | wildcardPort | ssl =>
          obtain rfl := List.mem_singleton.mp inside
          rfl
      | inert => cases inside
  | location sec => exact inBlock_of_onLocation (sec.onLocation a member)
  | serverTokens | accessLog | errorLog | root | autoindex | sslCertificate | sslCertificateKey
  | defaultType =>
      obtain rfl := List.mem_singleton.mp member
      rfl
  | inert => cases member

theorem inBlock_serverActions (body : List ServerDirective) :
    ∀ a ∈ serverActions body, a.inBlock = true := by
  intro a member
  rcases List.mem_append.mp member with member | member
  · rcases List.mem_flatMap.mp member with ⟨d, _, inside⟩
    exact d.inBlock a inside
  · obtain rfl := List.mem_singleton.mp member
    rfl

/-- A state behind blocks is followed by the initial state. -/
theorem follows_initial {blocks : List (List ServerDirective)} (behind : Behind blocks s)
    (between : Between s) : Follows s .initial where
  names := (congrArg Prod.fst behind.own).symm
  accessLog := fun _ => rfl
  errorLog := fun _ => rfl
  noGroups := ⟨behind.upstreams, rfl⟩
  locations :=
    { items := by
        rw [between.noItems]
        rfl
      dflt := by
        rcases between.plain with ⟨_, _, _, _, is⟩
        rw [is]
        rfl
      rooted := between.rooted }

/-! ## The server of a block -/

/-- The directives, performed in the given state, add the server to the list. -/
def Builds (gethostbyname : Resolver) (s : ParseState) (body : List ServerDirective)
    (server : Server) : Prop :=
  ∃ t, run (perform gethostbyname) s (serverActions body) = .ok t ∧
    t.serverList = s.serverList ++ [server]

/-- The servers agree in all but their logs. -/
structure SameServer (a b : Server) : Prop where
  serverNames : a.serverNames = b.serverNames
  ports : a.ports = b.ports
  indexFiles : a.indexFiles = b.indexFiles
  locations : a.locations = b.locations
  autoIndex : a.autoIndex = b.autoIndex
  certFile : a.certFile = b.certFile
  keyFile : a.keyFile = b.keyFile

/-- The block builds the server that it builds as the only block, whatever main directives
stand in front of it. -/
def Isolated (gethostbyname : Resolver) (s : ParseState) (body : List ServerDirective) : Prop :=
  ∃ server, Builds gethostbyname s body server ∧
    (∃ alone, Builds gethostbyname .initial body alone) ∧
      ∀ main r alone, Reached gethostbyname main [] r → Builds gethostbyname r body alone →
        SameServer server alone

/-- The block reads no default that the blocks before it have changed. -/
structure Independent (blocks : List (List ServerDirective)) (body : List ServerDirective) :
    Prop where
  /-- The block registers a port or turns TLS on, or no earlier `ssl` came before the ports
  of its block. -/
  ports : (∃ option ∈ listenOptions body, option.registers = true) ∨
    .ssl ∈ listenOptions body ∨ ∀ earlier ∈ blocks, leaksTls (listenOptions earlier) = false
  /-- The block has a location section, or the earlier ones have left the header of the
  default location as it was. -/
  header : sections body ≠ [] ∨ leakedHeader blocks = defaultLocation.header
  /-- The same for its expiry and `expires`. -/
  expires : (∃ d ∈ body.flatMap ServerDirective.locationDirectives, d.expires?.isSome) ∨
    leakedExpires blocks = defaultLocation.expires

/-- The state a block's server is built from. -/
theorem closed_eq {body : List ServerDirective} {server : Server} (between : Between s)
    (ran : run (perform gethostbyname) s (serverActions body) = .ok t)
    (list : t.serverList = s.serverList ++ [server]) :
    ∃ m, Built gethostbyname body s m ∧
      m.settings = s.settings.afterAll (body.flatMap ServerDirective.actions) ∧
      t = fServer m ∧ server = serverOf m := by
  rcases run_append_eq_ok_iff.mp ran with ⟨m, inner, closed⟩
  obtain rfl := Except.ok.inj (run_singleton_eq_ok_iff.mp closed)
  have built := body_eq_ok between.toIdle inner
  have kept : m.serverList = s.serverList := congrArg Core.serverList built.core
  refine ⟨m, built, settings_of_run inner, rfl, ?_⟩
  have added : m.serverList ++ [serverOf m] = s.serverList ++ [server] := list
  rw [kept] at added
  exact (List.singleton_inj.mp (List.append_cancel_left added)).symm

/-- The only location of the server of a block. -/
theorem location_of_block {body : List ServerDirective} {server : Server} (between : Between s)
    (ran : run (perform gethostbyname) s (serverActions body) = .ok t)
    (list : t.serverList = s.serverList ++ [server]) :
    server.locations = [(touchBody gethostbyname s.groupNames body s.locations).head] ∧
      (touchBody gethostbyname s.groupNames body s.locations).head.root.isSome := by
  rcases closed_eq between ran list with ⟨m, built, _, _, rfl⟩
  have pending : m.locations = touchBody gethostbyname s.groupNames body s.locations :=
    congrArg Core.locations built.core
  have short : m.locations.items.length ≤ 1 := by
    rw [pending]
    exact length_touchBody_le (by simp [between.noItems])
  have rooted := built.idle.rooted _ (Pending.head_mem_toList m.locations)
  rw [← pending]
  exact ⟨locations_serverOf short rooted, rooted⟩

theorem exists_builds {body : List ServerDirective} (between : Between s)
    (ran : run (perform gethostbyname) s (serverActions body) = .ok t) :
    ∃ server, Builds gethostbyname s body server := by
  rcases server_eq_ok between ran with ⟨_, m, _, core⟩
  exact ⟨serverOf m, t, ran, congrArg Core.serverList core⟩

/-- The only location of the server, on the groups there are. -/
theorem locations_built {body : List ServerDirective} (between : Between s)
    (noGroups : s.upstreams = []) (built : Built gethostbyname body s t) :
    (serverOf t).locations = [(touchBody gethostbyname [] body s.locations).head] := by
  have noNames : s.groupNames = [] := by rw [ParseState.groupNames, noGroups, List.map_nil]
  have list : t.locations = touchBody gethostbyname [] body s.locations :=
    noNames ▸ congrArg Core.locations built.core
  have short : t.locations.items.length ≤ 1 := by
    rw [list]
    exact length_touchBody_le (by simp [between.noItems])
  rw [locations_serverOf short (built.idle.rooted _ (Pending.head_mem_toList _)), list]

/-- Beside its header and expiry, the default location is always the same. -/
theorem bare_of_plain {loc : Location} (plain : PlainDefault loc) :
    loc.bare = defaultLocation.bare := by
  rcases plain with ⟨_, _, _, _, rfl⟩
  rfl

theorem sameServer_iff {blocks : List (List ServerDirective)} {body : List ServerDirective}
    {r : ParseState} {server alone : Server} (behind : Behind blocks s) (between : Between s)
    (first : Behind [] r) (between' : Between r) (builds : Builds gethostbyname s body server)
    (builds' : Builds gethostbyname r body alone) :
    SameServer server alone ↔ Independent blocks body := by
  rcases builds with ⟨t, ran, list⟩
  rcases builds' with ⟨t', ran', list'⟩
  rcases closed_eq between ran list with ⟨m, built, settings, _, rfl⟩
  rcases closed_eq between' ran' list' with ⟨m', built', settings', _, rfl⟩
  have own : m.settings.own = m'.settings.own := by
    rw [settings, settings']
    exact Settings.own_afterAll (behind.own.trans first.own.symm) _
  simp only [Settings.own, Prod.mk.injEq] at own
  rcases own with ⟨names, files, cert, key, auto⟩
  have ports : m.ports = portsAfter (listenOptions body) s.ports :=
    (congrArg Settings.ports settings).trans (ports_body body s.settings)
  have ports' : m'.ports = portsAfter (listenOptions body) r.ports :=
    (congrArg Settings.ports settings').trans (ports_body body r.settings)
  have portsIff := @inOrder_portsAfter_iff (listenOptions body) s.ports r.ports behind.noPorts
    first.noPorts (behind.portNum.trans first.portNum.symm)
  rw [← ports, ← ports', behind.tls, first.tls, List.any_nil, List.any_eq_false] at portsIff
  have head : s.locations.head = s.locations.dflt := by simp [Pending.head, between.noItems]
  have head' : r.locations.head = r.locations.dflt := by simp [Pending.head, between'.noItems]
  have bare : (touchBody gethostbyname [] body s.locations).head.bare =
      (touchBody gethostbyname [] body r.locations).head.bare := by
    rw [touchBody_eq_steps, touchBody_eq_steps]
    apply bare_steps
    · rw [between.noItems, between'.noItems]
    · rw [head, head', bare_of_plain between.plain, bare_of_plain between'.plain]
  have header := @header_steps_iff gethostbyname [] body s.locations r.locations
  have expires := @expires_steps_iff gethostbyname [] body s.locations r.locations
  rw [head, head', behind.header, first.header] at header
  rw [head, head', behind.expires, first.expires] at expires
  have locationsIff : (serverOf m).locations = (serverOf m').locations ↔
      (sections body ≠ [] ∨ leakedHeader blocks = defaultLocation.header) ∧
        ((∃ d ∈ body.flatMap ServerDirective.locationDirectives, d.expires?.isSome) ∨
          leakedExpires blocks = defaultLocation.expires) := by
    rw [locations_built between behind.upstreams built,
      locations_built between' first.upstreams built', List.singleton_inj, location_eq_iff]
    rw [header, expires]
    exact and_iff_right bare
  constructor
  · intro same
    rcases locationsIff.mp same.locations with ⟨header, expires⟩
    refine ⟨?_, header, expires⟩
    have choice := portsIff.mp same.ports
    simpa using choice
  · intro independent
    refine
      { serverNames := congrArg Pending.inOrder names
        ports := portsIff.mpr ?_
        indexFiles := congrArg Pending.inOrder files
        locations := locationsIff.mpr ⟨independent.header, independent.expires⟩
        autoIndex := auto
        certFile := cert
        keyFile := key }
    have choice := independent.ports
    simpa using choice

theorem isolated_iff {main : List MainDirective} {blocks : List (List ServerDirective)}
    {body : List ServerDirective} (reached : Reached gethostbyname main (blocks.map .server) s)
    (accepted : run (perform gethostbyname) s (serverActions body) = .ok t) :
    Isolated gethostbyname s body ↔ Independent blocks body := by
  have behind := behind_of_reached reached
  have between := Between.of_reached reached
  rcases (follows_initial behind between).run (inBlock_serverActions body) accepted with
    ⟨t', accepted'⟩
  rcases exists_builds Between.initial accepted' with ⟨alone, builds'⟩
  constructor
  · rintro ⟨server, builds, _, same⟩
    have given := same [] .initial alone rfl builds'
    exact (sameServer_iff behind between behind_initial .initial builds builds').mp given
  · intro independent
    rcases exists_builds between accepted with ⟨server, builds⟩
    refine ⟨server, builds, ⟨alone, builds'⟩, ?_⟩
    intro main' r other reached' others
    exact (sameServer_iff behind between (@behind_of_reached _ _ main' [] reached')
      (.of_reached reached') builds others).mpr independent

/-- A block whose only section is `location /` with the given directive. -/
def expiring (d : LocationDirective) : List ServerDirective :=
  [.location { matchType := .prefixMatch, match_ := bytes "/", first := d, rest := [] }]

theorem isolated_iff_expiring :
    ∃ s t, Reached (fun _ => none) [] [.server (expiring (.root (bytes "/srv")))] s ∧
      run (perform fun _ => none) s (serverActions (expiring (.expires (bytes "1h")))) = .ok t ∧
      Isolated (fun _ => none) s (expiring (.expires (bytes "1h"))) := by
  have reached : ∃ s t, Reached (fun _ => none) [] [.server (expiring (.root (bytes "/srv")))] s ∧
      run (perform fun _ => none) s (serverActions (expiring (.expires (bytes "1h")))) = .ok t :=
    ⟨_, _, rfl, rfl⟩
  rcases reached with ⟨s, t, reached, accepted⟩
  have independent : Independent [expiring (.root (bytes "/srv"))]
      (expiring (.expires (bytes "1h"))) :=
    { ports := .inr (.inr (by decide))
      header := .inl (by decide)
      expires := .inl ⟨.expires (bytes "1h"), by decide, rfl⟩ }
  exact ⟨s, t, reached, accepted, (isolated_iff reached accepted).mpr independent⟩

/-- What the first block says of `/` holds for a second block that says nothing of it. -/
theorem expiring_not_isolated :
    ∃ s t server, Reached (fun _ => none) [] [.server (expiring (.expires (bytes "1h")))] s ∧
      run (perform fun _ => none) s (serverActions [.listen (.number 81) []]) = .ok t ∧
      t.serverList = s.serverList ++ [server] ∧ server.locations.map (·.expires) = [3600] ∧
      ¬ Isolated (fun _ => none) s [.listen (.number 81) []] := by
  refine ⟨_, _, _, rfl, rfl, rfl, by decide, ?_⟩
  rintro ⟨server, ⟨t, ran, list⟩, ⟨alone, t', ran', list'⟩, same⟩
  have apart := (same [] .initial alone rfl ⟨t', ran', list'⟩).locations
  obtain rfl := Except.ok.inj ran
  obtain rfl := Except.ok.inj ran'
  obtain rfl := List.singleton_inj.mp (List.append_cancel_left list)
  obtain rfl := List.singleton_inj.mp list'
  exact absurd apart (by decide)

end OgWebserver.Config

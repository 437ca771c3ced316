import OgWebserver.Config.Grammar

/-!
# Effects of directives

What each directive does to the location list, said once.  A directive acts on
the location the static pointer points to; whether that is a pending location
or the default decides which type bits a pass sets.  Everything proved about
sections and server blocks goes through the lemmas of this file instead of the
bodies of the parser actions.
-/

namespace OgWebserver.Config

open Text Transition

/-! ## Touching the location list -/

namespace Pending

variable {α : Type}

/-- Edit the head, first copying the default if the directive creates. -/
def touch (creates : Bool) (f : α → α) (p : Pending α) : Pending α :=
  match p.items with
  | [] => if creates then { p with items := [f p.dflt] } else { p with dflt := f p.dflt }
  | item :: rest => { p with items := f item :: rest }

@[simp]
theorem head_touch (creates : Bool) (f : α → α) (p : Pending α) :
    (p.touch creates f).head = f p.head := by
  rcases p with ⟨_ | ⟨item, rest⟩, dflt⟩ <;> cases creates <;> rfl

theorem touch_true_of_nil {f : α → α} {p : Pending α} (empty : p.items = []) :
    p.touch true f = { p with items := [f p.dflt] } := by
  simp [touch, empty]

theorem touch_of_cons {creates : Bool} {f : α → α} {p : Pending α} {item : α} {rest : List α}
    (pending : p.items = item :: rest) :
    p.touch creates f = { p with items := f item :: rest } := by
  simp [touch, pending]

theorem modifyHead_eq_touch (f : α → α) (p : Pending α) :
    p.modifyHead f = p.touch false f := by
  rcases p with ⟨_ | ⟨item, rest⟩, dflt⟩ <;> rfl

theorem touch_id (p : Pending α) : p.touch false id = p := by
  rcases p with ⟨_ | ⟨item, rest⟩, dflt⟩ <;> rfl

theorem head_mem_toList (p : Pending α) : p.head ∈ p.toList := by
  rcases p with ⟨_ | ⟨item, rest⟩, dflt⟩ <;> simp [head, toList]

/-- A property that the edit preserves holds of the whole list afterwards. -/
theorem forall_toList_touch {creates : Bool} {f : α → α} {p : Pending α} {P : α → Prop}
    (keeps : ∀ a, P a → P (f a)) (all : ∀ a ∈ p.toList, P a) :
    ∀ a ∈ (p.touch creates f).toList, P a := by
  rcases p with ⟨_ | ⟨item, rest⟩, dflt⟩ <;> cases creates <;>
    simp_all [touch, toList]

/-- An edit in place depends on the head alone. -/
theorem touch_false_congr {f g : α → α} {p : Pending α} (same : f p.head = g p.head) :
    p.touch false f = p.touch false g := by
  rcases p with ⟨_ | ⟨item, rest⟩, dflt⟩
  · exact congrArg (Pending.mk []) same
  · exact congrArg (fun edited => Pending.mk (edited :: rest) dflt) same

/-- At most one item is ever pending. -/
theorem length_touch_le {creates : Bool} {f : α → α} {p : Pending α}
    (short : p.items.length ≤ 1) : (p.touch creates f).items.length ≤ 1 := by
  rcases p with ⟨_ | ⟨item, rest⟩, dflt⟩ <;> cases creates <;> simp_all [touch]

/-- The list stays empty exactly if it was and nothing was created. -/
theorem items_touch_eq_nil {creates : Bool} {f : α → α} {p : Pending α} :
    (p.touch creates f).items = [] ↔ p.items = [] ∧ creates = false := by
  rcases p with ⟨_ | ⟨item, rest⟩, dflt⟩ <;> cases creates <;> simp [touch]

/-- The default changes only if the directive edits it in place. -/
theorem dflt_touch (creates : Bool) (f : α → α) (p : Pending α) :
    (p.touch creates f).dflt = p.dflt ∨
      creates = false ∧ p.items = [] ∧ (p.touch creates f).dflt = f p.dflt := by
  rcases p with ⟨_ | ⟨item, rest⟩, dflt⟩ <;> cases creates <;> simp [touch]

end Pending

/-! ## Upstream groups -/

/-- The groups after those at the given positions have been freed. -/
def markFreed (freed : List Nat) (upstreams : List Upstreams) : List Upstreams :=
  upstreams.mapIdx fun i g => if i ∈ freed then { g with freed := true } else g

@[simp]
theorem markFreed_nil (upstreams : List Upstreams) : markFreed [] upstreams = upstreams := by
  simp [markFreed, List.mapIdx_eq_iff]

theorem markFreed_markFreed (first second : List Nat) (upstreams : List Upstreams) :
    markFreed second (markFreed first upstreams) = markFreed (first ++ second) upstreams := by
  apply List.ext_getElem?
  intro i
  simp only [markFreed, List.getElem?_mapIdx, List.mem_append, Option.map_map]
  congr 1
  funext g
  by_cases inFirst : i ∈ first <;> by_cases inSecond : i ∈ second <;>
    simp [inFirst, inSecond]

/-- What does not depend on liveness is as before. -/
theorem map_markFreed {β : Type} {f : Upstreams → β}
    (same : ∀ g : Upstreams, f { g with freed := true } = f g) (freed : List Nat)
    (upstreams : List Upstreams) : (markFreed freed upstreams).map f = upstreams.map f := by
  apply List.ext_getElem?
  intro i
  simp only [markFreed, List.getElem?_map, List.getElem?_mapIdx, Option.map_map]
  congr 1
  funext g
  by_cases member : i ∈ freed <;> simp [member, same]

/-! ## Location directives -/

/-- Names of the upstream groups, in list order. -/
def ParseState.groupNames (s : ParseState) : List Bytes :=
  s.upstreams.map (·.name)

/-- Chains of the upstream groups, in list order. -/
def ParseState.chains (s : ParseState) : List (List Upstream) :=
  s.upstreams.map (·.servers)

/-- Position of the first group with the given name. -/
def groupNamed (names : List Bytes) (host : Bytes) : Option Nat :=
  names.findIdx? (· == host)

theorem isUpstreamGroup_eq_ok {host : Bytes} {upstreams : List Upstreams} {found : Option Nat}
    (ran : isUpstreamGroup host upstreams = .ok found) :
    found = groupNamed (upstreams.map (·.name)) host := by
  induction upstreams generalizing found with
  | nil => exact (Except.ok.inj ran).symm
  | cons g rest ih =>
      simp only [isUpstreamGroup] at ran
      split at ran
      · cases ran
      · split at ran
        case isTrue same =>
          obtain rfl := Except.ok.inj ran
          simp [groupNamed, List.findIdx?_cons, same]
        case isFalse other =>
          cases inner : isUpstreamGroup host rest with
          | error e => rw [inner] at ran; cases ran
          | ok position =>
              rw [inner] at ran
              obtain rfl := Except.ok.inj ran
              have position_eq := ih inner
              simp [groupNamed, List.findIdx?_cons, other, position_eq]

/-- What a pass directive does to the location it acts on.  `fresh` tells that
the location has just been created for it. -/
def passEdit (gethostbyname : Resolver) (names : List Bytes) (fresh : Bool) (type : Nat)
    (host : Bytes) (port : Int32) (loc : Location) : Location :=
  match groupNamed names host with
  | some group =>
      { loc with
        group := some group
        type := loc.type ||| if fresh then typeUpstreamGroup else type }
  | none =>
      { loc with
        passTo := hostAddress gethostbyname host port
        type := loc.type ||| if fresh then typeProxyPass else type }

theorem passEdit_of_group {gethostbyname : Resolver} {names : List Bytes} {fresh : Bool}
    {type group : Nat} {host : Bytes} {port : Int32}
    (target : groupNamed names host = some group) :
    passEdit gethostbyname names fresh type host port = fun loc =>
      { loc with
        group := some group
        type := loc.type ||| if fresh then typeUpstreamGroup else type } := by
  funext loc
  simp only [passEdit, target]

theorem passEdit_of_host {gethostbyname : Resolver} {names : List Bytes} {fresh : Bool}
    {type : Nat} {host : Bytes} {port : Int32} (target : groupNamed names host = none) :
    passEdit gethostbyname names fresh type host port = fun loc =>
      { loc with
        passTo := hostAddress gethostbyname host port
        type := loc.type ||| if fresh then typeProxyPass else type } := by
  funext loc
  simp only [passEdit, target]

namespace LocationDirective

/-- Does the directive create a location when none is pending? -/
def creates : LocationDirective → Bool
  | root _ | proxyPass .. | fastcgiPass .. | tryFiles .. => true
  | expires _ | expiresOff | defaultType _ | inert => false

/-- What a directive does to the location it acts on. -/
def edit (gethostbyname : Resolver) (names : List Bytes) (fresh : Bool) :
    LocationDirective → Location → Location
  | root path, loc =>
      { loc with root := some (.token path), type := loc.type ||| typeDocRoot }
  | proxyPass _ host port, loc =>
      passEdit gethostbyname names fresh typeProxyPass host (port.getD 0) loc
  | fastcgiPass host port, loc =>
      passEdit gethostbyname names fresh typeFastcgiPass host (port.getD 0) loc
  | expires units, loc => { loc with expires := expiresValue units }
  | tryFiles first rest, loc =>
      { loc with
        type := loc.type ||| typeTryFiles
        matchType := .unsetMatch
        tryTarget := first :: rest }
  | expiresOff, loc | defaultType _, loc | inert, loc => loc

/-- The protocol a directive leaves in the static variable. -/
def protocol? : LocationDirective → Option Protocol
  | proxyPass .http1 .. => some .protocolHttp
  | proxyPass .https .. => some .protocolHttps
  | proxyPass .http2 .. => some .protocolHttp2
  | _ => none

/-- The group a directive passes to, if it does. -/
def groupTarget (names : List Bytes) : LocationDirective → Option Nat
  | proxyPass _ host _ | fastcgiPass host _ => groupNamed names host
  | _ => none

/-- The address a directive passes to, if its target is a single host. -/
def passTo? (gethostbyname : Resolver) (names : List Bytes) :
    LocationDirective → Option (Option SockAddr)
  | proxyPass _ host port | fastcgiPass host port =>
      match groupNamed names host with
      | some _ => none
      | none => some (hostAddress gethostbyname host (port.getD 0))
  | _ => none

/-- The group that a directive gives back to the allocator. -/
def released (names : List Bytes) (d : LocationDirective) (p : Pending Location) : List Nat :=
  if (d.groupTarget names).isSome && !p.items.isEmpty then p.head.group.toList else []

/-- The effect of a directive on the location list. -/
def touch (gethostbyname : Resolver) (names : List Bytes) (d : LocationDirective)
    (p : Pending Location) : Pending Location :=
  p.touch d.creates (d.edit gethostbyname names p.items.isEmpty)

theorem touch_defaultType (gethostbyname : Resolver) (names : List Bytes) (type : Bytes)
    (p : Pending Location) : (defaultType type).touch gethostbyname names p = p :=
  p.touch_id

theorem touch_inert (gethostbyname : Resolver) (names : List Bytes) (p : Pending Location) :
    inert.touch gethostbyname names p = p :=
  p.touch_id

end LocationDirective

variable {gethostbyname : Resolver} {s t : ParseState}

theorem fRoot_eq_ok {path : Bytes} (ran : fRoot (.token path) s = .ok t) :
    t = { s with
      locations := (LocationDirective.root path).touch gethostbyname s.groupNames s.locations } := by
  simp only [fRoot] at ran
  split at ran
  case h_1 loc rest pending =>
    rw [LocationDirective.touch, Pending.touch_of_cons pending]
    have done : Except.ok { s with
        locations.items :=
          { loc with type := loc.type ||| typeDocRoot, root := some (CString.token path) } ::
            rest } = Except.ok (ε := Halt) t := by
      split at ran
      case h_1 old _ =>
        cases freed : freeString old with
        | error e => rw [freed] at ran; cases ran
        | ok u => rwa [freed] at ran
      case h_2 => exact ran
    exact (Except.ok.inj done).symm
  case h_2 empty =>
    rw [LocationDirective.touch, LocationDirective.creates, Pending.touch_true_of_nil empty]
    exact (Except.ok.inj ran).symm

theorem fExpires_eq_ok {units : Bytes} (ran : fExpires (.token units) s = .ok t) :
    t = { s with
      locations :=
        (LocationDirective.expires units).touch gethostbyname s.groupNames s.locations } := by
  rw [LocationDirective.touch, LocationDirective.creates, ← Pending.modifyHead_eq_touch]
  exact (Except.ok.inj ran).symm

theorem freeGroup_eq_ok {group : Option Nat} {upstreams freed : List Upstreams}
    (ran : freeGroup upstreams group = .ok freed) :
    freed = markFreed group.toList upstreams := by
  cases group with
  | none =>
      obtain rfl := Except.ok.inj ran
      simp
  | some group =>
      simp only [freeGroup] at ran
      split at ran
      case h_1 g found =>
        split at ran
        · cases ran
        · obtain rfl := Except.ok.inj ran
          apply List.ext_getElem?
          intro i
          simp only [markFreed, List.getElem?_mapIdx, Option.toList_some, List.mem_singleton]
          by_cases here : group = i
          · subst here
            simp [List.getElem?_set_self (List.getElem?_eq_some_iff.mp found).1, found]
          · simp [List.getElem?_set_ne here, Ne.symm here]
      case h_2 => cases ran

theorem locationToGroup_eq_ok {type group : Nat} (ran : locationToGroup type group s = .ok t) :
    t = { s with
      locations :=
        s.locations.touch true fun loc =>
          { loc with
            group := some group
            type := loc.type |||
              if s.locations.items.isEmpty then typeUpstreamGroup else type }
      upstreams :=
        markFreed (if s.locations.items.isEmpty then [] else s.locations.head.group.toList)
          s.upstreams } := by
  simp only [locationToGroup] at ran
  split at ran
  case h_1 loc rest pending =>
    rw [Pending.touch_of_cons pending, pending]
    rcases bind_eq_ok_iff.mp ran with ⟨upstreams, freed, done⟩
    rw [freeGroup_eq_ok freed] at done
    rw [← Except.ok.inj done]
    simp [Pending.head, pending]
  case h_2 empty =>
    rw [Pending.touch_true_of_nil empty, empty]
    rw [← Except.ok.inj ran]
    simp

/-- After a run of `proxyPassToUpstreamGroup` over some nodes, these and all nodes
that had an address before have one. -/
theorem setPassTo_eq_ok {nodes : List Upstream} {before after : Nat → Option SockAddr}
    (ran : setPassTo gethostbyname nodes before = .ok after) :
    (∀ n, (before n).isSome → (after n).isSome) ∧ ∀ up ∈ nodes, (after up.node).isSome := by
  induction nodes generalizing before with
  | nil =>
      obtain rfl := Except.ok.inj ran
      exact ⟨fun _ has => has, by simp⟩
  | cons up rest ih =>
      simp only [setPassTo] at ran
      split at ran
      · cases ran
      case h_2 address _ =>
        rcases ih ran with ⟨grows, set⟩
        have here : ∀ n, (before n).isSome ∨ n = up.node →
            (Function.update before up.node (some address) n).isSome := by
          intro n known
          by_cases same : n = up.node
          · simp [same]
          · simpa [same] using known
        refine ⟨fun n has => grows n (here n (.inl has)), fun other member => ?_⟩
        rcases List.mem_cons.mp member with rfl | member
        · exact grows _ (here _ (.inr rfl))
        · exact set other member

theorem resolveGroup_eq_ok {group : Nat} (ran : resolveGroup gethostbyname group s = .ok t) :
    ∃ passTo g, t = { s with passTo := passTo } ∧ s.upstreams[group]? = some g ∧
      setPassTo gethostbyname g.servers s.passTo = .ok passTo := by
  simp only [resolveGroup] at ran
  split at ran
  case h_1 g found =>
    split at ran
    · cases ran
    · rcases bind_eq_ok_iff.mp ran with ⟨passTo, set, done⟩
      exact ⟨passTo, g, (Except.ok.inj done).symm, found, set⟩
  case h_2 => cases ran

theorem proxyPassToHost_eq_ok {type : Nat} {host : Bytes} {port : Int32}
    (ran : proxyPassToHost gethostbyname type host port s = .ok t) :
    t = { s with
      locations :=
        s.locations.touch true fun loc =>
          { loc with
            passTo := hostAddress gethostbyname host port
            type := loc.type ||| if s.locations.items.isEmpty then typeProxyPass else type } } := by
  simp only [proxyPassToHost] at ran
  split at ran
  · cases ran
  case h_2 address resolved =>
    rw [resolved]
    split at ran
    case h_1 loc rest pending =>
      rw [Pending.touch_of_cons pending, pending]
      exact (Except.ok.inj ran).symm
    case h_2 empty =>
      rw [Pending.touch_true_of_nil empty, empty]
      exact (Except.ok.inj ran).symm

/-- Addresses of upstream nodes are only ever added. -/
def Grows (before after : Nat → Option SockAddr) : Prop :=
  ∀ n, (before n).isSome → (after n).isSome

/-- The targets of a directive have addresses: every node of the group it passes
to, or the single host. -/
structure Resolved (gethostbyname : Resolver) (names : List Bytes) (chains : List (List Upstream))
    (passTo : Nat → Option SockAddr) (d : LocationDirective) : Prop where
  group : ∀ j chain, d.groupTarget names = some j → chains[j]? = some chain →
    ∀ up ∈ chain, (passTo up.node).isSome
  host : ∀ address, d.passTo? gethostbyname names = some address → address.isSome

theorem Resolved.idle {names : List Bytes} {chains : List (List Upstream)}
    {d : LocationDirective} {passTo : Nat → Option SockAddr}
    (noGroup : d.groupTarget names = none) (noHost : d.passTo? gethostbyname names = none) :
    Resolved gethostbyname names chains passTo d where
  group j chain target := by simp [noGroup] at target
  host address target := by simp [noHost] at target

theorem Resolved.mono {names : List Bytes} {chains : List (List Upstream)}
    {d : LocationDirective} {before after : Nat → Option SockAddr}
    (resolved : Resolved gethostbyname names chains before d) (grows : Grows before after) :
    Resolved gethostbyname names chains after d where
  group j chain target here up member := grows _ (resolved.group j chain target here up member)
  host := resolved.host

/-- A pass directive changes the location list as `passEdit` says, and otherwise
only the groups' liveness and the addresses of upstream nodes. -/
theorem pass_eq_ok {d : LocationDirective} {type : Nat} {host : Bytes} {port : Option Int32}
    (isGroup : d.groupTarget s.groupNames = groupNamed s.groupNames host)
    (isHost : d.passTo? gethostbyname s.groupNames =
      match groupNamed s.groupNames host with
      | some _ => none
      | none => some (hostAddress gethostbyname host (port.getD 0)))
    (ran : pass gethostbyname type host (port.getD 0) s = .ok t) :
    ∃ passTo,
      t = { s with
        locations :=
          s.locations.touch true
            (passEdit gethostbyname s.groupNames s.locations.items.isEmpty type host
              (port.getD 0))
        upstreams := markFreed (d.released s.groupNames s.locations) s.upstreams
        passTo := passTo } ∧
      Grows s.passTo passTo ∧ Resolved gethostbyname s.groupNames s.chains passTo d := by
  rcases bind_eq_ok_iff.mp ran with ⟨found, looked, rest⟩
  have target : groupNamed s.groupNames host = found := (isUpstreamGroup_eq_ok looked).symm
  rw [target] at isGroup isHost
  cases found with
  | some group =>
      rcases bind_eq_ok_iff.mp rest with ⟨m, moved, resolved⟩
      have moved_eq := locationToGroup_eq_ok moved
      rcases resolveGroup_eq_ok resolved with ⟨passTo, g, resolved_eq, here, set⟩
      rcases setPassTo_eq_ok set with ⟨grows, addressed⟩
      have released : d.released s.groupNames s.locations =
          if s.locations.items.isEmpty then [] else s.locations.head.group.toList := by
        cases empty : s.locations.items.isEmpty <;>
          simp [LocationDirective.released, isGroup, empty]
      have groups : m.upstreams =
          markFreed (d.released s.groupNames s.locations) s.upstreams := by
        rw [moved_eq, released]
      have chain : s.chains[group]? = some g.servers := by
        have chains : m.chains = s.chains := by
          rw [ParseState.chains, groups, map_markFreed fun _ => rfl, ParseState.chains]
        rw [← chains, ParseState.chains, List.getElem?_map, here, Option.map_some]
      refine ⟨passTo, ?_, ?_, ?_⟩
      · rw [passEdit_of_group target, resolved_eq, ← groups, moved_eq]
      · rw [moved_eq] at grows
        exact grows
      · exact
          { group := by
              intro j other isTarget there
              obtain rfl : group = j := by simpa [isGroup] using isTarget
              obtain rfl : g.servers = other := Option.some.inj (chain.symm.trans there)
              exact addressed
            host := by simp [isHost] }
  | none =>
      have noRelease : d.released s.groupNames s.locations = [] := by
        simp [LocationDirective.released, isGroup]
      refine ⟨s.passTo, ?_, fun _ has => has, ?_⟩
      · rw [passEdit_of_host target, proxyPassToHost_eq_ok rest, noRelease, markFreed_nil]
      · exact
          { group := by simp [isGroup]
            host := by
              intro address isAddress
              obtain rfl : hostAddress gethostbyname host (port.getD 0) = address := by
                simpa [isHost] using isAddress
              simp only [proxyPassToHost] at rest
              split at rest
              · cases rest
              case h_2 resolved => simp [resolved] }

theorem run_tryTargets (targets : List Bytes) (s : ParseState) :
    run (perform gethostbyname) s (targets.map .tryTarget) =
      .ok { s with tryTargets := s.tryTargets ++ targets } := by
  induction targets generalizing s with
  | nil => simp
  | cons target rest ih =>
      rw [List.map_cons, run_cons_eq_ok_iff]
      refine ⟨fTryTarget target s, rfl, ?_⟩
      rw [ih]
      simp [fTryTarget]

theorem fTryFiles_eq {first : Bytes} {rest : List Bytes}
    (targets : s.tryTargets = first :: rest) :
    fTryFiles s = { s with
      tryTargets := []
      locations := (LocationDirective.tryFiles first rest).touch gethostbyname s.groupNames
        s.locations } := by
  simp only [fTryFiles, targets]
  split
  case h_1 loc others pending =>
    rw [LocationDirective.touch, Pending.touch_of_cons pending]
    rfl
  case h_2 empty =>
    rw [LocationDirective.touch, LocationDirective.creates, Pending.touch_true_of_nil empty]
    rfl

theorem released_of_noGroup {names : List Bytes} {d : LocationDirective}
    (noGroup : d.groupTarget names = none) (p : Pending Location) :
    d.released names p = [] := by
  simp [LocationDirective.released, noGroup]

/-- A directive without a target changes the location list and the default type only. -/
theorem effect_of_noTarget {d : LocationDirective} {type : Bytes}
    (noGroup : d.groupTarget s.groupNames = none)
    (noHost : d.passTo? gethostbyname s.groupNames = none)
    (result : t = { s with
      locations := d.touch gethostbyname s.groupNames s.locations
      protocol := d.protocol?.getD s.protocol
      defaultType := type }) :
    ∃ passTo defaultType,
      t = { s with
        locations := d.touch gethostbyname s.groupNames s.locations
        protocol := d.protocol?.getD s.protocol
        upstreams := markFreed (d.released s.groupNames s.locations) s.upstreams
        passTo := passTo
        defaultType := defaultType } ∧
      Grows s.passTo passTo ∧ Resolved gethostbyname s.groupNames s.chains passTo d := by
  refine ⟨s.passTo, type, ?_, fun _ has => has, .idle noGroup noHost⟩
  rw [released_of_noGroup noGroup, markFreed_nil]
  exact result

/-- The effect of a location directive. -/
theorem directive_eq_ok {d : LocationDirective} (noTargets : s.tryTargets = [])
    (ran : run (perform gethostbyname) s d.actions = .ok t) :
    ∃ passTo defaultType,
      t = { s with
        locations := d.touch gethostbyname s.groupNames s.locations
        protocol := d.protocol?.getD s.protocol
        upstreams := markFreed (d.released s.groupNames s.locations) s.upstreams
        passTo := passTo
        defaultType := defaultType } ∧
      Grows s.passTo passTo ∧ Resolved gethostbyname s.groupNames s.chains passTo d := by
  cases d with
  | proxyPass scheme host port =>
      rcases run_cons_eq_ok_iff.mp ran with ⟨m, one, more⟩
      have two := run_singleton_eq_ok_iff.mp more
      have named : m = { s with
          protocol := (LocationDirective.proxyPass scheme host port).protocol?.getD s.protocol } := by
        rw [← Except.ok.inj one]
        cases scheme <;> rfl
      subst named
      obtain ⟨passTo, rfl, resolved⟩ :=
        @pass_eq_ok _ _ _ (.proxyPass scheme host port) _ _ _ rfl rfl two
      exact ⟨passTo, s.defaultType, rfl, resolved⟩
  | fastcgiPass host port =>
      have one := run_singleton_eq_ok_iff.mp ran
      obtain ⟨passTo, rfl, resolved⟩ :=
        @pass_eq_ok _ _ _ (.fastcgiPass host port) _ _ _ rfl rfl one
      exact ⟨passTo, s.defaultType, rfl, resolved⟩
  | expiresOff =>
      rcases run_cons_eq_ok_iff.mp ran with ⟨m, one, last⟩
      cases one
  | root path =>
      have one := run_singleton_eq_ok_iff.mp ran
      exact effect_of_noTarget rfl rfl (fRoot_eq_ok one)
  | expires units =>
      have one := run_singleton_eq_ok_iff.mp ran
      exact effect_of_noTarget rfl rfl (fExpires_eq_ok one)
  | tryFiles first rest =>
      rcases run_append_eq_ok_iff.mp ran with ⟨m, gathered, last⟩
      rw [run_tryTargets, noTargets] at gathered
      obtain rfl := Except.ok.inj gathered
      obtain rfl := Except.ok.inj (run_singleton_eq_ok_iff.mp last)
      apply effect_of_noTarget rfl rfl
      rw [@fTryFiles_eq gethostbyname _ first rest rfl, noTargets]
      rfl
  | defaultType type =>
      have one := run_singleton_eq_ok_iff.mp ran
      apply effect_of_noTarget rfl rfl
      rw [← Except.ok.inj one, LocationDirective.touch_defaultType]
      rfl
  | inert =>
      obtain rfl := Except.ok.inj ran
      apply effect_of_noTarget rfl rfl
      rw [LocationDirective.touch_inert]
      rfl

end OgWebserver.Config

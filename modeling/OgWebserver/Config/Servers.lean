import OgWebserver.Config.Check
import OgWebserver.Config.Groups
import OgWebserver.Config.Sections

/-!
# Servers of a configuration

The server list of a parsed file: one server for each server block, in the
order of the blocks, and the default server behind them.  What a block can pass
to depends on the upstream blocks in front of it.
-/

namespace OgWebserver.Config

open Text Transition

/-- The server blocks of a list of directives, each with the names of the groups
declared in front of it. -/
def serverBlocks (names : List Bytes) :
    List HttpDirective → List (List Bytes × List ServerDirective)
  | [] => []
  | .server body :: rest => (names, body) :: serverBlocks names rest
  | .upstream block :: rest => serverBlocks (names ++ [block.name]) rest
  | _ :: rest => serverBlocks names rest

/-- The server has been built from the block. -/
structure BuiltFrom (gethostbyname : Resolver) (chains : List (List Upstream))
    (passTo : Nat → Option SockAddr) (block : List Bytes × List ServerDirective)
    (server : Server) : Prop where
  known : block.1.length ≤ chains.length
  ports : server.ports ≠ []
  location : ∃ p : Pending Location, p.items = [] ∧ PlainDefault p.dflt ∧
    server.locations = [(touchBody gethostbyname block.1 block.2 p).head]
  resolved : ∀ d ∈ flatBody block.2, Resolved gethostbyname block.1 chains passTo d

variable {gethostbyname : Resolver} {s t : ParseState}

/-- Groups that are declared later do not matter to a directive. -/
theorem Resolved.append {names : List Bytes} {chains more : List (List Upstream)}
    {passTo : Nat → Option SockAddr} {d : LocationDirective} (known : names.length ≤ chains.length)
    (resolved : Resolved gethostbyname names chains passTo d) :
    Resolved gethostbyname names (chains ++ more) passTo d where
  group j chain target here := by
    have bound : j < chains.length := Nat.lt_of_lt_of_le (groupTarget_lt target) known
    rw [List.getElem?_append_left bound] at here
    exact resolved.group j chain target here
  host := resolved.host

theorem BuiltFrom.mono {chains more : List (List Upstream)} {before after : Nat → Option SockAddr}
    {block : List Bytes × List ServerDirective} {server : Server}
    (built : BuiltFrom gethostbyname chains before block server) (grows : Grows before after) :
    BuiltFrom gethostbyname (chains ++ more) after block server where
  known := by
    rw [List.length_append]
    exact Nat.le_add_right_of_le built.known
  ports := built.ports
  location := built.location
  resolved d member := ((built.resolved d member).mono grows).append built.known

/-- The server that a block adds to the list. -/
theorem server_built {body : List ServerDirective} (between : Between s)
    (ran : run (perform gethostbyname) s (serverActions body) = .ok t) :
    ∃ server, t.serverList = s.serverList ++ [server] ∧ t.groupNames = s.groupNames ∧
      t.chains = s.chains ∧ Grows s.passTo t.passTo ∧
      BuiltFrom gethostbyname s.chains t.passTo (s.groupNames, body) server := by
  rcases server_eq_ok between ran with ⟨_, m, built, core⟩
  have list : m.locations = touchBody gethostbyname s.groupNames body s.locations :=
    congrArg Core.locations built.core
  have short : m.locations.items.length ≤ 1 := by
    rw [list]
    exact length_touchBody_le (by simp [between.noItems])
  have single := locations_serverOf short (built.idle.rooted _ (Pending.head_mem_toList _))
  have passed : t.passTo = m.passTo := congrArg Core.passTo core
  have upstreams : t.upstreams =
      markFreed (freedBy s.groupNames s.locations.head.group (flatBody body)) s.upstreams :=
    (congrArg Core.upstreams core).trans (congrArg Core.upstreams built.core)
  refine ⟨serverOf m, congrArg Core.serverList core, ?_, ?_, passed ▸ built.grows, ?_⟩
  · rw [ParseState.groupNames, upstreams, map_markFreed fun _ => rfl, ParseState.groupNames]
  · rw [ParseState.chains, upstreams, map_markFreed fun _ => rfl, ParseState.chains]
  · exact
      { known := by simp [ParseState.groupNames, ParseState.chains]
        ports := Pending.inOrder_ne_nil m.ports
        location := ⟨s.locations, between.noItems, between.plain, by rw [single, list]⟩
        resolved := passed ▸ built.resolved }

/-- The servers that the directives of an http section add, and what they leave
of the groups. -/
theorem servers_eq_ok {ds : List HttpDirective} (between : Between s)
    (ran : run (perform gethostbyname) s (ds.flatMap HttpDirective.actions) = .ok t) :
    (∃ more, t.chains = s.chains ++ more) ∧ Grows s.passTo t.passTo ∧
      ∃ servers, t.serverList = s.serverList ++ servers ∧
        List.Forall₂ (BuiltFrom gethostbyname t.chains t.passTo)
          (serverBlocks s.groupNames ds) servers := by
  induction ds generalizing s with
  | nil =>
      obtain rfl := Except.ok.inj ran
      exact ⟨⟨[], by simp⟩, fun _ has => has, [], by simp, .nil⟩
  | cons d rest ih =>
      rw [List.flatMap_cons] at ran
      rcases run_append_eq_ok_iff.mp ran with ⟨m, one, more⟩
      rcases ih (between.httpDirective one) more with ⟨⟨later, chains⟩, grows, servers, list, built⟩
      cases d with
      | server body =>
          obtain ⟨server, midList, midNames, midChains, midGrows, here⟩ := server_built between one
          rw [midChains] at chains
          rw [midNames] at built
          rw [midList, List.append_assoc] at list
          refine ⟨⟨later, chains⟩, fun n has => grows n (midGrows n has), server :: servers, list,
            .cons ?_ built⟩
          rw [chains]
          exact here.mono grows
      | upstream block =>
          rcases upstream_eq_ok one with ⟨_, core⟩
          have midList : m.serverList = s.serverList := congrArg Core.serverList core
          have midPassTo : m.passTo = s.passTo := congrArg Core.passTo core
          rcases upstreams_of_block one with ⟨_, midNames, midChains⟩
          rw [midChains, List.append_assoc] at chains
          rw [midPassTo] at grows
          rw [midList] at list
          rw [midNames] at built
          exact ⟨⟨_, chains⟩, grows, servers, list, built⟩
      | index | defaultType | accessLog | errorLog | sslCertificate | sslCertificateKey | inert =>
          have core := core_of_quiet_run (HttpDirective.quiet_of_idle rfl rfl) one
          have midList : m.serverList = s.serverList := congrArg Core.serverList core
          have midPassTo : m.passTo = s.passTo := congrArg Core.passTo core
          have midUpstreams : m.upstreams = s.upstreams := congrArg Core.upstreams core
          have midChains : m.chains = s.chains := by
            rw [ParseState.chains, midUpstreams, ParseState.chains]
          have midNames : m.groupNames = s.groupNames := by
            rw [ParseState.groupNames, midUpstreams, ParseState.groupNames]
          rw [midChains] at chains
          rw [midPassTo] at grows
          rw [midList] at list
          rw [midNames] at built
          exact ⟨⟨later, chains⟩, grows, servers, list, built⟩

/-- The server list of a parsed file: the blocks' servers, and a default server
whose only location is the default one. -/
theorem parse_servers {file : ConfigFile} (parsed : file.parse gethostbyname = .ok t) :
    ∃ servers dflt, t.serverList = servers ++ [dflt] ∧
      List.Forall₂ (BuiltFrom gethostbyname t.chains t.passTo)
        (serverBlocks [] file.directives) servers ∧
      dflt.ports ≠ [] ∧ ∃ loc, PlainDefault loc ∧ dflt.locations = [loc] := by
  rcases parse_eq_ok parsed with ⟨s, m, between, noGroups, _, noServers, inner, rfl⟩
  rcases servers_eq_ok between inner with ⟨_, _, servers, list, built⟩
  rw [ParseState.groupNames, noGroups] at built
  rw [noServers, List.nil_append] at list
  have after := between.httpDirectives inner
  refine ⟨servers, defaultServerOf m, ?_, built, ?_, m.locations.dflt, after.plain, ?_⟩
  · rw [← list]
    rfl
  · simp [defaultServerOf, Pending.toList]
  · simp [defaultServerOf, Pending.toList, after.noItems]

/-- What holds of every server that `f_server` builds holds of the servers in front of
the default one. -/
theorem forall_servers_of_run {P : Server → Prop} (built : ∀ m, P (serverOf m))
    {ds : List HttpDirective} (between : Between s) (start : ∀ server ∈ s.serverList, P server)
    (ran : run (perform gethostbyname) s (ds.flatMap HttpDirective.actions) = .ok t) :
    ∀ server ∈ t.serverList, P server := by
  induction ds generalizing s with
  | nil =>
      obtain rfl := Except.ok.inj ran
      exact start
  | cons d rest ih =>
      rw [List.flatMap_cons] at ran
      rcases run_append_eq_ok_iff.mp ran with ⟨m, one, more⟩
      apply ih (between.httpDirective one) _ more
      cases d with
      | server body =>
          rcases server_eq_ok between one with ⟨_, inner, _, core⟩
          have list : m.serverList = s.serverList ++ [serverOf inner] :=
            congrArg Core.serverList core
          rw [list]
          intro server member
          rcases List.mem_append.mp member with member | member
          · exact start server member
          · obtain rfl := List.mem_singleton.mp member
            exact built inner
      | upstream block =>
          have list : m.serverList = s.serverList :=
            congrArg Core.serverList (upstream_eq_ok one).2
          rwa [list]
      | index | defaultType | accessLog | errorLog | sslCertificate | sslCertificateKey | inert =>
          have list : m.serverList = s.serverList :=
            congrArg Core.serverList (core_of_quiet_run (HttpDirective.quiet_of_idle rfl rfl) one)
          rwa [list]

/-- No server of a parsed configuration has its own TLS flag set. -/
theorem tls_of_parse {file : ConfigFile} (parsed : file.parse gethostbyname = .ok t) :
    ∀ server ∈ t.serverList, server.tls = false := by
  rcases parse_eq_ok parsed with ⟨s, m, between, _, _, noServers, inner, rfl⟩
  have before := forall_servers_of_run (P := fun server => server.tls = false) (fun _ => rfl)
    between (by simp [noServers]) inner
  intro server member
  rcases List.mem_append.mp member with member | member
  · exact before server member
  · obtain rfl := List.mem_singleton.mp member
    rfl

/-- The number of servers in front of the default server. -/
theorem length_serverBlocks (names : List Bytes) (ds : List HttpDirective) :
    (serverBlocks names ds).length = (ds.filterMap HttpDirective.server?).length := by
  induction ds generalizing names with
  | nil => rfl
  | cons d rest ih =>
      cases d <;> simp [serverBlocks, List.filterMap_cons, HttpDirective.server?, ih]

/-- The servers in front of `f_http`, one for each block, all with ports. -/
theorem servers_of_reached {main : List MainDirective} {before : List HttpDirective}
    (reached : Reached gethostbyname main before t) :
    t.serverList.length = (before.filterMap HttpDirective.server?).length ∧
      ∀ server ∈ t.serverList, server.ports ≠ [] := by
  rcases run_append_eq_ok_iff.mp reached with ⟨s, head, rest⟩
  have quiet : ∀ a ∈ main.flatMap MainDirective.actions, a.quiet = true := by
    intro a member
    rcases List.mem_flatMap.mp member with ⟨d, _, inside⟩
    exact d.quiet a inside
  have noServers : s.serverList = [] := congrArg Core.serverList (core_of_quiet_run quiet head)
  rcases servers_eq_ok (Between.initial.of_quiet quiet head) rest with
    ⟨_, _, servers, list, built⟩
  rw [noServers, List.nil_append] at list
  subst list
  rw [← built.length_eq, length_serverBlocks]
  exact ⟨rfl, forall_of_forall₂ (fun _ _ of => of.ports) built⟩

end OgWebserver.Config

import Mathlib.Data.List.Forall2
import OgWebserver.Config.Block

/-!
# Upstream groups of a configuration

All upstream blocks collect their servers in one static chain, and a group's
list is the chain as it stands when its block closes.  The file computes the
groups of any parsed configuration, and determines when each group holds just
the servers of its own block.
-/

namespace OgWebserver.Config

open Text Transition

/-! ## Entries -/

/-- The address an upstream node stands for. -/
def Upstream.hostPort (up : Upstream) : Bytes × Int32 :=
  (up.host, up.port)

/-- The address of the nodes of an entry. -/
def UpstreamServer.hostPort (up : UpstreamServer) : Bytes × Int32 :=
  (up.host, up.port.getD 8080)

/-- How many nodes an entry makes: as many as its weight, which is -1 for a backup
server. -/
def UpstreamServer.weight (up : UpstreamServer) : Nat :=
  up.share.value.toInt.toNat

/-- The nodes an entry makes. -/
def UpstreamServer.made (up : UpstreamServer) : List (Bytes × Int32) :=
  List.replicate up.weight up.hostPort

/-- The nodes an upstream block makes. -/
def UpstreamBlock.made (block : UpstreamBlock) : List (Bytes × Int32) :=
  block.entries.flatMap UpstreamServer.made

/-- How often an entry is to occur: as its weight says, and once without a weight. -/
def Share.times : Share → Nat
  | single => 1
  | weight n => n.toInt.toNat
  | backup => 1

/-- The nodes an entry asks for. -/
def UpstreamServer.wanted (up : UpstreamServer) : List (Bytes × Int32) :=
  List.replicate up.share.times up.hostPort

/-- The nodes an upstream block asks for. -/
def UpstreamBlock.wanted (block : UpstreamBlock) : List (Bytes × Int32) :=
  block.entries.flatMap UpstreamServer.wanted

/-- No entry of a block is a backup server. -/
def UpstreamBlock.noBackup (block : UpstreamBlock) : Prop :=
  ∀ up ∈ block.entries, up.share ≠ .backup

/-- Only a backup server is asked for and not made. -/
theorem UpstreamServer.length_wanted (up : UpstreamServer) :
    up.wanted.length = up.made.length + if up.share = .backup then 1 else 0 := by
  rcases up with ⟨host, port, share⟩
  rw [UpstreamServer.wanted, UpstreamServer.made, List.length_replicate, List.length_replicate]
  cases share with
  | single | backup => rfl
  | weight n => simp [Share.times, UpstreamServer.weight, Share.value]

theorem UpstreamServer.wanted_eq_made {up : UpstreamServer} (regular : up.share ≠ .backup) :
    up.wanted = up.made := by
  rcases up with ⟨host, port, share⟩
  cases share with
  | single | weight => rfl
  | backup => exact absurd rfl regular

/-- A block makes as many nodes as it asks for just without backup servers. -/
theorem length_made_iff {entries : List UpstreamServer} :
    (entries.flatMap UpstreamServer.made).length =
        (entries.flatMap UpstreamServer.wanted).length ↔
      ∀ up ∈ entries, up.share ≠ .backup := by
  have below : ∀ entries : List UpstreamServer,
      (entries.flatMap UpstreamServer.made).length ≤
        (entries.flatMap UpstreamServer.wanted).length := by
    intro entries
    induction entries with
    | nil => exact le_refl _
    | cons up rest ih =>
        have head := up.length_wanted
        rw [List.flatMap_cons, List.flatMap_cons, List.length_append, List.length_append]
        omega
  induction entries with
  | nil => simp
  | cons up rest ih =>
      have head := up.length_wanted
      have tail := below rest
      rw [List.forall_mem_cons, ih.symm, List.flatMap_cons, List.flatMap_cons, List.length_append,
        List.length_append]
      by_cases backup : up.share = .backup
      · rw [if_pos backup] at head
        simp only [backup, ne_eq, not_true_eq_false, false_and, iff_false]
        omega
      · rw [if_neg backup] at head
        simp only [backup, ne_eq, not_false_eq_true, true_and]
        omega

theorem UpstreamBlock.wanted_eq_made {block : UpstreamBlock} (regular : block.noBackup) :
    block.wanted = block.made :=
  List.flatMap_congr fun up member => UpstreamServer.wanted_eq_made (regular up member)

/-- The weight that entries give to an address together. -/
def weightOf (entries : List UpstreamServer) (address : Bytes × Int32) : Nat :=
  ((entries.filter fun up => up.hostPort = address).map UpstreamServer.weight).sum

def totalWeight (entries : List UpstreamServer) : Nat :=
  (entries.map UpstreamServer.weight).sum

theorem count_made (entries : List UpstreamServer) (address : Bytes × Int32) :
    (entries.flatMap UpstreamServer.made).count address = weightOf entries address := by
  induction entries with
  | nil => rfl
  | cons up rest ih =>
      rw [weightOf] at ih ⊢
      rw [List.flatMap_cons, List.count_append, ih, UpstreamServer.made, List.count_replicate]
      by_cases same : up.hostPort = address
      · simp [same]
      · simp [same]

theorem length_made (entries : List UpstreamServer) :
    (entries.flatMap UpstreamServer.made).length = totalWeight entries := by
  simp [List.length_flatMap, totalWeight, UpstreamServer.made]

theorem map_addUpstreams (host : Bytes) (port weight : Int32) (w : Nat)
    (servers : List Upstream) :
    (addUpstreams host port weight w servers).map Upstream.hostPort =
      List.replicate w (host, port) ++ servers.map Upstream.hostPort := by
  induction w generalizing servers with
  | zero => rfl
  | succ w ih =>
      rw [addUpstreams, ih, List.map_cons, List.replicate_succ', List.append_assoc]
      rfl

/-- The chain grows at the front by what the entries ask for. -/
theorem map_addEntries (entries : List UpstreamServer) (servers : List Upstream) :
    (addEntries entries servers).map Upstream.hostPort =
      (entries.flatMap UpstreamServer.made).reverse ++ servers.map Upstream.hostPort := by
  induction entries generalizing servers with
  | nil => rfl
  | cons up rest ih =>
      apply (ih _).trans
      rw [map_addUpstreams, List.flatMap_cons, List.reverse_append, List.append_assoc,
        UpstreamServer.made, List.reverse_replicate]
      rfl

theorem addEntries_eq_nil {entries : List UpstreamServer} {servers : List Upstream} :
    addEntries entries servers = [] ↔
      entries.flatMap UpstreamServer.made = [] ∧ servers = [] := by
  rw [← List.map_eq_nil_iff (f := Upstream.hostPort), map_addEntries]
  simp

/-! ## The groups of a list of directives -/

/-- The groups that blocks declare, the chain being `servers` in front of them. -/
def declared (servers : List Upstream) : List UpstreamBlock → List Upstreams
  | [] => []
  | block :: rest =>
      .new block.name (addEntries block.entries servers) ::
        declared (addEntries block.entries servers) rest

/-- The chain after several blocks. -/
def chainAfter (servers : List Upstream) (blocks : List UpstreamBlock) : List Upstream :=
  blocks.foldl (fun servers block => addEntries block.entries servers) servers

/-- The location directives of a server block, those of its sections included. -/
def flatBody (body : List ServerDirective) : List LocationDirective :=
  body.flatMap ServerDirective.locationDirectives

/-- The groups that the server blocks among the directives free. -/
def freedIn (names : List Bytes) : List HttpDirective → List Nat
  | [] => []
  | .server body :: rest => freedBy names none (flatBody body) ++ freedIn names rest
  | .upstream block :: rest => freedIn (names ++ [block.name]) rest
  | _ :: rest => freedIn names rest

/-- No server block passes to groups declared before it more than once. -/
def SinglePasses (names : List Bytes) : List HttpDirective → Prop
  | [] => True
  | .server body :: rest =>
      ((flatBody body).filterMap fun d => d.groupTarget names).length ≤ 1 ∧
        SinglePasses names rest
  | .upstream block :: rest => SinglePasses (names ++ [block.name]) rest
  | _ :: rest => SinglePasses names rest

theorem groupNamed_lt {names : List Bytes} {host : Bytes} {j : Nat}
    (named : groupNamed names host = some j) : j < names.length := by
  rcases List.findIdx?_eq_some_iff_findIdx_eq.mp named with ⟨bound, _⟩
  exact bound

theorem groupTarget_lt {names : List Bytes} {d : LocationDirective} {j : Nat}
    (target : d.groupTarget names = some j) : j < names.length := by
  cases d with
  | proxyPass | fastcgiPass => exact groupNamed_lt target
  | root | expires | expiresOff | tryFiles | defaultType | inert => cases target

theorem lt_of_mem_freedBy {names : List Bytes} {ds : List LocationDirective} {j : Nat}
    (freed : j ∈ freedBy names none ds) : j < names.length := by
  rcases List.mem_filterMap.mp (List.dropLast_subset _ freed) with ⟨d, _, target⟩
  exact groupTarget_lt target

theorem lt_of_mem_freedIn {names : List Bytes} {ds : List HttpDirective} {j : Nat}
    (freed : j ∈ freedIn names ds) :
    j < names.length + (ds.filterMap HttpDirective.upstream?).length := by
  induction ds generalizing names with
  | nil => cases freed
  | cons d rest ih =>
      cases d with
      | server body =>
          rcases List.mem_append.mp freed with freed | freed
          · exact Nat.lt_add_right _ (lt_of_mem_freedBy freed)
          · exact ih freed
      | upstream block =>
          have bound := ih freed
          rw [List.length_append, List.length_singleton] at bound
          have grown : ((HttpDirective.upstream block :: rest).filterMap
              HttpDirective.upstream?).length =
                (rest.filterMap HttpDirective.upstream?).length + 1 := rfl
          omega
      | index | defaultType | accessLog | errorLog | sslCertificate | sslCertificateKey | inert =>
          exact ih freed

theorem freedIn_eq_nil {names : List Bytes} {ds : List HttpDirective} :
    freedIn names ds = [] ↔ SinglePasses names ds := by
  induction ds generalizing names with
  | nil => simp [freedIn, SinglePasses]
  | cons d rest ih =>
      cases d with
      | server body =>
          have here : freedBy names none (flatBody body) = [] ↔
              ((flatBody body).filterMap fun d => d.groupTarget names).length ≤ 1 := by
            rw [← List.length_eq_zero_iff, freedBy, List.length_dropLast]
            simp only [Option.toList_none, List.nil_append]
            omega
          rw [freedIn, SinglePasses, List.append_eq_nil_iff, ih, here]
      | upstream block => exact ih
      | index | defaultType | accessLog | errorLog | sslCertificate | sslCertificateKey | inert =>
          exact ih

variable {gethostbyname : Resolver} {s t : ParseState}

theorem markFreed_append {freed : List Nat} {first second : List Upstreams}
    (early : ∀ i ∈ freed, i < first.length) :
    markFreed freed (first ++ second) = markFreed freed first ++ second := by
  apply List.ext_getElem?
  intro i
  have length : (markFreed freed first).length = first.length := List.length_mapIdx
  rcases Nat.lt_or_ge i first.length with inFirst | behind
  · rw [List.getElem?_append_left (by rwa [length])]
    simp only [markFreed, List.getElem?_mapIdx, List.getElem?_append_left inFirst]
  · rw [List.getElem?_append_right (by rwa [length]), length]
    have fresh : i ∉ freed := fun member => Nat.not_lt.mpr behind (early i member)
    simp only [markFreed, List.getElem?_mapIdx, List.getElem?_append_right behind, fresh,
      if_false, Option.map_id']

/-- The groups and the chain after the directives of an http section. -/
theorem groups_eq_ok {ds : List HttpDirective} (between : Between s)
    (ran : run (perform gethostbyname) s (ds.flatMap HttpDirective.actions) = .ok t) :
    t.upstreams = markFreed (freedIn s.groupNames ds)
        (s.upstreams ++ declared s.servers (ds.filterMap HttpDirective.upstream?)) ∧
      t.servers = chainAfter s.servers (ds.filterMap HttpDirective.upstream?) := by
  induction ds generalizing s with
  | nil =>
      obtain rfl := Except.ok.inj ran
      simp [freedIn, declared, chainAfter]
  | cons d rest ih =>
      rw [List.flatMap_cons] at ran
      rcases run_append_eq_ok_iff.mp ran with ⟨m, one, more⟩
      rcases ih (between.httpDirective one) more with ⟨upstreams, servers⟩
      cases d with
      | server body =>
          rcases server_eq_ok between one with ⟨_, n, built, core⟩
          have noGroup : s.locations.head.group = none := by
            rw [Pending.head, between.noItems]
            exact between.noGroup
          have midServers : m.servers = s.servers :=
            (congrArg Core.servers core).trans (congrArg Core.servers built.core)
          have midUpstreams : m.upstreams =
              markFreed (freedBy s.groupNames none (flatBody body)) s.upstreams := by
            rw [← noGroup]
            exact (congrArg Core.upstreams core).trans (congrArg Core.upstreams built.core)
          have midNames : m.groupNames = s.groupNames := by
            rw [ParseState.groupNames, midUpstreams, map_markFreed fun _ => rfl,
              ParseState.groupNames]
          have early : ∀ i ∈ freedBy s.groupNames none (flatBody body),
              i < s.upstreams.length := by
            intro i freed
            simpa [ParseState.groupNames] using lt_of_mem_freedBy freed
          rw [midNames, midUpstreams, midServers, ← markFreed_append early,
            markFreed_markFreed] at upstreams
          rw [midServers] at servers
          exact ⟨upstreams, servers⟩
      | upstream block =>
          rcases upstream_eq_ok one with ⟨_, core⟩
          have midServers : m.servers = addEntries block.entries s.servers :=
            congrArg Core.servers core
          rcases upstreams_of_block one with ⟨midUpstreams, midNames, _⟩
          rw [midNames, midUpstreams, midServers, List.append_assoc] at upstreams
          rw [midServers] at servers
          exact ⟨upstreams, servers⟩
      | index | defaultType | accessLog | errorLog | sslCertificate | sslCertificateKey | inert =>
          have core := core_of_quiet_run (HttpDirective.quiet_of_idle rfl rfl) one
          have midServers : m.servers = s.servers := congrArg Core.servers core
          have midUpstreams : m.upstreams = s.upstreams := congrArg Core.upstreams core
          rw [ParseState.groupNames, midUpstreams, midServers] at upstreams
          rw [midServers] at servers
          exact ⟨upstreams, servers⟩

/-! ## The groups of a configuration file -/

/-- The upstream blocks of a configuration file. -/
def ConfigFile.blocks (file : ConfigFile) : List UpstreamBlock :=
  file.directives.filterMap HttpDirective.upstream?

/-- The group recorded for a block: alive, and with the servers of that block,
each as often as it is asked for. -/
structure GroupOf (block : UpstreamBlock) (group : Upstreams) : Prop where
  name : group.name = block.name
  alive : group.freed = false
  servers : (group.servers.map Upstream.hostPort).Perm block.wanted

/-- The groups recorded for blocks: in declaration order, and no node of one
block in the group of another. -/
structure GroupsOf (blocks : List UpstreamBlock) (groups : List Upstreams) : Prop where
  own : List.Forall₂ GroupOf blocks groups
  apart : groups.Pairwise fun one other => one.servers.Disjoint other.servers

theorem parse_eq_ok {file : ConfigFile} (parsed : file.parse gethostbyname = .ok t) :
    ∃ s m, Between s ∧ s.upstreams = [] ∧ s.servers = [] ∧ s.serverList = [] ∧
      run (perform gethostbyname) s (file.directives.flatMap HttpDirective.actions) = .ok m ∧
      t = fHttp m := by
  rcases run_append_eq_ok_iff.mp parsed with ⟨s, head, rest⟩
  rcases run_append_eq_ok_iff.mp rest with ⟨m, inner, last⟩
  have one := run_singleton_eq_ok_iff.mp last
  obtain rfl := Except.ok.inj one
  have quiet : ∀ a ∈ file.main.flatMap MainDirective.actions, a.quiet = true := by
    intro a member
    rcases List.mem_flatMap.mp member with ⟨d, _, inside⟩
    exact d.quiet a inside
  have core := core_of_quiet_run quiet head
  exact ⟨s, m, Between.initial.of_quiet quiet head, congrArg Core.upstreams core,
    congrArg Core.servers core, congrArg Core.serverList core, inner, rfl⟩

/-- The groups of a parsed configuration. -/
theorem parse_groups {file : ConfigFile} (parsed : file.parse gethostbyname = .ok t) :
    t.upstreams = markFreed (freedIn [] file.directives) (declared [] file.blocks) := by
  rcases parse_eq_ok parsed with ⟨s, m, between, noGroups, noServers, _, inner, rfl⟩
  rcases groups_eq_ok between inner with ⟨upstreams, _⟩
  rw [ParseState.groupNames, noGroups, noServers] at upstreams
  exact upstreams

theorem length_declared (servers : List Upstream) (blocks : List UpstreamBlock) :
    (declared servers blocks).length = blocks.length := by
  induction blocks generalizing servers with
  | nil => rfl
  | cons block rest ih => exact congrArg (· + 1) (ih _)

/-- A declared group holds the chain as it stands when its block closes. -/
theorem getElem?_declared (servers : List Upstream) (blocks : List UpstreamBlock) (j : Nat) :
    (declared servers blocks)[j]? =
      blocks[j]?.map fun block => .new block.name (chainAfter servers (blocks.take (j + 1))) := by
  induction blocks generalizing servers j with
  | nil => rfl
  | cons block rest ih =>
      cases j with
      | zero => rfl
      | succ j =>
          rw [declared, List.getElem?_cons_succ, ih, List.getElem?_cons_succ]
          rfl

theorem map_chainAfter (servers : List Upstream) (blocks : List UpstreamBlock) :
    (chainAfter servers blocks).map Upstream.hostPort =
      ((blocks.flatMap UpstreamBlock.entries).flatMap UpstreamServer.made).reverse ++
        servers.map Upstream.hostPort := by
  induction blocks generalizing servers with
  | nil => rfl
  | cons block rest ih =>
      apply (ih _).trans
      rw [map_addEntries, List.flatMap_cons, List.flatMap_append, List.reverse_append,
        List.append_assoc]

theorem chainAfter_eq_nil {servers : List Upstream} {blocks : List UpstreamBlock} :
    chainAfter servers blocks = [] ↔ servers = [] ∧ ∀ block ∈ blocks, block.made = [] := by
  induction blocks generalizing servers with
  | nil => simp [chainAfter]
  | cons block rest ih =>
      have step : chainAfter servers (block :: rest) =
          chainAfter (addEntries block.entries servers) rest := rfl
      rw [step, ih, addEntries_eq_nil, List.forall_mem_cons, ← UpstreamBlock.made]
      tauto

/-- No declared group is left out of a freeing. -/
theorem alive_markFreed {freed : List Nat} {upstreams : List Upstreams}
    (early : ∀ i ∈ freed, i < upstreams.length)
    (alive : ∀ g ∈ upstreams, g.freed = false) :
    (∀ g ∈ markFreed freed upstreams, g.freed = false) ↔ freed = [] := by
  constructor
  · intro all
    apply List.eq_nil_iff_forall_not_mem.mpr
    intro i member
    have marked : (markFreed freed upstreams)[i]? =
        some { upstreams.get ⟨i, early i member⟩ with freed := true } := by
      simp [markFreed, early i member, member]
    exact absurd (all _ (List.mem_of_getElem? marked)) (by simp)
  · rintro rfl
    simpa using alive

theorem alive_declared {servers : List Upstream} {blocks : List UpstreamBlock} :
    ∀ g ∈ declared servers blocks, g.freed = false := by
  induction blocks generalizing servers with
  | nil => simp [declared]
  | cons block rest ih =>
      intro g member
      rcases List.mem_cons.mp member with rfl | member
      · rfl
      · exact ih g member

theorem alive_of_groupOf {blocks : List UpstreamBlock} {upstreams : List Upstreams}
    (groups : List.Forall₂ GroupOf blocks upstreams) : ∀ g ∈ upstreams, g.freed = false := by
  induction groups with
  | nil => simp
  | cons group _ ih => exact List.forall_mem_cons.mpr ⟨group.alive, ih⟩

/-- From the empty chain, a block's group is what the block asks for just if none
of its servers is a backup. -/
theorem groupOf_new_iff {block : UpstreamBlock} :
    GroupOf block (.new block.name (addEntries block.entries [])) ↔ block.noBackup := by
  have nodes : (addEntries block.entries []).map Upstream.hostPort = block.made.reverse := by
    rw [map_addEntries, List.map_nil, List.append_nil, UpstreamBlock.made]
  constructor
  · intro group
    have lengths := group.servers.length_eq
    rw [Upstreams.new, nodes, List.length_reverse] at lengths
    exact length_made_iff.mp lengths
  · intro regular
    refine ⟨rfl, rfl, ?_⟩
    rw [Upstreams.new, nodes, UpstreamBlock.wanted_eq_made regular]
    exact List.reverse_perm _

theorem subset_addUpstreams (host : Bytes) (port weight : Int32) (w : Nat)
    (servers : List Upstream) : servers ⊆ addUpstreams host port weight w servers := by
  induction w generalizing servers with
  | zero => exact List.Subset.refl _
  | succ w ih => exact List.Subset.trans (List.subset_cons_self _ _) (ih _)

/-- Every later group still holds the chain of the earlier ones. -/
theorem subset_addEntries (entries : List UpstreamServer) (servers : List Upstream) :
    servers ⊆ addEntries entries servers := by
  induction entries generalizing servers with
  | nil => exact List.Subset.refl _
  | cons up rest ih => exact List.Subset.trans (subset_addUpstreams _ _ _ _ _) (ih _)

theorem groupsOf_declared_iff {blocks : List UpstreamBlock} :
    GroupsOf blocks (declared [] blocks) ↔
      (∀ block ∈ blocks, block.noBackup) ∧ ∀ block ∈ blocks.dropLast, block.made = [] := by
  induction blocks with
  | nil => exact ⟨fun _ => by simp, fun _ => ⟨.nil, .nil⟩⟩
  | cons block rest ih =>
      cases rest with
      | nil =>
          constructor
          · intro groups
            simpa using groupOf_new_iff.mp (List.forall₂_cons.mp groups.own).1
          · rintro ⟨regular, _⟩
            have group := groupOf_new_iff.mpr (regular block (List.mem_singleton_self _))
            exact ⟨.cons group .nil, List.pairwise_singleton _ _⟩
      | cons next others =>
          have first : (block :: next :: others).dropLast = block :: (next :: others).dropLast :=
            rfl
          have made_iff : addEntries block.entries [] = [] ↔ block.made = [] := by
            simp [addEntries_eq_nil, UpstreamBlock.made]
          rw [first, List.forall_mem_cons (a := block), List.forall_mem_cons (a := block)]
          constructor
          · rintro ⟨own, apart⟩
            rcases List.forall₂_cons.mp own with ⟨group, own⟩
            rcases List.pairwise_cons.mp apart with ⟨alone, apart⟩
            -- The next group holds this one's nodes too.
            have empty : addEntries block.entries [] = [] := by
              apply List.eq_nil_iff_forall_not_mem.mpr
              intro node member
              exact alone _ List.mem_cons_self member (subset_addEntries _ _ member)
            rw [empty] at own apart
            rcases ih.mp ⟨own, apart⟩ with ⟨regular, silent⟩
            exact ⟨⟨groupOf_new_iff.mp group, regular⟩, made_iff.mp empty, silent⟩
          · rintro ⟨⟨head, regular⟩, none, silent⟩
            have empty := made_iff.mpr none
            have later := ih.mpr ⟨regular, silent⟩
            rw [declared, empty]
            refine ⟨.cons ?_ later.own, List.pairwise_cons.mpr ⟨?_, later.apart⟩⟩
            · have group := groupOf_new_iff.mpr head
              rwa [empty] at group
            · intro other _ node member
              cases member

/-- In a parsed configuration, the groups are in declaration order and each one
holds just the servers of its own block, as often as their weights say, exactly
if there are no backup servers, only the last upstream block has servers of
positive weight, and no server block passes to a group twice. -/
theorem parse_groups_exact_iff {file : ConfigFile} (parsed : file.parse gethostbyname = .ok t) :
    GroupsOf file.blocks t.upstreams ↔
      (∀ block ∈ file.blocks, block.noBackup) ∧
        (∀ block ∈ file.blocks.dropLast, block.made = []) ∧ SinglePasses [] file.directives := by
  have early : ∀ i ∈ freedIn [] file.directives, i < (declared [] file.blocks).length := by
    intro i freed
    rw [length_declared]
    simpa [ConfigFile.blocks] using lt_of_mem_freedIn freed
  have aliveIff := alive_markFreed early alive_declared
  rw [parse_groups parsed, ← freedIn_eq_nil]
  constructor
  · intro groups
    have noneFreed := aliveIff.mp (alive_of_groupOf groups.own)
    rw [noneFreed, markFreed_nil, groupsOf_declared_iff] at groups
    exact ⟨groups.1, groups.2, noneFreed⟩
  · rintro ⟨regular, silent, noneFreed⟩
    rw [noneFreed, markFreed_nil, groupsOf_declared_iff]
    exact ⟨regular, silent⟩

/-- The http section of `test/upstream-test.conf`. -/
def upstreamTest : ConfigFile :=
  { main := []
    first := .upstream
      { name := bytes "backend"
        first := { host := bytes "backend1.example.com", port := none, share := .single }
        rest :=
          [{ host := bytes "backend2.example.com", port := some 80, share := .single },
           { host := bytes "backend3.example.com", port := some 80, share := .weight 5 },
           { host := bytes "backend4.example.com", port := none, share := .weight 2 },
           { host := bytes "127.0.0.1", port := none, share := .backup }] }
    rest :=
      [.server
        [.location
          { matchType := .prefixMatch
            match_ := bytes "/"
            first := .proxyPass .http1 (bytes "backend") none
            rest := [] }],
       .upstream
        { name := bytes "backend2"
          first := { host := bytes "127.0.0.1", port := some 8081, share := .single }
          rest := [{ host := bytes "127.0.0.1", port := some 8082, share := .weight 2 }] },
       .server
        [.listen (.namePort (bytes "www.halsoft.com") 8080) [],
         .location
          { matchType := .prefixMatch
            match_ := bytes "/"
            first := .proxyPass .http1 (bytes "backend2") none
            rest := [] }]] }

/-- The first group of the test configuration lacks its backup server, and the
second also has the nine nodes of the first. -/
theorem upstreamTest_groups_mixed :
    ∃ t, upstreamTest.parse (fun _ => some 2130706433) = .ok t ∧
      t.upstreams.map (fun g => g.servers.length) = [9, 12] ∧
      upstreamTest.blocks.map (fun block => block.wanted.length) = [10, 3] ∧
      ¬ GroupsOf upstreamTest.blocks t.upstreams := by
  refine ⟨_, rfl, by decide, by decide, fun groups => ?_⟩
  rcases List.forall₂_cons.mp groups.own with ⟨_, rest⟩
  have lengths := (List.forall₂_cons.mp rest).1.servers.length_eq
  exact absurd lengths (by decide)

/-- A configuration with a single upstream block. -/
def singleGroup : ConfigFile :=
  { main := []
    first := .upstream
      { name := bytes "backend"
        first := { host := bytes "127.0.0.1", port := some 8081, share := .weight 2 }
        rest := [] }
    rest := [] }

theorem parse_groups_exact_iff_single :
    ∃ t, singleGroup.parse (fun _ => none) = .ok t ∧
      GroupsOf singleGroup.blocks t.upstreams :=
  ⟨_, rfl,
    (@parse_groups_exact_iff (fun _ => none) _ singleGroup rfl).mpr
      ⟨by simp [singleGroup, ConfigFile.blocks, ConfigFile.directives, HttpDirective.upstream?,
        UpstreamBlock.noBackup, UpstreamBlock.entries], by decide, trivial⟩⟩

end OgWebserver.Config

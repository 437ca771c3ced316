import Mathlib.Data.List.Induction
import OgWebserver.Config.Check
import OgWebserver.Config.Servers
import OgWebserver.Request.Grounded
import OgWebserver.Request.Passes

/-!
# Soundness of the configuration check

Whether the handlers find what they dereference depends on the directives of
each server block only: on the one that makes its location, on the ones behind
it, and on what the upstream blocks put in the last group it passes to.  The
file reads these off the syntax and determines which accepted configurations
are safe to serve.
-/

namespace OgWebserver.Request

open Text Config Transition

variable {gethostbyname : Resolver} {names : List Bytes}

/-! ## Grounded blocks -/

/-- A `try_files` of the format `$uri $uri/ target`. -/
def triesIndex : LocationDirective → Bool
  | .tryFiles first (second :: _ :: _) => first = bytes "$uri" && second = bytes "$uri/"
  | _ => false

/-- The condition on a block: its last `try_files` is of the format that
`handleTryFiles` knows; and if requests for its location can reach
`getUpstreamServer`, the last group it passes to has not been freed and has a
node to send to, or, without `TYPE_UPSTREAM_GROUP`, some pass goes to a single
host. -/
structure BlockSound (blocks : List UpstreamBlock) (freed : List Nat) (names : List Bytes)
    (ds : List LocationDirective) : Prop where
  tryTarget : ∀ d ∈ (ds.filter isTryFiles).getLast?, triesIndex d
  source : proxies names ds →
    if setsGroup names ds then
      ∃ j, groupAfter names none ds = some j ∧ j ∉ freed ∧
        ∃ block ∈ blocks.take (j + 1), block.made ≠ []
    else ∃ d ∈ ds, toHost names d

/-- The address of a block's location is that of its last pass to a single host. -/
theorem isSome_lastPassTo {chains : List (List Upstream)} {passTo : Nat → Option SockAddr}
    {ds : List LocationDirective}
    (resolved : ∀ d ∈ ds, Resolved gethostbyname names chains passTo d) :
    (lastWrite (LocationDirective.passTo? gethostbyname names) none ds).isSome ↔
      ∃ d ∈ ds, toHost names d := by
  induction ds using List.reverseRecOn with
  | nil => simp
  | append_singleton before d ih =>
      have rest : (lastWrite (LocationDirective.passTo? gethostbyname names) none before).isSome ↔
          ∃ d ∈ before, toHost names d :=
        ih fun e member => resolved e (List.mem_append_left [d] member)
      rw [lastWrite_append, lastWrite_cons, lastWrite_nil]
      cases write : d.passTo? gethostbyname names with
      | none =>
          have silent : toHost names d = false := by
            rw [← @isSome_passTo gethostbyname, write]
            rfl
          rw [Option.getD_none, rest]
          simp [List.mem_append, silent, or_and_right, exists_or]
      | some address =>
          have loud : toHost names d = true := by
            rw [← @isSome_passTo gethostbyname, write]
            rfl
          have given := (resolved d (by simp)).host address write
          rw [Option.getD_some]
          exact ⟨fun _ => ⟨d, by simp, loud⟩, fun _ => given⟩

theorem groupTarget_of_groupAfter {ds : List LocationDirective} {j : Nat}
    (last : groupAfter names none ds = some j) : ∃ d ∈ ds, d.groupTarget names = some j := by
  rw [groupAfter_none] at last
  exact List.mem_filterMap.mp (List.mem_of_getLast? last)

/-- A group of a parsed file can be sent to exactly if it is alive and some block
up to its own has a server. -/
theorem ready_iff {blocks : List UpstreamBlock} {freed : List Nat}
    {passTo : Nat → Option SockAddr} {j : Nat} {up : Upstreams}
    (here : (markFreed freed (declared [] blocks))[j]? = some up)
    (addressed : ∀ node ∈ up.servers, (passTo node.node).isSome) :
    Ready passTo up ↔ j ∉ freed ∧ ∃ block ∈ blocks.take (j + 1), block.made ≠ [] := by
  have chain : (∃ block ∈ blocks.take (j + 1), block.made ≠ []) ↔
      chainAfter [] (blocks.take (j + 1)) ≠ [] := by
    rw [ne_eq, chainAfter_eq_nil]
    simp
  rw [markFreed, List.getElem?_mapIdx, getElem?_declared, Option.map_map,
    Option.map_eq_some_iff] at here
  rcases here with ⟨block, _, rfl⟩
  rw [chain]
  by_cases member : j ∈ freed
  · simp only [member, not_true_eq_false, false_and, iff_false]
    intro ready
    have alive := ready.alive
    simp at alive
  · simp only [Function.comp_apply, member, if_false] at addressed ⊢
    simp only [not_false_eq_true, true_and]
    exact ⟨fun ready => ready.current,
      fun some => ⟨rfl, some, List.suffix_refl _, addressed⟩⟩

theorem reachesUpstream_eq {loc : Location} {ds : List LocationDirective}
    (bits : BlockBits names ds loc.type) : reachesUpstream loc = proxies names ds := by
  rcases bits with ⟨tryFiles, proxy, fastcgi, _⟩
  simp only [reachesUpstream, handlerFor, proxies, tryFiles, proxy, fastcgi]
  cases ds.any isTryFiles <;> cases setsProxy names ds <;> cases setsFastcgi ds <;> rfl

/-- The targets of a location are those of the last `try_files`. -/
theorem format_iff {ds : List LocationDirective} {loc : Location}
    (targets : loc.tryTarget = lastWrite LocationDirective.tryTarget? [] ds) :
    (ds.any isTryFiles → (checkTryFilesFormat loc).isSome) ↔
      ∀ d ∈ (ds.filter isTryFiles).getLast?, triesIndex d := by
  induction ds using List.reverseRecOn with
  | nil => simp
  | append_singleton before d ih =>
      rw [lastWrite_append, lastWrite_cons, lastWrite_nil] at targets
      cases d with
      | root | proxyPass | fastcgiPass | expires | expiresOff | defaultType | inert =>
          rw [List.any_append, List.filter_append]
          simpa [isTryFiles] using ih targets
      | tryFiles first rest =>
          have format : (checkTryFilesFormat loc).isSome =
              triesIndex (.tryFiles first rest) := by
            have given : loc.tryTarget = first :: rest := targets
            rcases rest with _ | ⟨second, _ | ⟨third, more⟩⟩
            · simp [checkTryFilesFormat, given, triesIndex]
            · simp [checkTryFilesFormat, given, triesIndex]
            · simp only [checkTryFilesFormat, given, triesIndex]
              split <;> simp_all
          simp [isTryFiles, List.filter_append, format]

section Block

variable {blocks : List UpstreamBlock} {freed : List Nat} {passTo : Nat → Option SockAddr}
  {body : List ServerDirective} {p : Pending Location}

/-- The location of a block is grounded exactly under the condition on the block. -/
theorem grounded_iff {ds : List LocationDirective} {loc : Location}
    (of : LocationOf gethostbyname names ds loc)
    (known : names.length ≤ (declared [] blocks).length)
    (resolved : ∀ d ∈ ds,
      Resolved gethostbyname names ((declared [] blocks).map (·.servers)) passTo d) :
    Grounded (markFreed freed (declared [] blocks)) passTo loc ↔
      BlockSound blocks freed names ds := by
  have reaches := reachesUpstream_eq of.bits
  have tryTarget : (handlerFor loc = .tryFiles → (checkTryFilesFormat loc).isSome) ↔
      ∀ d ∈ (ds.filter isTryFiles).getLast?, triesIndex d := by
    rw [handlerFor_eq_tryFiles, of.bits.tryFiles]
    exact format_iff of.tryTarget
  have source : SourceReady (markFreed freed (declared [] blocks)) passTo (addressSource loc) ↔
      if setsGroup names ds then
        ∃ j, groupAfter names none ds = some j ∧ j ∉ freed ∧
          ∃ block ∈ blocks.take (j + 1), block.made ≠ []
      else ∃ d ∈ ds, toHost names d := by
    cases grouped : setsGroup names ds with
    | false =>
        have single : addressSource loc = .passTo loc.passTo := by
          rw [addressSource_eq_passTo, of.bits.group]
          exact ⟨grouped, rfl⟩
        rw [single, SourceReady, of.passTo, isSome_lastPassTo resolved]
        rfl
    | true =>
        have group : addressSource loc = .group loc.group := by
          rw [addressSource_eq_group, of.bits.group]
          exact ⟨grouped, rfl⟩
        have addressed : ∀ j up, groupAfter names none ds = some j →
            (markFreed freed (declared [] blocks))[j]? = some up →
              ∀ node ∈ up.servers, (passTo node.node).isSome := by
          intro j up last here
          rcases groupTarget_of_groupAfter last with ⟨d, member, target⟩
          apply (resolved d member).group j up.servers target
          have chains := map_markFreed (f := (·.servers)) (fun _ => rfl) freed (declared [] blocks)
          rw [← chains, List.getElem?_map, here]
          rfl
        rw [group, SourceReady, of.group, if_pos rfl]
        constructor
        · rintro ⟨j, up, last, here, ready⟩
          exact ⟨j, last, (ready_iff here (addressed j up last here)).mp ready⟩
        · rintro ⟨j, last, sound⟩
          rcases groupTarget_of_groupAfter last with ⟨_, _, target⟩
          have bound : j < (markFreed freed (declared [] blocks)).length := by
            rw [markFreed, List.length_mapIdx]
            exact Nat.lt_of_lt_of_le (groupTarget_lt target) known
          have here := List.getElem?_eq_getElem bound
          exact ⟨j, _, last, here, (ready_iff here (addressed j _ last here)).mpr sound⟩
  constructor
  · intro grounded
    exact ⟨tryTarget.mp grounded.tryTarget,
      fun proxied => source.mp (grounded.source (reaches.trans proxied))⟩
  · intro sound
    exact ⟨tryTarget.mpr sound.tryTarget,
      fun proxied => source.mpr (sound.source (reaches ▸ proxied))⟩

end Block

/-! ## Accepted configurations -/

/-- The location belongs to some server of the configuration. -/
def Configured (t : ParseState) (loc : Location) : Prop :=
  ∃ server ∈ t.serverList, loc ∈ server.locations

/-- After any requests for configured locations that go to an upstream, none of
which fails, the handlers of every configured location find what they
dereference. -/
def Sound (t : ParseState) : Prop :=
  ∀ requests : List Location, (∀ loc ∈ requests, Configured t loc ∧ reachesUpstream loc) →
    ∃ after, run (serve t.passTo) t.upstreams requests = .ok after ∧
      ∀ loc, Configured t loc → Grounded after t.passTo loc

/-- Soundness at the start is soundness after any requests. -/
theorem sound_iff {t : ParseState} :
    Sound t ↔ ∀ server ∈ t.serverList, ∀ loc ∈ server.locations,
      Grounded t.upstreams t.passTo loc := by
  constructor
  · intro sound server member loc inside
    rcases sound [] (by simp) with ⟨after, ran, grounded⟩
    obtain rfl := Except.ok.inj ran
    exact grounded loc ⟨server, member, inside⟩
  · intro grounded requests sent
    exact run_serve_grounded
      (fun loc ⟨server, member, inside⟩ => grounded server member loc inside) sent

/-- The default location needs nothing. -/
theorem grounded_of_plain {upstreams : List Upstreams} {passTo : Nat → Option SockAddr}
    {loc : Location} (plain : PlainDefault loc) : Grounded upstreams passTo loc := by
  have type : loc.type = typeDocRoot := by
    rcases plain with ⟨_, _, _, _, rfl⟩
    rfl
  have handler : handlerFor loc = .byVerb := by
    simp only [handlerFor, type]
    decide
  constructor
  · simp [handler]
  · simp [reachesUpstream, handler]

/-- A property of all kept servers, the default server having it anyway. -/
theorem forall_kept_append {P : Server → Prop} {dflt : Server} (free : P dflt) (env : CheckEnv)
    (servers : List Server) :
    (∀ server ∈ env.kept (servers ++ [dflt]), P server) ↔
      ∀ server ∈ env.kept servers, P server := by
  cases servers with
  | nil =>
      simp only [CheckEnv.kept]
      split <;> simp [free]
  | cons server rest =>
      simp only [CheckEnv.kept]
      split <;> simp [free, or_imp, forall_and]

theorem forall₂_kept {α β : Type} {R : α → β → Prop} {first : List α} {second : List β}
    (env : CheckEnv) (related : List.Forall₂ R first second) :
    List.Forall₂ R (env.kept first) (env.kept second) := by
  simp only [CheckEnv.kept]
  split
  · exact related
  · cases related with
    | nil => exact .nil
    | cons _ rest => exact rest

/-- An accepted configuration is sound exactly if every server block that is kept
meets the condition `BlockSound`. -/
theorem accepted_sound_iff {file : ConfigFile} {env : CheckEnv} {s t : ParseState}
    (parsed : file.parse gethostbyname = .ok s) (accepted : checkServers env s = .ok t) :
    Sound t ↔ ∀ block ∈ env.kept (serverBlocks [] file.directives),
      BlockSound file.blocks (freedIn [] file.directives) block.1 (flatBody block.2) := by
  rcases parse_servers parsed with ⟨servers, dflt, list, built, _, loc, plain, only⟩
  rcases checkServers_eq_ok accepted with ⟨checked, sameUpstreams, samePassTo⟩
  have groups := parse_groups parsed
  have chains : s.chains = (declared [] file.blocks).map (·.servers) := by
    rw [ParseState.chains, groups, map_markFreed fun _ => rfl]
  have free : ∀ other ∈ dflt.locations, Grounded s.upstreams s.passTo other := by
    simp [only, grounded_of_plain plain]
  rw [chains] at built
  rw [sound_iff, sameUpstreams, samePassTo]
  calc (∀ server ∈ t.serverList, ∀ loc ∈ server.locations, Grounded s.upstreams s.passTo loc)
      ↔ ∀ server ∈ env.kept s.serverList, ∀ loc ∈ server.locations,
          Grounded s.upstreams s.passTo loc := by
        refine (forall_iff_of_forall₂ (fun server kept check => ?_) checked).symm
        rcases check.same with ⟨_, _, rfl⟩
        rfl
    _ ↔ ∀ server ∈ env.kept servers, ∀ loc ∈ server.locations,
          Grounded s.upstreams s.passTo loc := by
        rw [list]
        exact forall_kept_append free env servers
    _ ↔ ∀ block ∈ env.kept (serverBlocks [] file.directives),
          BlockSound file.blocks (freedIn [] file.directives) block.1 (flatBody block.2) := by
        refine (forall_iff_of_forall₂ (fun block server of => ?_) (forall₂_kept env built)).symm
        rcases of.location with ⟨p, noItems, plain, locations⟩
        have known := of.known
        rw [List.length_map] at known
        rw [locations, groups]
        simp only [List.mem_singleton, forall_eq]
        exact (grounded_iff (locationOf_block noItems plain) known of.resolved).symm

/-- `server { location / { root /srv; pass } }` behind a group `backend`. -/
def passFile (pass : LocationDirective) : ConfigFile :=
  { main := []
    first := .upstream backendBlock
    rest :=
      [.server
        [.location
          { matchType := .prefixMatch
            match_ := bytes "/"
            first := .root (bytes "/srv")
            rest := [pass] }]] }

theorem accepted_sound_iff_host :
    ∃ s t, (passFile (.proxyPass .http1 (bytes "127.0.0.1") (some 9000))).parse loopback = .ok s ∧
      checkServers .permissive s = .ok t ∧ Sound t := by
  refine ⟨_, _, rfl, rfl, ?_⟩
  refine (@accepted_sound_iff loopback
    (passFile (.proxyPass .http1 (bytes "127.0.0.1") (some 9000))) .permissive _ _ rfl rfl).mpr ?_
  intro block member
  obtain rfl := List.mem_singleton.mp member
  exact ⟨by decide, fun _ => ⟨.proxyPass .http1 (bytes "127.0.0.1") (some 9000), by decide,
    by decide⟩⟩

/-- The check accepts a location with a root and a `fastcgi_pass` to a group;
a request for it dereferences a null `passTo`. -/
theorem accepted_fastcgi_not_sound :
    ∃ s t loc, (passFile (.fastcgiPass (bytes "backend") none)).parse loopback = .ok s ∧
      checkServers .permissive s = .ok t ∧ Configured t loc ∧ handlerFor loc = .fastcgiPass ∧
      chooseUpstream t.upstreams t.passTo loc = .error .nullPointer ∧ ¬ Sound t := by
  refine ⟨_, _, _, rfl, rfl, ⟨_, List.mem_cons_self, List.mem_cons_self⟩, rfl, rfl, ?_⟩
  rw [sound_iff]
  intro grounded
  have source := (grounded _ List.mem_cons_self _ List.mem_cons_self).source rfl
  cases source

end OgWebserver.Request

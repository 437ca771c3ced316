import OgWebserver.Config.Groups
import OgWebserver.Request.Dispatch
import OgWebserver.Transition.Cycle

/-!
# Round robin

Each call of `getUpstreamServer` for a group moves the group's cursor, before it
is known whether the upstream can be reached.  The cursor of a group depends on
the calls for this group only, as long as the parser has not freed the group.
-/

namespace OgWebserver.Request

open Text Config Transition

/-- What `socket` and `connect` return. -/
inductive Connecting
  | noSocket
  | refused (fd : Int)
  | connected (fd : Int)

def getUpstreamServer (upstreams : List Upstreams) (passTo : Nat → Option SockAddr)
    (loc : Location) (outcome : Connecting) :
    Except Fault (Int × Option SockAddr × List Upstreams) := do
  match ← chooseUpstream upstreams passTo loc with
  | none => .ok (-1, none, upstreams)
  | some (address, upstreams) =>
      match outcome with
      | .noSocket => .ok (-1, none, upstreams)
      | .refused _ => .ok (-1, some address, upstreams)
      | .connected fd => .ok (fd, some address, upstreams)

/-- A call, and what comes of it. -/
structure UpstreamCall where
  loc : Location
  outcome : Connecting

namespace UpstreamCall

/-- The group the call is on. -/
def group (call : UpstreamCall) : Option Nat :=
  match addressSource call.loc with
  | .group group => group
  | .passTo _ => none

end UpstreamCall

/-- The server a group gives to the next call. -/
def nextServer (upstreams : List Upstreams) (group : Nat) : Option Upstream :=
  upstreams[group]?.bind (·.currentServer.head?)

/-- The entry that a call has picked from a group, and the address it has gone on with. -/
structure Pick where
  group : Nat
  entry : Upstream
  address : Option SockAddr

/-- Several calls, one after the other. -/
def runCalls (passTo : Nat → Option SockAddr) :
    List Upstreams → List UpstreamCall → Except Fault (List Pick × List Upstreams)
  | upstreams, [] => .ok ([], upstreams)
  | upstreams, call :: rest => do
      let (_, address, after) ← getUpstreamServer upstreams passTo call.loc call.outcome
      let (picks, final) ← runCalls passTo after rest
      let entry := call.group.bind (nextServer upstreams)
      let pick := call.group.bind fun group =>
        entry.map fun entry => { group := group, entry := entry, address := address }
      .ok (pick.toList ++ picks, final)

/-- The number of calls on a group. -/
def callsOn (group : Nat) (calls : List UpstreamCall) : Nat :=
  calls.countP fun call => call.group == some group

/-- The entries picked from a group. -/
def entriesOf (group : Nat) (picks : List Pick) : List Upstream :=
  picks.filterMap fun pick => if pick.group = group then some pick.entry else none

/-- The calls return, and each group has been gone through in turn: the entries picked are
those of its list, from the first on and over again, so that as many picks in a row as the
list is long are all of its entries.  Where an address has been used, it is that of the
entry.  The next entry depends on the calls on the group only. -/
def Fair (passTo : Nat → Option SockAddr) (upstreams : List Upstreams)
    (calls : List UpstreamCall) : Prop :=
  ∃ picks final, runCalls passTo upstreams calls = .ok (picks, final) ∧
    (∀ pick ∈ picks, ∀ address, pick.address = some address →
      passTo pick.entry.node = some address) ∧
    ∀ group up, upstreams[group]? = some up → up.servers ≠ [] →
      entriesOf group picks = turns up.servers (callsOn group calls) ∧
      (∀ k, k + up.servers.length ≤ callsOn group calls →
        (((entriesOf group picks).drop k).take up.servers.length).Perm up.servers) ∧
      nextServer final group = up.servers[callsOn group calls % up.servers.length]?

/-! ## Cursors -/

/-- The groups, each after some calls on it. -/
def turned (start : List Upstreams) (counts : Nat → Nat) : List Upstreams :=
  start.mapIdx fun group up =>
    { up with currentServer := up.servers.drop (counts group % up.servers.length) }

variable {passTo : Nat → Option SockAddr} {start upstreams after : List Upstreams}
variable {counts : Nat → Nat} {loc : Location} {group : Nat} {up : Upstreams}
variable {outcome : Connecting} {calls : List UpstreamCall}

theorem advance_eq (up : Upstreams) :
    advance up = { up with currentServer := wrap up.servers up.currentServer } := by
  rcases up with ⟨name, _ | ⟨current, _ | ⟨next, rest⟩⟩, servers, freed⟩ <;> rfl

theorem turned_zero (fresh : ∀ up ∈ start, up.currentServer = up.servers) :
    turned start (fun _ => 0) = start := by
  apply List.ext_getElem?
  intro group
  rw [turned, List.getElem?_mapIdx]
  cases here : start[group]? with
  | none => rfl
  | some up =>
      have own := fresh up (List.mem_of_getElem? here)
      rcases up with ⟨name, current, servers, freed⟩
      obtain rfl : current = servers := own
      rw [Option.map_some, Nat.zero_mod, List.drop_zero]

theorem getElem?_turned (here : start[group]? = some up) :
    (turned start counts)[group]? =
      some { up with
        currentServer := up.servers.drop (counts group % up.servers.length) } := by
  rw [turned, List.getElem?_mapIdx, here, Option.map_some]

/-- The next entry of a group is given by the number of calls on it. -/
theorem nextServer_turned (here : start[group]? = some up) :
    nextServer (turned start counts) group =
      up.servers[counts group % up.servers.length]? := by
  rw [nextServer, getElem?_turned here, Option.bind_some, List.head?_drop]

/-- One call more. -/
theorem set_advance_turned (here : start[group]? = some up) (some_ : up.servers ≠ []) :
    (turned start counts).set group (advance { up with
        currentServer := up.servers.drop (counts group % up.servers.length) }) =
      turned start (Function.update counts group (counts group + 1)) := by
  apply List.ext_getElem?
  intro other
  have inside : group < (turned start counts).length := by
    rw [turned, List.length_mapIdx]
    exact (List.getElem?_eq_some_iff.mp here).1
  by_cases same : group = other
  · subst same
    rw [List.getElem?_set_self inside, getElem?_turned here, advance_eq, wrap_drop some_,
      Function.update_self]
  · rw [List.getElem?_set_ne same, turned, turned, List.getElem?_mapIdx, List.getElem?_mapIdx,
      Function.update_of_ne (Ne.symm same)]

/-- A call on a group that is alive, has servers and knows their addresses. -/
theorem getUpstreamServer_turned (onGroup : addressSource loc = .group (some group))
    (here : start[group]? = some up) (alive : up.freed = false) (some_ : up.servers ≠ [])
    (resolved : ∀ entry ∈ up.servers, (passTo entry.node).isSome) (outcome : Connecting) :
    ∃ fd address entry, getUpstreamServer (turned start counts) passTo loc outcome =
        .ok (fd, address, turned start (Function.update counts group (counts group + 1))) ∧
      up.servers[counts group % up.servers.length]? = some entry ∧
      ∀ used, address = some used → passTo entry.node = some used := by
  have positive : 0 < up.servers.length := List.length_pos_iff.mpr some_
  have inside : counts group % up.servers.length < up.servers.length :=
    Nat.mod_lt _ positive
  have entry_ : up.servers[counts group % up.servers.length]? =
      some up.servers[counts group % up.servers.length] := List.getElem?_eq_getElem inside
  rcases Option.isSome_iff_exists.mp (resolved _ (List.getElem_mem inside)) with ⟨address, is⟩
  have chosen : chooseUpstream (turned start counts) passTo loc =
      .ok (some (address, turned start (Function.update counts group (counts group + 1)))) := by
    rw [← set_advance_turned here some_]
    simp only [chooseUpstream, onGroup, getElem?_turned here, alive, Bool.false_eq_true, if_false]
    rw [List.drop_eq_getElem_cons inside]
    simp only [is]
  rw [getUpstreamServer, chosen]
  cases outcome with
  | noSocket =>
      exact ⟨-1, none, _, rfl, entry_, fun used none_ => by cases none_⟩
  | refused fd =>
      exact ⟨-1, some address, _, rfl, entry_, fun used same => same ▸ is⟩
  | connected fd =>
      exact ⟨fd, some address, _, rfl, entry_, fun used same => same ▸ is⟩

/-! ## Runs -/

/-- The call is on a group that has servers and knows their addresses. -/
def OnUsable (start : List Upstreams) (passTo : Nat → Option SockAddr) (call : UpstreamCall) :
    Prop :=
  ∃ group up, addressSource call.loc = .group (some group) ∧ start[group]? = some up ∧
    up.servers ≠ [] ∧ ∀ entry ∈ up.servers, (passTo entry.node).isSome

/-- The group of the call has not been freed. -/
def OnAlive (start : List Upstreams) (call : UpstreamCall) : Prop :=
  ∀ group up, call.group = some group → start[group]? = some up → up.freed = false

theorem group_of_addressSource {call : UpstreamCall}
    (onGroup : addressSource call.loc = .group (some group)) : call.group = some group := by
  rw [UpstreamCall.group, onGroup]

/-- Calls on groups that are alive go through each group's list in turn. -/
theorem runCalls_turned (usable : ∀ call ∈ calls, OnUsable start passTo call)
    (alive : ∀ call ∈ calls, OnAlive start call) :
    ∃ picks, runCalls passTo (turned start counts) calls =
        .ok (picks, turned start fun group => counts group + callsOn group calls) ∧
      (∀ pick ∈ picks, ∀ address, pick.address = some address →
        passTo pick.entry.node = some address) ∧
      ∀ group up, start[group]? = some up →
        turns up.servers (counts group + callsOn group calls) =
          turns up.servers (counts group) ++ entriesOf group picks := by
  induction calls generalizing counts with
  | nil =>
      refine ⟨[], rfl, by simp, ?_⟩
      intro group up _
      rw [callsOn, List.countP_nil, Nat.add_zero, entriesOf, List.filterMap_nil, List.append_nil]
  | cons call rest ih =>
      rcases List.forall_mem_cons.mp usable with ⟨⟨own, up, onGroup, here, some_, resolved⟩, usable⟩
      rcases List.forall_mem_cons.mp alive with ⟨ownAlive, alive⟩
      have is := group_of_addressSource onGroup
      rcases @getUpstreamServer_turned passTo start counts call.loc own up onGroup here
        (ownAlive own up is here) some_ resolved call.outcome with
        ⟨fd, address, entry, called, picked, used⟩
      rcases @ih (Function.update counts own (counts own + 1)) usable alive with
        ⟨picks, ran, addresses, seen⟩
      have total : ∀ group, Function.update counts own (counts own + 1) group +
          callsOn group rest = counts group + callsOn group (call :: rest) := by
        intro group
        rw [callsOn, callsOn, List.countP_cons]
        by_cases same : group = own
        · subst same
          rw [Function.update_self, is, beq_self_eq_true, if_pos rfl, Nat.add_assoc,
            Nat.add_comm 1]
        · have other : (call.group == some group) = false := by
            rw [is]
            simpa using Ne.symm same
          rw [Function.update_of_ne same, other, if_neg Bool.false_ne_true, Nat.add_zero]
      refine ⟨{ group := own, entry := entry, address := address } :: picks, ?_, ?_, ?_⟩
      · have next := @nextServer_turned start counts own up here
        rw [runCalls, called]
        simp only [bind, Except.bind, ran, is, Option.bind_some, next, picked, Option.map_some,
          Option.toList_some, List.singleton_append, total]
      · intro pick member address is
        rcases List.mem_cons.mp member with rfl | member
        · exact used address is
        · exact addresses pick member address is
      · intro group other there
        have seen := seen group other there
        rw [total] at seen
        rw [seen, entriesOf, entriesOf, List.filterMap_cons]
        by_cases same : own = group
        · subst same
          obtain rfl := Option.some.inj (here.symm.trans there)
          rw [Function.update_self, turns_succ, picked, if_pos rfl, List.append_assoc]
          rfl
        · rw [Function.update_of_ne (Ne.symm same), if_neg same]

theorem map_freed_advance (here : upstreams[group]? = some up) :
    (upstreams.set group (advance up)).map (·.freed) = upstreams.map (·.freed) := by
  apply List.ext_getElem?
  intro other
  rw [List.getElem?_map, List.getElem?_map, List.getElem?_set]
  split
  case isTrue same =>
    subst same
    rw [if_pos (List.getElem?_eq_some_iff.mp here).1, here, advance_eq]
    rfl
  case isFalse => rfl

/-- What `chooseUpstream` returns for a group: the group is alive, and no group is freed. -/
theorem chooseUpstream_alive {result : Option (SockAddr × List Upstreams)}
    (chosen : chooseUpstream upstreams passTo loc = .ok result) :
    (∀ group up, addressSource loc = .group (some group) → upstreams[group]? = some up →
      up.freed = false) ∧
    ∀ address after, result = some (address, after) →
      after.map (·.freed) = upstreams.map (·.freed) := by
  rw [chooseUpstream] at chosen
  cases source : addressSource loc with
  | passTo address =>
      constructor
      · intro group up onGroup
        cases onGroup
      · rintro address' after rfl
        cases address with
        | none => simp [source] at chosen
        | some address =>
            simp only [source, Except.ok.injEq, Option.some.injEq, Prod.mk.injEq] at chosen
            rw [chosen.2]
  | group group? =>
      cases group? with
      | none =>
          constructor
          · intro group up onGroup
            cases onGroup
          · rintro address after rfl
            simp [source] at chosen
      | some own =>
          simp only [source] at chosen
          cases here : upstreams[own]? with
          | none => simp [here] at chosen
          | some up =>
              simp only [here] at chosen
              split at chosen
              · cases chosen
              case isFalse alive =>
                constructor
                · intro group other onGroup there
                  obtain rfl := Option.some.inj (AddressSource.group.inj onGroup)
                  obtain rfl := Option.some.inj (here.symm.trans there)
                  exact Bool.eq_false_iff.mpr alive
                · rintro address after rfl
                  split at chosen
                  · cases chosen
                  · split at chosen
                    · cases chosen
                    · simp only [Except.ok.injEq, Option.some.injEq, Prod.mk.injEq] at chosen
                      rw [← chosen.2]
                      exact map_freed_advance here

theorem getUpstreamServer_alive {call : UpstreamCall}
    {result : Int × Option SockAddr × List Upstreams}
    (called : getUpstreamServer upstreams passTo call.loc call.outcome = .ok result) :
    OnAlive upstreams call ∧ result.2.2.map (·.freed) = upstreams.map (·.freed) := by
  rcases bind_eq_ok_iff.mp called with ⟨chosen, ran, rest⟩
  rcases chooseUpstream_alive ran with ⟨alive, kept⟩
  constructor
  · intro group up is here
    apply alive group up _ here
    rw [UpstreamCall.group] at is
    split at is
    case h_1 own source => rw [source, is]
    case h_2 => cases is
  · cases chosen with
    | none =>
        obtain rfl := Except.ok.inj rest
        rfl
    | some both =>
        rcases both with ⟨address, after⟩
        cases outcome : call.outcome <;> rw [outcome] at rest <;>
          obtain rfl := Except.ok.inj rest <;> exact kept address after rfl

/-- A group that has been freed is not called. -/
theorem alive_of_runCalls {result : List Pick × List Upstreams}
    (ran : runCalls passTo upstreams calls = .ok result) :
    ∀ call ∈ calls, OnAlive upstreams call := by
  induction calls generalizing upstreams result with
  | nil =>
      intro call member
      cases member
  | cons first rest ih =>
      rw [runCalls] at ran
      rcases bind_eq_ok_iff.mp ran with ⟨⟨fd, address, after⟩, called, ran⟩
      rcases bind_eq_ok_iff.mp ran with ⟨more, later, _⟩
      rcases getUpstreamServer_alive called with ⟨alive, kept⟩
      apply List.forall_mem_cons.mpr ⟨alive, _⟩
      intro call member group up is here
      have flags : (after.map (·.freed))[group]? = some up.freed := by
        rw [kept, List.getElem?_map, here]
        rfl
      rw [List.getElem?_map] at flags
      rcases Option.map_eq_some_iff.mp flags with ⟨up', there, same⟩
      rw [← same]
      exact ih later call member group up' is there

/-- Calls on usable groups are fair if and only if none of these groups has been freed. -/
theorem fair_iff (fresh : ∀ up ∈ start, up.currentServer = up.servers)
    (usable : ∀ call ∈ calls, OnUsable start passTo call) :
    Fair passTo start calls ↔ ∀ call ∈ calls, OnAlive start call := by
  constructor
  · rintro ⟨picks, final, ran, _⟩
    exact alive_of_runCalls ran
  · intro alive
    rcases @runCalls_turned passTo start (fun _ => 0) calls usable alive with
      ⟨picks, ran, addresses, seen⟩
    rw [turned_zero fresh] at ran
    refine ⟨picks, _, ran, addresses, ?_⟩
    intro group up here some_
    have own : entriesOf group picks = turns up.servers (callsOn group calls) := by
      have seen := seen group up here
      rw [Nat.zero_add] at seen
      exact seen.symm
    refine ⟨own, ?_, ?_⟩
    · intro k inside
      rw [own]
      exact turns_window some_ inside
    · rw [nextServer_turned here, Nat.zero_add]

/-! ## Behind the parser -/

variable {gethostbyname : Resolver} {t : ParseState} {file : ConfigFile}

/-- The parser leaves every cursor at the front of its list, and has freed the groups that a
server block passes to before it passes to another one. -/
theorem group_of_parse (parsed : file.parse gethostbyname = .ok t)
    (here : t.upstreams[group]? = some up) :
    up.currentServer = up.servers ∧ (up.freed = false ↔ group ∉ freedIn [] file.directives) := by
  rw [parse_groups parsed, markFreed, List.getElem?_mapIdx, getElem?_declared] at here
  cases block : file.blocks[group]? with
  | none => simp [block] at here
  | some block_ =>
      simp only [block, Option.map_some, Option.some.injEq] at here
      by_cases freed : group ∈ freedIn [] file.directives
      · rw [if_pos freed] at here
        subst here
        simp [Upstreams.new, freed]
      · rw [if_neg freed] at here
        subst here
        simp [Upstreams.new, freed]

/-- Calls on groups of a parsed configuration are fair if and only if no server block passes
to one of these groups and then to another one. -/
theorem roundRobin_exact (parsed : file.parse gethostbyname = .ok t)
    (usable : ∀ call ∈ calls, OnUsable t.upstreams t.passTo call) :
    Fair t.passTo t.upstreams calls ↔
      ∀ call ∈ calls, ∀ group, call.group = some group → group ∉ freedIn [] file.directives := by
  have fresh : ∀ up ∈ t.upstreams, up.currentServer = up.servers := by
    intro up member
    rcases List.getElem?_of_mem member with ⟨group, here⟩
    exact (group_of_parse parsed here).1
  rw [fair_iff fresh usable]
  constructor
  · intro alive call member group is
    rcases usable call member with ⟨own, up, onGroup, here, _⟩
    obtain rfl := Option.some.inj ((group_of_addressSource onGroup).symm.trans is)
    exact (group_of_parse parsed here).2.mp (alive call member own up is here)
  · intro notFreed call member group up is here
    exact (group_of_parse parsed here).2.mpr (notFreed call member group is)

/-- An upstream block with two servers. -/
def pairBlock (name : Bytes) (port : Int32) : UpstreamBlock :=
  { name := name
    first := { host := bytes "127.0.0.1", port := some port, share := .single }
    rest := [{ host := bytes "127.0.0.1", port := some 9000, share := .single }] }

/-- A server block with a location that passes to the given groups. -/
def passingBlock (first : Bytes) (rest : List Bytes) : List ServerDirective :=
  [.location
    { matchType := .prefixMatch
      match_ := bytes "/"
      first := .proxyPass .http1 first none
      rest := rest.map fun group => .proxyPass .http1 group none }]

/-- Two server blocks that pass to two groups. -/
def groupEach : ConfigFile :=
  { main := []
    first := .upstream (pairBlock (bytes "g") 8081)
    rest :=
      [.upstream (pairBlock (bytes "h") 8082), .server (passingBlock (bytes "g") []),
        .server (passingBlock (bytes "h") [])] }

/-- Three requests for the first group and one for the second, whose list has the first
group's servers at its end. -/
theorem roundRobin_exact_each :
    ∃ t first second, groupEach.parse (fun _ => some 2130706433) = .ok t ∧
      t.serverList.map (·.locations) = [[first], [second], [defaultLocation]] ∧
      Fair t.passTo t.upstreams
        [⟨first, .connected 5⟩, ⟨second, .noSocket⟩, ⟨first, .refused 5⟩, ⟨first, .noSocket⟩] := by
  refine ⟨_, _, _, rfl, rfl, ?_⟩
  apply (@roundRobin_exact _ (fun _ => some 2130706433) _ groupEach rfl _).mpr
  · decide
  · simp only [List.forall_mem_cons, List.not_mem_nil, false_imp_iff, implies_true, and_true]
    exact ⟨⟨0, _, rfl, rfl, by decide, by decide⟩, ⟨1, _, rfl, rfl, by decide, by decide⟩,
      ⟨0, _, rfl, rfl, by decide, by decide⟩, ⟨0, _, rfl, rfl, by decide, by decide⟩⟩

/-- A server block that passes to one group and then to the other frees the first one. -/
def groupTwice : ConfigFile :=
  { main := []
    first := .upstream (pairBlock (bytes "g") 8081)
    rest :=
      [.upstream (pairBlock (bytes "h") 8082), .server (passingBlock (bytes "g") []),
        .server (passingBlock (bytes "g") [bytes "h"])] }

/-- The location of the other block goes on to use it. -/
theorem roundRobin_freed :
    ∃ t first second, groupTwice.parse (fun _ => some 2130706433) = .ok t ∧
      t.serverList.map (·.locations) = [[first], [second], [defaultLocation]] ∧
      OnUsable t.upstreams t.passTo ⟨first, .connected 5⟩ ∧
      getUpstreamServer t.upstreams t.passTo first (.connected 5) = .error .deadObject ∧
      ¬ Fair t.passTo t.upstreams [⟨first, .connected 5⟩] := by
  refine ⟨_, _, _, rfl, rfl, ⟨0, _, rfl, rfl, ?_, ?_⟩, rfl, ?_⟩
  · decide
  · decide
  · rintro ⟨picks, final, ran, _⟩
    cases ran

end OgWebserver.Request

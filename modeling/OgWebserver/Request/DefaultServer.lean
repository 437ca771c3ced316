import OgWebserver.Config.Settings
import OgWebserver.Request.Process

/-!
# The default server

`f_http` puts the default server behind the servers of the blocks.  Where no
server has the name of a request, `getServerForHost` falls back to the first
server of the list, and `popServer` removes the first server when the default
one is disabled.
-/

namespace OgWebserver.Request

open Text Config Transition

variable {gethostbyname : Resolver} {m : ParseState}

/-- The server that `f_http` adds to the list of `m` is the one a request falls
back to, and the one that is removed when there should be no default server. -/
structure OneDefault (m : ParseState) : Prop where
  fallback : ∀ host first, firstPort (fHttp m).serverList = some first →
    (∀ server ∈ (fHttp m).serverList,
      serves (cutPort host).1 (portAsked host first) server = false) →
    getServerForHost true (fHttp m).serverList host = .ok (some m.serverList.length)
  removed : ∃ t, popServer (fHttp m) = .ok t ∧ t.serverList = m.serverList

/-- Some host is the name of no server: it is longer than all of them. -/
theorem exists_unserved (servers : List Server) :
    ∃ host, ∀ portNum, ∀ server ∈ servers,
      serves (cutPort host).1 portNum server = false := by
  let lengths := (servers.flatMap (·.serverNames)).map fun sn => sn.serverName.text.length
  let host : Bytes := List.replicate (lengths.max?.getD 0 + 1) 120
  have noColon : colon ∉ host := fun member => by
    have same : colon = 120 := List.eq_of_mem_replicate member
    exact absurd same (by decide)
  refine ⟨host, fun portNum server member => ?_⟩
  rw [cutPort_of_noColon noColon, serves, List.any_eq_false]
  intro sn named both
  rw [Bool.and_eq_true, beq_iff_eq] at both
  have listed : sn.serverName.text.length ∈ lengths :=
    List.mem_map_of_mem (List.mem_flatMap.mpr ⟨server, member, named⟩)
  have bound := @List.le_max?_getD_of_mem _ _ 0 listed
  rw [both.1, List.length_replicate] at bound
  omega

/-- The default server is one and the same if and only if there is no server block. -/
theorem oneDefault_iff {main : List MainDirective} {directives : List HttpDirective}
    (reached : Reached gethostbyname main directives m) :
    OneDefault m ↔ directives.filterMap HttpDirective.server? = [] := by
  rcases servers_of_reached reached with ⟨number, ports⟩
  rw [← List.length_eq_zero_iff, ← number]
  have all : ∀ server ∈ (fHttp m).serverList, server.ports ≠ [] := by
    intro server member
    rcases List.mem_append.mp member with member | member
    · exact ports server member
    · obtain rfl := List.mem_singleton.mp member
      simp [defaultServerOf, Pending.toList]
  rcases exists_firstPort (by simp [fHttp, setServerList]) all with ⟨first, known⟩
  constructor
  · intro one
    rcases exists_unserved (fHttp m).serverList with ⟨host, unserved⟩
    have found := one.fallback host first known (unserved (portAsked host first))
    have nobody := List.findIdx?_eq_none_iff.mpr (unserved (portAsked host first))
    rw [getServerForHost_of_firstPort known, nobody] at found
    exact (Option.some.inj (Except.ok.inj found)).symm
  · intro none
    have empty := List.length_eq_zero_iff.mp none
    have list : (fHttp m).serverList = [defaultServerOf m] := by
      rw [fHttp, setServerList, empty, List.nil_append]
    constructor
    · intro host first known unserved
      have nobody := List.findIdx?_eq_none_iff.mpr unserved
      rw [getServerForHost_of_firstPort known, nobody, none]
      rfl
    · rcases defaultLogs_of_reached reached with ⟨⟨access, accessLogs⟩, ⟨error, errorLogs⟩⟩
      have first : getDefaultAccessLog m = some 0 := by simp [getDefaultAccessLog, accessLogs]
      have second : getDefaultErrorLog m = some 0 := by simp [getDefaultErrorLog, errorLogs]
      have access_ : (fHttp m).accessLogs = defaultAccessLog :: access := accessLogs
      have error_ : (fHttp m).errorLogs = defaultErrorLog :: error := errorLogs
      simp [popServer, list, defaultServerOf, first, second, access_, error_, freeLog,
        defaultAccessLog, defaultErrorLog, bind, Except.bind, empty]

theorem oneDefault_iff_noBlocks :
    ∃ m, Reached (fun _ => none) [.pid (bytes "/run/ogws.pid")] [.index (bytes "a.html") []] m ∧
      OneDefault m :=
  ⟨_, rfl, (@oneDefault_iff (fun _ => none) _ [.pid (bytes "/run/ogws.pid")]
    [.index (bytes "a.html") []] rfl).mpr rfl⟩

/-- With two server blocks, the first of them is fallen back to, and removed. -/
theorem twoServers_not_oneDefault :
    ∃ m, Reached (fun _ => none) twoServers.main twoServers.directives m ∧
      m.serverList.length = 2 ∧
      getServerForHost true (fHttp m).serverList (bytes "other") = .ok (some 0) ∧
      (∃ t, popServer (fHttp m) = .ok t ∧
        t.serverList.map (·.serverNames.map (·.serverName.text)) = [[bytes "b"], [bytes "*"]]) ∧
      ¬ OneDefault m := by
  refine ⟨_, rfl, rfl, by decide, ⟨_, rfl, by decide⟩, fun one => ?_⟩
  have wrong := one.fallback (bytes "other") 8080 (by decide) (by decide)
  exact absurd wrong (by decide)

end OgWebserver.Request

import OgWebserver.Keyed.Firsts
import OgWebserver.Startup.Tls

/-!
# The entries of the process list

A port number is entered where it occurs for the first time, with the server it occurs in.
So each number has as many entries as there are workers, for the server that
`configureContext` selects too.
-/

namespace OgWebserver.Startup

open Text Config Keyed

variable {workers : Int32} {servers : List Server} {procList : List Proc} {p : Proc}

/-- The port numbers of the servers. -/
def portNumbers (servers : List Server) : List Int32 :=
  servers.flatMap fun server => server.ports.map (·.portNum)

theorem map_candidates (servers : List Server) :
    (candidates servers).map (·.portNum) = portNumbers servers := by
  unfold candidates portNumbers
  rw [List.map_flatMap]
  simp only [List.map_map]
  change servers.zipIdx.flatMap (fun server => server.1.ports.map (·.portNum)) = _
  rw [← List.flatMap_map Prod.fst fun server : Server => server.ports.map (·.portNum),
    List.zipIdx_map_fst]

/-- A number that is not entered yet gets its entries where it occurs first. -/
theorem foldl_enlist_eq (some_ : 0 < workers.toInt) {ports : List Proc} {seen : List Int32}
    (same : ∀ n, n ∈ seen ↔ n ∈ procList.map (·.portNum)) :
    ports.foldl (enlist workers) procList =
      (firsts (·.portNum) seen ports).reverse.flatMap (List.replicate workers.toInt.toNat) ++
        procList := by
  induction ports generalizing procList seen with
  | nil => rfl
  | cons p rest ih =>
      have unique_iff : uniquePort p.portNum procList = true ↔ p.portNum ∉ seen := by
        rw [same]
        simp only [uniquePort, List.all_eq_true, List.mem_map, not_exists, not_and]
        simp
      rw [List.foldl_cons, firsts]
      by_cases known : p.portNum ∈ seen
      · have old : uniquePort p.portNum procList = false := by
          rw [← Bool.not_eq_true, unique_iff]
          simpa using known
        rw [if_pos known, enlist, if_neg (by simp [old])]
        exact ih same
      · rw [if_neg known, enlist, if_pos (unique_iff.mpr known)]
        rw [@ih _ (p.portNum :: seen)]
        · simp
        · intro n
          have positive : 0 < workers := Int32.lt_iff_toInt_lt.mpr some_
          simp [same n, positive, eq_comm]

theorem buildProcList_eq_flatMap (some_ : 0 < workers.toInt) :
    buildProcList workers servers =
      (firsts (·.portNum) [] (candidates servers)).reverse.flatMap
        (List.replicate workers.toInt.toNat) := by
  rw [buildProcList_eq, @foldl_enlist_eq _ [] some_ _ []]
  · simp
  · simp

/-- The entries are the ports that are the first ones with their numbers. -/
theorem mem_buildProcList_iff (some_ : 0 < workers.toInt) :
    p ∈ buildProcList workers servers ↔
      (candidates servers).find? (fun q => decide (q.portNum = p.portNum)) = some p := by
  have positive : 0 < workers := Int32.lt_iff_toInt_lt.mpr some_
  rw [buildProcList_eq_flatMap some_]
  simp only [List.mem_flatMap, List.mem_reverse, mem_firsts_iff, List.mem_replicate]
  simp [positive]

/-- Each number has as many entries as there are workers. -/
theorem countP_buildProcList (some_ : 0 < workers.toInt) {n : Int32}
    (port : n ∈ portNumbers servers) :
    (buildProcList workers servers).countP (fun p => decide (p.portNum = n)) =
      workers.toInt.toNat := by
  rw [buildProcList_eq_flatMap some_, countP_flatMap_replicate, List.countP_reverse]
  have once : (firsts (·.portNum) [] (candidates servers)).countP
      (fun p => decide (p.portNum = n)) = 1 := by
    have count := List.count_eq_one_of_mem (nodup_keys_firsts (·.portNum) [] (candidates servers))
      (mem_keys_firsts_iff.mpr ⟨List.not_mem_nil, by rwa [map_candidates]⟩)
    rw [List.count, List.countP_map] at count
    exact count
  rw [once, Nat.mul_one]

/-- As many entries as workers for each of the numbers. -/
theorem length_buildProcList (workers : Int32) (servers : List Server) :
    (buildProcList workers servers).length =
      workers.toInt.toNat * (portNumbers servers).dedup.length := by
  by_cases some_ : 0 < workers.toInt
  · rw [buildProcList_eq_flatMap some_, ← map_candidates, ← length_firsts]
    simp [Nat.mul_comm]
  · rw [buildProcList_of_noWorkers (by omega)]
    have none : workers.toInt.toNat = 0 := by omega
    simp [none]

/-- The first port with a number is one of the first server that has it. -/
theorem configureContext_of_find {n : Int32} {k : Nat}
    (found : ((servers.zipIdx k).flatMap fun server => server.1.ports.map fun port =>
      ({ server := server.2, portNum := port.portNum, tls := port.tls } : Proc)).find?
        (fun q => decide (q.portNum = n)) = some p) :
    ∃ i server, p.server = k + i ∧ servers[i]? = some server ∧
      configureContext n servers = some server := by
  induction servers generalizing k with
  | nil => cases found
  | cons first rest ih =>
      rw [List.zipIdx_cons, List.flatMap_cons, List.find?_append] at found
      by_cases has : first.ports.any (fun port => port.portNum == n) = true
      · rcases List.any_eq_true.mp has with ⟨port, member, same⟩
        refine ⟨0, first, ?_, rfl, ?_⟩
        · cases here : (first.ports.map fun port =>
              ({ server := k, portNum := port.portNum, tls := port.tls } : Proc)).find?
                (fun q => decide (q.portNum = n)) with
          | none =>
              have no := List.find?_eq_none.mp here _ (List.mem_map_of_mem member)
              exact absurd (by simpa using same) no
          | some q =>
              rw [here, Option.some_or] at found
              obtain rfl := Option.some.inj found
              rcases List.mem_map.mp (List.mem_of_find?_eq_some here) with ⟨_, _, rfl⟩
              rfl
        · rw [configureContext, List.find?_cons, has]
      · have none : (first.ports.map fun port =>
            ({ server := k, portNum := port.portNum, tls := port.tls } : Proc)).find?
              (fun q => decide (q.portNum = n)) = none := by
          rw [List.find?_eq_none]
          rintro q member
          rcases List.mem_map.mp member with ⟨port, inPorts, rfl⟩
          intro same
          apply has
          exact List.any_eq_true.mpr ⟨port, inPorts, by simpa using same⟩
        rw [none, Option.none_or] at found
        rcases ih found with ⟨i, server, at_, here, selected⟩
        refine ⟨i + 1, server, by omega, here, ?_⟩
        rw [configureContext, List.find?_cons, Bool.eq_false_iff.mpr has]
        exact selected

/-- The list is what the workers and the ports ask for: as many entries for each port number
as workers, each with the flag of all its ports and with its first server, which is the one
that `configureContext` selects. -/
structure ListExact (workers : Int32) (servers : List Server) : Prop where
  count : ∀ n ∈ portNumbers servers,
    (buildProcList workers servers).countP (fun p => decide (p.portNum = n)) =
      workers.toInt.toNat
  port : ∀ p ∈ buildProcList workers servers, p.portNum ∈ portNumbers servers
  flag : ∀ p ∈ buildProcList workers servers, ∀ server ∈ servers, ∀ port ∈ server.ports,
    port.portNum = p.portNum → port.tls = p.tls
  first : ∀ p ∈ buildProcList workers servers, ∃ server, servers[p.server]? = some server ∧
    configureContext p.portNum servers = some server

theorem listExact_of_accepted {env : CheckEnv} {s t : ParseState}
    (accepted : checkServers env s = .ok t) (some_ : 0 < workers.toInt) :
    ListExact workers t.serverList where
  count := fun _ port => countP_buildProcList some_ port
  port := by
    intro p member
    rcases exists_port_of_mem member with ⟨server, inList, has⟩
    exact List.mem_flatMap.mpr ⟨server, inList, List.mem_map_of_mem has⟩
  flag := by
    intro p member server inList port has same
    rcases exists_port_of_mem member with ⟨other, inList', has'⟩
    exact tls_of_accepted accepted inList inList' has has' same
  first := by
    intro p member
    rcases configureContext_of_find ((mem_buildProcList_iff some_).mp member) with
      ⟨i, server, at_, here, selected⟩
    obtain rfl : p.server = i := by omega
    exact ⟨server, here, selected⟩

end OgWebserver.Startup

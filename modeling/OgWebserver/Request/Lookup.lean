import Mathlib.Data.List.TakeWhile
import OgWebserver.Config.Check
import OgWebserver.Request.Dispatch

/-!
# Servers of a host

`getServerForHost` picks the server for a `Host` header: the first server that
has the name and the port of the request.  Where the header gives no port, the
first port of the first server stands in for it, whatever socket the request
came in on.
-/

namespace OgWebserver.Request

open Text Config Transition

/-- The byte `:`. -/
def colon : UInt8 := 58

/-- `hasPort`. -/
def hasPort (portNum : Int32) (server : Server) : Bool :=
  server.ports.any fun p => p.portNum == portNum

/-- The condition on a server in the loop of `getServerForHost`. -/
def serves (host : Bytes) (portNum : Int32) (server : Server) : Bool :=
  server.serverNames.any fun sn => sn.serverName.text == host && hasPort portNum server

/-- The host name cut at its first colon, and the text behind the colon. -/
def cutPort (host : Bytes) : Bytes × Option Bytes :=
  match host.dropWhile (· ≠ colon) with
  | [] => (host, none)
  | _ :: port => (host.takeWhile (· ≠ colon), some port)

/-- `getServerForHost`; the position of the server in the list, `none` for a null
pointer. -/
def getServerForHost (isDefaultServer : Bool) (servers : List Server) (host : Bytes) :
    Except Fault (Option Nat) :=
  match servers.head?.bind fun server => server.ports.head? with
  | none => .error .nullPointer
  | some p =>
      let cut := cutPort host
      let portNum := (cut.2.map atoi).getD p.portNum
      match servers.findIdx? (serves cut.1 portNum) with
      | some i => .ok (some i)
      | none => .ok (if isDefaultServer then some 0 else none)

/-- The value of a `Host` header with or without the port. -/
def hostValue (host : Bytes) (portNum : Int32) (withPort : Bool) : Bytes :=
  if withPort then host ++ colon :: formatInt portNum else host

/-- The port that stands in for a missing one. -/
def firstPort (servers : List Server) : Option Int32 :=
  (servers.head?.bind fun server => server.ports.head?).map (·.portNum)

variable {isDefaultServer : Bool} {servers : List Server} {host : Bytes} {portNum : Int32}

theorem cutPort_of_noColon (noColon : colon ∉ host) : cutPort host = (host, none) := by
  have none : host.dropWhile (· ≠ colon) = [] := by
    rw [List.dropWhile_eq_nil_iff]
    intro b member
    simpa using ne_of_mem_of_not_mem member noColon
  simp only [cutPort, none]

theorem cutPort_append (noColon : colon ∉ host) (port : Bytes) :
    cutPort (host ++ colon :: port) = (host, some port) := by
  have plain : ∀ b ∈ host, decide (b ≠ colon) = true := by
    intro b member
    simpa using ne_of_mem_of_not_mem member noColon
  have rest : (host ++ colon :: port).dropWhile (· ≠ colon) = colon :: port := by
    rw [List.dropWhile_append_of_pos plain, List.dropWhile_cons_of_neg (by simp)]
  have name : (host ++ colon :: port).takeWhile (· ≠ colon) = host := by
    rw [List.takeWhile_append_of_pos plain, List.takeWhile_cons_of_neg (by simp),
      List.append_nil]
  simp only [cutPort, rest, name]

/-- The port a header asks for, with a stand-in for a missing one. -/
def portAsked (host : Bytes) (first : Int32) : Int32 :=
  ((cutPort host).2.map atoi).getD first

theorem getServerForHost_of_firstPort {first : Int32} (found : firstPort servers = some first)
    (host : Bytes) :
    getServerForHost isDefaultServer servers host =
      .ok ((servers.findIdx? (serves (cutPort host).1 (portAsked host first))).or
        (if isDefaultServer then some 0 else none)) := by
  rcases Option.map_eq_some_iff.mp found with ⟨p, has, rfl⟩
  simp only [getServerForHost, has, portAsked]
  cases servers.findIdx? (serves (cutPort host).1 (((cutPort host).2.map atoi).getD p.portNum)) <;>
    rfl

/-- The port that `getServerForHost` goes by. -/
def portFor (servers : List Server) (portNum : Int32) (withPort : Bool) : Option Int32 :=
  (firstPort servers).map fun first => if withPort then portNum else first

theorem getServerForHost_hostValue (noColon : colon ∉ host) (withPort : Bool) :
    getServerForHost isDefaultServer servers (hostValue host portNum withPort) =
      match portFor servers portNum withPort with
      | none => .error .nullPointer
      | some port =>
          match servers.findIdx? (serves host port) with
          | some i => .ok (some i)
          | none => .ok (if isDefaultServer then some 0 else none) := by
  simp only [getServerForHost, portFor, firstPort]
  cases servers.head?.bind fun server => server.ports.head? with
  | none => rfl
  | some p =>
      cases withPort with
      | false => simp [hostValue, cutPort_of_noColon noColon]
      | true => simp [hostValue, cutPort_append noColon, atoi_formatInt]

/-- The server at position `i` is the only one with the name and the port. -/
structure OnlyServer (servers : List Server) (host : Bytes) (portNum : Int32) (i : Nat) :
    Prop where
  serves : ∃ server, servers[i]? = some server ∧ serves host portNum server
  only : ∀ (j : Nat) server, servers[j]? = some server → Request.serves host portNum server → j = i

/-- The first hit, with the elements in front of it. -/
theorem findIdx?_eq_some_iff_first {p : Server → Bool} {i : Nat} :
    servers.findIdx? p = some i ↔
      ∃ server, servers[i]? = some server ∧ p server = true ∧
        ∀ (j : Nat) other, j < i → servers[j]? = some other → p other = false := by
  rw [List.findIdx?_eq_some_iff_getElem]
  constructor
  · rintro ⟨bound, hit, earlier⟩
    refine ⟨_, List.getElem?_eq_getElem bound, hit, fun j other less there => ?_⟩
    rcases List.getElem?_eq_some_iff.mp there with ⟨_, rfl⟩
    simpa using earlier j less
  · rintro ⟨server, here, hit, earlier⟩
    rcases List.getElem?_eq_some_iff.mp here with ⟨bound, rfl⟩
    refine ⟨bound, hit, fun j less => ?_⟩
    have miss := earlier j _ less (List.getElem?_eq_getElem (Nat.lt_trans less bound))
    simp [miss]

theorem findIdx?_of_only {i : Nat} (only : OnlyServer servers host portNum i) :
    servers.findIdx? (serves host portNum) = some i := by
  rcases only with ⟨⟨server, here, serving⟩, unique⟩
  refine findIdx?_eq_some_iff_first.mpr ⟨server, here, serving, fun j other less there => ?_⟩
  rw [Bool.eq_false_iff]
  intro serves_
  exact absurd (unique j other there serves_) (Nat.ne_of_lt less)

/-- A server that has the name serves the host on each of its ports. -/
theorem serves_eq_hasPort {server : Server} (serving : serves host portNum server = true)
    (first : Int32) : serves host first server = hasPort first server := by
  rcases List.any_eq_true.mp serving with ⟨sn, member, both⟩
  rw [Bool.and_eq_true] at both
  rw [Bool.eq_iff_iff, serves, List.any_eq_true]
  constructor
  · rintro ⟨_, _, other⟩
    exact (Bool.and_eq_true _ _ ▸ other).2
  · intro port
    exact ⟨sn, member, by simp [both.1, port]⟩

/-- How a request without a port in its `Host` header finds server `i`: the
stand-in port leads to it, or to no server and it is the default one. -/
def FoundByFirstPort (isDefaultServer : Bool) (servers : List Server) (host : Bytes)
    (first : Int32) (i : Nat) : Prop :=
  (∃ server, servers[i]? = some server ∧ hasPort first server ∧
      ∀ (j : Nat) other, j < i → servers[j]? = some other → serves host first other = false) ∨
    (∀ server ∈ servers, serves host first server = false) ∧ isDefaultServer ∧ i = 0

/-- `getServerForHost` selects the only server with the name and the port exactly
if the first server has a port, and either the header gives the port of the
request or that first port leads to the same server. -/
theorem getServerForHost_selects_iff {i : Nat} (noColon : colon ∉ host)
    (only : OnlyServer servers host portNum i) (withPort : Bool) :
    getServerForHost isDefaultServer servers (hostValue host portNum withPort) = .ok (some i) ↔
      ∃ first, firstPort servers = some first ∧
        (withPort ∨ FoundByFirstPort isDefaultServer servers host first i) := by
  rw [getServerForHost_hostValue noColon, portFor]
  cases firstPort servers with
  | none => simp
  | some first =>
      cases withPort with
      | true => simp [findIdx?_of_only only]
      | false =>
          simp only [Option.map_some, Bool.false_eq_true, if_false, false_or, Option.some.injEq,
            exists_eq_left']
          rcases only with ⟨⟨server, here, serving⟩, _⟩
          have hit : servers.findIdx? (serves host first) = some i ↔
              ∃ server, servers[i]? = some server ∧ hasPort first server ∧
                ∀ (j : Nat) other, j < i → servers[j]? = some other →
                  serves host first other = false := by
            rw [findIdx?_eq_some_iff_first]
            simp only [here, Option.some.injEq, exists_eq_left', serves_eq_hasPort serving]
          rw [FoundByFirstPort, ← hit, ← List.findIdx?_eq_none_iff]
          cases servers.findIdx? (serves host first) with
          | none => cases isDefaultServer <;> simp [eq_comm]
          | some k => simp

/-- Two servers: one on port 8080, and one named `b` on port 8081. -/
def twoServers : ConfigFile :=
  { main := []
    first := .server [.serverName (bytes "a", .serverNameExact) [], .listen (.number 8080) []]
    rest := [.server [.serverName (bytes "b", .serverNameExact) [], .listen (.number 8081) []]] }

/-- Server `b` is the only one for its name and port, but not on the first port. -/
theorem twoServers_accepted :
    ∃ s t, twoServers.parse (fun _ => none) = .ok s ∧ checkServers .permissive s = .ok t ∧
      OnlyServer t.serverList (bytes "b") 8081 1 ∧ firstPort t.serverList = some 8080 ∧
      t.serverList.findIdx? (serves (bytes "b") 8080) = none := by
  refine ⟨_, _, rfl, rfl, ⟨⟨_, rfl, by decide⟩, ?_⟩, rfl, by decide⟩
  intro j server here serving
  rcases j with _ | _ | _ | j
  · obtain rfl := Option.some.inj here
    exact absurd serving (by decide)
  · rfl
  · obtain rfl := Option.some.inj here
    exact absurd serving (by decide)
  · cases here

theorem getServerForHost_selects_iff_withPort :
    ∃ s t, twoServers.parse (fun _ => none) = .ok s ∧ checkServers .permissive s = .ok t ∧
      getServerForHost true t.serverList (hostValue (bytes "b") 8081 true) = .ok (some 1) := by
  rcases twoServers_accepted with ⟨s, t, parsed, accepted, only, first, _⟩
  exact ⟨s, t, parsed, accepted,
    (getServerForHost_selects_iff (by decide) only true).mpr ⟨8080, first, .inl rfl⟩⟩

/-- Without a port in the header, a request for `b` on port 8081 gets server `a`. -/
theorem getServerForHost_wrong_server :
    ∃ s t, twoServers.parse (fun _ => none) = .ok s ∧ checkServers .permissive s = .ok t ∧
      OnlyServer t.serverList (bytes "b") 8081 1 ∧
      getServerForHost true t.serverList (hostValue (bytes "b") 8081 false) = .ok (some 0) := by
  rcases twoServers_accepted with ⟨s, t, parsed, accepted, only, first, none⟩
  refine ⟨s, t, parsed, accepted, only, ?_⟩
  rw [getServerForHost_hostValue (by decide), portFor, first]
  simp [none]

end OgWebserver.Request

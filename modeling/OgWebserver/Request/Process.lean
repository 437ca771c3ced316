import OgWebserver.Config.Servers
import OgWebserver.Request.Input
import OgWebserver.Request.Lookup

/-!
# Processing a request

`processInput` up to the call of a handler: the request is read, its server and
location are found, and either a handler is chosen or an error is answered.  The
error path logs, and so needs a server itself.
-/

namespace OgWebserver.Request

open Text Config Transition

/-- What a worker knows of the configuration. -/
structure Site where
  isDefaultServer : Bool
  servers : List Server
  /-- `regexMatch` of a pattern and a path. -/
  regexMatch : Bytes → Bytes → Bool

/-- A request a handler is called with. -/
structure ClientRequest where
  verb : Bytes
  path : Bytes
  queryString : Option Bytes
  protocol : Bytes
  host : Bytes
  headers : Bytes
  server : Server
  loc : Location

/-- How `processInput` goes on once it has looked at the request. -/
inductive Decision
  /-- `sendErrorResponse` with this code, message and path. -/
  | error (code : Nat) (msg path : Bytes)
  | handle (handler : Handler) (req : ClientRequest)

/-- An error response is sent and logged: `errorLog` follows the pointer to the
server, and from there those to its names and its log. -/
def errorResponse (server : Option Server) (code : Nat) (msg path : Bytes) :
    Except Fault Decision :=
  match server with
  | none => .error .nullPointer
  | some server =>
      if server.serverNames.isEmpty || server.errorLog.isNone then .error .nullPointer
      else .ok (.error code msg path)

/-- Does the location match the path? -/
def locationMatches (regexMatch : Bytes → Bytes → Bool) (path : Bytes) (loc : Location) : Bool :=
  match loc.matchType with
  | .regexMatch => regexMatch loc.match_ path
  | .prefixMatch => loc.match_.isPrefixOf path
  | .equalMatch => path == loc.match_
  | .unsetMatch => false

/-- `getDocRoot`. -/
def getDocRoot (regexMatch : Bytes → Bytes → Bool) (server : Server) (path : Bytes) :
    Option Location :=
  server.locations.find? (locationMatches regexMatch path)

/-- The path up to the first question mark, and the query string if one is given. -/
def cutQuery (path : Bytes) : Bytes × Option Bytes :=
  match path.dropWhile (· ≠ 63) with
  | [] => (path, none)
  | _ :: query => (path.takeWhile (· ≠ 63), if query.isEmpty then none else some query)

/-- The longest root and path together. -/
def maxLen : Nat := 255

/-- The end of `processInput`, for a location with a root. -/
def chooseHandler (req : ClientRequest) (root : Bytes) : Except Fault Decision :=
  if maxLen < root.length + req.path.length then
    errorResponse (some req.server) 414 (bytes "URI too long")
      (req.path.take maxLen ++ bytes "...")
  else if handlerFor req.loc ≠ .byVerb then .ok (.handle (handlerFor req.loc) req)
  else if req.verb = bytes "GET" ∨ req.verb = bytes "HEAD" then .ok (.handle .byVerb req)
  else errorResponse (some req.server) 405 (bytes "Method Not Allowed") req.verb

/-- `processInput` behind the lookup of the server. -/
def routeTo (regexMatch : Bytes → Bytes → Bool) (server : Server) (headers : Bytes)
    (text : RequestText) : Except Fault Decision :=
  let path := (cutQuery text.path).1
  let located := (getDocRoot regexMatch server path).bind fun loc =>
    loc.root.map fun root => (loc, root)
  match located with
  | none => errorResponse (some server) 500 (bytes "Bad configuration") (bytes "No doc root")
  | some (loc, root) =>
      chooseHandler
        { verb := text.verb
          path := path
          queryString := (cutQuery text.path).2
          protocol := text.protocol
          host := text.host
          headers := headers
          server := server
          loc := loc }
        root.text

/-- `processInput` behind the searches. -/
def routeRequest (site : Site) (headers : Bytes) (text : RequestText) : Except Fault Decision := do
  let found ← getServerForHost site.isDefaultServer site.servers text.host
  match found.bind fun i => site.servers[i]? with
  | none => errorResponse none 404 (bytes "Bad request") (bytes "No server for this host")
  | some server => routeTo site.regexMatch server headers text

/-- `processInput` up to the call of a handler, for bytes received on a connection
to `listener`. -/
def dispatch (site : Site) (listener : Server) (received : Bytes) : Except Fault Decision :=
  if received.length = buffSize then
    errorResponse (some listener) 413 (bytes "Bad Request") (bytes "Request too large")
  else if received.isEmpty then
    errorResponse (some listener) 400 (bytes "Bad Request") (bytes "No data")
  else do
    match ← readRequest (inbuff received) with
    | none => errorResponse (some listener) 400 (bytes "Bad Request") (bytes "Bad data")
    | some text => routeRequest site (savedHeaders received) text

/-! ## Accepted configurations -/

/-- A server whose pointers can be followed. -/
structure Complete (server : Server) : Prop where
  ports : server.ports ≠ []
  names : server.serverNames ≠ []
  errorLog : server.errorLog.isSome

variable {gethostbyname : Resolver} {file : ConfigFile} {env : CheckEnv} {s t : ParseState}

/-- Every server of an accepted configuration is complete. -/
theorem complete_of_accepted (parsed : file.parse gethostbyname = .ok s)
    (accepted : checkServers env s = .ok t) : ∀ server ∈ t.serverList, Complete server := by
  rcases parse_servers parsed with ⟨servers, dflt, list, built, dfltPorts, _⟩
  rcases checkServers_eq_ok accepted with ⟨checked, _, _⟩
  have ports : ∀ server ∈ s.serverList, server.ports ≠ [] := by
    intro server member
    rw [list] at member
    rcases List.mem_append.mp member with member | member
    · exact forall_of_forall₂ (fun _ _ of => BuiltFrom.ports of) built server member
    · obtain rfl := List.mem_singleton.mp member
      exact dfltPorts
  have kept : ∀ server ∈ env.kept s.serverList, server.ports ≠ [] := by
    intro server member
    apply ports server
    simp only [CheckEnv.kept] at member
    split at member
    · exact member
    · exact List.mem_of_mem_tail member
  refine (forall_iff_of_forall₂ (fun server kept check => ?_) checked).mp kept
  rcases check.same with ⟨accessLog, errorLog, rfl⟩
  exact ⟨fun ports => ⟨ports, check.names, rfl⟩, Complete.ports⟩

theorem errorResponse_of_log {server : Server} (named : server.serverNames ≠ [])
    (log : server.errorLog.isSome) (code : Nat) (msg path : Bytes) :
    errorResponse (some server) code msg path = .ok (.error code msg path) := by
  have names : server.serverNames.isEmpty = false := by simpa using named
  have log : server.errorLog.isNone = false := by
    rcases Option.isSome_iff_exists.mp log with ⟨log, is⟩
    simp [is]
  simp [errorResponse, names, log]

theorem errorResponse_of_complete {server : Server} (complete : Complete server) (code : Nat)
    (msg path : Bytes) : errorResponse (some server) code msg path = .ok (.error code msg path) :=
  errorResponse_of_log complete.names complete.errorLog code msg path

theorem chooseHandler_of_complete {req : ClientRequest} (complete : Complete req.server)
    (root : Bytes) : ∃ decision, chooseHandler req root = .ok decision := by
  simp only [chooseHandler, errorResponse_of_complete complete]
  split
  · exact ⟨_, rfl⟩
  · split
    · exact ⟨_, rfl⟩
    · split <;> exact ⟨_, rfl⟩

/-! ## Requests that are processed without a memory error -/

/-- Some server takes requests for the host, or the default server does. -/
def HasServer (site : Site) (host : Bytes) : Prop :=
  site.isDefaultServer ∨
    ∃ first, firstPort site.servers = some first ∧
      ∃ server ∈ site.servers, serves (cutPort host).1 (portAsked host first) server

theorem exists_firstPort {servers : List Server} (some_ : servers ≠ [])
    (ports : ∀ server ∈ servers, server.ports ≠ []) : ∃ first, firstPort servers = some first := by
  rcases List.exists_cons_of_ne_nil some_ with ⟨server, rest, rfl⟩
  rcases List.exists_cons_of_ne_nil (ports server (by simp)) with ⟨port, more, has⟩
  exact ⟨port.portNum, by simp [firstPort, has]⟩

theorem routeTo_of_complete {server : Server} (complete : Complete server)
    (regexMatch : Bytes → Bytes → Bool) (headers : Bytes) (text : RequestText) :
    ∃ decision, routeTo regexMatch server headers text = .ok decision := by
  simp only [routeTo]
  split
  · exact ⟨_, errorResponse_of_complete complete _ _ _⟩
  · exact chooseHandler_of_complete complete _

/-- The lookup finds a server of the list, or returns a null pointer. -/
theorem getServerForHost_cases {site : Site} (some_ : site.servers ≠ [])
    (complete : ∀ server ∈ site.servers, Complete server) (host : Bytes) :
    (HasServer site host ∧ ∃ i server,
        getServerForHost site.isDefaultServer site.servers host = .ok (some i) ∧
          site.servers[i]? = some server) ∨
      ¬ HasServer site host ∧
        getServerForHost site.isDefaultServer site.servers host = .ok none := by
  rcases exists_firstPort some_ fun server member => (complete server member).ports with
    ⟨first, known⟩
  simp only [getServerForHost_of_firstPort known, HasServer, known, Option.some.injEq,
    exists_eq_left']
  cases found : site.servers.findIdx? (serves (cutPort host).1 (portAsked host first)) with
  | some i =>
      rcases List.findIdx?_eq_some_iff_getElem.mp found with ⟨bound, match_, _⟩
      exact .inl ⟨.inr ⟨_, List.getElem_mem bound, match_⟩, i, _, rfl,
        List.getElem?_eq_getElem bound⟩
  | none =>
      rw [List.findIdx?_eq_none_iff] at found
      have noServer : ¬ ∃ server ∈ site.servers,
          serves (cutPort host).1 (portAsked host first) server = true := by
        rintro ⟨server, member, match_⟩
        rw [found server member] at match_
        cases match_
      rw [or_iff_left noServer]
      cases site.isDefaultServer with
      | true =>
          rcases List.exists_cons_of_ne_nil some_ with ⟨server, rest, list⟩
          exact .inl ⟨rfl, 0, server, rfl, by simp [list]⟩
      | false => exact .inr ⟨by simp, rfl⟩

/-- Behind the searches, a request is processed if and only if it has a server. -/
theorem routeRequest_safe_iff {site : Site} (some_ : site.servers ≠ [])
    (complete : ∀ server ∈ site.servers, Complete server) (headers : Bytes) (text : RequestText) :
    (∃ decision, routeRequest site headers text = .ok decision) ↔ HasServer site text.host := by
  unfold routeRequest
  rcases getServerForHost_cases some_ complete text.host with
    ⟨has, i, server, found, here⟩ | ⟨hasNot, found⟩
  · obtain ⟨decision, ran⟩ := routeTo_of_complete
      (complete server (List.mem_of_getElem? here)) site.regexMatch headers text
    refine iff_of_true ⟨decision, bind_eq_ok_iff.mpr ⟨some i, found, ?_⟩⟩ has
    simpa [here] using ran
  · refine iff_of_false ?_ hasNot
    rintro ⟨decision, ran⟩
    rcases bind_eq_ok_iff.mp ran with ⟨answer, lookup, ran⟩
    obtain rfl := Except.ok.inj (found.symm.trans lookup)
    cases ran

/-- The condition on the bytes received: no space in front of the first zero, or a
request line and a host line that all searches find, and a server for the host. -/
def Framed (site : Site) (received : Bytes) : Prop :=
  space ∉ cString (inbuff received) ∨
    ∃ text rest, RequestLine (inbuff received) text rest ∧ HostIn rest text.host ∧
      HasServer site text.host

/-- With an accepted configuration, `processInput` gets through to a handler or an
error response without a memory error exactly on the framed requests. -/
theorem dispatch_safe_iff (parsed : file.parse gethostbyname = .ok s)
    (accepted : checkServers env s = .ok t) (regexMatch : Bytes → Bytes → Bool)
    {listener : Server} (listening : listener ∈ t.serverList) {received : Bytes}
    (nonempty : received ≠ []) (short : received.length < buffSize) :
    (∃ decision, dispatch
        { isDefaultServer := env.isDefaultServer
          servers := t.serverList
          regexMatch := regexMatch } listener received = .ok decision) ↔
      Framed
        { isDefaultServer := env.isDefaultServer
          servers := t.serverList
          regexMatch := regexMatch } received := by
  have complete := complete_of_accepted parsed accepted
  have listenerComplete := complete listener listening
  have some_ : t.serverList ≠ [] := List.ne_nil_of_mem listening
  have terminated := terminated_inbuff short
  have notFull : received.length ≠ buffSize := Nat.ne_of_lt short
  have notEmpty : received.isEmpty = false := by simpa using nonempty
  simp only [dispatch, notFull, if_false, notEmpty, Bool.false_eq_true, Framed]
  rw [← readRequest_eq_none_iff terminated]
  constructor
  · rintro ⟨decision, ran⟩
    rcases bind_eq_ok_iff.mp ran with ⟨read, was, ran⟩
    cases read with
    | none => exact .inl was
    | some text =>
        rcases (readRequest_eq_some_iff terminated).mp was with ⟨rest, line, host⟩
        have server := (routeRequest_safe_iff some_ complete _ _).mp ⟨decision, ran⟩
        exact .inr ⟨text, rest, line, host, server⟩
  · rintro (noSpace | ⟨text, rest, line, host, server⟩)
    · exact ⟨_, bind_eq_ok_iff.mpr
        ⟨none, noSpace, errorResponse_of_complete listenerComplete _ _ _⟩⟩
    · obtain ⟨decision, ran⟩ := (routeRequest_safe_iff some_ complete (savedHeaders received)
        text).mpr server
      exact ⟨decision, bind_eq_ok_iff.mpr
        ⟨some text, (readRequest_eq_some_iff terminated).mpr ⟨rest, line, host⟩, ran⟩⟩

/-- `GET / HTTP/1.1` with a host line. -/
def plainRequest : Bytes :=
  bytes "GET / HTTP/1.1\r\nHost: b\r\n\r\n"

def plainText : RequestText :=
  { verb := bytes "GET", path := bytes "/", protocol := bytes "HTTP/1.1", host := bytes "b" }

theorem plainRequest_read :
    ∃ rest, RequestLine (inbuff plainRequest) plainText rest ∧ HostIn rest plainText.host := by
  let zeros : Bytes := List.replicate (buffSize - plainRequest.length) 0
  refine ⟨bytes "\nHost: b\r\n\r\n" ++ zeros, ⟨rfl, by decide, by decide, by decide⟩, ?_⟩
  exact ⟨bytes "Host: b\r\n\r\n" ++ zeros, bytes "\n\r\n" ++ zeros,
    (leadsTo_here (by decide) ⟨bytes "b\r\n\r\n" ++ zeros, rfl⟩).mpr rfl, rfl,
    by decide, by decide⟩

theorem dispatch_safe_iff_plain :
    ∃ s t listener, twoServers.parse (fun _ => none) = .ok s ∧
      checkServers .permissive s = .ok t ∧ listener ∈ t.serverList ∧
      ∃ decision, dispatch
        { isDefaultServer := CheckEnv.permissive.isDefaultServer
          servers := t.serverList
          regexMatch := fun _ _ => false } listener plainRequest = .ok decision := by
  rcases plainRequest_read with ⟨rest, line, host⟩
  refine ⟨_, _, _, rfl, rfl, List.mem_cons_self, ?_⟩
  exact (@dispatch_safe_iff (fun _ => none) twoServers .permissive _ _ rfl rfl (fun _ _ => false)
    _ List.mem_cons_self plainRequest (by decide) (by decide)).mpr
    (.inr ⟨plainText, rest, line, host, .inl rfl⟩)

/-- A request line with a single space is answered with a write through a null pointer. -/
theorem dispatch_oneSpace_faults :
    ∃ s t listener, twoServers.parse (fun _ => none) = .ok s ∧
      checkServers .permissive s = .ok t ∧ listener ∈ t.serverList ∧
      dispatch
        { isDefaultServer := CheckEnv.permissive.isDefaultServer
          servers := t.serverList
          regexMatch := fun _ _ => false } listener (bytes "GET /\r\n") =
        .error .nullPointer := by
  refine ⟨_, _, _, rfl, rfl, List.mem_cons_self, ?_⟩
  rfl

end OgWebserver.Request

import OgWebserver.Request.Endings
import OgWebserver.Request.Verbs

/-!
# What a request comes to

`processInput` answers a request with an error itself, or hands it to a handler, or stops
with a memory error before it has done anything.  The file gives the inversion of a whole
call, and the way to the handler of a request.
-/

namespace OgWebserver.Request

open Text Config Transition

namespace Visit

variable {v : Visit}

/-- The request when it is read. -/
def begin_ (v : Visit) (table : List (Nat × Object)) : Handling :=
  { v.start table with
    table :=
      if v.clientFails && v.received.isEmpty then
        table.eraseP fun entry => entry.1 == v.clientFd
      else table }

/-- The request that a handler gets. -/
def request (v : Visit) (text : RequestText) (server : Server) (loc : Location) : ClientRequest :=
  { verb := text.verb
    path := (cutQuery text.path).1
    queryString := (cutQuery text.path).2
    protocol := text.protocol
    host := text.host
    headers := savedHeaders v.received
    server := server
    loc := loc }

/-- The request when a handler gets it. -/
def handed (v : Visit) (table : List (Nat × Object)) (text : RequestText) : Handling :=
  { v.begin_ table with path := (cutQuery text.path).1 }

theorem processInput_begin (table : List (Nat × Object)) :
    v.processInput (v.start table) =
      (if v.received.length = buffSize then
        v.sendErrorResponse (some v.listener) none 413 (bytes "Bad Request")
          (bytes "Request too large")
      else if v.received.isEmpty then
        v.sendErrorResponse (some v.listener) none 400 (bytes "Bad Request") (bytes "No data")
      else do
        match ← liftExcept (readRequest (inbuff v.received)) with
        | none =>
            v.sendErrorResponse (some v.listener) none 400 (bytes "Bad Request") (bytes "Bad data")
        | some text => v.routeRequest text) (v.begin_ table) := by
  simp only [processInput, begin_]
  split <;> rfl

/-- The request is read. -/
structure Reads (v : Visit) (text : RequestText) : Prop where
  notFull : v.received.length ≠ buffSize
  nonempty : v.received.isEmpty = false
  read : readRequest (inbuff v.received) = .ok (some text)

/-- The request is read, and its server is found. -/
structure Finds (v : Visit) (text : RequestText) (server : Server) : Prop extends Reads v text where
  found : ∃ i, getServerForHost v.site.isDefaultServer v.site.servers text.host = .ok (some i) ∧
    v.site.servers[i]? = some server

/-- The request is read, and handed to a handler for the location. -/
structure Asks (v : Visit) (text : RequestText) (server : Server) (loc : Location)
    (root : CString) : Prop extends Finds v text server where
  located : getDocRoot v.site.regexMatch server (cutQuery text.path).1 = some loc
  rooted : loc.root = some root
  short : root.text.length + (cutQuery text.path).1.length ≤ maxLen
  verb : handlerFor loc = .byVerb → text.verb = bytes "GET" ∨ text.verb = bytes "HEAD"

/-- The error exits of `processInput`: the verb, if it has been read, and the server, code,
message and path they answer and log with. -/
inductive Exits (v : Visit) : Option Bytes → Server → Nat → Bytes → Bytes → Prop
  | tooLarge (full : v.received.length = buffSize) :
      Exits v none v.listener 413 (bytes "Bad Request") (bytes "Request too large")
  | noData : Exits v none v.listener 400 (bytes "Bad Request") (bytes "No data")
  | badData : Exits v none v.listener 400 (bytes "Bad Request") (bytes "Bad data")
  | noDocRoot {text server} (finds : Finds v text server)
      (unrooted : (getDocRoot v.site.regexMatch server (cutQuery text.path).1).bind
        (·.root) = none) :
      Exits v (some text.verb) server 500 (bytes "Bad configuration") (bytes "No doc root")
  | tooLong {text server loc root} (finds : Finds v text server)
      (located : getDocRoot v.site.regexMatch server (cutQuery text.path).1 = some loc)
      (rooted : loc.root = some root)
      (long : maxLen < root.text.length + (cutQuery text.path).1.length) :
      Exits v (some text.verb) server 414 (bytes "URI too long")
        ((cutQuery text.path).1.take maxLen ++ bytes "...")
  | badVerb {text server loc root} (finds : Finds v text server)
      (located : getDocRoot v.site.regexMatch server (cutQuery text.path).1 = some loc)
      (rooted : loc.root = some root)
      (short : root.text.length + (cutQuery text.path).1.length ≤ maxLen)
      (byVerb : handlerFor loc = .byVerb)
      (verb : ¬ (text.verb = bytes "GET" ∨ text.verb = bytes "HEAD")) :
      Exits v (some text.verb) server 405 (bytes "Method Not Allowed") text.verb

/-! ## Accepted configurations -/

/-- Every server that requests reach can be logged for. -/
theorem logged_of_accepted {env : CheckEnv} {s t : ParseState}
    (accepted : checkServers env s = .ok t) : ∀ server ∈ t.serverList, Logged server := by
  rcases checkServers_eq_ok accepted with ⟨checked, _, _⟩
  refine forall_of_forall₂ (fun kept server check => ?_) checked
  rcases check.same with ⟨accessLog, errorLog, rfl⟩
  exact ⟨check.names, rfl, rfl⟩

/-- The worker runs with a configuration that has been accepted. -/
structure Accepted (v : Visit) : Prop where
  configured : ∃ gethostbyname file env s t, ConfigFile.parse gethostbyname file = .ok s ∧
    checkServers env s = .ok t ∧ v.site.servers = t.serverList ∧
    v.site.isDefaultServer = env.isDefaultServer
  listening : v.listener ∈ v.site.servers

theorem Accepted.logged (accepted : Accepted v) : ∀ server ∈ v.site.servers, Logged server := by
  rcases accepted.configured with ⟨gethostbyname, file, env, s, t, _, checked, same, _⟩
  rw [same]
  exact logged_of_accepted checked

theorem Finds.member {text : RequestText} {server : Server} (finds : Finds v text server) :
    server ∈ v.site.servers := by
  rcases finds.found with ⟨i, _, here⟩
  exact List.mem_of_getElem? here

/-- The servers of the error exits are configured. -/
theorem Exits.member {verb : Option Bytes} {server : Server} {code : Nat} {msg path : Bytes}
    (accepted : Accepted v) (exit : Exits v verb server code msg path) :
    server ∈ v.site.servers := by
  cases exit with
  | tooLarge | noData | badData => exact accepted.listening
  | noDocRoot finds => exact finds.member
  | tooLong finds => exact finds.member
  | badVerb finds => exact finds.member

/-- What `processInput` comes to, beside the decision that `dispatch` takes. -/
inductive Processed (v : Visit) (table : List (Nat × Object)) : Except Fault Decision → Ran → Prop
  | exits {verb server code msg path} (exit : Exits v verb server code msg path) (p : Bytes) :
      Processed v table (.ok (.error code msg path))
        (v.sendErrorResponse (some server) verb code msg path { v.begin_ table with path := p })
  | asks {text server loc root} (asks : Asks v text server loc root) :
      Processed v table (.ok (.handle (handlerFor loc) (v.request text server loc)))
        (v.call (handlerFor loc) (v.request text server loc) (v.handed table text))
  | faults {e s'} (copies : s'.copies = []) (writes : s'.writes = []) :
      Processed v table (.error e) (.error e s')

/-- The same exits in both. -/
theorem Processed.of_exit (accepted : Accepted v) {table : List (Nat × Object)}
    {verb : Option Bytes} {server : Server} {code : Nat} {msg path : Bytes}
    (exit : Exits v verb server code msg path) (p : Bytes) :
    Processed v table (errorResponse (some server) code msg path)
      (v.sendErrorResponse (some server) verb code msg path { v.begin_ table with path := p }) := by
  have logged := accepted.logged server (exit.member accepted)
  rw [errorResponse_of_log logged.names logged.errorLog]
  exact .exits exit p

theorem chooseHandler_processed (accepted : Accepted v) {text : RequestText} {server : Server}
    {loc : Location} {root : CString} (table : List (Nat × Object)) (finds : Finds v text server)
    (located : getDocRoot v.site.regexMatch server (cutQuery text.path).1 = some loc)
    (rooted : loc.root = some root) :
    Processed v table (Request.chooseHandler (v.request text server loc) root.text)
      (v.chooseHandler (v.request text server loc) root.text (v.handed table text)) := by
  unfold chooseHandler Request.chooseHandler
  by_cases long : maxLen < root.text.length + (v.request text server loc).path.length
  · rw [if_pos long, if_pos long]
    exact .of_exit accepted (.tooLong finds located rooted long) _
  · have short := Nat.not_lt.mp long
    rw [if_neg long, if_neg long]
    have asked : ∀ verb : handlerFor loc = .byVerb → text.verb = bytes "GET" ∨
        text.verb = bytes "HEAD",
        Processed v table (.ok (.handle (handlerFor loc) (v.request text server loc)))
          (v.call (handlerFor loc) (v.request text server loc) (v.handed table text)) :=
      fun verb => .asks { finds with located, rooted, short, verb }
    by_cases byVerb : handlerFor (v.request text server loc).loc = .byVerb
    · rw [if_neg (not_not.mpr byVerb), if_neg (not_not.mpr byVerb)]
      by_cases good : (v.request text server loc).verb = bytes "GET" ∨
          (v.request text server loc).verb = bytes "HEAD"
      · rw [if_pos good, if_pos good, ← byVerb]
        exact asked fun _ => good
      · rw [if_neg good, if_neg good]
        exact .of_exit accepted (.badVerb finds located rooted short byVerb good) _
    · rw [if_pos byVerb, if_pos byVerb]
      exact asked fun other => absurd other byVerb

theorem routeTo_processed (accepted : Accepted v) {text : RequestText} {server : Server}
    (table : List (Nat × Object)) (finds : Finds v text server) :
    Processed v table
      (Request.routeTo v.site.regexMatch server (savedHeaders v.received) text)
      (v.routeTo server text (v.begin_ table)) := by
  simp only [routeTo, bind_modify_run, Request.routeTo]
  cases located : getDocRoot v.site.regexMatch server (cutQuery text.path).1 with
  | none => exact .of_exit accepted (.noDocRoot finds (by rw [located]; rfl)) _
  | some loc =>
      cases rooted : loc.root with
      | none =>
          simp only [Option.bind_some, rooted, Option.map_none]
          exact .of_exit accepted (.noDocRoot finds (by rw [located]; exact rooted)) _
      | some root =>
          simp only [Option.bind_some, rooted, Option.map_some]
          exact chooseHandler_processed accepted table finds located rooted

theorem routeRequest_processed (accepted : Accepted v) {text : RequestText}
    (table : List (Nat × Object)) (reads : Reads v text) :
    Processed v table (Request.routeRequest v.site (savedHeaders v.received) text)
      (v.routeRequest text (v.begin_ table)) := by
  simp only [routeRequest, Request.routeRequest]
  cases found : getServerForHost v.site.isDefaultServer v.site.servers text.host with
  | error e => exact .faults rfl rfl
  | ok index =>
      rw [bind_liftExcept_ok, except_ok_bind]
      cases here : index.bind fun i => v.site.servers[i]? with
      | none => exact .faults rfl rfl
      | some server =>
          rcases Option.bind_eq_some_iff.mp here with ⟨i, rfl, there⟩
          exact routeTo_processed accepted table { reads with found := ⟨i, found, there⟩ }

theorem processInput_processed (accepted : Accepted v) (table : List (Nat × Object)) :
    Processed v table (dispatch v.site v.listener v.received)
      (v.processInput (v.start table)) := by
  rw [processInput_begin, dispatch]
  by_cases full : v.received.length = buffSize
  · rw [if_pos full, if_pos full]
    exact .of_exit accepted (.tooLarge full) []
  rw [if_neg full, if_neg full]
  by_cases empty : v.received.isEmpty = true
  · rw [if_pos empty, if_pos empty]
    exact .of_exit accepted .noData []
  rw [if_neg empty, if_neg empty]
  cases read : readRequest (inbuff v.received) with
  | error e => exact .faults rfl rfl
  | ok answer =>
      cases answer with
      | none => exact .of_exit accepted .badData []
      | some text =>
          have reads : Reads v text := ⟨full, by simpa using empty, read⟩
          exact routeRequest_processed accepted table reads

/-! ## Requests that are handed over -/

theorem processInput_finds {text : RequestText} {server : Server} (finds : Finds v text server)
    (table : List (Nat × Object)) :
    v.processInput (v.start table) = v.routeTo server text (v.begin_ table) := by
  rcases finds.found with ⟨i, found, here⟩
  rw [processInput_begin, if_neg finds.notFull, if_neg (by simp [finds.nonempty]), finds.read]
  change v.routeRequest text (v.begin_ table) = _
  simp only [routeRequest, found, bind_liftExcept_ok, Option.bind_some, here]

theorem processInput_located {text : RequestText} {server : Server} {loc : Location}
    {root : CString} (finds : Finds v text server)
    (located : getDocRoot v.site.regexMatch server (cutQuery text.path).1 = some loc)
    (rooted : loc.root = some root) (table : List (Nat × Object)) :
    v.processInput (v.start table) =
      v.chooseHandler (v.request text server loc) root.text (v.handed table text) := by
  rw [processInput_finds finds]
  simp only [routeTo, bind_modify_run, located, rooted, Option.bind_some, Option.map_some]
  rfl

/-- The handler of the location is called. -/
theorem processInput_asks {text : RequestText} {server : Server} {loc : Location} {root : CString}
    (asks : Asks v text server loc root) (table : List (Nat × Object)) :
    v.processInput (v.start table) =
      v.call (handlerFor loc) (v.request text server loc) (v.handed table text) := by
  rw [processInput_located asks.toFinds asks.located asks.rooted]
  have short : ¬ maxLen < root.text.length + (v.request text server loc).path.length :=
    Nat.not_lt.mpr asks.short
  rw [chooseHandler, if_neg short]
  by_cases byVerb : handlerFor (v.request text server loc).loc = .byVerb
  · have good : (v.request text server loc).verb = bytes "GET" ∨
        (v.request text server loc).verb = bytes "HEAD" := asks.verb byVerb
    rw [if_neg (not_not.mpr byVerb), if_pos good, ← byVerb]
    rfl
  · rw [if_pos byVerb]
    rfl

/-- An error exit behind the request line is taken. -/
theorem processInput_exits {verb : Bytes} {server : Server} {code : Nat} {msg path : Bytes}
    (exit : Exits v (some verb) server code msg path) (table : List (Nat × Object)) :
    ∃ p, v.processInput (v.start table) =
      v.sendErrorResponse (some server) (some verb) code msg path
        { v.begin_ table with path := p } := by
  cases exit with
  | @noDocRoot text server finds unrooted =>
      refine ⟨(cutQuery text.path).1, ?_⟩
      have nothing : ((getDocRoot v.site.regexMatch server (cutQuery text.path).1).bind fun loc =>
          loc.root.map fun root => (loc, root)) = none := by
        rw [Option.bind_eq_none_iff] at unrooted ⊢
        intro loc located
        rw [unrooted loc located, Option.map_none]
      rw [processInput_finds finds]
      simp only [routeTo, bind_modify_run, nothing]
  | @tooLong text server loc root finds located rooted long =>
      refine ⟨(cutQuery text.path).1, ?_⟩
      have overrun : maxLen < root.text.length + (v.request text server loc).path.length := long
      rw [processInput_located finds located rooted, chooseHandler, if_pos overrun]
      rfl
  | @badVerb text server loc root finds located rooted short byVerb verb =>
      refine ⟨(cutQuery text.path).1, ?_⟩
      have fits : ¬ maxLen < root.text.length + (v.request text server loc).path.length :=
        Nat.not_lt.mpr short
      have called : handlerFor (v.request text server loc).loc = .byVerb := byVerb
      have refused : ¬ ((v.request text server loc).verb = bytes "GET" ∨
          (v.request text server loc).verb = bytes "HEAD") := verb
      rw [processInput_located finds located rooted, chooseHandler, if_neg fits,
        if_neg (not_not.mpr called), if_neg refused]
      rfl

theorem processInput_tries {text : RequestText} {server : Server} {loc : Location}
    {root : CString} (asks : Asks v text server loc root)
    (tries : hasBit loc.type typeTryFiles = true) (table : List (Nat × Object)) :
    v.processInput (v.start table) =
      v.handleTryFiles (v.request text server loc) (v.handed table text) := by
  rw [processInput_asks asks, handlerFor_eq_tryFiles.mpr tries]
  rfl

/-- The path of a request that is handed over fits behind the root. -/
theorem Asks.fits {text : RequestText} {server : Server} {loc : Location} {root : CString}
    (asks : Asks v text server loc root) :
    (joinPath root.text (cutQuery text.path).1).length < 300 := by
  have bound := length_joinPath_le root.text (cutQuery text.path).1
  have checked := asks.short
  simp only [maxLen] at checked
  omega

/-! ## Sample visits -/

/-- The number behind all that are used. -/
def nextFd : List Nat → Nat
  | [] => 0
  | fd :: used => max (fd + 1) (nextFd used)

theorem lt_nextFd {used : List Nat} : ∀ fd ∈ used, fd < nextFd used := by
  induction used with
  | nil => simp
  | cons first rest ih =>
      intro fd member
      rw [nextFd]
      rcases List.mem_cons.mp member with rfl | member
      · exact Nat.lt_of_lt_of_le (Nat.lt_succ_self fd) (Nat.le_max_left _ _)
      · exact Nat.lt_of_lt_of_le (ih fd member) (Nat.le_max_right _ _)

/-- The standard streams. -/
def streams : List (Nat × Object) :=
  [(2, .other), (1, .other), (0, .other)]

/-- A visit to a worker with the configuration, where all system calls succeed that `o` does
not speak of. -/
def ofState (t : ParseState) (listener : Server) (received : Bytes) (o : Outside) : Visit :=
  { site := { isDefaultServer := true, servers := t.serverList, regexMatch := fun _ _ => false }
    listener := listener
    received := received
    outside := o
    content := fun _ => []
    showSize := formatSize
    stale := fun _ => false
    upstreams := t.upstreams
    clientFd := 5
    clientFails := false
    newFd := nextFd
    newFd_notMem := fun used member => Nat.lt_irrefl _ (lt_nextFd _ member)
    recvFails := fun _ => false
    peerIp := bytes "127.0.0.1"
    peerIp_short := by decide
    timestamp := fun _ => bytes "20240101 12:00:00 "
    timestamp_short := fun _ => by decide }

theorem ofState_accepted {gethostbyname : Resolver} {file : ConfigFile} {s t : ParseState}
    (parsed : file.parse gethostbyname = .ok s) (accepted : checkServers .permissive s = .ok t)
    {listener : Server} (listening : listener ∈ t.serverList) (received : Bytes) (o : Outside) :
    (ofState t listener received o).Accepted :=
  ⟨⟨gethostbyname, file, .permissive, s, t, parsed, accepted, rfl, rfl⟩, listening⟩

/-- A request for `/` with this verb finds the first server. -/
theorem finds_slashRequest {t : ParseState} {listener server : Server} (o : Outside)
    {verb : Bytes} (plain : space ∉ verb ∧ 0 ∉ verb) (short : verb.length < 4000)
    (found : getServerForHost true t.serverList (bytes "b") = .ok (some 0))
    (here : t.serverList[0]? = some server) :
    Finds (ofState t listener (verb ++ space :: slashTail) o) { plainText with verb := verb }
      server := by
  have below : (verb ++ space :: slashTail).length < buffSize := by
    have tail : slashTail.length = 23 := rfl
    simp only [List.length_append, List.length_cons, buffSize]
    omega
  exact
    { notFull := Nat.ne_of_lt below
      nonempty := by simp [ofState]
      read := (readRequest_eq_some_iff (terminated_inbuff below)).mpr (slashRequest_read verb plain)
      found := ⟨0, found, here⟩ }

/-- The sample request is handed to the handler of its location. -/
theorem asks_plainRequest {t : ParseState} {listener server : Server} {loc : Location}
    {root : CString} (o : Outside)
    (found : getServerForHost true t.serverList (bytes "b") = .ok (some 0))
    (here : t.serverList[0]? = some server)
    (located : getDocRoot (fun _ _ => false) server (bytes "/") = some loc)
    (rooted : loc.root = some root) (short : root.text.length < maxLen) :
    Asks (ofState t listener plainRequest o) plainText server loc root :=
  { finds_slashRequest o (by decide : space ∉ bytes "GET" ∧ 0 ∉ bytes "GET") (by decide) found
      here with
    located := located
    rooted := rooted
    short := short
    verb := fun _ => .inl rfl }

end Visit

end OgWebserver.Request

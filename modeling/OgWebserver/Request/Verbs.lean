import OgWebserver.Request.Responses

/-!
# Verbs

`processInput` tests the verb behind everything else: a location with `try_files` gets its
handler first, whatever the verb is.  So only plain locations refuse a verb.
-/

namespace OgWebserver.Request

open Text Config Transition

/-- The request is for the server and the location. -/
structure Located (site : Site) (text : RequestText) (server : Server) (loc : Location)
    (root : CString) : Prop where
  found : ∃ i, getServerForHost site.isDefaultServer site.servers text.host = .ok (some i) ∧
    site.servers[i]? = some server
  located : getDocRoot site.regexMatch server (cutQuery text.path).1 = some loc
  rooted : loc.root = some root

/-- No request for the location goes to an upstream. -/
structure LocalFiles (loc : Location) : Prop where
  noProxy : hasBit loc.type typeProxyPass = false
  noFastcgi : hasBit loc.type typeFastcgiPass = false

instance (loc : Location) : Decidable (LocalFiles loc) :=
  decidable_of_iff (hasBit loc.type typeProxyPass = false ∧ hasBit loc.type typeFastcgiPass = false)
    ⟨fun bits => ⟨bits.1, bits.2⟩, fun locals => ⟨locals.noProxy, locals.noFastcgi⟩⟩

/-- What a handler is called with. -/
def handedRequest (received : Bytes) (text : RequestText) (server : Server) (loc : Location) :
    ClientRequest :=
  { verb := text.verb
    path := (cutQuery text.path).1
    queryString := (cutQuery text.path).2
    protocol := text.protocol
    host := text.host
    headers := savedHeaders received
    server := server
    loc := loc }

/-- The verb is refused: no handler is called, so that no file is looked for, and the
response is the error for the verb. -/
structure Refused (site : Site) (o : Outside) (listener : Server) (received verb : Bytes)
    (w : World) : Prop where
  decided : dispatch site listener received =
    .ok (.error 405 (bytes "Method Not Allowed") verb)
  response : processInput site o listener received w =
    .ok (w.emit (.respond (.error 405 (bytes "Method Not Allowed"))))

variable {site : Site} {text : RequestText} {server listener : Server} {loc : Location}
variable {root : CString} {received : Bytes} {o : Outside} {req : ClientRequest} {w : World}

theorem Handed.toLocated (handed : Handed site text server loc root) :
    Located site text server loc root where
  found := handed.found
  located := handed.located
  rooted := handed.rooted

/-- The verb and the length of the path are all that is left to be tested. -/
theorem dispatch_of_located (read : readRequest (inbuff received) = .ok (some text))
    (nonempty : received ≠ []) (short : received.length < buffSize)
    (located : Located site text server loc root) :
    dispatch site listener received =
      chooseHandler (handedRequest received text server loc) root.text := by
  rcases located.found with ⟨i, found, here⟩
  have notFull : received.length ≠ buffSize := Nat.ne_of_lt short
  have notEmpty : received.isEmpty = false := by simpa using nonempty
  simp only [dispatch, if_neg notFull, notEmpty, Bool.false_eq_true, if_false, read, bind,
    Except.bind, routeRequest, found, Option.bind_some, here, routeTo, located.located,
    located.rooted, Option.map_some]
  rfl

theorem handlerFor_of_localFiles (locals : LocalFiles loc) :
    handlerFor loc = if hasBit loc.type typeTryFiles then .tryFiles else .byVerb := by
  simp [handlerFor, locals.noProxy, locals.noFastcgi]

/-- Of the decisions for a request, only the last one calls a handler. -/
theorem errorResponse_ne_handle {server : Option Server} {code : Nat} {msg path : Bytes}
    {handler : Handler} : errorResponse server code msg path ≠ .ok (.handle handler req) := by
  intro decided
  unfold errorResponse at decided
  split at decided
  · cases decided
  · split at decided <;> cases decided

theorem handled_of_chooseHandler {root : Bytes} {handler : Handler} {req' : ClientRequest}
    (decided : chooseHandler req root = .ok (.handle handler req')) :
    root.length + req.path.length ≤ maxLen ∧ handler = handlerFor req.loc ∧ req' = req := by
  unfold chooseHandler at decided
  split at decided
  · exact absurd decided errorResponse_ne_handle
  case isFalse short =>
    split at decided
    · obtain ⟨rfl, rfl⟩ := Decision.handle.inj (Except.ok.inj decided)
      exact ⟨Nat.not_lt.mp short, rfl, rfl⟩
    case isFalse byVerb =>
      split at decided
      · obtain ⟨rfl, rfl⟩ := Decision.handle.inj (Except.ok.inj decided)
        exact ⟨Nat.not_lt.mp short, (not_not.mp byVerb).symm, rfl⟩
      · exact absurd decided errorResponse_ne_handle

/-- A handler is called for a request that is read and handed to it only. -/
theorem handed_of_dispatch {handler : Handler}
    (decided : dispatch site listener received = .ok (.handle handler req)) :
    received.length ≠ buffSize ∧ ∃ text root,
      readRequest (inbuff received) = .ok (some text) ∧ Handed site text req.server req.loc root ∧
      handler = handlerFor req.loc ∧ req = handedRequest received text req.server req.loc := by
  unfold dispatch at decided
  split at decided
  · exact absurd decided errorResponse_ne_handle
  case isFalse notFull =>
    split at decided
    · exact absurd decided errorResponse_ne_handle
    · rcases bind_eq_ok_iff.mp decided with ⟨_ | text, read, decided⟩
      · exact absurd decided errorResponse_ne_handle
      · rcases bind_eq_ok_iff.mp decided with ⟨found, lookup, decided⟩
        rcases found with _ | i
        · exact absurd decided errorResponse_ne_handle
        rw [Option.bind_some] at decided
        cases here : site.servers[i]? with
        | none =>
            rw [here] at decided
            exact absurd decided errorResponse_ne_handle
        | some server =>
            simp only [here, routeTo] at decided
            cases located : getDocRoot site.regexMatch server (cutQuery text.path).1 with
            | none =>
                rw [located] at decided
                exact absurd decided errorResponse_ne_handle
            | some loc =>
                cases rooted : loc.root with
                | none =>
                    simp only [located, Option.bind_some, rooted, Option.map_none] at decided
                    exact absurd decided errorResponse_ne_handle
                | some root =>
                    simp only [located, Option.bind_some, rooted, Option.map_some] at decided
                    rcases handled_of_chooseHandler decided with ⟨short, rfl, rfl⟩
                    exact ⟨notFull, text, root, read, ⟨⟨i, lookup, here⟩, located, rooted, short⟩,
                      rfl, rfl⟩

/-! ## Responses of local files -/

/-- A response of the handlers of local files, up to the verb. -/
inductive LocalResponse
  | notFound
  | file (fullPath mimeType : Bytes) (size : Nat)
  | listing (entries : List Bytes)

/-- The response to a request with the verb. -/
def LocalResponse.forVerb (verb : Bytes) : LocalResponse → Response
  | notFound => .error 404 (bytes "Not Found")
  | file fullPath mimeType size => .file fullPath mimeType size (verb == bytes "GET")
  | listing entries => .listing entries

def World.respondAll (w : World) (verb : Bytes) (responses : List LocalResponse) : World :=
  { w with events := w.events ++ responses.map fun r => .respond (r.forVerb verb) }

/-- The request with other texts, of which the handlers of local files look at the verb only. -/
def ClientRequest.withVerb (verb headers : Bytes) (req : ClientRequest) : ClientRequest :=
  { req with verb := verb, headers := headers }

@[simp] theorem ClientRequest.withVerb_server (verb headers : Bytes) (req : ClientRequest) :
    (req.withVerb verb headers).server = req.server := by
  rfl

@[simp] theorem ClientRequest.withVerb_loc (verb headers : Bytes) (req : ClientRequest) :
    (req.withVerb verb headers).loc = req.loc := by
  rfl

@[simp] theorem ClientRequest.withVerb_path (verb headers : Bytes) (req : ClientRequest) :
    (req.withVerb verb headers).path = req.path := by
  rfl

/-- Whatever the verb is, and whatever has been sent before: the handler sends the same, up to
the verb. -/
def AnswersLocally (handler : Bytes → Bytes → World → Except Fault World) : Prop :=
  ∃ outcome : Except Fault (List LocalResponse), ∀ verb headers w,
    handler verb headers w = outcome.map (w.respondAll verb)

/-- What is sent is added behind what has been sent, and with another verb it is the same. -/
theorem AnswersLocally.added {handler : Bytes → Bytes → World → Except Fault World}
    (answers : AnswersLocally handler) {verb headers : Bytes} {after : World}
    (ran : handler verb headers w = .ok after) :
    ∃ responses, after = w.respondAll verb responses ∧
      ∀ verb' headers', handler verb' headers' w = .ok (w.respondAll verb' responses) := by
  rcases answers with ⟨fault | responses, is⟩
  · cases (is verb headers w).symm.trans ran
  · refine ⟨responses, ?_, fun verb' headers' => is verb' headers' w⟩
    exact (Except.ok.inj ((is verb headers w).symm.trans ran)).symm

theorem answersLocally_bind {α : Type} (first : Except Fault α)
    {second : α → Bytes → Bytes → World → Except Fault World}
    (each : ∀ a, AnswersLocally (second a)) :
    AnswersLocally fun verb headers w => first >>= fun a => second a verb headers w := by
  choose outcome is using each
  refine ⟨first >>= outcome, ?_⟩
  intro verb headers w
  cases first with
  | error fault => rfl
  | ok a => exact is a verb headers w

theorem answersLocally_ite {p : Prop} [Decidable p]
    {first second : Bytes → Bytes → World → Except Fault World} (yes : AnswersLocally first)
    (no : AnswersLocally second) :
    AnswersLocally fun verb headers w =>
      if p then first verb headers w else second verb headers w := by
  by_cases holds : p
  · simpa only [if_pos holds] using yes
  · simpa only [if_neg holds] using no

theorem answersLocally_then {first second : Bytes → Bytes → World → Except Fault World}
    (one : AnswersLocally first) (more : AnswersLocally second) :
    AnswersLocally fun verb headers w => first verb headers w >>= second verb headers := by
  rcases one with ⟨outcome, is⟩
  rcases more with ⟨outcome', is'⟩
  refine ⟨do .ok ((← outcome) ++ (← outcome')), ?_⟩
  intro verb headers w
  dsimp only
  rw [is]
  rcases outcome with fault | responses
  · rfl
  have behind := is' verb headers (w.respondAll verb responses)
  rcases outcome' with fault | responses'
  · exact behind
  · apply behind.trans
    simp [World.respondAll, Except.map, bind, Except.bind]

theorem answersLocally_notFound (path : Bytes) :
    AnswersLocally fun verb headers =>
      sendErrorResponse (req.withVerb verb headers) 404 (bytes "Not Found") path := by
  apply answersLocally_bind (errorResponse (some req.server) 404 (bytes "Not Found") path)
  intro _
  exact ⟨.ok [.notFound], fun _ _ _ => rfl⟩

theorem answersLocally_serveFile (o : Outside) (fullPath : Bytes) :
    AnswersLocally fun verb headers => serveFile o (req.withVerb verb headers) fullPath := by
  apply answersLocally_bind (getMimeType o fullPath)
  intro mimeType
  exact ⟨.ok [.file fullPath mimeType (o.fs.size fullPath)], fun _ _ _ => rfl⟩

theorem answersLocally_listing (o : Outside) (fullPath : Bytes) :
    AnswersLocally fun verb headers =>
      showDirectoryListing o (req.withVerb verb headers) fullPath := by
  unfold showDirectoryListing
  cases o.fs.entries fullPath with
  | none => exact answersLocally_notFound req.path
  | some entries =>
      exact ⟨.ok [.listing (entries.filter (· ≠ bytes "."))], fun _ _ _ => rfl⟩

theorem answersLocally_handleGetVerb (o : Outside) :
    AnswersLocally fun verb headers => handleGetVerb o (req.withVerb verb headers) := by
  apply answersLocally_bind (pathExists o req req.path)
  rintro ⟨fullPath, _ | _ | _⟩
  · exact answersLocally_notFound req.path
  · apply answersLocally_ite
    · exact answersLocally_serveFile o fullPath
    · exact answersLocally_notFound req.path
  · apply answersLocally_bind (openDefaultIndexFile o fullPath req.server.indexFiles)
    rintro (_ | indexPath)
    · simp only [ClientRequest.withVerb_server]
      apply answersLocally_ite
      · exact answersLocally_listing o fullPath
      · exact answersLocally_notFound req.path
    · exact answersLocally_serveFile o indexPath

theorem answersLocally_serveDefaultFile (o : Outside)
    (noProxy : hasBit req.loc.type typeProxyPass = false) (tryTarget : Option Bytes) :
    AnswersLocally fun verb headers =>
      serveDefaultFile o tryTarget (req.withVerb verb headers) := by
  unfold serveDefaultFile
  simp only [ClientRequest.withVerb_loc, noProxy, Bool.false_eq_true, if_false]
  cases tryTarget with
  | none => exact ⟨.error .nullPointer, fun _ _ _ => rfl⟩
  | some target =>
      apply answersLocally_bind (pathExists o req target)
      rintro ⟨fullPath, isDir⟩
      have notFound := @answersLocally_notFound { req with path := target } target
      apply answersLocally_ite
      · exact notFound
      · apply answersLocally_ite
        · exact @answersLocally_serveFile { req with path := target } o fullPath
        · exact notFound

theorem answersLocally_tryFiles (o : Outside)
    (noProxy : hasBit req.loc.type typeProxyPass = false) (tryTarget : Option Bytes) :
    AnswersLocally fun verb headers => tryFiles o tryTarget (req.withVerb verb headers) := by
  have default_ := answersLocally_serveDefaultFile o noProxy tryTarget
  apply answersLocally_bind (pathExists o req req.path)
  rintro ⟨fullPath, _ | _ | _⟩
  · exact default_
  · apply answersLocally_ite
    · exact answersLocally_serveFile o fullPath
    · exact default_
  · apply answersLocally_bind (openDefaultIndexFile o fullPath req.server.indexFiles)
    rintro (_ | indexPath)
    · simp only [ClientRequest.withVerb_server]
      apply answersLocally_ite
      · exact answersLocally_listing o fullPath
      · exact default_
    · simp only [ClientRequest.withVerb_loc, noProxy, Bool.false_eq_true, if_false]
      exact answersLocally_serveFile o indexPath

theorem answersLocally_handleTryFiles (o : Outside)
    (noProxy : hasBit req.loc.type typeProxyPass = false) :
    AnswersLocally fun verb headers => handleTryFiles o (req.withVerb verb headers) := by
  unfold handleTryFiles
  simp only [ClientRequest.withVerb_loc]
  cases checkTryFilesFormat req.loc with
  | some target => exact answersLocally_tryFiles o noProxy (some target)
  | none =>
      exact answersLocally_then (answersLocally_notFound req.path)
        (answersLocally_tryFiles o noProxy none)

/-- So it is with the handler that a location without pass directives gets. -/
theorem answersLocally_call (o : Outside) (locals : LocalFiles req.loc) :
    AnswersLocally fun verb headers =>
      (handlerFor req.loc).call o (req.withVerb verb headers) := by
  rw [handlerFor_of_localFiles locals]
  split
  · exact answersLocally_handleTryFiles o locals.noProxy
  · exact answersLocally_handleGetVerb o

/-! ## Requests with another verb -/

/-- What is answered for `try_files` is never the error for a verb. -/
theorem handleTryFiles_ne_refusal (noProxy : hasBit req.loc.type typeProxyPass = false)
    {verb headers : Bytes} :
    handleTryFiles o (req.withVerb verb headers) w ≠
      .ok (w.emit (.respond (.error 405 (bytes "Method Not Allowed")))) := by
  intro ran
  rcases (answersLocally_handleTryFiles o noProxy).added ran with ⟨responses, is, _⟩
  have events := List.append_cancel_left (congrArg World.events is)
  rcases List.map_eq_singleton_iff.mp events.symm with ⟨r, _, same⟩
  cases r <;> cases same

/-- A request with another verb than GET and HEAD, for a location of an accepted
configuration without pass directives, is refused if and only if the location has no
`try_files`, and the path is not too long for it. -/
theorem refused_iff {gethostbyname : Resolver} {file : ConfigFile} {env : CheckEnv}
    {s t : ParseState} (parsed : file.parse gethostbyname = .ok s)
    (accepted : checkServers env s = .ok t) (regexMatch : Bytes → Bytes → Bool)
    (nonempty : received ≠ []) (short : received.length < buffSize) {rest : Bytes}
    (line : RequestLine (inbuff received) text rest) (host : HostIn rest text.host)
    (located : Located
      { isDefaultServer := env.isDefaultServer
        servers := t.serverList
        regexMatch := regexMatch } text server loc root)
    (locals : LocalFiles loc) (verb : text.verb ≠ bytes "GET" ∧ text.verb ≠ bytes "HEAD")
    (listener : Server) (o : Outside) (w : World) :
    Refused
        { isDefaultServer := env.isDefaultServer
          servers := t.serverList
          regexMatch := regexMatch } o listener received text.verb w ↔
      hasBit loc.type typeTryFiles = false ∧
        root.text.length + (cutQuery text.path).1.length ≤ maxLen := by
  have read := (readRequest_eq_some_iff (terminated_inbuff short)).mpr ⟨rest, line, host⟩
  have complete : Complete server := by
    rcases located.found with ⟨i, _, here⟩
    exact complete_of_accepted parsed accepted server (List.mem_of_getElem? here)
  have decided := @dispatch_of_located _ _ _ listener _ _ _ read nonempty short located
  have own : (handedRequest received text server loc).server = server := rfl
  have otherVerb : ¬ ((handedRequest received text server loc).verb = bytes "GET" ∨
      (handedRequest received text server loc).verb = bytes "HEAD") :=
    not_or.mpr verb
  rw [chooseHandler, own, errorResponse_of_complete complete, errorResponse_of_complete complete,
    if_neg otherVerb] at decided
  by_cases long : maxLen < root.text.length + (handedRequest received text server loc).path.length
  · rw [if_pos long] at decided
    apply iff_of_false
    · intro refused
      cases decided.symm.trans refused.decided
    · rintro ⟨_, fits⟩
      exact absurd fits (Nat.not_le.mpr long)
  · rw [if_neg long] at decided
    have fits : root.text.length + (cutQuery text.path).1.length ≤ maxLen := Nat.not_lt.mp long
    rw [and_iff_left fits]
    have handler := handlerFor_of_localFiles locals
    cases tries : hasBit loc.type typeTryFiles with
    | true =>
        rw [tries, if_pos rfl] at handler
        have given : handlerFor (handedRequest received text server loc).loc = .tryFiles := handler
        rw [given, if_pos (by simp)] at decided
        apply iff_of_false
        · intro refused
          have response := refused.response
          rw [processInput, decided] at response
          have ran : handleTryFiles o ((handedRequest received text server loc).withVerb text.verb
              (savedHeaders received)) w = .ok _ := response
          exact handleTryFiles_ne_refusal locals.noProxy ran
        · simp
    | false =>
        rw [tries, if_neg (by simp)] at handler
        have given : handlerFor (handedRequest received text server loc).loc = .byVerb := handler
        rw [given, if_neg (by simp)] at decided
        apply iff_of_true
        · exact ⟨decided, by rw [processInput, decided]; rfl⟩
        · rfl

/-- A request for `/` behind its verb, with a host line. -/
def slashTail : Bytes :=
  bytes "/ HTTP/1.1\r\nHost: b\r\n\r\n"

/-- Such a request is read with any verb. -/
theorem slashRequest_read (verb : Bytes) (plain : space ∉ verb ∧ 0 ∉ verb) :
    ∃ rest, RequestLine (inbuff (verb ++ space :: slashTail)) { plainText with verb := verb } rest ∧
      HostIn rest plainText.host := by
  let zeros : Bytes := List.replicate (buffSize - (verb ++ space :: slashTail).length) 0
  have all : inbuff (verb ++ space :: slashTail) = verb ++ space :: (slashTail ++ zeros) := by
    simp [inbuff, zeros]
  have path : space ∉ plainText.path ∧ 0 ∉ plainText.path := by decide
  have protocol : carriageReturn ∉ plainText.protocol ∧ 0 ∉ plainText.protocol := by decide
  refine ⟨bytes "\nHost: b\r\n\r\n" ++ zeros, ⟨all, plain, path, protocol⟩, ?_⟩
  have host : hostHeader <+: bytes "Host: b\r\n\r\n" ++ zeros :=
    ⟨bytes "b\r\n\r\n" ++ zeros, rfl⟩
  exact ⟨bytes "Host: b\r\n\r\n" ++ zeros, bytes "\n\r\n" ++ zeros,
    (leadsTo_here (by decide) host).mpr rfl, rfl, by decide, by decide⟩

/-- `POST / HTTP/1.1`. -/
def postRequest : Bytes :=
  bytes "POST" ++ space :: slashTail

def postText : RequestText :=
  { plainText with verb := bytes "POST" }

theorem postRequest_read :
    ∃ rest, RequestLine (inbuff postRequest) postText rest ∧ HostIn rest postText.host :=
  slashRequest_read (bytes "POST") (by decide)

theorem refused_iff_plain :
    ∃ s t listener, twoServers.parse (fun _ => none) = .ok s ∧
      checkServers .permissive s = .ok t ∧
      Refused
        { isDefaultServer := CheckEnv.permissive.isDefaultServer
          servers := t.serverList
          regexMatch := fun _ _ => false } plainFiles listener postRequest (bytes "POST")
        { upstreams := [], events := [] } := by
  rcases postRequest_read with ⟨rest, line, host⟩
  refine ⟨_, _, { serverOf .initial with locations := [] }, rfl, rfl, ?_⟩
  refine (@refused_iff _ _ _ _ postRequest (fun _ => none) twoServers .permissive _ _ rfl rfl
    (fun _ _ => false) (by decide) (by decide) rest line host
    ⟨⟨0, rfl, rfl⟩, rfl, rfl⟩ ⟨rfl, rfl⟩ (by decide) _ plainFiles _).mpr ⟨rfl, by decide⟩

/-- `server { location / { root /srv; try_files $uri $uri/ /a; } }`. -/
def tryFile : ConfigFile :=
  passFile (.tryFiles (bytes "$uri") [bytes "$uri/", bytes "/a"])

/-- A location with `try_files` answers a POST like a HEAD, with the header of the file. -/
theorem post_tryFiles_served :
    ∃ s t server loc root, tryFile.parse (fun _ => none) = .ok s ∧
      checkServers .permissive s = .ok t ∧
      Located ⟨CheckEnv.permissive.isDefaultServer, t.serverList, fun _ _ => false⟩ postText server
        loc root ∧
      LocalFiles loc ∧
      (∃ rest, RequestLine (inbuff postRequest) postText rest ∧ HostIn rest postText.host) ∧
      processInput ⟨CheckEnv.permissive.isDefaultServer, t.serverList, fun _ _ => false⟩ plainFiles
          server postRequest { upstreams := [], events := [] } =
        .ok { upstreams := []
              events := [.respond (.file (bytes "/srv/") (bytes "text/html") 0 false)] } ∧
      ¬ Refused ⟨CheckEnv.permissive.isDefaultServer, t.serverList, fun _ _ => false⟩ plainFiles
          server postRequest (bytes "POST") { upstreams := [], events := [] } := by
  refine ⟨_, _, _, _, _, rfl, rfl, ⟨⟨0, rfl, rfl⟩, rfl, rfl⟩, ⟨rfl, rfl⟩, postRequest_read, rfl, ?_⟩
  intro refused
  cases refused.decided

end OgWebserver.Request

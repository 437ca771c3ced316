import OgWebserver.Request.Alone
import OgWebserver.Request.Verbs

/-!
# HEAD and GET

A HEAD request should be answered with the header of the GET request, and without a body.
The two requests take the same way, but only `serveFile` looks at the verb at its end: error
pages and directory listings are sent to both.
-/

namespace OgWebserver.Request

open Text Config Transition

/-! ## Headers and bodies -/

/-- The page of `sendErrorResponse`. -/
def errorPage (code : Nat) (msg : Bytes) : Bytes :=
  let title := decimal code ++ bytes " " ++ msg
  bytes "<html>\r\n<head><title>" ++ title ++ bytes "</title></head>\r\n<center><h1>" ++ title ++
    bytes "</h1></center>\r\n</body>\r\n</html>\r\n"

namespace Reply

/-- The status code and the number behind `Content-Length`, if they are sent. -/
def head : Reply → Option (Nat × Bytes)
  | error code msg => some (code, formatSize (errorPage code msg).length)
  | file _ size _ => some (200, formatSize size)
  | listingHeader contentLength => some (200, formatSize contentLength)
  | listingFragment _ | listingFooter | relayed _ => none

/-- What is sent behind the header. -/
def body : Reply → Bytes
  | error code msg => errorPage code msg
  | file _ _ content => content.getD []
  -- the first part of the page is sent with the header
  | listingHeader _ => Listing.header
  | listingFragment fragment => fragment
  | listingFooter => Listing.footer
  | relayed sent => sent

end Reply

namespace Client

/-- The client with another request: the verb, a space, and the rest. -/
def asks (c : Client) (verb tail : Bytes) : Client :=
  { c with received := verb ++ space :: tail }

/-- What the client gets of `processInput`. -/
def responses (c : Client) : Except Fault (List Reply) :=
  c.sends (processInput c.site c.outside c.listener c.received)

/-- HEAD agrees with GET: both get the same headers, and HEAD gets no body. -/
def HeadAgrees (c : Client) (tail : Bytes) : Prop :=
  ∃ head get, (c.asks (bytes "HEAD") tail).responses = .ok head ∧
    (c.asks (bytes "GET") tail).responses = .ok get ∧
    head.filterMap Reply.head = get.filterMap Reply.head ∧ head.flatMap Reply.body = []

end Client

/-- The default file of `try_files` is served. -/
def DefaultServed (o : Outside) (root target : Bytes) : Prop :=
  (joinPath root target).length < 300 ∧ o.fs.isDir (joinPath root target) ≠ some true ∧
    o.fs.opens (joinPath root target) = true ∧ MimeFits o (joinPath root target)

/-- A file is there for the path, and no name overruns its buffer: the file of the path, an
index file, or else, with `try_files` in the known format, the default file. -/
def ServesFile (o : Outside) (server : Server) (loc : Location) (root fullPath : Bytes) : Prop :=
  LookupFits o server fullPath ∧
    ((hasBit loc.type typeTryFiles = true → (checkTryFilesFormat loc).isSome) ∧
        (∃ path, servedFile o server fullPath = some path ∧ MimeFits o path) ∨
      hasBit loc.type typeTryFiles = true ∧ fallsBack o server fullPath = true ∧
        ∃ target, checkTryFilesFormat loc = some target ∧ DefaultServed o root target)

/-- The request fits the buffer, it is read, its server and location are found, and they have
a file for it. -/
def FileRequested (site : Site) (o : Outside) (received : Bytes) : Prop :=
  received.length < buffSize ∧
    ∃ text rest server loc root, RequestLine (inbuff received) text rest ∧
      HostIn rest text.host ∧ Handed site text server loc root ∧
      ServesFile o server loc root.text (joinPath root.text (cutQuery text.path).1)

variable {o : Outside} {req : ClientRequest} {w : World}

/-! ## Responses without a body -/

/-- The event is a file's header alone. -/
def Event.headerOnly : Event → Bool
  | .respond (.file _ _ _ withBody) => !withBody
  | _ => false

/-- The handler returns, and nothing but headers of files has been sent. -/
def Bodyless (result : Except Fault World) : Prop :=
  ∃ after, result = .ok after ∧ ∀ event ∈ after.events, event.headerOnly = true

theorem bodyless_bind_iff {α : Type} {first : Except Fault α} {second : α → Except Fault World} :
    Bodyless (first >>= second) ↔ ∃ a, first = .ok a ∧ Bodyless (second a) := by
  constructor
  · rintro ⟨after, ran, headers⟩
    rcases bind_eq_ok_iff.mp ran with ⟨a, one, more⟩
    exact ⟨a, one, after, more, headers⟩
  · rintro ⟨a, one, after, more, headers⟩
    exact ⟨after, bind_eq_ok_iff.mpr ⟨a, one, more⟩, headers⟩

theorem bodyless_emit_iff {event : Event} :
    Bodyless (.ok (w.emit event)) ↔ Bodyless (.ok w) ∧ event.headerOnly = true := by
  simp [Bodyless, World.emit, or_imp, forall_and]

theorem not_bodyless_notFound (path : Bytes) :
    ¬ Bodyless (sendErrorResponse req 404 (bytes "Not Found") path w) := by
  rw [sendErrorResponse, bodyless_bind_iff]
  rintro ⟨_, _, bodyless⟩
  cases (bodyless_emit_iff.mp bodyless).2

theorem not_bodyless_listing (fullPath : Bytes) :
    ¬ Bodyless (showDirectoryListing o req fullPath w) := by
  unfold showDirectoryListing
  cases o.fs.entries fullPath with
  | none => exact not_bodyless_notFound req.path
  | some entries =>
      intro bodyless
      cases (bodyless_emit_iff.mp bodyless).2

/-- The request is one with HEAD, and nothing has been sent. -/
structure Asked (req : ClientRequest) (w : World) : Prop where
  verb : req.verb = bytes "HEAD"
  fresh : w.events = []

theorem Asked.bodyless (asked : Asked req w) : Bodyless (.ok w) :=
  ⟨w, rfl, by simp [asked.fresh]⟩

theorem bodyless_serveFile_iff (asked : Asked req w) (fullPath : Bytes) :
    Bodyless (serveFile o req fullPath w) ↔ MimeFits o fullPath := by
  have noBody : (bytes "HEAD" == bytes "GET") = false := by decide
  rw [serveFile, bodyless_bind_iff, ← getMimeType_ok_iff, asked.verb, noBody]
  refine exists_congr fun mimeType => and_iff_left ?_
  exact bodyless_emit_iff.mpr ⟨asked.bodyless, rfl⟩

theorem bodyless_handleGetVerb_iff (asked : Asked req w) {root : CString}
    (rooted : req.loc.root = some root) (short : (joinPath root.text req.path).length < 300) :
    Bodyless (handleGetVerb o req w) ↔
      LookupFits o req.server (joinPath root.text req.path) ∧
        ∃ path, servedFile o req.server (joinPath root.text req.path) = some path ∧
          MimeFits o path := by
  rw [handleGetVerb_eq_lookUp rooted short, bodyless_bind_iff]
  simp only [lookUp_eq_ok_iff, and_assoc, exists_and_left, exists_eq_left]
  apply and_congr_right
  intro _
  cases servedFile o req.server (joinPath root.text req.path) with
  | none =>
      dsimp only
      split
      · simp [not_bodyless_listing]
      · simp [not_bodyless_notFound]
  | some path => simp [bodyless_serveFile_iff asked]

theorem bodyless_serveDefaultFile_iff (asked : Asked req w)
    (noProxy : hasBit req.loc.type typeProxyPass = false) {root : CString}
    (rooted : req.loc.root = some root) (tryTarget : Option Bytes) :
    Bodyless (serveDefaultFile o tryTarget req w) ↔
      ∃ target, tryTarget = some target ∧ DefaultServed o root.text target := by
  unfold serveDefaultFile
  rw [noProxy, if_neg (by simp)]
  cases tryTarget with
  | none =>
      apply iff_of_false
      · rintro ⟨_, ran, _⟩
        cases ran
      · simp
  | some target =>
      have asked' : Asked { req with path := target } w := ⟨asked.verb, asked.fresh⟩
      simp only [Option.some.injEq, exists_eq_left', DefaultServed]
      rw [pathExists_eq rooted]
      by_cases fits : (joinPath root.text target).length < 300
      · rw [if_pos fits, bodyless_bind_iff]
        simp only [Except.ok.injEq, exists_eq_left', fits, true_and]
        by_cases dir : o.fs.isDir (joinPath root.text target) = some true
        · simp [dir, not_bodyless_notFound]
        · cases o.fs.opens (joinPath root.text target) with
          | true => simp [dir, bodyless_serveFile_iff asked']
          | false => simp [dir, not_bodyless_notFound]
      · rw [if_neg fits]
        simp [fits, bodyless_bind_iff]

theorem bodyless_tryFiles_iff (asked : Asked req w)
    (noProxy : hasBit req.loc.type typeProxyPass = false) {root : CString}
    (rooted : req.loc.root = some root) (short : (joinPath root.text req.path).length < 300)
    (tryTarget : Option Bytes) :
    Bodyless (tryFiles o tryTarget req w) ↔
      LookupFits o req.server (joinPath root.text req.path) ∧
        ((∃ path, servedFile o req.server (joinPath root.text req.path) = some path ∧
            MimeFits o path) ∨
          fallsBack o req.server (joinPath root.text req.path) = true ∧
            ∃ target, tryTarget = some target ∧ DefaultServed o root.text target) := by
  rw [tryFiles_eq_lookUp rooted short, bodyless_bind_iff]
  simp only [lookUp_eq_ok_iff, and_assoc, exists_and_left, exists_eq_left]
  apply and_congr_right
  intro _
  cases found : servedFile o req.server (joinPath root.text req.path) with
  | none =>
      dsimp only
      split
      case isTrue listed => simp [fallsBack, found, listed, not_bodyless_listing]
      case isFalse unlisted =>
        simp [fallsBack, found, unlisted,
          bodyless_serveDefaultFile_iff asked noProxy rooted tryTarget]
  | some path => simp [fallsBack, found, noProxy, bodyless_serveFile_iff asked]

/-- The error response to an unknown format has a body. -/
theorem bodyless_handleTryFiles_iff (noProxy : hasBit req.loc.type typeProxyPass = false) :
    Bodyless (handleTryFiles o req w) ↔
      ∃ target, checkTryFilesFormat req.loc = some target ∧
        Bodyless (tryFiles o (some target) req w) := by
  unfold handleTryFiles
  cases checkTryFilesFormat req.loc with
  | some target => simp
  | none =>
      apply iff_of_false
      · intro bodyless
        rcases bodyless_bind_iff.mp bodyless with ⟨between, first, after, ran, headers⟩
        rcases bind_eq_ok_iff.mp first with ⟨_, _, emitted⟩
        obtain rfl := Except.ok.inj emitted
        rcases (answersLocally_tryFiles o noProxy none).added ran with ⟨_, rfl, _⟩
        have error := headers (.respond (.error 404 (bytes "Not Found")))
          (by simp [World.respondAll, World.emit])
        cases error
      · simp

/-- The handler of a location for local files answers HEAD without a body if and only if it
has a file for the path. -/
theorem bodyless_call_iff (asked : Asked req w) (locals : LocalFiles req.loc) {root : CString}
    (rooted : req.loc.root = some root) (short : (joinPath root.text req.path).length < 300) :
    Bodyless ((handlerFor req.loc).call o req w) ↔
      ServesFile o req.server req.loc root.text (joinPath root.text req.path) := by
  rw [handlerFor_of_localFiles locals, ServesFile]
  cases tries : hasBit req.loc.type typeTryFiles with
  | false =>
      simp only [Bool.false_eq_true, false_imp_iff, true_and, false_and, or_false]
      exact bodyless_handleGetVerb_iff asked rooted short
  | true =>
      have called : Handler.tryFiles.call o req w = handleTryFiles o req w := rfl
      rw [if_pos rfl, called, bodyless_handleTryFiles_iff locals.noProxy]
      cases format : checkTryFilesFormat req.loc with
      | none => simp
      | some target =>
          simp [bodyless_tryFiles_iff asked locals.noProxy rooted short]

/-! ## Reading the two requests -/

theorem prefix_append_zero_iff {text p : Bytes} (noZero : 0 ∉ text) :
    text <+: p ++ [0] ↔ text <+: p := by
  constructor
  · intro begins
    rcases List.prefix_concat_iff.mp begins with rfl | begins
    · simp at noZero
    · exact begins
  · intro begins
    exact begins.trans (List.prefix_append p [0])

/-- A zero more behind the buffer changes nothing. -/
theorem leadsTo_append_zero {p found : Bytes} (leads : LeadsTo p found) :
    LeadsTo (p ++ [0]) (found ++ [0]) := by
  have noZero : 0 ∉ hostHeader := by decide
  rcases leads with ⟨skipped, rfl, some, noZeroIn, here, first⟩ | ⟨line, rfl, noZeroIn, first⟩
  · refine .inl ⟨skipped, List.append_assoc _ _ _, some, noZeroIn,
      (prefix_append_zero_iff noZero).mpr here, ?_⟩
    intro early late split someEarly someLate
    rw [← List.append_assoc, prefix_append_zero_iff noZero]
    exact first early late split someEarly someLate
  · refine .inr ⟨line, by simp, noZeroIn, ?_⟩
    intro early late split someEarly
    have regroup : late ++ 0 :: (found ++ [0]) = late ++ 0 :: found ++ [0] := by simp
    rw [regroup, prefix_append_zero_iff noZero]
    exact first early late split someEarly

theorem hostIn_append_zero {rest host : Bytes} (hostIn : HostIn rest host) :
    HostIn (rest ++ [0]) host := by
  rcases hostIn with ⟨found, after, leads, split, noReturn, noZero⟩
  refine ⟨found ++ [0], after ++ [0], leadsTo_append_zero leads, ?_, noReturn, noZero⟩
  have size : hostHeader.length ≤ found.length := by
    by_contra shorter
    rw [List.drop_eq_nil_of_le (by omega)] at split
    simp at split
  rw [List.drop_append_of_le_length size, split]
  simp

/-- The buffer of a request, behind the verb. -/
theorem inbuff_verb (verb tail : Bytes) :
    inbuff (verb ++ space :: tail) =
      verb ++ space :: (tail ++ List.replicate (buffSize - (verb.length + 1 + tail.length)) 0) := by
  rw [inbuff]
  simp [Nat.add_comm, Nat.add_left_comm]

/-- GET is read like HEAD, with a zero more behind the request. -/
theorem get_of_head {tail rest : Bytes} {text : RequestText}
    (short : (bytes "HEAD" ++ space :: tail).length < buffSize)
    (line : RequestLine (inbuff (bytes "HEAD" ++ space :: tail)) text rest) :
    text.verb = bytes "HEAD" ∧
      RequestLine (inbuff (bytes "GET" ++ space :: tail)) { text with verb := bytes "GET" }
        (rest ++ [0]) := by
  have split := line.split
  rw [inbuff_verb] at split
  have cut := @strchr_append space text.verb
    (text.path ++ space :: (text.protocol ++ carriageReturn :: rest)) line.verb.1 line.verb.2
  rw [← split, strchr_append (by decide) (by decide)] at cut
  obtain ⟨verb, behind⟩ := Search.found.inj cut
  refine ⟨verb.symm, ?_, (by decide : space ∉ bytes "GET" ∧ 0 ∉ bytes "GET"), line.path,
    line.protocol⟩
  have size : (bytes "HEAD").length = (bytes "GET").length + 1 := by decide
  have zeros : buffSize - ((bytes "GET").length + 1 + tail.length) =
      buffSize - ((bytes "HEAD").length + 1 + tail.length) + 1 := by
    simp only [List.length_append, List.length_cons] at short
    omega
  rw [inbuff_verb, zeros, List.replicate_succ', ← List.append_assoc, behind]
  simp

namespace Client

variable {c : Client} {tail : Bytes} {handler : Handler} {text : RequestText} {server : Server}
variable {loc : Location} {root : CString}

/-! ## What is sent -/

theorem errorPage_ne_nil (code : Nat) (msg : Bytes) : errorPage code msg ≠ [] := by
  intro none
  have page : (bytes "<html>\r\n<head><title>").length ≤ (errorPage code msg).length := by
    simp only [errorPage, List.length_append]
    omega
  rw [none] at page
  cases page

theorem reply_headerOnly {event : Event} (headerOnly : event.headerOnly = true) :
    (c.reply event).flatMap Reply.body = [] := by
  match event with
  | .respond (.file fullPath mimeType size false) => rfl

/-- Without a body, an answer to HEAD is headers of files. -/
theorem headerOnly_of_reply {r : LocalResponse} (listed : c.listed.isSome)
    (noBody : (c.reply (.respond (r.forVerb (bytes "HEAD")))).flatMap Reply.body = []) :
    (Event.respond (r.forVerb (bytes "HEAD"))).headerOnly = true := by
  cases r with
  | notFound =>
      have none : errorPage 404 (bytes "Not Found") = [] := by
        simpa [LocalResponse.forVerb, reply, Reply.body] using noBody
      exact absurd none (errorPage_ne_nil _ _)
  | file fullPath mimeType size => rfl
  | listing entries =>
      rcases Option.isSome_iff_exists.mp listed with ⟨⟨fullPath, path⟩, is⟩
      simp only [LocalResponse.forVerb, reply, is, Listing.page, List.flatMap_cons,
        List.append_eq_nil_iff] at noBody
      have something : Listing.header ≠ [] := by decide
      exact absurd noBody.1 something

/-- With the same listing, another verb changes no header. -/
theorem heads_forVerb {c' : Client} (outside : c'.outside = c.outside)
    (showSize : c'.showSize = c.showSize) (stale : c'.stale = c.stale)
    (listed : c'.listed = c.listed) (verb verb' : Bytes) (r : LocalResponse) :
    (c'.reply (.respond (r.forVerb verb'))).filterMap Reply.head =
      (c.reply (.respond (r.forVerb verb))).filterMap Reply.head := by
  cases r with
  | notFound => rfl
  | file fullPath mimeType size => rfl
  | listing entries =>
      have same : c'.fragmentText = c.fragmentText := by
        funext dirPath path fileName
        simp only [fragmentText, outside, showSize, stale]
      simp only [LocalResponse.forVerb, reply, listed, same]

theorem filterMap_replies (events : List Event) :
    (c.replies events).filterMap Reply.head =
      events.flatMap fun event => (c.reply event).filterMap Reply.head := by
  rw [replies, List.filterMap_flatMap]

theorem flatMap_replies_eq_nil_iff (events : List Event) :
    (c.replies events).flatMap Reply.body = [] ↔
      ∀ event ∈ events, (c.reply event).flatMap Reply.body = [] := by
  rw [replies, List.flatMap_assoc, List.flatMap_eq_nil_iff]

/-- A request that is handed over is answered by the handler. -/
theorem responses_of_handed (read : readRequest (inbuff c.received) = .ok (some text))
    (nonempty : c.received ≠ []) (short : c.received.length < buffSize)
    (handed : Handed c.site text server loc root)
    (known : text.verb = bytes "GET" ∨ text.verb = bytes "HEAD") :
    c.decision = .ok (.handle (handlerFor loc) (handedRequest c.received text server loc)) ∧
      c.responses =
        c.sends ((handlerFor loc).call c.outside (handedRequest c.received text server loc)) := by
  have decided : c.decision =
      .ok (.handle (handlerFor loc) (handedRequest c.received text server loc)) := by
    have verb : (handedRequest c.received text server loc).verb = bytes "GET" ∨
        (handedRequest c.received text server loc).verb = bytes "HEAD" := known
    have fits : ¬ maxLen <
        root.text.length + (handedRequest c.received text server loc).path.length :=
      Nat.not_lt.mpr handed.short
    rw [decision, dispatch_of_located read nonempty short handed.toLocated, chooseHandler,
      if_neg fits, if_pos verb]
    have own : (handedRequest c.received text server loc).loc = loc := rfl
    rw [own]
    split
    · rfl
    case isFalse byVerb => rw [not_not.mp byVerb]
  refine ⟨decided, ?_⟩
  have dispatched : dispatch c.site c.listener c.received = _ := decided
  simp only [responses, sends, processInput, dispatched]
  rfl

theorem locals_of_handed
    (locals : ∀ server ∈ c.site.servers, ∀ loc ∈ server.locations, LocalFiles loc)
    (handed : Handed c.site text server loc root) : LocalFiles loc := by
  rcases handed.found with ⟨i, _, here⟩
  exact locals server (List.mem_of_getElem? here) loc (List.mem_of_find?_eq_some handed.located)

theorem short_of_handed (handed : Handed c.site text server loc root) :
    (joinPath root.text (cutQuery text.path).1).length < 300 := by
  have bound := length_joinPath_le root.text (cutQuery text.path).1
  have short := handed.short
  simp only [maxLen] at short
  omega

/-- If HEAD gets no body, it gets a file's header. -/
theorem fileRequested_of_noBody
    (locals : ∀ server ∈ c.site.servers, ∀ loc ∈ server.locations, LocalFiles loc)
    (bounded : (bytes "HEAD" ++ space :: tail).length ≤ buffSize) {head : List Reply}
    (answered : (c.asks (bytes "HEAD") tail).responses = .ok head)
    (noBody : head.flatMap Reply.body = []) :
    FileRequested c.site c.outside (bytes "HEAD" ++ space :: tail) := by
  rcases bind_eq_ok_iff.mp answered with ⟨after, ran, is⟩
  obtain rfl := Except.ok.inj is
  rcases bind_eq_ok_iff.mp ran with ⟨d, decided, carried⟩
  rw [flatMap_replies_eq_nil_iff] at noBody
  rcases d with ⟨code, msg, path⟩ | ⟨handler, req⟩
  · obtain rfl := Except.ok.inj carried
    have page := noBody (.respond (.error code msg)) (by simp [World.emit])
    exact absurd (by simpa [reply, Reply.body] using page) (errorPage_ne_nil code msg)
  · rcases handed_of_dispatch decided with ⟨notFull, text, root, read, handed, rfl, own⟩
    have short := Nat.lt_of_le_of_ne bounded notFull
    rcases (readRequest_eq_some_iff (terminated_inbuff short)).mp read with ⟨rest, line, host⟩
    have verb : req.verb = bytes "HEAD" := by
      rw [own]
      exact (get_of_head short line).1
    have local_ := locals_of_handed locals handed
    have listed : (c.asks (bytes "HEAD") tail).listed.isSome := by
      have decision : (c.asks (bytes "HEAD") tail).decision = _ := decided
      rw [Client.listed, decision]
      simp [handed.rooted]
    have carried' : (handlerFor req.loc).call c.outside (req.withVerb req.verb req.headers)
        ⟨c.upstreams, []⟩ = .ok after := carried
    rcases (answersLocally_call c.outside local_).added carried' with ⟨_, rfl, _⟩
    refine ⟨short, text, rest, req.server, req.loc, root, line, host, handed, ?_⟩
    have path : req.path = (cutQuery text.path).1 := by rw [own]; rfl
    have fits := short_of_handed handed
    rw [← path] at fits ⊢
    refine (bodyless_call_iff ⟨verb, rfl⟩ local_ handed.rooted fits).mp ⟨_, carried, ?_⟩
    intro event member
    rcases List.mem_map.mp member with ⟨r, _, rfl⟩
    have noBody' := noBody _ member
    rw [verb] at noBody' ⊢
    exact headerOnly_of_reply listed noBody'

/-- The answer to GET, from that to HEAD. -/
theorem headAgrees_of_fileRequested
    (locals : ∀ server ∈ c.site.servers, ∀ loc ∈ server.locations, LocalFiles loc)
    (requested : FileRequested c.site c.outside (bytes "HEAD" ++ space :: tail)) :
    c.HeadAgrees tail := by
  rcases requested with ⟨short, text, rest, server, loc, root, line, host, handed, serves⟩
  rcases get_of_head short line with ⟨verb, line'⟩
  have short' : (bytes "GET" ++ space :: tail).length < buffSize := by
    have size : (bytes "HEAD").length = (bytes "GET").length + 1 := by decide
    rw [List.length_append] at short ⊢
    omega
  have read := (readRequest_eq_some_iff (terminated_inbuff short)).mpr ⟨rest, line, host⟩
  have read' := (readRequest_eq_some_iff (terminated_inbuff short')).mpr
    ⟨rest ++ [0], line', hostIn_append_zero host⟩
  have handed' : Handed c.site { text with verb := bytes "GET" } server loc root :=
    ⟨handed.found, handed.located, handed.rooted, handed.short⟩
  rcases @responses_of_handed (c.asks (bytes "HEAD") tail) _ _ _ _ read (by simp [asks]) short
    handed (.inr verb) with ⟨decided, responses⟩
  rcases @responses_of_handed (c.asks (bytes "GET") tail) _ _ _ _ read' (by simp [asks]) short'
    handed' (.inl rfl) with ⟨decided', responses'⟩
  have local_ := locals_of_handed locals handed
  have asked : Asked (handedRequest (bytes "HEAD" ++ space :: tail) text server loc)
      ⟨c.upstreams, []⟩ := ⟨verb, rfl⟩
  rcases (bodyless_call_iff asked local_ handed.rooted (short_of_handed handed)).mpr serves with
    ⟨after, ran, headers⟩
  have ran' : (handlerFor loc).call c.outside ((handedRequest (bytes "HEAD" ++ space :: tail) text
      server loc).withVerb text.verb (savedHeaders (bytes "HEAD" ++ space :: tail)))
      ⟨c.upstreams, []⟩ = .ok after := ran
  rw [verb] at ran'
  have answers := @answersLocally_call
    (handedRequest (bytes "HEAD" ++ space :: tail) text server loc) c.outside local_
  rcases answers.added ran' with ⟨sent, rfl, another⟩
  have listed : (c.asks (bytes "GET") tail).listed = (c.asks (bytes "HEAD") tail).listed := by
    rw [Client.listed, Client.listed, decided, decided']
    rfl
  let events (verb : Bytes) : List Event := sent.map fun r => .respond (r.forVerb verb)
  refine ⟨(c.asks (bytes "HEAD") tail).replies (events (bytes "HEAD")),
    (c.asks (bytes "GET") tail).replies (events (bytes "GET")), ?_, ?_, ?_, ?_⟩
  · rw [responses]
    exact bind_eq_ok_iff.mpr ⟨_, ran, rfl⟩
  · rw [responses']
    have get := another (bytes "GET") (savedHeaders (bytes "GET" ++ space :: tail))
    exact bind_eq_ok_iff.mpr ⟨_, get, rfl⟩
  · rw [filterMap_replies, filterMap_replies]
    simp only [events, List.flatMap_map]
    congr 1
    funext r
    exact (@heads_forVerb (c.asks (bytes "HEAD") tail) (c.asks (bytes "GET") tail) rfl rfl rfl
      listed (bytes "HEAD") (bytes "GET") r).symm
  · rw [flatMap_replies_eq_nil_iff]
    exact fun event member => reply_headerOnly (headers event member)

/-- With locations for local files, HEAD agrees with GET if and only if the HEAD request
fits the buffer, and there is a file for it. -/
theorem headAgrees_iff (c : Client)
    (locals : ∀ server ∈ c.site.servers, ∀ loc ∈ server.locations, LocalFiles loc) (tail : Bytes)
    (bounded : (bytes "HEAD" ++ space :: tail).length ≤ buffSize) :
    c.HeadAgrees tail ↔
      FileRequested c.site c.outside (bytes "HEAD" ++ space :: tail) := by
  constructor
  · rintro ⟨head, _, answered, _, _, noBody⟩
    exact fileRequested_of_noBody locals bounded answered noBody
  · exact headAgrees_of_fileRequested locals

end Client

/-- A client of the servers, which finds this file system. -/
def clientOf (servers : List Server) (listener : Server) (fs : FileSystem) : Client :=
  { site := ⟨true, servers, fun _ _ => false⟩
    listener := listener
    received := []
    outside := { plainFiles with fs := fs }
    content := fun _ => bytes "text"
    showSize := fun _ => bytes "4"
    stale := fun _ => false
    upstreams := [] }

theorem Client.headAgrees_iff_plain :
    ∃ s t listener, twoServers.parse (fun _ => none) = .ok s ∧
      checkServers .permissive s = .ok t ∧ listener ∈ t.serverList ∧
      (clientOf t.serverList listener plainFiles.fs).HeadAgrees slashTail := by
  refine ⟨_, _, _, rfl, rfl, List.mem_cons_self, ?_⟩
  rcases slashRequest_read (bytes "HEAD") (by decide) with ⟨rest, line, host⟩
  refine (Client.headAgrees_iff _ (by decide) slashTail (by decide)).mpr
    ⟨by decide, _, rest, _, _, _, line, host, ⟨⟨0, rfl, rfl⟩, rfl, rfl, by decide⟩, nofun,
      .inl ⟨nofun, _, rfl, by decide, ?_⟩⟩
  intro entry found
  rcases Option.bind_eq_some_iff.mp found with ⟨ext, _, listed⟩
  cases listed

/-- No file is there. -/
def noFiles : FileSystem :=
  { plainFiles.fs with isDir := fun _ => none, opens := fun _ => false }

/-- HEAD of a missing file is answered with an error page. -/
theorem headMissing_body :
    ∃ s t listener, twoServers.parse (fun _ => none) = .ok s ∧
      checkServers .permissive s = .ok t ∧ listener ∈ t.serverList ∧
      ((clientOf t.serverList listener noFiles).asks (bytes "HEAD") slashTail).responses =
        .ok [.error 404 (bytes "Not Found")] ∧
      ¬ (clientOf t.serverList listener noFiles).HeadAgrees slashTail := by
  refine ⟨_, _, _, rfl, rfl, List.mem_cons_self, rfl, ?_⟩
  rintro ⟨head, get, answered, _, _, noBody⟩
  obtain rfl := Except.ok.inj answered
  cases noBody

end OgWebserver.Request

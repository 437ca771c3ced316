import OgWebserver.Request.CrossTalk
import OgWebserver.Request.Message
import OgWebserver.Request.Wire

/-!
# Reading the response

The server answers one request on a connection and closes it.  If it serves the request itself,
a client reads one response up to there.  The responses for which this fails are those to a
`HEAD` that have a body, those without a body to anything else, those whose length is no `int`,
and those to a request for which there are two.
-/

namespace OgWebserver.Request

open Text Config Transition Http

/-! ## Which replies -/

namespace Client

/-- One response of the server itself. -/
inductive Single (c : Client) : List Reply → Prop
  | error {code msg} (listed : (code, msg) ∈ errorReplies) : Single c [.error code msg]
  | file {handler req fullPath mimeType} (decided : c.decision = .ok (.handle handler req))
      (typed : mimeType.length < 256) :
      Single c [.file mimeType (c.outside.fs.size fullPath)
        (if req.verb = bytes "GET" then some (c.content fullPath) else none)]
  | page (texts : List Bytes) : Single c (Listing.page texts)

variable {c : Client} {handler : Handler} {req : ClientRequest} {replies front : List Reply}
variable {fullPath : Bytes} {target : Option Bytes} {r : Route}

theorem eq_of_errorResponse {server : Option Server} {code : Nat} {msg path : Bytes} {d : Decision}
    (responded : errorResponse server code msg path = .ok d) : d = .error code msg path := by
  cases server with
  | none => cases responded
  | some server =>
      rw [errorResponse] at responded
      split at responded
      · cases responded
      · exact (Except.ok.inj responded).symm

/-- One of the error responses of `processInput`. -/
def Rejects (d : Decision) : Prop :=
  ∃ reply ∈ errorReplies, ∃ path, d = .error reply.1 reply.2 path

theorem rejects_of_errorResponse {server : Option Server} {code : Nat} {msg path : Bytes}
    {d : Decision} (listed : (code, msg) ∈ errorReplies)
    (responded : errorResponse server code msg path = .ok d) : Rejects d :=
  ⟨(code, msg), listed, path, eq_of_errorResponse responded⟩

theorem chooseHandler_cases {own : ClientRequest} {root : Bytes} {d : Decision}
    (decided : chooseHandler own root = .ok d) :
    Rejects d ∨ ∃ handler, d = .handle handler own := by
  rw [chooseHandler] at decided
  split at decided
  · exact .inl (rejects_of_errorResponse (by decide) decided)
  · split at decided
    · exact .inr ⟨_, (Except.ok.inj decided).symm⟩
    · split at decided
      · exact .inr ⟨_, (Except.ok.inj decided).symm⟩
      · exact .inl (rejects_of_errorResponse (by decide) decided)

/-- A request is rejected, or handled with the verb that has been read. -/
theorem decision_cases {d : Decision} (decided : c.decision = .ok d) :
    Rejects d ∨ c.received.length ≠ buffSize ∧ ∃ handler req text,
      d = .handle handler req ∧ readRequest (inbuff c.received) = .ok (some text) ∧
        req.verb = text.verb := by
  rw [decision, dispatch] at decided
  split at decided
  case isTrue => exact .inl (rejects_of_errorResponse (by decide) decided)
  case isFalse full =>
    split at decided
    · exact .inl (rejects_of_errorResponse (by decide) decided)
    · rcases bind_eq_ok_iff.mp decided with ⟨text, got, decided⟩
      cases text with
      | none => exact .inl (rejects_of_errorResponse (by decide) decided)
      | some text =>
          rcases bind_eq_ok_iff.mp decided with ⟨found, _, decided⟩
          split at decided
          · exact .inl (rejects_of_errorResponse (by decide) decided)
          · rw [routeTo] at decided
            split at decided
            · exact .inl (rejects_of_errorResponse (by decide) decided)
            · rcases chooseHandler_cases decided with rejects | ⟨handler, rfl⟩
              · exact .inl rejects
              · exact .inr ⟨full, handler, _, text, rfl, got, rfl⟩

theorem mem_errorReplies {code : Nat} {msg path : Bytes}
    (decided : c.decision = .ok (.error code msg path)) : (code, msg) ∈ errorReplies := by
  rcases decision_cases decided with ⟨reply, listed, _, same⟩ | ⟨_, _, _, _, other, _⟩
  · cases same
    exact listed
  · cases other

theorem single_notFound (sent : c.notFound req = .ok replies) : c.Single replies := by
  rw [replies_of_notFound sent]
  exact .error (by decide)

theorem length_of_getMimeType {o : Outside} {mimeType : Bytes}
    (typed : getMimeType o fullPath = .ok mimeType) : mimeType.length < 256 := by
  rcases bind_eq_ok_iff.mp typed with ⟨copied, fits, typed⟩
  rw [strcpy_eq_ok_iff] at fits
  split at typed
  · rw [← Except.ok.inj typed, fits.2]
    exact fits.1
  · rw [strcpy_eq_ok_iff] at typed
    rw [typed.2]
    exact typed.1

theorem single_serveFile (decided : c.decision = .ok (.handle handler req))
    (sent : c.sends (serveFile c.outside req fullPath) = .ok replies) : c.Single replies := by
  rcases sends_serveFile_eq_ok_iff.mp sent with ⟨mimeType, typed, rfl⟩
  exact .file decided (length_of_getMimeType typed)

/-- What a route answers without the target is one response. -/
def Route.Single (c : Client) : Route → Prop
  | .reply replies => c.Single replies
  | _ => True

theorem single_of_bind {sent : Except Fault (List Reply)}
    (each : ∀ replies, sent = .ok replies → c.Single replies)
    (routed : (do .ok (.reply (← sent))) = Except.ok r) : r.Single c := by
  rcases bind_eq_ok_iff.mp routed with ⟨replies, is, same⟩
  rw [← Except.ok.inj same]
  exact each replies is

theorem single_showDirectoryListing (routed : c.showDirectoryListing req fullPath = .ok r) :
    r.Single c := by
  rw [showDirectoryListing] at routed
  split at routed
  · exact single_of_bind (fun _ => single_notFound) routed
  · rcases bind_eq_ok_iff.mp routed with ⟨fragments, _, same⟩
    rw [← Except.ok.inj same]
    trivial

theorem single_handleGetVerb (decided : c.decision = .ok (.handle handler req))
    (routed : c.handleGetVerb req = .ok r) : r.Single c := by
  rcases bind_eq_ok_iff.mp routed with ⟨⟨fullPath, isDir⟩, _, routed⟩
  rcases isDir with _ | _ | _
  · exact single_of_bind (fun _ => single_notFound) routed
  · dsimp only at routed
    split at routed
    · exact single_of_bind (fun _ => single_serveFile decided) routed
    · exact single_of_bind (fun _ => single_notFound) routed
  · rcases bind_eq_ok_iff.mp routed with ⟨index, _, routed⟩
    rcases index with _ | indexPath
    · dsimp only at routed
      split at routed
      · exact single_showDirectoryListing routed
      · exact single_of_bind (fun _ => single_notFound) routed
    · exact single_of_bind (fun _ => single_serveFile decided) routed

theorem single_serveDefaultFile (noProxy : hasBit req.loc.type typeProxyPass = false)
    (routed : c.serveDefaultFile req = .ok r) : r.Single c := by
  rw [serveDefaultFile, noProxy] at routed
  rw [← Except.ok.inj routed]
  trivial

theorem single_handleTryFiles (decided : c.decision = .ok (.handle handler req))
    (noProxy : hasBit req.loc.type typeProxyPass = false)
    (routed : c.handleTryFiles req = .ok r) : r.Single c := by
  rcases bind_eq_ok_iff.mp routed with ⟨⟨fullPath, isDir⟩, _, routed⟩
  rcases isDir with _ | _ | _
  · exact single_serveDefaultFile noProxy routed
  · dsimp only at routed
    split at routed
    · exact single_of_bind (fun _ => single_serveFile decided) routed
    · exact single_serveDefaultFile noProxy routed
  · rcases bind_eq_ok_iff.mp routed with ⟨index, _, routed⟩
    rcases index with _ | indexPath
    · dsimp only at routed
      split at routed
      · exact single_showDirectoryListing routed
      · exact single_serveDefaultFile noProxy routed
    · simp only [noProxy, Bool.false_eq_true, if_false] at routed
      exact single_of_bind (fun _ => single_serveFile decided) routed

theorem single_route (local_ : c.Local) (routed : c.route = .ok r) : r.Single c := by
  rcases bind_eq_ok_iff.mp routed with ⟨d, decided, routed⟩
  cases d with
  | error code msg path =>
      rw [← Except.ok.inj routed]
      exact .error (mem_errorReplies decided)
  | handle handler req =>
      rcases local_ handler req decided with rfl | ⟨rfl, noProxy⟩
      · exact single_handleGetVerb decided routed
      · exact single_handleTryFiles decided noProxy routed

theorem sends_bind_ok {α : Type} {first : Except Fault α} {second : α → World → Except Fault World}
    (sent : c.sends (fun w => do second (← first) w) = .ok replies) :
    ∃ a, first = .ok a ∧ c.sends (second a) = .ok replies := by
  rcases bind_eq_ok_iff.mp sent with ⟨w, ran, same⟩
  rcases bind_eq_ok_iff.mp ran with ⟨a, is, ran⟩
  exact ⟨a, is, bind_eq_ok_iff.mpr ⟨w, ran, same⟩⟩

theorem single_serveTarget {target : Bytes} (decided : c.decision = .ok (.handle handler req))
    (served : c.serveTarget target = .ok replies) : c.Single replies := by
  simp only [serveTarget, decided] at served
  rcases sends_bind_ok served with ⟨⟨fullPath, isDir⟩, _, served⟩
  have missing : ∀ {replies}, c.sends (sendErrorResponse req 404 (bytes "Not Found") target) =
      .ok replies → c.Single replies := fun sent =>
    single_notFound ((sends_sendErrorResponse ..).trans sent)
  by_cases directory : isDir = some true
  · simp only [directory, if_true] at served
    exact missing served
  · simp only [directory, if_false] at served
    by_cases opens : c.outside.fs.opens fullPath = true
    · simp only [opens, if_true] at served
      exact single_serveFile decided served
    · simp only [opens, Bool.false_eq_true, if_false] at served
      exact missing served

/-- Behind what is sent for want of a target, there is one response. -/
theorem single_answer (local_ : c.Local) (routed : c.route = .ok r)
    (answered : r.answer c target [] front = .ok replies) :
    ∃ more, replies = front ++ more ∧ c.Single more := by
  have own := single_route local_ routed
  cases r with
  | reply more => exact ⟨more, (Except.ok.inj answered).symm, own⟩
  | list fragments => exact ⟨Listing.page fragments, (Except.ok.inj answered).symm, .page fragments⟩
  | fallBack =>
      cases target with
      | none => cases answered
      | some target =>
          rcases bind_eq_ok_iff.mp answered with ⟨more, served, same⟩
          refine ⟨more, (Except.ok.inj same).symm, ?_⟩
          have tries := target_of_fallBack routed
          rw [Client.target] at tries
          split at tries
          case h_1 decided => exact single_serveTarget decided served
          case h_2 => cases tries

/-- The server answers with one response, unless there is no target that it could fall back to:
then it says so, and goes on. -/
theorem single_alone (local_ : c.Local) (answered : c.alone = .ok replies) :
    if c.target = some none then
      ∃ more, replies = .error 404 (bytes "Not Found") :: more ∧ c.Single more
    else c.Single replies := by
  rcases bind_eq_ok_iff.mp answered with ⟨front, first, answered⟩
  rcases bind_eq_ok_iff.mp answered with ⟨r, routed, answered⟩
  rcases single_answer local_ routed answered with ⟨more, rfl, single⟩
  rw [Client.front] at first
  split
  case isTrue none =>
    rw [none, Option.isSome_some, if_pos rfl, Option.getD_some, Client.testTarget] at first
    rw [Client.target] at none
    split at none
    case h_1 decided =>
      rw [decided] at first
      rw [replies_of_notFound first]
      exact ⟨more, rfl, single⟩
    case h_2 => cases none
  case isFalse some_ =>
    have nothing : front = [] := by
      rcases is : c.target with _ | _ | target
      · rw [is] at first
        exact (Except.ok.inj first).symm
      · exact absurd is some_
      · rw [is] at first
        exact (Except.ok.inj first).symm
    rw [nothing]
    exact single

end Client

/-! ## Reading one response -/

namespace Client

variable {c : Client} {handler : Handler} {req : ClientRequest} {replies : List Reply}
variable {k : SendfileCalls} {tokens : Bool} {ts : Bytes}

/-- Who asks for the head has its verb in the request. -/
theorem verb_of_asksHead (room : c.received.length ≤ buffSize)
    (decided : c.decision = .ok (.handle handler req)) (asks : c.asksHead = true) :
    req.verb = bytes "HEAD" := by
  obtain ⟨full, text, got, verb⟩ : c.received.length ≠ buffSize ∧ ∃ text,
      readRequest (inbuff c.received) = .ok (some text) ∧ req.verb = text.verb := by
    rcases decision_cases decided with ⟨_, _, _, other⟩ | ⟨full, _, _, text, same, got, verb⟩
    · cases other
    · cases same
      exact ⟨full, text, got, verb⟩
  have terminated := terminated_inbuff (Nat.lt_of_le_of_ne room full)
  rcases (readRequest_eq_some_iff terminated).mp got with ⟨rest, line, _⟩
  rcases List.isPrefixOf_iff_prefix.mp asks with ⟨behind, whole⟩
  have start : inbuff c.received = bytes "HEAD" ++ space ::
      (behind ++ List.replicate (buffSize - c.received.length) 0) := by
    have blank : bytes "HEAD " = bytes "HEAD" ++ [space] := by decide
    rw [inbuff]
    nth_rewrite 1 [← whole]
    simp [blank]
  have same := line.split.symm.trans start
  rw [verb]
  exact (split_unique line.verb.1 (by decide) same).1

theorem unbroken_html : Unbroken (bytes "text/html") :=
  unbroken_of_notMem (by decide)

theorem unbroken_ok : Unbroken (bytes "OK") :=
  unbroken_of_notMem (by decide)

theorem unbroken_serverName (tokens : Bool) : Unbroken (serverName tokens) :=
  unbroken_of_notMem (by cases tokens <;> decide)

variable (k tokens ts) in
/-- The client reads the answer that the replies are meant to be. -/
def Reads (c : Client) (replies : List Reply) : Prop :=
  ∃ sent, wire k tokens ts replies = .ok sent ∧ (answerOf replies).ReadFrom (!c.asksHead) sent

/-- Behind an error response nothing else is read. -/
theorem reads_error_iff {code : Nat} {msg : Bytes} {more : List Reply} {behind : Bytes}
    (listed : (code, msg) ∈ errorReplies) (time : ts.length < 256) (clock : Unbroken ts)
    (other : wire k tokens ts more = .ok behind) :
    c.Reads k tokens ts (.error code msg :: more) ↔ c.asksHead = false ∧ behind = [] := by
  rcases bounds_errorReplies listed with ⟨small, short, plain⟩
  have some_ : errorBody code msg ≠ [] := by
    have start : bytes "<html>\r\n<head><title>" ≠ [] := by decide
    simp [errorBody, start]
  have length : (errorBody code msg).length < 2 ^ 31 :=
    (length_errorBody_lt small short).trans (by decide)
  have shape : wire k tokens ts (.error code msg :: more) =
      .ok ((headOf (serverName tokens) ts (.page code msg (errorBody code msg))).render ++
        (errorBody code msg ++ behind)) := by
    rw [wire_cons, sends_error listed time, other, ← render_headOf]
    simp [bind, Except.bind, Answer.page]
  rw [Reads, shape]
  simp only [Except.ok.injEq, exists_eq_left', answerOf]
  rw [readFrom_headOf_iff plain ⟨unbroken_serverName tokens, clock⟩]
  cases c.asksHead with
  | true => simp [some_]
  | false => simpa [Answer.page, unbroken_html] using fun _ => length

theorem reads_file_iff (room : c.received.length ≤ buffSize)
    (still : ∀ path, c.outside.fs.size path = (c.content path).length)
    (decided : c.decision = .ok (.handle handler req)) {fullPath mimeType : Bytes}
    (typed : mimeType.length < 256) (time : ts.length < 256) (clock : Unbroken ts)
    {content : Option Bytes}
    (given : content = if req.verb = bytes "GET" then some (c.content fullPath) else none) :
    c.Reads k tokens ts [.file mimeType (c.outside.fs.size fullPath) content] ↔
      (Reply.file mimeType (c.outside.fs.size fullPath) content).Readable k (!c.asksHead) := by
  have shape := @render_headOf tokens ts
    { code := 200, reason := bytes "OK", mimeType := mimeType,
      length := c.outside.fs.size fullPath, content := content.getD [] }
  rw [Reads, wire_singleton, sends_file typed time, shape]
  simp only [Except.map, Except.ok.injEq, exists_eq_left', answerOf, List.flatten_cons,
    Reply.Readable]
  rw [readFrom_headOf_iff unbroken_ok ⟨unbroken_serverName tokens, clock⟩, and_assoc]
  refine and_congr_right fun _ => and_congr_right fun _ => ?_
  by_cases get : req.verb = bytes "GET"
  · obtain rfl : content = some (c.content fullPath) := by rw [given, if_pos get]
    have body : c.asksHead = false := by
      cases asks : c.asksHead with
      | false => rfl
      | true =>
          have other := verb_of_asksHead room decided asks
          exact absurd (get.symm.trans other) (by decide)
    have size := still fullPath
    simp [body, size, sent_sendFile_eq_iff]
  · obtain rfl : content = none := by rw [given, if_neg get]
    cases c.asksHead <;> simp

theorem reads_page_iff (time : ts.length < 256) (clock : Unbroken ts) (texts : List Bytes) :
    c.Reads k tokens ts (Listing.page texts) ↔
      ∀ reply ∈ Listing.page texts, reply.Readable k (!c.asksHead) := by
  have some_ : pageContent texts ≠ [] := by
    have start : Listing.header ≠ [] := by decide
    simp [pageContent, start]
  have server : Unbroken (bytes "ogws/0.1") := unbroken_of_notMem (by decide)
  have each : (∀ reply ∈ Listing.page texts, reply.Readable k (!c.asksHead)) ↔
      (!c.asksHead) = true ∧ (pageContent texts).length < 2 ^ 31 := by
    have others : ∀ reply ∈ texts.map Reply.listingFragment ++ [.listingFooter],
        reply.Readable k (!c.asksHead) := by
      intro reply member
      rcases List.mem_append.mp member with member | member
      · rcases List.mem_map.mp member with ⟨text, _, rfl⟩
        trivial
      · obtain rfl := List.mem_singleton.mp member
        trivial
    rw [pageContent, Listing.length_body, Listing.page, List.forall_mem_cons]
    exact and_iff_left others
  rw [each, Reads, wire_page time, answerOf_page]
  simp only [Except.ok.injEq, exists_eq_left']
  rw [render_listingHead _ (pageContent texts)]
  refine (@readFrom_headOf_iff _ _ _ (.page 200 (bytes "OK") (pageContent texts)) _ unbroken_ok
    ⟨server, clock⟩).trans ?_
  cases c.asksHead with
  | true => simp [some_]
  | false => simp [Answer.page, unbroken_html]

theorem reads_single_iff (room : c.received.length ≤ buffSize)
    (still : ∀ path, c.outside.fs.size path = (c.content path).length) (time : ts.length < 256)
    (clock : Unbroken ts) (single : c.Single replies) :
    c.Reads k tokens ts replies ↔ ∀ reply ∈ replies, reply.Readable k (!c.asksHead) := by
  cases single with
  | error listed =>
      rw [@reads_error_iff c k tokens ts _ _ [] [] listed time clock rfl]
      simp [Reply.Readable]
  | file decided typed =>
      rw [reads_file_iff room still decided typed time clock rfl, List.forall_mem_singleton]
  | page texts => exact reads_page_iff time clock texts

/-- What is sent for one response is something. -/
theorem wire_single (time : ts.length < 256) (single : c.Single replies) :
    ∃ b behind, wire k tokens ts replies = .ok (b :: behind) := by
  have start : bytes "HTTP/1.1 " = 72 :: bytes "TTP/1.1 " := by decide
  cases single with
  | error listed =>
      rw [wire_singleton, sends_error listed time]
      exact ⟨72, _, by simp [Except.map, responseHeaders, start]; rfl⟩
  | file decided typed =>
      rw [wire_singleton, sends_file typed time]
      exact ⟨72, _, by simp [Except.map, responseHeaders, start]; rfl⟩
  | page texts =>
      have start : bytes "HTTP/1.1 200 OK\r\nServer: ogws/0.1\r\nDate: " =
          72 :: bytes "TTP/1.1 200 OK\r\nServer: ogws/0.1\r\nDate: " := by decide
      rw [wire_page time]
      exact ⟨72, _, by simp [Listing.responseHeaders, start]; rfl⟩

/-- A client reads the answer to a request that the server serves itself if and only if there is
a target for `try_files`, and each part of the answer can be read. -/
theorem reads_iff (room : c.received.length ≤ buffSize)
    (still : ∀ path, c.outside.fs.size path = (c.content path).length) (time : ts.length < 256)
    (clock : Unbroken ts) (local_ : c.Local) (answered : c.alone = .ok replies) :
    c.Reads k tokens ts replies ↔
      c.target ≠ some none ∧ ∀ reply ∈ replies, reply.Readable k (!c.asksHead) := by
  have shape := single_alone local_ answered
  by_cases none : c.target = some none
  · rw [if_pos none] at shape
    rcases shape with ⟨more, rfl, single⟩
    rcases @wire_single _ _ k _ _ time single with ⟨b, behind, other⟩
    rw [reads_error_iff (by decide) time clock other]
    simp [none]
  · rw [if_neg none] at shape
    rw [reads_single_iff room still time clock shape]
    simp [none]

end Client

/-! ## A file -/

/-- A client of a site whose files have seven bytes. -/
def sevenBytes (received : Bytes) (servers : List Server) (listener : Server) : Client :=
  { Client.visitor (Client.oneFileEach (· == bytes "/var/www/ogws/html/a")) servers listener with
    received := received
    content := fun _ => bytes "0123456" }

def getFile : Bytes := bytes "GET /a HTTP/1.1\r\nHost: b\r\n\r\n"

def noon : Bytes := bytes "Sat, 11 Feb 2023 12:00:00 UTC"

theorem unbroken_noon : Unbroken noon :=
  unbroken_of_notMem (by decide)

theorem local_of_byVerb {c : Client} {req : ClientRequest}
    (decided : c.decision = .ok (.handle .byVerb req)) : c.Local := by
  intro handler other is
  exact .inl (Decision.handle.inj (Except.ok.inj (is.symm.trans decided))).1

/-- Who asks for a file reads it. -/
theorem reads_iff_file :
    ∃ s t listener, Client.autoindex443.parse (fun _ => none) = .ok s ∧
      checkServers .permissive s = .ok t ∧ listener ∈ t.serverList ∧
      (sevenBytes getFile t.serverList listener).Reads takesAll true noon
        [.file (bytes "text/html") 7 (some (bytes "0123456"))] := by
  have answers : ∃ s t listener, Client.autoindex443.parse (fun _ => none) = .ok s ∧
      checkServers .permissive s = .ok t ∧ listener ∈ t.serverList ∧
      (∃ req, (sevenBytes getFile t.serverList listener).decision =
        .ok (.handle .byVerb req)) ∧
      (sevenBytes getFile t.serverList listener).alone =
        .ok [.file (bytes "text/html") 7 (some (bytes "0123456"))] :=
    ⟨_, _, _, rfl, rfl, List.mem_cons_self, ⟨_, rfl⟩, rfl⟩
  rcases answers with ⟨s, t, listener, parsed, accepted, listening, ⟨_, decided⟩, alone⟩
  refine ⟨s, t, listener, parsed, accepted, listening, ?_⟩
  refine (Client.reads_iff (show getFile.length ≤ buffSize by decide) (fun _ => rfl) (by decide)
    unbroken_noon (local_of_byVerb decided) alone).mpr ⟨?_, ?_⟩
  · rw [Client.target, decided]
    exact (Option.some_ne_none _).symm
  · exact List.forall_mem_singleton.mpr ⟨Client.unbroken_html, by decide, rfl⟩

end OgWebserver.Request

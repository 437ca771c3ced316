import OgWebserver.Http.Response
import OgWebserver.Request.Delivery
import OgWebserver.Request.Listings

/-!
# Responses on the wire

The texts that the server prints for its own responses, and what a client reads of them.
-/

namespace OgWebserver.Request

open Text Config Transition Http

/-! ## What is sent -/

/-- `responseBody` of `sendErrorResponse`. -/
def errorBody (code : Nat) (msg : Bytes) : Bytes :=
  bytes "<html>\r\n<head><title>" ++ decimal code ++ bytes " " ++ msg ++
    bytes "</title></head>\r\n<center><h1>" ++ decimal code ++ bytes " " ++ msg ++
    bytes "</h1></center>\r\n</body>\r\n</html>\r\n"

/-- The headers up to the length, of an error response and of a file. -/
def responseHeaders (tokens : Bool) (code : Nat) (msg ts mimeType : Bytes) : Bytes :=
  bytes "HTTP/1.1 " ++ decimal code ++ bytes " " ++ msg ++ bytes "\r\nServer: ogws/" ++
    getVersion tokens ++ bytes "\r\nDate: " ++ ts ++ bytes "\r\nContent-Type: " ++ mimeType ++
    bytes "\r\n"

/-- The length, and the empty line. -/
def lengthHeader (n : Nat) : Bytes :=
  bytes "Content-Length: " ++ formatSize n ++ bytes "\r\n\r\n"

/-- What is passed to `sendData` and `sendFile`, at the time `ts` and with the given
`server_tokens`.  A text that does not fit into its buffer would be sent with the bytes behind
the buffer. -/
def Reply.sends (k : SendfileCalls) (tokens : Bool) (ts : Bytes) : Reply → Except Fault (List Bytes)
  | .error code msg => do
      let buffer1 ← strcpy buffSize (errorBody code msg)
      let buffer2 ← strcpy 64 (lengthHeader buffer1.length)
      let buffer3 ← strcpy buffSize (responseHeaders tokens code msg ts (bytes "text/html"))
      .ok [buffer3, buffer2, buffer1]
  | .file mimeType size content => do
      let buffer ← strcpy buffSize
        (responseHeaders tokens 200 (bytes "OK") ts mimeType ++ lengthHeader size)
      match content with
      | some whole => .ok [buffer, (sendFile k whole size .fresh).sent]
      | none => .ok [buffer]
  | .listingHeader n => do
      let buffer ← strcpy buffSize (Listing.responseHeaders ts (formatSize n))
      .ok [buffer, Listing.header]
  | .listingFragment fragment => .ok [fragment]
  | .listingFooter => .ok [Listing.footer]
  | .relayed sent => .ok [sent]

/-- All that a client gets for a request. -/
def wire (k : SendfileCalls) (tokens : Bool) (ts : Bytes) (replies : List Reply) :
    Except Fault Bytes := do
  let texts ← replies.mapM (Reply.sends k tokens ts)
  .ok texts.flatten.flatten

/-! ## What is meant -/

/-- What a response says, with the content that its length is about. -/
structure Answer where
  code : Nat
  reason : Bytes
  mimeType : Bytes
  length : Nat
  content : Bytes

/-- The bytes of a page that a reply is a part of. -/
def Reply.part : Reply → Bytes
  | .listingHeader _ => Listing.header
  | .listingFragment fragment => fragment
  | .listingFooter => Listing.footer
  | _ => []

/-- A page for a person to read. -/
def Answer.page (code : Nat) (reason content : Bytes) : Answer :=
  { code := code
    reason := reason
    mimeType := bytes "text/html"
    length := content.length
    content := content }

/-- The response that the replies are meant to be. -/
def answerOf : List Reply → Answer
  | .error code msg :: _ => .page code msg (errorBody code msg)
  | .file mimeType size content :: _ =>
      { code := 200
        reason := bytes "OK"
        mimeType := mimeType
        length := size
        content := content.getD [] }
  | replies => .page 200 (bytes "OK") (replies.flatMap Reply.part)

/-- It says what is meant, with the content as its body if one is expected. -/
structure Answer.Says (answer : Answer) (withBody : Bool) (response : Http.Response) : Prop where
  code : response.head.code = answer.code
  reason : response.head.reason = answer.reason
  mimeType : response.head.fields.lookup (bytes "Content-Type") = some answer.mimeType
  length : response.head.length = some answer.length
  body : response.body = if withBody then answer.content else []

/-- What has been sent when the connection is closed is read as the answer, and nothing is left. -/
def Answer.ReadFrom (answer : Answer) (withBody : Bool) (sent : Bytes) : Prop :=
  ∃ response, read withBody sent = some (response, []) ∧ answer.Says withBody response

/-- The client has asked for the head only. -/
def Client.asksHead (c : Client) : Bool :=
  (bytes "HEAD ").isPrefixOf c.received

/-- The server answers the request itself. -/
def Client.Local (c : Client) : Prop :=
  ∀ handler req, c.decision = .ok (.handle handler req) →
    handler = .byVerb ∨ handler = .tryFiles ∧ hasBit req.loc.type typeProxyPass = false

/-- A reply that a client can read: nobody who asks for the head gets a body, sizes are
printed as an `int`, and a file is sent at once if its content is expected. -/
def Reply.Readable (k : SendfileCalls) (withBody : Bool) : Reply → Prop
  | .error _ _ => withBody = true
  | .file mimeType size content =>
      Unbroken mimeType ∧ size < 2 ^ 31 ∧
        match content with
        | some _ => k.takes 0 size = size
        | none => withBody = true → size = 0
  | .listingHeader n => withBody = true ∧ n < 2 ^ 31
  | _ => True

/-! ## Heads -/

/-- The head of a response, with the length as it is printed. -/
def headOf (server ts : Bytes) (answer : Answer) : Head :=
  { code := answer.code
    reason := answer.reason
    fields :=
      [(bytes "Server", server), (bytes "Date", ts), (bytes "Content-Type", answer.mimeType),
        (bytes "Content-Length", formatSize answer.length)] }

section Heads

variable {server ts sent : Bytes} {answer : Answer} {withBody : Bool} {n : Nat}

theorem named_headOf (reason : Unbroken answer.reason) : (headOf server ts answer).Named where
  reason := reason
  fields := by
    simp only [headOf, List.forall_mem_cons]
    exact ⟨by decide, by decide, by decide, by decide, by simp⟩

/-- A number is printed without a line break. -/
theorem unbroken_formatSize (n : Nat) : Unbroken (formatSize n) := by
  have digits : ∀ m, 13 ∉ decimal m := fun m member =>
    absurd (isDigit_of_mem_decimal 13 member) (by decide)
  apply unbroken_of_notMem
  rw [formatSize, formatInt]
  split
  · exact List.not_mem_cons_of_ne_of_not_mem (by decide) (digits _)
  · exact digits _

theorem clean_headOf_iff (clean : Unbroken server ∧ Unbroken ts) :
    (headOf server ts answer).Clean ↔ Unbroken answer.mimeType := by
  simp [Head.Clean, headOf, clean.1, clean.2, unbroken_formatSize]

theorem mimeType_headOf :
    (headOf server ts answer).fields.lookup (bytes "Content-Type") = some answer.mimeType := by
  have server_ : (bytes "Content-Type" == bytes "Server") = false := by decide
  have date : (bytes "Content-Type" == bytes "Date") = false := by decide
  simp [headOf, List.lookup_cons, server_, date]

theorem readLength_minus (digits : Bytes) : readLength (45 :: digits) = none :=
  if_neg Bool.false_ne_true

/-- A length is read back if and only if it is an `int`. -/
theorem readLength_formatSize_iff : readLength (formatSize n) = some n ↔ n < 2 ^ 31 := by
  constructor
  · intro shown
    have upper := (Int32.ofNat n).toInt_lt
    by_cases negative : (Int32.ofNat n).toInt < 0
    · rw [formatSize, formatInt, if_pos negative, readLength_minus] at shown
      cases shown
    · rw [formatSize, formatInt, if_neg negative, readLength_decimal, Option.some.injEq] at shown
      omega
  · intro small
    rw [formatSize_of_lt small, readLength_decimal]

theorem length_headOf :
    (headOf server ts answer).length = readLength (formatSize answer.length) := by
  have server_ : (bytes "Content-Length" == bytes "Server") = false := by decide
  have date : (bytes "Content-Length" == bytes "Date") = false := by decide
  have type : (bytes "Content-Length" == bytes "Content-Type") = false := by decide
  simp [Head.length, headOf, List.lookup_cons, server_, date, type]

/-- What has been sent is read as the answer if and only if the head is printed well and the
content is sent where it is expected. -/
theorem readFrom_headOf_iff (reason : Unbroken answer.reason)
    (clean : Unbroken server ∧ Unbroken ts) :
    answer.ReadFrom withBody ((headOf server ts answer).render ++ sent) ↔
      (Unbroken answer.mimeType ∧ answer.length < 2 ^ 31) ∧
        (withBody = true → answer.length = answer.content.length) ∧
        sent = if withBody then answer.content else [] := by
  have named := @named_headOf server ts answer reason
  constructor
  · rintro ⟨⟨head, body⟩, got, told⟩
    rw [← List.append_nil sent] at got
    have unbroken : Unbroken answer.mimeType := by
      rcases readHead_of_read got with ⟨after, first⟩
      rcases List.lookup_eq_some_iff.mp told.mimeType with ⟨front, back, is, _⟩
      have member : (bytes "Content-Type", answer.mimeType) ∈ head.fields :=
        is ▸ List.mem_append_right front List.mem_cons_self
      exact clean_of_readHead first _ member
    have own := (clean_headOf_iff clean).mpr unbroken
    obtain rfl : head = headOf server ts answer := by
      rcases readHead_of_read got with ⟨after, first⟩
      have other := (@readHead_append_iff _ (sent ++ []) _ named).mpr ⟨own, rfl⟩
      exact (Prod.mk.inj (Option.some.inj (first.symm.trans other))).1
    rcases (read_append_iff named).mp got with ⟨⟨_, framed⟩, rfl⟩
    have body := told.body
    have small := readLength_formatSize_iff.mp (length_headOf ▸ told.length)
    refine ⟨⟨unbroken, small⟩, fun expected => ?_, body⟩
    rw [if_pos expected] at framed body
    rw [body, told.length] at framed
    exact Option.some.inj framed
  · rintro ⟨⟨unbroken, small⟩, expected, rfl⟩
    have length := (@length_headOf server ts answer).trans (readLength_formatSize_iff.mpr small)
    refine ⟨⟨headOf server ts answer, if withBody then answer.content else []⟩, ?_,
      rfl, rfl, mimeType_headOf, length, rfl⟩
    have framed : Http.Framed withBody
        ⟨headOf server ts answer, if withBody then answer.content else []⟩ := by
      refine ⟨(clean_headOf_iff clean).mpr unbroken, ?_⟩
      cases withBody with
      | true => simp [length, expected rfl]
      | false => simp [length]
    have whole := (@read_append_iff _ _ _ _ [] named).mpr ⟨framed, rfl⟩
    rwa [List.append_nil] at whole

end Heads

/-! ## Buffers -/

section Buffers

variable {tokens : Bool} {code n : Nat} {msg ts mimeType : Bytes}

theorem length_decimal_of_lt (small : code < 1000) : (decimal code).length ≤ 3 :=
  length_decimal_le (by decide) small

theorem length_errorBody_lt (small : code < 1000) (short : msg.length ≤ 20) :
    (errorBody code msg).length < buffSize := by
  have digits := length_decimal_of_lt small
  have first : (bytes "<html>\r\n<head><title>").length = 21 := by decide
  have blank : (bytes " ").length = 1 := by decide
  have second : (bytes "</title></head>\r\n<center><h1>").length = 29 := by decide
  have last : (bytes "</h1></center>\r\n</body>\r\n</html>\r\n").length = 34 := by decide
  simp only [errorBody, List.length_append, first, blank, second, last, buffSize]
  omega

theorem length_lengthHeader_le (n : Nat) : (lengthHeader n).length ≤ 31 := by
  have digits : (formatSize n).length ≤ 11 := length_formatInt_le _
  have first : (bytes "Content-Length: ").length = 16 := by decide
  have last : (bytes "\r\n\r\n").length = 4 := by decide
  simp only [lengthHeader, List.length_append, first, last]
  omega

theorem length_responseHeaders_le (small : code < 1000) (short : msg.length ≤ 20)
    (time : ts.length < 256) (type : mimeType.length < 256) :
    (responseHeaders tokens code msg ts mimeType).length < 1024 := by
  have digits := length_decimal_of_lt small
  have first : (bytes "HTTP/1.1 ").length = 9 := by decide
  have blank : (bytes " ").length = 1 := by decide
  have server : (bytes "\r\nServer: ogws/").length = 15 := by decide
  have version : (getVersion tokens).length ≤ 5 := by cases tokens <;> decide
  have date : (bytes "\r\nDate: ").length = 8 := by decide
  have mime : (bytes "\r\nContent-Type: ").length = 16 := by decide
  have last : (bytes "\r\n").length = 2 := by decide
  simp only [responseHeaders, List.length_append, first, blank, server, date, mime, last]
  omega

/-- The server that error responses and files name. -/
def serverName (tokens : Bool) : Bytes :=
  bytes "ogws/" ++ getVersion tokens

theorem render_headOf (answer : Answer) :
    responseHeaders tokens answer.code answer.reason ts answer.mimeType ++ lengthHeader answer.length =
      (headOf (serverName tokens) ts answer).render := by
  have blank : bytes " " = [32] := by decide
  have server : bytes "\r\nServer: ogws/" =
      lineBreak ++ (bytes "Server" ++ (Http.colon ++ bytes "ogws/")) := by decide
  have date : bytes "\r\nDate: " = lineBreak ++ (bytes "Date" ++ Http.colon) := by decide
  have mime : bytes "\r\nContent-Type: " =
      lineBreak ++ (bytes "Content-Type" ++ Http.colon) := by decide
  have length : bytes "Content-Length: " = bytes "Content-Length" ++ Http.colon := by decide
  have last : bytes "\r\n\r\n" = lineBreak ++ lineBreak := by decide
  have one : bytes "\r\n" = lineBreak := rfl
  simp [Head.render, Head.lines, headOf, statusLine, fieldLine, responseHeaders, lengthHeader,
    version, blank, server, date, mime, length, last, one, serverName]

theorem render_listingHead (n : Nat) (content : Bytes) :
    Listing.responseHeaders ts (formatSize n) = (headOf (bytes "ogws/0.1") ts
      { code := 200, reason := bytes "OK", mimeType := bytes "text/html", length := n,
        content := content }).render := by
  have first : bytes "HTTP/1.1 200 OK\r\nServer: ogws/0.1\r\nDate: " =
      version ++ (decimal 200 ++ (32 :: (bytes "OK" ++ (lineBreak ++ (bytes "Server" ++
        (Http.colon ++ (bytes "ogws/0.1" ++ (lineBreak ++ (bytes "Date" ++
          Http.colon))))))))) := by decide
  have mime : bytes "\r\nContent-Type: text/html\r\nContent-Length: " = lineBreak ++
      (bytes "Content-Type" ++ (Http.colon ++ (bytes "text/html" ++ (lineBreak ++
        (bytes "Content-Length" ++ Http.colon))))) := by decide
  have last : bytes "\r\n\r\n" = lineBreak ++ lineBreak := by decide
  simp [Head.render, Head.lines, headOf, statusLine, fieldLine, Listing.responseHeaders, first,
    mime, last]

end Buffers

/-! ## The texts of one response -/

/-- The error responses of the server. -/
def errorReplies : List (Nat × Bytes) :=
  [(400, bytes "Bad Request"), (404, bytes "Bad request"), (404, bytes "Not Found"),
    (405, bytes "Method Not Allowed"), (413, bytes "Bad Request"), (414, bytes "URI too long"),
    (500, bytes "Bad configuration")]

section Texts

variable {k : SendfileCalls} {tokens : Bool} {ts : Bytes} {code n : Nat} {msg mimeType : Bytes}
variable {content : Option Bytes} {replies : List Reply}

theorem wire_cons (reply : Reply) (replies : List Reply) :
    wire k tokens ts (reply :: replies) = (do
      let own ← reply.sends k tokens ts
      let more ← wire k tokens ts replies
      .ok (own.flatten ++ more)) := by
  rw [wire, List.mapM_cons]
  cases reply.sends k tokens ts with
  | error e => rfl
  | ok own =>
      simp only [wire, bind, Except.bind]
      cases replies.mapM (Reply.sends k tokens ts) with
      | error e => rfl
      | ok texts => simp [pure, Except.pure]

theorem wire_singleton (reply : Reply) :
    wire k tokens ts [reply] = (reply.sends k tokens ts).map List.flatten := by
  rw [wire_cons]
  cases reply.sends k tokens ts with
  | error e => rfl
  | ok own => simp [wire, bind, Except.bind, pure, Except.pure, Except.map]

theorem bounds_errorReplies (listed : (code, msg) ∈ errorReplies) :
    code < 1000 ∧ msg.length ≤ 20 ∧ Unbroken msg := by
  have all : ∀ reply ∈ errorReplies,
      reply.1 < 1000 ∧ reply.2.length ≤ 20 ∧ 13 ∉ reply.2 := by decide
  rcases all _ listed with ⟨small, short, plain⟩
  exact ⟨small, short, unbroken_of_notMem plain⟩

/-- The texts of an error response fit into their buffers. -/
theorem sends_error (listed : (code, msg) ∈ errorReplies) (time : ts.length < 256) :
    (Reply.error code msg).sends k tokens ts =
      .ok [responseHeaders tokens code msg ts (bytes "text/html"),
        lengthHeader (errorBody code msg).length, errorBody code msg] := by
  rcases bounds_errorReplies listed with ⟨small, short, _⟩
  have body := length_errorBody_lt small short
  have length : (lengthHeader (errorBody code msg).length).length < 64 :=
    Nat.lt_of_le_of_lt (length_lengthHeader_le _) (by decide)
  have headers : (responseHeaders tokens code msg ts (bytes "text/html")).length < buffSize :=
    (length_responseHeaders_le small short time (by decide)).trans (by decide)
  simp [Reply.sends, strcpy, body, length, headers, bind, Except.bind]

theorem sends_file (typed : mimeType.length < 256) (time : ts.length < 256) :
    (Reply.file mimeType n content).sends k tokens ts =
      .ok ((responseHeaders tokens 200 (bytes "OK") ts mimeType ++ lengthHeader n) ::
        (content.map fun whole => (sendFile k whole n .fresh).sent).toList) := by
  have fits : (responseHeaders tokens 200 (bytes "OK") ts mimeType ++ lengthHeader n).length <
      buffSize := by
    have headers := @length_responseHeaders_le tokens 200 (bytes "OK") ts mimeType (by decide)
      (by decide)
      time typed
    have length := length_lengthHeader_le n
    simp only [List.length_append, buffSize]
    omega
  rw [Reply.sends, strcpy, if_pos fits]
  cases content <;> rfl

theorem sends_listingHeader (time : ts.length < 256) :
    (Reply.listingHeader n).sends k tokens ts =
      .ok [Listing.responseHeaders ts (formatSize n), Listing.header] := by
  have fits : (Listing.responseHeaders ts (formatSize n)).length < buffSize := by
    have digits : (formatSize n).length ≤ 11 := length_formatInt_le _
    have first : (bytes "HTTP/1.1 200 OK\r\nServer: ogws/0.1\r\nDate: ").length = 41 := by decide
    have second : (bytes "\r\nContent-Type: text/html\r\nContent-Length: ").length = 43 := by
      decide
    have last : (bytes "\r\n\r\n").length = 4 := by decide
    simp only [Listing.responseHeaders, List.length_append, first, second, last, buffSize]
    omega
  rw [Reply.sends, strcpy, if_pos fits]
  rfl

theorem wire_fragments (texts : List Bytes) :
    wire k tokens ts (texts.map .listingFragment ++ [.listingFooter]) =
      .ok (texts.flatten ++ Listing.footer) := by
  induction texts with
  | nil => simp [wire_singleton, Reply.sends, Except.map]
  | cons text texts ih =>
      rw [List.map_cons, List.cons_append, wire_cons, ih]
      simp [Reply.sends, bind, Except.bind]

/-- The bytes of a page. -/
def pageContent (texts : List Bytes) : Bytes :=
  (Listing.header :: (texts ++ [Listing.footer])).flatten

theorem wire_page (time : ts.length < 256) (texts : List Bytes) :
    wire k tokens ts (Listing.page texts) =
      .ok (Listing.responseHeaders ts (formatSize (pageContent texts).length) ++
        pageContent texts) := by
  rw [pageContent, Listing.length_body, Listing.page, wire_cons, wire_fragments,
    sends_listingHeader time]
  simp [bind, Except.bind]

theorem answerOf_page (texts : List Bytes) :
    answerOf (Listing.page texts) = .page 200 (bytes "OK") (pageContent texts) := by
  have parts : (Listing.page texts).flatMap Reply.part = pageContent texts := by
    rw [Listing.page, List.flatMap_cons, List.flatMap_append, List.flatMap_map]
    simp [Reply.part, pageContent, List.flatMap_id']
  rw [← parts]
  simp only [Listing.page, answerOf]

end Texts

end OgWebserver.Request

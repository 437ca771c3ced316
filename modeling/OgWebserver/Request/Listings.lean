import OgWebserver.Request.Alone

/-!
# One listing after another

A sequence of directory listings on one global list: every page is that of its own
directory, since each listing leaves the list empty, and no fragment is longer than the
buffer that `snprintf` writes it to.
-/

namespace OgWebserver.Request.Listing

open Text Config Transition

/-- The response headers of a listing. -/
def responseHeaders (ts contentLength : Bytes) : Bytes :=
  bytes "HTTP/1.1 200 OK\r\nServer: ogws/0.1\r\nDate: " ++ ts ++
    bytes "\r\nContent-Type: text/html\r\nContent-Length: " ++ contentLength ++ bytes "\r\n\r\n"

/-- What `showDirectoryListing` passes to `sendData`. -/
def sends (ts : Bytes) : Reply → List Bytes
  | .listingHeader n => [responseHeaders ts (formatSize n), header]
  | .listingFragment fragment => [fragment]
  | .listingFooter => [footer]
  | _ => []

/-- A call of `showDirectoryListing`, and the time when it asks for it. -/
structure Call where
  client : Client
  req : ClientRequest
  fullPath : Bytes
  ts : Bytes

namespace Call

/-- The names that `readdir` lists, if the directory opens. -/
def entries (call : Call) : Option (List Bytes) :=
  call.client.outside.fs.entries call.fullPath

/-- The fragments of the page. -/
def fragments (call : Call) (entries : List Bytes) : List Bytes :=
  (entries.filter (· ≠ bytes ".")).map
    (call.client.fragmentText call.fullPath call.req.path)

/-- What the buffers and the checks in front of the call ensure: `fullPath` is in a buffer
of 300 bytes, and the time in one of 256.  The page is shorter than an `int` can say. -/
structure Bounded (call : Call) : Prop where
  path : call.req.path.length ≤ 255
  fullPath : call.fullPath.length < 300
  ts : call.ts.length < 256
  names : ∀ entries, call.entries = some entries → ∀ name ∈ entries, name.length ≤ 255
  shown : ∀ size, (call.client.showSize size).length ≤ 256
  total : ∀ entries, call.entries = some entries →
    contentLength ((call.fragments entries).map List.length).sum < 2 ^ 31
  named : call.req.server.serverNames ≠ [] ∧ call.req.server.errorLog.isSome

/-- A run of `showDirectoryListing` on the global list. -/
inductive Answers (call : Call) (s : Fragments) : List Reply → Fragments → Prop
  | reply {replies}
      (routed : call.client.showDirectoryListing call.req call.fullPath = .ok (.reply replies)) :
      Answers call s replies s
  | list {fragments replies s'}
      (routed : call.client.showDirectoryListing call.req call.fullPath = .ok (.list fragments))
      (run : Steps program (.add fragments) s replies .done s') : Answers call s replies s'

/-- What is sent is the headers and the body: the header of the page, a fragment for each
entry but the dot, in the order of the directory, and the footer.  The headers, which fit
into their buffer, announce the length of the body. -/
def Shows (call : Call) (replies : List Reply) : Prop :=
  match call.entries with
  | none => replies = [.error 404 (bytes "Not Found")]
  | some entries =>
      ∃ body, replies.flatMap (sends call.ts) =
          responseHeaders call.ts (decimal body.flatten.length) :: body ∧
        body = header :: (call.fragments entries ++ [footer]) ∧
        (responseHeaders call.ts (decimal body.flatten.length)).length < buffSize

end Call

/-- Calls handled one after the other. -/
inductive Session : Fragments → List Call → List (List Reply) → Fragments → Prop
  | nil {s} : Session s [] [] s
  | cons {s s' s'' call calls replies rest} (first : call.Answers s replies s')
      (others : Session s' calls rest s'') : Session s (call :: calls) (replies :: rest) s''

/-! ## Fragments fit -/

theorem length_fragmentText_le {c : Client} {dirPath path fileName : Bytes}
    (shown : ∀ size, (c.showSize size).length ≤ 256) :
    (c.fragmentText dirPath path fileName).length ≤ path.length + 2 * fileName.length + 320 := by
  have first : (bytes "<li><a href=\"").length = 13 := by decide
  have slash : (bytes "/").length = 1 := by decide
  have second : (bytes "\">").length = 2 := by decide
  have third : (bytes "</a>").length = 4 := by decide
  have dir : (bytes " Directory</li>").length = 15 := by decide
  have span : (bytes "<span  class=\"sz\"> - ").length = 21 := by decide
  have last : (bytes " Bytes</span></li>").length = 18 := by decide
  rw [Client.fragmentText]
  split
  · simp only [List.length_append, first, slash, second, third, dir]
    omega
  · have size := shown (if (c.outside.fs.isDir (dirPath ++ bytes "/" ++ fileName)).isSome then
      c.outside.fs.size (dirPath ++ bytes "/" ++ fileName) else 0)
    simp only [List.length_append, first, slash, second, third, span, last] at size ⊢
    omega

/-- Neither the path of an entry nor its fragment is cut off. -/
theorem fragment_eq {call : Call} (bounded : call.Bounded) {fileName : Bytes}
    (short : fileName.length ≤ 255) :
    call.client.fragment call.fullPath call.req.path fileName =
      .ok (call.client.fragmentText call.fullPath call.req.path fileName) := by
  have slash : (bytes "/").length = 1 := by decide
  have inPath : (call.fullPath ++ bytes "/" ++ fileName).length < buffSize := by
    have dir := bounded.fullPath
    simp only [List.length_append, slash, buffSize]
    omega
  have inBuffer : (call.client.fragmentText call.fullPath call.req.path fileName).length <
      buffSize := by
    have bound := @length_fragmentText_le _ call.fullPath call.req.path fileName bounded.shown
    have path := bounded.path
    simp only [buffSize]
    omega
  rw [Client.fragment, strcpy, if_pos inPath, strcpy, if_pos inBuffer]
  rfl

theorem fragments_made {call : Call} (bounded : call.Bounded) {names : List Bytes}
    (short : ∀ name ∈ names, name.length ≤ 255) :
    names.mapM (call.client.fragment call.fullPath call.req.path) =
      .ok (names.map (call.client.fragmentText call.fullPath call.req.path)) := by
  induction names with
  | nil => rfl
  | cons name rest ih =>
      rcases List.forall_mem_cons.mp short with ⟨first, others⟩
      rw [List.mapM_cons, fragment_eq bounded first, ih others]
      rfl

/-! ## Pages -/

theorem sends_page (ts : Bytes) (texts : List Bytes) :
    (page texts).flatMap (sends ts) =
      responseHeaders ts (formatSize (contentLength (texts.map List.length).sum)) ::
        header :: (texts ++ [footer]) := by
  rw [page, List.flatMap_cons, List.flatMap_append, List.flatMap_map]
  simp [sends]

/-- The length that the headers announce is the number of bytes in the body. -/
theorem length_body (texts : List Bytes) :
    (header :: (texts ++ [footer])).flatten.length =
      contentLength (texts.map List.length).sum := by
  rw [List.flatten_cons, List.flatten_append, List.flatten_singleton, List.length_append,
    List.length_append, List.length_flatten, contentLength, Nat.add_assoc,
    Nat.add_comm footer.length]

/-- The response headers fit into the buffer. -/
theorem length_responseHeaders_lt {ts : Bytes} {n : Nat} (time : ts.length < 256)
    (small : n < 2 ^ 31) : (responseHeaders ts (decimal n)).length < buffSize := by
  have digits : (decimal n).length ≤ 10 :=
    length_decimal_le (by decide) (Nat.lt_trans small (by decide))
  have first : (bytes "HTTP/1.1 200 OK\r\nServer: ogws/0.1\r\nDate: ").length = 41 := by decide
  have second : (bytes "\r\nContent-Type: text/html\r\nContent-Length: ").length = 43 := by decide
  have last : (bytes "\r\n\r\n").length = 4 := by decide
  simp only [responseHeaders, List.length_append, first, second, last, buffSize]
  omega

theorem notFound_eq {call : Call} (bounded : call.Bounded) :
    call.client.notFound call.req = .ok [.error 404 (bytes "Not Found")] := by
  rcases bounded.named with ⟨names, log⟩
  have logged : (call.req.server.serverNames.isEmpty || call.req.server.errorLog.isNone) =
      false := by
    cases serverNames : call.req.server.serverNames with
    | nil => exact absurd serverNames names
    | cons => cases errorLog : call.req.server.errorLog <;> simp_all
  rw [Client.notFound, Client.sends, sendErrorResponse, errorResponse]
  simp only [logged, Bool.false_eq_true, if_false]
  rfl

/-- How a call goes on: with an error response, or with the fragments of its directory. -/
theorem route_eq {call : Call} (bounded : call.Bounded) :
    call.client.showDirectoryListing call.req call.fullPath =
      match call.entries with
      | none => .ok (.reply [.error 404 (bytes "Not Found")])
      | some entries => .ok (.list (call.fragments entries)) := by
  rw [Client.showDirectoryListing, Call.entries]
  cases found : call.client.outside.fs.entries call.fullPath with
  | none =>
      simp only [notFound_eq bounded]
      rfl
  | some entries =>
      have short : ∀ name ∈ entries.filter (· ≠ bytes "."), name.length ≤ 255 :=
        fun name member => bounded.names entries found name (List.mem_of_mem_filter member)
      simp only [fragments_made bounded short]
      rfl

/-- The list that a call finds empty it leaves empty, and its page has the fragments of its
own directory only. -/
theorem Call.Answers.shows {call : Call} (bounded : call.Bounded) {s s' : Fragments}
    {replies : List Reply} (empty : Holds s []) (answers : call.Answers s replies s') :
    call.Shows replies ∧ Holds s' [] := by
  have route := route_eq bounded
  rw [Shows]
  cases found : call.entries with
  | none =>
      simp only [found] at route
      cases answers with
      | reply routed =>
          obtain rfl := Client.Route.reply.inj (Except.ok.inj (routed.symm.trans route))
          exact ⟨rfl, empty⟩
      | list routed => cases routed.symm.trans route
  | some entries =>
      simp only [found] at route
      cases answers with
      | reply routed => cases routed.symm.trans route
      | list routed run =>
          obtain rfl := Client.Route.list.inj (Except.ok.inj (routed.symm.trans route))
          rcases @steps_page _ _ (call.fragments entries) empty with ⟨s'', page_, last⟩
          rcases run.done_unique rfl page_ rfl with ⟨rfl, rfl⟩
          have small := bounded.total entries found
          refine ⟨⟨header :: (call.fragments entries ++ [footer]), ?_, rfl, ?_⟩, last⟩
          · rw [length_body, ← formatSize_of_lt small]
            exact sends_page call.ts (call.fragments entries)
          · rw [length_body]
            exact length_responseHeaders_lt bounded.ts small

theorem Call.exists_answers {call : Call} (bounded : call.Bounded) {s : Fragments}
    (empty : Holds s []) : ∃ replies s', call.Answers s replies s' := by
  have route := route_eq bounded
  cases found : call.entries with
  | none =>
      simp only [found] at route
      exact ⟨_, s, .reply route⟩
  | some entries =>
      simp only [found] at route
      rcases @steps_page _ _ (call.fragments entries) empty with ⟨s', run, _⟩
      exact ⟨_, s', .list route run⟩

/-- The pages of a session. -/
theorem session_shows {calls : List Call} (bounded : ∀ call ∈ calls, call.Bounded)
    {s : Fragments} (empty : Holds s []) :
    (∃ replies s', Session s calls replies s') ∧
      ∀ replies s', Session s calls replies s' →
        List.Forall₂ Call.Shows calls replies ∧ Holds s' [] := by
  induction calls generalizing s with
  | nil =>
      constructor
      · exact ⟨[], s, .nil⟩
      · intro replies s' session
        cases session with
        | nil => exact ⟨.nil, empty⟩
  | cons call rest ih =>
      rcases List.forall_mem_cons.mp bounded with ⟨first, others⟩
      constructor
      · rcases Call.exists_answers first empty with ⟨out, s', answers⟩
        rcases (ih others (answers.shows first empty).2).1 with ⟨more, s'', session⟩
        exact ⟨out :: more, s'', .cons answers session⟩
      · intro replies s'' session
        cases session with
        | cons answers session =>
            rcases answers.shows first empty with ⟨shows, empty'⟩
            rcases (ih others empty').2 _ _ session with ⟨more, last⟩
            exact ⟨.cons shows more, last⟩

/-- The pages of all listings since the server has started. -/
theorem listings_show {calls : List Call} (bounded : ∀ call ∈ calls, call.Bounded) :
    (∃ replies s', Session .empty calls replies s') ∧
      ∀ replies s', Session .empty calls replies s' →
        List.Forall₂ Call.Shows calls replies ∧ Holds s' [] :=
  session_shows bounded holds_empty

/-- A directory with the given names, shown by a server of an empty block. -/
def namesCall (names : List Bytes) : Call :=
  { client :=
      { site := { isDefaultServer := true, servers := [], regexMatch := fun _ _ => false }
        listener := serverOf .initial
        received := []
        outside :=
          { fs :=
              { isDir := fun _ => some false
                opens := fun _ => true
                size := fun _ => 7
                entries := fun _ => some names }
            connect := fun _ => .connectFails
            passTo := fun _ => none
            clientIp := bytes "127.0.0.1"
            defaultType := bytes "text/html"
            mimeTypes := [] }
        content := fun _ => []
        showSize := formatSize
        stale := fun _ => false
        upstreams := [] }
    req :=
      { verb := bytes "GET"
        path := bytes "/a"
        queryString := none
        protocol := bytes "HTTP/1.1"
        host := bytes "localhost"
        headers := []
        server := serverOf .initial
        loc := defaultLocation }
    fullPath := bytes "/var/www/ogws/html/a"
    ts := bytes "Mon, 01 Jan 2024 00:00:00 GMT" }

/-- Two directories, one after the other. -/
theorem listings_show_two :
    (∃ replies s', Session .empty [namesCall [bytes ".", bytes "..", bytes "b"],
        namesCall [bytes "c"]] replies s') ∧
      ∀ replies s', Session .empty [namesCall [bytes ".", bytes "..", bytes "b"],
          namesCall [bytes "c"]] replies s' →
        List.Forall₂ Call.Shows [namesCall [bytes ".", bytes "..", bytes "b"],
          namesCall [bytes "c"]] replies ∧ Holds s' [] := by
  have bounded : ∀ names : List Bytes, (∀ name ∈ names, name.length ≤ 255) →
      contentLength (((namesCall names).fragments names).map List.length).sum < 2 ^ 31 →
        (namesCall names).Bounded := by
    intro names short small
    constructor
    · exact (by decide : (bytes "/a").length ≤ 255)
    · exact (by decide : (bytes "/var/www/ogws/html/a").length < 300)
    · exact (by decide : (bytes "Mon, 01 Jan 2024 00:00:00 GMT").length < 256)
    · intro entries is
      obtain rfl := Option.some.inj is
      exact short
    · intro size
      exact (length_formatInt_le _).trans (by decide)
    · intro entries is
      obtain rfl := Option.some.inj is
      exact small
    · exact ⟨List.cons_ne_nil _ _, rfl⟩
  apply listings_show
  intro call member
  rcases List.mem_cons.mp member with rfl | member
  · exact bounded _ (by decide) (by decide +kernel)
  · obtain rfl := List.mem_singleton.mp member
    exact bounded _ (by decide) (by decide +kernel)

end OgWebserver.Request.Listing

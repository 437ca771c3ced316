import OgWebserver.Request.Handlers
import OgWebserver.Request.Listing

/-!
# Threads of the TLS server

`tlsServer` handles each request in a thread of its own.  The threads share the target that
`handleTryFiles` keeps in a global variable, and the list of `showDirectoryListing`; each
access to one of them is a step.  What happens between two accesses belongs to the thread
alone.
-/

namespace OgWebserver.Request

open Text Config Transition

/-- A client's request, and what its thread finds outside. -/
structure Client where
  site : Site
  /-- The server that listens on the port. -/
  listener : Server
  received : Bytes
  outside : Outside
  /-- The contents of the files. -/
  content : Bytes → Bytes
  /-- The format `%'d` in the locale of the server. -/
  showSize : Nat → Bytes
  /-- What `S_ISDIR` says of a file for which `stat` fails, in memory that is not set. -/
  stale : Bytes → Bool
  /-- The groups, when the request is handled. -/
  upstreams : List Upstreams

namespace Client

variable (c : Client)

/-- `processInput` up to the call of a handler. -/
def decision : Except Fault Decision :=
  dispatch c.site c.listener c.received

/-! ## Between the accesses -/

/-- What `addFragment` puts into its buffer. -/
def fragmentText (dirPath path fileName : Bytes) : Bytes :=
  let fullPath := dirPath ++ bytes "/" ++ fileName
  let link := bytes "<li><a href=\"" ++ path ++ bytes "/" ++ fileName ++ bytes "\">" ++ fileName ++
    bytes "</a>"
  let isDir := c.outside.fs.isDir fullPath
  if isDir.getD (c.stale fullPath) then link ++ bytes " Directory</li>"
  else
    link ++ bytes "<span  class=\"sz\"> - " ++
      c.showSize (if isDir.isSome then c.outside.fs.size fullPath else 0) ++
      bytes " Bytes</span></li>"

/-- The fragment for a file.  The text of one that does not fit into the buffer would be sent
with bytes behind it that are not set. -/
def fragment (dirPath path fileName : Bytes) : Except Fault Bytes := do
  let _ ← strcpy buffSize (dirPath ++ bytes "/" ++ fileName)
  strcpy buffSize (c.fragmentText dirPath path fileName)

/-- The directory that a listing shows, and its path in the request. -/
def listed : Option (Bytes × Bytes) :=
  match c.decision with
  | .ok (.handle _ req) => req.loc.root.map fun root => (joinPath root.text req.path, req.path)
  | _ => none

/-- What the client gets of an event. -/
def reply : Event → List Reply
  | .respond (.error code msg) => [.error code msg]
  | .respond (.file fullPath mimeType size withBody) =>
      [.file mimeType size (if withBody then some (c.content fullPath) else none)]
  | .respond (.listing entries) =>
      match c.listed with
      | some (fullPath, path) => Listing.page (entries.map (c.fragmentText fullPath path))
      | none => []
  | .respond (.relayed done) => [.relayed done.sent.flatten]
  | .forward .. => []

def replies (events : List Event) : List Reply :=
  events.flatMap c.reply

/-- What a handler sends, or part of one that uses no global variable. -/
def sends (handler : World → Except Fault World) : Except Fault (List Reply) := do
  let w ← handler { upstreams := c.upstreams, events := [] }
  .ok (c.replies w.events)

/-- How a request is answered, as far as it does not depend on global variables. -/
inductive Route
  | reply (replies : List Reply)
  /-- `showDirectoryListing`, with these fragments. -/
  | list (fragments : List Bytes)
  /-- `serveDefaultFile`, behind the test for `proxy_pass`. -/
  | fallBack

def notFound (req : ClientRequest) : Except Fault (List Reply) :=
  c.sends (sendErrorResponse req 404 (bytes "Not Found") req.path)

/-- `showDirectoryListing` up to the list. -/
def showDirectoryListing (req : ClientRequest) (fullPath : Bytes) : Except Fault Route :=
  match c.outside.fs.entries fullPath with
  | none => do .ok (.reply (← c.notFound req))
  | some entries => do
      .ok (.list (← (entries.filter (· ≠ bytes ".")).mapM (c.fragment fullPath req.path)))

def handleGetVerb (req : ClientRequest) : Except Fault Route := do
  let (fullPath, isDir) ← pathExists c.outside req req.path
  match isDir with
  | none => .ok (.reply (← c.notFound req))
  | some true =>
      match ← openDefaultIndexFile c.outside fullPath req.server.indexFiles with
      | some indexPath => .ok (.reply (← c.sends (serveFile c.outside req indexPath)))
      | none =>
          if req.server.autoIndex then c.showDirectoryListing req fullPath
          else .ok (.reply (← c.notFound req))
  | some false =>
      if c.outside.fs.opens fullPath then
        .ok (.reply (← c.sends (serveFile c.outside req fullPath)))
      else .ok (.reply (← c.notFound req))

/-- `serveDefaultFile` up to the first access to the target. -/
def serveDefaultFile (req : ClientRequest) : Except Fault Route :=
  if hasBit req.loc.type typeProxyPass then
    do .ok (.reply (← c.sends (handleProxyPass c.outside req)))
  else .ok .fallBack

/-- `handleTryFiles` behind the test of the target. -/
def handleTryFiles (req : ClientRequest) : Except Fault Route := do
  let (fullPath, isDir) ← pathExists c.outside req req.path
  match isDir with
  | none => c.serveDefaultFile req
  | some false =>
      if c.outside.fs.opens fullPath then
        .ok (.reply (← c.sends (serveFile c.outside req fullPath)))
      else c.serveDefaultFile req
  | some true =>
      match ← openDefaultIndexFile c.outside fullPath req.server.indexFiles with
      | none =>
          if req.server.autoIndex then c.showDirectoryListing req fullPath
          else c.serveDefaultFile req
      | some indexPath =>
          if hasBit req.loc.type typeProxyPass then
            .ok (.reply (← c.sends (handleProxyPass c.outside req)))
          else .ok (.reply (← c.sends (serveFile c.outside req indexPath)))

/-- How the request is answered. -/
def route : Except Fault Route := do
  match ← c.decision with
  | .error code msg _ => .ok (.reply [.error code msg])
  | .handle .tryFiles req => c.handleTryFiles req
  | .handle .byVerb req => c.handleGetVerb req
  | .handle .proxyPass req => .ok (.reply (← c.sends (handleProxyPass c.outside req)))
  | .handle .fastcgiPass req => .ok (.reply (← c.sends (handleFastCGIPass c.outside req)))

/-- What `handleTryFiles` puts into the global variable, if it is called. -/
def target : Option (Option Bytes) :=
  match c.decision with
  | .ok (.handle .tryFiles req) => some (checkTryFilesFormat req.loc)
  | _ => none

/-- The test of the target, and the response if it is null. -/
def testTarget : Option Bytes → Except Fault (List Reply)
  | some _ => .ok []
  | none =>
      match c.decision with
      | .ok (.handle _ req) => c.notFound req
      | _ => .ok []

/-- `serveDefaultFile` behind the copies of the target: `pathExists` and what follows.  The
copy in the request is only logged. -/
def serveTarget (target : Bytes) : Except Fault (List Reply) :=
  match c.decision with
  | .ok (.handle _ req) =>
      c.sends fun w => do
        let (fullPath, isDir) ← pathExists c.outside req target
        if isDir = some true then sendErrorResponse req 404 (bytes "Not Found") target w
        else if c.outside.fs.opens fullPath then serveFile c.outside req fullPath w
        else sendErrorResponse req 404 (bytes "Not Found") target w
  | _ => .ok []

end Client

/-! ## The threads -/

/-- The global variables. -/
structure Shared where
  tryTarget : Option Bytes
  list : Listing.Fragments

/-- When the server has started. -/
def Shared.initial : Shared :=
  { tryTarget := none, list := .empty }

namespace Client

/-- Where a thread is. -/
inductive Pc
  | start
  /-- `if (!tryTarget)`. -/
  | test
  /-- `strlen(tryTarget)`. -/
  | strlen
  /-- `strcpy(req->path, tryTarget)`, into a new buffer of this size. -/
  | strcpy (size : Nat)
  /-- `pathExists(req, tryTarget)`. -/
  | lookUp
  | listing (k : Listing.Pc)
  | done

/-- Where a thread comes to behind the last access, and what it has sent by then. -/
def follow (front : List Reply) : Route → Pc × List Reply
  | .reply replies => (.done, front ++ replies)
  | .list fragments => (.listing (.add fragments), front)
  | .fallBack => (.strlen, front)

/-- A step, with at most one access to a global variable. -/
def step (c : Client) : Pc → Shared → Except Fault (Pc × Shared × List Reply)
  | .start, s =>
      match c.target with
      | some target => .ok (.test, { s with tryTarget := target }, [])
      | none => do
          let (k, replies) := follow [] (← c.route)
          .ok (k, s, replies)
  | .test, s => do
      let front ← c.testTarget s.tryTarget
      let (k, replies) := follow front (← c.route)
      .ok (k, s, replies)
  | .strlen, s =>
      match s.tryTarget with
      | none => .error .nullPointer
      | some target => .ok (.strcpy (target.length + 1), s, [])
  | .strcpy size, s =>
      match s.tryTarget with
      | none => .error .nullPointer
      | some target =>
          if target.length < size then .ok (.lookUp, s, []) else .error .outOfBounds
  | .lookUp, s =>
      match s.tryTarget with
      | none => .error .nullPointer
      | some target => do .ok (.done, s, ← c.serveTarget target)
  | .listing k, s => do
      let (k, list, replies) ← Listing.step k s.list
      .ok (.listing k, { s with list := list }, replies)
  | .done, s => .ok (.done, s, [])

/-- The thread of a client. -/
def thread (c : Client) : Program Pc Shared Reply Fault where
  step := c.step
  done k := k = .done ∨ k = .listing .done
  stops := by
    rintro _ s (rfl | rfl) <;> rfl

/-! ## Single steps -/

/-- The steps of a thread, with what they read. -/
inductive Moves (c : Client) : Pc → Shared → Pc → Shared → List Reply → Prop
  | write {s target} (is : c.target = some target) :
      Moves c .start s .test { s with tryTarget := target } []
  | begin_ {s r} (is : c.target = none) (routed : c.route = .ok r) :
      Moves c .start s (follow [] r).1 s (follow [] r).2
  | test {s front r} (tested : c.testTarget s.tryTarget = .ok front) (routed : c.route = .ok r) :
      Moves c .test s (follow front r).1 s (follow front r).2
  | strlen {s target} (read : s.tryTarget = some target) :
      Moves c .strlen s (.strcpy (target.length + 1)) s []
  | strcpy {s target size} (read : s.tryTarget = some target) (fits : target.length < size) :
      Moves c (.strcpy size) s .lookUp s []
  | lookUp {s target replies} (read : s.tryTarget = some target)
      (served : c.serveTarget target = .ok replies) : Moves c .lookUp s .done s replies
  | listing {s k k' list replies} (step : Listing.step k s.list = .ok (k', list, replies)) :
      Moves c (.listing k) s (.listing k') { s with list := list } replies
  | done {s} : Moves c .done s .done s []

variable {c : Client} {k k' : Pc} {s s' : Shared} {out : List Reply}

theorem step_of_moves (moves : Moves c k s k' s' out) : c.step k s = .ok (k', s', out) := by
  cases moves with
  | write is => simp only [step, is]
  | begin_ is routed =>
      simp only [step, is, routed]
      rfl
  | test tested routed =>
      rw [step, tested, routed]
      rfl
  | strlen read => simp only [step, read]
  | strcpy read fits => simp only [step, read, fits, if_pos]
  | lookUp read served =>
      simp only [step, read, served]
      rfl
  | listing taken =>
      rw [step, taken]
      rfl
  | done => rfl

theorem moves_of_step (taken : c.step k s = .ok (k', s', out)) : Moves c k s k' s' out := by
  cases k with
  | start =>
      rw [step] at taken
      split at taken
      case h_1 target is =>
        obtain ⟨rfl, rfl, rfl⟩ : Pc.test = k' ∧ _ = s' ∧ [] = out := by simpa using taken
        exact .write is
      case h_2 is =>
        rcases bind_eq_ok_iff.mp taken with ⟨r, routed, same⟩
        obtain ⟨rfl, rfl, rfl⟩ : (follow [] r).1 = k' ∧ s = s' ∧ (follow [] r).2 = out := by
          simpa using same
        exact .begin_ is routed
  | test =>
      rcases bind_eq_ok_iff.mp taken with ⟨front, tested, taken⟩
      rcases bind_eq_ok_iff.mp taken with ⟨r, routed, same⟩
      obtain ⟨rfl, rfl, rfl⟩ : (follow front r).1 = k' ∧ s = s' ∧ (follow front r).2 = out := by
        simpa using same
      exact .test tested routed
  | strlen =>
      rw [step] at taken
      split at taken
      · cases taken
      case h_2 target read =>
        obtain ⟨rfl, rfl, rfl⟩ : Pc.strcpy (target.length + 1) = k' ∧ s = s' ∧ [] = out := by
          simpa using taken
        exact .strlen read
  | strcpy size =>
      rw [step] at taken
      split at taken
      · cases taken
      case h_2 target read =>
        split at taken
        case isTrue fits =>
          obtain ⟨rfl, rfl, rfl⟩ : Pc.lookUp = k' ∧ s = s' ∧ [] = out := by simpa using taken
          exact .strcpy read fits
        · cases taken
  | lookUp =>
      rw [step] at taken
      split at taken
      · cases taken
      case h_2 target read =>
        rcases bind_eq_ok_iff.mp taken with ⟨replies, served, same⟩
        obtain ⟨rfl, rfl, rfl⟩ : Pc.done = k' ∧ s = s' ∧ replies = out := by simpa using same
        exact .lookUp read served
  | listing l =>
      rcases bind_eq_ok_iff.mp taken with ⟨⟨l', list, replies⟩, listed, same⟩
      obtain ⟨rfl, rfl, rfl⟩ : Pc.listing l' = k' ∧ _ = s' ∧ replies = out := by simpa using same
      exact .listing listed
  | done =>
      rw [step] at taken
      obtain ⟨rfl, rfl, rfl⟩ : Pc.done = k' ∧ s = s' ∧ out = [] := by simpa using taken
      exact .done

end Client

end OgWebserver.Request

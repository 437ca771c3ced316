import OgWebserver.Request.Forward
import OgWebserver.Request.Process
import OgWebserver.Request.Relay

/-!
# The handlers

What the handlers do with a request, as far as the client and the upstream can
see it.  A handler takes the world and returns it with more events, or ends in a
memory error.
-/

namespace OgWebserver.Request

open Text Config Transition

/-- The file system as the handlers ask for it. -/
structure FileSystem where
  /-- `stat`: is the path a directory?  `none` if the call fails. -/
  isDir : Bytes → Option Bool
  /-- `open(path, O_RDONLY)` succeeds. -/
  opens : Bytes → Bool
  /-- Offset of the end of an opened file. -/
  size : Bytes → Nat
  /-- Names that `readdir` lists; `none` if `opendir` fails. -/
  entries : Bytes → Option (List Bytes)

/-- What comes of connecting to an upstream: the pieces of its answer, if it can
be reached. -/
inductive Connection
  | socketFails
  | connectFails
  | connected (pieces : List Bytes)

/-- What the handlers ask of the outside. -/
structure Outside where
  fs : FileSystem
  connect : SockAddr → Connection
  /-- Addresses of the upstream nodes. -/
  passTo : Nat → Option SockAddr
  clientIp : Bytes
  defaultType : Bytes
  /-- Extensions and their MIME types, in the order of the list. -/
  mimeTypes : List (Bytes × Bytes)

/-- A response, by the function that sends it. -/
inductive Response
  /-- `sendErrorResponse`. -/
  | error (code : Nat) (msg : Bytes)
  /-- `serveFile`: the file's size in the header, and its content if `withBody`. -/
  | file (fullPath mimeType : Bytes) (size : Nat) (withBody : Bool)
  /-- `showDirectoryListing`. -/
  | listing (entries : List Bytes)
  /-- Bytes passed on from an upstream. -/
  | relayed (done : Relayed)

/-- What leaves the server while it handles a request. -/
inductive Event
  | respond (response : Response)
  | forward (address : SockAddr) (sends : List Bytes)

/-- The groups, and what has happened so far. -/
structure World where
  upstreams : List Upstreams
  events : List Event

def World.emit (w : World) (event : Event) : World :=
  { w with events := w.events ++ [event] }

/-! ## Local files -/

/-- `strcpy` into a buffer of the given size. -/
def strcpy (size : Nat) (text : Bytes) : Except Fault Bytes :=
  if text.length < size then .ok text else .error .outOfBounds

/-- Two paths joined by a slash, unless the second one begins with it. -/
def joinPath (first second : Bytes) : Bytes :=
  if second.head? = some 47 then first ++ second else first ++ bytes "/" ++ second

def sendErrorResponse (req : ClientRequest) (code : Nat) (msg path : Bytes) (w : World) :
    Except Fault World := do
  let _ ← errorResponse (some req.server) code msg path
  .ok (w.emit (.respond (.error code msg)))

/-- `pathExists`: the full path in a buffer of 300 bytes, and whether it is a
directory. -/
def pathExists (o : Outside) (req : ClientRequest) (path : Bytes) :
    Except Fault (Bytes × Option Bool) :=
  match req.loc.root with
  | none => .error .nullPointer
  | some root => do
      let fullPath ← strcpy 300 (joinPath root.text path)
      .ok (fullPath, o.fs.isDir fullPath)

/-- `openDefaultIndexFile`: the first index file that opens. -/
def openDefaultIndexFile (o : Outside) (fullPath : Bytes) :
    List Bytes → Except Fault (Option Bytes)
  | [] => .ok none
  | indexFile :: rest => do
      let indexPath ← strcpy 300 (joinPath fullPath indexFile)
      if o.fs.opens indexPath then .ok (some indexPath) else openDefaultIndexFile o fullPath rest

/-- The text behind the last dot. -/
def extension (name : Bytes) : Option Bytes :=
  if 46 ∈ name then some (name.reverse.takeWhile (· ≠ 46)).reverse else none

/-- `getMimeType`, into a buffer of 256 bytes. -/
def getMimeType (o : Outside) (name : Bytes) : Except Fault Bytes := do
  let mimeType ← strcpy 256 o.defaultType
  match (extension name).bind fun ext => o.mimeTypes.find? (·.1 == ext) with
  | none => .ok mimeType
  | some entry => strcpy 256 entry.2

/-- `serveFile`, of the file opened. -/
def serveFile (o : Outside) (req : ClientRequest) (fullPath : Bytes) (w : World) :
    Except Fault World := do
  let mimeType ← getMimeType o fullPath
  let withBody := req.verb == bytes "GET"
  .ok (w.emit (.respond (.file fullPath mimeType (o.fs.size fullPath) withBody)))

def showDirectoryListing (o : Outside) (req : ClientRequest) (fullPath : Bytes) (w : World) :
    Except Fault World :=
  match o.fs.entries fullPath with
  | none => sendErrorResponse req 404 (bytes "Not Found") req.path w
  | some entries =>
      .ok (w.emit (.respond (.listing (entries.filter (· ≠ bytes ".")))))

def handleGetVerb (o : Outside) (req : ClientRequest) (w : World) : Except Fault World := do
  let (fullPath, isDir) ← pathExists o req req.path
  match isDir with
  | none => sendErrorResponse req 404 (bytes "Not Found") req.path w
  | some true =>
      match ← openDefaultIndexFile o fullPath req.server.indexFiles with
      | some indexPath => serveFile o req indexPath w
      | none =>
          if req.server.autoIndex then showDirectoryListing o req fullPath w
          else sendErrorResponse req 404 (bytes "Not Found") req.path w
  | some false =>
      if o.fs.opens fullPath then serveFile o req fullPath w
      else sendErrorResponse req 404 (bytes "Not Found") req.path w

/-! ## Upstreams -/

/-- The common body of `handleProxyPass` and `handleFastCGIPass`. -/
def passUpstream (o : Outside) (req : ClientRequest) (w : World) : Except Fault World := do
  match ← chooseUpstream w.upstreams o.passTo req.loc with
  | none => .ok w
  | some (address, upstreams) =>
      let w := { w with upstreams := upstreams }
      match o.connect address with
      | .socketFails | .connectFails => .ok w
      | .connected pieces => do
          let w := w.emit (.forward address (forward req.headers o.clientIp))
          let done ← relayResponse pieces
          .ok (if done.sent.isEmpty then w else w.emit (.respond (.relayed done)))

def handleProxyPass : Outside → ClientRequest → World → Except Fault World :=
  passUpstream

/-- `initParameters` in front of it fills a table that nothing reads. -/
def handleFastCGIPass : Outside → ClientRequest → World → Except Fault World :=
  passUpstream

/-! ## `try_files` -/

def serveDefaultFile (o : Outside) (tryTarget : Option Bytes) (req : ClientRequest) (w : World) :
    Except Fault World :=
  if hasBit req.loc.type typeProxyPass then handleProxyPass o req w
  else
    match tryTarget with
    | none => .error .nullPointer
    | some target => do
        let (fullPath, isDir) ← pathExists o req target
        -- `pathExists` never returns 0, so a missing file goes on to `open`
        let req := { req with path := target }
        if isDir = some true then sendErrorResponse req 404 (bytes "Not Found") req.path w
        else if o.fs.opens fullPath then serveFile o req fullPath w
        else sendErrorResponse req 404 (bytes "Not Found") req.path w

/-- `handleTryFiles` behind the check of the format. -/
def tryFiles (o : Outside) (tryTarget : Option Bytes) (req : ClientRequest) (w : World) :
    Except Fault World := do
  let (fullPath, isDir) ← pathExists o req req.path
  match isDir with
  | none => serveDefaultFile o tryTarget req w
  | some false =>
      if o.fs.opens fullPath then serveFile o req fullPath w
      else serveDefaultFile o tryTarget req w
  | some true =>
      match ← openDefaultIndexFile o fullPath req.server.indexFiles with
      | none =>
          if req.server.autoIndex then showDirectoryListing o req fullPath w
          else serveDefaultFile o tryTarget req w
      | some indexPath =>
          if hasBit req.loc.type typeProxyPass then handleProxyPass o req w
          else serveFile o req indexPath w

/-- The error response to an unknown format does not end the function. -/
def handleTryFiles (o : Outside) (req : ClientRequest) (w : World) : Except Fault World :=
  let tryTarget := checkTryFilesFormat req.loc
  match tryTarget with
  | some _ => tryFiles o tryTarget req w
  | none => do
      let w ← sendErrorResponse req 404 (bytes "Not Found") req.path w
      tryFiles o tryTarget req w

/-! ## Requests -/

/-- Call the handler. -/
def Handler.call : Handler → Outside → ClientRequest → World → Except Fault World
  | .tryFiles => handleTryFiles
  | .proxyPass => handleProxyPass
  | .fastcgiPass => handleFastCGIPass
  | .byVerb => handleGetVerb

/-- Send the error response, or call the handler. -/
def Decision.carryOut (o : Outside) (w : World) : Decision → Except Fault World
  | .error code msg _ => .ok (w.emit (.respond (.error code msg)))
  | .handle handler req => handler.call o req w

/-- `processInput`. -/
def processInput (site : Site) (o : Outside) (listener : Server) (received : Bytes) (w : World) :
    Except Fault World := do
  let decision ← dispatch site listener received
  decision.carryOut o w

end OgWebserver.Request

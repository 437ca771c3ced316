import OgWebserver.Request.Threads
import OgWebserver.Transition.Effects

/-!
# Effects of the handlers

The handlers once more, with all that they do on the way: the fields of the request by
which they communicate, the descriptors they open and close, the strings they copy into
buffers of a fixed size, and the records they write to the logs.  What has been done stays
done when a memory error stops the handler.
-/

namespace OgWebserver.Request

open Text Config Transition

/-- What a descriptor is open for. -/
inductive Object
  | file (path : Bytes)
  | directory (path : Bytes)
  | socket (address : SockAddr)
  | other
  deriving DecidableEq

/-- The log of a server, by its position in the list. -/
inductive LogRef
  | accessLog (position : Nat)
  | errorLog (position : Nat)
  deriving DecidableEq

/-- A `write` to a log: the record, what `snprintf` has stored of it, and the length that
is passed. -/
structure LogWrite where
  log : LogRef
  record : Bytes
  stored : Bytes
  size : Nat
  deriving DecidableEq

/-- The state of a request that is being handled, and of the process around it. -/
structure Handling where
  world : World
  path : Bytes
  fullPath : Bytes
  isDir : Bool
  /-- `none` for -1. -/
  localFd : Option Nat
  /-- The open descriptors. -/
  table : List (Nat × Object)
  /-- The strings that have been copied, behind the sizes of their buffers. -/
  copies : List (Nat × Bytes)
  writes : List LogWrite

abbrev Act := EStateM Fault Handling

/-! ## Steps -/

def emit (event : Event) : Act Unit :=
  modify fun s => { s with world := s.world.emit event }

/-- `strcpy` into a buffer of the given size. -/
def copy (size : Nat) (text : Bytes) : Act Unit := do
  modify fun s => { s with copies := s.copies ++ [(size, text)] }
  if text.length < size then pure () else throw .outOfBounds

/-- `close` of a number that is not open does nothing. -/
def close (fd : Nat) : Act Unit :=
  modify fun s => { s with table := s.table.eraseP fun entry => entry.1 == fd }

/-- The format `"%s %s %s %d %s %s %s\n"`; a null pointer is shown as `(null)`. -/
def logRecord (ts ip : Bytes) (verb : Option Bytes) (httpCode : Int32) (name path last : Bytes) :
    Bytes :=
  ts ++ bytes " " ++ ip ++ bytes " " ++ verb.getD (bytes "(null)") ++ bytes " " ++
    formatInt httpCode ++ bytes " " ++ name ++ bytes " " ++ path ++ bytes " " ++ last ++ bytes "\n"

/-- `snprintf` into a buffer of `BUFF_SIZE` bytes, and `write` with the length that it
returns, which is that of the whole record. -/
def logWrite (log : LogRef) (record : Bytes) : LogWrite :=
  { log := log
    record := record
    stored := record.take (buffSize - 1)
    size := record.length }

def writeRecord (log : LogRef) (record : Bytes) : Act Unit :=
  modify fun s => { s with writes := s.writes ++ [logWrite log record] }

/-! ## Requests and the system -/

def timeBuf : Nat := 256

def inetAddrStrlen : Nat := 16

/-- A client's request, and what the system does while it is handled. -/
structure Visit extends Client where
  clientFd : Nat
  /-- `recv` from the client fails. -/
  clientFails : Bool
  /-- The number of the next descriptor. -/
  newFd : List Nat → Nat
  newFd_notMem : ∀ used, newFd used ∉ used
  /-- `recv` fails behind the pieces of the upstream. -/
  recvFails : SockAddr → Bool
  /-- What `inet_ntop` makes of the client's address. -/
  peerIp : Bytes
  peerIp_short : peerIp.length < inetAddrStrlen
  /-- The time when the n-th record is written. -/
  timestamp : Nat → Bytes
  timestamp_short : ∀ n, (timestamp n).length < timeBuf

namespace Visit

/-- The request as `calloc` leaves it. -/
def start (v : Visit) (table : List (Nat × Object)) : Handling :=
  { world := { upstreams := v.upstreams, events := [] }
    path := []
    fullPath := []
    isDir := false
    localFd := some 0
    table := table
    copies := []
    writes := [] }

variable (v : Visit)

/-! ## Descriptors -/

/-- A new descriptor. -/
def openFor (object : Object) : Act Nat := do
  let s ← get
  let fd := v.newFd (s.table.map (·.1))
  set { s with table := (fd, object) :: s.table }
  return fd

def openFile (path : Bytes) : Act (Option Nat) := do
  if v.outside.fs.opens path then return some (← v.openFor (.file path)) else return none

/-! ## Logs -/

def accessLog (server : Server) (verb : Bytes) (httpCode : Int32) (path : Bytes) (size : Int32) :
    Act Unit := do
  match server.serverNames, server.accessLog with
  | name :: _, some log =>
      let ts := v.timestamp (← get).writes.length
      writeRecord (.accessLog log)
        (logRecord ts v.peerIp (some verb) httpCode name.serverName.text path (formatInt size))
  | _, _ => throw .nullPointer

def errorLog (server : Option Server) (verb : Option Bytes) (httpCode : Int32)
    (path msg : Bytes) : Act Unit := do
  match server with
  | none => throw .nullPointer
  | some server =>
      match server.serverNames, server.errorLog with
      | name :: _, some log =>
          let ts := v.timestamp (← get).writes.length
          writeRecord (.errorLog log)
            (logRecord ts v.peerIp verb httpCode name.serverName.text path msg)
      | _, _ => throw .nullPointer

def sendErrorResponse (server : Option Server) (verb : Option Bytes) (code : Nat)
    (msg path : Bytes) : Act Unit := do
  emit (.respond (.error code msg))
  v.errorLog server verb (Int32.ofNat code) path msg

/-! ## Local files -/

/-- `-1` if `stat` fails, and otherwise 1. -/
def pathExists (req : ClientRequest) (path : Bytes) : Act Int := do
  modify fun s => { s with fullPath := [], isDir := false }
  match req.loc.root with
  | none => throw .nullPointer
  | some root =>
      let fullPath := joinPath root.text path
      copy 300 fullPath
      modify fun s => { s with fullPath := fullPath }
      match v.outside.fs.isDir fullPath with
      | none => return -1
      | some isDir =>
          modify fun s => { s with isDir := isDir }
          return 1

def openDefaultIndexFile : List Bytes → Act (Option Nat)
  | [] => return none
  | indexFile :: rest => do
      let indexPath := joinPath (← get).fullPath indexFile
      copy 300 indexPath
      match ← v.openFile indexPath with
      | some fd =>
          copy 300 indexPath
          modify fun s => { s with fullPath := indexPath }
          return some fd
      | none => openDefaultIndexFile rest

def getMimeType (name : Bytes) : Act Bytes := do
  copy 256 v.outside.defaultType
  match (extension name).bind fun ext => v.outside.mimeTypes.find? (·.1 == ext) with
  | none => return v.outside.defaultType
  | some entry =>
      copy 256 entry.2
      return entry.2

/-- `serveFile`: the MIME type goes by `fullPath`, and the content by the descriptor, which
has to be open for a file. -/
def serveFile (req : ClientRequest) : Act Unit := do
  let mimeType ← v.getMimeType (← get).fullPath
  let s ← get
  match s.localFd with
  | none => throw .deadObject
  | some fd =>
      match s.table.lookup fd with
      | some (.file path) =>
          let size := v.outside.fs.size path
          let withBody := req.verb == bytes "GET"
          emit (.respond (.file path mimeType size withBody))
          v.accessLog req.server (if withBody then bytes "GET" else bytes "HEAD") 200 s.path
            (Int32.ofNat size)
          close fd
      | _ => throw .deadObject

/-- The `int contentLength` of a listing. -/
def listingLength (fullPath path : Bytes) (entries : List Bytes) : Int32 :=
  Int32.ofNat (Listing.contentLength
    (((entries.filter (· ≠ bytes ".")).map (v.toClient.fragmentText fullPath path)).map
      List.length).sum)

def showDirectoryListing (req : ClientRequest) : Act Unit := do
  let s ← get
  match v.outside.fs.entries s.fullPath with
  | none => v.sendErrorResponse (some req.server) (some req.verb) 404 (bytes "Not Found") s.path
  | some entries =>
      let fd ← v.openFor (.directory s.fullPath)
      close fd
      emit (.respond (.listing (entries.filter (· ≠ bytes "."))))
      v.accessLog req.server (bytes "GET") 200 s.path (v.listingLength s.fullPath s.path entries)

def notFound (req : ClientRequest) : Act Unit := do
  v.sendErrorResponse (some req.server) (some req.verb) 404 (bytes "Not Found") (← get).path

def handleGetVerb (req : ClientRequest) : Act Unit := do
  if (← v.pathExists req (← get).path) = -1 then v.notFound req
  else if (← get).isDir then
    let fd ← v.openDefaultIndexFile req.server.indexFiles
    modify fun s => { s with localFd := fd }
    if fd = none then
      if req.server.autoIndex then v.showDirectoryListing req else v.notFound req
    else v.serveFile req
  else
    let fd ← v.openFile (← get).fullPath
    modify fun s => { s with localFd := fd }
    if fd = none then v.notFound req else v.serveFile req

/-! ## Upstreams -/

/-- `getUpstreamServer`: the descriptor of the connection, with the address and what the
upstream sends on it. -/
def getUpstreamServer (loc : Location) : Act (Option (Nat × SockAddr × List Bytes)) := do
  match ← liftExcept (chooseUpstream (← get).world.upstreams v.outside.passTo loc) with
  | none => return none
  | some (address, upstreams) =>
      modify fun s => { s with world := { s.world with upstreams := upstreams } }
      match v.outside.connect address with
      | .socketFails => return none
      | .connectFails =>
          close (← v.openFor (.socket address))
          return none
      | .connected pieces => return some (← v.openFor (.socket address), address, pieces)

/-- What has been relayed, as one response. -/
def relayToClient (done : Relayed) : Act Unit :=
  if done.sent.isEmpty then pure () else emit (.respond (.relayed done))

/-- `recvData` closes the socket already if `recv` fails. -/
def closeUpstream (fd : Nat) (address : SockAddr) (pieces : List Bytes) : Act Unit := do
  if v.recvFails address && pieces.all (·.length == buffSize) then close fd
  close fd

/-- The common body of `handleProxyPass` and `handleFastCGIPass`. -/
def passUpstream (req : ClientRequest) : Act Unit := do
  match ← v.getUpstreamServer req.loc with
  | none => return
  | some (fd, address, pieces) =>
      emit (.forward address (forward req.headers v.outside.clientIp))
      let done ← liftExcept (relayResponse pieces)
      relayToClient done
      v.closeUpstream fd address pieces
      v.accessLog req.server req.verb done.httpCode (← get).path done.size

def handleProxyPass : ClientRequest → Act Unit :=
  v.passUpstream

def handleFastCGIPass : ClientRequest → Act Unit :=
  v.passUpstream

/-! ## `try_files` -/

def serveDefaultFile (tryTarget : Option Bytes) (req : ClientRequest) : Act Unit := do
  if hasBit req.loc.type typeProxyPass then v.handleProxyPass req
  else
    match tryTarget with
    | none => throw .nullPointer
    | some target =>
        modify fun s => { s with path := target }
        if (← v.pathExists req target) ≠ 0 then
          if (← get).isDir then v.notFound req
          else
            let fd ← v.openFile (← get).fullPath
            modify fun s => { s with localFd := fd }
            if fd = none then v.notFound req else v.serveFile req
        else v.notFound req

/-- `handleTryFiles` behind the check of the format. -/
def tryFiles (tryTarget : Option Bytes) (req : ClientRequest) : Act Unit := do
  modify fun s => { s with isDir := false }
  if (← v.pathExists req (← get).path) = -1 then v.serveDefaultFile tryTarget req
  else if (← get).isDir = false then
    let fd ← v.openFile (← get).fullPath
    modify fun s => { s with localFd := fd }
    if fd = none then v.serveDefaultFile tryTarget req else v.serveFile req
  else
    let fd ← v.openDefaultIndexFile req.server.indexFiles
    modify fun s => { s with localFd := fd }
    if fd = none then
      if req.server.autoIndex then v.showDirectoryListing req
      else v.serveDefaultFile tryTarget req
    else if hasBit req.loc.type typeProxyPass then v.handleProxyPass req
    else v.serveFile req

def handleTryFiles (req : ClientRequest) : Act Unit := do
  let tryTarget := checkTryFilesFormat req.loc
  if tryTarget = none then v.notFound req
  v.tryFiles tryTarget req

/-! ## Requests -/

/-- Call the handler. -/
def call : Handler → ClientRequest → Act Unit
  | .tryFiles => v.handleTryFiles
  | .proxyPass => v.handleProxyPass
  | .fastcgiPass => v.handleFastCGIPass
  | .byVerb => v.handleGetVerb

/-- The end of `processInput`, for a location with a root. -/
def chooseHandler (req : ClientRequest) (root : Bytes) : Act Unit :=
  if maxLen < root.length + req.path.length then
    v.sendErrorResponse (some req.server) (some req.verb) 414 (bytes "URI too long")
      (req.path.take maxLen ++ bytes "...")
  else if handlerFor req.loc ≠ .byVerb then v.call (handlerFor req.loc) req
  else if req.verb = bytes "GET" ∨ req.verb = bytes "HEAD" then v.call .byVerb req
  else
    v.sendErrorResponse (some req.server) (some req.verb) 405 (bytes "Method Not Allowed") req.verb

/-- `processInput` behind the lookup of the server. -/
def routeTo (server : Server) (text : RequestText) : Act Unit := do
  let path := (cutQuery text.path).1
  modify fun s => { s with path := path }
  let located := (getDocRoot v.site.regexMatch server path).bind fun loc =>
    loc.root.map fun root => (loc, root)
  match located with
  | none =>
      v.sendErrorResponse (some server) (some text.verb) 500 (bytes "Bad configuration")
        (bytes "No doc root")
  | some (loc, root) =>
      v.chooseHandler
        { verb := text.verb
          path := path
          queryString := (cutQuery text.path).2
          protocol := text.protocol
          host := text.host
          headers := savedHeaders v.received
          server := server
          loc := loc }
        root.text

/-- `processInput` behind the searches. -/
def routeRequest (text : RequestText) : Act Unit := do
  let found ← liftExcept (getServerForHost v.site.isDefaultServer v.site.servers text.host)
  match found.bind fun i => v.site.servers[i]? with
  | none =>
      v.sendErrorResponse none (some text.verb) 404 (bytes "Bad request")
        (bytes "No server for this host")
  | some server => v.routeTo server text

/-- `processInput`. -/
def processInput : Act Unit := do
  if v.clientFails && v.received.isEmpty then close v.clientFd
  if v.received.length = buffSize then
    v.sendErrorResponse (some v.listener) none 413 (bytes "Bad Request")
      (bytes "Request too large")
  else if v.received.isEmpty then
    v.sendErrorResponse (some v.listener) none 400 (bytes "Bad Request") (bytes "No data")
  else
    match ← liftExcept (readRequest (inbuff v.received)) with
    | none =>
        v.sendErrorResponse (some v.listener) none 400 (bytes "Bad Request") (bytes "Bad data")
    | some text => v.routeRequest text

end Visit

end OgWebserver.Request

import OgWebserver.Config.Actions

/-!
# Actions of server blocks and of the outer levels

The remaining `f_` functions, and the alphabet of all parser actions with the
function each of them calls.
-/

namespace OgWebserver.Config

open Text

def fPid (pidFile : Bytes) (s : ParseState) : ParseState :=
  { s with pidFile := pidFile }

def fWorkerProcesses (workerProcesses : Int32) (s : ParseState) : ParseState :=
  { s with workerProcesses := workerProcesses }

def fDefaultType (type : Bytes) (s : ParseState) : ParseState :=
  { s with defaultType := type }

def fAutoindex (flag : Bool) (s : ParseState) : ParseState :=
  { s with autoIndex := flag }

def fServerTokens (flag : Bool) (s : ParseState) : ParseState :=
  { s with serverTokens := flag }

/-- `dupName`: is the name already in the list, the default left aside? -/
def dupName (name : Bytes) (s : ParseState) : Bool :=
  s.serverNames.items.any fun sn => sn.serverName.text == name

def fServerName (serverName : CString) (type : ServerNameType) (s : ParseState) :
    Except Halt ParseState :=
  if dupName serverName.text s then do
    freeString serverName
    .ok s
  else
    .ok { s with serverNames := s.serverNames.push { serverName := serverName, type := type } }

def fIndexFile (indexFile : Bytes) (s : ParseState) : ParseState :=
  { s with indexFiles := s.indexFiles.push indexFile }

def fErrorLog (path : Bytes) (s : ParseState) : Except Halt ParseState :=
  match s.currentErrorLog with
  | some _ => .error (.exit "More than one error log defined for a server, not allowed\n")
  | none =>
      .ok { setErrorLog { path := path, freed := false } s with
        currentErrorLog := some s.errorLogs.length }

def fAccessLog (path : Bytes) (s : ParseState) : Except Halt ParseState :=
  match s.currentAccessLog with
  | some _ => .error (.exit "More than one access log defined for a server, not allowed\n")
  | none =>
      .ok { setAccessLog { path := path, freed := false } s with
        currentAccessLog := some s.accessLogs.length }

def fSslCertificate (path : Bytes) (s : ParseState) : ParseState :=
  match s.certFile with
  | some _ => s
  | none => { s with certFile := some path }

def fSslCertificateKey (path : Bytes) (s : ParseState) : ParseState :=
  match s.keyFile with
  | some _ => s
  | none => { s with keyFile := some path }

/-- `dupPort`: is the port already in the list, the default left aside? -/
def dupPort (portNum : Int32) (s : ParseState) : Bool :=
  s.ports.items.any fun p => p.portNum == portNum

/-- The port half of `f_listen`. -/
def listenPort (portNum : Int32) (s : ParseState) : ParseState :=
  if 0 < portNum.toInt && !dupPort portNum s then
    { s with ports := s.ports.push { portNum := portNum, tls := false } }
  else s

/-- The two halves of `f_listen`; `none` is a null name. -/
def fListen (name : Option CString) (portNum : Int32) (s : ParseState) :
    Except Halt ParseState :=
  match name with
  | none => .ok (listenPort portNum s)
  | some name => fServerName name .serverNameExact (listenPort portNum s)

def fTls (s : ParseState) : ParseState :=
  { s with ports := s.ports.modifyHead fun p => { p with tls := true } }

/-- The first root in a list of locations. -/
def defRoot (locations : List Location) : Option CString :=
  locations.findSome? (·.root)

/-- Give every location without a root the first root of the list. -/
def propagateRoot (locations : List Location) : List Location :=
  locations.map fun loc =>
    match loc.root with
    | some _ => loc
    | none => { loc with root := defRoot locations }

/-- The server that `f_server` builds from the pending lists. -/
def serverOf (s : ParseState) : Server :=
  { serverNames := s.serverNames.inOrder
    indexFiles := s.indexFiles.inOrder
    ports := s.ports.inOrder
    locations := propagateRoot s.locations.fromFront
    tls := false
    autoIndex := s.autoIndex
    certFile := s.certFile
    keyFile := s.keyFile
    accessLog := s.currentAccessLog.or (getDefaultAccessLog s)
    errorLog := s.currentErrorLog.or (getDefaultErrorLog s) }

/-- Close a server block. -/
def fServer (s : ParseState) : ParseState :=
  { setServerList (serverOf s) s with
    serverNames := s.serverNames.clear
    indexFiles := s.indexFiles.clear
    ports := s.ports.clear
    locations := s.locations.clear
    currentAccessLog := none
    currentErrorLog := none
    autoIndex := false
    certFile := none
    keyFile := none }

/-- The default server that `f_http` builds: it takes the lists themselves. -/
def defaultServerOf (s : ParseState) : Server :=
  { serverNames := s.serverNames.toList
    indexFiles := s.indexFiles.toList
    ports := s.ports.toList
    locations := s.locations.toList
    tls := false
    autoIndex := false
    certFile := s.certFile
    keyFile := s.keyFile
    accessLog := getDefaultAccessLog s
    errorLog := getDefaultErrorLog s }

def fHttp (s : ParseState) : ParseState :=
  setServerList (defaultServerOf s) s

/-- Calls that the grammar's actions make. -/
inductive Action
  | pid (pidFile : Bytes)
  | workerProcesses (workerProcesses : Int32)
  | defaultType (type : Bytes)
  | autoindex (flag : Bool)
  | serverTokens (flag : Bool)
  | serverName (serverName : CString) (type : ServerNameType)
  | indexFile (indexFile : Bytes)
  | errorLog (path : Bytes)
  | accessLog (path : Bytes)
  | sslCertificate (path : Bytes)
  | sslCertificateKey (path : Bytes)
  | listen (name : Option CString) (portNum : Int32)
  | tls
  | root (root : CString)
  | expires (expires : CString)
  | tryTarget (target : Bytes)
  | tryFiles
  | protocol (p : Bytes)
  | proxyPass (host : Bytes) (port : Int32)
  | fastcgiPass (host : Bytes) (port : Int32)
  | location (matchType : MatchType) (match_ : Bytes)
  | upstream (host : Bytes) (port weight : Int32)
  | upstreams (name : Bytes)
  | server
  | http

/-- Perform a parser action. -/
def perform (gethostbyname : Resolver) (s : ParseState) : Action → Except Halt ParseState
  | .pid pidFile => .ok (fPid pidFile s)
  | .workerProcesses n => .ok (fWorkerProcesses n s)
  | .defaultType type => .ok (fDefaultType type s)
  | .autoindex flag => .ok (fAutoindex flag s)
  | .serverTokens flag => .ok (fServerTokens flag s)
  | .serverName name type => fServerName name type s
  | .indexFile indexFile => .ok (fIndexFile indexFile s)
  | .errorLog path => fErrorLog path s
  | .accessLog path => fAccessLog path s
  | .sslCertificate path => .ok (fSslCertificate path s)
  | .sslCertificateKey path => .ok (fSslCertificateKey path s)
  | .listen name portNum => fListen name portNum s
  | .tls => .ok (fTls s)
  | .root root => fRoot root s
  | .expires expires => fExpires expires s
  | .tryTarget target => .ok (fTryTarget target s)
  | .tryFiles => .ok (fTryFiles s)
  | .protocol p => .ok (fProtocol p s)
  | .proxyPass host port => fProxyPass gethostbyname host port s
  | .fastcgiPass host port => fFastcgiPass gethostbyname host port s
  | .location matchType match_ => fLocation matchType match_ s
  | .upstream host port weight => .ok (fUpstream host port weight s)
  | .upstreams name => fUpstreams name s
  | .server => .ok (fServer s)
  | .http => .ok (fHttp s)

end OgWebserver.Config

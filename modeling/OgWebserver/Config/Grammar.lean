import OgWebserver.Config.Server

/-!
# Configuration files

Syntax trees of the grammar `og_ws.y`, and the parser actions each tree makes,
in the order the parser reduces its rules.  A nonempty repetition of the
grammar is a first element and a list.

Directives whose actions only print, or set what nothing here reads, are the
`inert` ones.
-/

namespace OgWebserver.Config

open Text

/-- The `protocol` token in front of a `proxy_pass` target. -/
inductive Scheme
  | http1
  | https
  | http2
  deriving DecidableEq

/-- The argument of `f_protocol`. -/
def Scheme.text : Scheme → Bytes
  | http1 => bytes "http"
  | https => bytes "https"
  | http2 => bytes "http2"

inductive LocationDirective
  | root (path : Bytes)
  | proxyPass (scheme : Scheme) (host : Bytes) (port : Option Int32)
  | fastcgiPass (host : Bytes) (port : Option Int32)
  | expires (units : Bytes)
  | expiresOff
  | tryFiles (first : Bytes) (rest : List Bytes)
  | defaultType (type : Bytes)
  | inert
  deriving DecidableEq

namespace LocationDirective

def actions : LocationDirective → List Action
  | root path => [.root (.token path)]
  | proxyPass scheme host port => [.protocol scheme.text, .proxyPass host (port.getD 0)]
  | fastcgiPass host port => [.fastcgiPass host (port.getD 0)]
  | expires units => [.expires (.token units)]
  | expiresOff => [.expires (.literal "off")]
  | tryFiles first rest => (first :: rest).map .tryTarget ++ [.tryFiles]
  | defaultType type => [.defaultType type]
  | inert => []

end LocationDirective

/-- A location section; the grammar's three headers differ in the match type. -/
structure Section where
  matchType : MatchType
  match_ : Bytes
  first : LocationDirective
  rest : List LocationDirective
  deriving DecidableEq

namespace Section

def directives (sec : Section) : List LocationDirective :=
  sec.first :: sec.rest

def actions (sec : Section) : List Action :=
  sec.directives.flatMap LocationDirective.actions ++ [.location sec.matchType sec.match_]

end Section

inductive ListenOption
  | number (port : Int32)
  | name (host : Bytes)
  | wildcard
  | namePort (host : Bytes) (port : Int32)
  | wildcardPort (port : Int32)
  | ssl
  | inert
  deriving DecidableEq

def ListenOption.actions : ListenOption → List Action
  | number port => [.listen none port]
  | name host => [.listen (some (.token host)) 0]
  | wildcard => [.listen (some (.literal "*")) 0]
  | namePort host port => [.listen (some (.token host)) port]
  | wildcardPort port => [.listen (some (.literal "*")) port]
  | ssl => [.tls]
  | inert => []

inductive ServerDirective
  | serverName (first : Bytes × ServerNameType) (rest : List (Bytes × ServerNameType))
  | serverTokens (flag : Bool)
  | accessLog (path : Bytes)
  | errorLog (path : Bytes)
  | root (path : Bytes)
  | autoindex (flag : Bool)
  | location (sec : Section)
  | listen (first : ListenOption) (rest : List ListenOption)
  | sslCertificate (path : Bytes)
  | sslCertificateKey (path : Bytes)
  | index (first : Bytes) (rest : List Bytes)
  | defaultType (type : Bytes)
  | inert
  deriving DecidableEq

namespace ServerDirective

def actions : ServerDirective → List Action
  | serverName first rest => (first :: rest).map fun n => .serverName (.token n.1) n.2
  | serverTokens flag => [.serverTokens flag]
  | accessLog path => [.accessLog path]
  | errorLog path => [.errorLog path]
  | root path => [.root (.token path)]
  | autoindex flag => [.autoindex flag]
  | location sec => sec.actions
  | listen first rest => (first :: rest).flatMap ListenOption.actions
  | sslCertificate path => [.sslCertificate path]
  | sslCertificateKey path => [.sslCertificateKey path]
  | index first rest => (first :: rest).map .indexFile
  | defaultType type => [.defaultType type]
  | inert => []

/-- The location section a directive is, if it is one. -/
def section? : ServerDirective → Option Section
  | location sec => some sec
  | _ => none

end ServerDirective

/-- What follows the address in an entry of an upstream block. -/
inductive Share
  | single
  | weight (n : Int32)
  | backup
  deriving DecidableEq

/-- The weight passed to `f_upstream`. -/
def Share.value : Share → Int32
  | single => 1
  | weight n => n
  | backup => -1

/-- One `server` entry of an upstream block. -/
structure UpstreamServer where
  host : Bytes
  port : Option Int32
  share : Share
  deriving DecidableEq

def UpstreamServer.action (up : UpstreamServer) : Action :=
  .upstream up.host (up.port.getD 8080) up.share.value

/-- An upstream block. -/
structure UpstreamBlock where
  name : Bytes
  first : UpstreamServer
  rest : List UpstreamServer
  deriving DecidableEq

namespace UpstreamBlock

def entries (block : UpstreamBlock) : List UpstreamServer :=
  block.first :: block.rest

def actions (block : UpstreamBlock) : List Action :=
  block.entries.map UpstreamServer.action ++ [.upstreams block.name]

end UpstreamBlock

/-- Actions of a server block with the given body. -/
def serverActions (body : List ServerDirective) : List Action :=
  body.flatMap ServerDirective.actions ++ [.server]

inductive HttpDirective
  | index (first : Bytes) (rest : List Bytes)
  | defaultType (type : Bytes)
  | accessLog (path : Bytes)
  | errorLog (path : Bytes)
  | server (body : List ServerDirective)
  | upstream (block : UpstreamBlock)
  | sslCertificate (path : Bytes)
  | sslCertificateKey (path : Bytes)
  | inert
  deriving DecidableEq

namespace HttpDirective

def actions : HttpDirective → List Action
  | index first rest => (first :: rest).map .indexFile
  | defaultType type => [.defaultType type]
  | accessLog path => [.accessLog path]
  | errorLog path => [.errorLog path]
  | server body => serverActions body
  | upstream block => block.actions
  | sslCertificate path => [.sslCertificate path]
  | sslCertificateKey path => [.sslCertificateKey path]
  | inert => []

/-- The upstream block a directive is, if it is one. -/
def upstream? : HttpDirective → Option UpstreamBlock
  | upstream block => some block
  | _ => none

end HttpDirective

inductive MainDirective
  | accessLog (path : Bytes)
  | errorLog (path : Bytes)
  | pid (path : Bytes)
  | workerProcesses (n : Int32)
  | inert
  deriving DecidableEq

def MainDirective.actions : MainDirective → List Action
  | accessLog path => [.accessLog path]
  | errorLog path => [.errorLog path]
  | pid path => [.pid path]
  | workerProcesses n => [.workerProcesses n]
  | inert => []

/-- A configuration file: main directives, the events section (inert), and the
directives of the http section. -/
structure ConfigFile where
  main : List MainDirective
  first : HttpDirective
  rest : List HttpDirective
  deriving DecidableEq

namespace ConfigFile

def directives (file : ConfigFile) : List HttpDirective :=
  file.first :: file.rest

def actions (file : ConfigFile) : List Action :=
  file.main.flatMap MainDirective.actions ++
    (file.directives.flatMap HttpDirective.actions ++ [.http])

/-- Parse the file from the state `parseConfig` sets up. -/
def parse (gethostbyname : Resolver) (file : ConfigFile) : Except Halt ParseState :=
  Transition.run (perform gethostbyname) .initial file.actions

end ConfigFile

end OgWebserver.Config

import OgWebserver.Config.State
import OgWebserver.Transition.Run

/-!
# Parser actions

The `f_` functions of `parseConfig.c` that change the state, one definition for
each, and the functions they call.  `gethostbyname` is a parameter: the address
a name resolves to, if any.
-/

namespace OgWebserver.Config

open Text

/-- `gethostbyname`: the first address of a host. -/
abbrev Resolver := Bytes → Option UInt32

/-! ## Global lists -/

/-- `setServerList`. -/
def setServerList (server : Server) (s : ParseState) : ParseState :=
  { s with serverList := s.serverList ++ [server] }

/-- `setUpstreamList` walks to the end of the chain first. -/
def setUpstreamList (upstream : Upstreams) (s : ParseState) : Except Halt ParseState :=
  if s.upstreams.any (·.freed) then .error .undefined
  else .ok { s with upstreams := s.upstreams ++ [upstream] }

/-- `setAccessLog`; the new log is at the old length of the list. -/
def setAccessLog (log : LogFile) (s : ParseState) : ParseState :=
  { s with accessLogs := s.accessLogs ++ [log] }

/-- `setErrorLog`; the new log is at the old length of the list. -/
def setErrorLog (log : LogFile) (s : ParseState) : ParseState :=
  { s with errorLogs := s.errorLogs ++ [log] }

/-- `getDefaultAccessLog`. -/
def getDefaultAccessLog (s : ParseState) : Option Nat :=
  if s.accessLogs.isEmpty then none else some 0

/-- `getDefaultErrorLog`. -/
def getDefaultErrorLog (s : ParseState) : Option Nat :=
  if s.errorLogs.isEmpty then none else some 0

/-! ## Locations under construction -/

/-- `free` of a string. -/
def freeString (s : CString) : Except Halt Unit :=
  if s.heap then .ok () else .error .undefined

/-- `free` of an upstream group; a null pointer is left alone. -/
def freeGroup (upstreams : List Upstreams) : Option Nat → Except Halt (List Upstreams)
  | none => .ok upstreams
  | some group =>
      match upstreams[group]? with
      | some g =>
          if g.freed then .error .undefined
          else .ok (upstreams.set group { g with freed := true })
      | none => .error .undefined

/-- `isUpstreamGroup`: position of the first group with the given name. -/
def isUpstreamGroup (host : Bytes) : List Upstreams → Except Halt (Option Nat)
  | [] => .ok none
  | g :: rest =>
      if g.freed then .error .undefined
      else if g.name = host then .ok (some 0)
      else (isUpstreamGroup host rest).map (·.map (· + 1))

/-- The socket address of a host and port, `none` when the name does not resolve. -/
def hostAddress (gethostbyname : Resolver) (host : Bytes) (port : Int32) : Option SockAddr :=
  (gethostbyname host).map fun addr =>
    { sinFamily := afInet, sinPort := htons port, sinAddr := addr }

/-- The loop of `proxyPassToUpstreamGroup` over the servers of a group. -/
def setPassTo (gethostbyname : Resolver) :
    List Upstream → (Nat → Option SockAddr) → Except Halt (Nat → Option SockAddr)
  | [], passTo => .ok passTo
  | up :: rest, passTo =>
      match hostAddress gethostbyname up.host up.port with
      | none => .error (.exit "gethostbyname failed\n")
      | some address =>
          setPassTo gethostbyname rest (Function.update passTo up.node (some address))

/-- First half of `proxyPassToUpstreamGroup`: the location. -/
def locationToGroup (type group : Nat) (s : ParseState) : Except Halt ParseState :=
  match s.locations.items with
  | loc :: rest => do
      let upstreams ← freeGroup s.upstreams loc.group
      .ok { s with
        upstreams := upstreams
        locations.items :=
          { loc with type := loc.type ||| type, group := some group } :: rest }
  | [] =>
      let loc := s.locations.dflt
      .ok { s with
        locations.items :=
          [{ loc with group := some group, type := loc.type ||| typeUpstreamGroup }] }

/-- Second half of `proxyPassToUpstreamGroup`: the servers of the group. -/
def resolveGroup (gethostbyname : Resolver) (group : Nat) (s : ParseState) :
    Except Halt ParseState :=
  match s.upstreams[group]? with
  | some g =>
      if g.freed then .error .undefined
      else do
        let passTo ← setPassTo gethostbyname g.servers s.passTo
        .ok { s with passTo := passTo }
  | none => .error .undefined

def proxyPassToUpstreamGroup (gethostbyname : Resolver) (type group : Nat) (s : ParseState) :
    Except Halt ParseState := do
  resolveGroup gethostbyname group (← locationToGroup type group s)

def proxyPassToHost (gethostbyname : Resolver) (type : Nat) (host : Bytes) (port : Int32)
    (s : ParseState) : Except Halt ParseState :=
  match hostAddress gethostbyname host port with
  | none => .error (.exit "gethostbyname failed\n")
  | some address =>
      match s.locations.items with
      | loc :: rest =>
          .ok { s with
            locations.items :=
              { loc with type := loc.type ||| type, passTo := some address } :: rest }
      | [] =>
          let loc := s.locations.dflt
          .ok { s with
            locations.items :=
              [{ loc with passTo := some address, type := loc.type ||| typeProxyPass }] }

/-- The common body of `f_proxy_pass` and `f_fastcgi_pass`. -/
def pass (gethostbyname : Resolver) (type : Nat) (host : Bytes) (port : Int32)
    (s : ParseState) : Except Halt ParseState := do
  match ← isUpstreamGroup host s.upstreams with
  | some group => proxyPassToUpstreamGroup gethostbyname type group s
  | none => proxyPassToHost gethostbyname type host port s

def fProxyPass (gethostbyname : Resolver) (host : Bytes) (port : Int32) (s : ParseState) :
    Except Halt ParseState :=
  pass gethostbyname typeProxyPass host port s

def fFastcgiPass (gethostbyname : Resolver) (host : Bytes) (port : Int32) (s : ParseState) :
    Except Halt ParseState :=
  pass gethostbyname typeFastcgiPass host port s

def fProtocol (p : Bytes) (s : ParseState) : ParseState :=
  if p = bytes "https" then { s with protocol := .protocolHttps }
  else if p = bytes "http2" then { s with protocol := .protocolHttp2 }
  else if p = bytes "http" then { s with protocol := .protocolHttp }
  else s

def fRoot (root : CString) (s : ParseState) : Except Halt ParseState :=
  match s.locations.items with
  | loc :: rest => do
      match loc.root with
      | some old => freeString old
      | none => .ok ()
      .ok { s with
        locations.items :=
          { loc with type := loc.type ||| typeDocRoot, root := some root } :: rest }
  | [] =>
      let loc := s.locations.dflt
      .ok { s with
        locations.items :=
          [{ loc with root := some root, type := loc.type ||| typeDocRoot }] }

/-- The number `f_expires` reads from its argument. -/
def expiresValue (expires : Bytes) : Int32 :=
  if expires.take 3 = bytes "off" then 0
  else
    match expires.getLast? with
    | none => 0
    | some c =>
        if isDigit c then atoi expires
        else if c = 109 then atoi expires.dropLast * 60
        else if c = 104 then atoi expires.dropLast * (60 * 60)
        else atoi expires.dropLast

def fExpires (expires : CString) (s : ParseState) : Except Halt ParseState := do
  let value := expiresValue expires.text
  freeString expires
  .ok { s with locations := s.locations.modifyHead fun loc => { loc with expires := value } }

def fTryTarget (target : Bytes) (s : ParseState) : ParseState :=
  { s with tryTargets := s.tryTargets ++ [target] }

def fTryFiles (s : ParseState) : ParseState :=
  let targets := s.tryTargets
  match s.locations.items with
  | loc :: rest =>
      { s with
        tryTargets := []
        locations.items :=
          { loc with
            type := loc.type ||| typeTryFiles
            matchType := .unsetMatch
            tryTarget := targets } :: rest }
  | [] =>
      let loc := s.locations.dflt
      { s with
        tryTargets := []
        locations.items :=
          [{ loc with
            type := loc.type ||| typeTryFiles
            matchType := .unsetMatch
            tryTarget := targets }] }

/-- Close a location section: name the location the static pointer points to. -/
def fLocation (matchType : MatchType) (match_ : Bytes) (s : ParseState) :
    Except Halt ParseState :=
  let loc := s.locations.head
  match loc.root.or (s.locations.next.bind (·.root)) with
  | none => .error (.exit "Missing default location\n")
  | some root =>
      .ok { s with
        protocol := .protocolUnset
        locations := s.locations.modifyHead fun loc =>
          { loc with
            matchType := matchType
            match_ := match_
            protocol := s.protocol
            root := some root } }

/-! ## Upstream groups -/

/-- The loop of `f_upstream`, run `weight` times. -/
def addUpstreams (host : Bytes) (port weight : Int32) : Nat → List Upstream → List Upstream
  | 0, servers => servers
  | w + 1, servers =>
      addUpstreams host port weight w
        ({ node := servers.length, host := host, port := port, weight := weight } :: servers)

def fUpstream (host : Bytes) (port weight : Int32) (s : ParseState) : ParseState :=
  { s with servers := addUpstreams host port weight weight.toInt.toNat s.servers }

/-- A group with the given chain of servers, the next request going to the first. -/
def Upstreams.new (name : Bytes) (servers : List Upstream) : Upstreams :=
  { name := name, currentServer := servers, servers := servers, freed := false }

def fUpstreams (name : Bytes) (s : ParseState) : Except Halt ParseState :=
  setUpstreamList (.new name s.servers) s

end OgWebserver.Config

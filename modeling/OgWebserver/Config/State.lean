import OgWebserver.Config.Data

/-!
# State of the configuration parser

The static lists of `parseConfig.c` and the global lists of `serverState.c`
that the parser actions build.  A list of `parseConfig.c` ends in a node that
holds the default; what the current block has added stands in front of it.
-/

namespace OgWebserver.Config

open Text

/-- Why an action did not return. -/
inductive Halt
  /-- The program printed the message and called `exit(1)`. -/
  | exit (message : String)
  /-- Undefined behaviour: a string literal or a dead object given to `free`,
  a second `free`, or an access to a dead object. -/
  | undefined
  deriving DecidableEq

/-- A list that ends in the default node.  The newest item is the first. -/
structure Pending (α : Type) where
  items : List α
  dflt : α
  deriving DecidableEq

namespace Pending

variable {α : Type}

/-- The node the static pointer points to. -/
def head (p : Pending α) : α :=
  p.items.head?.getD p.dflt

/-- The node behind it, unless the pointer already points to the default. -/
def next (p : Pending α) : Option α :=
  match p.items with
  | [] => none
  | _ :: rest => some (rest.head?.getD p.dflt)

/-- The whole chain. -/
def toList (p : Pending α) : List α :=
  p.items ++ [p.dflt]

/-- Chain a node in front of the list. -/
def push (item : α) (p : Pending α) : Pending α :=
  { p with items := item :: p.items }

/-- Write to the node the static pointer points to. -/
def modifyHead (f : α → α) (p : Pending α) : Pending α :=
  match p.items with
  | [] => { p with dflt := f p.dflt }
  | item :: rest => { p with items := f item :: rest }

/-- The list with its items moved away. -/
def clear (p : Pending α) : Pending α :=
  { p with items := [] }

/-- What `f_server` gives a server whose list it reverses while moving it: the
items in the order they were written, or a copy of the default. -/
def inOrder (p : Pending α) : List α :=
  if p.items.isEmpty then [p.dflt] else p.items.reverse

/-- What `f_server` gives a server whose list it moves from front to back. -/
def fromFront (p : Pending α) : List α :=
  if p.items.isEmpty then [p.dflt] else p.items

theorem inOrder_ne_nil (p : Pending α) : p.inOrder ≠ [] := by
  rcases p with ⟨_ | ⟨item, rest⟩, dflt⟩ <;> simp [inOrder]

theorem fromFront_eq (p : Pending α) (short : p.items.length ≤ 1) : p.fromFront = [p.head] := by
  rcases p with ⟨_ | ⟨item, _ | ⟨second, rest⟩⟩, dflt⟩
  · rfl
  · rfl
  · simp at short

end Pending

/-- Everything the parser actions read or write. -/
structure ParseState where
  indexFiles : Pending Bytes
  serverNames : Pending ServerName
  ports : Pending Port
  locations : Pending Location
  tryTargets : List Bytes
  /-- Nodes of upstream chains, newest first. -/
  servers : List Upstream
  currentAccessLog : Option Nat
  currentErrorLog : Option Nat
  certFile : Option Bytes
  keyFile : Option Bytes
  autoIndex : Bool
  protocol : Protocol
  serverList : List Server
  upstreams : List Upstreams
  /-- The `passTo` field of each upstream node. -/
  passTo : Nat → Option SockAddr
  accessLogs : List LogFile
  errorLogs : List LogFile
  defaultType : Bytes
  serverTokens : Bool
  workerProcesses : Int32
  pidFile : Bytes

/-! ## Defaults -/

def defaultPort : Port :=
  { portNum := 8080, tls := false }

def defaultServerName : ServerName :=
  { serverName := .literal "*", type := .serverNameExact }

def defaultLocation : Location :=
  { type := typeDocRoot
    matchType := .prefixMatch
    match_ := bytes "/"
    root := some (.literal "/var/www/ogws/html")
    protocol := .protocolHttp
    tryTarget := []
    passTo := none
    group := none
    expires := 0 }

def defaultIndexFile : Bytes := bytes "index.html"

def defaultAccessLog : LogFile :=
  { path := bytes "/var/log/ogws/access.log", freed := false }

def defaultErrorLog : LogFile :=
  { path := bytes "/var/log/ogws/error.log", freed := false }

def defaultType : Bytes := bytes "text/plain"

/-- The path `parseArgs` sets. -/
def defaultPidFile : Bytes := bytes "/etc/ogws/ogws.pid"

/-- The version that the server names, unless `server_tokens` is off. -/
def getVersion (serverTokens : Bool) : Bytes :=
  if serverTokens then bytes "0.5.0" else []

/-- The state in which `parseConfig` calls the parser. -/
def ParseState.initial : ParseState :=
  { indexFiles := { items := [], dflt := defaultIndexFile }
    serverNames := { items := [], dflt := defaultServerName }
    ports := { items := [], dflt := defaultPort }
    locations := { items := [], dflt := defaultLocation }
    tryTargets := []
    servers := []
    currentAccessLog := none
    currentErrorLog := none
    certFile := none
    keyFile := none
    autoIndex := false
    protocol := .protocolUnset
    serverList := []
    upstreams := []
    passTo := fun _ => none
    accessLogs := [defaultAccessLog]
    errorLogs := [defaultErrorLog]
    defaultType := Config.defaultType
    serverTokens := true
    workerProcesses := 1
    pidFile := defaultPidFile }

end OgWebserver.Config

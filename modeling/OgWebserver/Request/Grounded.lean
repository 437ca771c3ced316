import OgWebserver.Request.Dispatch
import OgWebserver.Transition.Run

/-!
# Requests on the upstream groups

Every request that goes to an upstream moves the round-robin pointer of a
group.  The file states what the handlers of a location dereference, and shows
that locations which find it at the start find it after any requests.
-/

namespace OgWebserver.Request

open Config Transition

/-- Can a request for the location reach `getUpstreamServer`?  `handleTryFiles`
goes there for a location with the bit of a `proxy_pass`. -/
def reachesUpstream (loc : Location) : Bool :=
  match handlerFor loc with
  | .tryFiles => hasBit loc.type typeProxyPass
  | .proxyPass | .fastcgiPass => true
  | .byVerb => false

/-- The effect of a request on the groups. -/
def serve (passTo : Nat → Option SockAddr) (upstreams : List Upstreams) (loc : Location) :
    Except Fault (List Upstreams) :=
  (chooseUpstream upstreams passTo loc).map fun chosen =>
    match chosen with
    | some (_, next) => next
    | none => upstreams

/-- A group a request can be sent to: it is alive, its pointer points into its
chain, and every node of the chain has an address. -/
structure Ready (passTo : Nat → Option SockAddr) (up : Upstreams) : Prop where
  alive : up.freed = false
  current : up.currentServer ≠ []
  inside : up.currentServer <:+ up.servers
  addressed : ∀ node ∈ up.servers, (passTo node.node).isSome

/-- The address source of a location can be dereferenced. -/
def SourceReady (upstreams : List Upstreams) (passTo : Nat → Option SockAddr) :
    AddressSource → Prop
  | .group group => ∃ j up, group = some j ∧ upstreams[j]? = some up ∧ Ready passTo up
  | .passTo address => address.isSome

/-- The handlers of a location find what they dereference.  That of `try_files` looks for the
target that `checkTryFilesFormat` gives it. -/
structure Grounded (upstreams : List Upstreams) (passTo : Nat → Option SockAddr)
    (loc : Location) : Prop where
  tryTarget : handlerFor loc = .tryFiles → (checkTryFilesFormat loc).isSome
  source : reachesUpstream loc → SourceReady upstreams passTo (addressSource loc)

variable {upstreams : List Upstreams} {passTo : Nat → Option SockAddr}

theorem Ready.advance {up : Upstreams} (ready : Ready passTo up) : Ready passTo (advance up) := by
  rcases ready with ⟨alive, current, inside, addressed⟩
  rcases list : up.currentServer with _ | ⟨first, _ | ⟨second, rest⟩⟩
  · exact absurd list current
  · simp only [Request.advance, list]
    refine ⟨alive, ?_, List.suffix_refl _, addressed⟩
    intro (none : up.servers = [])
    rw [list, none] at inside
    exact absurd (List.suffix_nil.mp inside) (by simp)
  · simp only [Request.advance, list]
    rw [list] at inside
    exact ⟨alive, by simp, (List.suffix_cons first _).trans inside, addressed⟩

/-- A request keeps all groups ready that were. -/
theorem sourceReady_set {j : Nat} {up : Upstreams} (here : upstreams[j]? = some up)
    {source : AddressSource} (ready : SourceReady upstreams passTo source) :
    SourceReady (upstreams.set j (advance up)) passTo source := by
  cases source with
  | passTo address => exact ready
  | group group =>
      rcases ready with ⟨i, other, rfl, there, fine⟩
      have bound := (List.getElem?_eq_some_iff.mp here).1
      by_cases same : j = i
      · subst same
        obtain rfl : up = other := Option.some.inj (here.symm.trans there)
        exact ⟨j, Request.advance up, rfl, List.getElem?_set_self bound, fine.advance⟩
      · exact ⟨i, other, rfl, by rwa [List.getElem?_set_ne same], fine⟩

/-- A request for a grounded location succeeds, and keeps grounded locations grounded. -/
theorem serve_grounded {loc : Location} (grounded : Grounded upstreams passTo loc)
    (reaches : reachesUpstream loc) :
    ∃ next, serve passTo upstreams loc = .ok next ∧
      ∀ other, Grounded upstreams passTo other → Grounded next passTo other := by
  have ready := grounded.source reaches
  cases source : addressSource loc with
  | passTo address =>
      rw [source] at ready
      rcases Option.isSome_iff_exists.mp ready with ⟨target, rfl⟩
      exact ⟨upstreams, by simp [serve, chooseUpstream, source, Except.map], fun _ same => same⟩
  | group group =>
      rw [source] at ready
      rcases ready with ⟨j, up, rfl, here, fine⟩
      rcases List.exists_cons_of_ne_nil fine.current with ⟨node, rest, current⟩
      have member : node ∈ up.servers := by
        apply fine.inside.subset
        simp [current]
      rcases Option.isSome_iff_exists.mp (fine.addressed node member) with ⟨target, address⟩
      refine ⟨upstreams.set j (advance up), ?_, fun other same => ?_⟩
      · simp [serve, chooseUpstream, source, here, fine.alive, current, address, Except.map]
      · exact ⟨same.tryTarget, fun reaches => sourceReady_set here (same.source reaches)⟩

/-- Grounded locations stay grounded through any requests to them, and no request
fails. -/
theorem run_serve_grounded {configured : Location → Prop}
    (grounded : ∀ loc, configured loc → Grounded upstreams passTo loc)
    {requests : List Location}
    (sent : ∀ loc ∈ requests, configured loc ∧ reachesUpstream loc) :
    ∃ after, run (serve passTo) upstreams requests = .ok after ∧
      ∀ loc, configured loc → Grounded after passTo loc := by
  induction requests generalizing upstreams with
  | nil => exact ⟨upstreams, rfl, grounded⟩
  | cons loc rest ih =>
      rcases sent loc List.mem_cons_self with ⟨isConfigured, reaches⟩
      rcases serve_grounded (grounded loc isConfigured) reaches with ⟨next, served, keeps⟩
      obtain ⟨after, ran, fine⟩ := ih (fun other is => keeps other (grounded other is))
        (fun other member => sent other (List.mem_cons_of_mem loc member))
      exact ⟨after, run_cons_eq_ok_iff.mpr ⟨next, served, ran⟩, fine⟩

end OgWebserver.Request

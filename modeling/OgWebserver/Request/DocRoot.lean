import OgWebserver.Config.Isolation
import OgWebserver.Request.Process

/-!
# Finding a document root

`getDocRoot` is meant to fall back on a default root, so that every path has one.  But a
server has a single location, and the header of its last section stands where the default
would: a path that this header does not match is answered with an error.
-/

namespace OgWebserver.Request

open Text Config Transition

/-- The header of the section matches the path. -/
def selects (regexMatch : Bytes → Bytes → Bool) (path : Bytes) (sec : Section) : Bool :=
  locationMatches regexMatch path (sec.header defaultLocation)

/-- The root of a server block itself, or else the fallback one. -/
def defaultRoot (body : List ServerDirective) : Option Bytes :=
  lastWrite
    (fun d : ServerDirective =>
      match d with
      | .root path => some (some path)
      | _ => none)
    (defaultLocation.root.map (·.text)) body

/-- The server finds a location with a root for the path: one of a section that matches, if
there is such a section, and otherwise one with the default root.  So a request for the path
is not answered with the error for a missing root. -/
structure FindsRoot (regexMatch : Bytes → Bytes → Bool) (body : List ServerDirective)
    (server : Server) (path : Bytes) : Prop where
  found : ∃ loc root, getDocRoot regexMatch server path = some loc ∧ loc.root = some root ∧
    ((∃ sec ∈ sections body, selects regexMatch path sec ∧ loc.matchType = sec.matchType ∧
        loc.match_ = sec.match_) ∨
      ((∀ sec ∈ sections body, ¬ selects regexMatch path sec) ∧
        some root.text = defaultRoot body))
  answered : ∀ headers text, (cutQuery text.path).1 = path →
    routeTo regexMatch server headers text ≠
      .ok (.error 500 (bytes "Bad configuration") (bytes "No doc root"))

/-- The header that the only location of the server has matches the path: that of the last
section, or, without sections, the one of the default location. -/
def LastMatches (regexMatch : Bytes → Bytes → Bool) (dflt : Location)
    (body : List ServerDirective) (path : Bytes) : Prop :=
  match (sections body).getLast? with
  | some sec => selects regexMatch path sec
  | none => locationMatches regexMatch path dflt

variable {regexMatch : Bytes → Bytes → Bool} {path : Bytes} {gethostbyname : Resolver}
variable {names : List Bytes} {body : List ServerDirective} {s t : ParseState}
variable {server : Server}

theorem locationMatches_congr {a b : Location} (matchType : a.matchType = b.matchType)
    (match_ : a.match_ = b.match_) :
    locationMatches regexMatch path a = locationMatches regexMatch path b := by
  simp only [locationMatches, matchType, match_]

/-! ## The header of the only location -/

/-- Without sections, the default location keeps its header, with the root of the block. -/
theorem head_of_noSections (noSections : sections body = []) (p : Pending Location) :
    (touchBody gethostbyname names body p).head.matchType = p.head.matchType ∧
      (touchBody gethostbyname names body p).head.match_ = p.head.match_ := by
  have quiet : ∀ d ∈ body.flatMap ServerDirective.locationDirectives, d.tryTarget? = none := by
    intro d member
    rcases root_of_noSections noSections d member with ⟨path, rfl⟩
    rfl
  rw [touchBody_of_noSections noSections]
  constructor
  · rw [@field_touchAll gethostbyname names _ (·.matchType) _ Edited.matchType]
    apply lastWrite_eq_init
    intro d member
    rw [quiet d member]
    rfl
  · rw [@field_touchAll gethostbyname names _ (·.match_) (fun _ => none) Edited.match_]
    exact lastWrite_eq_init (fun _ _ => rfl) _

theorem root_of_head (noSections : sections body = []) {p : Pending Location}
    (plain : p.head.root.map (·.text) = defaultLocation.root.map (·.text)) :
    (touchBody gethostbyname names body p).head.root.map (·.text) = defaultRoot body := by
  rw [@field_touchBody gethostbyname names _ (fun loc => loc.root.map (·.text)) _ Edited.root
    (fun _ _ => rfl), plain, defaultRoot]
  generalize defaultLocation.root.map (·.text) = init
  induction body generalizing init with
  | nil => rfl
  | cons d rest ih =>
      have here := List.filterMap_eq_nil_iff.mp noSections d List.mem_cons_self
      have later : sections rest = [] :=
        List.filterMap_eq_nil_iff.mpr fun e member =>
          List.filterMap_eq_nil_iff.mp noSections e (List.mem_cons_of_mem d member)
      rw [List.flatMap_cons, lastWrite_append, lastWrite_cons, ih later]
      cases d with
      | location sec => cases here
      | root | serverName | serverTokens | accessLog | errorLog | autoindex | listen
      | sslCertificate | sslCertificateKey | index | defaultType | inert => rfl

/-- The only location of the server of a block. -/
theorem single_location (between : Between s)
    (ran : run (perform gethostbyname) s (serverActions body) = .ok t)
    (list : t.serverList = s.serverList ++ [server]) :
    ∃ loc root, server.locations = [loc] ∧ loc.root = some root ∧
      (∀ sec, (sections body).getLast? = some sec →
        loc.matchType = sec.matchType ∧ loc.match_ = sec.match_) ∧
      (sections body = [] → loc.matchType = s.locations.dflt.matchType ∧
        loc.match_ = s.locations.dflt.match_ ∧ some root.text = defaultRoot body) := by
  rcases location_of_block between ran list with ⟨single, rooted⟩
  rcases Option.isSome_iff_exists.mp rooted with ⟨root, own⟩
  have head : s.locations.head = s.locations.dflt := by simp [Pending.head, between.noItems]
  refine ⟨_, root, single, own, fun sec last => head_of_section last s.locations,
    fun noSections => ?_⟩
  have kept := @head_of_noSections gethostbyname s.groupNames _ noSections s.locations
  have plain : s.locations.head.root.map (·.text) = defaultLocation.root.map (·.text) := by
    rw [head]
    rcases between.plain with ⟨_, _, _, _, plain⟩
    rw [plain]
  have root_eq := @root_of_head gethostbyname s.groupNames _ noSections s.locations plain
  rw [own] at root_eq
  rw [head] at kept
  exact ⟨kept.1, kept.2, root_eq⟩

/-! ## The lookup -/

theorem code_of_errorResponse {found : Option Server} {code code' : Nat}
    {msg msg' text text' : Bytes}
    (answered : errorResponse found code msg text = .ok (.error code' msg' text')) :
    code = code' := by
  unfold errorResponse at answered
  split at answered
  · cases answered
  · split at answered
    · cases answered
    · exact (Decision.error.inj (Except.ok.inj answered)).1

/-- A location with a root is no reason for an error. -/
theorem routeTo_ne_noRoot {loc : Location} {root : CString} {headers : Bytes}
    {text : RequestText} (found : getDocRoot regexMatch server (cutQuery text.path).1 = some loc)
    (rooted : loc.root = some root) :
    routeTo regexMatch server headers text ≠
      .ok (.error 500 (bytes "Bad configuration") (bytes "No doc root")) := by
  simp only [routeTo, found, Option.bind_some, rooted, Option.map_some]
  intro answered
  unfold chooseHandler at answered
  split at answered
  · have other := code_of_errorResponse answered
    omega
  · split at answered
    · cases answered
    · split at answered
      · cases answered
      · have other := code_of_errorResponse answered
        omega

/-- A path gets its root from the server of a block, whatever has been done to the server but
to its locations, if and only if the header of the only location matches the path. -/
theorem findsRoot_iff {main : List MainDirective} {before : List HttpDirective} {built : Server}
    (reached : Reached gethostbyname main before s)
    (ran : run (perform gethostbyname) s (serverActions body) = .ok t)
    (list : t.serverList = s.serverList ++ [built]) (kept : server.locations = built.locations)
    (regexMatch : Bytes → Bytes → Bool) (path : Bytes) :
    FindsRoot regexMatch body server path ↔
      LastMatches regexMatch s.locations.dflt body path := by
  rcases single_location (.of_reached reached) ran list with
    ⟨loc, root, single, rooted, section_, plain⟩
  rw [← kept] at single
  have found_iff : getDocRoot regexMatch server path = some loc ↔
      locationMatches regexMatch path loc = true := by
    rw [getDocRoot, single, List.find?_singleton]
    simp
  have found_loc : ∀ other, getDocRoot regexMatch server path = some other → other = loc := by
    intro other found
    have member := List.mem_of_find?_eq_some found
    rw [single] at member
    exact List.mem_singleton.mp member
  -- whichever header it has, finding a root is finding that location
  have finds_iff (source : getDocRoot regexMatch server path = some loc →
      (∃ sec ∈ sections body, selects regexMatch path sec ∧ loc.matchType = sec.matchType ∧
        loc.match_ = sec.match_) ∨
      ((∀ sec ∈ sections body, ¬ selects regexMatch path sec) ∧
        some root.text = defaultRoot body)) :
      FindsRoot regexMatch body server path ↔ locationMatches regexMatch path loc = true := by
    rw [← found_iff]
    constructor
    · intro finds
      rcases finds.found with ⟨other, _, found, _⟩
      rw [found, found_loc other found]
    · intro found
      constructor
      · exact ⟨loc, root, found, rooted, source found⟩
      · rintro headers text rfl
        exact routeTo_ne_noRoot found rooted
  unfold LastMatches
  cases last : (sections body).getLast? with
  | none =>
      have noSections := List.getLast?_eq_none_iff.mp last
      rcases plain noSections with ⟨matchType, match_, default_⟩
      rw [finds_iff, locationMatches_congr matchType match_]
      intro _
      refine .inr ⟨?_, default_⟩
      rw [noSections]
      simp
  | some sec =>
      rcases section_ sec last with ⟨matchType, match_⟩
      have same : locationMatches regexMatch path loc = selects regexMatch path sec :=
        locationMatches_congr matchType match_
      rw [finds_iff, same]
      intro found
      refine .inl ⟨sec, List.mem_of_getLast? last, ?_, matchType, match_⟩
      rw [← same]
      exact found_iff.mp found

/-- One server with one section. -/
def oneSection (match_ path : String) : ConfigFile :=
  { main := [], first := .server [.location (rootSection match_ path)], rest := [] }

theorem findsRoot_iff_section :
    ∃ t server, run (perform fun _ => none) .initial
        (serverActions [.location (rootSection "/a" "/x")]) = .ok t ∧
      t.serverList = [server] ∧
      FindsRoot (fun _ _ => false) [.location (rootSection "/a" "/x")] server (bytes "/a/b") := by
  have reached : Reached (fun _ => none) [] [] .initial := rfl
  have matches_ : LastMatches (fun _ _ => false) defaultLocation
      [.location (rootSection "/a" "/x")] (bytes "/a/b") := rfl
  exact ⟨_, _, rfl, rfl, (findsRoot_iff reached rfl rfl rfl _ _).mpr matches_⟩

/-- With a section for `/a` only, a request for `/b` is answered for want of a root. -/
theorem oneSection_noRoot :
    ∃ s t server, (oneSection "/a" "/x").parse (fun _ => none) = .ok s ∧
      checkServers .permissive s = .ok t ∧ t.serverList.head? = some server ∧
      (∀ headers text, (cutQuery text.path).1 = bytes "/b" →
        routeTo (fun _ _ => false) server headers text =
          .ok (.error 500 (bytes "Bad configuration") (bytes "No doc root"))) ∧
      ¬ FindsRoot (fun _ _ => false) [.location (rootSection "/a" "/x")] server (bytes "/b") := by
  refine ⟨_, _, _, rfl, rfl, rfl, ?_, ?_⟩
  · intro headers text path
    rw [routeTo, path]
    rfl
  · intro finds
    rcases finds.found with ⟨loc, root, found, _⟩
    cases found

end OgWebserver.Request

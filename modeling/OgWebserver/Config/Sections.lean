import Mathlib.Data.List.Forall2
import OgWebserver.Config.Block

/-!
# Sections and the locations of a server

A server block is meant to give one location for each of its sections.  The
pending location is shared by all sections of a block, and nothing marks one as
finished, so that a block always ends with a single location.  The file
determines what that location holds and when it is the intended one.
-/

namespace OgWebserver.Config

open Text Transition

/-! ## What a directive writes -/

namespace LocationDirective

def root? : LocationDirective → Option (Option Bytes)
  | root path => some (some path)
  | _ => none

def tryTarget? : LocationDirective → Option (List Bytes)
  | tryFiles first rest => some (first :: rest)
  | _ => none

def expires? : LocationDirective → Option Int32
  | expires units => some (expiresValue units)
  | _ => none

/-- The type bits a directive may set. -/
def bits : LocationDirective → Nat
  | root _ => typeDocRoot
  | proxyPass .. => typeProxyPass ||| typeUpstreamGroup
  | fastcgiPass .. => typeProxyPass ||| typeUpstreamGroup ||| typeFastcgiPass
  | tryFiles .. => typeTryFiles
  | expires _ | expiresOff | defaultType _ | inert => 0

/-- The type bits it does set. -/
def added (names : List Bytes) (fresh : Bool) : LocationDirective → Nat
  | root _ => typeDocRoot
  | proxyPass _ host _ =>
      match groupNamed names host with
      | some _ => if fresh then typeUpstreamGroup else typeProxyPass
      | none => typeProxyPass
  | fastcgiPass host _ =>
      match groupNamed names host with
      | some _ => if fresh then typeUpstreamGroup else typeFastcgiPass
      | none => if fresh then typeProxyPass else typeFastcgiPass
  | tryFiles .. => typeTryFiles
  | expires _ | expiresOff | defaultType _ | inert => 0

end LocationDirective

/-- The sections of a server block. -/
def sections (body : List ServerDirective) : List Section :=
  body.filterMap ServerDirective.section?

/-- The root in force after several directives, starting from the default location. -/
def rootAfter (dflt : Location) (ds : List LocationDirective) : Option Bytes :=
  lastWrite LocationDirective.root? (dflt.root.map (·.text)) ds

/-- Location `entry` is what section `sec` describes: its header, the values of
its own directives, and otherwise the default location. -/
structure Carries (gethostbyname : Resolver) (names : List Bytes) (dflt : Location)
    (sec : Section) (entry : Location) : Prop where
  matchType : entry.matchType = sec.matchType
  match_ : entry.match_ = sec.match_
  protocol : entry.protocol =
    lastWrite LocationDirective.protocol? .protocolUnset sec.directives
  root : entry.root.map (·.text) = rootAfter dflt sec.directives
  passTo : entry.passTo =
    lastWrite (LocationDirective.passTo? gethostbyname names) dflt.passTo sec.directives
  group : entry.group = groupAfter names dflt.group sec.directives
  tryTarget : entry.tryTarget =
    lastWrite LocationDirective.tryTarget? dflt.tryTarget sec.directives
  expires : entry.expires = lastWrite LocationDirective.expires? dflt.expires sec.directives
  /-- No type bit of the default is lost. -/
  kept : ∀ bit, hasBit dflt.type bit → hasBit entry.type bit
  /-- Every other type bit comes from the section itself. -/
  gained : ∀ bit, hasBit entry.type bit →
    hasBit dflt.type bit ∨ ∃ d ∈ sec.directives, hasBit d.bits bit
  /-- Every directive that describes a location shows in the type. -/
  shown : ∀ d ∈ sec.directives, d.creates → hasBit entry.type d.bits

variable {gethostbyname : Resolver} {names : List Bytes} {s t : ParseState}

/-! ## Fields of the head -/

/-- What a directive writes into the location it edits.  Headers are left to the
sections, but for the type of the match, which `try_files` resets. -/
structure Edited (gethostbyname : Resolver) (names : List Bytes) (d : LocationDirective)
    (before after : Location) : Prop where
  root : after.root.map (·.text) = d.root?.getD (before.root.map (·.text))
  group : after.group = groupAfter names before.group [d]
  passTo : after.passTo = (d.passTo? gethostbyname names).getD before.passTo
  tryTarget : after.tryTarget = d.tryTarget?.getD before.tryTarget
  expires : after.expires = d.expires?.getD before.expires
  match_ : after.match_ = before.match_
  protocol : after.protocol = before.protocol
  matchType : after.matchType =
    (d.tryTarget?.map fun _ => MatchType.unsetMatch).getD before.matchType

theorem edited (fresh : Bool) (d : LocationDirective) (loc : Location) :
    Edited gethostbyname names d loc (d.edit gethostbyname names fresh loc) := by
  cases d with
  | proxyPass | fastcgiPass =>
      simp only [LocationDirective.edit, passEdit]
      split <;>
        exact
          { root := rfl
            group := by simp_all [groupAfter, LocationDirective.groupTarget]
            passTo := by simp_all [LocationDirective.passTo?]
            tryTarget := rfl
            expires := rfl
            match_ := rfl
            protocol := rfl
            matchType := rfl }
  | root | expires | expiresOff | tryFiles | defaultType | inert =>
      exact ⟨rfl, rfl, rfl, rfl, rfl, rfl, rfl, rfl⟩

section Field

variable {β : Type} {get : Location → β} {write : LocationDirective → Option β}

/-- A field that every directive either writes or leaves alone. -/
theorem field_touchAll
    (reads : ∀ {d before after}, Edited gethostbyname names d before after →
      get after = (write d).getD (get before))
    (ds : List LocationDirective) (p : Pending Location) :
    get (touchAll gethostbyname names ds p).head = lastWrite write (get p.head) ds := by
  induction ds generalizing p with
  | nil => rfl
  | cons d rest ih =>
      apply (ih (d.touch gethostbyname names p)).trans
      rw [LocationDirective.touch, Pending.head_touch, reads (edited _ d p.head), lastWrite_cons]

/-- The same over a server block, for a field that the headers leave alone. -/
theorem field_touchBody
    (reads : ∀ {d before after}, Edited gethostbyname names d before after →
      get after = (write d).getD (get before))
    (header : ∀ (sec : Section) loc, get (sec.header loc) = get loc)
    (body : List ServerDirective) (p : Pending Location) :
    get (touchBody gethostbyname names body p).head =
      lastWrite write (get p.head) (body.flatMap ServerDirective.locationDirectives) := by
  induction body generalizing p with
  | nil => rfl
  | cons d rest ih =>
      have one : get (d.touch gethostbyname names p).head =
          lastWrite write (get p.head) d.locationDirectives := by
        cases d with
        | root path => exact field_touchAll reads [.root path] p
        | location sec =>
            simp only [ServerDirective.touch, Section.touch, Pending.head_touch, header]
            exact field_touchAll reads sec.directives p
        | serverName | serverTokens | accessLog | errorLog | autoindex | listen | sslCertificate
        | sslCertificateKey | index | defaultType | inert => rfl
      rw [List.flatMap_cons, lastWrite_append, ← one]
      exact ih (d.touch gethostbyname names p)

end Field

theorem type_edit (fresh : Bool) (d : LocationDirective) (loc : Location) :
    (d.edit gethostbyname names fresh loc).type = loc.type ||| d.added names fresh := by
  cases d with
  | proxyPass | fastcgiPass =>
      simp only [LocationDirective.edit, LocationDirective.added, passEdit]
      split <;> simp_all
  | root | tryFiles => rfl
  | expires | expiresOff | defaultType | inert => exact (Nat.or_zero _).symm

/-! ## Type bits of the head -/

theorem added_le_bits {fresh : Bool} {d : LocationDirective} {bit : Nat}
    (added : hasBit (d.added names fresh) bit) : hasBit d.bits bit := by
  cases d with
  | root | tryFiles | expires | expiresOff | defaultType | inert => exact added
  | proxyPass | fastcgiPass =>
      simp only [LocationDirective.added] at added
      simp only [LocationDirective.bits, hasBit_or, Bool.or_eq_true]
      split at added <;> cases fresh <;> simp_all

theorem hasBit_bits_of_creates {fresh : Bool} {d : LocationDirective} (creates : d.creates) :
    hasBit (d.added names fresh) d.bits := by
  cases d with
  | root | tryFiles =>
      simp only [LocationDirective.added, LocationDirective.bits]
      decide
  | expires | expiresOff | defaultType | inert => cases creates
  | proxyPass | fastcgiPass =>
      simp only [LocationDirective.added, LocationDirective.bits]
      split <;> cases fresh <;> decide

theorem type_touch (d : LocationDirective) (p : Pending Location) :
    (d.touch gethostbyname names p).head.type =
      p.head.type ||| d.added names p.items.isEmpty := by
  rw [LocationDirective.touch, Pending.head_touch, type_edit]

/-- How the type of the head changes under several directives. -/
structure Typed (ds : List LocationDirective) (before after : Nat) : Prop where
  kept : ∀ bit, hasBit before bit → hasBit after bit
  gained : ∀ bit, hasBit after bit → hasBit before bit ∨ ∃ d ∈ ds, hasBit d.bits bit
  shown : ∀ d ∈ ds, d.creates → hasBit after d.bits

theorem Typed.nil (type : Nat) : Typed [] type type where
  kept _ has := has
  gained _ has := .inl has
  shown _ member := by cases member

theorem Typed.append {first second : List LocationDirective} {a b c : Nat}
    (left : Typed first a b) (right : Typed second b c) : Typed (first ++ second) a c where
  kept bit has := right.kept bit (left.kept bit has)
  gained bit has := by
    rcases right.gained bit has with has | ⟨d, member, has⟩
    · rcases left.gained bit has with has | ⟨d, member, has⟩
      · exact .inl has
      · exact .inr ⟨d, List.mem_append_left second member, has⟩
    · exact .inr ⟨d, List.mem_append_right first member, has⟩
  shown d member creates := by
    rcases List.mem_append.mp member with member | member
    · exact right.kept _ (left.shown d member creates)
    · exact right.shown d member creates

theorem typed_touch (d : LocationDirective) (p : Pending Location) :
    Typed [d] p.head.type (d.touch gethostbyname names p).head.type where
  kept bit has := by simp [type_touch, has]
  gained bit has := by
    rw [type_touch, hasBit_or, Bool.or_eq_true] at has
    rcases has with has | has
    · exact .inl has
    · exact .inr ⟨d, List.mem_singleton_self d, added_le_bits has⟩
  shown e member creates := by
    obtain rfl := List.mem_singleton.mp member
    simp [type_touch, hasBit_bits_of_creates creates]

theorem typed_touchAll (ds : List LocationDirective) (p : Pending Location) :
    Typed ds p.head.type (touchAll gethostbyname names ds p).head.type := by
  induction ds generalizing p with
  | nil => exact .nil _
  | cons d rest ih => exact (typed_touch d p).append (ih _)

theorem typed_touchBody (body : List ServerDirective) (p : Pending Location) :
    Typed (body.flatMap ServerDirective.locationDirectives) p.head.type
      (touchBody gethostbyname names body p).head.type := by
  induction body generalizing p with
  | nil => exact .nil _
  | cons d rest ih =>
      have one : Typed d.locationDirectives p.head.type
          (d.touch gethostbyname names p).head.type := by
        cases d with
        | root path => exact typed_touch (.root path) p
        | location sec =>
            simp only [ServerDirective.touch, Section.touch, Pending.head_touch]
            exact typed_touchAll sec.directives p
        | serverName | serverTokens | accessLog | errorLog | autoindex | listen | sslCertificate
        | sslCertificateKey | index | defaultType | inert => exact .nil _
      rw [List.flatMap_cons]
      exact one.append (ih _)

/-! ## A block with one section -/

theorem sections_eq_singleton {body : List ServerDirective} {sec : Section}
    (only : sections body = [sec]) :
    ∃ pre post, body = pre ++ .location sec :: post ∧ sections pre = [] ∧ sections post = [] := by
  rcases List.filterMap_eq_cons_iff.mp only with ⟨pre, d, post, rfl, none, found, rest⟩
  obtain rfl : d = .location sec := by
    cases d <;> simp_all [ServerDirective.section?]
  exact ⟨pre, post, rfl, List.filterMap_eq_nil_iff.mpr none, rest⟩

/-- Outside sections, the only location directives are roots. -/
theorem root_of_noSections {body : List ServerDirective} (none : sections body = []) :
    ∀ d ∈ body.flatMap ServerDirective.locationDirectives, ∃ path, d = .root path := by
  intro d member
  rcases List.mem_flatMap.mp member with ⟨directive, inBody, inside⟩
  have noSection := List.filterMap_eq_nil_iff.mp none directive inBody
  cases directive <;>
    simp_all [ServerDirective.locationDirectives, ServerDirective.section?]

/-- A variable that roots do not write is written by the section alone. -/
theorem lastWrite_singleton {β : Type} {write : LocationDirective → Option β} {init : β}
    (silent : ∀ path, write (.root path) = none) {pre post : List ServerDirective} {sec : Section}
    (nonePre : sections pre = []) (nonePost : sections post = []) :
    lastWrite write init
        ((pre ++ .location sec :: post).flatMap ServerDirective.locationDirectives) =
      lastWrite write init sec.directives := by
  have quiet : ∀ body, sections body = [] →
      ∀ d ∈ body.flatMap ServerDirective.locationDirectives, write d = none := by
    intro body noSections d member
    rcases root_of_noSections noSections d member with ⟨path, rfl⟩
    exact silent path
  rw [List.flatMap_append, List.flatMap_cons, lastWrite_append, lastWrite_append,
    lastWrite_eq_init (quiet pre nonePre), lastWrite_eq_init (quiet post nonePost)]
  rfl

/-- Without sections, a block's body is the list of its roots. -/
theorem touchBody_of_noSections {body : List ServerDirective} (none : sections body = [])
    (p : Pending Location) :
    touchBody gethostbyname names body p =
      touchAll gethostbyname names (body.flatMap ServerDirective.locationDirectives) p := by
  induction body generalizing p with
  | nil => rfl
  | cons d rest ih =>
      have here := List.filterMap_eq_nil_iff.mp none d List.mem_cons_self
      have later : sections rest = [] :=
        List.filterMap_eq_nil_iff.mpr fun e member =>
          List.filterMap_eq_nil_iff.mp none e (List.mem_cons_of_mem d member)
      cases d with
      | location sec => cases here
      | root | serverName | serverTokens | accessLog | errorLog | autoindex | listen
      | sslCertificate | sslCertificateKey | index | defaultType | inert => exact ih later _

section Single

variable {pre post : List ServerDirective} {sec : Section} {p : Pending Location}

/-- The roots behind a section leave what its header wrote. -/
theorem header_field {β : Type} (get : Location → β) (write : LocationDirective → Option β)
    (reads : ∀ {d before after}, Edited gethostbyname names d before after →
      get after = (write d).getD (get before))
    (silent : ∀ path, write (.root path) = none) (nonePost : sections post = []) :
    get (touchBody gethostbyname names (pre ++ .location sec :: post) p).head =
      get (sec.header (touchAll gethostbyname names sec.directives
        (touchBody gethostbyname names pre p)).head) := by
  have quiet : ∀ d ∈ post.flatMap ServerDirective.locationDirectives, write d = none := by
    intro d member
    rcases root_of_noSections nonePost d member with ⟨path, rfl⟩
    exact silent path
  have split : touchBody gethostbyname names (pre ++ .location sec :: post) p =
      touchBody gethostbyname names post
        (sec.touch gethostbyname names (touchBody gethostbyname names pre p)) :=
    List.foldl_append
  rw [split, touchBody_of_noSections nonePost, field_touchAll reads, lastWrite_eq_init quiet,
    Section.touch, Pending.head_touch]

/-- The block up to its last section, and what comes behind it. -/
theorem split_last_section {body : List ServerDirective}
    (last : (sections body).getLast? = some sec) :
    ∃ pre post, body = pre ++ .location sec :: post ∧ sections post = [] := by
  rcases List.getLast?_eq_some_iff.mp last with ⟨init, all⟩
  rcases List.filterMap_eq_append_iff.mp all with ⟨early, late, rfl, _, only⟩
  rcases sections_eq_singleton only with ⟨pre, post, rfl, _, none⟩
  exact ⟨early ++ pre, post, (List.append_assoc _ _ _).symm, none⟩

/-- The last section of a block writes the header of its location. -/
theorem head_of_section {body : List ServerDirective}
    (last : (sections body).getLast? = some sec) (p : Pending Location) :
    (touchBody gethostbyname names body p).head.matchType = sec.matchType ∧
      (touchBody gethostbyname names body p).head.match_ = sec.match_ := by
  rcases split_last_section last with ⟨pre, post, rfl, nonePost⟩
  constructor
  · exact header_field (·.matchType) _ Edited.matchType (fun _ => rfl) nonePost
  · exact header_field (·.match_) (fun _ => none) Edited.match_ (fun _ => rfl) nonePost

/-- A field that roots do not write is written by the section alone. -/
theorem own_field {β : Type} {get : Location → β} {write : LocationDirective → Option β}
    (reads : ∀ {d before after}, Edited gethostbyname names d before after →
      get after = (write d).getD (get before))
    (untouched : ∀ (sec : Section) loc, get (sec.header loc) = get loc)
    (silent : ∀ path, write (.root path) = none)
    (nonePre : sections pre = []) (nonePost : sections post = []) :
    get (touchBody gethostbyname names (pre ++ .location sec :: post) p).head =
      lastWrite write (get p.head) sec.directives := by
  rw [field_touchBody reads untouched, lastWrite_singleton silent nonePre nonePost]

theorem mem_singleSection {d : LocationDirective}
    (nonePre : sections pre = []) (nonePost : sections post = [])
    (member : d ∈ (pre ++ .location sec :: post).flatMap ServerDirective.locationDirectives) :
    d ∈ sec.directives ∨ ∃ path, d = .root path := by
  rw [List.flatMap_append, List.flatMap_cons] at member
  rcases List.mem_append.mp member with before | member
  · exact .inr (root_of_noSections nonePre d before)
  · rcases List.mem_append.mp member with inside | behind
    · exact .inl inside
    · exact .inr (root_of_noSections nonePost d behind)

theorem mem_of_section {d : LocationDirective} (inside : d ∈ sec.directives) :
    d ∈ (pre ++ .location sec :: post).flatMap ServerDirective.locationDirectives :=
  List.mem_flatMap.mpr ⟨.location sec, by simp, inside⟩

/-- After a block with one section, the head has everything the section
describes, except that roots outside the section may have changed its root. -/
theorem carries_iff (nonePre : sections pre = []) (nonePost : sections post = [])
    (noItems : p.items = []) (docRoot : p.dflt.type = typeDocRoot) :
    Carries gethostbyname names p.dflt sec
        (touchBody gethostbyname names (pre ++ .location sec :: post) p).head ↔
      rootAfter p.dflt ((pre ++ .location sec :: post).flatMap ServerDirective.locationDirectives) =
        rootAfter p.dflt sec.directives := by
  have head : p.head = p.dflt := by simp [Pending.head, noItems]
  have root := @field_touchBody gethostbyname names _ (fun loc => loc.root.map (·.text)) _
    Edited.root (fun _ _ => rfl) (pre ++ .location sec :: post) p
  have typed := @typed_touchBody gethostbyname names
    (pre ++ .location sec :: post) p
  rw [head] at root typed
  constructor
  · intro carries
    exact root.symm.trans carries.root
  · intro sameRoot
    exact
      { matchType :=
          header_field (·.matchType) _ Edited.matchType (fun _ => rfl) nonePost
        match_ :=
          header_field (·.match_) (fun _ => none) Edited.match_ (fun _ => rfl) nonePost
        protocol :=
          header_field (·.protocol) (fun _ => none) Edited.protocol (fun _ => rfl) nonePost
        root := root.trans sameRoot
        passTo := head ▸ own_field Edited.passTo (fun _ _ => rfl) (fun _ => rfl) nonePre nonePost
        group :=
          head ▸ own_field Edited.group (fun _ _ => rfl) (fun _ => rfl) nonePre nonePost
        tryTarget :=
          head ▸ own_field Edited.tryTarget (fun _ _ => rfl) (fun _ => rfl) nonePre nonePost
        expires := head ▸ own_field Edited.expires (fun _ _ => rfl) (fun _ => rfl) nonePre nonePost
        kept := typed.kept
        gained := by
          intro bit has
          rcases typed.gained bit has with has | ⟨d, member, has⟩
          · exact .inl has
          · rcases mem_singleSection nonePre nonePost member with inside | ⟨path, rfl⟩
            · exact .inr ⟨d, inside, has⟩
            · exact .inl (docRoot ▸ has)
        shown := fun d inside creates => typed.shown d (mem_of_section inside) creates }

end Single

/-! ## Server blocks -/

theorem length_touchBody_le {body : List ServerDirective} {p : Pending Location}
    (short : p.items.length ≤ 1) :
    (touchBody gethostbyname names body p).items.length ≤ 1 := by
  have directives : ∀ (ds : List LocationDirective) {q : Pending Location},
      q.items.length ≤ 1 → (touchAll gethostbyname names ds q).items.length ≤ 1 := by
    intro ds
    induction ds with
    | nil => exact id
    | cons d rest ih => exact fun short => ih (Pending.length_touch_le short)
  induction body generalizing p with
  | nil => exact short
  | cons d rest ih =>
      apply ih
      cases d with
      | root path => exact Pending.length_touch_le short
      | location sec => exact Pending.length_touch_le (directives sec.directives short)
      | serverName | serverTokens | accessLog | errorLog | autoindex | listen | sslCertificate
      | sslCertificateKey | index | defaultType | inert => exact short

/-- A server always gets a single location: the head of the pending list. -/
theorem locations_serverOf {m : ParseState} (short : m.locations.items.length ≤ 1)
    (rooted : m.locations.head.root.isSome) :
    (serverOf m).locations = [m.locations.head] := by
  rcases Option.isSome_iff_exists.mp rooted with ⟨root, own⟩
  simp [serverOf, propagateRoot, Pending.fromFront_eq _ short, own]

/-- The server that a block builds has one location for each section of the
block exactly if the block has a single section, and no `root` directive beside
the section changes the root the section asks for. -/
theorem server_sections_iff {main : List MainDirective} {before : List HttpDirective}
    {body : List ServerDirective} (reached : Reached gethostbyname main before s)
    (ran : run (perform gethostbyname) s (serverActions body) = .ok t) :
    (∃ server, t.serverList = s.serverList ++ [server] ∧
        List.Forall₂ (Carries gethostbyname s.groupNames s.locations.dflt) (sections body)
          server.locations) ↔
      ∃ sec, sections body = [sec] ∧
        rootAfter s.locations.dflt (body.flatMap ServerDirective.locationDirectives) =
          rootAfter s.locations.dflt sec.directives := by
  have between := Between.of_reached reached
  rcases server_eq_ok between ran with ⟨_, m, built, core⟩
  have list : m.locations = touchBody gethostbyname s.groupNames body s.locations :=
    congrArg Core.locations built.core
  have servers : t.serverList = s.serverList ++ [serverOf m] := congrArg Core.serverList core
  have short : m.locations.items.length ≤ 1 := by
    rw [list]
    exact length_touchBody_le (by simp [between.noItems])
  have single := locations_serverOf short (built.idle.rooted _ (Pending.head_mem_toList _))
  have docRoot : s.locations.dflt.type = typeDocRoot := by
    rcases between.plain with ⟨_, _, _, _, plain⟩
    rw [plain]
    rfl
  constructor
  · rintro ⟨server, added, kept⟩
    obtain rfl : server = serverOf m := by
      simpa using added.symm.trans servers
    rw [single] at kept
    rcases List.forall₂_cons_right_iff.mp kept with ⟨sec, rest, carries, none, only⟩
    obtain rfl : rest = [] := List.forall₂_nil_right_iff.mp none
    rcases sections_eq_singleton only with ⟨pre, post, rfl, nonePre, nonePost⟩
    rw [list] at carries
    exact ⟨sec, only, (carries_iff nonePre nonePost between.noItems docRoot).mp carries⟩
  · rintro ⟨sec, only, sameRoot⟩
    rcases sections_eq_singleton only with ⟨pre, post, rfl, nonePre, nonePost⟩
    refine ⟨serverOf m, servers, ?_⟩
    rw [only, single, list]
    exact .cons ((carries_iff nonePre nonePost between.noItems docRoot).mpr sameRoot) .nil

/-- `location match_ { root path; }` -/
def rootSection (match_ path : String) : Section :=
  { matchType := .prefixMatch, match_ := bytes match_, first := .root (bytes path), rest := [] }

theorem server_sections_iff_single :
    ∃ t, run (perform fun _ => none) .initial
        (serverActions [.location (rootSection "/a" "/x")]) = .ok t ∧
      ∃ server, t.serverList = [] ++ [server] ∧
        List.Forall₂ (Carries (fun _ => none) [] defaultLocation)
          (sections [.location (rootSection "/a" "/x")]) server.locations :=
  ⟨_, rfl, (@server_sections_iff _ _ _ [] [] _ rfl rfl).mpr ⟨_, rfl, rfl⟩⟩

/-- Two sections with a root each: the second takes over the location of the first. -/
theorem server_sections_merged :
    ∃ t server, run (perform fun _ => none) .initial
        (serverActions
          [.location (rootSection "/a" "/x"), .location (rootSection "/b" "/y")]) = .ok t ∧
      t.serverList = [server] ∧
      server.locations.map (fun loc => (loc.match_, loc.root.map (·.text))) =
        [(bytes "/b", some (bytes "/y"))] ∧
      ¬ List.Forall₂ (Carries (fun _ => none) [] defaultLocation)
        (sections [.location (rootSection "/a" "/x"), .location (rootSection "/b" "/y")])
        server.locations := by
  refine ⟨_, _, rfl, rfl, rfl, fun kept => ?_⟩
  have sameLength : 2 = 1 := kept.length_eq
  omega

end OgWebserver.Config

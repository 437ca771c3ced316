import OgWebserver.Request.Processed

/-!
# Resolving `try_files`

A location with `try_files $uri $uri/ target` should serve the file at the path of the
request, or the first index file that opens in the directory there, or else the target.
The functions that look for the file talk to each other through the fields of the request;
the file determines when the right file is served, under its own MIME type.
-/

namespace OgWebserver.Request

open Text Config Transition

/-- The file that the path of the request leads to. -/
inductive Leads (o : Outside) (server : Server) (fullPath : Bytes) : Bytes → Prop
  /-- The path exists, is no directory and opens. -/
  | file (plain : o.fs.isDir fullPath = some false) (opens : o.fs.opens fullPath = true) :
      Leads o server fullPath fullPath
  /-- The path is a directory, and this is the first index file that opens in it. -/
  | index {before name after} (dir : o.fs.isDir fullPath = some true)
      (split : server.indexFiles = before ++ name :: after)
      (closed : ∀ other ∈ before, o.fs.opens (joinPath fullPath other) = false)
      (opens : o.fs.opens (joinPath fullPath name) = true) :
      Leads o server fullPath (joinPath fullPath name)

/-- The file that a request should be answered with, if any; `dflt` is the full path of the
target. -/
inductive Resolves (o : Outside) (server : Server) (fullPath dflt : Bytes) : Option Bytes → Prop
  | path {file} (leads : Leads o server fullPath file) : Resolves o server fullPath dflt (some file)
  | target (noFile : ∀ file, ¬ Leads o server fullPath file)
      (plain : o.fs.isDir dflt ≠ some true) (opens : o.fs.opens dflt = true) :
      Resolves o server fullPath dflt (some dflt)
  | nothing (noFile : ∀ file, ¬ Leads o server fullPath file)
      (unserved : o.fs.isDir dflt = some true ∨ o.fs.opens dflt = false) :
      Resolves o server fullPath dflt none

/-- The response to a GET request that has been resolved. -/
def resolvedResponse (o : Outside) : Option Bytes → Response
  | some file => .file file (mimeTypeOf o file) (o.fs.size file) true
  | none => .error 404 (bytes "Not Found")

/-- The names fit into their buffers as far as they are used: those of the index files, the
full path of the target, and the MIME type of the file that is served. -/
structure NamesFit (o : Outside) (server : Server) (fullPath dflt : Bytes) : Prop where
  lookup : LookupFits o server fullPath
  target : (∀ file, ¬ Leads o server fullPath file) → dflt.length < 300
  mime : ∀ file, Resolves o server fullPath dflt (some file) → MimeFits o file

variable {o : Outside} {server : Server} {fullPath dflt : Bytes}

theorem leads_iff {file : Bytes} :
    Leads o server fullPath file ↔ servedFile o server fullPath = some file := by
  constructor
  · intro leads
    cases leads with
    | file plain opens => simp [servedFile_plain plain, opens]
    | index dir split closed opens =>
        rw [servedFile_directory dir, indexPaths, split, List.map_append, List.map_cons,
          List.find?_append, List.find?_eq_none.mpr, Option.none_or, List.find?_cons_of_pos opens]
        intro path member
        rcases List.mem_map.mp member with ⟨other, before, rfl⟩
        simp [closed other before]
  · intro found
    cases dir : o.fs.isDir fullPath with
    | none =>
        rw [servedFile_missing dir] at found
        cases found
    | some isDir =>
        cases isDir with
        | false =>
            rw [servedFile_plain dir] at found
            split at found
            case isTrue opens =>
              obtain rfl := Option.some.inj found
              exact .file dir opens
            case isFalse => cases found
        | true =>
            rw [servedFile_directory dir, indexPaths] at found
            rcases List.find?_eq_some_iff_append.mp found with ⟨opens, before, after, split, closed⟩
            rcases List.map_eq_append_iff.mp split with ⟨front, back, names, rfl, rest⟩
            rcases List.map_eq_cons_iff.mp rest with ⟨name, last, rfl, rfl, rfl⟩
            refine .index dir names (fun other member => ?_) opens
            simpa using closed _ (List.mem_map_of_mem member)

theorem noLeads_iff :
    (∀ file, ¬ Leads o server fullPath file) ↔ servedFile o server fullPath = none := by
  simp only [leads_iff, Option.eq_none_iff_forall_ne_some, ne_eq]

/-- A file that the path leads to is the one that is resolved. -/
theorem Resolves.of_leads {file : Bytes} {found : Option Bytes}
    (leads : Leads o server fullPath file) (resolves : Resolves o server fullPath dflt found) :
    found = some file := by
  cases resolves with
  | path other => rw [← leads_iff.mp other, leads_iff.mp leads]
  | target noFile => exact absurd leads (noFile file)
  | nothing noFile => exact absurd leads (noFile file)

namespace Visit

variable {v : Visit} {req : ClientRequest} {s : Handling} {root : CString} {target : Bytes}

/-- The handler returns, and has answered the request with the file resolved. -/
def ServesResolved (v : Visit) (req : ClientRequest) (s : Handling) (dflt fullPath : Bytes)
    (ran : Ran) : Prop :=
  ∃ s' found, ran = .ok () s' ∧ Resolves v.outside req.server fullPath dflt found ∧
    s'.world.events = s.world.events ++ [.respond (resolvedResponse v.outside found)]

theorem ServesResolved.not_overflows {dflt fullPath : Bytes} {ran : Ran}
    (serves : ServesResolved v req s dflt fullPath ran) : ¬ Overflows s ran := by
  rintro ⟨s', ended, _⟩
  rcases serves with ⟨s'', found, returned, _⟩
  rw [ended] at returned
  cases returned

theorem fileResponse_of_get (get : req.verb = bytes "GET") (file : Bytes) :
    v.fileResponse req file = resolvedResponse v.outside (some file) := by
  simp only [fileResponse, resolvedResponse, get, BEq.rfl]

theorem ServesResolved.behind {s₁ : Handling} {opened : List (Nat × Object)}
    (looks : Looks s s₁ opened) {dflt fullPath : Bytes} {ran : Ran} :
    ServesResolved v req s dflt fullPath ran ↔ ServesResolved v req s₁ dflt fullPath ran := by
  simp only [ServesResolved, looks.world]

/-- Without a file at its path, the request is answered with the target. -/
theorem serveDefaultFile_resolves_iff (logged : Logged req.server)
    (rooted : req.loc.root = some root) (local_ : hasBit req.loc.type typeProxyPass = false)
    (get : req.verb = bytes "GET") {fullPath : Bytes}
    (noFile : ∀ file, ¬ Leads v.outside req.server fullPath file) :
    ServesResolved v req s (joinPath root.text target) fullPath
        (v.serveDefaultFile (some target) req s) ↔
      (joinPath root.text target).length < 300 ∧
        ∀ file, Resolves v.outside req.server fullPath (joinPath root.text target) (some file) →
          MimeFits v.outside file := by
  by_cases short : (joinPath root.text target).length < 300
  case neg =>
    have overrun := serveDefaultFile_overflows (v := v) (s := s) local_ rooted short
    exact iff_of_false (fun serves => serves.not_overflows overrun) fun both => short both.1
  by_cases unserved : v.outside.fs.isDir (joinPath root.text target) = some true ∨
      v.outside.fs.opens (joinPath root.text target) = false
  · rcases serveDefaultFile_unfound (v := v) (s := s) local_ rooted short unserved with
      ⟨s₁, looks, ran⟩
    rcases notFound_answers (v := v) (s := s₁) logged with ⟨s', log, returned, world, _⟩
    refine iff_of_true ⟨s', none, ran.trans returned, .nothing noFile unserved, ?_⟩
      ⟨short, fun file resolves => ?_⟩
    · rw [world, looks.world]
      rfl
    · cases resolves with
      | path leads => exact absurd leads (noFile file)
      | target _ plain opens =>
          rcases unserved with dir | fails
          · exact absurd dir plain
          · rw [fails] at opens
            cases opens
  · rcases not_or.mp unserved with ⟨plain, opens⟩
    rw [Bool.not_eq_false] at opens
    have resolves := Resolves.target noFile plain opens
    rcases serveDefaultFile_found (v := v) (s := s) local_ rooted short plain opens with
      ⟨s₁, fd, looks, full, opened, ran⟩
    rw [ran]
    by_cases mime : MimeFits v.outside (joinPath root.text target)
    · rcases serveFile_behind logged looks full opened mime with ⟨s', log, returned, world, _⟩
      refine iff_of_true ⟨s', _, returned, resolves, ?_⟩ ⟨short, fun file other => ?_⟩
      · rw [world, fileResponse_of_get get]
        rfl
      · cases other with
        | path leads => exact absurd leads (noFile file)
        | target => exact mime
    · have overrun : Overflows { s with path := target } (v.serveFile req s₁) :=
        serveFile_overflows_behind looks full mime
      exact iff_of_false (fun serves => serves.not_overflows overrun)
        fun both => mime (both.2 _ resolves)

theorem handleTryFiles_resolves_iff (logged : Logged req.server)
    (rooted : req.loc.root = some root) (short : (joinPath root.text s.path).length < 300)
    (format : checkTryFilesFormat req.loc = some target)
    (local_ : hasBit req.loc.type typeProxyPass = false) (off : req.server.autoIndex = false)
    (get : req.verb = bytes "GET") :
    ServesResolved v req s (joinPath root.text target) (joinPath root.text s.path)
        (v.handleTryFiles req s) ↔
      NamesFit v.outside req.server (joinPath root.text s.path) (joinPath root.text target) := by
  rw [handleTryFiles_known format]
  by_cases lookup : LookupFits v.outside req.server (joinPath root.text s.path)
  case neg =>
    have overrun := tryFiles_overflows (v := v) rooted short (some target) lookup
    exact iff_of_false (fun serves => serves.not_overflows overrun) fun fit => lookup fit.lookup
  cases found : servedFile v.outside req.server (joinPath root.text s.path) with
  | some file =>
      have leads := leads_iff.mpr found
      rcases tryFiles_found (v := v) rooted short (some target) lookup found with
        ⟨s₁, fd, looks, full, opened, ran⟩
      rw [local_, Bool.and_false] at ran
      simp only [Bool.false_eq_true, if_false] at ran
      rw [ran]
      by_cases mime : MimeFits v.outside file
      · rcases serveFile_behind logged looks full opened mime with ⟨s', log, returned, world, _⟩
        refine iff_of_true ⟨s', some file, returned, .path leads, ?_⟩
          ⟨lookup, fun none_ => absurd leads (none_ file), fun other resolves => ?_⟩
        · rw [world, fileResponse_of_get get]
          rfl
        · obtain rfl := Option.some.inj (resolves.of_leads leads)
          exact mime
      · have overrun : Overflows s (v.serveFile req s₁) :=
          serveFile_overflows_behind looks full mime
        exact iff_of_false (fun serves => serves.not_overflows overrun)
          fun fit => mime (fit.mime file (.path leads))
  | none =>
      have none_ := noLeads_iff.mpr found
      rcases tryFiles_unfound (v := v) rooted short (some target) lookup found with
        ⟨s₁, looks, _, ran⟩
      rw [off, Bool.and_false] at ran
      simp only [Bool.false_eq_true, if_false] at ran
      rw [ran, ServesResolved.behind looks,
        serveDefaultFile_resolves_iff logged rooted local_ get none_]
      exact ⟨fun both => ⟨lookup, fun _ => both.1, both.2⟩,
        fun fit => ⟨fit.target none_, fit.mime⟩⟩

theorem format_of_targets {loc : Location} {rest : List Bytes}
    (targets : loc.tryTarget = bytes "$uri" :: bytes "$uri/" :: target :: rest) :
    checkTryFilesFormat loc = some target := by
  simp only [checkTryFilesFormat, targets, and_self, if_true]

/-- A GET request for a location with `try_files $uri $uri/ target` and without passes, on a
server that does not list directories, is answered with the file resolved, under its own MIME
type, and with nothing else, if and only if the names fit into their buffers. -/
theorem processInput_resolves_iff (accepted : Accepted v) {text : RequestText} {server : Server}
    {loc : Location} (asks : Asks v text server loc root) (get : text.verb = bytes "GET")
    (tries : hasBit loc.type typeTryFiles = true)
    (noPass : hasBit loc.type typeProxyPass = false) {rest : List Bytes}
    (targets : loc.tryTarget = bytes "$uri" :: bytes "$uri/" :: target :: rest)
    (off : server.autoIndex = false) (table : List (Nat × Object)) :
    (∃ s' found, v.processInput (v.start table) = .ok () s' ∧
        Resolves v.outside server (joinPath root.text (cutQuery text.path).1)
          (joinPath root.text target) found ∧
        s'.world.events = [.respond (resolvedResponse v.outside found)]) ↔
      NamesFit v.outside server (joinPath root.text (cutQuery text.path).1)
        (joinPath root.text target) := by
  rw [processInput_tries asks tries]
  exact handleTryFiles_resolves_iff (accepted.logged server asks.member) asks.rooted asks.fits
    (format_of_targets targets) noPass off get

/-- A server with a location that tries a target. -/
def tryFile (target : Bytes) : ConfigFile :=
  passFile (.tryFiles (bytes "$uri") [bytes "$uri/", target])

/-- A target that fits behind the root, and one that does not. -/
def shortTarget : Bytes :=
  bytes "/index.php"

def longTarget : Bytes :=
  List.replicate 300 97

/-- The sample request goes to that location. -/
theorem tryFile_asks (o : Outside) {target : Bytes}
    (is : target = shortTarget ∨ target = longTarget) :
    ∃ s t listener, (tryFile target).parse loopback = .ok s ∧
      checkServers .permissive s = .ok t ∧ listener ∈ t.serverList ∧
      ∃ loc root, Asks (ofState t listener plainRequest o) plainText listener loc root ∧
        root.text = bytes "/srv" ∧ loc.tryTarget = [bytes "$uri", bytes "$uri/", target] ∧
        hasBit loc.type typeTryFiles = true ∧ hasBit loc.type typeProxyPass = false ∧
        listener.autoIndex = false := by
  rcases is with rfl | rfl
  case inl =>
    refine ⟨_, _, _, rfl, rfl, List.mem_cons_self, ?_⟩
    exact ⟨_, { text := bytes "/srv", heap := true },
      asks_plainRequest o rfl rfl rfl rfl (by decide), rfl, rfl, rfl, rfl, rfl⟩
  case inr =>
    refine ⟨_, _, _, rfl, rfl, List.mem_cons_self, ?_⟩
    exact ⟨_, { text := bytes "/srv", heap := true },
      asks_plainRequest o rfl rfl rfl rfl (by decide), rfl, rfl, rfl, rfl, rfl⟩

theorem mimeFits_plainFiles (file : Bytes) : MimeFits plainFiles file := by
  refine ⟨(by decide : plainFiles.defaultType.length < 256), fun entry found => ?_⟩
  rcases Option.bind_eq_some_iff.mp found with ⟨ext, _, listed⟩
  cases listed

theorem namesFit_plainFiles {fullPath dflt : Bytes} (server : Server) (short : dflt.length < 300) :
    NamesFit plainFiles server fullPath dflt where
  lookup dir := nomatch dir
  target _ := short
  mime file _ := mimeFits_plainFiles file

/-- The file at the path of the request is served. -/
theorem processInput_resolves_iff_plain :
    ∃ s t listener, (tryFile shortTarget).parse loopback = .ok s ∧
      checkServers .permissive s = .ok t ∧ listener ∈ t.serverList ∧
      ∃ s' found, (ofState t listener plainRequest plainFiles).processInput
          ((ofState t listener plainRequest plainFiles).start streams) = .ok () s' ∧
        Resolves plainFiles listener (bytes "/srv/") (bytes "/srv/index.php") found ∧
        s'.world.events = [.respond (resolvedResponse plainFiles found)] := by
  rcases tryFile_asks plainFiles (.inl rfl) with
    ⟨s, t, listener, parsed, accepted, listening, loc, root, asks, root_eq, targets, tries, noPass,
      off⟩
  refine ⟨s, t, listener, parsed, accepted, listening, ?_⟩
  have iff_ := processInput_resolves_iff (ofState_accepted parsed accepted listening _ _) asks rfl
    tries noPass targets off streams
  rw [root_eq] at iff_
  exact iff_.mpr (namesFit_plainFiles listener (by decide))

theorem length_le_joinPath (first second : Bytes) :
    second.length ≤ (joinPath first second).length := by
  simp only [joinPath]
  split <;> simp only [List.length_append] <;> omega

/-- No file exists. -/
def noFiles : Outside :=
  { plainFiles with
    fs :=
      { isDir := fun _ => none
        opens := fun _ => false
        size := fun _ => 0
        entries := fun _ => none } }

/-- The full path of a target of 300 bytes overruns its buffer, and the request for a file
that does not exist is not answered with 404. -/
theorem processInput_target_overruns :
    ∃ s t listener loc root, (tryFile longTarget).parse loopback = .ok s ∧
      checkServers .permissive s = .ok t ∧ listener ∈ t.serverList ∧
      Asks (ofState t listener plainRequest noFiles) plainText listener loc root ∧
      loc.tryTarget = [bytes "$uri", bytes "$uri/", longTarget] ∧
      hasBit loc.type typeTryFiles = true ∧ hasBit loc.type typeProxyPass = false ∧
      listener.autoIndex = false ∧
      ¬ ∃ s' found, (ofState t listener plainRequest noFiles).processInput
          ((ofState t listener plainRequest noFiles).start streams) = .ok () s' ∧
        Resolves noFiles listener (joinPath root.text (bytes "/"))
          (joinPath root.text longTarget) found ∧
        s'.world.events = [.respond (resolvedResponse noFiles found)] := by
  rcases tryFile_asks noFiles (.inr rfl) with
    ⟨s, t, listener, parsed, accepted, listening, loc, root, asks, root_eq, targets, tries, noPass,
      off⟩
  refine ⟨s, t, listener, loc, root, parsed, accepted, listening, asks, targets, tries, noPass, off,
    ?_⟩
  rw [processInput_tries asks tries]
  intro serves
  have fit := (handleTryFiles_resolves_iff (logged_of_accepted accepted listener listening)
    asks.rooted asks.fits (format_of_targets targets) noPass off rfl).mp serves
  have noFile : ∀ file, ¬ Leads noFiles listener (joinPath root.text (bytes "/")) file := by
    intro file leads
    cases leads with
    | file plain => cases plain
    | index dir => cases dir
  have short := fit.target noFile
  rw [root_eq] at short
  have long : longTarget.length = 300 := List.length_replicate
  have whole := length_le_joinPath (bytes "/srv") longTarget
  omega

end Visit

end OgWebserver.Request

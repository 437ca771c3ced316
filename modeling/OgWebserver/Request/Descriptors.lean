import OgWebserver.Request.TryFiles

/-!
# Descriptors of a request

All descriptors that are opened for a request should be closed when it has been handled.
Files are opened before it is decided who answers; the file determines the requests for
which a descriptor is forgotten.
-/

namespace OgWebserver.Request.Visit

open Text Config Transition

/-- If the handler returns, the same descriptors are open as before. -/
def Steady (s : Handling) (ran : Ran) : Prop :=
  ∀ s', ran = .ok () s' → s'.table = s.table

variable {v : Visit} {req : ClientRequest} {s s₁ : Handling} {root : CString} {ran : Ran}

theorem Steady.of_answers {response : Response} {record : Bytes}
    (answers : Answers s s.table response record ran) : Steady s ran := by
  rcases answers with ⟨s', log, ended, _, table, _⟩
  intro s'' returned
  rw [ended] at returned
  cases returned
  exact table

theorem Steady.of_overflows (overrun : Overflows s ran) : Steady s ran := by
  rcases overrun with ⟨s', ended, _⟩
  intro s'' returned
  rw [ended] at returned
  cases returned

theorem Steady.behind (same : s₁.table = s.table) (steady : Steady s₁ ran) : Steady s ran :=
  fun s' returned => (steady s' returned).trans same

theorem handleGetVerb_steady (logged : Logged req.server) (rooted : req.loc.root = some root)
    (short : (joinPath root.text s.path).length < 300) : Steady s (v.handleGetVerb req s) := by
  by_cases lookup : LookupFits v.outside req.server (joinPath root.text s.path)
  case neg => exact .of_overflows (handleGetVerb_overflows rooted short lookup)
  cases found : servedFile v.outside req.server (joinPath root.text s.path) with
  | some file =>
      rcases handleGetVerb_found (v := v) rooted short lookup found with
        ⟨s₁, fd, looks, full, opened, ran⟩
      rw [ran]
      by_cases mime : MimeFits v.outside file
      · exact .of_answers (serveFile_behind logged looks full opened mime)
      · exact .of_overflows (serveFile_overflows_behind looks full mime)
  | none =>
      rcases handleGetVerb_unfound (v := v) rooted short lookup found with ⟨s₁, looks, _, ran⟩
      rw [ran]
      apply Steady.behind looks.table
      split
      · rcases listing_answers (v := v) (s := s₁) logged with ⟨response, record, answers, _⟩
        exact .of_answers answers
      · exact .of_answers (notFound_answers logged)

theorem serveDefaultFile_steady (logged : Logged req.server) (rooted : req.loc.root = some root)
    (tryTarget : Option Bytes) : Steady s (v.serveDefaultFile tryTarget req s) := by
  cases local_ : hasBit req.loc.type typeProxyPass with
  | true =>
      rw [serveDefaultFile_proxied local_]
      exact (passUpstream_passed logged).table
  | false =>
      cases tryTarget with
      | none =>
          simp only [serveDefaultFile, local_, Bool.false_eq_true, if_false]
          intro s' returned
          cases returned
      | some target =>
          by_cases short : (joinPath root.text target).length < 300
          case neg => exact .of_overflows (serveDefaultFile_overflows local_ rooted short)
          by_cases unserved : v.outside.fs.isDir (joinPath root.text target) = some true ∨
              v.outside.fs.opens (joinPath root.text target) = false
          · rcases serveDefaultFile_unfound (v := v) (s := s) local_ rooted short unserved with
              ⟨s₁, looks, ran⟩
            rw [ran]
            exact .behind looks.table (.of_answers (notFound_answers logged))
          · rcases not_or.mp unserved with ⟨plain, opens⟩
            rw [Bool.not_eq_false] at opens
            rcases serveDefaultFile_found (v := v) (s := s) local_ rooted short plain opens with
              ⟨s₁, fd, looks, full, opened, ran⟩
            rw [ran]
            have same : ({ s with path := target } : Handling).table = s.table := rfl
            apply Steady.behind same
            by_cases mime : MimeFits v.outside (joinPath root.text target)
            · exact .of_answers (serveFile_behind logged looks full opened mime)
            · exact .of_overflows (serveFile_overflows_behind looks full mime)

/-- An index file is opened, and the request goes to the upstream all the same. -/
def Abandons (o : Outside) (server : Server) (loc : Location) (fullPath : Bytes) : Prop :=
  hasBit loc.type typeProxyPass = true ∧ o.fs.isDir fullPath = some true ∧
    ∃ name ∈ server.indexFiles, o.fs.opens (joinPath fullPath name) = true

theorem abandons_iff {o : Outside} {server : Server} {loc : Location} {fullPath : Bytes} :
    Abandons o server loc fullPath ↔
      hasBit loc.type typeProxyPass = true ∧ o.fs.isDir fullPath = some true ∧
        (servedFile o server fullPath).isSome = true := by
  refine and_congr_right fun _ => and_congr_right fun dir => ?_
  rw [servedFile_directory dir, List.find?_isSome, indexPaths]
  simp

theorem tryFiles_steady (logged : Logged req.server) (rooted : req.loc.root = some root)
    (short : (joinPath root.text s.path).length < 300) (tryTarget : Option Bytes)
    (keeps : ¬ Abandons v.outside req.server req.loc (joinPath root.text s.path)) :
    Steady s (v.tryFiles tryTarget req s) := by
  by_cases lookup : LookupFits v.outside req.server (joinPath root.text s.path)
  case neg => exact .of_overflows (tryFiles_overflows rooted short tryTarget lookup)
  cases found : servedFile v.outside req.server (joinPath root.text s.path) with
  | some file =>
      rcases tryFiles_found (v := v) rooted short tryTarget lookup found with
        ⟨s₁, fd, looks, full, opened, ran⟩
      have served : (v.outside.fs.isDir (joinPath root.text s.path) == some true &&
          hasBit req.loc.type typeProxyPass) = false := by
        rw [abandons_iff, found] at keeps
        rw [Bool.and_eq_false_imp]
        intro dir
        rw [Bool.eq_false_iff]
        exact fun proxy => keeps ⟨proxy, by simpa using dir, rfl⟩
      rw [ran, served, if_neg Bool.false_ne_true]
      by_cases mime : MimeFits v.outside file
      · exact .of_answers (serveFile_behind logged looks full opened mime)
      · exact .of_overflows (serveFile_overflows_behind looks full mime)
  | none =>
      rcases tryFiles_unfound (v := v) rooted short tryTarget lookup found with ⟨s₁, looks, _, ran⟩
      rw [ran]
      apply Steady.behind looks.table
      split
      · rcases listing_answers (v := v) (s := s₁) logged with ⟨response, record, answers, _⟩
        exact .of_answers answers
      · exact serveDefaultFile_steady logged rooted tryTarget

/-- The descriptor of the index file stays open. -/
theorem tryFiles_leaks (logged : Logged req.server) (rooted : req.loc.root = some root)
    (short : (joinPath root.text s.path).length < 300) (tryTarget : Option Bytes)
    (abandons : Abandons v.outside req.server req.loc (joinPath root.text s.path)) {s' : Handling}
    (returned : v.tryFiles tryTarget req s = .ok () s') :
    ∃ entry ∈ s'.table, entry.1 ∉ s.table.map (·.1) := by
  rcases abandons_iff.mp abandons with ⟨proxy, dir, some_⟩
  rcases Option.isSome_iff_exists.mp some_ with ⟨file, found⟩
  by_cases lookup : LookupFits v.outside req.server (joinPath root.text s.path)
  case neg =>
    rcases tryFiles_overflows (v := v) rooted short tryTarget lookup with ⟨s'', ended, _⟩
    rw [ended] at returned
    cases returned
  rcases tryFiles_found (v := v) rooted short tryTarget lookup found with
    ⟨s₁, fd, looks, full, opened, ran⟩
  rw [ran, proxy, dir] at returned
  have table := (passUpstream_passed (v := v) (s := s₁) logged).table s' returned
  refine ⟨(fd, .file file), ?_, looks.fresh _ (List.mem_singleton_self _)⟩
  rw [table, looks.table]
  exact List.mem_cons_self

/-- The handler returns where the upstream cannot be connected to. -/
theorem tryFiles_refused (rooted : req.loc.root = some root)
    (short : (joinPath root.text s.path).length < 300) (tryTarget : Option Bytes)
    (lookup : LookupFits v.outside req.server (joinPath root.text s.path))
    (abandons : Abandons v.outside req.server req.loc (joinPath root.text s.path))
    {address : SockAddr} {upstreams : List Upstreams}
    (chosen : chooseUpstream s.world.upstreams v.outside.passTo req.loc =
      .ok (some (address, upstreams)))
    (refused : v.outside.connect address = .connectFails) :
    ∃ s', v.tryFiles tryTarget req s = .ok () s' := by
  rcases abandons_iff.mp abandons with ⟨proxy, dir, some_⟩
  rcases Option.isSome_iff_exists.mp some_ with ⟨file, found⟩
  rcases tryFiles_found (v := v) rooted short tryTarget lookup found with
    ⟨s₁, fd, looks, _, _, ran⟩
  rw [ran, proxy, dir]
  rw [← looks.world] at chosen
  exact passUpstream_refused chosen refused

theorem handleTryFiles_steady (logged : Logged req.server) (rooted : req.loc.root = some root)
    (short : (joinPath root.text s.path).length < 300)
    (keeps : ¬ Abandons v.outside req.server req.loc (joinPath root.text s.path)) :
    Steady s (v.handleTryFiles req s) := by
  cases format : checkTryFilesFormat req.loc with
  | some target =>
      rw [handleTryFiles_known format]
      exact tryFiles_steady logged rooted short (some target) keeps
  | none =>
      rcases notFound_keeps (v := v) (s := s) logged with ⟨s₁, ran, _, path, table, _⟩
      rw [handleTryFiles_unknown format, bind_of_ok ran]
      rw [← path] at short keeps
      exact .behind table (tryFiles_steady logged rooted short none keeps)

theorem handleTryFiles_leaks (logged : Logged req.server) (rooted : req.loc.root = some root)
    (short : (joinPath root.text s.path).length < 300)
    (abandons : Abandons v.outside req.server req.loc (joinPath root.text s.path)) {s' : Handling}
    (returned : v.handleTryFiles req s = .ok () s') :
    ∃ entry ∈ s'.table, entry.1 ∉ s.table.map (·.1) := by
  cases format : checkTryFilesFormat req.loc with
  | some target =>
      rw [handleTryFiles_known format] at returned
      exact tryFiles_leaks logged rooted short (some target) abandons returned
  | none =>
      rcases notFound_keeps (v := v) (s := s) logged with ⟨s₁, ran, _, path, table, _⟩
      rw [handleTryFiles_unknown format, bind_of_ok ran] at returned
      rw [← path] at short abandons
      rw [← table]
      exact tryFiles_leaks logged rooted short none abandons returned

/-! ## Whole requests -/

/-- The request tries the files of a location that passes requests on, and its path is a
directory in which an index file opens. -/
def Forgets (v : Visit) : Prop :=
  ∃ text server loc root, Asks v text server loc root ∧
    hasBit loc.type typeTryFiles = true ∧
    Abandons v.outside server loc (joinPath root.text (cutQuery text.path).1)

theorem begin_subset {table : List (Nat × Object)} :
    ∀ entry ∈ (v.begin_ table).table, entry ∈ table := by
  intro entry member
  simp only [begin_] at member
  split at member
  · exact List.mem_of_mem_eraseP member
  · exact member

theorem call_steady (accepted : Accepted v) {text : RequestText} {server : Server}
    {loc : Location} (asks : Asks v text server loc root) (table : List (Nat × Object))
    (keeps : ¬ Forgets v) :
    Steady (v.handed table text)
      (v.call (handlerFor loc) (v.request text server loc) (v.handed table text)) := by
  have logged : Logged (v.request text server loc).server := accepted.logged server asks.member
  cases handler : handlerFor loc with
  | tryFiles =>
      apply handleTryFiles_steady logged asks.rooted asks.fits
      intro abandons
      exact keeps ⟨text, server, loc, root, asks, handlerFor_eq_tryFiles.mp handler, abandons⟩
  | proxyPass => exact (passUpstream_passed logged).table
  | fastcgiPass => exact (passUpstream_passed logged).table
  | byVerb => exact handleGetVerb_steady logged asks.rooted asks.fits

/-- When `processInput` returns, every descriptor that it has opened is closed, unless an
index file has been opened for a request that goes to an upstream. -/
theorem descriptors_closed_iff (accepted : Accepted v) {table : List (Nat × Object)}
    {s' : Handling} (returned : v.processInput (v.start table) = .ok () s') :
    (∀ entry ∈ s'.table, entry ∈ table) ↔ ¬ Forgets v := by
  constructor
  · rintro closed ⟨text, server, loc, root, asks, tries, abandons⟩
    rw [processInput_tries asks tries] at returned
    have logged : Logged (v.request text server loc).server := accepted.logged server asks.member
    rcases handleTryFiles_leaks logged asks.rooted asks.fits abandons returned with
      ⟨entry, member, fresh⟩
    -- The handler is only called behind a request, so the client's socket is still open.
    have same : (v.handed table text).table = table := by
      simp only [handed, begin_, asks.nonempty, Bool.and_false, Bool.false_eq_true, if_false]
    rw [same] at fresh
    exact fresh (List.mem_map_of_mem (closed entry member))
  · intro keeps entry member
    apply begin_subset (v := v)
    have processed := processInput_processed accepted table
    generalize dispatch v.site v.listener v.received = decision at processed
    rw [returned] at processed
    generalize ended : (EStateM.Result.ok () s' : Ran) = ran at processed
    cases processed with
    | exits exit p =>
        rcases sendErrorResponse_answers (v := v) (s := { v.begin_ table with path := p })
          (accepted.logged _ (exit.member accepted)) _ _ _ _ with ⟨s'', log, ran, _, same, _⟩
        rw [ran] at ended
        cases ended
        rwa [same] at member
    | asks asks =>
        rwa [call_steady accepted asks table keeps s' ended.symm] at member
    | faults => cases ended

/-- The file at the path of the request is served, and its descriptor closed. -/
theorem descriptors_closed_iff_plain :
    ∃ s t listener, (tryFile shortTarget).parse loopback = .ok s ∧
      checkServers .permissive s = .ok t ∧ listener ∈ t.serverList ∧
      ∃ s', (ofState t listener plainRequest plainFiles).processInput
          ((ofState t listener plainRequest plainFiles).start streams) = .ok () s' ∧
        ∀ entry ∈ s'.table, entry ∈ streams := by
  rcases tryFile_asks plainFiles (.inl rfl) with
    ⟨s, t, listener, parsed, accepted, listening, loc, root, asks, root_eq, targets, tries, noPass,
      off⟩
  have configured := ofState_accepted parsed accepted listening plainRequest plainFiles
  have short : (joinPath root.text shortTarget).length < 300 := by
    rw [root_eq]
    decide
  have returns : ∃ s', (ofState t listener plainRequest plainFiles).processInput
      ((ofState t listener plainRequest plainFiles).start streams) = .ok () s' := by
    rw [processInput_tries asks tries]
    rcases (@handleTryFiles_resolves_iff (ofState t listener plainRequest plainFiles)
      ((ofState t listener plainRequest plainFiles).request plainText listener loc)
      ((ofState t listener plainRequest plainFiles).handed streams plainText) _ _
      (configured.logged listener listening) asks.rooted asks.fits (format_of_targets targets)
      noPass off rfl).mpr (namesFit_plainFiles listener short) with ⟨s', found, returned, _⟩
    exact ⟨s', returned⟩
  rcases returns with ⟨s', returned⟩
  refine ⟨s, t, listener, parsed, accepted, listening, s', returned, ?_⟩
  apply (descriptors_closed_iff configured returned).mpr
  rintro ⟨text, server, loc, root, _, _, _, dir, _⟩
  cases dir

/-- A server with a location that tries files, and passes requests on. -/
def proxied : ConfigFile :=
  { main := []
    first := .upstream backendBlock
    rest :=
      [.server
        [.location
          { matchType := .prefixMatch
            match_ := bytes "/"
            first := .root (bytes "/srv")
            rest :=
              [.tryFiles (bytes "$uri") [bytes "$uri/", shortTarget],
                .proxyPass .http1 (bytes "127.0.0.1") (some 9000)] }]] }

/-- Every path is a directory in which all files open, and no upstream can be reached. -/
def directories (passTo : Nat → Option SockAddr) : Outside :=
  { plainFiles with
    fs := { plainFiles.fs with isDir := fun _ => some true }
    passTo := passTo }

/-- The index file of the directory is still open when the request has been handled. -/
theorem proxied_asks :
    ∃ s t listener, proxied.parse loopback = .ok s ∧ checkServers .permissive s = .ok t ∧
      listener ∈ t.serverList ∧ listener.indexFiles = [bytes "index.html"] ∧
      ∃ loc root address upstreams,
        Asks (ofState t listener plainRequest (directories t.passTo)) plainText listener loc root ∧
        root.text = bytes "/srv" ∧ hasBit loc.type typeTryFiles = true ∧
        hasBit loc.type typeProxyPass = true ∧ checkTryFilesFormat loc = some shortTarget ∧
        chooseUpstream t.upstreams t.passTo loc = .ok (some (address, upstreams)) := by
  refine ⟨_, _, _, rfl, rfl, List.mem_cons_self, rfl, ?_⟩
  exact ⟨_, { text := bytes "/srv", heap := true }, _, _,
    asks_plainRequest _ rfl rfl rfl rfl (by decide), rfl, rfl, rfl, rfl, rfl⟩

/-- The upstream cannot be reached, and the index file of the directory is still open when the
request has been handled. -/
theorem index_file_leaks :
    ∃ s t listener, proxied.parse loopback = .ok s ∧ checkServers .permissive s = .ok t ∧
      listener ∈ t.serverList ∧
      ∃ s', (ofState t listener plainRequest (directories t.passTo)).processInput
          ((ofState t listener plainRequest (directories t.passTo)).start streams) = .ok () s' ∧
        ¬ ∀ entry ∈ s'.table, entry ∈ streams := by
  rcases proxied_asks with
    ⟨s, t, listener, parsed, accepted, listening, names, loc, root, address, upstreams, asks,
      root_eq, tries, proxy, format, chosen⟩
  refine ⟨s, t, listener, parsed, accepted, listening, ?_⟩
  have logged := logged_of_accepted accepted listener listening
  have lookup : LookupFits (directories t.passTo) listener (joinPath root.text (bytes "/")) := by
    intro _
    rw [indexPaths, names, root_eq, List.map_singleton, indexFits_cons]
    exact ⟨by decide, fun fails => by cases fails⟩
  have abandons :
      Abandons (directories t.passTo) listener loc (joinPath root.text (bytes "/")) := by
    refine ⟨proxy, rfl, bytes "index.html", ?_, rfl⟩
    rw [names]
    exact List.mem_singleton_self _
  have returns : ∃ s', (ofState t listener plainRequest (directories t.passTo)).processInput
      ((ofState t listener plainRequest (directories t.passTo)).start streams) = .ok () s' := by
    rw [processInput_tries asks tries, handleTryFiles_known format]
    exact tryFiles_refused asks.rooted asks.fits _ lookup abandons chosen rfl
  rcases returns with ⟨s', returned⟩
  refine ⟨s', returned, fun closed => ?_⟩
  rw [processInput_tries asks tries] at returned
  rcases handleTryFiles_leaks logged asks.rooted asks.fits abandons returned with
    ⟨entry, member, fresh⟩
  exact fresh (List.mem_map_of_mem (closed entry member))

end OgWebserver.Request.Visit

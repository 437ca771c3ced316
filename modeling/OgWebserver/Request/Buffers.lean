import OgWebserver.Request.Descriptors

/-!
# Buffers on the way to a file

`processInput` checks the length of the root and the path.  Behind the check the names of
index files, the target of `try_files` and the MIME types are added, which come from the
configuration; the file determines when all of them fit into their buffers.
-/

namespace OgWebserver.Request

open Text Config Transition

/-- The file at the path is served: it opens, and is no index file in a location that passes
requests on. -/
def Served (o : Outside) (server : Server) (loc : Location) (fullPath file : Bytes) : Prop :=
  servedFile o server fullPath = some file ∧
    ¬ (hasBit loc.type typeTryFiles = true ∧ o.fs.isDir fullPath = some true ∧
      hasBit loc.type typeProxyPass = true)

/-- Nothing is found at the path, and the target of `try_files` is looked for. -/
structure FallsBack (o : Outside) (server : Server) (loc : Location) (fullPath target : Bytes) :
    Prop where
  tries : hasBit loc.type typeTryFiles = true
  format : checkTryFilesFormat loc = some target
  local_ : hasBit loc.type typeProxyPass = false
  unfound : servedFile o server fullPath = none
  unlisted : ¬ (o.fs.isDir fullPath = some true ∧ server.autoIndex = true)

/-- The request stays on the server, unless it has to fall back to an upstream. -/
def StaysLocal (loc : Location) : Prop :=
  handlerFor loc = .tryFiles ∨ handlerFor loc = .byVerb

/-- The strings that are copied on the way to a file fit into their buffers. -/
structure BuffersFit (o : Outside) (server : Server) (loc : Location) (root path : Bytes) :
    Prop where
  /-- The names of index files behind the directory, as far as they are tried. -/
  lookup : LookupFits o server (joinPath root path)
  /-- The MIME type of the file at the path. -/
  served : ∀ file, Served o server loc (joinPath root path) file → MimeFits o file
  /-- The target behind the root. -/
  target : ∀ target, FallsBack o server loc (joinPath root path) target →
    (joinPath root target).length < 300
  /-- The MIME type of the target. -/
  fallback : ∀ target, FallsBack o server loc (joinPath root path) target →
    o.fs.isDir (joinPath root target) ≠ some true →
    o.fs.opens (joinPath root target) = true → MimeFits o (joinPath root target)

variable {s s₀ s₁ s' : Handling} {ran : Ran}

theorem Unfitting.not_fitting (unfit : Unfitting s s') : ¬ Fitting s s' := by
  rcases unfit with ⟨added, same, unfit⟩
  rintro ⟨other, same', fit⟩
  obtain rfl := List.append_cancel_left (same.symm.trans same')
  exact unfit fit

theorem Answers.fitting (before : Fitting s s₁) {table : List (Nat × Object)}
    {response : Response} {record : Bytes} (answers : Answers s₁ table response record ran) :
    Fitting s (stateBehind ran) := by
  rcases answers with ⟨s', log, rfl, _, _, fit, _⟩
  exact before.trans fit

theorem Overflows.not_fitting (before : Fitting s s₁) (overrun : Overflows s₁ ran) :
    ¬ Fitting s (stateBehind ran) := by
  rcases overrun with ⟨s', rfl, unfit, _⟩
  exact (before.unfitting unfit).not_fitting

namespace Visit

variable {v : Visit} {req : ClientRequest} {root : CString} {file : Bytes}

theorem serveFile_fitting_iff (logged : Logged req.server) (before : Fitting s s₀) {fd : Nat}
    (looks : Looks s₀ s₁ [(fd, .file file)]) (full : s₁.fullPath = file)
    (opened : s₁.localFd = some fd) :
    Fitting s (stateBehind (v.serveFile req s₁)) ↔ MimeFits v.outside file := by
  by_cases mime : MimeFits v.outside file
  · exact iff_of_true ((serveFile_behind logged looks full opened mime).fitting before) mime
  · exact iff_of_false ((serveFile_overflows_behind looks full mime).not_fitting before) mime

theorem passUpstream_fitting (logged : Logged req.server) (before : Fitting s s₁) :
    Fitting s (stateBehind (v.passUpstream req s₁)) :=
  before.trans (.of_eq (passUpstream_passed logged).copies)

theorem listing_fitting (logged : Logged req.server) (before : Fitting s s₁) :
    Fitting s (stateBehind (v.showDirectoryListing req s₁)) := by
  rcases listing_answers (v := v) (s := s₁) logged with ⟨response, record, answers, _⟩
  exact answers.fitting before

theorem notFound_fitting (logged : Logged req.server) (before : Fitting s s₁) :
    Fitting s (stateBehind (v.notFound req s₁)) :=
  (notFound_answers logged).fitting before

theorem handleGetVerb_fitting_iff (logged : Logged req.server) (before : Fitting s s₁)
    (rooted : req.loc.root = some root) (short : (joinPath root.text s₁.path).length < 300) :
    Fitting s (stateBehind (v.handleGetVerb req s₁)) ↔
      LookupFits v.outside req.server (joinPath root.text s₁.path) ∧
        ∀ file, servedFile v.outside req.server (joinPath root.text s₁.path) = some file →
          MimeFits v.outside file := by
  by_cases lookup : LookupFits v.outside req.server (joinPath root.text s₁.path)
  case neg =>
    have overrun := handleGetVerb_overflows (v := v) rooted short lookup
    exact iff_of_false (overrun.not_fitting before) fun both => lookup both.1
  cases found : servedFile v.outside req.server (joinPath root.text s₁.path) with
  | some file =>
      rcases handleGetVerb_found (v := v) rooted short lookup found with
        ⟨s₂, fd, looks, full, opened, ran⟩
      rw [ran, serveFile_fitting_iff logged before looks full opened]
      simp [lookup]
  | none =>
      rcases handleGetVerb_unfound (v := v) rooted short lookup found with ⟨s₂, looks, _, ran⟩
      rw [ran]
      refine iff_of_true ?_ ⟨lookup, fun file other => nomatch other⟩
      split
      · exact listing_fitting logged (before.trans looks.copies)
      · exact notFound_fitting logged (before.trans looks.copies)

/-- Behind a request that found nothing, the target and its MIME type have to fit. -/
theorem serveDefaultFile_fitting_iff (logged : Logged req.server) (before : Fitting s s₁)
    (rooted : req.loc.root = some root) (local_ : hasBit req.loc.type typeProxyPass = false)
    (target : Bytes) :
    Fitting s (stateBehind (v.serveDefaultFile (some target) req s₁)) ↔
      (joinPath root.text target).length < 300 ∧
        (v.outside.fs.isDir (joinPath root.text target) ≠ some true →
          v.outside.fs.opens (joinPath root.text target) = true →
          MimeFits v.outside (joinPath root.text target)) := by
  by_cases short : (joinPath root.text target).length < 300
  case neg =>
    have overrun := serveDefaultFile_overflows (v := v) (s := s₁) local_ rooted short
    exact iff_of_false (overrun.not_fitting before) fun both => short both.1
  have copied : Fitting s { s₁ with path := target } := before
  by_cases unserved : v.outside.fs.isDir (joinPath root.text target) = some true ∨
      v.outside.fs.opens (joinPath root.text target) = false
  · rcases serveDefaultFile_unfound (v := v) (s := s₁) local_ rooted short unserved with
      ⟨s₂, looks, ran⟩
    rw [ran]
    have fitting := notFound_fitting (v := v) logged (copied.trans looks.copies)
    refine iff_of_true fitting ⟨short, fun plain opens => ?_⟩
    rcases unserved with dir | fails
    · exact absurd dir plain
    · rw [fails] at opens
      cases opens
  · rcases not_or.mp unserved with ⟨plain, opens⟩
    rw [Bool.not_eq_false] at opens
    rcases serveDefaultFile_found (v := v) (s := s₁) local_ rooted short plain opens with
      ⟨s₂, fd, looks, full, opened, ran⟩
    rw [ran, serveFile_fitting_iff logged copied looks full opened]
    exact ⟨fun mime => ⟨short, fun _ _ => mime⟩, fun both => both.2 plain opens⟩

/-- What has to fit for a request with nothing at its path. -/
def TargetFits (o : Outside) (loc : Location) (root : Bytes) (tryTarget : Option Bytes) : Prop :=
  ∀ target, tryTarget = some target → hasBit loc.type typeProxyPass = false →
    (joinPath root target).length < 300 ∧
      (o.fs.isDir (joinPath root target) ≠ some true → o.fs.opens (joinPath root target) = true →
        MimeFits o (joinPath root target))

theorem serveDefaultFile_fitting (logged : Logged req.server) (before : Fitting s s₁)
    (rooted : req.loc.root = some root) (tryTarget : Option Bytes) :
    Fitting s (stateBehind (v.serveDefaultFile tryTarget req s₁)) ↔
      TargetFits v.outside req.loc root.text tryTarget := by
  cases proxy : hasBit req.loc.type typeProxyPass with
  | true =>
      rw [serveDefaultFile_proxied proxy]
      refine iff_of_true (passUpstream_fitting logged before) fun target _ local_ => ?_
      rw [proxy] at local_
      cases local_
  | false =>
      cases tryTarget with
      | none =>
          refine iff_of_true ?_ fun target none_ => nomatch none_
          simp only [serveDefaultFile, proxy, Bool.false_eq_true, if_false]
          exact before
      | some target =>
          rw [serveDefaultFile_fitting_iff logged before rooted proxy]
          simp [TargetFits, proxy]

theorem tryFiles_fitting_iff (logged : Logged req.server) (before : Fitting s s₁)
    (rooted : req.loc.root = some root) (short : (joinPath root.text s₁.path).length < 300)
    (tries : hasBit req.loc.type typeTryFiles = true)
    (tryTarget : Option Bytes) :
    Fitting s (stateBehind (v.tryFiles tryTarget req s₁)) ↔
      LookupFits v.outside req.server (joinPath root.text s₁.path) ∧
        (∀ file, Served v.outside req.server req.loc (joinPath root.text s₁.path) file →
          MimeFits v.outside file) ∧
        (servedFile v.outside req.server (joinPath root.text s₁.path) = none →
          ¬ (v.outside.fs.isDir (joinPath root.text s₁.path) = some true ∧
            req.server.autoIndex = true) →
          TargetFits v.outside req.loc root.text tryTarget) := by
  by_cases lookup : LookupFits v.outside req.server (joinPath root.text s₁.path)
  case neg =>
    have overrun := tryFiles_overflows (v := v) rooted short tryTarget lookup
    exact iff_of_false (overrun.not_fitting before) fun all => lookup all.1
  cases found : servedFile v.outside req.server (joinPath root.text s₁.path) with
  | some file =>
      rcases tryFiles_found (v := v) rooted short tryTarget lookup found with
        ⟨s₂, fd, looks, full, opened, ran⟩
      rw [ran]
      by_cases passed : v.outside.fs.isDir (joinPath root.text s₁.path) = some true ∧
          hasBit req.loc.type typeProxyPass = true
      · rw [if_pos (by simp [passed])]
        have fitting := passUpstream_fitting (v := v) logged (before.trans looks.copies)
        refine iff_of_true fitting ⟨lookup, fun file served => ?_, fun none_ => nomatch none_⟩
        exact absurd ⟨tries, passed⟩ served.2
      · rw [if_neg (by simpa using passed),
          serveFile_fitting_iff logged before looks full opened]
        constructor
        · intro mime
          refine ⟨lookup, fun other served => ?_, fun none_ => nomatch none_⟩
          obtain rfl := Option.some.inj (found.symm.trans served.1)
          exact mime
        · rintro ⟨_, served, _⟩
          exact served file ⟨found, fun other => passed other.2⟩
  | none =>
      rcases tryFiles_unfound (v := v) rooted short tryTarget lookup found with ⟨s₂, looks, _, ran⟩
      rw [ran]
      by_cases listed : v.outside.fs.isDir (joinPath root.text s₁.path) = some true ∧
          req.server.autoIndex = true
      · rw [if_pos (by simp [listed])]
        have fitting := listing_fitting (v := v) logged (before.trans looks.copies)
        refine iff_of_true fitting ⟨lookup, fun file served => ?_, fun _ unlisted => ?_⟩
        · rw [Served, found] at served
          cases served.1
        · exact absurd listed unlisted
      · rw [if_neg (by simpa using listed),
          serveDefaultFile_fitting logged (before.trans looks.copies) rooted]
        constructor
        · intro fits
          refine ⟨lookup, fun file served => ?_, fun _ _ => fits⟩
          rw [Served, found] at served
          cases served.1
        · exact fun all => all.2.2 rfl listed

theorem handleTryFiles_fitting_iff (logged : Logged req.server) (before : Fitting s s₁)
    (rooted : req.loc.root = some root) (short : (joinPath root.text s₁.path).length < 300)
    (tries : hasBit req.loc.type typeTryFiles = true) :
    Fitting s (stateBehind (v.handleTryFiles req s₁)) ↔
      BuffersFit v.outside req.server req.loc root.text s₁.path := by
  have tried : Fitting s (stateBehind (v.handleTryFiles req s₁)) ↔
      LookupFits v.outside req.server (joinPath root.text s₁.path) ∧
        (∀ file, Served v.outside req.server req.loc (joinPath root.text s₁.path) file →
          MimeFits v.outside file) ∧
        (servedFile v.outside req.server (joinPath root.text s₁.path) = none →
          ¬ (v.outside.fs.isDir (joinPath root.text s₁.path) = some true ∧
            req.server.autoIndex = true) →
          TargetFits v.outside req.loc root.text (checkTryFilesFormat req.loc)) := by
    cases format : checkTryFilesFormat req.loc with
    | some target =>
        rw [handleTryFiles_known format]
        exact tryFiles_fitting_iff logged before rooted short tries (some target)
    | none =>
        rcases notFound_keeps (v := v) (s := s₁) logged with ⟨s₂, ran, _, path, _, copies⟩
        rw [handleTryFiles_unknown format, bind_of_ok ran]
        rw [← path] at short ⊢
        exact tryFiles_fitting_iff logged (before.trans (.of_eq copies)) rooted short tries none
  rw [tried]
  constructor
  · rintro ⟨lookup, served, target⟩
    exact
      { lookup := lookup
        served := served
        target := fun t falls =>
          (target falls.unfound falls.unlisted t falls.format falls.local_).1
        fallback := fun t falls =>
          (target falls.unfound falls.unlisted t falls.format falls.local_).2 }
  · intro fits
    refine ⟨fits.lookup, fits.served, fun unfound unlisted target format local_ => ?_⟩
    have falls : FallsBack v.outside req.server req.loc (joinPath root.text s₁.path) target :=
      ⟨tries, format, local_, unfound, unlisted⟩
    exact ⟨fits.target target falls, fits.fallback target falls⟩

/-! ## Whole requests -/

/-- For a request that stays on the server, the strings fit if and only if all the names that
are used fit. -/
theorem call_fitting_iff (accepted : Accepted v) {text : RequestText} {server : Server}
    {loc : Location} (asks : Asks v text server loc root) (table : List (Nat × Object)) :
    Fitting (v.handed table text)
        (stateBehind (v.call (handlerFor loc) (v.request text server loc) (v.handed table text))) ↔
      (StaysLocal loc → BuffersFit v.outside server loc root.text (cutQuery text.path).1) := by
  have logged : Logged (v.request text server loc).server := accepted.logged server asks.member
  cases handler : handlerFor loc with
  | tryFiles =>
      refine Iff.trans (handleTryFiles_fitting_iff logged (.of_eq rfl) asks.rooted asks.fits
        (handlerFor_eq_tryFiles.mp handler)) ?_
      exact ⟨fun fits _ => fits, fun fits => fits (.inl handler)⟩
  | proxyPass =>
      refine iff_of_true (passUpstream_fitting logged (.of_eq rfl)) fun stays => ?_
      simp [StaysLocal, handler] at stays
  | fastcgiPass =>
      refine iff_of_true (passUpstream_fitting logged (.of_eq rfl)) fun stays => ?_
      simp [StaysLocal, handler] at stays
  | byVerb =>
      have tries := not_tries (by decide) handler
      refine Iff.trans (handleGetVerb_fitting_iff logged (.of_eq rfl) asks.rooted asks.fits)
        ⟨fun both _ => ?_, fun fits => ?_⟩
      · exact
          { lookup := both.1
            served := fun file served => both.2 file served.1
            target := fun target falls => absurd falls.tries tries
            fallback := fun target falls => absurd falls.tries tries }
      · have local_ := fits (.inr handler)
        exact ⟨local_.lookup, fun file found => local_.served file ⟨found, fun all => tries all.1⟩⟩

theorem allFit_iff_fitting {s s' : Handling} (fresh : s.copies = []) :
    AllFit s'.copies ↔ Fitting s s' := by
  simp only [Fitting, fresh, List.nil_append, exists_eq_left']

/-- All strings that are copied while a request is handled fit into their buffers, with their
terminators, if and only if the names do that the request comes to. -/
theorem buffers_fit_iff (accepted : Accepted v) (table : List (Nat × Object)) :
    AllFit (stateBehind (v.processInput (v.start table))).copies ↔
      ∀ text server loc root, Asks v text server loc root → StaysLocal loc →
        BuffersFit v.outside server loc root.text (cutQuery text.path).1 := by
  constructor
  · intro fit text server loc root asks
    rw [processInput_asks asks] at fit
    apply (call_fitting_iff accepted asks table).mp
    exact (allFit_iff_fitting rfl).mp fit
  · intro fits
    have processed := processInput_processed accepted table
    generalize dispatch v.site v.listener v.received = decision at processed
    generalize v.processInput (v.start table) = ran at processed
    cases processed with
    | exits exit p =>
        have answers := sendErrorResponse_answers (v := v) (s := { v.begin_ table with path := p })
          (accepted.logged _ (exit.member accepted))
        exact (allFit_iff_fitting rfl).mpr ((answers _ _ _ _).fitting (.of_eq rfl))
    | asks asks =>
        refine (allFit_iff_fitting rfl).mpr ((call_fitting_iff accepted asks table).mpr ?_)
        exact fits _ _ _ _ asks
    | faults copies =>
        simp only [stateBehind, copies]
        exact allFit_nil

/-- With plain files and short names, everything fits. -/
theorem buffers_fit_iff_plain :
    ∃ s t listener, (tryFile shortTarget).parse loopback = .ok s ∧
      checkServers .permissive s = .ok t ∧ listener ∈ t.serverList ∧
      AllFit (stateBehind ((ofState t listener plainRequest plainFiles).processInput
        ((ofState t listener plainRequest plainFiles).start streams))).copies := by
  rcases tryFile_asks plainFiles (.inl rfl) with ⟨s, t, listener, parsed, accepted, listening, _⟩
  refine ⟨s, t, listener, parsed, accepted, listening, ?_⟩
  apply (buffers_fit_iff (ofState_accepted parsed accepted listening _ _) streams).mpr
  intro text server loc root asks stays
  have unreached : ∀ fullPath target, ¬ FallsBack plainFiles server loc fullPath target :=
    fun fullPath target falls => nomatch falls.unfound
  constructor
  · exact fun dir => nomatch dir
  · exact fun file _ => mimeFits_plainFiles file
  · exact fun target falls => absurd falls (unreached _ target)
  · exact fun target falls => absurd falls (unreached _ target)

/-- A server with an index file of this name. -/
def indexed (name : Bytes) : ConfigFile :=
  { main := []
    first := .upstream backendBlock
    rest :=
      [.server
        [.index name [],
          .location
            { matchType := .prefixMatch
              match_ := bytes "/"
              first := .root (bytes "/srv")
              rest := [] }]] }

/-- A name of 300 bytes for the index file overruns the buffer of its path. -/
theorem index_name_overruns :
    ∃ s t listener, (indexed longTarget).parse loopback = .ok s ∧
      checkServers .permissive s = .ok t ∧ listener ∈ t.serverList ∧
      ¬ AllFit (stateBehind ((ofState t listener plainRequest (directories t.passTo)).processInput
        ((ofState t listener plainRequest (directories t.passTo)).start streams))).copies := by
  have asked : ∃ s t listener, (indexed longTarget).parse loopback = .ok s ∧
      checkServers .permissive s = .ok t ∧ listener ∈ t.serverList ∧
      listener.indexFiles = [longTarget] ∧
      ∃ loc root, Asks (ofState t listener plainRequest (directories t.passTo)) plainText listener
        loc root ∧ root.text = bytes "/srv" ∧ handlerFor loc = .byVerb := by
    refine ⟨_, _, _, rfl, rfl, List.mem_cons_self, rfl, ?_⟩
    exact ⟨_, { text := bytes "/srv", heap := true },
      asks_plainRequest _ rfl rfl rfl rfl (by decide), rfl, rfl⟩
  rcases asked with
    ⟨s, t, listener, parsed, accepted, listening, names, loc, root, asks, root_eq, byVerb⟩
  refine ⟨s, t, listener, parsed, accepted, listening, fun fit => ?_⟩
  rw [processInput_asks asks, allFit_iff_fitting (s := Visit.handed _ streams plainText) rfl,
    call_fitting_iff (ofState_accepted parsed accepted listening _ _) asks] at fit
  have lookup := (fit (.inr byVerb)).lookup rfl
  rw [indexPaths, names, List.map_singleton, indexFits_cons] at lookup
  have whole := length_le_joinPath (joinPath root.text (bytes "/")) longTarget
  have long : longTarget.length = 300 := List.length_replicate
  have short : (joinPath (joinPath root.text (bytes "/")) longTarget).length < 300 := lookup.1
  omega

end Visit

end OgWebserver.Request

import OgWebserver.Request.Processed

/-!
# Two embeddings of the handlers

The handlers with all that they do on the way leave behind the world that the pure handlers
compute: what clients and upstreams see of a request is the same in both, and so is the
memory error that stops it.
-/

namespace OgWebserver.Request

open Text Config Transition

variable {o : Outside} {req : ClientRequest} {w : World} {root : CString} {fullPath file : Bytes}

/-! ## The pure handlers -/

theorem getMimeType_of_fits (fits : MimeFits o file) :
    getMimeType o file = .ok (mimeTypeOf o file) := by
  simp only [getMimeType, mimeTypeOf, strcpy, if_pos fits.1, except_ok_bind]
  cases found : (extension file).bind fun ext => o.mimeTypes.find? (·.1 == ext) with
  | none => rfl
  | some entry => exact if_pos (fits.2 entry found)

theorem getMimeType_of_overrun (overrun : ¬ MimeFits o file) :
    getMimeType o file = .error .outOfBounds := by
  simp only [getMimeType, strcpy]
  by_cases dflt : o.defaultType.length < 256
  · rw [if_pos dflt, except_ok_bind]
    cases found : (extension file).bind fun ext => o.mimeTypes.find? (·.1 == ext) with
    | none =>
        refine absurd ⟨dflt, fun entry here => ?_⟩ overrun
        rw [found] at here
        cases here
    | some entry =>
        refine if_neg fun short => overrun ⟨dflt, fun other here => ?_⟩
        obtain rfl := Option.some.inj (found.symm.trans here)
        exact short
  · rw [if_neg dflt]
    rfl

theorem openDefaultIndexFile_of_overrun (indexFiles : List Bytes)
    (overrun : ¬ IndexFits o (indexFiles.map (joinPath fullPath))) :
    openDefaultIndexFile o fullPath indexFiles = .error .outOfBounds := by
  induction indexFiles with
  | nil =>
      refine absurd (fun tried path rest split => ?_) overrun
      simp at split
  | cons indexFile rest ih =>
      rw [List.map_cons, indexFits_cons] at overrun
      rw [openDefaultIndexFile, strcpy]
      by_cases short : (joinPath fullPath indexFile).length < 300
      · have fails : ¬ o.fs.opens (joinPath fullPath indexFile) = true :=
          fun opens => overrun ⟨short, fun closed => by rw [opens] at closed; cases closed⟩
        rw [if_pos short, except_ok_bind, if_neg fails]
        exact ih fun later => overrun ⟨short, fun _ => later⟩
      · rw [if_neg short]
        rfl

theorem lookUp_of_fits {server : Server} (fits : LookupFits o server fullPath) :
    lookUp o server fullPath = .ok (servedFile o server fullPath) :=
  (lookUp_eq_ok_iff server fullPath _).mpr ⟨fits, rfl⟩

/-- Only in a directory index files are looked for. -/
theorem lookUp_of_overrun {server : Server} (overrun : ¬ LookupFits o server fullPath) :
    lookUp o server fullPath = .error .outOfBounds := by
  have dir : o.fs.isDir fullPath = some true := by
    by_contra other
    exact overrun fun here => absurd here other
  simp only [lookUp, dir]
  exact openDefaultIndexFile_of_overrun server.indexFiles fun fits => overrun fun _ => fits

theorem sendErrorResponse_of_logged (logged : Logged req.server) (code : Nat)
    (msg path : Bytes) :
    sendErrorResponse req code msg path w = .ok (w.emit (.respond (.error code msg))) := by
  rw [sendErrorResponse, errorResponse_of_log logged.names logged.errorLog, except_ok_bind]

/-! ## The same world behind both -/

variable {s s₁ : Handling} {ran : Ran}

theorem Answers.outcome_eq {table : List (Nat × Object)} {response : Response} {record : Bytes}
    (answers : Answers s table response record ran) :
    outcome (·.world) ran = .ok (s.world.emit (.respond response)) := by
  rcases answers with ⟨s', log, rfl, world, _⟩
  exact congrArg _ world

theorem Overflows.outcome_eq (overrun : Overflows s ran) :
    outcome (·.world) ran = .error .outOfBounds := by
  rcases overrun with ⟨s', rfl, _⟩
  rfl

namespace Visit

variable {v : Visit}

theorem notFound_agrees (logged : Logged req.server) (path : Bytes) :
    outcome (·.world) (v.notFound req s) =
      Request.sendErrorResponse req 404 (bytes "Not Found") path s.world := by
  rw [sendErrorResponse_of_logged logged]
  exact (notFound_answers logged).outcome_eq

theorem listing_agrees (logged : Logged req.server) :
    outcome (·.world) (v.showDirectoryListing req s) =
      Request.showDirectoryListing v.outside req s.fullPath s.world := by
  have answers := @showDirectoryListing_answers s v req logged
  rw [Request.showDirectoryListing]
  cases listed : v.outside.fs.entries s.fullPath with
  | none =>
      rw [listed] at answers
      dsimp only
      rw [sendErrorResponse_of_logged logged]
      exact answers.outcome_eq
  | some entries =>
      rw [listed] at answers
      exact answers.outcome_eq

theorem serveFile_agrees (logged : Logged req.server) {fd : Nat}
    (looks : Looks s s₁ [(fd, .file file)]) (full : s₁.fullPath = file)
    (opened : s₁.localFd = some fd) :
    outcome (·.world) (v.serveFile req s₁) = Request.serveFile v.outside req file s.world := by
  rw [Request.serveFile]
  by_cases mime : MimeFits v.outside file
  · rw [getMimeType_of_fits mime, except_ok_bind]
    exact (serveFile_behind logged looks full opened mime).outcome_eq
  · rw [getMimeType_of_overrun mime, except_error_bind]
    exact (serveFile_overflows_behind looks full mime).outcome_eq

theorem handleGetVerb_agrees (logged : Logged req.server) (rooted : req.loc.root = some root)
    (short : (joinPath root.text s.path).length < 300) (same : s.path = req.path) :
    outcome (·.world) (v.handleGetVerb req s) =
      Request.handleGetVerb v.outside req s.world := by
  rw [handleGetVerb_eq_lookUp rooted (same ▸ short), ← same]
  by_cases lookup : LookupFits v.outside req.server (joinPath root.text s.path)
  case neg =>
    rw [lookUp_of_overrun lookup, except_error_bind]
    exact (handleGetVerb_overflows rooted short lookup).outcome_eq
  rw [lookUp_of_fits lookup, except_ok_bind]
  cases found : servedFile v.outside req.server (joinPath root.text s.path) with
  | some file =>
      rcases handleGetVerb_found (v := v) rooted short lookup found with
        ⟨s₁, fd, looks, full, opened, ran⟩
      rw [ran, serveFile_agrees logged looks full opened]
  | none =>
      rcases handleGetVerb_unfound (v := v) rooted short lookup found with
        ⟨s₁, looks, full, ran⟩
      rw [ran, ← full, ← looks.world]
      split
      · exact listing_agrees logged
      · exact notFound_agrees logged _

theorem serveDefaultFile_agrees (logged : Logged req.server) (rooted : req.loc.root = some root)
    (tryTarget : Option Bytes) :
    outcome (·.world) (v.serveDefaultFile tryTarget req s) =
      Request.serveDefaultFile v.outside tryTarget req s.world := by
  cases proxy : hasBit req.loc.type typeProxyPass with
  | true =>
      simp only [serveDefaultFile_proxied proxy, Request.serveDefaultFile, proxy, if_true]
      exact (passUpstream_passed logged).world
  | false =>
      cases tryTarget with
      | none =>
          simp only [serveDefaultFile, Request.serveDefaultFile, proxy, Bool.false_eq_true,
            if_false]
          rfl
      | some target =>
          simp only [Request.serveDefaultFile, proxy, Bool.false_eq_true, if_false]
          rw [pathExists_eq rooted]
          by_cases short : (joinPath root.text target).length < 300
          case neg =>
            rw [if_neg short, except_error_bind]
            exact (serveDefaultFile_overflows proxy rooted short).outcome_eq
          rw [if_pos short, except_ok_bind]
          by_cases unserved : v.outside.fs.isDir (joinPath root.text target) = some true ∨
              v.outside.fs.opens (joinPath root.text target) = false
          · rcases serveDefaultFile_unfound (v := v) (s := s) proxy rooted short unserved with
              ⟨s₁, looks, ran⟩
            have world : s₁.world = s.world := looks.world
            rw [ran, ← world]
            have notFound := notFound_agrees (v := v) (s := s₁) logged target
            by_cases dir : v.outside.fs.isDir (joinPath root.text target) = some true
            · rw [if_pos dir]
              exact notFound
            · have closed := unserved.resolve_left dir
              rw [if_neg dir, if_neg (by simp [closed])]
              exact notFound
          · rcases not_or.mp unserved with ⟨plain, opens⟩
            rw [Bool.not_eq_false] at opens
            rcases serveDefaultFile_found (v := v) (s := s) proxy rooted short plain opens with
              ⟨s₁, fd, looks, full, opened, ran⟩
            have served := serveFile_agrees (v := v) (s := { s with path := target }) logged looks
              full opened
            rw [ran, if_neg plain, if_pos opens]
            exact served

theorem tryFiles_agrees (logged : Logged req.server) (rooted : req.loc.root = some root)
    (short : (joinPath root.text s.path).length < 300) (same : s.path = req.path)
    (tryTarget : Option Bytes) :
    outcome (·.world) (v.tryFiles tryTarget req s) =
      Request.tryFiles v.outside tryTarget req s.world := by
  rw [tryFiles_eq_lookUp rooted (same ▸ short), ← same]
  by_cases lookup : LookupFits v.outside req.server (joinPath root.text s.path)
  case neg =>
    rw [lookUp_of_overrun lookup, except_error_bind]
    exact (tryFiles_overflows rooted short tryTarget lookup).outcome_eq
  rw [lookUp_of_fits lookup, except_ok_bind]
  cases found : servedFile v.outside req.server (joinPath root.text s.path) with
  | some file =>
      rcases tryFiles_found (v := v) rooted short tryTarget lookup found with
        ⟨s₁, fd, looks, full, opened, ran⟩
      rw [ran]
      split
      · rw [← looks.world]
        exact (passUpstream_passed logged).world
      · exact serveFile_agrees logged looks full opened
  | none =>
      rcases tryFiles_unfound (v := v) rooted short tryTarget lookup found with
        ⟨s₁, looks, full, ran⟩
      rw [ran, ← full, ← looks.world]
      split
      · exact listing_agrees logged
      · exact serveDefaultFile_agrees logged rooted tryTarget

theorem handleTryFiles_agrees (logged : Logged req.server) (rooted : req.loc.root = some root)
    (short : (joinPath root.text s.path).length < 300) (same : s.path = req.path) :
    outcome (·.world) (v.handleTryFiles req s) =
      Request.handleTryFiles v.outside req s.world := by
  rw [Request.handleTryFiles]
  cases format : checkTryFilesFormat req.loc with
  | some target =>
      rw [handleTryFiles_known format]
      exact tryFiles_agrees logged rooted short same (some target)
  | none =>
      rcases notFound_keeps (v := v) (s := s) logged with ⟨s₁, ran, world, path, _⟩
      rw [handleTryFiles_unknown format, bind_of_ok ran]
      dsimp only
      rw [sendErrorResponse_of_logged logged, except_ok_bind, ← world]
      rw [← path] at short same
      exact tryFiles_agrees logged rooted short same none

/-- The handler of a location leaves the world behind that the pure handler computes. -/
theorem call_agrees (logged : Logged req.server) (rooted : req.loc.root = some root)
    (short : (joinPath root.text s.path).length < 300) (same : s.path = req.path)
    (handler : Handler) :
    outcome (·.world) (v.call handler req s) = handler.call v.outside req s.world := by
  cases handler with
  | tryFiles => exact handleTryFiles_agrees logged rooted short same
  | proxyPass => exact (passUpstream_passed logged).world
  | fastcgiPass => exact (passUpstream_passed logged).world
  | byVerb => exact handleGetVerb_agrees logged rooted short same

/-- In every accepted configuration a request comes to the same, with all that is done on the
way and without. -/
theorem processInput_agrees (accepted : Accepted v) (table : List (Nat × Object)) :
    outcome (·.world) (v.processInput (v.start table)) =
      Request.processInput v.site v.outside v.listener v.received
        { upstreams := v.upstreams, events := [] } := by
  have processed := processInput_processed accepted table
  rw [Request.processInput]
  generalize dispatch v.site v.listener v.received = decision at processed
  generalize v.processInput (v.start table) = ran at processed
  cases processed with
  | exits exit p =>
      have logged := accepted.logged _ (exit.member accepted)
      exact (sendErrorResponse_answers logged _ _ _ _).outcome_eq
  | asks asks =>
      exact call_agrees (accepted.logged _ asks.member) asks.rooted asks.fits rfl _
  | faults => rfl

end Visit

end OgWebserver.Request

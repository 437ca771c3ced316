import OgWebserver.Request.Handlers
import OgWebserver.Request.Soundness

/-!
# Responses to a request

A request should get one response.  Every handler is a tree of early returns
with a response at most leaves; the file counts the responses on each path and
determines which requests get exactly one.
-/

namespace OgWebserver.Request

open Text Config Transition

def Event.isResponse : Event → Bool
  | .respond _ => true
  | .forward .. => false

/-- Number of responses sent so far. -/
def World.responses (w : World) : Nat :=
  w.events.countP Event.isResponse

/-- The handler returns, and has sent `n` responses more. -/
def Sends (w : World) (n : Nat) (result : Except Fault World) : Prop :=
  ∃ after, result = .ok after ∧ after.responses = w.responses + n

variable {o : Outside} {req : ClientRequest} {w : World} {n : Nat}

@[simp]
theorem responses_respond (response : Response) :
    (w.emit (.respond response)).responses = w.responses + 1 := by
  simp [World.emit, World.responses, Event.isResponse]

@[simp]
theorem responses_forward (address : SockAddr) (sends : List Bytes) :
    (w.emit (.forward address sends)).responses = w.responses := by
  simp [World.emit, World.responses, Event.isResponse]

@[simp]
theorem responses_upstreams (upstreams : List Upstreams) :
    ({ w with upstreams := upstreams } : World).responses = w.responses :=
  rfl

theorem sends_ok_iff {after : World} :
    Sends w n (.ok after) ↔ after.responses = w.responses + n := by
  simp [Sends]

theorem not_sends_error {fault : Fault} : ¬ Sends w n (.error fault) := by
  simp [Sends]

theorem sends_respond_iff {response : Response} :
    Sends w n (.ok (w.emit (.respond response))) ↔ n = 1 := by
  rw [sends_ok_iff, responses_respond]
  omega

/-- Sequencing behind a step that sends nothing. -/
theorem sends_bind_iff {α : Type} {first : Except Fault α} {second : α → Except Fault World} :
    Sends w n (first >>= second) ↔ ∃ a, first = .ok a ∧ Sends w n (second a) := by
  constructor
  · rintro ⟨after, ran, count⟩
    rcases bind_eq_ok_iff.mp ran with ⟨a, one, more⟩
    exact ⟨a, one, after, more, count⟩
  · rintro ⟨a, one, after, more, count⟩
    exact ⟨after, bind_eq_ok_iff.mpr ⟨a, one, more⟩, count⟩

/-! ## Local files -/

theorem sends_error_iff (complete : Complete req.server) (code : Nat) (msg path : Bytes) :
    Sends w n (sendErrorResponse req code msg path w) ↔ n = 1 := by
  rw [sendErrorResponse, sends_bind_iff, errorResponse_of_complete complete]
  simp [sends_respond_iff]

/-- The MIME type of a file fits its buffer. -/
def MimeFits (o : Outside) (name : Bytes) : Prop :=
  o.defaultType.length < 256 ∧
    ∀ entry, (extension name).bind (fun ext => o.mimeTypes.find? (·.1 == ext)) = some entry →
      entry.2.length < 256

theorem strcpy_eq_ok_iff {size : Nat} {text copy : Bytes} :
    strcpy size text = .ok copy ↔ text.length < size ∧ copy = text := by
  simp only [strcpy]
  split <;> simp_all [eq_comm]

theorem getMimeType_ok_iff (name : Bytes) :
    (∃ mimeType, getMimeType o name = .ok mimeType) ↔ MimeFits o name := by
  simp only [getMimeType, bind_eq_ok_iff, strcpy_eq_ok_iff, MimeFits]
  cases (extension name).bind fun ext => o.mimeTypes.find? (·.1 == ext) with
  | none => simp
  | some entry => simp [strcpy_eq_ok_iff]

theorem sends_serveFile_iff (fullPath : Bytes) :
    Sends w n (serveFile o req fullPath w) ↔ n = 1 ∧ MimeFits o fullPath := by
  rw [serveFile, sends_bind_iff, ← getMimeType_ok_iff]
  simp [sends_respond_iff, and_comm]

theorem sends_listing_iff (complete : Complete req.server) (fullPath : Bytes) :
    Sends w n (showDirectoryListing o req fullPath w) ↔ n = 1 := by
  simp only [showDirectoryListing]
  cases o.fs.entries fullPath with
  | none => exact sends_error_iff complete _ _ _
  | some entries => exact sends_respond_iff

theorem pathExists_eq {root : CString} (rooted : req.loc.root = some root) (path : Bytes) :
    pathExists o req path =
      if (joinPath root.text path).length < 300 then
        .ok (joinPath root.text path, o.fs.isDir (joinPath root.text path))
      else .error .outOfBounds := by
  simp only [pathExists, rooted, strcpy]
  split <;> rfl

/-- The index files of a directory, as full paths. -/
def indexPaths (server : Server) (fullPath : Bytes) : List Bytes :=
  server.indexFiles.map (joinPath fullPath)

/-- The paths of index files fit their buffer as far as they are tried. -/
def IndexFits (o : Outside) (paths : List Bytes) : Prop :=
  ∀ tried path rest, paths = tried ++ path :: rest → (∀ p ∈ tried, o.fs.opens p = false) →
    path.length < 300

theorem indexFits_cons (path : Bytes) (rest : List Bytes) :
    IndexFits o (path :: rest) ↔
      path.length < 300 ∧ (o.fs.opens path = false → IndexFits o rest) := by
  constructor
  · intro fits
    refine ⟨fits [] path rest rfl (by simp), fun closed tried other more split shut => ?_⟩
    apply fits (path :: tried) other more (by rw [split]; rfl)
    exact List.forall_mem_cons.mpr ⟨closed, shut⟩
  · rintro ⟨first, later⟩ tried other more split shut
    cases tried with
    | nil =>
        rcases List.cons.inj split with ⟨rfl, _⟩
        exact first
    | cons p tried =>
        rcases List.cons.inj split with ⟨rfl, rest_eq⟩
        rcases List.forall_mem_cons.mp shut with ⟨closed, shut⟩
        exact later closed tried other more rest_eq shut

theorem openDefaultIndexFile_eq_ok_iff (fullPath : Bytes) (indexFiles : List Bytes)
    (found : Option Bytes) :
    openDefaultIndexFile o fullPath indexFiles = .ok found ↔
      IndexFits o (indexFiles.map (joinPath fullPath)) ∧
        found = (indexFiles.map (joinPath fullPath)).find? o.fs.opens := by
  induction indexFiles with
  | nil =>
      have fits : IndexFits o [] := by
        intro tried path rest split
        simp at split
      rw [openDefaultIndexFile]
      exact ⟨fun same => ⟨fits, (Except.ok.inj same).symm⟩, fun both => congrArg _ both.2.symm⟩
  | cons indexFile rest ih =>
      rw [openDefaultIndexFile, bind_eq_ok_iff, List.map_cons, indexFits_cons, List.find?_cons]
      simp only [strcpy_eq_ok_iff]
      cases opened : o.fs.opens (joinPath fullPath indexFile) with
      | true => simp [opened, eq_comm]
      | false => simp [opened, ih, and_assoc]

theorem openServerIndex_eq_ok_iff (server : Server) (fullPath : Bytes) (found : Option Bytes) :
    openDefaultIndexFile o fullPath server.indexFiles = .ok found ↔
      IndexFits o (indexPaths server fullPath) ∧
        found = (indexPaths server fullPath).find? o.fs.opens :=
  openDefaultIndexFile_eq_ok_iff fullPath server.indexFiles found

/-! ## The verb handler -/

/-- The local file that a path leads to. -/
def servedFile (o : Outside) (server : Server) (fullPath : Bytes) : Option Bytes :=
  match o.fs.isDir fullPath with
  | none => none
  | some true => (indexPaths server fullPath).find? o.fs.opens
  | some false => if o.fs.opens fullPath then some fullPath else none

theorem servedFile_missing {server : Server} {fullPath : Bytes}
    (dir : o.fs.isDir fullPath = none) : servedFile o server fullPath = none := by
  simp only [servedFile, dir]

theorem servedFile_plain {server : Server} {fullPath : Bytes}
    (dir : o.fs.isDir fullPath = some false) :
    servedFile o server fullPath = if o.fs.opens fullPath then some fullPath else none := by
  simp only [servedFile, dir]

theorem servedFile_directory {server : Server} {fullPath : Bytes}
    (dir : o.fs.isDir fullPath = some true) :
    servedFile o server fullPath = (indexPaths server fullPath).find? o.fs.opens := by
  simp only [servedFile, dir]

/-- The names of index files fit their buffer where they are looked for. -/
def LookupFits (o : Outside) (server : Server) (fullPath : Bytes) : Prop :=
  o.fs.isDir fullPath = some true → IndexFits o (indexPaths server fullPath)

/-- What `handleGetVerb` and `tryFiles` look for first, with the names of index files copied. -/
def lookUp (o : Outside) (server : Server) (fullPath : Bytes) : Except Fault (Option Bytes) :=
  match o.fs.isDir fullPath with
  | none => .ok none
  | some true => openDefaultIndexFile o fullPath server.indexFiles
  | some false => .ok (if o.fs.opens fullPath then some fullPath else none)

theorem lookUp_eq_ok_iff (server : Server) (fullPath : Bytes) (found : Option Bytes) :
    lookUp o server fullPath = .ok found ↔
      LookupFits o server fullPath ∧ found = servedFile o server fullPath := by
  cases dir : o.fs.isDir fullPath with
  | none => simp [lookUp, LookupFits, dir, servedFile_missing dir, @eq_comm _ found]
  | some isDir =>
      cases isDir with
      | false => simp [lookUp, LookupFits, dir, servedFile_plain dir, @eq_comm _ found]
      | true =>
          simp only [lookUp, LookupFits, dir, servedFile_directory dir, forall_const]
          exact openServerIndex_eq_ok_iff server fullPath found

section Lookup

variable {root : CString} (rooted : req.loc.root = some root)
  (short : (joinPath root.text req.path).length < 300)

include rooted short

theorem handleGetVerb_eq_lookUp : handleGetVerb o req w = (do
    match ← lookUp o req.server (joinPath root.text req.path) with
    | some file => serveFile o req file w
    | none =>
        if o.fs.isDir (joinPath root.text req.path) == some true && req.server.autoIndex then
          showDirectoryListing o req (joinPath root.text req.path) w
        else sendErrorResponse req 404 (bytes "Not Found") req.path w) := by
  simp only [handleGetVerb, pathExists_eq rooted, if_pos short, except_ok_bind, lookUp]
  cases dir : o.fs.isDir (joinPath root.text req.path) with
  | none => rfl
  | some isDir =>
      cases isDir with
      | false => cases o.fs.opens (joinPath root.text req.path) <;> rfl
      | true => rfl

theorem tryFiles_eq_lookUp (tryTarget : Option Bytes) : tryFiles o tryTarget req w = (do
    match ← lookUp o req.server (joinPath root.text req.path) with
    | some file =>
        -- an index file goes to the upstream too
        if o.fs.isDir (joinPath root.text req.path) == some true &&
            hasBit req.loc.type typeProxyPass then
          handleProxyPass o req w
        else serveFile o req file w
    | none =>
        if o.fs.isDir (joinPath root.text req.path) == some true && req.server.autoIndex then
          showDirectoryListing o req (joinPath root.text req.path) w
        else serveDefaultFile o tryTarget req w) := by
  simp only [tryFiles, pathExists_eq rooted, if_pos short, except_ok_bind, lookUp]
  cases dir : o.fs.isDir (joinPath root.text req.path) with
  | none => rfl
  | some isDir =>
      cases isDir with
      | false => cases o.fs.opens (joinPath root.text req.path) <;> rfl
      | true =>
          refine bind_congr fun found => ?_
          cases found <;> rfl

end Lookup

/-- `handleGetVerb` always sends one response, if no buffer is overrun. -/
theorem sends_handleGetVerb_iff (complete : Complete req.server) {root : CString}
    (rooted : req.loc.root = some root) (short : (joinPath root.text req.path).length < 300) :
    Sends w n (handleGetVerb o req w) ↔
      n = 1 ∧ LookupFits o req.server (joinPath root.text req.path) ∧
        ∀ path, servedFile o req.server (joinPath root.text req.path) = some path →
          MimeFits o path := by
  rw [handleGetVerb_eq_lookUp rooted short, sends_bind_iff]
  simp only [lookUp_eq_ok_iff, and_assoc, exists_and_left, exists_eq_left]
  cases servedFile o req.server (joinPath root.text req.path) with
  | none =>
      dsimp only
      split
      · simp [sends_listing_iff complete, and_comm]
      · simp [sends_error_iff complete, and_comm]
  | some path => simp [sends_serveFile_iff, and_left_comm]

/-! ## Upstreams -/

/-- How many responses a request that goes to the upstream gets, if any number. -/
def UpstreamSends (o : Outside) (upstreams : List Upstreams) (loc : Location) (n : Nat) : Prop :=
  ∃ chosen, chooseUpstream upstreams o.passTo loc = .ok chosen ∧
    match chosen.map fun choice => o.connect choice.1 with
    | some (.connected (first :: _)) => n = 1 ∧ HasStatus first
    | _ => n = 0

theorem delivered_isEmpty (first : Bytes) (rest : List Bytes) :
    (delivered (first :: rest)).isEmpty = false := by
  simp only [delivered]
  split <;> rfl

theorem sends_passUpstream_iff :
    Sends w n (passUpstream o req w) ↔ UpstreamSends o w.upstreams req.loc n := by
  rw [passUpstream, sends_bind_iff, UpstreamSends]
  refine exists_congr fun chosen => and_congr_right fun _ => ?_
  cases chosen with
  | none => simp [sends_ok_iff]
  | some choice =>
      rcases choice with ⟨address, upstreams⟩
      simp only [Option.map_some]
      cases o.connect address with
      | socketFails => simp [sends_ok_iff]
      | connectFails => simp [sends_ok_iff]
      | connected pieces =>
          simp only [sends_bind_iff]
          cases pieces with
          | nil => simp [relayResponse, relay, sends_ok_iff]
          | cons first rest =>
              have ok : (∃ done, relayResponse (first :: rest) = .ok done) ↔ HasStatus first := by
                rw [relayResponse_cons, ← statusCode_ok_iff]
                cases statusCode first <;> simp [Except.map]
              have answered : ∀ done, relayResponse (first :: rest) = .ok done →
                  done.sent.isEmpty = false := by
                intro done ran
                rw [relayResponse_cons] at ran
                cases code : statusCode first with
                | error fault => rw [code] at ran; cases ran
                | ok value =>
                    rw [code] at ran
                    obtain rfl := Except.ok.inj ran
                    exact delivered_isEmpty first rest
              dsimp only
              rw [← ok]
              constructor
              · rintro ⟨done, ran, sent⟩
                rw [answered done ran] at sent
                simp only [Bool.false_eq_true, if_false, sends_ok_iff, responses_respond,
                  responses_forward, responses_upstreams] at sent
                exact ⟨by omega, done, ran⟩
              · rintro ⟨rfl, done, ran⟩
                refine ⟨done, ran, ?_⟩
                rw [answered done ran]
                simp [sends_ok_iff]

/-! ## `try_files` -/

/-- No file and no listing: the default file is served, or the upstream asked. -/
def fallsBack (o : Outside) (server : Server) (fullPath : Bytes) : Bool :=
  (servedFile o server fullPath).isNone && !(o.fs.isDir fullPath == some true && server.autoIndex)

/-- The request goes to the upstream: with the bit of a `proxy_pass`, where there
is no file, and where there is an index file. -/
def proxied (o : Outside) (server : Server) (loc : Location) (fullPath : Bytes) : Bool :=
  hasBit loc.type typeProxyPass &&
    (fallsBack o server fullPath ||
      o.fs.isDir fullPath == some true && (servedFile o server fullPath).isSome)

/-- The path of the default file and its MIME type fit their buffers. -/
def DefaultFits (o : Outside) (root target : Bytes) : Prop :=
  (joinPath root target).length < 300 ∧
    (o.fs.isDir (joinPath root target) ≠ some true → o.fs.opens (joinPath root target) →
      MimeFits o (joinPath root target))

theorem sends_serveDefaultFile_iff (complete : Complete req.server) {root : CString}
    (rooted : req.loc.root = some root) (tryTarget : Option Bytes) :
    Sends w n (serveDefaultFile o tryTarget req w) ↔
      if hasBit req.loc.type typeProxyPass then UpstreamSends o w.upstreams req.loc n
      else n = 1 ∧ ∃ target, tryTarget = some target ∧ DefaultFits o root.text target := by
  unfold serveDefaultFile
  cases hasBit req.loc.type typeProxyPass with
  | true => exact sends_passUpstream_iff
  | false =>
      simp only [Bool.false_eq_true, if_false]
      cases tryTarget with
      | none => simp [not_sends_error]
      | some target =>
          simp only [Option.some.injEq, exists_eq_left', DefaultFits]
          rw [pathExists_eq rooted]
          by_cases fits : (joinPath root.text target).length < 300
          · rw [if_pos fits, sends_bind_iff]
            simp only [Except.ok.injEq, exists_eq_left', fits, true_and]
            by_cases dir : o.fs.isDir (joinPath root.text target) = some true
            · simp [dir, @sends_error_iff { req with path := target } w n complete]
            · simp only [dir, if_false]
              cases o.fs.opens (joinPath root.text target) with
              | true => simp [sends_serveFile_iff, dir]
              | false => simp [@sends_error_iff { req with path := target } w n complete]
          · rw [if_neg fits]
            simp [fits, sends_bind_iff]

theorem sends_tryFiles_iff (complete : Complete req.server) {root : CString}
    (rooted : req.loc.root = some root) (short : (joinPath root.text req.path).length < 300)
    (tryTarget : Option Bytes) :
    Sends w n (tryFiles o tryTarget req w) ↔
      LookupFits o req.server (joinPath root.text req.path) ∧
        if proxied o req.server req.loc (joinPath root.text req.path) then
          UpstreamSends o w.upstreams req.loc n
        else
          n = 1 ∧
            (∀ path, servedFile o req.server (joinPath root.text req.path) = some path →
              MimeFits o path) ∧
            (fallsBack o req.server (joinPath root.text req.path) →
              ∃ target, tryTarget = some target ∧ DefaultFits o root.text target) := by
  rw [tryFiles_eq_lookUp rooted short, sends_bind_iff]
  simp only [lookUp_eq_ok_iff, and_assoc, exists_and_left, exists_eq_left]
  apply and_congr_right
  intro _
  have default_ := @sends_serveDefaultFile_iff o req w n complete root rooted tryTarget
  cases found : servedFile o req.server (joinPath root.text req.path) with
  | none =>
      dsimp only
      split
      case isTrue listed => simp [proxied, fallsBack, found, listed, sends_listing_iff complete]
      case isFalse unlisted =>
        cases proxy : hasBit req.loc.type typeProxyPass <;>
          simp [default_, proxied, fallsBack, found, unlisted, proxy]
  | some path =>
      have asks : proxied o req.server req.loc (joinPath root.text req.path) =
          (o.fs.isDir (joinPath root.text req.path) == some true &&
            hasBit req.loc.type typeProxyPass) := by
        simp [proxied, fallsBack, found, Bool.and_comm]
      rw [asks]
      dsimp only
      split
      · exact sends_passUpstream_iff
      · simp [fallsBack, found, sends_serveFile_iff]

/-- Behind a response, the count starts again. -/
theorem sends_behind_response {response : Response} {result : Except Fault World} :
    Sends w (n + 1) result ↔ Sends (w.emit (.respond response)) n result := by
  simp only [Sends, responses_respond, Nat.add_assoc, Nat.add_comm 1 n]

/-- The condition under which a `try_files` request gets one response: no buffer is
overrun, and an upstream that is asked answers if the format is known, and stays
silent if the error response to an unknown format has already been sent. -/
def TryAnswered (o : Outside) (upstreams : List Upstreams) (server : Server) (loc : Location)
    (root fullPath : Bytes) : Prop :=
  LookupFits o server fullPath ∧
    if proxied o server loc fullPath then
      UpstreamSends o upstreams loc (if (checkTryFilesFormat loc).isSome then 1 else 0)
    else
      ∃ target, checkTryFilesFormat loc = some target ∧
        (∀ path, servedFile o server fullPath = some path → MimeFits o path) ∧
        (fallsBack o server fullPath → DefaultFits o root target)

theorem sends_handleTryFiles_iff (complete : Complete req.server) {root : CString}
    (rooted : req.loc.root = some root) (short : (joinPath root.text req.path).length < 300) :
    Sends w 1 (handleTryFiles o req w) ↔
      TryAnswered o w.upstreams req.server req.loc root.text (joinPath root.text req.path) := by
  simp only [handleTryFiles, TryAnswered]
  cases format : checkTryFilesFormat req.loc with
  | some target => simp [sends_tryFiles_iff complete rooted short]
  | none =>
      have sent : sendErrorResponse req 404 (bytes "Not Found") req.path w =
          .ok (w.emit (.respond (.error 404 (bytes "Not Found")))) := by
        rw [sendErrorResponse, errorResponse_of_complete complete]
        rfl
      rw [sent, sends_bind_iff]
      simp only [Except.ok.injEq, exists_eq_left', Option.isSome_none, Bool.false_eq_true, if_false]
      rw [sends_behind_response, sends_tryFiles_iff complete rooted short]
      apply and_congr_right
      intro _
      simp [World.emit]

/-! ## Whole requests -/

/-- The request is for the server and the location, and not too long for them. -/
structure Handed (site : Site) (text : RequestText) (server : Server) (loc : Location)
    (root : CString) : Prop where
  found : ∃ i, getServerForHost site.isDefaultServer site.servers text.host = .ok (some i) ∧
    site.servers[i]? = some server
  located : getDocRoot site.regexMatch server (cutQuery text.path).1 = some loc
  rooted : loc.root = some root
  short : root.text.length + (cutQuery text.path).1.length ≤ maxLen

/-- The condition under which the handler sends one response. -/
def Answered (o : Outside) (upstreams : List Upstreams) (server : Server) (loc : Location)
    (verb root fullPath : Bytes) : Prop :=
  match handlerFor loc with
  | .tryFiles => TryAnswered o upstreams server loc root fullPath
  | .proxyPass | .fastcgiPass => UpstreamSends o upstreams loc 1
  | .byVerb =>
      verb = bytes "GET" ∨ verb = bytes "HEAD" →
        LookupFits o server fullPath ∧
          ∀ path, servedFile o server fullPath = some path → MimeFits o path

theorem length_joinPath_le (first second : Bytes) :
    (joinPath first second).length ≤ first.length + second.length + 1 := by
  simp only [joinPath]
  have slash : (bytes "/").length = 1 := by decide
  split <;> simp only [List.length_append] <;> omega

/-- Error responses outside the handlers are single responses. -/
theorem sends_carryOut_error {server : Server} (complete : Complete server) (code : Nat)
    (msg path : Bytes) :
    Sends w 1 (errorResponse (some server) code msg path >>= Decision.carryOut o w) := by
  rw [errorResponse_of_complete complete]
  exact sends_respond_iff.mpr rfl

theorem sends_chooseHandler_iff (complete : Complete req.server) {root : CString}
    (rooted : req.loc.root = some root) :
    Sends w 1 (chooseHandler req root.text >>= Decision.carryOut o w) ↔
      (root.text.length + req.path.length ≤ maxLen →
        Answered o w.upstreams req.server req.loc req.verb root.text
          (joinPath root.text req.path)) := by
  unfold chooseHandler
  by_cases long : maxLen < root.text.length + req.path.length
  · rw [if_pos long]
    exact iff_of_true (sends_carryOut_error complete _ _ _)
      fun short => absurd short (Nat.not_le.mpr long)
  · have short := Nat.not_lt.mp long
    have fits : (joinPath root.text req.path).length < 300 := by
      have bound := length_joinPath_le root.text req.path
      simp only [maxLen] at short
      omega
    rw [if_neg long]
    simp only [short, forall_const, Answered]
    cases handler : handlerFor req.loc with
    | tryFiles => exact sends_handleTryFiles_iff complete rooted fits
    | proxyPass => exact sends_passUpstream_iff
    | fastcgiPass => exact sends_passUpstream_iff
    | byVerb =>
        by_cases verb : req.verb = bytes "GET" ∨ req.verb = bytes "HEAD"
        · simp only [ne_eq, not_true_eq_false, if_false, verb, if_true, forall_const]
          exact (sends_handleGetVerb_iff complete rooted fits).trans (and_iff_right rfl)
        · simp only [ne_eq, not_true_eq_false, if_false, verb, false_imp_iff, iff_true]
          exact sends_carryOut_error complete _ _ _

theorem sends_routeTo_iff {server : Server} (complete : Complete server)
    (regexMatch : Bytes → Bytes → Bool) (headers : Bytes) (text : RequestText) :
    Sends w 1 (routeTo regexMatch server headers text >>= Decision.carryOut o w) ↔
      ∀ loc root, getDocRoot regexMatch server (cutQuery text.path).1 = some loc →
        loc.root = some root →
        root.text.length + (cutQuery text.path).1.length ≤ maxLen →
        Answered o w.upstreams server loc text.verb root.text
          (joinPath root.text (cutQuery text.path).1) := by
  simp only [routeTo]
  cases located : getDocRoot regexMatch server (cutQuery text.path).1 with
  | none => simpa using sends_carryOut_error complete _ _ _
  | some loc =>
      cases rooted : loc.root with
      | none =>
          apply iff_of_true
          · simpa [rooted] using sends_carryOut_error complete _ _ _
          · rintro _ root same other
            obtain rfl := Option.some.inj same
            rw [rooted] at other
            cases other
      | some root =>
          simp only [Option.bind_some, rooted, Option.map_some]
          constructor
          · rintro sent _ _ same other
            obtain rfl := Option.some.inj same
            obtain rfl := Option.some.inj (rooted.symm.trans other)
            exact (sends_chooseHandler_iff complete rooted).mp sent
          · intro answered
            exact (sends_chooseHandler_iff complete rooted).mpr (answered loc root rfl rooted)

theorem sends_routeRequest_iff {site : Site} (some_ : site.servers ≠ [])
    (complete : ∀ server ∈ site.servers, Complete server) (headers : Bytes) (text : RequestText) :
    Sends w 1 (routeRequest site headers text >>= Decision.carryOut o w) ↔
      HasServer site text.host ∧ ∀ server loc root, Handed site text server loc root →
        Answered o w.upstreams server loc text.verb root.text
          (joinPath root.text (cutQuery text.path).1) := by
  unfold routeRequest
  rcases getServerForHost_cases some_ complete text.host with
    ⟨has, i, server, found, here⟩ | ⟨hasNot, found⟩
  · rw [and_iff_right has, found]
    have step := @sends_routeTo_iff o w server (complete server (List.mem_of_getElem? here))
      site.regexMatch headers text
    simp only [bind, Except.bind, Option.bind_some, here] at step ⊢
    rw [step]
    constructor
    · rintro answered _ loc root ⟨⟨j, other, there⟩, located, rooted, short⟩
      obtain rfl := Option.some.inj (Except.ok.inj (found.symm.trans other))
      obtain rfl := Option.some.inj (here.symm.trans there)
      exact answered loc root located rooted short
    · intro answered loc root located rooted short
      exact answered server loc root ⟨⟨i, found, here⟩, located, rooted, short⟩
  · refine iff_of_false ?_ fun both => hasNot both.1
    rw [found]
    exact not_sends_error

/-- A request that is read gets exactly one response if and only if it has a
server, and the handler of its location sends one. -/
theorem processInput_answers_iff {gethostbyname : Resolver} {file : ConfigFile} {env : CheckEnv}
    {s t : ParseState} (parsed : file.parse gethostbyname = .ok s)
    (accepted : checkServers env s = .ok t) (regexMatch : Bytes → Bytes → Bool)
    {listener : Server} (listening : listener ∈ t.serverList) {received : Bytes}
    (nonempty : received ≠ []) (short : received.length < buffSize) {text : RequestText}
    {rest : Bytes} (line : RequestLine (inbuff received) text rest) (host : HostIn rest text.host)
    (o : Outside) (w : World) :
    Sends w 1 (processInput
        { isDefaultServer := env.isDefaultServer
          servers := t.serverList
          regexMatch := regexMatch } o listener received w) ↔
      HasServer
        { isDefaultServer := env.isDefaultServer
          servers := t.serverList
          regexMatch := regexMatch } text.host ∧
        ∀ server loc root,
          Handed
            { isDefaultServer := env.isDefaultServer
              servers := t.serverList
              regexMatch := regexMatch } text server loc root →
          Answered o w.upstreams server loc text.verb root.text
            (joinPath root.text (cutQuery text.path).1) := by
  have complete := complete_of_accepted parsed accepted
  have some_ : t.serverList ≠ [] := List.ne_nil_of_mem listening
  have notFull : received.length ≠ buffSize := Nat.ne_of_lt short
  have notEmpty : received.isEmpty = false := by simpa using nonempty
  have read := (readRequest_eq_some_iff (terminated_inbuff short)).mpr ⟨rest, line, host⟩
  simp only [processInput, dispatch, notFull, if_false, notEmpty, Bool.false_eq_true, read]
  exact sends_routeRequest_iff some_ complete _ text

/-- Every path is a plain file, and no upstream can be reached. -/
def plainFiles : Outside :=
  { fs :=
      { isDir := fun _ => some false
        opens := fun _ => true
        size := fun _ => 0
        entries := fun _ => none }
    connect := fun _ => .connectFails
    passTo := fun _ => none
    clientIp := bytes "127.0.0.1"
    defaultType := bytes "text/html"
    mimeTypes := [] }

theorem answered_plainFiles {upstreams : List Upstreams} {server : Server} {loc : Location}
    {verb root fullPath : Bytes} (byVerb : handlerFor loc = .byVerb) :
    Answered plainFiles upstreams server loc verb root fullPath := by
  simp only [Answered, byVerb]
  intro _
  refine ⟨fun dir => ?_, fun path _ => ⟨by decide, fun entry found => ?_⟩⟩
  · cases dir
  · rcases Option.bind_eq_some_iff.mp found with ⟨ext, _, listed⟩
    cases listed

theorem processInput_answers_iff_plain :
    ∃ s t listener, twoServers.parse (fun _ => none) = .ok s ∧
      checkServers .permissive s = .ok t ∧ listener ∈ t.serverList ∧
      Sends { upstreams := [], events := [] } 1 (processInput
        { isDefaultServer := CheckEnv.permissive.isDefaultServer
          servers := t.serverList
          regexMatch := fun _ _ => false } plainFiles listener plainRequest
        { upstreams := [], events := [] }) := by
  rcases plainRequest_read with ⟨rest, line, host⟩
  refine ⟨_, _, _, rfl, rfl, List.mem_cons_self, ?_⟩
  refine (@processInput_answers_iff (fun _ => none) twoServers .permissive _ _ rfl rfl
    (fun _ _ => false) _ List.mem_cons_self plainRequest (by decide) (by decide) plainText rest
    line host plainFiles { upstreams := [], events := [] }).mpr ⟨.inl rfl, ?_⟩
  rintro server loc root ⟨⟨i, found, here⟩, located, -, -⟩
  obtain rfl : 0 = i := Option.some.inj (Except.ok.inj found)
  obtain rfl := Option.some.inj here
  obtain rfl := Option.some.inj located
  exact answered_plainFiles rfl

/-- A request for a location with `proxy_pass` to a host that cannot be reached
gets no response. -/
theorem processInput_unreachable_silent :
    ∃ s t listener, (passFile (.proxyPass .http1 (bytes "127.0.0.1") (some 9000))).parse loopback =
        .ok s ∧
      checkServers .permissive s = .ok t ∧ listener ∈ t.serverList ∧
      (∃ rest, RequestLine (inbuff plainRequest) plainText rest ∧ HostIn rest plainText.host) ∧
      ¬ Sends { upstreams := t.upstreams, events := [] } 1 (processInput
        { isDefaultServer := CheckEnv.permissive.isDefaultServer
          servers := t.serverList
          regexMatch := fun _ _ => false } plainFiles listener plainRequest
        { upstreams := t.upstreams, events := [] }) := by
  refine ⟨_, _, _, rfl, rfl, List.mem_cons_self, plainRequest_read, ?_⟩
  rintro ⟨after, ran, count⟩
  obtain rfl := Except.ok.inj ran
  cases count

end OgWebserver.Request

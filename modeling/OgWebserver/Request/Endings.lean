import OgWebserver.Request.Effects
import OgWebserver.Request.Responses

/-!
# How the handlers end

Every run of a handler on local files ends in one of three ways: a string does not fit into
its buffer, one response is sent and one record is written, or a null target is followed.
The file says which requests lead where, and what a run has opened, copied, sent and logged
when it ends.
-/

namespace OgWebserver.Request

open Text Config Transition

/-- All strings fit into their buffers, with their terminators. -/
def AllFit (copies : List (Nat × Bytes)) : Prop :=
  ∀ copy ∈ copies, copy.2.length < copy.1

theorem allFit_nil : AllFit [] := by
  simp [AllFit]

theorem allFit_singleton {size : Nat} {text : Bytes} :
    AllFit [(size, text)] ↔ text.length < size := by
  simp [AllFit]

theorem allFit_append {first second : List (Nat × Bytes)} :
    AllFit (first ++ second) ↔ AllFit first ∧ AllFit second := by
  simp only [AllFit, List.mem_append]
  constructor
  · intro all
    exact ⟨fun copy member => all copy (.inl member), fun copy member => all copy (.inr member)⟩
  · rintro ⟨left, right⟩ copy (member | member)
    · exact left copy member
    · exact right copy member

/-- The strings copied since `s` fit. -/
def Fitting (s s' : Handling) : Prop :=
  ∃ added, s'.copies = s.copies ++ added ∧ AllFit added

/-- One of the strings copied since `s` does not fit. -/
def Unfitting (s s' : Handling) : Prop :=
  ∃ added, s'.copies = s.copies ++ added ∧ ¬ AllFit added

variable {s s₁ s' : Handling}

theorem Fitting.of_eq (same : s'.copies = s.copies) : Fitting s s' :=
  ⟨[], by rw [same, List.append_nil], allFit_nil⟩

theorem Fitting.trans (first : Fitting s s₁) (second : Fitting s₁ s') : Fitting s s' := by
  rcases first with ⟨before, eq, fit⟩
  rcases second with ⟨behind, eq', fit'⟩
  exact ⟨before ++ behind, by rw [eq', eq, List.append_assoc], allFit_append.mpr ⟨fit, fit'⟩⟩

theorem Fitting.unfitting (first : Fitting s s₁) (second : Unfitting s₁ s') : Unfitting s s' := by
  rcases first with ⟨before, eq, fit⟩
  rcases second with ⟨behind, eq', unfit⟩
  refine ⟨before ++ behind, by rw [eq', eq, List.append_assoc], fun all => unfit ?_⟩
  exact (allFit_append.mp all).2

/-- The state behind looking for a file: nothing has been sent or logged. -/
structure Looks (s s' : Handling) (opened : List (Nat × Object)) : Prop where
  world : s'.world = s.world
  path : s'.path = s.path
  table : s'.table = opened ++ s.table
  writes : s'.writes = s.writes
  copies : Fitting s s'
  fresh : ∀ entry ∈ opened, entry.1 ∉ s.table.map (·.1)

theorem Looks.trans {opened : List (Nat × Object)} (first : Looks s s₁ [])
    (second : Looks s₁ s' opened) : Looks s s' opened := by
  constructor
  · rw [second.world, first.world]
  · rw [second.path, first.path]
  · rw [second.table, first.table, List.nil_append]
  · rw [second.writes, first.writes]
  · exact first.copies.trans second.copies
  · intro entry member
    have fresh := second.fresh entry member
    rwa [first.table, List.nil_append] at fresh

theorem Looks.setFd {opened : List (Nat × Object)} (looks : Looks s s' opened)
    (fd : Option Nat) : Looks s { s' with localFd := fd } opened :=
  ⟨looks.world, looks.path, looks.table, looks.writes, looks.copies, looks.fresh⟩

abbrev Ran := EStateM.Result Fault Handling Unit

/-- A string does not fit into its buffer; nothing has been logged. -/
def Overflows (s : Handling) (ran : Ran) : Prop :=
  ∃ s', ran = .error .outOfBounds s' ∧ Unfitting s s' ∧ s'.writes = s.writes

/-- The handler returns with one response and one record, and with these descriptors. -/
def Answers (s : Handling) (table : List (Nat × Object)) (response : Response) (record : Bytes)
    (ran : Ran) : Prop :=
  ∃ s' log, ran = .ok () s' ∧ s'.world = s.world.emit (.respond response) ∧ s'.table = table ∧
    Fitting s s' ∧ s'.writes = s.writes ++ [logWrite log record]

theorem Overflows.behind {ran : Ran} {opened : List (Nat × Object)} (looks : Looks s s₁ opened)
    (overrun : Overflows s₁ ran) : Overflows s ran := by
  rcases overrun with ⟨s', ended, unfit, writes⟩
  exact ⟨s', ended, looks.copies.unfitting unfit, writes.trans looks.writes⟩

theorem Answers.behind {ran : Ran} {opened table : List (Nat × Object)} {response : Response}
    {record : Bytes} (looks : Looks s s₁ opened) (answers : Answers s₁ table response record ran) :
    Answers s table response record ran := by
  rcases answers with ⟨s', log, ended, world, table, fit, writes⟩
  refine ⟨s', log, ended, ?_, table, looks.copies.trans fit, ?_⟩
  · rw [world, looks.world]
  · rw [writes, looks.writes]

/-- A server whose records can be written. -/
structure Logged (server : Server) : Prop where
  names : server.serverNames ≠ []
  accessLog : server.accessLog.isSome
  errorLog : server.errorLog.isSome

/-- The name in the records of a server. -/
def firstName (server : Server) : Bytes :=
  ((server.serverNames.head?).map (·.serverName.text)).getD []

/-- The MIME type of a file, whatever its length. -/
def mimeTypeOf (o : Outside) (name : Bytes) : Bytes :=
  match (extension name).bind fun ext => o.mimeTypes.find? (·.1 == ext) with
  | none => o.defaultType
  | some entry => entry.2

namespace Visit

variable {v : Visit} {req : ClientRequest}

/-! ## Single steps -/

theorem copy_of_fits {size : Nat} {text : Bytes} (fits : text.length < size) :
    copy size text s = .ok () { s with copies := s.copies ++ [(size, text)] } := by
  simp only [copy, bind_modify_run, if_pos fits, pure_run]

theorem copy_of_overflow {size : Nat} {text : Bytes} (overrun : ¬ text.length < size) :
    copy size text s = .error .outOfBounds { s with copies := s.copies ++ [(size, text)] } := by
  simp only [copy, bind_modify_run, if_neg overrun, throw_run]

theorem openFile_of_opens {path : Bytes} (opens : v.outside.fs.opens path = true) :
    ∃ fd, fd ∉ s.table.map (·.1) ∧
      v.openFile path s = .ok (some fd) { s with table := (fd, .file path) :: s.table } := by
  rw [openFile, if_pos opens]
  exact ⟨v.newFd (s.table.map (·.1)), v.newFd_notMem _, rfl⟩

theorem openFile_of_fails {path : Bytes} (fails : v.outside.fs.opens path = false) :
    v.openFile path s = .ok none s := by
  rw [openFile, if_neg (by simp [fails])]
  rfl

/-- The descriptor opened last is closed. -/
theorem close_newest {fd : Nat} {object : Object} {table : List (Nat × Object)}
    (newest : s.table = (fd, object) :: table) : close fd s = .ok () { s with table := table } := by
  have closed : s.table.eraseP (fun entry => entry.1 == fd) = table := by
    rw [newest]
    simp
  rw [close, ← closed]
  rfl

theorem accessLog_run (logged : Logged req.server) (verb : Bytes) (httpCode : Int32)
    (path : Bytes) (size : Int32) :
    ∃ log, v.accessLog req.server verb httpCode path size s =
      .ok () { s with
        writes := s.writes ++ [logWrite log
          (logRecord (v.timestamp s.writes.length) v.peerIp (some verb) httpCode
            (firstName req.server) path (formatInt size))] } := by
  rcases List.exists_cons_of_ne_nil logged.names with ⟨name, rest, names⟩
  rcases Option.isSome_iff_exists.mp logged.accessLog with ⟨log, is⟩
  refine ⟨.accessLog log, ?_⟩
  simp only [accessLog, names, is, firstName, List.head?_cons, Option.map_some, Option.getD_some]
  rfl

theorem sendErrorResponse_run {server : Server} (logged : Logged server) (verb : Option Bytes)
    (code : Nat) (msg path : Bytes) :
    ∃ log, v.sendErrorResponse (some server) verb code msg path s =
      .ok () { s with
        world := s.world.emit (.respond (.error code msg))
        writes := s.writes ++ [logWrite log
          (logRecord (v.timestamp s.writes.length) v.peerIp verb (Int32.ofNat code)
            (firstName server) path msg)] } := by
  rcases List.exists_cons_of_ne_nil logged.names with ⟨name, rest, names⟩
  rcases Option.isSome_iff_exists.mp logged.errorLog with ⟨log, is⟩
  refine ⟨.errorLog log, ?_⟩
  simp only [sendErrorResponse, emit, bind_modify_run, errorLog, names, is, firstName,
    List.head?_cons, Option.map_some, Option.getD_some, bind_get_run]
  rfl

theorem sendErrorResponse_answers {server : Server} (logged : Logged server)
    (verb : Option Bytes) (code : Nat) (msg path : Bytes) :
    Answers s s.table (.error code msg)
      (logRecord (v.timestamp s.writes.length) v.peerIp verb (Int32.ofNat code)
        (firstName server) path msg)
      (v.sendErrorResponse (some server) verb code msg path s) := by
  rcases sendErrorResponse_run (v := v) (s := s) logged verb code msg path with ⟨log, ran⟩
  exact ⟨_, log, ran, rfl, rfl, .of_eq rfl, rfl⟩

/-! ## Looking for a file -/

theorem pathExists_fits {root : CString} (rooted : req.loc.root = some root) {path : Bytes}
    (fits : (joinPath root.text path).length < 300) :
    ∃ s', v.pathExists req path s =
        .ok (if (v.outside.fs.isDir (joinPath root.text path)).isSome then 1 else -1) s' ∧
      Looks s s' [] ∧ s'.fullPath = joinPath root.text path ∧
      s'.isDir = (v.outside.fs.isDir (joinPath root.text path) == some true) := by
  simp only [pathExists, bind_modify_run, rooted]
  rw [bind_of_ok (copy_of_fits fits), bind_modify_run]
  have one : AllFit [(300, joinPath root.text path)] := allFit_singleton.mpr fits
  let behind (isDir : Bool) : Handling :=
    { s with
      fullPath := joinPath root.text path
      isDir := isDir
      copies := s.copies ++ [(300, joinPath root.text path)] }
  cases v.outside.fs.isDir (joinPath root.text path) with
  | none => exact ⟨behind false, rfl, ⟨rfl, rfl, rfl, rfl, ⟨_, rfl, one⟩, by simp⟩, rfl, rfl⟩
  | some isDir =>
      refine ⟨behind isDir, rfl, ⟨rfl, rfl, rfl, rfl, ⟨_, rfl, one⟩, by simp⟩, rfl, ?_⟩
      cases isDir <;> rfl

theorem pathExists_overflows {root : CString} (rooted : req.loc.root = some root) {path : Bytes}
    (overrun : ¬ (joinPath root.text path).length < 300) :
    ∃ s', v.pathExists req path s = .error .outOfBounds s' ∧ Unfitting s s' ∧
      s'.writes = s.writes := by
  simp only [pathExists, bind_modify_run, rooted]
  rw [bind_of_error (copy_of_overflow overrun)]
  exact ⟨_, rfl, ⟨_, rfl, fun all => overrun (allFit_singleton.mp all)⟩, rfl⟩

/-- The index files are tried in their order. -/
theorem openDefaultIndexFile_fits (indexFiles : List Bytes) (s : Handling)
    (fits : IndexFits v.outside (indexFiles.map (joinPath s.fullPath))) :
    match (indexFiles.map (joinPath s.fullPath)).find? v.outside.fs.opens with
    | none => ∃ s', v.openDefaultIndexFile indexFiles s = .ok none s' ∧ Looks s s' [] ∧
        s'.fullPath = s.fullPath
    | some path => ∃ s' fd, v.openDefaultIndexFile indexFiles s = .ok (some fd) s' ∧
        Looks s s' [(fd, .file path)] ∧ s'.fullPath = path := by
  induction indexFiles generalizing s with
  | nil => exact ⟨s, rfl, ⟨rfl, rfl, rfl, rfl, .of_eq rfl, by simp⟩, rfl⟩
  | cons indexFile rest ih =>
      rw [List.map_cons, indexFits_cons] at fits
      rcases fits with ⟨short, later⟩
      simp only [List.map_cons, List.find?_cons, openDefaultIndexFile, bind_get_run]
      rw [bind_of_ok (copy_of_fits short)]
      have one : AllFit [(300, joinPath s.fullPath indexFile)] := allFit_singleton.mpr short
      cases opens : v.outside.fs.opens (joinPath s.fullPath indexFile) with
      | true =>
          rcases openFile_of_opens opens with ⟨fd, fresh, opened⟩
          rw [bind_of_ok opened]
          dsimp only
          rw [bind_of_ok (copy_of_fits short)]
          refine ⟨_, fd, rfl, ⟨rfl, rfl, rfl, rfl, ?_, by simpa using fresh⟩, rfl⟩
          exact ⟨_, List.append_assoc .., allFit_append.mpr ⟨one, one⟩⟩
      | false =>
          rw [bind_of_ok (openFile_of_fails opens)]
          dsimp only
          have first : Looks s { s with
              copies := s.copies ++ [(300, joinPath s.fullPath indexFile)] } [] :=
            ⟨rfl, rfl, rfl, rfl, ⟨_, rfl, one⟩, by simp⟩
          have next := ih { s with copies := s.copies ++ [(300, joinPath s.fullPath indexFile)] }
            (later opens)
          dsimp only at next
          cases found : (rest.map (joinPath s.fullPath)).find? v.outside.fs.opens with
          | none =>
              rw [found] at next
              rcases next with ⟨s', ran, looks, same⟩
              exact ⟨s', ran, first.trans looks, same⟩
          | some path =>
              rw [found] at next
              rcases next with ⟨s', fd, ran, looks, same⟩
              exact ⟨s', fd, ran, first.trans looks, same⟩

theorem openDefaultIndexFile_overflows (indexFiles : List Bytes) (s : Handling)
    (overrun : ¬ IndexFits v.outside (indexFiles.map (joinPath s.fullPath))) :
    ∃ s', v.openDefaultIndexFile indexFiles s = .error .outOfBounds s' ∧ Unfitting s s' ∧
      s'.writes = s.writes := by
  induction indexFiles generalizing s with
  | nil =>
      refine absurd (fun tried path rest split => ?_) overrun
      simp at split
  | cons indexFile rest ih =>
      rw [List.map_cons, indexFits_cons] at overrun
      simp only [openDefaultIndexFile, bind_get_run]
      by_cases short : (joinPath s.fullPath indexFile).length < 300
      · rw [bind_of_ok (copy_of_fits short)]
        have opens : v.outside.fs.opens (joinPath s.fullPath indexFile) = false := by
          by_contra opens
          exact overrun ⟨short, fun fails => absurd fails opens⟩
        rw [bind_of_ok (openFile_of_fails opens)]
        dsimp only
        rcases ih { s with copies := s.copies ++ [(300, joinPath s.fullPath indexFile)] }
          (fun later => overrun ⟨short, fun _ => later⟩) with ⟨s', ran, unfit, writes⟩
        refine ⟨s', ran, Fitting.unfitting ⟨_, rfl, ?_⟩ unfit, writes⟩
        exact allFit_singleton.mpr short
      · rw [bind_of_error (copy_of_overflow short)]
        exact ⟨_, rfl, ⟨_, rfl, fun all => short (allFit_singleton.mp all)⟩, rfl⟩

/-- What is found under a path, and whether a file is open behind it. -/
inductive Located
  | missing
  | plain (opened : Bool)
  | directory (opened : Bool)

/-- The front of `handleGetVerb` and of `tryFiles`. -/
def locate (v : Visit) (req : ClientRequest) : Act Located := do
  if (← v.pathExists req (← get).path) = -1 then return .missing
  else if (← get).isDir then
    let fd ← v.openDefaultIndexFile req.server.indexFiles
    modify fun s => { s with localFd := fd }
    return .directory fd.isSome
  else
    let fd ← v.openFile (← get).fullPath
    modify fun s => { s with localFd := fd }
    return .plain fd.isSome

theorem handleGetVerb_eq : v.handleGetVerb req = (do
    match ← v.locate req with
    | .plain true | .directory true => v.serveFile req
    | .directory false =>
        if req.server.autoIndex then v.showDirectoryListing req else v.notFound req
    | .missing | .plain false => v.notFound req) := by
  simp only [handleGetVerb, locate, bind_assoc]
  refine bind_congr fun s => bind_congr fun code => ?_
  split
  · rfl
  · simp only [bind_assoc]
    refine bind_congr fun s => ?_
    split
    · simp only [bind_assoc]
      refine bind_congr fun fd => bind_congr fun _ => ?_
      cases fd <;> rfl
    · simp only [bind_assoc]
      refine bind_congr fun s => bind_congr fun fd => bind_congr fun _ => ?_
      cases fd <;> rfl

theorem tryFiles_eq (tryTarget : Option Bytes) : v.tryFiles tryTarget req = (do
    modify fun s => { s with isDir := false }
    match ← v.locate req with
    | .plain true => v.serveFile req
    | .directory true =>
        if hasBit req.loc.type typeProxyPass then v.handleProxyPass req else v.serveFile req
    | .directory false =>
        if req.server.autoIndex then v.showDirectoryListing req
        else v.serveDefaultFile tryTarget req
    | .missing | .plain false => v.serveDefaultFile tryTarget req) := by
  simp only [tryFiles, locate, bind_assoc]
  refine bind_congr fun _ => bind_congr fun s => bind_congr fun code => ?_
  split
  · rfl
  · simp only [bind_assoc]
    refine bind_congr fun s => ?_
    cases s.isDir with
    | true =>
        simp only [bind_assoc, Bool.true_eq_false, if_false, if_true]
        refine bind_congr fun fd => bind_congr fun _ => ?_
        cases fd <;> rfl
    | false =>
        simp only [bind_assoc, Bool.false_eq_true, if_false, if_true]
        refine bind_congr fun s => bind_congr fun fd => bind_congr fun _ => ?_
        cases fd <;> rfl

/-- What the front finds at a full path. -/
def located (o : Outside) (server : Server) (fullPath : Bytes) : Located :=
  match o.fs.isDir fullPath with
  | none => .missing
  | some false => .plain (servedFile o server fullPath).isSome
  | some true => .directory (servedFile o server fullPath).isSome

theorem locate_fits {root : CString} (rooted : req.loc.root = some root)
    (short : (joinPath root.text s.path).length < 300)
    (fits : LookupFits v.outside req.server (joinPath root.text s.path)) :
    match servedFile v.outside req.server (joinPath root.text s.path) with
    | none => ∃ s',
        v.locate req s = .ok (located v.outside req.server (joinPath root.text s.path)) s' ∧
          Looks s s' [] ∧ s'.fullPath = joinPath root.text s.path
    | some file => ∃ s' fd,
        v.locate req s = .ok (located v.outside req.server (joinPath root.text s.path)) s' ∧
          Looks s s' [(fd, .file file)] ∧ s'.fullPath = file ∧ s'.localFd = some fd := by
  rcases pathExists_fits (v := v) rooted short with ⟨s₁, ran, looks, full, isDir_eq⟩
  simp only [locate, bind_get_run, located]
  rw [bind_of_ok ran]
  cases dir : v.outside.fs.isDir (joinPath root.text s.path) with
  | none =>
      rw [servedFile_missing dir]
      exact ⟨s₁, rfl, looks, full⟩
  | some isDir =>
      simp only [Option.isSome_some, if_true, Int.reduceNeg, Int.reduceEq, if_false, bind_get_run]
      cases isDir with
      | false =>
          have isFile : s₁.isDir = false := by rw [isDir_eq, dir]; rfl
          rw [servedFile_plain dir]
          simp only [isFile, Bool.false_eq_true, if_false, bind_get_run, full]
          cases opens : v.outside.fs.opens (joinPath root.text s.path) with
          | true =>
              rcases openFile_of_opens (s := s₁) opens with ⟨fd, fresh, opened⟩
              rw [bind_of_ok opened]
              exact ⟨_, fd, rfl, looks.trans ⟨rfl, rfl, rfl, rfl, .of_eq rfl, by simpa using fresh⟩,
                full, rfl⟩
          | false =>
              rw [bind_of_ok (openFile_of_fails opens)]
              exact ⟨_, rfl, looks.setFd _, full⟩
      | true =>
          have isDirectory : s₁.isDir = true := by rw [isDir_eq, dir]; rfl
          rw [servedFile_directory dir]
          simp only [isDirectory, if_true]
          have tried := openDefaultIndexFile_fits (v := v) req.server.indexFiles s₁
            (by rw [full]; exact fits dir)
          rw [full] at tried
          simp only [indexPaths]
          cases found : (req.server.indexFiles.map (joinPath (joinPath root.text s.path))).find?
              v.outside.fs.opens with
          | none =>
              rw [found] at tried
              rcases tried with ⟨s₂, opened, tries, same⟩
              rw [bind_of_ok opened]
              exact ⟨_, rfl, (looks.trans tries).setFd _, same⟩
          | some file =>
              rw [found] at tried
              rcases tried with ⟨s₂, fd, opened, tries, same⟩
              rw [bind_of_ok opened]
              exact ⟨_, fd, rfl, (looks.trans tries).setFd _, same, rfl⟩

theorem locate_overflows {root : CString} (rooted : req.loc.root = some root)
    (short : (joinPath root.text s.path).length < 300)
    (overrun : ¬ LookupFits v.outside req.server (joinPath root.text s.path)) :
    ∃ s', v.locate req s = .error .outOfBounds s' ∧ Unfitting s s' ∧ s'.writes = s.writes := by
  rcases pathExists_fits (v := v) rooted short with ⟨s₁, ran, looks, full, isDir_eq⟩
  have dir : v.outside.fs.isDir (joinPath root.text s.path) = some true := by
    by_contra other
    exact overrun fun here => absurd here other
  have isDirectory : s₁.isDir = true := by rw [isDir_eq, dir]; rfl
  rw [dir] at ran
  rcases openDefaultIndexFile_overflows (v := v) req.server.indexFiles s₁
    (by rw [full]; exact fun fits => overrun fun _ => fits) with ⟨s', ended, unfit, writes⟩
  refine ⟨s', ?_, looks.copies.unfitting unfit, writes.trans looks.writes⟩
  simp only [locate, bind_get_run]
  rw [bind_of_ok ran]
  simp only [Option.isSome_some, if_true, Int.reduceNeg, Int.reduceEq, if_false, bind_get_run,
    isDirectory]
  rw [bind_of_error ended]

/-! ## Answers -/

theorem getMimeType_fits {name : Bytes} (fits : MimeFits v.outside name) :
    ∃ added, AllFit added ∧
      v.getMimeType name s =
        .ok (mimeTypeOf v.outside name) { s with copies := s.copies ++ added } := by
  rcases fits with ⟨dflt, listed⟩
  have first : AllFit [(256, v.outside.defaultType)] := allFit_singleton.mpr dflt
  simp only [getMimeType, mimeTypeOf]
  rw [bind_of_ok (copy_of_fits dflt)]
  cases found : (extension name).bind fun ext => v.outside.mimeTypes.find? (·.1 == ext) with
  | none => exact ⟨_, first, rfl⟩
  | some entry =>
      have second : AllFit [(256, entry.2)] := allFit_singleton.mpr (listed entry found)
      dsimp only
      rw [bind_of_ok (copy_of_fits (listed entry found))]
      refine ⟨_, allFit_append.mpr ⟨first, second⟩, ?_⟩
      simp only [pure_run, List.append_assoc]

theorem getMimeType_overflows {name : Bytes} (overrun : ¬ MimeFits v.outside name) :
    ∃ s', v.getMimeType name s = .error .outOfBounds s' ∧ Unfitting s s' ∧
      s'.writes = s.writes := by
  simp only [getMimeType]
  by_cases dflt : v.outside.defaultType.length < 256
  · rw [bind_of_ok (copy_of_fits dflt)]
    cases found : (extension name).bind fun ext => v.outside.mimeTypes.find? (·.1 == ext) with
    | none =>
        refine absurd ⟨dflt, fun entry here => ?_⟩ overrun
        rw [found] at here
        cases here
    | some entry =>
        have long : ¬ entry.2.length < 256 := by
          intro short
          refine overrun ⟨dflt, fun other here => ?_⟩
          obtain rfl := Option.some.inj (found.symm.trans here)
          exact short
        dsimp only
        rw [bind_of_error (copy_of_overflow long)]
        refine ⟨_, rfl, ⟨_, List.append_assoc .., fun all => long ?_⟩, rfl⟩
        exact allFit_singleton.mp (allFit_append.mp all).2
  · rw [bind_of_error (copy_of_overflow dflt)]
    exact ⟨_, rfl, ⟨_, rfl, fun all => dflt (allFit_singleton.mp all)⟩, rfl⟩

/-- The record of a file that is served. -/
def servedRecord (v : Visit) (req : ClientRequest) (n : Nat) (path file : Bytes) : Bytes :=
  logRecord (v.timestamp n) v.peerIp
    (some (if req.verb == bytes "GET" then bytes "GET" else bytes "HEAD")) 200
    (firstName req.server) path (formatInt (Int32.ofNat (v.outside.fs.size file)))

/-- The response with a file, under the MIME type of its own name. -/
def fileResponse (v : Visit) (req : ClientRequest) (file : Bytes) : Response :=
  .file file (mimeTypeOf v.outside file) (v.outside.fs.size file) (req.verb == bytes "GET")

/-- The file behind the descriptor is served, and the descriptor closed. -/
theorem serveFile_answers (logged : Logged req.server) {fd : Nat} {table : List (Nat × Object)}
    (opened : s.localFd = some fd) (newest : s.table = (fd, .file s.fullPath) :: table)
    (fits : MimeFits v.outside s.fullPath) :
    Answers s table (v.fileResponse req s.fullPath)
      (v.servedRecord req s.writes.length s.path s.fullPath) (v.serveFile req s) := by
  rcases getMimeType_fits (s := s) fits with ⟨added, fit, ran⟩
  rcases accessLog_run (s := { s with
      copies := s.copies ++ added
      world := s.world.emit (.respond (v.fileResponse req s.fullPath)) }) (v := v) logged
    (if req.verb == bytes "GET" then bytes "GET" else bytes "HEAD") 200 s.path
    (Int32.ofNat (v.outside.fs.size s.fullPath)) with ⟨log, wrote⟩
  refine ⟨{ s with
      copies := s.copies ++ added
      world := s.world.emit (.respond (v.fileResponse req s.fullPath))
      writes := s.writes ++
        [logWrite log (v.servedRecord req s.writes.length s.path s.fullPath)]
      table := table }, log, ?_, rfl, rfl, ⟨added, rfl, fit⟩, rfl⟩
  simp only [serveFile, bind_get_run]
  rw [bind_of_ok ran]
  simp only [bind_get_run, opened, newest, List.lookup_cons_self, emit, bind_modify_run]
  rw [← newest, ← opened]
  refine (bind_of_ok wrote).trans ?_
  apply close_newest
  exact newest

theorem serveFile_overflows (overrun : ¬ MimeFits v.outside s.fullPath) :
    Overflows s (v.serveFile req s) := by
  rcases getMimeType_overflows (s := s) overrun with ⟨s', ran, unfit, writes⟩
  refine ⟨s', ?_, unfit, writes⟩
  simp only [serveFile, bind_get_run]
  rw [bind_of_error ran]

/-- The record of a directory listing. -/
def listingRecord (v : Visit) (req : ClientRequest) (n : Nat) (fullPath path : Bytes)
    (entries : List Bytes) : Bytes :=
  logRecord (v.timestamp n) v.peerIp (some (bytes "GET")) 200 (firstName req.server) path
    (formatInt (v.listingLength fullPath path entries))

/-- The record of the answer 404. -/
def notFoundRecord (v : Visit) (req : ClientRequest) (n : Nat) (path : Bytes) : Bytes :=
  logRecord (v.timestamp n) v.peerIp (some req.verb) 404 (firstName req.server) path
    (bytes "Not Found")

theorem notFound_run (logged : Logged req.server) :
    ∃ log, v.notFound req s =
      .ok () { s with
        world := s.world.emit (.respond (.error 404 (bytes "Not Found")))
        writes := s.writes ++ [logWrite log (v.notFoundRecord req s.writes.length s.path)] } :=
  sendErrorResponse_run logged _ _ _ _

theorem notFound_keeps (logged : Logged req.server) :
    ∃ s₁, v.notFound req s = .ok () s₁ ∧
      s₁.world = s.world.emit (.respond (.error 404 (bytes "Not Found"))) ∧ s₁.path = s.path ∧
      s₁.table = s.table ∧ s₁.copies = s.copies := by
  rcases notFound_run (v := v) (s := s) logged with ⟨log, ran⟩
  exact ⟨_, ran, rfl, rfl, rfl, rfl⟩

theorem notFound_answers (logged : Logged req.server) :
    Answers s s.table (.error 404 (bytes "Not Found"))
      (v.notFoundRecord req s.writes.length s.path) (v.notFound req s) :=
  sendErrorResponse_answers logged _ _ _ _

/-- A listing that opens is sent; one that does not is not found. -/
theorem showDirectoryListing_answers (logged : Logged req.server) :
    match v.outside.fs.entries s.fullPath with
    | none => Answers s s.table (.error 404 (bytes "Not Found"))
        (v.notFoundRecord req s.writes.length s.path) (v.showDirectoryListing req s)
    | some entries => Answers s s.table (.listing (entries.filter (· ≠ bytes ".")))
        (v.listingRecord req s.writes.length s.fullPath s.path entries)
        (v.showDirectoryListing req s) := by
  simp only [showDirectoryListing, bind_get_run]
  cases v.outside.fs.entries s.fullPath with
  | none => exact sendErrorResponse_answers logged _ _ _ _
  | some entries =>
      rcases accessLog_run (s := { s with
          world := s.world.emit (.respond (.listing (entries.filter (· ≠ bytes ".")))) }) (v := v)
        logged (bytes "GET") 200 s.path (v.listingLength s.fullPath s.path entries) with
        ⟨log, wrote⟩
      refine ⟨{ s with
          world := s.world.emit (.respond (.listing (entries.filter (· ≠ bytes "."))))
          writes := s.writes ++
            [logWrite log (v.listingRecord req s.writes.length s.fullPath s.path entries)] },
        log, ?_, rfl, rfl, .of_eq rfl, rfl⟩
      refine (bind_of_ok rfl).trans ?_
      refine (bind_of_ok (close_newest rfl)).trans ?_
      exact wrote

/-- The records of a request that stays local. -/
inductive Recorded (v : Visit) (req : ClientRequest) (n : Nat) (path : Bytes) : Bytes → Prop
  | served (file : Bytes) : Recorded v req n path (v.servedRecord req n path file)
  | listed (fullPath : Bytes) (entries : List Bytes) :
      Recorded v req n path (v.listingRecord req n fullPath path entries)
  | notFound : Recorded v req n path (v.notFoundRecord req n path)

/-! ## Handlers -/

variable {root : CString} {file : Bytes}

/-- Without an index file, a directory is listed if the server does so. -/
theorem listing_answers (logged : Logged req.server) :
    ∃ response record, Answers s s.table response record (v.showDirectoryListing req s) ∧
      Recorded v req s.writes.length s.path record := by
  have answers := @showDirectoryListing_answers s v req logged
  cases listed : v.outside.fs.entries s.fullPath with
  | none =>
      rw [listed] at answers
      exact ⟨_, _, answers, .notFound⟩
  | some entries =>
      rw [listed] at answers
      exact ⟨_, _, answers, .listed _ _⟩

/-- A file that the front has opened is served. -/
theorem serveFile_behind (logged : Logged req.server) {fd : Nat}
    (looks : Looks s s₁ [(fd, .file file)]) (full : s₁.fullPath = file)
    (opened : s₁.localFd = some fd) (fits : MimeFits v.outside file) :
    Answers s s.table (v.fileResponse req file) (v.servedRecord req s.writes.length s.path file)
      (v.serveFile req s₁) := by
  have newest : s₁.table = (fd, .file s₁.fullPath) :: s.table := by
    rw [looks.table, full]
    rfl
  have answers := serveFile_answers (v := v) logged opened newest (by rwa [full])
  rw [full, looks.path, looks.writes] at answers
  exact answers.behind looks

theorem serveFile_overflows_behind {opened : List (Nat × Object)} (looks : Looks s s₁ opened)
    (full : s₁.fullPath = file) (overrun : ¬ MimeFits v.outside file) :
    Overflows s (v.serveFile req s₁) :=
  (serveFile_overflows (by rwa [full])).behind looks

section Local

variable (rooted : req.loc.root = some root) (short : (joinPath root.text s.path).length < 300)

include rooted short

theorem handleGetVerb_overflows
    (overrun : ¬ LookupFits v.outside req.server (joinPath root.text s.path)) :
    Overflows s (v.handleGetVerb req s) := by
  rcases locate_overflows (v := v) rooted short overrun with ⟨s', ended, unfit, writes⟩
  rw [handleGetVerb_eq]
  exact ⟨s', bind_of_error ended, unfit, writes⟩

theorem handleGetVerb_found
    (fits : LookupFits v.outside req.server (joinPath root.text s.path))
    (found : servedFile v.outside req.server (joinPath root.text s.path) = some file) :
    ∃ s₁ fd, Looks s s₁ [(fd, .file file)] ∧ s₁.fullPath = file ∧ s₁.localFd = some fd ∧
      v.handleGetVerb req s = v.serveFile req s₁ := by
  have ran := locate_fits (v := v) rooted short fits
  rw [found] at ran
  rcases ran with ⟨s₁, fd, ran, looks, full, opened⟩
  refine ⟨s₁, fd, looks, full, opened, ?_⟩
  rw [handleGetVerb_eq, bind_of_ok ran, located, found]
  cases dir : v.outside.fs.isDir (joinPath root.text s.path) with
  | none =>
      rw [servedFile_missing dir] at found
      cases found
  | some isDir => cases isDir <;> rfl

theorem handleGetVerb_unfound
    (fits : LookupFits v.outside req.server (joinPath root.text s.path))
    (unfound : servedFile v.outside req.server (joinPath root.text s.path) = none) :
    ∃ s₁, Looks s s₁ [] ∧ s₁.fullPath = joinPath root.text s.path ∧
      v.handleGetVerb req s =
        (if v.outside.fs.isDir (joinPath root.text s.path) == some true && req.server.autoIndex
          then v.showDirectoryListing req else v.notFound req) s₁ := by
  have ran := locate_fits (v := v) rooted short fits
  rw [unfound] at ran
  rcases ran with ⟨s₁, ran, looks, full⟩
  refine ⟨s₁, looks, full, ?_⟩
  rw [handleGetVerb_eq, bind_of_ok ran, located, unfound]
  cases v.outside.fs.isDir (joinPath root.text s.path) with
  | none => rfl
  | some isDir => cases isDir <;> rfl

theorem tryFiles_overflows (tryTarget : Option Bytes)
    (overrun : ¬ LookupFits v.outside req.server (joinPath root.text s.path)) :
    Overflows s (v.tryFiles tryTarget req s) := by
  rcases @locate_overflows { s with isDir := false } v req root rooted short overrun with
    ⟨s', ended, unfit, writes⟩
  rw [tryFiles_eq, bind_modify_run]
  exact ⟨s', bind_of_error ended, unfit, writes⟩

theorem tryFiles_found (tryTarget : Option Bytes)
    (fits : LookupFits v.outside req.server (joinPath root.text s.path))
    (found : servedFile v.outside req.server (joinPath root.text s.path) = some file) :
    ∃ s₁ fd, Looks s s₁ [(fd, .file file)] ∧ s₁.fullPath = file ∧ s₁.localFd = some fd ∧
      v.tryFiles tryTarget req s =
        (if v.outside.fs.isDir (joinPath root.text s.path) == some true &&
            hasBit req.loc.type typeProxyPass
          then v.handleProxyPass req else v.serveFile req) s₁ := by
  have ran := @locate_fits { s with isDir := false } v req root rooted short fits
  rw [found] at ran
  rcases ran with ⟨s₁, fd, ran, looks, full, opened⟩
  refine ⟨s₁, fd,
    ⟨looks.world, looks.path, looks.table, looks.writes, looks.copies, looks.fresh⟩, full, opened,
    ?_⟩
  rw [tryFiles_eq, bind_modify_run, bind_of_ok ran, located, found]
  cases dir : v.outside.fs.isDir (joinPath root.text s.path) with
  | none =>
      rw [servedFile_missing dir] at found
      cases found
  | some isDir => cases isDir <;> rfl

theorem tryFiles_unfound (tryTarget : Option Bytes)
    (fits : LookupFits v.outside req.server (joinPath root.text s.path))
    (unfound : servedFile v.outside req.server (joinPath root.text s.path) = none) :
    ∃ s₁, Looks s s₁ [] ∧ s₁.fullPath = joinPath root.text s.path ∧
      v.tryFiles tryTarget req s =
        (if v.outside.fs.isDir (joinPath root.text s.path) == some true && req.server.autoIndex
          then v.showDirectoryListing req else v.serveDefaultFile tryTarget req) s₁ := by
  have ran := @locate_fits { s with isDir := false } v req root rooted short fits
  rw [unfound] at ran
  rcases ran with ⟨s₁, ran, looks, full⟩
  refine ⟨s₁, ⟨looks.world, looks.path, looks.table, looks.writes, looks.copies, looks.fresh⟩, full,
    ?_⟩
  rw [tryFiles_eq, bind_modify_run, bind_of_ok ran, located, unfound]
  cases v.outside.fs.isDir (joinPath root.text s.path) with
  | none => rfl
  | some isDir => cases isDir <;> rfl

end Local

/-- A known format is not answered. -/
theorem handleTryFiles_known {target : Bytes}
    (format : checkTryFilesFormat req.loc = some target) :
    v.handleTryFiles req = v.tryFiles (some target) req := by
  simp only [handleTryFiles, format, reduceCtorEq, if_false]

/-- An unknown format is answered, and tried all the same. -/
theorem handleTryFiles_unknown (format : checkTryFilesFormat req.loc = none) :
    v.handleTryFiles req = (do v.notFound req; v.tryFiles none req) := by
  simp only [handleTryFiles, format, if_true]

/-! ## The default file -/

/-- With the bit of a `proxy_pass`, the upstream is asked instead. -/
theorem serveDefaultFile_proxied (proxy : hasBit req.loc.type typeProxyPass = true)
    (tryTarget : Option Bytes) : v.serveDefaultFile tryTarget req = v.passUpstream req := by
  simp only [serveDefaultFile, proxy, if_true, handleProxyPass]

section Default

variable (local_ : hasBit req.loc.type typeProxyPass = false) (rooted : req.loc.root = some root)
  {target : Bytes}

include local_ rooted

theorem serveDefaultFile_overflows (overrun : ¬ (joinPath root.text target).length < 300) :
    Overflows s (v.serveDefaultFile (some target) req s) := by
  simp only [serveDefaultFile, local_, Bool.false_eq_true, if_false, bind_modify_run]
  rcases @pathExists_overflows { s with path := target } v req root rooted target overrun with
    ⟨s', ended, unfit, writes⟩
  exact ⟨s', bind_of_error ended, unfit, writes⟩

/-- The default file is opened, unless it is a directory. -/
theorem serveDefaultFile_found (short : (joinPath root.text target).length < 300)
    (plain : v.outside.fs.isDir (joinPath root.text target) ≠ some true)
    (opens : v.outside.fs.opens (joinPath root.text target) = true) :
    ∃ s₁ fd, Looks { s with path := target } s₁ [(fd, .file (joinPath root.text target))] ∧
      s₁.fullPath = joinPath root.text target ∧ s₁.localFd = some fd ∧
      v.serveDefaultFile (some target) req s = v.serveFile req s₁ := by
  rcases @pathExists_fits { s with path := target } v req root rooted target short with
    ⟨s₁, ran, looks, full, isDir_eq⟩
  rw [← full] at opens
  rcases openFile_of_opens (s := s₁) opens with ⟨fd, fresh, opened⟩
  refine ⟨{ s₁ with table := (fd, .file s₁.fullPath) :: s₁.table, localFd := some fd }, fd,
    looks.trans ⟨rfl, rfl, by rw [full]; rfl, rfl, .of_eq rfl, by simpa using fresh⟩, full, rfl,
    ?_⟩
  simp only [serveDefaultFile, local_, Bool.false_eq_true, if_false, bind_modify_run]
  rw [bind_of_ok ran, if_pos (by split <;> decide), bind_get_run,
    if_neg (by simpa [isDir_eq] using plain), bind_get_run, bind_of_ok opened]
  rfl

theorem serveDefaultFile_unfound (short : (joinPath root.text target).length < 300)
    (unfound : v.outside.fs.isDir (joinPath root.text target) = some true ∨
      v.outside.fs.opens (joinPath root.text target) = false) :
    ∃ s₁, Looks { s with path := target } s₁ [] ∧
      v.serveDefaultFile (some target) req s = v.notFound req s₁ := by
  rcases @pathExists_fits { s with path := target } v req root rooted target short with
    ⟨s₁, ran, looks, full, isDir_eq⟩
  simp only [serveDefaultFile, local_, Bool.false_eq_true, if_false, bind_modify_run]
  rw [bind_of_ok ran, if_pos (by split <;> decide), bind_get_run, isDir_eq]
  by_cases dir : v.outside.fs.isDir (joinPath root.text target) = some true
  · rw [if_pos (by simp [dir])]
    exact ⟨s₁, looks, rfl⟩
  · have fails := unfound.resolve_left dir
    rw [if_neg (by simp [dir]), bind_get_run, full, bind_of_ok (openFile_of_fails fails)]
    exact ⟨_, looks.setFd _, rfl⟩

end Default

/-! ## Upstreams -/

/-- What a request to the upstream relays, if it gets so far. -/
def relayedBy (o : Outside) (upstreams : List Upstreams) (loc : Location) : Option Relayed :=
  match chooseUpstream upstreams o.passTo loc with
  | .ok (some (address, _)) =>
      match o.connect address with
      | .connected pieces => (relayResponse pieces).toOption
      | _ => none
  | _ => none

/-- The record of a request to the upstream. -/
def passRecord (v : Visit) (req : ClientRequest) (n : Nat) (path : Bytes) (done : Relayed) :
    Bytes :=
  logRecord (v.timestamp n) v.peerIp (some req.verb) done.httpCode (firstName req.server) path
    (formatInt done.size)

/-- The end of a request to the upstream: the world is that of the pure handler, nothing has
been copied, and a record has been written if something has been relayed; if the handler
returns, all descriptors it has opened are closed. -/
structure Passed (v : Visit) (req : ClientRequest) (s : Handling) (ran : Ran) : Prop where
  world : outcome (·.world) ran = Request.passUpstream v.outside req s.world
  copies : (stateBehind ran).copies = s.copies
  writes : match relayedBy v.outside s.world.upstreams req.loc with
    | none => (stateBehind ran).writes = s.writes
    | some done => ∃ log, (stateBehind ran).writes =
        s.writes ++ [logWrite log (v.passRecord req s.writes.length s.path done)]
  table : ∀ s', ran = .ok () s' → s'.table = s.table

theorem relayToClient_run (done : Relayed) :
    relayToClient done s = .ok () { s with
      world :=
        if done.sent.isEmpty then s.world else s.world.emit (.respond (.relayed done)) } := by
  rw [relayToClient]
  split <;> rfl

/-- Closing a descriptor a second time does nothing. -/
theorem closeUpstream_run {fd : Nat} {object : Object} {table : List (Nat × Object)}
    (newest : s.table = (fd, object) :: table) (fresh : fd ∉ table.map (·.1))
    (address : SockAddr) (pieces : List Bytes) :
    v.closeUpstream fd address pieces s = .ok () { s with table := table } := by
  have absent : table.eraseP (fun entry => entry.1 == fd) = table := by
    apply List.eraseP_of_forall_not
    intro entry member same
    exact fresh (List.mem_map.mpr ⟨entry, member, by simpa using same⟩)
  simp only [closeUpstream]
  split
  · rw [bind_of_ok (close_newest newest), close, modify_run]
    simp only [absent]
  · exact close_newest newest

theorem Passed.silent {ran : Ran}
    (none_ : relayedBy v.outside s.world.upstreams req.loc = none)
    (world : outcome (·.world) ran = Request.passUpstream v.outside req s.world)
    (copies : (stateBehind ran).copies = s.copies) (writes : (stateBehind ran).writes = s.writes)
    (table : ∀ s', ran = .ok () s' → s'.table = s.table) : Passed v req s ran :=
  ⟨world, copies, by rw [none_]; exact writes, table⟩

/-- An upstream that cannot be connected to is given up. -/
theorem passUpstream_refused {address : SockAddr} {upstreams : List Upstreams}
    (chosen : chooseUpstream s.world.upstreams v.outside.passTo req.loc =
      .ok (some (address, upstreams)))
    (refused : v.outside.connect address = .connectFails) :
    ∃ s', v.passUpstream req s = .ok () s' := by
  simp only [passUpstream, getUpstreamServer, bind_assoc, bind_get_run, chosen,
    bind_liftExcept_ok, bind_modify_run, refused]
  exact ⟨_, rfl⟩

theorem passUpstream_passed (logged : Logged req.server) :
    Passed v req s (v.passUpstream req s) := by
  simp only [passUpstream, getUpstreamServer, bind_assoc, bind_get_run]
  cases chosen : chooseUpstream s.world.upstreams v.outside.passTo req.loc with
  | error e =>
      refine .silent ?_ ?_ rfl rfl fun s' returned => ?_
      · simp only [relayedBy, chosen]
      · rw [Request.passUpstream, chosen]
        rfl
      · cases returned
  | ok choice =>
      simp only [bind_liftExcept_ok]
      cases choice with
      | none =>
          refine .silent ?_ ?_ rfl rfl fun s' returned => ?_
          · simp only [relayedBy, chosen]
          · rw [Request.passUpstream, chosen]
            rfl
          · cases returned
            rfl
      | some both =>
          rcases both with ⟨address, upstreams⟩
          simp only [bind_assoc, bind_modify_run]
          cases connection : v.outside.connect address with
          | socketFails =>
              refine .silent ?_ ?_ rfl rfl fun s' returned => ?_
              · simp only [relayedBy, chosen, connection]
              · simp only [Request.passUpstream, chosen, except_ok_bind, connection]
                rfl
              · cases returned
                rfl
          | connectFails =>
              refine .silent ?_ ?_ rfl rfl fun s' returned => ?_
              · simp only [relayedBy, chosen, connection]
              · simp only [Request.passUpstream, chosen, except_ok_bind, connection]
                rfl
              · cases returned
                exact List.eraseP_cons_of_pos
                  (p := fun entry : Nat × Object => entry.1 == v.newFd (s.table.map (·.1))) BEq.rfl
          | connected pieces =>
              simp only [bind_assoc, openFor, bind_get_run, bind_set_run, pure_bind, emit,
                bind_modify_run]
              cases relayed : relayResponse pieces with
              | error e =>
                  refine .silent ?_ ?_ rfl rfl fun s' returned => ?_
                  · simp only [relayedBy, chosen, connection, relayed, Except.toOption]
                  · simp only [Request.passUpstream, chosen, except_ok_bind, connection, relayed]
                    rfl
                  · cases returned
              | ok done =>
                  have some_ : relayedBy v.outside s.world.upstreams req.loc = some done := by
                    simp only [relayedBy, chosen, connection, relayed, Except.toOption]
                  have fresh := v.newFd_notMem (s.table.map (·.1))
                  change Passed v req s ((relayToClient done >>= fun _ => _) _)
                  rw [bind_of_ok (relayToClient_run done),
                    bind_of_ok (closeUpstream_run rfl fresh address pieces), bind_get_run]
                  rcases accessLog_run logged req.verb done.httpCode s.path done.size with
                    ⟨log, wrote⟩
                  rw [wrote]
                  refine ⟨?_, rfl, ?_, fun s' returned => ?_⟩
                  · simp only [Request.passUpstream, chosen, except_ok_bind, connection, relayed]
                    rfl
                  · rw [some_]
                    exact ⟨log, rfl⟩
                  · cases returned
                    rfl

end Visit

end OgWebserver.Request

import OgWebserver.Paths.Tree
import OgWebserver.Request.CrossTalk
import OgWebserver.Request.Responses

/-!
# Keeping to the document root

`processInput` does not disallow `..` in a path.  The system resolves the joined paths in a tree
of files: a client gets nothing that depends on files outside of the root, as long as the path
keeps to it.
-/

namespace OgWebserver.Request

open Text Config Transition Paths

/-! ## The system's files -/

structure LocalFile where
  content : Bytes
  readable : Bool

abbrev FileTree : Type :=
  Tree Bytes LocalFile

/-- What a name between slashes asks for. -/
def turnOf (name : Bytes) : Turn Bytes :=
  if name = [] ∨ name = bytes "." then .stay
  else if name = bytes ".." then .up
  else .down name

def turns (path : Bytes) : List (Turn Bytes) :=
  (path.splitOn 47).map turnOf

/-- What a path names; the working directory of the server is the root directory. -/
def FileTree.file (tree : FileTree) (path : Bytes) : Option (Node Bytes LocalFile) :=
  tree.find [] (turns path)

/-- `stat`, `open` and `opendir` of what a path names. -/
def fileSystem (tree : FileTree) : FileSystem where
  isDir path := (tree.file path).map Node.isDir
  opens path :=
    match tree.file path with
    | some (.dir _ readable) => readable
    | some (.file file) => file.readable
    | none => false
  size path :=
    match tree.file path with
    | some (.file file) => file.content.length
    | _ => 0
  entries path :=
    match tree.file path with
    | some (.dir names true) => some (bytes "." :: bytes ".." :: names)
    | _ => none

def fileContent (tree : FileTree) (path : Bytes) : Bytes :=
  match tree.file path with
  | some (.file file) => file.content
  | _ => []

/-- The client, served from these files. -/
def Client.on (c : Client) (tree : FileTree) : Client :=
  { c with
    outside := { c.outside with fs := fileSystem tree }
    content := fileContent tree }

/-- A tree with a directory at the root, and with names that paths can have in them. -/
structure FileTree.Rooted (root : List Bytes) (tree : FileTree) : Prop
    extends Tree.Rooted root tree where
  proper : ∀ place, (tree place).isSome → ∀ name ∈ place, turns name = [.down name]

/-! ## Paths -/

theorem turns_append_slash (first second : Bytes) :
    turns (first ++ 47 :: second) = turns first ++ turns second := by
  rw [turns, List.splitOn_append_cons_self, List.map_append]
  rfl

/-- The turns of a path behind another one. -/
theorem turns_joinPath (first second : Bytes) :
    ∃ more, turns (joinPath first second) = turns first ++ more ∧
      (turns second = more ∨ turns second = .stay :: more) := by
  rw [joinPath]
  split
  case isTrue slash =>
    cases second with
    | nil => cases slash
    | cons b rest =>
        obtain rfl := Option.some.inj slash
        refine ⟨turns rest, turns_append_slash first rest, .inr ?_⟩
        exact turns_append_slash [] rest
  · refine ⟨turns second, ?_, .inl rfl⟩
    have slash : first ++ bytes "/" ++ second = first ++ 47 :: second := by simp [bytes]
    rw [slash, turns_append_slash]

/-- The path keeps to the root. -/
def Confined (root : List Bytes) (path : Bytes) : Prop :=
  Within root [] (turns path)

/-- A name or path that does not lead up. -/
def Plain (path : Bytes) : Prop :=
  ∀ turn ∈ turns path, turn ≠ .up

instance (root : List Bytes) (path : Bytes) : Decidable (Confined root path) :=
  inferInstanceAs (Decidable (Within ..))

instance (path : Bytes) : Decidable (Plain path) :=
  inferInstanceAs (Decidable (∀ turn ∈ turns path, turn ≠ .up))

variable {root : List Bytes} {tree other : FileTree} {path name : Bytes}

theorem Confined.joinPath (confined : Confined root path) (plain : Plain name) :
    Confined root (joinPath path name) := by
  rcases turns_joinPath path name with ⟨more, joined, is⟩
  rw [Confined, joined]
  apply Within.append confined
  apply within_of_descending confined.2
  rcases is with is | is
  · rwa [Plain, is] at plain
  · rw [Plain, is] at plain
    exact fun turn member => plain turn (List.mem_cons_of_mem _ member)

/-- Two trees that look the same from a root. -/
structure Alike (root : List Bytes) (tree other : FileTree) : Prop where
  left : tree.Rooted root
  right : other.Rooted root
  agree : AgreeBelow root tree other

theorem Alike.file (alike : Alike root tree other) (confined : Confined root path) :
    tree.file path = other.file path :=
  find_congr alike.left.toRooted alike.right.toRooted alike.agree confined

theorem entries_cases {dirPath : Bytes} {entries : List Bytes} (alike : Alike root tree other)
    (listed : (fileSystem tree).entries dirPath = some entries) (member : name ∈ entries) :
    name = bytes "." ∨ name = bytes ".." ∨ ∃ place, (tree (place ++ [name])).isSome := by
  simp only [fileSystem] at listed
  split at listed
  case h_1 names found =>
    obtain rfl := Option.some.inj listed
    rcases List.mem_cons.mp member with rfl | member
    · exact .inl rfl
    rcases List.mem_cons.mp member with rfl | member
    · exact .inr (.inl rfl)
    rcases Option.bind_eq_some_iff.mp found with ⟨place, _, dir⟩
    exact .inr (.inr ⟨place, (alike.left.names place names true dir name).mp member⟩)
  · cases listed

/-- What an entry of a listing names is the same; only what is in the directory above the root
is not. -/
theorem Alike.entry (alike : Alike root tree other) {dirPath : Bytes} {entries : List Bytes}
    (confined : Confined root dirPath)
    (listed : (fileSystem tree).entries dirPath = some entries) (member : name ∈ entries) :
    tree.file (dirPath ++ 47 :: name) = other.file (dirPath ++ 47 :: name) ∨
      (tree.file (dirPath ++ 47 :: name)).map Node.isDir = some true ∧
        (other.file (dirPath ++ 47 :: name)).map Node.isDir = some true := by
  have behind : turns (dirPath ++ 47 :: name) = turns dirPath ++ turns name :=
    turns_append_slash dirPath name
  have plainly : Plain name → tree.file (dirPath ++ 47 :: name) =
      other.file (dirPath ++ 47 :: name) := by
    intro plain
    apply alike.file
    rw [Confined, behind]
    exact Within.append confined (within_of_descending confined.2 plain)
  rcases entries_cases alike listed member with rfl | rfl | ⟨place, some_⟩
  · exact .inl (plainly (by decide))
  · have up : turns (bytes "..") = [.up] := by decide
    rw [up] at behind
    have near := confined.near_up
    rw [← behind] at near
    rcases near _ destination_mem_visited with above | below
    · rcases find_above alike.left.toRooted alike.right.toRooted alike.agree near above with
        ⟨none_, none'⟩ | ⟨⟨_, _, dir⟩, _, _, dir'⟩
      · exact .inl (none_.trans none'.symm)
      · exact .inr ⟨congrArg (Option.map Node.isDir) dir, congrArg (Option.map Node.isDir) dir'⟩
    · exact .inl (alike.file ⟨near, below⟩)
  · have down := alike.left.proper _ some_ name (by simp)
    exact .inl (plainly (by simp [Plain, down]))

/-- What a listing shows of an entry is the same. -/
theorem Alike.fragmentText (alike : Alike root tree other) (c : Client) (shown : Bytes)
    {dirPath : Bytes} {entries : List Bytes} (confined : Confined root dirPath)
    (listed : (fileSystem tree).entries dirPath = some entries) (member : name ∈ entries) :
    (c.on tree).fragmentText dirPath shown name = (c.on other).fragmentText dirPath shown name := by
  have slash : dirPath ++ bytes "/" ++ name = dirPath ++ 47 :: name := by simp [bytes]
  rcases alike.entry confined listed member with same | ⟨dir, dir'⟩
  · have isDir := congrArg (Option.map Node.isDir) same
    simp only [Client.fragmentText, Client.on, fileSystem, slash, same]
  · simp [Client.fragmentText, Client.on, fileSystem, slash, dir, dir']

/-! ## What the handlers do -/

section Handlers

variable {c : Client} {req : ClientRequest} {fullPath : Bytes}

theorem mapM_congr {α β : Type} {f g : α → Except Fault β} {l : List α}
    (same : ∀ a ∈ l, f a = g a) : l.mapM f = l.mapM g := by
  induction l with
  | nil => rfl
  | cons a rest ih =>
      rcases List.forall_mem_cons.mp same with ⟨first, others⟩
      rw [List.mapM_cons, List.mapM_cons, first, ih others]

theorem bind_congr_ok {α β : Type} {x : Except Fault α} {f g : α → Except Fault β}
    (same : ∀ a, x = .ok a → f a = g a) : (x >>= f) = x >>= g := by
  cases x with
  | error e => rfl
  | ok a => exact same a rfl

theorem strcpy_bind_congr {β : Type} {size : Nat} {text : Bytes} {f g : Bytes → Except Fault β}
    (same : f text = g text) : (strcpy size text >>= f) = strcpy size text >>= g := by
  rw [strcpy]
  split
  · exact same
  · rfl

theorem Alike.pathExists (alike : Alike root tree other) {r : CString}
    (rooted : req.loc.root = some r) (confined : Confined root (joinPath r.text path)) :
    pathExists (c.on tree).outside req path = pathExists (c.on other).outside req path := by
  have same : (fileSystem tree).isDir (joinPath r.text path) =
      (fileSystem other).isDir (joinPath r.text path) :=
    congrArg (Option.map Node.isDir) (alike.file confined)
  simp only [Request.pathExists, rooted]
  apply strcpy_bind_congr
  simp only [Client.on, same]

theorem Alike.opens (alike : Alike root tree other) (confined : Confined root path) :
    (fileSystem tree).opens path = (fileSystem other).opens path := by
  simp only [fileSystem, alike.file confined]

theorem Alike.openDefaultIndexFile (alike : Alike root tree other)
    (confined : Confined root fullPath) {indexFiles : List Bytes}
    (plain : ∀ indexFile ∈ indexFiles, Plain indexFile) :
    openDefaultIndexFile (c.on tree).outside fullPath indexFiles =
      openDefaultIndexFile (c.on other).outside fullPath indexFiles := by
  induction indexFiles with
  | nil => rfl
  | cons indexFile rest ih =>
      rcases List.forall_mem_cons.mp plain with ⟨first, others⟩
      have same : (c.on tree).outside.fs.opens (joinPath fullPath indexFile) =
          (c.on other).outside.fs.opens (joinPath fullPath indexFile) :=
        alike.opens (confined.joinPath first)
      rw [Request.openDefaultIndexFile, Request.openDefaultIndexFile, ih others]
      apply strcpy_bind_congr
      simp only [same]

/-- A file is the same to a client, with its size and its content. -/
theorem Alike.serveFile (alike : Alike root tree other) (confined : Confined root fullPath) :
    (c.on tree).sends (serveFile (c.on tree).outside req fullPath) =
      (c.on other).sends (serveFile (c.on other).outside req fullPath) := by
  have size : (fileSystem tree).size fullPath = (fileSystem other).size fullPath := by
    simp only [fileSystem, alike.file confined]
  have content : fileContent tree fullPath = fileContent other fullPath := by
    simp only [fileContent, alike.file confined]
  have mime : getMimeType (c.on tree).outside fullPath = getMimeType (c.on other).outside fullPath :=
    rfl
  simp only [Client.sends, Request.serveFile, mime]
  cases getMimeType (c.on other).outside fullPath with
  | error e => rfl
  | ok mimeType =>
      simp [bind, Except.bind, World.emit, Client.replies, Client.reply, Client.on, size, content]

theorem sendErrorResponse_on (code : Nat) (msg path : Bytes) :
    (c.on tree).sends (sendErrorResponse req code msg path) =
      (c.on other).sends (sendErrorResponse req code msg path) := by
  simp only [Client.sends, sendErrorResponse]
  cases errorResponse (some req.server) code msg path <;> rfl

theorem notFound_on : (c.on tree).notFound req = (c.on other).notFound req :=
  sendErrorResponse_on ..

/-- Events that show nothing of the files. -/
def Event.Distant : Event → Prop
  | .respond (.file ..) | .respond (.listing _) => False
  | _ => True

theorem distant_emit {w : World} {event : Event} (before : ∀ e ∈ w.events, e.Distant)
    (here : event.Distant) : ∀ e ∈ (w.emit event).events, e.Distant := by
  intro e member
  rcases List.mem_append.mp member with old | new
  · exact before e old
  · rwa [List.mem_singleton.mp new]

theorem passUpstream_distant {o : Outside} {w w' : World}
    (before : ∀ event ∈ w.events, event.Distant) (ran : passUpstream o req w = .ok w') :
    ∀ event ∈ w'.events, event.Distant := by
  rcases bind_eq_ok_iff.mp ran with ⟨chosen, _, ran⟩
  rcases chosen with _ | ⟨address, upstreams⟩
  · rwa [← Except.ok.inj ran]
  · simp only at ran
    split at ran
    · rwa [← Except.ok.inj ran]
    · rwa [← Except.ok.inj ran]
    · rcases bind_eq_ok_iff.mp ran with ⟨done, _, is⟩
      have far := @distant_emit { w with upstreams := upstreams }
        (.forward address (forward req.headers o.clientIp)) before trivial
      rw [← Except.ok.inj is]
      split
      · exact far
      · exact @distant_emit _ (.respond (.relayed done)) far trivial

theorem replies_on {events : List Event} (distant : ∀ event ∈ events, event.Distant) :
    (c.on tree).replies events = (c.on other).replies events := by
  apply List.flatMap_congr
  intro event member
  have far := distant event member
  match event with
  | .respond (.error ..) | .respond (.relayed _) | .forward .. => rfl
  | .respond (.file ..) | .respond (.listing _) => exact far.elim

theorem handleProxyPass_on :
    (c.on tree).sends (handleProxyPass (c.on tree).outside req) =
      (c.on other).sends (handleProxyPass (c.on other).outside req) := by
  have same : handleProxyPass (c.on tree).outside req = handleProxyPass (c.on other).outside req :=
    rfl
  rw [Client.sends, Client.sends, same]
  cases ran : handleProxyPass (c.on other).outside req ⟨c.upstreams, []⟩ with
  | error e =>
      have failed : ∀ t : FileTree, handleProxyPass (c.on other).outside req
          ⟨(c.on t).upstreams, []⟩ = .error e := fun _ => ran
      rw [failed, failed]
      rfl
  | ok w =>
      have done : ∀ t : FileTree, handleProxyPass (c.on other).outside req
          ⟨(c.on t).upstreams, []⟩ = .ok w := fun _ => ran
      rw [done, done]
      exact congrArg Except.ok (replies_on (passUpstream_distant (by simp) ran))

theorem Alike.showDirectoryListing (alike : Alike root tree other)
    (confined : Confined root fullPath) :
    (c.on tree).showDirectoryListing req fullPath =
      (c.on other).showDirectoryListing req fullPath := by
  have same : (fileSystem tree).entries fullPath = (fileSystem other).entries fullPath := by
    simp only [fileSystem, alike.file confined]
  have listed : (c.on tree).outside.fs.entries fullPath = (c.on other).outside.fs.entries fullPath :=
    same
  rw [Client.showDirectoryListing, Client.showDirectoryListing, listed]
  cases found : (c.on other).outside.fs.entries fullPath with
  | none =>
      dsimp only
      rw [notFound_on]
  | some entries =>
      have fragments : ∀ name ∈ entries.filter (· ≠ bytes "."),
          (c.on tree).fragment fullPath req.path name =
            (c.on other).fragment fullPath req.path name := by
        intro name member
        apply strcpy_bind_congr
        have shown := alike.fragmentText c req.path confined
          (same.trans found) (List.mem_of_mem_filter member)
        rw [shown]
      dsimp only
      rw [mapM_congr fragments]

/-- The path of the request keeps to the root, and so do the index files. -/
structure KeepsTo (root : List Bytes) (req : ClientRequest) (r : CString) : Prop where
  rooted : req.loc.root = some r
  path : Confined root (joinPath r.text req.path)
  indexFiles : ∀ indexFile ∈ req.server.indexFiles, Plain indexFile

variable {r : CString}

theorem fullPath_of_pathExists {o : Outside} {isDir : Option Bool} (rooted : req.loc.root = some r)
    (found : Request.pathExists o req path = .ok (fullPath, isDir)) :
    fullPath = joinPath r.text path := by
  rw [pathExists_eq rooted] at found
  split at found
  · rw [← (Prod.mk.inj (Except.ok.inj found)).1]
  · cases found

theorem confined_of_openDefaultIndexFile {o : Outside} {indexPath : Bytes} {indexFiles : List Bytes}
    (confined : Confined root fullPath) (plain : ∀ indexFile ∈ indexFiles, Plain indexFile)
    (opened : Request.openDefaultIndexFile o fullPath indexFiles = .ok (some indexPath)) :
    Confined root indexPath := by
  induction indexFiles with
  | nil => cases opened
  | cons indexFile rest ih =>
      rcases List.forall_mem_cons.mp plain with ⟨first, others⟩
      rcases bind_eq_ok_iff.mp opened with ⟨copied, fits, opened⟩
      split at opened
      · obtain rfl := Option.some.inj (Except.ok.inj opened)
        rw [strcpy] at fits
        split at fits
        · rw [← Except.ok.inj fits]
          exact confined.joinPath first
        · cases fits
      · exact ih others opened

theorem Alike.handleGetVerb (alike : Alike root tree other) (keeps : KeepsTo root req r) :
    (c.on tree).handleGetVerb req = (c.on other).handleGetVerb req := by
  rw [Client.handleGetVerb, Client.handleGetVerb, alike.pathExists keeps.rooted keeps.path]
  refine bind_congr_ok fun result found => ?_
  rcases result with ⟨fullPath, isDir⟩
  obtain rfl := fullPath_of_pathExists keeps.rooted found
  rcases isDir with _ | _ | _
  · dsimp only
    rw [notFound_on]
  · have opens : (c.on tree).outside.fs.opens (joinPath r.text req.path) =
        (c.on other).outside.fs.opens (joinPath r.text req.path) := alike.opens keeps.path
    dsimp only
    rw [opens, alike.serveFile keeps.path, notFound_on]
  · dsimp only
    rw [alike.openDefaultIndexFile keeps.path keeps.indexFiles]
    refine bind_congr_ok fun index opened => ?_
    cases index with
    | none =>
        dsimp only
        rw [alike.showDirectoryListing keeps.path, notFound_on]
    | some indexPath =>
        have confined := confined_of_openDefaultIndexFile keeps.path keeps.indexFiles opened
        dsimp only
        rw [alike.serveFile confined]

theorem serveDefaultFile_on :
    (c.on tree).serveDefaultFile req = (c.on other).serveDefaultFile req := by
  rw [Client.serveDefaultFile, Client.serveDefaultFile, handleProxyPass_on]

theorem Alike.handleTryFiles (alike : Alike root tree other) (keeps : KeepsTo root req r) :
    (c.on tree).handleTryFiles req = (c.on other).handleTryFiles req := by
  rw [Client.handleTryFiles, Client.handleTryFiles, alike.pathExists keeps.rooted keeps.path]
  refine bind_congr_ok fun result found => ?_
  rcases result with ⟨fullPath, isDir⟩
  obtain rfl := fullPath_of_pathExists keeps.rooted found
  rcases isDir with _ | _ | _
  · exact serveDefaultFile_on
  · have opens : (c.on tree).outside.fs.opens (joinPath r.text req.path) =
        (c.on other).outside.fs.opens (joinPath r.text req.path) := alike.opens keeps.path
    dsimp only
    rw [opens, alike.serveFile keeps.path, serveDefaultFile_on]
  · dsimp only
    rw [alike.openDefaultIndexFile keeps.path keeps.indexFiles]
    refine bind_congr_ok fun index opened => ?_
    cases index with
    | none =>
        dsimp only
        rw [alike.showDirectoryListing keeps.path, serveDefaultFile_on]
    | some indexPath =>
        have confined := confined_of_openDefaultIndexFile keeps.path keeps.indexFiles opened
        dsimp only
        rw [alike.serveFile confined, handleProxyPass_on]

theorem Alike.serveTarget (alike : Alike root tree other) {handler : Handler}
    (decided : c.decision = .ok (.handle handler req)) (rooted : req.loc.root = some r)
    {target : Bytes} (confined : Confined root (joinPath r.text target)) :
    (c.on tree).serveTarget target = (c.on other).serveTarget target := by
  have decided_on : ∀ t, (c.on t).decision = .ok (.handle handler req) := fun _ => decided
  have opens : (c.on tree).outside.fs.opens (joinPath r.text target) =
      (c.on other).outside.fs.opens (joinPath r.text target) := alike.opens confined
  simp only [Client.serveTarget, decided_on, alike.pathExists rooted confined]
  cases found : Request.pathExists (c.on other).outside req target with
  | error e => rfl
  | ok result =>
      rcases result with ⟨fullPath, isDir⟩
      obtain rfl := fullPath_of_pathExists rooted found
      by_cases dir : isDir = some true
      · simp only [dir, if_true, bind, Except.bind]
        exact sendErrorResponse_on ..
      · by_cases opened : (c.on other).outside.fs.opens (joinPath r.text target) = true
        · simp only [dir, opens, opened, if_true, if_false, bind, Except.bind]
          exact alike.serveFile confined
        · simp only [dir, opens, opened, if_false, bind, Except.bind]
          exact sendErrorResponse_on ..

theorem Alike.route {handler : Handler} (alike : Alike root tree other)
    (decided : c.decision = .ok (.handle handler req)) (keeps : KeepsTo root req r) :
    (c.on tree).route = (c.on other).route := by
  have decided_on : ∀ t, (c.on t).decision = .ok (.handle handler req) := fun _ => decided
  simp only [Client.route, decided_on, bind, Except.bind]
  cases handler with
  | tryFiles => exact alike.handleTryFiles keeps
  | byVerb => exact alike.handleGetVerb keeps
  | proxyPass =>
      have same := @handleProxyPass_on tree other c req
      dsimp only
      rw [same]
  | fastcgiPass =>
      have same := @handleProxyPass_on tree other c req
      rw [handleProxyPass] at same
      dsimp only [handleFastCGIPass]
      rw [same]

/-- A client whose request keeps to the root gets an answer that does not depend on anything
outside of it. -/
theorem alone_of_keepsTo {handler : Handler} (alike : Alike root tree other)
    (decided : c.decision = .ok (.handle handler req)) (keeps : KeepsTo root req r)
    (falls : ∀ target, checkTryFilesFormat req.loc = some target →
      Confined root (joinPath r.text target)) :
    (c.on tree).alone = (c.on other).alone := by
  have decided_on : ∀ t, (c.on t).decision = .ok (.handle handler req) := fun _ => decided
  have tested : ∀ target, (c.on tree).front target = (c.on other).front target := by
    intro target
    have isSome : (c.on tree).target.isSome = (c.on other).target.isSome := rfl
    rw [Client.front, Client.front, isSome]
    cases target with
    | some target => rfl
    | none =>
        have same : (c.on tree).testTarget none = (c.on other).testTarget none := by
          simp only [Client.testTarget, decided_on]
          exact notFound_on
        rw [same]
  have target : (c.on tree).target = (c.on other).target := rfl
  rw [Client.alone, Client.alone, Client.answer, Client.answer, target, tested,
    alike.route decided keeps]
  refine bind_congr_ok fun front _ => bind_congr_ok fun route _ => ?_
  cases route with
  | reply replies => rfl
  | list fragments => rfl
  | fallBack =>
      cases is : (c.on other).target.getD none with
      | none => rfl
      | some target =>
          have format : checkTryFilesFormat req.loc = some target := by
            rw [Client.target, decided_on] at is
            cases handler with
            | tryFiles => exact is
            | proxyPass | fastcgiPass | byVerb => cases is
          have served := alike.serveTarget decided keeps.rooted (falls target format)
          simp only [Client.Route.answer, served]

end Handlers

/-! ## Leaving the root -/

theorem notMem_of_mem_splitOn {sep : UInt8} (mem : name ∈ path.splitOn sep) : sep ∉ name := by
  induction path generalizing name with
  | nil =>
      obtain rfl := List.mem_singleton.mp (List.splitOn_nil sep ▸ mem)
      exact List.not_mem_nil
  | cons b rest ih =>
      rw [List.splitOn_cons_eq_if_modifyHead] at mem
      split at mem
      · rcases List.mem_cons.mp mem with rfl | mem
        · exact List.not_mem_nil
        · exact ih mem
      case isFalse other =>
        cases split : rest.splitOn sep with
        | nil => exact absurd split (List.splitOn_ne_nil sep rest)
        | cons first others =>
            rw [split] at mem ih
            rcases List.mem_cons.mp mem with rfl | mem
            · have free : sep ∉ first := ih List.mem_cons_self
              rw [List.mem_cons, not_or]
              exact ⟨fun same => other (beq_iff_eq.mpr same.symm), free⟩
            · exact ih (List.mem_cons_of_mem first mem)

/-- Names that a path asks for are names. -/
theorem turns_of_down (down : .down name ∈ turns path) : turns name = [.down name] := by
  rcases List.mem_map.mp down with ⟨part, member, is⟩
  have same : part = name := by
    rw [turnOf] at is
    split at is
    · cases is
    · split at is
      · cases is
      · exact Turn.down.inj is
  subst same
  rw [turns, List.splitOn_eq_singleton (notMem_of_mem_splitOn member), List.map_singleton, is]

section Leaving

variable {c : Client} {req : ClientRequest} {r : CString} {places : List (List Bytes)}

theorem rooted_places (member : root ∈ places)
    (proper : ∀ place ∈ places, ∀ name ∈ place, turns name = [.down name]) :
    FileTree.Rooted root (grown LocalFile root places) :=
  { rooted_grown member with
    proper := by
      intro place some_ name inside
      rcases isSome_grown.mp some_ with ⟨target, listed, above⟩
      exact proper target listed name (above.subset inside) }

theorem alike_places (member : root ∈ places)
    (proper : ∀ place ∈ places, ∀ name ∈ place, turns name = [.down name]) :
    Alike root (grown LocalFile root places)
      (grown LocalFile root (places.filter (Near root ·))) where
  left := rooted_places member proper
  right := by
    apply rooted_places
    · exact List.mem_filter.mpr ⟨member, by simp [Near]⟩
    · exact fun place inside => proper place (List.mem_of_mem_filter inside)
  agree := agreeBelow_grown

/-- The answer of a thread that serves a file by its verb. -/
theorem alone_of_byVerb (decided : c.decision = .ok (.handle .byVerb req)) :
    c.alone = c.handleGetVerb req >>= fun route => route.answer c none [] [] := by
  have target : c.target = none := by rw [Client.target, decided]
  have front : c.front none = .ok [] := by
    rw [Client.front, target]
    rfl
  have route : c.route = c.handleGetVerb req := by
    simp only [Client.route, decided, bind, Except.bind]
  rw [Client.alone, target, Client.answer, Option.getD_none, front, route]
  rfl

/-- Nothing has been found. -/
def Missing (answer : Except Fault (List Reply)) : Prop :=
  answer = .error .nullPointer ∨ ∃ msg, answer = .ok [.error 404 msg]

/-- A file has been found, even if its type is too long. -/
def Found (answer : Except Fault (List Reply)) : Prop :=
  answer = .error .outOfBounds ∨ ∃ mimeType size content, answer = .ok [.file mimeType size content]

theorem Missing.not_found {answer : Except Fault (List Reply)} (missing : Missing answer) :
    ¬ Found answer := by
  rintro (rfl | ⟨mimeType, size, content, rfl⟩)
  · rcases missing with other | ⟨_, other⟩ <;> cases other
  · rcases missing with other | ⟨_, other⟩ <;> cases other

theorem missing_notFound (req : ClientRequest) : Missing (c.notFound req) := by
  simp only [Client.notFound, Client.sends, sendErrorResponse, errorResponse]
  split
  · exact .inl rfl
  · exact .inr ⟨_, rfl⟩

theorem eq_of_strcpy {size : Nat} {text : Bytes} {e : Fault} (failed : strcpy size text = .error e) :
    e = .outOfBounds := by
  rw [strcpy] at failed
  split at failed
  · cases failed
  · exact (Except.error.inj failed).symm

theorem bind_eq_error {α β : Type} {x : Except Fault α} {f : α → Except Fault β} {e : Fault}
    (failed : (x >>= f) = .error e) : x = .error e ∨ ∃ a, x = .ok a ∧ f a = .error e := by
  cases x with
  | error e' => exact .inl (congrArg Except.error (Except.error.inj failed))
  | ok a => exact .inr ⟨a, rfl, failed⟩

theorem found_serveFile (fullPath : Bytes) :
    Found (c.sends (serveFile c.outside req fullPath)) := by
  rw [Client.sends, serveFile]
  cases mime : getMimeType c.outside fullPath with
  | error e =>
      refine .inl (congrArg Except.error ?_)
      rw [getMimeType] at mime
      rcases bind_eq_error mime with failed | ⟨_, _, failed⟩
      · exact eq_of_strcpy failed
      · split at failed
        · cases failed
        · exact eq_of_strcpy failed
  | ok mimeType => exact .inr ⟨mimeType, _, _, rfl⟩

theorem missing_byVerb (decided : c.decision = .ok (.handle .byVerb req))
    (routed : c.handleGetVerb req = do .ok (.reply (← c.notFound req))) : Missing c.alone := by
  rw [alone_of_byVerb decided, routed]
  rcases @missing_notFound c req with failed | ⟨msg, sent⟩
  · rw [failed]
    exact .inl rfl
  · rw [sent]
    exact .inr ⟨msg, rfl⟩

theorem found_byVerb {fullPath : Bytes} (decided : c.decision = .ok (.handle .byVerb req))
    (routed : c.handleGetVerb req =
      do .ok (.reply (← c.sends (serveFile c.outside req fullPath)))) : Found c.alone := by
  rw [alone_of_byVerb decided, routed]
  rcases @found_serveFile c req fullPath with failed | ⟨mimeType, size, content, sent⟩
  · rw [failed]
    exact .inl rfl
  · rw [sent]
    exact .inr ⟨mimeType, size, content, rfl⟩

/-- Names of index files that are no part of the root, and short enough. -/
structure Indexed (root : List Bytes) (fullPath : Bytes) (indexFiles : List Bytes) : Prop where
  nonempty : indexFiles ≠ []
  name : ∀ indexFile ∈ indexFiles, turns indexFile = [.down indexFile]
  other : ∀ indexFile ∈ indexFiles, indexFile ∉ root
  fits : ∀ indexFile ∈ indexFiles, (joinPath fullPath indexFile).length < 300

variable {fullPath : Bytes} {indexFiles : List Bytes}

theorem Indexed.turns_joinPath (indexed : Indexed root fullPath indexFiles) {indexFile : Bytes}
    (member : indexFile ∈ indexFiles) :
    turns (joinPath fullPath indexFile) = turns fullPath ++ [.down indexFile] := by
  rcases Request.turns_joinPath fullPath indexFile with ⟨more, joined, is⟩
  rw [indexed.name indexFile member] at is
  rcases is with rfl | other
  · exact joined
  · cases other

theorem Indexed.short (indexed : Indexed root fullPath indexFiles) : fullPath.length < 300 := by
  rcases List.exists_mem_of_ne_nil _ indexed.nonempty with ⟨indexFile, member⟩
  refine Nat.lt_of_le_of_lt ?_ (indexed.fits indexFile member)
  rw [joinPath]
  split <;> simp

theorem pathExists_of_short {o : Outside} (rooted : req.loc.root = some r)
    (is : fullPath = joinPath r.text req.path) (short : fullPath.length < 300) :
    pathExists o req req.path = .ok (fullPath, o.fs.isDir fullPath) := by
  rw [pathExists_eq rooted, ← is, if_pos short]

theorem Indexed.opens (indexed : Indexed root fullPath indexFiles) {o : Outside}
    (opens : ∀ indexFile ∈ indexFiles, o.fs.opens (joinPath fullPath indexFile) = true) :
    ∃ indexPath, openDefaultIndexFile o fullPath indexFiles = .ok (some indexPath) := by
  cases indexFiles with
  | nil => exact absurd rfl indexed.nonempty
  | cons indexFile rest =>
      refine ⟨joinPath fullPath indexFile, ?_⟩
      have fits := indexed.fits indexFile List.mem_cons_self
      have opened := opens indexFile List.mem_cons_self
      simp [openDefaultIndexFile, strcpy, fits, opened, bind, Except.bind]

theorem openDefaultIndexFile_none {o : Outside}
    (fits : ∀ indexFile ∈ indexFiles, (joinPath fullPath indexFile).length < 300)
    (closed : ∀ indexFile ∈ indexFiles, o.fs.opens (joinPath fullPath indexFile) = false) :
    openDefaultIndexFile o fullPath indexFiles = .ok none := by
  induction indexFiles with
  | nil => rfl
  | cons indexFile rest ih =>
      rcases List.forall_mem_cons.mp fits with ⟨short, shorts⟩
      rcases List.forall_mem_cons.mp closed with ⟨here, others⟩
      simp [openDefaultIndexFile, strcpy, short, here, ih shorts others, bind, Except.bind]

/-- The places that a request for a directory comes to. -/
def comesTo (root : List Bytes) (fullPath : Bytes) (indexFiles : List Bytes) :
    List (List Bytes) :=
  root :: visited [] (turns fullPath) ++
    indexFiles.map fun indexFile => destination [] (turns fullPath) ++ [indexFile]

theorem proper_comesTo (proper : ∀ name ∈ root, turns name = [.down name])
    (names : ∀ indexFile ∈ indexFiles, turns indexFile = [.down indexFile]) :
    ∀ place ∈ comesTo root fullPath indexFiles, ∀ name ∈ place, turns name = [.down name] := by
  have onTheWay : ∀ place ∈ visited [] (turns fullPath), ∀ name ∈ place,
      turns name = [.down name] := by
    intro place member name inside
    rcases name_of_visited member inside with none_ | down
    · cases none_
    · exact turns_of_down down
  intro place member name inside
  rcases List.mem_append.mp member with member | member
  · rcases List.mem_cons.mp member with rfl | member
    · exact proper name inside
    · exact onTheWay place member name inside
  · rcases List.mem_map.mp member with ⟨indexFile, listed, rfl⟩
    rcases List.mem_append.mp inside with inside | last
    · exact onTheWay _ destination_mem_visited name inside
    · rw [List.mem_singleton.mp last]
      exact names indexFile listed

/-- Where everything that the request comes to is there, it finds an index file. -/
theorem found_grown (decided : c.decision = .ok (.handle .byVerb req))
    (rooted : req.loc.root = some r) (is : fullPath = joinPath r.text req.path)
    (indexed : Indexed root fullPath req.server.indexFiles) :
    Found (c.on (grown LocalFile root (comesTo root fullPath req.server.indexFiles))).alone := by
  set tree : FileTree := grown LocalFile root (comesTo root fullPath req.server.indexFiles)
    with treeIs
  have dirs : ∀ through ∈ visited [] (turns fullPath), tree.isDir through := by
    intro through member
    refine isDir_grown.mpr ⟨through, ?_, List.prefix_rfl⟩
    exact List.mem_append_left _ (List.mem_cons_of_mem root member)
  have walked := Tree.walk_of_visited dirs
  have last : tree.isDir (destination [] (turns fullPath)) := dirs _ destination_mem_visited
  have isDir : (fileSystem tree).isDir fullPath = some true := by
    rcases Tree.exists_dir last with ⟨names, readable, dir⟩
    simp [fileSystem, FileTree.file, Tree.find, walked, dir, Node.isDir]
  have opens : ∀ indexFile ∈ req.server.indexFiles,
      (fileSystem tree).opens (joinPath fullPath indexFile) = true := by
    intro indexFile member
    have inside : destination [] (turns fullPath) ++ [indexFile] ∈
        comesTo root fullPath req.server.indexFiles :=
      List.mem_append_right _ (List.mem_map_of_mem member)
    have notAbove : destination [] (turns fullPath) ++ [indexFile] <+: root →
        destination [] (turns fullPath) ++ [indexFile] = root := by
      intro above
      exact absurd (above.subset (by simp)) (indexed.other indexFile member)
    rcases @grown_of_mem _ LocalFile _ _ _ _ inside notAbove with ⟨names, node⟩
    have file : tree.file (joinPath fullPath indexFile) = some (.dir names true) := by
      rw [FileTree.file, indexed.turns_joinPath member, Tree.find, Tree.walk_append, walked]
      simp only [Option.bind_some, Tree.walk, last, if_true, Turn.from]
      exact node
    simp only [fileSystem, file]
  have decided' : (c.on tree).decision = .ok (.handle .byVerb req) := decided
  rcases indexed.opens (o := (c.on tree).outside) opens with ⟨indexPath, opened⟩
  have isDir' : (c.on tree).outside.fs.isDir fullPath = some true := isDir
  apply @found_byVerb _ _ indexPath decided'
  simp only [Client.handleGetVerb, pathExists_of_short rooted is indexed.short, isDir', opened, bind,
    Except.bind]

/-- An index file of a directory above the root is beside the root. -/
theorem Indexed.closed (indexed : Indexed root fullPath indexFiles) {places : List (List Bytes)}
    (above : destination [] (turns fullPath) <+: root)
    (other : destination [] (turns fullPath) ≠ root) :
    ∀ indexFile ∈ indexFiles, (fileSystem (grown LocalFile root
      (places.filter (Near root ·)))).opens (joinPath fullPath indexFile) = false := by
  intro indexFile member
  have beside : ¬ Near root (destination [] (turns fullPath) ++ [indexFile]) := by
    rintro (inside | below)
    · exact indexed.other indexFile member (inside.subset (by simp))
    · rcases List.prefix_concat_iff.mp below with same | below
      · exact indexed.other indexFile member (by simp [same])
      · exact other (above.eq_of_length_le below.length_le)
  have nothing : FileTree.file (grown LocalFile root (places.filter (Near root ·)))
      (joinPath fullPath indexFile) = none := by
    apply find_grown_of_beside
    rw [indexed.turns_joinPath member]
    intro all
    apply beside
    apply all
    rw [mem_visited_append]
    exact .inr (List.mem_cons_of_mem _ (List.mem_singleton_self _))
  simp only [fileSystem, nothing]

/-- Where there is nothing but the root, a request that does not keep to it finds nothing. -/
theorem missing_grown {places : List (List Bytes)} (member : root ∈ places)
    (decided : c.decision = .ok (.handle .byVerb req))
    (rooted : req.loc.root = some r) (is : fullPath = joinPath r.text req.path)
    (indexed : Indexed root fullPath req.server.indexFiles) (leaves : ¬ Confined root fullPath) :
    Missing (c.on (grown LocalFile root (places.filter (Near root ·)))).alone := by
  set tree : FileTree := grown LocalFile root (places.filter (Near root ·)) with treeIs
  have decided' : (c.on tree).decision = .ok (.handle .byVerb req) := decided
  apply missing_byVerb decided'
  by_cases near : ∀ through ∈ visited [] (turns fullPath), Near root through
  · -- The request ends in a directory above the root.
    have above : destination [] (turns fullPath) <+: root := by
      rcases near _ destination_mem_visited with above | below
      · exact above
      · exact absurd ⟨near, below⟩ leaves
    have other : destination [] (turns fullPath) ≠ root := by
      intro same
      exact leaves ⟨near, same ▸ List.prefix_rfl⟩
    cases found : tree.file fullPath with
    | none =>
        have isDir : (c.on tree).outside.fs.isDir fullPath = none :=
          congrArg (Option.map Node.isDir) found
        simp only [Client.handleGetVerb, pathExists_of_short rooted is indexed.short, isDir, bind,
          Except.bind]
    | some node =>
        rcases Option.bind_eq_some_iff.mp found with ⟨place, walked, at_⟩
        obtain rfl := Tree.walk_eq_some walked
        have start : root ∈ places.filter (Near root ·) :=
          List.mem_filter.mpr ⟨member, by simp [Near]⟩
        have dir := (@rooted_grown _ LocalFile _ _ _ start).isDir_above above
          (rooted_grown start).root
        rcases grown_above dir above other with ⟨names, unreadable⟩
        rw [← treeIs, at_] at unreadable
        rw [Option.some.inj unreadable] at found
        have isDir : (c.on tree).outside.fs.isDir fullPath = some true :=
          congrArg (Option.map Node.isDir) found
        have entries : (c.on tree).outside.fs.entries fullPath = none := by
          simp only [Client.on, fileSystem, found]
        have closed := @openDefaultIndexFile_none fullPath _ (c.on tree).outside indexed.fits
          (indexed.closed above other)
        simp only [Client.handleGetVerb, pathExists_of_short rooted is indexed.short, isDir, closed, bind,
          Except.bind, Client.showDirectoryListing, entries, ite_self]
  · have nothing : tree.file fullPath = none := find_grown_of_beside near
    have isDir : (c.on tree).outside.fs.isDir fullPath = none :=
      congrArg (Option.map Node.isDir) nothing
    simp only [Client.handleGetVerb, pathExists_of_short rooted is indexed.short, isDir, bind,
      Except.bind]

/-- A request for a file gets an answer that does not depend on anything outside of the root, if
and only if its path keeps to the root. -/
theorem alone_independent_iff (decided : c.decision = .ok (.handle .byVerb req))
    (rooted : req.loc.root = some r) (proper : ∀ name ∈ root, turns name = [.down name])
    (indexed : Indexed root (joinPath r.text req.path) req.server.indexFiles) :
    (∀ tree other, Alike root tree other → (c.on tree).alone = (c.on other).alone) ↔
      Confined root (joinPath r.text req.path) := by
  constructor
  · intro independent
    by_contra leaves
    have start : root ∈ comesTo root (joinPath r.text req.path) req.server.indexFiles :=
      List.mem_append_left _ List.mem_cons_self
    have same := independent _ _ (alike_places start (proper_comesTo proper indexed.name))
    have found := found_grown decided rooted rfl indexed
    have missing := missing_grown start decided rooted rfl indexed leaves
    rw [same] at found
    exact missing.not_found found
  · intro confined tree other alike
    have keeps : KeepsTo root req r :=
      { rooted := rooted
        path := confined
        indexFiles := fun indexFile member => by simp [Plain, indexed.name indexFile member] }
    have decided_on : ∀ t, (c.on t).decision = .ok (.handle .byVerb req) := fun _ => decided
    rw [alone_of_byVerb (decided_on tree), alone_of_byVerb (decided_on other),
      alike.handleGetVerb keeps]
    refine bind_congr_ok fun route _ => ?_
    cases route <;> rfl

end Leaving

/-! ## Two trees -/

/-- The places of the document root by default. -/
def htmlRoot : List Bytes :=
  [bytes "var", bytes "www", bytes "ogws", bytes "html"]

/-- The document root, and a file beside it. -/
def withSecret : List (List Bytes) :=
  [htmlRoot ++ [bytes "a"], htmlRoot, [bytes "etc", bytes "secret"]]

theorem alike_withSecret :
    Alike htmlRoot (grown LocalFile htmlRoot withSecret)
      (grown LocalFile htmlRoot (withSecret.filter (Near htmlRoot ·))) :=
  alike_places (by decide) (by decide)

/-- A client that asks for a path. -/
def asking (path : Bytes) (servers : List Server) (listener : Server) : Client :=
  { Client.visitor (Client.oneFileEach fun _ => true) servers listener with
    received := bytes "GET " ++ path ++ bytes " HTTP/1.1\r\nHost: b\r\n\r\n" }

/-- Whoever asks for a file in the root does not learn of the other file. -/
theorem alone_of_keepsTo_inside :
    ∃ s t listener, Client.autoindex443.parse (fun _ => none) = .ok s ∧
      checkServers .permissive s = .ok t ∧ listener ∈ t.serverList ∧
      ((asking (bytes "/a") t.serverList listener).on
          (grown LocalFile htmlRoot withSecret)).alone =
        ((asking (bytes "/a") t.serverList listener).on
          (grown LocalFile htmlRoot (withSecret.filter (Near htmlRoot ·)))).alone := by
  have decides : ∃ s t listener, Client.autoindex443.parse (fun _ => none) = .ok s ∧
      checkServers .permissive s = .ok t ∧ listener ∈ t.serverList ∧
      ∃ req, (asking (bytes "/a") t.serverList listener).decision = .ok (.handle .byVerb req) ∧
        KeepsTo htmlRoot req (.literal "/var/www/ogws/html") ∧
        checkTryFilesFormat req.loc = none :=
    ⟨_, _, _, rfl, rfl, List.mem_cons_self, _, rfl, ⟨rfl, by decide, by decide⟩, rfl⟩
  rcases decides with ⟨s, t, listener, parsed, accepted, listening, req, decided, keeps, none_⟩
  refine ⟨s, t, listener, parsed, accepted, listening, ?_⟩
  exact alone_of_keepsTo alike_withSecret decided keeps fun _ other => by simp [none_] at other

/-- Whoever asks for a file beside the root may learn of it. -/
theorem alone_independent_iff_outside :
    ∃ s t listener, Client.autoindex443.parse (fun _ => none) = .ok s ∧
      checkServers .permissive s = .ok t ∧ listener ∈ t.serverList ∧
      ∃ tree other, Alike htmlRoot tree other ∧
        ((asking (bytes "/../../x") t.serverList listener).on tree).alone ≠
          ((asking (bytes "/../../x") t.serverList listener).on other).alone := by
  have decides : ∃ s t listener, Client.autoindex443.parse (fun _ => none) = .ok s ∧
      checkServers .permissive s = .ok t ∧ listener ∈ t.serverList ∧
      ∃ req, (asking (bytes "/../../x") t.serverList listener).decision =
          .ok (.handle .byVerb req) ∧
        req.loc.root = some (.literal "/var/www/ogws/html") ∧
        req.path = bytes "/../../x" ∧ req.server.indexFiles = [bytes "index.html"] :=
    ⟨_, _, _, rfl, rfl, List.mem_cons_self, _, rfl, rfl, by decide, rfl⟩
  rcases decides with
    ⟨s, t, listener, parsed, accepted, listening, req, decided, rooted, path, indexFiles⟩
  refine ⟨s, t, listener, parsed, accepted, listening, ?_⟩
  have indexed : Indexed htmlRoot (joinPath (CString.literal "/var/www/ogws/html").text req.path)
      req.server.indexFiles := by
    rw [path, indexFiles]
    exact ⟨by decide, by decide, by decide, by decide⟩
  have leaves : ¬ Confined htmlRoot
      (joinPath (CString.literal "/var/www/ogws/html").text req.path) := by
    rw [path]
    decide
  have exact_ := alone_independent_iff decided rooted (by decide) indexed
  by_contra same
  refine leaves (exact_.mp fun tree other alike => ?_)
  by_contra differ
  exact same ⟨tree, other, alike, differ⟩

end OgWebserver.Request

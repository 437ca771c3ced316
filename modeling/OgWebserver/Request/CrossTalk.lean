import OgWebserver.Request.Alone

/-!
# Cross-talk

When do two threads of the TLS server answer their clients as each would alone, in any
order of their steps?  Two listings must not share the list, unless both are empty, and two
requests to `try_files` must not tell their targets apart.
-/

namespace OgWebserver.Request

open Text Config Transition

namespace Client

/-! ## Files of targets -/

/-- A file that can be opened, and no directory. -/
def isFile (c : Client) (fullPath : Bytes) : Bool :=
  c.outside.fs.isDir fullPath != some true && c.outside.fs.opens fullPath

/-- Two files of the same type, size and (for GET) content, or no files. -/
structure SameFile (c : Client) (req : ClientRequest) (first second : Bytes) : Prop where
  isFile : c.isFile first = c.isFile second
  mimeType : c.isFile first = true → getMimeType c.outside first = getMimeType c.outside second
  size : c.isFile first = true → c.outside.fs.size first = c.outside.fs.size second
  content : c.isFile first = true → req.verb = bytes "GET" → c.content first = c.content second

/-- What is sent for a path: the file, or 404. -/
def sendsFound (c : Client) (req : ClientRequest) (fullPath : Bytes) : Except Fault (List Reply) :=
  if c.isFile fullPath then c.sends (serveFile c.outside req fullPath) else c.notFound req

/-- A target that can be looked up in the place of another one: its path fits into the buffer of
`pathExists`, and the same is found there. -/
def SameTarget (c : Client) (other target : Bytes) : Prop :=
  ∀ handler req root, c.decision = .ok (.handle handler req) → req.loc.root = some root →
    (joinPath root.text other).length < 300 ∧
      c.SameFile req (joinPath root.text other) (joinPath root.text target)

section Targets

variable {c : Client} {handler : Handler} {req : ClientRequest} {root : CString}
variable {fullPath other target : Bytes} {replies : List Reply}

/-- The path of an error response is only logged. -/
theorem sends_sendErrorResponse (code : Nat) (msg path path' : Bytes) :
    c.sends (sendErrorResponse req code msg path) =
      c.sends (sendErrorResponse req code msg path') := by
  simp only [sends, sendErrorResponse, errorResponse]
  split <;> rfl

theorem replies_of_notFound (sent : c.notFound req = .ok replies) :
    replies = [.error 404 (bytes "Not Found")] := by
  rcases bind_eq_ok_iff.mp sent with ⟨w, responded, is⟩
  rcases bind_eq_ok_iff.mp responded with ⟨_, _, emitted⟩
  rw [← Except.ok.inj is, ← Except.ok.inj emitted]
  rfl

theorem sends_serveFile_eq_ok_iff :
    c.sends (serveFile c.outside req fullPath) = .ok replies ↔
      ∃ mimeType, getMimeType c.outside fullPath = .ok mimeType ∧
        replies = [.file mimeType (c.outside.fs.size fullPath)
          (if req.verb = bytes "GET" then some (c.content fullPath) else none)] := by
  have body : (if (req.verb == bytes "GET") = true then some (c.content fullPath) else none) =
      if req.verb = bytes "GET" then some (c.content fullPath) else none := by
    simp only [beq_iff_eq]
  constructor
  · intro sent
    rcases bind_eq_ok_iff.mp sent with ⟨w, ran, is⟩
    rcases bind_eq_ok_iff.mp ran with ⟨mimeType, typed, emitted⟩
    refine ⟨mimeType, typed, ?_⟩
    rw [← Except.ok.inj is, ← Except.ok.inj emitted, ← body]
    rfl
  · rintro ⟨mimeType, typed, rfl⟩
    simp only [sends, serveFile, typed, ← body]
    rfl

/-- What `serveDefaultFile` sends is decided by what its path names. -/
theorem serveTarget_eq (decided : c.decision = .ok (.handle handler req))
    (is : req.loc.root = some root) :
    c.serveTarget target =
      if (joinPath root.text target).length < 300 then
        c.sendsFound req (joinPath root.text target)
      else .error .outOfBounds := by
  have missing : c.notFound req =
      c.sends (sendErrorResponse req 404 (bytes "Not Found") target) :=
    sends_sendErrorResponse ..
  rw [sendsFound, missing]
  simp only [serveTarget, decided, sends, pathExists, is, strcpy]
  by_cases fits : (joinPath root.text target).length < 300
  · simp only [fits, if_pos]
    by_cases directory : c.outside.fs.isDir (joinPath root.text target) = some true
    · have noFile : c.isFile (joinPath root.text target) = false := by
        simp [isFile, directory]
      simp [bind, Except.bind, noFile, directory]
    · by_cases opens : c.outside.fs.opens (joinPath root.text target) = true
      · have file : c.isFile (joinPath root.text target) = true := by
          simp [isFile, directory, opens]
        simp [bind, Except.bind, file, directory, opens]
      · have noFile : c.isFile (joinPath root.text target) = false := by
          simp [isFile, opens]
        simp [bind, Except.bind, noFile, directory, opens]
  · simp only [fits, if_neg, not_false_eq_true]
    rfl

theorem sendsFound_eq_iff {first second : Bytes}
    (sent : c.sendsFound req second = .ok replies) :
    c.sendsFound req first = .ok replies ↔ c.SameFile req first second := by
  rw [sendsFound] at sent ⊢
  cases isFile : c.isFile first <;> cases isFile' : c.isFile second
  case false.false =>
    rw [isFile', if_neg (by simp)] at sent
    rw [if_neg (by simp)]
    refine iff_of_true sent ⟨isFile.trans isFile'.symm, ?_, ?_, ?_⟩ <;> simp [isFile]
  case false.true =>
    rw [isFile', if_pos rfl] at sent
    rw [if_neg (by simp)]
    refine iff_of_false ?_ ?_
    · intro missing
      obtain ⟨mimeType, _, same⟩ := sends_serveFile_eq_ok_iff.mp sent
      rw [replies_of_notFound missing] at same
      cases same
    · intro same
      rw [same.isFile, isFile'] at isFile
      cases isFile
  case true.false =>
    rw [isFile', if_neg (by simp)] at sent
    rw [if_pos rfl]
    refine iff_of_false ?_ ?_
    · intro found
      obtain ⟨mimeType, _, same⟩ := sends_serveFile_eq_ok_iff.mp found
      rw [replies_of_notFound sent] at same
      cases same
    · intro same
      rw [same.isFile, isFile'] at isFile
      cases isFile
  case true.true =>
    rw [isFile', if_pos rfl] at sent
    rw [if_pos rfl, sends_serveFile_eq_ok_iff]
    rcases sends_serveFile_eq_ok_iff.mp sent with ⟨mimeType, typed, rfl⟩
    constructor
    · rintro ⟨mimeType', typed', same⟩
      obtain ⟨rfl, size, content⟩ : mimeType = mimeType' ∧ _ = _ ∧ _ = _ := by
        simpa using same
      refine ⟨isFile.trans isFile'.symm, fun _ => typed'.trans typed.symm, fun _ => size.symm, ?_⟩
      intro _ get
      simpa [get] using content.symm
    · intro same
      refine ⟨mimeType, (same.mimeType isFile).trans typed, ?_⟩
      rw [same.size isFile]
      by_cases get : req.verb = bytes "GET"
      · rw [same.content isFile get]
      · rw [if_neg get, if_neg get]

/-- Another target is answered in the same way if and only if it names the same file. -/
theorem serveTarget_eq_iff (served : c.serveTarget target = .ok replies) :
    c.serveTarget other = .ok replies ↔ c.SameTarget other target := by
  constructor
  · intro served' handler req root decided is
    rw [serveTarget_eq decided is] at served served'
    split at served'
    case isTrue fits =>
      split at served
      · exact ⟨fits, (sendsFound_eq_iff served).mp served'⟩
      · cases served
    case isFalse => cases served'
  · intro same
    cases decided : c.decision with
    | error e =>
        rw [serveTarget, decided] at served ⊢
        exact served
    | ok d =>
        cases d with
        | error code msg path =>
            rw [serveTarget, decided] at served ⊢
            exact served
        | handle handler req =>
            cases is : req.loc.root with
            | none =>
                simp only [serveTarget, decided, sends, pathExists, is] at served
                cases served
            | some root =>
                rcases same handler req root decided is with ⟨fits, file⟩
                rw [serveTarget_eq decided is] at served ⊢
                rw [if_pos fits]
                split at served
                · exact (sendsFound_eq_iff served).mpr file
                · cases served

end Targets

/-- What keeps one thread from the globals of another. -/
structure Apart (a b : Client) : Prop where
  /-- If both list directories, then nothing is listed. -/
  listing : ∀ fragments others, a.route = .ok (.list fragments) → b.route = .ok (.list others) →
    fragments = []
  /-- The formats of `try_files` are both known, or both unknown. -/
  format : ∀ target other, a.target = some target → b.target = some other →
    target.isSome = other.isSome
  /-- If the thread falls back to its target, then that of the other one fits in its place and
  names the same file. -/
  target : ∀ target other, a.route = .ok .fallBack → a.target = some (some target) →
    b.target = some (some other) → other.length ≤ target.length ∧ a.SameTarget other target

variable {a b c : Client} {s s' s₁ s₁' : Shared} {k k' k₁ k₁' o o' : Pc} {out : List Reply}

/-! ## Where a thread can be -/

/-- The places that a thread comes to. -/
def Place (c : Client) : Pc → Prop
  | .start | .done => True
  | .test => c.target.isSome = true
  | .strlen | .strcpy _ | .lookUp => c.target.isSome = true ∧ c.route = .ok .fallBack
  | .listing k => ∃ fragments, c.route = .ok (.list fragments) ∧ (fragments = [] → k.Empty)

theorem showDirectoryListing_ne_fallBack (req : ClientRequest) (fullPath : Bytes) :
    c.showDirectoryListing req fullPath ≠ .ok .fallBack := by
  intro falls
  rw [showDirectoryListing] at falls
  split at falls <;> rcases bind_eq_ok_iff.mp falls with ⟨_, _, is⟩ <;> cases is

theorem reply_ne_fallBack {replies : Except Fault (List Reply)} :
    (do .ok (Route.reply (← replies))) ≠ Except.ok (ε := Fault) Route.fallBack := by
  intro falls
  rcases bind_eq_ok_iff.mp falls with ⟨_, _, is⟩
  cases is

theorem handleGetVerb_ne_fallBack (req : ClientRequest) :
    c.handleGetVerb req ≠ .ok .fallBack := by
  intro falls
  rcases bind_eq_ok_iff.mp falls with ⟨⟨fullPath, isDir⟩, _, falls⟩
  rcases isDir with _ | _ | _
  · exact reply_ne_fallBack falls
  · simp only at falls
    split at falls
    · exact reply_ne_fallBack falls
    · exact reply_ne_fallBack falls
  · rcases bind_eq_ok_iff.mp falls with ⟨index, _, falls⟩
    rcases index with _ | indexPath
    · simp only at falls
      split at falls
      · exact showDirectoryListing_ne_fallBack req fullPath falls
      · exact reply_ne_fallBack falls
    · exact reply_ne_fallBack falls

/-- Only `handleTryFiles` falls back. -/
theorem target_of_fallBack (falls : c.route = .ok .fallBack) : c.target.isSome = true := by
  rcases bind_eq_ok_iff.mp falls with ⟨decided, is, falls⟩
  split at falls
  · cases falls
  · rw [target, is]
    rfl
  · exact absurd falls (handleGetVerb_ne_fallBack _)
  · exact absurd falls reply_ne_fallBack
  · exact absurd falls reply_ne_fallBack

theorem place_follow {front : List Reply} {r : Route} (routed : c.route = .ok r) :
    Place c (follow front r).1 := by
  cases r with
  | reply replies => trivial
  | list fragments =>
      refine ⟨fragments, routed, ?_⟩
      rintro rfl
      exact .inl rfl
  | fallBack => exact ⟨target_of_fallBack routed, routed⟩

/-! ## Steps of the other thread -/

theorem follow_ne_start (front : List Reply) (r : Route) : (follow front r).1 ≠ .start := by
  cases r <;> simp [follow]

/-- Only the first step sets the target. -/
theorem Moves.target (moves : Moves b o s o' s' out) :
    o' ≠ .start ∧ (s'.tryTarget = s.tryTarget ∨ o = .start ∧ b.target = some s'.tryTarget) := by
  cases moves with
  | write is => exact ⟨by simp, .inr ⟨rfl, is⟩⟩
  | begin_ | test => exact ⟨follow_ne_start _ _, .inl rfl⟩
  | strlen | strcpy | lookUp | listing | done => exact ⟨by simp, .inl rfl⟩

/-- Only a listing changes the list, and not if it is empty. -/
theorem Moves.list (moves : Moves b o s o' s' out) (place : Place b o)
    (empty : ∀ fragments, b.route = .ok (.list fragments) →
      fragments = [] ∧ s.list.fragments = none) :
    s'.list = s.list := by
  cases moves with
  | listing taken =>
      rcases place with ⟨fragments, routed, place⟩
      rcases empty fragments routed with ⟨none, head⟩
      exact (Listing.step_empty (place none) head taken).1
  | write | begin_ | test | strlen | strcpy | lookUp | done => rfl

/-- A thread comes to its places only. -/
theorem Moves.place (moves : Moves b o s o' s' out) (place : Place b o)
    (empty : b.route = .ok (.list []) → s.list.fragments = none) : Place b o' := by
  cases moves with
  | write is =>
      show b.target.isSome = true
      rw [is]
      rfl
  | begin_ _ routed => exact place_follow routed
  | test _ routed => exact place_follow routed
  | strlen | strcpy => exact place
  | lookUp | done => trivial
  | listing taken =>
      rcases place with ⟨fragments, routed, place⟩
      refine ⟨fragments, routed, ?_⟩
      rintro rfl
      exact (Listing.step_empty (place rfl) (empty routed) taken).2

/-! ## Keeping step -/

/-- A thread is where it is in a run alone, or about to copy the target into a buffer of
another size.  The variables differ only in what makes no difference to it. -/
structure Tracks (a b : Client) (k o : Pc) (s : Shared) (k₁ : Pc) (s₁ : Shared) : Prop where
  place : Place a k
  same : k = k₁ ∨ ∃ size size₁, k = .strcpy size ∧ k₁ = .strcpy size₁
  /-- Once the thread has set the target, only that of the other one can take its place. -/
  target : ∀ target, a.target = some target → k ≠ .start →
    s₁.tryTarget = target ∧
      (s.tryTarget = target ∨ o ≠ .start ∧ b.target = some s.tryTarget)
  fits : ∀ size, k = .strcpy size → ∀ target, s.tryTarget = some target → target.length < size
  list : ∀ fragments, a.route = .ok (.list fragments) → s.list = s₁.list
  empty : a.route = .ok (.list []) → s.list.fragments = none

/-- A step of the other thread. -/
theorem Tracks.other (own : Tracks a b k o s k₁ s₁) (other : Tracks b a o k s o' s₁')
    (apart : Apart a b) (apart' : Apart b a) {o'' : Pc} (moves : Moves b o s o'' s' out) :
    Tracks a b k o'' s' k₁ s₁ := by
  rcases moves.target with ⟨begun, written⟩
  have unchanged : ∀ fragments, a.route = .ok (.list fragments) → s'.list = s.list := by
    intro fragments routed
    apply moves.list other.place
    intro others routed'
    obtain rfl := apart'.listing others fragments routed' routed
    exact ⟨rfl, other.empty routed'⟩
  constructor
  case place => exact own.place
  case same => exact own.same
  case target =>
    intro target is notStart
    rcases own.target target is notStart with ⟨alone, reads⟩
    refine ⟨alone, ?_⟩
    rcases written with kept | ⟨_, set⟩
    · rw [kept]
      exact reads.imp_right fun reads => ⟨begun, reads.2⟩
    · exact .inr ⟨begun, set⟩
  case fits =>
    rintro size rfl target read
    rcases written with kept | ⟨rfl, set⟩
    · exact own.fits size rfl target (kept ▸ read)
    · -- the other thread starts, so the buffer was measured for the thread's own target
      rcases own.place with ⟨some_, falls⟩
      rcases Option.isSome_iff_exists.mp some_ with ⟨mine, is⟩
      have reads := (own.target mine is (by simp)).2.resolve_right fun later => later.1 rfl
      rw [read] at set
      rcases mine with _ | mine
      · cases apart.format none (some target) is set
      · exact Nat.lt_of_le_of_lt (apart.target mine target falls is set).1
          (own.fits size rfl mine reads)
  case list =>
    intro fragments routed
    rw [unchanged fragments routed]
    exact own.list fragments routed
  case empty =>
    intro routed
    rw [unchanged [] routed]
    exact own.empty routed

theorem follow_ne_strcpy (front : List Reply) (r : Route) (size : Nat) :
    (follow front r).1 ≠ .strcpy size := by
  cases r <;> simp [follow]

theorem testTarget_congr {target other : Option Bytes} (same : target.isSome = other.isSome) :
    c.testTarget target = c.testTarget other := by
  cases target <;> cases other <;> first | rfl | cases same

/-- The thread reads its own target, or that of the other one, which is set if its own is. -/
theorem Tracks.reads (own : Tracks a b k o s k₁ s₁) (apart : Apart a b)
    (some_ : a.target.isSome = true) (notStart : k ≠ .start) :
    a.target = some s₁.tryTarget ∧ s.tryTarget.isSome = s₁.tryTarget.isSome ∧
      (s.tryTarget = s₁.tryTarget ∨ b.target = some s.tryTarget) := by
  rcases Option.isSome_iff_exists.mp some_ with ⟨mine, is⟩
  rcases own.target mine is notStart with ⟨rfl, same | ⟨_, set⟩⟩
  · exact ⟨is, by rw [same], .inl same⟩
  · exact ⟨is, (apart.format _ _ is set).symm, .inr set⟩

/-- A target is there for the thread whenever there is one in the run alone. -/
theorem Tracks.found (own : Tracks a b k o s k₁ s₁) (apart : Apart a b)
    (some_ : a.target.isSome = true) (notStart : k ≠ .start) {target : Bytes}
    (read : s₁.tryTarget = some target) :
    ∃ found, s.tryTarget = some found ∧ (found = target ∨ b.target = some (some found)) := by
  rcases own.reads apart some_ notStart with ⟨_, both, set⟩
  rw [read] at both set
  rcases Option.isSome_iff_exists.mp both with ⟨found, read'⟩
  rw [read'] at set
  exact ⟨found, read', set.imp_left Option.some.inj⟩

/-- It is answered in the same way. -/
theorem Tracks.serves (own : Tracks a b .lookUp o s k₁ s₁) (apart : Apart a b) {target : Bytes}
    (read : s₁.tryTarget = some target) (served : a.serveTarget target = .ok out) :
    ∃ found, s.tryTarget = some found ∧ a.serveTarget found = .ok out := by
  rcases own.found apart own.place.1 (by simp) read with ⟨found, read', rfl | set⟩
  · exact ⟨found, read', served⟩
  · have is := (own.reads apart own.place.1 (by simp)).1
    rw [read] at is
    have same := (apart.target target found own.place.2 is set).2
    exact ⟨found, read', (serveTarget_eq_iff served).mpr same⟩

/-- A step of the thread itself. -/
theorem Tracks.own (own : Tracks a b k o s k₁ s₁) (apart : Apart a b)
    (moves : Moves a k₁ s₁ k₁' s₁' out) :
    ∃ k' s', Moves a k s k' s' out ∧ Tracks a b k' o s' k₁' s₁' := by
  cases moves with
  | @write _ target is =>
      obtain rfl : k = .start := by simpa using own.same
      refine ⟨_, _, .write is, ?_, .inl rfl, ?_, by simp, own.list, own.empty⟩
      · show a.target.isSome = true
        rw [is]
        rfl
      · intro target' is' _
        obtain rfl : target = target' := by simpa [is] using is'
        exact ⟨rfl, .inl rfl⟩
  | begin_ is routed =>
      obtain rfl : k = .start := by simpa using own.same
      refine ⟨_, _, .begin_ is routed, place_follow routed, .inl rfl, ?_, ?_, own.list, own.empty⟩
      · intro target is'
        rw [is] at is'
        cases is'
      · intro size same
        exact absurd same (follow_ne_strcpy _ _ size)
  | @test _ front _ tested routed =>
      obtain rfl : k = .test := by simpa using own.same
      have reads := own.reads apart own.place (by simp)
      have tested' : a.testTarget s.tryTarget = .ok front := by
        rw [testTarget_congr reads.2.1, tested]
      refine ⟨_, _, .test tested' routed, place_follow routed, .inl rfl, ?_, ?_, own.list,
        own.empty⟩
      · intro target is _
        exact own.target target is (by simp)
      · intro size same
        exact absurd same (follow_ne_strcpy _ _ size)
  | strlen read =>
      obtain rfl : k = .strlen := by simpa using own.same
      rcases own.found apart own.place.1 (by simp) read with ⟨found, read', _⟩
      refine ⟨_, _, .strlen read', own.place, .inr ⟨_, _, rfl, rfl⟩, ?_, ?_, own.list, own.empty⟩
      · intro target is _
        exact own.target target is (by simp)
      · intro size same target read''
        obtain rfl : found.length + 1 = size := by simpa using same
        obtain rfl : found = target := by simpa [read'] using read''
        exact Nat.lt_succ_self _
  | strcpy read fits =>
      have copies : ∃ size, k = .strcpy size := by
        rcases own.same with rfl | ⟨size, _, rfl, _⟩
        · exact ⟨_, rfl⟩
        · exact ⟨size, rfl⟩
      rcases copies with ⟨size, rfl⟩
      rcases own.found apart own.place.1 (by simp) read with ⟨found, read', _⟩
      refine ⟨_, _, .strcpy read' (own.fits size rfl found read'), own.place, .inl rfl, ?_, by simp,
        own.list, own.empty⟩
      intro target is _
      exact own.target target is (by simp)
  | lookUp read served =>
      obtain rfl : k = .lookUp := by simpa using own.same
      rcases own.serves apart read served with ⟨found, read', served'⟩
      refine ⟨_, _, .lookUp read' served', trivial, .inl rfl, ?_, by simp, own.list, own.empty⟩
      intro target is _
      exact own.target target is (by simp)
  | @listing _ l l' list _ taken =>
      obtain rfl : k = .listing l := by simpa using own.same
      rcases own.place with ⟨fragments, routed, place⟩
      have taken' : Listing.step l s.list = .ok (l', list, out) := by
        rw [own.list fragments routed, taken]
      have moves' : Moves a (.listing l) s (.listing l') { s with list := list } out :=
        .listing taken'
      refine ⟨_, _, moves', moves'.place own.place own.empty, .inl rfl, ?_, by simp,
        fun _ _ => rfl, ?_⟩
      · intro target is _
        exact own.target target is (by simp)
      · intro routed'
        obtain rfl : fragments = [] := by simpa [routed] using routed'
        have kept := (Listing.step_empty (place rfl) (own.empty routed) taken').1
        rw [kept]
        exact own.empty routed
  | done =>
      obtain rfl : k = .done := by simpa using own.same
      exact ⟨_, _, .done, own⟩

/-- Threads that are apart keep step with runs alone. -/
theorem tracking (apart : Apart a b) (apart' : Apart b a) :
    Tracking a.thread b.thread (Tracks a b) (Tracks b a) where
  left own other alone := by
    rcases own.own apart (moves_of_step alone) with ⟨k', s', moves, own'⟩
    exact ⟨k', s', step_of_moves moves, own', other.other own apart' apart moves⟩
  right own other alone := by
    rcases other.own apart' (moves_of_step alone) with ⟨o', s', moves, other'⟩
    exact ⟨o', s', step_of_moves moves, own.other other apart apart' moves, other'⟩
  doneLeft own := by
    rcases own.same with rfl | ⟨_, _, rfl, rfl⟩
    · rfl
    · simp [thread]
  doneRight other := by
    rcases other.same with rfl | ⟨_, _, rfl, rfl⟩
    · rfl
    · simp [thread]

theorem tracks_start (idle : Listing.Holds s.list []) : Tracks a b .start .start s .start s :=
  ⟨trivial, .inl rfl, fun _ _ no => absurd rfl no, by simp, fun _ _ => rfl, fun _ => idle.chain⟩

/-! ## Bad schedules -/

/-- A thread that does not use the target does not depend on it. -/
theorem answer_getD (target other : Option Bytes) (earlier : List Bytes) :
    c.answer (c.target.getD target) earlier = c.answer (c.target.getD other) earlier := by
  cases is : c.target with
  | some mine => rfl
  | none =>
      simp only [answer, front, is, Option.isSome_none, Option.getD_none]
      cases routed : c.route with
      | error e => rfl
      | ok r =>
          cases r with
          | reply | list => rfl
          | fallBack =>
              have some_ := target_of_fallBack routed
              rw [is] at some_
              cases some_

theorem gives_iff_alone (idle : Listing.Holds s.list []) :
    Gives c.thread .start s out ↔ c.alone = .ok out := by
  have ends := @ends_alone c s [] idle
  rw [List.map_nil, answer_getD s.tryTarget none, ← alone] at ends
  cases answered : c.alone with
  | ok own =>
      rw [answered] at ends
      constructor
      · intro gives
        rw [ends.unique gives]
      · intro same
        exact Except.ok.inj same ▸ ends
  | error e =>
      rw [answered] at ends
      constructor
      · intro gives
        exact absurd ends gives.not_fails
      · intro same
        cases same

/-- In an interleaving a thread does not fail, and puts out what it does alone. -/
theorem ends_of_isolated (idle : Listing.Holds s.list [])
    (isolated : Isolated a.thread b.thread .start .start s) {left : Pc}
    {leftOut rightOut : List Reply}
    (run : Interleaves a.thread b.thread ⟨.start, .start, s, [], []⟩
      ⟨left, k, s', leftOut, rightOut⟩) {r : Except Fault (List Reply)} (ends : Ends b k s' r) :
    ∃ out, r = .ok out ∧ b.alone = .ok (rightOut ++ out) := by
  rcases isolated with ⟨out₁, out₂, _, gives₂, all⟩
  cases r with
  | ok out =>
      rcases ends with ⟨k', s'', rest, done⟩
      have reached := run.trans (Interleaves.runRight rest)
      have same : rightOut ++ out = out₂ := (all _ reached).2.2.2.1 done
      exact ⟨out, rfl, same.symm ▸ (gives_iff_alone idle).mp gives₂⟩
  | error e =>
      rcases ends with ⟨out, k', s'', e', rest, failed⟩
      have reached := run.trans (Interleaves.runRight rest)
      exact absurd failed ((all _ reached).2.1 e')

/-- A thread that lists a directory comes to the list. -/
theorem steps_to_list {fragments : List Bytes} (answered : c.alone = .ok out)
    (routed : c.route = .ok (.list fragments)) :
    ∃ front s', Steps c.thread .start s front (.listing (.add fragments)) s' ∧
      s'.list = s.list := by
  cases is : c.target with
  | none =>
      exact ⟨_, _, .single (step_of_moves (.begin_ is routed)), rfl⟩
  | some target =>
      rw [alone, answer, is] at answered
      rcases bind_eq_ok_iff.mp answered with ⟨front, tested, _⟩
      simp only [Client.front, is, Option.isSome_some, if_pos, Option.getD_some] at tested
      refine ⟨_, _, .silent (step_start is _) (.single (step_of_moves (.test tested routed))), rfl⟩

/-- A directory listing shows what is in the list already. -/
theorem answer_list {fragments : List Bytes} {target : Option Bytes}
    (routed : c.route = .ok (.list fragments)) (answered : c.answer target [] = .ok out) :
    ∃ front, out = front ++ Listing.page fragments ∧ ∀ earlier,
      c.answer target earlier = .ok (front ++ Listing.page (earlier ++ fragments)) := by
  rw [answer] at answered
  rcases bind_eq_ok_iff.mp answered with ⟨front, tested, answered⟩
  rcases bind_eq_ok_iff.mp answered with ⟨r, routed', answered⟩
  obtain rfl : Route.list fragments = r := by simpa [routed] using routed'
  refine ⟨front, (Except.ok.inj answered).symm, ?_⟩
  intro earlier
  rw [answer, tested, routed]
  rfl

/-- A listing is seen by one that begins when its first fragment is in the list. -/
theorem listing_seen (idle : Listing.Holds s.list []) {text : Bytes} {todo others : List Bytes}
    {out' : List Reply}
    (answered : a.alone = .ok out) (routed : a.route = .ok (.list (text :: todo)))
    (answered' : b.alone = .ok out') (routed' : b.route = .ok (.list others)) :
    ∃ c, Interleaves a.thread b.thread ⟨.start, .start, s, [], []⟩ c ∧
      b.thread.done c.right ∧ c.rightOut ≠ out' := by
  rcases steps_to_list answered routed with ⟨front, ⟨target, list⟩, begun, rfl⟩
  rcases @Listing.steps_add _ _ text todo idle with ⟨list, added, holds⟩
  have run : Interleaves a.thread b.thread ⟨.start, .start, s, [], []⟩
      ⟨.listing (.add todo), .start, ⟨target, list⟩, front ++ [], []⟩ :=
    .runLeft (begun.trans (steps_listing added target))
  have ends := @ends_alone b ⟨target, list⟩ _ holds
  rw [alone, answer_getD none target] at answered'
  rcases answer_list routed' answered' with ⟨before, rfl, more⟩
  rw [more] at ends
  rcases ends with ⟨k, s', rest, done⟩
  refine ⟨_, run.trans (.runRight rest), done, ?_⟩
  intro same
  have lengths := congrArg List.length (List.append_cancel_left same)
  simp [Listing.page] at lengths

theorem listing_of_isolated (idle : Listing.Holds s.list [])
    (isolated : Isolated a.thread b.thread .start .start s)
    (fragments others : List Bytes) (routed : a.route = .ok (.list fragments))
    (routed' : b.route = .ok (.list others)) : fragments = [] := by
  rcases fragments with _ | ⟨text, todo⟩
  · rfl
  rcases isolated with ⟨out₁, out₂, gives₁, gives₂, all⟩
  rcases listing_seen idle ((gives_iff_alone idle).mp gives₁) routed
    ((gives_iff_alone idle).mp gives₂) routed' with ⟨c, run, done, other⟩
  exact absurd ((all c run).2.2.2.1 done) other

/-- A null target shows in the answer. -/
theorem answer_none_ne {target : Bytes} (some_ : c.target.isSome = true)
    (answered : c.answer none [] = .ok out) : c.answer (some target) [] ≠ .ok out := by
  intro answered'
  rw [answer, front, if_pos some_] at answered answered'
  rcases bind_eq_ok_iff.mp answered with ⟨before, tested, answered⟩
  rcases bind_eq_ok_iff.mp answered with ⟨r, routed, answered⟩
  rcases bind_eq_ok_iff.mp answered' with ⟨before', tested', answered'⟩
  rcases bind_eq_ok_iff.mp answered' with ⟨r', routed', answered'⟩
  obtain rfl : r = r' := by simpa [routed] using routed'
  obtain rfl : [] = before' := Except.ok.inj tested'
  have one : before.length = 1 := by
    rw [testTarget] at tested
    split at tested
    · rw [replies_of_notFound tested]
      rfl
    case h_2 other =>
      rw [Client.target] at some_
      split at some_
      case h_1 req handled => exact absurd handled (other _ _)
      case h_2 => cases some_
  cases r with
  | reply replies =>
      have same := (Except.ok.inj answered).trans (Except.ok.inj answered').symm
      have lengths := congrArg List.length same
      rw [List.length_append, List.length_append, one] at lengths
      simp at lengths
  | list fragments =>
      have same := (Except.ok.inj answered).trans (Except.ok.inj answered').symm
      have lengths := congrArg List.length same
      rw [List.length_append, List.length_append, one] at lengths
      simp at lengths
  | fallBack => cases answered

/-- The target of the other thread, set behind its own, gives the same answer. -/
theorem answer_of_isolated (idle : Listing.Holds s.list [])
    (isolated : Isolated a.thread b.thread .start .start s)
    {target other : Option Bytes} (is : a.target = some target) (is' : b.target = some other) :
    ∃ out, a.answer target [] = .ok out ∧ a.answer other [] = .ok out := by
  have begun : Interleaves b.thread a.thread ⟨.start, .start, s, [], []⟩
      ⟨.start, .test, { s with tryTarget := target }, [], []⟩ :=
    .right .refl (step_start is _)
  have run : Interleaves b.thread a.thread ⟨.start, .start, s, [], []⟩
      ⟨.test, .test, { s with tryTarget := other }, [], []⟩ :=
    .left begun (step_start is' _)
  have ends := @ends_test a { s with tryTarget := other } [] (by rw [is]; rfl) idle
  rcases ends_of_isolated idle isolated.symm run ends with ⟨out, seen, alone_⟩
  rw [alone, is] at alone_
  exact ⟨out, alone_, seen⟩

/-- A target that is set behind the measuring of the thread's own is not longer. -/
theorem length_of_isolated (idle : Listing.Holds s.list [])
    (isolated : Isolated a.thread b.thread .start .start s)
    {target other : Bytes} (falls : a.route = .ok .fallBack)
    (is : a.target = some (some target)) (is' : b.target = some (some other)) :
    other.length ≤ target.length := by
  by_contra longer
  have tested : a.thread.step .test { s with tryTarget := some target } =
      .ok (.strlen, { s with tryTarget := some target }, []) :=
    step_of_moves (.test rfl falls)
  have steps : Steps a.thread .start s [] (.strcpy (target.length + 1))
      { s with tryTarget := some target } :=
    .silent (step_start is _) (.silent tested (.single rfl))
  have measured : Interleaves b.thread a.thread ⟨.start, .start, s, [], []⟩
      ⟨.start, .strcpy (target.length + 1), { s with tryTarget := some target },
        [], []⟩ := .runRight steps
  have run : Interleaves b.thread a.thread ⟨.start, .start, s, [], []⟩
      ⟨.test, .strcpy (target.length + 1), { s with tryTarget := some other },
        [], []⟩ := .left measured (step_start is' _)
  have failed : a.step (.strcpy (target.length + 1))
      { s with tryTarget := some other } = .error .outOfBounds := by
    have tooLong : ¬ other.length < target.length + 1 := by omega
    rw [step]
    exact if_neg tooLong
  rcases ends_of_isolated idle isolated.symm run (ends_of_error failed .outOfBounds) with
    ⟨_, same, _⟩
  cases same

theorem apart_of_isolated (idle : Listing.Holds s.list [])
    (isolated : Isolated a.thread b.thread .start .start s) : Apart a b := by
  constructor
  case listing => exact listing_of_isolated idle isolated
  case format =>
    intro target other is is'
    rcases answer_of_isolated idle isolated is is' with ⟨sent, own, same⟩
    have some_ : a.target.isSome = true := by
      rw [is]
      rfl
    cases target with
    | none =>
        cases other with
        | none => rfl
        | some other => exact absurd same (answer_none_ne some_ own)
    | some target =>
        cases other with
        | none => exact absurd own (answer_none_ne some_ same)
        | some other => rfl
  case target =>
    intro target other falls is is'
    refine ⟨length_of_isolated idle isolated falls is is', ?_⟩
    rcases answer_of_isolated idle isolated is is' with ⟨sent, own, same⟩
    have served : ∀ {t : Bytes}, a.answer (some t) [] = .ok sent → a.serveTarget t = .ok sent := by
      intro t answered
      rw [answer, front, is, falls] at answered
      rcases bind_eq_ok_iff.mp answered with ⟨before, tested, answered⟩
      rcases bind_eq_ok_iff.mp answered with ⟨r, routed, answered⟩
      obtain rfl : Route.fallBack = r := Except.ok.inj routed
      rcases bind_eq_ok_iff.mp answered with ⟨replies, served, same⟩
      obtain rfl : [] = before := Except.ok.inj tested
      rw [served, ← Except.ok.inj same]
      rfl
    exact (serveTarget_eq_iff (served own)).mp (served same)

/-- Two threads are isolated if and only if each is answered alone, and they are apart. -/
theorem noCrossTalk_iff (idle : Listing.Holds s.list []) :
    Isolated a.thread b.thread .start .start s ↔
      (∃ out, a.alone = .ok out) ∧ (∃ out, b.alone = .ok out) ∧ Apart a b ∧ Apart b a := by
  constructor
  · intro isolated
    refine ⟨?_, ?_, apart_of_isolated idle isolated,
      apart_of_isolated idle isolated.symm⟩
    · rcases isolated with ⟨out, _, gives, _⟩
      exact ⟨out, (gives_iff_alone idle).mp gives⟩
    · rcases isolated with ⟨_, out, _, gives, _⟩
      exact ⟨out, (gives_iff_alone idle).mp gives⟩
  · rintro ⟨⟨out₁, alone₁⟩, ⟨out₂, alone₂⟩, apart, apart'⟩
    exact (tracking apart apart').isolated ((gives_iff_alone idle).mpr alone₁)
      ((gives_iff_alone idle).mpr alone₂) (tracks_start idle) (tracks_start idle)

theorem idle_initial : Listing.Holds Shared.initial.list [] :=
  Listing.holds_empty

/-! ## Two clients -/

/-- Directories end with a slash and have one file each. -/
def oneFileEach (opens : Bytes → Bool) : FileSystem :=
  { isDir := fun path => some (path.getLast? == some 47)
    opens := opens
    size := fun _ => 7
    entries := fun _ => some [bytes ".", bytes "a"] }

/-- `server { listen 443 ssl; autoindex on; }`. -/
def autoindex443 : ConfigFile :=
  { main := [], first := .server [.listen (.number 443) [.ssl], .autoindex true], rest := [] }

/-- A client that asks for the root directory. -/
def visitor (fs : FileSystem) (servers : List Server) (listener : Server) : Client :=
  { site := { isDefaultServer := true, servers := servers, regexMatch := fun _ _ => false }
    listener := listener
    received := plainRequest
    outside :=
      { fs := fs
        connect := fun _ => .connectFails
        passTo := fun _ => none
        clientIp := bytes "127.0.0.1"
        defaultType := bytes "text/html"
        mimeTypes := [] }
    content := fun _ => []
    showSize := fun _ => bytes "7"
    stale := fun _ => false
    upstreams := [] }

/-- Clients that get an index file are isolated. -/
theorem noCrossTalk_iff_index :
    ∃ s t listener, autoindex443.parse (fun _ => none) = .ok s ∧
      checkServers .permissive s = .ok t ∧ listener ∈ t.serverList ∧
      Isolated (visitor (oneFileEach fun _ => true) t.serverList listener).thread
        (visitor (oneFileEach fun _ => true) t.serverList listener).thread
        .start .start .initial := by
  have serves : ∃ s t listener, autoindex443.parse (fun _ => none) = .ok s ∧
      checkServers .permissive s = .ok t ∧ listener ∈ t.serverList ∧
      (∃ out, (visitor (oneFileEach fun _ => true) t.serverList listener).alone = .ok out) ∧
      (visitor (oneFileEach fun _ => true) t.serverList listener).target = none ∧
      ∃ replies, (visitor (oneFileEach fun _ => true) t.serverList listener).route =
        .ok (.reply replies) :=
    ⟨_, _, _, rfl, rfl, List.mem_cons_self, ⟨_, rfl⟩, rfl, _, rfl⟩
  rcases serves with ⟨s, t, listener, parsed, accepted, listening, alone, none, replies, routed⟩
  refine ⟨s, t, listener, parsed, accepted, listening, ?_⟩
  have apart : Apart (visitor (oneFileEach fun _ => true) t.serverList listener)
      (visitor (oneFileEach fun _ => true) t.serverList listener) := by
    constructor
    case listing =>
      intro fragments others lists _
      rw [routed] at lists
      cases lists
    case format =>
      intro target other is _
      rw [none] at is
      cases is
    case target =>
      intro target other _ is _
      rw [none] at is
      cases is
  exact (noCrossTalk_iff idle_initial).mpr ⟨alone, alone, apart, apart⟩

/-- Of two clients that get a listing of the same directory, one gets its file twice. -/
theorem twoListings_crossTalk :
    ∃ s t listener, autoindex443.parse (fun _ => none) = .ok s ∧
      checkServers .permissive s = .ok t ∧ listener ∈ t.serverList ∧
      ∃ out c, (visitor (oneFileEach fun _ => false) t.serverList listener).alone = .ok out ∧
        Interleaves (visitor (oneFileEach fun _ => false) t.serverList listener).thread
          (visitor (oneFileEach fun _ => false) t.serverList listener).thread
          ⟨.start, .start, .initial, [], []⟩ c ∧
        (visitor (oneFileEach fun _ => false) t.serverList listener).thread.done c.right ∧
        c.rightOut ≠ out := by
  have lists : ∃ s t listener, autoindex443.parse (fun _ => none) = .ok s ∧
      checkServers .permissive s = .ok t ∧ listener ∈ t.serverList ∧
      (∃ out, (visitor (oneFileEach fun _ => false) t.serverList listener).alone = .ok out) ∧
      ∃ text todo, (visitor (oneFileEach fun _ => false) t.serverList listener).route =
        .ok (.list (text :: todo)) :=
    ⟨_, _, _, rfl, rfl, List.mem_cons_self, ⟨_, rfl⟩, _, _, rfl⟩
  rcases lists with ⟨s, t, listener, parsed, accepted, listening, ⟨out, alone⟩, text, todo, routed⟩
  rcases listing_seen idle_initial alone routed alone routed with ⟨c, run, done, other⟩
  exact ⟨s, t, listener, parsed, accepted, listening, out, c, alone, run, done, other⟩

end Client

end OgWebserver.Request

import OgWebserver.Request.Buffers

/-!
# Complete log records

A record is written with the length that `snprintf` returns, whether or not the buffer has
room for it.  Everything in a record is bounded but the verb of the request; the file
determines which records contain it, and when all records are complete.
-/

namespace OgWebserver.Request

open Text Config Transition

/-- The whole record is written, and nothing behind it; it ends its line. -/
structure LogWrite.Whole (write : LogWrite) : Prop where
  short : write.size < buffSize
  stored : write.stored.take write.size = write.record
  line : write.record.getLast? = some 10

theorem logRecord_line (ts ip : Bytes) (verb : Option Bytes) (httpCode : Int32)
    (name path last : Bytes) :
    (logRecord ts ip verb httpCode name path last).getLast? = some 10 := by
  rw [logRecord, List.getLast?_append, show (bytes "\n").getLast? = some 10 from rfl,
    Option.some_or]

theorem whole_logWrite_iff {log : LogRef} {record : Bytes}
    (line : record.getLast? = some 10) :
    (logWrite log record).Whole ↔ record.length < buffSize := by
  constructor
  · exact fun complete => complete.short
  · intro short
    have whole : record.take (buffSize - 1) = record := List.take_of_length_le (by omega)
    exact
      { short := short
        stored := by rw [logWrite, whole]; exact List.take_length
        line := line }

/-! ## Length of a record -/

/-- Length of a record with these parts. -/
def recordSize (ts ip verb : Bytes) (httpCode : Int32) (name path last : Bytes) : Nat :=
  ts.length + ip.length + verb.length + (formatInt httpCode).length + name.length +
    path.length + last.length + 7

theorem length_logRecord (ts ip : Bytes) (verb : Option Bytes) (httpCode : Int32)
    (name path last : Bytes) :
    (logRecord ts ip verb httpCode name path last).length =
      recordSize ts ip (verb.getD (bytes "(null)")) httpCode name path last := by
  have space : (bytes " ").length = 1 := rfl
  have newline : (bytes "\n").length = 1 := rfl
  simp only [logRecord, recordSize, List.length_append, space, newline]
  omega

namespace Visit

variable {v : Visit}

/-- The buffer has room for the n-th record, if it has this verb and these other parts. -/
def Room (v : Visit) (server : Server) (n : Nat) (verb : Bytes) (httpCode : Int32)
    (path last : Bytes) : Prop :=
  recordSize (v.timestamp n) v.peerIp verb httpCode (firstName server) path last < buffSize

/-- Everything is bounded but the verb, the path and the last part. -/
theorem room_of_short {server : Server} (named : (firstName server).length ≤ 255) (n : Nat)
    (httpCode : Int32) {verb path last : Bytes}
    (short : verb.length + path.length + last.length ≤ 3500) :
    v.Room server n verb httpCode path last := by
  have ts := v.timestamp_short n
  have ip := v.peerIp_short
  have code := length_formatInt_le httpCode
  simp only [timeBuf, inetAddrStrlen] at ts ip
  simp only [Room, recordSize, buffSize]
  omega

/-- The handler writes complete records if and only if the condition holds. -/
def WholeIff (s : Handling) (ran : Ran) (condition : Prop) : Prop :=
  ∃ added, (stateBehind ran).writes = s.writes ++ added ∧
    ((∀ write ∈ added, write.Whole) ↔ condition)

variable {s s₁ : Handling} {ran : Ran} {condition : Prop}

theorem WholeIff.congr {other : Prop} (first : WholeIff s ran condition)
    (same : condition ↔ other) : WholeIff s ran other := by
  rcases first with ⟨added, writes, iff_⟩
  exact ⟨added, writes, iff_.trans same⟩

theorem WholeIff.behind (same : s₁.writes = s.writes) (later : WholeIff s₁ ran condition) :
    WholeIff s ran condition := by
  rcases later with ⟨added, writes, iff_⟩
  exact ⟨added, by rw [writes, same], iff_⟩

/-- A record, and what the handler does behind it. -/
theorem WholeIff.cons {write : LogWrite} (first : s₁.writes = s.writes ++ [write])
    (later : WholeIff s₁ ran condition) : WholeIff s ran (write.Whole ∧ condition) := by
  rcases later with ⟨added, writes, iff_⟩
  refine ⟨write :: added, ?_, ?_⟩
  · rw [writes, first, List.append_assoc]
    rfl
  · rw [List.forall_mem_cons, iff_]

theorem WholeIff.of_silent (silent : (stateBehind ran).writes = s.writes)
    (holds : condition) : WholeIff s ran condition :=
  ⟨[], by rw [silent, List.append_nil], by simp [holds]⟩

theorem WholeIff.of_overflows (overrun : Overflows s ran) (holds : condition) :
    WholeIff s ran condition := by
  rcases overrun with ⟨s', rfl, _, writes⟩
  exact .of_silent writes holds

theorem WholeIff.of_answers {table : List (Nat × Object)} {response : Response}
    {record : Bytes} (answers : Answers s table response record ran)
    (line : record.getLast? = some 10) : WholeIff s ran (record.length < buffSize) := by
  rcases answers with ⟨s', log, rfl, _, _, _, writes⟩
  refine ⟨[logWrite log record], writes, ?_⟩
  rw [List.forall_mem_singleton, whole_logWrite_iff line]

/-! ## Handlers -/

variable {req : ClientRequest} {root : CString}

theorem length_record (n : Nat) (server : Server) (verb : Option Bytes) (httpCode : Int32)
    (path last : Bytes) :
    (logRecord (v.timestamp n) v.peerIp verb httpCode (firstName server) path last).length <
        buffSize ↔
      v.Room server n (verb.getD (bytes "(null)")) httpCode path last := by
  rw [length_logRecord, Room]

theorem WholeIff.of_error {server : Server} (logged : Logged server) (verb : Option Bytes)
    (code : Nat) (msg path : Bytes) :
    WholeIff s (v.sendErrorResponse (some server) verb code msg path s)
      (v.Room server s.writes.length (verb.getD (bytes "(null)")) (Int32.ofNat code) path msg) :=
  (WholeIff.of_answers (sendErrorResponse_answers logged verb code msg path)
    (logRecord_line ..)).congr (length_record ..)

theorem notFound_wholeIff (logged : Logged req.server) :
    WholeIff s (v.notFound req s)
      (v.Room req.server s.writes.length req.verb 404 s.path (bytes "Not Found")) :=
  .of_error logged _ _ _ _

/-- The records of files and listings name a verb themselves, so there is room for them. -/
theorem serveFile_wholeIff (logged : Logged req.server)
    (named : (firstName req.server).length ≤ 255) (fits : s.path.length < 300) {fd : Nat}
    {file : Bytes} (looks : Looks s s₁ [(fd, .file file)]) (full : s₁.fullPath = file)
    (opened : s₁.localFd = some fd) : WholeIff s (v.serveFile req s₁) True := by
  by_cases mime : MimeFits v.outside file
  · have answers := serveFile_behind (v := v) logged looks full opened mime
    refine (WholeIff.of_answers answers (logRecord_line ..)).congr (iff_true_intro ?_)
    rw [servedRecord, length_record]
    apply room_of_short named
    have size := length_formatInt_le (Int32.ofNat (v.outside.fs.size file))
    have verb : (if req.verb == bytes "GET" then bytes "GET" else bytes "HEAD").length ≤ 4 := by
      split <;> decide
    simp only [Option.getD_some]
    omega
  · exact .of_overflows (serveFile_overflows_behind looks full mime) trivial

theorem showDirectoryListing_wholeIff (logged : Logged req.server)
    (named : (firstName req.server).length ≤ 255) (fits : s.path.length < 300) :
    WholeIff s (v.showDirectoryListing req s)
      (v.outside.fs.entries s.fullPath = none →
        v.Room req.server s.writes.length req.verb 404 s.path (bytes "Not Found")) := by
  have answers := @showDirectoryListing_answers s v req logged
  cases listed : v.outside.fs.entries s.fullPath with
  | none =>
      rw [listed] at answers
      refine (WholeIff.of_answers answers (logRecord_line ..)).congr ?_
      rw [notFoundRecord, length_record]
      simp
  | some entries =>
      rw [listed] at answers
      refine (WholeIff.of_answers answers (logRecord_line ..)).congr (iff_of_true ?_ nofun)
      rw [listingRecord, length_record]
      apply room_of_short named
      have size := length_formatInt_le (v.listingLength s.fullPath s.path entries)
      have verb : (bytes "GET").length = 3 := rfl
      simp only [Option.getD_some]
      omega

/-- There is room for the record of what the upstream has sent, if it has sent anything. -/
def PassFits (v : Visit) (req : ClientRequest) (upstreams : List Upstreams) (n : Nat)
    (path : Bytes) : Prop :=
  ∀ done, relayedBy v.outside upstreams req.loc = some done →
    v.Room req.server n req.verb done.httpCode path (formatInt done.size)

theorem passUpstream_wholeIff (logged : Logged req.server) :
    WholeIff s (v.passUpstream req s)
      (v.PassFits req s.world.upstreams s.writes.length s.path) := by
  have passed := passUpstream_passed (v := v) (s := s) logged
  have writes := passed.writes
  cases relayed : relayedBy v.outside s.world.upstreams req.loc with
  | none =>
      rw [relayed] at writes
      refine .of_silent writes fun done some_ => ?_
      rw [relayed] at some_
      cases some_
  | some done =>
      rw [relayed] at writes
      rcases writes with ⟨log, writes⟩
      refine ⟨_, writes, ?_⟩
      rw [List.forall_mem_singleton, passRecord, whole_logWrite_iff (logRecord_line ..),
        length_record]
      simp [PassFits, relayed]

/-- The handler of a GET or HEAD request writes whole records. -/
theorem handleGetVerb_wholeIff (logged : Logged req.server)
    (named : (firstName req.server).length ≤ 255) (rooted : req.loc.root = some root)
    (short : (joinPath root.text s.path).length < 300) (fits : s.path.length < 300)
    (verb : req.verb.length ≤ 6) : WholeIff s (v.handleGetVerb req s) True := by
  have room : ∀ n, v.Room req.server n req.verb 404 s.path (bytes "Not Found") := by
    intro n
    apply room_of_short named
    have last : (bytes "Not Found").length = 9 := rfl
    omega
  by_cases lookup : LookupFits v.outside req.server (joinPath root.text s.path)
  case neg => exact .of_overflows (handleGetVerb_overflows rooted short lookup) trivial
  cases found : servedFile v.outside req.server (joinPath root.text s.path) with
  | some file =>
      rcases handleGetVerb_found (v := v) rooted short lookup found with
        ⟨s₁, fd, looks, full, opened, ran⟩
      rw [ran]
      exact serveFile_wholeIff logged named fits looks full opened
  | none =>
      rcases handleGetVerb_unfound (v := v) rooted short lookup found with ⟨s₁, looks, _, ran⟩
      rw [ran]
      apply WholeIff.behind looks.writes
      rw [← looks.path] at fits room
      split
      · refine (showDirectoryListing_wholeIff logged named fits).congr (iff_true_intro ?_)
        exact fun _ => room _
      · exact (notFound_wholeIff logged).congr (iff_true_intro (room _))

/-- The records with the request's own verb that `serveDefaultFile` writes: their codes, paths
and last parts. -/
inductive Defaulted (o : Outside) (upstreams : List Upstreams) (loc : Location)
    (root path : Bytes) (tryTarget : Option Bytes) : Int32 → Bytes → Bytes → Prop
  | passed {done} (proxy : hasBit loc.type typeProxyPass = true)
      (relayed : relayedBy o upstreams loc = some done) :
      Defaulted o upstreams loc root path tryTarget done.httpCode path (formatInt done.size)
  | notFound {target} (local_ : hasBit loc.type typeProxyPass = false)
      (known : tryTarget = some target) (short : (joinPath root target).length < 300)
      (unserved : o.fs.isDir (joinPath root target) = some true ∨
        o.fs.opens (joinPath root target) = false) :
      Defaulted o upstreams loc root path tryTarget 404 target (bytes "Not Found")

theorem serveDefaultFile_wholeIff (logged : Logged req.server)
    (named : (firstName req.server).length ≤ 255) (rooted : req.loc.root = some root)
    (tryTarget : Option Bytes) :
    WholeIff s (v.serveDefaultFile tryTarget req s)
      (∀ code path last,
        Defaulted v.outside s.world.upstreams req.loc root.text s.path tryTarget code path last →
          v.Room req.server s.writes.length req.verb code path last) := by
  cases proxy : hasBit req.loc.type typeProxyPass with
  | true =>
      rw [serveDefaultFile_proxied proxy]
      refine (passUpstream_wholeIff logged).congr ⟨fun fits code path last writes => ?_, ?_⟩
      · cases writes with
        | passed _ relayed => exact fits _ relayed
        | notFound local_ =>
            rw [proxy] at local_
            cases local_
      · exact fun fits done relayed => fits _ _ _ (.passed proxy relayed)
  | false =>
      have unpassed : ¬ hasBit req.loc.type typeProxyPass = true := by simp [proxy]
      cases tryTarget with
      | none =>
          simp only [serveDefaultFile, proxy, Bool.false_eq_true, if_false]
          refine .of_silent rfl fun code path last writes => ?_
          cases writes with
          | passed other => exact absurd other unpassed
          | notFound _ known => cases known
      | some target =>
          by_cases short : (joinPath root.text target).length < 300
          case neg =>
            refine .of_overflows (serveDefaultFile_overflows proxy rooted short) ?_
            intro code path last writes
            cases writes with
            | passed other => exact absurd other unpassed
            | notFound _ known fits =>
                obtain rfl := Option.some.inj known
                exact absurd fits short
          by_cases unserved : v.outside.fs.isDir (joinPath root.text target) = some true ∨
              v.outside.fs.opens (joinPath root.text target) = false
          · rcases serveDefaultFile_unfound (v := v) (s := s) proxy rooted short unserved with
              ⟨s₁, looks, ran⟩
            rw [ran]
            apply WholeIff.behind looks.writes
            refine (notFound_wholeIff logged).congr ?_
            rw [looks.path, looks.writes]
            constructor
            · intro room code path last writes
              cases writes with
              | passed other => exact absurd other unpassed
              | notFound _ known =>
                  obtain rfl := Option.some.inj known
                  exact room
            · exact fun fits => fits _ _ _ (.notFound proxy rfl short unserved)
          · rcases not_or.mp unserved with ⟨plain, opens⟩
            rw [Bool.not_eq_false] at opens
            rcases serveDefaultFile_found (v := v) (s := s) proxy rooted short plain opens with
              ⟨s₁, fd, looks, full, opened, ran⟩
            rw [ran]
            have fits : target.length < 300 := (length_le_joinPath root.text target).trans_lt short
            have served := serveFile_wholeIff (v := v) (s := { s with path := target }) logged named
              fits looks full opened
            refine WholeIff.congr served (iff_of_true trivial fun code path last writes => ?_)
            cases writes with
            | passed other => exact absurd other unpassed
            | notFound _ known _ other =>
                obtain rfl := Option.some.inj known
                exact absurd other unserved

/-- The records with the request's own verb that `handleTryFiles` writes behind the check of
the format. -/
inductive Tried (o : Outside) (upstreams : List Upstreams) (server : Server) (loc : Location)
    (root path : Bytes) (tryTarget : Option Bytes) : Int32 → Bytes → Bytes → Prop
  /-- An index file is found, and the request passed on. -/
  | index {done} (lookup : LookupFits o server (joinPath root path))
      (dir : o.fs.isDir (joinPath root path) = some true)
      (found : (servedFile o server (joinPath root path)).isSome = true)
      (proxy : hasBit loc.type typeProxyPass = true)
      (relayed : relayedBy o upstreams loc = some done) :
      Tried o upstreams server loc root path tryTarget done.httpCode path (formatInt done.size)
  /-- The directory cannot be listed. -/
  | listing (lookup : LookupFits o server (joinPath root path))
      (dir : o.fs.isDir (joinPath root path) = some true)
      (unfound : servedFile o server (joinPath root path) = none)
      (lists : server.autoIndex = true) (closed : o.fs.entries (joinPath root path) = none) :
      Tried o upstreams server loc root path tryTarget 404 path (bytes "Not Found")
  /-- Nothing is found. -/
  | fallback {code path' last} (lookup : LookupFits o server (joinPath root path))
      (unfound : servedFile o server (joinPath root path) = none)
      (unlisted : ¬ (o.fs.isDir (joinPath root path) = some true ∧ server.autoIndex = true))
      (defaulted : Defaulted o upstreams loc root path tryTarget code path' last) :
      Tried o upstreams server loc root path tryTarget code path' last

theorem tryFiles_wholeIff (logged : Logged req.server)
    (named : (firstName req.server).length ≤ 255) (rooted : req.loc.root = some root)
    (short : (joinPath root.text s.path).length < 300) (fits : s.path.length < 300)
    (tryTarget : Option Bytes) :
    WholeIff s (v.tryFiles tryTarget req s)
      (∀ code path last,
        Tried v.outside s.world.upstreams req.server req.loc root.text s.path tryTarget
            code path last →
          v.Room req.server s.writes.length req.verb code path last) := by
  by_cases lookup : LookupFits v.outside req.server (joinPath root.text s.path)
  case neg =>
    refine .of_overflows (tryFiles_overflows rooted short tryTarget lookup) ?_
    intro code path last tried
    cases tried with
    | index fit => exact absurd fit lookup
    | listing fit => exact absurd fit lookup
    | fallback fit => exact absurd fit lookup
  cases found : servedFile v.outside req.server (joinPath root.text s.path) with
  | some file =>
      rcases tryFiles_found (v := v) rooted short tryTarget lookup found with
        ⟨s₁, fd, looks, full, opened, ran⟩
      rw [ran]
      by_cases passed : v.outside.fs.isDir (joinPath root.text s.path) = some true ∧
          hasBit req.loc.type typeProxyPass = true
      · rw [if_pos (by simp [passed])]
        apply WholeIff.behind looks.writes
        refine (passUpstream_wholeIff logged).congr ?_
        rw [looks.path, looks.writes, looks.world]
        constructor
        · intro fits code path last tried
          cases tried with
          | index _ _ _ _ relayed => exact fits _ relayed
          | listing _ _ unfound => rw [found] at unfound; cases unfound
          | fallback _ unfound => rw [found] at unfound; cases unfound
        · intro fits done relayed
          exact fits _ _ _ (.index lookup passed.1 (by rw [found]; rfl) passed.2 relayed)
      · rw [if_neg (by simpa using passed)]
        refine (serveFile_wholeIff logged named fits looks full opened).congr
          (iff_of_true trivial fun code path last tried => ?_)
        cases tried with
        | index _ dir _ proxy => exact absurd ⟨dir, proxy⟩ passed
        | listing _ _ unfound => rw [found] at unfound; cases unfound
        | fallback _ unfound => rw [found] at unfound; cases unfound
  | none =>
      rcases tryFiles_unfound (v := v) rooted short tryTarget lookup found with
        ⟨s₁, looks, full, ran⟩
      rw [ran]
      apply WholeIff.behind looks.writes
      by_cases listed : v.outside.fs.isDir (joinPath root.text s.path) = some true ∧
          req.server.autoIndex = true
      · rw [if_pos (by simp [listed])]
        refine (showDirectoryListing_wholeIff logged named (by rwa [looks.path])).congr ?_
        rw [looks.path, looks.writes, full]
        constructor
        · intro room code path last tried
          cases tried with
          | index _ _ some_ => rw [found] at some_; cases some_
          | listing _ _ _ _ closed => exact room closed
          | fallback _ _ unlisted => exact absurd listed unlisted
        · intro fits closed
          exact fits _ _ _ (.listing lookup listed.1 found listed.2 closed)
      · rw [if_neg (by simpa using listed)]
        refine (serveDefaultFile_wholeIff logged named rooted tryTarget).congr ?_
        rw [looks.path, looks.writes, looks.world]
        constructor
        · intro fits code path last tried
          cases tried with
          | index _ _ some_ => rw [found] at some_; cases some_
          | listing _ dir _ lists => exact absurd ⟨dir, lists⟩ listed
          | fallback _ _ _ defaulted => exact fits _ _ _ defaulted
        · intro fits code path last defaulted
          exact fits _ _ _ (.fallback lookup found listed defaulted)

/-- An unknown format is answered first. -/
theorem handleTryFiles_wholeIff (logged : Logged req.server)
    (named : (firstName req.server).length ≤ 255) (rooted : req.loc.root = some root)
    (short : (joinPath root.text s.path).length < 300) (fits : s.path.length < 300) :
    WholeIff s (v.handleTryFiles req s)
      ((checkTryFilesFormat req.loc = none →
          v.Room req.server s.writes.length req.verb 404 s.path (bytes "Not Found")) ∧
        ∀ code path last,
          Tried v.outside s.world.upstreams req.server req.loc root.text s.path
              (checkTryFilesFormat req.loc) code path last →
            v.Room req.server
              (if checkTryFilesFormat req.loc = none then s.writes.length + 1 else s.writes.length)
              req.verb code path last) := by
  cases format : checkTryFilesFormat req.loc with
  | some target =>
      rw [handleTryFiles_known format]
      refine (tryFiles_wholeIff logged named rooted short fits (some target)).congr ?_
      simp only [reduceCtorEq, false_implies, true_and, if_false]
  | none =>
      rcases notFound_run (v := v) (s := s) logged with ⟨log, ran⟩
      rw [handleTryFiles_unknown format, bind_of_ok ran]
      have tried := tryFiles_wholeIff (v := v) (s := { s with
        world := s.world.emit (.respond (.error 404 (bytes "Not Found")))
        writes := s.writes ++ [logWrite log (v.notFoundRecord req s.writes.length s.path)] })
        logged named rooted short fits none
      refine (WholeIff.cons rfl tried).congr ?_
      rw [notFoundRecord, whole_logWrite_iff (logRecord_line ..), length_record]
      simp only [List.length_append, List.length_singleton, forall_true_left, if_true]
      rfl

/-! ## Whole requests -/

/-- The records with the request's own verb that the handler of a location writes, behind
their numbers. -/
inductive Called (v : Visit) (text : RequestText) (server : Server) (loc : Location)
    (root : CString) : Nat → Int32 → Bytes → Bytes → Prop
  | passed {done} (passes : handlerFor loc = .proxyPass ∨ handlerFor loc = .fastcgiPass)
      (relayed : relayedBy v.outside v.upstreams loc = some done) :
      Called v text server loc root 0 done.httpCode (cutQuery text.path).1 (formatInt done.size)
  | format (tries : hasBit loc.type typeTryFiles = true)
      (unknown : checkTryFilesFormat loc = none) :
      Called v text server loc root 0 404 (cutQuery text.path).1 (bytes "Not Found")
  | tried {code path last} (tries : hasBit loc.type typeTryFiles = true)
      (tried : Tried v.outside v.upstreams server loc root.text (cutQuery text.path).1
        (checkTryFilesFormat loc) code path last) :
      Called v text server loc root (if checkTryFilesFormat loc = none then 1 else 0) code path last

/-- The records with the request's own verb: the verb, the server, the number of the record,
and its code, path and last part. -/
inductive LogsVerb (v : Visit) : Bytes → Server → Nat → Int32 → Bytes → Bytes → Prop
  | exit {verb server code msg path} (exit : Exits v (some verb) server code msg path) :
      LogsVerb v verb server 0 (Int32.ofNat code) path msg
  | call {text server loc root n code path last} (asks : Asks v text server loc root)
      (called : Called v text server loc root n code path last) :
      LogsVerb v text.verb server n code path last

theorem passes_wholeIff {text : RequestText} {server : Server} {loc : Location}
    (logged : Logged server)
    (passes : handlerFor loc = .proxyPass ∨ handlerFor loc = .fastcgiPass)
    (table : List (Nat × Object)) :
    WholeIff (v.handed table text)
      (v.passUpstream (v.request text server loc) (v.handed table text))
      (∀ n code path last, Called v text server loc root n code path last →
        v.Room server n text.verb code path last) := by
  have untried : ¬ hasBit loc.type typeTryFiles = true := by
    rcases passes with proxy | fastcgi
    · exact not_tries (by decide) proxy
    · exact not_tries (by decide) fastcgi
  have logged : Logged (v.request text server loc).server := logged
  refine WholeIff.congr (passUpstream_wholeIff logged) ?_
  constructor
  · intro fits n code path last called
    cases called with
    | passed _ relayed => exact fits _ relayed
    | format tries => exact absurd tries untried
    | tried tries => exact absurd tries untried
  · exact fun room done relayed => room _ _ _ _ (.passed passes relayed)

theorem call_wholeIff (logged : ∀ server ∈ v.site.servers, Logged server)
    (named : ∀ server ∈ v.site.servers, (firstName server).length ≤ 255) {text : RequestText}
    {server : Server} {loc : Location} (asks : Asks v text server loc root)
    (table : List (Nat × Object)) :
    WholeIff (v.handed table text)
      (v.call (handlerFor loc) (v.request text server loc) (v.handed table text))
      (∀ n code path last, Called v text server loc root n code path last →
        v.Room server n text.verb code path last) := by
  have logged : Logged (v.request text server loc).server := logged server asks.member
  have named : (firstName (v.request text server loc).server).length ≤ 255 :=
    named server asks.member
  have fits : (v.handed table text).path.length < 300 := by
    have checked := asks.short
    simp only [maxLen] at checked
    change (cutQuery text.path).1.length < 300
    omega
  cases handler : handlerFor loc with
  | tryFiles =>
      have tries := handlerFor_eq_tryFiles.mp handler
      refine WholeIff.congr (handleTryFiles_wholeIff logged named asks.rooted asks.fits fits) ?_
      constructor
      · rintro ⟨format, tried⟩ n code path last called
        cases called with
        | passed passes => simp [handler] at passes
        | format _ unknown => exact format unknown
        | tried _ tries => exact tried _ _ _ tries
      · intro room
        exact ⟨fun unknown => room _ _ _ _ (.format tries unknown),
          fun code path last tried => room _ _ _ _ (.tried tries tried)⟩
  | proxyPass => exact passes_wholeIff logged (.inl handler) table
  | fastcgiPass => exact passes_wholeIff logged (.inr handler) table
  | byVerb =>
      have untried := not_tries (by decide) handler
      have verb : (v.request text server loc).verb.length ≤ 6 := by
        rcases asks.verb handler with get | head
        · exact (congrArg List.length get).trans_le (by decide)
        · exact (congrArg List.length head).trans_le (by decide)
      refine WholeIff.congr (handleGetVerb_wholeIff logged named asks.rooted asks.fits fits verb)
        (iff_of_true trivial fun n code path last called => ?_)
      cases called with
      | passed passes => simp [handler] at passes
      | format tries => exact absurd tries untried
      | tried tries => exact absurd tries untried

theorem WholeIff.iff (iff_ : WholeIff s ran condition) (fresh : s.writes = []) :
    (∀ write ∈ (stateBehind ran).writes, write.Whole) ↔ condition := by
  rcases iff_ with ⟨added, writes, iff_⟩
  rw [writes, fresh, List.nil_append]
  exact iff_

theorem length_firstName_le {server : Server}
    (named : ∀ name ∈ server.serverNames, name.serverName.text.length ≤ 255) :
    (firstName server).length ≤ 255 := by
  rw [firstName]
  cases first : server.serverNames with
  | nil => exact Nat.zero_le _
  | cons name rest =>
      apply named
      rw [first]
      exact List.mem_cons_self

/-- All records of a request that fits into its buffer are written whole if and only if there
is room for the request's verb in each record that names it. -/
theorem records_whole_iff (accepted : Accepted v) (below : v.received.length < buffSize)
    (named : ∀ server ∈ v.site.servers, ∀ name ∈ server.serverNames,
      name.serverName.text.length ≤ 255) (table : List (Nat × Object)) :
    (∀ write ∈ (stateBehind (v.processInput (v.start table))).writes, write.Whole) ↔
      ∀ verb server n code path last, LogsVerb v verb server n code path last →
        v.Room server n verb code path last := by
  have named : ∀ server ∈ v.site.servers, (firstName server).length ≤ 255 :=
    fun server member => length_firstName_le (named server member)
  constructor
  · intro whole verb server n code path last logs
    cases logs with
    | @exit verb server code last path exit =>
        rcases processInput_exits exit table with ⟨p, ran⟩
        rw [ran] at whole
        have logged := accepted.logged server (exit.member accepted)
        have iff_ := WholeIff.of_error (v := v) (s := { v.begin_ table with path := p }) logged
          (some verb) code last path
        exact (iff_.iff rfl).mp whole
    | call asks called =>
        rw [processInput_asks asks] at whole
        exact ((call_wholeIff accepted.logged named asks table).iff rfl).mp whole _ _ _ _ called
  · intro room
    have processed := processInput_processed accepted table
    generalize dispatch v.site v.listener v.received = decision at processed
    generalize v.processInput (v.start table) = ran at processed
    cases processed with
    | @exits verb server code msg path exit p =>
        have member := exit.member accepted
        refine (WholeIff.iff (.of_error (accepted.logged server member) _ _ _ _) rfl).mpr ?_
        cases verb with
        | some verb => exact room _ _ _ _ _ _ (.exit exit)
        | none =>
            cases exit with
            | tooLarge full => exact absurd full (Nat.ne_of_lt below)
            | noData =>
                apply room_of_short (named _ member)
                decide
            | badData =>
                apply room_of_short (named _ member)
                decide
    | asks asks =>
        refine ((call_wholeIff accepted.logged named asks table).iff rfl).mpr ?_
        exact fun n code path last called => room _ _ _ _ _ _ (.call asks called)
    | faults _ writes =>
        simp only [stateBehind, writes, List.not_mem_nil, false_implies, implies_true]

/-- The verb in a record is the one that has been read. -/
theorem LogsVerb.reads {verb : Bytes} {server : Server} {n : Nat} {code : Int32}
    {path last : Bytes} (logs : LogsVerb v verb server n code path last) :
    ∃ text, Reads v text ∧ text.verb = verb := by
  cases logs with
  | exit exit =>
      cases exit with
      | noDocRoot finds => exact ⟨_, finds.toReads, rfl⟩
      | tooLong finds => exact ⟨_, finds.toReads, rfl⟩
      | badVerb finds => exact ⟨_, finds.toReads, rfl⟩
  | call asks => exact ⟨_, asks.toReads, rfl⟩

theorem LogsVerb.member {verb : Bytes} {server : Server} {n : Nat} {code : Int32}
    {path last : Bytes} (accepted : Accepted v) (logs : LogsVerb v verb server n code path last) :
    server ∈ v.site.servers := by
  cases logs with
  | exit exit => exact exit.member accepted
  | call asks => exact asks.member

/-- With a verb of at most 1500 bytes, there is room in every record. -/
theorem LogsVerb.room {verb : Bytes} {server : Server} {n : Nat} {code : Int32}
    {path last : Bytes} (logs : LogsVerb v verb server n code path last)
    (named : (firstName server).length ≤ 255) (short : verb.length ≤ 1500) :
    v.Room server n verb code path last := by
  apply room_of_short named
  suffices bound : path.length ≤ 1500 ∧ last.length ≤ 255 by omega
  cases logs with
  | exit exit =>
      cases exit with
      | noDocRoot => exact ⟨by decide, by decide⟩
      | @tooLong text =>
          have cut : ((cutQuery text.path).1.take maxLen).length ≤ 255 :=
            List.length_take_le maxLen _
          have dots : (bytes "...").length = 3 := rfl
          refine ⟨?_, by decide⟩
          rw [List.length_append]
          omega
      | badVerb => exact ⟨short, by decide⟩
  | @call text server loc root n code path last asks called =>
      have checked := asks.short
      simp only [maxLen] at checked
      have path_le : (cutQuery text.path).1.length ≤ 1500 := by omega
      have notFound : (bytes "Not Found").length ≤ 255 := by decide
      have size_le : ∀ size, (formatInt size).length ≤ 255 :=
        fun size => (length_formatInt_le size).trans (by decide)
      cases called with
      | passed => exact ⟨path_le, size_le _⟩
      | format => exact ⟨path_le, notFound⟩
      | tried _ tried =>
          cases tried with
          | index => exact ⟨path_le, size_le _⟩
          | listing => exact ⟨path_le, notFound⟩
          | fallback _ _ _ defaulted =>
              cases defaulted with
              | passed => exact ⟨path_le, size_le _⟩
              | notFound _ _ fits =>
                  have target := length_le_joinPath root.text path
                  exact ⟨by omega, notFound⟩

/-! ## Sample requests -/

/-- A server that answers requests by their verbs. -/
theorem indexed_finds :
    ∃ s t listener, (indexed (bytes "index.html")).parse loopback = .ok s ∧
      checkServers .permissive s = .ok t ∧ listener ∈ t.serverList ∧
      (∀ server ∈ t.serverList, ∀ name ∈ server.serverNames,
        name.serverName.text.length ≤ 255) ∧
      ∃ loc root, getServerForHost true t.serverList (bytes "b") = .ok (some 0) ∧
        t.serverList[0]? = some listener ∧
        getDocRoot (fun _ _ => false) listener (bytes "/") = some loc ∧ loc.root = some root ∧
        root.text = bytes "/srv" ∧ handlerFor loc = .byVerb := by
  refine ⟨_, _, _, rfl, rfl, List.mem_cons_self, ?_, ?_⟩
  · decide
  · exact ⟨_, { text := bytes "/srv", heap := true }, rfl, rfl, rfl, rfl, rfl, rfl⟩

/-- The record of the sample request is whole. -/
theorem records_whole_iff_plain :
    ∃ s t listener, (indexed (bytes "index.html")).parse loopback = .ok s ∧
      checkServers .permissive s = .ok t ∧ listener ∈ t.serverList ∧
      ∀ write ∈ (stateBehind ((ofState t listener plainRequest plainFiles).processInput
        ((ofState t listener plainRequest plainFiles).start streams))).writes, write.Whole := by
  rcases indexed_finds with ⟨s, t, listener, parsed, accepted, listening, named, _⟩
  refine ⟨s, t, listener, parsed, accepted, listening, ?_⟩
  have configured := ofState_accepted parsed accepted listening plainRequest plainFiles
  have below : plainRequest.length < buffSize := by decide
  apply (records_whole_iff configured below named streams).mpr
  intro verb server n code path last logs
  have member : server ∈ t.serverList := logs.member configured
  rcases logs.reads with ⟨text, reads, rfl⟩
  have same : text = plainText := by
    rcases plainRequest_read with ⟨rest, line, host⟩
    have read : readRequest (inbuff plainRequest) = .ok (some plainText) :=
      (readRequest_eq_some_iff (terminated_inbuff below)).mpr ⟨rest, line, host⟩
    exact Option.some.inj (Except.ok.inj (reads.read.symm.trans read))
  apply logs.room (length_firstName_le (named server member))
  rw [same]
  decide

/-- A verb of 2100 bytes. -/
def longVerb : Bytes :=
  List.replicate 2100 65

/-- It is named twice in the record of the answer 405, which does not fit into the buffer. -/
theorem record_overruns :
    ∃ s t listener, (indexed (bytes "index.html")).parse loopback = .ok s ∧
      checkServers .permissive s = .ok t ∧ listener ∈ t.serverList ∧
      (longVerb ++ space :: slashTail).length < buffSize ∧
      (∀ server ∈ t.serverList, ∀ name ∈ server.serverNames,
        name.serverName.text.length ≤ 255) ∧
      ¬ ∀ write ∈ (stateBehind
          ((ofState t listener (longVerb ++ space :: slashTail) plainFiles).processInput
            ((ofState t listener (longVerb ++ space :: slashTail) plainFiles).start
              streams))).writes, write.Whole := by
  rcases indexed_finds with
    ⟨s, t, listener, parsed, accepted, listening, named, loc, root, found, here, located, rooted,
      root_eq, byVerb⟩
  have length : longVerb.length = 2100 := List.length_replicate
  have plain : space ∉ longVerb ∧ 0 ∉ longVerb := by
    constructor <;> intro member <;> exact absurd (List.eq_of_mem_replicate member) (by decide)
  have finds : Finds (ofState t listener (longVerb ++ space :: slashTail) plainFiles)
      { plainText with verb := longVerb } listener :=
    finds_slashRequest plainFiles plain (by omega) found here
  refine ⟨s, t, listener, parsed, accepted, listening, ?_, named, fun whole => ?_⟩
  · have tail : slashTail.length = 23 := rfl
    simp only [List.length_append, List.length_cons, buffSize]
    omega
  have other : ¬ (longVerb = bytes "GET" ∨ longVerb = bytes "HEAD") := by
    rintro (get | head)
    · exact absurd (congrArg List.length get) (by rw [length]; decide)
    · exact absurd (congrArg List.length head) (by rw [length]; decide)
  have short : root.text.length + (bytes "/").length ≤ maxLen := by
    rw [root_eq]
    decide
  have exit := Exits.badVerb finds located rooted short byVerb other
  rcases processInput_exits exit streams with ⟨p, ran⟩
  rw [ran] at whole
  have logged := logged_of_accepted accepted listener listening
  have iff_ := WholeIff.of_error
    (v := ofState t listener (longVerb ++ space :: slashTail) plainFiles)
    (s := { (ofState t listener (longVerb ++ space :: slashTail) plainFiles).begin_ streams with
      path := p }) logged (some longVerb) 405 (bytes "Method Not Allowed") longVerb
  have room := (iff_.iff rfl).mp whole
  simp only [Room, recordSize, buffSize, Option.getD_some, length] at room
  omega

end Visit

end OgWebserver.Request

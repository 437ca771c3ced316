import OgWebserver.Request.Message
import OgWebserver.Socket.RecvData

/-!
# Requests received in pieces

`recvData` hands on the first piece of a request that arrives in several ones.
What `processInput` extracts then is the same as from the whole request only if
that piece reaches behind the host, and what it saves for the pass handlers is
the piece as far as its first zero.
-/

namespace OgWebserver.Request

open Text Socket Config

/-- A request as far as the carriage return behind its host, with `skipped` between
the request line and the first `Host: `. -/
def requestFront (text : RequestText) (skipped : Bytes) : Bytes :=
  text.verb ++ space :: (text.path ++ space :: (text.protocol ++ carriageReturn ::
    (skipped ++ (hostHeader ++ (text.host ++ [carriageReturn])))))

/-- The parts of an opening are what the searches find there. -/
structure Opens (text : RequestText) (skipped : Bytes) : Prop where
  verb : space ∉ text.verb ∧ 0 ∉ text.verb
  path : space ∉ text.path ∧ 0 ∉ text.path
  protocol : carriageReturn ∉ text.protocol ∧ 0 ∉ text.protocol
  host : carriageReturn ∉ text.host ∧ 0 ∉ text.host
  passed : skipped ≠ [] ∧ 0 ∉ skipped
  first : ∀ early late, skipped = early ++ late → early ≠ [] → late ≠ [] →
    ¬ hostHeader <+: late ++ hostHeader

/-- The same parts, the same saved request and the same handler come of both runs. -/
def SameHandling (site : Site) (listener : Config.Server) (pieces pieces' : List Bytes) : Prop :=
  ∃ text received received',
    recvData buffSize (pieces.map .delivered) = some (.whole received) ∧
    recvData buffSize (pieces'.map .delivered) = some (.whole received') ∧
    readRequest (inbuff received) = .ok (some text) ∧
    readRequest (inbuff received') = .ok (some text) ∧
    savedHeaders received = savedHeaders received' ∧
    dispatch site listener received = dispatch site listener received'

/-! ## Openings -/

theorem Opens.noZero {text : RequestText} {skipped : Bytes} (opens : Opens text skipped) :
    0 ∉ requestFront text skipped := by
  have notSpace : (0 : UInt8) ≠ space := by decide
  have notReturn : (0 : UInt8) ≠ carriageReturn := by decide
  have notHeader : 0 ∉ hostHeader := by decide
  simp [requestFront, opens.verb, opens.path, opens.protocol, opens.host, opens.passed, notSpace,
    notReturn, notHeader]

/-- Behind an opening, the header loop stops at its host. -/
theorem Opens.leadsTo {text : RequestText} {skipped : Bytes} (opens : Opens text skipped)
    (more : Bytes) : LeadsTo (skipped ++ (hostHeader ++ more)) (hostHeader ++ more) := by
  refine .inl ⟨skipped, rfl, opens.passed.1, opens.passed.2, List.prefix_append _ _, ?_⟩
  intro early late split someEarly someLate here
  apply opens.first early late split someEarly someLate
  rw [← List.append_assoc] at here
  apply List.prefix_of_prefix_length_le here (List.prefix_append _ more)
  rw [List.length_append]
  omega

theorem requestFront_append (text : RequestText) (skipped more : Bytes) :
    requestFront text skipped ++ more = text.verb ++ space :: (text.path ++ space ::
      (text.protocol ++ carriageReturn ::
        (skipped ++ (hostHeader ++ (text.host ++ carriageReturn :: more))))) := by
  simp [requestFront, List.append_assoc]

/-- A text that starts with an opening is read as its parts. -/
theorem readRequest_of_opens {text : RequestText} {skipped received : Bytes}
    (opens : Opens text skipped) (start : requestFront text skipped <+: received)
    (short : received.length < buffSize) :
    readRequest (inbuff received) = .ok (some text) := by
  rcases start with ⟨more, rfl⟩
  let zeros : Bytes := List.replicate (buffSize - (requestFront text skipped ++ more).length) 0
  have whole : inbuff (requestFront text skipped ++ more) =
      text.verb ++ space :: (text.path ++ space :: (text.protocol ++ carriageReturn ::
        (skipped ++ (hostHeader ++ (text.host ++ carriageReturn :: (more ++ zeros)))))) := by
    rw [inbuff, List.append_assoc, requestFront_append]
  have host := opens.leadsTo (text.host ++ carriageReturn :: (more ++ zeros))
  apply (readRequest_eq_some_iff (terminated_inbuff short)).mpr
  exact ⟨_, ⟨whole, opens.verb, opens.path, opens.protocol⟩, _, _, host, List.drop_left, opens.host⟩

/-- A zero-free text in front of zeros ends in front of them. -/
theorem prefix_of_prefix_zeros {front s : Bytes} {n : Nat} (noZero : 0 ∉ front)
    (here : front <+: s ++ List.replicate n 0) : front <+: s := by
  rcases Nat.lt_or_ge s.length front.length with long | short
  · have zeros : s <+: front :=
      List.prefix_of_prefix_length_le (List.prefix_append s _) here (Nat.le_of_lt long)
    rcases zeros with ⟨more, rfl⟩
    have behind : more <+: List.replicate n 0 := (List.prefix_append_right_inj s).mp here
    cases more with
    | nil => exact List.prefix_refl _ |>.trans (by simp)
    | cons b more =>
        have zero : b = 0 := List.eq_of_mem_replicate (behind.subset (by simp))
        exact absurd (by simp [zero]) noZero
  · exact List.prefix_of_prefix_length_le here (List.prefix_append s _) short

theorem zeros_behind {s front behind : Bytes} {n : Nat} (noZero : 0 ∉ s)
    (split : s ++ List.replicate n 0 = front ++ 0 :: behind) : ∀ b ∈ behind, b = 0 := by
  intro b member
  rcases List.append_eq_append_iff.mp split with ⟨between, _, zeros⟩ | ⟨between, whole, zeros⟩
  · have inside : b ∈ List.replicate n 0 := by simp [zeros, member]
    exact List.eq_of_mem_replicate inside
  · cases between with
    | nil =>
        have inside : b ∈ [] ++ List.replicate n 0 := by simp [← zeros, member]
        exact List.eq_of_mem_replicate inside
    | cons c between =>
        have zero : 0 = c := (List.cons.inj zeros).1
        exact absurd (by simp [whole, zero]) noZero

/-- A text without a zero that is read starts with an opening. -/
theorem exists_opens {text : RequestText} {received : Bytes} (noZero : 0 ∉ received)
    (short : received.length < buffSize)
    (read : readRequest (inbuff received) = .ok (some text)) :
    ∃ skipped, Opens text skipped ∧ requestFront text skipped <+: received := by
  rcases (readRequest_eq_some_iff (terminated_inbuff short)).mp read with
    ⟨rest, line, found, after, leads, host, hostClean⟩
  rcases leads with ⟨skipped, behind, some_, skippedNoZero, here, first⟩ | ⟨skipped, behind, _⟩
  · rcases here with ⟨tail, rfl⟩
    rw [List.drop_left] at host
    have opens : Opens text skipped := by
      refine ⟨line.verb, line.path, line.protocol, hostClean, ⟨some_, skippedNoZero⟩, ?_⟩
      intro early late split someEarly someLate start
      apply first early late split someEarly someLate
      rw [← List.append_assoc]
      exact start.trans (List.prefix_append _ _)
    have whole : requestFront text skipped ++ after =
        received ++ List.replicate (buffSize - received.length) 0 := by
      rw [requestFront_append, ← host, ← behind, ← line.split, inbuff]
    exact ⟨skipped, opens, prefix_of_prefix_zeros opens.noZero ⟨after, whole⟩⟩
  · -- the header loop has run to the end, behind which there are only zeros
    have split := line.split
    rw [behind] at split
    have regroup : received ++ List.replicate (buffSize - received.length) 0 =
        (text.verb ++ space :: (text.path ++ space ::
          (text.protocol ++ carriageReturn :: skipped))) ++ 0 :: found := by
      simpa [inbuff] using split
    have zeros := zeros_behind noZero regroup
    have return_ : carriageReturn ∈ found := by
      apply List.mem_of_mem_drop (i := hostHeader.length)
      rw [host]
      simp
    exact absurd (zeros _ return_) (by decide)

/-- The first `Host: ` ends the same bytes. -/
theorem Opens.not_longer {text : RequestText} {skipped between more more' : Bytes}
    (opens : Opens text (skipped ++ between)) (some_ : skipped ≠ [])
    (same : hostHeader ++ more = between ++ (hostHeader ++ more')) : between = [] := by
  by_contra nonempty
  apply opens.first skipped between rfl some_ nonempty
  have here : hostHeader <+: (between ++ hostHeader) ++ more' := by
    rw [List.append_assoc, ← same]
    exact List.prefix_append _ _
  apply List.prefix_of_prefix_length_le here (List.prefix_append _ _)
  rw [List.length_append]
  omega

/-- The messages that are read start with an opening. -/
theorem Message.opens_render {msg : Message} (wellFormed : msg.WellFormed)
    (short : msg.render.length < buffSize) (noSpace : space ∉ msg.target) :
    ∃ text skipped, Opens text skipped ∧ requestFront text skipped <+: msg.render := by
  let bare : Message := { msg with body := [] }
  have front : bare.render <+: msg.render := ⟨msg.body, by simp [bare, render]; rfl⟩
  have noZero : 0 ∉ bare.render := by
    have lineBreak : 0 ∉ crlf := by decide
    have zeroFree := wellFormed.noZero
    have same : bare.head = msg.head := rfl
    simp [render, same, zeroFree, lineBreak, bare]
  have bareFormed : bare.WellFormed :=
    ⟨wellFormed.verb, wellFormed.path, wellFormed.protocol, wellFormed.lines, wellFormed.noZero⟩
  have bareShort := front.length_le.trans_lt short
  rcases readRequest_render bareFormed bareShort noSpace with ⟨host, _, read⟩
  rcases exists_opens noZero bareShort read with ⟨skipped, opens, start⟩
  exact ⟨_, skipped, opens, start.trans front⟩

/-- The openings of one request are the same. -/
theorem requestFront_unique {text text' : RequestText} {skipped skipped' request : Bytes}
    (opens : Opens text skipped) (opens' : Opens text' skipped')
    (short : request.length < buffSize) (start : requestFront text skipped <+: request)
    (start' : requestFront text' skipped' <+: request) :
    requestFront text skipped = requestFront text' skipped' := by
  have read := readRequest_of_opens opens start short
  obtain rfl := Option.some.inj
    (Except.ok.inj (read.symm.trans (readRequest_of_opens opens' start' short)))
  rcases start with ⟨more, whole⟩
  rcases start' with ⟨more', rfl⟩
  simp only [requestFront_append, List.append_cancel_left_eq, List.cons.injEq, true_and] at whole
  rcases List.append_eq_append_iff.mp whole with ⟨between, rfl, same⟩ | ⟨between, rfl, same⟩
  · rw [opens'.not_longer opens.passed.1 same, List.append_nil]
  · rw [opens.not_longer opens'.passed.1 same, List.append_nil]

/-! ## Two ways of splitting -/

/-- What is saved of the beginning of a request ends at the first zero of the request. -/
theorem savedHeaders_of_start {first request : Bytes} (start : first <+: request) :
    savedHeaders first = request.take (min first.length (cString request).length) := by
  rcases start with ⟨more, rfl⟩
  rw [savedHeaders, inbuff, cString_append_zeros]
  by_cases zero : 0 ∈ first
  · rcases List.eq_append_cons_of_mem zero with ⟨before, after, rfl, noZero⟩
    rw [List.append_assoc, List.cons_append, cString_append_zero noZero,
      cString_append_zero noZero]
    simp
  · have whole := cString_append zero []
    rw [List.append_nil] at whole
    rw [cString_append zero, whole]
    simp [cString]

/-- A beginning of a request that can be read reaches behind its opening. -/
theorem requestFront_prefix_of_read {text text' : RequestText} {skipped first request : Bytes}
    (opens : Opens text skipped) (start : requestFront text skipped <+: request)
    (short : request.length < buffSize) (begins : first <+: request)
    (read : readRequest (inbuff first) = .ok (some text')) :
    requestFront text skipped <+: first := by
  by_cases zero : 0 ∈ first
  · rcases List.prefix_or_prefix_of_prefix start begins with reaches | inside
    · exact reaches
    · exact absurd (inside.subset zero) opens.noZero
  · rcases exists_opens zero (begins.length_le.trans_lt short) read with
      ⟨skipped', opens', reaches⟩
    rw [requestFront_unique opens opens' short start (reaches.trans begins)]
    exact reaches

theorem dispatch_of_opens {text : RequestText} {skipped received : Bytes}
    (opens : Opens text skipped) (start : requestFront text skipped <+: received)
    (short : received.length < buffSize) (site : Site) (listener : Config.Server) :
    dispatch site listener received = routeRequest site (savedHeaders received) text := by
  have nonempty : received.isEmpty = false := by
    rcases start with ⟨more, rfl⟩
    simp [requestFront]
  rw [dispatch, if_neg (Nat.ne_of_lt short), nonempty, readRequest_of_opens opens start short]
  rfl

/-- Two ways of splitting a request come to the same if and only if both first pieces
reach behind the host, and hold the same of the bytes in front of the first zero. -/
theorem sameHandling_iff {text : RequestText} {skipped request : Bytes}
    (opens : Opens text skipped) (start : requestFront text skipped <+: request)
    (short : request.length < buffSize) (site : Site) (listener : Config.Server)
    {first first' : Bytes} {pieces pieces' : List Bytes}
    (split : (first :: pieces).flatten = request) (split' : (first' :: pieces').flatten = request) :
    SameHandling site listener (first :: pieces) (first' :: pieces') ↔
      (requestFront text skipped).length ≤ first.length ∧
        min first.length (cString request).length = min first'.length (cString request).length := by
  have begins : first <+: request := ⟨pieces.flatten, split⟩
  have begins' : first' <+: request := ⟨pieces'.flatten, split'⟩
  constructor
  · rintro ⟨text', received, received', run, run', read, _, saved, _⟩
    rw [List.map_cons, recvData_delivered, Option.some.injEq] at run run'
    obtain rfl : first = received := congrArg Reception.data run
    obtain rfl : first' = received' := congrArg Reception.data run'
    rw [savedHeaders_of_start begins, savedHeaders_of_start begins'] at saved
    have lengths := congrArg List.length saved
    have bound := begins.length_le
    have bound' := begins'.length_le
    rw [List.length_take, List.length_take] at lengths
    have reaches := requestFront_prefix_of_read opens start short begins read
    exact ⟨reaches.length_le, by omega⟩
  · rintro ⟨long, same⟩
    have reaches : requestFront text skipped <+: first :=
      List.prefix_of_prefix_length_le start begins long
    have whole : requestFront text skipped <+: cString request := by
      rcases start with ⟨more, rfl⟩
      rw [cString_append opens.noZero]
      exact List.prefix_append _ _
    have long' : (requestFront text skipped).length ≤ first'.length := by
      have := whole.length_le
      omega
    have reaches' : requestFront text skipped <+: first' :=
      List.prefix_of_prefix_length_le start begins' long'
    have read := readRequest_of_opens opens reaches (begins.length_le.trans_lt short)
    have read' := readRequest_of_opens opens reaches' (begins'.length_le.trans_lt short)
    have saved : savedHeaders first = savedHeaders first' := by
      rw [savedHeaders_of_start begins, savedHeaders_of_start begins', same]
    refine ⟨text, first, first', by simp, by simp, read, read', saved, ?_⟩
    rw [dispatch_of_opens opens reaches (begins.length_le.trans_lt short) site listener,
      dispatch_of_opens opens reaches' (begins'.length_le.trans_lt short) site listener, saved]

/-- `POST /form` with a body. -/
def posting (body : Bytes) : Message :=
  { verb := bytes "POST"
    path := bytes "/form"
    query := none
    protocol := bytes "HTTP/1.1"
    before := []
    host := bytes "b"
    after := [bytes "Content-Length: 3"]
    body := body }

def postingText : RequestText :=
  { verb := bytes "POST", path := bytes "/form", protocol := bytes "HTTP/1.1", host := bytes "b" }

theorem posting_opens : Opens postingText [10] := by
  refine ⟨by decide, by decide, by decide, by decide, by decide, fun early late split some => ?_⟩
  rcases List.exists_cons_of_ne_nil some with ⟨b, early, rfl⟩
  intro someLate
  exact absurd (List.append_eq_nil_iff.mp (List.cons.inj split).2.symm).2 someLate

/-- The last byte of the body comes in a piece of its own, behind a zero. -/
theorem sameHandling_iff_posting :
    ∃ s t listener, twoServers.parse (fun _ => none) = .ok s ∧
      checkServers .permissive s = .ok t ∧ listener ∈ t.serverList ∧
      SameHandling
        { isDefaultServer := CheckEnv.permissive.isDefaultServer
          servers := t.serverList
          regexMatch := fun _ _ => false } listener
        [(posting [65, 0, 66]).render] [(posting [65, 0]).render, [66]] := by
  have start : requestFront postingText [10] <+: (posting [65, 0, 66]).render :=
    List.isPrefixOf_iff_prefix.mp (by decide)
  refine ⟨_, _, _, rfl, rfl, List.mem_cons_self, ?_⟩
  exact (sameHandling_iff posting_opens start (by decide) _ _ (by decide) (by decide)).mpr
    ⟨by decide, by decide⟩

/-- A body in a piece of its own is lost. -/
theorem posting_not_sameHandling :
    ∃ s t listener, twoServers.parse (fun _ => none) = .ok s ∧
      checkServers .permissive s = .ok t ∧ listener ∈ t.serverList ∧
      (posting (bytes "a=b")).WellFormed ∧ (posting (bytes "a=b")).render.length < buffSize ∧
      [(posting []).render, bytes "a=b"].flatten = (posting (bytes "a=b")).render ∧
      ¬ SameHandling
        { isDefaultServer := CheckEnv.permissive.isDefaultServer
          servers := t.serverList
          regexMatch := fun _ _ => false } listener
        [(posting (bytes "a=b")).render] [(posting []).render, bytes "a=b"] := by
  refine ⟨_, _, _, rfl, rfl, List.mem_cons_self, ?_, by decide, by decide, ?_⟩
  · exact ⟨by decide, by decide, by decide, by decide, by decide⟩
  · rintro ⟨_, received, received', run, run', _, _, saved, _⟩
    obtain rfl : (posting (bytes "a=b")).render = received :=
      congrArg Reception.data (Option.some.inj run)
    obtain rfl : (posting []).render = received' := congrArg Reception.data (Option.some.inj run')
    exact absurd saved (by decide)

end OgWebserver.Request

import OgWebserver.Request.Forward
import OgWebserver.Request.Process

/-!
# Messages and their parts

A client renders a request line, header lines and a body; `processInput` should
take the message apart into what went into it.  Its search for the host is not
tied to the beginning of a line, so that the header lines in front of the host
line matter.  The file follows the searches through a rendered message and
determines which parts come back.
-/

namespace OgWebserver.Request

open Text Transition

/-- The byte `?`. -/
def questionMark : UInt8 := 63

/-- A request as a client writes it. -/
structure Message where
  verb : Bytes
  path : Bytes
  query : Option Bytes
  protocol : Bytes
  /-- Header lines in front of the host line. -/
  before : List Bytes
  host : Bytes
  /-- Header lines behind the host line. -/
  after : List Bytes
  body : Bytes

/-- Header lines with their line breaks. -/
def renderLines (lines : List Bytes) : Bytes :=
  lines.flatMap (· ++ crlf)

namespace Message

/-- The path, and the query string behind a question mark. -/
def target (msg : Message) : Bytes :=
  msg.path ++ (msg.query.map (questionMark :: ·)).getD []

def hostLine (msg : Message) : Bytes :=
  hostHeader ++ msg.host

/-- The header lines as far as the host line. -/
def lines (msg : Message) : List Bytes :=
  msg.before ++ [msg.hostLine]

/-- The request line and the header lines. -/
def head (msg : Message) : Bytes :=
  msg.verb ++ space :: (msg.target ++ space :: (msg.protocol ++ crlf ++
    renderLines (msg.lines ++ msg.after)))

/-- The whole message. -/
def render (msg : Message) : Bytes :=
  msg.head ++ crlf ++ msg.body

/-- The parts are what the format allows: single tokens, and lines without line
breaks, none of them with a zero byte. -/
structure WellFormed (msg : Message) : Prop where
  verb : space ∉ msg.verb
  path : space ∉ msg.path ∧ carriageReturn ∉ msg.path ∧ questionMark ∉ msg.path
  protocol : carriageReturn ∉ msg.protocol
  lines : ∀ line ∈ msg.lines ++ msg.after, carriageReturn ∉ line
  noZero : 0 ∉ msg.head

end Message

/-- What stands behind the first `Host: ` in a header line, wherever in the line it is. -/
def hostIn (line : Bytes) : Option Bytes :=
  (strstr hostHeader line).map fun parts => parts.2.drop hostHeader.length

/-- The first occurrence of a byte splits a text in one way. -/
theorem split_unique {c : UInt8} {front back front' back' : Bytes} (absent : c ∉ front)
    (absent' : c ∉ front') (split : front ++ c :: back = front' ++ c :: back') :
    front = front' ∧ back = back' := by
  induction front generalizing front' with
  | nil =>
      cases front' with
      | nil => exact ⟨rfl, (List.cons.inj split).2⟩
      | cons b front' => exact absurd (List.mem_cons.mpr (.inl (List.cons.inj split).1)) absent'
  | cons b front ih =>
      cases front' with
      | nil => exact absurd (List.mem_cons.mpr (.inl (List.cons.inj split).1.symm)) absent
      | cons b' front' =>
          rcases List.cons.inj split with ⟨rfl, tails⟩
          rcases ih (fun member => absent (List.mem_cons_of_mem b member))
            (fun member => absent' (List.mem_cons_of_mem b member)) tails with ⟨rfl, rfl⟩
          exact ⟨rfl, rfl⟩

theorem suffix_of_hostIn {line host : Bytes} (found : hostIn line = some host) :
    host <:+ line := by
  rcases Option.map_eq_some_iff.mp found with ⟨parts, split, rfl⟩
  rcases strstr_eq_some split with ⟨whole, _⟩
  exact (List.drop_suffix _ _).trans ⟨parts.1, whole.symm⟩

/-! ## The header loop on lines -/

/-- A text that ends before a byte it does not hold ends within what stands before it. -/
theorem prefix_of_append_cons {needle s t : Bytes} {c : UInt8} (absent : c ∉ needle)
    (here : needle <+: s ++ c :: t) : needle <+: s := by
  rcases Nat.lt_or_ge s.length needle.length with long | short
  · have front : s ++ [c] <+: s ++ c :: t := ⟨t, by simp⟩
    have inside : s ++ [c] <+: needle := by
      apply List.prefix_of_prefix_length_le front here
      rw [List.length_append, List.length_singleton]
      exact long
    exact absurd (inside.subset (by simp)) absent
  · exact List.prefix_of_prefix_length_le here (List.prefix_append s _) short

/-- The header loop on a line: it stops at the first `Host: `, or goes on behind
the line break. -/
theorem leadsTo_line {b : UInt8} {line more found : Bytes} (nonzero : b ≠ 0) (noZero : 0 ∉ line) :
    LeadsTo (b :: (line ++ (crlf ++ more))) found ↔
      match strstr hostHeader line with
      | none => LeadsTo (10 :: more) found
      | some parts => parts.2 ++ (crlf ++ more) = found := by
  have noReturn : carriageReturn ∉ hostHeader := by decide
  induction line generalizing b with
  | nil =>
      have first : ¬ hostHeader <+: [] ++ (crlf ++ more) := fun here =>
        absurd (prefix_of_append_cons noReturn here) (by decide)
      have second : ¬ hostHeader <+: 10 :: more := fun here =>
        absurd (List.head_eq_of_cons_eq here.choose_spec) (by decide)
      rw [leadsTo_later nonzero first]
      exact leadsTo_later (by decide) second
  | cons c line ih =>
      have headNonzero : c ≠ 0 := fun same => noZero (by simp [same])
      have tailNoZero : 0 ∉ line := fun zero => noZero (List.mem_cons_of_mem c zero)
      rw [strstr]
      by_cases here : hostHeader.isPrefixOf (c :: line) = true
      · rw [if_pos here]
        have starts := (List.isPrefixOf_iff_prefix.mp here).trans
          (List.prefix_append (c :: line) (crlf ++ more))
        exact leadsTo_here nonzero starts
      · rw [if_neg here]
        have notHere : ¬ hostHeader <+: c :: line ++ (crlf ++ more) := fun starts =>
          here (List.isPrefixOf_iff_prefix.mpr (prefix_of_append_cons noReturn starts))
        apply (leadsTo_later nonzero notHere).trans
        apply (ih headNonzero tailNoZero).trans
        cases strstr hostHeader line <;> simp

/-- The header loop on the lines of a message: it stops in the first line with a
`Host: ` in it. -/
theorem leadsTo_lines {lines : List Bytes} {more found : Bytes}
    (noZero : ∀ line ∈ lines, 0 ∉ line) (some_ : ∃ line ∈ lines, (hostIn line).isSome)
    (leads : LeadsTo (10 :: (renderLines lines ++ more)) found) :
    ∃ host after, lines.findSome? hostIn = some host ∧
      found.drop hostHeader.length = host ++ (crlf ++ after) := by
  induction lines with
  | nil =>
      rcases some_ with ⟨line, member, _⟩
      cases member
  | cons line lines ih =>
      have regroup : renderLines (line :: lines) ++ more =
          line ++ (crlf ++ (renderLines lines ++ more)) := by
        simp [renderLines, List.append_assoc]
      rw [regroup, leadsTo_line (by decide) (noZero line (by simp))] at leads
      rw [List.findSome?_cons, hostIn]
      cases found_ : strstr hostHeader line with
      | none =>
          rw [found_] at leads
          apply ih (fun other member => noZero other (List.mem_cons_of_mem line member)) _ leads
          rcases some_ with ⟨other, member, some_⟩
          rcases List.mem_cons.mp member with rfl | member
          · simp [hostIn, found_] at some_
          · exact ⟨other, member, some_⟩
      | some parts =>
          rw [found_] at leads
          rcases strstr_eq_some found_ with ⟨_, here⟩
          refine ⟨parts.2.drop hostHeader.length, renderLines lines ++ more, rfl, ?_⟩
          rw [← leads, List.drop_append_of_le_length here.length_le]

/-- In a terminated text the header loop comes to an end. -/
theorem exists_leadsTo {p : Bytes} (terminated : 0 ∈ p) : ∃ found, LeadsTo p found := by
  induction p with
  | nil => cases terminated
  | cons b rest ih =>
      by_cases zero : b = 0
      · subst zero
        exact ⟨rest, leadsTo_zero.mpr rfl⟩
      · by_cases here : hostHeader <+: rest
        · exact ⟨rest, (leadsTo_here zero here).mpr rfl⟩
        · rcases List.mem_cons.mp terminated with same | member
          · exact absurd same.symm zero
          · rcases ih member with ⟨found, leads⟩
            exact ⟨found, (leadsTo_later zero here).mpr leads⟩

/-! ## The whole message -/

namespace Message

/-- The fields that `processInput` sets are the parts of the message; an empty
query string counts as none. -/
def Recovered (msg : Message) : Prop :=
  ∃ text, readRequest (inbuff msg.render) = .ok (some text) ∧
    text.verb = msg.verb ∧ text.protocol = msg.protocol ∧ text.host = msg.host ∧
    cutQuery text.path = (msg.path, msg.query.filter (!·.isEmpty))

/-- The buffer behind the request line. -/
def rest (msg : Message) : Bytes :=
  10 :: (renderLines msg.lines ++ (renderLines msg.after ++ (crlf ++ (msg.body ++
    List.replicate (buffSize - msg.render.length) 0))))

theorem inbuff_render (msg : Message) :
    inbuff msg.render = msg.verb ++ space :: (msg.target ++ space ::
      (msg.protocol ++ carriageReturn :: msg.rest)) := by
  have lineBreak : crlf = [carriageReturn, 10] := by decide
  simp [inbuff, render, head, rest, renderLines, lineBreak, List.append_assoc]

theorem notMem_of_mem_lines {msg : Message} (wellFormed : msg.WellFormed) {line : Bytes}
    (member : line ∈ msg.lines) : 0 ∉ line := by
  intro zero
  apply wellFormed.noZero
  simp only [head, renderLines, List.mem_append, List.mem_cons, List.mem_flatMap]
  exact .inr (.inr (.inr (.inr (.inr ⟨line, .inl member, .inl zero⟩))))

theorem hostIn_hostLine (msg : Message) : hostIn msg.hostLine = some msg.host := by
  have here : strstr hostHeader (hostHeader ++ msg.host) =
      some ([], hostHeader ++ msg.host) :=
    @strstr_append hostHeader [] msg.host (by simp) (by decide)
  rw [hostIn, hostLine, here, Option.map_some, List.drop_left]

theorem decide_ne_of_mem {path : Bytes} (absent : questionMark ∉ path) :
    ∀ b ∈ path, decide (b ≠ 63) = true := by
  intro b member
  have different : b ≠ questionMark := ne_of_mem_of_not_mem member absent
  exact decide_eq_true different

theorem cutQuery_of_question {path : Bytes} (absent : questionMark ∉ path) (query : Bytes) :
    cutQuery (path ++ questionMark :: query) =
      (path, if query.isEmpty then none else some query) := by
  have clean := decide_ne_of_mem absent
  rw [cutQuery, List.dropWhile_append_of_pos clean, List.takeWhile_append_of_pos clean]
  simp [questionMark]

theorem cutQuery_target {msg : Message} (absent : questionMark ∉ msg.path) :
    cutQuery msg.target = (msg.path, msg.query.filter (!·.isEmpty)) := by
  rw [target]
  cases msg.query with
  | none =>
      have passed := List.dropWhile_eq_nil_iff.mpr (decide_ne_of_mem absent)
      rw [Option.map_none, Option.getD_none, List.append_nil, cutQuery, passed]
      rfl
  | some query =>
      rw [Option.map_some, Option.getD_some, cutQuery_of_question absent]
      cases query <;> rfl

/-- What is read of a message: the request line up to the second space, and the
first `Host: ` in a header line. -/
theorem readRequest_render {msg : Message} (wellFormed : msg.WellFormed)
    (short : msg.render.length < buffSize) (noSpace : space ∉ msg.target) :
    ∃ host, msg.lines.findSome? hostIn = some host ∧
      readRequest (inbuff msg.render) = .ok (some
        { verb := msg.verb, path := msg.target, protocol := msg.protocol, host := host }) := by
  have terminated := terminated_inbuff short
  have noZero := wellFormed.noZero
  simp only [head, List.mem_append, List.mem_cons, not_or] at noZero
  have line : RequestLine (inbuff msg.render)
      { verb := msg.verb, path := msg.target, protocol := msg.protocol, host := [] } msg.rest :=
    ⟨msg.inbuff_render, ⟨wellFormed.verb, noZero.1⟩, ⟨noSpace, noZero.2.2.1⟩,
      ⟨wellFormed.protocol, noZero.2.2.2.2.1.1⟩⟩
  rcases exists_leadsTo (line.terminated terminated) with ⟨found, leads⟩
  have some_ : ∃ line ∈ msg.lines, (hostIn line).isSome :=
    ⟨msg.hostLine, by simp [lines], by rw [hostIn_hostLine]; rfl⟩
  rcases leadsTo_lines (fun line => notMem_of_mem_lines wellFormed) some_ leads with
    ⟨host, after, first, behind⟩
  rcases List.exists_of_findSome?_eq_some first with ⟨holder, member, inHolder⟩
  have part := (suffix_of_hostIn inHolder).subset
  have noReturn : carriageReturn ∉ host := fun member' =>
    wellFormed.lines holder (List.mem_append_left msg.after member) (part member')
  have hostNoZero : 0 ∉ host := fun zero =>
    notMem_of_mem_lines wellFormed member (part zero)
  have hostRead : HostIn msg.rest host := ⟨found, 10 :: after, leads, behind, noReturn, hostNoZero⟩
  refine ⟨host, first, (readRequest_eq_some_iff terminated).mpr ⟨msg.rest, ?_, hostRead⟩⟩
  exact ⟨line.split, line.verb, line.path, line.protocol⟩

/-- A query string is cut at its first space. -/
theorem path_of_spaced {msg : Message} (wellFormed : msg.WellFormed)
    (short : msg.render.length < buffSize) {front back : Bytes} (noSpace : space ∉ front)
    (query : msg.query = some (front ++ space :: back)) {text : RequestText}
    (read : readRequest (inbuff msg.render) = .ok (some text)) :
    text.path = msg.path ++ questionMark :: front := by
  rcases (readRequest_eq_some_iff (terminated_inbuff short)).mp read with ⟨rest, line, _⟩
  have split := line.split
  rw [inbuff_render] at split
  rcases split_unique wellFormed.verb line.verb.1 split with ⟨_, behind⟩
  have target : msg.target = (msg.path ++ questionMark :: front) ++ space :: back := by
    simp [Message.target, query]
  have clean : space ∉ msg.path ++ questionMark :: front := by
    have mark : space ≠ questionMark := by decide
    simp [wellFormed.path.1, mark, noSpace]
  rw [target, List.append_assoc, List.cons_append] at behind
  exact (split_unique clean line.path.1 behind).1.symm

theorem not_recovered_of_spaced {msg : Message} (wellFormed : msg.WellFormed)
    (short : msg.render.length < buffSize) {query : Bytes} (is : msg.query = some query)
    (spaced : space ∈ query) : ¬ msg.Recovered := by
  rintro ⟨text, read, _, _, _, path⟩
  rcases List.eq_append_cons_of_mem spaced with ⟨front, back, rfl, noSpace⟩
  rw [path_of_spaced wellFormed short noSpace is read,
    cutQuery_of_question wellFormed.path.2.2, is] at path
  have shorter := congrArg (fun parts : Bytes × Option Bytes => parts.2.map List.length) path
  cases front with
  | nil => simp at shorter
  | cons b front => simp at shorter

/-- A message is taken apart into its parts if and only if its query string has no
space and the first `Host: ` in its header lines is that of the host line. -/
theorem recovered_iff {msg : Message} (wellFormed : msg.WellFormed)
    (short : msg.render.length < buffSize) :
    msg.Recovered ↔
      (∀ query, msg.query = some query → space ∉ query) ∧
        msg.lines.findSome? hostIn = some msg.host := by
  have noSpace_iff : space ∉ msg.target ↔ ∀ query, msg.query = some query → space ∉ query := by
    have mark : space ≠ questionMark := by decide
    rw [target]
    cases msg.query with
    | none => simp [wellFormed.path.1]
    | some query => simp [wellFormed.path.1, mark]
  rw [← noSpace_iff]
  constructor
  · intro recovered
    have noSpace := noSpace_iff.mpr fun query is spaced =>
      not_recovered_of_spaced wellFormed short is spaced recovered
    rcases recovered with ⟨text, read, _, _, host, _⟩
    rcases readRequest_render wellFormed short noSpace with ⟨first, is, same⟩
    obtain rfl := Option.some.inj (Except.ok.inj (read.symm.trans same))
    exact ⟨noSpace, by rw [is, ← host]⟩
  · rintro ⟨noSpace, first⟩
    rcases readRequest_render wellFormed short noSpace with ⟨host, is, read⟩
    have same : host = msg.host := Option.some.inj (is.symm.trans first)
    exact ⟨_, read, rfl, rfl, same, cutQuery_target wellFormed.path.2.2⟩

/-- `GET /index.html?a` with a header line in front of the host line. -/
def accepting : Message :=
  { verb := bytes "GET"
    path := bytes "/index.html"
    query := some (bytes "a")
    protocol := bytes "HTTP/1.1"
    before := [bytes "Accept: text/html"]
    host := bytes "localhost"
    after := [bytes "Connection: close"]
    body := bytes "x" }

theorem accepting_wellFormed : accepting.WellFormed :=
  ⟨by decide, by decide, by decide, by decide, by decide⟩

theorem recovered_iff_accepting : accepting.Recovered :=
  (recovered_iff accepting_wellFormed (by decide)).mpr ⟨by decide, by decide⟩

/-- `GET /` with a header that only ends in `Host`. -/
def forwardedHost : Message :=
  { verb := bytes "GET"
    path := bytes "/"
    query := none
    protocol := bytes "HTTP/1.1"
    before := [bytes "X-Forwarded-Host: evil"]
    host := bytes "good"
    after := []
    body := [] }

/-- The host is read from the header line in front of the host line. -/
theorem forwardedHost_not_recovered :
    forwardedHost.WellFormed ∧ forwardedHost.render.length < buffSize ∧
      (∀ line ∈ forwardedHost.before ++ forwardedHost.after, ¬ hostHeader <+: line) ∧
      (readRequest (inbuff forwardedHost.render)).toOption.map (·.map (·.host)) =
        some (some (bytes "evil")) ∧
      ¬ forwardedHost.Recovered := by
  have read : readRequest (inbuff forwardedHost.render) = .ok (some
      { verb := bytes "GET", path := bytes "/", protocol := bytes "HTTP/1.1",
        host := bytes "evil" }) := by decide
  have others : ∀ line ∈ forwardedHost.before ++ forwardedHost.after,
      ¬ hostHeader.isPrefixOf line = true := by decide
  refine ⟨⟨by decide, by decide, by decide, by decide, by decide⟩, by decide, ?_, ?_, ?_⟩
  · exact fun line member here => others line member (List.isPrefixOf_iff_prefix.mpr here)
  · rw [read]
    rfl
  · rintro ⟨text, other, _, _, host, _⟩
    obtain rfl := Option.some.inj (Except.ok.inj (read.symm.trans other))
    exact absurd host (by decide)

end Message

end OgWebserver.Request

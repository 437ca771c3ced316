import OgWebserver.Request.Dispatch
import OgWebserver.Text.Scan
import OgWebserver.Transition.Run

/-!
# Reading a request

`processInput` takes a request apart in place, with five searches one after the
other over a zero-filled buffer.  Only the first search is tested for failure,
so the file keeps what an untested search leads to: a write through a null
pointer, or an access behind the buffer.  The texts that are read without such
an access are those of the shape `RequestLine`, with a host line behind.
-/

namespace OgWebserver.Request

open Text Transition

/-- `BUFF_SIZE`. -/
def buffSize : Nat := 4096

/-- The buffer after a receive into zeros. -/
def inbuff (received : Bytes) : Bytes :=
  received ++ List.replicate (buffSize - received.length) 0

/-- What `processInput` saves of the bytes received, for the pass handlers. -/
def savedHeaders (received : Bytes) : Bytes :=
  cString (inbuff received)

def space : UInt8 := 32

def carriageReturn : UInt8 := 13

/-- What the header loop looks for. -/
def hostHeader : Bytes := bytes "Host: "

/-- The parts of a request, as C strings. -/
structure RequestText where
  verb : Bytes
  path : Bytes
  protocol : Bytes
  host : Bytes
  deriving DecidableEq

/-- A `strchr` whose result is written through without a test: the string that
ends there, and the text behind it. -/
def cutAt (c : UInt8) (p : Bytes) : Except Fault (Bytes × Bytes) :=
  match strchr c p with
  | .found before after => .ok (before, after)
  | .missing => .error .nullPointer
  | .overrun => .error .outOfBounds

/-- The header loop.  The pointer moves on before each comparison and once more
when it reads the terminating zero. -/
def skipToHost : Bytes → Except Fault Bytes
  | [] => .error .outOfBounds
  | b :: rest =>
      if b = 0 then .ok rest
      else
        match strncmp hostHeader rest with
        | none => .error .outOfBounds
        | some true => .ok rest
        | some false => skipToHost rest

/-- The searches of `processInput`; `none` when the request has no space at all. -/
def readRequest (input : Bytes) : Except Fault (Option RequestText) :=
  match strchr space input with
  | .missing => .ok none
  | .overrun => .error .outOfBounds
  | .found verb p => do
      let (path, p) ← cutAt space p
      let (protocol, p) ← cutAt carriageReturn p
      let p ← skipToHost p
      -- the test of the pointer that stands here in the source never fails
      let (host, _) ← cutAt carriageReturn (p.drop hostHeader.length)
      .ok (some { verb := verb, path := path, protocol := protocol, host := host })

/-! ## Single searches -/

theorem cutAt_eq_ok_iff {c : UInt8} {p before after : Bytes} :
    cutAt c p = .ok (before, after) ↔ p = before ++ c :: after ∧ c ∉ before ∧ 0 ∉ before := by
  rw [← strchr_eq_found_iff, cutAt]
  cases strchr c p with
  | found x y => simp
  | missing => simp
  | overrun => simp

/-- The header loop that starts at `p` ends at `found`: in front of the first
header line behind `p`, or behind the terminating zero. -/
def LeadsTo (p found : Bytes) : Prop :=
  (∃ skipped, p = skipped ++ found ∧ skipped ≠ [] ∧ 0 ∉ skipped ∧ hostHeader <+: found ∧
      ∀ early late, skipped = early ++ late → early ≠ [] → late ≠ [] →
        ¬ hostHeader <+: late ++ found) ∨
    ∃ line, p = line ++ 0 :: found ∧ 0 ∉ line ∧
      ∀ early late, line = early ++ late → early ≠ [] → ¬ hostHeader <+: late ++ 0 :: found

theorem leadsTo_zero {rest found : Bytes} : LeadsTo (0 :: rest) found ↔ rest = found := by
  constructor
  · rintro (⟨skipped, split, some, noZero, _⟩ | ⟨line, split, noZero, _⟩)
    · rcases List.exists_cons_of_ne_nil some with ⟨b, more, rfl⟩
      rw [List.cons_append, List.cons.injEq] at split
      exact absurd (List.mem_cons.mpr (.inl split.1)) noZero
    · cases line with
      | nil => exact (List.cons.inj split).2
      | cons b more =>
          rw [List.cons_append, List.cons.injEq] at split
          exact absurd (List.mem_cons.mpr (.inl split.1)) noZero
  · rintro rfl
    refine .inr ⟨[], rfl, by simp, fun early late split some => ?_⟩
    exact absurd (List.append_eq_nil_iff.mp split.symm).1 some

/-- The loop stops where the header follows at once. -/
theorem leadsTo_here {b : UInt8} {rest found : Bytes} (nonzero : b ≠ 0)
    (here : hostHeader <+: rest) : LeadsTo (b :: rest) found ↔ rest = found := by
  constructor
  · rintro (⟨skipped, split, some, _, _, first⟩ | ⟨line, split, _, first⟩)
    · rcases List.exists_cons_of_ne_nil some with ⟨c, more, rfl⟩
      rcases List.cons.inj split with ⟨rfl, rfl⟩
      cases more with
      | nil => rfl
      | cons d more => exact absurd here (first [b] (d :: more) rfl (by simp) (by simp))
    · cases line with
      | nil => exact absurd (List.cons.inj split).1 nonzero
      | cons c more =>
          rcases List.cons.inj split with ⟨rfl, rfl⟩
          exact absurd here (first [b] more rfl (by simp))
  · rintro rfl
    refine .inl ⟨[b], rfl, by simp, by simp [Ne.symm nonzero], here, ?_⟩
    intro early late split someEarly someLate
    have lengths := congrArg List.length split
    rw [List.length_append, List.length_singleton] at lengths
    have := List.length_pos_iff.mpr someEarly
    have := List.length_pos_iff.mpr someLate
    omega

/-- Otherwise it goes on. -/
theorem leadsTo_later {b : UInt8} {rest found : Bytes} (nonzero : b ≠ 0)
    (notHere : ¬ hostHeader <+: rest) : LeadsTo (b :: rest) found ↔ LeadsTo rest found := by
  constructor
  · rintro (⟨skipped, split, some, noZero, here, first⟩ | ⟨line, split, noZero, first⟩)
    · rcases List.exists_cons_of_ne_nil some with ⟨c, more, rfl⟩
      rcases List.cons.inj split with ⟨rfl, rfl⟩
      have behind : more ≠ [] := by
        rintro rfl
        exact notHere here
      refine .inl ⟨more, rfl, behind, fun zero => noZero (List.mem_cons_of_mem b zero), here, ?_⟩
      intro early late split _ someLate
      exact first (b :: early) late (by rw [split]; rfl) (by simp) someLate
    · cases line with
      | nil => exact absurd (List.cons.inj split).1 nonzero
      | cons c more =>
          rcases List.cons.inj split with ⟨rfl, rfl⟩
          refine .inr ⟨more, rfl, fun zero => noZero (List.mem_cons_of_mem b zero), ?_⟩
          intro early late split _
          exact first (b :: early) late (by rw [split]; rfl) (by simp)
  · rintro (⟨skipped, rfl, some, noZero, here, first⟩ | ⟨line, rfl, noZero, first⟩)
    · refine .inl ⟨b :: skipped, rfl, by simp, by simp [noZero, Ne.symm nonzero], here, ?_⟩
      intro early late split someEarly someLate
      rcases List.exists_cons_of_ne_nil someEarly with ⟨c, early, rfl⟩
      rcases List.cons.inj split with ⟨rfl, rfl⟩
      cases early with
      | nil => exact notHere
      | cons d early => exact first (d :: early) late rfl (by simp) someLate
    · refine .inr ⟨b :: line, rfl, by simp [noZero, Ne.symm nonzero], ?_⟩
      intro early late split someEarly
      rcases List.exists_cons_of_ne_nil someEarly with ⟨c, early, rfl⟩
      rcases List.cons.inj split with ⟨rfl, rfl⟩
      cases early with
      | nil => exact notHere
      | cons d early => exact first (d :: early) late rfl (by simp)

theorem skipToHost_eq_ok_iff {p found : Bytes} (terminated : 0 ∈ p) :
    skipToHost p = .ok found ↔ LeadsTo p found := by
  induction p with
  | nil => simp at terminated
  | cons b rest ih =>
      simp only [skipToHost]
      by_cases zero : b = 0
      · subst zero
        rw [if_pos rfl, leadsTo_zero, Except.ok.injEq]
      · have inRest : 0 ∈ rest := by
          rcases List.mem_cons.mp terminated with same | member
          · exact absurd same.symm zero
          · exact member
        rw [if_neg zero]
        cases compared : strncmp hostHeader rest with
        | none => exact absurd compared (strncmp_ne_none (by decide) inRest)
        | some equal =>
            cases equal with
            | true =>
                rcases strncmp_eq_true_iff.mp compared with ⟨more, rfl⟩
                rw [leadsTo_here zero (List.prefix_append _ _), Except.ok.injEq]
            | false =>
                have notHere : ¬ hostHeader <+: rest := by
                  rintro ⟨more, rfl⟩
                  rw [strncmp_append] at compared
                  cases compared
                rw [leadsTo_later zero notHere, ← ih inRest]

/-! ## The whole request -/

/-- The first three searches succeed on the text and leave `rest`. -/
structure RequestLine (input : Bytes) (text : RequestText) (rest : Bytes) : Prop where
  split : input = text.verb ++ space ::
    (text.path ++ space :: (text.protocol ++ carriageReturn :: rest))
  verb : space ∉ text.verb ∧ 0 ∉ text.verb
  path : space ∉ text.path ∧ 0 ∉ text.path
  protocol : carriageReturn ∉ text.protocol ∧ 0 ∉ text.protocol

/-- The header loop and the last search find the host behind the request line. -/
def HostIn (rest host : Bytes) : Prop :=
  ∃ found after, LeadsTo rest found ∧
    found.drop hostHeader.length = host ++ carriageReturn :: after ∧
    carriageReturn ∉ host ∧ 0 ∉ host

theorem RequestLine.terminated {input rest : Bytes} {text : RequestText}
    (line : RequestLine input text rest) (terminated : 0 ∈ input) : 0 ∈ rest := by
  rw [line.split] at terminated
  simp only [List.mem_append, List.mem_cons, line.verb.2, line.path.2, line.protocol.2,
    false_or] at terminated
  have noSpace : (0 : UInt8) ≠ space := by decide
  have noReturn : (0 : UInt8) ≠ carriageReturn := by decide
  simpa [noSpace, noReturn] using terminated

theorem strchr_eq_missing_iff_cString {c : UInt8} (nonzero : c ≠ 0) {p : Bytes}
    (terminated : 0 ∈ p) : strchr c p = .missing ↔ c ∉ cString p := by
  rcases List.eq_append_cons_of_mem terminated with ⟨before, after, split, noZero⟩
  rw [split, cString_append_zero noZero, strchr_eq_missing_iff nonzero]
  constructor
  · rintro ⟨other, rest, same, noHit, otherNoZero⟩
    have eq : before = other := by
      have cut := congrArg cString same
      rwa [cString_append_zero noZero, cString_append_zero otherNoZero] at cut
    rwa [eq]
  · intro absent
    exact ⟨before, after, rfl, absent, noZero⟩

/-- The text of a request with no space before its first zero is not taken apart. -/
theorem readRequest_eq_none_iff {input : Bytes} (terminated : 0 ∈ input) :
    readRequest input = .ok none ↔ space ∉ cString input := by
  rw [← strchr_eq_missing_iff_cString (by decide) terminated, readRequest]
  cases strchr space input with
  | missing => simp
  | overrun => simp
  | found verb p =>
      simp only [reduceCtorEq, iff_false]
      intro none
      rcases bind_eq_ok_iff.mp none with ⟨_, _, none⟩
      rcases bind_eq_ok_iff.mp none with ⟨_, _, none⟩
      rcases bind_eq_ok_iff.mp none with ⟨_, _, none⟩
      rcases bind_eq_ok_iff.mp none with ⟨_, _, none⟩
      cases none

/-- The requests that are read, and the parts they are taken apart into. -/
theorem readRequest_eq_some_iff {input : Bytes} {text : RequestText} (terminated : 0 ∈ input) :
    readRequest input = .ok (some text) ↔
      ∃ rest, RequestLine input text rest ∧ HostIn rest text.host := by
  constructor
  · intro read
    rw [readRequest] at read
    split at read
    case h_1 => cases read
    case h_2 => cases read
    case h_3 verb p found =>
      rcases strchr_eq_found_iff.mp found with ⟨rfl, verbClean⟩
      rcases bind_eq_ok_iff.mp read with ⟨⟨path, q⟩, cutPath, fromPath⟩
      rcases bind_eq_ok_iff.mp fromPath with ⟨⟨protocol, rest⟩, cutProtocol, fromProtocol⟩
      rcases bind_eq_ok_iff.mp fromProtocol with ⟨behind, skipped, fromHeaders⟩
      rcases bind_eq_ok_iff.mp fromHeaders with ⟨⟨host, after⟩, cutHost, done⟩
      obtain rfl := Option.some.inj (Except.ok.inj done)
      rcases cutAt_eq_ok_iff.mp cutPath with ⟨rfl, pathClean⟩
      rcases cutAt_eq_ok_iff.mp cutProtocol with ⟨rfl, protocolClean⟩
      have line : RequestLine (verb ++ space :: (path ++ space ::
          (protocol ++ carriageReturn :: rest)))
          { verb := verb, path := path, protocol := protocol, host := host } rest :=
        ⟨rfl, verbClean, pathClean, protocolClean⟩
      exact ⟨rest, line, behind, after,
        (skipToHost_eq_ok_iff (line.terminated terminated)).mp skipped,
        cutAt_eq_ok_iff.mp cutHost⟩
  · rintro ⟨rest, line, found, after, leads, host⟩
    have inRest := line.terminated terminated
    rw [readRequest, line.split, strchr_append line.verb.1 line.verb.2]
    refine bind_eq_ok_iff.mpr ⟨_, cutAt_eq_ok_iff.mpr ⟨rfl, line.path⟩, ?_⟩
    refine bind_eq_ok_iff.mpr ⟨_, cutAt_eq_ok_iff.mpr ⟨rfl, line.protocol⟩, ?_⟩
    refine bind_eq_ok_iff.mpr ⟨_, (skipToHost_eq_ok_iff inRest).mpr leads, ?_⟩
    exact bind_eq_ok_iff.mpr ⟨_, cutAt_eq_ok_iff.mpr host, rfl⟩

theorem terminated_inbuff {received : Bytes} (short : received.length < buffSize) :
    0 ∈ inbuff received := by
  refine List.mem_append_right received (List.mem_replicate.mpr ⟨?_, rfl⟩)
  omega

end OgWebserver.Request

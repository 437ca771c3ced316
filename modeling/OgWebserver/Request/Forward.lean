import Mathlib.Data.List.Infix
import OgWebserver.Request.Input

/-!
# Forwarding a request

The first half of `handleProxyPass` and `handleFastCGIPass`: the request that
`processInput` has saved is cut behind its headers, and sent upstream with one
more header line.  Saving, cutting and sending all go by C string lengths; the
file determines which messages survive this.
-/

namespace OgWebserver.Request

open Text

def crlf : Bytes := bytes "\r\n"

/-- The end of the headers. -/
def blankLine : Bytes := bytes "\r\n\r\n"

/-- The line that is added, with the blank line behind it. -/
def forwardedFor (clientIp : Bytes) : Bytes :=
  bytes "X-Forwarded-For: " ++ clientIp ++ blankLine

/-- The sends to the upstream. -/
def forward (headers clientIp : Bytes) : List Bytes :=
  match strstr blankLine headers with
  | none => [headers]
  | some (before, rest) =>
      let body := rest.drop blankLine.length
      [before ++ crlf, forwardedFor clientIp] ++ if body.isEmpty then [] else [body]

/-- A request line and headers: lines that end in line breaks, none of them blank. -/
def IsHead (head : Bytes) : Prop :=
  ∃ text, head = text ++ crlf ∧
    ∀ early late, text = early ++ late → late ≠ [] → ¬ blankLine <+: late ++ blankLine

/-- The message received: a head, a blank line and a body. -/
def message (head body : Bytes) : Bytes :=
  head ++ crlf ++ body

/-- Forwarding is faithful: the upstream gets the head, the added line, the blank
line and the body. -/
def ForwardExact (head body clientIp : Bytes) : Prop :=
  (forward (savedHeaders (message head body)) clientIp).flatten =
    head ++ forwardedFor clientIp ++ body

/-- The sends are longer than what has been saved by the added line at most. -/
theorem length_forward_le (headers clientIp : Bytes) :
    (forward headers clientIp).flatten.length + crlf.length ≤
      headers.length + (forwardedFor clientIp).length := by
  have added : crlf.length ≤ (forwardedFor clientIp).length := by
    simp only [forwardedFor, List.length_append]
    have : crlf.length ≤ blankLine.length := by decide
    omega
  simp only [forward]
  cases found : strstr blankLine headers with
  | none =>
      simp only [List.flatten_cons, List.flatten_nil, List.append_nil]
      omega
  | some parts =>
      rcases parts with ⟨before, rest⟩
      rcases strstr_eq_some found with ⟨split, more, here⟩
      have twice : blankLine.length = crlf.length + crlf.length := by decide
      have body : (rest.drop blankLine.length).length + blankLine.length = rest.length := by
        rw [← here]
        simp [Nat.add_comm]
      have length : headers.length = before.length + rest.length := by
        rw [split, List.length_append]
      have sends : ∀ tail : Bytes, (if tail.isEmpty then [] else [tail]).flatten = tail := by
        intro tail
        cases tail <;> simp
      simp only [List.flatten_append, sends, List.flatten_cons, List.flatten_nil, List.append_nil,
        List.length_append]
      omega

/-- Saving shortens a message that holds a zero. -/
theorem length_savedHeaders_lt {received : Bytes} (zero : 0 ∈ received) :
    (savedHeaders received).length < received.length := by
  rcases List.eq_append_cons_of_mem zero with ⟨before, after, rfl, noZero⟩
  rw [savedHeaders, inbuff, cString_append_zeros, cString_append_zero noZero]
  simp

theorem savedHeaders_of_noZero {received : Bytes} (noZero : 0 ∉ received) :
    savedHeaders received = received := by
  rw [savedHeaders, inbuff, cString_append_zeros]
  have whole := cString_append noZero []
  simpa [cString] using whole

/-- The first blank line of a message is the one behind its head. -/
theorem strstr_message {text body : Bytes}
    (first : ∀ early late, text = early ++ late → late ≠ [] → ¬ blankLine <+: late ++ blankLine) :
    strstr blankLine (message (text ++ crlf) body) = some (text, blankLine ++ body) := by
  have regroup : message (text ++ crlf) body = text ++ (blankLine ++ body) := by
    simp only [message, List.append_assoc]
    rfl
  rw [regroup]
  refine strstr_append (fun early late split some inside => ?_) (by decide)
  apply first early late split some
  rw [← List.append_assoc] at inside
  apply List.prefix_of_prefix_length_le inside (List.prefix_append _ body)
  rw [List.length_append]
  omega

/-- Forwarding is faithful if and only if the message has no zero byte. -/
theorem forward_exact_iff {head body : Bytes} (clientIp : Bytes) (isHead : IsHead head)
    (short : (message head body).length < buffSize) :
    ForwardExact head body clientIp ↔ 0 ∉ message head body := by
  constructor
  · intro exact_ zero
    have cut := length_savedHeaders_lt zero
    have bound := length_forward_le (savedHeaders (message head body)) clientIp
    have sent := congrArg List.length exact_
    have whole : (message head body).length = head.length + crlf.length + body.length := by
      simp only [message, List.length_append]
    simp only [List.length_append] at sent
    omega
  · intro noZero
    rcases isHead with ⟨text, rfl, first⟩
    rw [ForwardExact, savedHeaders_of_noZero noZero, forward, strstr_message first]
    cases body with
    | nil => simp
    | cons b more => simp

/-- The head `GET / HTTP/1.1`. -/
def getHead : Bytes := bytes "GET / HTTP/1.1\r\n"

theorem isHead_getHead : IsHead getHead := by
  refine ⟨bytes "GET / HTTP/1.1", by decide, fun early late split some => ?_⟩
  have inside : late ∈ (bytes "GET / HTTP/1.1").tails := by
    rw [split]
    exact (List.mem_tails _ _).mpr (List.suffix_append early late)
  have all : ∀ tail ∈ (bytes "GET / HTTP/1.1").tails, tail ≠ [] →
      ¬ blankLine.isPrefixOf (tail ++ blankLine) = true := by decide
  exact fun here => all late inside some (List.isPrefixOf_iff_prefix.mpr here)

theorem forward_exact_iff_text :
    ForwardExact getHead (bytes "name=value") (bytes "127.0.0.1") :=
  (forward_exact_iff (bytes "127.0.0.1") isHead_getHead (by decide)).mpr (by decide)

/-- A body is cut at its first zero byte. -/
theorem forward_zero_cut :
    IsHead getHead ∧ (message getHead [65, 0, 66]).length < buffSize ∧
      forward (savedHeaders (message getHead [65, 0, 66])) (bytes "127.0.0.1") =
        [getHead, forwardedFor (bytes "127.0.0.1"), [65]] ∧
      ¬ ForwardExact getHead [65, 0, 66] (bytes "127.0.0.1") := by
  have sent : forward (savedHeaders (message getHead [65, 0, 66])) (bytes "127.0.0.1") =
      [getHead, forwardedFor (bytes "127.0.0.1"), [65]] := by decide
  refine ⟨isHead_getHead, by decide, sent, ?_⟩
  rw [ForwardExact, sent]
  decide

end OgWebserver.Request

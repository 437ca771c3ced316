import OgWebserver.Request.Input

/-!
# Relaying an upstream response

The second half of `handleProxyPass` and `handleFastCGIPass`: what the upstream
sends is passed on piece by piece.  The loop goes on as long as a piece fills
the buffer, so that the relayed bytes depend on how the kernel cuts the stream.
The file determines for which streams and cuts the relay is exact.
-/

namespace OgWebserver.Request

open Text Transition

/-- What the loop has done when it ends: the sends to the client, and the values
that go to the access log. -/
structure Relayed where
  sent : List Bytes
  httpCode : Int32
  size : Int32
  deriving DecidableEq

/-- The status code is read between the first two spaces of the first piece,
neither of which is tested for. -/
def statusCode (piece : Bytes) : Except Fault Int32 := do
  let (_, p) ← cutAt space (inbuff piece)
  let (code, _) ← cutAt space p
  .ok (atoi code)

/-- The loop, on the pieces that `recvData` delivers until the upstream closes.
A shorter piece than the buffer ends it. -/
def relay (startOfResponse : Bool) (httpCode size : Int32) : List Bytes → Except Fault Relayed
  | [] => .ok { sent := [], httpCode := httpCode, size := size }
  | piece :: rest => do
      let httpCode ← if startOfResponse then statusCode piece else .ok httpCode
      let size := size + Int32.ofNat piece.length
      if piece.length = buffSize then
        let more ← relay false httpCode size rest
        .ok { more with sent := piece :: more.sent }
      else .ok { sent := [piece], httpCode := httpCode, size := size }

/-- The relay from the start, with the default status code. -/
def relayResponse (pieces : List Bytes) : Except Fault Relayed :=
  relay true 200 0 pieces

/-- The relay is exact: the client gets all bytes in order, and their number is
logged. -/
def RelayExact (pieces : List Bytes) : Prop :=
  ∃ done, relayResponse pieces = .ok done ∧ done.sent.flatten = pieces.flatten ∧
    done.size.toInt = pieces.flatten.length

/-- The pieces of a stream are never empty and fit the buffer. -/
def Pieces (pieces : List Bytes) : Prop :=
  ∀ piece ∈ pieces, 0 < piece.length ∧ piece.length ≤ buffSize

/-- The piece has a status code to extract: two spaces in front of any zero. -/
def HasStatus (piece : Bytes) : Prop :=
  2 ≤ (cString piece).count space

/-! ## The status code -/

/-- A byte of the C string can be cut at. -/
theorem exists_cutAt {c : UInt8} {p : Bytes} (member : c ∈ cString p) :
    ∃ before after, cutAt c p = .ok (before, after) ∧ c ∉ before ∧
      cString p = before ++ c :: cString after := by
  have noZero := zero_notMem_cString p
  rcases List.eq_append_cons_of_mem member with ⟨before, rest, split, noHit⟩
  have whole : p = before ++ c :: (rest ++ p.dropWhile (· ≠ 0)) := by
    calc p = cString p ++ p.dropWhile (· ≠ 0) := List.takeWhile_append_dropWhile.symm
      _ = before ++ c :: (rest ++ p.dropWhile (· ≠ 0)) := by rw [split]; simp
  rw [split, List.mem_append, List.mem_cons, not_or, not_or] at noZero
  refine ⟨before, _, cutAt_eq_ok_iff.mpr ⟨whole, noHit, noZero.1⟩, noHit, ?_⟩
  have front : 0 ∉ before ++ [c] := by simp [noZero]
  have regroup : before ++ c :: (rest ++ p.dropWhile (· ≠ 0)) =
      (before ++ [c]) ++ (rest ++ p.dropWhile (· ≠ 0)) := by simp
  calc cString p = cString ((before ++ [c]) ++ (rest ++ p.dropWhile (· ≠ 0))) := by
        rw [← regroup, ← whole]
    _ = before ++ c :: cString (rest ++ p.dropWhile (· ≠ 0)) := by
        rw [cString_append front]
        simp

theorem statusCode_ok_iff (piece : Bytes) :
    (∃ code, statusCode piece = .ok code) ↔ HasStatus piece := by
  have same : cString (inbuff piece) = cString piece := cString_append_zeros piece _
  rw [HasStatus, ← same]
  constructor
  · rintro ⟨code, ran⟩
    rcases bind_eq_ok_iff.mp ran with ⟨⟨first, p⟩, cutFirst, ran⟩
    rcases bind_eq_ok_iff.mp ran with ⟨⟨second, q⟩, cutSecond, _⟩
    rcases cutAt_eq_ok_iff.mp cutFirst with ⟨split, _, firstClean⟩
    rcases cutAt_eq_ok_iff.mp cutSecond with ⟨rfl, _, secondClean⟩
    have front : 0 ∉ first ++ space :: (second ++ [space]) := by
      have nonzero : (0 : UInt8) ≠ space := by decide
      simp [firstClean, secondClean, nonzero]
    have shape : inbuff piece = first ++ space :: (second ++ [space]) ++ q := by
      rw [split]
      simp
    rw [shape, cString_append front]
    simp only [List.count_append, List.count_cons_self]
    omega
  · intro twice
    have once : space ∈ cString (inbuff piece) := List.count_pos_iff.mp (by omega)
    rcases exists_cutAt once with ⟨first, p, cutFirst, noSpace, shape⟩
    rw [shape, List.count_append, List.count_eq_zero_of_not_mem noSpace,
      List.count_cons_self] at twice
    have again : space ∈ cString p := List.count_pos_iff.mp (by omega)
    rcases exists_cutAt again with ⟨second, q, cutSecond, _⟩
    exact ⟨atoi second,
      bind_eq_ok_iff.mpr ⟨_, cutFirst, bind_eq_ok_iff.mpr ⟨_, cutSecond, rfl⟩⟩⟩

/-! ## The loop -/

/-- The pieces the loop gets to. -/
def delivered : List Bytes → List Bytes
  | [] => []
  | piece :: rest => if piece.length = buffSize then piece :: delivered rest else [piece]

theorem relay_false (httpCode size : Int32) (pieces : List Bytes) :
    relay false httpCode size pieces =
      .ok { sent := delivered pieces
            httpCode := httpCode
            size := size + Int32.ofNat (delivered pieces).flatten.length } := by
  induction pieces generalizing size with
  | nil => simp [relay, delivered]
  | cons piece rest ih =>
      simp only [relay, delivered, Bool.false_eq_true, if_false, bind, Except.bind]
      by_cases full : piece.length = buffSize
      · rw [if_pos full, if_pos full, ih]
        simp [Int32.ofNat_add, Int32.add_assoc]
      · rw [if_neg full, if_neg full]
        simp

/-- The loop delivers the pieces up to the first short one, if the first piece has
a status code. -/
theorem relayResponse_cons (piece : Bytes) (rest : List Bytes) :
    relayResponse (piece :: rest) = (statusCode piece).map fun code =>
      { sent := delivered (piece :: rest)
        httpCode := code
        size := Int32.ofNat (delivered (piece :: rest)).flatten.length } := by
  simp only [relayResponse, relay, delivered, if_true]
  cases statusCode piece with
  | error fault => rfl
  | ok code =>
      simp only [bind, Except.bind, Except.map]
      by_cases full : piece.length = buffSize
      · rw [if_pos full, if_pos full, relay_false]
        simp [Int32.ofNat_add]
      · rw [if_neg full, if_neg full]
        simp

/-- All bytes are delivered exactly if all pieces but the last fill the buffer. -/
theorem flatten_delivered_iff {pieces : List Bytes} (valid : Pieces pieces) :
    (delivered pieces).flatten = pieces.flatten ↔
      ∀ piece ∈ pieces.dropLast, piece.length = buffSize := by
  induction pieces with
  | nil => simp [delivered]
  | cons piece rest ih =>
      have later := ih fun other member => valid other (List.mem_cons_of_mem piece member)
      cases rest with
      | nil => by_cases full : piece.length = buffSize <;> simp [delivered, full]
      | cons second more =>
          rw [List.dropLast_cons_cons, List.forall_mem_cons, delivered]
          by_cases full : piece.length = buffSize
          · rw [if_pos full, List.flatten_cons, List.flatten_cons, List.append_cancel_left_eq,
              later]
            exact (and_iff_right full).symm
          · have pending : second.length ≠ 0 :=
              Nat.ne_of_gt (valid second (by simp)).1
            rw [if_neg full]
            refine iff_of_false (fun same => ?_) (fun both => full both.1)
            have lengths := congrArg List.length same
            simp only [List.flatten_cons, List.flatten_nil, List.append_nil,
              List.length_append] at lengths
            omega

theorem toInt_ofNat_iff (n : Nat) : (Int32.ofNat n).toInt = n ↔ n < 2 ^ 31 := by
  constructor
  · intro same
    have upper := (Int32.ofNat n).toInt_lt
    omega
  · exact Int32.toInt_ofNat_of_lt

/-- The relay is exact if and only if the first piece, if there is one, has a
status code, all pieces but the last fill the buffer, and the size fits an `int`. -/
theorem relayResponse_exact_iff {pieces : List Bytes} (valid : Pieces pieces) :
    RelayExact pieces ↔
      (∀ piece ∈ pieces.head?, HasStatus piece) ∧
        (∀ piece ∈ pieces.dropLast, piece.length = buffSize) ∧
        pieces.flatten.length < 2 ^ 31 := by
  cases pieces with
  | nil =>
      refine iff_of_true ⟨_, rfl, rfl, rfl⟩ ⟨?_, ?_, ?_⟩ <;> simp
  | cons piece rest =>
      have status : (∀ first ∈ (piece :: rest).head?, HasStatus first) ↔
          ∃ code, statusCode piece = .ok code := by
        rw [statusCode_ok_iff]
        simp
      rw [status, ← flatten_delivered_iff valid, RelayExact, relayResponse_cons]
      constructor
      · rintro ⟨done, ran, sent, size⟩
        cases code : statusCode piece with
        | error fault =>
            rw [code] at ran
            cases ran
        | ok value =>
            rw [code] at ran
            obtain rfl := Except.ok.inj ran
            rw [sent, toInt_ofNat_iff] at size
            exact ⟨⟨value, rfl⟩, sent, size⟩
      · rintro ⟨⟨value, code⟩, sent, small⟩
        rw [code]
        refine ⟨_, rfl, sent, ?_⟩
        rw [sent]
        exact (toInt_ofNat_iff _).mpr small

theorem relayResponse_exact_iff_whole :
    RelayExact [bytes "HTTP/1.1 200 OK\r\n\r\nhello"] :=
  (relayResponse_exact_iff (by unfold Pieces; decide)).mpr
    ⟨by unfold HasStatus; decide, by decide, by decide⟩

/-- A response in two short pieces loses the second one. -/
theorem relayResponse_cut :
    Pieces [bytes "HTTP/1.1 200 OK\r\n\r\n", bytes "hello"] ∧
      relayResponse [bytes "HTTP/1.1 200 OK\r\n\r\n", bytes "hello"] =
        .ok { sent := [bytes "HTTP/1.1 200 OK\r\n\r\n"], httpCode := 200, size := 19 } ∧
      ¬ RelayExact [bytes "HTTP/1.1 200 OK\r\n\r\n", bytes "hello"] := by
  have valid : Pieces [bytes "HTTP/1.1 200 OK\r\n\r\n", bytes "hello"] := by
    unfold Pieces
    decide
  have first : relayResponse [bytes "HTTP/1.1 200 OK\r\n\r\n", bytes "hello"] =
      .ok { sent := [bytes "HTTP/1.1 200 OK\r\n\r\n"], httpCode := 200, size := 19 } := by
    decide
  refine ⟨valid, first, ?_⟩
  rintro ⟨done, ran, sent, _⟩
  rw [first] at ran
  obtain rfl := Except.ok.inj ran
  exact absurd sent (by decide)

end OgWebserver.Request

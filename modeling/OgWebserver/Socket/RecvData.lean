import OgWebserver.Socket.SendData
import OgWebserver.Text.Bytes

/-!
# The receive loop of a plain socket

`recvData` calls `recv()` until a call does not fail.  The statements that add
up what has been received stand in the branch of the failed calls, where the
result is `-1`, so that the first call that delivers anything ends the loop.
By then each interruption has moved the pointer one byte in front of the buffer.
-/

namespace OgWebserver.Socket

open Text

/-- The `errno` of a non-blocking socket without data. -/
def eagain : Nat := 11

/-- What one call of `recv()` reports; no bytes are delivered at the end of the stream. -/
inductive RecvResult
  | delivered (data : Bytes)
  | failed (errno : Nat)
  deriving DecidableEq

/-- Variables of the loop.  `p` is the distance from the caller's buffer. -/
structure RecvState where
  p : Int
  nbytes : Int
  received : Int
  deriving DecidableEq

/-- The value returned, and the bytes that the kernel has put at a distance from
the caller's buffer. -/
structure Reception where
  value : Int
  offset : Int
  data : Bytes
  deriving DecidableEq

/-- A receive into the beginning of the buffer. -/
def Reception.whole (data : Bytes) : Reception :=
  { value := toInt32 data.length, offset := 0, data := data }

/-- The end of the loop body, for the result `n` of `recv()`. -/
def RecvState.advance (s : RecvState) (n : Int) : RecvState :=
  { nbytes := toInt32 (s.nbytes - n), received := toInt32 (s.received + n), p := s.p + n }

/-- The loop; `none` while it waits for one more result. -/
def recvLoop (s : RecvState) : List RecvResult → Option Reception
  | [] => none
  | .delivered data :: _ =>
      some { value := toInt32 (s.received + data.length), offset := s.p, data := data }
  | .failed errno :: results =>
      if errno = eagain then some (.whole [])
      else if errno ≠ eintr then some (.whole [])
      else recvLoop (s.advance (-1)) results

/-- `recvData`. -/
def recvData (nbytes : Nat) (results : List RecvResult) : Option Reception :=
  recvLoop { p := 0, nbytes := nbytes, received := 0 } results

/-- The first piece is all that is received. -/
@[simp]
theorem recvData_delivered (nbytes : Nat) (data : Bytes) (results : List RecvResult) :
    recvData nbytes (.delivered data :: results) = some (.whole data) := by
  simp [recvData, recvLoop, Reception.whole]

/-! ## Interruptions -/

/-- What the kernel is given: the distance of the address from the caller's buffer, and the
length. -/
structure RecvCall where
  offset : Int
  size : Int
  deriving DecidableEq

/-- State in front of the loop. -/
def RecvState.start (nbytes : Nat) : RecvState :=
  { p := 0, nbytes := nbytes, received := 0 }

def RecvState.call (s : RecvState) : RecvCall :=
  { offset := s.p, size := toSize s.nbytes }

/-- The calls of the loop. -/
def recvCalls (s : RecvState) : List RecvResult → List RecvCall
  | [] => []
  | .delivered _ :: _ => [s.call]
  | .failed errno :: results =>
      if errno = eagain then [s.call]
      else if errno ≠ eintr then [s.call]
      else s.call :: recvCalls (s.advance (-1)) results

/-- The kernel may write to the buffer only. -/
def RecvCall.Inside (nbytes : Nat) (call : RecvCall) : Prop :=
  0 ≤ call.offset ∧ call.offset + call.size ≤ nbytes

/-- What is in the caller's buffer, which has been cleared, when the loop has ended. -/
def Reception.buffer (nbytes : Nat) (r : Reception) : Bytes :=
  (List.range nbytes).map fun i : Nat =>
    if r.offset ≤ i then r.data.getD (i - r.offset).toNat 0 else 0

/-- The bytes are received as the caller wants them. -/
structure ReceivesExactly (nbytes : Nat) (results : List RecvResult) (data : Bytes) : Prop where
  received : ∃ r, recvData nbytes results = some r ∧ r.value = data.length ∧
    data <+: r.buffer nbytes
  inside : ∀ call ∈ recvCalls (.start nbytes) results, call.Inside nbytes

variable {s : RecvState} {data : Bytes}

theorem recvCalls_interrupted (s : RecvState) (results : List RecvResult) :
    recvCalls s (.failed eintr :: results) = s.call :: recvCalls (s.advance (-1)) results := by
  rw [recvCalls, if_neg (by decide), if_neg (by simp)]

theorem call_mem_recvCalls (s : RecvState) (r : RecvResult) (results : List RecvResult) :
    s.call ∈ recvCalls s (r :: results) := by
  cases r with
  | delivered data => exact List.mem_cons_self
  | failed errno =>
      rw [recvCalls]
      split_ifs <;> exact List.mem_cons_self

theorem recvLoop_interrupted (s : RecvState) (k : Nat) (results : List RecvResult) :
    recvLoop s (List.replicate k (.failed eintr) ++ results) =
      recvLoop ((fun s => s.advance (-1))^[k] s) results := by
  induction k generalizing s with
  | zero => rfl
  | succ k ih =>
      rw [List.replicate_succ, List.cons_append, Function.iterate_succ_apply, ← ih]
      rfl

/-- Each interruption is counted as the reception of minus one byte. -/
theorem advance_interrupted (s : RecvState) (k : Nat) (n : Int) :
    ((fun s => s.advance (-1))^[k] s).p = s.p - k ∧
      toInt32 (((fun s => s.advance (-1))^[k] s).received + n) =
        toInt32 (s.received - k + n) := by
  induction k generalizing s with
  | zero => simp
  | succ k ih =>
      rcases ih (s.advance (-1)) with ⟨pointer, count⟩
      rw [Function.iterate_succ_apply, pointer, count]
      have moved : (s.advance (-1)).p = s.p + -1 := rfl
      have counted : (s.advance (-1)).received = toInt32 (s.received + -1) := rfl
      have regroup : toInt32 (s.received + -1) - k + n =
          toInt32 (s.received + -1) + (n - k) := by omega
      constructor
      · rw [moved]
        push_cast
        omega
      · rw [counted, regroup, toInt32, toInt32, Int.bmod_add_bmod, toInt32]
        congr 1
        push_cast
        omega

/-- After `k` interruptions the bytes lie `k` bytes in front of their place, and `k` bytes less
are reported. -/
theorem recvData_interrupted (nbytes k : Nat) (data : Bytes) :
    recvData nbytes (List.replicate k (.failed eintr) ++ [.delivered data]) =
      some { value := toInt32 (data.length - k), offset := -k, data := data } := by
  rcases advance_interrupted (.start nbytes) k data.length with ⟨pointer, count⟩
  have whole : recvData nbytes = recvLoop (.start nbytes) := rfl
  have value : -(k : Int) + data.length = data.length - k := by omega
  rw [whole, recvLoop_interrupted, recvLoop, pointer, count]
  simp only [RecvState.start, Int.zero_sub, value]

theorem buffer_whole {nbytes : Nat} (fits : data.length ≤ nbytes) :
    data <+: (Reception.whole data).buffer nbytes := by
  have cells : (Reception.whole data).buffer nbytes =
      (List.range nbytes).map fun i => data.getD i 0 := by
    unfold Reception.buffer
    apply List.map_congr_left
    intro i _
    simp [Reception.whole]
  rw [cells, List.prefix_iff_eq_take]
  apply List.ext_getElem
  · simp [fits]
  · intro i here _
    simp [here]

/-- With a buffer of any size, an interrupted receive is exact if and only if it has not
been interrupted. -/
theorem recvData_exact_iff {nbytes : Nat} (int : nbytes < 2 ^ 31) (k : Nat)
    (fits : data.length ≤ nbytes) :
    ReceivesExactly nbytes (List.replicate k (.failed eintr) ++ [.delivered data]) data ↔
      k = 0 := by
  constructor
  · intro exact_
    rcases k with _ | k
    · rfl
    · -- the second call starts in front of the buffer
      have second : ((RecvState.start nbytes).advance (-1)).call ∈ recvCalls (.start nbytes)
          (List.replicate (k + 1) (.failed eintr) ++ [.delivered data]) := by
        rw [List.replicate_succ, List.cons_append, recvCalls_interrupted]
        apply List.mem_cons_of_mem
        cases k with
        | zero => exact call_mem_recvCalls _ _ _
        | succ k => exact call_mem_recvCalls _ _ _
      have early : (0 : Int) ≤ 0 + -1 := (exact_.inside _ second).1
      omega
  · rintro rfl
    constructor
    · have small : (data.length : Int) < 2 ^ 31 := by omega
      have value : (Reception.whole data).value = data.length := by
        simp only [Reception.whole]
        exact toInt32_of_nonneg (Int.natCast_nonneg data.length) small
      exact ⟨.whole data, recvData_delivered nbytes data [], value, buffer_whole fits⟩
    · intro call member
      obtain rfl := List.mem_singleton.mp member
      have size : toSize (nbytes : Int) = nbytes := by
        unfold toSize
        omega
      have ends : (0 : Int) + toSize nbytes ≤ nbytes := by
        rw [size]
        omega
      exact ⟨Int.le_refl 0, ends⟩

theorem recvData_exact_iff_whole :
    ReceivesExactly 4096 [.delivered (bytes "GET")] (bytes "GET") :=
  (recvData_exact_iff (by decide) 0 (by decide)).mpr rfl

/-- After one interruption the first byte lies in front of the buffer, and one byte less is
reported. -/
theorem recvData_interrupted_once :
    recvData 4096 [.failed eintr, .delivered (bytes "GET")] =
        some { value := 2, offset := -1, data := bytes "GET" } ∧
      recvCalls (.start 4096)
          [.failed eintr, .delivered (bytes "GET")] =
        [{ offset := 0, size := 4096 }, { offset := -1, size := 4097 }] ∧
      ¬ ReceivesExactly 4096 [.failed eintr, .delivered (bytes "GET")] (bytes "GET") := by
  have calls : recvCalls (.start 4096)
      [.failed eintr, .delivered (bytes "GET")] =
        [{ offset := 0, size := 4096 }, { offset := -1, size := 4097 }] := by decide
  refine ⟨by decide, calls, ?_⟩
  intro exact_
  have inside := exact_.inside
  rw [calls] at inside
  exact absurd (inside { offset := -1, size := 4097 } (by simp)).1 (by decide)

end OgWebserver.Socket

import Mathlib.Algebra.Group.Nat.Defs
import Mathlib.Algebra.Ring.Int.Defs
import Mathlib.Data.List.Basic
import Mathlib.Data.List.Infix

/-!
# The send loop of a plain socket

`sendData` keeps the number of bytes left in an `int` and stores the result of
`send()` in a `size_t`.  Both widths are modelled, so that the result `-1` goes
through the same conversions as in the program: it becomes `2^64 - 1`, moves
the pointer one byte back and raises the number of bytes left by one.

The file describes every run of the loop against an arbitrary kernel and
determines exactly which runs deliver the caller's buffer faithfully.
-/

namespace OgWebserver.Socket

/-- The one `errno` the loop singles out. -/
def eintr : Nat := 4

/-- What one call of `send()` reports. -/
inductive SendResult
  | accepted (count : Nat)
  | failed (errno : Nat)
  deriving DecidableEq

/-- Conversion of an integer to `int`. -/
def toInt32 (x : Int) : Int :=
  x.bmod (2 ^ 32)

/-- Conversion of an integer to `size_t`. -/
def toSize (x : Int) : Int :=
  x % 2 ^ 64

/-- The `size_t` the loop stores for the result of `send()`. -/
def SendResult.nsent : SendResult → Int
  | accepted count => toSize count
  | failed _ => toSize (-1)

/-- Variables of the loop.  `ptr` is the distance from the caller's buffer, and
`taken` lists the distances of the bytes the kernel has accepted so far. -/
structure SendState where
  ptr : Int
  nleft : Int
  nsent : Int
  returned : Option Int
  taken : List Int
  deriving DecidableEq

namespace SendState

/-- State in front of the loop. -/
def start (nbytes : Nat) : SendState :=
  { ptr := 0, nleft := nbytes, nsent := 0, returned := none, taken := [] }

/-- The loop is about to call `send()` again. -/
def Running (s : SendState) : Prop :=
  s.returned = none ∧ 0 < s.nleft

instance (s : SendState) : Decidable s.Running :=
  inferInstanceAs (Decidable (_ ∧ _))

/-- What `sendData` returns from this state once the loop is over. -/
def value (s : SendState) : Int :=
  s.returned.getD (toInt32 s.nsent)

/-- Bytes the kernel takes from the current position. -/
def taking (s : SendState) : SendResult → List Int
  | .accepted count => (List.range count).map fun i : Nat => s.ptr + i
  | .failed _ => []

/-- One pass through the loop body. -/
def step (s : SendState) (r : SendResult) : SendState :=
  let nsent := r.nsent
  let taken := s.taken ++ s.taking r
  if s.nleft < toInt32 nsent then
    { s with nsent := nsent, taken := taken, returned := some (-1) }
  else if 0 < nsent then
    { s with
      nsent := nsent
      taken := taken
      nleft := toInt32 (toSize (s.nleft - nsent))
      ptr := (s.ptr + nsent).bmod (2 ^ 64) }
  else
    { s with nsent := nsent, taken := taken }

/-- The kernel never accepts more than it was offered. -/
def Offered (s : SendState) : SendResult → Prop
  | .accepted count => (count : Int) ≤ s.nleft
  | .failed _ => True

instance (s : SendState) : (r : SendResult) → Decidable (s.Offered r)
  | .accepted count => inferInstanceAs (Decidable ((count : Int) ≤ s.nleft))
  | .failed _ => inferInstanceAs (Decidable True)

end SendState

/-- Runs of the loop: the results reported so far and the state they lead to. -/
inductive Run (nbytes : Nat) : List SendResult → SendState → Prop
  | start : Run nbytes [] (.start nbytes)
  | step {results : List SendResult} {s : SendState} {r : SendResult} :
      Run nbytes results s → s.Running → s.Offered r →
      Run nbytes (results ++ [r]) (s.step r)

/-- Number of bytes reported as accepted. -/
def total : List SendResult → Nat
  | [] => 0
  | .accepted count :: rest => count + total rest
  | .failed _ :: rest => total rest

/-- Number of failed calls. -/
def failures : List SendResult → Nat
  | [] => 0
  | .accepted _ :: rest => failures rest
  | .failed _ :: rest => failures rest + 1

/-- A state of a run in which the buffer has been delivered faithfully so far. -/
structure Exact (nbytes : Nat) (results : List SendResult) (s : SendState) : Prop where
  /-- The accepted bytes are a beginning of the buffer, in order, each once. -/
  delivered : ∃ count ≤ nbytes, s.taken = (List.range count).map fun i : Nat => (i : Int)
  /-- A permanent error ends the loop. -/
  stops : ∀ before errno, results = before ++ [.failed errno] → errno ≠ eintr → ¬ s.Running
  /-- A result other than `-1` reports the complete buffer. -/
  complete : ¬ s.Running → s.value ≠ -1 → s.taken.length = nbytes ∧ s.value = nbytes

/-- Every state along the run is exact. -/
def RunExact (nbytes : Nat) (results : List SendResult) : Prop :=
  ∀ earlier s, earlier <+: results → Run nbytes earlier s → Exact nbytes earlier s

/-- The result `r` does no harm after the results `before`: bytes are accepted
only if no call has failed, the last byte goes out together with the first, and
a permanent error comes only where counting it as one more byte left overflows
`nleft` and so ends the loop. -/
def Harmless (nbytes : Nat) (before : List SendResult) : SendResult → Prop
  | .accepted 0 => True
  | .accepted (count + 1) =>
      failures before = 0 ∧ (total before + (count + 1) = nbytes → total before = 0)
  | .failed errno =>
      errno = eintr ∨ (nbytes : Int) - total before + failures before = 2 ^ 31 - 1

/-- Every result of the run is harmless where it comes. -/
def AllHarmless (nbytes : Nat) (results : List SendResult) : Prop :=
  ∀ before r, before ++ [r] <+: results → Harmless nbytes before r

@[simp]
theorem total_append (xs ys : List SendResult) : total (xs ++ ys) = total xs + total ys := by
  induction xs with
  | nil => simp [total]
  | cons r rest ih => cases r <;> simp [total, ih, Nat.add_assoc]

@[simp]
theorem failures_append (xs ys : List SendResult) :
    failures (xs ++ ys) = failures xs + failures ys := by
  induction xs with
  | nil => simp [failures]
  | cons r rest ih =>
      cases r with
      | accepted count => simp [failures, ih]
      | failed errno =>
          simp only [List.cons_append, failures, ih]
          omega

/-- Bytes the loop believes it still has to send. -/
def left (nbytes : Nat) (results : List SendResult) : Int :=
  (nbytes : Int) - total results + failures results

theorem left_accepted (nbytes : Nat) (results : List SendResult) (count : Nat) :
    left nbytes (results ++ [.accepted count]) = left nbytes results - count := by
  simp [left, total, failures]
  omega

theorem left_failed (nbytes : Nat) (results : List SendResult) (errno : Nat) :
    left nbytes (results ++ [.failed errno]) = left nbytes results + 1 := by
  simp [left, total, failures]
  omega

/-- Shape of every state of a run: the pointer and the number of bytes left
follow the reported counts, and `nleft` wraps around only at `2^31`. -/
structure Shape (nbytes : Nat) (results : List SendResult) (s : SendState) : Prop where
  returned : s.returned = none
  nonneg : 0 ≤ left nbytes results
  bounded : left nbytes results ≤ 2 ^ 31
  nleft : s.nleft = if left nbytes results = 2 ^ 31 then -(2 ^ 31) else left nbytes results
  ptr : s.ptr = nbytes - left nbytes results
  taken : s.taken.length = total results

/-- An `int` value is its own conversion. -/
theorem toInt32_of_nonneg {x : Int} (nonneg : 0 ≤ x) (int : x < 2 ^ 31) : toInt32 x = x := by
  unfold toInt32
  rw [Int.bmod_eq_of_le] <;> omega

namespace SendState

/-- In range, an accepted count moves the pointer and the count of bytes left
by just that number. -/
theorem step_accepted {s : SendState} {count : Nat} (returned : s.returned = none)
    (fits : (count : Int) ≤ s.nleft) (int : s.nleft < 2 ^ 31)
    (low : -(2 ^ 62) < s.ptr) (high : s.ptr < 2 ^ 62) :
    s.step (.accepted count) =
      { ptr := s.ptr + count
        nleft := s.nleft - count
        nsent := count
        returned := none
        taken := s.taken ++ (List.range count).map fun i : Nat => s.ptr + i } := by
  have size : toSize (count : Int) = count := by
    unfold toSize
    omega
  have asInt : toInt32 (count : Int) = count := toInt32_of_nonneg (by omega) (by omega)
  have difference : toInt32 (toSize (s.nleft - count)) = s.nleft - count := by
    have inSize : toSize (s.nleft - count) = s.nleft - count := by
      unfold toSize
      omega
    rw [inSize, toInt32_of_nonneg (by omega) (by omega)]
  have moved : (s.ptr + (count : Int)).bmod (2 ^ 64) = s.ptr + count := by
    rw [Int.bmod_eq_of_le] <;> omega
  unfold step
  simp only [SendResult.nsent, size, asInt, difference, moved, taking]
  rw [if_neg (by omega)]
  by_cases positive : (0 : Int) < count
  · rw [if_pos positive]
    cases s
    simp_all
  · have zero : count = 0 := by omega
    subst zero
    cases s
    simp_all

/-- A failed call moves the pointer one byte back and counts one byte more. -/
theorem step_failed {s : SendState} {errno : Nat} (returned : s.returned = none)
    (positive : 0 < s.nleft) (int : s.nleft < 2 ^ 31)
    (low : -(2 ^ 62) < s.ptr) (high : s.ptr < 2 ^ 62) :
    s.step (.failed errno) =
      { ptr := s.ptr - 1
        nleft := if s.nleft + 1 = 2 ^ 31 then -(2 ^ 31) else s.nleft + 1
        nsent := 2 ^ 64 - 1
        returned := none
        taken := s.taken } := by
  have size : toSize (-1) = 2 ^ 64 - 1 := by decide
  have asInt : toInt32 (2 ^ 64 - 1) = -1 := by decide
  have difference : toInt32 (toSize (s.nleft - (2 ^ 64 - 1))) =
      if s.nleft + 1 = 2 ^ 31 then -(2 ^ 31) else s.nleft + 1 := by
    have inSize : toSize (s.nleft - (2 ^ 64 - 1)) = s.nleft + 1 := by
      unfold toSize
      omega
    rw [inSize]
    split
    · rename_i top
      rw [top]
      decide
    · exact toInt32_of_nonneg (x := s.nleft + 1) (by omega) (by omega)
  have moved : (s.ptr + (2 ^ 64 - 1)).bmod (2 ^ 64) = s.ptr - 1 := by
    have shift : s.ptr + (2 ^ 64 - 1) = (s.ptr - 1) + (2 ^ 64 : Nat) := by
      omega
    rw [shift, Int.add_bmod_right, Int.bmod_eq_of_le] <;> omega
  unfold step
  simp only [SendResult.nsent, size, asInt, difference, moved, taking]
  rw [if_neg (by omega), if_pos (by decide)]
  cases s
  simp_all

/-- After an accepted count the loop would return that count. -/
theorem value_step_accepted {s : SendState} {count : Nat} (returned : s.returned = none)
    (fits : (count : Int) ≤ s.nleft) (int : s.nleft < 2 ^ 31)
    (low : -(2 ^ 62) < s.ptr) (high : s.ptr < 2 ^ 62) :
    (s.step (.accepted count)).value = count := by
  have range : toInt32 (count : Int) = count := toInt32_of_nonneg (by omega) (by omega)
  rw [step_accepted returned fits int low high, value, Option.getD_none, range]

/-- After a failed call the loop would return `-1`. -/
theorem value_step_failed {s : SendState} {errno : Nat} (returned : s.returned = none)
    (positive : 0 < s.nleft) (int : s.nleft < 2 ^ 31)
    (low : -(2 ^ 62) < s.ptr) (high : s.ptr < 2 ^ 62) :
    (s.step (.failed errno)).value = -1 := by
  rw [step_failed returned positive int low high]
  show toInt32 (2 ^ 64 - 1) = -1
  decide

end SendState

section Runs

variable {nbytes : Nat} {results : List SendResult} {s : SendState}

theorem Shape.running_left (shape : Shape nbytes results s) (running : s.Running) :
    0 < left nbytes results ∧ left nbytes results < 2 ^ 31 ∧ s.nleft = left nbytes results := by
  have nleft := shape.nleft
  have bounded := shape.bounded
  have positive := running.2
  split at nleft <;> omega

/-- One pass through the loop keeps the shape. -/
theorem Shape.step (shape : Shape nbytes results s) (int : nbytes < 2 ^ 31)
    (running : s.Running) {r : SendResult} (offered : s.Offered r) :
    Shape nbytes (results ++ [r]) (s.step r) := by
  rcases shape.running_left running with ⟨positive, below, nleft⟩
  have ptr := shape.ptr
  cases r with
  | accepted count =>
      have fits : (count : Int) ≤ s.nleft := offered
      rw [SendState.step_accepted shape.returned fits (by omega) (by omega) (by omega)]
      have after := left_accepted nbytes results count
      refine ⟨rfl, by omega, by omega, ?_, ?_, ?_⟩
      · rw [if_neg (by omega)]
        simp only [after, nleft]
      · simp only [after, ptr]
        omega
      · simp [shape.taken, total]
  | failed errno =>
      rw [SendState.step_failed shape.returned (by omega) (by omega) (by omega) (by omega)]
      have after := left_failed nbytes results errno
      refine ⟨rfl, by omega, by omega, ?_, ?_, ?_⟩
      · simp only [after, nleft]
      · simp only [after, ptr]
        omega
      · simp [shape.taken, total]

/-- Every state of a run has the shape. -/
theorem Run.shape (run : Run nbytes results s) (int : nbytes < 2 ^ 31) :
    Shape nbytes results s := by
  induction run with
  | start =>
      have zero : left nbytes [] = nbytes := by simp [left, total, failures]
      refine ⟨rfl, by omega, by omega, ?_, by simp [SendState.start, zero], rfl⟩
      rw [if_neg (by omega), zero]
      rfl
  | step _ running offered shape => exact shape.step int running offered

/-- The state after the results of a run is determined by them. -/
theorem Run.unique {t : SendState} (first : Run nbytes results s) (second : Run nbytes results t) :
    s = t := by
  induction first generalizing t with
  | start =>
      generalize empty : ([] : List SendResult) = results at second
      cases second with
      | start => rfl
      | step _ _ _ => simp at empty
  | @step earlier u r run _ _ ih =>
      generalize same : earlier ++ [r] = results at second
      cases second with
      | start => simp at same
      | step other _ _ =>
          rcases List.append_inj' same rfl with ⟨rfl, last⟩
          simp only [List.cons.injEq, and_true] at last
          rw [ih other, last]

/-- Exactness in terms of the reported counts: the bytes taken are the first
`total` bytes of the buffer. -/
theorem Exact.taken_eq (shape : Shape nbytes results s) (exact_ : Exact nbytes results s) :
    s.taken = (List.range (total results)).map fun i : Nat => (i : Int) := by
  rcases exact_.delivered with ⟨count, _, taken⟩
  have lengths := shape.taken
  rw [taken, List.length_map, List.length_range] at lengths
  rw [taken, lengths]

private theorem range_append_shift (a b : Nat) :
    ((List.range a).map fun i : Nat => (i : Int)) ++
        ((List.range b).map fun i : Nat => (a : Int) + i) =
      (List.range (a + b)).map fun i : Nat => (i : Int) := by
  rw [List.range_add, List.map_append, List.map_map]
  simp [Function.comp_def]

theorem Exact.step_accepted (int : nbytes < 2 ^ 31) (shape : Shape nbytes results s)
    (exact_ : Exact nbytes results s) (running : s.Running) {count : Nat}
    (offered : s.Offered (.accepted count)) (harmless : Harmless nbytes results (.accepted count)) :
    Exact nbytes (results ++ [.accepted count]) (s.step (.accepted count)) := by
  rcases shape.running_left running with ⟨leftPos, leftBelow, nleft⟩
  have ptr := shape.ptr
  have taken := exact_.taken_eq shape
  have fits : (count : Int) ≤ s.nleft := offered
  have next := SendState.step_accepted shape.returned fits (by omega) (by omega) (by omega)
  have grown : (s.step (.accepted count)).taken =
      (List.range (total results + count)).map fun i : Nat => (i : Int) := by
    rw [next, taken]
    cases count with
    | zero => simp
    | succ count =>
        have clean : failures results = 0 := harmless.1
        have position : s.ptr = total results := by
          simp only [left, clean] at ptr
          omega
        simp only [position]
        exact range_append_shift _ _
  refine ⟨⟨total results + count, ?_, grown⟩, ?_, ?_⟩
  · cases count with
    | zero =>
        rcases exact_.delivered with ⟨k, bound, eq⟩
        have sum := shape.taken
        rw [eq, List.length_map, List.length_range] at sum
        omega
    | succ count =>
        have clean : failures results = 0 := harmless.1
        simp only [left, clean] at nleft
        omega
  · intro before errno same
    have last := (List.append_inj' same rfl).2
    simp at last
  · intro stopped _
    have out : left nbytes results = count := by
      by_contra more
      apply stopped
      rw [next]
      exact ⟨rfl, by simp only; omega⟩
    have one : 0 < count := by omega
    rcases Nat.exists_eq_succ_of_ne_zero (Nat.pos_iff_ne_zero.mp one) with ⟨count, rfl⟩
    rcases harmless with ⟨clean, whole⟩
    have sum : total results + (count + 1) = nbytes := by
      simp only [left, clean] at out
      omega
    have none_before := whole sum
    constructor
    · simp [next, shape.taken, sum]
    · rw [SendState.value_step_accepted shape.returned fits (by omega) (by omega) (by omega)]
      omega

theorem Exact.step_failed (positive : 0 < nbytes) (int : nbytes < 2 ^ 31)
    (shape : Shape nbytes results s) (exact_ : Exact nbytes results s) (running : s.Running)
    {errno : Nat} (harmless : Harmless nbytes results (.failed errno)) :
    Exact nbytes (results ++ [.failed errno]) (s.step (.failed errno)) := by
  rcases shape.running_left running with ⟨leftPos, leftBelow, nleft⟩
  have ptr := shape.ptr
  have next := @SendState.step_failed s errno shape.returned (by omega) (by omega) (by omega)
    (by omega)
  rcases exact_.delivered with ⟨count, bound, eq⟩
  refine ⟨⟨count, bound, by rw [next]; exact eq⟩, ?_, ?_⟩
  · intro before errno' same permanent
    rcases List.append_inj' same rfl with ⟨rfl, last⟩
    simp only [List.cons.injEq, SendResult.failed.injEq, and_true] at last
    subst last
    have top : left nbytes results = 2 ^ 31 - 1 := by
      rcases harmless with interrupted | top
      · exact absurd interrupted permanent
      · exact top
    rw [next]
    rintro ⟨_, still⟩
    simp only [nleft, top] at still
    revert still
    decide
  · intro _ value
    exact absurd (SendState.value_step_failed shape.returned (by omega) (by omega)
      (by omega) (by omega)) value

/-- Along a harmless step exactness is kept. -/
theorem Exact.step (positive : 0 < nbytes) (int : nbytes < 2 ^ 31)
    (shape : Shape nbytes results s) (exact_ : Exact nbytes results s) (running : s.Running)
    {r : SendResult} (offered : s.Offered r) (harmless : Harmless nbytes results r) :
    Exact nbytes (results ++ [r]) (s.step r) := by
  cases r with
  | accepted count => exact exact_.step_accepted int shape running offered harmless
  | failed errno => exact exact_.step_failed positive int shape running harmless

/-- A harmful result ends exactness at once. -/
theorem harmless_of_exact_step (int : nbytes < 2 ^ 31) (shape : Shape nbytes results s)
    (exact_ : Exact nbytes results s) (running : s.Running) {r : SendResult}
    (offered : s.Offered r) (after : Exact nbytes (results ++ [r]) (s.step r)) :
    Harmless nbytes results r := by
  rcases shape.running_left running with ⟨leftPos, leftBelow, nleft⟩
  have ptr := shape.ptr
  have taken := exact_.taken_eq shape
  cases r with
  | accepted count =>
      cases count with
      | zero => trivial
      | succ count =>
          have fits : ((count + 1 : Nat) : Int) ≤ s.nleft := offered
          have next := SendState.step_accepted shape.returned fits (by omega) (by omega) (by omega)
          have grown := after.taken_eq (shape.step int running offered)
          have position : s.ptr = total results := by
            rw [next, taken, total_append] at grown
            have entry := congrArg (fun bytes => bytes[total results]?) grown
            simpa [total, List.getElem?_append_right] using entry
          have clean : failures results = 0 := by
            simp only [left] at ptr
            omega
          refine ⟨clean, fun sum => ?_⟩
          have stopped : ¬ (s.step (.accepted (count + 1))).Running := by
            rw [next]
            rintro ⟨_, still⟩
            simp only [nleft, left, clean] at still
            omega
          have value := SendState.value_step_accepted shape.returned fits (by omega) (by omega)
            (by omega)
          have reported := (after.complete stopped (by omega)).2
          omega
  | failed errno =>
      by_cases interrupted : errno = eintr
      · exact Or.inl interrupted
      · right
        by_contra room
        apply after.stops results errno rfl interrupted
        rw [SendState.step_failed shape.returned (by omega) (by omega) (by omega) (by omega)]
        refine ⟨rfl, ?_⟩
        have room' : ¬ left nbytes results = 2 ^ 31 - 1 := room
        simp only
        rw [if_neg (by omega)]
        omega

end Runs

/-- Nothing has been sent when the loop starts. -/
theorem exact_start {nbytes : Nat} (positive : 0 < nbytes) :
    Exact nbytes [] (.start nbytes) := by
  refine ⟨⟨0, by omega, rfl⟩, ?_, ?_⟩
  · intro before errno same
    simp at same
  · intro stopped
    exact absurd ⟨rfl, by simp [SendState.start, positive]⟩ stopped

/-- A run of the loop is exact throughout if and only if every result is
harmless where it comes. -/
theorem sendData_exact_iff (nbytes : Nat) (positive : 0 < nbytes) (int : nbytes < 2 ^ 31)
    (results : List SendResult) (s : SendState) (run : Run nbytes results s) :
    RunExact nbytes results ↔ AllHarmless nbytes results := by
  induction run with
  | start =>
      constructor
      · intro _ before r earlier
        have empty := List.prefix_nil.mp earlier
        simp at empty
      · intro _ earlier s part run
        obtain rfl := List.prefix_nil.mp part
        rw [run.unique .start]
        exact exact_start positive
  | @step results s r run running offered ih =>
      have shape := run.shape int
      have whole := run.step running offered
      constructor
      · intro exact_ before q part
        rcases List.prefix_concat_iff.mp part with last | earlier
        · rcases List.append_inj' last rfl with ⟨rfl, same⟩
          obtain rfl := List.singleton_inj.mp same
          exact harmless_of_exact_step int shape
            (exact_ before s (List.prefix_append before [q]) run) running offered
            (exact_ _ _ (List.prefix_refl _) whole)
        · refine ih.mp ?_ before q earlier
          intro part t shorter
          exact exact_ part t (shorter.trans (List.prefix_append results [r]))
      · intro harmless
        have before : RunExact nbytes results :=
          ih.mpr fun part q shorter =>
            harmless part q (shorter.trans (List.prefix_append results [r]))
        intro part t shorter reached
        rcases List.prefix_concat_iff.mp shorter with rfl | earlier
        · rw [reached.unique whole]
          exact Exact.step positive int shape (before results s (List.prefix_refl _) run)
            running offered (harmless results r (List.prefix_refl _))
        · exact before part t earlier reached

/-- A ten-byte buffer goes out whole when the kernel first takes nothing and
then everything. -/
theorem sendData_exact_iff_whole :
    RunExact 10 ([] ++ [.accepted 0] ++ [.accepted 10]) ↔
      AllHarmless 10 ([] ++ [.accepted 0] ++ [.accepted 10]) :=
  sendData_exact_iff 10 (by decide) (by decide) _ _
    ((Run.start.step (r := .accepted 0) (by decide) (by decide)).step
      (r := .accepted 10) (by decide) (by decide))

/-- After four bytes of ten, an interrupted call makes the next call send the
fourth byte again. -/
theorem sendData_resends :
    Run 10 ([] ++ [.accepted 4] ++ [.failed eintr] ++ [.accepted 7])
        { ptr := 10, nleft := 0, nsent := 7, returned := none
          taken := [0, 1, 2, 3, 3, 4, 5, 6, 7, 8, 9] } ∧
      ¬ Exact 10 ([] ++ [.accepted 4] ++ [.failed eintr] ++ [.accepted 7])
        { ptr := 10, nleft := 0, nsent := 7, returned := none
          taken := [0, 1, 2, 3, 3, 4, 5, 6, 7, 8, 9] } := by
  constructor
  · have first : Run 10 ([] ++ [.accepted 4]) _ :=
      Run.start.step (r := .accepted 4) (by decide) (by decide)
    have second := first.step (r := .failed eintr) (by decide) (by decide)
    exact second.step (r := .accepted 7) (by decide) (by decide)
  · intro exact_
    rcases exact_.delivered with ⟨count, bound, taken⟩
    have length := congrArg List.length taken
    simp only [List.length_cons, List.length_nil, List.length_map, List.length_range] at length
    omega

end OgWebserver.Socket

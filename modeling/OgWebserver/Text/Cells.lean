import OgWebserver.Text.Scan

/-!
# Buffers that are cut in place

A `char *` into a buffer that the program writes to is a position in it.  What the
library functions find from a position on is what they find in the rest of the buffer,
so it does not depend on what is written in front of the position.  An access behind
the end of the buffer is no result.
-/

namespace OgWebserver.Text

/-- The position that `strchr` finds, or the null pointer. -/
def strchrAt (c : UInt8) (cells : Bytes) (p : Nat) : Option (Option Nat) :=
  match strchr c (cells.drop p) with
  | .found before _ => some (some (p + before.length))
  | .missing => some none
  | .overrun => none

/-- Where a loop stops that goes on while the byte is in a class. -/
def skipWhile (skipped : UInt8 → Bool) (cells : Bytes) (p : Nat) : Nat :=
  p + ((cells.drop p).takeWhile skipped).length

/-- Copy the string at a position. -/
def stringAt (cells : Bytes) (p : Nat) : Option Bytes :=
  if 0 ∈ cells.drop p then some (cString (cells.drop p)) else none

/-- Write a zero. -/
def cutAt (cells : Bytes) (q : Nat) : Option Bytes :=
  if q < cells.length then some (cells.set q 0) else none

variable {cells before after : Bytes} {c : UInt8} {p q : Nat}

theorem drop_skipWhile (skipped : UInt8 → Bool) (cells : Bytes) (p : Nat) :
    cells.drop (skipWhile skipped cells p) = (cells.drop p).dropWhile skipped := by
  have split := @List.takeWhile_append_dropWhile _ skipped (cells.drop p)
  have behind := congrArg (List.drop ((cells.drop p).takeWhile skipped).length) split
  rw [List.drop_left] at behind
  rw [skipWhile, ← List.drop_drop, behind]

theorem le_skipWhile (skipped : UInt8 → Bool) (cells : Bytes) (p : Nat) :
    p ≤ skipWhile skipped cells p :=
  Nat.le_add_right _ _

theorem strchrAt_of_found (found : strchr c (cells.drop p) = .found before after) :
    strchrAt c cells p = some (some (p + before.length)) := by
  rw [strchrAt, found]

theorem length_of_drop (view : cells.drop p = before ++ c :: after) :
    p + before.length + 1 + after.length = cells.length := by
  have lengths := congrArg List.length view
  simp only [List.length_drop, List.length_append, List.length_cons] at lengths
  omega

theorem drop_behind (view : cells.drop p = before ++ c :: after) :
    cells.drop (p + before.length + 1) = after := by
  rw [Nat.add_assoc, ← List.drop_drop, view]
  simp

theorem cutAt_of_drop (view : cells.drop p = before ++ c :: after) :
    cutAt cells (p + before.length) = some (cells.set (p + before.length) 0) := by
  have length := length_of_drop view
  exact if_pos (by omega)

/-- A cut ends the text in front of it. -/
theorem drop_cut (view : cells.drop p = before ++ c :: after) :
    (cells.set (p + before.length) 0).drop p = before ++ 0 :: after := by
  rw [List.drop_set, if_neg (by omega), view]
  simp

theorem stringAt_of_drop (view : cells.drop p = before ++ 0 :: after) (noZero : 0 ∉ before) :
    stringAt cells p = some before := by
  rw [stringAt, view, if_pos (by simp), cString_append_zero noZero]

/-- A cut behind a string leaves the string as it is. -/
theorem drop_cut_later (view : cells.drop p = before ++ 0 :: after)
    (later : p + before.length < q) :
    ∃ more, (cells.set q 0).drop p = before ++ 0 :: more := by
  refine ⟨after.set (q - p - before.length - 1) 0, ?_⟩
  rw [List.drop_set, if_neg (by omega), view, List.set_append_right _ _ (by omega)]
  have next : q - p - before.length = (q - p - before.length - 1) + 1 := by omega
  rw [next, List.set_cons_succ]
  rfl

/-! ## The terminating zero -/

/-- The text ends with a zero. -/
def Terminated (text : Bytes) : Prop :=
  [0] <:+ text

variable {text : Bytes}

theorem Terminated.ne_nil (terminated : Terminated text) : text ≠ [] := by
  rintro rfl
  cases List.suffix_nil.mp terminated

theorem Terminated.mem (terminated : Terminated text) : 0 ∈ text :=
  terminated.subset List.mem_cons_self

theorem Terminated.behind (terminated : Terminated (before ++ c :: after)) (nonzero : c ≠ 0) :
    Terminated after := by
  have inside : [0] <:+ c :: after := by
    apply List.suffix_of_suffix_length_le terminated (List.suffix_append _ _)
    simp
  rcases List.suffix_cons_iff.mp inside with last | rest
  · exact absurd (List.cons.inj last).1.symm nonzero
  · exact rest

theorem Terminated.dropWhile {skipped : UInt8 → Bool} (terminated : Terminated text)
    (stops : skipped 0 = false) : Terminated (text.dropWhile skipped) := by
  rcases List.suffix_or_suffix_of_suffix terminated (List.dropWhile_suffix skipped) with
    inside | short
  · exact inside
  · have rest : text.dropWhile skipped ≠ [] := by
      intro none
      rw [List.dropWhile_eq_nil_iff] at none
      rw [none 0 terminated.mem] at stops
      cases stops
    rcases List.suffix_cons_iff.mp short with whole | none
    · have last : Terminated [0] := List.suffix_rfl
      rwa [whole]
    · exact absurd (List.suffix_nil.mp none) rest

/-- A search runs off a text that has neither the byte nor a zero. -/
theorem strchr_eq_overrun_iff : strchr c text = .overrun ↔ c ∉ text ∧ 0 ∉ text := by
  induction text with
  | nil => simp [strchr]
  | cons b rest ih =>
      rw [strchr]
      by_cases hit : b = c
      · simp [hit]
      · rw [if_neg hit]
        by_cases zero : b = 0
        · simp [zero]
        · rw [if_neg zero]
          have kept : (strchr c rest).cons b = .overrun ↔ strchr c rest = .overrun := by
            cases strchr c rest <;> simp [Search.cons]
          rw [kept, ih]
          simp [Ne.symm hit, Ne.symm zero]

theorem Terminated.strchr_ne_overrun (terminated : Terminated text) (c : UInt8) :
    strchr c text ≠ .overrun := by
  intro overrun
  exact (strchr_eq_overrun_iff.mp overrun).2 terminated.mem

end OgWebserver.Text

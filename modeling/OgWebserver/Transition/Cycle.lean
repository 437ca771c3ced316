import Mathlib.Data.List.Induction
import Mathlib.Data.List.Rotate

/-!
# Cursors that go round

A cursor into a list is kept as the rest of the list from it on.  It moves on by
one and wraps at the end.  The file gives the position of the cursor after any
number of moves, and what it has passed.
-/

namespace OgWebserver.Transition

universe u

variable {α : Type u}

/-- The rest of the list behind the cursor, or the whole list at its end. -/
def wrap (all : List α) : List α → List α
  | [] => []
  | _ :: [] => all
  | _ :: next :: rest => next :: rest

/-- What `n` visits see. -/
def turns (all : List α) (n : Nat) : List α :=
  (List.range n).filterMap fun k => all[k % all.length]?

variable {all : List α}

/-- The cursor after one move more. -/
theorem wrap_drop (some_ : all ≠ []) (k : Nat) :
    wrap all (all.drop (k % all.length)) = all.drop ((k + 1) % all.length) := by
  have positive : 0 < all.length := List.length_pos_iff.mpr some_
  have inside : k % all.length < all.length := Nat.mod_lt k positive
  rw [List.drop_eq_getElem_cons inside, ← Nat.mod_add_mod]
  rcases Nat.lt_or_ge (k % all.length + 1) all.length with before | last
  · rw [Nat.mod_eq_of_lt before, List.drop_eq_getElem_cons before]
    rfl
  · have end_ : k % all.length + 1 = all.length := Nat.le_antisymm inside last
    rw [List.drop_of_length_le last, end_, Nat.mod_self]
    rfl

theorem turns_succ (all : List α) (n : Nat) :
    turns all (n + 1) = turns all n ++ (all[n % all.length]?).toList := by
  rw [turns, List.range_succ, List.filterMap_append]
  cases is : all[n % all.length]? <;> simp [turns, is]

theorem length_turns (some_ : all ≠ []) (n : Nat) : (turns all n).length = n := by
  induction n with
  | zero => rfl
  | succ n ih =>
      have inside : n % all.length < all.length := Nat.mod_lt n (List.length_pos_iff.mpr some_)
      rw [turns_succ, List.length_append, ih, List.getElem?_eq_getElem inside]
      rfl

theorem getElem?_turns (some_ : all ≠ []) {k n : Nat} (inside : k < n) :
    (turns all n)[k]? = all[k % all.length]? := by
  induction n with
  | zero => cases inside
  | succ n ih =>
      rw [turns_succ]
      rcases Nat.lt_succ_iff_lt_or_eq.mp inside with before | rfl
      · rw [List.getElem?_append_left (by rwa [length_turns some_]), ih before]
      · have entry : k % all.length < all.length := Nat.mod_lt k (List.length_pos_iff.mpr some_)
        rw [List.getElem?_append_right (by rw [length_turns some_]), length_turns some_,
          Nat.sub_self, List.getElem?_eq_getElem entry]
        rfl

/-- As many visits in a row as the list is long see it from some element on, and so every
element once. -/
theorem turns_window (some_ : all ≠ []) {k n : Nat} (inside : k + all.length ≤ n) :
    (((turns all n).drop k).take all.length).Perm all := by
  have window : ((turns all n).drop k).take all.length = all.rotate k := by
    apply List.ext_getElem?
    intro m
    rcases Nat.lt_or_ge m all.length with before | behind
    · have seen : k + m < n := Nat.lt_of_lt_of_le (Nat.add_lt_add_left before k) inside
      rw [List.getElem?_take_of_lt before, List.getElem?_drop, getElem?_turns some_ seen,
        List.getElem?_rotate before, Nat.add_comm]
    · rw [List.getElem?_eq_none, List.getElem?_eq_none]
      · rw [List.length_rotate]
        exact behind
      · exact (List.length_take_le _ _).trans behind
  rw [window]
  exact List.rotate_perm all k

/-! ## How often an element is seen -/

/-- A visit of the whole list, and then the others. -/
theorem turns_length_add (some_ : all ≠ []) (n : Nat) :
    turns all (all.length + n) = all ++ turns all n := by
  apply List.ext_getElem?
  intro k
  rcases Nat.lt_or_ge k all.length with first | later
  · rw [getElem?_turns some_ (by omega), List.getElem?_append_left first, Nat.mod_eq_of_lt first]
  · rw [List.getElem?_append_right later]
    rcases Nat.lt_or_ge k (all.length + n) with inside | behind
    · rw [getElem?_turns some_ inside, getElem?_turns some_ (by omega), ← Nat.mod_eq_sub_mod later]
    · rw [List.getElem?_eq_none (by rwa [length_turns some_]),
        List.getElem?_eq_none (by rw [length_turns some_]; omega)]

theorem turns_of_le (some_ : all ≠ []) {n : Nat} (le : n ≤ all.length) :
    turns all n = all.take n := by
  apply List.ext_getElem?
  intro k
  rcases Nat.lt_or_ge k n with inside | behind
  · rw [getElem?_turns some_ inside, List.getElem?_take_of_lt inside,
      Nat.mod_eq_of_lt (Nat.lt_of_lt_of_le inside le)]
  · rw [List.getElem?_eq_none (by rwa [length_turns some_]),
      List.getElem?_eq_none ((List.length_take_le _ _).trans behind)]

/-- The visits that see such an element are its share of all visits, up to its share of the
visits of one round. -/
theorem countP_turns (some_ : all ≠ []) (p : α → Bool) (n : Nat) :
    (turns all n).countP p =
      n / all.length * all.countP p + (all.take (n % all.length)).countP p := by
  have positive : 0 < all.length := List.length_pos_iff.mpr some_
  induction n using Nat.strongRecOn with
  | ind n ih =>
      rcases Nat.lt_or_ge n all.length with less | more
      · rw [turns_of_le some_ less.le, Nat.div_eq_of_lt less, Nat.mod_eq_of_lt less, Nat.zero_mul,
          Nat.zero_add]
      · rcases Nat.exists_eq_add_of_le more with ⟨m, rfl⟩
        rw [turns_length_add some_, List.countP_append, ih m (by omega), Nat.add_mod_left,
          Nat.add_div_left m positive, Nat.succ_mul, Nat.add_assoc]
        exact Nat.add_left_comm _ _ _

/-- No element is seen more often than that. -/
theorem countP_turns_le (some_ : all ≠ []) (p : α → Bool) (n : Nat) :
    all.length * (turns all n).countP p ≤
      n * all.countP p + (all.length - 1) * all.countP p := by
  have positive : 0 < all.length := List.length_pos_iff.mpr some_
  have rest : all.length * (all.take (n % all.length)).countP p ≤
      (n % all.length + (all.length - 1)) * all.countP p := by
    cases is : n % all.length with
    | zero => simp
    | succ r =>
        apply Nat.mul_le_mul
        · omega
        · exact (List.take_sublist _ _).countP_le
  calc all.length * (turns all n).countP p
      = all.length * (n / all.length) * all.countP p +
          all.length * (all.take (n % all.length)).countP p := by
        rw [countP_turns some_, Nat.mul_add, Nat.mul_assoc]
    _ ≤ all.length * (n / all.length) * all.countP p +
          (n % all.length + (all.length - 1)) * all.countP p := Nat.add_le_add_left rest _
    _ = n * all.countP p + (all.length - 1) * all.countP p := by
        rw [Nat.add_mul, ← Nat.add_assoc, ← Nat.add_mul, Nat.div_add_mod]

/-- And none is seen less often. -/
theorem le_countP_turns (some_ : all ≠ []) (p : α → Bool) (n : Nat) :
    n * all.countP p ≤
      all.length * (turns all n).countP p + (all.length - 1) * all.countP p := by
  have positive : 0 < all.length := List.length_pos_iff.mpr some_
  have rest : n % all.length * all.countP p ≤ (all.length - 1) * all.countP p :=
    Nat.mul_le_mul_right _ (Nat.le_sub_one_of_lt (Nat.mod_lt n positive))
  calc n * all.countP p
      = all.length * (n / all.length) * all.countP p + n % all.length * all.countP p := by
        rw [← Nat.add_mul, Nat.div_add_mod]
    _ ≤ all.length * (turns all n).countP p + (all.length - 1) * all.countP p := by
        apply Nat.add_le_add _ rest
        rw [countP_turns some_, Nat.mul_add, ← Nat.mul_assoc]
        exact Nat.le_add_right _ _

end OgWebserver.Transition

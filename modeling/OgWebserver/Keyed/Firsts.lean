import Mathlib.Data.List.Dedup

/-!
# First occurrences

From each group of elements with the same key, the first one is kept.
-/

namespace OgWebserver.Keyed

universe u v

variable {α : Type u} {κ : Type v} [DecidableEq κ] {key : α → κ} {seen : List κ} {a : α}
variable {items : List α}

/-- The first element with each key, except for the keys seen before. -/
def firsts (key : α → κ) : List κ → List α → List α
  | _, [] => []
  | seen, a :: rest =>
      if key a ∈ seen then firsts key seen rest else a :: firsts key (key a :: seen) rest

theorem mem_firsts_iff :
    a ∈ firsts key seen items ↔
      key a ∉ seen ∧ items.find? (fun b => decide (key b = key a)) = some a := by
  induction items generalizing seen with
  | nil => simp [firsts]
  | cons b rest ih =>
      simp only [firsts, List.find?_cons]
      by_cases known : key b ∈ seen
      · rw [if_pos known, ih]
        apply and_congr_right
        intro new
        have ne : key b ≠ key a := fun same => new (same ▸ known)
        simp [ne]
      · rw [if_neg known, List.mem_cons, ih]
        by_cases same : key b = key a
        · simp only [same, List.mem_cons, true_or, not_true_eq_false, false_and, or_false,
            decide_true, Option.some.injEq, eq_comm]
          constructor
          · rintro rfl
            exact ⟨known, rfl⟩
          · exact fun both => both.2
        · have ne : a ≠ b := fun is => same (congrArg key is.symm)
          simp [ne, same, Ne.symm same]

theorem mem_keys_firsts_iff {k : κ} :
    k ∈ (firsts key seen items).map key ↔ k ∉ seen ∧ k ∈ items.map key := by
  induction items generalizing seen with
  | nil => simp [firsts]
  | cons b rest ih =>
      simp only [firsts, List.map_cons, List.mem_cons]
      by_cases known : key b ∈ seen
      · rw [if_pos known, ih]
        apply and_congr_right
        intro new
        have ne : k ≠ key b := fun same => new (same ▸ known)
        simp [ne]
      · rw [if_neg known, List.map_cons, List.mem_cons, ih]
        by_cases same : k = key b
        · simp [same, known]
        · simp [same]

/-- One more element is kept if its key is new. -/
theorem firsts_concat (key : α → κ) (seen : List κ) (items : List α) (a : α) :
    firsts key seen (items ++ [a]) =
      firsts key seen items ++
        if key a ∈ seen ∨ key a ∈ items.map key then [] else [a] := by
  induction items generalizing seen with
  | nil => simp [firsts]
  | cons b rest ih =>
      rw [List.cons_append, firsts, firsts]
      by_cases known : key b ∈ seen
      · rw [if_pos known, if_pos known, ih]
        have same : key a ∈ seen ∨ key a ∈ (b :: rest).map key ↔
            key a ∈ seen ∨ key a ∈ rest.map key := by
          rw [List.map_cons, List.mem_cons]
          constructor
          · rintro (old | is | later)
            · exact .inl old
            · exact .inl (is ▸ known)
            · exact .inr later
          · exact Or.imp_right .inr
        rw [if_congr same rfl rfl]
      · rw [if_neg known, if_neg known, ih, List.cons_append]
        have same : key a ∈ key b :: seen ∨ key a ∈ rest.map key ↔
            key a ∈ seen ∨ key a ∈ (b :: rest).map key := by
          rw [List.map_cons, List.mem_cons, List.mem_cons]
          exact or_assoc.trans or_left_comm
        rw [if_congr same rfl rfl]

theorem nodup_keys_firsts (key : α → κ) (seen : List κ) (items : List α) :
    ((firsts key seen items).map key).Nodup := by
  induction items generalizing seen with
  | nil => exact List.nodup_nil
  | cons b rest ih =>
      simp only [firsts]
      split
      · exact ih seen
      · rw [List.map_cons, List.nodup_cons, mem_keys_firsts_iff]
        refine ⟨?_, ih _⟩
        simp

theorem length_firsts (key : α → κ) (items : List α) :
    (firsts key [] items).length = (items.map key).dedup.length := by
  rw [← List.length_map key]
  apply List.Perm.length_eq
  apply (List.perm_ext_iff_of_nodup (nodup_keys_firsts key [] items) (List.nodup_dedup _)).mpr
  intro k
  rw [mem_keys_firsts_iff, List.mem_dedup]
  simp

/-- The elements that have been kept tell whether a key is new. -/
theorem firsts_concat_kept (key : α → κ) (items : List α) (a : α) :
    firsts key [] (items ++ [a]) =
      if ∃ b ∈ firsts key [] items, key b = key a then firsts key [] items
      else firsts key [] items ++ [a] := by
  have known : key a ∈ [] ∨ key a ∈ items.map key ↔ ∃ b ∈ firsts key [] items, key b = key a := by
    rw [← List.mem_map, mem_keys_firsts_iff]
    simp
  rw [firsts_concat, if_congr known rfl rfl]
  split
  · exact List.append_nil _
  · rfl

/-- What is asked of every element of a list, in view of those in front of it, is asked of
one more. -/
theorem forall_split_concat {α : Type u} {P : List α → α → Prop} {items : List α} {a : α} :
    (∀ before b after, items ++ [a] = before ++ b :: after → P before b) ↔
      (∀ before b after, items = before ++ b :: after → P before b) ∧ P items a := by
  constructor
  · intro all
    constructor
    · intro before b after split
      apply all before b (after ++ [a])
      rw [split, List.append_assoc, List.cons_append]
    · exact all items a [] rfl
  · rintro ⟨earlier, last⟩ before b after split
    rcases List.eq_nil_or_concat after with rfl | ⟨front, final, rfl⟩
    · obtain ⟨rfl, same⟩ := List.append_inj' split rfl
      obtain rfl := List.singleton_injective same
      exact last
    · rw [List.concat_eq_append, ← List.cons_append, ← List.append_assoc] at split
      exact earlier before b front (List.append_inj' split rfl).1

/-- Each element `w` times over. -/
theorem countP_flatMap_replicate {α : Type u} (w : Nat) (P : α → Bool) (items : List α) :
    (items.flatMap (List.replicate w)).countP P = w * items.countP P := by
  induction items with
  | nil => rfl
  | cons a rest ih =>
      rw [List.flatMap_cons, List.countP_append, ih, List.countP_replicate, List.countP_cons]
      split
      · rw [Nat.mul_add, Nat.mul_one, Nat.add_comm]
      · rw [Nat.zero_add, Nat.add_zero]

end OgWebserver.Keyed

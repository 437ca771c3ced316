import Mathlib.Computability.Language
import OgWebserver.Text.Bytes

/-!
# Regular expressions over bytes

Expressions with classes of bytes, as the rules of a scanner are written, and a
matcher by derivatives.  Mathlib's regular expressions have single letters only; its
languages are what an expression denotes here.
-/

namespace OgWebserver.Text

inductive Regex
  /-- No text at all. -/
  | nothing
  /-- The empty text. -/
  | done
  /-- One byte of a class. -/
  | byte (p : UInt8 → Bool)
  | seq (first second : Regex)
  | alt (first second : Regex)
  | star (r : Regex)

namespace Regex

/-- The texts an expression stands for. -/
def language : Regex → Language UInt8
  | nothing => 0
  | done => 1
  | byte p => {text | ∃ b, p b = true ∧ text = [b]}
  | seq first second => first.language * second.language
  | alt first second => first.language + second.language
  | star r => KStar.kstar r.language

/-- A text, byte by byte. -/
def literal (text : Bytes) : Regex :=
  text.foldr (fun b r => seq (byte (· == b)) r) done

/-- One or more. -/
def plus (r : Regex) : Regex :=
  seq r (star r)

/-- Does the expression match the empty text? -/
def nullable : Regex → Bool
  | nothing | byte _ => false
  | done | star _ => true
  | seq first second => first.nullable && second.nullable
  | alt first second => first.nullable || second.nullable

/-- Sequence, without what cannot match. -/
def andThen : Regex → Regex → Regex
  | nothing, _ => nothing
  | done, second => second
  | first, second => seq first second

/-- Alternative, without what cannot match. -/
def orElse : Regex → Regex → Regex
  | nothing, second => second
  | first, nothing => first
  | first, second => alt first second

/-- What is left to match behind a byte. -/
def deriv (b : UInt8) : Regex → Regex
  | nothing | done => nothing
  | byte p => if p b then done else nothing
  | seq first second =>
      if first.nullable then orElse (andThen (first.deriv b) second) (second.deriv b)
      else andThen (first.deriv b) second
  | alt first second => orElse (first.deriv b) (second.deriv b)
  | star r => andThen (r.deriv b) (star r)

/-- Match a whole text. -/
def matches_ : Regex → Bytes → Bool
  | nothing, _ => false
  | r, [] => r.nullable
  | r, b :: text => (r.deriv b).matches_ text

@[simp]
theorem matches_nothing (text : Bytes) : nothing.matches_ text = false := by
  cases text <;> rfl

theorem matches_nil (r : Regex) : r.matches_ [] = r.nullable := by
  cases r <;> rfl

theorem matches_cons (r : Regex) (b : UInt8) (text : Bytes) :
    r.matches_ (b :: text) = (r.deriv b).matches_ text := by
  cases r with
  | nothing => simp [deriv]
  | _ => rfl

theorem mem_byte {p : UInt8 → Bool} {text : Bytes} :
    text ∈ (byte p).language ↔ ∃ b, p b = true ∧ text = [b] :=
  Iff.rfl

theorem language_andThen (first second : Regex) :
    (andThen first second).language = first.language * second.language := by
  cases first <;> simp [andThen, language]

theorem mem_orElse {first second : Regex} {text : Bytes} :
    text ∈ (orElse first second).language ↔ text ∈ first.language ∨ text ∈ second.language := by
  rw [← Language.mem_add]
  cases first with
  | nothing => rw [orElse, language, zero_add]
  | _ =>
      cases second with
      | nothing => rw [orElse, language, add_zero]; rintro ⟨⟩
      | _ => rfl

theorem nullable_iff (r : Regex) : r.nullable = true ↔ [] ∈ r.language := by
  induction r with
  | nothing => simp [nullable, language]
  | done => simp [nullable, language]
  | byte p => simp [nullable, mem_byte]
  | seq first second ih ih' =>
      simp [nullable, language, ih, ih', Language.mem_mul]
  | alt first second ih ih' => simp [nullable, language, ih, ih', Language.mem_add]
  | star r ih => simp [nullable, language, Language.nil_mem_kstar]

/-- The derivative stands for what is left of the texts that start with the byte. -/
theorem mem_language_deriv (r : Regex) (b : UInt8) (text : Bytes) :
    text ∈ (r.deriv b).language ↔ b :: text ∈ r.language := by
  induction r generalizing text with
  | nothing => simp [deriv, language]
  | done => simp [deriv, language, Language.mem_one]
  | byte p =>
      rw [deriv, mem_byte]
      split_ifs with inClass
      · simp [language, Language.mem_one, inClass]
      · simp [language, inClass]
  | seq first second ih ih' =>
      have split : b :: text ∈ (seq first second).language ↔
          text ∈ (first.deriv b).language * second.language ∨
            first.nullable = true ∧ text ∈ (second.deriv b).language := by
        rw [language, Language.mem_mul, Language.mem_mul]
        constructor
        · rintro ⟨front, inFirst, back, inSecond, joined⟩
          rcases front with _ | ⟨c, front⟩
          · rw [List.nil_append] at joined
            exact .inr ⟨(nullable_iff first).mpr inFirst, (ih' text).mpr (joined ▸ inSecond)⟩
          · obtain ⟨rfl, rfl⟩ := List.cons.inj joined
            exact .inl ⟨front, (ih front).mpr inFirst, back, inSecond, rfl⟩
        · rintro (⟨front, inFirst, back, inSecond, rfl⟩ | ⟨empty, inSecond⟩)
          · exact ⟨b :: front, (ih front).mp inFirst, back, inSecond, rfl⟩
          · exact ⟨[], (nullable_iff first).mp empty, b :: text, (ih' text).mp inSecond, rfl⟩
      rw [split, deriv]
      split_ifs with empty
      · simp [mem_orElse, language_andThen, empty]
      · simp [language_andThen, empty]
  | alt first second ih ih' => simp [deriv, mem_orElse, language, Language.mem_add, ih, ih']
  | star r ih =>
      rw [deriv, language_andThen, language, Language.mem_mul,
        Language.mem_kstar_iff_exists_nonempty]
      constructor
      · rintro ⟨front, inside, back, rest, rfl⟩
        rcases Language.mem_kstar_iff_exists_nonempty.mp rest with ⟨parts, rfl, all⟩
        refine ⟨(b :: front) :: parts, rfl, ?_⟩
        exact List.forall_mem_cons.mpr ⟨⟨(ih front).mp inside, List.cons_ne_nil _ _⟩, all⟩
      · rintro ⟨parts, joined, all⟩
        rcases parts with _ | ⟨_ | ⟨c, front⟩, rest⟩
        · cases joined
        · exact absurd rfl (all [] List.mem_cons_self).2
        · rw [List.flatten_cons, List.cons_append] at joined
          obtain ⟨rfl, rfl⟩ := List.cons.inj joined
          refine ⟨front, (ih front).mpr (all _ List.mem_cons_self).1, rest.flatten, ?_, rfl⟩
          exact Language.join_mem_kstar fun part member =>
            (all part (List.mem_cons_of_mem _ member)).1

theorem matches_iff (r : Regex) (text : Bytes) : r.matches_ text = true ↔ text ∈ r.language := by
  induction text generalizing r with
  | nil => rw [matches_nil, nullable_iff]
  | cons b text ih => rw [matches_cons, ih, mem_language_deriv]

/-! ## Lengths and first bytes -/

/-- No text that the expression matches is shorter. -/
def shortest : Regex → Nat
  | nothing | done | star _ => 0
  | byte _ => 1
  | seq first second => first.shortest + second.shortest
  | alt first second => min first.shortest second.shortest

theorem shortest_le {r : Regex} {text : Bytes} (mem : text ∈ r.language) :
    r.shortest ≤ text.length := by
  induction r generalizing text with
  | nothing => exact absurd mem (Language.notMem_zero text)
  | done | star => exact Nat.zero_le _
  | byte p =>
      rcases mem_byte.mp mem with ⟨b, _, rfl⟩
      exact Nat.le_refl 1
  | seq first second ih ih' =>
      rcases Language.mem_mul.mp mem with ⟨front, inFirst, back, inSecond, rfl⟩
      have le := ih inFirst
      have le' := ih' inSecond
      rw [shortest, List.length_append]
      omega
  | alt first second ih ih' =>
      rw [shortest]
      rcases (Language.mem_add _ _ _).mp mem with inFirst | inSecond
      · have le := ih inFirst
        omega
      · have le := ih' inSecond
        omega

def isNothing : Regex → Bool
  | nothing => true
  | _ => false

/-- If the derivative is nothing, no text that starts with the byte is matched. -/
theorem matches_of_deriv {r : Regex} {b : UInt8} (none : (r.deriv b).isNothing = true)
    (text : Bytes) : r.matches_ (b :: text) = false := by
  rw [matches_cons]
  cases deriv : r.deriv b with
  | nothing => exact matches_nothing text
  | _ =>
      rw [deriv] at none
      cases none

/-- Is no byte left to match? -/
def isEnd : Regex → Bool
  | nothing | done => true
  | _ => false

/-- If nothing can be left behind a byte, no longer text that starts with it is matched. -/
theorem matches_of_isEnd {r : Regex} {b : UInt8} (ends : (r.deriv b).isEnd = true) {text : Bytes}
    (more : text ≠ []) : r.matches_ (b :: text) = false := by
  rw [matches_cons]
  rcases List.exists_cons_of_ne_nil more with ⟨c, text, rfl⟩
  cases deriv : r.deriv b with
  | nothing => exact matches_nothing _
  | done => exact matches_nothing text
  | _ =>
      rw [deriv] at ends
      cases ends

/-- What is left to match behind a text. -/
def derivs (text : Bytes) (r : Regex) : Regex :=
  text.foldl (fun r b => r.deriv b) r

theorem matches_append (r : Regex) (front text : Bytes) :
    r.matches_ (front ++ text) = (r.derivs front).matches_ text := by
  induction front generalizing r with
  | nil => rfl
  | cons b front ih =>
      rw [List.cons_append, matches_cons, ih]
      rfl

theorem matches_of_derivs {r : Regex} {front : Bytes} (none : (r.derivs front).isNothing = true)
    (text : Bytes) : r.matches_ (front ++ text) = false := by
  rw [matches_append]
  cases derivs : r.derivs front with
  | nothing => exact matches_nothing text
  | _ =>
      rw [derivs] at none
      cases none

theorem mem_star_byte {p : UInt8 → Bool} {text : Bytes} :
    text ∈ (star (byte p)).language ↔ ∀ b ∈ text, p b = true := by
  rw [language, Language.mem_kstar]
  constructor
  · rintro ⟨parts, rfl, all⟩ b member
    rcases List.mem_flatten.mp member with ⟨part, inParts, inside⟩
    rcases mem_byte.mp (all part inParts) with ⟨c, inClass, rfl⟩
    rwa [List.mem_singleton.mp inside]
  · intro all
    refine ⟨text.map ([·]), by rw [← List.flatMap_def, List.flatMap_singleton'], ?_⟩
    intro part member
    rcases List.mem_map.mp member with ⟨b, inText, rfl⟩
    exact mem_byte.mpr ⟨b, all b inText, rfl⟩

theorem mem_plus_byte {p : UInt8 → Bool} {text : Bytes} :
    text ∈ (plus (byte p)).language ↔ text ≠ [] ∧ ∀ b ∈ text, p b = true := by
  rw [plus, language, Language.mem_mul]
  constructor
  · rintro ⟨front, first, back, rest, rfl⟩
    rcases mem_byte.mp first with ⟨b, inClass, rfl⟩
    refine ⟨List.cons_ne_nil _ _, List.forall_mem_cons.mpr ⟨inClass, mem_star_byte.mp rest⟩⟩
  · rintro ⟨nonempty, all⟩
    rcases List.exists_cons_of_ne_nil nonempty with ⟨b, rest, rfl⟩
    rw [List.forall_mem_cons] at all
    exact ⟨[b], mem_byte.mpr ⟨b, all.1, rfl⟩, rest, mem_star_byte.mpr all.2, rfl⟩

theorem mem_literal {text other : Bytes} : other ∈ (literal text).language ↔ other = text := by
  induction text generalizing other with
  | nil => exact Language.mem_one other
  | cons b text ih =>
      have cons : literal (b :: text) = seq (byte (· == b)) (literal text) := rfl
      rw [cons, language, Language.mem_mul]
      constructor
      · rintro ⟨front, first, back, rest, rfl⟩
        rcases mem_byte.mp first with ⟨c, is, rfl⟩
        rw [ih.mp rest, beq_iff_eq.mp is]
        rfl
      · rintro rfl
        exact ⟨[b], mem_byte.mpr ⟨b, beq_self_eq_true b, rfl⟩, text, ih.mpr rfl, rfl⟩

/-! ## Bytes that cannot or must occur -/

/-- No class of the expression has the byte. -/
def avoids (c : UInt8) : Regex → Bool
  | nothing | done => true
  | byte p => !p c
  | seq first second | alt first second => first.avoids c && second.avoids c
  | star r => r.avoids c

theorem notMem_of_avoids {r : Regex} {c : UInt8} {text : Bytes} (avoids : r.avoids c = true)
    (mem : text ∈ r.language) : c ∉ text := by
  induction r generalizing text with
  | nothing => exact absurd mem (Language.notMem_zero text)
  | done =>
      rw [(Language.mem_one text).mp mem]
      exact List.not_mem_nil
  | byte p =>
      rcases mem_byte.mp mem with ⟨b, inClass, rfl⟩
      intro here
      rw [← List.mem_singleton.mp here] at inClass
      rw [Regex.avoids, inClass] at avoids
      cases avoids
  | seq first second ih ih' =>
      rw [Regex.avoids, Bool.and_eq_true] at avoids
      rcases Language.mem_mul.mp mem with ⟨front, inFirst, back, inSecond, rfl⟩
      rw [List.mem_append, not_or]
      exact ⟨ih avoids.1 inFirst, ih' avoids.2 inSecond⟩
  | alt first second ih ih' =>
      rw [Regex.avoids, Bool.and_eq_true] at avoids
      rcases (Language.mem_add _ _ _).mp mem with inFirst | inSecond
      · exact ih avoids.1 inFirst
      · exact ih' avoids.2 inSecond
  | star r ih =>
      rcases Language.mem_kstar.mp mem with ⟨parts, rfl, all⟩
      intro inside
      rcases List.mem_flatten.mp inside with ⟨part, inParts, here⟩
      exact ih avoids (all part inParts) here

/-- Every text of the expression has the byte. -/
def Needs (c : UInt8) (r : Regex) : Prop :=
  ∀ text ∈ r.language, c ∈ text

theorem needs_literal {c : UInt8} {text : Bytes} (member : c ∈ text) :
    Needs c (literal text) := by
  intro other is
  rw [mem_literal.mp is]
  exact member

theorem needs_byte (c : UInt8) : Needs c (byte (· == c)) := by
  intro text mem
  rcases mem_byte.mp mem with ⟨b, is, rfl⟩
  rw [beq_iff_eq.mp is]
  exact List.mem_cons_self

theorem Needs.seq_left {c : UInt8} {first : Regex} (needs : Needs c first) (second : Regex) :
    Needs c (seq first second) := by
  intro text mem
  rcases Language.mem_mul.mp mem with ⟨front, inFirst, back, _, rfl⟩
  exact List.mem_append_left back (needs front inFirst)

theorem Needs.seq_right {c : UInt8} {second : Regex} (needs : Needs c second) (first : Regex) :
    Needs c (seq first second) := by
  intro text mem
  rcases Language.mem_mul.mp mem with ⟨front, _, back, inSecond, rfl⟩
  exact List.mem_append_right front (needs back inSecond)

theorem Needs.matches_eq_false {c : UInt8} {r : Regex} {text : Bytes} (needs : Needs c r)
    (absent : c ∉ text) : r.matches_ text = false := by
  rw [Bool.eq_false_iff]
  intro matched
  exact absent (needs text ((matches_iff r text).mp matched))

end Regex

end OgWebserver.Text

import OgWebserver.Config.Expansion
import OgWebserver.Transition.Descent

/-!
# Files that include each other

`expandFile` calls itself for each file that a line includes, and keeps no account of the
files it is in.  Does it return?
-/

namespace OgWebserver.Config

open Text Transition Relation

variable {fopen : Bytes → Option Bytes} {configDir configFile contents path : Bytes}

/-- A line of the first file includes the second, and both can be read. -/
def Includes (fopen : Bytes → Option Bytes) (configDir path path' : Bytes) : Prop :=
  ∃ contents line file, fopen path = some contents ∧ line ∈ lines contents ∧
    includedFile line = some (some file) ∧ path' = includedPath configDir file ∧
    (fopen path').isSome

/-- What is written for a line, given what is written for an included file. -/
def lineText (included : Bytes → Option Bytes) (line : Bytes) : Option Bytes :=
  match includedFile line with
  | none => some (cString line)
  | some none => some []
  | some (some file) => included file

section Lines

variable {included included' : Bytes → Option Bytes} {ls : List Bytes} {line text : Bytes}

theorem expandLines_cons_eq_some_iff :
    expandLines included (line :: ls) = some text ↔
      ∃ own others, lineText included line = some own ∧
        expandLines included ls = some others ∧ own ++ others = text := by
  rw [expandLines, lineText]
  cases kind : includedFile line with
  | none => cases expandLines included ls <;> simp
  | some named =>
      cases named with
      | none => cases expandLines included ls <;> simp
      | some file =>
          cases inner : included file <;> cases expandLines included ls <;> simp [inner]

theorem lineText_isSome_iff :
    (lineText included line).isSome ↔
      ∀ file, includedFile line = some (some file) → (included file).isSome := by
  rw [lineText]
  split
  case h_1 kind => simp [kind]
  case h_2 kind => simp [kind]
  case h_3 file kind => simp [kind]

/-- The copy is complete if what is written for each included file is. -/
theorem expandLines_isSome_iff :
    (expandLines included ls).isSome ↔
      ∀ line ∈ ls, ∀ file, includedFile line = some (some file) → (included file).isSome := by
  induction ls with
  | nil => simp [expandLines]
  | cons line ls ih =>
      rw [List.forall_mem_cons, ← ih, ← lineText_isSome_iff]
      simp only [Option.isSome_iff_exists, expandLines_cons_eq_some_iff]
      constructor
      · rintro ⟨text, own, others, here, behind, _⟩
        exact ⟨⟨own, here⟩, others, behind⟩
      · rintro ⟨⟨own, here⟩, others, behind⟩
        exact ⟨own ++ others, own, others, here, behind, rfl⟩

end Lines

/-- Each call goes one file deeper. -/
theorem expandFile_isSome_iff {depth : Nat} (opened : fopen path = some contents) :
    (expandFile fopen configDir depth contents).isSome ↔
      Shallow (Includes fopen configDir) depth path := by
  induction depth generalizing path contents with
  | zero => simp [expandFile, Shallow]
  | succ depth ih =>
      rw [expandFile, expandLines_isSome_iff, Shallow]
      constructor
      · rintro all path' ⟨contents', line, file, opened', member, named, rfl, readable⟩
        obtain rfl := Option.some.inj (opened.symm.trans opened')
        rcases Option.isSome_iff_exists.mp readable with ⟨inner, opens⟩
        have returns := all line member file named
        rw [opens] at returns
        exact (ih opens).mp returns
      · intro all line member file named
        cases opens : fopen (includedPath configDir file) with
        | none => rfl
        | some inner =>
            apply (ih opens).mpr
            apply all
            exact ⟨contents, line, file, opened, member, named, rfl, by rw [opens]; rfl⟩

theorem finite_included (finite : {path | (fopen path).isSome}.Finite) :
    {path' | ∃ path, Includes fopen configDir path path'}.Finite := by
  apply finite.subset
  rintro path' ⟨path, contents, line, file, _, _, _, _, readable⟩
  exact readable

/-- Started on the main file, `expandFile` returns if and only if no file that it comes to
includes itself, directly or through others. -/
theorem expandFile_returns_iff (finite : {path | (fopen path).isSome}.Finite)
    (opened : fopen configFile = some contents) :
    (∃ depth, (expandFile fopen configDir depth contents).isSome) ↔
      ∀ path, ReflTransGen (Includes fopen configDir) configFile path →
        ¬ TransGen (Includes fopen configDir) path path := by
  rw [← exists_shallow_iff (finite_included finite)]
  exact exists_congr fun depth => expandFile_isSome_iff opened

theorem finite_openPair (main part : Bytes) :
    {path | (openPair main part path).isSome}.Finite := by
  apply (Set.toFinite {bytes "/c/main", bytes "/c/part"}).subset
  intro path readable
  change (openPair main part path).isSome at readable
  rw [openPair] at readable
  split at readable
  case isTrue is => exact .inl is
  case isFalse =>
    split at readable
    case isTrue is => exact .inr is
    case isFalse => cases readable

theorem expandFile_returns_iff_pair :
    {path | (openPair (bytes "include part;\n") (bytes "on;\n") path).isSome}.Finite ∧
      openPair (bytes "include part;\n") (bytes "on;\n") (bytes "/c/main") =
        some (bytes "include part;\n") ∧
      ((∃ depth, (expandFile (openPair (bytes "include part;\n") (bytes "on;\n")) (bytes "/c/")
          depth (bytes "include part;\n")).isSome) ↔
        ∀ path, ReflTransGen
            (Includes (openPair (bytes "include part;\n") (bytes "on;\n")) (bytes "/c/"))
            (bytes "/c/main") path →
          ¬ TransGen (Includes (openPair (bytes "include part;\n") (bytes "on;\n")) (bytes "/c/"))
            path path) :=
  ⟨finite_openPair _ _, rfl, expandFile_returns_iff (finite_openPair _ _) rfl⟩

/-- A file with a line that includes it is opened again and again. -/
theorem self_include_never_returns :
    {path | (openPair (bytes "include main;\n") [] path).isSome}.Finite ∧
      openPair (bytes "include main;\n") [] (bytes "/c/main") = some (bytes "include main;\n") ∧
      ∀ depth, (expandFile (openPair (bytes "include main;\n") []) (bytes "/c/") depth
        (bytes "include main;\n")).isSome = false := by
  refine ⟨finite_openPair _ _, rfl, ?_⟩
  have itself : Includes (openPair (bytes "include main;\n") []) (bytes "/c/") (bytes "/c/main")
      (bytes "/c/main") :=
    ⟨bytes "include main;\n", bytes "include main;\n", bytes "main", rfl, by decide, by decide,
      by decide, rfl⟩
  intro depth
  rw [Bool.eq_false_iff]
  intro returns
  have opened : openPair (bytes "include main;\n") [] (bytes "/c/main") =
      some (bytes "include main;\n") := rfl
  have shallow := (expandFile_isSome_iff opened).mp returns
  exact shallow.not_cycle (TransGen.single itself)

end OgWebserver.Config

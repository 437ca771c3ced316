import Mathlib.Data.List.TakeWhile
import OgWebserver.Text.Bytes

/-!
# Scanning C strings inside a buffer

A `char *` into a buffer is represented by the bytes from that address to the
end of the buffer.  A library search then has three outcomes: the byte is
found, the terminating zero comes first (the library answers `NULL`), or the
buffer ends before either (the library reads past it).  The third outcome is
kept apart from the second so that out-of-bounds reads stay visible.
-/

namespace OgWebserver.Text

/-- Outcome of a search from an address to the end of its buffer. -/
inductive Search
  | found (before after : Bytes)
  | missing
  | overrun
  deriving DecidableEq

/-- Put one more byte in front of the text a search has passed. -/
def Search.cons (b : UInt8) : Search → Search
  | found before after => found (b :: before) after
  | missing => missing
  | overrun => overrun

/-- `strchr(p, c)` with the text passed and the text behind the hit. -/
def strchr (c : UInt8) : Bytes → Search
  | [] => .overrun
  | b :: rest =>
      if b = c then .found [] rest
      else if b = 0 then .missing
      else (strchr c rest).cons b

/-- Contents of the C string at an address. -/
def cString (p : Bytes) : Bytes :=
  p.takeWhile (· ≠ 0)

/-- `strncmp(p, text, strlen(text)) == 0` for a zero-free `text`; `none` when the
comparison runs off the buffer. -/
def strncmp : Bytes → Bytes → Option Bool
  | [], _ => some true
  | _ :: _, [] => none
  | c :: text, b :: p => if b = c then strncmp text p else some false

/-- `strstr` on a whole C string: the text before the first occurrence and the
text from it on. -/
def strstr (needle : Bytes) : Bytes → Option (Bytes × Bytes)
  | [] => if needle = [] then some ([], []) else none
  | b :: rest =>
      if needle.isPrefixOf (b :: rest) then some ([], b :: rest)
      else (strstr needle rest).map fun parts => (b :: parts.1, parts.2)

theorem Search.cons_eq_found_iff {b : UInt8} {s : Search} {before after : Bytes} :
    s.cons b = .found before after ↔
      ∃ tail, before = b :: tail ∧ s = .found tail after := by
  cases s with
  | found x y =>
      simp only [Search.cons, Search.found.injEq]
      constructor
      · rintro ⟨rfl, rfl⟩
        exact ⟨x, rfl, rfl, rfl⟩
      · rintro ⟨tail, rfl, rfl, rfl⟩
        exact ⟨rfl, rfl⟩
  | missing => simp [Search.cons]
  | overrun => simp [Search.cons]

@[simp]
theorem Search.cons_eq_missing_iff {b : UInt8} {s : Search} :
    s.cons b = .missing ↔ s = .missing := by
  cases s <;> simp [Search.cons]

/-- A hit splits the text at the first `c`, with no zero before it. -/
theorem strchr_eq_found_iff {c : UInt8} {p before after : Bytes} :
    strchr c p = .found before after ↔
      p = before ++ c :: after ∧ c ∉ before ∧ 0 ∉ before := by
  induction p generalizing before with
  | nil => simp [strchr]
  | cons b rest ih =>
      simp only [strchr]
      by_cases hit : b = c
      · subst hit
        rw [if_pos rfl]
        cases before with
        | nil => simp
        | cons d tail =>
            simp only [Search.found.injEq, List.cons_append, List.cons.injEq, List.mem_cons]
            constructor
            · rintro ⟨h, _⟩
              simp at h
            · rintro ⟨⟨rfl, _⟩, absent, _⟩
              simp at absent
      · rw [if_neg hit]
        by_cases zero : b = 0
        · subst zero
          rw [if_pos rfl]
          cases before with
          | nil => simp [hit]
          | cons d tail =>
              simp only [List.cons_append, List.cons.injEq, List.mem_cons, reduceCtorEq, false_iff]
              rintro ⟨⟨rfl, _⟩, _, absent⟩
              simp at absent
        · rw [if_neg zero, Search.cons_eq_found_iff]
          constructor
          · rintro ⟨tail, rfl, found⟩
            rcases ih.mp found with ⟨rfl, noHit, noZero⟩
            simp [noHit, noZero, Ne.symm hit, Ne.symm zero]
          · rintro ⟨split, noHit, noZero⟩
            cases before with
            | nil =>
                simp only [List.nil_append, List.cons.injEq] at split
                exact absurd split.1 hit
            | cons d tail =>
                simp only [List.cons_append, List.cons.injEq] at split
                rcases split with ⟨rfl, rfl⟩
                simp only [List.mem_cons, not_or] at noHit noZero
                exact ⟨tail, rfl, ih.mpr ⟨rfl, noHit.2, noZero.2⟩⟩

/-- A miss means that the zero comes first. -/
theorem strchr_eq_missing_iff {c : UInt8} (nonzero : c ≠ 0) {p : Bytes} :
    strchr c p = .missing ↔
      ∃ before after, p = before ++ 0 :: after ∧ c ∉ before ∧ 0 ∉ before := by
  induction p with
  | nil => simp [strchr]
  | cons b rest ih =>
      simp only [strchr]
      by_cases hit : b = c
      · subst hit
        rw [if_pos rfl]
        simp only [reduceCtorEq, false_iff]
        rintro ⟨before, after, split, noHit, _⟩
        cases before with
        | nil =>
            simp only [List.nil_append, List.cons.injEq] at split
            exact nonzero split.1
        | cons d tail =>
            simp only [List.cons_append, List.cons.injEq] at split
            simp [split.1] at noHit
      · rw [if_neg hit]
        by_cases zero : b = 0
        · subst zero
          rw [if_pos rfl]
          simp only [true_iff]
          exact ⟨[], rest, rfl, by simp, by simp⟩
        · rw [if_neg zero, Search.cons_eq_missing_iff, ih]
          constructor
          · rintro ⟨before, after, rfl, noHit, noZero⟩
            exact ⟨b :: before, after, rfl, by simp [noHit, Ne.symm hit],
              by simp [noZero, Ne.symm zero]⟩
          · rintro ⟨before, after, split, noHit, noZero⟩
            cases before with
            | nil =>
                simp only [List.nil_append, List.cons.injEq] at split
                exact absurd split.1 zero
            | cons d tail =>
                simp only [List.cons_append, List.cons.injEq] at split
                rcases split with ⟨rfl, rfl⟩
                simp only [List.mem_cons, not_or] at noHit noZero
                exact ⟨tail, after, rfl, noHit.2, noZero.2⟩

@[simp]
theorem strchr_append {c : UInt8} {before after : Bytes} (noHit : c ∉ before)
    (noZero : 0 ∉ before) :
    strchr c (before ++ c :: after) = .found before after :=
  strchr_eq_found_iff.mpr ⟨rfl, noHit, noZero⟩

@[simp]
theorem cString_append_zero {text rest : Bytes} (noZero : 0 ∉ text) :
    cString (text ++ 0 :: rest) = text := by
  induction text with
  | nil => simp [cString]
  | cons b text ih =>
      simp only [List.mem_cons, not_or] at noZero
      have tail := ih noZero.2
      simp only [cString] at tail ⊢
      rw [List.cons_append, List.takeWhile_cons_of_pos (by simpa using Ne.symm noZero.1), tail]

/-- A zero-free beginning belongs to the C string. -/
theorem cString_append {before : Bytes} (noZero : 0 ∉ before) (after : Bytes) :
    cString (before ++ after) = before ++ cString after := by
  have nonzero : ∀ b ∈ before, decide (b ≠ 0) = true := by
    intro b member
    simpa using ne_of_mem_of_not_mem member noZero
  exact List.takeWhile_append_of_pos nonzero

/-- Zeros behind a text do not belong to its C string. -/
@[simp]
theorem cString_append_zeros (text : Bytes) (n : Nat) :
    cString (text ++ List.replicate n 0) = cString text := by
  induction text with
  | nil => cases n <;> simp [cString, List.replicate_succ]
  | cons b text ih =>
      by_cases zero : b = 0
      · simp [cString, zero]
      · have front : 0 ∉ [b] := by simpa using Ne.symm zero
        have split := cString_append front (text ++ List.replicate n 0)
        rw [ih, ← cString_append front] at split
        exact split

theorem zero_notMem_cString (p : Bytes) : 0 ∉ cString p := by
  intro member
  simpa using List.mem_takeWhile_imp member

@[simp]
theorem strncmp_append (text p : Bytes) : strncmp text (text ++ p) = some true := by
  induction text with
  | nil => rfl
  | cons c text ih => simp [strncmp, ih]

/-- A successful comparison exhibits the compared text. -/
theorem strncmp_eq_true_iff {text p : Bytes} :
    strncmp text p = some true ↔ ∃ rest, p = text ++ rest := by
  constructor
  · intro equal
    induction text generalizing p with
    | nil => exact ⟨p, rfl⟩
    | cons c text ih =>
        cases p with
        | nil => simp [strncmp] at equal
        | cons b p =>
            simp only [strncmp] at equal
            split at equal
            · rename_i same
              rcases ih equal with ⟨rest, rfl⟩
              exact ⟨rest, by simp [same]⟩
            · simp at equal
  · rintro ⟨rest, rfl⟩
    exact strncmp_append text rest

/-- A comparison with a zero-free text stays inside a buffer that holds a zero. -/
theorem strncmp_ne_none {text p : Bytes} (textNoZero : 0 ∉ text) (terminated : 0 ∈ p) :
    strncmp text p ≠ none := by
  induction text generalizing p with
  | nil => simp [strncmp]
  | cons c text ih =>
      cases p with
      | nil => simp at terminated
      | cons b p =>
          simp only [List.mem_cons, not_or] at textNoZero
          simp only [strncmp]
          split
          · rename_i same
            have inRest : 0 ∈ p := by
              rcases List.mem_cons.mp terminated with eq | member
              · exact absurd (eq.trans same) textNoZero.1
              · exact member
            exact ih textNoZero.2 inRest
          · simp

/-- `strstr` splits the string at an occurrence of the needle. -/
theorem strstr_eq_some {needle s before from_ : Bytes}
    (found : strstr needle s = some (before, from_)) :
    s = before ++ from_ ∧ needle <+: from_ := by
  induction s generalizing before with
  | nil =>
      simp only [strstr] at found
      split at found
      · rename_i empty
        simp only [Option.some.injEq, Prod.mk.injEq] at found
        rcases found with ⟨rfl, rfl⟩
        simp [empty]
      · simp at found
  | cons b rest ih =>
      simp only [strstr] at found
      split at found
      · rename_i here
        simp only [Option.some.injEq, Prod.mk.injEq] at found
        rcases found with ⟨rfl, rfl⟩
        exact ⟨rfl, List.isPrefixOf_iff_prefix.mp here⟩
      · rw [Option.map_eq_some_iff] at found
        rcases found with ⟨⟨x, y⟩, inner, parts⟩
        simp only [Prod.mk.injEq] at parts
        rcases parts with ⟨rfl, rfl⟩
        rcases ih inner with ⟨split, here⟩
        exact ⟨by rw [split]; rfl, here⟩

/-- `strstr` stops at the given occurrence when no earlier suffix starts with
the needle. -/
theorem strstr_append {needle before after : Bytes}
    (first : ∀ early late, before = early ++ late → late ≠ [] →
      ¬ needle <+: late ++ (needle ++ after)) (nonempty : needle ≠ []) :
    strstr needle (before ++ (needle ++ after)) = some (before, needle ++ after) := by
  induction before with
  | nil =>
      cases needle with
      | nil => exact absurd rfl nonempty
      | cons c needle =>
          have here : (c :: needle).isPrefixOf (c :: (needle ++ after)) = true :=
            List.isPrefixOf_iff_prefix.mpr ⟨after, rfl⟩
          simp [strstr, here]
  | cons b before ih =>
      have notHere : ¬ needle <+: b :: before ++ (needle ++ after) :=
        first [] (b :: before) rfl (by simp)
      have later := ih fun early late split => first (b :: early) late (by simp [split])
      simp only [List.cons_append] at notHere ⊢
      rw [strstr, if_neg (by simpa [List.isPrefixOf_iff_prefix] using notHere), later]
      rfl

end OgWebserver.Text

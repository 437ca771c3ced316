import OgWebserver.Text.Scan
import OgWebserver.Transition.Run

/-!
# Parser of the MIME types file

`parseMimeTypes.c`.  A `char *` is the text from that address to the end of the
buffer, which ends in a zero.  The zeros that the parser writes lie behind its
position, or end the strings it copies at once, so a string is the text in front
of the hit of the search that ends it.
-/

namespace OgWebserver.Mime

open Text Transition

/-- Why the parser did not return. -/
inductive Halt
  /-- The program printed the message and called `exit(1)`. -/
  | exit (message : String)
  /-- A read behind the end of the buffer. -/
  | overrun
  /-- The number of rounds given to the loop was too small. -/
  | unfinished
  deriving DecidableEq

/-- An entry of the list: an extension and its MIME type. -/
abbrev Pair := Bytes × Bytes

/-- What is skipped in front of an extension. -/
def spaceOrTab (b : UInt8) : Bool :=
  b == 32 || b == 9

/-- What is skipped in front of a line. -/
def spaceOrNewline (b : UInt8) : Bool :=
  b == 32 || b == 10

/-- The loop that cuts the extensions of a line at each single space. -/
def splitSpaces : Bytes → List Bytes
  | [] => [[]]
  | b :: rest => if b = 32 then [] :: splitSpaces rest else (splitSpaces rest).modifyHead (b :: ·)

/-- The first tab of the rest of the file, or else the first space. -/
def separator (p : Bytes) : Search :=
  match strchr 9 p with
  | .missing => strchr 32 p
  | hit => hit

/-- `parseLine`: what it adds to the list, and the end of the line. -/
def parseLine (p : Bytes) : Except Halt (List Pair × Bytes) :=
  match separator p with
  | .overrun => .error .overrun
  | .missing => .error (.exit "Invalid mime.type file, malformed mime type.")
  | .found mimeType q =>
      match q.dropWhile spaceOrTab with
      | [] => .error .overrun
      | b :: rest =>
          if b = 0 then .error (.exit "Invalid mime.type file, missing extension.")
          else
            match strchr 59 (b :: rest) with
            | .overrun => .error .overrun
            | .missing => .error (.exit "Invalid mime.type file, missing line end delimiter.")
            | .found line endOfLine => .ok ((splitSpaces line).map (·, mimeType), endOfLine)

/-- The loop of `parseMimeTypes` over the lines, for a number of rounds. -/
def parseLines : Nat → Bytes → List Pair → Except Halt (List Pair)
  | 0, _, _ => .error .unfinished
  | rounds + 1, p, list =>
      match p with
      | [] => .error .overrun
      | c :: _ =>
          if c = 125 then .ok list
          else
            match p.dropWhile spaceOrNewline with
            | [] => .error .overrun
            | b :: rest =>
                if b = 0 then .error (.exit "Invalid mime.type file, no ending delimiter.")
                else if b = 125 then parseLines rounds (b :: rest) list
                else do
                  let (pairs, endOfLine) ← parseLine (b :: rest)
                  parseLines rounds endOfLine (list ++ pairs)

/-- `parseMimeTypes`, of a file with the given contents. -/
def parseMimeTypes (file : Bytes) : Except Halt (List Pair) :=
  match strchr 123 (file ++ [0]) with
  | .overrun => .error .overrun
  | .missing => .error (.exit "Invalid mime.type file, no starting delimiter.")
  | .found _ p => parseLines (p.length + 1) p []

/-! ## Cutting at spaces -/

theorem splitSpaces_eq_splitOn (text : Bytes) : splitSpaces text = text.splitOn 32 := by
  induction text with
  | nil => simp [splitSpaces]
  | cons b rest ih => simp [splitSpaces, List.splitOn_cons_eq_if_modifyHead, ih]

theorem splitSpaces_ne_nil (text : Bytes) : splitSpaces text ≠ [] := by
  rw [splitSpaces_eq_splitOn]
  exact List.splitOn_ne_nil 32 text

theorem splitSpaces_of_notMem {text : Bytes} (none : 32 ∉ text) : splitSpaces text = [text] := by
  rw [splitSpaces_eq_splitOn]
  exact List.splitOn_eq_singleton none

theorem splitSpaces_append {before : Bytes} (none : 32 ∉ before) (after : Bytes) :
    splitSpaces (before ++ 32 :: after) = before :: splitSpaces after := by
  rw [splitSpaces_eq_splitOn, splitSpaces_eq_splitOn]
  exact List.splitOn_append_cons_self_of_not_mem none after

/-! ## Progress -/

/-- A hit leaves less text than there was. -/
theorem separator_length {p before after : Bytes} (hit : separator p = .found before after) :
    after.length < p.length := by
  have split : ∃ c, strchr c p = .found before after := by
    simp only [separator] at hit
    split at hit
    · exact ⟨32, hit⟩
    · exact ⟨9, hit⟩
  rcases split with ⟨c, found⟩
  rw [(strchr_eq_found_iff.mp found).1, List.length_append, List.length_cons]
  omega

/-- What a line that is parsed looks like from its beginning. -/
theorem parseLine_eq_ok_iff {p endOfLine : Bytes} {pairs : List Pair} :
    parseLine p = .ok (pairs, endOfLine) ↔
      ∃ mimeType q line, separator p = .found mimeType q ∧
        strchr 59 (q.dropWhile spaceOrTab) = .found line endOfLine ∧
          pairs = (splitSpaces line).map (·, mimeType) := by
  simp only [parseLine]
  cases separator p with
  | overrun => simp
  | missing => simp
  | found mimeType q =>
      simp only [Search.found.injEq]
      cases drop : q.dropWhile spaceOrTab with
      | nil => simp [drop, strchr]
      | cons b rest =>
          by_cases zero : b = 0
          · simp [zero, drop, strchr]
          · simp only [zero, if_false]
            cases found : strchr 59 (b :: rest) <;> simp [drop, found, eq_comm, and_comm]

theorem parseLine_finishes (p : Bytes) : parseLine p ≠ .error .unfinished := by
  simp only [parseLine]
  split
  · simp
  · simp
  · split
    · simp
    · split_ifs
      · simp
      · split <;> simp

/-- The end of a line lies behind its beginning. -/
theorem parseLine_length {p endOfLine : Bytes} {pairs : List Pair}
    (parsed : parseLine p = .ok (pairs, endOfLine)) : endOfLine.length < p.length := by
  rcases parseLine_eq_ok_iff.mp parsed with ⟨mimeType, q, line, hit, found, _⟩
  have shorter := separator_length hit
  have skipped := (List.dropWhile_suffix (l := q) spaceOrTab).length_le
  rw [(strchr_eq_found_iff.mp found).1, List.length_append, List.length_cons] at skipped
  omega

/-- As many rounds as there are bytes, and one more, are enough. -/
theorem parseLines_finishes {rounds : Nat} {p : Bytes} {list : List Pair}
    (enough : p.length < rounds) : parseLines rounds p list ≠ .error .unfinished := by
  induction rounds generalizing p list with
  | zero => omega
  | succ rounds ih =>
      rcases p with _ | ⟨c, text⟩
      · simp [parseLines]
      simp only [parseLines]
      split_ifs with closed
      · simp
      have skipped := (List.dropWhile_suffix (l := c :: text) spaceOrNewline).length_le
      cases drop : (c :: text).dropWhile spaceOrNewline with
      | nil => simp
      | cons b rest =>
          rw [drop] at skipped
          simp only
          split_ifs with zero last
          · simp
          · -- blanks were skipped, since the text did not start with the brace
            apply ih
            by_cases blank : spaceOrNewline c = true
            · rw [List.dropWhile_cons_of_pos blank] at drop
              have inner := (List.dropWhile_suffix (l := text) spaceOrNewline).length_le
              rw [drop] at inner
              simp only [List.length_cons] at inner enough ⊢
              omega
            · rw [List.dropWhile_cons_of_neg blank] at drop
              exact absurd ((List.cons.inj drop).1.trans last) closed
          · cases parsed : parseLine (b :: rest) with
            | error halt =>
                intro stuck
                obtain rfl : halt = .unfinished := Except.error.inj stuck
                exact parseLine_finishes _ parsed
            | ok line =>
                apply ih
                have shorter : line.2.length < _ := parseLine_length parsed
                simp only [List.length_cons] at shorter skipped enough
                omega

/-! ## Runs of the loop -/

/-- More rounds change nothing once the loop has finished. -/
theorem parseLines_mono {rounds more : Nat} {p : Bytes} {list : List Pair}
    (finished : parseLines rounds p list ≠ .error .unfinished) (le : rounds ≤ more) :
    parseLines more p list = parseLines rounds p list := by
  induction rounds generalizing more p list with
  | zero => exact absurd rfl finished
  | succ rounds ih =>
      rcases Nat.exists_eq_add_of_lt le with ⟨extra, rfl⟩
      rcases p with _ | ⟨c, text⟩
      · rfl
      simp only [parseLines] at finished ⊢
      split_ifs at finished ⊢
      · rfl
      cases drop : (c :: text).dropWhile spaceOrNewline with
      | nil => rfl
      | cons b rest =>
          simp only [drop] at finished ⊢
          split_ifs at finished ⊢
          · rfl
          · exact ih finished (by omega)
          · cases parsed : parseLine (b :: rest) with
            | error halt => rfl
            | ok line =>
                rw [parsed] at finished
                exact ih finished (by omega)

/-- The loop, started with a list, returns the result. -/
def Parses (p : Bytes) (list result : List Pair) : Prop :=
  ∃ rounds, parseLines rounds p list = .ok result

theorem parseMimeTypes_eq_ok_iff {file : Bytes} {result : List Pair} :
    parseMimeTypes file = .ok result ↔
      ∃ before p, strchr 123 (file ++ [0]) = .found before p ∧ Parses p [] result := by
  simp only [parseMimeTypes]
  cases strchr 123 (file ++ [0]) with
  | overrun => simp
  | missing => simp
  | found before p =>
      simp only [Search.found.injEq]
      constructor
      · intro parsed
        exact ⟨before, p, ⟨rfl, rfl⟩, _, parsed⟩
      · rintro ⟨_, _, ⟨rfl, rfl⟩, rounds, parsed⟩
        have finished : parseLines (p.length + 1) p [] ≠ .error .unfinished :=
          parseLines_finishes (by omega)
        have same := parseLines_mono finished (Nat.le_max_left _ rounds)
        have finished' : parseLines rounds p [] ≠ .error .unfinished := by
          rw [parsed]
          simp
        have other := parseLines_mono finished' (Nat.le_max_right (p.length + 1) rounds)
        rw [← same, other, parsed]

section Step

variable {p rest : Bytes} {b : UInt8} {list result : List Pair}

/-- A closing brace behind blanks ends the loop. -/
theorem parses_close_iff (drop : p.dropWhile spaceOrNewline = 125 :: rest) :
    Parses p list result ↔ result = list := by
  rcases p with _ | ⟨c, text⟩
  · cases drop
  have stop : ∀ rounds, parseLines (rounds + 1) (125 :: rest) list = .ok list := by
    intro rounds
    simp [parseLines]
  constructor
  · rintro ⟨_ | rounds, parsed⟩
    · cases parsed
    · simp only [parseLines, drop] at parsed
      split_ifs at parsed
      · exact (Except.ok.inj parsed).symm
      · cases rounds with
        | zero => cases parsed
        | succ rounds =>
            rw [stop] at parsed
            exact (Except.ok.inj parsed).symm
  · rintro rfl
    refine ⟨2, ?_⟩
    simp only [parseLines, drop]
    split_ifs <;> simp_all

/-- Anything else behind blanks is a line. -/
theorem parses_line_iff (drop : p.dropWhile spaceOrNewline = b :: rest) (nonzero : b ≠ 0)
    (open_ : b ≠ 125) :
    Parses p list result ↔
      ∃ pairs endOfLine, parseLine (b :: rest) = .ok (pairs, endOfLine) ∧
        Parses endOfLine (list ++ pairs) result := by
  have round : ∀ rounds, parseLines (rounds + 1) p list =
      (parseLine (b :: rest) >>= fun line => parseLines rounds line.2 (list ++ line.1)) := by
    intro rounds
    rcases p with _ | ⟨c, text⟩
    · cases drop
    have notClosed : c ≠ 125 := by
      rintro rfl
      rw [List.dropWhile_cons_of_neg (by decide)] at drop
      exact open_ (List.cons.inj drop).1.symm
    simp [parseLines, drop, notClosed, nonzero, open_]
  constructor
  · rintro ⟨_ | rounds, parsed⟩
    · cases parsed
    · rw [round] at parsed
      rcases bind_eq_ok_iff.mp parsed with ⟨⟨pairs, endOfLine⟩, line, more⟩
      exact ⟨pairs, endOfLine, line, rounds, more⟩
  · rintro ⟨pairs, endOfLine, line, rounds, more⟩
    refine ⟨rounds + 1, ?_⟩
    rw [round]
    exact bind_eq_ok_iff.mpr ⟨_, line, more⟩

/-- The list only grows. -/
theorem parseLines_prefix {rounds : Nat} (parsed : parseLines rounds p list = .ok result) :
    list <+: result := by
  induction rounds generalizing p list with
  | zero => cases parsed
  | succ rounds ih =>
      rcases p with _ | ⟨c, text⟩
      · cases parsed
      simp only [parseLines] at parsed
      split_ifs at parsed
      · exact Except.ok.inj parsed ▸ List.prefix_refl list
      cases drop : (c :: text).dropWhile spaceOrNewline with
      | nil =>
          rw [drop] at parsed
          cases parsed
      | cons b rest =>
          simp only [drop] at parsed
          split_ifs at parsed
          · exact ih parsed
          · rcases bind_eq_ok_iff.mp parsed with ⟨line, _, more⟩
            exact (List.prefix_append list line.1).trans (ih more)

theorem Parses.grows (parses : Parses p list result) : list <+: result := by
  rcases parses with ⟨rounds, parsed⟩
  exact parseLines_prefix parsed

end Step

end OgWebserver.Mime

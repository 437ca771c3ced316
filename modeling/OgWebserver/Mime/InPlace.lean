import OgWebserver.Mime.Parse
import OgWebserver.Text.Cells

/-!
# The MIME types file in its buffer

`parseMimeTypes.c` once more, with positions in the buffer that holds the file and the
terminating zero, and with the zeros that the parser writes.  A read or a write behind the
end of the buffer ends the run.
-/

namespace OgWebserver.Mime.InPlace

open Text Transition

/-- What an access gives, if it stays in the buffer. -/
def within {α : Type} : Option α → Except Halt α
  | some a => .ok a
  | none => .error .overrun

/-- The cursor behind the list that has been built. -/
structure State where
  cells : Bytes
  p : Nat
  list : List Pair
  deriving DecidableEq

def saveMimeType (cells : Bytes) (extension mimeType : Nat) (list : List Pair) :
    Except Halt (List Pair) := do
  let mimeType ← within (stringAt cells mimeType)
  let extension ← within (stringAt cells extension)
  .ok (list ++ [(extension, mimeType)])

/-- The loop that cuts the extensions, for a number of rounds. -/
def saveExtensions (mimeType : Nat) : Nat → State → Except Halt State
  | 0, _ => .error .unfinished
  | rounds + 1, s => do
      match ← within (strchrAt 32 s.cells s.p) with
      | none =>
          let list ← saveMimeType s.cells s.p mimeType s.list
          .ok { s with list := list }
      | some q =>
          let cells ← within (cutAt s.cells q)
          let list ← saveMimeType cells s.p mimeType s.list
          saveExtensions mimeType rounds { cells := cells, p := q + 1, list := list }

/-- The first tab, or else the first space. -/
def separator (cells : Bytes) (p : Nat) : Except Halt Nat := do
  match ← within (strchrAt 9 cells p) with
  | some q => .ok q
  | none =>
      match ← within (strchrAt 32 cells p) with
      | some q => .ok q
      | none => .error (.exit "Invalid mime.type file, malformed mime type.")

/-- `parseLine`: the position it returns is the cursor afterwards. -/
def parseLine (s : State) : Except Halt State := do
  let mimeType := s.p
  let q ← separator s.cells s.p
  let cells ← within (cutAt s.cells q)
  let p := skipWhile spaceOrTab cells (q + 1)
  let b ← within cells[p]?
  if b = 0 then .error (.exit "Invalid mime.type file, missing extension.")
  else
    match ← within (strchrAt 59 cells p) with
    | none => .error (.exit "Invalid mime.type file, missing line end delimiter.")
    | some q =>
        let cells ← within (cutAt cells q)
        let endOfLine := q + 1
        let saved ← saveExtensions mimeType cells.length { cells := cells, p := p, list := s.list }
        .ok { saved with p := endOfLine }

/-- How the loop ends, and the calls of `parseLine` that return: the argument and the
result. -/
structure Outcome where
  calls : List (Nat × Nat)
  result : Except Halt (List Pair)

/-- The loop of `parseMimeTypes`, for a number of rounds. -/
def parseLines : Nat → State → Outcome
  | 0, _ => { calls := [], result := .error .unfinished }
  | rounds + 1, s =>
      match s.cells[s.p]? with
      | none => { calls := [], result := .error .overrun }
      | some c =>
          if c = 125 then { calls := [], result := .ok s.list }
          else
            let p := skipWhile spaceOrNewline s.cells s.p
            match s.cells[p]? with
            | none => { calls := [], result := .error .overrun }
            | some b =>
                if b = 0 then
                  { calls := []
                    result := .error (.exit "Invalid mime.type file, no ending delimiter.") }
                else if b = 125 then parseLines rounds { s with p := p }
                else
                  match parseLine { s with p := p } with
                  | .error halt => { calls := [], result := .error halt }
                  | .ok next =>
                      let rest := parseLines rounds next
                      { rest with calls := (p, next.p) :: rest.calls }

/-- `parseMimeTypes`, of a file with the given contents. -/
def parseMimeTypes (file : Bytes) : Outcome :=
  match strchrAt 123 (file ++ [0]) 0 with
  | none => { calls := [], result := .error .overrun }
  | some none =>
      { calls := []
        result := .error (.exit "Invalid mime.type file, no starting delimiter.") }
  | some (some q) =>
      parseLines (file.length + 1) { cells := file ++ [0], p := q + 1, list := [] }

example : (parseMimeTypes (bytes "types \x7b\na/b\tc d;e/f\tg;\n\x7d")).result =
    .ok [(bytes "c", bytes "a/b"), (bytes "d", bytes "a/b"), (bytes "g", bytes "e/f")] := by
  decide

/-! ## The extensions of a line -/

variable {s t : State} {line behind mimeType more : Bytes} {m rounds : Nat}

theorem saveMimeType_eq {extension : Bytes} {cells : Bytes} {p : Nat} {list : List Pair}
    (view : cells.drop p = extension ++ 0 :: behind) (noZero : 0 ∉ extension)
    (string : cells.drop m = mimeType ++ 0 :: more) (noZero' : 0 ∉ mimeType) :
    saveMimeType cells p m list = .ok (list ++ [(extension, mimeType)]) := by
  rw [saveMimeType, stringAt_of_drop string noZero', stringAt_of_drop view noZero]
  rfl

/-- Each piece of the line is saved, and nothing behind the line is changed. -/
theorem saveExtensions_eq (view : s.cells.drop s.p = line ++ 0 :: behind) (noZero : 0 ∉ line)
    (string : s.cells.drop m = mimeType ++ 0 :: more) (noZero' : 0 ∉ mimeType)
    (apart : m + mimeType.length < s.p) (enough : line.length < rounds) :
    ∃ t, saveExtensions m rounds s = .ok t ∧
      t.list = s.list ++ (splitSpaces line).map (·, mimeType) ∧
      t.cells.length = s.cells.length ∧
      t.cells.drop (s.p + line.length + 1) = behind := by
  induction rounds generalizing s line more with
  | zero => omega
  | succ rounds ih =>
      by_cases space : 32 ∈ line
      · rcases List.eq_append_cons_of_mem space with ⟨before, after, rfl, first⟩
        simp only [List.mem_append, List.mem_cons, not_or] at noZero
        rw [List.append_assoc, List.cons_append] at view
        have hit : strchrAt 32 s.cells s.p = some (some (s.p + before.length)) := by
          apply strchrAt_of_found
          rw [view]
          exact strchr_append first noZero.1
        have later : m + mimeType.length < s.p + before.length := by omega
        rcases drop_cut_later string later with ⟨more', string'⟩
        have view' := drop_cut view
        have saved := @saveMimeType_eq _ _ _ m _ _ _ s.list view' noZero.1 string' noZero'
        have rest := @ih
          { cells := s.cells.set (s.p + before.length) 0
            p := s.p + before.length + 1
            list := s.list ++ [(before, mimeType)] }
          after more' (drop_behind view') noZero.2.2 string' (by simp only; omega)
          (by simp only [List.length_append, List.length_cons] at enough; omega)
        rcases rest with ⟨t, returns, list, length, kept⟩
        refine ⟨t, ?_, ?_, ?_, ?_⟩
        · simp only [saveExtensions, hit, cutAt_of_drop view, within, saved, bind, Except.bind]
          exact returns
        · rw [list, splitSpaces_append first]
          simp
        · rw [length]
          exact List.length_set
        · rw [← kept]
          congr 1
          simp only [List.length_append, List.length_cons]
          omega
      · have miss : strchrAt 32 s.cells s.p = some none := by
          rw [strchrAt, view, (strchr_eq_missing_iff (by decide)).mpr
            ⟨line, behind, rfl, space, noZero⟩]
        refine ⟨{ s with list := s.list ++ [(line, mimeType)] }, ?_, ?_, rfl, drop_behind view⟩
        · simp only [saveExtensions, miss, within, saveMimeType_eq view noZero string noZero',
            bind, Except.bind]
        · rw [splitSpaces_of_notMem space]
          rfl

/-! ## A line -/

theorem separator_eq (cells : Bytes) (p : Nat) :
    separator cells p =
      match Mime.separator (cells.drop p) with
      | .found before _ => .ok (p + before.length)
      | .missing => .error (.exit "Invalid mime.type file, malformed mime type.")
      | .overrun => .error .overrun := by
  rw [separator, Mime.separator, strchrAt, strchrAt]
  cases strchr 9 (cells.drop p) with
  | found before after => rfl
  | overrun => rfl
  | missing => cases strchr 32 (cells.drop p) <;> rfl

/-- A separator is a hit in a text without zeros in front of it. -/
theorem separator_eq_found {text before after : Bytes}
    (found : Mime.separator text = .found before after) :
    ∃ c, c ≠ 0 ∧ text = before ++ c :: after ∧ 0 ∉ before := by
  rw [Mime.separator] at found
  split at found
  · rcases strchr_eq_found_iff.mp found with ⟨is, _, noZero⟩
    exact ⟨32, by decide, is, noZero⟩
  · rcases strchr_eq_found_iff.mp found with ⟨is, _, noZero⟩
    exact ⟨9, by decide, is, noZero⟩

/-- Behind the separator, which is cut, there is what was there. -/
theorem drop_extension {c : UInt8} {after : Bytes}
    (view : s.cells.drop s.p = mimeType ++ c :: after) :
    (s.cells.set (s.p + mimeType.length) 0).drop (skipWhile spaceOrTab
      (s.cells.set (s.p + mimeType.length) 0) (s.p + mimeType.length + 1)) =
        after.dropWhile spaceOrTab := by
  rw [drop_skipWhile, drop_behind (drop_cut view)]

/-- `parseLine` from the first extension on. -/
theorem parseLine_of_separator {c : UInt8} {cells after : Bytes} {p : Nat}
    (separated : Mime.separator (s.cells.drop s.p) = .found mimeType after)
    (view : s.cells.drop s.p = mimeType ++ c :: after)
    (cut : s.cells.set (s.p + mimeType.length) 0 = cells)
    (stop : skipWhile spaceOrTab cells (s.p + mimeType.length + 1) = p) :
    parseLine s =
      match cells[p]? with
      | none => .error .overrun
      | some b =>
          if b = 0 then .error (.exit "Invalid mime.type file, missing extension.")
          else
            match strchr 59 (cells.drop p) with
            | .overrun => .error .overrun
            | .missing => .error (.exit "Invalid mime.type file, missing line end delimiter.")
            | .found line _ =>
                match cutAt cells (p + line.length) with
                | none => .error .overrun
                | some cells =>
                    (saveExtensions s.p cells.length
                      { cells := cells, p := p, list := s.list }).map fun t =>
                        { t with p := p + line.length + 1 } := by
  have known : separator s.cells s.p = .ok (s.p + mimeType.length) := by
    rw [separator_eq, separated]
  simp only [parseLine, known, cutAt_of_drop view, within, bind, Except.bind, cut, stop]
  cases cells[p]? with
  | none => rfl
  | some b =>
      simp only [strchrAt]
      split_ifs
      · rfl
      · cases strchr 59 (cells.drop p) with
        | overrun => rfl
        | missing => rfl
        | found line rest =>
            simp only
            cases cutAt cells (p + line.length) with
            | none => rfl
            | some cells =>
                simp only
                cases saveExtensions s.p cells.length { cells := cells, p := p, list := s.list } <;>
                  rfl

/-- Where the rest of the file is a line, the line is cut and its pairs are saved. -/
theorem parseLine_of_ok {pairs : List Pair} {endOfLine : Bytes}
    (parsed : Mime.parseLine (s.cells.drop s.p) = .ok (pairs, endOfLine)) :
    ∃ t, parseLine s = .ok t ∧ t.list = s.list ++ pairs ∧ t.cells.length = s.cells.length ∧
      t.cells.drop t.p = endOfLine ∧ s.p < t.p := by
  rcases parseLine_eq_ok_iff.mp parsed with ⟨mimeType, after, line, separated, found, rfl⟩
  rcases separator_eq_found separated with ⟨c, _, view, noZero⟩
  have string := drop_cut view
  have skipped := drop_extension view
  have length : (s.cells.set (s.p + mimeType.length) 0).length = s.cells.length := List.length_set
  have le := le_skipWhile spaceOrTab (s.cells.set (s.p + mimeType.length) 0)
    (s.p + mimeType.length + 1)
  generalize cut : s.cells.set (s.p + mimeType.length) 0 = cells at string skipped length le
  generalize stop : skipWhile spaceOrTab cells (s.p + mimeType.length + 1) = p at skipped le
  rw [← skipped] at found
  rcases strchr_eq_found_iff.mp found with ⟨view', _, noZero'⟩
  have ended := drop_cut view'
  have inside := length_of_drop ended
  rcases drop_cut_later string (show s.p + mimeType.length < p + line.length by omega) with
    ⟨more, string'⟩
  rcases @saveExtensions_eq { cells := cells.set (p + line.length) 0, p := p, list := s.list }
      line endOfLine mimeType more s.p _ ended noZero' string' noZero (by simp only; omega)
      (show line.length < (cells.set (p + line.length) 0).length by omega) with
    ⟨t, saved, list, length', kept⟩
  have first : ∃ b, cells[p]? = some b ∧ b ≠ 0 := by
    rw [← List.head?_drop, view']
    rcases line with _ | ⟨b, line⟩
    · exact ⟨59, rfl, by decide⟩
    · refine ⟨b, rfl, ?_⟩
      rintro rfl
      exact noZero' List.mem_cons_self
  rcases first with ⟨b, read, nonzero⟩
  refine ⟨{ t with p := p + line.length + 1 }, ?_, list, ?_, kept, ?_⟩
  · rw [parseLine_of_separator separated view cut stop, read]
    simp only [nonzero, if_false, found, cutAt_of_drop view', saved]
    rfl
  · rw [length', List.length_set, length]
  · simp only
    omega

/-- Where it is none, the run ends in the same way. -/
theorem parseLine_of_error {halt : Halt}
    (failed : Mime.parseLine (s.cells.drop s.p) = .error halt) : parseLine s = .error halt := by
  rw [Mime.parseLine] at failed
  cases separated : Mime.separator (s.cells.drop s.p) with
  | overrun =>
      rw [separated] at failed
      obtain rfl := Except.error.inj failed
      simp only [parseLine, separator_eq, separated, bind, Except.bind]
  | missing =>
      rw [separated] at failed
      obtain rfl := Except.error.inj failed
      simp only [parseLine, separator_eq, separated, bind, Except.bind]
  | found mimeType after =>
      rcases separator_eq_found separated with ⟨c, _, view, _⟩
      have skipped := drop_extension view
      rw [parseLine_of_separator separated view rfl rfl, ← List.head?_drop, skipped]
      simp only [separated] at failed
      cases rest : after.dropWhile spaceOrTab with
      | nil =>
          rw [rest] at failed
          obtain rfl := Except.error.inj failed
          rfl
      | cons b others =>
          simp only [rest, List.head?_cons] at failed ⊢
          split_ifs at failed ⊢
          · obtain rfl := Except.error.inj failed
            rfl
          · cases found : strchr 59 (b :: others) with
            | overrun =>
                rw [found] at failed
                obtain rfl := Except.error.inj failed
                rfl
            | missing =>
                rw [found] at failed
                obtain rfl := Except.error.inj failed
                rfl
            | found line endOfLine =>
                rw [found] at failed
                cases failed

/-! ## The loop -/

/-- Positions and rests of the text tell the same. -/
theorem result_parseLines (rounds : Nat) (s : State) :
    (parseLines rounds s).result = Mime.parseLines rounds (s.cells.drop s.p) s.list := by
  induction rounds generalizing s with
  | zero => rfl
  | succ rounds ih =>
      have skipped := drop_skipWhile spaceOrNewline s.cells s.p
      simp only [parseLines, ← List.head?_drop, skipped]
      generalize skipWhile spaceOrNewline s.cells s.p = q at skipped
      cases text : s.cells.drop s.p with
      | nil => rfl
      | cons c more =>
          rw [text] at skipped
          simp only [List.head?_cons, Mime.parseLines]
          split_ifs with closed
          · rfl
          cases rest : (c :: more).dropWhile spaceOrNewline with
          | nil => rfl
          | cons b others =>
              rw [rest] at skipped
              simp only [List.head?_cons]
              split_ifs
              · rfl
              · rw [ih]
                simp only [skipped]
              · rw [← skipped]
                cases parsed : Mime.parseLine (s.cells.drop q) with
                | error halt =>
                    have failed := @parseLine_of_error { s with p := q } _ parsed
                    rw [failed]
                    rfl
                | ok line =>
                    rcases @parseLine_of_ok { s with p := q } _ _ parsed with
                      ⟨t, returns, list, _, kept, _⟩
                    rw [returns]
                    simp only [ih, list, kept, bind, Except.bind]

/-- A line that is parsed leaves the terminating zero. -/
theorem terminated_parseLine {p endOfLine : Bytes} {pairs : List Pair}
    (terminated : Terminated p) (parsed : Mime.parseLine p = .ok (pairs, endOfLine)) :
    Terminated endOfLine := by
  rcases parseLine_eq_ok_iff.mp parsed with ⟨mimeType, after, line, separated, found, _⟩
  rcases separator_eq_found separated with ⟨c, nonzero, rfl, _⟩
  have skipped : Terminated (after.dropWhile spaceOrTab) :=
    (terminated.behind nonzero).dropWhile rfl
  rw [(strchr_eq_found_iff.mp found).1] at skipped
  exact skipped.behind (by decide)

theorem parseLine_ne_overrun {p : Bytes} (terminated : Terminated p) :
    Mime.parseLine p ≠ .error .overrun := by
  rw [Mime.parseLine]
  cases separated : Mime.separator p with
  | overrun =>
      rw [Mime.separator] at separated
      split at separated
      · exact absurd separated (terminated.strchr_ne_overrun 32)
      · exact absurd separated (terminated.strchr_ne_overrun 9)
  | missing => simp
  | found mimeType after =>
      rcases separator_eq_found separated with ⟨c, nonzero, rfl, _⟩
      have skipped : Terminated (after.dropWhile spaceOrTab) :=
        (terminated.behind nonzero).dropWhile rfl
      rcases List.exists_cons_of_ne_nil skipped.ne_nil with ⟨b, rest, is⟩
      rw [is] at skipped
      simp only [is]
      split_ifs
      · simp
      · have inside := skipped.strchr_ne_overrun 59
        cases found : strchr 59 (b :: rest) with
        | overrun => exact absurd found inside
        | missing => simp
        | found line endOfLine => simp

/-- The terminating zero keeps the loop in the buffer. -/
theorem parseLines_ne_overrun {rounds : Nat} {p : Bytes} {list : List Pair}
    (terminated : Terminated p) : Mime.parseLines rounds p list ≠ .error .overrun := by
  induction rounds generalizing p list with
  | zero => simp [Mime.parseLines]
  | succ rounds ih =>
      rcases List.exists_cons_of_ne_nil terminated.ne_nil with ⟨c, more, rfl⟩
      simp only [Mime.parseLines]
      split_ifs
      · simp
      have skipped : Terminated ((c :: more).dropWhile spaceOrNewline) := terminated.dropWhile rfl
      rcases List.exists_cons_of_ne_nil skipped.ne_nil with ⟨b, rest, is⟩
      rw [is] at skipped
      simp only [is]
      split_ifs
      · simp
      · exact ih skipped
      · cases parsed : Mime.parseLine (b :: rest) with
        | error halt =>
            intro overrun
            obtain rfl : halt = .overrun := Except.error.inj overrun
            exact parseLine_ne_overrun skipped parsed
        | ok line => exact ih (terminated_parseLine skipped parsed)

/-- A call that returns has gone forward, and not behind the terminating zero. -/
theorem parseLine_forward (terminated : Terminated (s.cells.drop s.p))
    (returns : parseLine s = .ok t) :
    s.p < t.p ∧ t.p < s.cells.length ∧ t.cells.length = s.cells.length ∧
      Terminated (t.cells.drop t.p) := by
  cases parsed : Mime.parseLine (s.cells.drop s.p) with
  | error halt =>
      rw [parseLine_of_error parsed] at returns
      cases returns
  | ok line =>
      rcases parseLine_of_ok parsed with ⟨t', returns', _, length, kept, forward⟩
      obtain rfl := Except.ok.inj (returns.symm.trans returns')
      have ended := terminated_parseLine terminated parsed
      rw [← kept] at ended
      have inside : t.p < t.cells.length := by
        by_contra behind
        exact ended.ne_nil (List.drop_of_length_le (Nat.le_of_not_lt behind))
      exact ⟨forward, length ▸ inside, length, ended⟩

theorem calls_parseLines {rounds : Nat} (terminated : Terminated (s.cells.drop s.p)) :
    ∀ call ∈ (parseLines rounds s).calls, call.1 < call.2 ∧ call.2 < s.cells.length := by
  induction rounds generalizing s with
  | zero => simp [parseLines]
  | succ rounds ih =>
      have skipped : Terminated (s.cells.drop (skipWhile spaceOrNewline s.cells s.p)) := by
        rw [drop_skipWhile]
        exact terminated.dropWhile rfl
      simp only [parseLines]
      generalize skipWhile spaceOrNewline s.cells s.p = p at skipped
      cases s.cells[s.p]? with
      | none => simp
      | some c =>
          simp only
          split_ifs
          · simp
          cases s.cells[p]? with
          | none => simp
          | some b =>
              simp only
              split_ifs
              · simp
              · exact @ih { s with p := p } skipped
              · cases returns : parseLine { s with p := p } with
                | error halt => simp
                | ok next =>
                    rcases @parseLine_forward { s with p := p } next skipped returns with
                      ⟨forward, inside, length, ended⟩
                    intro call member
                    rcases List.mem_cons.mp member with rfl | later
                    · exact ⟨forward, inside⟩
                    · rw [show s.cells.length = next.cells.length from length.symm]
                      exact ih ended call later

theorem terminated_file (file : Bytes) : Terminated (file ++ [0]) :=
  List.suffix_append _ _

/-- With positions the parser reads the same from a file. -/
theorem result_parseMimeTypes (file : Bytes) :
    (parseMimeTypes file).result = Mime.parseMimeTypes file := by
  rw [parseMimeTypes, Mime.parseMimeTypes, strchrAt, List.drop_zero]
  cases found : strchr 123 (file ++ [0]) with
  | overrun => rfl
  | missing => rfl
  | found before after =>
      have view : (file ++ [0]).drop 0 = before ++ 123 :: after :=
        (strchr_eq_found_iff.mp found).1
      have length := length_of_drop view
      rw [List.length_append, List.length_singleton] at length
      have finishes := @parseLines_finishes (after.length + 1) after [] (Nat.lt_succ_self _)
      simp only [result_parseLines, drop_behind view]
      exact parseLines_mono finishes (by omega)

theorem parseMimeTypes_ne_overrun (file : Bytes) :
    Mime.parseMimeTypes file ≠ .error .overrun := by
  have terminated := terminated_file file
  rw [Mime.parseMimeTypes]
  cases found : strchr 123 (file ++ [0]) with
  | overrun => exact absurd found (terminated.strchr_ne_overrun 123)
  | missing => simp
  | found before after =>
      rw [(strchr_eq_found_iff.mp found).1] at terminated
      exact parseLines_ne_overrun (terminated.behind (by decide))

theorem parseMimeTypes_finishes (file : Bytes) :
    Mime.parseMimeTypes file ≠ .error .unfinished := by
  rw [Mime.parseMimeTypes]
  split
  · simp
  · simp
  · exact parseLines_finishes (Nat.lt_succ_self _)

/-- The loop ends at a closing brace or at one of the exits, and so without an access behind
the buffer, and every call of `parseLine` that returns gives a position behind its argument
and not behind the terminating zero. -/
theorem parseMimeTypes_ends (file : Bytes) :
    ((∃ list, (parseMimeTypes file).result = .ok list) ∨
        ∃ message, (parseMimeTypes file).result = .error (.exit message)) ∧
      ∀ call ∈ (parseMimeTypes file).calls, call.1 < call.2 ∧ call.2 ≤ file.length := by
  constructor
  · rw [result_parseMimeTypes]
    cases ends : Mime.parseMimeTypes file with
    | ok list => exact .inl ⟨list, rfl⟩
    | error halt =>
        cases halt with
        | exit message => exact .inr ⟨message, rfl⟩
        | overrun => exact absurd ends (parseMimeTypes_ne_overrun file)
        | unfinished => exact absurd ends (parseMimeTypes_finishes file)
  · intro call member
    rw [parseMimeTypes, strchrAt, List.drop_zero] at member
    cases found : strchr 123 (file ++ [0]) with
    | overrun => simp [found] at member
    | missing => simp [found] at member
    | found before after =>
        have view : (file ++ [0]).drop 0 = before ++ 123 :: after :=
          (strchr_eq_found_iff.mp found).1
        have rest : Terminated ((file ++ [0]).drop (0 + before.length + 1)) := by
          have terminated : Terminated ((file ++ [0]).drop 0) := terminated_file file
          rw [view] at terminated
          rw [drop_behind view]
          exact terminated.behind (by decide)
        rw [found] at member
        have bounds := calls_parseLines rest call member
        simp only [List.length_append, List.length_singleton] at bounds
        exact ⟨bounds.1, Nat.le_of_lt_succ bounds.2⟩

end OgWebserver.Mime.InPlace

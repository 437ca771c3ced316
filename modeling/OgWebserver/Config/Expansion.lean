import OgWebserver.Config.Tokens

/-!
# Include expansion and the scanner

Does the expanded file give the scanner the tokens that its include directives stand for?
It is what the pieces have in copy, if each line that starts with `include` is a directive.
So it does for files whose pieces are apart, and for no others.
-/

namespace OgWebserver.Config

open Text

variable {fopen : Bytes → Option Bytes} {configDir : Bytes}
variable {line file rest behind : Bytes} {piece : Piece} {ps : List Piece}

/-! ## Directives -/

theorem skipBlanks_append {blanks text : Bytes} (blank : ∀ b ∈ blanks, isBlank b = true)
    (stop : ∀ b, text.head? = some b → isBlank b = false) : skipBlanks (blanks ++ text) = text := by
  rw [skipBlanks, List.dropWhile_append_of_pos blank]
  rcases text with _ | ⟨b, text⟩
  · rfl
  · apply List.dropWhile_cons_of_neg
    rw [stop b rfl]
    decide

theorem drop_include (behind : Bytes) : (bytes "include" ++ behind).drop 7 = behind :=
  rfl

theorem not_isBlank_of_path {b : UInt8} (path : isPathByte b = true) : isBlank b = false := by
  rw [Bool.eq_false_iff]
  intro blank
  rw [isBlank, Bool.or_eq_true, beq_iff_eq, beq_iff_eq] at blank
  rcases blank with rfl | rfl <;> cases path

theorem ne_semicolon_of_path {b : UInt8} (path : isPathByte b = true) :
    decide (b ≠ 59) = true := by
  rw [decide_eq_true_iff]
  rintro rfl
  cases path

/-- The parts of a line with a directive. -/
theorem directive?_eq_some (found : directive? line = some (file, rest)) :
    ∃ blanks blanks', line = blanks ++ (bytes "include" ++ (blanks' ++ (file ++ 59 :: rest))) ∧
      (∀ b ∈ blanks, isBlank b = true) ∧ (∀ b ∈ blanks', isBlank b = true) ∧
      (∀ b ∈ file, isPathByte b = true) ∧ file ≠ [] := by
  rw [directive?] at found
  split at found
  case isFalse => cases found
  case isTrue shape =>
    rcases shape with ⟨starts, _, nonempty, semicolon⟩
    obtain ⟨rfl, rfl⟩ := Prod.mk.inj (Option.some.inj found)
    rcases List.isPrefixOf_iff_prefix.mp starts with ⟨behind, is⟩
    have cut : (skipBlanks line).drop 7 = behind := by
      rw [← is, drop_include]
    rw [cut] at semicolon nonempty ⊢
    rcases skipBlanks_split line with ⟨blanks, split, blank⟩
    rcases skipBlanks_split behind with ⟨blanks', split', blank'⟩
    refine ⟨blanks, blanks', ?_, blank, blank', fun b => List.mem_takeWhile_imp, nonempty⟩
    rw [List.cons_head?_tail semicolon, List.takeWhile_append_dropWhile, ← split', is, ← split]

theorem cString_of_textual (textual : 0 ∉ line) : cString line = line := by
  have own := cString_append textual []
  have none : cString [] = [] := rfl
  rwa [none, List.append_nil] at own

/-- The code includes the file of a directive. -/
theorem includedFile_of_directive (textual : 0 ∉ line)
    (found : directive? line = some (file, rest)) : includedFile line = some (some file) := by
  have whole := cString_of_textual textual
  rcases directive?_eq_some found with ⟨blanks, blanks', is, blank, blank', path, nonempty⟩
  rcases List.exists_cons_of_ne_nil nonempty with ⟨c, more, named⟩
  have start : skipBlanks line = bytes "include" ++ (blanks' ++ (file ++ 59 :: rest)) := by
    rw [is]
    apply skipBlanks_append blank
    intro b head
    rw [← Option.some.inj head]
    decide
  have next : skipBlanks ((skipBlanks line).drop 7) = file ++ 59 :: rest := by
    have cut : (skipBlanks line).drop 7 = blanks' ++ (file ++ 59 :: rest) := by
      rw [start, drop_include]
    rw [cut]
    apply skipBlanks_append blank'
    intro b head
    rw [named] at head
    rw [← Option.some.inj head]
    exact not_isBlank_of_path (path c (named ▸ List.mem_cons_self))
  have starts : (bytes "include").isPrefixOf (skipBlanks line) = true := by
    rw [start, List.isPrefixOf_iff_prefix]
    exact List.prefix_append _ _
  have semicolon : 59 ∈ file ++ 59 :: rest := by simp
  rw [includedFile, whole, if_pos starts, next, if_pos semicolon,
    List.takeWhile_append_of_pos fun b member => ne_semicolon_of_path (path b member),
    List.takeWhile_cons_of_neg (by decide), List.append_nil]

theorem lineRest_directive (shape : LineRest line behind)
    (found : directive? line = some (file, rest)) : LineRest rest behind := by
  rcases directive?_eq_some found with ⟨blanks, blanks', is, blank, blank', path, _⟩
  have front : line = (blanks ++ bytes "include" ++ blanks' ++ file ++ [59]) ++ rest := by
    simp [is]
  rw [front] at shape
  apply lineRest_drop shape
  intro newline
  simp only [List.mem_append, List.mem_singleton] at newline
  rcases newline with (((newline | newline) | newline) | newline) | newline
  · cases blank 10 newline
  · revert newline
    decide
  · cases blank' 10 newline
  · cases path 10 newline
  · cases newline

/-! ## Pieces of files -/

section Pieces

variable {included : Bytes → Option (List Piece)} {ls : List Bytes}

/-- The piece begun becomes the first. -/
theorem piecesOf_first (found : piecesOf included piece ls = some ps) :
    ∃ ls' more, ps = { piece with lines := piece.lines ++ ls' } :: more := by
  induction ls generalizing piece ps with
  | nil => exact ⟨[], [], by rw [← Option.some.inj found, List.append_nil]⟩
  | cons line ls ih =>
      rw [piecesOf] at found
      split at found
      · rcases ih found with ⟨ls', more, is⟩
        exact ⟨_, more, by rw [is, List.append_assoc]⟩
      · rcases Option.bind_eq_some_iff.mp found with ⟨inner, _, found⟩
        rcases Option.bind_eq_some_iff.mp found with ⟨later, _, is⟩
        exact ⟨[], _, by rw [← Option.some.inj is, List.append_nil]⟩

/-- The pieces of some lines are shaped, if those of included files are. -/
theorem shaped_piecesOf
    (inner : ∀ file ps, included file = some ps → ∀ piece ∈ ps, Shaped piece)
    (ends : EndLines (piece.rest :: (piece.lines.map Prod.fst ++ ls)))
    (marked : ∀ line ∈ piece.lines, line.2 = (includedFile line.1).isNone)
    (found : piecesOf included piece ls = some ps) : ∀ piece ∈ ps, Shaped piece := by
  induction ls generalizing piece ps with
  | nil =>
      rw [← Option.some.inj found, List.forall_mem_singleton]
      rw [List.append_nil] at ends
      exact ⟨ends, marked⟩
  | cons line ls ih =>
      rw [piecesOf] at found
      split at found
      · refine ih ?_ ?_ found
        · simpa using ends
        · intro line' member
          rcases List.mem_append.mp member with before | here
          · exact marked line' before
          · rw [List.mem_singleton.mp here]
      case h_2 file rest directive =>
        rcases Option.bind_eq_some_iff.mp found with ⟨inside, isInside, found⟩
        rcases Option.bind_eq_some_iff.mp found with ⟨later, isLater, is⟩
        rw [← List.cons_append] at ends
        have behind := endLines_right ends
        rw [← Option.some.inj is, List.forall_mem_cons, List.forall_mem_append]
        refine ⟨⟨endLines_left ends, marked⟩, inner file inside isInside, ih ?_ ?_ isLater⟩
        · exact ⟨lineRest_directive behind.1 directive, behind.2⟩
        · simp

/-- What the code writes is what is copied, if every line that starts with `include` is a
directive. -/
theorem expandLines_of_piecesOf {write : Bytes → Option Bytes}
    (inner : ∀ file ps, included file = some ps →
      (∀ piece ∈ ps, piece.lines.all Prod.snd = true) → write file = some (copied ps))
    (textual : ∀ line ∈ ls, 0 ∉ line) (found : piecesOf included piece ls = some ps)
    (all : ∀ piece ∈ ps, piece.lines.all Prod.snd = true) :
    ∃ text, expandLines write ls = some text ∧ copied ps = piece.kept ++ text := by
  induction ls generalizing piece ps with
  | nil =>
      refine ⟨[], rfl, ?_⟩
      rw [← Option.some.inj found]
      rfl
  | cons line ls ih =>
      have zeroFree := textual line List.mem_cons_self
      have later := fun line' member => textual line' (List.mem_cons_of_mem line member)
      rw [piecesOf] at found
      split at found
      · rcases ih later found all with ⟨text, written, is⟩
        rcases piecesOf_first found with ⟨ls', more, first⟩
        have copy : (includedFile line).isNone = true := by
          have lines := all _ (first ▸ List.mem_cons_self)
          simp only [List.all_append, Bool.and_eq_true] at lines
          simpa using lines.1.2
        have whole := cString_of_textual zeroFree
        refine ⟨line ++ text, ?_, ?_⟩
        · rw [expandLines, Option.isNone_iff_eq_none.mp copy]
          simp [whole, written]
        · rw [is]
          simp [Piece.kept, copy]
      case h_2 file rest directive =>
        rcases Option.bind_eq_some_iff.mp found with ⟨inside, isInside, found⟩
        rcases Option.bind_eq_some_iff.mp found with ⟨others, isLater, is⟩
        obtain rfl := Option.some.inj is
        rw [List.forall_mem_cons, List.forall_mem_append] at all
        have text := inner file inside isInside all.2.1
        rcases ih later isLater all.2.2 with ⟨more, written, is⟩
        refine ⟨copied inside ++ more, ?_, ?_⟩
        · rw [expandLines, includedFile_of_directive zeroFree directive]
          simp [text, written]
        · have parts : copied (piece :: (inside ++ others)) =
              piece.kept ++ (copied inside ++ copied others) := by
            simp [copied]
          rw [parts, is]
          rfl

/-- A piece list exists if all included files have one. -/
theorem piecesOf_isSome
    (inner : ∀ line ∈ ls, ∀ file rest, directive? line = some (file, rest) →
      (included file).isSome = true) :
    (piecesOf included piece ls).isSome = true := by
  induction ls generalizing piece with
  | nil => rfl
  | cons line ls ih =>
      have later := fun line' member => inner line' (List.mem_cons_of_mem line member)
      rw [piecesOf]
      split
      · exact ih later
      case h_2 file rest directive =>
        have inside := inner line List.mem_cons_self file rest directive
        rcases Option.isSome_iff_exists.mp inside with ⟨ps, isInside⟩
        rcases Option.isSome_iff_exists.mp (@ih { rest := rest, lines := [] } later) with
          ⟨others, isLater⟩
        rw [isInside, Option.bind_eq_bind, Option.bind_some, isLater]
        rfl

end Pieces

theorem shaped_pieces {depth : Nat} {contents : Bytes}
    (found : pieces fopen configDir depth contents = some ps) : ∀ piece ∈ ps, Shaped piece := by
  induction depth generalizing contents ps with
  | zero => cases found
  | succ depth ih =>
      refine shaped_piecesOf ?_ ?_ ?_ found
      · intro file ps inside
        rcases Option.bind_eq_some_iff.mp inside with ⟨inner, _, is⟩
        exact ih is
      · exact ⟨.inr (.inr rfl), endLines_lines contents⟩
      · simp

theorem mem_of_mem_lines {text : Bytes} {b : UInt8} (inside : line ∈ lines text)
    (member : b ∈ line) : b ∈ text := by
  induction text generalizing line with
  | nil => cases inside
  | cons c text ih =>
      rw [lines] at inside
      split at inside
      case isTrue newline =>
        rcases List.mem_cons.mp inside with rfl | later
        · rw [List.mem_singleton.mp member, newline]
          exact List.mem_cons_self
        · exact List.mem_cons_of_mem c (ih later member)
      case isFalse =>
        cases found : lines text with
        | nil =>
            rw [found] at inside
            obtain rfl := List.mem_singleton.mp inside
            rw [List.mem_singleton.mp member]
            exact List.mem_cons_self
        | cons first more =>
            rw [found] at inside
            rcases List.mem_cons.mp inside with rfl | later
            · rcases List.mem_cons.mp member with rfl | member
              · exact List.mem_cons_self
              · exact List.mem_cons_of_mem c (ih (found ▸ List.mem_cons_self) member)
            · exact List.mem_cons_of_mem c
                (ih (found ▸ List.mem_cons_of_mem first later) member)

theorem expandFile_of_pieces (textual : ∀ path contents, fopen path = some contents → 0 ∉ contents)
    {depth : Nat} {contents : Bytes} (zeroFree : 0 ∉ contents)
    (found : pieces fopen configDir depth contents = some ps)
    (all : ∀ piece ∈ ps, piece.lines.all Prod.snd = true) :
    expandFile fopen configDir depth contents = some (copied ps) := by
  induction depth generalizing contents ps with
  | zero => cases found
  | succ depth ih =>
      have lineFree : ∀ line ∈ lines contents, 0 ∉ line :=
        fun line inside member => zeroFree (mem_of_mem_lines inside member)
      have whole : ∀ write : Bytes → Option Bytes,
          (∀ file ps, (fopen (includedPath configDir file)).bind (pieces fopen configDir depth) =
            some ps → (∀ piece ∈ ps, piece.lines.all Prod.snd = true) →
              write file = some (copied ps)) →
          expandLines write (lines contents) = some (copied ps) := by
        intro write inner
        rcases expandLines_of_piecesOf inner lineFree found all with ⟨text, written, is⟩
        rw [written, is]
        rfl
      apply whole
      intro file ps inside copy
      rcases Option.bind_eq_some_iff.mp inside with ⟨inner, opened, is⟩
      simp only [opened]
      exact ih (textual _ _ opened) is copy

theorem all_of_apart (apart : Apart ps) : ∀ piece ∈ ps, piece.lines.all Prod.snd = true := by
  induction ps with
  | nil => simp
  | cons piece more ih =>
      rw [List.forall_mem_cons]
      exact ⟨apart.2.1, ih apart.2.2.2⟩

/-! ## Configuration files -/

/-- Text files, in which every directive names a file that can be read, and no file
includes itself through others. -/
structure ConfigFiles where
  fopen : Bytes → Option Bytes
  configDir : Bytes
  /-- How deep the files are that a file includes. -/
  rank : Bytes → Nat
  textual : ∀ path contents, fopen path = some contents → 0 ∉ contents
  readable : ∀ path contents line file rest, fopen path = some contents → line ∈ lines contents →
    directive? line = some (file, rest) → (fopen (includedPath configDir file)).isSome = true
  acyclic : ∀ path contents line file rest, fopen path = some contents → line ∈ lines contents →
    directive? line = some (file, rest) → rank (includedPath configDir file) < rank path

variable {files : ConfigFiles} {path contents : Bytes}

theorem pieces_isSome {depth : Nat} (opened : files.fopen path = some contents)
    (deep : files.rank path < depth) :
    (pieces files.fopen files.configDir depth contents).isSome = true := by
  induction depth generalizing path contents with
  | zero => cases deep
  | succ depth ih =>
      apply piecesOf_isSome
      intro line inside file rest directive
      have readable := files.readable path contents line file rest opened inside directive
      have less := files.acyclic path contents line file rest opened inside directive
      rcases Option.isSome_iff_exists.mp readable with ⟨inner, openedInner⟩
      rw [openedInner]
      exact ih openedInner (by omega)

/-- The scanner finds the tokens that the include directives stand for if and only if the
pieces are apart. -/
theorem sameTokens_iff {depth : Nat} (opened : files.fopen path = some contents)
    (deep : files.rank path < depth) :
    ∃ ps, pieces files.fopen files.configDir depth contents = some ps ∧
      (SameTokens files.fopen files.configDir depth contents ↔ Apart ps) := by
  rcases Option.isSome_iff_exists.mp (pieces_isSome opened deep) with ⟨ps, found⟩
  refine ⟨ps, found, ?_⟩
  have shaped := shaped_pieces found
  constructor
  · rintro ⟨text, ps', written, found', same⟩
    obtain rfl := Option.some.inj (found'.symm.trans found)
    have all : ∀ piece ∈ ps', piece.lines.all Prod.snd = true := by
      intro piece member
      by_contra uncopied
      rw [Bool.not_eq_true] at uncopied
      rcases mem_tokensOf_of_piece member (token_of_uncopied (shaped piece member) uncopied) 0 with
        ⟨t, inside, none⟩
      rw [← same] at inside
      rcases Scanner.place_of_mem_scan inside with ⟨q, is, _⟩
      rw [none] at is
      cases is
    have copy := expandFile_of_pieces files.textual (files.textual path contents opened) found all
    obtain rfl := Option.some.inj (written.symm.trans copy)
    exact (scan_copied_iff shaped all 0).mp same
  · intro apart
    have all := all_of_apart apart
    have copy := expandFile_of_pieces files.textual (files.textual path contents opened) found all
    exact ⟨copied ps, ps, copy, found, (scan_copied_iff shaped all 0).mpr apart⟩

/-! ## A file and its part -/

/-- A file `/c/main` and a file `/c/part`. -/
def openPair (main part path : Bytes) : Option Bytes :=
  if path = bytes "/c/main" then some main
  else if path = bytes "/c/part" then some part
  else none

/-- The main file may include the part, and the part includes nothing. -/
def pairFiles (main part : Bytes) (zeroFree : 0 ∉ main ∧ 0 ∉ part)
    (named : (lines main).all fun line => (directive? line).all fun d => d.1 == bytes "part")
    (flat : (lines part).all fun line => (directive? line).isNone) : ConfigFiles where
  fopen := openPair main part
  configDir := bytes "/c/"
  rank path := if path = bytes "/c/main" then 1 else 0
  textual path contents opened := by
    rw [openPair] at opened
    split at opened
    · exact Option.some.inj opened ▸ zeroFree.1
    · split at opened
      · exact Option.some.inj opened ▸ zeroFree.2
      · cases opened
  readable path contents line file rest opened inside directive := by
    rw [openPair] at opened
    split at opened
    · have part := List.all_eq_true.mp named line (Option.some.inj opened ▸ inside)
      rw [directive] at part
      obtain rfl := beq_iff_eq.mp part
      rfl
    · split at opened
      · have none := List.all_eq_true.mp flat line (Option.some.inj opened ▸ inside)
        rw [directive] at none
        cases none
      · cases opened
  acyclic path contents line file rest opened inside directive := by
    rw [openPair] at opened
    split at opened
    case isTrue isMain =>
      have part := List.all_eq_true.mp named line (Option.some.inj opened ▸ inside)
      rw [directive] at part
      obtain rfl := beq_iff_eq.mp part
      rw [if_pos isMain]
      decide
    · split at opened
      · have none := List.all_eq_true.mp flat line (Option.some.inj opened ▸ inside)
        rw [directive] at none
        cases none
      · cases opened

/-- A part that ends with a semicolon needs no newline. -/
theorem sameTokens_iff_ended :
    SameTokens (openPair (bytes "include part;\non;\n") (bytes "off;")) (bytes "/c/") 2
      (bytes "include part;\non;\n") := by
  rcases @sameTokens_iff (pairFiles (bytes "include part;\non;\n") (bytes "off;") (by decide)
    (by decide) (by decide)) (bytes "/c/main") _ 2 rfl (by decide) with ⟨ps, found, same⟩
  apply same.mpr
  have is : pieces (openPair (bytes "include part;\non;\n") (bytes "off;")) (bytes "/c/") 2
      (bytes "include part;\non;\n") = some [⟨[], []⟩, ⟨[], [(bytes "off;", true)]⟩,
        ⟨[10], [(bytes "on;\n", true)]⟩] := by decide
  obtain rfl := Option.some.inj (found.symm.trans is)
  have off : lexer.Separate (bytes "off;") (bytes "on;\n") :=
    @Scanner.Separate.step _ lexer _ _ .off 3 (by decide) (by decide)
      (@Scanner.Separate.step _ lexer _ _ .eol 1 (by decide) (by decide) .nil)
  exact ⟨rfl, rfl, .nil, rfl, rfl, off, rfl, rfl, Scanner.separate_nil _, trivial⟩

/-- A part that ends within a line gives its last token to the next line. -/
theorem unended_not_sameTokens :
    ¬ SameTokens (openPair (bytes "include part;\noff;\n") (bytes "on")) (bytes "/c/") 2
        (bytes "include part;\noff;\n") ∧
      (expandFile (openPair (bytes "include part;\noff;\n") (bytes "on")) (bytes "/c/") 2
        (bytes "include part;\noff;\n")).map (fun text => (lexer.scan 0 text).map Token.text) =
          some [bytes "onoff", bytes ";"] ∧
      (pieces (openPair (bytes "include part;\noff;\n") (bytes "on")) (bytes "/c/") 2
        (bytes "include part;\noff;\n")).map (fun ps => (tokensOf 0 ps).map Token.text) =
          some [bytes "on", bytes "off", bytes ";"] := by
  have joined : (expandFile (openPair (bytes "include part;\noff;\n") (bytes "on")) (bytes "/c/") 2
      (bytes "include part;\noff;\n")).map (fun text => (lexer.scan 0 text).map Token.text) =
        some [bytes "onoff", bytes ";"] := by decide +kernel
  have parts : (pieces (openPair (bytes "include part;\noff;\n") (bytes "on")) (bytes "/c/") 2
      (bytes "include part;\noff;\n")).map (fun ps => (tokensOf 0 ps).map Token.text) =
        some [bytes "on", bytes "off", bytes ";"] := by decide +kernel
  refine ⟨?_, joined, parts⟩
  rintro ⟨text, ps, written, found, same⟩
  rw [written, Option.map_some, same] at joined
  rw [found, Option.map_some, joined] at parts
  revert parts
  decide

end OgWebserver.Config

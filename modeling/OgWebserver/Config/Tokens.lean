import OgWebserver.Config.Include

/-!
# Tokens of expanded files

When does the scanner find in an expanded file the tokens that its include directives
stand for?  The copy is taken apart into pieces, and the scans of the pieces are joined
one after the other.
-/

namespace OgWebserver.Config

open Text

variable {line rest behind : Bytes}

/-! ## Ends of lines -/

/-- A line, or the rest of one, or nothing: it ends with a newline, if there is something
behind it. -/
def LineRest (rest behind : Bytes) : Prop :=
  (∃ line, rest = line ++ [10] ∧ 10 ∉ line) ∨ 10 ∉ rest ∧ behind = [] ∨ rest = []

def EndLines : List Bytes → Prop
  | [] => True
  | line :: more => LineRest line more.flatten ∧ EndLines more

/-- A new line begins behind the text. -/
def Closed (front : Bytes) : Prop :=
  front = [] ∨ ∃ text, front = text ++ [10]

theorem isWhite_of_blank {b : UInt8} (blank : isBlank b = true) : isWhite b = true := by
  rw [isBlank] at blank
  rw [isWhite, blank, Bool.true_or]

theorem lineRest_tail {b : UInt8} (shape : LineRest (b :: rest) behind) (notNewline : b ≠ 10) :
    LineRest rest behind := by
  rcases shape with ⟨line, split, absent⟩ | ⟨absent, none⟩ | none
  · rcases line with _ | ⟨c, line⟩
    · exact absurd (List.cons.inj split).1 notNewline
    · rw [List.mem_cons, not_or] at absent
      exact .inl ⟨line, (List.cons.inj split).2, absent.2⟩
  · rw [List.mem_cons, not_or] at absent
    exact .inr (.inl ⟨absent.2, none⟩)
  · cases none

theorem lineRest_newline (shape : LineRest (10 :: rest) behind) : rest = [] := by
  rcases shape with ⟨line, split, absent⟩ | ⟨absent, _⟩ | none
  · rcases line with _ | ⟨c, line⟩
    · exact (List.cons.inj split).2
    · rw [← (List.cons.inj split).1] at absent
      simp at absent
  · simp at absent
  · cases none

theorem lineRest_drop {front : Bytes} (shape : LineRest (front ++ rest) behind)
    (absent : 10 ∉ front) : LineRest rest behind := by
  induction front with
  | nil => exact shape
  | cons b front ih =>
      rw [List.mem_cons, not_or] at absent
      exact ih (lineRest_tail shape (Ne.symm absent.1)) absent.2

theorem nil_notMem_lines (text : Bytes) : [] ∉ lines text := by
  induction text with
  | nil => simp [lines]
  | cons b rest ih =>
      rw [lines]
      split
      · simp [ih]
      · cases more : lines rest with
        | nil => simp
        | cons line more' =>
            rw [more] at ih
            rw [List.mem_cons, not_or] at ih
            simpa using ih.2

/-- Only the last line can be without a newline. -/
theorem endLines_lines (text : Bytes) : EndLines (lines text) := by
  induction text with
  | nil => trivial
  | cons b rest ih =>
      have nonempty := nil_notMem_lines rest
      rw [lines]
      split
      case isTrue newline => exact ⟨.inl ⟨[], rfl, by simp⟩, ih⟩
      case isFalse notNewline =>
        have other : 10 ∉ [b] := by simpa using Ne.symm notNewline
        cases found : lines rest with
        | nil => exact ⟨.inr (.inl ⟨other, rfl⟩), trivial⟩
        | cons line more =>
            rw [found] at ih nonempty
            refine ⟨?_, ih.2⟩
            rcases ih.1 with ⟨text, rfl, absent⟩ | ⟨absent, last⟩ | rfl
            · refine .inl ⟨b :: text, rfl, ?_⟩
              rw [List.mem_cons, not_or]
              exact ⟨Ne.symm notNewline, absent⟩
            · refine .inr (.inl ⟨?_, last⟩)
              rw [List.mem_cons, not_or]
              exact ⟨Ne.symm notNewline, absent⟩
            · simp at nonempty

theorem endLines_left {front more : List Bytes} (ends : EndLines (front ++ more)) :
    EndLines front := by
  induction front with
  | nil => trivial
  | cons line front ih =>
      refine ⟨?_, ih ends.2⟩
      rcases ends.1 with closed | ⟨absent, last⟩ | none
      · exact .inl closed
      · have parts := List.append_eq_nil_iff.mp (List.flatten_append.symm.trans last)
        exact .inr (.inl ⟨absent, parts.1⟩)
      · exact .inr (.inr none)

theorem endLines_right {front more : List Bytes} (ends : EndLines (front ++ more)) :
    EndLines more := by
  induction front with
  | nil => exact ends
  | cons line front ih => exact ih ends.2

theorem closed_flatten {front more : List Bytes} (ends : EndLines (front ++ more))
    (something : more.flatten ≠ []) : Closed front.flatten := by
  induction front with
  | nil => exact .inl rfl
  | cons line front ih =>
      rw [List.flatten_cons]
      rcases ih ends.2 with none | ⟨text, is⟩
      · rw [none, List.append_nil]
        rcases ends.1 with ⟨text, is, _⟩ | ⟨_, last⟩ | is
        · exact .inr ⟨text, is⟩
        · have parts := List.append_eq_nil_iff.mp (List.flatten_append.symm.trans last)
          exact absurd parts.2 something
        · exact .inl is
      · exact .inr ⟨line ++ text, by rw [is, List.append_assoc]⟩

/-! ## The rest of an include line -/

theorem skipBlanks_split (p : Bytes) :
    ∃ blanks, p = blanks ++ skipBlanks p ∧ ∀ b ∈ blanks, isBlank b = true :=
  ⟨p.takeWhile isBlank, List.takeWhile_append_dropWhile.symm, fun _ => List.mem_takeWhile_imp⟩

theorem skipBlanks_cons_of_blank {b : UInt8} (blank : isBlank b = true) (rest : Bytes) :
    skipBlanks (b :: rest) = skipBlanks rest :=
  List.dropWhile_cons_of_pos blank

theorem skipBlanks_cons_of_not {b : UInt8} (token : ¬ isBlank b = true) (rest : Bytes) :
    skipBlanks (b :: rest) = b :: rest :=
  List.dropWhile_cons_of_neg token

theorem scan_white {b : UInt8} (white : isWhite b = true) (place : Nat) (text : Bytes) :
    lexer.scan place (b :: text) = lexer.scan (place + 1) text :=
  Scanner.scan_of_munch (munch_white white text)

theorem scan_comment {line : Bytes} (absent : 10 ∉ line) (place : Nat) (text : Bytes) :
    lexer.scan place (35 :: (line ++ 10 :: text)) =
      lexer.scan (place + (line.length + 2)) text := by
  rw [Scanner.scan_of_munch (munch_comment absent text)]
  have rest : (35 :: (line ++ 10 :: text)).drop (line.length + 2) = text := by
    simp [List.drop_append]
  rw [rest]
  rfl

theorem scan_token {b : UInt8} {text : Bytes} (token : isWhite b = false)
    (noComment : b = 35 → 10 ∉ text) (place : Nat) :
    ∃ t ∈ lexer.scan place (b :: text), t.place = some place := by
  rcases @Scanner.munch_of_ne_nil _ lexer _ (List.cons_ne_nil b text) with ⟨kind, n, found⟩
  have handed : lexer.skips kind = false := munch_token found token noComment
  rw [Scanner.scan_of_munch found, handed]
  exact ⟨_, List.mem_append_left _ List.mem_cons_self, rfl⟩

/-- A rest without tokens changes only places. -/
theorem scan_of_idle {kept : Bytes} (shape : LineRest rest kept)
    (idle : idleRest rest = true) (place : Nat) :
    lexer.scan place (rest ++ kept) = lexer.scan (place + rest.length) kept := by
  induction rest generalizing place with
  | nil => rfl
  | cons b rest ih =>
      by_cases blank : isBlank b = true
      · rw [idleRest, skipBlanks_cons_of_blank blank] at idle
        have notNewline : b ≠ 10 := by
          rintro rfl
          cases blank
        rw [List.cons_append, scan_white (isWhite_of_blank blank),
          ih (lineRest_tail shape notNewline) idle, List.length_cons]
        congr 1
        omega
      · rw [idleRest, skipBlanks_cons_of_not blank] at idle
        simp only [Bool.or_eq_true, Bool.and_eq_true, beq_iff_eq] at idle
        rcases idle with rfl | ⟨rfl, newline⟩
        · obtain rfl := lineRest_newline shape
          exact scan_white rfl place kept
        · have member : 10 ∈ rest := List.contains_iff_mem.mp newline
          rcases lineRest_tail shape (by decide) with ⟨line, rfl, absent⟩ | ⟨absent, _⟩ | rfl
          · rw [List.cons_append, List.append_assoc, List.singleton_append, scan_comment absent]
            simp
          · exact absurd member absent
          · cases member

/-- A rest with a token gives a token that has its place there. -/
theorem token_of_not_idle {kept : Bytes} (shape : LineRest rest kept)
    (token : idleRest rest = false) (place : Nat) :
    ∃ t ∈ lexer.scan place (rest ++ kept), ∃ q, t.place = some q ∧ q < place + rest.length := by
  induction rest generalizing place with
  | nil => cases token
  | cons b rest ih =>
      by_cases blank : isBlank b = true
      · rw [idleRest, skipBlanks_cons_of_blank blank] at token
        have notNewline : b ≠ 10 := by
          rintro rfl
          cases blank
        rw [List.cons_append, scan_white (isWhite_of_blank blank)]
        rcases ih (lineRest_tail shape notNewline) token (place + 1) with ⟨t, member, q, is, less⟩
        refine ⟨t, member, q, is, ?_⟩
        rw [List.length_cons]
        omega
      · rw [idleRest, skipBlanks_cons_of_not blank] at token
        simp only [Bool.or_eq_false_iff, Bool.and_eq_false_imp, beq_iff_eq,
          beq_eq_false_iff_ne] at token
        have notWhite : isWhite b = false := by
          simpa [isWhite, isBlank, token.1] using blank
        have noComment : b = 35 → 10 ∉ rest ++ kept := by
          intro hash
          have absent : 10 ∉ rest := by
            simpa using token.2 hash
          rcases shape with ⟨_ | ⟨c, line⟩, split, _⟩ | ⟨_, rfl⟩ | none
          · exact absurd (List.cons.inj split).1 token.1
          · rw [(List.cons.inj split).2] at absent
            simp at absent
          · simpa using absent
          · cases none
        rcases scan_token notWhite noComment place with ⟨t, member, is⟩
        refine ⟨t, member, place, is, ?_⟩
        rw [List.length_cons]
        omega

/-! ## Lines that are not copied -/

theorem closed_drop {front : Bytes} (closed : Closed front) {n : Nat} (le : n ≤ front.length) :
    Closed (front.drop n) := by
  rcases closed with rfl | ⟨text, rfl⟩
  · exact .inl List.drop_nil
  · rw [List.length_append, List.length_singleton] at le
    rcases Nat.le_or_eq_of_le_succ le with inside | rfl
    · exact .inr ⟨text.drop n, List.drop_append_of_le_length inside⟩
    · refine .inl (List.drop_eq_nil_of_le ?_)
      rw [List.length_append, List.length_singleton]

/-- A comment does not go on behind a newline. -/
theorem not_comment_over {front line text : Bytes} (closed : Closed front)
    (begins : 35 :: (line ++ [10]) <+: front ++ text) (absent : 10 ∉ line)
    (longer : front.length < (35 :: (line ++ [10])).length) : front = [] := by
  rcases closed with none | ⟨inner, rfl⟩
  · exact none
  · have within := List.prefix_of_prefix_length_le (List.prefix_append _ _) begins
      (Nat.le_of_lt longer)
    rw [← List.cons_append, List.prefix_concat_iff] at within
    rcases within with same | within
    · rw [same, List.cons_append] at longer
      exact absurd longer (Nat.lt_irrefl _)
    · have member : 10 ∈ 35 :: line := within.subset (by simp)
      simp [absent] at member

/-- Some token lies over a byte of a line that starts with `include`, or of the blanks in
front of it. -/
theorem token_of_include {front blanks more : Bytes} (closed : Closed front)
    (blank : ∀ b ∈ blanks, isBlank b = true) (place : Nat) :
    ∃ t ∈ lexer.scan place (front ++ (blanks ++ 105 :: more)), ∃ q i, t.place = some (place + q) ∧
      q ≤ i ∧ i < q + t.text.length ∧ front.length ≤ i ∧ i ≤ front.length + blanks.length := by
  induction size : front.length + blanks.length using Nat.strong_induction_on
    generalizing place front blanks with
  | _ size ih =>
      have nonempty : front ++ (blanks ++ 105 :: more) ≠ [] := by simp
      rcases @Scanner.munch_of_ne_nil _ lexer _ nonempty with ⟨kind, n, found⟩
      have bounds := (Scanner.munch_eq_some found).2
      rw [Scanner.scan_of_munch found]
      rcases Nat.lt_or_ge front.length n with beyond | within
      · cases skip : lexer.skips kind with
        | false =>
            refine ⟨⟨kind, _, some place⟩, List.mem_append_left _ List.mem_cons_self, 0,
              front.length, rfl, Nat.zero_le _, ?_, Nat.le_refl _, by omega⟩
            rw [List.length_take_of_le bounds.2, Nat.zero_add]
            exact beyond
        | true =>
            rcases (Scanner.munch_eq_some found).1 with ⟨matched, begins, accepted⟩
            rcases skipped_cases accepted skip with
              ⟨rfl, ⟨_, line, rfl, absent⟩ | ⟨_, b, white, rfl⟩⟩
            · obtain rfl := not_comment_over closed begins absent beyond
              rcases begins with ⟨rest, split⟩
              rcases blanks with _ | ⟨c, blanks⟩
              · exact absurd (List.cons.inj split).1 (by decide)
              · have hash := blank c List.mem_cons_self
                rw [← (List.cons.inj split).1] at hash
                cases hash
            · obtain rfl : front = [] := List.length_eq_zero_iff.mp (Nat.lt_one_iff.mp beyond)
              rcases begins with ⟨rest, split⟩
              rcases blanks with _ | ⟨c, blanks⟩
              · rw [(List.cons.inj split).1] at white
                cases white
              · have inner := @ih blanks.length (by simp [← size]) [] blanks (.inl rfl)
                  (fun d member => blank d (List.mem_cons_of_mem c member)) (place + 1) (by simp)
                rcases inner with ⟨t, member, q, i, is, le, less, _, last⟩
                refine ⟨t, List.mem_append_right _ member, q + 1, i + 1, ?_, ?_, ?_, ?_, ?_⟩
                · rw [is]
                  congr 1
                  omega
                all_goals simp only [List.length_nil, List.length_cons] at *; omega
      · have inner := @ih ((front.drop n).length + blanks.length)
          (by rw [List.length_drop]; omega) (front.drop n) blanks (closed_drop closed within) blank
          (place + n) rfl
        rcases inner with ⟨t, member, q, i, is, le, less, begun, last⟩
        rw [← List.drop_append_of_le_length within] at member
        rw [List.length_drop] at begun last
        refine ⟨t, List.mem_append_right _ member, q + n, i + n, ?_, ?_, ?_, ?_, ?_⟩
        · rw [is]
          congr 1
          omega
        all_goals omega

/-! ## Pieces -/

/-- The lines of a piece end as those of a file do, and those that are not copied are those
that start with `include`. -/
structure Shaped (piece : Piece) : Prop where
  ends : EndLines (piece.rest :: piece.lines.map Prod.fst)
  marked : ∀ line ∈ piece.lines, line.2 = (includedFile line.1).isNone

variable {piece : Piece} {ps : List Piece}

theorem placeOf_eq_none {start n i : Nat} (uncopied : piece.marks[i]? = some false)
    (le : start ≤ i) (less : i < start + n) : piece.placeOf start n = none := by
  have member : false ∈ (piece.marks.drop start).take n := by
    rw [List.mem_iff_getElem?]
    refine ⟨i - start, ?_⟩
    rw [List.getElem?_take_of_lt (by omega), List.getElem?_drop, Nat.add_sub_cancel' le, uncopied]
  rw [Piece.placeOf, if_neg]
  intro all
  cases List.all_eq_true.mp all false member

theorem marks_rest {i : Nat} (less : i < piece.rest.length) : piece.marks[i]? = some false := by
  rw [Piece.marks, List.getElem?_append_left (by rwa [List.length_replicate]),
    List.getElem?_replicate, if_pos less]

theorem marks_line {front after : List (Bytes × Bool)} {i : Nat}
    (split : piece.lines = front ++ (line, false) :: after)
    (le : (piece.rest :: front.map Prod.fst).flatten.length ≤ i)
    (less : i < (piece.rest :: front.map Prod.fst).flatten.length + line.length) :
    piece.marks[i]? = some false := by
  have length : (List.replicate piece.rest.length false ++
      front.flatMap fun line => List.replicate line.1.length line.2).length =
      (piece.rest :: front.map Prod.fst).flatten.length := by
    simp [List.length_flatMap, List.length_flatten, Function.comp_def]
  rw [Piece.marks, split, List.flatMap_append, List.flatMap_cons, ← List.append_assoc,
    List.getElem?_append_right (by omega), List.getElem?_append_left, List.getElem?_replicate,
    if_pos (by show _ < line.length; omega)]
  simp only [List.length_replicate]
  omega

/-- A line that is not copied starts with `include`. -/
theorem include_of_includedFile (included : (includedFile line).isNone = false) :
    ∃ blanks more, line = blanks ++ 105 :: more ∧ ∀ b ∈ blanks, isBlank b = true := by
  have starts : (bytes "include").isPrefixOf (skipBlanks (cString line)) = true := by
    by_contra other
    rw [includedFile, if_neg other] at included
    cases included
  have begins : cString line <+: line := List.takeWhile_prefix _
  rcases begins with ⟨behind, cut⟩
  rcases List.isPrefixOf_iff_prefix.mp starts with ⟨more, is⟩
  rcases skipBlanks_split (cString line) with ⟨blanks, own, blank⟩
  refine ⟨blanks, bytes "nclude" ++ (more ++ behind), ?_, blank⟩
  calc line = blanks ++ (bytes "include" ++ more) ++ behind := by rw [is, ← own, cut]
    _ = blanks ++ (bytes "include" ++ (more ++ behind)) := by simp only [List.append_assoc]

/-- A piece with a line that is not copied has a token without a place. -/
theorem token_of_uncopied (shaped : Shaped piece) (uncopied : piece.lines.all Prod.snd = false) :
    ∃ t ∈ lexer.scan 0 piece.text, ∃ q, t.place = some q ∧
      piece.placeOf q t.text.length = none := by
  have some_ : ∃ line ∈ piece.lines, line.2 = false := by
    simpa using uncopied
  rcases some_ with ⟨⟨line, _⟩, member, rfl⟩
  have included := (shaped.marked _ member).symm
  rcases include_of_includedFile included with ⟨blanks, more, rfl, blank⟩
  rcases List.append_of_mem member with ⟨front, after, split⟩
  have ends := shaped.ends
  rw [split, List.map_append, ← List.cons_append] at ends
  have closed := closed_flatten ends (by simp)
  have text : piece.text = (piece.rest :: front.map Prod.fst).flatten ++
      (blanks ++ 105 :: (more ++ after.flatMap Prod.fst)) := by
    rw [Piece.text, split]
    simp [List.flatMap]
  rw [text]
  rcases token_of_include closed blank 0 with ⟨t, member, q, i, is, le, less, begun, last⟩
  rw [Nat.zero_add] at is
  refine ⟨t, member, q, is, placeOf_eq_none (marks_line split begun ?_) le less⟩
  rw [List.length_append, List.length_cons]
  omega

/-- So has a piece that begins with a rest that is not idle. -/
theorem token_of_rest (shaped : Shaped piece) (token : idleRest piece.rest = false) :
    ∃ t ∈ lexer.scan 0 piece.text, ∃ q, t.place = some q ∧
      piece.placeOf q t.text.length = none := by
  rcases token_of_not_idle shaped.ends.1 token 0 with ⟨t, member, q, is, less⟩
  rw [Nat.zero_add] at less
  have length := Scanner.text_of_mem_scan member
  have text : piece.text = piece.rest ++ (piece.lines.map Prod.fst).flatten := rfl
  rw [text]
  exact ⟨t, member, q, is, placeOf_eq_none (marks_rest less) (Nat.le_refl q) (by omega)⟩

/-! ## Pieces that are copied -/

theorem kept_of_all (all : piece.lines.all Prod.snd = true) :
    piece.kept = (piece.lines.map Prod.fst).flatten := by
  rw [Piece.kept, List.filter_eq_self.mpr (List.all_eq_true.mp all)]
  rfl

theorem placeOf_of_all (all : piece.lines.all Prod.snd = true) {start n : Nat}
    (le : piece.rest.length ≤ start) :
    piece.placeOf start n = some (start - piece.rest.length) := by
  have copied : ∀ b ∈ piece.lines.flatMap fun line => List.replicate line.1.length line.2,
      b = true := by
    intro b member
    rcases List.mem_flatMap.mp member with ⟨line, inside, is⟩
    rw [List.eq_of_mem_replicate is]
    exact List.all_eq_true.mp all line inside
  have rest : (List.replicate piece.rest.length false).length ≤ start := by
    rwa [List.length_replicate]
  have none : ((piece.lines.flatMap fun line => List.replicate line.1.length line.2).take
      (start - piece.rest.length)).count false = 0 := by
    rw [List.count_eq_zero]
    intro member
    cases copied false (List.mem_of_mem_take member)
  rw [Piece.placeOf, Piece.marks, List.drop_append, List.drop_eq_nil_of_le rest, List.nil_append,
    List.take_append, List.take_of_length_le rest, List.length_replicate, List.count_append,
    List.count_replicate_self, none, Nat.add_zero, if_pos]
  rw [List.all_eq_true]
  intro b member
  exact copied b (List.mem_of_mem_drop (List.mem_of_mem_take member))

/-- The tokens of a piece that is copied, and begins idly, are those of the copy. -/
theorem scan_kept (all : piece.lines.all Prod.snd = true) (shaped : Shaped piece)
    (idle : idleRest piece.rest = true) (place : Nat) :
    ((lexer.scan 0 piece.text).map fun token =>
        { token with
          place := token.place.bind fun start =>
            (piece.placeOf start token.text.length).map (place + ·) }) =
      lexer.scan place piece.kept := by
  have text : piece.text = piece.rest ++ piece.kept := by
    rw [kept_of_all all]
    rfl
  have shape := shaped.ends.1
  rw [← kept_of_all all] at shape
  rw [text, scan_of_idle shape idle, Nat.zero_add]
  apply @Scanner.scan_move _ _ _ _ fun start n => (piece.placeOf start n).map (place + ·)
  intro i n
  rw [placeOf_of_all all (Nat.le_add_right _ _), Nat.add_sub_cancel_left]
  rfl

/-! ## The whole copy -/

theorem place_of_mem_tokensOf {place : Nat} {t : Token TokenKind} {q : Nat}
    (member : t ∈ tokensOf place ps) (is : t.place = some q) : place ≤ q := by
  induction ps generalizing place with
  | nil => cases member
  | cons piece more ih =>
      rcases List.mem_append.mp member with member | member
      · rcases List.mem_map.mp member with ⟨t', _, rfl⟩
        rcases Option.bind_eq_some_iff.mp is with ⟨start, _, moved⟩
        rcases Option.map_eq_some_iff.mp moved with ⟨q', _, rfl⟩
        exact Nat.le_add_right _ _
      · have le := ih member
        omega

/-- A piece that has a token without a place gives one to the whole. -/
theorem mem_tokensOf_of_piece (member : piece ∈ ps)
    (token : ∃ t ∈ lexer.scan 0 piece.text, ∃ q, t.place = some q ∧
      piece.placeOf q t.text.length = none) (place : Nat) :
    ∃ t ∈ tokensOf place ps, t.place = none := by
  induction member generalizing place with
  | head more =>
      rcases token with ⟨t, inside, q, is, none⟩
      refine ⟨_, List.mem_append_left _ (List.mem_map_of_mem inside), ?_⟩
      simp [is, none]
  | tail other _ ih =>
      rcases ih (place + other.kept.length) with ⟨t, inside, is⟩
      exact ⟨t, List.mem_append_right _ inside, is⟩

/-- The scan of a text that is the copy, if everything is copied, gives the tokens of the
pieces if and only if the pieces are apart. -/
theorem scan_copied_iff (shaped : ∀ piece ∈ ps, Shaped piece)
    (all : ∀ piece ∈ ps, piece.lines.all Prod.snd = true) (place : Nat) :
    lexer.scan place (copied ps) = tokensOf place ps ↔ Apart ps := by
  induction ps generalizing place with
  | nil => simp [copied, tokensOf, Apart]
  | cons piece more ih =>
      have shape := shaped piece List.mem_cons_self
      have own := all piece List.mem_cons_self
      have next := ih (fun p member => shaped p (List.mem_cons_of_mem piece member))
        fun p member => all p (List.mem_cons_of_mem piece member)
      have split : copied (piece :: more) = piece.kept ++ copied more := rfl
      cases idle : idleRest piece.rest with
      | true =>
          rw [split, tokensOf, Apart, scan_kept own shape idle, and_iff_right idle,
            and_iff_right own]
          constructor
          · intro same
            have behind : ∀ t ∈ tokensOf (place + piece.kept.length) more, ∀ q,
                t.place = some q → place + piece.kept.length ≤ q :=
              fun t member q is => place_of_mem_tokensOf member is
            rcases Scanner.separate_of_scan behind same with ⟨separate, rest⟩
            exact ⟨separate, (next _).mp rest⟩
          · rintro ⟨separate, apart⟩
            rw [separate.scan_append, (next _).mpr apart]
      | false =>
          apply iff_of_false
          · intro same
            rcases mem_tokensOf_of_piece List.mem_cons_self (token_of_rest shape idle) place with
              ⟨t, member, none⟩
            rw [← same] at member
            rcases Scanner.place_of_mem_scan member with ⟨q, is, _⟩
            rw [none] at is
            cases is
          · rintro ⟨other, _⟩
            rw [idle] at other
            cases other

end OgWebserver.Config

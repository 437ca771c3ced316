import OgWebserver.Mime.Parse
import OgWebserver.Request.Handlers

/-!
# The documented format

A MIME types file as its comment describes it: `types`, an opening brace, lines of a
MIME type and extensions that a semicolon ends, and a closing brace, with any white
space between the words.  Which white space the parser copes with is determined
exactly.
-/

namespace OgWebserver.Mime

open Text Transition

/-! ## Words and white space -/

/-- White space of the format. -/
def isBlank (b : UInt8) : Bool :=
  b == 32 || b == 9 || b == 10

/-- Bytes that words are made of. -/
def isWordByte (b : UInt8) : Bool :=
  !isSpace b && b != 0 && b != 59 && b != 123 && b != 125

/-- White space, possibly none. -/
abbrev Blanks : Type :=
  { text : Bytes // text.all isBlank = true }

/-- White space between two words. -/
abbrev Gap : Type :=
  { text : Bytes // text ≠ [] ∧ text.all isBlank = true }

abbrev Word : Type :=
  { text : Bytes // text ≠ [] ∧ text.all isWordByte = true }

/-- A text that may be stored: not empty, and without white space. -/
def Clean (text : Bytes) : Prop :=
  text ≠ [] ∧ ∀ b ∈ text, isBlank b = false

theorem notBlank_of_isWordByte {b : UInt8} (word : isWordByte b = true) : isBlank b = false := by
  simp only [isWordByte, isSpace, Bool.and_eq_true, Bool.not_eq_true', Bool.or_eq_false_iff,
    beq_eq_false_iff_ne, Bool.and_eq_false_imp, decide_eq_true_eq, decide_eq_false_iff_not] at word
  simp only [isBlank, Bool.or_eq_false_iff, beq_eq_false_iff_ne]
  refine ⟨⟨?_, ?_⟩, ?_⟩ <;> rintro rfl <;> simp_all

theorem Word.clean (w : Word) : Clean w.val := by
  refine ⟨w.property.1, fun b member => notBlank_of_isWordByte ?_⟩
  exact List.all_eq_true.mp w.property.2 b member

/-- A byte that is no word byte is in no word. -/
theorem Word.notMem (w : Word) {b : UInt8} (other : isWordByte b = false) : b ∉ w.val := by
  intro member
  rw [List.all_eq_true.mp w.property.2 b member] at other
  cases other

theorem Blanks.notMem (blanks : Blanks) {b : UInt8} (other : isBlank b = false) :
    b ∉ blanks.val := by
  intro member
  rw [List.all_eq_true.mp blanks.property b member] at other
  cases other

theorem Gap.notMem (gap : Gap) {b : UInt8} (other : isBlank b = false) : b ∉ gap.val :=
  Blanks.notMem ⟨gap.val, gap.property.2⟩ other

/-! ## Files -/

/-- A line of the file. -/
structure Entry where
  lead : Blanks
  mimeType : Word
  gap : Gap
  first : Word
  rest : List (Gap × Word)
  trail : Blanks

/-- Words with white space between and behind them. -/
def wordsText (first : Word) : List (Gap × Word) → Blanks → Bytes
  | [], trail => first.val ++ trail.val
  | (gap, word) :: rest, trail => first.val ++ (gap.val ++ wordsText word rest trail)

namespace Entry

def extensions (e : Entry) : List Word :=
  e.first :: e.rest.map Prod.snd

def text (e : Entry) : Bytes :=
  e.lead.val ++ (e.mimeType.val ++ (e.gap.val ++ (wordsText e.first e.rest e.trail ++ [59])))

/-- What the line should add to the list. -/
def pairs (e : Entry) : List Pair :=
  e.extensions.map fun word => (word.val, e.mimeType.val)

/-- The white space that the parser copes with, in front of the given text: no tab in
front of the MIME type; behind it spaces and tabs, with a tab first unless there is no
tab in the rest of the file; single spaces between the extensions, and nothing in front
of the semicolon. -/
structure Regular (e : Entry) (behind : Bytes) : Prop where
  lead : 9 ∉ e.lead.val
  noNewline : 10 ∉ e.gap.val
  separator : e.gap.val.head? = some 9 ∨ (9 ∉ e.gap.val ∧ 9 ∉ behind)
  single : ∀ item ∈ e.rest, item.1.val = [32]
  trail : e.trail.val = []

end Entry

/-- The lines in front of the given text are regular. -/
def RegularLines : List Entry → Bytes → Prop
  | [], _ => True
  | e :: rest, tail => e.Regular (rest.flatMap Entry.text ++ tail) ∧ RegularLines rest tail

/-- A file of the format. -/
structure MimeFile where
  lead : Blanks
  beforeOpen : Blanks
  entries : List Entry
  beforeClose : Blanks
  behind : Blanks

namespace MimeFile

/-- The file from the closing brace's white space on. -/
def tail (f : MimeFile) : Bytes :=
  f.beforeClose.val ++ 125 :: f.behind.val

def text (f : MimeFile) : Bytes :=
  f.lead.val ++ bytes "types" ++ f.beforeOpen.val ++
    123 :: (f.entries.flatMap Entry.text ++ f.tail)

/-- The list the file describes. -/
def pairs (f : MimeFile) : List Pair :=
  f.entries.flatMap Entry.pairs

/-- The white space of the file is such that the parser copes with it. -/
structure Regular (f : MimeFile) : Prop where
  lines : RegularLines f.entries f.tail
  close : 9 ∉ f.beforeClose.val

end MimeFile

/-! ## Pieces -/

theorem unclean_of_head {b : UInt8} (blank : isBlank b = true) (rest : Bytes) :
    ∃ piece ∈ splitSpaces (b :: rest), ¬ Clean piece := by
  rw [splitSpaces]
  split_ifs with space
  · exact ⟨[], List.mem_cons_self, fun clean => clean.1 rfl⟩
  · rcases List.exists_cons_of_ne_nil (splitSpaces_ne_nil rest) with ⟨piece, more, split⟩
    rw [split]
    refine ⟨b :: piece, List.mem_cons_self, fun clean => ?_⟩
    rw [clean.2 b List.mem_cons_self] at blank
    cases blank

/-- A word goes to the front of the first piece. -/
theorem splitSpaces_word (w : Word) (text : Bytes) :
    splitSpaces (w.val ++ text) = (splitSpaces text).modifyHead (w.val ++ ·) := by
  have nonspace : ∀ b ∈ w.val, b ≠ 32 := by
    rintro b member rfl
    exact w.notMem (by decide) member
  generalize w.val = word at nonspace
  induction word with
  | nil =>
      rw [List.nil_append]
      cases splitSpaces text <;> rfl
  | cons b word ih =>
      have inner := ih fun c member => nonspace c (List.mem_cons_of_mem b member)
      rw [List.cons_append, splitSpaces, if_neg (nonspace b List.mem_cons_self), inner]
      cases splitSpaces text <;> rfl

/-- White space behind a word that is not a single space leaves a piece that is no word. -/
theorem unclean_of_gap (w : Word) {b : UInt8} (blank : isBlank b = true) {rest : Bytes}
    (notSingle : b = 32 → ∃ c more, rest = c :: more ∧ isBlank c = true) :
    ∃ piece ∈ splitSpaces (w.val ++ b :: rest), ¬ Clean piece := by
  rw [splitSpaces_word, splitSpaces]
  split_ifs with space
  · rcases notSingle space with ⟨c, more, rfl, blank'⟩
    rcases unclean_of_head blank' more with ⟨piece, member, unclean⟩
    exact ⟨piece, List.mem_cons_of_mem _ member, unclean⟩
  · rcases List.exists_cons_of_ne_nil (splitSpaces_ne_nil rest) with ⟨piece, more, split⟩
    rw [split]
    refine ⟨w.val ++ b :: piece, List.mem_cons_self, fun clean => ?_⟩
    rw [clean.2 b (by simp)] at blank
    cases blank

theorem splitSpaces_single (w : Word) (text : Bytes) :
    splitSpaces (w.val ++ 32 :: text) = w.val :: splitSpaces text :=
  splitSpaces_append (w.notMem (by decide)) text

/-- The words are the pieces, given single spaces between them and nothing behind. -/
theorem splitSpaces_wordsText {first : Word} {rest : List (Gap × Word)} {trail : Blanks}
    (single : ∀ item ∈ rest, item.1.val = [32]) (none : trail.val = []) :
    splitSpaces (wordsText first rest trail) = (first :: rest.map Prod.snd).map (·.val) := by
  induction rest generalizing first with
  | nil =>
      rw [wordsText, none, List.append_nil]
      exact splitSpaces_of_notMem (first.notMem (by decide))
  | cons item rest ih =>
      rcases item with ⟨gap, word⟩
      have space : gap.val = [32] := single _ List.mem_cons_self
      rw [wordsText, space, List.singleton_append, splitSpaces_single,
        ih fun item member => single item (List.mem_cons_of_mem _ member)]
      rfl

/-- Any other white space leaves a piece that is no word. -/
theorem unclean_wordsText {first : Word} {rest : List (Gap × Word)} {trail : Blanks}
    (irregular : ¬ ((∀ item ∈ rest, item.1.val = [32]) ∧ trail.val = [])) :
    ∃ piece ∈ splitSpaces (wordsText first rest trail), ¬ Clean piece := by
  induction rest generalizing first with
  | nil =>
      rcases trail with ⟨_ | ⟨b, text⟩, blanks⟩
      · simp at irregular
      · rw [List.all_cons, Bool.and_eq_true] at blanks
        rw [wordsText]
        by_cases last : b = 32 ∧ text = []
        · rcases last with ⟨rfl, rfl⟩
          rw [splitSpaces_single]
          exact ⟨[], by simp [splitSpaces], fun clean => clean.1 rfl⟩
        · apply unclean_of_gap first blanks.1
          rintro rfl
          rcases text with _ | ⟨c, more⟩
          · simp at last
          · exact ⟨c, more, rfl, List.all_eq_true.mp blanks.2 c List.mem_cons_self⟩
  | cons item rest ih =>
      rcases item with ⟨⟨_ | ⟨b, more⟩, nonempty, blanks⟩, word⟩
      · exact absurd rfl nonempty
      rw [List.all_cons, Bool.and_eq_true] at blanks
      rw [wordsText]
      by_cases space : b = 32 ∧ more = []
      · rcases space with ⟨rfl, rfl⟩
        have later : ¬ ((∀ item ∈ rest, item.1.val = [32]) ∧ trail.val = []) := by
          rintro ⟨single, none⟩
          exact irregular ⟨List.forall_mem_cons.mpr ⟨rfl, single⟩, none⟩
        rcases @ih word later with ⟨piece, member, unclean⟩
        refine ⟨piece, ?_, unclean⟩
        rw [List.singleton_append, splitSpaces_single]
        exact List.mem_cons_of_mem _ member
      · apply unclean_of_gap first blanks.1
        rintro rfl
        rcases more with _ | ⟨c, more⟩
        · simp at space
        · exact ⟨c, _, rfl, List.all_eq_true.mp blanks.2 c List.mem_cons_self⟩

/-! ## One line -/

theorem notMem_wordsText {b : UInt8} (noWord : isWordByte b = false) (noBlank : isBlank b = false)
    (first : Word) (rest : List (Gap × Word)) (trail : Blanks) :
    b ∉ wordsText first rest trail := by
  induction rest generalizing first with
  | nil => simp [wordsText, first.notMem noWord, trail.notMem noBlank]
  | cons item rest ih =>
      simp [wordsText, first.notMem noWord, item.1.notMem noBlank, ih item.2]

/-- With single spaces there is no tab among the words. -/
theorem tab_notMem_wordsText {first : Word} {rest : List (Gap × Word)} {trail : Blanks}
    (single : ∀ item ∈ rest, item.1.val = [32]) (none : trail.val = []) :
    9 ∉ wordsText first rest trail := by
  induction rest generalizing first with
  | nil => simp [wordsText, none, first.notMem (by decide : isWordByte 9 = false)]
  | cons item rest ih =>
      have space := single item List.mem_cons_self
      have later := @ih item.2 fun item member => single item (List.mem_cons_of_mem _ member)
      simp [wordsText, space, first.notMem (by decide : isWordByte 9 = false), later]

theorem wordsText_cons (first : Word) (rest : List (Gap × Word)) (trail : Blanks) :
    ∃ b more, wordsText first rest trail = b :: more ∧ isWordByte b = true := by
  rcases first with ⟨_ | ⟨b, more⟩, nonempty, word⟩
  · exact absurd rfl nonempty
  rw [List.all_cons, Bool.and_eq_true] at word
  cases rest with
  | nil => exact ⟨b, _, rfl, word.1⟩
  | cons item rest => exact ⟨b, _, rfl, word.1⟩

theorem strchr_terminated_eq_missing_iff {c : UInt8} (nonzero : c ≠ 0) {text : Bytes}
    (noZero : 0 ∉ text) : strchr c (text ++ [0]) = .missing ↔ c ∉ text := by
  rw [strchr_eq_missing_iff nonzero]
  constructor
  · rintro ⟨before, after, split, absent, noZero'⟩
    have same := congrArg cString split
    rw [cString_append_zero noZero, cString_append_zero noZero'] at same
    rwa [same]
  · intro absent
    exact ⟨text, [], rfl, absent, noZero⟩

/-- The MIME type that is stored is the word, cut at the white space behind it, or else
it is no word. -/
theorem separator_word {m : Word} {g : UInt8} {x mimeType q : Bytes} (blank : isBlank g = true)
    (hit : separator (m.val ++ g :: x) = .found mimeType q) :
    (mimeType = m.val ∧ q = x ∧ (g = 9 ∨ g = 32 ∧ strchr 9 (m.val ++ g :: x) = .missing)) ∨
      ¬ Clean mimeType := by
  have cut : ∃ c, strchr c (m.val ++ g :: x) = .found mimeType q ∧
      (c = 9 ∨ c = 32 ∧ strchr 9 (m.val ++ g :: x) = .missing) := by
    simp only [separator] at hit
    split at hit
    case h_1 none => exact ⟨32, hit, .inr ⟨rfl, none⟩⟩
    · exact ⟨9, hit, .inl rfl⟩
  rcases cut with ⟨c, found, which⟩
  have noWord : isWordByte c = false := by
    rcases which with rfl | ⟨rfl, _⟩ <;> decide
  have same : mimeType = m.val → m.val ++ g :: x = mimeType ++ c :: q → g = c ∧ x = q := by
    rintro rfl split
    exact List.cons.inj (List.append_cancel_left split)
  have split := (strchr_eq_found_iff.mp found).1
  rcases List.append_eq_append_iff.mp split with
    ⟨_ | ⟨b, more⟩, longer, tails⟩ | ⟨surplus, word, tails⟩
  · rw [List.append_nil] at longer
    rcases same longer split with ⟨rfl, rfl⟩
    exact .inl ⟨longer, rfl, which⟩
  · right
    intro clean
    rw [List.cons_append] at tails
    rw [(List.cons.inj tails).1, clean.2 b (by rw [longer]; simp)] at blank
    cases blank
  · rcases surplus with _ | ⟨b, more⟩
    · rw [List.append_nil] at word
      rcases same word.symm split with ⟨rfl, rfl⟩
      exact .inl ⟨word.symm, rfl, which⟩
    · rw [List.cons_append] at tails
      rw [← (List.cons.inj tails).1] at word
      exact absurd (by rw [word]; simp) (m.notMem noWord)

section Line

variable {e : Entry} {back : Bytes}

/-- The line from its MIME type on. -/
def Entry.body (e : Entry) (behind : Bytes) : Bytes :=
  e.mimeType.val ++ (e.gap.val ++ (wordsText e.first e.rest e.trail ++ 59 :: behind))

/-- Behind spaces and tabs the words of the line are found. -/
theorem strchr_words (e : Entry) {blanks behind : Bytes} (skipped : ∀ b ∈ blanks, spaceOrTab b) :
    strchr 59 ((blanks ++ (wordsText e.first e.rest e.trail ++ 59 :: behind)).dropWhile
      spaceOrTab) = .found (wordsText e.first e.rest e.trail) behind := by
  have word : (wordsText e.first e.rest e.trail ++ 59 :: behind).dropWhile spaceOrTab =
      wordsText e.first e.rest e.trail ++ 59 :: behind := by
    rcases wordsText_cons e.first e.rest e.trail with ⟨b, more, split, word⟩
    have notBlank := notBlank_of_isWordByte word
    rw [split, List.cons_append, List.dropWhile_cons_of_neg]
    simp only [isBlank, Bool.or_eq_false_iff] at notBlank
    simp [spaceOrTab, notBlank]
  rw [List.dropWhile_append_of_pos skipped, word]
  exact strchr_append (notMem_wordsText (by decide) (by decide) _ _ _)
    (notMem_wordsText (by decide) (by decide) _ _ _)

theorem spaceOrTab_of_blank {text : Bytes} (blanks : text.all isBlank = true)
    (noNewline : 10 ∉ text) : ∀ b ∈ text, spaceOrTab b = true := by
  intro b member
  have blank := List.all_eq_true.mp blanks b member
  have notNewline : b ≠ 10 := fun same => noNewline (same ▸ member)
  simpa [isBlank, spaceOrTab, notNewline] using blank

theorem body_terminated (e : Entry) (back : Bytes) : e.body (back ++ [0]) = e.body back ++ [0] := by
  simp [Entry.body]

theorem zero_notMem_body (noZero : 0 ∉ back) : 0 ∉ e.body back := by
  simp [Entry.body, e.mimeType.notMem (by decide : isWordByte 0 = false),
    e.gap.notMem (by decide : isBlank 0 = false),
    notMem_wordsText (by decide : isWordByte 0 = false) (by decide : isBlank 0 = false), noZero]

/-- With single spaces between the extensions, a tab is in the white space behind the MIME
type or behind the line. -/
theorem tab_mem_body_iff (single : ∀ item ∈ e.rest, item.1.val = [32])
    (none : e.trail.val = []) : 9 ∈ e.body back ↔ 9 ∈ e.gap.val ∨ 9 ∈ back := by
  simp [Entry.body, e.mimeType.notMem (by decide : isWordByte 9 = false),
    tab_notMem_wordsText single none]

/-- The white space behind the MIME type. -/
theorem Entry.gap_cons (e : Entry) :
    ∃ g blanks, e.gap.val = g :: blanks ∧ isBlank g = true ∧ blanks.all isBlank = true := by
  rcases e.gap with ⟨_ | ⟨g, blanks⟩, nonempty, gap⟩
  · exact absurd rfl nonempty
  rw [List.all_cons, Bool.and_eq_true] at gap
  exact ⟨g, blanks, rfl, gap.1, gap.2⟩

theorem body_eq_cons {g : UInt8} {blanks : Bytes} (gap : e.gap.val = g :: blanks) (behind : Bytes) :
    e.body behind = e.mimeType.val ++ g ::
      (blanks ++ (wordsText e.first e.rest e.trail ++ 59 :: behind)) := by
  rw [Entry.body, gap, List.cons_append]

theorem parseLine_of_regular (regular : e.Regular back) (noZero : 0 ∉ back) :
    parseLine (e.body (back ++ [0])) = .ok (e.pairs, back ++ [0]) := by
  rcases e.gap_cons with ⟨g, blanks, gap, blank, blanks'⟩
  have noNewline := regular.noNewline
  rw [gap, List.mem_cons, not_or] at noNewline
  have hit : separator (e.body (back ++ [0])) = .found e.mimeType.val
      (blanks ++ (wordsText e.first e.rest e.trail ++ 59 :: (back ++ [0]))) := by
    rcases regular.separator with tab | ⟨noTab, noTab'⟩
    · rw [gap] at tab
      obtain rfl : g = 9 := Option.some.inj tab
      rw [body_eq_cons gap, separator,
        strchr_append (e.mimeType.notMem (by decide)) (e.mimeType.notMem (by decide))]
    · have missing : strchr 9 (e.body (back ++ [0])) = .missing := by
        rw [body_terminated,
          strchr_terminated_eq_missing_iff (by decide) (zero_notMem_body noZero),
          tab_mem_body_iff regular.single regular.trail]
        simp [noTab, noTab']
      rw [gap, List.mem_cons, not_or] at noTab
      obtain rfl : g = 32 := by
        simpa [isBlank, Ne.symm noTab.1, Ne.symm noNewline.1] using blank
      rw [separator, missing, body_eq_cons gap]
      exact strchr_append (e.mimeType.notMem (by decide)) (e.mimeType.notMem (by decide))
  apply parseLine_eq_ok_iff.mpr
  refine ⟨e.mimeType.val, _, wordsText e.first e.rest e.trail, hit, ?_, ?_⟩
  · exact strchr_words e (spaceOrTab_of_blank blanks' noNewline.2)
  · rw [splitSpaces_wordsText regular.single regular.trail]
    simp [Entry.pairs, Entry.extensions]

theorem exists_unclean_fst {pieces : List Bytes} {mimeType : Bytes}
    (unclean : ∃ piece ∈ pieces, ¬ Clean piece) :
    ∃ pair ∈ pieces.map (·, mimeType), ¬ (Clean pair.1 ∧ Clean pair.2) := by
  rcases unclean with ⟨piece, member, unclean⟩
  exact ⟨(piece, mimeType), List.mem_map.mpr ⟨piece, member, rfl⟩, fun clean => unclean clean.1⟩

theorem exists_unclean_snd {text mimeType : Bytes} (unclean : ¬ Clean mimeType) :
    ∃ pair ∈ (splitSpaces text).map (·, mimeType), ¬ (Clean pair.1 ∧ Clean pair.2) := by
  rcases List.exists_mem_of_ne_nil _ (splitSpaces_ne_nil text) with ⟨piece, member⟩
  exact ⟨(piece, mimeType), List.mem_map.mpr ⟨piece, member, rfl⟩, fun clean => unclean clean.2⟩

/-- If another line is parsed, something that is no word gets into the list. -/
theorem unclean_of_irregular {pairs : List Pair} {endOfLine : Bytes} (noZero : 0 ∉ back)
    (parsed : parseLine (e.body (back ++ [0])) = .ok (pairs, endOfLine))
    (noTab : 9 ∉ e.lead.val) (irregular : ¬ e.Regular back) :
    ∃ pair ∈ pairs, ¬ (Clean pair.1 ∧ Clean pair.2) := by
  rcases parseLine_eq_ok_iff.mp parsed with ⟨mimeType, q, line, hit, found, rfl⟩
  rcases e.gap_cons with ⟨g, blanks, gap, blank, blanks'⟩
  rw [body_eq_cons gap] at hit
  rcases separator_word blank hit with ⟨rfl, rfl, which⟩ | unclean
  case inr => exact exists_unclean_snd unclean
  apply exists_unclean_fst
  by_cases newline : 10 ∈ blanks
  · -- the newline is not skipped, and gets into the first extension
    rcases List.eq_append_cons_of_mem newline with ⟨front, later, rfl, first⟩
    rw [List.all_append, Bool.and_eq_true] at blanks'
    rw [List.append_assoc, List.dropWhile_append_of_pos (spaceOrTab_of_blank blanks'.1 first),
      List.cons_append, List.dropWhile_cons_of_neg (by decide)] at found
    have split := (strchr_eq_found_iff.mp found).1
    rcases line with _ | ⟨b, rest⟩
    · cases (List.cons.inj split).1
    · obtain rfl : 10 = b := (List.cons.inj split).1
      exact unclean_of_head (by decide) rest
  · have same := found.symm.trans (strchr_words e (spaceOrTab_of_blank blanks' newline))
    obtain ⟨rfl, rfl⟩ := Search.found.inj same
    apply unclean_wordsText
    rintro ⟨single, none⟩
    apply irregular
    have notNewline : g ≠ 10 := by
      rcases which with rfl | ⟨rfl, _⟩ <;> decide
    refine
      { lead := noTab
        noNewline := by simp [gap, newline, Ne.symm notNewline]
        separator := ?_
        single := single
        trail := none }
    rcases which with rfl | ⟨_, missing⟩
    · exact .inl (by rw [gap]; rfl)
    · right
      rw [← body_eq_cons gap, body_terminated,
        strchr_terminated_eq_missing_iff (by decide) (zero_notMem_body noZero),
        tab_mem_body_iff single none, not_or] at missing
      exact missing

end Line

/-! ## All lines -/

theorem Entry.text_eq (e : Entry) (behind : Bytes) :
    e.text ++ behind = e.lead.val ++ e.body behind := by
  simp [Entry.text, Entry.body]

theorem Entry.body_cons (e : Entry) (behind : Bytes) :
    ∃ b more, e.body behind = b :: more ∧ isWordByte b = true := by
  rcases split : e.mimeType.val with _ | ⟨b, more⟩
  · exact absurd split e.mimeType.property.1
  · have word := e.mimeType.property.2
    rw [split, List.all_cons, Bool.and_eq_true] at word
    exact ⟨b, _, by rw [Entry.body, split, List.cons_append], word.1⟩

theorem zero_notMem_text (e : Entry) : 0 ∉ e.text := by
  simp [Entry.text, e.lead.notMem (by decide : isBlank 0 = false),
    e.mimeType.notMem (by decide : isWordByte 0 = false),
    e.gap.notMem (by decide : isBlank 0 = false),
    notMem_wordsText (by decide : isWordByte 0 = false) (by decide : isBlank 0 = false)]

theorem zero_notMem_lines {entries : List Entry} {close back : Bytes}
    (blanks : close.all isBlank = true) (noZero : 0 ∉ back) :
    0 ∉ entries.flatMap Entry.text ++ (close ++ 125 :: back) := by
  simp [zero_notMem_text, Blanks.notMem ⟨close, blanks⟩ (by decide : isBlank 0 = false), noZero]

theorem clean_of_mem_pairs {entries : List Entry} :
    ∀ pair ∈ entries.flatMap Entry.pairs, Clean pair.1 ∧ Clean pair.2 := by
  intro pair member
  rcases List.mem_flatMap.mp member with ⟨e, _, inside⟩
  rcases List.mem_map.mp inside with ⟨word, _, rfl⟩
  exact ⟨word.clean, e.mimeType.clean⟩

/-- What is in the list stays there. -/
theorem not_parses_of_unclean {p : Bytes} {list pairs expected : List Pair}
    (unclean : ∃ pair ∈ pairs, ¬ (Clean pair.1 ∧ Clean pair.2))
    (clean : ∀ pair ∈ expected, Clean pair.1 ∧ Clean pair.2) :
    ¬ Parses p (list ++ pairs) (list ++ expected) := by
  intro parses
  rcases unclean with ⟨pair, member, unclean⟩
  have inside := (List.prefix_append_right_inj list).mp parses.grows
  exact unclean (clean pair (inside.subset member))

/-- Behind blanks without a tab the next byte is found. -/
theorem dropWhile_lead {lead : Bytes} (blanks : lead.all isBlank = true) (noTab : 9 ∉ lead)
    {b : UInt8} {more : Bytes} (notBlank : spaceOrNewline b = false) :
    (lead ++ b :: more).dropWhile spaceOrNewline = b :: more := by
  have skipped : ∀ c ∈ lead, spaceOrNewline c = true := by
    intro c member
    have blank := List.all_eq_true.mp blanks c member
    have notTab : c ≠ 9 := fun same => noTab (same ▸ member)
    simpa [isBlank, spaceOrNewline, notTab] using blank
  rw [List.dropWhile_append_of_pos skipped, List.dropWhile_cons_of_neg (by simp [notBlank])]

/-- A tab in front of a line becomes the end of an empty MIME type. -/
theorem not_parses_of_tab {lead text : Bytes} {list expected : List Pair}
    (blanks : lead.all isBlank = true) (tab : 9 ∈ lead)
    (clean : ∀ pair ∈ expected, Clean pair.1 ∧ Clean pair.2) :
    ¬ Parses (lead ++ text) list (list ++ expected) := by
  intro parses
  rcases List.eq_append_cons_of_mem tab with ⟨front, later, rfl, first⟩
  rw [List.all_append, Bool.and_eq_true] at blanks
  have drop := @dropWhile_lead front blanks.1 first 9 (later ++ text) (by decide)
  rw [List.append_assoc, List.cons_append, parses_line_iff drop (by decide) (by decide)] at parses
  rcases parses with ⟨pairs, endOfLine, parsed, more⟩
  rcases parseLine_eq_ok_iff.mp parsed with ⟨mimeType, q, line, hit, _, rfl⟩
  have empty : separator (9 :: (later ++ text)) = .found [] (later ++ text) := by
    simp [separator, strchr]
  rw [empty] at hit
  obtain rfl := (Search.found.inj hit).1
  exact not_parses_of_unclean (exists_unclean_snd fun clean => clean.1 rfl) clean more

/-- The lines give exactly their entries if and only if they are regular. -/
theorem parses_lines_iff {entries : List Entry} {close back : Bytes} {list : List Pair}
    (blanks : close.all isBlank = true) (noZero : 0 ∉ back) :
    Parses (entries.flatMap Entry.text ++ (close ++ 125 :: (back ++ [0]))) list
        (list ++ entries.flatMap Entry.pairs) ↔
      RegularLines entries (close ++ 125 :: back) ∧ 9 ∉ close := by
  induction entries generalizing list with
  | nil =>
      by_cases tab : 9 ∈ close
      · have fails := @not_parses_of_tab close (125 :: (back ++ [0])) list [] blanks tab (by simp)
        simpa [tab] using fails
      · have drop := @dropWhile_lead close blanks tab 125 (back ++ [0]) (by decide)
        simp [RegularLines, tab, parses_close_iff drop]
  | cons e rest ih =>
      have clean := @clean_of_mem_pairs (e :: rest)
      have behind : (e :: rest).flatMap Entry.text ++ (close ++ 125 :: (back ++ [0])) =
          e.lead.val ++ e.body (rest.flatMap Entry.text ++ (close ++ 125 :: back) ++ [0]) := by
        rw [List.flatMap_cons, List.append_assoc, Entry.text_eq]
        simp
      have noZero' := @zero_notMem_lines rest close back blanks noZero
      rw [RegularLines, behind]
      by_cases tab : 9 ∈ e.lead.val
      · apply iff_of_false (not_parses_of_tab e.lead.property tab clean)
        rintro ⟨⟨regular, _⟩, _⟩
        exact regular.lead tab
      rcases e.body_cons (rest.flatMap Entry.text ++ (close ++ 125 :: back) ++ [0]) with
        ⟨b, more, body, word⟩
      have notBlank := notBlank_of_isWordByte word
      have drop : (e.lead.val ++ b :: more).dropWhile spaceOrNewline = b :: more := by
        apply dropWhile_lead e.lead.property tab
        simp only [isBlank, Bool.or_eq_false_iff] at notBlank
        simp [spaceOrNewline, notBlank]
      have nonzero : b ≠ 0 := by
        rintro rfl
        exact absurd word (by decide)
      have open_ : b ≠ 125 := by
        rintro rfl
        exact absurd word (by decide)
      rw [body, parses_line_iff drop nonzero open_, ← body]
      by_cases regular : e.Regular (rest.flatMap Entry.text ++ (close ++ 125 :: back))
      · have parsed := parseLine_of_regular regular noZero'
        have tail : rest.flatMap Entry.text ++ (close ++ 125 :: back) ++ [0] =
            rest.flatMap Entry.text ++ (close ++ 125 :: (back ++ [0])) := by simp
        rw [List.flatMap_cons, ← List.append_assoc list, and_iff_right regular, ← ih, ← tail]
        constructor
        · rintro ⟨pairs, endOfLine, parsed', more⟩
          rw [parsed, Except.ok.injEq, Prod.mk.injEq] at parsed'
          rcases parsed' with ⟨rfl, rfl⟩
          exact more
        · intro more
          exact ⟨e.pairs, _, parsed, more⟩
      · apply iff_of_false
        · rintro ⟨pairs, endOfLine, parsed, more⟩
          exact not_parses_of_unclean (unclean_of_irregular noZero' parsed tab regular) clean more
        · rintro ⟨⟨regular', _⟩, _⟩
          exact regular regular'

/-! ## The file -/

/-- The file is read as its format says: the list holds the extensions in file order with
their MIME types, nothing in it is empty or has white space, and a file name gets the
MIME type of the first line that lists its extension. -/
structure ReadAs (f : MimeFile) (list : List Pair) : Prop where
  exact : list = f.pairs
  clean : ∀ pair ∈ list, Clean pair.1 ∧ Clean pair.2
  getMimeType : ∀ (o : Request.Outside) (name ext : Bytes), o.mimeTypes = list →
    Request.extension name = some ext →
      Request.getMimeType o name = (do
        let mimeType ← Request.strcpy 256 o.defaultType
        match f.entries.find? fun e => ext ∈ e.extensions.map (·.val) with
        | none => .ok mimeType
        | some e => Request.strcpy 256 e.mimeType.val)

theorem find?_pairs (e : Entry) (ext : Bytes) :
    e.pairs.find? (·.1 == ext) =
      if ext ∈ e.extensions.map (·.val) then some (ext, e.mimeType.val) else none := by
  rw [Entry.pairs]
  induction e.extensions with
  | nil => rfl
  | cons word rest ih =>
      rw [List.map_cons, List.find?_cons, ih]
      by_cases same : word.val = ext
      · simp [same]
      · simp [Ne.symm same, beq_eq_false_iff_ne.mpr same]

/-- The first pair with an extension is of the first line that lists it. -/
theorem find?_flatMap_pairs (entries : List Entry) (ext : Bytes) :
    (entries.flatMap Entry.pairs).find? (·.1 == ext) =
      (entries.find? fun e => ext ∈ e.extensions.map (·.val)).map
        fun e => (ext, e.mimeType.val) := by
  induction entries with
  | nil => rfl
  | cons e rest ih =>
      rw [List.flatMap_cons, List.find?_append, ih, find?_pairs, List.find?_cons]
      by_cases lists : ext ∈ e.extensions.map (·.val)
      · rw [if_pos lists, decide_eq_true lists]
        rfl
      · rw [if_neg lists, decide_eq_false lists]
        rfl

theorem readAs_pairs (f : MimeFile) : ReadAs f f.pairs where
  exact := rfl
  clean := clean_of_mem_pairs
  getMimeType := by
    intro o name ext loaded known
    rw [Request.getMimeType, known, loaded, Option.bind_some, MimeFile.pairs, find?_flatMap_pairs]
    cases f.entries.find? fun e => ext ∈ e.extensions.map (·.val) <;> rfl

/-- A file of the format is read as it says if and only if its white space is regular. -/
theorem readAs_iff (f : MimeFile) :
    (∃ list, parseMimeTypes f.text = .ok list ∧ ReadAs f list) ↔ f.Regular := by
  have noZero : 0 ∉ f.behind.val := f.behind.notMem (by decide)
  have lines := @parses_lines_iff f.entries f.beforeClose.val f.behind.val [] f.beforeClose.property
    noZero
  have found : strchr 123 (f.text ++ [0]) =
      .found (f.lead.val ++ bytes "types" ++ f.beforeOpen.val)
        (f.entries.flatMap Entry.text ++ (f.beforeClose.val ++ 125 :: (f.behind.val ++ [0]))) := by
    have front : ∀ c, isBlank c = false → c ∉ bytes "types" →
        c ∉ f.lead.val ++ bytes "types" ++ f.beforeOpen.val := by
      intro c noBlank absent
      simp [f.lead.notMem noBlank, f.beforeOpen.notMem noBlank, absent]
    have shape : f.text ++ [0] = f.lead.val ++ bytes "types" ++ f.beforeOpen.val ++
        123 :: (f.entries.flatMap Entry.text ++
          (f.beforeClose.val ++ 125 :: (f.behind.val ++ [0]))) := by
      simp [MimeFile.text, MimeFile.tail]
    rw [shape]
    exact strchr_append (front 123 (by decide) (by decide)) (front 0 (by decide) (by decide))
  rw [List.nil_append] at lines
  constructor
  · rintro ⟨list, parsed, readAs⟩
    rcases parseMimeTypes_eq_ok_iff.mp parsed with ⟨before, p, hit, parses⟩
    rw [found] at hit
    rw [← (Search.found.inj hit).2, readAs.exact] at parses
    rcases lines.mp parses with ⟨regular, close⟩
    exact ⟨regular, close⟩
  · rintro ⟨regular, close⟩
    have parses := lines.mpr ⟨regular, close⟩
    exact ⟨f.pairs, parseMimeTypes_eq_ok_iff.mpr ⟨_, _, found, parses⟩, readAs_pairs f⟩

/-- A file of one line, with the given white space behind the MIME type. -/
def pptxFile (gap : Gap) : MimeFile :=
  { lead := ⟨[], rfl⟩
    beforeOpen := ⟨[32], rfl⟩
    entries :=
      [{ lead := ⟨[10, 32], rfl⟩
         mimeType := ⟨bytes "application/vnd.ms-powerpoint", by decide⟩
         gap := gap
         first := ⟨bytes "pptx", by decide⟩
         rest := []
         trail := ⟨[], rfl⟩ }]
    beforeClose := ⟨[10], rfl⟩
    behind := ⟨[10], rfl⟩ }

/-- On a new line, as in the file that comes with the program, the extension is stored
with a MIME type that ends in a newline. -/
theorem pptxFile_newline_not_readAs :
    parseMimeTypes (pptxFile ⟨[10, 32, 32], by decide⟩).text =
        .ok [(bytes "pptx", bytes "application/vnd.ms-powerpoint" ++ [10])] ∧
      ¬ ∃ list, parseMimeTypes (pptxFile ⟨[10, 32, 32], by decide⟩).text = .ok list ∧
        ReadAs (pptxFile ⟨[10, 32, 32], by decide⟩) list := by
  have parsed : parseMimeTypes (pptxFile ⟨[10, 32, 32], by decide⟩).text =
      .ok [(bytes "pptx", bytes "application/vnd.ms-powerpoint" ++ [10])] := by decide
  refine ⟨parsed, ?_⟩
  rintro ⟨list, parsed', readAs⟩
  rw [parsed] at parsed'
  obtain rfl := Except.ok.inj parsed'
  exact absurd readAs.exact (by decide)

end OgWebserver.Mime

import OgWebserver.Config.Productions
import OgWebserver.Config.Tokens
import OgWebserver.Config.Words
import OgWebserver.Request.Process

/-!
# Patterns of locations

A location section can be headed by a modifier and a pattern.  The scanner hands out both
as one token, up to the last brace of the line, and the grammar gives the whole token to
`f_location`: with the modifier and the spaces, and as a regular expression always.
-/

namespace OgWebserver.Request

open Text Config Transition

/-! ## Headers -/

/-- The headers of the grammar's location sections: what its actions give to `f_location`,
and the tokens behind the brace. -/
def locationHeader : List (Token TokenKind) → Option (MatchType × Bytes × List (Token TokenKind))
  | ⟨.location, _, _⟩ :: ⟨.equalOperator, _, _⟩ :: ⟨.path, path, _⟩ :: ⟨.character, brace, _⟩ ::
      rest => if brace = [123] then some (.equalMatch, cString path, rest) else none
  | ⟨.location, _, _⟩ :: ⟨.regexp, regexp, _⟩ :: ⟨.character, brace, _⟩ :: rest =>
      if brace = [123] then some (.regexMatch, cString regexp, rest) else none
  | ⟨.location, _, _⟩ :: ⟨.path, path, _⟩ :: ⟨.character, brace, _⟩ :: rest =>
      if brace = [123] then some (.prefixMatch, cString path, rest) else none
  | _ => none

/-- A header in front of directives and a closing brace is one of the grammar's location
sections, and `f_location` gets from it what the header says. -/
theorem place_of_locationHeader {tokens rest : List (Token TokenKind)} {matchType : MatchType}
    {match_ : Bytes} (headed : locationHeader tokens = some (matchType, match_, rest))
    {close : Token TokenKind} (closes : Grammar.terminal close = .character 125) :
    ∃ front, tokens = front ++ rest ∧ grammar.Place .locationDirectives .locationSection front
      [close] [] [.location matchType match_] := by
  have whole := Text.Grammar.Place.self grammar .locationSection
  have behind : grammar.Parses [Grammar.closeBrace] [close] [some close] [] :=
    Text.Grammar.Parses.terminal closes .nil
  have token (tok : Token TokenKind) {symbols front values}
      (more : grammar.Parses symbols front values []) :
      grammar.Parses (.terminal (Grammar.terminal tok) :: symbols) (tok :: front)
        (some tok :: values) [] := more.token
  unfold locationHeader at headed
  split at headed
  case h_1 w p w' p' path p'' brace p₃ _ =>
    split at headed
    case isTrue opens =>
      subst opens
      cases headed
      have front := token ⟨.location, w, p⟩ (token ⟨.equalOperator, w', p'⟩
        (token ⟨.path, path, p''⟩ (token ⟨.character, [123], p₃⟩ .nil)))
      exact ⟨_, rfl, whole.inside 0 rfl rfl front behind⟩
    case isFalse => cases headed
  case h_2 w p regexp p' brace p'' _ =>
    split at headed
    case isTrue opens =>
      subst opens
      cases headed
      have front := token ⟨.location, w, p⟩ (token ⟨.regexp, regexp, p'⟩
        (token ⟨.character, [123], p''⟩ .nil))
      exact ⟨_, rfl, whole.inside 1 rfl rfl front behind⟩
    case isFalse => cases headed
  case h_3 w p path p' brace p'' _ =>
    split at headed
    case isTrue opens =>
      subst opens
      cases headed
      have front := token ⟨.location, w, p⟩ (token ⟨.path, path, p'⟩
        (token ⟨.character, [123], p''⟩ .nil))
      exact ⟨_, rfl, whole.inside 2 rfl rfl front behind⟩
    case isFalse => cases headed
  case h_4 => cases headed
inductive Modifier
  /-- `~`. -/
  | regex
  /-- `~*`. -/
  | regexNoCase
  /-- `^~`. -/
  | prefixStop
  deriving DecidableEq

namespace Modifier

def text : Modifier → Bytes
  | regex => bytes "~"
  | regexNoCase => bytes "~*"
  | prefixStop => bytes "^~"

/-- How the pattern behind the modifier is meant to be compared. -/
def matchType : Modifier → MatchType
  | regex | regexNoCase => .regexMatch
  | prefixStop => .prefixMatch

/-- Which paths the pattern is meant to match. -/
def selects (regexMatch : Bytes → Bytes → Bool) (pattern path : Bytes) : Modifier → Bool
  | regex | regexNoCase => regexMatch pattern path
  | prefixStop => pattern.isPrefixOf path

end Modifier

/-- A header with a modifier, and a pattern on the same line. -/
structure Header where
  before : Nat
  modifier : Modifier
  front : Nat
  pattern : Bytes
  behind : Nat
  plain : ∀ b ∈ pattern, b ≠ 10 ∧ b ≠ 123 ∧ b ≠ 125

def spaces (n : Nat) : Bytes :=
  List.replicate n 32

namespace Header

/-- From the modifier up to the brace. -/
def body (h : Header) : Bytes :=
  h.modifier.text ++ (spaces h.front ++ (h.pattern ++ spaces h.behind))

def text (h : Header) : Bytes :=
  bytes "location" ++ (spaces h.before ++ (h.body ++ [123]))

/-- The location has the pattern, and is compared as the modifier says. -/
structure Exact (h : Header) (loc : Location) : Prop where
  match_ : loc.match_ = h.pattern
  matchType : loc.matchType = h.modifier.matchType

/-- The location is selected for the paths that the pattern matches. -/
def Selects (h : Header) (loc : Location) : Prop :=
  ∀ regexMatch path (server : Server), server.locations = [loc] →
    (getDocRoot regexMatch server path = some loc ↔
      h.modifier.selects regexMatch h.pattern path = true)

end Header

variable {text : Bytes} {r : Rule} {b : UInt8}

/-! ## The token of the pattern -/

/-- `(~|~\*|^~).*/\{`. -/
def regexpRule : Rule :=
  open Regex in
  { regex := seq (alt (one 126) (alt (literal (bytes "~*")) (literal (bytes "^~"))))
      (seq (star dot) (one 123))
    kind := .regexp
    context := 1 }

theorem regexp_only : rules.filter (fun r => r.kind == .regexp) = [regexpRule] :=
  rfl

theorem character_only :
    rules.filter (fun r => r.kind == .character) = [Config.pattern dot .character] :=
  rfl

theorem mem_only {kind : TokenKind} {only : Rule}
    (is : rules.filter (fun r => r.kind == kind) = [only]) :
    r ∈ rules ∧ r.kind = kind ↔ r = only := by
  rw [← @List.mem_singleton _ r only, ← is, List.mem_filter, beq_iff_eq]

/-- Only regular expressions begin with a tilde or a caret, but for single bytes; and nothing
goes on behind `location` with what the header goes on with. -/
theorem rules_begin : ∀ r ∈ rules,
    (∀ b : UInt8, b = 126 ∨ b = 94 →
        r.kind = .regexp ∨ r.kind = .character ∨ (r.regex.deriv b).isNothing = true) ∧
      ∀ b : UInt8, b = 32 ∨ b = 126 ∨ b = 94 →
        (r.regex.derivs (bytes "location" ++ [b])).isNothing = true := by
  have each : ∀ r ∈ rules,
      (∀ b ∈ [126, 94],
          r.kind = .regexp ∨ r.kind = .character ∨ (r.regex.deriv b).isNothing = true) ∧
        ∀ b ∈ [32, 126, 94],
          (r.regex.derivs (bytes "location" ++ [b])).isNothing = true := by
    decide +kernel
  intro r member
  rcases each r member with ⟨first, behind⟩
  exact ⟨fun b is => first b (by simpa using is), fun b is => behind b (by simpa using is)⟩

/-- A tilde or a caret in front of more is the beginning of a regular expression, and that
goes up to a brace. -/
theorem regexp_of_accepts {t : TokenKind × Nat} (starts : b = 126 ∨ b = 94) (more : text ≠ [])
    (accepted : accepts (b :: text) = some t) :
    t = (.regexp, text.length) ∧ ∃ front, b :: text = front ++ [123] := by
  rcases Option.map_eq_some_iff.mp accepted with ⟨r, found, rfl⟩
  rcases ruleFor_some found with ⟨member, matched⟩
  rcases (rules_begin r member).1 b starts with regexp | character | nothing
  · obtain rfl := (mem_only regexp_only).mp ⟨member, regexp⟩
    rcases Language.mem_mul.mp ((Regex.matches_iff _ _).mp matched) with
      ⟨modifier, _, rest, inRest, joined⟩
    rcases Language.mem_mul.mp inRest with ⟨line, _, last, brace, rfl⟩
    rcases Regex.mem_byte.mp brace with ⟨c, isBrace, rfl⟩
    obtain rfl := beq_iff_eq.mp isBrace
    refine ⟨rfl, modifier ++ line, ?_⟩
    rw [List.append_assoc, joined]
  · obtain rfl := (mem_only character_only).mp ⟨member, character⟩
    rcases Regex.mem_byte.mp ((Regex.matches_iff _ _).mp matched) with ⟨c, _, is⟩
    exact absurd (List.cons.inj is).2 more
  · rw [Regex.matches_of_deriv nothing] at matched
    cases matched

theorem Modifier.starts (m : Modifier) (rest : Bytes) :
    ∃ b text, m.text ++ rest = b :: text ∧ (b = 126 ∨ b = 94) := by
  cases m with
  | regex => exact ⟨126, rest, rfl, .inl rfl⟩
  | regexNoCase => exact ⟨126, 42 :: rest, rfl, .inl rfl⟩
  | prefixStop => exact ⟨94, 126 :: rest, rfl, .inr rfl⟩

theorem accepts_regexp (m : Modifier) {line : Bytes} (absent : 10 ∉ line) :
    (accepts (m.text ++ (line ++ [123]))).isSome := by
  have modifier : (Regex.alt (one 126)
      (.alt (.literal (bytes "~*")) (.literal (bytes "^~")))).matches_ m.text = true := by
    cases m <;> decide +kernel
  have matched : regexpRule.regex.matches_ (m.text ++ (line ++ [123])) = true := by
    rw [Regex.matches_iff]
    refine Language.mem_mul.mpr
      ⟨m.text, (Regex.matches_iff _ _).mp modifier, line ++ [123], ?_, rfl⟩
    refine Language.mem_mul.mpr ⟨line, ?_, [123], Regex.mem_byte.mpr ⟨123, rfl, rfl⟩, rfl⟩
    apply Regex.mem_star_byte.mpr
    intro b member
    simpa using ne_of_mem_of_not_mem member absent
  rw [accepts, Option.isSome_map, ruleFor, List.find?_isSome]
  exact ⟨regexpRule, ((mem_only regexp_only).mpr rfl).1, matched⟩

/-- The token goes up to some brace behind the modifier and the line. -/
theorem munch_regexp (m : Modifier) {line : Bytes} (absent : 10 ∉ line) (rest : Bytes) :
    ∃ front behind, m.text ++ (line ++ 123 :: rest) = front ++ 123 :: behind ∧
      m.text ++ line <+: front ∧
      lexer.munch (m.text ++ (line ++ 123 :: rest)) = some (.regexp, front.length) := by
  have begins : m.text ++ (line ++ [123]) <+: m.text ++ (line ++ 123 :: rest) := ⟨rest, by simp⟩
  rcases m.starts (line ++ [123]) with ⟨b, text, split, starts⟩
  have nonempty : m.text ++ (line ++ 123 :: rest) ≠ [] := by simp
  rcases @Scanner.munch_of_ne_nil _ lexer _ nonempty with ⟨kind, n, found⟩
  rcases Scanner.longest_of_munch found begins (accepts_regexp m absent) with
    ⟨all, longer, within, accepted⟩
  have inside : ∃ text', all = b :: text' ∧ text' ≠ [] := by
    rw [split] at longer
    rcases longer with ⟨more, rfl⟩
    refine ⟨text ++ more, rfl, ?_⟩
    have size := congrArg List.length split
    cases m <;> cases text <;> simp_all [Modifier.text, bytes]
  rcases inside with ⟨text', rfl, more⟩
  rcases regexp_of_accepts starts more accepted with ⟨is, front, ends⟩
  rw [ends] at longer within
  rcases within with ⟨behind, whole⟩
  refine ⟨front, behind, ?_, ?_, ?_⟩
  · rw [← whole, List.append_assoc, List.singleton_append]
  · have size := longer.length_le
    simp only [List.length_append, List.length_singleton] at size
    apply List.prefix_of_prefix_length_le _ (List.prefix_append front [123])
    · rw [List.length_append]
      omega
    · refine List.IsPrefix.trans ⟨[123], ?_⟩ longer
      rw [List.append_assoc]
  · have size := congrArg List.length ends
    rw [List.length_cons, List.length_append, List.length_singleton] at size
    rw [found, is, Nat.succ.inj size]

/-! ## The tokens of the header -/

theorem munch_location {text : Bytes} (starts : b = 32 ∨ b = 126 ∨ b = 94) :
    lexer.munch (bytes "location" ++ b :: text) = some (.location, 8) := by
  apply munch_of_stuck (by decide) (by decide +kernel) _ ⟨b :: text, rfl⟩
  intro r member more something within
  have nothing := (rules_begin r member).2 b starts
  rcases List.exists_cons_of_ne_nil something with ⟨c, more, rfl⟩
  rw [List.prefix_append_right_inj] at within
  rcases within with ⟨rest, split⟩
  obtain rfl : c = b := (List.cons.inj split).1
  rw [List.append_cons]
  exact Regex.matches_of_derivs nothing more

theorem munch_brace (text : Bytes) : lexer.munch (123 :: text) = some (.character, 1) :=
  munch_single (by decide) text

theorem scan_spaces (n place : Nat) (text : Bytes) :
    lexer.scan place (spaces n ++ text) = lexer.scan (place + n) text := by
  induction n generalizing place with
  | zero => rfl
  | succ n ih =>
      have first : spaces (n + 1) ++ text = 32 :: (spaces n ++ text) := rfl
      rw [first, scan_white (by decide), ih]
      congr 1
      omega

namespace Header

theorem newline_notMem_spaces (n : Nat) : 10 ∉ spaces n := by
  intro member
  cases List.eq_of_mem_replicate member

/-- The header is taken for one with a regular expression: all of the line between
`location` and some brace. -/
theorem locationHeader_eq (h : Header) (rest : Bytes) (place : Nat) :
    ∃ token tokens, h.body <+: token ∧
      locationHeader (lexer.scan place (h.text ++ rest)) =
        some (.regexMatch, cString token, tokens) := by
  have absent : 10 ∉ spaces h.front ++ (h.pattern ++ spaces h.behind) := by
    have pattern : 10 ∉ h.pattern := fun member => (h.plain 10 member).1 rfl
    simp [newline_notMem_spaces, pattern]
  rcases munch_regexp h.modifier absent rest with ⟨token, behind, split, begins, found⟩
  have location : ∃ b text, spaces h.before ++ (h.body ++ 123 :: rest) = b :: text ∧
      (b = 32 ∨ b = 126 ∨ b = 94) := by
    cases h.before with
    | zero =>
        rcases h.modifier.starts (spaces h.front ++ (h.pattern ++ spaces h.behind) ++ 123 :: rest)
          with ⟨b, text, is, starts⟩
        refine ⟨b, text, ?_, .inr starts⟩
        rw [← is, body]
        simp [spaces]
    | succ n => exact ⟨32, _, rfl, .inl rfl⟩
  rcases location with ⟨b, text, is, starts⟩
  have all : h.text ++ rest = bytes "location" ++ b :: text := by
    rw [← is, Header.text]
    simp
  have regexp : h.body ++ 123 :: rest = token ++ 123 :: behind := by
    rw [← split, body]
    simp
  refine ⟨token, lexer.scan (place + 8 + h.before + token.length + 1) behind, begins, ?_⟩
  rw [all, Scanner.scan_cons_of_munch (munch_location starts) rfl, ← is, scan_spaces, regexp,
    Scanner.scan_cons_of_munch (by rwa [← split]) rfl,
    Scanner.scan_of_munch (munch_brace behind)]
  rfl

/-! ## The location -/

theorem modifier_ne_nil (h : Header) : h.modifier.text ≠ [] := by
  cases h.modifier <;> decide

theorem zero_notMem_modifier (h : Header) : 0 ∉ h.modifier.text := by
  cases h.modifier <;> decide

/-- No token that begins with the modifier is the pattern. -/
theorem cString_ne_pattern {h : Header} {token : Bytes} (begins : h.body <+: token) :
    cString token ≠ h.pattern := by
  intro same
  have noZero : 0 ∉ h.modifier.text ++ (spaces h.front ++ h.pattern) := by
    have spaces_ : 0 ∉ spaces h.front := fun member => by cases List.eq_of_mem_replicate member
    have pattern := zero_notMem_cString token
    rw [same] at pattern
    simp [h.zero_notMem_modifier, spaces_, pattern]
  rcases begins with ⟨more, rfl⟩
  have split : h.body ++ more =
      h.modifier.text ++ (spaces h.front ++ h.pattern) ++ (spaces h.behind ++ more) := by
    simp [body]
  rw [split, cString_append noZero] at same
  have size := congrArg List.length same
  have positive := List.length_pos_iff.mpr h.modifier_ne_nil
  simp only [List.length_append] at size
  omega

end Header

theorem header_of_closed {gethostbyname : Resolver} {sec : Section} {s t : ParseState}
    (ran : run (perform gethostbyname) s sec.actions = .ok t) :
    t.locations.head.match_ = sec.match_ ∧ t.locations.head.matchType = sec.matchType := by
  rcases run_append_eq_ok_iff.mp ran with ⟨m, _, closed⟩
  replace closed : fLocation sec.matchType sec.match_ m = .ok t :=
    run_singleton_eq_ok_iff.mp closed
  rw [fLocation] at closed
  split at closed
  · cases closed
  · obtain rfl := Except.ok.inj closed
    cases items : m.locations.items <;> simp [Pending.modifyHead, Pending.head, items]

namespace Header

/-- For any relation between patterns and paths, there is a path for which the location is not
what the header says. -/
theorem not_selects {h : Header} {loc : Location} (matchType : loc.matchType = .regexMatch)
    (other : loc.match_ ≠ h.pattern) : ¬ h.Selects loc := by
  intro selects
  let server : Server := { serverOf .initial with locations := [loc] }
  have found_iff : ∀ regexMatch path, getDocRoot regexMatch server path = some loc ↔
      regexMatch loc.match_ path = true := by
    intro regexMatch path
    have is : getDocRoot regexMatch server path = [loc].find? (locationMatches regexMatch path) :=
      rfl
    rw [is, List.find?_singleton, locationMatches, matchType]
    simp
  cases modifier : h.modifier with
  | regex | regexNoCase =>
      have same := selects (fun pattern _ => pattern == h.pattern) [] server rfl
      rw [found_iff, modifier, Modifier.selects] at same
      simp [other] at same
  | prefixStop =>
      have same := selects (fun _ _ => false) h.pattern server rfl
      rw [found_iff, modifier, Modifier.selects] at same
      simp at same

/-- A header with a modifier opens a section whose location is neither what the header says,
nor selected for the paths that it says. -/
theorem never_recorded (h : Header) (rest : Bytes) (place : Nat) :
    ∃ match_ tokens,
      locationHeader (lexer.scan place (h.text ++ rest)) = some (.regexMatch, match_, tokens) ∧
      ∀ gethostbyname first more s t,
        run (perform gethostbyname) s (Section.actions ⟨.regexMatch, match_, first, more⟩) =
            .ok t →
          ¬ h.Exact t.locations.head ∧ ¬ h.Selects t.locations.head := by
  rcases h.locationHeader_eq rest place with ⟨token, tokens, begins, headed⟩
  refine ⟨cString token, tokens, headed, ?_⟩
  intro gethostbyname first more s t ran
  rcases header_of_closed ran with ⟨match_, matchType⟩
  have other : t.locations.head.match_ ≠ h.pattern := by
    rw [match_]
    exact cString_ne_pattern begins
  exact ⟨fun exact_ => other exact_.match_, not_selects matchType other⟩

end Header

/-- `location ^~ /images/  {`. -/
def images : Header where
  before := 1
  modifier := .prefixStop
  front := 1
  pattern := bytes "/images/"
  behind := 2
  plain := by decide +kernel

/-- Its section, as it is taken. -/
def imagesSection : Section where
  matchType := .regexMatch
  match_ := bytes "^~ /images/  "
  first := .root (bytes "/var/www/stuff")
  rest := []

theorem Header.never_recorded_images :
    ∃ match_ t, run (perform fun _ => none) .initial
        (Section.actions ⟨.regexMatch, match_, .root (bytes "/x"), []⟩) = .ok t ∧
      ¬ images.Exact t.locations.head ∧ ¬ images.Selects t.locations.head := by
  rcases images.never_recorded [] 0 with ⟨match_, tokens, _, never⟩
  exact ⟨match_, _, rfl, never (fun _ => none) (.root (bytes "/x")) [] .initial _ rfl⟩

/-- It is recorded with the modifier and the spaces.  The regular expression need not match
a path under `/images/`, and then the path is not found. -/
theorem images_not_recorded :
    ∃ t, images.text = bytes "location ^~ /images/  \x7b" ∧
      locationHeader (lexer.scan 0 images.text) =
        some (imagesSection.matchType, imagesSection.match_, []) ∧
      run (perform fun _ => none) .initial imagesSection.actions = .ok t ∧
      ¬ images.Exact t.locations.head ∧
      images.modifier.selects (fun _ _ => false) images.pattern (bytes "/images/a.png") = true ∧
      ∀ server : Server, server.locations = [t.locations.head] →
        getDocRoot (fun _ _ => false) server (bytes "/images/a.png") = none := by
  refine ⟨_, by decide, by decide +kernel, rfl, ?_, by decide, ?_⟩
  · intro exact_
    cases exact_.matchType
  · intro server only
    rw [getDocRoot, only]
    rfl

end OgWebserver.Request

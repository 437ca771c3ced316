import OgWebserver.Config.Productions
import OgWebserver.Config.Settings
import OgWebserver.Config.Tokens
import OgWebserver.Config.Words

/-!
# Server names

Which words a `server_name` directive takes for the name of a server.  The grammar wants
the token of a name behind `server_name`, and the scanner has other tokens for some words.
-/

namespace OgWebserver.Config

open Text Transition

/-- The directive for one name. -/
def serverNameText (s : Bytes) : Bytes :=
  bytes "server_name " ++ (s ++ bytes ";")

variable {s front back : Bytes} {place : Nat}

/-! ## Scanning -/

theorem space_mem : (32 : UInt8) ∈ [32, 59] :=
  List.mem_cons_self

theorem semicolon_mem : (59 : UInt8) ∈ [32, 59] :=
  List.mem_cons_of_mem 32 List.mem_cons_self

/-- The words of the directive and of what stands around it. -/
def keywords : List (String × TokenKind) :=
  [("server_name", .serverName), ("server", .server), ("http", .http), ("events", .events)]

theorem word_of_keyword {text : String} {kind : TokenKind} (member : (text, kind) ∈ keywords) :
    IsWord (bytes text) ∧ accepts (bytes text) = some (kind, (bytes text).length) := by
  have each : ∀ p ∈ keywords,
      IsWord (bytes p.1) ∧ accepts (bytes p.1) = some (p.2, (bytes p.1).length) := by
    decide +kernel
  exact each _ member

theorem scan_word (word : IsWord s) {kind : TokenKind}
    (accepted : accepts s = some (kind, s.length)) (token : kind.skips = false) {c : UInt8}
    (stop : c ∈ [32, 59]) (place : Nat) (rest : Bytes) :
    lexer.scan place (s ++ c :: rest) =
      ⟨kind, s, some place⟩ :: lexer.scan (place + s.length) (c :: rest) :=
  Scanner.scan_cons_of_munch (munch_word word accepted stop rest) token

theorem scan_single {b : UInt8} {k : TokenKind} (single : (b, k) ∈ singles)
    (token : k.skips = false) (place : Nat) (rest : Bytes) :
    lexer.scan place (b :: rest) = ⟨k, [b], some place⟩ :: lexer.scan (place + 1) rest := by
  have first : lexer.munch ([b] ++ rest) = some (k, [b].length) := munch_single single rest
  exact Scanner.scan_cons_of_munch first token

theorem separate_word (word : IsWord s) {kind : TokenKind}
    (accepted : accepts s = some (kind, s.length)) {c : UInt8} (stop : c ∈ [32, 59])
    {rest second : Bytes} (separate : lexer.Separate (c :: rest) second) :
    lexer.Separate (s ++ c :: rest) second := by
  apply Scanner.Separate.step (munch_word word accepted stop rest)
  · rw [List.append_assoc]
    exact munch_word word accepted stop (rest ++ second)
  · rw [List.drop_left]
    exact separate

theorem separate_byte {b : UInt8} {k : TokenKind}
    (found : ∀ text, lexer.munch (b :: text) = some (k, 1)) {rest second : Bytes}
    (separate : lexer.Separate rest second) : lexer.Separate (b :: rest) second :=
  .step (found rest) (found (rest ++ second)) separate

/-- The tokens of the directive. -/
theorem scan_serverNameText (word : IsWord s) {kind : TokenKind}
    (accepted : accepts s = some (kind, s.length)) (token : kind.skips = false) (place : Nat)
    (back : Bytes) :
    lexer.scan place (serverNameText s ++ back) =
      ⟨.serverName, bytes "server_name", some place⟩ :: ⟨kind, s, some (place + 12)⟩ ::
        ⟨.eol, bytes ";", some (place + 12 + s.length)⟩ ::
          lexer.scan (place + (serverNameText s).length) back := by
  have keyword : ("server_name", .serverName) ∈ keywords := by simp [keywords]
  have split : serverNameText s ++ back = bytes "server_name" ++ 32 :: (s ++ 59 :: back) := by
    rw [serverNameText, List.append_assoc, List.append_assoc]
    rfl
  have length : place + (serverNameText s).length = place + 12 + s.length + 1 := by
    have front : (bytes "server_name ").length = 12 := rfl
    have end_ : (bytes ";").length = 1 := rfl
    rw [serverNameText, List.length_append, List.length_append, front, end_]
    omega
  rcases word_of_keyword keyword with ⟨isWord, own⟩
  rw [split, scan_word isWord own rfl space_mem, scan_white rfl,
    scan_word word accepted token semicolon_mem, scan_single (k := .eol) (by simp [singles]) rfl,
    length]
  rfl

/-! ## The grammar -/

theorem terminal_of_kind {tok : Token TokenKind} (named : tok.kind ≠ .character) :
    Grammar.terminal tok = .token tok.kind := by
  rw [Grammar.terminal]
  split
  · next kind _ => exact absurd kind named
  · rfl

theorem kind_of_terminal {tok : Token TokenKind} {kind : TokenKind}
    (is : Grammar.terminal tok = .token kind) : tok.kind = kind := by
  rw [Grammar.terminal] at is
  split at is
  · cases is
  · exact Terminal.token.inj is

/-- The tokens of names are the only ones behind `server_name`. -/
theorem follows_serverName :
    grammar.Follows
      (fun k => k == .token .prefixName || k == .token .suffixName || k == .token .name)
      (fun n => n == .serverNames || n == .serverName) (.token .serverName) := by
  intro n
  cases n <;> rfl

/-- The only characters in the grammar are braces. -/
def Terminal.inGrammar : Terminal → Bool
  | .token _ => true
  | .character b => b == 123 || b == 125

theorem admits_inGrammar : grammar.Admits Terminal.inGrammar := by
  intro n
  cases n <;> rfl

theorem endsInput_eq_false {tok : Token TokenKind}
    (inGrammar : (Grammar.terminal tok).inGrammar = true) : endsInput tok = false := by
  rw [endsInput]
  split
  · next b is =>
      rw [is, Terminal.inGrammar, Bool.or_eq_true, beq_iff_eq, beq_iff_eq] at inGrammar
      rcases inGrammar with rfl | rfl <;> rfl
  · rfl

theorem parses_serverName (s : Bytes) (p q r : Option Nat) :
    grammar.Parses [.nonterminal .serverDirective]
      [⟨.serverName, bytes "server_name", p⟩, ⟨.name, s, q⟩, ⟨.eol, bytes ";", r⟩] [none]
      [.serverName (.token (cString s)) .serverNameExact] := by
  have token : grammar.Parses [Grammar.t .name] [⟨.name, s, q⟩] [some ⟨.name, s, q⟩] [] :=
    .terminal rfl .nil
  have name : grammar.Parses [.nonterminal .serverName] [⟨.name, s, q⟩] [none]
      [.serverName (.token (cString s)) .serverNameExact] :=
    .of_alternative 2 rfl token rfl
  have names : grammar.Parses [.nonterminal .serverNames] [⟨.name, s, q⟩] [none]
      [.serverName (.token (cString s)) .serverNameExact] :=
    .of_alternative 1 rfl name rfl
  have directive : grammar.Parses [.nonterminal .serverNameDirective]
      [⟨.serverName, bytes "server_name", p⟩, ⟨.name, s, q⟩, ⟨.eol, bytes ";", r⟩] [none]
      [.serverName (.token (cString s)) .serverNameExact] :=
    .of_alternative 0 rfl (.terminal rfl (names.append (.terminal rfl .nil))) rfl
  exact .of_alternative 0 rfl directive rfl

/-- A directive that can be in every server. -/
theorem parses_autoindex :
    grammar.Parses [.nonterminal .serverDirective]
      [⟨.autoindex, [], none⟩, ⟨.on, [], none⟩, ⟨.eol, [], none⟩] [none] [.autoindex true] := by
  have tokens : grammar.Parses [Grammar.t .autoindex, Grammar.t .on, Grammar.t .eol]
      [⟨.autoindex, [], none⟩, ⟨.on, [], none⟩, ⟨.eol, [], none⟩] _ [] :=
    .terminal rfl (.terminal rfl (.terminal rfl .nil))
  have directive : grammar.Parses [.nonterminal .autoindexDirective]
      [⟨.autoindex, [], none⟩, ⟨.on, [], none⟩, ⟨.eol, [], none⟩] [none] [.autoindex true] :=
    .of_alternative 0 rfl tokens rfl
  exact .of_alternative 5 rfl directive rfl

/-! ## Names with a wildcard -/

/-- A word is only registered as an exact name. -/
def Action.Marked : Action → Prop
  | .serverName name type => IsWord name.text → type = .serverNameExact
  | _ => True

/-- The names that are words are exact ones. -/
def ExactWords (p : Pending ServerName) : Prop :=
  ∀ sn ∈ p.items, IsWord sn.serverName.text → sn.type = .serverNameExact

/-- The token of a name with a wildcard is no word. -/
def NoWord (tok : Token TokenKind) : Prop :=
  tok.kind = .prefixName ∨ tok.kind = .suffixName → ¬ IsWord (cString tok.text)

def Action.namesServer : Action → Bool
  | .serverName .. => true
  | _ => false

theorem Action.marked_of_not_namesServer {a : Action} (other : a.namesServer = false) :
    a.Marked := by
  cases a with
  | serverName => cases other
  | _ => trivial

/-- Only the rules of `server_name` name a server with a directive of its own. -/
theorem namesServer_eq_false {n : Nonterminal} (other : n ≠ .serverName)
    (values : Grammar.Values) :
    (grammar.alternatives n).all
      (fun alt => (alt.action values).all fun a => a.namesServer == false) = true := by
  cases n with
  | serverName => exact absurd rfl other
  | _ => rfl

theorem marked_of_sees (n : Nonterminal) : ∀ alt ∈ grammar.alternatives n, ∀ values,
    grammar.Sees NoWord alt.symbols values → ∀ a ∈ alt.action values, a.Marked := by
  intro alt member values sees a inside
  by_cases named : n = .serverName
  · subst named
    rcases List.mem_cons.mp member with rfl | member
    · rcases sees.token with ⟨tok, rest, rfl, is, known⟩
      obtain rfl := List.mem_singleton.mp inside
      exact fun word => absurd word (known (.inl (kind_of_terminal is)))
    rcases List.mem_cons.mp member with rfl | member
    · rcases sees.token with ⟨tok, rest, rfl, is, known⟩
      obtain rfl := List.mem_singleton.mp inside
      exact fun word => absurd word (known (.inr (kind_of_terminal is)))
    · obtain rfl := List.mem_singleton.mp member
      obtain rfl := List.mem_singleton.mp inside
      exact fun _ => rfl
  · have all := List.all_eq_true.mp (namesServer_eq_false named values) alt member
    exact Action.marked_of_not_namesServer (beq_iff_eq.mp (List.all_eq_true.mp all a inside))

/-- The rules of names with a wildcard take the whole match, which has a star and no zero. -/
theorem rules_wildcard {r : Rule} (member : r ∈ rules)
    (kind : r.kind = .prefixName ∨ r.kind = .suffixName) :
    r.context = 0 ∧ r.regex.avoids 0 = true ∧ r.regex.Needs 42 := by
  have only : rules.filter (fun r => r.kind == .prefixName || r.kind == .suffixName) =
      [pattern (.seq (.literal (bytes "*.")) names) .prefixName,
        pattern (.seq names (.literal (bytes ".*"))) .suffixName] := rfl
  have wildcard : (r.kind == .prefixName || r.kind == .suffixName) = true := by
    simpa using kind
  have inFilter : r ∈ rules.filter fun r => r.kind == .prefixName || r.kind == .suffixName :=
    List.mem_filter.mpr ⟨member, wildcard⟩
  rw [only, List.mem_pair] at inFilter
  rcases inFilter with rfl | rfl
  · exact ⟨rfl, rfl, (Regex.needs_literal (by decide)).seq_left _⟩
  · exact ⟨rfl, rfl, (Regex.needs_literal (by decide)).seq_right _⟩

theorem noWord_of_mem_scan {tok : Token TokenKind} {place : Nat} {text : Bytes}
    (member : tok ∈ lexer.scan place text) : NoWord tok := by
  intro kind word
  rcases Scanner.accepts_of_mem_scan member with ⟨front, begins, accepted⟩
  rcases Option.map_eq_some_iff.mp accepted with ⟨r, found, is⟩
  rcases ruleFor_some found with ⟨inRules, matched⟩
  obtain ⟨sameKind, length⟩ := Prod.mk.inj is
  rcases rules_wildcard inRules (by rwa [sameKind]) with ⟨context, avoids, needs⟩
  rw [context, Nat.sub_zero] at length
  obtain rfl := begins.eq_of_length length.symm
  have inLanguage := (Regex.matches_iff _ _).mp matched
  have noZero := Regex.notMem_of_avoids avoids inLanguage
  rw [← List.append_nil tok.text, cString_append noZero] at word
  have inside := word.2 42 (List.mem_append_left _ (needs _ inLanguage))
  cases inside

theorem ExactWords.addName {p : Pending ServerName} {name : CString} {type : ServerNameType}
    (exact_ : ExactWords p) (marked : IsWord name.text → type = .serverNameExact) :
    ExactWords (addName name type p) := by
  rw [Config.addName]
  split
  · exact exact_
  · exact List.forall_mem_cons.mpr ⟨marked, exact_⟩

theorem ExactWords.after {c : Settings} {a : Action} (exact_ : ExactWords c.serverNames)
    (marked : a.Marked) : ExactWords (c.after a).serverNames := by
  cases a with
  | serverName name type => exact exact_.addName marked
  | listen name portNum =>
      cases name with
      | none => exact exact_
      | some name => exact exact_.addName fun _ => rfl
  | server =>
      intro sn member
      cases member
  | _ => exact exact_

theorem ExactWords.afterAll {actions : List Action} (marked : ∀ a ∈ actions, a.Marked)
    {c : Settings} (exact_ : ExactWords c.serverNames) :
    ExactWords (c.afterAll actions).serverNames := by
  induction actions generalizing c with
  | nil => exact exact_
  | cons a rest ih =>
      rw [List.forall_mem_cons] at marked
      exact ih marked.2 (exact_.after marked.1)

/-! ## The place of a directive -/

section Place

variable {pre post : List Action} {rest : List (Token TokenKind)}

theorem httpDirectives_list : grammar.LeftList .httpDirectives .httpDirective :=
  ⟨⟨1, _, rfl, rfl, rfl⟩, ⟨0, _, rfl, rfl, rfl⟩⟩

theorem serverDirectives_list : grammar.LeftList .serverDirectives .serverDirective :=
  ⟨⟨1, _, rfl, rfl, rfl⟩, ⟨0, _, rfl, rfl, rfl⟩⟩

/-- An opening brace, behind the word of its block. -/
theorem parses_open (word : Token TokenKind) (kind : word.kind ≠ .character) (q : Option Nat) :
    grammar.Parses [Grammar.t word.kind, Grammar.openBrace] [word, ⟨.character, [123], q⟩]
      [some word, some ⟨.character, [123], q⟩] [] :=
  .terminal (terminal_of_kind kind) (.terminal rfl .nil)

theorem parses_close (q : Option Nat) :
    grammar.Parses [Grammar.closeBrace] [⟨.character, [125], q⟩]
      [some ⟨.character, [125], q⟩] [] :=
  .terminal rfl .nil

/-- A directive has a place in every server block of every configuration. -/
theorem place_serverDirective {symbols : List (Symbol Terminal Nonterminal)}
    {top http server server' http' : List (Token TokenKind)} {values : Grammar.Values}
    {actions first second third fourth : List Action}
    (level : symbols = [.nonterminal .mainDirectives, .nonterminal .eventsSection] ∨
      symbols = [.nonterminal .eventsSection])
    (outer : grammar.Parses symbols top values actions)
    (before : grammar.Items .httpDirective http first)
    (inside : grammar.Items .serverDirective server second)
    (inside' : grammar.Items .serverDirective server' third)
    (behind : grammar.Items .httpDirective http' fourth) (p q r s u v : Option Nat) :
    grammar.Place .serverDirective .config
      (top ++ ([⟨.http, bytes "http", p⟩, ⟨.character, [123], q⟩] ++ (http ++
        ([⟨.server, bytes "server", r⟩, ⟨.character, [123], s⟩] ++ server))))
      (server' ++ (⟨.character, [125], u⟩ :: (http' ++ [⟨.character, [125], v⟩])))
      (actions ++ (first ++ second)) (third ++ .server :: (fourth ++ [.http])) := by
  have whole := Text.Grammar.Place.self grammar .config
  have httpSection : grammar.Place .httpSection .config top [] actions [] := by
    rcases level with rfl | rfl
    · exact whole.inside 0 rfl rfl outer .nil
    · exact whole.inside 1 rfl rfl outer .nil
  have openHttp := parses_open ⟨.http, bytes "http", p⟩ (by simp) q
  have httpDirectives := httpSection.inside 0 rfl rfl openHttp (parses_close v)
  have httpDirective := httpDirectives_list.place httpDirectives before behind
  have serverSection := httpDirective.inside 10 rfl rfl .nil .nil
  have openServer := parses_open ⟨.server, bytes "server", r⟩ (by simp) s
  have serverDirectives := serverSection.inside 0 rfl rfl openServer (parses_close u)
  have serverDirective := serverDirectives_list.place serverDirectives inside inside'
  simpa [Grammar.acts, Grammar.quiet] using serverDirective

/-- The parser gets all tokens in front of the directive. -/
theorem endsInput_front (place : grammar.Place .serverDirective .config (lexer.scan 0 front)
    rest pre post) : ∀ tok ∈ lexer.scan 0 front, endsInput tok = false := by
  intro tok member
  rcases place _ _ _ parses_autoindex with ⟨values, parses⟩
  apply endsInput_eq_false
  apply parses.forall_tokens admits_inGrammar
  · intro k inside
    simp at inside
  · exact List.mem_append_left _ (List.mem_append_left _ member)

/-- The actions in front of the directive register no word but as an exact name. -/
theorem marked_front {start : Nat} (place : grammar.Place .serverDirective .config
    (lexer.scan 0 front) (parserInput start back) pre post) : ∀ a ∈ pre, a.Marked := by
  intro a member
  rcases place _ _ _ parses_autoindex with ⟨values, parses⟩
  apply parses.forall_actions marked_of_sees
  · simp only [List.forall_mem_append]
    refine ⟨⟨fun tok inFront => noWord_of_mem_scan inFront, ?_⟩, ?_⟩
    · simp [NoWord]
    · exact fun tok inBack => noWord_of_mem_scan ((List.takeWhile_sublist _).subset inBack)
  · exact List.mem_append_left _ (List.mem_append_left _ member)

/-- What the parser gets, the directive being in its place. -/
theorem parserInput_serverName (word : IsWord s) {kind : TokenKind}
    (accepted : accepts s = some (kind, s.length)) (token : kind.skips = false)
    (noCharacter : kind ≠ .character)
    (separate : lexer.Separate front (serverNameText s ++ back))
    (passes : ∀ tok ∈ lexer.scan 0 front, endsInput tok = false) :
    ∃ p q p', parserInput 0 (front ++ (serverNameText s ++ back)) =
      lexer.scan 0 front ++
        ([⟨.serverName, bytes "server_name", p⟩, ⟨kind, s, q⟩, ⟨.eol, bytes ";", p'⟩] ++
          parserInput (front.length + (serverNameText s).length) back) := by
  have before : ∀ tok ∈ lexer.scan 0 front, (!endsInput tok) = true := by
    intro tok member
    rw [passes tok member]
    rfl
  have own : ∀ p q p', ∀ tok ∈ ([⟨.serverName, bytes "server_name", p⟩, ⟨kind, s, q⟩,
      ⟨.eol, bytes ";", p'⟩] : List (Token TokenKind)), (!endsInput tok) = true := by
    intro p q p' tok member
    have named : tok.kind ≠ .character := by
      simp only [List.mem_cons, List.not_mem_nil, or_false] at member
      rcases member with rfl | rfl | rfl
      · simp
      · exact noCharacter
      · simp
    rw [endsInput, terminal_of_kind named]
    rfl
  rw [parserInput, separate.scan_append, List.takeWhile_append_of_pos before,
    scan_serverNameText word accepted token, Nat.zero_add]
  exact ⟨_, _, _, congrArg _ (List.takeWhile_append_of_pos (own _ _ _))⟩

/-- What is accepted in the place of a server directive is an ordinary word. -/
theorem ordinary_of_parses (word : IsWord s)
    (separate : lexer.Separate front (serverNameText s ++ back))
    (place : grammar.Place .serverDirective .config (lexer.scan 0 front) rest pre post)
    {values : Grammar.Values} {actions : List Action}
    (parses : grammar.Parses [.nonterminal .config]
      (parserInput 0 (front ++ (serverNameText s ++ back))) values actions) : Ordinary s := by
  rcases accepts_word word with
    ⟨kind, accepted, token, noCharacter, noPrefix, noSuffix, ordinary⟩
  rcases parserInput_serverName word accepted token noCharacter separate
    (endsInput_front place) with ⟨p, q, p', input⟩
  rw [input] at parses
  rcases parses.behind follows_serverName rfl rfl rfl with ⟨tok, more, behind, inKinds⟩
  obtain rfl := (List.cons.inj behind).1
  have isName : grammar.kind ⟨kind, s, q⟩ = .token kind := terminal_of_kind noCharacter
  rw [isName] at inKinds
  apply ordinary.mp
  simpa [noPrefix, noSuffix] using inKinds

end Place

/-! ## Registration -/

/-- The names of the server under construction, the default left aside. -/
def registered (s : ParseState) : List (Bytes × ServerNameType) :=
  s.serverNames.items.map fun sn => (sn.serverName.text, sn.type)

theorem mem_addName {p : Pending ServerName} (exact_ : ExactWords p) (word : IsWord s)
    (e : Bytes × ServerNameType) :
    e ∈ (addName (.token s) .serverNameExact p).items.map
        (fun sn => (sn.serverName.text, sn.type)) ↔
      e ∈ p.items.map (fun sn => (sn.serverName.text, sn.type)) ∨ e = (s, .serverNameExact) := by
  rw [addName]
  split
  · next twice =>
      rcases List.any_eq_true.mp twice with ⟨sn, member, same⟩
      have text : sn.serverName.text = s := beq_iff_eq.mp same
      have type := exact_ sn member (text ▸ word)
      constructor
      · exact .inl
      · rintro (inside | rfl)
        · exact inside
        · exact List.mem_map.mpr ⟨sn, member, by rw [text, type]⟩
  · simp [Pending.push, CString.token, or_comm]

variable {pre post : List Action}

/-- An ordinary word is accepted in the place of a server directive, as a name. -/
theorem parses_of_ordinary (word : IsWord s) (ordinary : Ordinary s)
    (separate : lexer.Separate front (serverNameText s ++ back))
    (place : grammar.Place .serverDirective .config (lexer.scan 0 front)
      (parserInput (front.length + (serverNameText s).length) back) pre post) :
    ∃ values, grammar.Parses [.nonterminal .config]
      (parserInput 0 (front ++ (serverNameText s ++ back))) values
      (pre ++ [.serverName (.token s) .serverNameExact] ++ post) := by
  rcases accepts_word word with ⟨kind, accepted, token, noCharacter, _, _, named⟩
  rcases parserInput_serverName word accepted token noCharacter separate
    (endsInput_front place) with ⟨p, q, p', input⟩
  have noZero : 0 ∉ s := by
    intro member
    cases word.2 0 member
  have text : cString s = s := by
    rw [← List.append_nil s, cString_append noZero]
    rfl
  have inner := parses_serverName s p q p'
  rw [text] at inner
  rw [input, named.mpr ordinary, ← List.append_assoc]
  exact place _ _ _ inner

/-- In the place of a server directive, a word is accepted and registered as an exact name if
and only if the scanner has no other token for it. -/
theorem serverName_registers_iff (word : IsWord s)
    (separate : lexer.Separate front (serverNameText s ++ back))
    (place : grammar.Place .serverDirective .config (lexer.scan 0 front)
      (parserInput (front.length + (serverNameText s).length) back) pre post)
    (gethostbyname : Resolver) :
    (∃ own values, grammar.Parses [.nonterminal .config]
        (parserInput 0 (front ++ (serverNameText s ++ back))) values (pre ++ own ++ post) ∧
      ∀ st, run (perform gethostbyname) .initial pre = .ok st →
        ∃ t, run (perform gethostbyname) st own = .ok t ∧
          ∀ e, e ∈ registered t ↔ e ∈ registered st ∨ e = (s, .serverNameExact)) ↔
      Ordinary s := by
  constructor
  · rintro ⟨own, values, parses, _⟩
    exact ordinary_of_parses word separate place parses
  · intro ordinary
    rcases parses_of_ordinary word ordinary separate place with ⟨values, parses⟩
    refine ⟨_, values, parses, ?_⟩
    intro st ran
    have none_ : ExactWords ParseState.initial.settings.serverNames := by
      intro sn member
      cases member
    have exact_ := none_.afterAll (marked_front place)
    rw [← settings_of_run ran] at exact_
    refine ⟨{ st with serverNames := addName (.token s) .serverNameExact st.serverNames }, ?_, ?_⟩
    · exact run_singleton_eq_ok_iff.mpr (fServerName_eq_ok_iff.mpr ⟨fun _ => rfl, rfl⟩)
    · exact mem_addName exact_ word

/-! ## An empty server -/

/-- A configuration up to the place of a directive in its only server. -/
def emptyServer : Bytes :=
  bytes "events \x7b \x7d http \x7b server \x7b "

/-- The end of the configuration. -/
def emptyServerEnd : Bytes :=
  bytes "\x7d \x7d"

theorem emptyServer_eq :
    emptyServer = bytes "events" ++ 32 :: 123 :: 32 :: 125 :: 32 :: (bytes "http" ++
      32 :: 123 :: 32 :: (bytes "server" ++ 32 :: 123 :: [32])) :=
  rfl

theorem word_events :
    IsWord (bytes "events") ∧ accepts (bytes "events") = some (.events, 6) :=
  word_of_keyword (by simp [keywords])

theorem word_http : IsWord (bytes "http") ∧ accepts (bytes "http") = some (.http, 4) :=
  word_of_keyword (by simp [keywords])

theorem word_server :
    IsWord (bytes "server") ∧ accepts (bytes "server") = some (.server, 6) :=
  word_of_keyword (by simp [keywords])

theorem open_single : (123, .character) ∈ singles :=
  List.mem_cons_of_mem _ List.mem_cons_self

theorem close_single : (125, .character) ∈ singles :=
  List.mem_cons_of_mem _ (List.mem_cons_of_mem _ List.mem_cons_self)

theorem scan_emptyServer :
    lexer.scan 0 emptyServer =
      [⟨.events, bytes "events", some 0⟩, ⟨.character, [123], some 7⟩, ⟨.character, [125], some 9⟩,
        ⟨.http, bytes "http", some 11⟩, ⟨.character, [123], some 16⟩,
        ⟨.server, bytes "server", some 18⟩, ⟨.character, [123], some 25⟩] := by
  rw [emptyServer_eq, scan_word word_events.1 word_events.2 rfl space_mem, scan_white rfl,
    scan_single open_single rfl, scan_white rfl, scan_single close_single rfl, scan_white rfl,
    scan_word word_http.1 word_http.2 rfl space_mem, scan_white rfl, scan_single open_single rfl,
    scan_white rfl, scan_word word_server.1 word_server.2 rfl space_mem, scan_white rfl,
    scan_single open_single rfl, scan_white rfl, Scanner.scan_nil]
  rfl

theorem parserInput_emptyServerEnd (place : Nat) :
    parserInput place emptyServerEnd =
      [⟨.character, [125], some place⟩, ⟨.character, [125], some (place + 2)⟩] := by
  have split : emptyServerEnd = [125, 32, 125] := rfl
  rw [parserInput, split, scan_single close_single rfl, scan_white rfl,
    scan_single close_single rfl, Scanner.scan_nil]
  rfl

theorem place_emptyServer (start : Nat) :
    grammar.Place .serverDirective .config (lexer.scan 0 emptyServer)
      (parserInput start emptyServerEnd) [] [.server, .http] := by
  have braces : grammar.Parses [Grammar.t .events, Grammar.openBrace, Grammar.closeBrace]
      [⟨.events, bytes "events", some 0⟩, ⟨.character, [123], some 7⟩, ⟨.character, [125], some 9⟩]
      [_, _, _] [] :=
    .terminal rfl (.terminal rfl (.terminal rfl .nil))
  have events : grammar.Parses [.nonterminal .eventsSection]
      [⟨.events, bytes "events", some 0⟩, ⟨.character, [123], some 7⟩, ⟨.character, [125], some 9⟩]
      [none] [] :=
    .of_alternative 1 rfl braces rfl
  rw [scan_emptyServer, parserInput_emptyServerEnd]
  exact place_serverDirective (.inr rfl) events .nil .nil .nil .nil _ _ _ _ _ _

theorem separate_emptyServer (second : Bytes) : lexer.Separate emptyServer second := by
  have space : ∀ text, lexer.munch (32 :: text) = some (.whiteSpace, 1) := munch_white rfl
  have open_ : ∀ text, lexer.munch (123 :: text) = some (.character, 1) :=
    munch_single open_single
  have close : ∀ text, lexer.munch (125 :: text) = some (.character, 1) :=
    munch_single close_single
  have nothing : lexer.Separate [] second := .nil
  have server := separate_word word_server.1 word_server.2 space_mem
    (separate_byte space (separate_byte open_ (separate_byte space nothing)))
  have http := separate_word word_http.1 word_http.2 space_mem
    (separate_byte space (separate_byte open_ (separate_byte space server)))
  rw [emptyServer_eq]
  exact separate_word word_events.1 word_events.2 space_mem (separate_byte space
    (separate_byte open_ (separate_byte space (separate_byte close (separate_byte space http)))))

/-- An exact name, in an otherwise empty server. -/
theorem serverName_registers_localhost :
    ∃ own values t, grammar.Parses [.nonterminal .config]
        (parserInput 0 (emptyServer ++ (serverNameText (bytes "localhost") ++ emptyServerEnd)))
        values ([] ++ own ++ [.server, .http]) ∧
      run (perform fun _ => none) .initial own = .ok t ∧
        (bytes "localhost", .serverNameExact) ∈ registered t := by
  have word : IsWord (bytes "localhost") := by decide +kernel
  have ordinary : Ordinary (bytes "localhost") := by decide +kernel
  rcases (serverName_registers_iff word (separate_emptyServer _) (place_emptyServer _)
    fun _ => none).mpr ordinary with ⟨own, values, parses, registers⟩
  rcases registers .initial rfl with ⟨t, ran, names⟩
  exact ⟨own, values, t, parses, ran, (names _).mpr (.inr rfl)⟩

/-- An address is a word, and no name. -/
theorem address_is_no_serverName :
    IsWord (bytes "127.0.0.1") ∧
      ¬ ∃ values actions, grammar.Parses [.nonterminal .config]
        (parserInput 0 (emptyServer ++ (serverNameText (bytes "127.0.0.1") ++ emptyServerEnd)))
        values actions := by
  have word : IsWord (bytes "127.0.0.1") := by decide +kernel
  refine ⟨word, ?_⟩
  rintro ⟨values, actions, parses⟩
  have ordinary := ordinary_of_parses word (separate_emptyServer _) (place_emptyServer 0)
    parses
  exact absurd ordinary (by decide +kernel)

end OgWebserver.Config

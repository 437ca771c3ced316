import OgWebserver.Config.Productions
import OgWebserver.Text.Descent

/-!
# Reading configurations

An executable reader for the grammar.  Three nonterminals are first written in another way: a
list that recurses to the right, one whose last item stands apart, and an alternative that
hides how the others of its nonterminal go on.
-/

namespace OgWebserver.Config

open Text

namespace Grammar

/-- The alternatives, as the reader takes them. -/
def straightAlternatives : Nonterminal → List Rhs
  | .mainDirectives =>
      [quiet [n .mainDirectives, n .mainDirective], quiet [n .mainDirective]]
  | .indexDirective => [quiet [t .index, n .indexFiles, t .eol]]
  | .listenOption => alternatives .listenPair ++ (alternatives .listenOption).dropLast
  | m => alternatives m

/-- Goes down from the whole configuration to the directives. -/
def rank : Nonterminal → Nat
  | .config => 11
  | .httpSection => 10
  | .httpDirectives => 9
  | .httpDirective => 8
  | .serverSection => 7
  | .serverDirectives => 6
  | .serverDirective => 5
  | .locationSection => 4
  | .locationDirectives | .listenDirective => 3
  | .mainDirectives | .eventsSection | .indexDirective | .serverNameDirective
  | .upstreamDirective | .sslDirective | .locationDirective | .listenOptions => 2
  | .mainDirective | .eventsDirectives | .indexFiles | .logFormatDirective | .serverNames
  | .upstreams | .protocolNames | .proxyPassDirective | .tryFilesDirective | .listenOption => 1
  | _ => 0

end Grammar

def straight : Text.Grammar (Token TokenKind) Terminal Nonterminal Action where
  kind := Grammar.terminal
  alternatives := Grammar.straightAlternatives

namespace Grammar

/-- The terminals that a nonterminal begins with. -/
def firsts (m : Nonterminal) : List Terminal :=
  straight.starts 5 m

/-- The terminals that go on with a list. -/
def continues (m : Nonterminal) : List Terminal :=
  (straight.tails m).flatMap fun alt =>
    match alt.symbols with
    | .terminal k :: _ => [k]
    | .nonterminal item :: _ => firsts item
    | [] => []

/-- A port is never behind an option of `listen`: it would be a part of it. -/
def plan : Text.Grammar.Plan Terminal Nonterminal where
  rank := rank
  first := firsts
  word m := m == .indexFile || m == .serverName || m == .protocolName || m == .protocol
  avoid m :=
    (if m = .listenOption ∨ m = .listenOptions then [.token .port] else []) ++ continues m

theorem plan_valid : plan.Valid straight := by
  intro m
  cases m <;> decide +kernel

end Grammar

/-- The actions of a configuration, given by its tokens. -/
def readConfig (tokens : List (Token TokenKind)) : Option (List Action) :=
  straight.read Grammar.plan .config tokens

/-! ## The same language -/

section Translation

variable {symbols : List (Symbol Terminal Nonterminal)} {tokens tokens' : List (Token TokenKind)}
variable {values values' : Grammar.Values} {actions actions' : List Action}

/-- The alternatives that are taken as they are. -/
theorem straight_alternatives {m : Nonterminal} (main : m ≠ .mainDirectives)
    (index : m ≠ .indexDirective) (option : m ≠ .listenOption) :
    straight.alternatives m = grammar.alternatives m := by
  cases m <;> first | rfl | contradiction

/-- A directive in front of a list that recurses to the left. -/
theorem straight_mainDirectives
    (first : straight.Parses [.nonterminal .mainDirective] tokens [none] actions)
    (others : straight.Parses [.nonterminal .mainDirectives] tokens' [none] actions') :
    straight.Parses [.nonterminal .mainDirectives] (tokens ++ tokens') [none]
      (actions ++ actions') := by
  have spine := others.spine Grammar.plan_valid
  have ll : straight.LeftList .mainDirectives .mainDirective :=
    ⟨⟨1, _, rfl, rfl, rfl⟩, ⟨0, _, rfl, rfl, rfl⟩⟩
  have alone := ll.parses_items .nil first
  induction spine with
  | base one =>
      rcases one with ⟨alt, member, values, own, parses, rfl⟩
      obtain rfl := List.mem_singleton.mp member
      obtain rfl := parses.values_eq
      rw [Grammar.quiet, Grammar.acts, List.append_nil]
      exact ll.parses_more alone parses
  | more spine one ih =>
      rcases one with ⟨alt, member, values, own, parses, rfl⟩
      obtain rfl := List.mem_singleton.mp member
      obtain rfl := parses.values_eq
      rw [← List.append_assoc, ← List.append_assoc]
      have longer := ll.parses_more (ih spine.parses) parses
      simpa [Grammar.quiet, Grammar.acts] using longer

/-- A directive behind a list that recurses to the right. -/
theorem grammar_mainDirectives (parses : grammar.Parses symbols tokens values actions)
    (front : List (Symbol Terminal Nonterminal))
    (split : symbols = front ++ [.nonterminal .mainDirectives])
    (last : grammar.Parses [.nonterminal .mainDirective] tokens' [none] actions') :
    grammar.Parses symbols (tokens ++ tokens') values (actions ++ actions') := by
  induction parses generalizing front with
  | nil => simp at split
  | token _ ih =>
      cases front with
      | nil => cases split
      | cons s front => exact (ih front (List.cons.inj split).2).token
  | @node m alt symbols inner tokens values _ own _ member inside rest ih ih' =>
      cases front with
      | cons s front =>
          have longer := ih' front (List.cons.inj split).2
          rw [List.append_assoc, List.append_assoc]
          exact .node member inside longer
      | nil =>
          obtain ⟨⟨⟩, rfl⟩ := List.cons.inj split
          cases rest
          rw [List.append_nil, List.append_nil]
          rcases List.mem_pair.mp member with rfl | rfl
          · have longer := ih [.nonterminal .mainDirective] rfl
            have whole := Text.Grammar.Parses.node member longer .nil
            simpa [Grammar.quiet, Grammar.acts] using whole
          · have alone : grammar.Parses [.nonterminal .mainDirectives] tokens' [none] actions' := by
              apply Text.Grammar.Parses.of_alternative 1 rfl last
              exact List.append_nil _
            have both := inside.append alone
            have whole : grammar.Parses [.nonterminal .mainDirectives] (inner ++ tokens') [none]
                (own ++ actions') :=
              .of_alternative 0 rfl both (List.append_nil _)
            simpa [Grammar.quiet, Grammar.acts] using whole

/-- The reader's grammar derives what the grammar does. -/
theorem straight_of_alternative (m : Nonterminal) : ∀ alt ∈ grammar.alternatives m,
    ∀ tokens values actions, straight.Parses alt.symbols tokens values actions →
      straight.Parses [.nonterminal m] tokens [none] (actions ++ alt.action values) := by
  intro alt member tokens values actions parses
  by_cases main : m = .mainDirectives
  · subst main
    rcases List.mem_pair.mp member with rfl | rfl
    · rcases parses.uncons with ⟨_, _, _, _, _, _, rfl, rfl, rfl, first, others⟩
      obtain rfl := others.values_eq
      obtain rfl := (List.cons.inj first.values_eq).1
      simpa [Grammar.quiet, Grammar.acts] using straight_mainDirectives first others
    · exact .of_alternative 1 rfl parses rfl
  by_cases index : m = .indexDirective
  · subst index
    rcases List.mem_pair.mp member with rfl | rfl
    · rcases parses.uncons with ⟨_, _, _, _, _, _, rfl, rfl, rfl, word, files⟩
      rcases files.uncons with ⟨_, _, _, _, _, _, rfl, rfl, rfl, first, last⟩
      rcases last.uncons with ⟨_, _, _, _, _, _, rfl, rfl, rfl, last, eol⟩
      have all : straight.Parses [.nonterminal .indexFiles] _ [none] _ :=
        .of_alternative 0 rfl (first.append last) (List.append_nil _)
      have whole := word.append (all.append eol)
      have directive : straight.Parses [.nonterminal .indexDirective] _ [none] _ :=
        .of_alternative 0 rfl whole (List.append_nil _)
      simpa [Grammar.quiet, Grammar.acts] using directive
    · rcases parses.uncons with ⟨_, _, _, _, _, _, rfl, rfl, rfl, word, files⟩
      rcases files.uncons with ⟨_, _, _, _, _, _, rfl, rfl, rfl, last, eol⟩
      have all : straight.Parses [.nonterminal .indexFiles] _ [none] _ :=
        .of_alternative 1 rfl last (List.append_nil _)
      have whole := word.append (all.append eol)
      have directive : straight.Parses [.nonterminal .indexDirective] _ [none] _ :=
        .of_alternative 0 rfl whole (List.append_nil _)
      simpa [Grammar.quiet, Grammar.acts] using directive
  by_cases option : m = .listenOption
  · subst option
    have split : grammar.alternatives .listenOption =
        (grammar.alternatives .listenOption).dropLast ++ [Grammar.quiet [.nonterminal .listenPair]] :=
      rfl
    rw [split, List.mem_append, List.mem_singleton] at member
    rcases member with own | rfl
    · have inside : alt ∈ straight.alternatives .listenOption := List.mem_append_right _ own
      have whole := Text.Grammar.Parses.node inside parses .nil
      rwa [List.append_nil, List.append_nil] at whole
    · rcases parses with _ | _ | ⟨pair, inner, rest⟩
      cases rest
      have inside := List.mem_append_left (Grammar.alternatives .listenOption).dropLast pair
      have whole := @Text.Grammar.Parses.node _ _ _ _ straight .listenOption _ [] _ [] _ [] _ []
        inside inner .nil
      simpa [Grammar.quiet, Grammar.acts] using whole
  · rw [← straight_alternatives main index option] at member
    have whole := Text.Grammar.Parses.node member parses .nil
    rwa [List.append_nil, List.append_nil] at whole

/-- The grammar derives what the reader's grammar does. -/
theorem grammar_of_alternative (m : Nonterminal) : ∀ alt ∈ straight.alternatives m,
    ∀ tokens values actions, grammar.Parses alt.symbols tokens values actions →
      grammar.Parses [.nonterminal m] tokens [none] (actions ++ alt.action values) := by
  intro alt member tokens values actions parses
  by_cases main : m = .mainDirectives
  · subst main
    rcases List.mem_pair.mp member with rfl | rfl
    · rcases parses.uncons with ⟨_, _, _, _, _, _, rfl, rfl, rfl, first, last⟩
      obtain rfl := last.values_eq
      obtain rfl := (List.cons.inj first.values_eq).1
      have whole : grammar.Parses [.nonterminal .mainDirectives] _ [none] _ :=
        grammar_mainDirectives first [] rfl last
      simpa [Grammar.quiet, Grammar.acts] using whole
    · exact .of_alternative 1 rfl parses rfl
  by_cases index : m = .indexDirective
  · subst index
    obtain rfl := List.mem_singleton.mp member
    rcases parses.uncons with ⟨_, _, _, _, _, _, rfl, rfl, rfl, word, files⟩
    rcases files.uncons with ⟨_, _, _, _, _, _, rfl, rfl, rfl, all, eol⟩
    cases all with
    | node inside inner rest =>
        cases rest
        rcases List.mem_pair.mp inside with rfl | rfl
        · have whole := word.append (inner.append eol)
          have directive : grammar.Parses [.nonterminal .indexDirective] _ [none] _ :=
            .of_alternative 0 rfl whole (List.append_nil _)
          simpa [Grammar.quiet, Grammar.acts] using directive
        · have whole := word.append (inner.append eol)
          have directive : grammar.Parses [.nonterminal .indexDirective] _ [none] _ :=
            .of_alternative 1 rfl whole (List.append_nil _)
          simpa [Grammar.quiet, Grammar.acts] using directive
  by_cases option : m = .listenOption
  · subst option
    rcases List.mem_append.mp member with pair | own
    · have member : alt ∈ grammar.alternatives .listenPair := pair
      have inner := Text.Grammar.Parses.node member parses .nil
      rw [List.append_nil, List.append_nil] at inner
      exact .of_alternative 7 rfl inner (List.append_nil _)
    · have inside : alt ∈ grammar.alternatives .listenOption := List.mem_of_mem_dropLast own
      have whole := Text.Grammar.Parses.node inside parses .nil
      rwa [List.append_nil, List.append_nil] at whole
  · rw [straight_alternatives main index option] at member
    have whole := Text.Grammar.Parses.node member parses .nil
    rwa [List.append_nil, List.append_nil] at whole

end Translation

/-! ## Reading -/

/-- A configuration is read if and only if the grammar derives it, and with its actions. -/
theorem readConfig_eq_some_iff {tokens : List (Token TokenKind)} {actions : List Action} :
    readConfig tokens = some actions ↔
      grammar.Parses [.nonterminal .config] tokens [none] actions := by
  rw [readConfig, Text.Grammar.read_eq_some_iff Grammar.plan_valid]
  constructor
  · intro parses
    exact @Text.Grammar.Parses.translate _ _ _ _ straight grammar rfl grammar_of_alternative
      _ _ _ _ parses
  · intro parses
    exact @Text.Grammar.Parses.translate _ _ _ _ grammar straight rfl straight_of_alternative
      _ _ _ _ parses

end OgWebserver.Config

import Mathlib.Computability.Language

/-!
# Grammars with actions

Context-free rules whose reductions perform actions, as a parser generator takes them.  A
derivation gives the actions in the order in which a bottom-up parser performs them: those
of the symbols from left to right, and then those of the alternative itself.
-/

namespace OgWebserver.Text

universe u v w x

/-- What a nonterminal may stand for.  The actions see the tokens among the symbols; a
nonterminal has no value. -/
structure Alternative (τ : Type u) (κ : Type v) (ν : Type w) (α : Type x) where
  symbols : List (Symbol κ ν)
  action : List (Option τ) → List α

/-- The alternatives of each nonterminal, and the terminal that a token is. -/
structure Grammar (τ : Type u) (κ : Type v) (ν : Type w) (α : Type x) where
  kind : τ → κ
  alternatives : ν → List (Alternative τ κ ν α)

namespace Grammar

variable {τ : Type u} {κ : Type v} {ν : Type w} {α : Type x}

/-- The tokens are what the symbols stand for; the values of the symbols, and the actions. -/
inductive Parses (g : Grammar τ κ ν α) :
    List (Symbol κ ν) → List τ → List (Option τ) → List α → Prop
  | nil : Parses g [] [] [] []
  | token {t : τ} {symbols tokens values actions} (rest : Parses g symbols tokens values actions) :
      Parses g (.terminal (g.kind t) :: symbols) (t :: tokens) (some t :: values) actions
  | node {n : ν} {alt : Alternative τ κ ν α}
      {symbols inner tokens values values' actions actions'}
      (member : alt ∈ g.alternatives n) (inside : Parses g alt.symbols inner values actions)
      (rest : Parses g symbols tokens values' actions') :
      Parses g (.nonterminal n :: symbols) (inner ++ tokens) (none :: values')
        (actions ++ alt.action values ++ actions')

/-- Any number of items, one after the other. -/
inductive Items (g : Grammar τ κ ν α) (item : ν) : List τ → List α → Prop
  | nil : Items g item [] []
  | snoc {tokens tokens' values actions actions'} (rest : Items g item tokens actions)
      (last : g.Parses [.nonterminal item] tokens' values actions') :
      Items g item (tokens ++ tokens') (actions ++ actions')

/-- The nonterminal stands for one or more items, and its rules only collect them. -/
structure LeftList (g : Grammar τ κ ν α) (list item : ν) : Prop where
  one : ∃ (i : Nat) (alt : Alternative τ κ ν α), (g.alternatives list)[i]? = some alt ∧
    alt.symbols = [.nonterminal item] ∧ alt.action [none] = []
  more : ∃ (i : Nat) (alt : Alternative τ κ ν α), (g.alternatives list)[i]? = some alt ∧
    alt.symbols = [.nonterminal list, .nonterminal item] ∧ alt.action [none, none] = []

/-- Between these tokens there is a place for the first nonterminal in the second: whatever
is derived from it may stand there, with its actions between the given ones. -/
def Place (g : Grammar τ κ ν α) (hole whole : ν) (front back : List τ) (pre post : List α) :
    Prop :=
  ∀ inner values actions, g.Parses [.nonterminal hole] inner values actions →
    ∃ values, g.Parses [.nonterminal whole] (front ++ inner ++ back) values (pre ++ actions ++ post)

variable {g : Grammar τ κ ν α} {symbols symbols' : List (Symbol κ ν)} {tokens tokens' : List τ}
variable {values values' : List (Option τ)} {actions actions' : List α}

theorem Parses.append (first : g.Parses symbols tokens values actions)
    (second : g.Parses symbols' tokens' values' actions') :
    g.Parses (symbols ++ symbols') (tokens ++ tokens') (values ++ values')
      (actions ++ actions') := by
  induction first with
  | nil => exact second
  | token _ ih => exact ih.token
  | node member inside _ _ ih =>
      rw [List.append_assoc, List.append_assoc]
      exact .node member inside ih

theorem Parses.terminal {t : τ} {k : κ} (is : g.kind t = k)
    (rest : g.Parses symbols tokens values actions) :
    g.Parses (.terminal k :: symbols) (t :: tokens) (some t :: values) actions := by
  subst is
  exact rest.token

/-- What the alternative at a position derives. -/
theorem Parses.of_alternative {n : ν} {alt : Alternative τ κ ν α} (i : Nat)
    (here : (g.alternatives n)[i]? = some alt) (inside : g.Parses alt.symbols tokens values actions)
    (performs : actions ++ alt.action values = actions') :
    g.Parses [.nonterminal n] tokens [none] actions' := by
  have whole := Parses.node (List.mem_of_getElem? here) inside .nil
  rwa [List.append_nil, List.append_nil, performs] at whole

/-- A nonterminal alone has no value. -/
theorem Parses.values_eq {n : ν} (parses : g.Parses [.nonterminal n] tokens values actions) :
    values = [none] := by
  cases parses with
  | node _ _ rest =>
      cases rest
      rfl

/-! ## Places -/

variable {hole whole : ν} {front back : List τ} {pre post : List α}

theorem Place.self (g : Grammar τ κ ν α) (n : ν) : g.Place n n [] [] [] [] := by
  intro inner values actions parses
  rw [List.nil_append, List.append_nil, List.nil_append, List.append_nil]
  exact ⟨values, parses⟩

/-- A place in an alternative of what stands in a place. -/
theorem Place.inside {n : ν} (place : g.Place n whole front back pre post)
    {alt : Alternative τ κ ν α} (i : Nat) (here : (g.alternatives n)[i]? = some alt)
    (split : alt.symbols = symbols ++ .nonterminal hole :: symbols')
    (before : g.Parses symbols tokens values actions)
    (behind : g.Parses symbols' tokens' values' actions') :
    g.Place hole whole (front ++ tokens) (tokens' ++ back) (pre ++ actions)
      (actions' ++ (alt.action (values ++ none :: values') ++ post)) := by
  intro inner values'' actions'' parses
  obtain rfl := parses.values_eq
  have inside := before.append (parses.append behind)
  rw [List.singleton_append, ← split] at inside
  have outer := place _ _ _ (.of_alternative i here inside rfl)
  simpa only [List.append_assoc, List.singleton_append] using outer

variable {list item : ν}

theorem LeftList.parses_more (ll : g.LeftList list item)
    (first : g.Parses [.nonterminal list] tokens values actions)
    (last : g.Parses [.nonterminal item] tokens' values' actions') :
    g.Parses [.nonterminal list] (tokens ++ tokens') [none] (actions ++ actions') := by
  rcases ll.more with ⟨i, alt, here, symbols, quiet⟩
  obtain rfl := first.values_eq
  obtain rfl := last.values_eq
  have both := first.append last
  rw [List.singleton_append, ← symbols] at both
  apply Parses.of_alternative i here both
  rw [List.singleton_append, quiet, List.append_nil]

theorem LeftList.parses_items (ll : g.LeftList list item) (before : g.Items item tokens actions)
    (last : g.Parses [.nonterminal item] tokens' values' actions') :
    g.Parses [.nonterminal list] (tokens ++ tokens') [none] (actions ++ actions') := by
  induction before generalizing tokens' values' actions' with
  | nil =>
      rcases ll.one with ⟨i, alt, here, symbols, quiet⟩
      obtain rfl := last.values_eq
      rw [← symbols] at last
      apply Parses.of_alternative i here last
      rw [quiet, List.append_nil]
      rfl
  | snoc _ item ih => exact ll.parses_more (ih item) last

theorem LeftList.parses_append (ll : g.LeftList list item)
    (first : g.Parses [.nonterminal list] tokens [none] actions)
    (behind : g.Items item tokens' actions') :
    g.Parses [.nonterminal list] (tokens ++ tokens') [none] (actions ++ actions') := by
  induction behind with
  | nil =>
      rw [List.append_nil, List.append_nil]
      exact first
  | snoc _ item ih =>
      rw [← List.append_assoc, ← List.append_assoc]
      exact ll.parses_more ih item

/-- A place among the items of a list. -/
theorem LeftList.place (ll : g.LeftList list item) (place : g.Place list whole front back pre post)
    (before : g.Items item tokens actions) (behind : g.Items item tokens' actions') :
    g.Place item whole (front ++ tokens) (tokens' ++ back) (pre ++ actions) (actions' ++ post) := by
  intro inner values actions'' parses
  have outer := place _ _ _ (ll.parses_append (ll.parses_items before parses) behind)
  simpa only [List.append_assoc] using outer

/-! ## What holds of all tokens and actions -/

/-- The values that the actions of an alternative can see, given what is known of tokens. -/
def Sees (g : Grammar τ κ ν α) (known : τ → Prop) :
    List (Symbol κ ν) → List (Option τ) → Prop :=
  List.Forall₂ fun symbol value =>
    match symbol, value with
    | .terminal k, some t => g.kind t = k ∧ known t
    | .nonterminal _, none => True
    | _, _ => False

/-- The value of a terminal is a token of its kind. -/
theorem Sees.token {known : τ → Prop} {k : κ} (sees : g.Sees known (.terminal k :: symbols) values) :
    ∃ t rest, values = some t :: rest ∧ g.kind t = k ∧ known t := by
  rcases List.forall₂_cons_left_iff.mp sees with ⟨value, rest, here, _, rfl⟩
  cases value with
  | none => cases here
  | some t => exact ⟨t, rest, rfl, here.1, here.2⟩

theorem Parses.sees {known : τ → Prop} (parses : g.Parses symbols tokens values actions)
    (all : ∀ t ∈ tokens, known t) : g.Sees known symbols values := by
  induction parses with
  | nil => exact .nil
  | token _ ih =>
      rw [List.forall_mem_cons] at all
      exact .cons ⟨rfl, all.1⟩ (ih all.2)
  | node _ _ _ _ ih =>
      exact .cons trivial (ih fun t member => all t (List.mem_append_right _ member))

/-- What holds of the actions of every alternative holds of all actions. -/
theorem Parses.forall_actions {known : τ → Prop} {P : α → Prop}
    (rules : ∀ n, ∀ alt ∈ g.alternatives n, ∀ values, g.Sees known alt.symbols values →
      ∀ a ∈ alt.action values, P a)
    (parses : g.Parses symbols tokens values actions) (all : ∀ t ∈ tokens, known t) :
    ∀ a ∈ actions, P a := by
  induction parses with
  | nil => simp
  | token _ ih => exact ih (List.forall_mem_cons.mp all).2
  | node member inside _ ih ih' =>
      rcases List.forall_mem_append.mp all with ⟨inner, others⟩
      simp only [List.forall_mem_append]
      exact ⟨⟨ih inner, rules _ _ member _ (inside.sees inner)⟩, ih' others⟩

/-- The terminals of the alternatives are such. -/
def Admits (g : Grammar τ κ ν α) (admitted : κ → Bool) : Prop :=
  ∀ n, (g.alternatives n).all fun alt => alt.symbols.all fun symbol =>
    match symbol with
    | .terminal k => admitted k
    | .nonterminal _ => true

theorem Parses.forall_tokens {admitted : κ → Bool} (rules : g.Admits admitted)
    (parses : g.Parses symbols tokens values actions)
    (all : ∀ k, .terminal k ∈ symbols → admitted k = true) :
    ∀ t ∈ tokens, admitted (g.kind t) = true := by
  induction parses with
  | nil => simp
  | token _ ih =>
      rw [List.forall_mem_cons]
      exact ⟨all _ List.mem_cons_self, ih fun k member => all k (List.mem_cons_of_mem _ member)⟩
  | @node n alt _ _ _ _ _ _ _ member _ _ ih ih' =>
      rw [List.forall_mem_append]
      constructor
      · apply ih
        intro k inside
        exact List.all_eq_true.mp (List.all_eq_true.mp (rules n) alt member) _ inside
      · exact ih' fun k member => all k (List.mem_cons_of_mem _ member)

/-! ## What the nonterminals perform -/

/-- What the symbols perform and see, if each nonterminal performs one of the given. -/
def Performs (meaning : ν → Set (List α)) :
    List (Symbol κ ν) → List (Option τ) → List α → Prop
  | [], values, actions => values = [] ∧ actions = []
  | .terminal _ :: symbols, values, actions =>
      ∃ t others, values = some t :: others ∧ Performs meaning symbols others actions
  | .nonterminal n :: symbols, values, actions =>
      ∃ own ∈ meaning n, ∃ others rest, values = none :: others ∧ actions = own ++ rest ∧
        Performs meaning symbols others rest

variable {meaning : ν → Set (List α)}

theorem Parses.performs
    (rules : ∀ n, ∀ alt ∈ g.alternatives n, ∀ values actions,
      Performs meaning alt.symbols values actions → actions ++ alt.action values ∈ meaning n)
    (parses : g.Parses symbols tokens values actions) :
    Performs meaning symbols values actions := by
  induction parses with
  | nil => exact ⟨rfl, rfl⟩
  | token _ ih => exact ⟨_, _, rfl, ih⟩
  | node member _ _ ih ih' => exact ⟨_, rules _ _ member _ _ ih, _, _, rfl, rfl, ih'⟩

/-- Where no nonterminal performs anything, nothing is performed. -/
theorem Performs.eq_nil (meets : Performs meaning symbols values actions)
    (still : ∀ n, .nonterminal n ∈ symbols → meaning n = {[]}) : actions = [] := by
  induction symbols generalizing values actions with
  | nil => exact meets.2
  | cons symbol symbols ih =>
      cases symbol with
      | terminal k =>
          rcases meets with ⟨t, others, _, rest⟩
          exact ih rest fun n member => still n (List.mem_cons_of_mem _ member)
      | nonterminal n =>
          rcases meets with ⟨own, means, others, actions, _, rfl, rest⟩
          rw [still n List.mem_cons_self] at means
          rw [means, ih rest fun n member => still n (List.mem_cons_of_mem _ member)]
          rfl

/-! ## What stands behind a terminal -/

section Behind

variable [DecidableEq κ] (kinds : κ → Bool) (starts : ν → Bool)

/-- The symbols begin with such a terminal, or with such a nonterminal. -/
def begins : List (Symbol κ ν) → Bool
  | [] => false
  | .terminal k :: _ => kinds k
  | .nonterminal n :: _ => starts n

/-- Behind each terminal of the given kind such symbols begin. -/
def guarded (k : κ) : List (Symbol κ ν) → Bool
  | [] => true
  | .terminal j :: symbols => (j != k || begins kinds starts symbols) && guarded k symbols
  | .nonterminal _ :: symbols => guarded k symbols

/-- The alternatives put only tokens of these kinds behind a token of the given kind. -/
def Follows (g : Grammar τ κ ν α) (k : κ) : Prop :=
  ∀ n, (g.alternatives n).all fun alt =>
    guarded kinds starts k alt.symbols && (!starts n || begins kinds starts alt.symbols)

variable {kinds starts} {k : κ}

theorem Parses.begins (rules : g.Follows kinds starts k)
    (parses : g.Parses symbols tokens values actions)
    (start : begins kinds starts symbols = true) :
    ∃ t rest, tokens = t :: rest ∧ kinds (g.kind t) = true := by
  induction parses with
  | nil => cases start
  | token => exact ⟨_, _, rfl, start⟩
  | @node n alt _ _ _ _ _ _ _ member _ _ ih =>
      have own := List.all_eq_true.mp (rules n) alt member
      have first : starts n = true := start
      rw [Bool.and_eq_true, first] at own
      rcases ih own.2 with ⟨t, rest, rfl, inKinds⟩
      exact ⟨t, _, rfl, inKinds⟩

/-- Behind a token of the given kind there is a token, of one of these kinds. -/
theorem Parses.behind (rules : g.Follows kinds starts k)
    (parses : g.Parses symbols tokens values actions)
    (guard : guarded kinds starts k symbols = true) {front back : List τ} {t : τ}
    (split : tokens = front ++ t :: back) (kind : g.kind t = k) :
    ∃ u rest, back = u :: rest ∧ kinds (g.kind u) = true := by
  induction parses generalizing front back with
  | nil => simp at split
  | @token t' _ _ _ _ rest ih =>
      rw [guarded, Bool.and_eq_true] at guard
      rcases front with _ | ⟨c, front⟩
      · obtain ⟨rfl, rfl⟩ := List.cons.inj split
        rw [kind, bne_self_eq_false, Bool.false_or] at guard
        exact rest.begins rules guard.1
      · exact ih guard.2 (List.cons.inj split).2
  | @node n alt _ inner _ _ _ _ _ member _ _ ih ih' =>
      have own := List.all_eq_true.mp (rules n) alt member
      rw [Bool.and_eq_true] at own
      rcases List.append_eq_append_iff.mp split with ⟨more, rfl, is⟩ | ⟨more, is, others⟩
      · exact ih' guard is
      · rcases more with _ | ⟨c, more⟩
        · exact @ih' guard [] back others.symm
        · obtain ⟨rfl, rfl⟩ := List.cons.inj others
          rcases ih own.1 is with ⟨u, rest, rfl, inKinds⟩
          exact ⟨u, _, rfl, inKinds⟩

end Behind

end Grammar

end OgWebserver.Text

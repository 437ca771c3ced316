import OgWebserver.Text.Grammar

/-!
# Reading by descent

A grammar whose only recursion is a nonterminal in front of an alternative of its own can be
read from left to right: one of its other alternatives, and then as many of the recursive ones
as there are.  Where a finite check of the rules finds that the tokens ahead tell which, the
reader finds what the grammar derives, all of it and nothing else.  So there are no two ways
to derive a text that differ in their actions.
-/

namespace OgWebserver.Text

universe u v w x

variable {τ : Type u} {κ : Type v} {ν : Type w} {α : Type x}

/-- An alternative without the nonterminal in front, if it is this one. -/
def Alternative.tail? [DecidableEq ν] (n : ν) (alt : Alternative τ κ ν α) :
    Option (Alternative τ κ ν α) :=
  match alt.symbols with
  | .nonterminal m :: symbols =>
      if m = n then
        some { symbols := symbols, action := fun values => alt.action (none :: values) }
      else none
  | _ => none

namespace Grammar

/-- What the reader is told of the nonterminals. -/
structure Plan (κ : Type v) (ν : Type w) where
  /-- Goes down from a nonterminal to those in its alternatives. -/
  rank : ν → Nat
  /-- The terminals it begins with. -/
  first : ν → List κ
  /-- It is a single token. -/
  word : ν → Bool
  /-- Terminals that are never right behind it. -/
  avoid : ν → List κ

section Reader

variable [DecidableEq κ] [DecidableEq ν]

/-- The alternatives that do not begin with the nonterminal itself. -/
def bases (g : Grammar τ κ ν α) (n : ν) : List (Alternative τ κ ν α) :=
  (g.alternatives n).filter fun alt => (alt.tail? n).isNone

/-- What the other alternatives have behind the nonterminal. -/
def tails (g : Grammar τ κ ν α) (n : ν) : List (Alternative τ κ ν α) :=
  (g.alternatives n).filterMap (·.tail? n)

/-- The terminals that the symbols may stand for, as far as each of them is one token. -/
def Plan.guard (plan : Plan κ ν) : List (Symbol κ ν) → List (List κ)
  | [] => []
  | .terminal k :: symbols => [k] :: plan.guard symbols
  | .nonterminal n :: symbols => plan.first n :: if plan.word n then plan.guard symbols else []

/-- The tokens ahead are as the guard says. -/
def passes (g : Grammar τ κ ν α) : List (List κ) → List τ → Bool
  | [], _ => true
  | _ :: _, [] => false
  | kinds :: guard, t :: tokens => decide (g.kind t ∈ kinds) && g.passes guard tokens

/-- The first alternative whose guard the tokens ahead pass. -/
def pick (g : Grammar τ κ ν α) (plan : Plan κ ν) (alts : List (Alternative τ κ ν α))
    (tokens : List τ) : Option (Alternative τ κ ν α) :=
  alts.find? fun alt => g.passes (plan.guard alt.symbols) tokens

/-- Takes something off the tokens, if it is there, and leaves the others. -/
abbrev Reader (τ : Type u) (β : Type v) : Type (max u v) :=
  List τ → Option (β × List τ)

def readSymbols (g : Grammar τ κ ν α) (node : ν → Reader τ (List α)) :
    List (Symbol κ ν) → Reader τ (List (Option τ) × List α)
  | [], tokens => some (([], []), tokens)
  | .terminal _ :: _, [] => none
  | .terminal k :: symbols, t :: tokens =>
      if g.kind t = k then
        (g.readSymbols node symbols tokens).map fun r => ((some t :: r.1.1, r.1.2), r.2)
      else none
  | .nonterminal n :: symbols, tokens => do
      let (actions, rest) ← node n tokens
      let ((values, more), rest) ← g.readSymbols node symbols rest
      some ((none :: values, actions ++ more), rest)

/-- Read the alternative that the tokens ahead ask for. -/
def readOne (g : Grammar τ κ ν α) (plan : Plan κ ν) (node : ν → Reader τ (List α))
    (alts : List (Alternative τ κ ν α)) : Reader τ (List α) :=
  fun tokens =>
    (g.pick plan alts tokens).bind fun alt =>
      (g.readSymbols node alt.symbols tokens).map fun r => (r.1.2 ++ alt.action r.1.1, r.2)

/-- Read on, as long as the tokens ahead ask for an alternative. -/
def readTails (g : Grammar τ κ ν α) (plan : Plan κ ν) (node : ν → Reader τ (List α)) (n : ν) :
    Nat → List α → Reader τ (List α)
  | 0, actions, tokens => some (actions, tokens)
  | fuel + 1, actions, tokens =>
      if (g.pick plan (g.tails n) tokens).isNone then some (actions, tokens)
      else do
        let (more, rest) ← g.readOne plan node (g.tails n) tokens
        g.readTails plan node n fuel (actions ++ more) rest

/-- Read what the nonterminal stands for; the depth is more than its rank. -/
def readNode (g : Grammar τ κ ν α) (plan : Plan κ ν) : Nat → ν → Reader τ (List α)
  | 0, _, _ => none
  | depth + 1, n, tokens => do
      let (actions, rest) ← g.readOne plan (g.readNode plan depth) (g.bases n) tokens
      g.readTails plan (g.readNode plan depth) n rest.length actions rest

/-- The actions of tokens that the nonterminal stands for. -/
def read (g : Grammar τ κ ν α) (plan : Plan κ ν) (n : ν) (tokens : List τ) : Option (List α) :=
  match g.readNode plan (plan.rank n + 1) n tokens with
  | some (actions, []) => some actions
  | _ => none

/-! ## The check -/

namespace Plan

variable (plan : Plan κ ν)

/-- The terminals that the symbols begin with. -/
def firsts : List (Symbol κ ν) → List κ
  | [] => []
  | .terminal k :: _ => [k]
  | .nonterminal n :: _ => plan.first n

/-- The terminals that are not right behind an alternative, whether more of them follow or
not. -/
def inner (g : Grammar τ κ ν α) (n : ν) : List κ :=
  (plan.avoid n).filter fun k => decide (∀ alt ∈ g.tails n, k ∉ plan.firsts alt.symbols)

/-- No symbol avoids what comes behind it; behind the last one are none of the given
terminals. -/
def joins (ends : List κ) : List (Symbol κ ν) → Bool
  | [] => true
  | .terminal _ :: symbols => joins ends symbols
  | [.nonterminal n] => decide (∀ k ∈ plan.avoid n, k ∈ ends)
  | .nonterminal n :: s :: symbols =>
      decide (∀ k ∈ plan.avoid n, k ∉ plan.firsts [s]) && joins ends (s :: symbols)

/-- The tokens of the symbols, with none of the given terminals behind them, do not pass the
guard. -/
def clashes (ends : List κ) : List (Symbol κ ν) → List (List κ) → Bool
  | _, [] => false
  | [], kinds :: _ => decide (∀ k ∈ kinds, k ∈ ends)
  | .terminal k :: symbols, kinds :: guard => decide (k ∉ kinds) || clashes ends symbols guard
  | .nonterminal n :: symbols, kinds :: guard =>
      decide (∀ k ∈ plan.first n, k ∉ kinds) || plan.word n && clashes ends symbols guard

/-- The symbols are a single token. -/
def single : List (Symbol κ ν) → Bool
  | [.terminal _] => true
  | [.nonterminal n] => plan.word n
  | _ => false

/-- The nonterminals among the symbols are of a smaller rank. -/
def below (rank : Nat) (symbols : List (Symbol κ ν)) : Bool :=
  symbols.all fun symbol =>
    match symbol with
    | .terminal _ => true
    | .nonterminal m => decide (plan.rank m < rank)

/-- The guard of each alternative in front is passed by none of the ones behind. -/
def apart (ends : List κ) : List (Alternative τ κ ν α) → Bool
  | [] => true
  | alt :: alts =>
      (alts.all fun other => plan.clashes ends other.symbols (plan.guard alt.symbols)) &&
        apart ends alts

/-- The plan fits the alternatives of a nonterminal. -/
def checks (g : Grammar τ κ ν α) (n : ν) : Bool :=
  ((g.bases n ++ g.tails n).all fun alt =>
      !alt.symbols.isEmpty && plan.below (plan.rank n) alt.symbols &&
        plan.joins (plan.inner g n) alt.symbols) &&
    ((g.bases n).all fun alt => decide (∀ k ∈ plan.firsts alt.symbols, k ∈ plan.first n)) &&
    ((g.tails n).all fun alt => decide (∀ k ∈ plan.firsts alt.symbols, k ∈ plan.avoid n)) &&
    plan.apart (plan.inner g n) (g.bases n) && plan.apart (plan.inner g n) (g.tails n) &&
    (!plan.word n || (g.tails n).isEmpty && (g.bases n).all fun alt => plan.single alt.symbols)

/-- The plan fits the grammar. -/
def Valid (g : Grammar τ κ ν α) : Prop :=
  ∀ n, plan.checks g n = true

end Plan

/-- The plan fits a nonterminal. -/
structure Plan.Fits (plan : Plan κ ν) (g : Grammar τ κ ν α) (n : ν) : Prop where
  nonempty : ∀ alt ∈ g.bases n ++ g.tails n, alt.symbols ≠ []
  below : ∀ alt ∈ g.bases n ++ g.tails n, ∀ m, .nonterminal m ∈ alt.symbols →
    plan.rank m < plan.rank n
  joins : ∀ alt ∈ g.bases n ++ g.tails n, plan.joins (plan.inner g n) alt.symbols = true
  firstBases : ∀ alt ∈ g.bases n, ∀ k ∈ plan.firsts alt.symbols, k ∈ plan.first n
  firstTails : ∀ alt ∈ g.tails n, ∀ k ∈ plan.firsts alt.symbols, k ∈ plan.avoid n
  apartBases : plan.apart (plan.inner g n) (g.bases n) = true
  apartTails : plan.apart (plan.inner g n) (g.tails n) = true
  word : plan.word n = true → g.tails n = [] ∧ ∀ alt ∈ g.bases n, plan.single alt.symbols = true

variable {g : Grammar τ κ ν α} {plan : Plan κ ν} {n : ν} {symbols : List (Symbol κ ν)}
variable {tokens rest : List τ} {values : List (Option τ)} {actions : List α}
variable {ends : List κ} {guard : List (List κ)} {node : ν → Reader τ (List α)}
variable {alt : Alternative τ κ ν α} {alts : List (Alternative τ κ ν α)}

omit [DecidableEq κ] [DecidableEq ν] in
theorem Plan.below_iff {rank : Nat} :
    plan.below rank symbols = true ↔ ∀ m, .nonterminal m ∈ symbols → plan.rank m < rank := by
  rw [Plan.below, List.all_eq_true]
  constructor
  · intro all m member
    exact of_decide_eq_true (all _ member)
  · intro all symbol member
    cases symbol with
    | terminal => rfl
    | nonterminal m => exact decide_eq_true (all m member)

theorem Plan.Valid.fits (valid : plan.Valid g) (n : ν) : plan.Fits g n := by
  have checks := valid n
  simp only [Plan.checks, Bool.and_eq_true, List.all_eq_true, Bool.or_eq_true, Bool.not_eq_true',
    decide_eq_true_eq, Plan.below_iff, List.isEmpty_eq_false_iff] at checks
  rcases checks with ⟨⟨⟨⟨⟨each, firstBases⟩, firstTails⟩, apartBases⟩, apartTails⟩, word⟩
  refine ⟨fun alt member => (each alt member).1.1, fun alt member => (each alt member).1.2,
    fun alt member => (each alt member).2, firstBases, firstTails, apartBases, apartTails, ?_⟩
  intro isWord
  rcases word with no | ⟨empty, single⟩
  · rw [isWord] at no
    cases no
  · exact ⟨List.isEmpty_iff.mp empty, single⟩

omit [DecidableEq κ] in
theorem tail?_eq_some_iff {tail : Alternative τ κ ν α} :
    alt.tail? n = some tail ↔ ∃ symbols, alt.symbols = .nonterminal n :: symbols ∧
      tail = { symbols := symbols, action := fun values => alt.action (none :: values) } := by
  unfold Alternative.tail?
  split
  · next m symbols is =>
      rw [is]
      split
      · next same =>
          subst same
          simp [eq_comm]
      · next other => simp [other]
  · next other =>
      simp only [reduceCtorEq, false_iff, not_exists, not_and]
      intro symbols is
      exact absurd is (other n symbols)

omit [DecidableEq κ] in
/-- An alternative is a base, or the nonterminal and a tail. -/
theorem base_or_tail (member : alt ∈ g.alternatives n) :
    alt ∈ g.bases n ∨ ∃ tail ∈ g.tails n, alt.symbols = .nonterminal n :: tail.symbols ∧
      ∀ values, tail.action values = alt.action (none :: values) := by
  cases is : alt.tail? n with
  | none =>
      left
      exact List.mem_filter.mpr ⟨member, by rw [is]; rfl⟩
  | some tail =>
      right
      refine ⟨tail, List.mem_filterMap.mpr ⟨alt, member, is⟩, ?_⟩
      rcases tail?_eq_some_iff.mp is with ⟨symbols, split, rfl⟩
      exact ⟨split, fun values => rfl⟩

omit [DecidableEq κ] in
theorem mem_of_mem_bases (member : alt ∈ g.bases n) : alt ∈ g.alternatives n :=
  List.mem_of_mem_filter member

omit [DecidableEq κ] in
theorem exists_of_mem_tails (member : alt ∈ g.tails n) :
    ∃ whole ∈ g.alternatives n, whole.symbols = .nonterminal n :: alt.symbols ∧
      ∀ values, alt.action values = whole.action (none :: values) := by
  rcases List.mem_filterMap.mp member with ⟨whole, inside, is⟩
  rcases tail?_eq_some_iff.mp is with ⟨symbols, split, rfl⟩
  exact ⟨whole, inside, split, fun values => rfl⟩

/-! ## The tokens of a derivation -/

/-- None of the given terminals comes next. -/
def Clear (g : Grammar τ κ ν α) (ends : List κ) (rest : List τ) : Prop :=
  ∀ t ∈ rest.head?, g.kind t ∉ ends

omit [DecidableEq κ] [DecidableEq ν] in
theorem Clear.mono {more : List κ} (clear : g.Clear ends rest) (within : ∀ k ∈ more, k ∈ ends) :
    g.Clear more rest :=
  fun t next avoided => clear t next (within _ avoided)

/-- A derivation begins as the check says. -/
theorem Parses.exists_first (valid : plan.Valid g)
    (parses : g.Parses symbols tokens values actions) (nonempty : symbols ≠ []) :
    ∃ t more, tokens = t :: more ∧ g.kind t ∈ plan.firsts symbols := by
  induction parses with
  | nil => exact absurd rfl nonempty
  | token => exact ⟨_, _, rfl, List.mem_singleton_self _⟩
  | @node n alt _ _ _ _ _ _ _ member _ _ ih =>
      have fits := valid.fits n
      rcases base_or_tail member with base | ⟨tail, _, split, _⟩
      · rcases ih (fits.nonempty alt (List.mem_append_left _ base)) with ⟨t, more, rfl, first⟩
        exact ⟨t, _, rfl, fits.firstBases alt base _ first⟩
      · rw [split] at ih
        rcases ih (List.cons_ne_nil _ _) with ⟨t, more, rfl, first⟩
        exact ⟨t, _, rfl, first⟩

theorem Parses.single (valid : plan.Valid g) (parses : g.Parses symbols tokens values actions)
    (single : plan.single symbols = true) : ∃ t, tokens = [t] := by
  induction parses with
  | nil => cases single
  | @token t symbols _ _ _ rest =>
      cases symbols with
      | nil =>
          cases rest
          exact ⟨t, rfl⟩
      | cons => cases single
  | @node n alt symbols _ _ _ _ _ _ member _ rest ih =>
      cases symbols with
      | cons => cases single
      | nil =>
          rcases (valid.fits n).word single with ⟨noTails, singles⟩
          rcases base_or_tail member with base | ⟨tail, inTails, _⟩
          · rcases ih (singles alt base) with ⟨t, rfl⟩
            cases rest
            exact ⟨t, rfl⟩
          · rw [noTails] at inTails
            cases inTails

/-- What is derived passes the guard of its symbols. -/
theorem passes_guard (valid : plan.Valid g) (parses : g.Parses symbols tokens values actions)
    (rest : List τ) : g.passes (plan.guard symbols) (tokens ++ rest) = true := by
  induction parses with
  | nil => rfl
  | token _ ih =>
      rw [Plan.guard, List.cons_append, passes, ih]
      simp
  | @node n alt symbols inner _ _ _ _ _ member inside _ _ ih =>
      have whole := Parses.node member inside .nil
      rw [List.append_nil, List.append_nil] at whole
      rcases whole.exists_first valid (List.cons_ne_nil _ _) with ⟨t, more, rfl, first⟩
      have start : g.kind t ∈ plan.first n := first
      rw [Plan.guard, List.cons_append, List.cons_append, passes, decide_eq_true start,
        Bool.true_and]
      split
      · next isWord =>
          rcases whole.single valid isWord with ⟨_, only⟩
          obtain rfl := (List.cons.inj only).2
          exact ih
      · rfl

/-- What is derived from symbols that clash with a guard does not pass it. -/
theorem not_passes_of_clashes (valid : plan.Valid g)
    (parses : g.Parses symbols tokens values actions)
    (clashes : plan.clashes ends symbols guard = true) (clear : g.Clear ends rest) :
    g.passes guard (tokens ++ rest) = false := by
  induction parses generalizing guard with
  | nil =>
      cases guard with
      | nil => simp [Plan.clashes] at clashes
      | cons kinds guard =>
          rw [Plan.clashes, decide_eq_true_eq] at clashes
          cases rest with
          | nil => rfl
          | cons t more =>
              have other : g.kind t ∉ kinds := fun inside => clear t rfl (clashes _ inside)
              rw [List.nil_append, passes, decide_eq_false other, Bool.false_and]
  | @token t _ _ _ _ _ ih =>
      cases guard with
      | nil => cases clashes
      | cons kinds guard =>
          rw [Plan.clashes, Bool.or_eq_true, decide_eq_true_eq] at clashes
          rw [List.cons_append, passes]
          rcases clashes with other | later
          · rw [decide_eq_false other, Bool.false_and]
          · rw [ih later, Bool.and_false]
  | @node n alt symbols inner _ _ _ _ _ member inside _ _ ih =>
      have whole := Parses.node member inside .nil
      rw [List.append_nil, List.append_nil] at whole
      rcases whole.exists_first valid (List.cons_ne_nil _ _) with ⟨t, more, rfl, first⟩
      cases guard with
      | nil => cases clashes
      | cons kinds guard =>
          rw [Plan.clashes, Bool.or_eq_true, Bool.and_eq_true, decide_eq_true_eq] at clashes
          rw [List.cons_append, List.cons_append, passes]
          rcases clashes with other | ⟨isWord, later⟩
          · rw [decide_eq_false (other _ first), Bool.false_and]
          · rcases whole.single valid isWord with ⟨_, only⟩
            obtain rfl := (List.cons.inj only).2
            rw [List.nil_append, ih later, Bool.and_false]

/-- The reader finds the alternative that has been derived. -/
theorem pick_eq (valid : plan.Valid g) (apart : plan.apart ends alts = true)
    (member : alt ∈ alts) (parses : g.Parses alt.symbols tokens values actions)
    (clear : g.Clear ends rest) : g.pick plan alts (tokens ++ rest) = some alt := by
  induction alts with
  | nil => cases member
  | cons first others ih =>
      rw [Plan.apart, Bool.and_eq_true, List.all_eq_true] at apart
      rw [pick, List.find?_cons]
      rcases List.mem_cons.mp member with rfl | member
      · rw [passes_guard valid parses]
      · rw [not_passes_of_clashes valid parses (apart.1 alt member) clear]
        exact ih apart.2 member

/-! ## The reader finds what is derived -/

/-- The reader of the nonterminal takes what it stands for, whatever may follow. -/
def Complete (g : Grammar τ κ ν α) (plan : Plan κ ν) (node : ν → Reader τ (List α)) (n : ν) :
    Prop :=
  ∀ tokens actions, g.Parses [.nonterminal n] tokens [none] actions →
    ∀ rest, g.Clear (plan.avoid n) rest → node n (tokens ++ rest) = some (actions, rest)

/-- What one of the alternatives derives, and its actions. -/
def One (g : Grammar τ κ ν α) (alts : List (Alternative τ κ ν α)) (tokens : List τ)
    (actions : List α) : Prop :=
  ∃ alt ∈ alts, ∃ values own, g.Parses alt.symbols tokens values own ∧
    actions = own ++ alt.action values

/-- A base, and any number of tails behind it. -/
inductive Spine (g : Grammar τ κ ν α) (n : ν) : List τ → List α → Prop
  | base {front : List τ} {own : List α} (one : g.One (g.bases n) front own) : Spine g n front own
  | more {front back : List τ} {own others : List α} (spine : Spine g n front own)
      (one : g.One (g.tails n) back others) : Spine g n (front ++ back) (own ++ others)

theorem readSymbols_complete (valid : plan.Valid g)
    (parses : g.Parses symbols tokens values actions)
    (each : ∀ n, .nonterminal n ∈ symbols → g.Complete plan node n)
    (joins : plan.joins ends symbols = true) (clear : g.Clear ends rest) :
    g.readSymbols node symbols (tokens ++ rest) = some ((values, actions), rest) := by
  induction parses with
  | nil => rfl
  | token _ ih =>
      have later := ih (fun n member => each n (List.mem_cons_of_mem _ member)) joins
      rw [List.cons_append, readSymbols, if_pos rfl, later]
      rfl
  | @node n alt symbols inner tokens _ _ _ _ member inside more _ ih =>
      have whole := Parses.node member inside .nil
      rw [List.append_nil, List.append_nil] at whole
      have behind : g.Clear (plan.avoid n) (tokens ++ rest) := by
        cases symbols with
        | nil =>
            cases more
            rw [Plan.joins, decide_eq_true_eq] at joins
            exact clear.mono joins
        | cons s symbols =>
            rw [Plan.joins, Bool.and_eq_true, decide_eq_true_eq] at joins
            rcases more.exists_first valid (List.cons_ne_nil _ _) with ⟨t, others, rfl, first⟩
            rintro t' next avoided
            obtain rfl := Option.some.inj next
            apply joins.1 _ avoided
            cases s <;> exact first
      have later := ih (fun n member => each n (List.mem_cons_of_mem _ member)) (by
        cases symbols with
        | nil => rfl
        | cons s symbols =>
            rw [Plan.joins, Bool.and_eq_true] at joins
            exact joins.2)
      have node_ := each n List.mem_cons_self _ _ whole _ behind
      rw [List.append_assoc, readSymbols, node_]
      simp [later]

/-- The reader of a list of alternatives takes what one of them derives. -/
theorem readOne_complete (valid : plan.Valid g) (one : g.One alts tokens actions)
    (each : ∀ alt ∈ alts, ∀ n, .nonterminal n ∈ alt.symbols → g.Complete plan node n)
    (joins : ∀ alt ∈ alts, plan.joins ends alt.symbols = true)
    (apart : plan.apart ends alts = true) (clear : g.Clear ends rest) :
    g.readOne plan node alts (tokens ++ rest) = some (actions, rest) := by
  rcases one with ⟨alt, member, values, own, parses, rfl⟩
  rw [readOne, pick_eq valid apart member parses clear, Option.bind_some,
    readSymbols_complete valid parses (each alt member) (joins alt member) clear]
  rfl

omit [DecidableEq κ] in
theorem Spine.parses {n : ν} (spine : g.Spine n tokens actions) :
    g.Parses [.nonterminal n] tokens [none] actions := by
  induction spine with
  | base one =>
      rcases one with ⟨alt, member, values, own, parses, rfl⟩
      have whole := Parses.node (mem_of_mem_bases member) parses .nil
      rwa [List.append_nil, List.append_nil] at whole
  | more _ one ih =>
      rcases one with ⟨tail, member, values, own, parses, rfl⟩
      rcases exists_of_mem_tails member with ⟨alt, inside, split, action⟩
      have symbols := ih.append parses
      rw [List.singleton_append, ← split, List.singleton_append] at symbols
      have whole := Parses.node inside symbols .nil
      rwa [List.append_nil, List.append_nil, ← action, List.append_assoc] at whole

/-- Without the recursion to the left, a derivation is a base and its tails. -/
theorem Parses.spine (valid : plan.Valid g)
    (parses : g.Parses [.nonterminal n] tokens [none] actions) : g.Spine n tokens actions := by
  generalize bound : tokens.length = size
  induction size using Nat.strong_induction_on generalizing tokens actions with
  | _ size ih =>
      cases parses with
      | @node _ alt _ inner tokens _ _ own more member inside last =>
          cases last
          rw [List.append_nil, List.append_nil]
          rcases base_or_tail member with base | ⟨tail, inTails, split, action⟩
          · exact .base ⟨alt, base, _, own, inside, rfl⟩
          · rw [split] at inside
            cases inside with
            | @node _ alt' _ front back values values' actions actions' member' inside' behind =>
                have nonempty := (valid.fits n).nonempty tail (List.mem_append_right _ inTails)
                rcases behind.exists_first valid nonempty with ⟨t, others, rfl, _⟩
                have shorter : front.length < size := by
                  rw [← bound]
                  simp
                have first := Parses.node member' inside' .nil
                rw [List.append_nil, List.append_nil] at first
                rw [List.append_assoc]
                apply Spine.more (ih front.length shorter first rfl)
                exact ⟨tail, inTails, values', actions', behind, by rw [action]⟩

variable {depth : Nat}

/-- Behind a piece that is read, there are no terminals that come behind none of them. -/
theorem clear_inner (valid : plan.Valid g) (one : g.One (g.tails n) tokens actions)
    (rest : List τ) : g.Clear (plan.inner g n) (tokens ++ rest) := by
  rcases one with ⟨tail, member, values, own, parses, rfl⟩
  have nonempty := (valid.fits n).nonempty tail (List.mem_append_right _ member)
  rcases parses.exists_first valid nonempty with ⟨t, others, rfl, first⟩
  rintro t' next avoided
  obtain rfl := Option.some.inj next
  have apart := (List.mem_filter.mp avoided).2
  exact of_decide_eq_true apart tail member first

/-- No tail is read where none can begin. -/
theorem pick_tails_eq_none (valid : plan.Valid g) (clear : g.Clear (plan.avoid n) rest) :
    g.pick plan (g.tails n) rest = none := by
  rw [pick, List.find?_eq_none]
  intro tail member passed
  have nonempty := (valid.fits n).nonempty tail (List.mem_append_right _ member)
  have avoided := (valid.fits n).firstTails tail member
  generalize tail.symbols = symbols at *
  cases rest with
  | nil =>
      cases symbols with
      | nil => exact nonempty rfl
      | cons s symbols => cases s <;> cases passed
  | cons t more =>
      apply clear t rfl
      cases symbols with
      | nil => exact absurd rfl nonempty
      | cons s symbols =>
          cases s <;>
          · rw [Plan.guard, passes, Bool.and_eq_true, decide_eq_true_eq] at passed
            exact avoided _ passed.1

/-- The reader has read a base and some tails, and goes on behind them. -/
theorem readNode_of_spine (valid : plan.Valid g)
    (each : ∀ alt ∈ g.bases n ++ g.tails n, ∀ m, .nonterminal m ∈ alt.symbols →
      g.Complete plan (g.readNode plan depth) m)
    (spine : g.Spine n tokens actions) (clear : g.Clear (plan.inner g n) rest) :
    ∃ fuel, rest.length ≤ fuel ∧ g.readNode plan (depth + 1) n (tokens ++ rest) =
      g.readTails plan (g.readNode plan depth) n fuel actions rest := by
  have fits := valid.fits n
  induction spine generalizing rest with
  | base one =>
      refine ⟨rest.length, Nat.le_refl _, ?_⟩
      rw [readNode, readOne_complete valid one
        (fun alt member => each alt (List.mem_append_left _ member))
        (fun alt member => fits.joins alt (List.mem_append_left _ member)) fits.apartBases clear]
      rfl
  | @more _ tokens' _ actions' _ one ih =>
      have read := @readOne_complete _ _ _ _ _ _ _ plan tokens' rest actions' _
        (g.readNode plan depth) _ valid one
        (fun alt member => each alt (List.mem_append_right _ member))
        (fun alt member => fits.joins alt (List.mem_append_right _ member)) fits.apartTails clear
      rcases ih (clear_inner valid one rest) with ⟨fuel, enough, reads⟩
      rcases one with ⟨tail, member, values, own, parses, rfl⟩
      have picked := pick_eq valid fits.apartTails member parses clear
      have some_ : tokens' ≠ [] := by
        rintro rfl
        rcases parses.exists_first valid (fits.nonempty tail (List.mem_append_right _ member)) with
          ⟨_, _, none_, _⟩
        cases none_
      have positive := List.length_pos_iff.mpr some_
      rw [List.length_append] at enough
      obtain ⟨less, rfl⟩ : ∃ less, fuel = less + 1 := ⟨fuel - 1, by omega⟩
      refine ⟨less, by omega, ?_⟩
      rw [List.append_assoc, reads, readTails, picked, if_neg (by simp), read]
      rfl

theorem readTails_of_clear (valid : plan.Valid g) (clear : g.Clear (plan.avoid n) rest)
    (fuel : Nat) (actions : List α) :
    g.readTails plan node n fuel actions rest = some (actions, rest) := by
  cases fuel with
  | zero => rfl
  | succ fuel =>
      rw [readTails, pick_tails_eq_none valid clear]
      rfl

/-- The reader takes what a nonterminal stands for. -/
theorem readNode_complete (valid : plan.Valid g) (deep : plan.rank n < depth) :
    g.Complete plan (g.readNode plan depth) n := by
  induction depth generalizing n with
  | zero => exact absurd deep (Nat.not_lt_zero _)
  | succ depth ih =>
      intro tokens actions parses rest clear
      have each : ∀ alt ∈ g.bases n ++ g.tails n, ∀ m, .nonterminal m ∈ alt.symbols →
          g.Complete plan (g.readNode plan depth) m := by
        intro alt member m inside
        have less := (valid.fits n).below alt member m inside
        exact ih (by omega)
      have within : ∀ k ∈ plan.inner g n, k ∈ plan.avoid n := fun k inside =>
        List.mem_of_mem_filter inside
      rcases readNode_of_spine valid each (parses.spine valid) (clear.mono within) with
        ⟨fuel, _, reads⟩
      rw [reads, readTails_of_clear valid clear]

/-! ## What the reader finds is derived -/

/-- The reader of the nonterminal only takes what it stands for. -/
def Sound (g : Grammar τ κ ν α) (node : ν → Reader τ (List α)) : Prop :=
  ∀ n tokens actions rest, node n tokens = some (actions, rest) →
    ∃ own, tokens = own ++ rest ∧ g.Parses [.nonterminal n] own [none] actions

omit [DecidableEq ν] in
theorem readSymbols_sound (sound : g.Sound node)
    (read : g.readSymbols node symbols tokens = some ((values, actions), rest)) :
    ∃ own, tokens = own ++ rest ∧ g.Parses symbols own values actions := by
  induction symbols generalizing tokens values actions with
  | nil =>
      obtain ⟨⟨rfl, rfl⟩, rfl⟩ : ([] = values ∧ [] = actions) ∧ tokens = rest := by
        simpa [readSymbols] using read
      exact ⟨[], rfl, .nil⟩
  | cons s symbols ih =>
      cases s with
      | terminal k =>
          cases tokens with
          | nil => cases read
          | cons t tokens =>
              rw [readSymbols] at read
              split at read
              · next is =>
                  rcases Option.map_eq_some_iff.mp read with ⟨⟨⟨values, actions⟩, rest⟩, more, same⟩
                  obtain ⟨⟨rfl, rfl⟩, rfl⟩ := by simpa using same
                  rcases ih more with ⟨own, rfl, parses⟩
                  exact ⟨t :: own, rfl, .terminal is parses⟩
              · cases read
      | nonterminal n =>
          rw [readSymbols] at read
          rcases Option.bind_eq_some_iff.mp read with ⟨⟨first, between⟩, node_, later⟩
          rcases Option.bind_eq_some_iff.mp later with ⟨⟨⟨values, actions⟩, rest⟩, more, same⟩
          obtain ⟨⟨rfl, rfl⟩, rfl⟩ := by simpa using same
          rcases sound n _ _ _ node_ with ⟨own, rfl, parses⟩
          rcases ih more with ⟨own', rfl, others⟩
          exact ⟨own ++ own', by rw [List.append_assoc], parses.append others⟩

omit [DecidableEq ν] in
theorem readOne_sound (sound : g.Sound node)
    (read : g.readOne plan node alts tokens = some (actions, rest)) :
    ∃ own, tokens = own ++ rest ∧ g.One alts own actions := by
  rcases Option.bind_eq_some_iff.mp read with ⟨alt, picked, later⟩
  rcases Option.map_eq_some_iff.mp later with ⟨⟨⟨values, own⟩, rest⟩, symbols, same⟩
  obtain ⟨rfl, rfl⟩ := by simpa using same
  rcases readSymbols_sound sound symbols with ⟨front, rfl, parses⟩
  exact ⟨front, rfl, alt, List.mem_of_find?_eq_some picked, values, own, parses, rfl⟩

theorem readTails_sound (sound : g.Sound node) {fuel : Nat} {front : List τ} {before : List α}
    (spine : g.Spine n front before)
    (read : g.readTails plan node n fuel before tokens = some (actions, rest)) :
    ∃ own, tokens = own ++ rest ∧ g.Spine n (front ++ own) actions := by
  induction fuel generalizing front before tokens with
  | zero =>
      obtain ⟨rfl, rfl⟩ : before = actions ∧ tokens = rest := by simpa [readTails] using read
      exact ⟨[], rfl, by rwa [List.append_nil]⟩
  | succ fuel ih =>
      rw [readTails] at read
      split at read
      · obtain ⟨rfl, rfl⟩ : before = actions ∧ tokens = rest := by simpa using read
        exact ⟨[], rfl, by rwa [List.append_nil]⟩
      · rcases Option.bind_eq_some_iff.mp read with ⟨⟨more, between⟩, one, later⟩
        rcases readOne_sound sound one with ⟨own, rfl, derived⟩
        rcases ih (spine.more derived) later with ⟨own', rfl, whole⟩
        exact ⟨own ++ own', by rw [List.append_assoc], by rwa [← List.append_assoc]⟩

theorem readNode_sound (depth : Nat) : g.Sound (g.readNode plan depth) := by
  induction depth with
  | zero =>
      intro n tokens actions rest read
      cases read
  | succ depth ih =>
      intro n tokens actions rest read
      rw [readNode] at read
      rcases Option.bind_eq_some_iff.mp read with ⟨⟨first, between⟩, one, later⟩
      rcases readOne_sound ih one with ⟨own, rfl, derived⟩
      rcases readTails_sound ih (.base derived) later with ⟨own', rfl, spine⟩
      exact ⟨own ++ own', by rw [List.append_assoc], spine.parses⟩

/-! ## Reading -/

/-- Where the check succeeds, what is read is what is derived. -/
theorem read_eq_some_iff (valid : plan.Valid g) :
    g.read plan n tokens = some actions ↔ g.Parses [.nonterminal n] tokens [none] actions := by
  rw [read]
  constructor
  · intro read
    split at read
    · next _ found =>
        obtain rfl := Option.some.inj read
        rcases readNode_sound _ _ _ _ _ found with ⟨own, rfl, parses⟩
        rwa [List.append_nil]
    · cases read
  · intro parses
    have found := readNode_complete valid (Nat.lt_succ_self _) tokens actions parses []
      (fun t next => by cases next)
    rw [List.append_nil] at found
    rw [found]

/-- The terminals that a nonterminal begins with, for grammars of at most this depth. -/
def starts (g : Grammar τ κ ν α) : Nat → ν → List κ
  | 0, _ => []
  | depth + 1, n =>
      (g.bases n).flatMap fun alt =>
        match alt.symbols with
        | [] => []
        | .terminal k :: _ => [k]
        | .nonterminal m :: _ => g.starts depth m

end Reader

/-- What the first symbol stands for, and the others. -/
theorem Parses.uncons {g : Grammar τ κ ν α} {s : Symbol κ ν} {symbols : List (Symbol κ ν)}
    {tokens : List τ} {values : List (Option τ)} {actions : List α}
    (parses : g.Parses (s :: symbols) tokens values actions) :
    ∃ front back value others own more, tokens = front ++ back ∧ values = value :: others ∧
      actions = own ++ more ∧ g.Parses [s] front [value] own ∧
      g.Parses symbols back others more := by
  cases parses with
  | token rest => exact ⟨_, _, _, _, _, _, rfl, rfl, (List.nil_append _).symm, .token .nil, rest⟩
  | node member inside rest =>
      have first := Parses.node member inside .nil
      rw [List.append_nil, List.append_nil] at first
      exact ⟨_, _, _, _, _, _, rfl, rfl, rfl, first, rest⟩

/-- Where the second grammar derives from each nonterminal what the alternatives of the first
one ask for, it derives all that the first one does. -/
theorem Parses.translate {g g' : Grammar τ κ ν α} (kind : g'.kind = g.kind)
    (each : ∀ n, ∀ alt ∈ g.alternatives n, ∀ tokens values actions,
      g'.Parses alt.symbols tokens values actions →
        g'.Parses [.nonterminal n] tokens [none] (actions ++ alt.action values))
    {symbols : List (Symbol κ ν)} {tokens : List τ} {values : List (Option τ)} {actions : List α}
    (parses : g.Parses symbols tokens values actions) :
    g'.Parses symbols tokens values actions := by
  induction parses with
  | nil => exact .nil
  | token _ ih => exact .terminal (congrFun kind _) ih
  | node member _ _ ih ih' => exact (each _ _ member _ _ _ ih).append ih'

end Grammar

end OgWebserver.Text

import Mathlib.Data.List.Induction
import OgWebserver.Config.Defaults
import OgWebserver.Keyed.Firsts

/-!
# The `listen` directive

`f_tls` sets the flag of whatever port is at the head of the pending list when
it is called.  The file follows the head through a list of options, and says
when the flag ends up on the ports that the directive names.
-/

namespace OgWebserver.Config

open Text Transition

/-! ## Names that are freed -/

/-- A name that is mentioned again is freed, and then it has to come from the allocator. -/
def FreesTokens (seen : List Bytes) (names : List CString) : Prop :=
  ∀ before name after, names = before ++ name :: after →
    name.text ∈ seen ++ before.map (·.text) → name.heap = true

theorem freesTokens_nil (seen : List Bytes) : FreesTokens seen [] := by
  intro before name after split
  simp at split

theorem freesTokens_cons {seen : List Bytes} {name : CString} {rest : List CString} :
    FreesTokens seen (name :: rest) ↔
      (name.text ∈ seen → name.heap = true) ∧ FreesTokens (name.text :: seen) rest := by
  constructor
  · intro frees
    constructor
    · intro known
      exact frees [] name rest rfl (by simpa using known)
    · intro before other after split known
      apply frees (name :: before) other after (by rw [split, List.cons_append])
      simpa [or_left_comm] using known
  · rintro ⟨first, later⟩ before other after split known
    rcases List.cons_eq_append_iff.mp split with ⟨rfl, same⟩ | ⟨more, rfl, same⟩
    · obtain ⟨rfl, -⟩ := List.cons.inj same
      exact first (by simpa using known)
    · apply later more other after same
      simpa [or_left_comm] using known

/-- Only what has been mentioned counts, not in which order. -/
theorem FreesTokens.congr {seen seen' : List Bytes} {names : List CString}
    (same : ∀ name, name ∈ seen' ↔ name ∈ seen) :
    FreesTokens seen' names ↔ FreesTokens seen names := by
  simp only [FreesTokens, List.mem_append, same]

/-- The name an action mentions to a server, if any. -/
def Action.name? : Action → Option CString
  | .serverName name _ | .listen (some name) _ => some name
  | _ => none

/-- The actions of the directives that build the three lists of a server. -/
def Action.lists : Action → Bool
  | .serverName .. | .indexFile _ | .listen .. | .tls => true
  | _ => false

variable {gethostbyname : Resolver} {s t : ParseState} {options : List ListenOption}
variable {p q : Pending Port}

/-- The names in front of the default one. -/
def ParseState.names (s : ParseState) : List Bytes :=
  s.serverNames.items.map (·.serverName.text)

theorem dupName_iff {name : Bytes} : dupName name s = true ↔ name ∈ s.names := by
  simp [dupName, ParseState.names]

theorem mem_names_addName {name : CString} {type : ServerNameType} {other : Bytes} :
    other ∈ (addName name type s.serverNames).items.map (·.serverName.text) ↔
      other ∈ name.text :: s.names := by
  rw [addName_eq]
  by_cases dup : dupName name.text s = true
  · rw [if_pos dup, List.mem_cons]
    rw [dupName_iff] at dup
    constructor
    · exact .inr
    · rintro (rfl | known)
      · exact dup
      · exact known
  · rw [if_neg dup]
    rfl

theorem fServerName_returns_iff {name : CString} {type : ServerNameType} :
    (∃ t, fServerName name type s = .ok t) ↔ (name.text ∈ s.names → name.heap = true) := by
  simp only [fServerName_eq_ok_iff, dupName_iff, exists_and_left, exists_eq, and_true]

theorem names_listenPort (port : Int32) (s : ParseState) :
    (listenPort port s).names = s.names := by
  rw [listenPort_eq]
  rfl

/-- An action on the lists returns unless it frees a literal. -/
theorem perform_lists_iff {a : Action} (lists : a.lists = true) :
    (∃ t, perform gethostbyname s a = .ok t) ↔
      ∀ name ∈ a.name?, name.text ∈ s.names → name.heap = true := by
  cases a with
  | indexFile | tls => exact iff_of_true ⟨_, rfl⟩ (by simp [Action.name?])
  | serverName name type =>
      simp only [Action.name?, Option.mem_some_iff, forall_eq']
      exact fServerName_returns_iff
  | listen name port =>
      cases name with
      | none => exact iff_of_true ⟨_, rfl⟩ (by simp [Action.name?])
      | some name =>
          simp only [Action.name?, Option.mem_some_iff, forall_eq', ← names_listenPort port s]
          exact fServerName_returns_iff
  | _ => cases lists

/-- What it adds to the names. -/
theorem mem_names_of_perform {a : Action} (lists : a.lists = true)
    (ran : perform gethostbyname s a = .ok t) (name : Bytes) :
    name ∈ t.names ↔ name ∈ a.name?.toList.map (·.text) ++ s.names := by
  have after : t.serverNames = (s.settings.after a).serverNames :=
    congrArg Settings.serverNames (settings_of_perform ran)
  rw [ParseState.names, after]
  cases a with
  | indexFile | tls => rfl
  | serverName => exact mem_names_addName
  | listen other =>
      cases other with
      | none => rfl
      | some => exact mem_names_addName
  | _ => cases lists

/-- A run of such actions returns if and only if none of them frees a literal. -/
theorem run_lists_iff {actions : List Action} (lists : ∀ a ∈ actions, a.lists = true) :
    (∃ t, run (perform gethostbyname) s actions = .ok t) ↔
      FreesTokens s.names (actions.filterMap Action.name?) := by
  induction actions generalizing s with
  | nil => exact iff_of_true ⟨s, rfl⟩ (freesTokens_nil _)
  | cons a rest ih =>
      have first := lists a List.mem_cons_self
      have others := fun b member => lists b (List.mem_cons_of_mem a member)
      have split : FreesTokens s.names ((a :: rest).filterMap Action.name?) ↔
          (∀ name ∈ a.name?, name.text ∈ s.names → name.heap = true) ∧
            FreesTokens (a.name?.toList.map (·.text) ++ s.names)
              (rest.filterMap Action.name?) := by
        cases is : a.name? with
        | none => simp [is]
        | some name => simp [is, freesTokens_cons]
      rw [split, ← @perform_lists_iff gethostbyname s a first]
      constructor
      · rintro ⟨t, ran⟩
        rcases run_cons_eq_ok_iff.mp ran with ⟨m, one, more⟩
        rw [← FreesTokens.congr (mem_names_of_perform first one)]
        exact ⟨⟨m, one⟩, (ih others).mp ⟨t, more⟩⟩
      · rintro ⟨⟨m, one⟩, later⟩
        rw [← FreesTokens.congr (mem_names_of_perform first one)] at later
        rcases (ih others).mpr later with ⟨t, more⟩
        exact ⟨t, run_cons_eq_ok_iff.mpr ⟨m, one, more⟩⟩

/-! ## Ports -/

def Pending.numbers (p : Pending Port) : List Int32 :=
  p.items.map (·.portNum)

/-- The flag of the port with a number, the default port left aside. -/
def Pending.tls? (p : Pending Port) (n : Int32) : Option Bool :=
  (p.items.find? fun port => port.portNum == n).map (·.tls)

/-- The ports in front of the default one have positive numbers, all different. -/
structure Numbered (p : Pending Port) : Prop where
  distinct : p.numbers.Nodup
  positive : ∀ n ∈ p.numbers, 0 < n.toInt

/-- A number is added if it is positive and new. -/
theorem numbers_addPort (n : Int32) (p : Pending Port) :
    (addPort n p).numbers = if 0 < n.toInt ∧ n ∉ p.numbers then n :: p.numbers else p.numbers := by
  have known : (p.items.any fun port => port.portNum == n) = decide (n ∈ p.numbers) := by
    rw [Bool.eq_iff_iff, List.any_eq_true, decide_eq_true_eq, Pending.numbers, List.mem_map]
    simp only [beq_iff_eq]
  rw [addPort, known]
  by_cases new : 0 < n.toInt ∧ n ∉ p.numbers
  · rw [if_pos new, if_pos (by simpa using new)]
    rfl
  · rw [if_neg new, if_neg (by simpa using new)]

theorem numbers_modifyHead (p : Pending Port) :
    (p.modifyHead fun port => { port with tls := true }).numbers = p.numbers := by
  rcases p with ⟨_ | ⟨port, rest⟩, dflt⟩ <;> rfl

theorem Numbered.addPort (numbered : Numbered p) (n : Int32) : Numbered (addPort n p) := by
  have numbers := numbers_addPort n p
  by_cases new : 0 < n.toInt ∧ n ∉ p.numbers
  · rw [if_pos new] at numbers
    constructor
    · rw [numbers]
      exact List.nodup_cons.mpr ⟨new.2, numbered.distinct⟩
    · rw [numbers]
      exact List.forall_mem_cons.mpr ⟨new.1, numbered.positive⟩
  · rw [if_neg new] at numbers
    constructor
    · rw [numbers]
      exact numbered.distinct
    · rw [numbers]
      exact numbered.positive

theorem Numbered.ports (numbered : Numbered p) (a : Action) : Numbered (a.ports p) := by
  cases a with
  | listen _ n => exact numbered.addPort n
  | tls =>
      constructor
      · rw [Action.ports, numbers_modifyHead]
        exact numbered.distinct
      · rw [Action.ports, numbers_modifyHead]
        exact numbered.positive
  | server =>
      constructor
      · exact List.nodup_nil
      · intro n member
        cases member
  | _ => exact numbered

/-- Every run of the parser keeps the numbers positive and different. -/
theorem Numbered.of_run {actions : List Action} (numbered : Numbered s.ports)
    (ran : run (perform gethostbyname) s actions = .ok t) : Numbered t.ports := by
  apply run_invariant (P := fun s => Numbered s.ports) _ numbered ran
  intro a _ s t numbered one
  have after : t.ports = a.ports s.ports :=
    (congrArg Settings.ports (settings_of_perform one)).trans (ports_afterAll _ [a])
  exact after ▸ numbered.ports a

theorem tls?_isSome_iff (p : Pending Port) (n : Int32) :
    (p.tls? n).isSome = true ↔ n ∈ p.numbers := by
  simp [Pending.tls?, Pending.numbers]

/-- The flag of a port is set; `none` is the default port. -/
def Pending.Flagged (p : Pending Port) : Option Int32 → Prop
  | none => p.dflt.tls = true
  | some n => p.tls? n = some true

/-- Adding a port sets no flag. -/
theorem flagged_addPort (p : Pending Port) (k : Int32) (target : Option Int32) :
    (addPort k p).Flagged target ↔ p.Flagged target := by
  by_cases new : 0 < k.toInt && !(p.items.any fun q => q.portNum == k)
  · have added : addPort k p = p.push { portNum := k, tls := false } := if_pos new
    rw [added]
    cases target with
    | none => rfl
    | some n =>
        by_cases same : k = n
        · subst same
          have absent : p.tls? k = none := by
            simp only [Bool.and_eq_true, Bool.not_eq_true', List.any_eq_false] at new
            rw [Pending.tls?, List.find?_eq_none.mpr new.2, Option.map_none]
          rw [Pending.Flagged, Pending.Flagged, absent]
          simp [Pending.tls?, Pending.push]
        · simp [Pending.Flagged, Pending.tls?, Pending.push, same]
  · have unchanged : addPort k p = p := if_neg new
    rw [unchanged]

/-- `f_tls` sets the flag of the head. -/
theorem flagged_modifyHead (p : Pending Port) (target : Option Int32) :
    (p.modifyHead fun port => { port with tls := true }).Flagged target ↔
      p.Flagged target ∨ p.numbers.head? = target := by
  rcases p with ⟨_ | ⟨port, rest⟩, dflt⟩
  · cases target <;> simp [Pending.Flagged, Pending.modifyHead, Pending.tls?, Pending.numbers]
  · cases target with
    | none => simp [Pending.Flagged, Pending.modifyHead, Pending.numbers]
    | some n =>
        by_cases same : port.portNum = n <;>
          simp [Pending.Flagged, Pending.modifyHead, Pending.tls?, Pending.numbers, same]

/-! ## Options -/

/-- The ports that options name. -/
def namedPorts (options : List ListenOption) : List Int32 :=
  options.filterMap ListenOption.port?

/-- Those of them that are not pending yet, in the order in which they come up. -/
def newPorts (p : Pending Port) (options : List ListenOption) : List Int32 :=
  Keyed.firsts id p.numbers (namedPorts options)

/-- What stands at the head of the list behind some options: the last new port, or
what stood there before them; `none` is the default port. -/
def headAfter (p : Pending Port) (options : List ListenOption) : Option Int32 :=
  (newPorts p options).getLast?.or p.numbers.head?

/-- An `ssl` among the options comes when the given port is at the head. -/
def Hits (p : Pending Port) (options : List ListenOption) (target : Option Int32) : Prop :=
  ∃ before after, options = before ++ .ssl :: after ∧ headAfter p before = target

/-- The mentions of server names in options. -/
def mentions (options : List ListenOption) : List CString :=
  (options.flatMap ListenOption.actions).filterMap Action.name?

theorem hits_concat {option : ListenOption} {target : Option Int32} :
    Hits p (options ++ [option]) target ↔
      Hits p options target ∨ option = .ssl ∧ headAfter p options = target := by
  have misses : ∀ options, Hits p options target ↔ ¬ ∀ before option after,
      options = before ++ option :: after → ¬ (option = .ssl ∧ headAfter p before = target) := by
    intro options
    push Not
    constructor
    · rintro ⟨before, after, split, head⟩
      exact ⟨before, .ssl, after, split, rfl, head⟩
    · rintro ⟨before, _, after, split, rfl, head⟩
      exact ⟨before, after, split, head⟩
  rw [misses, misses, Keyed.forall_split_concat, not_and_or, not_not]

theorem portsAfter_concat (options : List ListenOption) (option : ListenOption)
    (p : Pending Port) :
    portsAfter (options ++ [option]) p = portsAfter [option] (portsAfter options p) := by
  rw [portsAfter, portsAfter, portsAfter, List.flatMap_append, List.foldl_append]

/-- The list behind the options: the new ports stand in front of the old ones. -/
theorem numbers_portsAfter (positive : ∀ n ∈ namedPorts options, 0 < n.toInt)
    (p : Pending Port) :
    (portsAfter options p).numbers = (newPorts p options).reverse ++ p.numbers := by
  induction options using List.reverseRecOn with
  | nil => rfl
  | append_singleton options option ih =>
      have split : namedPorts (options ++ [option]) =
          namedPorts options ++ option.port?.toList := by
        rw [namedPorts, List.filterMap_append]
        cases is : option.port? <;> simp [namedPorts, is]
      rw [split] at positive
      have before := ih fun n member => positive n (List.mem_append_left _ member)
      rw [portsAfter_concat, portsAfter_singleton, newPorts, split]
      cases option with
      | number k | namePort _ k | wildcardPort k =>
          have new : k ∈ p.numbers ∨ k ∈ (namedPorts options).map id ↔
              k ∈ (portsAfter options p).numbers := by
            rw [before, List.mem_append, List.mem_reverse, newPorts,
              ← List.map_id (Keyed.firsts id _ _), Keyed.mem_keys_firsts_iff]
            by_cases known : k ∈ p.numbers <;> simp [known]
          have plus : 0 < k.toInt := positive k (by simp [ListenOption.port?])
          simp only [ListenOption.port?, Option.map_some, Option.getD_some, reduceCtorEq, if_false,
            numbers_addPort, Option.toList_some, Keyed.firsts_concat, id]
          by_cases known : k ∈ (portsAfter options p).numbers
          · rw [if_pos (new.mpr known), if_neg (fun both => both.2 known), List.append_nil, before]
            rfl
          · rw [if_neg (fun old => known (new.mp old)), if_pos ⟨plus, known⟩, before]
            simp [newPorts]
      | ssl =>
          simp only [if_true, ListenOption.port?, Option.toList_none, List.append_nil]
          exact (numbers_modifyHead _).trans before
      | name | wildcard | inert =>
          simp only [reduceCtorEq, if_false, ListenOption.port?, Option.map_none, Option.getD_none,
            Option.toList_none, List.append_nil]
          exact before

theorem head_portsAfter (positive : ∀ n ∈ namedPorts options, 0 < n.toInt) (p : Pending Port) :
    (portsAfter options p).numbers.head? = headAfter p options := by
  rw [numbers_portsAfter positive, List.head?_append, List.head?_reverse]
  rfl

/-- The flags behind the options: the old ones, and those of the ports that an `ssl` hits. -/
theorem flagged_portsAfter (positive : ∀ n ∈ namedPorts options, 0 < n.toInt) (p : Pending Port)
    (target : Option Int32) :
    (portsAfter options p).Flagged target ↔ p.Flagged target ∨ Hits p options target := by
  induction options using List.reverseRecOn with
  | nil =>
      apply Iff.symm
      apply or_iff_left
      rintro ⟨before, after, split, _⟩
      simp at split
  | append_singleton options option ih =>
      rw [namedPorts, List.filterMap_append] at positive
      have fewer := fun n member => positive n (List.mem_append_left _ member)
      rw [portsAfter_concat, portsAfter_singleton, hits_concat, ← or_assoc, ← ih fewer]
      cases option with
      | number | namePort | wildcardPort => simp [ListenOption.port?, flagged_addPort]
      | ssl =>
          rw [if_pos rfl, flagged_modifyHead, head_portsAfter fewer]
          simp
      | name | wildcard | inert => simp [ListenOption.port?]

/-! ## The directive -/

/-- From the first list of ports to the second, the named ports have been registered, and
with an `ssl` among the options their flags, and no others, have been set. -/
structure TlsOnNamed (options : List ListenOption) (p q : Pending Port) : Prop where
  distinct : q.numbers.Nodup
  named : ∀ n ∈ namedPorts options,
    q.tls? n = some (decide (.ssl ∈ options) || (p.tls? n).getD false)
  others : ∀ n, n ∉ namedPorts options → q.tls? n = p.tls? n
  dflt : q.dflt = p.dflt

/-- The directive returns, having done so. -/
def ListenTls (gethostbyname : Resolver) (options : List ListenOption) (s : ParseState) : Prop :=
  ∃ t, run (perform gethostbyname) s (options.flatMap ListenOption.actions) = .ok t ∧
    TlsOnNamed options s.ports t.ports

/-- Every `ssl` comes when a named port is at the head, and so does one for each named
port; a flag that is set already does no harm and needs no `ssl`. -/
structure SslInPlace (options : List ListenOption) (p : Pending Port) : Prop where
  positive : ∀ n ∈ namedPorts options, 0 < n.toInt
  onNamed : ∀ n, Hits p options (some n) → n ∈ namedPorts options ∨ p.tls? n = some true
  onDefault : Hits p options none → p.dflt.tls = true
  onEach : .ssl ∈ options → ∀ n ∈ namedPorts options,
    p.tls? n = some true ∨ Hits p options (some n)

theorem listenOption_lists : ∀ a ∈ options.flatMap ListenOption.actions, a.lists = true := by
  intro a member
  rcases List.mem_flatMap.mp member with ⟨option, _, inside⟩
  cases option with
  | inert => cases inside
  | number | name | wildcard | namePort | wildcardPort | ssl =>
      obtain rfl := List.mem_singleton.mp inside
      rfl

theorem ports_of_options (ran : run (perform gethostbyname) s
    (options.flatMap ListenOption.actions) = .ok t) : t.ports = portsAfter options s.ports :=
  (congrArg Settings.ports (settings_of_run ran)).trans (ports_afterAll _ _)

theorem Numbered.portsAfter (numbered : Numbered p) (options : List ListenOption) :
    Numbered (portsAfter options p) := by
  rw [Config.portsAfter]
  generalize options.flatMap ListenOption.actions = actions
  induction actions generalizing p with
  | nil => exact numbered
  | cons a rest ih => exact ih (numbered.ports a)

/-- The number of a port is registered if and only if it was, or is named. -/
theorem mem_numbers_portsAfter (positive : ∀ n ∈ namedPorts options, 0 < n.toInt)
    (p : Pending Port) (n : Int32) :
    n ∈ (portsAfter options p).numbers ↔ n ∈ namedPorts options ∨ n ∈ p.numbers := by
  rw [numbers_portsAfter positive, List.mem_append, List.mem_reverse, newPorts,
    ← List.map_id (Keyed.firsts id _ _), Keyed.mem_keys_firsts_iff, List.map_id]
  by_cases known : n ∈ p.numbers <;> simp [known]

/-- A flag that is there is determined by when it is set. -/
theorem tls?_eq_some_iff {n : Int32} (known : n ∈ p.numbers) (b : Bool) :
    p.tls? n = some b ↔ (p.tls? n = some true ↔ b = true) := by
  rcases Option.isSome_iff_exists.mp ((tls?_isSome_iff p n).mpr known) with ⟨flag, is⟩
  rw [is, Option.some.injEq, Option.some.injEq, Bool.eq_iff_iff]

theorem tls?_eq_none_iff {n : Int32} : p.tls? n = none ↔ n ∉ p.numbers := by
  rw [← tls?_isSome_iff, Option.not_isSome_iff_eq_none]

theorem port_eq {a b : Port} (number : a.portNum = b.portNum) (flag : a.tls = b.tls) : a = b := by
  cases a
  cases b
  rw [Port.mk.injEq]
  exact ⟨number, flag⟩

/-- The flags end up on the named ports if and only if every `ssl` is in place. -/
theorem tlsOnNamed_iff (numbered : Numbered p) :
    TlsOnNamed options p (portsAfter options p) ↔ SslInPlace options p := by
  constructor
  · intro on
    have positive : ∀ n ∈ namedPorts options, 0 < n.toInt := by
      intro n member
      apply (numbered.portsAfter options).positive n
      rw [← tls?_isSome_iff, on.named n member]
      rfl
    constructor
    · exact positive
    · intro n hit
      by_contra other
      rw [not_or] at other
      have flagged := (flagged_portsAfter positive p (some n)).mpr (.inr hit)
      rw [Pending.Flagged, on.others n other.1] at flagged
      exact other.2 flagged
    · intro hit
      rw [← on.dflt]
      exact (flagged_portsAfter positive p none).mpr (.inr hit)
    · intro ssl n member
      apply (flagged_portsAfter positive p (some n)).mp
      rw [Pending.Flagged, on.named n member]
      simp [ssl]
  · intro inPlace
    have flags := fun n : Int32 => flagged_portsAfter inPlace.positive p (some n)
    simp only [Pending.Flagged] at flags
    have numbers := mem_numbers_portsAfter inPlace.positive p
    constructor
    · exact (numbered.portsAfter options).distinct
    · intro n member
      rw [tls?_eq_some_iff ((numbers n).mpr (.inl member)), flags]
      by_cases ssl : .ssl ∈ options
      · simpa [ssl] using inPlace.onEach ssl n member
      · have noHit : ¬ Hits p options (some n) := by
          rintro ⟨before, after, rfl, _⟩
          simp at ssl
        simp only [ssl, noHit, or_false, decide_false, Bool.false_or]
        cases p.tls? n <;> simp
    · intro n other
      by_cases old : n ∈ p.numbers
      · rcases Option.isSome_iff_exists.mp ((tls?_isSome_iff p n).mpr old) with ⟨flag, is⟩
        rw [is, tls?_eq_some_iff ((numbers n).mpr (.inr old)), flags, is, Option.some.injEq]
        apply or_iff_left_of_imp
        intro hit
        have set := (inPlace.onNamed n hit).resolve_left other
        exact Option.some.inj (is.symm.trans set)
      · rw [tls?_eq_none_iff.mpr old, tls?_eq_none_iff, numbers]
        exact not_or.mpr ⟨other, old⟩
    · have flag := flagged_portsAfter inPlace.positive p none
      rw [Pending.Flagged, Pending.Flagged, or_iff_left_of_imp inPlace.onDefault,
        ← Bool.eq_iff_iff] at flag
      have number : (portsAfter options p).dflt.portNum = p.dflt.portNum := by
        rw [dflt_portsAfter]
      exact port_eq number flag

/-- A `listen` directive does what it should if and only if it frees no literal and every
`ssl` is in place. -/
theorem listenTls_iff (numbered : Numbered s.ports) :
    ListenTls gethostbyname options s ↔
      FreesTokens s.names (mentions options) ∧ SslInPlace options s.ports := by
  rw [mentions, ← @run_lists_iff gethostbyname s _ listenOption_lists, ← tlsOnNamed_iff numbered]
  constructor
  · rintro ⟨t, ran, on⟩
    rw [ports_of_options ran] at on
    exact ⟨⟨t, ran⟩, on⟩
  · rintro ⟨⟨t, ran⟩, on⟩
    rw [← ports_of_options ran] at on
    exact ⟨t, ran, on⟩

/-- The same for every directive of every block. -/
theorem listen_tls_exact {main : List MainDirective} {before : List HttpDirective}
    {earlier : List ServerDirective} {first : ListenOption} {rest : List ListenOption}
    (reached : Reached gethostbyname main before s)
    (ran : run (perform gethostbyname) s (earlier.flatMap ServerDirective.actions) = .ok t) :
    (∃ u, run (perform gethostbyname) t (ServerDirective.listen first rest).actions = .ok u ∧
        TlsOnNamed (first :: rest) t.ports u.ports) ↔
      FreesTokens t.names (mentions (first :: rest)) ∧ SslInPlace (first :: rest) t.ports := by
  have start : Numbered ParseState.initial.ports :=
    { distinct := List.nodup_nil
      positive := fun _ member => by cases member }
  exact listenTls_iff ((start.of_run reached).of_run ran)

/-- `listen 443 ssl;` at the start of a block. -/
theorem listen_tls_exact_first :
    FreesTokens [] (mentions [.number 443, .ssl]) ∧
      SslInPlace [.number 443, .ssl] ParseState.initial.ports := by
  have reached : Reached (fun _ => none) [] [] .initial := rfl
  have ran : run (perform fun _ => none) .initial
      (([] : List ServerDirective).flatMap ServerDirective.actions) = .ok .initial := rfl
  apply (listen_tls_exact reached ran).mp
  exists { ParseState.initial with
    ports := { items := [{ portNum := 443, tls := true }], dflt := defaultPort } }
  constructor
  · rfl
  · constructor
    · exact List.nodup_singleton 443
    · intro n member
      obtain rfl := List.mem_singleton.mp member
      rfl
    · intro n other
      have different : (443 : Int32) ≠ n := by
        rintro rfl
        exact other (by decide)
      simp [Pending.tls?, different, ParseState.initial]
    · rfl

/-- `listen 443 ssl;` after `listen 443; listen 80;` sets the flag of port 80. -/
theorem listen_tls_misses :
    ∃ t u, run (perform fun _ => none) .initial
        ([ServerDirective.listen (.number 443) [], .listen (.number 80) []].flatMap
          ServerDirective.actions) = .ok t ∧
      run (perform fun _ => none) t (ServerDirective.listen (.number 443) [.ssl]).actions =
        .ok u ∧
      u.ports.tls? 443 = some false ∧ t.ports.tls? 80 = some false ∧
      u.ports.tls? 80 = some true ∧ ¬ TlsOnNamed [.number 443, .ssl] t.ports u.ports := by
  refine ⟨{ ParseState.initial with
      ports := {
        items := [{ portNum := 80, tls := false }, { portNum := 443, tls := false }]
        dflt := defaultPort } },
    { ParseState.initial with
      ports := {
        items := [{ portNum := 80, tls := true }, { portNum := 443, tls := false }]
        dflt := defaultPort } }, rfl, rfl, rfl, rfl, rfl, ?_⟩
  intro on
  have named := on.named 443 (by decide)
  revert named
  decide

end OgWebserver.Config

import OgWebserver.Config.Grammar
import OgWebserver.Config.Reader

/-!
# What an accepted configuration is

Whatever the grammar derives is the text of a configuration file: the parser performs the
actions of a syntax tree.
-/

namespace OgWebserver.Config

open Text

namespace Grammar

/-- The actions of one or more items. -/
def lists {ι : Type} (actions : ι → List Action) : Set (List Action) :=
  { own | ∃ first rest, (first :: rest).flatMap actions = own }

/-- What each nonterminal performs. -/
def meaning : Nonterminal → Set (List Action)
  | .config => Set.range ConfigFile.actions
  | .mainDirectives => lists MainDirective.actions
  | .mainDirective => Set.range MainDirective.actions
  | .pidDirective => Set.range fun path => [.pid path]
  | .workerProcessesDirective => Set.range fun n => [.workerProcesses n]
  | .httpSection => { own | ∃ front ∈ lists HttpDirective.actions, own = front ++ [.http] }
  | .httpDirectives => lists HttpDirective.actions
  | .httpDirective => Set.range HttpDirective.actions
  | .indexDirective | .indexFiles => lists fun file => [.indexFile file]
  | .indexFile => Set.range fun file => [.indexFile file]
  | .defaultTypeDirective => Set.range fun type => [.defaultType type]
  | .serverSection => Set.range serverActions
  | .serverDirectives => lists ServerDirective.actions
  | .serverDirective => Set.range ServerDirective.actions
  | .serverNameDirective | .serverNames =>
      lists fun name : Bytes × ServerNameType => [.serverName (.token name.1) name.2]
  | .serverName =>
      Set.range fun name : Bytes × ServerNameType => [.serverName (.token name.1) name.2]
  | .serverTokensDirective => Set.range fun flag => [.serverTokens flag]
  | .upstreamDirective => Set.range UpstreamBlock.actions
  | .upstreams => lists fun up : UpstreamServer => [up.action]
  | .upstream => Set.range fun up : UpstreamServer => [up.action]
  | .accessLogDirective => Set.range fun path => [.accessLog path]
  | .errorLogDirective => Set.range fun path => [.errorLog path]
  | .rootDirective => Set.range fun path => [.root (.token path)]
  | .sslDirective =>
      { own | own = [] ∨ ∃ path, own = [.sslCertificate path] ∨ own = [.sslCertificateKey path] }
  | .autoindexDirective => Set.range fun flag => [.autoindex flag]
  | .locationSection => Set.range Section.actions
  | .locationDirectives => lists LocationDirective.actions
  | .locationDirective | .proxyPassDirective | .fastcgiPass | .expiresDirective
  | .tryFilesDirective => Set.range LocationDirective.actions
  | .tryPaths => lists fun target => [.tryTarget target]
  | .protocol => Set.range fun scheme : Scheme => [.protocol scheme.text]
  | .listenDirective | .listenOptions => lists ListenOption.actions
  | .listenOption | .listenPair => Set.range ListenOption.actions
  | _ => {[]}

section Lists

variable {ι : Type} {of : ι → List Action} {own front : List Action}

theorem lists_one (one : own ∈ Set.range of) : own ∈ lists of := by
  rcases one with ⟨item, rfl⟩
  exact ⟨item, [], List.append_nil _⟩

theorem lists_snoc (others : front ∈ lists of) (one : own ∈ Set.range of) :
    front ++ own ∈ lists of := by
  rcases others with ⟨first, rest, rfl⟩
  rcases one with ⟨item, rfl⟩
  exact ⟨first, rest ++ [item], by simp⟩

theorem lists_cons (one : own ∈ Set.range of) (others : front ∈ lists of) :
    own ++ front ∈ lists of := by
  rcases others with ⟨first, rest, rfl⟩
  rcases one with ⟨item, rfl⟩
  exact ⟨item, first :: rest, rfl⟩

end Lists

/-- The alternative means what the nonterminal does. -/
def SoundAs (m : Nonterminal) (alt : Rhs) : Prop :=
  ∀ values actions, Text.Grammar.Performs meaning alt.symbols values actions →
    actions ++ alt.action values ∈ meaning m

def Sound (m : Nonterminal) : Prop :=
  ∀ alt ∈ alternatives m, SoundAs m alt

section Rules

variable {m k : Nonterminal} {alt : Rhs} {ι : Type} {of : ι → List Action}

/-- Where the nonterminals perform nothing, the actions are those of the alternative. -/
theorem soundAs_of_still (still : ∀ k, .nonterminal k ∈ alt.symbols → meaning k = {[]})
    (own : ∀ values, alt.action values ∈ meaning m) : SoundAs m alt := by
  intro values actions performs
  rw [performs.eq_nil still, List.nil_append]
  exact own values

theorem sound_of_still
    (still : ∀ alt ∈ alternatives m, ∀ k, .nonterminal k ∈ alt.symbols → meaning k = {[]})
    (own : ∀ alt ∈ alternatives m, ∀ values, alt.action values ∈ meaning m) : Sound m :=
  fun alt member => soundAs_of_still (still alt member) (own alt member)

theorem soundAs_quiet (inner : meaning k ⊆ meaning m) : SoundAs m (quiet [n k]) := by
  rintro values actions ⟨own, means, _, _, rfl, rfl, rfl, rfl⟩
  simpa [quiet, acts] using inner means

/-- Each alternative is another nonterminal. -/
theorem sound_of_choice (ks : List Nonterminal)
    (is : alternatives m = ks.map fun k => quiet [n k])
    (inner : ∀ k ∈ ks, meaning k ⊆ meaning m) : Sound m := by
  intro alt member
  rw [is, List.mem_map] at member
  rcases member with ⟨k, choice, rfl⟩
  exact soundAs_quiet (inner k choice)

theorem sound_of_leftList (is : alternatives m = [quiet [n m, n k], quiet [n k]])
    (list : meaning m = lists of) (item : meaning k = Set.range of) : Sound m := by
  intro alt member values actions performs
  rw [is] at member
  rcases List.mem_pair.mp member with rfl | rfl
  · rcases performs with ⟨front, others, _, _, rfl, rfl, own, one, _, _, rfl, rfl, rfl, rfl⟩
    rw [list] at others
    rw [item] at one
    simpa [quiet, acts, list] using lists_snoc others one
  · rcases performs with ⟨own, one, _, _, rfl, rfl, rfl, rfl⟩
    rw [item] at one
    simpa [quiet, acts, list] using lists_one one

end Rules

attribute [local simp] alternatives meaning

theorem sound_config : Sound .config := by
  intro alt member values actions performs
  rcases List.mem_pair.mp member with rfl | rfl
  · rcases performs with ⟨_, ⟨first, rest, rfl⟩, _, _, rfl, rfl, _, rfl, _, _, rfl, rfl, _,
      ⟨_, ⟨first', rest', rfl⟩, rfl⟩, _, _, rfl, rfl, rfl, rfl⟩
    exact ⟨⟨first :: rest, first', rest'⟩, by
      simp [ConfigFile.actions, ConfigFile.directives, quiet, acts]⟩
  · rcases performs with ⟨_, rfl, _, _, rfl, rfl, _,
      ⟨_, ⟨first', rest', rfl⟩, rfl⟩, _, _, rfl, rfl, rfl, rfl⟩
    exact ⟨⟨[], first', rest'⟩, by simp [ConfigFile.actions, ConfigFile.directives, quiet, acts]⟩

theorem sound_mainDirectives : Sound .mainDirectives := by
  intro alt member values actions performs
  rcases List.mem_pair.mp member with rfl | rfl
  · rcases performs with ⟨own, one, _, _, rfl, rfl, front, others, _, _, rfl, rfl, rfl, rfl⟩
    simpa [quiet, acts] using lists_cons one others
  · rcases performs with ⟨own, one, _, _, rfl, rfl, rfl, rfl⟩
    simpa [quiet, acts] using lists_one one

theorem sound_mainDirective : Sound .mainDirective := by
  apply sound_of_choice [.userDirective, .accessLogDirective, .errorLogDirective, .pidDirective,
    .includeDirective, .traceDirective, .workerProcessesDirective, .workerRlimitNofileDirective] rfl
  simp only [List.forall_mem_cons, meaning, Set.range_subset_iff, Set.singleton_subset_iff]
  exact ⟨⟨.inert, rfl⟩, fun path => ⟨.accessLog path, rfl⟩, fun path => ⟨.errorLog path, rfl⟩,
    fun path => ⟨.pid path, rfl⟩, ⟨.inert, rfl⟩, ⟨.inert, rfl⟩,
    fun n => ⟨.workerProcesses n, rfl⟩, ⟨.inert, rfl⟩, by simp⟩

theorem sound_httpSection : Sound .httpSection := by
  intro alt member values actions performs
  obtain rfl := List.mem_singleton.mp member
  rcases performs with ⟨_, _, rfl, _, _, rfl, own, all, _, _, rfl, rfl, _, _, rfl, rfl, rfl⟩
  exact ⟨own, all, by simp [acts]⟩

theorem sound_httpDirective : Sound .httpDirective := by
  apply sound_of_choice [.includeDirective, .indexDirective, .defaultTypeDirective,
    .accessLogDirective, .errorLogDirective, .logFormatDirective, .sendfileDirective,
    .tcpNopushDirective, .keepaliveDirective, .serverNamesHashBucketSizeDirective, .serverSection,
    .upstreamDirective, .sslDirective, .fastcgiParam] rfl
  simp only [List.forall_mem_cons, meaning, Set.range_subset_iff, Set.singleton_subset_iff]
  refine ⟨⟨.inert, rfl⟩, ?_, fun type => ⟨.defaultType type, rfl⟩,
    fun path => ⟨.accessLog path, rfl⟩, fun path => ⟨.errorLog path, rfl⟩, ⟨.inert, rfl⟩,
    ⟨.inert, rfl⟩, ⟨.inert, rfl⟩, ⟨.inert, rfl⟩, ⟨.inert, rfl⟩, fun body => ⟨.server body, rfl⟩,
    fun block => ⟨.upstream block, rfl⟩, ?_, ⟨.inert, rfl⟩, by simp⟩
  · rintro _ ⟨first, rest, rfl⟩
    exact ⟨.index first rest, List.map_eq_flatMap⟩
  · rintro _ (rfl | ⟨path, rfl | rfl⟩)
    · exact ⟨.inert, rfl⟩
    · exact ⟨.sslCertificate path, rfl⟩
    · exact ⟨.sslCertificateKey path, rfl⟩

theorem sound_indexDirective : Sound .indexDirective := by
  intro alt member values actions performs
  rcases List.mem_pair.mp member with rfl | rfl
  · rcases performs with ⟨_, _, rfl, front, others, _, _, rfl, rfl, own, one, _, _, rfl, rfl, _, _,
      rfl, rfl, rfl⟩
    simpa [quiet, acts] using lists_snoc others one
  · rcases performs with ⟨_, _, rfl, own, one, _, _, rfl, rfl, _, _, rfl, rfl, rfl⟩
    simpa [quiet, acts] using lists_one one

theorem sound_serverSection : Sound .serverSection := by
  intro alt member values actions performs
  rcases List.mem_pair.mp member with rfl | rfl
  · rcases performs with ⟨_, _, rfl, _, _, rfl, _, ⟨first, rest, rfl⟩, _, _, rfl, rfl, _, _, rfl,
      rfl, rfl⟩
    exact ⟨first :: rest, by simp [serverActions, acts]⟩
  · rcases performs with ⟨_, _, rfl, _, _, rfl, _, _, rfl, rfl, rfl⟩
    exact ⟨[], rfl⟩

theorem sound_serverDirective : Sound .serverDirective := by
  apply sound_of_choice [.serverNameDirective, .serverTokensDirective, .accessLogDirective,
    .errorLogDirective, .rootDirective, .autoindexDirective, .locationSection, .listenDirective,
    .sslDirective, .indexDirective, .defaultTypeDirective, .fastcgiParam] rfl
  simp only [List.forall_mem_cons, meaning, Set.range_subset_iff, Set.singleton_subset_iff]
  refine ⟨?_, fun flag => ⟨.serverTokens flag, rfl⟩, fun path => ⟨.accessLog path, rfl⟩,
    fun path => ⟨.errorLog path, rfl⟩, fun path => ⟨.root path, rfl⟩,
    fun flag => ⟨.autoindex flag, rfl⟩, fun sec => ⟨.location sec, rfl⟩, ?_, ?_, ?_,
    fun type => ⟨.defaultType type, rfl⟩, ⟨.inert, rfl⟩, by simp⟩
  · rintro _ ⟨first, rest, rfl⟩
    exact ⟨.serverName first rest, List.map_eq_flatMap⟩
  · rintro _ ⟨first, rest, rfl⟩
    exact ⟨.listen first rest, rfl⟩
  · rintro _ (rfl | ⟨path, rfl | rfl⟩)
    · exact ⟨.inert, rfl⟩
    · exact ⟨.sslCertificate path, rfl⟩
    · exact ⟨.sslCertificateKey path, rfl⟩
  · rintro _ ⟨first, rest, rfl⟩
    exact ⟨.index first rest, List.map_eq_flatMap⟩

/-- A list between a word and the end of its directive. -/
theorem sound_of_directive {m k : Nonterminal} {kind : TokenKind}
    (is : alternatives m = [quiet [t kind, n k, t .eol]]) (same : meaning k ⊆ meaning m) :
    Sound m := by
  intro alt member values actions performs
  rw [is] at member
  obtain rfl := List.mem_singleton.mp member
  rcases performs with ⟨_, _, rfl, own, means, _, _, rfl, rfl, _, _, rfl, rfl, rfl⟩
  simpa [quiet, acts] using same means

theorem sound_upstreamDirective : Sound .upstreamDirective := by
  intro alt member values actions performs
  obtain rfl := List.mem_singleton.mp member
  rcases performs with ⟨_, _, rfl, name, _, rfl, _, _, rfl, _, ⟨first, rest, rfl⟩, _, _, rfl, rfl,
    _, _, rfl, rfl, rfl⟩
  refine ⟨⟨cString name.text, first, rest⟩, ?_⟩
  simp [UpstreamBlock.actions, UpstreamBlock.entries, acts, List.map_eq_flatMap]
  rfl

theorem sound_serverName : Sound .serverName := by
  apply sound_of_still
  · simp [acts, t]
  · simp only [alternatives, acts, List.forall_mem_cons]
    exact ⟨fun v => ⟨⟨_, .serverNameWildcardPrefix⟩, rfl⟩,
      fun v => ⟨⟨_, .serverNameWildcardSuffix⟩, rfl⟩,
      fun v => ⟨⟨_, .serverNameExact⟩, rfl⟩, by simp⟩

theorem sound_upstream : Sound .upstream := by
  apply sound_of_still
  · simp [acts, t]
  · simp only [alternatives, acts, List.forall_mem_cons]
    exact ⟨fun v => ⟨⟨_, some _, .weight _⟩, rfl⟩, fun v => ⟨⟨_, none, .weight _⟩, rfl⟩,
      fun v => ⟨⟨_, some _, .single⟩, rfl⟩, fun v => ⟨⟨_, none, .single⟩, rfl⟩,
      fun v => ⟨⟨_, some _, .weight _⟩, rfl⟩, fun v => ⟨⟨_, none, .weight _⟩, rfl⟩,
      fun v => ⟨⟨_, some _, .single⟩, rfl⟩, fun v => ⟨⟨_, none, .single⟩, rfl⟩,
      fun v => ⟨⟨_, some _, .backup⟩, rfl⟩, fun v => ⟨⟨_, none, .backup⟩, rfl⟩,
      fun v => ⟨⟨_, some _, .backup⟩, rfl⟩, fun v => ⟨⟨_, none, .backup⟩, rfl⟩, by simp⟩

theorem sound_sslDirective : Sound .sslDirective := by
  simp only [Sound, alternatives, List.forall_mem_cons]
  refine ⟨soundAs_of_still ?_ fun v => .inr ⟨_, .inl rfl⟩,
    soundAs_of_still ?_ fun v => .inr ⟨_, .inr rfl⟩, ?_, ?_, ?_, ?_, ?_, ?_, ?_, ?_, ?_, ?_, ?_, ?_,
    ?_, ?_, ?_, by simp⟩
  case refine_1 | refine_2 => simp [acts, t]
  all_goals exact soundAs_of_still (by simp [quiet, acts, t, n]) fun v => .inl rfl

theorem sound_locationSection : Sound .locationSection := by
  intro alt member values actions performs
  simp only [alternatives, List.mem_cons, List.not_mem_nil, or_false] at member
  rcases member with rfl | rfl | rfl
  · rcases performs with ⟨_, _, rfl, _, _, rfl, path, _, rfl, _, _, rfl, _, ⟨first, rest, rfl⟩, _,
      _, rfl, rfl, _, _, rfl, rfl, rfl⟩
    exact ⟨⟨.equalMatch, cString path.text, first, rest⟩, by
      simp [Section.actions, Section.directives, acts, Values.text]⟩
  · rcases performs with ⟨_, _, rfl, path, _, rfl, _, _, rfl, _, ⟨first, rest, rfl⟩, _,
      _, rfl, rfl, _, _, rfl, rfl, rfl⟩
    exact ⟨⟨.regexMatch, cString path.text, first, rest⟩, by
      simp [Section.actions, Section.directives, acts, Values.text]⟩
  · rcases performs with ⟨_, _, rfl, path, _, rfl, _, _, rfl, _, ⟨first, rest, rfl⟩, _,
      _, rfl, rfl, _, _, rfl, rfl, rfl⟩
    exact ⟨⟨.prefixMatch, cString path.text, first, rest⟩, by
      simp [Section.actions, Section.directives, acts, Values.text]⟩

theorem sound_locationDirective : Sound .locationDirective := by
  apply sound_of_choice [.rootDirective, .proxyPassDirective, .fastcgiPass, .fastcgiSplitPathInfo,
    .fastcgiIndex, .fastcgiParam, .expiresDirective, .tryFilesDirective, .defaultTypeDirective] rfl
  simp only [List.forall_mem_cons, meaning, Set.range_subset_iff, Set.singleton_subset_iff]
  exact ⟨fun path => ⟨.root path, rfl⟩, fun d => ⟨d, rfl⟩, fun d => ⟨d, rfl⟩, ⟨.inert, rfl⟩,
    ⟨.inert, rfl⟩, ⟨.inert, rfl⟩, fun d => ⟨d, rfl⟩, fun d => ⟨d, rfl⟩,
    fun type => ⟨.defaultType type, rfl⟩, by simp⟩

theorem sound_proxyPassDirective : Sound .proxyPassDirective := by
  intro alt member values actions performs
  simp only [alternatives, List.mem_cons, List.not_mem_nil, or_false] at member
  rcases member with rfl | rfl | rfl | rfl
  · rcases performs with ⟨_, _, rfl, _, ⟨scheme, rfl⟩, _, _, rfl, rfl, host, _, rfl, port, _, rfl,
      _, _, rfl, rfl, rfl⟩
    exact ⟨.proxyPass scheme (cString host.text) (some (atoi (cString port.text).tail)), rfl⟩
  · rcases performs with ⟨_, _, rfl, _, ⟨scheme, rfl⟩, _, _, rfl, rfl, host, _, rfl, port, _, rfl,
      _, _, rfl, rfl, rfl⟩
    exact ⟨.proxyPass scheme (cString host.text) (some (atoi (cString port.text).tail)), rfl⟩
  · rcases performs with ⟨_, _, rfl, _, ⟨scheme, rfl⟩, _, _, rfl, rfl, host, _, rfl, _, _, rfl,
      rfl, rfl⟩
    exact ⟨.proxyPass scheme (cString host.text) none, rfl⟩
  · rcases performs with ⟨_, _, rfl, _, ⟨scheme, rfl⟩, _, _, rfl, rfl, host, _, rfl, _, _, rfl,
      rfl, rfl⟩
    exact ⟨.proxyPass scheme (cString host.text) none, rfl⟩

theorem sound_fastcgiPass : Sound .fastcgiPass := by
  apply sound_of_still
  · simp [acts, t]
  · simp only [alternatives, acts, List.forall_mem_cons]
    exact ⟨fun v => ⟨.fastcgiPass _ (some _), rfl⟩, fun v => ⟨.fastcgiPass _ (some _), rfl⟩,
      fun v => ⟨.fastcgiPass _ none, rfl⟩, fun v => ⟨.fastcgiPass _ none, rfl⟩, by simp⟩

theorem sound_tryFilesDirective : Sound .tryFilesDirective := by
  intro alt member values actions performs
  obtain rfl := List.mem_singleton.mp member
  rcases performs with ⟨_, _, rfl, _, ⟨first, rest, rfl⟩, _, _, rfl, rfl, _, _, rfl, rfl, rfl⟩
  exact ⟨.tryFiles first rest, by
    simp [LocationDirective.actions, acts, List.map_eq_flatMap]⟩

/-- A target, alone or behind others. -/
theorem soundAs_tryPaths (kind : TokenKind) :
    SoundAs .tryPaths (acts [n .tryPaths, t kind] fun v => [.tryTarget (v.text 2)]) ∧
      SoundAs .tryPaths (acts [t kind] fun v => [.tryTarget (v.text 1)]) := by
  constructor
  · rintro values actions ⟨_, others, _, _, rfl, rfl, path, _, rfl, rfl, rfl⟩
    rw [List.append_nil]
    exact lists_snoc others ⟨cString path.text, rfl⟩
  · rintro values actions ⟨path, _, rfl, rfl, rfl⟩
    exact lists_one ⟨cString path.text, rfl⟩

theorem sound_tryPaths : Sound .tryPaths := by
  simp only [Sound, alternatives, List.forall_mem_cons]
  exact ⟨(soundAs_tryPaths _).1, (soundAs_tryPaths _).2, (soundAs_tryPaths _).1,
    (soundAs_tryPaths _).2, (soundAs_tryPaths _).1, (soundAs_tryPaths _).2, by simp⟩

theorem sound_protocol : Sound .protocol := by
  apply sound_of_still
  · simp [acts, t]
  · simp only [alternatives, acts, List.forall_mem_cons]
    exact ⟨fun _ => ⟨.http1, rfl⟩, fun _ => ⟨.https, rfl⟩, fun _ => ⟨.http2, rfl⟩, by simp⟩

theorem sound_expiresDirective : Sound .expiresDirective := by
  apply sound_of_still
  · simp [acts, t]
  · simp only [alternatives, acts, List.forall_mem_cons]
    exact ⟨fun _ => ⟨.expires _, rfl⟩, fun _ => ⟨.expiresOff, rfl⟩, by simp⟩

theorem sound_listenOption : Sound .listenOption := by
  simp only [Sound, alternatives, List.forall_mem_cons]
  refine ⟨soundAs_of_still ?_ fun v => ⟨.number _, rfl⟩, soundAs_of_still ?_ fun v => ⟨.name _, rfl⟩,
    soundAs_of_still ?_ fun v => ⟨.wildcard, rfl⟩, soundAs_of_still ?_ fun v => ⟨.inert, rfl⟩,
    soundAs_of_still ?_ fun v => ⟨.ssl, rfl⟩, soundAs_of_still ?_ fun v => ⟨.inert, rfl⟩,
    soundAs_of_still ?_ fun v => ⟨.inert, rfl⟩, soundAs_quiet subset_rfl, by simp⟩
  all_goals simp [quiet, acts, t]

theorem sound_listenPair : Sound .listenPair := by
  apply sound_of_still
  · simp [acts, t]
  · simp only [alternatives, acts, List.forall_mem_cons]
    exact ⟨fun _ => ⟨.namePort _ _, rfl⟩, fun _ => ⟨.namePort _ _, rfl⟩,
      fun _ => ⟨.wildcardPort _, rfl⟩, by simp⟩

/-- Every derivation means what its nonterminals do. -/
theorem sound (m : Nonterminal) : Sound m := by
  cases m with
  | config => exact sound_config
  | mainDirectives => exact sound_mainDirectives
  | mainDirective => exact sound_mainDirective
  | httpSection => exact sound_httpSection
  | httpDirectives => exact sound_of_leftList rfl rfl rfl
  | httpDirective => exact sound_httpDirective
  | indexDirective => exact sound_indexDirective
  | indexFiles => exact sound_of_leftList rfl rfl rfl
  | serverSection => exact sound_serverSection
  | serverDirectives => exact sound_of_leftList rfl rfl rfl
  | serverDirective => exact sound_serverDirective
  | serverNameDirective => exact sound_of_directive rfl subset_rfl
  | serverNames => exact sound_of_leftList rfl rfl rfl
  | serverName => exact sound_serverName
  | upstreamDirective => exact sound_upstreamDirective
  | upstreams => exact sound_of_leftList rfl rfl rfl
  | upstream => exact sound_upstream
  | sslDirective => exact sound_sslDirective
  | locationSection => exact sound_locationSection
  | locationDirectives => exact sound_of_leftList rfl rfl rfl
  | locationDirective => exact sound_locationDirective
  | proxyPassDirective => exact sound_proxyPassDirective
  | fastcgiPass => exact sound_fastcgiPass
  | tryFilesDirective => exact sound_tryFilesDirective
  | tryPaths => exact sound_tryPaths
  | listenDirective => exact sound_of_directive rfl subset_rfl
  | listenOptions => exact sound_of_leftList rfl rfl rfl
  | listenOption => exact sound_listenOption
  | protocol => exact sound_protocol
  | expiresDirective => exact sound_expiresDirective
  | listenPair => exact sound_listenPair
  | _ =>
      apply sound_of_still
      · simp [quiet, acts, t, n, openBrace, closeBrace]
      · simp [quiet, acts]

end Grammar

/-- Whatever the grammar derives, its actions are those of a configuration file. -/
theorem exists_file {tokens : List (Token TokenKind)} {values : Grammar.Values}
    {actions : List Action} (parses : grammar.Parses [.nonterminal .config] tokens values actions) :
    ∃ file : ConfigFile, file.actions = actions := by
  have performs : Text.Grammar.Performs Grammar.meaning [Grammar.n .config] values actions := by
    apply Text.Grammar.Parses.performs _ parses
    exact Grammar.sound
  rcases performs with ⟨_, ⟨file, rfl⟩, _, _, _, rfl, _, rfl⟩
  exact ⟨file, (List.append_nil _).symm⟩

/-- `yyparse`, from the state that `parseConfig` sets up: how the actions end, if the text is a
configuration. -/
def yyparse (gethostbyname : Resolver) (text : Bytes) : Option (Except Halt ParseState) :=
  (readConfig (parserInput 0 text)).map (Transition.run (perform gethostbyname) .initial)

/-- The parser's result is that of a derivation, and the derivations of a text have no others. -/
theorem yyparse_eq_some_iff {gethostbyname : Resolver} {text : Bytes}
    {result : Except Halt ParseState} :
    yyparse gethostbyname text = some result ↔
      ∃ values actions, grammar.Parses [.nonterminal .config] (parserInput 0 text) values actions ∧
        Transition.run (perform gethostbyname) .initial actions = result := by
  rw [yyparse, Option.map_eq_some_iff]
  constructor
  · rintro ⟨actions, read, ends⟩
    exact ⟨_, actions, readConfig_eq_some_iff.mp read, ends⟩
  · rintro ⟨values, actions, parses, ends⟩
    obtain rfl := parses.values_eq
    exact ⟨actions, readConfig_eq_some_iff.mpr parses, ends⟩

/-- A text is no configuration, or the parser performs the actions of some syntax tree on it,
whatever the names resolve to. -/
theorem yyparse_means (text : Bytes) :
    (readConfig (parserInput 0 text) = none ∧
        ∀ gethostbyname, yyparse gethostbyname text = none) ∨
      ∃ file : ConfigFile, readConfig (parserInput 0 text) = some file.actions ∧
        ∀ gethostbyname, yyparse gethostbyname text = some (file.parse gethostbyname) := by
  cases read : readConfig (parserInput 0 text) with
  | none => exact .inl ⟨rfl, fun _ => congrArg (Option.map _) read⟩
  | some actions =>
      rcases exists_file (readConfig_eq_some_iff.mp read) with ⟨file, rfl⟩
      exact .inr ⟨file, rfl, fun _ => congrArg (Option.map _) read⟩

end OgWebserver.Config

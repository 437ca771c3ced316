import OgWebserver.Config.Isolation
import OgWebserver.Config.Logs

/-!
# Inheritance of outer directives

A server block should take index files, logs, certificate and key from the outer
levels where it gives none itself, however many blocks stand in front of it.  But
`f_server` uses up what is pending: a block gets what has been given since the last
block, and must not give a log itself when one is pending.
-/

namespace OgWebserver.Config

open Text Transition

variable {gethostbyname : Resolver} {s t : ParseState}

/-! ## Values given and values pending -/

theorem Inherited.pending_suffix (i : Inherited) (main : List MainDirective)
    (before : List HttpDirective) : i.pending main before <:+ i.given main before := by
  rw [pending]
  split
  · exact List.suffix_refl _
  · rcases List.rtakeWhile_suffix (fun d : HttpDirective => d.server?.isNone) before with
      ⟨front, split⟩
    conv_rhs => rw [given, ← split, http_append, ← List.append_assoc]
    exact List.suffix_append _ _

section Values

variable {given pending : List Bytes}

/-- The first pending value is one of those given, if any is given. -/
theorem head_mem_given_iff (suffix : pending <:+ given) :
    (given ≠ [] → ∃ path ∈ given, pending.head? = some path) ↔ given = [] ∨ pending ≠ [] := by
  constructor
  · intro inherits
    by_cases none : given = []
    · exact .inl none
    · rcases inherits none with ⟨path, _, first⟩
      right
      rintro rfl
      cases first
  · rintro (none | some_) any
    · exact absurd none any
    · rcases List.exists_cons_of_ne_nil some_ with ⟨path, rest, rfl⟩
      exact ⟨path, suffix.subset List.mem_cons_self, rfl⟩

/-- The last pending value or the default is one of those given, if any is given. -/
theorem last_mem_given_iff {dflt : Bytes} (suffix : pending <:+ given) :
    (given ≠ [] → pending.getLast?.getD dflt ∈ given) ↔
      given = [] ∨ pending ≠ [] ∨ dflt ∈ given := by
  by_cases none : pending = []
  · rw [none]
    by_cases any : given = [] <;> simp [any]
  · have last : pending.getLast?.getD dflt ∈ given := by
      rw [List.getLast?_eq_some_getLast none]
      exact suffix.subset (List.getLast_mem none)
    exact iff_of_true (fun _ => last) (.inr (.inl none))

/-- The pending index files or the default one are those given, if any is given. -/
theorem files_eq_given_iff {dflt : Bytes} (suffix : pending <:+ given) :
    (given ≠ [] → (if pending.isEmpty then [dflt] else pending) = given) ↔
      pending = given ∨ (pending = [] ∧ given = [dflt]) := by
  by_cases none : pending = []
  · by_cases any : given = []
    · simp [none, any]
    · simp [none, any, eq_comm]
  · have any : given ≠ [] := fun none' => none (List.suffix_nil.mp (none' ▸ suffix))
    simp [none, any]

end Values

/-! ## What a server inherits -/

/-- The body without its log directives. -/
def withoutLogs (body : List ServerDirective) : List ServerDirective :=
  body.filter fun d =>
    match d with
    | .accessLog _ | .errorLog _ => false
    | _ => true

/-- Where the block gives nothing itself, the server has what was given before the
block; where the block gives a log, the server has that log. -/
structure Inherits (main : List MainDirective) (before : List HttpDirective)
    (body : List ServerDirective) (t : ParseState) (server : Server) : Prop where
  index : Inherited.index.own body = [] → Inherited.index.given main before ≠ [] →
    server.indexFiles = Inherited.index.given main before
  accessLog : Inherited.accessLog.own body = [] → Inherited.accessLog.given main before ≠ [] →
    ∃ path ∈ Inherited.accessLog.given main before,
      logPath t.accessLogs server.accessLog = some path
  errorLog : Inherited.errorLog.own body = [] → Inherited.errorLog.given main before ≠ [] →
    ∃ path ∈ Inherited.errorLog.given main before,
      logPath t.errorLogs server.errorLog = some path
  certFile : Inherited.sslCertificate.own body = [] →
    Inherited.sslCertificate.given main before ≠ [] →
      ∃ path ∈ Inherited.sslCertificate.given main before, server.certFile = some path
  keyFile : Inherited.sslCertificateKey.own body = [] →
    Inherited.sslCertificateKey.given main before ≠ [] →
      ∃ path ∈ Inherited.sslCertificateKey.given main before, server.keyFile = some path
  ownAccessLog : ∀ path, Inherited.accessLog.own body = [path] →
    logPath t.accessLogs server.accessLog = some path
  ownErrorLog : ∀ path, Inherited.errorLog.own body = [path] →
    logPath t.errorLogs server.errorLog = some path

/-- What was given before the block is still pending where the block needs it, and no log
is pending where the block gives one. -/
structure Handed (main : List MainDirective) (before : List HttpDirective)
    (body : List ServerDirective) : Prop where
  index : Inherited.index.own body = [] →
    Inherited.index.pending main before = Inherited.index.given main before ∨
      (Inherited.index.pending main before = [] ∧
        Inherited.index.given main before = [defaultIndexFile])
  accessLog : Inherited.accessLog.own body = [] →
    Inherited.accessLog.given main before = [] ∨ Inherited.accessLog.pending main before ≠ [] ∨
      defaultAccessLog.path ∈ Inherited.accessLog.given main before
  errorLog : Inherited.errorLog.own body = [] →
    Inherited.errorLog.given main before = [] ∨ Inherited.errorLog.pending main before ≠ [] ∨
      defaultErrorLog.path ∈ Inherited.errorLog.given main before
  certFile : Inherited.sslCertificate.own body = [] →
    Inherited.sslCertificate.given main before = [] ∨
      Inherited.sslCertificate.pending main before ≠ []
  keyFile : Inherited.sslCertificateKey.own body = [] →
    Inherited.sslCertificateKey.given main before = [] ∨
      Inherited.sslCertificateKey.pending main before ≠ []
  ownAccessLog : Inherited.accessLog.own body ≠ [] → Inherited.accessLog.pending main before = []
  ownErrorLog : Inherited.errorLog.own body ≠ [] → Inherited.errorLog.pending main before = []

/-! ## Acceptance -/

theorem current_eq_none_iff {slot : LogSlot} {dflt : Bytes} {values : List Bytes}
    (holds : slot.view = LogSlot.viewOf dflt values) : slot.current = none ↔ values = [] := by
  have pending : (slot.current.map fun n => logPath slot.logs (some n)) =
      values.getLast?.map some := congrArg Prod.fst holds
  rw [← Option.map_eq_none_iff, pending, Option.map_eq_none_iff, List.getLast?_eq_none_iff]

/-- A log given once is accepted if and only if none is pending. -/
theorem exists_pushAll_iff {slot : LogSlot} {dflt : Bytes} {values paths : List Bytes}
    (holds : slot.view = LogSlot.viewOf dflt values) (once : paths.length ≤ 1) :
    (∃ slot', slot.pushAll paths = some slot') ↔ (paths ≠ [] → values = []) := by
  simp only [LogSlot.pushAll_eq_some_iff, current_eq_none_iff holds]
  rcases paths with _ | ⟨path, _ | ⟨second, rest⟩⟩
  · simp
  · simp
  · simp at once

theorem isLog_of_onLocation {a : Action} (inside : a.onLocation = true) : a.isLog = false := by
  cases a with
  | accessLog | errorLog => cases inside
  | _ => rfl

theorem isLog_of_mem {d : ServerDirective} {a : Action} (silent : withoutLogs [d] = [d])
    (member : a ∈ d.actions) : a.isLog = false := by
  cases d with
  | accessLog | errorLog => cases silent
  | location sec => exact isLog_of_onLocation (sec.onLocation a member)
  | listen first rest =>
      rcases List.mem_flatMap.mp member with ⟨option, _, inside⟩
      cases option with
      | number | name | wildcard | namePort | wildcardPort | ssl =>
          obtain rfl := List.mem_singleton.mp inside
          rfl
      | inert => cases inside
  | serverName first rest | index first rest =>
      rcases List.mem_map.mp member with ⟨_, _, rfl⟩
      rfl
  | serverTokens | root | autoindex | sslCertificate | sslCertificateKey | defaultType =>
      obtain rfl := List.mem_singleton.mp member
      rfl
  | inert => cases member

/-- To leave the log directives out is to leave their actions out. -/
theorem actions_withoutLogs (body : List ServerDirective) :
    (withoutLogs body).flatMap ServerDirective.actions =
      (body.flatMap ServerDirective.actions).filter fun a => !a.isLog := by
  induction body with
  | nil => rfl
  | cons d rest ih =>
      have split : withoutLogs (d :: rest) = withoutLogs [d] ++ withoutLogs rest :=
        List.filter_append [d] rest
      have one : (withoutLogs [d]).flatMap ServerDirective.actions =
          d.actions.filter fun a => !a.isLog := by
        by_cases silent : withoutLogs [d] = [d]
        · rw [silent, List.flatMap_singleton, eq_comm, List.filter_eq_self]
          intro a member
          rw [isLog_of_mem silent member]
          rfl
        · cases d with
          | accessLog | errorLog => rfl
          | _ => exact absurd rfl silent
      rw [split, List.flatMap_append, ih, one, List.flatMap_cons, List.filter_append]

theorem closes_of_body {body : List ServerDirective} :
    ∀ a ∈ body.flatMap ServerDirective.actions, a.closes = false := by
  intro a member
  have notServer := ne_server_of_body a member
  have inBlock := inBlock_serverActions body a (List.mem_append_left _ member)
  cases a with
  | server => exact absurd rfl notServer
  | http => cases inBlock
  | _ => rfl

section Block

variable {main : List MainDirective} {before : List HttpDirective} {body : List ServerDirective}

/-- A block that is accepted without its logs is accepted with them if and only if no log
is pending where it gives one. -/
theorem accepted_iff {u : ParseState} (reached : Reached gethostbyname main before s)
    (sane : run (perform gethostbyname) s (serverActions (withoutLogs body)) = .ok u)
    (onceAccess : (Inherited.accessLog.own body).length ≤ 1)
    (onceError : (Inherited.errorLog.own body).length ≤ 1) :
    (∃ t, run (perform gethostbyname) s (serverActions body) = .ok t) ↔
      (Inherited.accessLog.own body ≠ [] → Inherited.accessLog.pending main before = []) ∧
        (Inherited.errorLog.own body ≠ [] → Inherited.errorLog.pending main before = []) := by
  rw [← exists_pushAll_iff (tracks_accessLog.of_reached reached) onceAccess,
    ← exists_pushAll_iff (tracks_errorLog.of_reached reached) onceError]
  rcases run_append_eq_ok_iff.mp sane with ⟨v, inner, _⟩
  rw [actions_withoutLogs] at inner
  constructor
  · rintro ⟨t, ran⟩
    rcases run_append_eq_ok_iff.mp ran with ⟨m, inside, _⟩
    rw [← withLogs_self s] at inside
    rcases (run_withLogs_eq_ok_iff closes_of_body).mp inside with
      ⟨access, error, _, first, second, _⟩
    exact ⟨⟨access, first⟩, ⟨error, second⟩⟩
  · rintro ⟨⟨access, first⟩, ⟨error, second⟩⟩
    have inside := (run_withLogs_eq_ok_iff (t := v.withLogs access error) closes_of_body).mpr
      ⟨access, error, v, first, second, inner, rfl⟩
    rw [withLogs_self] at inside
    exact ⟨_, run_append_eq_ok_iff.mpr ⟨_, inside, rfl⟩⟩

/-! One setting of the server at a time: what it is in terms of the values, and when the
server inherits it. -/

section Values

variable {i : Inherited}

theorem files_iff {p : Pending Bytes}
    (holds : (p.items.reverse, p.dflt) =
      (i.pending main before ++ i.own body, defaultIndexFile)) (none : i.own body = []) :
    (i.given main before ≠ [] → p.inOrder = i.given main before) ↔
      i.pending main before = i.given main before ∨
        (i.pending main before = [] ∧ i.given main before = [defaultIndexFile]) := by
  rw [none, List.append_nil, Prod.mk.injEq] at holds
  rw [← files_eq_given_iff (i.pending_suffix main before), ← holds.1, ← holds.2,
    List.isEmpty_reverse]
  rfl

theorem first_iff {path : Option Bytes}
    (is : path = (i.pending main before ++ i.own body).head?) (none : i.own body = []) :
    (i.given main before ≠ [] → ∃ p ∈ i.given main before, path = some p) ↔
      i.given main before = [] ∨ i.pending main before ≠ [] := by
  rw [none, List.append_nil] at is
  rw [is]
  exact head_mem_given_iff (i.pending_suffix main before)

theorem log_iff {dflt : Bytes} {path : Option Bytes}
    (is : path = some ((i.pending main before ++ i.own body).getLast?.getD dflt))
    (none : i.own body = []) :
    (i.given main before ≠ [] → ∃ p ∈ i.given main before, path = some p) ↔
      i.given main before = [] ∨ i.pending main before ≠ [] ∨ dflt ∈ i.given main before := by
  rw [none, List.append_nil] at is
  rw [← last_mem_given_iff (i.pending_suffix main before), is]
  simp

theorem log_own {dflt own : Bytes} {path : Option Bytes}
    (is : path = some ((i.pending main before ++ i.own body).getLast?.getD dflt))
    (single : i.own body = [own]) : path = some own := by
  rw [is, single, List.getLast?_concat]
  rfl

end Values

/-- The server of a block that is accepted, with no log pending where the block gives one. -/
theorem inherits_iff_of_accepted {server : Server} (reached : Reached gethostbyname main before s)
    (ran : run (perform gethostbyname) s (serverActions body) = .ok t)
    (list : t.serverList = s.serverList ++ [server])
    (free : Inherited.accessLog.own body ≠ [] → Inherited.accessLog.pending main before = [])
    (free' : Inherited.errorLog.own body ≠ [] → Inherited.errorLog.pending main before = []) :
    Inherits main before body t server ↔ Handed main before body := by
  rcases closed_eq (.of_reached reached) ran list with ⟨m, _, settings, rfl, rfl⟩
  have index := tracks_index.of_body reached settings
  have certFile := tracks_sslCertificate.of_body reached settings
  have keyFile := tracks_sslCertificateKey.of_body reached settings
  have accessLog := LogSlot.logPath_of_view (tracks_accessLog.of_body reached settings)
  have errorLog := LogSlot.logPath_of_view (tracks_errorLog.of_body reached settings)
  constructor
  · intro inherits
    exact
      { index := fun none => (files_iff index none).mp (inherits.index none)
        accessLog := fun none => (log_iff accessLog none).mp (inherits.accessLog none)
        errorLog := fun none => (log_iff errorLog none).mp (inherits.errorLog none)
        certFile := fun none => (first_iff certFile none).mp (inherits.certFile none)
        keyFile := fun none => (first_iff keyFile none).mp (inherits.keyFile none)
        ownAccessLog := free
        ownErrorLog := free' }
  · intro handed
    exact
      { index := fun none => (files_iff index none).mpr (handed.index none)
        accessLog := fun none => (log_iff accessLog none).mpr (handed.accessLog none)
        errorLog := fun none => (log_iff errorLog none).mpr (handed.errorLog none)
        certFile := fun none => (first_iff certFile none).mpr (handed.certFile none)
        keyFile := fun none => (first_iff keyFile none).mpr (handed.keyFile none)
        ownAccessLog := fun _ => log_own accessLog
        ownErrorLog := fun _ => log_own errorLog }

/-- A block that is fine but for its logs is accepted with a server that inherits, if and
only if what it inherits is still pending and the logs it gives are not. -/
theorem inherited_iff {u : ParseState} (reached : Reached gethostbyname main before s)
    (sane : run (perform gethostbyname) s (serverActions (withoutLogs body)) = .ok u)
    (onceAccess : (Inherited.accessLog.own body).length ≤ 1)
    (onceError : (Inherited.errorLog.own body).length ≤ 1) :
    (∃ t server, run (perform gethostbyname) s (serverActions body) = .ok t ∧
      t.serverList = s.serverList ++ [server] ∧ Inherits main before body t server) ↔
        Handed main before body := by
  have accepted := accepted_iff reached sane onceAccess onceError
  constructor
  · rintro ⟨t, server, ran, list, inherits⟩
    rcases accepted.mp ⟨t, ran⟩ with ⟨free, free'⟩
    exact (inherits_iff_of_accepted reached ran list free free').mp inherits
  · intro handed
    rcases accepted.mpr ⟨handed.ownAccessLog, handed.ownErrorLog⟩ with ⟨t, ran⟩
    rcases exists_builds (.of_reached reached) ran with ⟨server, t', ran', list⟩
    refine ⟨t', server, ran', list, ?_⟩
    exact (inherits_iff_of_accepted reached ran' list handed.ownAccessLog handed.ownErrorLog).mpr
      handed

end Block

/-- The directives in front of a block: an index file, and some server blocks without
directives. -/
def indexed (blocks : Nat) : List HttpDirective :=
  .index (bytes "home.html") [] :: List.replicate blocks (.server [])

theorem inherited_iff_first :
    ∃ s u, Reached (fun _ => none) [] (indexed 0) s ∧
      run (perform fun _ => none) s (serverActions (withoutLogs [.accessLog (bytes "/b.log")])) =
        .ok u ∧
      ∃ t server,
        run (perform fun _ => none) s (serverActions [.accessLog (bytes "/b.log")]) = .ok t ∧
          t.serverList = s.serverList ++ [server] ∧
            Inherits [] (indexed 0) [.accessLog (bytes "/b.log")] t server := by
  have reached : ∃ s u, Reached (fun _ => none) [] (indexed 0) s ∧
      run (perform fun _ => none) s (serverActions (withoutLogs [.accessLog (bytes "/b.log")])) =
        .ok u :=
    ⟨_, _, rfl, rfl⟩
  rcases reached with ⟨s, u, reached, sane⟩
  refine ⟨s, u, reached, sane, (inherited_iff reached sane (by decide) (by decide)).mpr ?_⟩
  constructor <;> decide

/-- The first block uses up the index file: the second one gets the default. -/
theorem indexed_not_inherited :
    ∃ s u, Reached (fun _ => none) [] (indexed 1) s ∧
      run (perform fun _ => none) s (serverActions (withoutLogs [])) = .ok u ∧
      u.serverList.map (·.indexFiles) = [[bytes "home.html"], [bytes "index.html"]] ∧
      ¬ ∃ t server, run (perform fun _ => none) s (serverActions []) = .ok t ∧
        t.serverList = s.serverList ++ [server] ∧ Inherits [] (indexed 1) [] t server := by
  refine ⟨_, _, rfl, rfl, by decide, ?_⟩
  rintro ⟨t, server, ran, list, inherits⟩
  obtain rfl := Except.ok.inj ran
  obtain rfl := List.singleton_inj.mp (List.append_cancel_left list)
  exact absurd (inherits.index rfl (by decide)) (by decide)

end OgWebserver.Config

import Mathlib.Data.List.DropRight
import OgWebserver.Config.Settings

/-!
# Inherited directives

Index files, logs, certificate and key may be given outside of server blocks.  The
parser keeps what is given there in the variables that the directives of a server
block write to, and `f_server` takes everything out of them: pending is what has
been given since the last server block.
-/

namespace OgWebserver.Config

open Text Transition

/-- Directives that servers inherit. -/
inductive Inherited
  | index
  | accessLog
  | errorLog
  | sslCertificate
  | sslCertificateKey
  deriving DecidableEq

namespace Inherited

/-- The values an action gives. -/
def gives : Inherited → Action → List Bytes
  | index, .indexFile indexFile => [indexFile]
  | accessLog, .accessLog path => [path]
  | errorLog, .errorLog path => [path]
  | sslCertificate, .sslCertificate path => [path]
  | sslCertificateKey, .sslCertificateKey path => [path]
  | _, _ => []

/-- The action that gives a value. -/
def action : Inherited → Bytes → Action
  | index => .indexFile
  | accessLog => .accessLog
  | errorLog => .errorLog
  | sslCertificate => .sslCertificate
  | sslCertificateKey => .sslCertificateKey

theorem gives_cases (i : Inherited) (a : Action) :
    i.gives a = [] ∨ ∃ value, a = i.action value ∧ i.gives a = [value] := by
  cases a with
  | indexFile value | accessLog value | errorLog value | sslCertificate value
  | sslCertificateKey value =>
      cases i <;> first | exact .inl rfl | exact .inr ⟨value, rfl, rfl⟩
  | _ => cases i <;> exact .inl rfl

/-- The values that a server block gives itself. -/
def own (i : Inherited) (body : List ServerDirective) : List Bytes :=
  (body.flatMap ServerDirective.actions).flatMap i.gives

/-- The values that the directives of the http level give. -/
def http (i : Inherited) (ds : List HttpDirective) : List Bytes :=
  ((ds.filter fun d => d.server?.isNone).flatMap HttpDirective.actions).flatMap i.gives

/-- The values given outside of server blocks. -/
def given (i : Inherited) (main : List MainDirective) (before : List HttpDirective) : List Bytes :=
  (main.flatMap MainDirective.actions).flatMap i.gives ++ i.http before

/-- Those given since the last server block. -/
def pending (i : Inherited) (main : List MainDirective) (before : List HttpDirective) :
    List Bytes :=
  if before.all fun d => d.server?.isNone then i.given main before
  else i.http (before.rtakeWhile fun d => d.server?.isNone)

variable (i : Inherited) (main : List MainDirective) (before : List HttpDirective)

theorem http_append (first second : List HttpDirective) :
    i.http (first ++ second) = i.http first ++ i.http second := by
  simp [http]

theorem pending_nil :
    i.pending main [] = (main.flatMap MainDirective.actions).flatMap i.gives := by
  simp [pending, given, http]

theorem pending_server (body : List ServerDirective) :
    i.pending main (before ++ [.server body]) = [] := by
  simp [pending, HttpDirective.server?, http]

theorem pending_other {d : HttpDirective} (other : d.server? = none) :
    i.pending main (before ++ [d]) = i.pending main before ++ d.actions.flatMap i.gives := by
  have one : i.http [d] = d.actions.flatMap i.gives := by simp [http, other]
  simp only [pending, List.all_append, List.all_cons, List.all_nil, other, Option.isNone_none,
    Bool.and_true]
  split
  · rw [given, http_append, one, given, List.append_assoc]
  · rw [List.rtakeWhile_concat_pos _ _ _ (by simp [other]), http_append, one]

end Inherited

/-! ## Variables that hold what is pending -/

/-- A variable of the parser that is a function of the pending values. -/
structure Tracks {β : Type} (i : Inherited) (view : Settings → β) (of : List Bytes → β) :
    Prop where
  start : view ParseState.initial.settings = of []
  step : ∀ {a : Action} {c : Settings} {values : List Bytes}, a ≠ .server →
    view c = of values → view (c.after a) = of (values ++ i.gives a)
  closed : ∀ {c : Settings} {values : List Bytes},
    view c = of values → view (c.after .server) = of []

section Tracks

variable {β : Type} {i : Inherited} {view : Settings → β} {of : List Bytes → β}
variable {gethostbyname : Resolver} {s t : ParseState}

theorem Tracks.afterAll (tracks : Tracks i view of) {actions : List Action} {c : Settings}
    {values : List Bytes} (inside : ∀ a ∈ actions, a ≠ .server) (holds : view c = of values) :
    view (c.afterAll actions) = of (values ++ actions.flatMap i.gives) := by
  induction actions generalizing c values with
  | nil => simpa [Settings.afterAll] using holds
  | cons a rest ih =>
      rw [List.flatMap_cons, ← List.append_assoc]
      apply @ih (c.after a) _ fun b member => inside b (List.mem_cons_of_mem a member)
      exact tracks.step (inside a List.mem_cons_self) holds

theorem ne_server_of_body {body : List ServerDirective} :
    ∀ a ∈ body.flatMap ServerDirective.actions, a ≠ .server := by
  rintro a member rfl
  rcases List.mem_flatMap.mp member with ⟨d, _, inside⟩
  cases d with
  | location sec => cases sec.onLocation _ inside
  | listen first rest =>
      rcases List.mem_flatMap.mp inside with ⟨option, _, inside⟩
      cases option <;> simp [ListenOption.actions] at inside
  | serverName | serverTokens | accessLog | errorLog | root | autoindex | sslCertificate
  | sslCertificateKey | index | defaultType | inert => simp [ServerDirective.actions] at inside

theorem ne_server_of_other {d : HttpDirective} (other : d.server? = none) :
    ∀ a ∈ d.actions, a ≠ .server := by
  rintro a member rfl
  cases d with
  | server body => cases other
  | upstream block => simp [HttpDirective.actions, UpstreamBlock.actions, UpstreamServer.action]
      at member
  | index | defaultType | accessLog | errorLog | sslCertificate | sslCertificateKey | inert =>
      simp [HttpDirective.actions] at member

theorem ne_server_of_main {main : List MainDirective} :
    ∀ a ∈ main.flatMap MainDirective.actions, a ≠ .server := by
  rintro a member rfl
  rcases List.mem_flatMap.mp member with ⟨d, _, inside⟩
  cases d <;> simp [MainDirective.actions] at inside

/-- In front of every directive of the http level the variable holds what is pending. -/
theorem Tracks.of_reached (tracks : Tracks i view of) {main : List MainDirective}
    {before : List HttpDirective} (reached : Reached gethostbyname main before s) :
    view s.settings = of (i.pending main before) := by
  rw [settings_of_run reached]
  clear reached
  rw [Settings.afterAll_append]
  induction before using List.reverseRecOn with
  | nil =>
      rw [Inherited.pending_nil, List.flatMap_nil]
      exact tracks.afterAll ne_server_of_main tracks.start
  | append_singleton earlier d ih =>
      rw [List.flatMap_append, List.flatMap_singleton, Settings.afterAll_append]
      by_cases other : d.server? = none
      · rw [Inherited.pending_other i main earlier other]
        exact tracks.afterAll (ne_server_of_other other) ih
      · cases d with
        | server body =>
            rw [Inherited.pending_server, HttpDirective.actions, serverActions,
              Settings.afterAll_append]
            exact tracks.closed (tracks.afterAll ne_server_of_body ih)
        | upstream | index | defaultType | accessLog | errorLog | sslCertificate
        | sslCertificateKey | inert => exact absurd rfl other

/-- At the end of a server block it holds what the block gives as well. -/
theorem Tracks.of_body (tracks : Tracks i view of) {main : List MainDirective}
    {before : List HttpDirective} {body : List ServerDirective}
    (reached : Reached gethostbyname main before s)
    (settings : t.settings = s.settings.afterAll (body.flatMap ServerDirective.actions)) :
    view t.settings = of (i.pending main before ++ i.own body) := by
  rw [settings]
  exact tracks.afterAll ne_server_of_body (tracks.of_reached reached)

end Tracks

/-! ## The variable of a directive -/

/-- A list of logs, and the one that the next server takes. -/
structure LogSlot where
  current : Option Nat
  logs : List LogFile

/-- The path of a log. -/
def logPath (logs : List LogFile) (log : Option Nat) : Option Bytes :=
  (log.bind fun n => logs[n]?).map (·.path)

namespace LogSlot

/-- What the value of the slot depends on: the pending log's path, and the path of the
first log. -/
def view (slot : LogSlot) : Option (Option Bytes) × Option Bytes :=
  (slot.current.map fun n => logPath slot.logs (some n), logPath slot.logs (some 0))

/-- A new log, pending for the next server. -/
def push (slot : LogSlot) (path : Bytes) : LogSlot :=
  { current := some slot.logs.length
    logs := slot.logs ++ [{ path := path, freed := false }] }

/-- The view of a slot with the default log in front. -/
def viewOf (dflt : Bytes) (values : List Bytes) : Option (Option Bytes) × Option Bytes :=
  (values.getLast?.map some, some dflt)

theorem view_push {slot : LogSlot} {dflt : Bytes} {values : List Bytes} (path : Bytes)
    (holds : slot.view = viewOf dflt values) :
    (slot.push path).view = viewOf dflt (values ++ [path]) := by
  have first : logPath slot.logs (some 0) = some dflt := congrArg Prod.snd holds
  rcases slot with ⟨current, logs⟩
  cases logs with
  | nil => cases first
  | cons log rest =>
      simpa [view, viewOf, push, logPath] using first

/-- The path of the log that a server gets: the pending log, or else the first one. -/
theorem logPath_of_view {slot : LogSlot} {dflt : Bytes} {values : List Bytes}
    (holds : slot.view = viewOf dflt values) :
    logPath slot.logs (slot.current.or (if slot.logs.isEmpty then none else some 0)) =
      some (values.getLast?.getD dflt) := by
  have pending : (slot.current.map fun n => logPath slot.logs (some n)) =
      values.getLast?.map some := congrArg Prod.fst holds
  have first : logPath slot.logs (some 0) = some dflt := congrArg Prod.snd holds
  have some_ : slot.logs.isEmpty = false := by
    rcases slot with ⟨current, _ | ⟨log, rest⟩⟩
    · cases first
    · rfl
  rw [some_]
  cases given : slot.current with
  | none =>
      rw [given] at pending
      rw [Option.map_eq_none_iff.mp pending.symm]
      exact first
  | some n =>
      rw [given] at pending
      rcases Option.map_eq_some_iff.mp pending.symm with ⟨path, last, is⟩
      rw [last]
      exact is.symm

end LogSlot

def Settings.accessSlot (c : Settings) : LogSlot :=
  { current := c.currentAccessLog, logs := c.accessLogs }

def Settings.errorSlot (c : Settings) : LogSlot :=
  { current := c.currentErrorLog, logs := c.errorLogs }

/-- An action leaves alone the variables of the directives that it gives nothing for. -/
structure Settings.Kept (c : Settings) (a : Action) : Prop where
  index : Inherited.index.gives a = [] → (c.after a).indexFiles = c.indexFiles
  accessLog : Inherited.accessLog.gives a = [] → (c.after a).accessSlot = c.accessSlot
  errorLog : Inherited.errorLog.gives a = [] → (c.after a).errorSlot = c.errorSlot
  sslCertificate : Inherited.sslCertificate.gives a = [] → (c.after a).certFile = c.certFile
  sslCertificateKey : Inherited.sslCertificateKey.gives a = [] → (c.after a).keyFile = c.keyFile

theorem Settings.kept (c : Settings) {a : Action} (notServer : a ≠ .server) : c.Kept a := by
  cases a with
  | server => exact absurd rfl notServer
  | listen name portNum =>
      cases name <;> exact ⟨fun _ => rfl, fun _ => rfl, fun _ => rfl, fun _ => rfl, fun _ => rfl⟩
  | indexFile | accessLog | errorLog | sslCertificate | sslCertificateKey =>
      constructor <;> intro silent <;> first | rfl | cases silent
  | _ => exact ⟨fun _ => rfl, fun _ => rfl, fun _ => rfl, fun _ => rfl, fun _ => rfl⟩

/-- What only the actions of one directive change, and a server block clears. -/
theorem Tracks.of_frame {β : Type} {i : Inherited} {view : Settings → β} {of : List Bytes → β}
    (start : view ParseState.initial.settings = of [])
    (frame : ∀ {a c}, Settings.Kept c a → i.gives a = [] → view (c.after a) = view c)
    (writes : ∀ {c values} value, view c = of values →
      view (c.after (i.action value)) = of (values ++ [value]))
    (closed : ∀ {c values}, view c = of values → view (c.after .server) = of []) :
    Tracks i view of where
  start := start
  step := by
    intro a c values notServer holds
    rcases i.gives_cases a with none | ⟨value, rfl, gives⟩
    · rw [none, List.append_nil]
      exact (frame (c.kept notServer) none).trans holds
    · rw [gives]
      exact writes value holds
  closed := closed

/-! ## The five variables -/

/-- The index files in the order they were given, and the default one. -/
theorem tracks_index :
    Tracks .index (fun c => (c.indexFiles.items.reverse, c.indexFiles.dflt))
      (fun values => (values, defaultIndexFile)) := by
  refine .of_frame rfl (fun kept silent => by rw [kept.index silent]) ?_
    (fun holds => congrArg (fun pair : List Bytes × Bytes => (([] : List Bytes), pair.2)) holds)
  intro c values value holds
  simp only [Prod.mk.injEq] at holds
  simp [Settings.after, Inherited.action, Pending.push, holds]

/-- A file of which the first one given counts. -/
theorem tracks_first {i : Inherited} {view : Settings → Option Bytes}
    (start : view ParseState.initial.settings = none)
    (frame : ∀ {a c}, Settings.Kept c a → i.gives a = [] → view (c.after a) = view c)
    (writes : ∀ (c : Settings) path, view (c.after (i.action path)) = (view c).or (some path))
    (closed : ∀ c : Settings, view (c.after .server) = none) : Tracks i view (·.head?) := by
  refine .of_frame start frame (fun {c values} path holds => ?_) fun {c _} _ => closed c
  rw [writes, holds, List.head?_append]
  rfl

theorem tracks_sslCertificate : Tracks .sslCertificate (·.certFile) (·.head?) :=
  tracks_first rfl Settings.Kept.sslCertificate (fun _ _ => rfl) fun _ => rfl

theorem tracks_sslCertificateKey : Tracks .sslCertificateKey (·.keyFile) (·.head?) :=
  tracks_first rfl Settings.Kept.sslCertificateKey (fun _ _ => rfl) fun _ => rfl

/-- A log of which the last one given counts. -/
theorem tracks_log {i : Inherited} {slot : Settings → LogSlot} {dflt : Bytes}
    (start : (slot ParseState.initial.settings).view = LogSlot.viewOf dflt [])
    (frame : ∀ {a c}, Settings.Kept c a → i.gives a = [] → slot (c.after a) = slot c)
    (writes : ∀ c path, slot (c.after (i.action path)) = (slot c).push path)
    (closed : ∀ c, slot (c.after .server) = { slot c with current := none }) :
    Tracks i (fun c => (slot c).view) (LogSlot.viewOf dflt) := by
  refine .of_frame start (fun kept silent => congrArg LogSlot.view (frame kept silent))
    (fun {c values} path holds => ?_) fun {c values} holds => ?_
  · rw [writes]
    exact LogSlot.view_push path holds
  · rw [closed]
    exact congrArg (Prod.mk none ·.2) holds

theorem tracks_accessLog :
    Tracks .accessLog (fun c => c.accessSlot.view) (LogSlot.viewOf defaultAccessLog.path) :=
  tracks_log rfl Settings.Kept.accessLog (fun _ _ => rfl) fun _ => rfl

theorem tracks_errorLog :
    Tracks .errorLog (fun c => c.errorSlot.view) (LogSlot.viewOf defaultErrorLog.path) :=
  tracks_log rfl Settings.Kept.errorLog (fun _ _ => rfl) fun _ => rfl

end OgWebserver.Config

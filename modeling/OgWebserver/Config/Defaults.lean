import Mathlib.Data.List.TakeWhile
import OgWebserver.Config.Sections
import OgWebserver.Config.Settings

/-!
# Defaults that blocks write to

Of what a server block starts from, two defaults may have been written to by the
blocks before it: the default port, and the default location.  A directive that
finds nothing pending writes to the default itself.  The file determines which
directives of a block do so, and what of a server depends on it.
-/

namespace OgWebserver.Config

open Text Transition

/-! ## Ports -/

/-- The port number of an option, if it has one. -/
def ListenOption.port? : ListenOption → Option Int32
  | number port | namePort _ port | wildcardPort port => some port
  | name _ | wildcard | ssl | inert => none

/-- The option puts a port in front of the default one, or finds it there. -/
def ListenOption.registers (option : ListenOption) : Bool :=
  option.port?.any fun port => decide (0 < port.toInt)

/-- All options of the `listen` directives of a block. -/
def listenOptions (body : List ServerDirective) : List ListenOption :=
  body.flatMap fun d =>
    match d with
    | .listen first rest => first :: rest
    | _ => []

/-- An `ssl` in front of every port of the block sets the flag of the default port. -/
def leaksTls (options : List ListenOption) : Bool :=
  (options.takeWhile fun option => !option.registers).contains .ssl

/-- What an action makes of the ports. -/
def Action.ports (p : Pending Port) : Action → Pending Port
  | .listen _ portNum => addPort portNum p
  | .tls => p.modifyHead fun port => { port with tls := true }
  | .server => p.clear
  | _ => p

/-- The ports after several options. -/
def portsAfter (options : List ListenOption) (p : Pending Port) : Pending Port :=
  (options.flatMap ListenOption.actions).foldl Action.ports p

theorem ports_afterAll (c : Settings) (actions : List Action) :
    (c.afterAll actions).ports = actions.foldl Action.ports c.ports := by
  apply Eq.symm
  apply List.foldl_hom Settings.ports
  intro c a
  cases a with
  | listen name portNum => cases name <;> rfl
  | _ => rfl

/-- Only the `listen` directives of a block act on the ports. -/
theorem ports_body (body : List ServerDirective) (c : Settings) :
    (c.afterAll (body.flatMap ServerDirective.actions)).ports =
      portsAfter (listenOptions body) c.ports := by
  induction body generalizing c with
  | nil => rfl
  | cons d rest ih =>
      have head : (c.afterAll d.actions).ports = portsAfter (listenOptions [d]) c.ports := by
        cases d with
        | listen first rest =>
            rw [listenOptions, List.flatMap_singleton]
            exact ports_afterAll c _
        | location sec => exact congrArg Settings.ports (c.afterAll_section sec)
        | serverName first rest =>
            apply Settings.afterAll_field
            intro a member c
            rcases List.mem_map.mp member with ⟨_, _, rfl⟩
            rfl
        | index first rest =>
            apply Settings.afterAll_field
            intro a member c
            rcases List.mem_map.mp member with ⟨_, _, rfl⟩
            rfl
        | root | serverTokens | accessLog | errorLog | autoindex | sslCertificate
        | sslCertificateKey | defaultType | inert => rfl
      have split : listenOptions (d :: rest) = listenOptions [d] ++ listenOptions rest := by
        simp [listenOptions]
      rw [List.flatMap_cons, Settings.afterAll_append, ih, head, split, portsAfter, portsAfter,
        portsAfter, List.flatMap_append, List.foldl_append]

theorem portsAfter_cons (option : ListenOption) (rest : List ListenOption) (p : Pending Port) :
    portsAfter (option :: rest) p = portsAfter rest (portsAfter [option] p) := by
  rw [portsAfter, portsAfter, portsAfter, List.flatMap_cons, List.flatMap_singleton,
    List.foldl_append]

/-- What a single option does. -/
theorem portsAfter_singleton (option : ListenOption) (p : Pending Port) :
    portsAfter [option] p =
      if option = .ssl then p.modifyHead fun port => { port with tls := true }
      else (option.port?.map fun port => addPort port p).getD p := by
  cases option <;> rfl

theorem items_addPort_eq_nil (port : Int32) (p : Pending Port) :
    (addPort port p).items = [] ↔ p.items = [] ∧ decide (0 < port.toInt) = false := by
  simp only [addPort]
  split
  case isTrue new =>
    simp only [Bool.and_eq_true, decide_eq_true_eq] at new
    simp [Pending.push, new.1]
  case isFalse known =>
    by_cases empty : p.items = []
    · simpa [empty] using known
    · simp [empty]

theorem dflt_addPort (port : Int32) (p : Pending Port) : (addPort port p).dflt = p.dflt := by
  simp only [addPort]
  split <;> rfl

theorem items_addPort_congr (port : Int32) {p q : Pending Port} (same : p.items = q.items) :
    (addPort port p).items = (addPort port q).items := by
  simp only [addPort, same]
  split <;> simp [Pending.push, same]

/-- The list of ports stays empty until an option registers one. -/
theorem items_portsAfter_eq_nil (options : List ListenOption) (p : Pending Port) :
    (portsAfter options p).items = [] ↔
      p.items = [] ∧ ∀ option ∈ options, option.registers = false := by
  induction options generalizing p with
  | nil => simp [portsAfter]
  | cons option rest ih =>
      have one : (portsAfter [option] p).items = [] ↔
          p.items = [] ∧ option.registers = false := by
        rw [portsAfter_singleton]
        cases option with
        | number | namePort | wildcardPort => exact items_addPort_eq_nil _ p
        | ssl =>
            rcases p with ⟨_ | ⟨item, more⟩, dflt⟩ <;>
              simp [Pending.modifyHead, ListenOption.registers, ListenOption.port?]
        | name | wildcard | inert => simp [ListenOption.port?, ListenOption.registers]
      rw [portsAfter_cons, ih, one, List.forall_mem_cons, and_assoc]

/-- The ports in front of the default one do not depend on it. -/
theorem items_portsAfter_congr {options : List ListenOption} {p q : Pending Port}
    (same : p.items = q.items) :
    (portsAfter options p).items = (portsAfter options q).items := by
  induction options generalizing p q with
  | nil => exact same
  | cons option rest ih =>
      rw [portsAfter_cons option rest p, portsAfter_cons option rest q]
      apply ih
      rw [portsAfter_singleton, portsAfter_singleton]
      cases option with
      | number | namePort | wildcardPort => exact items_addPort_congr _ same
      | ssl =>
          rcases p with ⟨_ | ⟨item, more⟩, dflt⟩ <;> rcases q with ⟨_ | ⟨item', more'⟩, dflt'⟩ <;>
            simp_all [Pending.modifyHead]
      | name | wildcard | inert => exact same

/-- The default port gets the flag of an `ssl` that comes while it is at the head. -/
theorem dflt_portsAfter (options : List ListenOption) (p : Pending Port) :
    (portsAfter options p).dflt =
      { p.dflt with tls := p.dflt.tls || (p.items.isEmpty && leaksTls options) } := by
  induction options generalizing p with
  | nil => simp [portsAfter, leaksTls]
  | cons option rest ih =>
      rw [portsAfter_cons, ih]
      by_cases registers : option.registers = true
      · have stops : leaksTls (option :: rest) = false := by simp [leaksTls, registers]
        have pending : (portsAfter [option] p).items.isEmpty = false := by
          rw [List.isEmpty_eq_false_iff, ne_eq, items_portsAfter_eq_nil]
          simp [registers]
        have same : (portsAfter [option] p).dflt = p.dflt := by
          rw [portsAfter_singleton]
          cases option with
          | number | namePort | wildcardPort => exact dflt_addPort _ p
          | ssl | name | wildcard | inert => cases registers
        rw [same, stops, pending]
        simp
      · have goesOn : leaksTls (option :: rest) =
            (decide (option = .ssl) || leaksTls rest) := by
          simp [leaksTls, registers, eq_comm]
        have same : (portsAfter [option] p).items.isEmpty = p.items.isEmpty := by
          rw [Bool.eq_iff_iff, List.isEmpty_iff, List.isEmpty_iff, items_portsAfter_eq_nil]
          simp [registers]
        have flag : (portsAfter [option] p).dflt =
            { p.dflt with tls := p.dflt.tls || (p.items.isEmpty && decide (option = .ssl)) } := by
          rw [portsAfter_singleton]
          cases option with
          | number | namePort | wildcardPort => simp [ListenOption.port?, dflt_addPort]
          | ssl => rcases p with ⟨_ | ⟨item, more⟩, dflt⟩ <;> simp [Pending.modifyHead]
          | name | wildcard | inert => simp [ListenOption.port?]
        rw [goesOn, same, flag]
        cases p.items.isEmpty <;> simp [Bool.or_assoc]

/-- What the block gives its server of the ports: all depends on the default flag only
if the block registers no port and has no `ssl`. -/
theorem inOrder_portsAfter_iff {options : List ListenOption} {p q : Pending Port}
    (empty : p.items = []) (empty' : q.items = []) (number : p.dflt.portNum = q.dflt.portNum) :
    (portsAfter options p).inOrder = (portsAfter options q).inOrder ↔
      (∃ option ∈ options, option.registers = true) ∨ .ssl ∈ options ∨
        p.dflt.tls = q.dflt.tls := by
  have items := @items_portsAfter_congr options p q (empty.trans empty'.symm)
  by_cases registers : ∃ option ∈ options, option.registers = true
  · have pending : (portsAfter options q).items.isEmpty = false := by
      rw [List.isEmpty_eq_false_iff, ne_eq, items_portsAfter_eq_nil]
      rintro ⟨_, none⟩
      rcases registers with ⟨option, member, registers⟩
      rw [none option member] at registers
      cases registers
    simp [Pending.inOrder, items, pending, registers]
  · have none : ∀ option ∈ options, option.registers = false := by
      simpa using registers
    have after : (portsAfter options q).items = [] :=
      (items_portsAfter_eq_nil options q).mpr ⟨empty', none⟩
    have leaks : leaksTls options = decide (ListenOption.ssl ∈ options) := by
      have all : options.takeWhile (fun option => !option.registers) = options := by
        rw [List.takeWhile_eq_self_iff]
        intro option member
        simp [none option member]
      rw [leaksTls, all, List.contains_eq_mem]
    rw [Pending.inOrder, Pending.inOrder, items, after, dflt_portsAfter, dflt_portsAfter, empty,
      empty', leaks]
    simp only [List.isEmpty_nil, if_true, List.cons.injEq, Port.mk.injEq, number, true_and,
      and_true, registers, false_or]
    by_cases ssl : ListenOption.ssl ∈ options <;> simp [ssl]

/-! ## Locations -/

/-- What a block does to the location list, one action of the parser at a time. -/
inductive LocationStep
  | directive (d : LocationDirective)
  | header (sec : Section)

/-- What a section header writes. -/
abbrev Header : Type :=
  MatchType × Bytes × Protocol

def Location.header (loc : Location) : Header :=
  (loc.matchType, loc.match_, loc.protocol)

namespace LocationStep

def creates : LocationStep → Bool
  | directive d => d.creates
  | header _ => false

def edit (gethostbyname : Resolver) (names : List Bytes) (fresh : Bool) :
    LocationStep → Location → Location
  | directive d => d.edit gethostbyname names fresh
  | header sec => sec.header

def touch (gethostbyname : Resolver) (names : List Bytes) (p : Pending Location)
    (step : LocationStep) : Pending Location :=
  p.touch step.creates (step.edit gethostbyname names p.items.isEmpty)

/-- The header a step writes. -/
def header? : LocationStep → Option Header
  | directive _ => none
  | header sec =>
      some (sec.matchType, sec.match_,
        lastWrite LocationDirective.protocol? .protocolUnset sec.directives)

/-- The expiry a step writes. -/
def expires? : LocationStep → Option Int32
  | directive d => d.expires?
  | header _ => none

end LocationStep

/-- The steps of a block. -/
def steps (body : List ServerDirective) : List LocationStep :=
  body.flatMap fun d =>
    match d with
    | .root path => [.directive (.root path)]
    | .location sec => sec.directives.map .directive ++ [.header sec]
    | _ => []

/-- The steps that write to the default location: none of them, and none before them,
creates a location. -/
def idleSteps (body : List ServerDirective) : List LocationStep :=
  (steps body).takeWhile fun step => !step.creates

variable {gethostbyname : Resolver} {names : List Bytes}

theorem touchBody_eq_steps (body : List ServerDirective) (p : Pending Location) :
    touchBody gethostbyname names body p =
      (steps body).foldl (LocationStep.touch gethostbyname names) p := by
  rw [touchBody, steps, List.foldl_flatMap]
  congr 1
  funext p d
  cases d with
  | location sec =>
      rw [List.foldl_append, List.foldl_map]
      rfl
  | root | serverName | serverTokens | accessLog | errorLog | autoindex | listen | sslCertificate
  | sslCertificateKey | index | defaultType | inert => rfl

/-- A field of the head that every step either writes or leaves alone. -/
theorem field_steps {β : Type} {get : Location → β} {write : LocationStep → Option β}
    (reads : ∀ fresh (step : LocationStep) loc,
      get (step.edit gethostbyname names fresh loc) = (write step).getD (get loc))
    (todo : List LocationStep) (p : Pending Location) :
    get (todo.foldl (LocationStep.touch gethostbyname names) p).head =
      lastWrite write (get p.head) todo := by
  induction todo generalizing p with
  | nil => rfl
  | cons step rest ih =>
      rw [List.foldl_cons, ih, LocationStep.touch, Pending.head_touch, reads, lastWrite_cons]

theorem dflt_of_items (todo : List LocationStep) {p : Pending Location} (pending : p.items ≠ []) :
    (todo.foldl (LocationStep.touch gethostbyname names) p).dflt = p.dflt := by
  induction todo generalizing p with
  | nil => rfl
  | cons step rest ih =>
      rcases List.exists_cons_of_ne_nil pending with ⟨item, more, items⟩
      have one : LocationStep.touch gethostbyname names p step =
          { p with items := step.edit gethostbyname names p.items.isEmpty item :: more } :=
        Pending.touch_of_cons items
      rw [List.foldl_cons, ih (by rw [one]; simp), one]

/-- The same for the default location: the steps count until one creates. -/
theorem field_dflt {β : Type} {get : Location → β} {write : LocationStep → Option β}
    (reads : ∀ fresh (step : LocationStep) loc, step.creates = false →
      get (step.edit gethostbyname names fresh loc) = (write step).getD (get loc))
    (todo : List LocationStep) {p : Pending Location} (empty : p.items = []) :
    get (todo.foldl (LocationStep.touch gethostbyname names) p).dflt =
      lastWrite write (get p.dflt) (todo.takeWhile fun step => !step.creates) := by
  induction todo generalizing p with
  | nil => rfl
  | cons step rest ih =>
      rw [List.foldl_cons]
      cases creates : step.creates with
      | true =>
          have one : LocationStep.touch gethostbyname names p step =
              { p with items := [step.edit gethostbyname names p.items.isEmpty p.dflt] } := by
            rw [LocationStep.touch, creates, Pending.touch_true_of_nil empty]
          rw [dflt_of_items rest (by rw [one]; simp), one]
          simp [creates]
      | false =>
          have one : LocationStep.touch gethostbyname names p step =
              { p with dflt := step.edit gethostbyname names p.items.isEmpty p.dflt } := by
            rw [LocationStep.touch, creates, Pending.touch, empty]
            rfl
          rw [ih (by rw [one]; exact empty), one, reads _ _ _ creates]
          simp [creates]

/-- A location without its header and expiry. -/
def Location.bare (loc : Location) : Location :=
  { loc with matchType := .unsetMatch, match_ := [], protocol := .protocolUnset, expires := 0 }

theorem location_eq_iff {a b : Location} :
    a = b ↔ a.bare = b.bare ∧ a.header = b.header ∧ a.expires = b.expires := by
  constructor
  · rintro rfl
    exact ⟨rfl, rfl, rfl⟩
  · rintro ⟨bare, header, expires⟩
    cases a
    cases b
    simp only [Location.bare, Location.header, Location.mk.injEq, Prod.mk.injEq] at *
    simp only [bare, header, expires, and_self]

theorem bare_edit {fresh : Bool} (step : LocationStep) {a b : Location} (same : a.bare = b.bare) :
    (step.edit gethostbyname names fresh a).bare =
      (step.edit gethostbyname names fresh b).bare := by
  rcases a with ⟨_, _, _, _, _, _, _, _, _⟩
  rcases b with ⟨_, _, _, _, _, _, _, _, _⟩
  simp only [Location.bare, Location.mk.injEq, true_and, and_true] at same
  rcases same with ⟨rfl, rfl, rfl, rfl, rfl⟩
  cases step with
  | header sec => rfl
  | directive d =>
      cases d with
      | proxyPass | fastcgiPass =>
          simp only [LocationStep.edit, LocationDirective.edit, passEdit]
          split <;> rfl
      | root | expires | expiresOff | tryFiles | defaultType | inert => rfl

/-- Beside the header and the expiry, the head depends on nothing that idle steps write. -/
theorem bare_steps (todo : List LocationStep) {p q : Pending Location}
    (empty : p.items.isEmpty = q.items.isEmpty) (same : p.head.bare = q.head.bare) :
    (todo.foldl (LocationStep.touch gethostbyname names) p).head.bare =
      (todo.foldl (LocationStep.touch gethostbyname names) q).head.bare := by
  induction todo generalizing p q with
  | nil => exact same
  | cons step rest ih =>
      rw [List.foldl_cons, List.foldl_cons]
      apply ih
      · rw [Bool.eq_iff_iff, List.isEmpty_iff, List.isEmpty_iff, LocationStep.touch,
          LocationStep.touch, Pending.items_touch_eq_nil, Pending.items_touch_eq_nil,
          ← List.isEmpty_iff, ← List.isEmpty_iff, empty]
      · rw [LocationStep.touch, LocationStep.touch, Pending.head_touch, Pending.head_touch, empty]
        exact bare_edit step same

theorem steps_of_noSections {body : List ServerDirective} (none : sections body = []) :
    ∀ step ∈ steps body, ∃ path, step = .directive (.root path) := by
  intro step member
  rcases List.mem_flatMap.mp member with ⟨d, inBody, inside⟩
  have noSection := List.filterMap_eq_nil_iff.mp none d inBody
  cases d <;> simp_all [ServerDirective.section?]

theorem header_mem_steps {body : List ServerDirective} (some_ : sections body ≠ []) :
    ∃ sec, .header sec ∈ steps body := by
  rcases List.exists_mem_of_ne_nil _ some_ with ⟨sec, member⟩
  rcases List.mem_filterMap.mp member with ⟨d, inBody, is⟩
  cases d with
  | location sec' => exact ⟨sec', List.mem_flatMap.mpr ⟨_, inBody, by simp⟩⟩
  | root | serverName | serverTokens | accessLog | errorLog | autoindex | listen | sslCertificate
  | sslCertificateKey | index | defaultType | inert => cases is

/-- A header field of the head: whether it depends on the default depends on whether the
block has a section. -/
theorem header_field_iff {β : Type} {get : Location → β} {write : LocationStep → Option β}
    (reads : ∀ fresh (step : LocationStep) loc,
      get (step.edit gethostbyname names fresh loc) = (write step).getD (get loc))
    (silent : ∀ path, write (.directive (.root path)) = none)
    (written : ∀ sec, (write (.header sec)).isSome) (body : List ServerDirective)
    (p q : Pending Location) :
    get (touchBody gethostbyname names body p).head =
        get (touchBody gethostbyname names body q).head ↔
      sections body ≠ [] ∨ get p.head = get q.head := by
  rw [touchBody_eq_steps, touchBody_eq_steps, field_steps reads, field_steps reads,
    lastWrite_eq_lastWrite_iff]
  by_cases none : sections body = []
  · have quiet : ¬ ∃ step ∈ steps body, (write step).isSome := by
      rintro ⟨step, member, writes⟩
      rcases steps_of_noSections none step member with ⟨path, rfl⟩
      simp [silent] at writes
    simp [none, quiet]
  · rcases header_mem_steps none with ⟨sec, member⟩
    exact iff_of_true (.inl ⟨_, member, written sec⟩) (.inl none)

theorem header_steps_iff (body : List ServerDirective) (p q : Pending Location) :
    (touchBody gethostbyname names body p).head.header =
        (touchBody gethostbyname names body q).head.header ↔
      sections body ≠ [] ∨ p.head.header = q.head.header := by
  have matchType := @header_field_iff gethostbyname names _ (·.matchType)
    (fun step => match step with
      | .directive d => d.tryTarget?.map fun _ => MatchType.unsetMatch
      | .header sec => some sec.matchType)
    (fun fresh step loc => by
      cases step with
      | directive d => exact (edited fresh d loc).matchType
      | header sec => rfl)
    (fun _ => rfl) (fun _ => rfl) body p q
  have match_ := @header_field_iff gethostbyname names _ (·.match_)
    (fun step => match step with
      | .directive _ => none
      | .header sec => some sec.match_)
    (fun fresh step loc => by
      cases step with
      | directive d => exact (edited fresh d loc).match_
      | header sec => rfl)
    (fun _ => rfl) (fun _ => rfl) body p q
  have protocol := @header_field_iff gethostbyname names _ (·.protocol)
    (fun step => match step with
      | .directive _ => none
      | .header sec => some (lastWrite LocationDirective.protocol? .protocolUnset sec.directives))
    (fun fresh step loc => by
      cases step with
      | directive d => exact (edited fresh d loc).protocol
      | header sec => rfl)
    (fun _ => rfl) (fun _ => rfl) body p q
  simp only [Location.header, Prod.mk.injEq, matchType, match_, protocol, or_and_left]

theorem expires_steps_iff (body : List ServerDirective) (p q : Pending Location) :
    (touchBody gethostbyname names body p).head.expires =
        (touchBody gethostbyname names body q).head.expires ↔
      (∃ d ∈ body.flatMap ServerDirective.locationDirectives, d.expires?.isSome) ∨
        p.head.expires = q.head.expires := by
  rw [field_touchBody Edited.expires (fun _ _ => rfl),
    field_touchBody Edited.expires (fun _ _ => rfl),
    lastWrite_eq_lastWrite_iff]

end OgWebserver.Config

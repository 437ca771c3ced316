import OgWebserver.Config.Check
import OgWebserver.Text.Scan

/-!
# The life of a server

The commands of the program meet in the pid file: `daemonize` writes it, `sendSignal` reads and
removes it, and `checkConfig` wants it to be there before anything else is done.  The file
follows runs of any commands, in between which someone may create the file, as the installation
does.
-/

namespace OgWebserver.Startup

open Text Config

/-- The regular files, by their paths from the root. -/
abbrev Files : Type :=
  Bytes → Option Bytes

inductive Signal
  | sigkill
  | sigint
  deriving DecidableEq

/-- The options of a command, what the parser has made of the configuration, and what the system
answers. -/
structure Invocation where
  foreground : Bool
  showVersion : Bool
  testConfig : Bool
  signalName : Option Bytes
  cwd : Bytes
  config : ParseState
  /-- For `checkServers`. -/
  env : CheckEnv
  openLogFiles : Except Halt Unit
  /-- `parseMimeTypes` has not failed. -/
  mimeTypes : Bool
  /-- No call of `daemonize` has failed before the pid file. -/
  detaches : Bool
  /-- The pid file can be written. -/
  writes : Bool
  /-- The pid file can be removed. -/
  unlinks : Bool
  pid : Int32

inductive Outcome
  | halted (halt : Halt)
  /-- It has printed this, or with an error number, and exited. -/
  | printed (text : Bytes)
  | started (pid : Int32)
  /-- It has sent the signal, and the pid file has been removed or not. -/
  | signalled (pid : Int32) (signal : Signal) (removed : Bool)
  /-- Someone else has created the file, or left it as it was. -/
  | touched (path : Bytes)
  deriving DecidableEq

/-- A path as the system resolves it in a working directory. -/
def fromDirectory (cwd path : Bytes) : Bytes :=
  if path.head? = some 47 then path else cwd ++ 47 :: path

/-- `fgets`: a line, or as much of it as there is place for. -/
def fgets (size : Nat) (content : Bytes) : Option Bytes :=
  let front := content.take (size - 1)
  if front = [] then none
  else some (front.takeWhile (· != 10) ++ if 10 ∈ front then [10] else [])

/-- `PID_SIZE`. -/
def pidSize : Nat :=
  10

/-- `unlink`, whose failure no one asks for. -/
def unlink (files : Files) (path : Bytes) (succeeds : Bool) : Files :=
  if succeeds then Function.update files path none else files

def sendSignal (files : Files) (pidFile sn : Bytes) (unlinks : Bool) : Files × Outcome :=
  match files pidFile with
  | none => (files, .printed (bytes "No daemon process found."))
  | some content =>
      match fgets pidSize content with
      | none => (unlink files pidFile unlinks, .printed (bytes "No daemon process found."))
      | some buff =>
          let pid := atoi (cString buff)
          if sn = bytes "stop" then
            (unlink files pidFile unlinks, .signalled pid .sigkill unlinks)
          else if sn = bytes "quit" then
            (unlink files pidFile unlinks, .signalled pid .sigint unlinks)
          else if sn = bytes "reload" then
            (files, .printed (bytes "reload not yet implemented\n"))
          else if sn = bytes "reopen" then
            (files, .printed (bytes "reopen not yet implemented\n"))
          else (files, .printed (bytes "Unrecognized signal \"" ++ sn ++ bytes "\"\n"))

/-- In the background, the working directory is the root directory. -/
def daemonize (files : Files) (inv : Invocation) : Files × Outcome :=
  if !inv.foreground && !inv.detaches then (files, .printed [])
  else if inv.writes then
    let directory := if inv.foreground then inv.cwd else bytes "/"
    (Function.update files (fromDirectory directory inv.config.pidFile)
      (some (formatInt inv.pid ++ [10])), .started inv.pid)
  else (files, .printed (bytes "pid log not valid:"))

/-- What the checks see of the files. -/
def Invocation.checkEnv (files : Files) (inv : Invocation) : CheckEnv :=
  { inv.env with opens := fun path => (files (fromDirectory inv.cwd path)).isSome }

/-- `main`, behind `parseArgs` and the parser. -/
def main_ (files : Files) (inv : Invocation) : Files × Outcome :=
  match checkConfig (inv.checkEnv files) inv.config with
  | .error halt => (files, .halted halt)
  | .ok _ =>
      match inv.openLogFiles with
      | .error halt => (files, .halted halt)
      | .ok _ =>
          if inv.showVersion then
            (files, .printed (bytes "ogws web server version: " ++
              getVersion inv.config.serverTokens ++ bytes "\n"))
          else
            match inv.signalName with
            | some sn =>
                sendSignal files (fromDirectory inv.cwd inv.config.pidFile) sn inv.unlinks
            | none =>
                if inv.testConfig then (files, .printed (bytes "Config OK\n"))
                else if !inv.mimeTypes then (files, .printed [])
                else daemonize files inv

inductive Event
  | command (inv : Invocation)
  | touch (path : Bytes)

def Event.step (files : Files) : Event → Files × Outcome
  | command inv => main_ files inv
  | touch path => (Function.update files path (some ((files path).getD [])), .touched path)

/-- What comes of the events, one after the other. -/
def outcomes : Files → List Event → List Outcome
  | _, [] => []
  | files, event :: rest => (event.step files).2 :: outcomes (event.step files).1 rest

def Outcome.started? : Outcome → Option Int32
  | started pid => some pid
  | _ => none

/-- The server that has been started last. -/
def lastStarted (before : List Outcome) : Option Int32 :=
  (before.filterMap Outcome.started?).getLast?

/-- The command uses the pid file with this path, and has a pid of nine digits at most. -/
def Event.Uses (pidFile : Bytes) : Event → Prop
  | command inv => inv.config.pidFile = pidFile ∧ 0 < inv.pid.toInt ∧ inv.pid.toInt < 10 ^ 9
  | touch _ => True

/-- Each signal goes to the server that has been started last; and behind one that has removed
the pid file every command is refused, until someone creates the file. -/
def Orderly (pidFile : Bytes) (all : List Outcome) : Prop :=
  ∀ front pid signal removed back, all = front ++ .signalled pid signal removed :: back →
    lastStarted front = some pid ∧ (removed = true →
      ∀ middle outcome rest, back = middle ++ outcome :: rest → .touched pidFile ∉ middle →
        (∃ path, outcome = .touched path) ∨ outcome = .halted (.exit "pid log not valid\n"))

variable {files : Files} {inv : Invocation} {pidFile : Bytes}

/-! ## The pid file -/

/-- `fgets` reads a line that fits, with its end or without. -/
theorem exists_fgets_line {size : Nat} {line : Bytes} (fits : line.length < size)
    (oneLine : 10 ∉ line) (some_ : line ≠ []) :
    ∃ ending, fgets size (line ++ [10]) = some (line ++ ending) ∧ ending <+: [10] := by
  rcases Nat.lt_or_eq_of_le (Nat.le_sub_one_of_lt fits) with shorter | full
  · have whole : (line ++ [10]).take (size - 1) = line ++ [10] :=
      List.take_of_length_le (by simpa using Nat.succ_le_of_lt shorter)
    have before : (line ++ [10]).takeWhile (· != 10) = line := by
      rw [List.takeWhile_append_of_pos]
      · simp
      · intro b inside
        simpa using ne_of_mem_of_not_mem inside oneLine
    refine ⟨[10], ?_, List.prefix_rfl⟩
    simp only [fgets, whole, before]
    simp
  · have front : (line ++ [10]).take (size - 1) = line := by
      rw [← full, List.take_left]
    have before : line.takeWhile (· != 10) = line := by
      rw [List.takeWhile_eq_self_iff]
      intro b inside
      simpa using ne_of_mem_of_not_mem inside oneLine
    refine ⟨[], ?_, List.nil_prefix⟩
    simp only [fgets, front, before]
    simp [some_, oneLine]

/-- What `daemonize` writes is what `sendSignal` reads. -/
theorem exists_fgets_pid {pid : Int32} (positive : 0 < pid.toInt) (short : pid.toInt < 10 ^ 9) :
    ∃ buff, fgets pidSize (formatInt pid ++ [10]) = some buff ∧ atoi (cString buff) = pid := by
  have plain : formatInt pid = decimal pid.toInt.natAbs := by
    rw [formatInt, if_neg (by omega)]
  have length : (formatInt pid).length ≤ 9 := by
    rw [plain]
    exact length_decimal_le (by decide) (by omega)
  have digits : ∀ b ∈ formatInt pid, isDigit b = true := by
    rw [plain]
    exact fun b => isDigit_of_mem_decimal b
  have noZero : 0 ∉ formatInt pid := fun inside => absurd (digits _ inside) (by decide)
  have oneLine : 10 ∉ formatInt pid := fun inside => absurd (digits _ inside) (by decide)
  have some_ : formatInt pid ≠ [] := by
    rcases decimal_cons pid.toInt.natAbs with ⟨b, rest, shape, _⟩
    rw [plain, shape]
    exact List.cons_ne_nil b rest
  rcases exists_fgets_line (Nat.lt_succ_of_le length) oneLine some_ with ⟨ending, read, part⟩
  refine ⟨formatInt pid ++ ending, read, ?_⟩
  rw [cString_append noZero]
  rcases List.prefix_cons_iff.mp part with rfl | ⟨after, rfl, rest⟩
  · rw [cString, List.takeWhile_nil, List.append_nil, atoi_formatInt]
  · obtain rfl := List.prefix_nil.mp rest
    have line : cString [10] = [10] := rfl
    rw [line, atoi, plain, strtol_decimal_append _ (by omega) (by decide),
      Int.natAbs_of_nonneg positive.le, Int32.ofInt_toInt]

/-- The pid file is not there, or empty, or holds the pid of the server that has been started
last. -/
def Holds (pidFile : Bytes) (before : List Outcome) (files : Files) : Prop :=
  files pidFile = none ∨ files pidFile = some [] ∨
    ∃ pid, lastStarted before = some pid ∧ 0 < pid.toInt ∧ pid.toInt < 10 ^ 9 ∧
      files pidFile = some (formatInt pid ++ [10])

theorem fromDirectory_of_absolute (absolute : pidFile.head? = some 47) (cwd : Bytes) :
    fromDirectory cwd pidFile = pidFile := by
  rw [fromDirectory, if_pos absolute]

/-- Without the pid file, a command does nothing. -/
theorem main_of_absent (absolute : pidFile.head? = some 47) (uses : inv.config.pidFile = pidFile)
    (absent : files pidFile = none) :
    main_ files inv = (files, .halted (.exit "pid log not valid\n")) := by
  have refused : checkConfig (inv.checkEnv files) inv.config =
      .error (.exit "pid log not valid\n") := by
    simp [checkConfig, Invocation.checkEnv, uses, fromDirectory_of_absolute absolute, absent]
  rw [main_, refused]

/-- What a command with this pid can do with the pid file. -/
inductive Effect (pidFile : Bytes) (files : Files) (pid : Int32) : Files × Outcome → Prop
  | halted (halt : Halt) : Effect pidFile files pid (files, .halted halt)
  | printed (text : Bytes) : Effect pidFile files pid (files, .printed text)
  | removed (text : Bytes) (succeeds : Bool) :
      Effect pidFile files pid (unlink files pidFile succeeds, .printed text)
  | signalled {content buff : Bytes} (held : files pidFile = some content)
      (read : fgets pidSize content = some buff) (signal : Signal) (succeeds : Bool) :
      Effect pidFile files pid
        (unlink files pidFile succeeds, .signalled (atoi (cString buff)) signal succeeds)
  | started :
      Effect pidFile files pid
        (Function.update files pidFile (some (formatInt pid ++ [10])), .started pid)

theorem sendSignal_effect (sn : Bytes) (unlinks : Bool) (pid : Int32) :
    Effect pidFile files pid (sendSignal files pidFile sn unlinks) := by
  unfold sendSignal
  split
  · exact .printed _
  case h_2 content held =>
    split
    · exact .removed _ _
    case h_2 buff read =>
      dsimp only
      split
      · exact .signalled held read .sigkill _
      split
      · exact .signalled held read .sigint _
      split
      · exact .printed _
      split <;> exact .printed _

theorem daemonize_effect (absolute : pidFile.head? = some 47)
    (uses : inv.config.pidFile = pidFile) : Effect pidFile files inv.pid (daemonize files inv) := by
  unfold daemonize
  split
  · exact .printed _
  split
  · simp only [uses, fromDirectory_of_absolute absolute]
    exact .started
  · exact .printed _

theorem main_effect (absolute : pidFile.head? = some 47) (uses : inv.config.pidFile = pidFile) :
    Effect pidFile files inv.pid (main_ files inv) := by
  unfold main_
  split
  · exact .halted _
  split
  · exact .halted _
  split
  · exact .printed _
  split
  · rw [uses, fromDirectory_of_absolute absolute]
    exact sendSignal_effect _ _ _
  split
  · exact .printed _
  split
  · exact .printed _
  · exact daemonize_effect absolute uses

/-- Whether or not the file is removed, it holds no other pid. -/
theorem Holds.unlink {before after : List Outcome} (holds : Holds pidFile before files)
    (same : lastStarted after = lastStarted before) (succeeds : Bool) :
    Holds pidFile after (unlink files pidFile succeeds) := by
  cases succeeds with
  | true => exact .inl (Function.update_self ..)
  | false =>
      rw [Holds, same]
      exact holds

theorem lastStarted_append (before : List Outcome) (outcome : Outcome) :
    lastStarted (before ++ [outcome]) = outcome.started?.or (lastStarted before) := by
  cases shape : outcome.started? <;> simp [lastStarted, shape]

/-- A command keeps to the pid file, and signals the server that has been started last. -/
theorem Effect.holds {result : Files × Outcome} {pid : Int32} {before : List Outcome}
    (positive : 0 < pid.toInt) (short : pid.toInt < 10 ^ 9)
    (effect : Effect pidFile files pid result) (holds : Holds pidFile before files) :
    Holds pidFile (before ++ [result.2]) result.1 ∧
      ∀ target signal removed, result.2 = .signalled target signal removed →
        lastStarted before = some target ∧ (removed = true → result.1 pidFile = none) := by
  cases effect with
  | halted halt =>
      refine ⟨?_, fun target signal removed other => by cases other⟩
      simpa [Holds, lastStarted_append, Outcome.started?] using holds
  | printed text =>
      refine ⟨?_, fun target signal removed other => by cases other⟩
      simpa [Holds, lastStarted_append, Outcome.started?] using holds
  | removed text succeeds =>
      refine ⟨holds.unlink ?_ succeeds, fun target signal removed other => by cases other⟩
      rw [lastStarted_append]
      rfl
  | signalled held read signal succeeds =>
      refine ⟨holds.unlink ?_ succeeds, fun target other removed same => ?_⟩
      · rw [lastStarted_append]
        rfl
      · cases same
        refine ⟨?_, fun gone => ?_⟩
        · rcases holds with absent | empty | ⟨last, isLast, positive, short, holds⟩
          · rw [absent] at held
            cases held
          · obtain rfl := Option.some.inj (empty.symm.trans held)
            cases read
          · obtain rfl := Option.some.inj (holds.symm.trans held)
            rcases exists_fgets_pid positive short with ⟨_, same, value⟩
            obtain rfl := Option.some.inj (same.symm.trans read)
            rw [isLast, value]
        · rw [unlink, if_pos gone]
          exact Function.update_self ..
  | started =>
      refine ⟨.inr (.inr ⟨pid, ?_, positive, short, Function.update_self ..⟩),
        fun target signal removed other => by cases other⟩
      rw [lastStarted_append]
      rfl

/-- So does whoever creates it. -/
theorem holds_touch {before : List Outcome} (path : Bytes) (holds : Holds pidFile before files) :
    Holds pidFile (before ++ [(Event.step files (.touch path)).2])
      (Event.step files (.touch path)).1 := by
  have kept : lastStarted (before ++ [.touched path]) = lastStarted before := by
    rw [lastStarted_append]
    rfl
  by_cases same : pidFile = path
  · subst same
    rcases holds with absent | empty | ⟨last, isLast, positive, short, holds⟩
    · exact .inr (.inl (by simp [Event.step, absent]))
    · exact .inr (.inl (by simp [Event.step, empty]))
    · refine .inr (.inr ⟨last, kept.trans isLast, positive, short, ?_⟩)
      simp [Event.step, holds]
  · simpa [Holds, Event.step, Function.update_of_ne same, kept] using holds

/-! ## Runs -/

/-- While the pid file is not there, every command is refused. -/
theorem refused_of_absent (absolute : pidFile.head? = some 47) {events : List Event}
    (uses : ∀ event ∈ events, event.Uses pidFile) (absent : files pidFile = none)
    {middle rest : List Outcome} {outcome : Outcome}
    (ran : outcomes files events = middle ++ outcome :: rest)
    (untouched : .touched pidFile ∉ middle) :
    (∃ path, outcome = .touched path) ∨ outcome = .halted (.exit "pid log not valid\n") := by
  induction events generalizing files middle with
  | nil => simp [outcomes] at ran
  | cons event events ih =>
      rcases List.forall_mem_cons.mp uses with ⟨first, others⟩
      have this : ((∃ path, (event.step files).2 = .touched path) ∨
          (event.step files).2 = .halted (.exit "pid log not valid\n")) ∧
            ((event.step files).2 ≠ .touched pidFile → (event.step files).1 pidFile = none) := by
        cases event with
        | command inv =>
            have refused := main_of_absent absolute first.1 absent
            simp [Event.step, refused, absent]
        | touch path =>
            refine ⟨.inl ⟨path, rfl⟩, fun other => ?_⟩
            have ne : pidFile ≠ path := by
              rintro rfl
              exact other rfl
            simp [Event.step, Function.update_of_ne ne, absent]
      cases middle with
      | nil =>
          rw [outcomes, List.nil_append, List.cons.injEq] at ran
          exact ran.1 ▸ this.1
      | cons before middle =>
          rw [outcomes, List.cons_append, List.cons.injEq] at ran
          rcases List.ne_and_not_mem_of_not_mem_cons untouched with ⟨other, untouched⟩
          exact ih others (this.2 (ran.1 ▸ other.symm)) ran.2 untouched

theorem orderly_from (absolute : pidFile.head? = some 47) {events : List Event}
    (uses : ∀ event ∈ events, event.Uses pidFile) {before front back : List Outcome}
    (holds : Holds pidFile before files) {pid : Int32} {signal : Signal} {removed : Bool}
    (ran : outcomes files events = front ++ .signalled pid signal removed :: back) :
    lastStarted (before ++ front) = some pid ∧ (removed = true →
      ∀ middle outcome rest, back = middle ++ outcome :: rest → .touched pidFile ∉ middle →
        (∃ path, outcome = .touched path) ∨ outcome = .halted (.exit "pid log not valid\n")) := by
  induction events generalizing files before front with
  | nil => simp [outcomes] at ran
  | cons event events ih =>
      rcases List.forall_mem_cons.mp uses with ⟨first, others⟩
      have step : Holds pidFile (before ++ [(event.step files).2]) (event.step files).1 ∧
          ∀ target signal removed, (event.step files).2 = .signalled target signal removed →
            lastStarted before = some target ∧
              (removed = true → (event.step files).1 pidFile = none) := by
        cases event with
        | command inv =>
            exact (main_effect absolute first.1).holds first.2.1 first.2.2 holds
        | touch path =>
            exact ⟨holds_touch path holds, fun target signal removed other => by cases other⟩
      cases front with
      | nil =>
          rw [outcomes, List.nil_append, List.cons.injEq] at ran
          rcases step.2 pid signal removed ran.1 with ⟨last, absent⟩
          rw [List.append_nil]
          refine ⟨last, fun gone middle outcome rest split untouched => ?_⟩
          exact refused_of_absent absolute others (absent gone) (ran.2.trans split) untouched
      | cons outcome front =>
          rw [outcomes, List.cons_append, List.cons.injEq] at ran
          have later := ih others (ran.1 ▸ step.1) ran.2
          rwa [List.append_assoc, List.singleton_append] at later

/-- A pid file that starts empty, or not at all, keeps every run of commands orderly. -/
theorem orderly (files : Files) (events : List Event) (absolute : pidFile.head? = some 47)
    (fresh : files pidFile = none ∨ files pidFile = some [])
    (uses : ∀ event ∈ events, event.Uses pidFile) : Orderly pidFile (outcomes files events) := by
  intro front pid signal removed back ran
  have holds : Holds pidFile [] files := fresh.imp_right .inl
  exact orderly_from absolute uses holds ran

/-- A command line with only the option `-s`, if any. -/
def Invocation.plain (signalName : Option Bytes) (pid : Int32) : Invocation :=
  { foreground := false, showVersion := false, testConfig := false, signalName := signalName
    cwd := bytes "/", config := .initial, env := .permissive, openLogFiles := .ok ()
    mimeTypes := true, detaches := true, writes := true, unlinks := true, pid := pid }

/-- Behind the installation, a server starts, is started over, and stops.  Then none starts any
more. -/
theorem orderly_startTwice :
    let files : Files := Function.update (fun _ => none) defaultPidFile (some [])
    let events : List Event :=
      [.command (.plain none 700), .command (.plain none 4711),
        .command (.plain (some (bytes "stop")) 4712), .command (.plain none 4713)]
    outcomes files events = [.started 700, .started 4711, .signalled 4711 .sigkill true,
      .halted (.exit "pid log not valid\n")] ∧ Orderly defaultPidFile (outcomes files events) := by
  refine ⟨by decide +kernel, orderly _ _ (by decide) (.inr (Function.update_self ..)) ?_⟩
  simp only [List.forall_mem_cons, List.not_mem_nil, false_implies, implies_true, and_true]
  refine ⟨⟨rfl, ?_⟩, ⟨rfl, ?_⟩, ⟨rfl, ?_⟩, ⟨rfl, ?_⟩⟩ <;> decide

end OgWebserver.Startup

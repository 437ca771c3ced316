import OgWebserver.Config.Check
import OgWebserver.Config.Logs
import OgWebserver.Startup.LogFiles

/-!
# Starting without the default server

With `-n`, `popServer` frees the first server together with its logs, and leaves these in the
lists that `openLogFiles` goes through.
-/

namespace OgWebserver.Startup

open Text Config Transition

/-- The node of a log that has not been opened yet, unless it has been freed. -/
def logNode (file : LogFile) : Option LogEntry :=
  if file.freed then none else some { path := file.path, fd := -1 }

/-- `pathAlreadyOpened`, in a list with freed nodes. -/
def pathAlreadyOpenedIn (path : Bytes) : List (Option LogEntry) → Except Halt Int
  | [] => .ok (-1)
  | none :: _ => .error .undefined
  | some log :: rest =>
      if path = log.path ∧ log.fd ≠ -1 then .ok log.fd else pathAlreadyOpenedIn path rest

/-- A loop of `openLogFiles`, in a list with freed nodes. -/
def openListIn (kernel : Opener) (message : String) :
    List LogEntry → List (Option LogEntry) → Opens → Except Halt (List LogEntry × Opens)
  | served, [], opens => .ok (served, opens)
  | _, none :: _, _ => .error .undefined
  | served, some log :: rest, opens => do
      let known ← pathAlreadyOpenedIn log.path (served.map some ++ some log :: rest)
      let (fd, opens) :=
        if known = -1 then (kernel opens.length, opens ++ [(log.path, kernel opens.length)])
        else (known, opens)
      if fd = -1 then .error (.exit message)
      else openListIn kernel message (served ++ [{ log with fd := fd }]) rest opens

def openLogFilesIn (kernel : Opener) (accessLog errorLog : List (Option LogEntry)) :
    Except Halt (List LogEntry × List LogEntry × Opens) := do
  let (accessLog, opens) ← openListIn kernel "access log not valid\n" [] accessLog []
  let (errorLog, opens) ← openListIn kernel "error log not valid\n" [] errorLog opens
  .ok (accessLog, errorLog, opens)

/-! ## Lists with and without freed nodes -/

section Nodes

variable {kernel : Opener} {message : String} {nodes : List (Option LogEntry)}

theorem pathAlreadyOpenedIn_live (path : Bytes) (list : List LogEntry) :
    pathAlreadyOpenedIn path (list.map some) = .ok (pathAlreadyOpened path list) := by
  induction list with
  | nil => rfl
  | cons log rest ih =>
      rw [List.map_cons, pathAlreadyOpenedIn, pathAlreadyOpened, ih]
      split <;> rfl

/-- As long as nothing has been freed, `openLogFiles` is what it is without memory. -/
theorem openListIn_live (served rest : List LogEntry) (opens : Opens) :
    openListIn kernel message served (rest.map some) opens =
      openList kernel message served rest opens := by
  induction rest generalizing served opens with
  | nil => rfl
  | cons log rest ih =>
      have whole : served.map some ++ some log :: rest.map some =
          (served ++ log :: rest).map some := by simp
      rw [List.map_cons, openListIn, openList, whole, pathAlreadyOpenedIn_live, openLogFile]
      by_cases new : pathAlreadyOpened log.path (served ++ log :: rest) = -1
      · simp only [new, if_true, bind, Except.bind, ih]
      · simp only [new, if_false, bind, Except.bind, ih]

theorem openLogFilesIn_live (accessLog errorLog : List LogEntry) :
    openLogFilesIn kernel (accessLog.map some) (errorLog.map some) =
      openLogFiles kernel accessLog errorLog := by
  simp only [openLogFilesIn, openLogFiles, openListIn_live]

theorem pathAlreadyOpenedIn_freed {path : Bytes} (freed : none ∈ nodes)
    (unopened : ∀ log, some log ∈ nodes → log.fd = -1) :
    pathAlreadyOpenedIn path nodes = .error .undefined := by
  induction nodes with
  | nil => cases freed
  | cons node rest ih =>
      cases node with
      | none => rfl
      | some log =>
          have here := unopened log List.mem_cons_self
          rw [pathAlreadyOpenedIn, if_neg fun both => both.2 here]
          apply ih
          · simpa using freed
          · exact fun other member => unopened other (List.mem_cons_of_mem _ member)

/-- The first entry is looked for in the whole list, so that a freed node is met at once. -/
theorem openListIn_freed {opens : Opens} (freed : none ∈ nodes)
    (unopened : ∀ log, some log ∈ nodes → log.fd = -1) :
    openListIn kernel message [] nodes opens = .error .undefined := by
  cases nodes with
  | nil => cases freed
  | cons node rest =>
      cases node with
      | none => rfl
      | some log =>
          rw [openListIn, List.map_nil, List.nil_append, pathAlreadyOpenedIn_freed freed unopened]
          rfl

theorem fd_of_mem_map_logNode {logs : List LogFile} {log : LogEntry}
    (member : some log ∈ logs.map logNode) : log.fd = -1 := by
  rcases List.mem_map.mp member with ⟨file, _, is⟩
  rw [logNode] at is
  split at is
  · cases is
  · rw [← Option.some.inj is]

theorem map_logNode_of_live {logs : List LogFile} (live : ∀ file ∈ logs, file.freed = false) :
    logs.map logNode = (logs.map fun file => LogEntry.mk file.path (-1)).map some := by
  rw [List.map_map]
  apply List.map_congr_left
  intro file member
  simp [logNode, live file member]

end Nodes

/-! ## Logs of parsed servers -/

/-- The slot holds the log. -/
def Holding (slot : LogSlot) (log : Option Nat) : Prop :=
  ∃ n, log = some n ∧ n < slot.logs.length

/-- No log of the slot has been freed. -/
structure LiveSlot (slot : LogSlot) : Prop where
  nonempty : slot.logs ≠ []
  live : ∀ file ∈ slot.logs, file.freed = false
  current : ∀ n, slot.current = some n → n < slot.logs.length

/-- Every server has logs, and none has been freed. -/
structure Logged (s : ParseState) : Prop where
  access : LiveSlot s.settings.accessSlot
  error : LiveSlot s.settings.errorSlot
  servers : ∀ server ∈ s.serverList, Holding s.settings.accessSlot server.accessLog ∧
    Holding s.settings.errorSlot server.errorLog

variable {gethostbyname : Resolver} {s t : ParseState} {slot : LogSlot}

theorem LiveSlot.push (live : LiveSlot slot) (path : Bytes) : LiveSlot (slot.push path) where
  nonempty := by simp [LogSlot.push]
  live := by simpa [LogSlot.push, or_imp, forall_and] using live.live
  current := by simp [LogSlot.push]

theorem LiveSlot.take (live : LiveSlot slot) : LiveSlot { slot with current := none } :=
  ⟨live.nonempty, live.live, fun _ other => by cases other⟩

/-- The log that a server gets. -/
theorem LiveSlot.holding (live : LiveSlot slot) :
    Holding slot (slot.current.or (if slot.logs.isEmpty then none else some 0)) := by
  cases given : slot.current with
  | some n => exact ⟨n, rfl, live.current n given⟩
  | none => exact ⟨0, by simp [live.nonempty], List.length_pos_iff.mpr live.nonempty⟩

theorem liveSlots_after {c : Settings} (access : LiveSlot c.accessSlot)
    (error : LiveSlot c.errorSlot) (a : Action) :
    LiveSlot (c.after a).accessSlot ∧ LiveSlot (c.after a).errorSlot := by
  cases a with
  | accessLog path => exact ⟨access.push path, error⟩
  | errorLog path => exact ⟨access, error.push path⟩
  | server => exact ⟨access.take, error.take⟩
  | listen name portNum => cases name <;> exact ⟨access, error⟩
  | _ => exact ⟨access, error⟩

/-- The server that an action closes. -/
def closed (s : ParseState) : Action → List Server
  | .server => [serverOf s]
  | .http => [defaultServerOf s]
  | _ => []

theorem serverList_of_pass {type : Nat} {host : Bytes} {port : Int32}
    (ran : pass gethostbyname type host port s = .ok t) : t.serverList = s.serverList := by
  rcases bind_eq_ok_iff.mp ran with ⟨found, _, rest⟩
  cases found with
  | none =>
      rw [proxyPassToHost_eq_ok rest]
  | some group =>
      rcases bind_eq_ok_iff.mp rest with ⟨m, moved, resolved⟩
      rcases resolveGroup_eq_ok resolved with ⟨passTo, _, resolved_eq, _⟩
      rw [resolved_eq, locationToGroup_eq_ok moved]

/-- Other actions leave the servers alone. -/
theorem serverList_of_open {a : Action} (notClosing : a.closes = false)
    (ran : perform gethostbyname s a = .ok t) : t.serverList = s.serverList := by
  have quiet : a.quiet = true → t.serverList = s.serverList :=
    fun quiet => congrArg Core.serverList (core_of_quiet quiet ran)
  cases a with
  | server | http => cases notClosing
  | root root =>
      simp only [perform, fRoot] at ran
      split at ran
      · split at ran
        · rcases bind_eq_ok_iff.mp ran with ⟨_, _, done⟩
          rw [← Except.ok.inj done]
        · rw [← Except.ok.inj ran]
      · rw [← Except.ok.inj ran]
  | expires expires =>
      rcases bind_eq_ok_iff.mp ran with ⟨_, _, done⟩
      rw [← Except.ok.inj done]
  | tryTarget | upstream =>
      rw [← Except.ok.inj ran]
      rfl
  | tryFiles =>
      rw [← Except.ok.inj ran]
      simp only [fTryFiles]
      split <;> rfl
  | protocol p =>
      rw [← Except.ok.inj ran]
      simp only [fProtocol]
      split_ifs <;> rfl
  | proxyPass | fastcgiPass => exact serverList_of_pass ran
  | location matchType match_ =>
      simp only [perform, fLocation] at ran
      split at ran
      · cases ran
      · rw [← Except.ok.inj ran]
  | upstreams name =>
      simp only [perform, fUpstreams, setUpstreamList] at ran
      split at ran
      · cases ran
      · rw [← Except.ok.inj ran]
  | _ => exact quiet rfl

theorem serverList_of_perform {a : Action} (ran : perform gethostbyname s a = .ok t) :
    t.serverList = s.serverList ++ closed s a := by
  cases a with
  | server | http =>
      rw [← Except.ok.inj ran]
      rfl
  | _ => exact (serverList_of_open rfl ran).trans (List.append_nil _).symm

theorem Holding.mono {more : LogSlot} {log : Option Nat} (holding : Holding slot log)
    (grows : slot.logs <+: more.logs) : Holding more log := by
  rcases holding with ⟨n, is, inside⟩
  exact ⟨n, is, inside.trans_le grows.length_le⟩

theorem Logged.perform {a : Action} (logged : Logged s)
    (ran : perform gethostbyname s a = .ok t) : Logged t := by
  have settings := settings_of_perform ran
  have slots := liveSlots_after logged.access logged.error a
  have access : s.settings.accessSlot.logs <+: t.settings.accessSlot.logs := by
    rw [settings]
    exact s.settings.accessLogs_prefix_after a
  have error : s.settings.errorSlot.logs <+: t.settings.errorSlot.logs := by
    rw [settings]
    exact s.settings.errorLogs_prefix_after a
  rw [← settings] at slots
  refine ⟨slots.1, slots.2, ?_⟩
  rw [serverList_of_perform ran]
  intro server member
  have before : Holding s.settings.accessSlot server.accessLog ∧
      Holding s.settings.errorSlot server.errorLog := by
    rcases List.mem_append.mp member with old | new
    · exact logged.servers server old
    · cases a with
      | server =>
          obtain rfl := List.mem_singleton.mp new
          exact ⟨logged.access.holding, logged.error.holding⟩
      | http =>
          obtain rfl := List.mem_singleton.mp new
          exact ⟨logged.access.take.holding, logged.error.take.holding⟩
      | _ => cases new
  exact ⟨before.1.mono access, before.2.mono error⟩

theorem logged_of_run {actions : List Action}
    (ran : run (Config.perform gethostbyname) .initial actions = .ok s) : Logged s := by
  have start : Logged .initial :=
    { access := ⟨by decide, by decide, by decide⟩
      error := ⟨by decide, by decide, by decide⟩
      servers := fun _ member => by cases member }
  exact run_invariant (fun _ _ _ _ logged one => logged.perform one) start ran

/-! ## The option -/

/-- Freeing a log makes its node one that must not be touched. -/
theorem freeLog_eq_ok {logs freed : List LogFile} {log : Nat}
    (ran : freeLog logs (some log) = .ok freed) : none ∈ freed.map logNode := by
  simp only [freeLog] at ran
  split at ran
  case h_1 file inside =>
    split at ran
    · cases ran
    · obtain rfl := Except.ok.inj ran
      have bound := (List.getElem?_eq_some_iff.mp inside).1
      refine List.mem_map.mpr ⟨{ file with freed := true }, ?_, by simp [logNode]⟩
      exact List.mem_iff_getElem.mpr ⟨log, by simpa using bound, by simp⟩
  · cases ran

/-- The logs behind `checkServers`. -/
theorem checkServers_logs {env : CheckEnv} (logged : Logged s)
    (accepted : checkServers env s = .ok t) :
    if env.isDefaultServer then t.accessLogs = s.accessLogs ∧ t.errorLogs = s.errorLogs
    else none ∈ t.accessLogs.map logNode := by
  rcases bind_eq_ok_iff.mp accepted with ⟨m, start, rest⟩
  rcases bind_eq_ok_iff.mp rest with ⟨servers, _, done⟩
  obtain rfl := Except.ok.inj done
  rw [withoutDefault] at start
  by_cases enabled : env.isDefaultServer = true
  · rw [if_pos enabled] at start ⊢
    rw [Except.ok.inj start]
    exact ⟨rfl, rfl⟩
  · rw [if_neg enabled] at start ⊢
    rw [popServer] at start
    split at start
    · cases start
    case h_2 server others list =>
      rcases bind_eq_ok_iff.mp start with ⟨accessLogs, access, start⟩
      rcases bind_eq_ok_iff.mp start with ⟨_, _, start⟩
      obtain rfl := Except.ok.inj start
      rcases (logged.servers server (list ▸ List.mem_cons_self)).1 with ⟨log, is, _⟩
      rw [is] at access
      exact freeLog_eq_ok access

/-- With the default server, `openLogFiles` opens what the configuration names; without, it walks
into a freed node before it opens anything. -/
theorem openLogFilesIn_eq {file : ConfigFile} {env : CheckEnv}
    (parsed : file.parse gethostbyname = .ok s) (accepted : checkConfig env s = .ok t)
    (kernel : Opener) :
    openLogFilesIn kernel (t.accessLogs.map logNode) (t.errorLogs.map logNode) =
      if env.isDefaultServer then
        openLogFiles kernel (s.accessLogs.map fun file => LogEntry.mk file.path (-1))
          (s.errorLogs.map fun file => LogEntry.mk file.path (-1))
      else .error .undefined := by
  have logged := logged_of_run parsed
  rw [checkConfig] at accepted
  split at accepted
  · have logs := checkServers_logs logged accepted
    split at logs
    case isTrue enabled =>
      have access : ∀ log ∈ s.accessLogs, log.freed = false := logged.access.live
      have error : ∀ log ∈ s.errorLogs, log.freed = false := logged.error.live
      rw [logs.1, logs.2, map_logNode_of_live access, map_logNode_of_live error,
        openLogFilesIn_live, if_pos enabled]
    case isFalse disabled =>
      rw [if_neg disabled, openLogFilesIn, openListIn_freed logs fun _ => fd_of_mem_map_logNode]
      rfl
  · cases accepted

/-- A configuration with one server block, accepted with and without `-n`. -/
theorem openLogFilesIn_eq_one :
    let file : ConfigFile :=
      { main := [], first := .server [.accessLog (bytes "/var/log/a.log")], rest := [] }
    let kernel : Opener := fun n => n + 3
    ∀ isDefaultServer, ∃ s t, file.parse (fun _ => none) = .ok s ∧
      checkConfig { CheckEnv.permissive with isDefaultServer := isDefaultServer } s = .ok t ∧
      openLogFilesIn kernel (t.accessLogs.map logNode) (t.errorLogs.map logNode) =
        if isDefaultServer then
          openLogFiles kernel (s.accessLogs.map fun log => LogEntry.mk log.path (-1))
            (s.errorLogs.map fun log => LogEntry.mk log.path (-1))
        else .error .undefined := by
  intro file kernel isDefaultServer
  obtain ⟨s, t, parsed, accepted⟩ : ∃ s t, file.parse (fun _ => none) = .ok s ∧
      checkConfig { CheckEnv.permissive with isDefaultServer := isDefaultServer } s = .ok t := by
    cases isDefaultServer <;> exact ⟨_, _, rfl, rfl⟩
  exact ⟨s, t, parsed, accepted, openLogFilesIn_eq parsed accepted kernel⟩

end OgWebserver.Startup

import OgWebserver.Startup.Entries

/-!
# The fork loop

`startProcesses` counts the entries of the process list, and forks as often as the count
says; each process serves one entry.  The count is an `int` that goes down to zero before it
is looked at.
-/

namespace OgWebserver.Startup

open Text Config Keyed Transition

/-- What goes wrong in `startProcesses`. -/
inductive StartFault
  /-- An `int` leaves its range. -/
  | overflow
  /-- The end of the process list is followed. -/
  | nullEntry
  deriving DecidableEq

/-- What `startProcesses` comes to. -/
inductive Started
  /-- Each process serves an entry: the children in the order they are forked, and the
  parent. -/
  | serving (children : List Proc) (parent : Proc)
  /-- `fork` has failed, and the parent has called `exit(1)`. -/
  | exited (children : List Proc)
  deriving DecidableEq

def Started.withChild (p : Proc) : Started → Started
  | .serving children parent => .serving (p :: children) parent
  | .exited children => .exited (p :: children)

/-- The largest `int`. -/
def maxInt : Int := 2 ^ 31 - 1

def increment (n : Int) : Except StartFault Int :=
  if n < maxInt then .ok (n + 1) else .error .overflow

def decrement (n : Int) : Except StartFault Int :=
  if -maxInt - 1 < n then .ok (n - 1) else .error .overflow

/-- `pcount`: incremented for each entry, as it is put in front of the list. -/
def countEntries : List Proc → Except StartFault Int
  | [] => .ok 0
  | _ :: procList => do
      let pcount ← countEntries procList
      increment pcount

/-- The fork loop, at an entry of the list; `succeeds` says which of the next forks do. -/
def forkLoop : (Nat → Bool) → List Proc → Int → Except StartFault Started
  | succeeds, [], pcount => do
      let pcount ← decrement pcount
      if pcount = 0 then .error .nullEntry
      -- the child and the parent both follow the pointer
      else if succeeds 0 then .error .nullEntry
      else .ok (.exited [])
  | succeeds, p :: rest, pcount => do
      let pcount ← decrement pcount
      if pcount = 0 then .ok (.serving [] p)
      else if succeeds 0 then do
        let started ← forkLoop (fun i => succeeds (i + 1)) rest pcount
        .ok (started.withChild p)
      else .ok (.exited [])

/-- `startProcesses`, up to the call of `server` or `tlsServer` in each process. -/
def startProcesses (workers : Int32) (servers : List Server) (succeeds : Nat → Bool) :
    Except StartFault Started := do
  let procList := buildProcList workers servers
  let pcount ← countEntries procList
  forkLoop succeeds procList pcount

/-! ## The loop -/

theorem countEntries_eq (procList : List Proc) :
    countEntries procList =
      if (procList.length : Int) ≤ maxInt then .ok procList.length else .error .overflow := by
  induction procList with
  | nil => rfl
  | cons p rest ih =>
      rw [countEntries, ih, List.length_cons]
      push_cast
      by_cases fits : (rest.length : Int) ≤ maxInt
      · simp only [fits, if_true, bind, Except.bind, increment]
        by_cases more : (rest.length : Int) < maxInt
        · rw [if_pos more, if_pos (by omega)]
        · rw [if_neg more, if_neg (by omega)]
      · rw [if_neg fits, if_neg (by omega)]
        rfl

theorem decrement_of_pos {n : Int} (positive : 0 < n) : decrement n = .ok (n - 1) := by
  rw [decrement, if_pos]
  rw [maxInt]
  omega

/-- With as many entries as the count says, the loop does not leave the list. -/
theorem forkLoop_ok (succeeds : Nat → Bool) {entries : List Proc} (some_ : entries ≠ []) :
    ∃ started, forkLoop succeeds entries entries.length = .ok started := by
  induction entries generalizing succeeds with
  | nil => exact absurd rfl some_
  | cons p rest ih =>
      rw [forkLoop, decrement_of_pos (by simp)]
      simp only [bind, Except.bind]
      by_cases last : rest = []
      · subst last
        exact ⟨_, rfl⟩
      · have more : ((p :: rest).length : Int) - 1 = rest.length := by simp
        have positive : (rest.length : Int) ≠ 0 := by simpa using last
        rw [more, if_neg positive]
        cases succeeds 0 with
        | false => exact ⟨_, rfl⟩
        | true =>
            rcases ih (fun i => succeeds (i + 1)) last with ⟨started, ran⟩
            rw [ran]
            exact ⟨_, rfl⟩

/-- If every fork succeeds, the processes get the entries one after another. -/
theorem forkLoop_all (p : Proc) (rest : List Proc) :
    ∃ children parent, forkLoop (fun _ => true) (p :: rest) (p :: rest).length =
      .ok (.serving children parent) ∧ children ++ [parent] = p :: rest := by
  induction rest generalizing p with
  | nil => exact ⟨[], p, rfl, rfl⟩
  | cons q rest ih =>
      rcases ih q with ⟨children, parent, ran, same⟩
      refine ⟨p :: children, parent, ?_, by rw [List.cons_append, same]⟩
      have more : ((p :: q :: rest).length : Int) - 1 = (q :: rest).length := by simp
      have positive : ((q :: rest).length : Int) ≠ 0 := by
        simp only [List.length_cons]
        omega
      rw [forkLoop, decrement_of_pos (by simp; omega)]
      simp only [bind, Except.bind]
      rw [more, if_neg positive, ran]
      rfl

/-- Entries that are not more than an `int` can count. -/
def Countable (workers : Int32) (servers : List Server) : Prop :=
  workers.toInt * (portNumbers servers).dedup.length ≤ maxInt

instance (workers : Int32) (servers : List Server) : Decidable (Countable workers servers) :=
  inferInstanceAs (Decidable (_ ≤ _))

variable {workers : Int32} {servers : List Server}

theorem countable_iff (some_ : 0 < workers.toInt) :
    Countable workers servers ↔ ((buildProcList workers servers).length : Int) ≤ maxInt := by
  rw [Countable, length_buildProcList]
  push_cast
  rw [Int.toNat_of_nonneg (Int.le_of_lt some_)]

theorem startProcesses_eq (succeeds : Nat → Bool) :
    startProcesses workers servers succeeds =
      if ((buildProcList workers servers).length : Int) ≤ maxInt then
        forkLoop succeeds (buildProcList workers servers) (buildProcList workers servers).length
      else .error .overflow := by
  simp only [startProcesses, countEntries_eq]
  split <;> rfl

theorem buildProcList_ne_nil (some_ : 0 < workers.toInt) (ports : portNumbers servers ≠ []) :
    buildProcList workers servers ≠ [] := by
  have length := length_buildProcList workers servers
  intro none
  rw [none, List.length_nil, eq_comm, Nat.mul_eq_zero] at length
  rcases length with zero | zero
  · omega
  · rw [List.length_eq_zero_iff, List.dedup_eq_nil] at zero
    exact ports zero

/-! ## Entries and processes -/

/-- If every fork succeeds, each entry goes to one process, and each process gets one: the
children in turn, and at last the parent. -/
def EachOne (workers : Int32) (servers : List Server) : Prop :=
  ∃ children parent, startProcesses workers servers (fun _ => true) =
      .ok (.serving children parent) ∧
    children ++ [parent] = buildProcList workers servers

theorem eachOne_iff_countable (some_ : 0 < workers.toInt) (ports : portNumbers servers ≠ []) :
    EachOne workers servers ↔ Countable workers servers := by
  rw [EachOne, startProcesses_eq, countable_iff some_]
  constructor
  · rintro ⟨children, parent, ran, _⟩
    by_contra many
    rw [if_neg many] at ran
    cases ran
  · intro few
    rw [if_pos few]
    cases entries : buildProcList workers servers with
    | nil => exact absurd entries (buildProcList_ne_nil some_ ports)
    | cons p rest => exact forkLoop_all p rest

/-- For servers that are accepted, with a port and with workers, the list is right and is
shared out among the processes if and only if its entries can be counted. -/
theorem listExact_eachOne_iff {env : CheckEnv} {s t : ParseState}
    (accepted : checkServers env s = .ok t) (some_ : 0 < workers.toInt)
    (ports : portNumbers t.serverList ≠ []) :
    ListExact workers t.serverList ∧ EachOne workers t.serverList ↔
      Countable workers t.serverList := by
  rw [and_iff_right (listExact_of_accepted accepted some_)]
  exact eachOne_iff_countable some_ ports

theorem listExact_eachOne_iff_besideTls :
    ∃ s t, (besideTls 8081).parse (fun _ => none) = .ok s ∧
      checkServers .permissive s = .ok t ∧
      ListExact 4 t.serverList ∧ EachOne 4 t.serverList := by
  have countable : ∃ s t, (besideTls 8081).parse (fun _ => none) = .ok s ∧
      checkServers .permissive s = .ok t ∧ portNumbers t.serverList ≠ [] ∧
      Countable 4 t.serverList :=
    ⟨_, _, rfl, rfl, by decide, by decide⟩
  rcases countable with ⟨s, t, parsed, accepted, ports, countable⟩
  exact ⟨s, t, parsed, accepted, (listExact_eachOne_iff accepted (by decide) ports).mpr countable⟩

/-- Two ports, each with as many workers as an `int` can say. -/
theorem besideTls_overflow :
    ∃ s t, (besideTls 8081).parse (fun _ => none) = .ok s ∧
      checkServers .permissive s = .ok t ∧ portNumbers t.serverList ≠ [] ∧
      startProcesses 2147483647 t.serverList (fun _ => true) = .error .overflow ∧
      ¬ EachOne 2147483647 t.serverList := by
  have many : ∃ s t, (besideTls 8081).parse (fun _ => none) = .ok s ∧
      checkServers .permissive s = .ok t ∧ portNumbers t.serverList ≠ [] ∧
      ¬ Countable 2147483647 t.serverList :=
    ⟨_, _, rfl, rfl, by decide, by decide⟩
  rcases many with ⟨s, t, parsed, accepted, ports, many⟩
  refine ⟨s, t, parsed, accepted, ports, ?_, ?_⟩
  · rw [startProcesses_eq, if_neg]
    rwa [← countable_iff (by decide)]
  · rwa [eachOne_iff_countable (by decide) ports]

/-! ## The number of forks -/

/-- The loop never leaves the list, whichever forks succeed; and if all do, the parent falls
out of it after one fork less than there are entries. -/
def ForksExactly (workers : Int32) (servers : List Server) : Prop :=
  (∀ succeeds, ∃ started, startProcesses workers servers succeeds = .ok started) ∧
    ∃ children parent, startProcesses workers servers (fun _ => true) =
        .ok (.serving children parent) ∧
      children.length + 1 = (buildProcList workers servers).length

/-- Without entries, the first fork leads out of the list. -/
theorem startProcesses_of_nil (none : buildProcList workers servers = [])
    (succeeds : Nat → Bool) (first : succeeds 0 = true) :
    startProcesses workers servers succeeds = .error .nullEntry := by
  rw [startProcesses_eq, none]
  simp [forkLoop, first, decrement, maxInt, bind, Except.bind]

/-- The fork loop is right if and only if there are workers and a port, and the entries can be
counted. -/
theorem forksExactly_iff (workers : Int32) (servers : List Server) :
    ForksExactly workers servers ↔
      0 < workers.toInt ∧ portNumbers servers ≠ [] ∧ Countable workers servers := by
  constructor
  · intro ⟨safe, _⟩
    rcases safe (fun _ => true) with ⟨started, ran⟩
    have entries : buildProcList workers servers ≠ [] := by
      intro none
      rw [startProcesses_of_nil none _ rfl] at ran
      cases ran
    have some_ : 0 < workers.toInt := by
      by_contra noWorkers
      exact entries (buildProcList_of_noWorkers (by omega) servers)
    refine ⟨some_, ?_, ?_⟩
    · intro none
      apply entries
      rw [← List.length_eq_zero_iff, length_buildProcList, none]
      simp
    · rw [countable_iff some_]
      by_contra many
      rw [startProcesses_eq, if_neg many] at ran
      cases ran
  · rintro ⟨some_, ports, countable⟩
    have few := (countable_iff some_).mp countable
    constructor
    · intro succeeds
      rw [startProcesses_eq, if_pos few]
      exact forkLoop_ok succeeds (buildProcList_ne_nil some_ ports)
    · rcases (eachOne_iff_countable some_ ports).mpr countable with ⟨children, parent, ran, same⟩
      refine ⟨children, parent, ran, ?_⟩
      rw [← same]
      simp

/-- `worker_processes` with one server. -/
def withWorkers (workers : Int32) : ConfigFile :=
  { main := [.workerProcesses workers]
    first := .server [.listen (.number 8080) []]
    rest := [] }

/-- With `worker_processes 0;` the parent forks for no entry. -/
theorem noWorkers_not_forksExactly :
    ∃ s t, (withWorkers 0).parse (fun _ => none) = .ok s ∧
      checkServers .permissive s = .ok t ∧ t.workerProcesses = 0 ∧
      startProcesses t.workerProcesses t.serverList (fun _ => true) = .error .nullEntry ∧
      ¬ ForksExactly t.workerProcesses t.serverList := by
  have noEntries : ∃ s t, (withWorkers 0).parse (fun _ => none) = .ok s ∧
      checkServers .permissive s = .ok t ∧ t.workerProcesses = 0 :=
    ⟨_, _, rfl, rfl, rfl⟩
  rcases noEntries with ⟨s, t, parsed, accepted, zero⟩
  have none : buildProcList t.workerProcesses t.serverList = [] := by
    rw [zero]
    exact buildProcList_of_noWorkers (by decide) t.serverList
  have ran := startProcesses_of_nil none (fun _ => true) rfl
  refine ⟨s, t, parsed, accepted, zero, ran, ?_⟩
  rintro ⟨safe, _⟩
  rcases safe (fun _ => true) with ⟨started, fine⟩
  rw [ran] at fine
  cases fine

end OgWebserver.Startup

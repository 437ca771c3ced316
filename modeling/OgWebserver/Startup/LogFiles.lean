import Mathlib.Data.List.Induction
import OgWebserver.Config.State
import OgWebserver.Keyed.Firsts

/-!
# Opening the log files

`openLogFiles` goes through a list while it changes it: each entry looks for its
path in the whole list, finds it among the entries that have been served, and is
opened otherwise.
-/

namespace OgWebserver.Startup

open Text Config

/-- The parts of `_log_file` that opening reads and writes. -/
structure LogEntry where
  path : Bytes
  fd : Int
  deriving DecidableEq

/-- The result of `open`, for each call from the first on. -/
abbrev Opener : Type :=
  Nat → Int

/-- The calls of `open` so far: the path and the result. -/
abbrev Opens : Type :=
  List (Bytes × Int)

def pathAlreadyOpened (path : Bytes) : List LogEntry → Int
  | [] => -1
  | log :: rest =>
      if path = log.path ∧ log.fd ≠ -1 then log.fd else pathAlreadyOpened path rest

/-- The descriptor an entry gets, and the calls. -/
def openLogFile (kernel : Opener) (path : Bytes) (list : List LogEntry) (opens : Opens) :
    Int × Opens :=
  if pathAlreadyOpened path list = -1 then
    (kernel opens.length, opens ++ [(path, kernel opens.length)])
  else (pathAlreadyOpened path list, opens)

/-- A loop of `openLogFiles`: the entries that have been served, and the others. -/
def openList (kernel : Opener) (message : String) :
    List LogEntry → List LogEntry → Opens → Except Halt (List LogEntry × Opens)
  | served, [], opens => .ok (served, opens)
  | served, log :: rest, opens =>
      let (fd, opens) := openLogFile kernel log.path (served ++ log :: rest) opens
      if fd = -1 then .error (.exit message)
      else openList kernel message (served ++ [{ log with fd := fd }]) rest opens

def openLogFiles (kernel : Opener) (accessLog errorLog : List LogEntry) :
    Except Halt (List LogEntry × List LogEntry × Opens) := do
  let (accessLog, opens) ← openList kernel "access log not valid\n" [] accessLog []
  let (errorLog, opens) ← openList kernel "error log not valid\n" [] errorLog opens
  .ok (accessLog, errorLog, opens)

/-! ## One list -/

/-- The paths of a list, each once. -/
def paths (list : List LogEntry) : List Bytes :=
  Keyed.firsts id [] (list.map (·.path))

/-- The first calls of `open` succeed, and each returns a descriptor that none before it
has returned. -/
structure Fresh (kernel : Opener) (count : Nat) : Prop where
  valid : ∀ n < count, 0 ≤ kernel n
  distinct : ∀ n < count, ∀ m < n, kernel m ≠ kernel n

/-- The entries that have been served, and the calls made for them: one for each path, the
first of them with the given number. -/
structure Served (kernel : Opener) (first : Nat) (list : List LogEntry) (own : Opens) : Prop where
  calls : own.map Prod.fst = paths list
  results : own.map Prod.snd = (List.range' first own.length).map kernel
  given : ∀ log ∈ list, (log.path, log.fd) ∈ own

variable {kernel : Opener} {first count : Nat} {served rest : List LogEntry} {own : Opens}
variable {path : Bytes}

/-- Entries without a descriptor are passed over. -/
theorem pathAlreadyOpened_of_unopened (unopened : ∀ log ∈ rest, log.fd = -1) :
    pathAlreadyOpened path rest = -1 := by
  induction rest with
  | nil => rfl
  | cons log rest ih =>
      rcases List.forall_mem_cons.mp unopened with ⟨here, others⟩
      rw [pathAlreadyOpened, if_neg fun both => both.2 here, ih others]

/-- The path is found among the entries with a descriptor, if it is there. -/
theorem pathAlreadyOpened_append (opened : ∀ log ∈ served, log.fd ≠ -1)
    (unopened : ∀ log ∈ rest, log.fd = -1) :
    (path ∉ served.map (·.path) ∧ pathAlreadyOpened path (served ++ rest) = -1) ∨
      ∃ log ∈ served, log.path = path ∧ pathAlreadyOpened path (served ++ rest) = log.fd := by
  induction served with
  | nil => exact .inl ⟨List.not_mem_nil, pathAlreadyOpened_of_unopened unopened⟩
  | cons log more ih =>
      rcases List.forall_mem_cons.mp opened with ⟨here, others⟩
      rw [List.cons_append, pathAlreadyOpened]
      by_cases same : path = log.path
      · rw [if_pos ⟨same, here⟩]
        exact .inr ⟨log, List.mem_cons_self, same.symm, rfl⟩
      · rw [if_neg fun both => same both.1]
        rcases ih others with ⟨absent, none_⟩ | ⟨other, member, is, found⟩
        · exact .inl ⟨by simpa [same] using absent, none_⟩
        · exact .inr ⟨other, List.mem_cons_of_mem log member, is, found⟩

theorem paths_concat (log : LogEntry) :
    paths (served ++ [log]) =
      if log.path ∈ served.map (·.path) then paths served else paths served ++ [log.path] := by
  have known : id log.path ∈ [] ∨ id log.path ∈ (served.map (·.path)).map id ↔
      log.path ∈ served.map (·.path) := by
    rw [List.map_id]
    exact or_iff_right List.not_mem_nil
  rw [paths, List.map_append, List.map_singleton, Keyed.firsts_concat, paths]
  by_cases old : log.path ∈ served.map (·.path)
  · rw [if_pos old, if_pos (known.mpr old), List.append_nil]
  · rw [if_neg old, if_neg fun either => old (known.mp either)]

theorem length_paths_le (served rest : List LogEntry) :
    (paths served).length ≤ (paths (served ++ rest)).length := by
  induction rest using List.reverseRecOn with
  | nil => rw [List.append_nil]
  | append_singleton rest log ih =>
      rw [← List.append_assoc, paths_concat]
      apply ih.trans
      split
      · exact Nat.le_refl _
      · rw [List.length_append]
        exact Nat.le_add_right _ _

theorem mem_paths {list : List LogEntry} : path ∈ paths list ↔ path ∈ list.map (·.path) := by
  rw [← List.map_id (paths list), paths, Keyed.mem_keys_firsts_iff, List.map_id]
  simp

/-- Descriptors that calls have returned are none of the marks of an entry without one. -/
theorem Served.opened (done : Served kernel first served own) (fresh : Fresh kernel count)
    (bound : first + own.length ≤ count) : ∀ log ∈ served, 0 ≤ log.fd := by
  intro log member
  have result : log.fd ∈ own.map Prod.snd := List.mem_map_of_mem (done.given log member)
  rw [done.results, List.mem_map] at result
  rcases result with ⟨n, inside, is⟩
  rw [← is]
  exact fresh.valid n (Nat.lt_of_lt_of_le (List.mem_range'_1.mp inside).2 bound)

/-- One entry. -/
theorem Served.step {log : LogEntry} {front : Opens} (done : Served kernel front.length served own)
    (fresh : Fresh kernel count)
    (enough : front.length + (paths (served ++ [log])).length ≤ count)
    (unopened : ∀ other ∈ log :: rest, other.fd = -1) :
    ∃ fd own', openLogFile kernel log.path (served ++ log :: rest) (front ++ own) =
        (fd, front ++ own') ∧ 0 ≤ fd ∧
      Served kernel front.length (served ++ [{ log with fd := fd }]) own' := by
  have length : own.length = (paths served).length := by
    rw [← done.calls, List.length_map]
  have bound : front.length + own.length ≤ count := by
    rw [length]
    exact (Nat.add_le_add_left (length_paths_le served [log]) _).trans enough
  have opened := done.opened fresh bound
  have noMark : ∀ other ∈ served, other.fd ≠ -1 := by
    intro other member is
    have valid := opened other member
    rw [is] at valid
    exact absurd valid (by decide)
  rcases pathAlreadyOpened_append noMark unopened with
    ⟨new, notFound⟩ | ⟨twin, member, same, found⟩
  · rw [paths_concat, if_neg new, List.length_append, List.length_singleton, ← length] at enough
    have next : front.length + own.length < count := enough
    refine ⟨kernel (front ++ own).length, own ++ [(log.path, kernel (front ++ own).length)],
      ?_, ?_, ?_⟩
    · rw [openLogFile, if_pos notFound, List.append_assoc]
    · rw [List.length_append]
      exact fresh.valid _ next
    · constructor
      · rw [paths_concat, if_neg new, List.map_append, done.calls]
        rfl
      · rw [List.map_append, done.results, List.length_append, List.length_append,
          List.length_singleton, List.range'_concat, List.map_append, Nat.one_mul]
        rfl
      · intro other inside
        rcases List.mem_append.mp inside with old | last
        · exact List.mem_append_left _ (done.given other old)
        · obtain rfl := List.mem_singleton.mp last
          exact List.mem_append_right _ (List.mem_singleton.mpr rfl)
  · refine ⟨twin.fd, own, ?_, opened twin member, ?_⟩
    · rw [openLogFile, found, if_neg (noMark twin member)]
    · constructor
      · rw [paths_concat, if_pos (List.mem_map.mpr ⟨twin, member, same⟩), done.calls]
      · exact done.results
      · intro other inside
        rcases List.mem_append.mp inside with old | last
        · exact done.given other old
        · obtain rfl := List.mem_singleton.mp last
          have twins := done.given twin member
          rw [same] at twins
          exact twins

/-- What a loop leaves: every entry has a descriptor, entries share one if and only if
they share the path, and each path has been opened once. -/
structure SharedByPath (list list' : List LogEntry) (own : Opens) : Prop where
  paths : list'.map (·.path) = list.map (·.path)
  valid : ∀ log ∈ list', 0 ≤ log.fd
  shared : ∀ a ∈ list', ∀ b ∈ list', a.fd = b.fd ↔ a.path = b.path
  once : ∀ path, (own.map Prod.fst).count path = if path ∈ list.map (·.path) then 1 else 0

/-- The rest of a loop. -/
theorem openList_eq (message : String) {front : Opens}
    (done : Served kernel front.length served own) (fresh : Fresh kernel count)
    (enough : front.length + (paths (served ++ rest)).length ≤ count)
    (unopened : ∀ log ∈ rest, log.fd = -1) :
    ∃ list' own', openList kernel message served rest (front ++ own) = .ok (list', front ++ own') ∧
      list'.map (·.path) = (served ++ rest).map (·.path) ∧
      Served kernel front.length list' own' := by
  induction rest generalizing served own with
  | nil => exact ⟨served, own, rfl, by rw [List.append_nil], done⟩
  | cons log rest ih =>
      have within : front.length + (paths (served ++ [log])).length ≤ count := by
        have fewer := length_paths_le (served ++ [log]) rest
        rw [List.append_assoc, List.singleton_append] at fewer
        exact (Nat.add_le_add_left fewer _).trans enough
      rcases done.step fresh within unopened with ⟨fd, own', one, valid, more⟩
      have notMark : fd ≠ -1 := by
        rintro rfl
        exact absurd valid (by decide)
      have same : (served ++ [{ log with fd := fd }] ++ rest).map LogEntry.path =
          (served ++ log :: rest).map LogEntry.path := by
        simp
      have enough' : front.length +
          (paths (served ++ [{ log with fd := fd }] ++ rest)).length ≤ count := by
        rw [paths, same]
        exact enough
      rcases ih more enough' fun other member => unopened other (List.mem_cons_of_mem _ member) with
        ⟨list', own'', ran, paths', end_⟩
      refine ⟨list', own'', ?_, paths'.trans same, end_⟩
      rw [openList, one]
      simp only [notMark, if_false, ran]

/-- A loop over entries without descriptors. -/
theorem openList_shared (message : String) {list : List LogEntry} (front : Opens)
    (fresh : Fresh kernel count) (enough : front.length + (paths list).length ≤ count)
    (unopened : ∀ log ∈ list, log.fd = -1) :
    ∃ list' own, openList kernel message [] list front = .ok (list', front ++ own) ∧
      own.length = (paths list).length ∧ SharedByPath list list' own := by
  have start : Served kernel front.length [] [] :=
    { calls := rfl
      results := rfl
      given := fun log member => by cases member }
  rcases openList_eq message start fresh enough unopened with
    ⟨list', own, ran, same, done⟩
  rw [List.append_nil] at ran
  have same' : Startup.paths list' = Startup.paths list := by
    rw [Startup.paths, same]
    rfl
  have length : own.length = (Startup.paths list).length := by
    rw [← same', ← done.calls, List.length_map]
  have bound : front.length + own.length ≤ count := by
    rw [length]
    exact enough
  have nodupPaths : (own.map Prod.fst).Nodup := by
    rw [done.calls, ← List.map_id (Startup.paths list')]
    exact Keyed.nodup_keys_firsts id [] _
  have nodupResults : (own.map Prod.snd).Nodup := by
    rw [done.results]
    apply List.Nodup.map_on _ List.nodup_range'
    intro m inside n inside' result
    have hm := Nat.lt_of_lt_of_le (List.mem_range'_1.mp inside).2 bound
    have hn := Nat.lt_of_lt_of_le (List.mem_range'_1.mp inside').2 bound
    rcases Nat.lt_trichotomy m n with less | equal | more
    · exact absurd result (fresh.distinct n hn m less)
    · exact equal
    · exact absurd result.symm (fresh.distinct m hm n more)
  refine ⟨list', own, ran, length, ?_⟩
  constructor
  · exact same
  · exact done.opened fresh bound
  · intro a inA b inB
    have callA := done.given a inA
    have callB := done.given b inB
    constructor
    · intro equal
      have calls := List.inj_on_of_nodup_map nodupResults callA callB equal
      exact congrArg Prod.fst calls
    · intro equal
      have calls := List.inj_on_of_nodup_map nodupPaths callA callB equal
      exact congrArg Prod.snd calls
  · intro path
    rw [List.Nodup.count nodupPaths, done.calls]
    apply if_congr _ rfl rfl
    rw [mem_paths, same]
    rfl

/-- The loops of `openLogFiles`. -/
theorem openLogFiles_shares {accessLog errorLog : List LogEntry}
    (unopened : ∀ log ∈ accessLog ++ errorLog, log.fd = -1)
    (fresh : Fresh kernel ((paths accessLog).length + (paths errorLog).length)) :
    ∃ accessLog' errorLog' accessOpens errorOpens,
      openLogFiles kernel accessLog errorLog =
        .ok (accessLog', errorLog', accessOpens ++ errorOpens) ∧
      SharedByPath accessLog accessLog' accessOpens ∧
      SharedByPath errorLog errorLog' errorOpens := by
  rcases openList_shared "access log not valid\n" [] fresh
      (by simp) fun log member => unopened log (List.mem_append_left _ member) with
    ⟨accessLog', accessOpens, ranAccess, length, access⟩
  rcases openList_shared "error log not valid\n" accessOpens fresh
      (by rw [length]) fun log member => unopened log (List.mem_append_right _ member) with
    ⟨errorLog', errorOpens, ranError, _, error⟩
  refine ⟨accessLog', errorLog', accessOpens, errorOpens, ?_, access, error⟩
  rw [openLogFiles, ranAccess]
  change (do
    let (errorLog, opens) ← openList kernel "error log not valid\n" [] errorLog accessOpens
    .ok (accessLog', errorLog, opens)) = _
  rw [ranError]
  rfl

/-- Two servers that share an access log, with descriptors handed out from 3 on. -/
theorem openLogFiles_shares_twice :
    ∃ accessLog' errorLog' accessOpens errorOpens,
      openLogFiles (fun n => n + 3)
          [{ path := bytes "a", fd := -1 }, { path := bytes "b", fd := -1 },
            { path := bytes "a", fd := -1 }]
          [{ path := bytes "a", fd := -1 }] =
        .ok (accessLog', errorLog', accessOpens ++ errorOpens) ∧
      SharedByPath [{ path := bytes "a", fd := -1 }, { path := bytes "b", fd := -1 },
        { path := bytes "a", fd := -1 }] accessLog' accessOpens ∧
      SharedByPath [{ path := bytes "a", fd := -1 }] errorLog' errorOpens := by
  apply openLogFiles_shares
  · decide
  · constructor
    · intro n _
      exact Int.add_nonneg (Int.natCast_nonneg n) (by decide)
    · intro n _ m less same
      have equal : (m : Int) = n := by omega
      exact Nat.ne_of_lt less (Int.ofNat.inj equal)

end OgWebserver.Startup

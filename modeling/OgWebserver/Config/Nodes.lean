import OgWebserver.Config.Listen
import OgWebserver.Linked.Chain

/-!
# Names, ports and index files as nodes

The three lists of a server block with the pointers that `parseConfig.c` works
on.  `f_server_name`, `f_listen` and `f_indexFile` chain nodes in front of the
default one, `f_server` moves them to the new server, and every node is
accounted for.
-/

namespace OgWebserver.Config.Nodes

open Text Transition Linked

/-- A static pointer and the nodes of its type. -/
structure Held (α : Type) where
  cells : Store α
  head : Option Nat

structure Lists where
  serverNames : Held ServerName
  indexFiles : Held Bytes
  ports : Held Port

/-- The pointers of the server that `f_server` allocates. -/
structure ServerLists where
  serverNames : Option Nat
  indexFiles : Option Nat
  ports : Option Nat

/-- An access through a pointer that leads nowhere is undefined. -/
def access {α : Type} : Option α → Except Halt α
  | none => .error .undefined
  | some a => .ok a

namespace Held

variable {α : Type}

def push (value : α) (h : Held α) : Held α :=
  { cells := (Linked.push value h.head h.cells).1, head := (Linked.push value h.head h.cells).2 }

/-- Is the value among those in front of the default? -/
def dup (test : α → Bool) (h : Held α) : Except Halt Bool :=
  access (scan test h.cells (h.cells.length + 1) h.head)

/-- What `f_server` does with each list: the list, and the pointer of the server. -/
def toServer (h : Held α) : Except Halt (Held α × Option Nat) :=
  (access (handOver h.cells h.head)).map fun (cells, head, given) =>
    ({ cells := cells, head := head }, given)

end Held

/-! ## Functions of the parser -/

def dupName (name : Bytes) (s : Lists) : Except Halt Bool :=
  s.serverNames.dup fun sn => sn.serverName.text == name

def dupPort (portNum : Int32) (s : Lists) : Except Halt Bool :=
  s.ports.dup fun p => p.portNum == portNum

/-- In debug mode the name is printed at the end, freed or not. -/
def fServerName (debug : Bool) (serverName : CString) (type : ServerNameType) (s : Lists) :
    Except Halt Lists := do
  if ← dupName serverName.text s then
    freeString serverName
    if debug then .error .undefined else .ok s
  else
    .ok { s with serverNames := s.serverNames.push { serverName := serverName, type := type } }

def fIndexFile (indexFile : Bytes) (s : Lists) : Lists :=
  { s with indexFiles := s.indexFiles.push indexFile }

/-- The port half of `f_listen`. -/
def listenPort (portNum : Int32) (s : Lists) : Except Halt Lists :=
  if 0 < portNum.toInt then do
    if ← dupPort portNum s then .ok s
    else .ok { s with ports := s.ports.push { portNum := portNum, tls := false } }
  else .ok s

/-- The name half of `f_listen`. -/
def listenName (name : CString) (s : Lists) : Except Halt Lists := do
  if ← dupName name.text s then
    freeString name
    .ok s
  else
    .ok { s with
      serverNames := s.serverNames.push { serverName := name, type := .serverNameExact } }

def fListen (name : Option CString) (portNum : Int32) (s : Lists) : Except Halt Lists := do
  let t ← listenPort portNum s
  match name with
  | none => .ok t
  | some name => listenName name t

/-- The first three lists of `f_server`. -/
def fServer (s : Lists) : Except Halt (Lists × ServerLists) :=
  if s.serverNames.head.isNone then .error (.exit "No server name\n")
  else do
    let (serverNames, givenNames) ← s.serverNames.toServer
    let (indexFiles, givenFiles) ← s.indexFiles.toServer
    let (ports, givenPorts) ← s.ports.toServer
    .ok
      ({ serverNames := serverNames, indexFiles := indexFiles, ports := ports },
        { serverNames := givenNames, indexFiles := givenFiles, ports := givenPorts })

/-- Calls that the directives make. -/
inductive Call
  | serverName (serverName : CString) (type : ServerNameType)
  | listen (name : Option CString) (portNum : Int32)
  | indexFile (indexFile : Bytes)

def perform (debug : Bool) (s : Lists) : Call → Except Halt Lists
  | .serverName serverName type => fServerName debug serverName type s
  | .listen name portNum => fListen name portNum s
  | .indexFile indexFile => .ok (fIndexFile indexFile s)

/-! ## What the block mentions -/

/-- The name a call mentions, as it would be listed. -/
def Call.name? : Call → Option ServerName
  | .serverName name type => some { serverName := name, type := type }
  | .listen name _ => name.map fun name => { serverName := name, type := .serverNameExact }
  | .indexFile _ => none

/-- The positive port number of a call. -/
def Call.port? : Call → Option Int32
  | .listen _ portNum => if 0 < portNum.toInt then some portNum else none
  | _ => none

def Call.file? : Call → Option Bytes
  | .indexFile file => some file
  | _ => none

/-- The names of a block, each as it was first mentioned. -/
def namesOf (calls : List Call) : List ServerName :=
  Keyed.firsts (·.serverName.text) [] (calls.filterMap Call.name?)

/-- Its ports. -/
def portsOf (calls : List Call) : List Port :=
  (Keyed.firsts id [] (calls.filterMap Call.port?)).map fun n => { portNum := n, tls := false }

/-- Its index files. -/
def filesOf (calls : List Call) : List Bytes :=
  calls.filterMap Call.file?

/-- May the name be freed when it has been mentioned before?  A literal may not, and
`f_server_name` prints the name after it in debug mode. -/
def Call.mayRepeat (debug : Bool) : Call → Bool
  | .serverName name _ => name.heap && !debug
  | .listen (some name) _ => name.heap
  | _ => true

/-- The name of the call has been mentioned. -/
def Call.Repeats (before : List Call) (call : Call) : Prop :=
  ∃ sn ∈ call.name?, sn.serverName.text ∈ (namesOf before).map (·.serverName.text)

/-- Every call that repeats a name may do so. -/
def MayRepeat (debug : Bool) (calls : List Call) : Prop :=
  ∀ before call after, calls = before ++ call :: after →
    call.Repeats before → call.mayRepeat debug = true

/-! ## A list through a block -/

section

variable {α : Type} {start now : Held α} {dflt : α} {values : List α}

/-- The list consists of its default node. -/
def Held.Alone (h : Held α) (dflt : α) : Prop :=
  ∃ a, h.head = some a ∧ h.cells[a]? = some { value := dflt, next := none }

/-- The values have been chained in front of the default node. -/
def Held.Grown (start now : Held α) (dflt : α) (values : List α) : Prop :=
  ∃ a, start.head = some a ∧ start.cells[a]? = some { value := dflt, next := none } ∧
    Stacked start.cells (a, dflt) values now.cells now.head

/-- The values, or a copy of the default for want of them, have been given to the server,
and the list consists of its default node, the same as at the start. -/
structure Held.Handed (start now : Held α) (dflt : α) (values : List α) (given : Option Nat) :
    Prop where
  given : Given start.cells (if values.isEmpty then [dflt] else values) now.cells given
  head : now.head = start.head
  alone : now.Alone dflt

theorem Held.Alone.grown (alone : start.Alone dflt) : start.Grown start dflt [] := by
  rcases alone with ⟨a, head, here⟩
  refine ⟨a, head, here, ?_⟩
  rw [head]
  exact stacked_nil here

theorem Held.Grown.push (grown : start.Grown now dflt values) (value : α) :
    start.Grown (now.push value) dflt (values ++ [value]) := by
  rcases grown with ⟨a, head, here, stacked⟩
  exact ⟨a, head, here, stacked.push value⟩

theorem Held.Grown.dup (grown : start.Grown now dflt values) (test : α → Bool) :
    now.dup test = .ok (values.any test) := by
  rcases grown with ⟨_, _, _, stacked⟩
  rw [Held.dup, stacked.scan]
  rfl

theorem Held.Grown.isSome (grown : start.Grown now dflt values) : now.head.isNone = false := by
  rcases grown with ⟨_, _, _, stacked⟩
  exact stacked.chain.isSome_of_concat

theorem Held.Grown.toServer (grown : start.Grown now dflt values) :
    ∃ after given, now.toServer = .ok (after, given) ∧ start.Handed after dflt values given := by
  rcases grown with ⟨a, head, here, stacked⟩
  rcases stacked.handOver here with ⟨cells, given, ran, is⟩
  refine ⟨{ cells := cells, head := some a }, given, ?_, ?_⟩
  · rw [Held.toServer, ran]
    rfl
  · constructor
    · exact is
    · exact head.symm
    · refine ⟨a, rfl, ?_⟩
      rcases is.kept with ⟨more, rfl⟩
      exact (List.getElem?_append_left (List.getElem?_eq_some_iff.mp here).1).trans here

end

/-! ## A block -/

/-- The defaults of the three lists. -/
structure Defaults where
  serverName : ServerName
  indexFile : Bytes
  port : Port

/-- Each list consists of its default. -/
structure AtDefaults (d : Defaults) (s : Lists) : Prop where
  serverNames : s.serverNames.Alone d.serverName
  indexFiles : s.indexFiles.Alone d.indexFile
  ports : s.ports.Alone d.port

/-- The lists behind some calls. -/
structure Built (d : Defaults) (calls : List Call) (s t : Lists) : Prop where
  serverNames : s.serverNames.Grown t.serverNames d.serverName (namesOf calls)
  indexFiles : s.indexFiles.Grown t.indexFiles d.indexFile (filesOf calls)
  ports : s.ports.Grown t.ports d.port (portsOf calls)

/-- The lists behind `f_server`, and what the server has got. -/
structure Delivered (d : Defaults) (calls : List Call) (s t : Lists) (server : ServerLists) :
    Prop where
  serverNames :
    s.serverNames.Handed t.serverNames d.serverName (namesOf calls) server.serverNames
  indexFiles :
    s.indexFiles.Handed t.indexFiles d.indexFile (filesOf calls) server.indexFiles
  ports : s.ports.Handed t.ports d.port (portsOf calls) server.ports

variable {d : Defaults} {calls : List Call} {call : Call} {s t u : Lists} {debug : Bool}
variable {server : ServerLists}

theorem AtDefaults.built (start : AtDefaults d s) : Built d [] s s where
  serverNames := start.serverNames.grown
  indexFiles := start.indexFiles.grown
  ports := start.ports.grown

theorem namesOf_of_none (none_ : call.name? = none) :
    namesOf (calls ++ [call]) = namesOf calls := by
  rw [namesOf, List.filterMap_append, List.filterMap_cons_none none_, List.filterMap_nil,
    List.append_nil, namesOf]

theorem namesOf_of_some {sn : ServerName} (is : call.name? = some sn) :
    namesOf (calls ++ [call]) =
      if (namesOf calls).any fun old => old.serverName.text == sn.serverName.text then namesOf calls
      else namesOf calls ++ [sn] := by
  rw [namesOf, List.filterMap_append, List.filterMap_cons_some is, List.filterMap_nil,
    Keyed.firsts_concat_kept, ← namesOf]
  simp only [List.any_eq_true, beq_iff_eq]

theorem portsOf_of_none (none_ : call.port? = none) :
    portsOf (calls ++ [call]) = portsOf calls := by
  rw [portsOf, List.filterMap_append, List.filterMap_cons_none none_, List.filterMap_nil,
    List.append_nil, portsOf]

theorem portsOf_of_some {n : Int32} (is : call.port? = some n) :
    portsOf (calls ++ [call]) =
      if (portsOf calls).any fun old => old.portNum == n then portsOf calls
      else portsOf calls ++ [{ portNum := n, tls := false }] := by
  rw [portsOf, List.filterMap_append, List.filterMap_cons_some is, List.filterMap_nil,
    Keyed.firsts_concat_kept, apply_ite (List.map _), List.map_append, ← portsOf]
  simp only [portsOf, List.any_eq_true, beq_iff_eq, List.mem_map, exists_exists_and_eq_and, id]
  rfl

theorem filesOf_of_none (none_ : call.file? = none) :
    filesOf (calls ++ [call]) = filesOf calls := by
  rw [filesOf, List.filterMap_append, List.filterMap_cons_none none_, List.filterMap_nil,
    List.append_nil, filesOf]

/-- `f_server_name` on lists that hold the given names. -/
theorem fServerName_eq {listed : List ServerName} {dflt : ServerName} {start : Held ServerName}
    (grown : start.Grown t.serverNames dflt listed) (name : CString) (type : ServerNameType) :
    fServerName debug name type t =
      if listed.any fun old => old.serverName.text == name.text then
        if name.heap && !debug then .ok t else .error .undefined
      else
        .ok { t with
          serverNames := t.serverNames.push { serverName := name, type := type } } := by
  rw [fServerName, dupName, grown.dup]
  cases known : listed.any fun old => old.serverName.text == name.text with
  | false => rfl
  | true =>
      rcases name with ⟨text, heap⟩
      cases heap <;> cases debug <;> rfl

/-- The port half of `f_listen` on lists that hold the given ports. -/
theorem listenPort_eq {listed : List Port} {dflt : Port} {start : Held Port}
    (grown : start.Grown t.ports dflt listed) (portNum : Int32) :
    listenPort portNum t =
      if 0 < portNum.toInt ∧ !(listed.any fun old => old.portNum == portNum) then
        .ok { t with ports := t.ports.push { portNum := portNum, tls := false } }
      else .ok t := by
  rw [listenPort, dupPort, grown.dup]
  by_cases plus : 0 < portNum.toInt
  · rw [if_pos plus]
    cases known : listed.any fun old => old.portNum == portNum with
    | false =>
        rw [if_pos ⟨plus, rfl⟩]
        rfl
    | true =>
        rw [if_neg (by simp)]
        rfl
  · rw [if_neg plus, if_neg fun both => plus both.1]

/-- The port half of a call. -/
theorem Built.port (built : Built d calls s t) (name : Option CString) (portNum : Int32) :
    ∃ h, listenPort portNum t = .ok { t with ports := h } ∧
      s.ports.Grown h d.port (portsOf (calls ++ [.listen name portNum])) := by
  rw [listenPort_eq built.ports]
  by_cases plus : 0 < portNum.toInt
  · have is : (Call.listen name portNum).port? = some portNum := if_pos plus
    rw [portsOf_of_some is]
    by_cases known : (portsOf calls).any fun old => old.portNum == portNum
    · rw [if_neg (by simp [known]), if_pos known]
      exact ⟨t.ports, rfl, built.ports⟩
    · rw [if_pos (by simp [plus, known]), if_neg known]
      exact ⟨_, rfl, built.ports.push _⟩
  · have none_ : (Call.listen name portNum).port? = none := if_neg plus
    rw [portsOf_of_none none_, if_neg fun both => plus both.1]
    exact ⟨t.ports, rfl, built.ports⟩

theorem perform_listen_none {portNum : Int32} (port : listenPort portNum t = .ok u) :
    perform debug t (.listen none portNum) = .ok u := by
  rw [perform, fListen, port]
  rfl

/-- The name half of `f_listen` is `f_server_name` without the message. -/
theorem perform_listen_some {portNum : Int32} (port : listenPort portNum t = .ok u)
    (name : CString) :
    perform debug t (.listen (some name) portNum) =
      fServerName false name .serverNameExact u := by
  rw [perform, fListen, port]
  rfl

theorem repeats_iff {sn : ServerName} (is : call.name? = some sn) :
    call.Repeats calls ↔
      (namesOf calls).any (fun old => old.serverName.text == sn.serverName.text) = true := by
  simp [Call.Repeats, is]

/-- The name half of a call returns unless it repeats a name that it may not repeat. -/
theorem fServerName_returns_iff (call : Call) {start : Held ServerName} {dflt : ServerName}
    {name : CString} {type : ServerNameType}
    (grown : start.Grown t.serverNames dflt (namesOf calls))
    (is : call.name? = some { serverName := name, type := type }) :
    (∃ u, fServerName debug name type t = .ok u) ↔
      (call.Repeats calls → (name.heap && !debug) = true) := by
  rw [repeats_iff is, fServerName_eq grown]
  by_cases known : (namesOf calls).any fun old => old.serverName.text == name.text
  · rw [if_pos known]
    by_cases free : (name.heap && !debug) = true
    · rw [if_pos free]
      exact iff_of_true ⟨t, rfl⟩ fun _ => free
    · rw [if_neg free]
      apply iff_of_false
      · rintro ⟨u, ran⟩
        cases ran
      · exact fun may => free (may known)
  · rw [if_neg known]
    exact iff_of_true ⟨_, rfl⟩ fun other => absurd other known

theorem grown_of_fServerName (call : Call) {start : Held ServerName} {dflt : ServerName}
    {name : CString} {type : ServerNameType}
    (grown : start.Grown t.serverNames dflt (namesOf calls))
    (is : call.name? = some { serverName := name, type := type })
    (ran : fServerName debug name type t = .ok u) :
    u.indexFiles = t.indexFiles ∧ u.ports = t.ports ∧
      start.Grown u.serverNames dflt (namesOf (calls ++ [call])) := by
  rw [fServerName_eq grown] at ran
  rw [namesOf_of_some is]
  by_cases known : (namesOf calls).any fun old => old.serverName.text == name.text
  · rw [if_pos known] at ran
    split at ran
    · obtain rfl := Except.ok.inj ran
      rw [if_pos known]
      exact ⟨rfl, rfl, grown⟩
    · cases ran
  · rw [if_neg known] at ran
    obtain rfl := Except.ok.inj ran
    rw [if_neg known]
    exact ⟨rfl, rfl, grown.push _⟩

/-- A call behind others returns unless it repeats a name that it may not repeat. -/
theorem Built.returns_iff (built : Built d calls s t) (call : Call) :
    (∃ u, perform debug t call = .ok u) ↔
      (call.Repeats calls → call.mayRepeat debug = true) := by
  cases call with
  | serverName name type =>
      exact fServerName_returns_iff (.serverName name type) built.serverNames rfl
  | indexFile file =>
      apply iff_of_true ⟨_, rfl⟩
      exact fun _ => rfl
  | listen name portNum =>
      rcases built.port name portNum with ⟨h, port, _⟩
      cases name with
      | none => exact iff_of_true ⟨_, perform_listen_none port⟩ fun _ => rfl
      | some name =>
          have grown : s.serverNames.Grown ({ t with ports := h } : Lists).serverNames
              d.serverName (namesOf calls) := built.serverNames
          rw [perform_listen_some port,
            fServerName_returns_iff (.listen (some name) portNum) grown rfl]
          simp [Call.mayRepeat]

/-- What it does to the lists. -/
theorem Built.perform (built : Built d calls s t) (ran : Nodes.perform debug t call = .ok u) :
    Built d (calls ++ [call]) s u := by
  cases call with
  | serverName name type =>
      rcases grown_of_fServerName (.serverName name type) built.serverNames rfl ran with
        ⟨files, ports, names⟩
      constructor
      · exact names
      · rw [files, filesOf_of_none rfl]
        exact built.indexFiles
      · rw [ports, portsOf_of_none rfl]
        exact built.ports
  | indexFile file =>
      obtain rfl := Except.ok.inj ran
      constructor
      · rw [namesOf_of_none rfl]
        exact built.serverNames
      · rw [filesOf, List.filterMap_append]
        exact built.indexFiles.push file
      · rw [portsOf_of_none rfl]
        exact built.ports
  | listen name portNum =>
      rcases built.port name portNum with ⟨h, port, grown⟩
      cases name with
      | none =>
          rw [perform_listen_none port] at ran
          obtain rfl := Except.ok.inj ran
          constructor
          · rw [namesOf_of_none rfl]
            exact built.serverNames
          · rw [filesOf_of_none rfl]
            exact built.indexFiles
          · exact grown
      | some name =>
          rw [perform_listen_some port] at ran
          have named : s.serverNames.Grown ({ t with ports := h } : Lists).serverNames
              d.serverName (namesOf calls) := built.serverNames
          rcases grown_of_fServerName (.listen (some name) portNum) named rfl ran with
            ⟨files, ports, names⟩
          constructor
          · exact names
          · rw [files, filesOf_of_none rfl]
            exact built.indexFiles
          · rw [ports]
            exact grown

theorem mayRepeat_concat :
    MayRepeat debug (calls ++ [call]) ↔
      MayRepeat debug calls ∧ (call.Repeats calls → call.mayRepeat debug = true) :=
  Keyed.forall_split_concat

theorem built_of_run (start : AtDefaults d s) (ran : run (perform debug) s calls = .ok t) :
    Built d calls s t := by
  induction calls using List.reverseRecOn generalizing t with
  | nil =>
      obtain rfl := Except.ok.inj ran
      exact start.built
  | append_singleton calls call ih =>
      rcases run_append_eq_ok_iff.mp ran with ⟨m, front, last⟩
      exact (ih front).perform (run_singleton_eq_ok_iff.mp last)

/-- A block's calls return unless one repeats a name that it may not repeat. -/
theorem run_returns_iff (start : AtDefaults d s) (calls : List Call) :
    (∃ t, run (perform debug) s calls = .ok t) ↔ MayRepeat debug calls := by
  induction calls using List.reverseRecOn with
  | nil =>
      apply iff_of_true ⟨s, rfl⟩
      intro before call after split
      simp at split
  | append_singleton calls call ih =>
      rw [mayRepeat_concat, ← ih]
      constructor
      · rintro ⟨t, ran⟩
        rcases run_append_eq_ok_iff.mp ran with ⟨m, front, last⟩
        refine ⟨⟨m, front⟩, ?_⟩
        apply ((built_of_run start front).returns_iff call).mp
        exact ⟨t, run_singleton_eq_ok_iff.mp last⟩
      · rintro ⟨⟨m, front⟩, may⟩
        rcases ((built_of_run start front).returns_iff call).mpr may with ⟨t, last⟩
        exact ⟨t, run_append_eq_ok_iff.mpr ⟨m, front, run_singleton_eq_ok_iff.mpr last⟩⟩

/-- Closing the block never fails. -/
theorem Built.fServer (built : Built d calls s t) :
    ∃ u server, fServer t = .ok (u, server) ∧ Delivered d calls s u server := by
  rcases built.serverNames.toServer with ⟨names, givenNames, ranNames, handedNames⟩
  rcases built.indexFiles.toServer with ⟨files, givenFiles, ranFiles, handedFiles⟩
  rcases built.ports.toServer with ⟨ports, givenPorts, ranPorts, handedPorts⟩
  refine ⟨{ serverNames := names, indexFiles := files, ports := ports },
    { serverNames := givenNames, indexFiles := givenFiles, ports := givenPorts }, ?_,
    { serverNames := handedNames, indexFiles := handedFiles, ports := handedPorts }⟩
  rw [Nodes.fServer, built.serverNames.isSome, ranNames, ranFiles, ranPorts]
  rfl

/-- A block: its calls and its end. -/
def block (debug : Bool) (calls : List Call) (s : Lists) : Except Halt (Lists × ServerLists) := do
  fServer (← run (perform debug) s calls)

/-! ## The parser's view -/

/-- The parser action that stands for a call. -/
def Call.action : Call → Action
  | .serverName name type => .serverName name type
  | .listen name portNum => .listen name portNum
  | .indexFile file => .indexFile file

/-- The lists of the parser's state behind some calls. -/
structure Pends (d : Defaults) (calls : List Call) (c : Settings) : Prop where
  serverNames : c.serverNames = { items := (namesOf calls).reverse, dflt := d.serverName }
  indexFiles : c.indexFiles = { items := (filesOf calls).reverse, dflt := d.indexFile }
  ports : c.ports = { items := (portsOf calls).reverse, dflt := d.port }

theorem addName_reverse {name : CString} {type : ServerNameType}
    (is : call.name? = some { serverName := name, type := type }) (dflt : ServerName) :
    addName name type { items := (namesOf calls).reverse, dflt := dflt } =
      { items := (namesOf (calls ++ [call])).reverse, dflt := dflt } := by
  rw [namesOf_of_some is, addName]
  simp only [List.any_reverse]
  split
  · rfl
  · rw [List.reverse_append]
    rfl

theorem addPort_reverse (name : Option CString) (n : Int32) (dflt : Port) :
    addPort n { items := (portsOf calls).reverse, dflt := dflt } =
      { items := (portsOf (calls ++ [.listen name n])).reverse, dflt := dflt } := by
  rw [addPort]
  simp only [List.any_reverse]
  by_cases plus : 0 < n.toInt
  · have is : (Call.listen name n).port? = some n := if_pos plus
    rw [portsOf_of_some is]
    by_cases known : (portsOf calls).any fun old => old.portNum == n
    · rw [if_pos known, if_neg (by simp [known])]
    · rw [if_neg known, if_pos (by simp [plus, known]), List.reverse_append]
      rfl
  · have none_ : (Call.listen name n).port? = none := if_neg plus
    rw [portsOf_of_none none_, if_neg (by simp [plus])]

theorem Pends.after {c : Settings} (pends : Pends d calls c) (call : Call) :
    Pends d (calls ++ [call]) (c.after call.action) := by
  rcases pends with ⟨names, files, ports⟩
  cases call with
  | serverName name type =>
      constructor
      · exact (congrArg (addName name type) names).trans (addName_reverse rfl _)
      · rw [filesOf_of_none rfl]
        exact files
      · rw [portsOf_of_none rfl]
        exact ports
  | indexFile file =>
      constructor
      · rw [namesOf_of_none rfl]
        exact names
      · rw [filesOf, List.filterMap_append, List.reverse_append]
        exact congrArg (Pending.push file) files
      · rw [portsOf_of_none rfl]
        exact ports
  | listen name n =>
      have listed := (congrArg (addPort n) ports).trans (addPort_reverse name n _)
      cases name with
      | none =>
          constructor
          · rw [namesOf_of_none rfl]
            exact names
          · rw [filesOf_of_none rfl]
            exact files
          · exact listed
      | some name =>
          constructor
          · exact (congrArg (addName name .serverNameExact) names).trans (addName_reverse rfl _)
          · rw [filesOf_of_none rfl]
            exact files
          · exact listed

theorem Pends.of_run {gethostbyname : Resolver} {p q : ParseState} (pends : Pends d [] p.settings)
    (ran : run (Config.perform gethostbyname) p (calls.map Call.action) = .ok q) :
    Pends d calls q.settings := by
  rw [settings_of_run ran]
  clear ran
  induction calls using List.reverseRecOn with
  | nil => exact pends
  | append_singleton calls call ih =>
      rw [List.map_append, Settings.afterAll_append]
      exact ih.after call

theorem Call.lists (call : Call) : call.action.lists = true := by
  cases call <;> rfl

theorem Call.name?_action (call : Call) :
    call.action.name? = call.name?.map (·.serverName) := by
  cases call with
  | serverName | indexFile => rfl
  | listen name => cases name <;> rfl

theorem Call.heap_of_mayRepeat {sn : ServerName} (is : call.name? = some sn)
    (may : call.mayRepeat debug = true) : sn.serverName.heap = true := by
  cases call with
  | serverName name type =>
      obtain rfl := Option.some.inj is
      exact (Bool.and_eq_true_iff.mp may).1
  | indexFile => cases is
  | listen name =>
      cases name with
      | none => cases is
      | some name =>
          obtain rfl := Option.some.inj is
          exact may

/-- Calls that may repeat their names free no literal. -/
theorem MayRepeat.freesTokens (may : MayRepeat debug calls) :
    FreesTokens [] ((calls.map Call.action).filterMap Action.name?) := by
  induction calls using List.reverseRecOn with
  | nil => exact freesTokens_nil []
  | append_singleton calls call ih =>
      rcases mayRepeat_concat.mp may with ⟨earlier, last⟩
      rw [List.map_append, List.filterMap_append, List.map_singleton]
      cases is : call.name? with
      | none =>
          have none_ : call.action.name? = none := by
            rw [call.name?_action, is]
            rfl
          rw [List.filterMap_cons_none none_, List.filterMap_nil, List.append_nil]
          exact ih earlier
      | some sn =>
          have some_ : call.action.name? = some sn.serverName := by
            rw [call.name?_action, is]
            rfl
          rw [List.filterMap_cons_some some_, List.filterMap_nil]
          apply Keyed.forall_split_concat.mpr ⟨ih earlier, _⟩
          intro known
          apply Call.heap_of_mayRepeat is
          apply last
          refine ⟨sn, is, ?_⟩
          rw [namesOf, Keyed.mem_keys_firsts_iff]
          constructor
          · exact List.not_mem_nil
          · simpa [Call.name?_action, List.filterMap_map, Function.comp_def, List.map_filterMap]
              using known

/-- The server that the parser's model builds has the lists that the nodes hold. -/
theorem Pends.serverOf {q : ParseState} (pends : Pends d calls q.settings)
    (delivered : Delivered d calls s t server) :
    (∃ nodes, Chain t.serverNames.cells server.serverNames nodes ∧
        nodes.map Prod.snd = (Config.serverOf q).serverNames) ∧
      (∃ nodes, Chain t.indexFiles.cells server.indexFiles nodes ∧
        nodes.map Prod.snd = (Config.serverOf q).indexFiles) ∧
      ∃ nodes, Chain t.ports.cells server.ports nodes ∧
        nodes.map Prod.snd = (Config.serverOf q).ports := by
  have inOrder : ∀ {α : Type} (values : List α) (dflt : α),
      (if values.isEmpty then [dflt] else values) =
        ({ items := values.reverse, dflt := dflt } : Pending α).inOrder := by
    intro α values dflt
    simp [Pending.inOrder]
  have names : (Config.serverOf q).serverNames = q.settings.serverNames.inOrder := rfl
  have files : (Config.serverOf q).indexFiles = q.settings.indexFiles.inOrder := rfl
  have ports : (Config.serverOf q).ports = q.settings.ports.inOrder := rfl
  rw [names, files, ports, pends.serverNames, pends.indexFiles, pends.ports]
  refine ⟨⟨_, delivered.serverNames.given.chain, ?_⟩, ⟨_, delivered.indexFiles.given.chain, ?_⟩,
    _, delivered.ports.given.chain, ?_⟩
  · rw [map_snd_numbered, inOrder]
  · rw [map_snd_numbered, inOrder]
  · rw [map_snd_numbered, inOrder]

/-- A block that comes to its end on nodes does so in the parser's model, with the same
lists for the server. -/
theorem block_refines {gethostbyname : Resolver} {p : ParseState} (start : AtDefaults d s)
    (pends : Pends d [] p.settings) (ran : block debug calls s = .ok (t, server)) :
    ∃ q, run (Config.perform gethostbyname) p (calls.map Call.action) = .ok q ∧
      (∃ nodes, Chain t.serverNames.cells server.serverNames nodes ∧
        nodes.map Prod.snd = (Config.serverOf q).serverNames) ∧
      (∃ nodes, Chain t.indexFiles.cells server.indexFiles nodes ∧
        nodes.map Prod.snd = (Config.serverOf q).indexFiles) ∧
      ∃ nodes, Chain t.ports.cells server.ports nodes ∧
        nodes.map Prod.snd = (Config.serverOf q).ports := by
  rcases bind_eq_ok_iff.mp ran with ⟨m, inner, closed⟩
  rcases (built_of_run start inner).fServer with ⟨t', server', closed', delivered⟩
  obtain ⟨rfl, rfl⟩ := Prod.mk.inj (Except.ok.inj (closed.symm.trans closed'))
  have noNames : p.names = [] := by
    have items : p.serverNames.items = [] := congrArg Pending.items pends.serverNames
    rw [ParseState.names, items]
    rfl
  have lists : ∀ a ∈ calls.map Call.action, a.lists = true := by
    intro a member
    rcases List.mem_map.mp member with ⟨call, _, rfl⟩
    exact call.lists
  have frees := ((run_returns_iff start calls).mp ⟨m, inner⟩).freesTokens
  rw [← noNames, ← @run_lists_iff gethostbyname p _ lists] at frees
  rcases frees with ⟨q, parsed⟩
  exact ⟨q, parsed, (pends.of_run parsed).serverOf delivered⟩

/-- The lists are delivered if and only if no call repeats a name that it may not repeat. -/
theorem block_delivers_iff (start : AtDefaults d s) (calls : List Call) :
    (∃ t server, block debug calls s = .ok (t, server) ∧ Delivered d calls s t server) ↔
      MayRepeat debug calls := by
  rw [← run_returns_iff start calls]
  constructor
  · rintro ⟨t, server, ran, _⟩
    rcases bind_eq_ok_iff.mp ran with ⟨m, inner, _⟩
    exact ⟨m, inner⟩
  · rintro ⟨m, inner⟩
    rcases (built_of_run start inner).fServer with ⟨t, server, ran, delivered⟩
    exact ⟨t, server, bind_eq_ok_iff.mpr ⟨m, inner, ran⟩, delivered⟩

/-- The defaults that `parseConfig` sets up. -/
def initialDefaults : Defaults :=
  { serverName := defaultServerName, indexFile := defaultIndexFile, port := defaultPort }

/-- The lists it sets up, one node each. -/
def initialLists : Lists :=
  { serverNames := { cells := [{ value := defaultServerName, next := none }], head := some 0 }
    indexFiles := { cells := [{ value := defaultIndexFile, next := none }], head := some 0 }
    ports := { cells := [{ value := defaultPort, next := none }], head := some 0 } }

theorem atDefaults_initial : AtDefaults initialDefaults initialLists where
  serverNames := ⟨0, rfl, rfl⟩
  indexFiles := ⟨0, rfl, rfl⟩
  ports := ⟨0, rfl, rfl⟩

/-- `server_name a a; listen 80; index i;` -/
theorem block_delivers_iff_twice :
    ∃ t server, block false [.serverName (.token [97]) .serverNameExact,
        .serverName (.token [97]) .serverNameExact, .listen none 80, .indexFile [105]]
          initialLists = .ok (t, server) ∧
      Delivered initialDefaults [.serverName (.token [97]) .serverNameExact,
        .serverName (.token [97]) .serverNameExact, .listen none 80, .indexFile [105]]
          initialLists t server := by
  apply (block_delivers_iff atDefaults_initial _).mpr
  intro before call after split _
  have member : call ∈ before ++ call :: after := by simp
  rw [← split] at member
  simp only [List.mem_cons, List.not_mem_nil, or_false] at member
  rcases member with rfl | rfl | rfl | rfl <;> rfl

/-- `listen *:80; listen *:443;` frees the string literal of the second asterisk. -/
theorem block_frees_literal :
    block false [.listen (some (.literal "*")) 80, .listen (some (.literal "*")) 443]
        initialLists = .error .undefined ∧
      ¬ ∃ t server, block false
          [.listen (some (.literal "*")) 80, .listen (some (.literal "*")) 443] initialLists =
            .ok (t, server) ∧
        Delivered initialDefaults
          [.listen (some (.literal "*")) 80, .listen (some (.literal "*")) 443]
            initialLists t server := by
  have undefined : block false
      [.listen (some (.literal "*")) 80, .listen (some (.literal "*")) 443] initialLists =
        .error .undefined := rfl
  constructor
  · exact undefined
  · rintro ⟨t, server, ran, _⟩
    rw [undefined] at ran
    cases ran

/-- In debug mode, `server_name a a;` prints a name that has been freed. -/
example :
    block true [.serverName (.token [97]) .serverNameExact,
      .serverName (.token [97]) .serverNameExact] initialLists = .error .undefined :=
  rfl

end OgWebserver.Config.Nodes

import OgWebserver.Request.Dispatch
import OgWebserver.Transition.Threads
import Mathlib.Data.List.Nodup
import Mathlib.Logic.Function.Basic

/-!
# Directory listings

`showDirectoryListing` collects the fragments of its page in a global list: it adds them
one by one, runs through the list for the length of the page, and takes the fragments from
the list as it sends them.  Here each access to the list is a step of its own.
-/

namespace OgWebserver.Request

open Text Config Transition

/-- What a client gets. -/
inductive Reply
  /-- `sendErrorResponse`. -/
  | error (code : Nat) (msg : Bytes)
  /-- `serveFile`: the header, and the content of the file if it is sent. -/
  | file (mimeType : Bytes) (size : Nat) (content : Option Bytes)
  | listingHeader (contentLength : Nat)
  | listingFragment (fragment : Bytes)
  | listingFooter
  /-- What an upstream has answered. -/
  | relayed (sent : Bytes)
  deriving DecidableEq

namespace Listing

/-- A `_fragment`; what is not set yet is not initialised. -/
structure Node where
  next : Option Nat
  len : Option Nat
  fragment : Option Bytes

/-- The global list, by the address of its first node, and the memory of the nodes. -/
structure Fragments where
  fragments : Option Nat
  heap : Nat → Option Node
  /-- The addresses from here on have not been given out. -/
  allocated : Nat

/-- No fragments. -/
def Fragments.empty : Fragments :=
  { fragments := none, heap := fun _ => none, allocated := 0 }

def Fragments.node (s : Fragments) (p : Nat) : Except Fault Node :=
  match s.heap p with
  | some node => .ok node
  | none => .error .deadObject

def Fragments.write (s : Fragments) (p : Nat) (node : Option Node) : Fragments :=
  { s with heap := Function.update s.heap p node }

def header : Bytes :=
  bytes "<html><head><title>Directory Listing</title>" ++
    bytes "<style type=\"text/css\">body \x7bfont-family: system-ui;\x7d" ++
    bytes ".sz \x7bfont-size: 10px;\x7d</style></head>" ++
    bytes "<body><h1>Directory Listing</h1><ul>"

def footer : Bytes :=
  bytes "</ul></body></html>"

/-- Where `showDirectoryListing` is, behind `readdir`. -/
inductive Pc
  /-- `if (fragments == NULL)` in `addFragment`, or the first look at the list when all
  fragments have been added. -/
  | add (todo : List Bytes)
  /-- `fragments = f`. -/
  | linkHead (f : Nat) (text : Bytes) (todo : List Bytes)
  /-- `list = fragments`. -/
  | walkStart (f : Nat) (text : Bytes) (todo : List Bytes)
  /-- `prev = list; list = list->next`. -/
  | walk (list f : Nat) (text : Bytes) (todo : List Bytes)
  /-- `prev->next = f`. -/
  | linkTail (prev f : Nat) (text : Bytes) (todo : List Bytes)
  /-- `f->len`, and then `f->fragment`. -/
  | setLen (f : Nat) (text : Bytes) (todo : List Bytes)
  | setFragment (f : Nat) (text : Bytes) (todo : List Bytes)
  /-- `contentLength += f->len`. -/
  | measure (f total : Nat)
  /-- `f = f->next`. -/
  | measureNext (f total : Nat)
  /-- `while (fragments != NULL)`. -/
  | send
  /-- `f = fragments`. -/
  | take
  /-- `fragments = f->next`: the read, and then the write. -/
  | next (f : Nat)
  | unlink (f : Nat) (next : Option Nat)
  /-- `sendData` and `free`. -/
  | release (f : Nat)
  | done

/-- The length of the page with fragments of this length. -/
def contentLength (total : Nat) : Nat :=
  header.length + footer.length + total

/-- A step, with at most one access to the list. -/
def step : Pc → Fragments → Except Fault (Pc × Fragments × List Reply)
  | .add (text :: todo), s =>
      let f := s.allocated
      let s := { s.write f (some ⟨none, none, none⟩) with allocated := f + 1 }
      match s.fragments with
      | none => .ok (.linkHead f text todo, s, [])
      | some _ => .ok (.walkStart f text todo, s, [])
  | .add [], s =>
      match s.fragments with
      | none => .ok (.send, s, [.listingHeader (contentLength 0)])
      | some f => .ok (.measure f 0, s, [])
  | .linkHead f text todo, s => .ok (.setLen f text todo, { s with fragments := some f }, [])
  | .walkStart f text todo, s =>
      match s.fragments with
      -- `prev` is not initialised
      | none => .error .outOfBounds
      | some list => .ok (.walk list f text todo, s, [])
  | .walk list f text todo, s => do
      let node ← s.node list
      match node.next with
      | none => .ok (.linkTail list f text todo, s, [])
      | some list => .ok (.walk list f text todo, s, [])
  | .linkTail prev f text todo, s => do
      let node ← s.node prev
      .ok (.setLen f text todo, s.write prev (some { node with next := some f }), [])
  | .setLen f text todo, s => do
      let node ← s.node f
      .ok (.setFragment f text todo, s.write f (some { node with len := some text.length }), [])
  | .setFragment f text todo, s => do
      let node ← s.node f
      .ok (.add todo, s.write f (some { node with fragment := some text }), [])
  | .measure f total, s => do
      let node ← s.node f
      match node.len with
      | none => .error .outOfBounds
      | some len => .ok (.measureNext f (total + len), s, [])
  | .measureNext f total, s => do
      let node ← s.node f
      match node.next with
      | none => .ok (.send, s, [.listingHeader (contentLength total)])
      | some f => .ok (.measure f total, s, [])
  | .send, s =>
      match s.fragments with
      | none => .ok (.done, s, [.listingFooter])
      | some _ => .ok (.take, s, [])
  | .take, s =>
      match s.fragments with
      | none => .error .nullPointer
      | some f => .ok (.next f, s, [])
  | .next f, s => do
      let node ← s.node f
      .ok (.unlink f node.next, s, [])
  | .unlink f next, s => .ok (.release f, { s with fragments := next }, [])
  | .release f, s => do
      let node ← s.node f
      match node.fragment, node.len with
      | some text, some len => .ok (.send, s.write f none, [.listingFragment (text.take len)])
      | _, _ => .error .outOfBounds
  | .done, s => .ok (.done, s, [])

def program : Program Pc Fragments Reply Fault where
  step := step
  done k := k = .done
  stops := by
    rintro _ s rfl
    rfl

@[simp]
theorem program_step (k : Pc) (s : Fragments) : program.step k s = step k s :=
  rfl

/-- What is sent when these fragments are in the list. -/
def page (texts : List Bytes) : List Reply :=
  .listingHeader (contentLength (texts.map List.length).sum) ::
    (texts.map Reply.listingFragment ++ [.listingFooter])

/-! ## The list -/

/-- The list from an address on. -/
def Chain (heap : Nat → Option Node) : Option Nat → List (Nat × Bytes) → Prop
  | head, [] => head = none
  | head, (p, text) :: rest =>
      head = some p ∧ ∃ next, heap p = some ⟨next, some text.length, some text⟩ ∧
        Chain heap next rest

/-- The global list has these nodes, each at its own address. -/
structure Holds (s : Fragments) (nodes : List (Nat × Bytes)) : Prop where
  chain : Chain s.heap s.fragments nodes
  nodup : (nodes.map Prod.fst).Nodup
  fresh : ∀ p ∈ nodes.map Prod.fst, p < s.allocated

variable {heap heap' : Nat → Option Node} {head : Option Nat} {nodes front : List (Nat × Bytes)}
variable {s : Fragments} {node : Node} {p f : Nat} {text fragment : Bytes} {todo : List Bytes}

theorem holds_empty : Holds .empty [] :=
  ⟨rfl, .nil, by simp⟩

theorem Chain.congr (chain : Chain heap head nodes)
    (same : ∀ p ∈ nodes.map Prod.fst, heap' p = heap p) : Chain heap' head nodes := by
  induction nodes generalizing head with
  | nil => exact chain
  | cons node rest ih =>
      rcases chain with ⟨is, next, there, chain⟩
      refine ⟨is, next, ?_, ih chain fun p member => same p (List.mem_cons_of_mem _ member)⟩
      rw [same node.1 List.mem_cons_self]
      exact there

/-- A node is linked behind the last one. -/
theorem Chain.append (chain : Chain heap head (front ++ [(p, fragment)]))
    (same : ∀ q ∈ front.map Prod.fst, heap' q = heap q)
    (linked : heap' p = some ⟨some f, some fragment.length, some fragment⟩)
    (last : heap' f = some ⟨none, some text.length, some text⟩) :
    Chain heap' head (front ++ [(p, fragment), (f, text)]) := by
  induction front generalizing head with
  | nil => exact ⟨chain.1, _, linked, rfl, _, last, rfl⟩
  | cons node rest ih =>
      rcases chain with ⟨is, next, there, chain⟩
      refine ⟨is, next, ?_, ih chain fun p member => same p (List.mem_cons_of_mem _ member)⟩
      rw [same node.1 List.mem_cons_self]
      exact there

theorem Chain.last (chain : Chain heap head (front ++ [(p, fragment)])) :
    heap p = some ⟨none, some fragment.length, some fragment⟩ := by
  induction front generalizing head with
  | nil =>
      rcases chain with ⟨_, next, there, rfl⟩
      exact there
  | cons node rest ih =>
      rcases chain with ⟨_, next, _, chain⟩
      exact ih chain

/-! ## Adding fragments -/

/-- The walk ends at the last node. -/
theorem steps_walk (chain : Chain s.heap head (front ++ [(p, fragment)])) :
    ∃ first, head = some first ∧
      Steps program (.walk first f text todo) s [] (.linkTail p f text todo) s := by
  induction front generalizing head with
  | nil =>
      rcases chain with ⟨rfl, next, there, rfl⟩
      refine ⟨p, rfl, .single ?_⟩
      rw [program_step, step, Fragments.node, there]
      rfl
  | cons node rest ih =>
      rcases chain with ⟨rfl, next, there, chain⟩
      rcases ih chain with ⟨first, rfl, run⟩
      refine ⟨node.1, rfl, .silent ?_ run⟩
      rw [program_step, step, Fragments.node, there]
      rfl

theorem Fragments.node_of (there : s.heap p = some node) : s.node p = .ok node := by
  rw [Fragments.node, there]

/-- The end of `addFragment`, when the new node is linked. -/
theorem steps_fill (new : s.heap f = some ⟨none, none, none⟩) :
    Steps program (.setLen f text todo) s [] (.add todo)
      (s.write f (some ⟨none, some text.length, some text⟩)) := by
  have first : program.step (.setLen f text todo) s =
      .ok (.setFragment f text todo, s.write f (some ⟨none, some text.length, none⟩), []) := by
    rw [program_step, step, Fragments.node_of new]
    rfl
  have second : program.step (.setFragment f text todo)
      (s.write f (some ⟨none, some text.length, none⟩)) =
        .ok (.add todo, s.write f (some ⟨none, some text.length, some text⟩), []) := by
    have there : (s.write f (some ⟨none, some text.length, none⟩)).heap f =
        some ⟨none, some text.length, none⟩ := Function.update_self ..
    rw [program_step, step, Fragments.node_of there]
    simp [bind, Except.bind, Fragments.write]
  exact .head first (.single second)

/-- The list when `addFragment` has the memory for the next node. -/
def Fragments.malloc (s : Fragments) : Fragments :=
  { s.write s.allocated (some ⟨none, none, none⟩) with allocated := s.allocated + 1 }

theorem Fragments.malloc_new : s.malloc.heap s.allocated = some ⟨none, none, none⟩ :=
  Function.update_self ..

theorem Fragments.malloc_old (old : p ≠ s.allocated) : s.malloc.heap p = s.heap p :=
  Function.update_of_ne old ..

theorem Holds.ne_allocated (holds : Holds s nodes) : ∀ p ∈ nodes.map Prod.fst, p ≠ s.allocated :=
  fun p member => Nat.ne_of_lt (holds.fresh p member)

/-- The new node has an address of its own. -/
theorem Holds.addresses_add (holds : Holds s nodes) :
    ((nodes ++ [(s.allocated, text)]).map Prod.fst).Nodup ∧
      ∀ p ∈ (nodes ++ [(s.allocated, text)]).map Prod.fst, p < s.malloc.allocated := by
  rw [List.map_append]
  constructor
  · apply List.Nodup.append holds.nodup (List.nodup_singleton _)
    exact List.disjoint_singleton.mpr fun member => holds.ne_allocated _ member rfl
  · intro p member
    rcases List.mem_append.mp member with old | new
    · exact Nat.lt_succ_of_lt (holds.fresh p old)
    · rw [List.mem_singleton.mp new]
      exact Nat.lt_succ_self _

/-- The first fragment is added. -/
theorem steps_addFirst (head : s.fragments = none) :
    Steps program (.add (text :: todo)) s [] (.add todo)
      ({ s.malloc with fragments := some s.allocated }.write s.allocated
        (some ⟨none, some text.length, some text⟩)) := by
  have start : program.step (.add (text :: todo)) s =
      .ok (.linkHead s.allocated text todo, s.malloc, []) := by
    rw [program_step, step]
    simp only [Fragments.malloc, Fragments.write, head]
  exact .silent start (.silent rfl (steps_fill Fragments.malloc_new))

/-- A fragment is added behind the last one. -/
theorem steps_addLast (chain : Chain s.malloc.heap s.fragments (front ++ [(p, fragment)]))
    (other : s.allocated ≠ p) :
    Steps program (.add (text :: todo)) s [] (.add todo)
      ((s.malloc.write p (some ⟨some s.allocated, some fragment.length, some fragment⟩)).write
        s.allocated (some ⟨none, some text.length, some text⟩)) := by
  have walked : ∃ first, s.fragments = some first ∧
      Steps program (.walk first s.allocated text todo) s.malloc []
        (.linkTail p s.allocated text todo) s.malloc := steps_walk chain
  rcases walked with ⟨first, head, walk⟩
  have start : program.step (.add (text :: todo)) s =
      .ok (.walkStart s.allocated text todo, s.malloc, []) := by
    rw [program_step, step]
    simp only [Fragments.malloc, Fragments.write, head]
  have begin_ : program.step (.walkStart s.allocated text todo) s.malloc =
      .ok (.walk first s.allocated text todo, s.malloc, []) := by
    have same : s.malloc.fragments = some first := head
    rw [program_step, step]
    simp only [same]
  have link : program.step (.linkTail p s.allocated text todo) s.malloc =
      .ok (.setLen s.allocated text todo,
        s.malloc.write p (some ⟨some s.allocated, some fragment.length, some fragment⟩), []) := by
    rw [program_step, step, Fragments.node_of chain.last]
    rfl
  have new : (s.malloc.write p
      (some ⟨some s.allocated, some fragment.length, some fragment⟩)).heap s.allocated =
        some ⟨none, none, none⟩ :=
    (Function.update_of_ne other ..).trans Fragments.malloc_new
  exact .silent start (.silent begin_ (walk.trans (.silent link (steps_fill new))))

/-- A fragment is added. -/
theorem steps_add (holds : Holds s nodes) :
    ∃ s', Steps program (.add (text :: todo)) s [] (.add todo) s' ∧
      Holds s' (nodes ++ [(s.allocated, text)]) := by
  rcases @Holds.addresses_add _ _ text holds with ⟨nodup, fresh⟩
  have ne := holds.ne_allocated
  rcases List.eq_nil_or_concat' nodes with rfl | ⟨front, ⟨p, fragment⟩, rfl⟩
  · refine ⟨_, steps_addFirst holds.chain, ?_, nodup, fresh⟩
    exact ⟨rfl, none, Function.update_self .., rfl⟩
  · have other : s.allocated ≠ p := Ne.symm (ne p (by simp))
    have apart : ∀ q ∈ front.map Prod.fst, q ≠ s.allocated ∧ q ≠ p := by
      intro q member
      refine ⟨ne q (by rw [List.map_append]; exact List.mem_append_left _ member), ?_⟩
      have nodup := holds.nodup
      rw [List.map_append, List.nodup_append] at nodup
      exact nodup.2.2 q member p (by simp)
    have chain : Chain s.malloc.heap s.fragments (front ++ [(p, fragment)]) :=
      holds.chain.congr fun q member => Fragments.malloc_old (ne q member)
    refine ⟨_, steps_addLast chain other, ?_, nodup, fresh⟩
    rw [List.append_assoc]
    apply Chain.append chain
    · intro q member
      rcases apart q member with ⟨notNew, notLast⟩
      exact (Function.update_of_ne notNew ..).trans (Function.update_of_ne notLast ..)
    · exact (Function.update_of_ne (Ne.symm other) ..).trans (Function.update_self ..)
    · exact Function.update_self ..

/-! ## The page -/

/-- The lengths of all nodes go into the header. -/
theorem steps_measure {total : Nat} (chain : Chain s.heap (some p) nodes) :
    Steps program (.measure p total) s
      [.listingHeader (contentLength (total + (nodes.map fun node => node.2.length).sum))]
      .send s := by
  induction nodes generalizing p total with
  | nil => cases chain
  | cons node rest ih =>
      rcases chain with ⟨is, next, there, chain⟩
      obtain rfl : p = node.1 := Option.some.inj is
      have measure : program.step (.measure node.1 total) s =
          .ok (.measureNext node.1 (total + node.2.length), s, []) := by
        rw [program_step, step, Fragments.node_of there]
        rfl
      rw [List.map_cons, List.sum_cons, ← Nat.add_assoc]
      cases next with
      | none =>
          rcases rest with _ | ⟨other, rest⟩
          · refine .silent measure (.single ?_)
            rw [program_step, step, Fragments.node_of there]
            rfl
          · cases chain.1
      | some q =>
          refine .silent measure (.silent ?_ (ih chain))
          rw [program_step, step, Fragments.node_of there]
          rfl

/-- All nodes are sent and taken from the list. -/
theorem steps_send (holds : Holds s nodes) :
    ∃ s', Steps program .send s
        (nodes.map (fun node => .listingFragment node.2) ++ [.listingFooter]) .done s' ∧
      Holds s' [] := by
  induction nodes generalizing s with
  | nil =>
      have head : s.fragments = none := holds.chain
      refine ⟨s, .single ?_, holds⟩
      rw [program_step, step]
      simp only [head]
      rfl
  | cons node rest ih =>
      rcases holds.chain with ⟨head, next, there, chain⟩
      have apart := List.nodup_cons.mp holds.nodup
      have later : Holds ({ s with fragments := next }.write node.1 none) rest := by
        refine ⟨chain.congr ?_, apart.2, ?_⟩
        · intro p member
          exact Function.update_of_ne (ne_of_mem_of_not_mem member apart.1) ..
        · intro p member
          exact holds.fresh p (List.mem_cons_of_mem _ member)
      have send : program.step .send s = .ok (.take, s, []) := by
        rw [program_step, step]
        simp only [head]
      have take : program.step .take s = .ok (.next node.1, s, []) := by
        rw [program_step, step]
        simp only [head]
      have next_ : program.step (.next node.1) s = .ok (.unlink node.1 next, s, []) := by
        rw [program_step, step, Fragments.node_of there]
        rfl
      have release : program.step (.release node.1) { s with fragments := next } =
          .ok (.send, { s with fragments := next }.write node.1 none,
            [.listingFragment node.2]) := by
        have there' : { s with fragments := next }.heap node.1 =
            some ⟨next, some node.2.length, some node.2⟩ := there
        rw [program_step, step, Fragments.node_of there']
        simp [bind, Except.bind]
      have run : Steps program .send s [.listingFragment node.2] .send
          ({ s with fragments := next }.write node.1 none) :=
        .silent send (.silent take (.silent next_ (.silent rfl (.single release))))
      rcases ih later with ⟨s', last, empty⟩
      exact ⟨s', run.trans last, empty⟩

/-- The page has the fragments that are in the list already, and those that are added; the
list is empty afterwards. -/
theorem steps_page (holds : Holds s nodes) :
    ∃ s', Steps program (.add todo) s (page (nodes.map Prod.snd ++ todo)) .done s' ∧
      Holds s' [] := by
  induction todo generalizing s nodes with
  | nil =>
      have sent : page (nodes.map Prod.snd ++ []) =
          [.listingHeader (contentLength (0 + (nodes.map fun node => node.2.length).sum))] ++
            (nodes.map (fun node => .listingFragment node.2) ++ [.listingFooter]) := by
        simp [page, Function.comp_def]
      rcases steps_send holds with ⟨s', last, empty⟩
      refine ⟨s', ?_, empty⟩
      rw [sent]
      rcases head : s.fragments with _ | p
      · rcases nodes with _ | ⟨node, rest⟩
        · have start : program.step (.add []) s =
              .ok (.send, s, [.listingHeader (contentLength 0)]) := by
            rw [program_step, step]
            simp only [head]
          exact (Steps.single start).trans last
        · have some_ := holds.chain.1
          rw [head] at some_
          cases some_
      · have start : program.step (.add []) s = .ok (.measure p 0, s, []) := by
          rw [program_step, step]
          simp only [head]
        have chain := holds.chain
        rw [head] at chain
        exact (Steps.silent start (steps_measure chain)).trans last
  | cons text todo ih =>
      rcases @steps_add _ _ text todo holds with ⟨s', run, holds'⟩
      rcases ih holds' with ⟨s'', rest, empty⟩
      rw [List.map_append, List.append_assoc] at rest
      exact ⟨s'', run.trans rest, empty⟩

theorem gives_page (holds : Holds s nodes) :
    Gives program (.add todo) s (page (nodes.map Prod.snd ++ todo)) := by
  rcases @steps_page _ _ todo holds with ⟨s', run, _⟩
  exact ⟨.done, s', run, rfl⟩

/-! ## Empty listings -/

/-- Where a listing without fragments is. -/
def Pc.Empty (k : Pc) : Prop :=
  k = .add [] ∨ k = .send ∨ k = .done

/-- It leaves the empty list alone. -/
theorem step_empty {k k' : Pc} {s' : Fragments} {out : List Reply} (empty : k.Empty)
    (head : s.fragments = none) (taken : step k s = .ok (k', s', out)) : s' = s ∧ k'.Empty := by
  rcases empty with rfl | rfl | rfl <;> simp only [step, head] at taken
  · obtain ⟨rfl, rfl, _⟩ : .send = k' ∧ s = s' ∧ _ = out := by simpa using taken
    exact ⟨rfl, .inr (.inl rfl)⟩
  · obtain ⟨rfl, rfl, _⟩ : .done = k' ∧ s = s' ∧ _ = out := by simpa using taken
    exact ⟨rfl, .inr (.inr rfl)⟩
  · obtain ⟨rfl, rfl, _⟩ : .done = k' ∧ s = s' ∧ out = [] := by simpa using taken
    exact ⟨rfl, .inr (.inr rfl)⟩

end Listing

end OgWebserver.Request

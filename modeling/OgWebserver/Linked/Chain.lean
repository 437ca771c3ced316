import Mathlib.Data.List.Basic
import Mathlib.Data.List.Nodup
import Mathlib.Data.List.Range

/-!
# Chains of nodes

Singly linked lists as a program sees them: nodes with an address, each with a
value and the address of the next one.  The file has the three operations of a
list whose last node is a sentinel: chain a node in front, search up to the
sentinel, and move all nodes but the sentinel to another list, which reverses
them.  Nodes are never given back, so a node's address is its position.
-/

namespace OgWebserver.Linked

universe u

variable {α : Type u}

structure Cell (α : Type u) where
  value : α
  next : Option Nat
  deriving DecidableEq

/-- All nodes that have been allocated, a new one at the end. -/
abbrev Store (α : Type u) : Type u :=
  List (Cell α)

/-- The pointer leads through the given nodes, each with its address, to the null pointer. -/
inductive Chain (cells : Store α) : Option Nat → List (Nat × α) → Prop
  | nil : Chain cells none []
  | cons {a : Nat} {value : α} {next : Option Nat} {rest : List (Nat × α)}
      (here : cells[a]? = some { value := value, next := next })
      (more : Chain cells next rest) : Chain cells (some a) ((a, value) :: rest)

/-! ## Operations -/

/-- Allocate a node and chain it in front of the list. -/
def push (value : α) (head : Option Nat) (cells : Store α) : Store α × Option Nat :=
  (cells ++ [{ value := value, next := head }], some cells.length)

/-- Search a list for a value, up to its last node; `none` means that the pointers or
the steps give out. -/
def scan (test : α → Bool) (cells : Store α) : Nat → Option Nat → Option Bool
  | _, none => some false
  | 0, some _ => none
  | fuel + 1, some a =>
      match cells[a]? with
      | none => none
      | some c =>
          if c.next.isNone then some false
          else if test c.value then some true
          else scan test cells fuel c.next

/-- Move the nodes one after another to the front of another list, until the last one
is at the head.  The result is the nodes, and the heads of the two lists. -/
def detach : Nat → Store α → Option Nat → Option Nat →
    Option (Store α × Option Nat × Option Nat)
  | _, cells, none, moved => some (cells, none, moved)
  | 0, _, some _, _ => none
  | fuel + 1, cells, some a, moved =>
      match cells[a]? with
      | none => none
      | some c =>
          if c.next.isNone then some (cells, some a, moved)
          else detach fuel (cells.set a { c with next := moved }) c.next (some a)

/-- Give away what a list has beside its last node, or a copy of that node if it is alone. -/
def handOver (cells : Store α) : Option Nat → Option (Store α × Option Nat × Option Nat)
  | none => none
  | some a =>
      match cells[a]? with
      | none => none
      | some c =>
          if c.next.isNone then some (cells ++ [c], some a, some cells.length)
          else detach (cells.length + 1) cells (some a) none

/-! ## Chains -/

variable {cells start : Store α} {p q : Option Nat} {nodes items moved : List (Nat × α)}
variable {last : Nat × α} {fuel : Nat}

theorem Chain.mem_lt (chain : Chain cells p nodes) : ∀ node ∈ nodes, node.1 < cells.length := by
  induction chain with
  | nil =>
      intro node member
      cases member
  | cons here more ih =>
      intro node member
      rcases List.mem_cons.mp member with rfl | member
      · exact (List.getElem?_eq_some_iff.mp here).1
      · exact ih node member

/-- A chain only depends on its own nodes. -/
theorem Chain.congr {cells' : Store α} (chain : Chain cells p nodes)
    (same : ∀ node ∈ nodes, cells'[node.1]? = cells[node.1]?) : Chain cells' p nodes := by
  induction chain with
  | nil => exact .nil
  | cons here more ih =>
      rcases List.forall_mem_cons.mp same with ⟨first, others⟩
      exact .cons (first.trans here) (ih others)

theorem Chain.of_prefix {cells' : Store α} (chain : Chain cells p nodes)
    (longer : cells <+: cells') : Chain cells' p nodes := by
  apply chain.congr
  intro node member
  rcases longer with ⟨more, rfl⟩
  exact List.getElem?_append_left (chain.mem_lt node member)

theorem Chain.push (chain : Chain cells p nodes) (value : α) :
    Chain (push value p cells).1 (push value p cells).2 ((cells.length, value) :: nodes) := by
  apply Chain.cons
  · exact List.getElem?_concat_length
  · exact chain.of_prefix (List.prefix_append _ _)

theorem chain_cons_iff {node : Nat × α} :
    Chain cells p (node :: nodes) ↔
      p = some node.1 ∧ ∃ next, cells[node.1]? = some { value := node.2, next := next } ∧
        Chain cells next nodes := by
  constructor
  · intro chain
    cases chain with
    | cons here more => exact ⟨rfl, _, here, more⟩
  · rintro ⟨rfl, next, here, more⟩
    exact .cons here more

theorem chain_singleton_iff {node : Nat × α} :
    Chain cells p [node] ↔
      p = some node.1 ∧ cells[node.1]? = some { value := node.2, next := none } := by
  rw [chain_cons_iff]
  apply and_congr_right
  intro _
  constructor
  · rintro ⟨next, here, more⟩
    cases more with
    | nil => exact here
  · exact fun here => ⟨none, here, .nil⟩

theorem Chain.isSome_of_concat (chain : Chain cells p (items ++ [last])) : p.isNone = false := by
  cases items with
  | nil => rw [(chain_singleton_iff.mp chain).1, Option.isNone_some]
  | cons node rest => rw [(chain_cons_iff.mp chain).1, Option.isNone_some]

/-- The search finds what is in front of the last node. -/
theorem scan_eq (test : α → Bool) (chain : Chain cells p (items ++ [last]))
    (enough : items.length < fuel) :
    scan test cells fuel p = some (items.any fun node => test node.2) := by
  induction items generalizing p fuel with
  | nil =>
      rcases chain_singleton_iff.mp chain with ⟨rfl, here⟩
      rcases Nat.exists_eq_succ_of_ne_zero (Nat.ne_zero_of_lt enough) with ⟨steps, rfl⟩
      simp [scan, here]
  | cons node rest ih =>
      rcases chain_cons_iff.mp chain with ⟨rfl, next, here, more⟩
      rcases Nat.exists_eq_succ_of_ne_zero (Nat.ne_zero_of_lt enough) with ⟨steps, rfl⟩
      have goesOn : next.isNone = false := more.isSome_of_concat
      have later := ih more (Nat.lt_of_succ_lt_succ enough)
      simp only [scan, here, goesOn, Bool.false_eq_true, if_false, later, List.any_cons]
      cases found : test node.2 with
      | true => rw [if_pos rfl, Bool.true_or]
      | false => rw [if_neg Bool.false_ne_true, Bool.false_or]

/-- What moving the nodes does: the last node stays, the others are the front of the other
list, the last of them first, and no further node is written to. -/
theorem detach_eq (chain : Chain cells p (items ++ [last])) (other : Chain cells q moved)
    (distinct : ((items ++ [last]).map Prod.fst ++ moved.map Prod.fst).Nodup)
    (enough : items.length < fuel) :
    ∃ cells' given, detach fuel cells p q = some (cells', some last.1, given) ∧
      Chain cells' given (items.reverse ++ moved) ∧ cells'.length = cells.length ∧
        ∀ a, a ∉ items.map Prod.fst → cells'[a]? = cells[a]? := by
  induction items generalizing cells p q moved fuel with
  | nil =>
      rcases chain_singleton_iff.mp chain with ⟨rfl, here⟩
      rcases Nat.exists_eq_succ_of_ne_zero (Nat.ne_zero_of_lt enough) with ⟨steps, rfl⟩
      refine ⟨cells, q, ?_, other, rfl, fun _ _ => rfl⟩
      simp [detach, here]
  | cons node rest ih =>
      rcases chain_cons_iff.mp chain with ⟨rfl, next, here, more⟩
      rcases Nat.exists_eq_succ_of_ne_zero (Nat.ne_zero_of_lt enough) with ⟨steps, rfl⟩
      have goesOn : next.isNone = false := more.isSome_of_concat
      rw [List.cons_append, List.map_cons, List.cons_append, List.nodup_cons] at distinct
      rcases distinct with ⟨fresh, distinct⟩
      rw [List.mem_append, not_or] at fresh
      have inside : node.1 < cells.length := (List.getElem?_eq_some_iff.mp here).1
      have elsewhere : ∀ {r : Option Nat} {ns : List (Nat × α)},
          Chain cells r ns → node.1 ∉ ns.map Prod.fst →
            Chain (cells.set node.1 { value := node.2, next := q }) r ns := by
        intro r ns away absent
        apply away.congr
        intro n member
        apply List.getElem?_set_ne
        intro same
        exact absent (same ▸ List.mem_map_of_mem member)
      have moves : Chain (cells.set node.1 { value := node.2, next := q }) (some node.1)
          (node :: moved) :=
        .cons (List.getElem?_set_self inside) (elsewhere other fresh.2)
      have apart : ((rest ++ [last]).map Prod.fst ++ (node :: moved).map Prod.fst).Nodup := by
        apply (List.perm_middle).nodup_iff.mpr
        apply List.nodup_cons.mpr
        exact ⟨fun member => (List.mem_append.mp member).elim fresh.1 fresh.2, distinct⟩
      rcases ih (elsewhere more fresh.1) moves apart (Nat.lt_of_succ_lt_succ enough) with
        ⟨cells', given, ran, chain', length, kept⟩
      refine ⟨cells', given, ?_, ?_, ?_, ?_⟩
      · simp only [detach, here, goesOn, Bool.false_eq_true, if_false, ran]
      · rw [List.reverse_cons, List.append_assoc]
        exact chain'
      · rw [length, List.length_set]
      · intro a absent
        rw [List.map_cons, List.mem_cons, not_or] at absent
        rw [kept a absent.2, List.getElem?_set_ne (Ne.symm absent.1)]

theorem handOver_eq_detach (chain : Chain cells p (items ++ [last])) (some_ : items ≠ []) :
    handOver cells p = detach (cells.length + 1) cells p none := by
  cases items with
  | nil => exact absurd rfl some_
  | cons node rest =>
      rcases chain_cons_iff.mp chain with ⟨rfl, next, here, more⟩
      have goesOn : next.isNone = false := more.isSome_of_concat
      simp only [handOver, here, goesOn, Bool.false_eq_true, if_false]

/-! ## A list in front of its sentinel -/

/-- The new nodes: their addresses follow those of the start. -/
def numbered (start : Store α) (values : List α) : List (Nat × α) :=
  (List.range' start.length values.length).zip values

/-- Since the start, the values have been chained one after another in front of the
sentinel, and nothing else has happened. -/
structure Stacked (start : Store α) (sentinel : Nat × α) (values : List α) (cells : Store α)
    (head : Option Nat) : Prop where
  kept : start <+: cells
  length : cells.length = start.length + values.length
  chain : Chain cells head ((numbered start values).reverse ++ [sentinel])

/-- Since the start, the values have been given to a list of their own: its nodes, in
order, are all nodes that are new, and the old ones are what they were. -/
structure Given (start : Store α) (values : List α) (cells : Store α) (head : Option Nat) :
    Prop where
  kept : start <+: cells
  length : cells.length = start.length + values.length
  chain : Chain cells head (numbered start values)

variable {sentinel : Nat × α} {values : List α}

theorem length_numbered (start : Store α) (values : List α) :
    (numbered start values).length = values.length := by
  simp [numbered]

theorem map_fst_numbered (start : Store α) (values : List α) :
    (numbered start values).map Prod.fst = List.range' start.length values.length :=
  List.map_fst_zip (by simp)

theorem map_snd_numbered (start : Store α) (values : List α) :
    (numbered start values).map Prod.snd = values :=
  List.map_snd_zip (by simp)

theorem numbered_concat (start : Store α) (values : List α) (value : α) :
    numbered start (values ++ [value]) =
      numbered start values ++ [(start.length + values.length, value)] := by
  rw [numbered, List.length_append, List.length_singleton, List.range'_concat,
    List.zip_append (by simp)]
  simp [numbered]

theorem stacked_nil (alone : start[sentinel.1]? = some { value := sentinel.2, next := none }) :
    Stacked start sentinel [] start (some sentinel.1) where
  kept := List.prefix_refl _
  length := rfl
  chain := chain_singleton_iff.mpr ⟨rfl, alone⟩

theorem Stacked.push (stacked : Stacked start sentinel values cells p) (value : α) :
    Stacked start sentinel (values ++ [value]) (push value p cells).1 (push value p cells).2 where
  kept := stacked.kept.trans (List.prefix_append _ _)
  length := by
    rw [Linked.push, List.length_append, List.length_append, stacked.length]
    rfl
  chain := by
    rw [numbered_concat, List.reverse_append, ← stacked.length]
    exact stacked.chain.push value

/-- The search sees the values, and not the sentinel. -/
theorem Stacked.scan (stacked : Stacked start sentinel values cells p) (test : α → Bool) :
    scan test cells (cells.length + 1) p = some (values.any test) := by
  rw [scan_eq test stacked.chain]
  · rw [List.any_reverse, ← map_snd_numbered start values, List.any_map, map_snd_numbered]
    rfl
  · rw [List.length_reverse, length_numbered, stacked.length]
    exact Nat.lt_succ_of_le (Nat.le_add_left _ _)

theorem nodup_stacked (values : List α) (old : sentinel.1 < start.length) :
    (((numbered start values).reverse ++ [sentinel]).map Prod.fst).Nodup := by
  rw [List.map_append, List.map_reverse, map_fst_numbered]
  apply List.nodup_append.mpr
  constructor
  · exact List.nodup_reverse.mpr List.nodup_range'
  · constructor
    · exact List.nodup_singleton _
    · intro a new b is
      rw [List.mem_reverse, List.mem_range'_1] at new
      obtain rfl := List.mem_singleton.mp is
      exact (Nat.lt_of_lt_of_le old new.1).ne'

/-- Moving the values to a new list. -/
theorem Stacked.detach (stacked : Stacked start sentinel values cells p)
    (old : sentinel.1 < start.length) :
    ∃ cells' given, detach (cells.length + 1) cells p none = some (cells', some sentinel.1, given) ∧
      Given start values cells' given := by
  have distinct := nodup_stacked values old
  rw [← List.append_nil (List.map _ _)] at distinct
  have enough : (numbered start values).reverse.length < cells.length + 1 := by
    rw [List.length_reverse, length_numbered, stacked.length]
    exact Nat.lt_succ_of_le (Nat.le_add_left _ _)
  rcases detach_eq stacked.chain .nil distinct enough with
    ⟨cells', given, ran, chain, length, same⟩
  refine ⟨cells', given, ran, ?_⟩
  constructor
  · have prefix_ := stacked.kept
    rw [List.prefix_iff_getElem?] at prefix_ ⊢
    intro a inside
    rw [same a, prefix_ a inside]
    rw [List.map_reverse, List.mem_reverse, map_fst_numbered, List.mem_range'_1]
    exact fun new => Nat.not_le_of_lt inside new.1
  · rw [length, stacked.length]
  · rw [List.reverse_reverse, List.append_nil] at chain
    exact chain

/-- What is given away is the values in the order in which they came, or a copy of the
sentinel; the sentinel is all that stays. -/
theorem Stacked.handOver (stacked : Stacked start sentinel values cells p)
    (alone : start[sentinel.1]? = some { value := sentinel.2, next := none }) :
    ∃ cells' given, handOver cells p = some (cells', some sentinel.1, given) ∧
      Given start (if values.isEmpty then [sentinel.2] else values) cells' given := by
  have old : sentinel.1 < start.length := (List.getElem?_eq_some_iff.mp alone).1
  cases values with
  | nil =>
      rcases chain_singleton_iff.mp stacked.chain with ⟨rfl, here⟩
      have same : cells = start := (stacked.kept.eq_of_length stacked.length.symm).symm
      subst same
      refine ⟨cells ++ [{ value := sentinel.2, next := none }], some cells.length, ?_, ?_⟩
      · simp [Linked.handOver, here]
      · constructor
        · exact List.prefix_append _ _
        · exact List.length_append
        · apply chain_singleton_iff.mpr
          exact ⟨rfl, List.getElem?_concat_length⟩
  | cons value rest =>
      rcases stacked.detach old with ⟨cells', given, ran, is⟩
      refine ⟨cells', given, ?_, is⟩
      rw [handOver_eq_detach stacked.chain, ran]
      rw [← List.length_pos_iff, List.length_reverse, length_numbered]
      exact Nat.succ_pos _

end OgWebserver.Linked

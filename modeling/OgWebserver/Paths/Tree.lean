import Mathlib.Data.List.Dedup
import Mathlib.Data.List.Infix

/-!
# Trees of files

A tree of directories and files, and the walk through it that finds what a path names.  The walk
looks at every node on the way.  When all of these lie above or below a directory, and the last
one below it, then nothing beside that directory matters to the walk; and otherwise something
does.
-/

namespace OgWebserver.Paths

universe u v

/-- What a component of a path asks for. -/
inductive Turn (κ : Type u)
  | stay
  | up
  | down (name : κ)
  deriving DecidableEq

/-- Where a turn leads to; there is nothing above the root. -/
def Turn.from {κ : Type u} (place : List κ) : Turn κ → List κ
  | stay => place
  | up => place.dropLast
  | down name => place ++ [name]

inductive Node (κ : Type u) (φ : Type v)
  | dir (names : List κ) (readable : Bool)
  | file (content : φ)

def Node.isDir {κ : Type u} {φ : Type v} : Node κ φ → Bool
  | dir .. => true
  | file _ => false

/-- What there is at each place. -/
abbrev Tree (κ : Type u) (φ : Type v) : Type (max u v) :=
  List κ → Option (Node κ φ)

variable {κ : Type u} {φ : Type v}

namespace Tree

def isDir (tree : Tree κ φ) (place : List κ) : Bool :=
  (tree place).any Node.isDir

/-- Where the turns lead to, each of them taken in a directory. -/
def walk (tree : Tree κ φ) (place : List κ) : List (Turn κ) → Option (List κ)
  | [] => some place
  | turn :: rest => if tree.isDir place then tree.walk (turn.from place) rest else none

/-- What the turns lead to. -/
def find (tree : Tree κ φ) (place : List κ) (turns : List (Turn κ)) : Option (Node κ φ) :=
  (tree.walk place turns).bind tree

/-- A tree has its nodes in directories, and these have the names of their nodes. -/
structure Formed (tree : Tree κ φ) : Prop where
  parent : ∀ place name, (tree (place ++ [name])).isSome → tree.isDir place
  names : ∀ place names readable, tree place = some (.dir names readable) →
    ∀ name, name ∈ names ↔ (tree (place ++ [name])).isSome

/-- A tree with a directory at the given place. -/
structure Rooted (root : List κ) (tree : Tree κ φ) : Prop extends tree.Formed where
  root : tree.isDir root

end Tree

/-- The same tree at and below the root. -/
def AgreeBelow (root : List κ) (tree other : Tree κ φ) : Prop :=
  ∀ place, root <+: place → tree place = other place

/-- The places that the turns lead through, and where they end. -/
def visited (place : List κ) : List (Turn κ) → List (List κ)
  | [] => [place]
  | turn :: rest => place :: visited (turn.from place) rest

def destination (place : List κ) (turns : List (Turn κ)) : List κ :=
  turns.foldl Turn.from place

/-- Above, at or below the root. -/
def Near (root place : List κ) : Prop :=
  place <+: root ∨ root <+: place

/-- The turns keep near the root, and end below it. -/
def Within (root place : List κ) (turns : List (Turn κ)) : Prop :=
  (∀ through ∈ visited place turns, Near root through) ∧ root <+: destination place turns

instance [DecidableEq κ] (root place : List κ) : Decidable (Near root place) :=
  inferInstanceAs (Decidable (_ ∨ _))

instance [DecidableEq κ] (root place : List κ) (turns : List (Turn κ)) :
    Decidable (Within root place turns) :=
  inferInstanceAs (Decidable (_ ∧ _))

variable {root place : List κ} {tree other : Tree κ φ} {turns first second : List (Turn κ)}

/-! ## Walks -/

theorem Tree.walk_append :
    tree.walk place (first ++ second) =
      (tree.walk place first).bind fun middle => tree.walk middle second := by
  induction first generalizing place with
  | nil => rfl
  | cons turn rest ih =>
      rw [List.cons_append, walk, walk]
      split
      · exact ih
      · rfl

theorem destination_append :
    destination place (first ++ second) = destination (destination place first) second :=
  List.foldl_append

theorem Tree.walk_eq_some {middle : List κ} (walked : tree.walk place turns = some middle) :
    middle = destination place turns := by
  induction turns generalizing place with
  | nil => exact (Option.some.inj walked).symm
  | cons turn rest ih =>
      rw [walk] at walked
      split at walked
      · exact ih walked
      · cases walked

theorem Tree.walk_of_visited (dirs : ∀ through ∈ visited place turns, tree.isDir through) :
    tree.walk place turns = some (destination place turns) := by
  induction turns generalizing place with
  | nil => rfl
  | cons turn rest ih =>
      rcases List.forall_mem_cons.mp dirs with ⟨here, others⟩
      rw [walk, if_pos here, ih others]
      rfl

theorem destination_mem_visited : destination place turns ∈ visited place turns := by
  induction turns generalizing place with
  | nil => exact List.mem_singleton_self _
  | cons turn rest ih => exact List.mem_cons_of_mem place ih

theorem mem_visited_append {through : List κ} :
    through ∈ visited place (first ++ second) ↔
      through ∈ visited place first ∨ through ∈ visited (destination place first) second := by
  induction first generalizing place with
  | nil =>
      cases second with
      | nil => simp [visited, destination]
      | cons turn rest => simp +contextual [visited, destination]
  | cons turn rest ih => simp [visited, destination, ih, or_assoc]

/-- The names on the way are those in front of it and those that the turns give. -/
theorem name_of_visited {through : List κ} {name : κ} (member : through ∈ visited place turns)
    (inside : name ∈ through) : name ∈ place ∨ .down name ∈ turns := by
  induction turns generalizing place with
  | nil =>
      obtain rfl := List.mem_singleton.mp member
      exact .inl inside
  | cons turn rest ih =>
      rcases List.mem_cons.mp member with rfl | member
      · exact .inl inside
      · rcases ih member with before | given
        · cases turn with
          | stay => exact .inl before
          | up => exact .inl (List.mem_of_mem_dropLast before)
          | down other =>
              rcases List.mem_append.mp before with before | here
              · exact .inl before
              · rw [List.mem_singleton.mp here]
                exact .inr List.mem_cons_self
        · exact .inr (List.mem_cons_of_mem turn given)

theorem Tree.Formed.isDir_above (formed : tree.Formed) {below : List κ}
    (above : place <+: below) (dir : tree.isDir below) : tree.isDir place := by
  induction below using List.reverseRecOn with
  | nil => rwa [List.prefix_nil.mp above]
  | append_singleton middle name ih =>
      rcases List.prefix_concat_iff.mp above with rfl | above
      · exact dir
      · exact ih above (formed.parent middle name (Option.isSome_of_any dir))

theorem Tree.exists_dir (dir : tree.isDir place) :
    ∃ names readable, tree place = some (.dir names readable) := by
  rw [isDir, Option.any_eq_true] at dir
  rcases dir with ⟨node, at_, is⟩
  cases node with
  | dir names readable => exact ⟨names, readable, at_⟩
  | file content => cases is

/-! ## Turns that keep to the root -/

theorem isDir_of_near (rooted : tree.Rooted root) (rooted' : other.Rooted root)
    (agree : AgreeBelow root tree other) (near : Near root place) :
    tree.isDir place = other.isDir place := by
  rcases near with above | below
  · rw [rooted.isDir_above above rooted.root, rooted'.isDir_above above rooted'.root]
  · rw [Tree.isDir, Tree.isDir, agree place below]

/-- What is beside the root does not matter to a walk that keeps to it. -/
theorem walk_congr (rooted : tree.Rooted root) (rooted' : other.Rooted root)
    (agree : AgreeBelow root tree other)
    (near : ∀ through ∈ visited place turns, Near root through) :
    tree.walk place turns = other.walk place turns := by
  induction turns generalizing place with
  | nil => rfl
  | cons turn rest ih =>
      rcases List.forall_mem_cons.mp near with ⟨here, others⟩
      rw [Tree.walk, Tree.walk, isDir_of_near rooted rooted' agree here, ih others]

theorem find_congr (rooted : tree.Rooted root) (rooted' : other.Rooted root)
    (agree : AgreeBelow root tree other) (within : Within root place turns) :
    tree.find place turns = other.find place turns := by
  rw [Tree.find, Tree.find, walk_congr rooted rooted' agree within.1]
  cases walked : other.walk place turns with
  | none => rfl
  | some middle =>
      obtain rfl := Tree.walk_eq_some walked
      exact agree _ within.2

/-- Above the root there are directories only. -/
theorem find_above (rooted : tree.Rooted root) (rooted' : other.Rooted root)
    (agree : AgreeBelow root tree other)
    (near : ∀ through ∈ visited place turns, Near root through)
    (last : destination place turns <+: root) :
    (tree.find place turns = none ∧ other.find place turns = none) ∨
      (∃ names readable, tree.find place turns = some (.dir names readable)) ∧
        ∃ names readable, other.find place turns = some (.dir names readable) := by
  rw [Tree.find, Tree.find, walk_congr rooted rooted' agree near]
  cases walked : other.walk place turns with
  | none => exact .inl ⟨rfl, rfl⟩
  | some middle =>
      obtain rfl := Tree.walk_eq_some walked
      refine .inr ⟨?_, ?_⟩
      · exact Tree.exists_dir (rooted.isDir_above last rooted.root)
      · exact Tree.exists_dir (rooted'.isDir_above last rooted'.root)

theorem Within.append (within : Within root place first)
    (more : Within root (destination place first) second) :
    Within root place (first ++ second) := by
  refine ⟨fun through member => ?_, destination_append ▸ more.2⟩
  rcases mem_visited_append.mp member with early | late
  · exact within.1 through early
  · exact more.1 through late

/-- From below the root, a turn up leads near it. -/
theorem Within.near_up (within : Within root place turns) :
    ∀ through ∈ visited place (turns ++ [.up]), Near root through := by
  intro through member
  rcases mem_visited_append.mp member with early | late
  · exact within.1 through early
  · rcases List.mem_pair.mp late with rfl | rfl
    · exact .inr within.2
    · exact List.prefix_or_prefix_of_prefix (List.dropLast_prefix _) within.2

/-- Turns that do not lead up stay below. -/
theorem within_of_descending (below : root <+: place) (descending : ∀ turn ∈ turns, turn ≠ .up) :
    Within root place turns := by
  induction turns generalizing place with
  | nil => exact ⟨by simpa [visited] using .inr below, below⟩
  | cons turn rest ih =>
      rcases List.forall_mem_cons.mp descending with ⟨notUp, others⟩
      have next : root <+: turn.from place := by
        cases turn with
        | stay => exact below
        | up => exact absurd rfl notUp
        | down name => exact below.trans (List.prefix_append _ _)
      have rest := ih next others
      exact ⟨List.forall_mem_cons.mpr ⟨.inr below, rest.1⟩, rest.2⟩

theorem near_above {target : List κ} (near : Near root target) (above : place <+: target) :
    Near root place := by
  rcases near with before | below
  · exact .inl (above.trans before)
  · exact List.prefix_or_prefix_of_prefix above below

/-! ## Turns that do not -/

section Grown

variable [DecidableEq κ] {places : List (List κ)} {name : κ}

/-- The names at a place that lie on the way to the others. -/
def children (places : List (List κ)) (place : List κ) : List κ :=
  (places.filterMap fun target =>
    if place <+: target then target[place.length]? else none).dedup

/-- Directories on the way to some places.  Those above the root cannot be listed. -/
def grown (φ : Type v) (root : List κ) (places : List (List κ)) : Tree κ φ := fun place =>
  if ∃ target ∈ places, place <+: target then
    some (.dir (children places place) (!(decide (place <+: root ∧ place ≠ root))))
  else none

theorem mem_children : name ∈ children places place ↔
    ∃ target ∈ places, place ++ [name] <+: target := by
  simp only [children, List.mem_dedup, List.mem_filterMap]
  refine exists_congr fun target => and_congr_right fun _ => ?_
  constructor
  · intro found
    split at found
    case isTrue above =>
      rcases above with ⟨rest, rfl⟩
      rw [List.getElem?_append_right (Nat.le_refl _), Nat.sub_self] at found
      cases rest with
      | nil => cases found
      | cons first rest =>
          obtain rfl := Option.some.inj found
          exact ⟨rest, by simp⟩
    · cases found
  · rintro ⟨rest, rfl⟩
    rw [if_pos ⟨name :: rest, by simp⟩]
    simp

theorem isSome_grown : (grown φ root places place).isSome ↔ ∃ target ∈ places, place <+: target := by
  rw [grown]
  split <;> simp_all

theorem isDir_grown : (grown φ root places).isDir place ↔ ∃ target ∈ places, place <+: target := by
  rw [Tree.isDir, grown]
  split <;> simp_all [Node.isDir]

theorem formed_grown : (grown φ root places).Formed where
  parent place name some_ := by
    rcases isSome_grown.mp some_ with ⟨target, member, above⟩
    exact isDir_grown.mpr ⟨target, member, (List.prefix_append place [name]).trans above⟩
  names place names readable is name := by
    rw [grown] at is
    split at is
    · cases is
      rw [mem_children, isSome_grown]
    · cases is

theorem rooted_grown (member : root ∈ places) : (grown φ root places).Rooted root :=
  { formed_grown with root := isDir_grown.mpr ⟨root, member, List.prefix_rfl⟩ }

theorem grown_of_mem (member : place ∈ places) (readable : place <+: root → place = root) :
    ∃ names, grown φ root places place = some (.dir names true) := by
  refine ⟨children places place, ?_⟩
  rw [grown, if_pos ⟨place, member, List.prefix_rfl⟩]
  have notAbove : ¬(place <+: root ∧ place ≠ root) := fun both => both.2 (readable both.1)
  rw [decide_eq_false notAbove]
  rfl

/-- A directory above the root cannot be listed. -/
theorem grown_above (dir : (grown φ root places).isDir place) (above : place <+: root)
    (other : place ≠ root) : ∃ names, grown φ root places place = some (.dir names false) := by
  refine ⟨children places place, ?_⟩
  rw [grown, if_pos (isDir_grown.mp dir), decide_eq_true ⟨above, other⟩]
  rfl

/-- What is beside the root has not been grown. -/
theorem grown_of_not_near (beside : ¬ Near root place) :
    grown φ root (places.filter (Near root ·)) place = none := by
  rw [grown, if_neg]
  rintro ⟨target, member, above⟩
  exact beside (near_above (by simpa using List.of_mem_filter member) above)

/-- The same grows below the root. -/
theorem agreeBelow_grown :
    AgreeBelow root (grown φ root places) (grown φ root (places.filter (Near root ·))) := by
  intro place below
  have near : ∀ target, place <+: target → Near root target :=
    fun target above => .inr (below.trans above)
  have same : (∃ target ∈ places, place <+: target) ↔
      ∃ target ∈ places.filter (Near root ·), place <+: target := by
    refine exists_congr fun target => and_congr_left fun above => ?_
    simp [near target above]
  have names : children (places.filter (Near root ·)) place = children places place := by
    rw [children, children, List.filterMap_filter]
    congr 2
    funext target
    by_cases above : place <+: target
    · simp [near target above]
    · simp [above]
  simp only [grown, same, names]

/-- Turns that come beside the root find nothing. -/
theorem find_grown_of_beside
    (beside : ¬ ∀ through ∈ visited place turns, Near root through) :
    (grown φ root (places.filter (Near root ·))).find place turns = none := by
  rw [Tree.find]
  induction turns generalizing place with
  | nil =>
      apply grown_of_not_near
      simpa [visited] using beside
  | cons turn rest ih =>
      rw [Tree.walk]
      split
      case isTrue dir =>
        apply ih
        intro near
        apply beside
        refine List.forall_mem_cons.mpr ⟨?_, near⟩
        by_contra notNear
        rw [Tree.isDir, grown_of_not_near notNear] at dir
        cases dir
      · rfl

end Grown

end OgWebserver.Paths

import Mathlib.Algebra.BigOperators.Ring.Finset
import Mathlib.Algebra.Order.BigOperators.Group.Finset
import Mathlib.Data.Fintype.Card
import OgWebserver.Request.RoundRobin
import OgWebserver.Transition.Clones

/-!
# Shares of the upstream servers

`fork` gives each worker process groups of its own, with cursors of its own.  Over all workers an
address gets the share of the calls that its nodes have of the group's list, up to an error that
grows with the number of workers only.  The list of a group is that of its block and of all
blocks before it, so these are the weights that count.
-/

namespace OgWebserver.Request

open Text Config Transition

/-- One call in a worker, and what it has picked. -/
def pickCall (passTo : Nat → Option SockAddr) (upstreams : List Upstreams) (call : UpstreamCall) :
    Except Fault (List Upstreams × List Pick) := do
  let (_, address, after) ← getUpstreamServer upstreams passTo call.loc call.outcome
  let entry := call.group.bind (nextServer upstreams)
  let pick := call.group.bind fun group =>
    entry.map fun entry => { group := group, entry := entry, address := address }
  .ok (after, pick.toList)

/-- A pick of such an entry from the group. -/
def Pick.isOf (pick : Pick) (group : Nat) (p : Upstream → Bool) : Bool :=
  pick.group == group && p pick.entry

/-- The calls of all workers return; of the calls on a group, such entries get their share, and
the error is less than one round of the group's list for each worker. -/
def SharesKept (passTo : Nat → Option SockAddr) (upstreams : List Upstreams) (workers : Nat)
    (calls : List (Fin workers × UpstreamCall)) : Prop :=
  ∃ final picks, runClones (pickCall passTo) (fun _ => upstreams) calls = .ok (final, picks) ∧
    ∀ group up, upstreams[group]? = some up → up.servers ≠ [] → ∀ p : Upstream → Bool,
      let picked := picks.countP fun q => q.2.isOf group p
      let called := callsOn group (calls.map Prod.snd)
      let error := workers * ((up.servers.length - 1) * up.servers.countP p)
      up.servers.length * picked ≤ called * up.servers.countP p + error ∧
        called * up.servers.countP p ≤ up.servers.length * picked + error

section Workers

variable {passTo : Nat → Option SockAddr} {start upstreams : List Upstreams} {workers : Nat}
variable {calls : List (Fin workers × UpstreamCall)}

/-- A worker alone makes its calls one after the other. -/
theorem runOut_pickCall {calls : List UpstreamCall} {picks : List Pick} {final : List Upstreams}
    (ran : runCalls passTo upstreams calls = .ok (picks, final)) :
    runOut (pickCall passTo) upstreams calls = .ok (final, picks) := by
  induction calls generalizing upstreams picks with
  | nil =>
      obtain ⟨rfl, rfl⟩ := Prod.mk.inj (Except.ok.inj ran)
      rfl
  | cons call rest ih =>
      rw [runCalls] at ran
      rcases bind_eq_ok_iff.mp ran with ⟨⟨fd, address, after⟩, called, ran⟩
      rcases bind_eq_ok_iff.mp ran with ⟨⟨more, last⟩, later, ends⟩
      obtain ⟨rfl, rfl⟩ := Prod.mk.inj (Except.ok.inj ends)
      apply runOut_cons_eq_ok_iff.mpr
      refine ⟨after, _, more, ?_, ih later, rfl⟩
      rw [pickCall, called]
      rfl

theorem countP_isOf (group : Nat) (p : Upstream → Bool) (picks : List Pick) :
    picks.countP (·.isOf group p) = (entriesOf group picks).countP p := by
  induction picks with
  | nil => rfl
  | cons pick rest ih =>
      rw [List.countP_cons, ih]
      by_cases same : pick.group = group
      · simp [Pick.isOf, same, entriesOf, List.countP_cons]
      · simp [Pick.isOf, same, entriesOf]

/-- Calls on usable groups that are alive keep the shares. -/
theorem sharesKept_of_alive (fresh : ∀ up ∈ start, up.currentServer = up.servers)
    (usable : ∀ c ∈ calls, OnUsable start passTo c.2) (alive : ∀ c ∈ calls, OnAlive start c.2) :
    SharesKept passTo start workers calls := by
  have each (i : Fin workers) : ∃ picks final,
      runOut (pickCall passTo) start (ofClone i calls) = .ok (final, picks) ∧
      ∀ group up, start[group]? = some up →
        entriesOf group picks = turns up.servers (callsOn group (ofClone i calls)) := by
    have own : ∀ call ∈ ofClone i calls, (i, call) ∈ calls := fun _ => mem_ofClone.mp
    rcases @runCalls_turned passTo start (fun _ => 0) (ofClone i calls)
      (fun call member => usable _ (own call member))
      (fun call member => alive _ (own call member)) with ⟨picks, ran, _, seen⟩
    rw [turned_zero fresh] at ran
    refine ⟨picks, _, runOut_pickCall ran, ?_⟩
    intro group up here
    have seen := seen group up here
    rw [Nat.zero_add] at seen
    exact seen.symm
  choose picks final ran seen using each
  rcases runClones_eq_ok ran with ⟨all, together, apart⟩
  refine ⟨final, all, together, ?_⟩
  intro group up here some_ p
  have picked : all.countP (fun q => q.2.isOf group p) =
      ∑ i, (turns up.servers (callsOn group (ofClone i calls))).countP p := by
    rw [← sum_countP_ofClone (·.isOf group p) all]
    apply Finset.sum_congr rfl
    intro i _
    rw [apart i, countP_isOf, seen i group up here]
  have called : callsOn group (calls.map Prod.snd) =
      ∑ i, callsOn group (ofClone i calls) := by
    rw [callsOn, List.countP_map]
    exact (sum_countP_ofClone (fun call : UpstreamCall => call.group == some group) calls).symm
  have error : workers * ((up.servers.length - 1) * up.servers.countP p) =
      ∑ _ : Fin workers, (up.servers.length - 1) * up.servers.countP p := by
    rw [Finset.sum_const, Finset.card_univ, Fintype.card_fin]
    rfl
  simp only [picked, called, error]
  rw [Finset.mul_sum, Finset.sum_mul, ← Finset.sum_add_distrib, ← Finset.sum_add_distrib]
  constructor
  · exact Finset.sum_le_sum fun i _ => countP_turns_le some_ p _
  · exact Finset.sum_le_sum fun i _ => le_countP_turns some_ p _

end Workers

/-! ## Behind the parser -/

/-- The calls of all workers return; of the calls on the group of a block, an address gets the
share by weight that the entries of this block and of the blocks before it give it, and the error
is less than one round of the group's list for each worker. -/
def SharesByWeight (passTo : Nat → Option SockAddr) (upstreams : List Upstreams)
    (blocks : List UpstreamBlock) (workers : Nat) (calls : List (Fin workers × UpstreamCall)) :
    Prop :=
  ∃ final picks, runClones (pickCall passTo) (fun _ => upstreams) calls = .ok (final, picks) ∧
    ∀ group < blocks.length, ∀ address : Bytes × Int32,
      let entries := (blocks.take (group + 1)).flatMap UpstreamBlock.entries
      let total := totalWeight entries
      let weight := weightOf entries address
      let picked := picks.countP fun q => q.2.isOf group fun node => node.hostPort = address
      let called := callsOn group (calls.map Prod.snd)
      let error := workers * ((total - 1) * weight)
      total * picked ≤ called * weight + error ∧ called * weight ≤ total * picked + error

/-- The nodes of a recorded group, counted by weight. -/
theorem weights_of_chain (blocks : List UpstreamBlock) (address : Bytes × Int32) :
    (chainAfter [] blocks).length = totalWeight (blocks.flatMap UpstreamBlock.entries) ∧
      ((chainAfter [] blocks).countP fun node => node.hostPort = address) =
        weightOf (blocks.flatMap UpstreamBlock.entries) address := by
  have nodes := map_chainAfter [] blocks
  rw [List.map_nil, List.append_nil] at nodes
  constructor
  · have lengths := congrArg List.length nodes
    rwa [List.length_map, List.length_reverse, length_made] at lengths
  · rw [← count_made, ← List.count_reverse, ← nodes, List.count, List.countP_map]
    refine List.countP_congr fun node _ => ?_
    simp

/-- In the workers of a parsed configuration, calls on groups that no server block frees keep
the shares by weight. -/
theorem shares_of_parse {gethostbyname : Resolver} {t : ParseState} {file : ConfigFile}
    {workers : Nat} {calls : List (Fin workers × UpstreamCall)}
    (parsed : file.parse gethostbyname = .ok t)
    (usable : ∀ c ∈ calls, OnUsable t.upstreams t.passTo c.2)
    (kept : ∀ c ∈ calls, ∀ group, c.2.group = some group → group ∉ freedIn [] file.directives) :
    SharesByWeight t.passTo t.upstreams file.blocks workers calls := by
  have shares : SharesKept t.passTo t.upstreams workers calls := by
    apply sharesKept_of_alive _ usable
    · intro c member group up is here
      exact (group_of_parse parsed here).2.mpr (kept c member group is)
    · intro up member
      rcases List.getElem?_of_mem member with ⟨group, here⟩
      exact (group_of_parse parsed here).1
  rcases shares with ⟨final, picks, ran, each⟩
  refine ⟨final, picks, ran, fun group inside address => ?_⟩
  have here : ∃ up, t.upstreams[group]? = some up ∧
      up.servers = chainAfter [] (file.blocks.take (group + 1)) := by
    rw [parse_groups parsed, markFreed, List.getElem?_mapIdx, getElem?_declared,
      List.getElem?_eq_getElem inside]
    refine ⟨_, rfl, ?_⟩
    split <;> rfl
  rcases here with ⟨up, here, servers⟩
  rcases weights_of_chain (file.blocks.take (group + 1)) address with ⟨total, weight⟩
  rw [← servers] at total weight
  by_cases empty : up.servers = []
  · have none : weightOf ((file.blocks.take (group + 1)).flatMap UpstreamBlock.entries) address =
        0 := by
      rw [← weight, empty]
      rfl
    simp [← total, none, empty]
  · have share := each group up here empty fun node => node.hostPort = address
    rw [total, weight] at share
    exact share

/-- Two workers, and calls on both groups. -/
theorem shares_of_groupEach :
    ∃ t first second, groupEach.parse (fun _ => some 2130706433) = .ok t ∧
      t.serverList.map (·.locations) = [[first], [second], [defaultLocation]] ∧
      SharesByWeight t.passTo t.upstreams groupEach.blocks 2
        [(0, ⟨first, .connected 5⟩), (1, ⟨first, .noSocket⟩), (0, ⟨second, .refused 5⟩),
          (0, ⟨first, .refused 5⟩)] := by
  refine ⟨_, _, _, rfl, rfl, ?_⟩
  apply @shares_of_parse (fun _ => some 2130706433) _ groupEach 2 _ rfl
  · simp only [List.forall_mem_cons, List.not_mem_nil, false_imp_iff, implies_true, and_true]
    exact ⟨⟨0, _, rfl, rfl, by decide, by decide⟩, ⟨0, _, rfl, rfl, by decide, by decide⟩,
      ⟨1, _, rfl, rfl, by decide, by decide⟩, ⟨0, _, rfl, rfl, by decide, by decide⟩⟩
  · decide

end OgWebserver.Request

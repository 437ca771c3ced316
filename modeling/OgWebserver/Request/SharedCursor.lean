import OgWebserver.Request.RoundRobin
import OgWebserver.Transition.Team

/-!
# The cursor of a group, in several threads

The threads of a TLS server share the upstream groups.  `getUpstreamServer` reads the cursor of
a group four times, and writes it once or twice, without a lock.  Each of these accesses is a
step here, and what another thread does may come in between.
-/

namespace OgWebserver.Request

open Text Config Transition

/-- Where a call of `getUpstreamServer` for a group is. -/
inductive CursorPlace
  | sinFamily
  | sinPort (sinFamily : Nat)
  | sinAddr (sinFamily : Nat) (sinPort : UInt16)
  /-- It reads `up->currentServer->next`. -/
  | reads (server : SockAddr)
  | writes (server : SockAddr) (next : List Upstream)
  | tests (server : SockAddr)
  | wraps (server : SockAddr)
  | done (server : SockAddr)
  deriving DecidableEq

/-- `up->currentServer->passTo`. -/
def passToCurrent (passTo : Nat → Option SockAddr) : List Upstream → Except Fault SockAddr
  | [] => .error .nullPointer
  | current :: _ =>
      match passTo current.node with
      | none => .error .nullPointer
      | some address => .ok address

namespace CursorPlace

def step (servers : List Upstream) (passTo : Nat → Option SockAddr) (place : CursorPlace)
    (cursor : List Upstream) : Except Fault (CursorPlace × List Upstream × List SockAddr) :=
  match place with
  | sinFamily => do
      let address ← passToCurrent passTo cursor
      .ok (sinPort address.sinFamily, cursor, [])
  | sinPort family => do
      let address ← passToCurrent passTo cursor
      .ok (sinAddr family address.sinPort, cursor, [])
  | sinAddr family port => do
      let address ← passToCurrent passTo cursor
      .ok (reads { sinFamily := family, sinPort := port, sinAddr := address.sinAddr }, cursor, [])
  | reads server =>
      match cursor with
      | [] => .error .nullPointer
      | _ :: next => .ok (writes server next, cursor, [])
  | writes server next => .ok (tests server, next, [])
  | tests server =>
      if cursor = [] then .ok (wraps server, cursor, []) else .ok (done server, cursor, [server])
  | wraps server => .ok (done server, servers, [server])
  | done server => .ok (done server, cursor, [])

def isDone : CursorPlace → Bool
  | done _ => true
  | _ => false

end CursorPlace

/-- A call for a group with these servers; it puts out the address it goes on with. -/
def cursorCall (servers : List Upstream) (passTo : Nat → Option SockAddr) :
    Program CursorPlace (List Upstream) SockAddr Fault where
  step := CursorPlace.step servers passTo
  done place := place.isDone = true
  stops := by
    intro place cursor done
    cases place with
    | done server => rfl
    | _ => cases done

/-- A thread may make the call while fewer than so many are in theirs. -/
def admitsCall (limit : Nat) (team : Team CursorPlace (List Upstream)) (place : CursorPlace) :
    Bool :=
  place == .sinFamily && decide (team.threads.countP (!·.isDone) < limit)

/-- The threads of a server that use a group, so many at a time at most. -/
def cursorCalls (servers : List Upstream) (passTo : Nat → Option SockAddr) (limit : Nat) :
    System (Team CursorPlace (List Upstream)) (TeamLabel CursorPlace) :=
  (cursorCall servers passTo).team (admitsCall limit) servers

/-- No thread is about to follow a null pointer, and those that have returned have the address
of a server of the group. -/
def CursorSound (servers : List Upstream) (passTo : Nat → Option SockAddr)
    (team : Team CursorPlace (List Upstream)) : Prop :=
  team.Safe (cursorCall servers passTo) ∧
    ∀ address, .done address ∈ team.threads →
      ∃ entry ∈ servers, passTo entry.node = some address

section Calls

variable {servers rest cursor : List Upstream} {passTo : Nat → Option SockAddr}
variable {current : Upstream} {address : SockAddr} {place : CursorPlace} {limit : Nat}
variable {team : Team CursorPlace (List Upstream)}

/-! ## A call alone -/

/-- Up to the test, a call alone takes the address of the current server. -/
theorem cursorCall_to_tests (known : passTo current.node = some address) :
    Steps (cursorCall servers passTo) .sinFamily (current :: rest) [] (.tests address) rest := by
  have take : passToCurrent passTo (current :: rest) = .ok address := by
    simp [passToCurrent, known]
  have family : (cursorCall servers passTo).step .sinFamily (current :: rest) =
      .ok (.sinPort address.sinFamily, current :: rest, []) := by
    simp only [cursorCall, CursorPlace.step, take]
    rfl
  have port : (cursorCall servers passTo).step (.sinPort address.sinFamily) (current :: rest) =
      .ok (.sinAddr address.sinFamily address.sinPort, current :: rest, []) := by
    simp only [cursorCall, CursorPlace.step, take]
    rfl
  have addr : (cursorCall servers passTo).step (.sinAddr address.sinFamily address.sinPort)
      (current :: rest) = .ok (.reads address, current :: rest, []) := by
    simp only [cursorCall, CursorPlace.step, take]
    rfl
  have moves : Steps (cursorCall servers passTo) (.reads address) (current :: rest) []
      (.tests address) rest :=
    .silent rfl (.silent rfl .refl)
  exact .silent family (.silent port (.silent addr moves))

/-- A call alone goes on with the current server, and moves the cursor by one. -/
theorem cursorCall_alone (known : passTo current.node = some address) :
    Steps (cursorCall servers passTo) .sinFamily (current :: rest) [address] (.done address)
      (wrap servers (current :: rest)) := by
  apply (cursorCall_to_tests known).trans
  cases rest with
  | nil => exact Steps.silent rfl (.single rfl)
  | cons next more => exact .single rfl

/-- So does the code in one piece. -/
theorem chooseUpstream_eq_alone {upstreams : List Upstreams} {loc : Location} {group : Nat}
    {up : Upstreams} (onGroup : addressSource loc = .group (some group))
    (here : upstreams[group]? = some up) (alive : up.freed = false)
    (at_ : up.currentServer = current :: rest) (known : passTo current.node = some address) :
    chooseUpstream upstreams passTo loc =
      .ok (some (address, upstreams.set group { up with
        currentServer := wrap up.servers (current :: rest) })) := by
  simp [chooseUpstream, onGroup, here, alive, at_, known, advance_eq]

/-! ## One call at a time -/

/-- Between the calls, the cursor is at a server. -/
def AtServer (servers cursor : List Upstream) : Prop :=
  cursor ≠ [] ∧ cursor <:+ servers

theorem AtServer.alone (at_ : AtServer servers cursor)
    (resolved : ∀ entry ∈ servers, (passTo entry.node).isSome) :
    ∃ entry ∈ servers, ∃ address, passTo entry.node = some address ∧
      Steps (cursorCall servers passTo) .sinFamily cursor [address] (.done address)
        (wrap servers cursor) ∧
      AtServer servers (wrap servers cursor) := by
  rcases at_ with ⟨some_, suffix⟩
  rcases List.exists_cons_of_ne_nil some_ with ⟨current, rest, rfl⟩
  have member : current ∈ servers := suffix.subset List.mem_cons_self
  rcases Option.isSome_iff_exists.mp (resolved current member) with ⟨address, known⟩
  refine ⟨current, member, address, known, cursorCall_alone known, ?_⟩
  cases rest with
  | nil => exact ⟨List.ne_nil_of_mem member, List.suffix_rfl⟩
  | cons next more => exact ⟨List.cons_ne_nil next more, (List.suffix_cons _ _).trans suffix⟩

/-- With one call at a time, no call goes wrong. -/
theorem cursorSound_of_limit (resolved : ∀ entry ∈ servers, (passTo entry.node).isSome)
    (some_ : servers ≠ []) (alone : limit ≤ 1)
    (run : (cursorCalls servers passTo limit).Reachable team) :
    CursorSound servers passTo team := by
  have one : team.OneAtATime (cursorCall servers passTo) (· = .sinFamily) (AtServer servers) := by
    apply Team.oneAtATime ⟨some_, List.suffix_rfl⟩ _ _ run
    · intro team place admitted
      rw [admitsCall, Bool.and_eq_true, beq_iff_eq, decide_eq_true_iff] at admitted
      refine ⟨admitted.1, ?_⟩
      intro other member
      have none_ : team.threads.countP (!·.isDone) = 0 := by omega
      have done := List.countP_eq_zero.mp none_ other member
      rwa [Bool.not_eq_true', Bool.not_eq_false] at done
    · rintro place cursor ⟨_, start, out, rfl, at_, steps⟩ done
      rcases at_.alone resolved with ⟨_, _, address, _, whole, next⟩
      obtain ⟨_, rfl⟩ := steps.done_unique done whole rfl
      exact next
  constructor
  · apply one.safe
    rintro place cursor ⟨_, start, out, rfl, at_, steps⟩ fault failed
    rcases at_.alone resolved with ⟨_, _, address, _, whole, _⟩
    exact Gives.not_fails ⟨_, _, whole, rfl⟩ ⟨out, place, cursor, fault, steps, failed⟩
  · intro address member
    rcases one.came _ member with ⟨cursor, ⟨_, start, out, rfl, at_, steps⟩, _⟩
    rcases at_.alone resolved with ⟨entry, inside, address', known, whole, _⟩
    have same := steps.end_unique rfl whole rfl
    obtain rfl := CursorPlace.done.inj same
    exact ⟨entry, inside, known⟩

/-! ## Two calls at a time -/

/-- Calls one after the other take the cursor to any server. -/
theorem reached_cursor (resolved : ∀ entry ∈ servers, (passTo entry.node).isSome)
    (some_ : 1 ≤ limit) {n : Nat} (inside : n < servers.length) :
    ∃ threads, threads.countP (!·.isDone) = 0 ∧ (cursorCalls servers passTo limit).Reachable
      { threads := threads, shared := servers.drop n } := by
  induction n with
  | zero => exact ⟨[], rfl, .start rfl⟩
  | succ n ih =>
      rcases ih (Nat.lt_of_succ_lt inside) with ⟨threads, done, reached⟩
      have at_ : AtServer servers (servers.drop n) :=
        ⟨by simpa using Nat.lt_of_succ_lt inside, List.drop_suffix n servers⟩
      rcases at_.alone resolved with ⟨_, _, address, _, whole, _⟩
      have admitted : admitsCall limit { threads := threads, shared := servers.drop n }
          .sinFamily = true := by
        have free : 0 < limit := some_
        simpa [admitsCall, done] using free
      have ran := Team.reached_last whole (Team.reached_joins admitted reached)
      refine ⟨threads ++ [.done address], ?_, ?_⟩
      · rw [List.countP_append, done]
        rfl
      · have next := wrap_drop (List.ne_nil_of_length_pos (Nat.zero_lt_of_lt inside)) n
        rw [Nat.mod_eq_of_lt (Nat.lt_of_succ_lt inside), Nat.mod_eq_of_lt inside] at next
        rwa [next] at ran

/-- With two calls at a time, one may follow the null pointer that the other has written. -/
theorem not_safe_of_limit (resolved : ∀ entry ∈ servers, (passTo entry.node).isSome)
    (some_ : servers ≠ []) (several : 2 ≤ limit) :
    ∃ team, (cursorCalls servers passTo limit).Reachable team ∧
      ¬ team.Safe (cursorCall servers passTo) := by
  have positive : 0 < servers.length := List.length_pos_iff.mpr some_
  have last : servers.length - 1 < servers.length := Nat.sub_lt positive Nat.one_pos
  rcases @reached_cursor servers passTo limit resolved (Nat.le_of_succ_le several) _ last with
    ⟨threads, done, reached⟩
  have one : servers.drop (servers.length - 1) = [servers[servers.length - 1]] := by
    rw [List.drop_eq_getElem_cons last, Nat.sub_add_cancel positive, List.drop_length]
  rw [one] at reached
  rcases Option.isSome_iff_exists.mp (resolved _ (List.getElem_mem last)) with ⟨address, known⟩
  have first : admitsCall limit
      { threads := threads, shared := [servers[servers.length - 1]] } .sinFamily = true := by
    have free : 0 < limit := Nat.lt_of_succ_lt several
    simpa [admitsCall, done] using free
  have moved := Team.reached_last (cursorCall_to_tests known) (Team.reached_joins first reached)
  have second : admitsCall limit
      { threads := threads ++ [.tests address], shared := [] } .sinFamily = true := by
    have busy : (threads ++ [CursorPlace.tests address]).countP (!·.isDone) = 1 := by
      rw [List.countP_append, done]
      rfl
    have free : 1 < limit := several
    simpa [admitsCall, busy] using free
  refine ⟨_, Team.reached_joins second moved, ?_⟩
  intro safe
  apply safe .sinFamily (List.mem_append_right _ List.mem_cons_self) .nullPointer
  rfl

end Calls

/-- However the threads interleave, no call goes wrong, if and only if they make their calls
one at a time, which nothing sees to. -/
theorem cursorSound_iff {servers : List Upstream} {passTo : Nat → Option SockAddr}
    (some_ : servers ≠ []) (resolved : ∀ entry ∈ servers, (passTo entry.node).isSome)
    (limit : Nat) :
    (∀ team, (cursorCalls servers passTo limit).Reachable team →
      CursorSound servers passTo team) ↔ limit ≤ 1 := by
  constructor
  · intro all
    by_contra several
    rcases not_safe_of_limit resolved some_ (Nat.lt_of_not_le several) with ⟨team, reached, faults⟩
    exact faults (all team reached).1
  · exact fun alone team => cursorSound_of_limit resolved some_ alone

/-- Even with a single server. -/
theorem cursorSound_single :
    ¬ ∀ team, (cursorCalls [{ node := 0, host := bytes "10.0.0.1", port := 80, weight := 1 }]
        (fun _ => some { sinFamily := afInet, sinPort := 80, sinAddr := 0 }) 2).Reachable team →
      CursorSound [{ node := 0, host := bytes "10.0.0.1", port := 80, weight := 1 }]
        (fun _ => some { sinFamily := afInet, sinPort := 80, sinAddr := 0 }) team := by
  intro all
  have one := (cursorSound_iff (List.cons_ne_nil _ _) (fun _ _ => rfl) 2).mp all
  exact absurd one (by decide)

end OgWebserver.Request

import OgWebserver.Text.Bytes

/-!
# Longest match

A scanner that takes the longest beginning of its input that some rule accepts, and
goes on behind it.  Rules may look at more than they take.  A token is kept with the
place where it starts, so that two scans give the same tokens only if they find them
in the same text.  When is the scan of two texts in a row the scan of one and then of
the other?
-/

namespace OgWebserver.Text

/-- A token: its kind, its text, and its place, if it has one. -/
structure Token (κ : Type) where
  kind : κ
  text : Bytes
  place : Option Nat
  deriving DecidableEq

/-- A set of rules: the kind of token that a text is, and how many of its bytes the token
takes; and the kinds that are not handed out. -/
structure Scanner (κ : Type) where
  accepts : Bytes → Option (κ × Nat)
  skips : κ → Bool
  /-- Every byte is something. -/
  total : ∀ b, (accepts [b]).isSome
  bounded : ∀ {text kind n}, accepts text = some (kind, n) → 0 < n ∧ n ≤ text.length
  /-- Of what is skipped, no text begins another one. -/
  skipped : ∀ {text text' r r'}, text <+: text' → accepts text = some r → accepts text' = some r' →
    skips r.1 = true → skips r'.1 = true → r = r'

namespace Scanner

variable {κ : Type} (sc : Scanner κ)

/-- The longest match of at most the given length. -/
def munchUpTo (text : Bytes) : Nat → Option (κ × Nat)
  | 0 => none
  | n + 1 =>
      match sc.accepts (text.take (n + 1)) with
      | some r => some r
      | none => munchUpTo text n

/-- The longest match. -/
def munch (text : Bytes) : Option (κ × Nat) :=
  sc.munchUpTo text text.length

/-- Scan a text that starts at the given place, for a number of rounds. -/
def scanFor : Nat → Nat → Bytes → List (Token κ)
  | 0, _, _ => []
  | rounds + 1, place, text =>
      match sc.munch text with
      | none => []
      | some (kind, n) =>
          if sc.skips kind then scanFor rounds (place + n) (text.drop n)
          else ⟨kind, text.take n, some place⟩ :: scanFor rounds (place + n) (text.drop n)

/-- The tokens of a text that starts at the given place. -/
def scan (place : Nat) (text : Bytes) : List (Token κ) :=
  sc.scanFor text.length place text

/-- Nothing that the scan of the first text takes could be longer with the second text
behind it. -/
inductive Separate : Bytes → Bytes → Prop
  | nil {second} : Separate [] second
  | step {first second : Bytes} {kind : κ} {n : Nat} (alone : sc.munch first = some (kind, n))
      (same : sc.munch (first ++ second) = some (kind, n))
      (rest : Separate (first.drop n) second) : Separate first second

variable {sc} {text first second : Bytes} {kind : κ} {n place : Nat}

/-! ## One match -/

theorem munchUpTo_eq_some {limit : Nat} (found : sc.munchUpTo text limit = some (kind, n)) :
    ∃ front, front <+: text ∧ sc.accepts front = some (kind, n) := by
  induction limit with
  | zero => cases found
  | succ limit ih =>
      rw [munchUpTo] at found
      split at found
      case h_1 r accepted =>
        exact ⟨_, List.take_prefix _ _, accepted.trans found⟩
      · exact ih found

theorem munch_eq_some (found : sc.munch text = some (kind, n)) :
    (∃ front, front <+: text ∧ sc.accepts front = some (kind, n)) ∧ 0 < n ∧ n ≤ text.length := by
  rcases munchUpTo_eq_some found with ⟨front, begins, accepted⟩
  have bounds := sc.bounded accepted
  have le := begins.length_le
  exact ⟨⟨front, begins, accepted⟩, bounds.1, by omega⟩

theorem munchUpTo_isSome {limit : Nat} (nonempty : text ≠ []) (positive : 0 < limit) :
    (sc.munchUpTo text limit).isSome := by
  induction limit with
  | zero => omega
  | succ limit ih =>
      rw [munchUpTo]
      split
      · rfl
      case h_2 none =>
        rcases limit with _ | limit
        · rcases List.exists_cons_of_ne_nil nonempty with ⟨b, rest, rfl⟩
          have one := sc.total b
          rw [List.take_succ_cons, List.take_zero] at none
          rw [none] at one
          cases one
        · exact ih (by omega)

theorem munch_of_ne_nil (nonempty : text ≠ []) : ∃ kind n, sc.munch text = some (kind, n) := by
  have found := @munchUpTo_isSome κ sc _ _ nonempty (List.length_pos_iff.mpr nonempty)
  rcases Option.isSome_iff_exists.mp found with ⟨⟨kind, n⟩, is⟩
  exact ⟨kind, n, is⟩

theorem longest_of_munchUpTo {limit : Nat} {r : κ × Nat} {other : Bytes}
    (found : sc.munchUpTo text limit = some r) (begins : other <+: text)
    (le : other.length ≤ limit) (accepted : (sc.accepts other).isSome) :
    ∃ front, other <+: front ∧ front <+: text ∧ sc.accepts front = some r := by
  induction limit with
  | zero => cases found
  | succ limit ih =>
      rw [munchUpTo] at found
      split at found
      case h_1 r' accepted' =>
        refine ⟨text.take (limit + 1), ?_, List.take_prefix _ _, accepted'.trans found⟩
        apply List.prefix_of_prefix_length_le begins (List.take_prefix _ _)
        rw [List.length_take]
        exact Nat.le_min.mpr ⟨le, begins.length_le⟩
      case h_2 none =>
        rcases Nat.le_or_eq_of_le_succ le with less | size
        · exact ih found less
        · rw [Nat.succ_eq_add_one] at size
          rw [← size, ← List.prefix_iff_eq_take.mp begins] at none
          rw [none] at accepted
          cases accepted

/-- The match goes on at least as far as any other one. -/
theorem longest_of_munch {r : κ × Nat} {other : Bytes} (found : sc.munch text = some r)
    (begins : other <+: text) (accepted : (sc.accepts other).isSome) :
    ∃ front, other <+: front ∧ front <+: text ∧ sc.accepts front = some r :=
  longest_of_munchUpTo found begins begins.length_le accepted

/-- A match is the longest if no longer beginning of the text is accepted. -/
theorem munch_of_longest {front : Bytes} {r : κ × Nat} (begins : front <+: text)
    (nonempty : front ≠ []) (accepted : sc.accepts front = some r)
    (longest : ∀ other, other <+: text → front.length < other.length → sc.accepts other = none) :
    sc.munch text = some r := by
  have upTo : ∀ extra, front.length + extra ≤ text.length →
      sc.munchUpTo text (front.length + extra) = some r := by
    intro extra
    induction extra with
    | zero =>
        intro _
        rcases size : front.length with _ | n
        · exact absurd (List.length_eq_zero_iff.mp size) nonempty
        · have is : text.take (n + 1) = front := by
            rw [← size]
            exact (List.prefix_iff_eq_take.mp begins).symm
          rw [Nat.add_zero, munchUpTo, is, accepted]
    | succ extra ih =>
        intro le
        have none := longest (text.take (front.length + extra + 1)) (List.take_prefix _ _)
          (by rw [List.length_take]; omega)
        rw [← Nat.add_assoc, munchUpTo, none]
        exact ih (by omega)
  have le := begins.length_le
  have all := upTo (text.length - front.length) (by omega)
  rwa [Nat.add_sub_cancel' le] at all

/-- Two matches that are skipped, of a text and of a longer one, are the same. -/
theorem munch_skipped {kind' : κ} {n' : Nat} (alone : sc.munch first = some (kind, n))
    (longer : sc.munch (first ++ second) = some (kind', n')) (skip : sc.skips kind = true)
    (skip' : sc.skips kind' = true) : (kind, n) = (kind', n') := by
  rcases (munch_eq_some alone).1 with ⟨front, begins, accepted⟩
  rcases (munch_eq_some longer).1 with ⟨front', begins', accepted'⟩
  rcases List.prefix_or_prefix_of_prefix (begins.trans (List.prefix_append _ _)) begins' with
    le | ge
  · exact sc.skipped le accepted accepted' skip skip'
  · exact (sc.skipped ge accepted' accepted skip' skip).symm

/-! ## Whole scans -/

/-- Rounds beyond the number of bytes change nothing. -/
theorem scanFor_congr {rounds rounds' : Nat} (enough : text.length ≤ rounds)
    (enough' : text.length ≤ rounds') :
    sc.scanFor rounds place text = sc.scanFor rounds' place text := by
  induction rounds generalizing rounds' place text with
  | zero =>
      rw [List.length_eq_zero_iff.mp (Nat.le_zero.mp enough)]
      cases rounds' <;> rfl
  | succ rounds ih =>
      rcases rounds' with _ | rounds'
      · rw [List.length_eq_zero_iff.mp (Nat.le_zero.mp enough')]
        rfl
      rw [scanFor, scanFor]
      cases found : sc.munch text with
      | none => rfl
      | some r =>
          rcases r with ⟨kind, n⟩
          have bounds := (munch_eq_some found).2
          have shorter := List.length_drop (i := n) (l := text)
          have rest := @ih (text.drop n) (place + n) rounds' (by omega) (by omega)
          simp only [rest]

@[simp]
theorem scan_nil : sc.scan place [] = [] :=
  rfl

/-- The tokens of a text are the first one, unless it is skipped, and those behind it. -/
theorem scan_of_munch (found : sc.munch text = some (kind, n)) :
    sc.scan place text =
      (if sc.skips kind then [] else [⟨kind, text.take n, some place⟩]) ++
        sc.scan (place + n) (text.drop n) := by
  have bounds := (munch_eq_some found).2
  have shorter := List.length_drop (i := n) (l := text)
  rcases positive : text.length with _ | rounds
  · omega
  have rest := @scanFor_congr κ sc (text.drop n) (place + n) rounds (text.drop n).length
    (by omega) (by omega)
  rw [scan, positive, scanFor, found, scan]
  simp only [rest]
  split <;> rfl

theorem scan_cons_of_munch {front rest : Bytes}
    (found : sc.munch (front ++ rest) = some (kind, front.length)) (token : sc.skips kind = false) :
    sc.scan place (front ++ rest) =
      ⟨kind, front, some place⟩ :: sc.scan (place + front.length) rest := by
  rw [scan_of_munch found, token, List.take_left, List.drop_left]
  rfl

/-- Every token of a text has a place in it. -/
theorem place_of_mem_scan {token : Token κ} (member : token ∈ sc.scan place text) :
    ∃ q, token.place = some q ∧ place ≤ q := by
  induction size : text.length using Nat.strong_induction_on generalizing place text with
  | _ size ih =>
      rcases text with _ | ⟨b, more⟩
      · cases member
      rcases @munch_of_ne_nil κ sc _ (List.cons_ne_nil b more) with ⟨kind, n, found⟩
      have bounds := (munch_eq_some found).2
      rw [scan_of_munch found, List.mem_append] at member
      rcases member with here | later
      · split at here
        · cases here
        · obtain rfl := List.mem_singleton.mp here
          exact ⟨place, rfl, Nat.le_refl place⟩
      · have shorter := List.length_drop (i := n) (l := b :: more)
        rcases ih _ (by omega) later rfl with ⟨q, is, le⟩
        exact ⟨q, is, by omega⟩

/-- No token is empty. -/
theorem text_of_mem_scan {token : Token κ} (member : token ∈ sc.scan place text) :
    0 < token.text.length := by
  induction size : text.length using Nat.strong_induction_on generalizing place text with
  | _ size ih =>
      rcases text with _ | ⟨b, more⟩
      · cases member
      rcases @munch_of_ne_nil κ sc _ (List.cons_ne_nil b more) with ⟨kind, n, found⟩
      have bounds := (munch_eq_some found).2
      rw [scan_of_munch found, List.mem_append] at member
      rcases member with here | later
      · split at here
        · cases here
        · obtain rfl := List.mem_singleton.mp here
          rw [List.length_take_of_le bounds.2]
          exact bounds.1
      · have shorter := List.length_drop (i := n) (l := b :: more)
        exact ih _ (by omega) later rfl

/-- Every token is the beginning of a text that was accepted. -/
theorem accepts_of_mem_scan {token : Token κ} (member : token ∈ sc.scan place text) :
    ∃ front, token.text <+: front ∧
      sc.accepts front = some (token.kind, token.text.length) := by
  induction size : text.length using Nat.strong_induction_on generalizing place text with
  | _ size ih =>
      rcases text with _ | ⟨b, more⟩
      · cases member
      rcases @munch_of_ne_nil κ sc _ (List.cons_ne_nil b more) with ⟨kind, n, found⟩
      rcases munch_eq_some found with ⟨⟨front, begins, accepted⟩, bounds⟩
      rw [scan_of_munch found, List.mem_append] at member
      rcases member with here | later
      · split at here
        · cases here
        · obtain rfl := List.mem_singleton.mp here
          have within := sc.bounded accepted
          have length : ((b :: more).take n).length = n := List.length_take_of_le bounds.2
          refine ⟨front, ?_, by rw [length]; exact accepted⟩
          apply List.prefix_of_prefix_length_le (List.take_prefix n _) begins
          rw [length]
          exact within.2
      · have shorter := List.length_drop (i := n) (l := b :: more)
        exact ih _ (by omega) later rfl

/-- The tokens do not depend on where the text starts, but for their places. -/
theorem scan_move {f : Nat → Nat → Option Nat} {start : Nat}
    (moves : ∀ i n, f (place + i) n = some (start + i)) :
    ((sc.scan place text).map fun token =>
        { token with place := token.place.bind fun q => f q token.text.length }) =
      sc.scan start text := by
  induction size : text.length using Nat.strong_induction_on generalizing place start text with
  | _ size ih =>
      rcases text with _ | ⟨b, more⟩
      · rfl
      rcases @munch_of_ne_nil κ sc _ (List.cons_ne_nil b more) with ⟨kind, n, found⟩
      have bounds := (munch_eq_some found).2
      have shorter := List.length_drop (i := n) (l := b :: more)
      have rest := @ih _ (by omega) ((b :: more).drop n) (place + n) (start + n)
        (fun i n => by rw [Nat.add_assoc, moves, Nat.add_assoc]) rfl
      have first : ∀ n, f place n = some start := moves 0
      rw [scan_of_munch found, scan_of_munch found, List.map_append, rest]
      split <;> simp [first]

/-- A text is separate from nothing. -/
theorem separate_nil (text : Bytes) : sc.Separate text [] := by
  induction size : text.length using Nat.strong_induction_on generalizing text with
  | _ size ih =>
      rcases text with _ | ⟨b, more⟩
      · exact .nil
      rcases @munch_of_ne_nil κ sc _ (List.cons_ne_nil b more) with ⟨kind, n, found⟩
      have bounds := (munch_eq_some found).2
      have shorter := List.length_drop (i := n) (l := b :: more)
      apply Separate.step found
      · rw [List.append_nil, found]
      · exact ih _ (by omega) _ rfl

/-- Separate texts are scanned one after the other. -/
theorem Separate.scan_append (separate : sc.Separate first second) (place : Nat) :
    sc.scan place (first ++ second) =
      sc.scan place first ++ sc.scan (place + first.length) second := by
  induction separate generalizing place with
  | nil => rfl
  | @step first second kind n alone same rest ih =>
      have bounds := (munch_eq_some alone).2
      have cut : n - first.length = 0 := by omega
      rw [scan_of_munch alone, scan_of_munch same, List.take_append, List.drop_append, cut,
        List.take_zero, List.append_nil, List.drop_zero, ih, List.length_drop, List.append_assoc]
      congr 3
      omega

/-- A first match that a longer text changes is seen in the tokens. -/
theorem munch_agree {later : List (Token κ)} {kind' : κ} {n' : Nat}
    (behind : ∀ token ∈ later, ∀ q, token.place = some q → place + first.length ≤ q)
    (alone : sc.munch first = some (kind, n))
    (longer : sc.munch (first ++ second) = some (kind', n'))
    (same : sc.scan place (first ++ second) = sc.scan place first ++ later) :
    (kind, n) = (kind', n') := by
  have bounds := (munch_eq_some alone).2
  have bounds' := (munch_eq_some longer).2
  -- no token behind the first match starts at the place of the first
  have notAt : ∀ token ∈ sc.scan (place + n) (first.drop n) ++ later,
      token.place ≠ some place := by
    intro token member at_
    rcases List.mem_append.mp member with member | member
    · rcases place_of_mem_scan member with ⟨q, is, le⟩
      obtain rfl := Option.some.inj (is.symm.trans at_)
      omega
    · have le := behind token member place at_
      omega
  have notAt' : ∀ token ∈ sc.scan (place + n') ((first ++ second).drop n'),
      token.place ≠ some place := by
    intro token member at_
    rcases place_of_mem_scan member with ⟨q, is, le⟩
    obtain rfl := Option.some.inj (is.symm.trans at_)
    omega
  rw [scan_of_munch alone, scan_of_munch longer, List.append_assoc] at same
  cases skip : sc.skips kind with
  | true =>
      cases skip' : sc.skips kind' with
      | true => exact munch_skipped alone longer skip skip'
      | false =>
          rw [skip, skip', if_pos rfl, if_neg (by simp), List.nil_append, List.singleton_append]
            at same
          exact absurd rfl (notAt _ (same ▸ List.mem_cons_self))
  | false =>
      cases skip' : sc.skips kind' with
      | true =>
          rw [skip, skip', if_pos rfl, if_neg (by simp), List.nil_append, List.singleton_append]
            at same
          exact absurd rfl (notAt' _ (same ▸ List.mem_cons_self))
      | false =>
          rw [skip, skip', if_neg (by simp), if_neg (by simp), List.singleton_append,
            List.singleton_append, List.cons.injEq, Token.mk.injEq] at same
          have lengths := congrArg List.length same.1.2.1
          rw [List.length_take_of_le bounds'.2, List.length_take_of_le bounds.2] at lengths
          rw [same.1.1, lengths]

/-- If the scan of two texts in a row gives the tokens of the first, and then tokens that
are not in it, then the texts are separate, and the rest are the tokens of the second. -/
theorem separate_of_scan {later : List (Token κ)}
    (behind : ∀ token ∈ later, ∀ q, token.place = some q → place + first.length ≤ q)
    (same : sc.scan place (first ++ second) = sc.scan place first ++ later) :
    sc.Separate first second ∧ sc.scan (place + first.length) second = later := by
  induction size : first.length using Nat.strong_induction_on generalizing place first with
  | _ size ih =>
      rcases first with _ | ⟨b, more⟩
      · obtain rfl := size
        exact ⟨.nil, same⟩
      rcases @munch_of_ne_nil κ sc _ (List.cons_ne_nil b more) with ⟨kind, n, alone⟩
      rcases @munch_of_ne_nil κ sc _ (List.append_ne_nil_of_left_ne_nil
        (List.cons_ne_nil b more) second) with ⟨kind', n', longer⟩
      have bounds := (munch_eq_some alone).2
      have agree := munch_agree behind alone longer same
      obtain ⟨rfl, rfl⟩ := Prod.mk.inj agree
      have cut : n - (b :: more).length = 0 := by omega
      have shorter := List.length_drop (i := n) (l := b :: more)
      rw [scan_of_munch alone, scan_of_munch longer, List.take_append, List.drop_append, cut,
        List.take_zero, List.append_nil, List.drop_zero, List.append_assoc] at same
      have rest := List.append_cancel_left same
      have place_ : place + n + ((b :: more).drop n).length = place + (b :: more).length := by omega
      rw [← place_] at behind
      rcases @ih _ (by omega) _ (place + n) behind rest rfl with ⟨separate, tail⟩
      refine ⟨.step alone longer separate, ?_⟩
      rw [← tail, ← size, ← place_]

end Scanner

end OgWebserver.Text

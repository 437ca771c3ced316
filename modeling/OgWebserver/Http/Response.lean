import Mathlib.Data.List.Forall2
import OgWebserver.Text.Bytes
import OgWebserver.Text.Scan

/-!
# Responses on a connection

A response has a status line, fields and a body, whose length one of the fields gives.  A
client reads it from the beginning of what it receives.
-/

namespace OgWebserver.Http

open Text

def lineBreak : Bytes := bytes "\r\n"

def colon : Bytes := bytes ": "

def version : Bytes := bytes "HTTP/1.1 "

structure Head where
  code : Nat
  reason : Bytes
  fields : List (Bytes × Bytes)
  deriving DecidableEq

structure Response where
  head : Head
  body : Bytes
  deriving DecidableEq

/-! ## Writing -/

def statusLine (code : Nat) (reason : Bytes) : Bytes :=
  version ++ (decimal code ++ (32 :: reason))

def fieldLine (field : Bytes × Bytes) : Bytes :=
  field.1 ++ (colon ++ field.2)

def Head.lines (head : Head) : List Bytes :=
  statusLine head.code head.reason :: head.fields.map fieldLine

def joinLines (lines : List Bytes) : Bytes :=
  lines.flatMap (· ++ lineBreak)

/-- The lines, and an empty one. -/
def Head.render (head : Head) : Bytes :=
  joinLines (head.lines ++ [[]])

/-! ## Reading -/

/-- The first line, and what is behind it. -/
def readLine (input : Bytes) : Option (Bytes × Bytes) :=
  (strstr lineBreak input).map fun parts => (parts.1, parts.2.drop lineBreak.length)

def readField (line : Bytes) : Option (Bytes × Bytes) :=
  (strstr colon line).map fun parts => (parts.1, parts.2.drop colon.length)

def readStatus (line : Bytes) : Option (Nat × Bytes) :=
  let after := line.drop version.length
  match after.dropWhile isDigit with
  | 32 :: reason =>
      if version.isPrefixOf line then some (digitsValue 0 (after.takeWhile isDigit), reason)
      else none
  | _ => none

/-- The fields up to the empty line, which is one of the next lines. -/
def readFields : Nat → Bytes → Option (List (Bytes × Bytes) × Bytes)
  | 0, _ => none
  | n + 1, input => do
      let (line, input) ← readLine input
      if line.isEmpty then some ([], input)
      else
        let field ← readField line
        let (fields, input) ← readFields n input
        some (field :: fields, input)

def readLength (value : Bytes) : Option Nat :=
  if !value.isEmpty && value.all isDigit then some (digitsValue 0 value) else none

/-- The number in the field `Content-Length`. -/
def Head.length (head : Head) : Option Nat :=
  (head.fields.lookup (bytes "Content-Length")).bind readLength

def readHead (input : Bytes) : Option (Head × Bytes) := do
  let (line, rest) ← readLine input
  let (code, reason) ← readStatus line
  let (fields, rest) ← readFields input.length rest
  some (⟨code, reason, fields⟩, rest)

/-- A response, and what is behind it; behind some requests no body is expected. -/
def read (withBody : Bool) (input : Bytes) : Option (Response × Bytes) := do
  let (head, rest) ← readHead input
  let length ← head.length
  if withBody then
    if length ≤ rest.length then some (⟨head, rest.take length⟩, rest.drop length) else none
  else some (⟨head, []⟩, rest)

/-! ## Lines -/

/-- A line break does not begin in front of the one behind the line. -/
def Unbroken (line : Bytes) : Prop :=
  ¬ lineBreak <:+: line

theorem unbroken_of_notMem {line : Bytes} (plain : 13 ∉ line) : Unbroken line :=
  fun inside => plain (inside.subset (by decide))

@[simp]
theorem joinLines_cons (line : Bytes) (lines : List Bytes) :
    joinLines (line :: lines) = line ++ (lineBreak ++ joinLines lines) := by
  simp [joinLines]

@[simp]
theorem joinLines_nil : joinLines [] = [] :=
  rfl

section Lines

variable {line rest rest' : Bytes} {needle s front back : Bytes}

/-- The occurrence that `strstr` finds is not behind another one. -/
theorem strstr_le (occurs : s = front ++ back) (here : needle <+: back) :
    ∃ before after, strstr needle s = some (before, after) ∧ before.length ≤ front.length := by
  induction front generalizing s with
  | nil =>
      obtain rfl : s = back := occurs
      refine ⟨[], s, ?_, Nat.le_refl _⟩
      cases s with
      | nil =>
          obtain rfl := List.prefix_nil.mp here
          rfl
      | cons b s => rw [strstr, if_pos (List.isPrefixOf_iff_prefix.mpr here)]
  | cons b front ih =>
      subst occurs
      rw [List.cons_append, strstr]
      by_cases first : needle.isPrefixOf (b :: (front ++ back)) = true
      · exact ⟨[], _, if_pos first, Nat.zero_le _⟩
      · rcases ih rfl with ⟨before, after, found, le⟩
        refine ⟨b :: before, after, ?_, Nat.succ_le_succ le⟩
        rw [if_neg first, found]
        rfl

theorem Unbroken.strstr (unbroken : Unbroken line) :
    strstr lineBreak (line ++ (lineBreak ++ rest)) = some (line, lineBreak ++ rest) := by
  refine strstr_append (fun early late split some here => unbroken ?_) (by decide)
  rcases late with _ | ⟨b, _ | ⟨b', late⟩⟩
  · exact absurd rfl some
  · -- the first byte of the line break, and not the second, could end the line
    rcases here with ⟨after, same⟩
    have second := (List.cons.inj (List.cons.inj same).2).1
    exact absurd second (by decide)
  · have short : lineBreak.length ≤ (b :: b' :: late).length :=
      Nat.succ_le_succ (Nat.succ_le_succ (Nat.zero_le _))
    have inside := List.prefix_of_prefix_length_le here (List.prefix_append _ _) short
    rw [split]
    exact inside.isInfix.trans (List.suffix_append early _).isInfix

theorem unbroken_of_readLine (read : readLine s = some (line, rest)) : Unbroken line := by
  rintro ⟨front, back, inside⟩
  rw [readLine, Option.map_eq_some_iff] at read
  rcases read with ⟨⟨before, after⟩, found, same⟩
  obtain rfl : before = line := (Prod.mk.inj same).1
  have occurs : s = front ++ (lineBreak ++ (back ++ after)) := by
    rw [(strstr_eq_some found).1, ← inside]
    simp only [List.append_assoc]
  rcases strstr_le occurs (List.prefix_append _ _) with ⟨before', after', found', le⟩
  obtain rfl := (Prod.mk.inj (Option.some.inj (found.symm.trans found'))).1
  have longer := congrArg List.length inside
  have positive : 0 < lineBreak.length := by decide
  simp only [List.length_append] at longer
  omega

/-- A line is read if and only if there is no line break in it. -/
theorem readLine_append_iff :
    readLine (line ++ (lineBreak ++ rest)) = some (line, rest') ↔ Unbroken line ∧ rest = rest' := by
  constructor
  · intro read
    have unbroken := unbroken_of_readLine read
    refine ⟨unbroken, ?_⟩
    rw [readLine, unbroken.strstr] at read
    simpa using read
  · rintro ⟨unbroken, rfl⟩
    rw [readLine, unbroken.strstr]
    simp

/-- Where no line break begins, none comes up. -/
theorem unbroken_append_iff (clean : 13 ∉ front) : Unbroken (front ++ line) ↔ Unbroken line := by
  refine not_congr ⟨?_, fun inside => inside.trans (List.suffix_append _ _).isInfix⟩
  induction front with
  | nil => exact id
  | cons b front ih =>
      simp only [List.mem_cons, not_or] at clean
      intro inside
      rcases List.infix_cons_iff.mp inside with here | inside
      · rcases here with ⟨after, same⟩
        exact absurd (List.cons.inj same).1 clean.1
      · exact ih clean.2 inside

end Lines

/-! ## Heads -/

/-- The names of the fields, and the reason, do not disturb the lines. -/
structure Head.Named (head : Head) : Prop where
  reason : Unbroken head.reason
  fields : ∀ field ∈ head.fields, 58 ∉ field.1 ∧ 13 ∉ field.1

/-- The values of the fields do not. -/
def Head.Clean (head : Head) : Prop :=
  ∀ field ∈ head.fields, Unbroken field.2

/-- What a reader expects in front of a body. -/
def Framed (withBody : Bool) (response : Response) : Prop :=
  response.head.Clean ∧
    if withBody then response.head.length = some response.body.length
    else response.head.length.isSome ∧ response.body = []

variable {head : Head} {field : Bytes × Bytes} {fields : List (Bytes × Bytes)}
variable {withBody : Bool} {body sent rest rest' : Bytes} {n : Nat}

theorem readField_fieldLine (named : 58 ∉ field.1) : readField (fieldLine field) = some field := by
  have found : strstr colon (field.1 ++ (colon ++ field.2)) = some (field.1, colon ++ field.2) := by
    refine strstr_append (fun early late split some here => ?_) (by decide)
    rcases late with _ | ⟨b, late⟩
    · exact some rfl
    · rcases here with ⟨after, same⟩
      have first : b ∈ field.1 := by simp [split]
      rw [← (List.cons.inj same).1] at first
      exact named first
  rw [readField, fieldLine, found]
  simp

theorem eq_of_readField {line : Bytes} (read : readField line = some field) :
    line = fieldLine field := by
  rw [readField, Option.map_eq_some_iff] at read
  rcases read with ⟨⟨before, from_⟩, found, rfl⟩
  rcases strstr_eq_some found with ⟨rfl, ⟨after, rfl⟩⟩
  simp [fieldLine]

theorem fieldLine_ne_nil (field : Bytes × Bytes) : fieldLine field ≠ [] := by
  have some : colon ≠ [] := by decide
  simp [fieldLine, some]

theorem unbroken_fieldLine_iff (named : 13 ∉ field.1) :
    Unbroken (fieldLine field) ↔ Unbroken field.2 := by
  have plain : 13 ∉ colon := by decide
  rw [fieldLine, unbroken_append_iff named, unbroken_append_iff plain]

/-- The fields are read back if and only if there are no line breaks in their values. -/
theorem readFields_append_iff (named : ∀ field ∈ fields, 58 ∉ field.1 ∧ 13 ∉ field.1)
    (enough : fields.length < n) :
    readFields n (joinLines (fields.map fieldLine ++ [[]]) ++ rest) =
        some (fields, rest') ↔ (∀ field ∈ fields, Unbroken field.2) ∧ rest = rest' := by
  induction fields generalizing n with
  | nil =>
      rcases n with _ | n
      · exact absurd enough (Nat.lt_irrefl 0)
      · have last : readLine (lineBreak ++ rest) = some ([], rest) :=
          (@readLine_append_iff [] rest rest).mpr ⟨unbroken_of_notMem List.not_mem_nil, rfl⟩
        simp [readFields, last]
  | cons field fields ih =>
      rcases List.forall_mem_cons.mp named with ⟨⟨noColon, noReturn⟩, others⟩
      rcases n with _ | n
      · exact absurd enough (Nat.not_lt_zero _)
      · have more := @ih n others (Nat.lt_of_succ_lt_succ enough)
        have shape : joinLines ((field :: fields).map fieldLine ++ [[]]) ++ rest =
            fieldLine field ++ (lineBreak ++
              (joinLines (fields.map fieldLine ++ [[]]) ++ rest)) := by
          simp
        rw [shape, List.forall_mem_cons, ← unbroken_fieldLine_iff noReturn, and_assoc, ← more,
          readFields]
        constructor
        · intro read
          rcases Option.bind_eq_some_iff.mp read with ⟨⟨line, input⟩, first, read⟩
          have some_ : line.isEmpty = false := by
            cases empty : line.isEmpty with
            | false => rfl
            | true => simp [empty] at read
          simp only [some_, Bool.false_eq_true, if_false] at read
          rcases Option.bind_eq_some_iff.mp read with ⟨one, own, read⟩
          rcases Option.bind_eq_some_iff.mp read with ⟨⟨rest₁, after⟩, inner, same⟩
          have all := Prod.mk.inj (Option.some.inj same)
          rcases List.cons.inj all.1 with ⟨rfl, rfl⟩
          obtain rfl := all.2
          rw [eq_of_readField own] at first
          rcases readLine_append_iff.mp first with ⟨unbroken, rfl⟩
          exact ⟨unbroken, inner⟩
        · rintro ⟨unbroken, inner⟩
          have first := (@readLine_append_iff _ (joinLines (fields.map fieldLine ++ [[]]) ++
            rest) _).mpr ⟨unbroken, rfl⟩
          have some_ : (fieldLine field).isEmpty = false := by
            simpa using fieldLine_ne_nil field
          rw [first]
          simp only [bind, Option.bind, some_, readField_fieldLine noColon, inner,
            Bool.false_eq_true, if_false]

theorem readStatus_statusLine (code : Nat) (reason : Bytes) :
    readStatus (statusLine code reason) = some (code, reason) := by
  have digits := @isDigit_of_mem_decimal code
  have here : version.isPrefixOf (version ++ (decimal code ++ 32 :: reason)) = true :=
    List.isPrefixOf_iff_prefix.mpr (List.prefix_append _ _)
  have stop : isDigit 32 = false := by decide
  rw [readStatus, statusLine, List.drop_left, List.dropWhile_append_of_pos digits,
    List.takeWhile_append_of_pos digits]
  simp [stop, here, digitsValue_decimal]

theorem readLength_decimal (n : Nat) : readLength (decimal n) = some n := by
  rcases decimal_cons n with ⟨b, rest, is, _⟩
  have digits : (decimal n).all isDigit = true := List.all_eq_true.mpr isDigit_of_mem_decimal
  have some_ : (decimal n).isEmpty = false := by
    rw [is]
    rfl
  rw [readLength, digitsValue_decimal, digits, some_]
  rfl

/-- There are fewer lines than bytes. -/
theorem length_le_joinLines (lines : List Bytes) : lines.length ≤ (joinLines lines).length := by
  have positive : 0 < lineBreak.length := by decide
  induction lines with
  | nil => exact Nat.le_refl _
  | cons line lines ih =>
      simp only [joinLines_cons, List.length_append, List.length_cons]
      omega

/-- A head is read back if and only if there are no line breaks in its values. -/
theorem readHead_append_iff (named : head.Named) :
    readHead (head.render ++ rest) = some (head, rest') ↔ head.Clean ∧ rest = rest' := by
  have plain : 13 ∉ version ++ decimal head.code ++ [32] := by
    have digits : 13 ∉ decimal head.code := fun member =>
      absurd (isDigit_of_mem_decimal 13 member) (by decide)
    have front : 13 ∉ version := by decide
    simp [front, digits]
  have line : Unbroken (statusLine head.code head.reason) := by
    have split : statusLine head.code head.reason =
        version ++ decimal head.code ++ [32] ++ head.reason := by
      simp [statusLine]
    rw [split, unbroken_append_iff plain]
    exact named.reason
  have shape : head.render ++ rest = statusLine head.code head.reason ++ (lineBreak ++
      (joinLines (head.fields.map fieldLine ++ [[]]) ++ rest)) := by
    simp [Head.render, Head.lines]
  have enough : head.fields.length < (head.render ++ rest).length := by
    have lines := length_le_joinLines (head.fields.map fieldLine ++ [[]])
    rw [shape]
    simp only [List.length_append, List.length_map, List.length_singleton] at lines ⊢
    omega
  have fields := @readFields_append_iff head.fields rest rest' _ named.fields enough
  have first := (@readLine_append_iff _ (joinLines (head.fields.map fieldLine ++ [[]]) ++
    rest) _).mpr ⟨line, rfl⟩
  rw [Head.Clean, ← fields, readHead, shape, first]
  simp only [bind, Option.bind, readStatus_statusLine]
  cases readFields _ _ with
  | none => simp
  | some parts =>
      simp only [Option.some.injEq, Prod.ext_iff]
      rcases head with ⟨code, reason, fields⟩
      simp

/-- A response is read back, and what follows is left, if and only if its head says how long
it is, and this has been sent behind it. -/
theorem read_append_iff (named : head.Named) :
    read withBody (head.render ++ (sent ++ rest)) = some (⟨head, body⟩, rest) ↔
      Framed withBody ⟨head, body⟩ ∧ sent = body := by
  constructor
  · intro response
    rcases Option.bind_eq_some_iff.mp response with ⟨⟨head', after⟩, first, response⟩
    rcases Option.bind_eq_some_iff.mp response with ⟨length, is, response⟩
    cases withBody with
    | false =>
        simp only [Bool.false_eq_true, if_false, Option.some.injEq, Prod.mk.injEq,
          Response.mk.injEq] at response
        rcases response with ⟨⟨rfl, rfl⟩, rfl⟩
        rcases (readHead_append_iff named).mp first with ⟨clean, same⟩
        refine ⟨⟨clean, ?_⟩, List.append_left_eq_self.mp same⟩
        simp [is]
    | true =>
        simp only [if_true] at response
        split at response
        case isFalse => cases response
        case isTrue le =>
          simp only [Option.some.injEq, Prod.mk.injEq, Response.mk.injEq] at response
          rcases response with ⟨⟨rfl, front⟩, back⟩
          rcases (readHead_append_iff named).mp first with ⟨clean, rfl⟩
          have whole : body ++ rest = sent ++ rest := by
            rw [← List.take_append_drop length (sent ++ rest), front, back]
          obtain rfl := List.append_cancel_right whole
          refine ⟨⟨clean, ?_⟩, rfl⟩
          have count := congrArg List.length front
          rw [List.length_take, Nat.min_eq_left le] at count
          rw [if_pos rfl, is, count]
  · rintro ⟨⟨clean, expected⟩, rfl⟩
    have first := (@readHead_append_iff head (sent ++ rest) _ named).mpr ⟨clean, rfl⟩
    rw [read, first]
    cases withBody with
    | false =>
        rcases expected with ⟨length, rfl⟩
        rcases Option.isSome_iff_exists.mp length with ⟨length, is⟩
        simp [is]
    | true =>
        have is : head.length = some sent.length := expected
        simp [is]

/-- What is read comes from lines. -/
theorem clean_of_readFields {input : Bytes} (read : readFields n input = some (fields, rest)) :
    ∀ field ∈ fields, Unbroken field.2 := by
  induction n generalizing input fields with
  | zero => cases read
  | succ n ih =>
      rcases Option.bind_eq_some_iff.mp read with ⟨⟨line, input⟩, first, read⟩
      dsimp only at read
      split at read
      · obtain rfl := (Prod.mk.inj (Option.some.inj read)).1
        exact fun _ member => absurd member List.not_mem_nil
      · rcases Option.bind_eq_some_iff.mp read with ⟨field, own, read⟩
        rcases Option.bind_eq_some_iff.mp read with ⟨⟨others, after⟩, inner, same⟩
        rcases Prod.mk.inj (Option.some.inj same) with ⟨rfl, rfl⟩
        obtain rfl := eq_of_readField own
        refine List.forall_mem_cons.mpr ⟨fun inside => ?_, ih inner⟩
        apply unbroken_of_readLine first
        exact inside.trans ((List.suffix_append _ _).trans (List.suffix_append _ _)).isInfix

theorem clean_of_readHead {input : Bytes} (read : readHead input = some (head, rest)) :
    head.Clean := by
  rcases Option.bind_eq_some_iff.mp read with ⟨⟨line, after⟩, _, read⟩
  rcases Option.bind_eq_some_iff.mp read with ⟨⟨code, reason⟩, _, read⟩
  rcases Option.bind_eq_some_iff.mp read with ⟨⟨fields, after⟩, inner, same⟩
  obtain rfl := (Prod.mk.inj (Option.some.inj same)).1
  exact clean_of_readFields inner

theorem readHead_of_read {input : Bytes} {response : Response}
    (got : read withBody input = some (response, rest)) :
    ∃ after, readHead input = some (response.head, after) := by
  rcases Option.bind_eq_some_iff.mp got with ⟨⟨head, after⟩, first, got⟩
  rcases Option.bind_eq_some_iff.mp got with ⟨length, _, got⟩
  refine ⟨after, ?_⟩
  split at got
  · split at got
    · rw [first, ← (Prod.mk.inj (Option.some.inj got)).1]
    · cases got
  · rw [first, ← (Prod.mk.inj (Option.some.inj got)).1]

end OgWebserver.Http

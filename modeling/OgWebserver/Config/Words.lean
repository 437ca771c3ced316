import OgWebserver.Config.Lexer

/-!
# Words

Which token the scanner makes of a text of letters, digits, dots, underscores and hyphens.
The rules for fixed words, addresses, sizes and numbers all stand in front of the rule for
names.
-/

namespace OgWebserver.Config

open Text

/-- The fixed words of the scanner. -/
def fixedWords : List String :=
  ["server_names_hash_bucket_size", "fastcgi_split_path_info", "ssl_prefer_server_ciphers",
    "worker_rlimit_nofile", "ssl_certificate_key", "ssl_session_timeout", "ssl_session_tickets",
    "worker_connections", "keepalive_timeout", "ssl_session_cache", "worker_processes",
    "ssl_certificate", "default_server", "ssl_protocols", "fastcgi_index", "fastcgi_param",
    "log_not_found", "server_tokens", "fastcgi_pass", "default_type", "ssl_ciphers",
    "server_name", "ssl_dhparam", "tcp_nopush", "access_log", "log_format", "proxy_pass",
    "error_page", "try_files", "error_log", "autoindex", "reuseport", "sendfile", "location",
    "upstream", "include", "expires", "rewrite", "backup", "events", "server", "listen",
    "return", "weight", "trace", "index", "http2://", "http2", "https://", "http://", "http",
    "root", "main", "user", "pid", "ssl", "off", "on", ";"]

/-- A text that is made of the bytes of names. -/
def IsWord (s : Bytes) : Prop :=
  s ≠ [] ∧ ∀ b ∈ s, isNameByte b = true

instance (s : Bytes) : Decidable (IsWord s) :=
  inferInstanceAs (Decidable (_ ∧ _))

def isNumber (s : Bytes) : Bool :=
  !s.isEmpty && s.all isDigit

/-- A number and one of the letters for units. -/
def isUnits (s : Bytes) : Bool :=
  isNumber s.dropLast && s.getLast?.any fun b => (bytes "kmgshd").contains b

/-- Four numbers with dots between them. -/
def isIp (s : Bytes) : Bool :=
  (s.splitOn 46).length == 4 && (s.splitOn 46).all isNumber

/-- The text is nothing but a name. -/
def Ordinary (s : Bytes) : Prop :=
  s ∉ fixedWords.map bytes ∧ isIp s = false ∧ isUnits s = false ∧ isNumber s = false

instance (s : Bytes) : Decidable (Ordinary s) :=
  inferInstanceAs (Decidable (_ ∧ _))

/-! ## The rules -/

section Rules

open Regex

def ipRule : Rule :=
  pattern (seq digits (seq (one 46) (seq digits (seq (one 46) (seq digits
    (seq (one 46) digits)))))) .ip

def unitsRule : Rule :=
  pattern (seq digits (byte fun b => (bytes "kmgshd").contains b)) .units

def numberRule : Rule :=
  pattern digits .number

def nameRule : Rule :=
  pattern names .name

end Rules

/-- The rules of the fixed words. -/
def fixedRules : List Rule :=
  rules.take 59

/-- The other rules in front of names: those that need a byte that is in no word. -/
def markedRules : List Rule :=
  open Regex in
  [ pattern (seq (literal (bytes "builtin:")) (seq digits unitsEnd)) .builtin,
    pattern (seq (literal (bytes "shared:"))
      (seq (plus (byte isZoneByte)) (seq (one 58) (seq digits unitsEnd)))) .shared,
    pattern (seq (one 58) digits) .port,
    pattern (seq (one 36) (seq names (seq (one 36) names))) .dubVar,
    pattern (seq (literal (bytes "*.")) names) .prefixName,
    pattern (seq names (literal (bytes ".*"))) .suffixName,
    pattern (seq (one 36) (seq names (star (one 47)))) .variable ]

theorem rules_split :
    rules = fixedRules ++ (markedRules.take 2 ++ ([ipRule, unitsRule] ++
      ((markedRules.drop 2).take 1 ++ ([numberRule] ++ (markedRules.drop 3 ++
        nameRule :: rules.drop 70))))) :=
  rfl

variable {s : Bytes}

theorem isNumber_iff : isNumber s = true ↔ s ≠ [] ∧ ∀ b ∈ s, isDigit b = true := by
  rw [isNumber, Bool.and_eq_true, List.all_eq_true, Bool.not_eq_true', List.isEmpty_eq_false_iff]

theorem mem_digits : s ∈ digits.language ↔ isNumber s = true := by
  rw [isNumber_iff]
  exact Regex.mem_plus_byte

theorem matches_number : numberRule.regex.matches_ s = isNumber s := by
  rw [Bool.eq_iff_iff, Regex.matches_iff]
  exact mem_digits

theorem matches_units : unitsRule.regex.matches_ s = isUnits s := by
  rw [Bool.eq_iff_iff, Regex.matches_iff, isUnits, Bool.and_eq_true]
  constructor
  · intro mem
    rcases Language.mem_mul.mp mem with ⟨number, inDigits, unit, inUnits, rfl⟩
    rcases Regex.mem_byte.mp inUnits with ⟨b, isUnit, rfl⟩
    rw [List.dropLast_concat, List.getLast?_concat]
    exact ⟨mem_digits.mp inDigits, isUnit⟩
  · rintro ⟨number, unit⟩
    rcases List.eq_nil_or_concat s with rfl | ⟨front, b, rfl⟩
    · cases unit
    · rw [List.concat_eq_append] at number unit ⊢
      rw [List.dropLast_concat] at number
      rw [List.getLast?_concat] at unit
      exact Language.mem_mul.mpr ⟨front, mem_digits.mpr number, [b],
        Regex.mem_byte.mpr ⟨b, unit, rfl⟩, rfl⟩

theorem mem_dot_seq {r : Regex} :
    s ∈ (Regex.seq digits (Regex.seq (one 46) r)).language ↔
      ∃ number rest, isNumber number = true ∧ rest ∈ r.language ∧ s = number ++ 46 :: rest := by
  constructor
  · intro mem
    rcases Language.mem_mul.mp mem with ⟨number, inDigits, behind, others, rfl⟩
    rcases Language.mem_mul.mp others with ⟨dot, isDot, rest, inRest, rfl⟩
    rcases Regex.mem_byte.mp isDot with ⟨b, is, rfl⟩
    obtain rfl := beq_iff_eq.mp is
    exact ⟨number, rest, mem_digits.mp inDigits, inRest, rfl⟩
  · rintro ⟨number, rest, isNumber_, inRest, rfl⟩
    refine Language.mem_mul.mpr ⟨number, mem_digits.mpr isNumber_, 46 :: rest, ?_, rfl⟩
    exact Language.mem_mul.mpr ⟨[46], Regex.mem_byte.mpr ⟨46, rfl, rfl⟩, rest, inRest, rfl⟩

theorem dot_notMem_of_isNumber (number : isNumber s = true) : 46 ∉ s := by
  intro member
  have digit := (isNumber_iff.mp number).2 46 member
  cases digit

theorem matches_ip : ipRule.regex.matches_ s = isIp s := by
  rw [Bool.eq_iff_iff, Regex.matches_iff, isIp, Bool.and_eq_true, beq_iff_eq]
  constructor
  · intro mem
    rcases mem_dot_seq.mp mem with ⟨a, behindA, numberA, memA, rfl⟩
    rcases mem_dot_seq.mp memA with ⟨b, behindB, numberB, memB, rfl⟩
    rcases mem_dot_seq.mp memB with ⟨c, d, numberC, memC, rfl⟩
    have numberD := mem_digits.mp memC
    rw [List.splitOn_append_cons_self_of_not_mem (dot_notMem_of_isNumber numberA),
      List.splitOn_append_cons_self_of_not_mem (dot_notMem_of_isNumber numberB),
      List.splitOn_append_cons_self_of_not_mem (dot_notMem_of_isNumber numberC),
      List.splitOn_eq_singleton (dot_notMem_of_isNumber numberD)]
    simp [numberA, numberB, numberC, numberD]
  · rintro ⟨four, all⟩
    have joined := @List.intercalate_splitOn _ s _ _ 46
    rcases List.length_eq_four.mp four with ⟨a, b, c, d, parts⟩
    rw [parts] at joined all
    simp only [List.all_cons, List.all_nil, Bool.and_true, Bool.and_eq_true] at all
    rw [← joined]
    refine mem_dot_seq.mpr ⟨a, b ++ 46 :: (c ++ 46 :: d), all.1, ?_, by simp⟩
    refine mem_dot_seq.mpr ⟨b, c ++ 46 :: d, all.2.1, ?_, rfl⟩
    exact mem_dot_seq.mpr ⟨c, d, all.2.2.1, mem_digits.mpr all.2.2.2, rfl⟩

theorem matches_name (word : IsWord s) : nameRule.regex.matches_ s = true :=
  (Regex.matches_iff _ _).mpr (Regex.mem_plus_byte.mpr word)

theorem markedRules_need : ∀ r ∈ markedRules, ∃ c, isNameByte c = false ∧ r.regex.Needs c := by
  intro r member
  simp only [markedRules, List.mem_cons, List.not_mem_nil, or_false] at member
  rcases member with rfl | rfl | rfl | rfl | rfl | rfl | rfl
  · exact ⟨58, rfl, (Regex.needs_literal (by decide)).seq_left _⟩
  · exact ⟨58, rfl, (Regex.needs_literal (by decide)).seq_left _⟩
  · exact ⟨58, rfl, (Regex.needs_byte 58).seq_left _⟩
  · exact ⟨36, rfl, (Regex.needs_byte 36).seq_left _⟩
  · exact ⟨42, rfl, (Regex.needs_literal (by decide)).seq_left _⟩
  · exact ⟨42, rfl, (Regex.needs_literal (by decide)).seq_right _⟩
  · exact ⟨36, rfl, (Regex.needs_byte 36).seq_left _⟩

theorem matches_marked {r : Rule} (member : r ∈ markedRules) (word : IsWord s) :
    r.regex.matches_ s = false := by
  rcases markedRules_need r member with ⟨c, notName, needs⟩
  apply needs.matches_eq_false
  intro inside
  rw [word.2 c inside] at notName
  cases notName

theorem find?_marked {some_ : List Rule} (within : some_ ⊆ markedRules) (word : IsWord s) :
    some_.find? (fun r => r.regex.matches_ s) = none := by
  rw [List.find?_eq_none]
  intro r member
  rw [matches_marked (within member) word]
  simp

/-- The rule for a word: that of the same fixed word, if there is one, or else one of four. -/
theorem ruleFor_word (word : IsWord s) :
    ruleFor s = (fixedRules.find? fun r => r.regex.matches_ s).or
      (some (if isIp s then ipRule else if isUnits s then unitsRule
        else if isNumber s then numberRule else nameRule)) := by
  have between : (markedRules.drop 2).take 1 ⊆ markedRules :=
    fun r member => List.mem_of_mem_drop (List.mem_of_mem_take member)
  rw [ruleFor, rules_split]
  simp only [List.find?_append, find?_marked (List.take_subset _ _) word,
    find?_marked (List.drop_subset _ _) word, find?_marked between word, Option.none_or,
    List.find?_cons, List.find?_nil, matches_ip, matches_units, matches_number, matches_name word]
  cases isIp s <;> cases isUnits s <;> cases isNumber s <;> rfl

/-! ## Kinds of words -/

theorem fixedRules_regex :
    fixedRules.map (·.regex) = fixedWords.map fun text => Regex.literal (bytes text) :=
  rfl

/-- A rule of a fixed word matches if and only if the text is a fixed word. -/
theorem find?_fixed_eq_none_iff :
    (fixedRules.find? fun r => r.regex.matches_ s) = none ↔ s ∉ fixedWords.map bytes := by
  have exact_ : (∃ r ∈ fixedRules, r.regex.matches_ s = true) ↔
      ∃ regex ∈ fixedRules.map (·.regex), regex.matches_ s = true := by
    simp
  rw [← not_iff_not, not_not, ← ne_eq, ← Option.isSome_iff_ne_none, List.find?_isSome, exact_,
    fixedRules_regex]
  simp only [List.mem_map]
  constructor
  · rintro ⟨_, ⟨text, member, rfl⟩, matched⟩
    exact ⟨text, member, (Regex.mem_literal.mp ((Regex.matches_iff _ _).mp matched)).symm⟩
  · rintro ⟨text, member, rfl⟩
    exact ⟨_, ⟨text, member, rfl⟩, (Regex.matches_iff _ _).mpr (Regex.mem_literal.mpr rfl)⟩

theorem fixedRules_kind : ∀ r ∈ fixedRules, r.context = 0 ∧ r.kind.skips = false ∧
    r.kind ∉ [.character, .name, .prefixName, .suffixName, .number] := by
  decide

/-- A word is one token, a name if and only if it is ordinary. -/
theorem accepts_word (word : IsWord s) :
    ∃ kind, accepts s = some (kind, s.length) ∧ kind.skips = false ∧ kind ≠ .character ∧
      kind ≠ .prefixName ∧ kind ≠ .suffixName ∧ (kind = .name ↔ Ordinary s) := by
  rw [accepts, ruleFor_word word]
  cases found : fixedRules.find? fun r => r.regex.matches_ s with
  | some r =>
      rcases fixedRules_kind r (List.mem_of_find?_eq_some found) with ⟨context, skips, others⟩
      simp only [List.mem_cons, List.not_mem_nil, or_false, not_or] at others
      refine ⟨r.kind, ?_, skips, others.1, others.2.2.1, others.2.2.2.1, ?_⟩
      · rw [Option.some_or, Option.map_some, context, Nat.sub_zero]
      · apply iff_of_false others.2.1
        intro ordinary
        rw [find?_fixed_eq_none_iff.mpr ordinary.1] at found
        cases found
  | none =>
      have notFixed := find?_fixed_eq_none_iff.mp found
      cases ip : isIp s <;> cases units : isUnits s <;> cases number : isNumber s <;>
        refine ⟨_, rfl, ?_⟩ <;>
        simp [Ordinary, notFixed, ip, units, number, ipRule, unitsRule, numberRule, nameRule,
          pattern, TokenKind.skips]

theorem isWord_of_isNumber (number : isNumber s = true) : IsWord s := by
  rcases isNumber_iff.mp number with ⟨nonempty, digits⟩
  refine ⟨nonempty, fun b member => ?_⟩
  rw [isNameByte, isZoneByte, digits b member]
  simp

/-- A number is nothing else. -/
theorem accepts_number (number : isNumber s = true) : accepts s = some (.number, s.length) := by
  have notFixed : s ∉ fixedWords.map bytes := by
    intro member
    have none_ : ∀ text ∈ fixedWords.map bytes, isNumber text = false := by decide +kernel
    rw [none_ s member] at number
    cases number
  have noIp : isIp s = false := by
    rw [isIp, List.splitOn_eq_singleton (dot_notMem_of_isNumber number)]
    rfl
  have noUnits : isUnits s = false := by
    rcases isNumber_iff.mp number with ⟨nonempty, digits⟩
    have digit := digits _ (List.getLast_mem nonempty)
    have noUnit : ∀ b ∈ bytes "kmgshd", isDigit b = false := by decide +kernel
    rw [isUnits, List.getLast?_eq_some_getLast nonempty, Bool.and_eq_false_iff]
    right
    rw [Option.any_some, Bool.eq_false_iff]
    intro unit
    rw [noUnit _ (List.contains_iff_mem.mp unit)] at digit
    cases digit
  rw [accepts, ruleFor_word (isWord_of_isNumber number), find?_fixed_eq_none_iff.mpr notFixed, noIp,
    noUnits, number]
  rfl

/-! ## Where a word ends -/

/-- A match that nothing goes on is the longest. -/
theorem munch_of_stuck {front text : Bytes} {t : TokenKind × Nat} (nonempty : front ≠ [])
    (accepted : accepts front = some t)
    (stuck : ∀ r ∈ rules, ∀ more, more ≠ [] → front ++ more <+: text →
      r.regex.matches_ (front ++ more) = false) (begins : front <+: text) :
    lexer.munch text = some t := by
  apply Scanner.munch_of_longest begins nonempty accepted
  intro other within longer
  rcases List.prefix_of_prefix_length_le begins within (Nat.le_of_lt longer) with ⟨more, rfl⟩
  have something : more ≠ [] := by
    rintro rfl
    simp at longer
  show accepts (front ++ more) = none
  rw [accepts, Option.map_eq_none_iff, ruleFor, List.find?_eq_none]
  intro r member
  rw [stuck r member more something within]
  simp

/-- Bytes that are always tokens alone. -/
def singles : List (UInt8 × TokenKind) :=
  [(59, .eol), (123, .character), (125, .character)]

theorem munch_single {b : UInt8} {kind : TokenKind} (single : (b, kind) ∈ singles)
    (text : Bytes) : lexer.munch (b :: text) = some (kind, 1) := by
  have each : ∀ p ∈ singles, accepts [p.1] = some (p.2, 1) ∧
      ∀ r ∈ rules, (r.regex.deriv p.1).isEnd = true := by
    decide +kernel
  rcases each _ single with ⟨accepted, ends⟩
  apply munch_of_stuck (List.cons_ne_nil b []) accepted _ ⟨text, rfl⟩
  intro r member more something _
  exact Regex.matches_of_isEnd (ends r member) something

/-- A space and a semicolon are in no match that begins as a word does, but for the single
character. -/
theorem rules_stop : ∀ r ∈ rules, (∀ c ∈ [32, 59], r.regex.avoids c = true) ∨
    (∀ b : UInt8, isNameByte b = true → (r.regex.deriv b).isNothing = true) ∨
      r = pattern dot .character := by
  have each : ∀ r ∈ tokenRules ++ [pattern comment .comment, pattern whiteSpace .whiteSpace],
      (∀ c ∈ [32, 59], r.regex.avoids c = true) ∨
        ∀ n < 256, isNameByte (UInt8.ofNat n) = true →
          (r.regex.deriv (UInt8.ofNat n)).isNothing = true := by
    decide +kernel
  have split : rules = tokenRules ++ [pattern comment .comment, pattern whiteSpace .whiteSpace] ++
      [pattern dot .character] := rfl
  intro r member
  rw [split, List.mem_append, List.mem_singleton] at member
  rcases member with other | character
  · rcases each r other with avoids | starts
    · exact .inl avoids
    · refine .inr (.inl fun b name => ?_)
      have number := starts b.toNat b.toNat_lt
      rw [UInt8.ofNat_toNat] at number
      exact number name
  · exact .inr (.inr character)

/-- In front of a space or a semicolon, a word is one token. -/
theorem munch_word (word : IsWord s) {kind : TokenKind}
    (accepted : accepts s = some (kind, s.length)) {c : UInt8} (stop : c ∈ [32, 59])
    (rest : Bytes) : lexer.munch (s ++ c :: rest) = some (kind, s.length) := by
  apply munch_of_stuck word.1 accepted _ ⟨c :: rest, rfl⟩
  intro r' member more something within
  rcases List.exists_cons_of_ne_nil something with ⟨d, more, rfl⟩
  rw [List.prefix_append_right_inj] at within
  rcases within with ⟨behind, is⟩
  obtain rfl := (List.cons.inj is).1
  rw [Bool.eq_false_iff]
  intro matched
  rcases rules_stop r' member with avoids | starts | rfl
  · apply Regex.notMem_of_avoids (avoids d stop) ((Regex.matches_iff _ _).mp matched)
    simp
  · rcases List.exists_cons_of_ne_nil word.1 with ⟨b, others, rfl⟩
    rw [List.cons_append, Regex.matches_of_deriv (starts b (word.2 b List.mem_cons_self))] at matched
    cases matched
  · rcases Regex.mem_byte.mp ((Regex.matches_iff _ _).mp matched) with ⟨b, _, single⟩
    have nonempty := List.length_pos_iff.mpr word.1
    have length := congrArg List.length single
    rw [List.length_append, List.length_cons, List.length_singleton] at length
    omega

end OgWebserver.Config

import OgWebserver.Text.Munch
import OgWebserver.Text.Regex

/-!
# Scanner of configuration files

The rules of `og_ws.l`, in its order.  Flex takes the longest match, and of two rules
that match the same text the earlier one.
-/

namespace OgWebserver.Config

open Text

/-- What the rules return, named after the tokens of the grammar; `character` is the
rule for any other byte, and the rules for comments and white space return nothing. -/
inductive TokenKind
  | hashBucket | fastcgiSplitPathInfo | sslPreferServerCiphers | workerRlimit
  | sslCertificateKey | sslSessionTimeout | sslSessionTickets | workerConnections
  | keepaliveTimeout | sslSessionCache | workerProcesses | sslCertificate | defaultServer
  | sslProtocols | fastcgiIndex | fastcgiParam | logNotFound | serverTokens | fastcgiPass
  | defaultType | sslCiphers | serverName | sslDhparam | tcpNopush | accessLog | logFormat
  | proxyPass | errorPage | tryFiles | errorLog | autoindex | reuseport | sendfile | location
  | upstream | include_ | expires | rewrite | backup | events | server | listen | return_
  | weight | trace | index | http2 | http2L | https | http1 | http | root | main | user | pid
  | ssl | off | on | eol | builtin | shared | ip | units | port | number | dubVar | prefixName
  | suffixName | variable | name | path | quotedString | dquotedString | regexp | equalOperator
  | wildcard | comment | whiteSpace | character
  deriving DecidableEq

/-- A rule. -/
structure Rule where
  regex : Regex
  kind : TokenKind
  /-- How many bytes at the end of a match are only looked at. -/
  context : Nat

section Classes

open Regex

/-- `[A-Za-z0-9_-]`. -/
def isZoneByte (b : UInt8) : Bool :=
  (65 ≤ b.toNat && b.toNat ≤ 90) || (97 ≤ b.toNat && b.toNat ≤ 122) || isDigit b || b == 95 ||
    b == 45

/-- `[A-Za-z0-9._-]`. -/
def isNameByte (b : UInt8) : Bool :=
  isZoneByte b || b == 46

/-- The same with the slash. -/
def isPathByte (b : UInt8) : Bool :=
  isNameByte b || b == 47

def digits : Regex :=
  plus (byte isDigit)

def names : Regex :=
  plus (byte isNameByte)

def one (b : UInt8) : Regex :=
  byte (· == b)

/-- The flex pattern `.`: any byte but a newline. -/
def dot : Regex :=
  byte (· != 10)

/-- `[mk]*`, the end of a size. -/
def unitsEnd : Regex :=
  star (byte fun b => b == 109 || b == 107)

/-- A quoted text, without semicolons. -/
def quoted (quote : UInt8) : Regex :=
  seq (one quote) (seq (star (byte fun b => b != quote && b != 59)) (one quote))

def comment : Regex :=
  seq (one 35) (seq (star dot) (one 10))

def whiteSpace : Regex :=
  byte fun b => b == 32 || b == 9 || b == 10

end Classes

/-- The rule of a fixed word. -/
def word (text : String) (kind : TokenKind) : Rule :=
  { regex := .literal (bytes text), kind := kind, context := 0 }

/-- A rule without trailing context. -/
def pattern (regex : Regex) (kind : TokenKind) : Rule :=
  { regex := regex, kind := kind, context := 0 }

/-- The rules that return a token, but for the last. -/
def tokenRules : List Rule :=
  open Regex in
  [ word "server_names_hash_bucket_size" .hashBucket,
    word "fastcgi_split_path_info" .fastcgiSplitPathInfo,
    word "ssl_prefer_server_ciphers" .sslPreferServerCiphers,
    word "worker_rlimit_nofile" .workerRlimit,
    word "ssl_certificate_key" .sslCertificateKey,
    word "ssl_session_timeout" .sslSessionTimeout,
    word "ssl_session_tickets" .sslSessionTickets,
    word "worker_connections" .workerConnections,
    word "keepalive_timeout" .keepaliveTimeout,
    word "ssl_session_cache" .sslSessionCache,
    word "worker_processes" .workerProcesses,
    word "ssl_certificate" .sslCertificate,
    word "default_server" .defaultServer,
    word "ssl_protocols" .sslProtocols,
    word "fastcgi_index" .fastcgiIndex,
    word "fastcgi_param" .fastcgiParam,
    word "log_not_found" .logNotFound,
    word "server_tokens" .serverTokens,
    word "fastcgi_pass" .fastcgiPass,
    word "default_type" .defaultType,
    word "ssl_ciphers" .sslCiphers,
    word "server_name" .serverName,
    word "ssl_dhparam" .sslDhparam,
    word "tcp_nopush" .tcpNopush,
    word "access_log" .accessLog,
    word "log_format" .logFormat,
    word "proxy_pass" .proxyPass,
    word "error_page" .errorPage,
    word "try_files" .tryFiles,
    word "error_log" .errorLog,
    word "autoindex" .autoindex,
    word "reuseport" .reuseport,
    word "sendfile" .sendfile,
    word "location" .location,
    word "upstream" .upstream,
    word "include" .include_,
    word "expires" .expires,
    word "rewrite" .rewrite,
    word "backup" .backup,
    word "events" .events,
    word "server" .server,
    word "listen" .listen,
    word "return" .return_,
    word "weight" .weight,
    word "trace" .trace,
    word "index" .index,
    word "http2://" .http2,
    word "http2" .http2L,
    word "https://" .https,
    word "http://" .http1,
    word "http" .http,
    word "root" .root,
    word "main" .main,
    word "user" .user,
    word "pid" .pid,
    word "ssl" .ssl,
    word "off" .off,
    word "on" .on,
    word ";" .eol,
    pattern (seq (literal (bytes "builtin:")) (seq digits unitsEnd)) .builtin,
    pattern (seq (literal (bytes "shared:"))
      (seq (plus (byte isZoneByte)) (seq (one 58) (seq digits unitsEnd)))) .shared,
    pattern (seq digits (seq (one 46) (seq digits (seq (one 46) (seq digits
      (seq (one 46) digits)))))) .ip,
    pattern (seq digits (byte fun b => (bytes "kmgshd").contains b)) .units,
    pattern (seq (one 58) digits) .port,
    pattern digits .number,
    pattern (seq (one 36) (seq names (seq (one 36) names))) .dubVar,
    pattern (seq (literal (bytes "*.")) names) .prefixName,
    pattern (seq names (literal (bytes ".*"))) .suffixName,
    pattern (seq (one 36) (seq names (star (one 47)))) .variable,
    pattern names .name,
    pattern (plus (byte isPathByte)) .path,
    pattern (quoted 39) .quotedString,
    pattern (quoted 34) .dquotedString,
    { regex := seq (alt (one 126) (alt (literal (bytes "~*")) (literal (bytes "^~"))))
        (seq (star dot) (one 123))
      kind := .regexp
      context := 1 },
    pattern (one 61) .equalOperator,
    pattern (one 42) .wildcard]

def rules : List Rule :=
  tokenRules ++
    [pattern comment .comment, pattern whiteSpace .whiteSpace, pattern dot .character]

/-- The first rule that matches a whole text. -/
def ruleFor (text : Bytes) : Option Rule :=
  rules.find? fun r => r.regex.matches_ text

/-- What flex makes of a text as a match. -/
def accepts (text : Bytes) : Option (TokenKind × Nat) :=
  (ruleFor text).map fun r => (r.kind, text.length - r.context)

/-- The rules without an action. -/
def TokenKind.skips : TokenKind → Bool
  | comment | whiteSpace => true
  | _ => false

/-! ## Comments and white space -/

/-- White space of the scanner. -/
def isWhite (b : UInt8) : Bool :=
  b == 32 || b == 9 || b == 10

variable {text : Bytes} {kind : TokenKind} {n : Nat}

theorem matches_byte (p : UInt8 → Bool) (b : UInt8) : (Regex.byte p).matches_ [b] = p b := by
  rw [Regex.matches_cons, Regex.matches_nil, Regex.deriv]
  cases p b <;> rfl

theorem matches_whiteSpace_iff :
    whiteSpace.matches_ text = true ↔ ∃ b, isWhite b = true ∧ text = [b] :=
  (Regex.matches_iff whiteSpace text).trans Regex.mem_byte

theorem matches_comment_iff :
    comment.matches_ text = true ↔ ∃ line, text = 35 :: (line ++ [10]) ∧ 10 ∉ line := by
  have noNewline : ∀ line : Bytes, (∀ b ∈ line, (b != 10) = true) ↔ 10 ∉ line := by
    intro line
    constructor
    · intro all member
      exact absurd (all 10 member) (by decide)
    · intro absent b member
      simpa using ne_of_mem_of_not_mem member absent
  rw [Regex.matches_iff, comment, Regex.language, Language.mem_mul]
  constructor
  · rintro ⟨front, hash, back, rest, rfl⟩
    rcases Regex.mem_byte.mp hash with ⟨b, isHash, rfl⟩
    rcases Language.mem_mul.mp rest with ⟨line, inside, last, newline, rfl⟩
    rcases Regex.mem_byte.mp newline with ⟨c, isNewline, rfl⟩
    obtain rfl := beq_iff_eq.mp isHash
    obtain rfl := beq_iff_eq.mp isNewline
    exact ⟨line, rfl, (noNewline line).mp (Regex.mem_star_byte.mp inside)⟩
  · rintro ⟨line, rfl, absent⟩
    refine ⟨[35], Regex.mem_byte.mpr ⟨35, rfl, rfl⟩, line ++ [10], ?_, rfl⟩
    refine Language.mem_mul.mpr ⟨line, ?_, [10], Regex.mem_byte.mpr ⟨10, rfl, rfl⟩, rfl⟩
    exact Regex.mem_star_byte.mpr ((noNewline line).mpr absent)

theorem ruleFor_some {r : Rule} (found : ruleFor text = some r) :
    r ∈ rules ∧ r.regex.matches_ text = true :=
  ⟨List.mem_of_find?_eq_some found,
    List.find?_some (p := fun r : Rule => r.regex.matches_ text) found⟩

/-- A match that is skipped is a comment or a byte of white space. -/
theorem skipped_cases (accepted : accepts text = some (kind, n)) (skip : kind.skips = true) :
    n = text.length ∧
      (kind = .comment ∧ (∃ line, text = 35 :: (line ++ [10]) ∧ 10 ∉ line) ∨
        kind = .whiteSpace ∧ ∃ b, isWhite b = true ∧ text = [b]) := by
  rcases Option.map_eq_some_iff.mp accepted with ⟨r, found, is⟩
  obtain ⟨rfl, rfl⟩ := Prod.mk.inj is
  rcases ruleFor_some found with ⟨member, matched⟩
  have noSkip : tokenRules.all (fun r => !r.kind.skips) = true := by decide
  rcases List.mem_append.mp member with member | member
  · have token := List.all_eq_true.mp noSkip r member
    rw [skip] at token
    cases token
  · simp only [List.mem_cons, List.not_mem_nil, or_false] at member
    rcases member with rfl | rfl | rfl
    · exact ⟨rfl, .inl ⟨rfl, matches_comment_iff.mp matched⟩⟩
    · exact ⟨rfl, .inr ⟨rfl, matches_whiteSpace_iff.mp matched⟩⟩
    · cases skip

theorem takeWhile_line {line : Bytes} (absent : 10 ∉ line) (rest : Bytes) :
    (line ++ ([10] ++ rest)).takeWhile (fun b => b != 10) = line := by
  have inside : ∀ b ∈ line, (b != 10) = true := by
    intro b member
    simpa using ne_of_mem_of_not_mem member absent
  rw [List.takeWhile_append_of_pos inside, List.singleton_append,
    List.takeWhile_cons_of_neg (by decide), List.append_nil]

theorem skipped_unique {text text' : Bytes} {r r' : TokenKind × Nat} (begins : text <+: text')
    (accepted : accepts text = some r) (accepted' : accepts text' = some r')
    (skip : r.1.skips = true) (skip' : r'.1.skips = true) : r = r' := by
  rcases r with ⟨kind, n⟩
  rcases r' with ⟨kind', n'⟩
  rcases begins with ⟨more, rfl⟩
  rcases skipped_cases accepted skip with ⟨rfl, ⟨rfl, line, rfl, absent⟩ | ⟨rfl, b, white, rfl⟩⟩ <;>
    rcases skipped_cases accepted' skip' with
      ⟨rfl, ⟨rfl, line', split, absent'⟩ | ⟨rfl, c, white', split⟩⟩
  · -- both end at the first newline
    rw [List.cons_append, List.append_assoc, List.cons.injEq] at split
    have same := congrArg (List.takeWhile fun b => b != 10) split.2
    rw [takeWhile_line absent, ← List.append_nil [10], takeWhile_line absent'] at same
    subst same
    obtain rfl : more = [] := by simpa using split.2
    rw [List.append_nil]
  · simp at split
  · simp only [List.singleton_append, List.cons.injEq] at split
    rw [split.1] at white
    cases white
  · simp only [List.singleton_append, List.cons.injEq] at split
    rw [split.2]
    rfl

theorem total (b : UInt8) : (accepts [b]).isSome := by
  rw [accepts, Option.isSome_map, ruleFor, List.find?_isSome]
  by_cases newline : b = 10
  · exact ⟨pattern whiteSpace .whiteSpace, by simp [rules],
      matches_whiteSpace_iff.mpr ⟨b, by simp [isWhite, newline], rfl⟩⟩
  · refine ⟨pattern dot .character, by simp [rules], ?_⟩
    rw [pattern, dot, matches_byte]
    simpa using newline

theorem bounded (accepted : accepts text = some (kind, n)) : 0 < n ∧ n ≤ text.length := by
  rcases Option.map_eq_some_iff.mp accepted with ⟨r, found, is⟩
  have within : rules.all (fun r => decide (r.context < r.regex.shortest)) = true := by
    decide +kernel
  have less := of_decide_eq_true
    (List.all_eq_true.mp within r (ruleFor_some found).1)
  have le := Regex.shortest_le ((Regex.matches_iff r.regex text).mp (ruleFor_some found).2)
  rw [← (Prod.mk.inj is).2]
  omega

/-- The scanner that flex makes of the rules. -/
def lexer : Scanner TokenKind where
  accepts := accepts
  skips := TokenKind.skips
  total := total
  bounded := bounded
  skipped := skipped_unique

/-! ## First bytes -/

/-- No rule of these matches a text that starts with white space or a hash. -/
theorem matches_tokenRules {r : Rule} {b : UInt8} (member : r ∈ tokenRules)
    (idle : isWhite b ∨ b = 35) (text : Bytes) : r.regex.matches_ (b :: text) = false := by
  have derivs : [32, 9, 10, 35].all (fun b : UInt8 => tokenRules.all fun r =>
      (r.regex.deriv b).isNothing) = true := by decide +kernel
  have inList : b ∈ [32, 9, 10, 35] := by
    simpa [isWhite, or_assoc] using idle
  exact Regex.matches_of_deriv
    (List.all_eq_true.mp (List.all_eq_true.mp derivs b inList) r member) text

/-- Only comments, and single bytes, start with white space or a hash. -/
theorem matches_idle {r : Rule} {b : UInt8} (member : r ∈ rules) (idle : isWhite b ∨ b = 35)
    (matched : r.regex.matches_ (b :: text) = true) : r.kind = .comment ∨ text = [] := by
  rcases List.mem_append.mp member with member | member
  · rw [matches_tokenRules member idle text] at matched
    cases matched
  · simp only [List.mem_cons, List.not_mem_nil, or_false] at member
    rcases member with rfl | rfl | rfl
    · exact .inl rfl
    · rcases matches_whiteSpace_iff.mp matched with ⟨c, _, is⟩
      exact .inr (List.cons.inj is).2
    · rcases Regex.mem_byte.mp ((Regex.matches_iff _ _).mp matched) with ⟨c, _, is⟩
      exact .inr (List.cons.inj is).2

theorem accepts_white {b : UInt8} (white : isWhite b = true) :
    accepts [b] = some (.whiteSpace, 1) := by
  have noToken : tokenRules.find? (fun r => r.regex.matches_ [b]) = none := by
    rw [List.find?_eq_none]
    intro r member
    rw [matches_tokenRules member (.inl white) []]
    simp
  have noComment : (pattern comment .comment).regex.matches_ [b] = false := by
    rw [← Bool.not_eq_true]
    intro matched
    rcases matches_comment_iff.mp matched with ⟨line, is, _⟩
    simp at is
  have blank : (pattern whiteSpace .whiteSpace).regex.matches_ [b] = true :=
    matches_whiteSpace_iff.mpr ⟨b, white, rfl⟩
  rw [accepts, ruleFor, rules, List.find?_append, noToken, Option.none_or]
  simp only [List.find?_cons, noComment, blank]
  rfl

/-- What starts so and is longer than a byte is a comment. -/
theorem comment_of_accepts {b : UInt8} {r : TokenKind × Nat} (idle : isWhite b ∨ b = 35)
    (more : text ≠ []) (accepted : accepts (b :: text) = some r) :
    b = 35 ∧ r = (.comment, text.length + 1) ∧ ∃ line, text = line ++ [10] ∧ 10 ∉ line := by
  rcases Option.map_eq_some_iff.mp accepted with ⟨rule, found, rfl⟩
  rcases ruleFor_some found with ⟨member, matched⟩
  have isComment := (matches_idle member idle matched).resolve_right more
  have skip : rule.kind.skips = true := by rw [isComment]; rfl
  rcases skipped_cases accepted skip with ⟨length, ⟨_, line, split, absent⟩ | ⟨_, c, _, split⟩⟩
  · obtain ⟨rfl, rfl⟩ := List.cons.inj split
    rw [length, isComment]
    exact ⟨rfl, rfl, line, rfl, absent⟩
  · exact absurd (List.cons.inj split).2 more

theorem munch_white {b : UInt8} (white : isWhite b = true) (text : Bytes) :
    lexer.munch (b :: text) = some (.whiteSpace, 1) := by
  apply @Scanner.munch_of_longest _ lexer _ [b] _ ⟨text, rfl⟩ (List.cons_ne_nil b [])
    (accepts_white white)
  rintro (_ | ⟨c, other⟩) begins longer
  · simp at longer
  rcases begins with ⟨rest, split⟩
  obtain rfl : c = b := (List.cons.inj split).1
  have more : other ≠ [] := by
    rintro rfl
    simp at longer
  cases accepted : lexer.accepts (c :: other) with
  | none => rfl
  | some r =>
      rw [(comment_of_accepts (.inl white) more accepted).1] at white
      cases white

/-- A comment ends with its line. -/
theorem munch_comment {line : Bytes} (absent : 10 ∉ line) (text : Bytes) :
    lexer.munch (35 :: (line ++ 10 :: text)) = some (.comment, line.length + 2) := by
  have more : line ++ [10] ≠ [] := by simp
  have front : 35 :: (line ++ [10]) <+: 35 :: (line ++ 10 :: text) := ⟨text, by simp⟩
  have accepted : lexer.accepts (35 :: (line ++ [10])) = some (.comment, line.length + 2) := by
    have matched : (ruleFor (35 :: (line ++ [10]))).isSome := by
      rw [ruleFor, List.find?_isSome]
      exact ⟨pattern comment .comment, by simp [rules],
        matches_comment_iff.mpr ⟨line, rfl, absent⟩⟩
    rcases Option.isSome_iff_exists.mp matched with ⟨rule, found⟩
    have accepted : accepts (35 :: (line ++ [10])) = some (rule.kind, _) :=
      Option.map_eq_some_iff.mpr ⟨rule, found, rfl⟩
    have is := (comment_of_accepts (.inr rfl) more accepted).2.1
    show accepts (35 :: (line ++ [10])) = _
    rw [accepted, is]
    simp
  apply Scanner.munch_of_longest front (List.cons_ne_nil _ _) accepted
  rintro (_ | ⟨c, other⟩) begins longer
  · simp at longer
  have within := List.prefix_of_prefix_length_le front begins (Nat.le_of_lt longer)
  obtain rfl : 35 = c := by
    rcases within with ⟨rest, split⟩
    exact (List.cons.inj split).1
  have more' : other ≠ [] := by
    rintro rfl
    simp at longer
  cases accepted' : lexer.accepts (35 :: other) with
  | none => rfl
  | some r =>
      have is := (comment_of_accepts (.inr rfl) more' accepted').2.1
      have same := skipped_unique within accepted accepted' rfl (by rw [is]; rfl)
      rw [is] at same
      have lengths := (Prod.mk.inj same).2
      simp only [List.length_cons, List.length_append, List.length_nil] at longer lengths
      omega

/-- Nothing else is skipped. -/
theorem munch_token {b : UInt8} (found : lexer.munch (b :: text) = some (kind, n))
    (token : isWhite b = false) (noComment : b = 35 → 10 ∉ text) : kind.skips = false := by
  rcases (Scanner.munch_eq_some found).1 with ⟨front, begins, accepted⟩
  by_contra skip
  rw [Bool.not_eq_false] at skip
  rcases (skipped_cases accepted skip).2 with ⟨_, line, rfl, _⟩ | ⟨_, c, white, rfl⟩
  · rcases begins with ⟨more, split⟩
    rw [List.cons_append, List.cons.injEq] at split
    apply noComment split.1.symm
    rw [← split.2]
    simp
  · rcases begins with ⟨more, split⟩
    rw [List.singleton_append, List.cons.injEq] at split
    rw [split.1, token] at white
    cases white

end OgWebserver.Config

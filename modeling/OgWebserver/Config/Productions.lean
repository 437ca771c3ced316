import OgWebserver.Config.Lexer
import OgWebserver.Config.Server
import OgWebserver.Text.Grammar
import OgWebserver.Text.Scan

/-!
# Rules of the grammar

The rules of `og_ws.y`, in its order, with the parser actions that their reductions
perform.  Rules whose actions only print, or set what nothing here reads, are quiet.
-/

namespace OgWebserver.Config

open Text

/-- What the scanner returns: a token of the grammar, or a character. -/
inductive Terminal
  | token (kind : TokenKind)
  | character (b : UInt8)
  deriving DecidableEq

inductive Nonterminal
  | config | mainDirectives | mainDirective | userDirective | pidDirective | includeDirective
  | traceDirective | workerProcessesDirective | workerRlimitNofileDirective | eventsSection
  | eventsDirectives | eventsDirective | httpSection | httpDirectives | httpDirective
  | indexDirective | indexFiles | indexFile | defaultTypeDirective | sendfileDirective
  | tcpNopushDirective | keepaliveDirective | serverNamesHashBucketSizeDirective
  | logFormatDirective | strings | serverSection | serverDirectives | serverDirective
  | serverNameDirective | serverNames | serverName | serverTokensDirective | upstreamDirective
  | upstreams | upstream | accessLogDirective | errorLogDirective | rootDirective | sslDirective
  | protocolNames | protocolName | autoindexDirective | locationSection | locationDirectives
  | locationDirective | proxyPassDirective | fastcgiPass | fastcgiSplitPathInfo | fastcgiIndex
  | fastcgiParam | tryFilesDirective | tryPaths | protocol | expiresDirective | listenDirective
  | listenOptions | listenOption | listenPair
  deriving DecidableEq

namespace Grammar

abbrev Tok : Type :=
  Token TokenKind

def terminal (tok : Tok) : Terminal :=
  match tok.kind, tok.text with
  | .character, b :: _ => .character b
  | kind, _ => .token kind

/-- The semantic values of a rule's symbols. -/
abbrev Values : Type :=
  List (Option Tok)

namespace Values

/-- `$k`, where `yylval.str` is `strdup(yytext)`. -/
def text (v : Values) (k : Nat) : Bytes :=
  match v[k - 1]? with
  | some (some tok) => cString tok.text
  | _ => []

/-- `$k`, where `yylval.iValue` is `atoi(yytext)`. -/
def number (v : Values) (k : Nat) : Int32 :=
  atoi (v.text k)

/-- `$k`, where `yylval.iValue` is `atoi(yytext+1)`. -/
def port (v : Values) (k : Nat) : Int32 :=
  atoi (v.text k).tail

end Values

abbrev Rhs : Type :=
  Alternative Tok Terminal Nonterminal Action

def acts (symbols : List (Symbol Terminal Nonterminal)) (action : Values → List Action) : Rhs :=
  { symbols := symbols, action := action }

def quiet (symbols : List (Symbol Terminal Nonterminal)) : Rhs :=
  acts symbols fun _ => []

def t (kind : TokenKind) : Symbol Terminal Nonterminal :=
  .terminal (.token kind)

def n (nonterminal : Nonterminal) : Symbol Terminal Nonterminal :=
  .nonterminal nonterminal

def openBrace : Symbol Terminal Nonterminal :=
  .terminal (.character 123)

def closeBrace : Symbol Terminal Nonterminal :=
  .terminal (.character 125)

def alternatives : Nonterminal → List Rhs
  | .config =>
      [quiet [n .mainDirectives, n .eventsSection, n .httpSection],
        quiet [n .eventsSection, n .httpSection]]
  | .mainDirectives =>
      [quiet [n .mainDirective, n .mainDirectives], quiet [n .mainDirective]]
  | .mainDirective =>
      [quiet [n .userDirective], quiet [n .accessLogDirective], quiet [n .errorLogDirective],
        quiet [n .pidDirective], quiet [n .includeDirective], quiet [n .traceDirective],
        quiet [n .workerProcessesDirective], quiet [n .workerRlimitNofileDirective]]
  | .userDirective =>
      [quiet [t .user, t .name, t .name, t .eol], quiet [t .user, t .name, t .eol]]
  | .pidDirective => [acts [t .pid, t .path, t .eol] fun v => [.pid (v.text 2)]]
  | .includeDirective => [quiet [t .include_, t .path, t .eol]]
  | .traceDirective =>
      [quiet [t .trace, t .on, t .eol], quiet [t .trace, t .off, t .eol]]
  | .workerProcessesDirective =>
      [acts [t .workerProcesses, t .number, t .eol] fun v => [.workerProcesses (v.number 2)]]
  | .workerRlimitNofileDirective => [quiet [t .workerRlimit, t .number, t .eol]]
  | .eventsSection =>
      [quiet [t .events, openBrace, n .eventsDirectives, closeBrace],
        quiet [t .events, openBrace, closeBrace]]
  | .eventsDirectives =>
      [quiet [n .eventsDirectives, n .eventsDirective], quiet [n .eventsDirective]]
  | .eventsDirective => [quiet [t .workerConnections, t .number, t .eol]]
  | .httpSection => [acts [t .http, openBrace, n .httpDirectives, closeBrace] fun _ => [.http]]
  | .httpDirectives =>
      [quiet [n .httpDirectives, n .httpDirective], quiet [n .httpDirective]]
  | .httpDirective =>
      [quiet [n .includeDirective], quiet [n .indexDirective], quiet [n .defaultTypeDirective],
        quiet [n .accessLogDirective], quiet [n .errorLogDirective], quiet [n .logFormatDirective],
        quiet [n .sendfileDirective], quiet [n .tcpNopushDirective], quiet [n .keepaliveDirective],
        quiet [n .serverNamesHashBucketSizeDirective], quiet [n .serverSection],
        quiet [n .upstreamDirective], quiet [n .sslDirective], quiet [n .fastcgiParam]]
  | .indexDirective =>
      [quiet [t .index, n .indexFiles, n .indexFile, t .eol],
        quiet [t .index, n .indexFile, t .eol]]
  | .indexFiles =>
      [quiet [n .indexFiles, n .indexFile], quiet [n .indexFile]]
  | .indexFile => [acts [t .name] fun v => [.indexFile (v.text 1)]]
  | .defaultTypeDirective =>
      [acts [t .defaultType, t .path, t .eol] fun v => [.defaultType (v.text 2)]]
  | .sendfileDirective =>
      [quiet [t .sendfile, t .on, t .eol], quiet [t .sendfile, t .off, t .eol]]
  | .tcpNopushDirective =>
      [quiet [t .tcpNopush, t .on, t .eol], quiet [t .tcpNopush, t .off, t .eol]]
  | .keepaliveDirective => [quiet [t .keepaliveTimeout, t .number, t .eol]]
  | .serverNamesHashBucketSizeDirective => [quiet [t .hashBucket, t .number, t .eol]]
  | .logFormatDirective =>
      [quiet [t .logFormat, t .main, n .strings, t .eol], quiet [t .logFormat, n .strings, t .eol]]
  | .strings =>
      [quiet [n .strings, t .quotedString], quiet [t .quotedString]]
  | .serverSection =>
      [acts [t .server, openBrace, n .serverDirectives, closeBrace] fun _ => [.server],
        acts [t .server, openBrace, closeBrace] fun _ => [.server]]
  | .serverDirectives =>
      [quiet [n .serverDirectives, n .serverDirective], quiet [n .serverDirective]]
  | .serverDirective =>
      [quiet [n .serverNameDirective], quiet [n .serverTokensDirective],
        quiet [n .accessLogDirective], quiet [n .errorLogDirective], quiet [n .rootDirective],
        quiet [n .autoindexDirective], quiet [n .locationSection], quiet [n .listenDirective],
        quiet [n .sslDirective], quiet [n .indexDirective], quiet [n .defaultTypeDirective],
        quiet [n .fastcgiParam]]
  | .serverNameDirective => [quiet [t .serverName, n .serverNames, t .eol]]
  | .serverNames =>
      [quiet [n .serverNames, n .serverName], quiet [n .serverName]]
  | .serverName =>
      [acts [t .prefixName] fun v => [.serverName (.token (v.text 1)) .serverNameWildcardPrefix],
        acts [t .suffixName] fun v => [.serverName (.token (v.text 1)) .serverNameWildcardSuffix],
        acts [t .name] fun v => [.serverName (.token (v.text 1)) .serverNameExact]]
  | .serverTokensDirective =>
      [acts [t .serverTokens, t .on, t .eol] fun _ => [.serverTokens true],
        acts [t .serverTokens, t .off, t .eol] fun _ => [.serverTokens false]]
  | .upstreamDirective =>
      [acts [t .upstream, t .name, openBrace, n .upstreams, closeBrace]
          fun v => [.upstreams (v.text 2)]]
  | .upstreams =>
      [quiet [n .upstreams, n .upstream], quiet [n .upstream]]
  | .upstream =>
      [acts [t .server, t .ip, t .port, t .weight, t .equalOperator, t .number, t .eol]
          fun v => [.upstream (v.text 2) (v.port 3) (v.number 6)],
        acts [t .server, t .ip, t .weight, t .equalOperator, t .number, t .eol]
          fun v => [.upstream (v.text 2) 8080 (v.number 5)],
        acts [t .server, t .ip, t .port, t .eol] fun v => [.upstream (v.text 2) (v.port 3) 1],
        acts [t .server, t .ip, t .eol] fun v => [.upstream (v.text 2) 8080 1],
        acts [t .server, t .name, t .port, t .weight, t .equalOperator, t .number, t .eol]
          fun v => [.upstream (v.text 2) (v.port 3) (v.number 6)],
        acts [t .server, t .name, t .weight, t .equalOperator, t .number, t .eol]
          fun v => [.upstream (v.text 2) 8080 (v.number 5)],
        acts [t .server, t .name, t .port, t .eol] fun v => [.upstream (v.text 2) (v.port 3) 1],
        acts [t .server, t .name, t .eol] fun v => [.upstream (v.text 2) 8080 1],
        acts [t .server, t .ip, t .port, t .backup, t .eol]
          fun v => [.upstream (v.text 2) (v.port 3) (-1)],
        acts [t .server, t .ip, t .backup, t .eol] fun v => [.upstream (v.text 2) 8080 (-1)],
        acts [t .server, t .name, t .port, t .backup, t .eol]
          fun v => [.upstream (v.text 2) (v.port 3) (-1)],
        acts [t .server, t .name, t .backup, t .eol] fun v => [.upstream (v.text 2) 8080 (-1)]]
  | .accessLogDirective =>
      [acts [t .accessLog, t .path, t .eol] fun v => [.accessLog (v.text 2)],
        acts [t .accessLog, t .path, t .main, t .eol] fun v => [.accessLog (v.text 2)]]
  | .errorLogDirective => [acts [t .errorLog, t .path, t .eol] fun v => [.errorLog (v.text 2)]]
  | .rootDirective =>
      [acts [t .root, t .path, t .eol] fun v => [.root (.token (v.text 2))],
        acts [t .root, t .name, t .eol] fun v => [.root (.token (v.text 2))]]
  | .sslDirective =>
      [acts [t .sslCertificate, t .path, t .eol] fun v => [.sslCertificate (v.text 2)],
        acts [t .sslCertificateKey, t .path, t .eol] fun v => [.sslCertificateKey (v.text 2)],
        quiet [t .sslSessionTimeout, t .units, t .eol],
        quiet [t .sslSessionTimeout, t .number, t .eol],
        quiet [t .sslSessionCache, t .name, t .eol],
        quiet [t .sslSessionCache, t .off, t .eol],
        quiet [t .sslSessionCache, t .name, t .port, t .eol],
        quiet [t .sslSessionCache, t .builtin, t .eol],
        quiet [t .sslSessionCache, t .shared, t .eol],
        quiet [t .sslSessionCache, t .builtin, t .shared, t .eol],
        quiet [t .sslSessionTickets, t .on, t .eol],
        quiet [t .sslSessionTickets, t .off, t .eol],
        quiet [t .sslPreferServerCiphers, t .on, t .eol],
        quiet [t .sslPreferServerCiphers, t .off, t .eol],
        quiet [t .sslDhparam, t .path, t .eol],
        quiet [t .sslProtocols, n .protocolNames, t .eol],
        quiet [t .sslCiphers, t .dquotedString, t .eol]]
  | .protocolNames =>
      [quiet [n .protocolNames, n .protocolName], quiet [n .protocolName]]
  | .protocolName => [quiet [t .name]]
  | .autoindexDirective =>
      [acts [t .autoindex, t .on, t .eol] fun _ => [.autoindex true],
        acts [t .autoindex, t .off, t .eol] fun _ => [.autoindex false]]
  | .locationSection =>
      [acts [t .location, t .equalOperator, t .path, openBrace, n .locationDirectives, closeBrace]
          fun v => [.location .equalMatch (v.text 3)],
        acts [t .location, t .regexp, openBrace, n .locationDirectives, closeBrace]
          fun v => [.location .regexMatch (v.text 2)],
        acts [t .location, t .path, openBrace, n .locationDirectives, closeBrace]
          fun v => [.location .prefixMatch (v.text 2)]]
  | .locationDirectives =>
      [quiet [n .locationDirectives, n .locationDirective], quiet [n .locationDirective]]
  | .locationDirective =>
      [quiet [n .rootDirective], quiet [n .proxyPassDirective], quiet [n .fastcgiPass],
        quiet [n .fastcgiSplitPathInfo], quiet [n .fastcgiIndex], quiet [n .fastcgiParam],
        quiet [n .expiresDirective], quiet [n .tryFilesDirective], quiet [n .defaultTypeDirective]]
  | .proxyPassDirective =>
      [acts [t .proxyPass, n .protocol, t .name, t .port, t .eol]
          fun v => [.proxyPass (v.text 3) (v.port 4)],
        acts [t .proxyPass, n .protocol, t .ip, t .port, t .eol]
          fun v => [.proxyPass (v.text 3) (v.port 4)],
        acts [t .proxyPass, n .protocol, t .name, t .eol] fun v => [.proxyPass (v.text 3) 0],
        acts [t .proxyPass, n .protocol, t .ip, t .eol] fun v => [.proxyPass (v.text 3) 0]]
  | .fastcgiPass =>
      [acts [t .fastcgiPass, t .name, t .port, t .eol]
          fun v => [.fastcgiPass (v.text 2) (v.port 3)],
        acts [t .fastcgiPass, t .ip, t .port, t .eol]
          fun v => [.fastcgiPass (v.text 2) (v.port 3)],
        acts [t .fastcgiPass, t .name, t .eol] fun v => [.fastcgiPass (v.text 2) 0],
        acts [t .fastcgiPass, t .ip, t .eol] fun v => [.fastcgiPass (v.text 2) 0]]
  | .fastcgiSplitPathInfo => [quiet [t .fastcgiSplitPathInfo, t .regexp, t .eol]]
  | .fastcgiIndex => [quiet [t .fastcgiIndex, t .name, t .eol]]
  | .fastcgiParam =>
      [quiet [t .fastcgiParam, t .name, t .dubVar, t .eol],
        quiet [t .fastcgiParam, t .name, t .path, t .eol],
        quiet [t .fastcgiParam, t .name, t .number, t .eol],
        quiet [t .fastcgiParam, t .name, t .variable, t .eol],
        quiet [t .fastcgiParam, t .name, t .variable, t .variable, t .eol],
        quiet [t .fastcgiParam, t .name, t .path, t .variable, t .eol],
        quiet [t .fastcgiParam, t .name, t .variable, t .name, t .eol]]
  | .tryFilesDirective => [acts [t .tryFiles, n .tryPaths, t .eol] fun _ => [.tryFiles]]
  | .tryPaths =>
      [acts [n .tryPaths, t .path] fun v => [.tryTarget (v.text 2)],
        acts [t .path] fun v => [.tryTarget (v.text 1)],
        acts [n .tryPaths, t .name] fun v => [.tryTarget (v.text 2)],
        acts [t .name] fun v => [.tryTarget (v.text 1)],
        acts [n .tryPaths, t .variable] fun v => [.tryTarget (v.text 2)],
        acts [t .variable] fun v => [.tryTarget (v.text 1)]]
  | .protocol =>
      [acts [t .http1] fun _ => [.protocol (bytes "http")],
        acts [t .https] fun _ => [.protocol (bytes "https")],
        acts [t .http2] fun _ => [.protocol (bytes "http2")]]
  | .expiresDirective =>
      [acts [t .expires, t .units, t .eol] fun v => [.expires (.token (v.text 2))],
        acts [t .expires, t .off, t .eol] fun _ => [.expires (.literal "off")]]
  | .listenDirective => [quiet [t .listen, n .listenOptions, t .eol]]
  | .listenOptions =>
      [quiet [n .listenOptions, n .listenOption], quiet [n .listenOption]]
  | .listenOption =>
      [acts [t .number] fun v => [.listen none (v.number 1)],
        acts [t .name] fun v => [.listen (some (.token (v.text 1))) 0],
        acts [t .wildcard] fun _ => [.listen (some (.literal "*")) 0],
        quiet [t .defaultServer],
        acts [t .ssl] fun _ => [.tls],
        quiet [t .http2L],
        quiet [t .reuseport],
        quiet [n .listenPair]]
  | .listenPair =>
      [acts [t .ip, t .port] fun v => [.listen (some (.token (v.text 1))) (v.port 2)],
        acts [t .name, t .port] fun v => [.listen (some (.token (v.text 1))) (v.port 2)],
        acts [t .wildcard, t .port] fun v => [.listen (some (.literal "*")) (v.port 2)]]

end Grammar

def grammar : Text.Grammar (Token TokenKind) Terminal Nonterminal Action where
  kind := Grammar.terminal
  alternatives := Grammar.alternatives

/-- Bison takes a character that is not positive for the end of the file, and so a zero or
a byte that is negative as a `char`. -/
def endsInput (tok : Token TokenKind) : Bool :=
  match Grammar.terminal tok with
  | .character b => b == 0 || 128 ≤ b.toNat
  | .token _ => false

/-- The tokens that the parser gets from a text that starts at the given place. -/
def parserInput (place : Nat) (text : Bytes) : List (Token TokenKind) :=
  (lexer.scan place text).takeWhile fun tok => !endsInput tok

end OgWebserver.Config

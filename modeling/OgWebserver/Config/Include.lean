import OgWebserver.Config.Lexer
import OgWebserver.Text.Scan

/-!
# Include directives

`expandIncludeFiles.c` copies a configuration line by line and puts the contents of
a file in the place of each line that starts with `include`.  Beside it stands what
the directive means for the scanner: the tokens of the file in the place of the
directive, and the tokens of the text around it.
-/

namespace OgWebserver.Config

open Text

/-! ## Lines -/

/-- The lines that `getline` reads, each with its newline. -/
def lines : Bytes → List Bytes
  | [] => []
  | b :: rest =>
      if b = 10 then [10] :: lines rest
      else
        match lines rest with
        | [] => [[b]]
        | line :: more => (b :: line) :: more

def isBlank (b : UInt8) : Bool :=
  b == 32 || b == 9

/-- Skip spaces and tabs. -/
def skipBlanks (p : Bytes) : Bytes :=
  p.dropWhile isBlank

/-- The file that a line makes `expandFile` include: no file if the line is copied, and
no path if it has no semicolon. -/
def includedFile (line : Bytes) : Option (Option Bytes) :=
  let p := skipBlanks (cString line)
  if (bytes "include").isPrefixOf p then
    let file := skipBlanks (p.drop 7)
    if 59 ∈ file then some (some (file.takeWhile (· ≠ 59))) else some none
  else none

/-- The path that is opened. -/
def includedPath (configDir file : Bytes) : Bytes :=
  if file.head? = some 47 then file else configDir ++ file

/-- The loop of `expandFile`, given what it writes for an included file. -/
def expandLines (included : Bytes → Option Bytes) : List Bytes → Option Bytes
  | [] => some []
  | line :: rest => do
      let text ←
        match includedFile line with
        | none => some (cString line)
        | some none => some []
        | some (some file) => included file
      let more ← expandLines included rest
      some (text ++ more)

/-- `expandFile`, down to the given depth of files; what cannot be opened is ignored. -/
def expandFile (fopen : Bytes → Option Bytes) (configDir : Bytes) : Nat → Bytes → Option Bytes
  | 0, _ => none
  | depth + 1, contents =>
      expandLines (fun file =>
        match fopen (includedPath configDir file) with
        | none => some []
        | some inner => expandFile fopen configDir depth inner) (lines contents)

/-! ## What the directive means -/

/-- The path and the rest of a line that starts with an include directive. -/
def directive? (line : Bytes) : Option (Bytes × Bytes) :=
  let p := skipBlanks line
  let blanks := p.drop 7
  let file := skipBlanks blanks
  if (bytes "include").isPrefixOf p ∧ file ≠ blanks ∧ file.takeWhile isPathByte ≠ [] ∧
      (file.dropWhile isPathByte).head? = some 59 then
    some (file.takeWhile isPathByte, (file.dropWhile isPathByte).tail)
  else none

/-- A stretch of text without include directives: the rest of the line of the directive
in front of it, and whole lines.  The lines that are copied are marked. -/
structure Piece where
  rest : Bytes
  lines : List (Bytes × Bool)
  deriving DecidableEq

namespace Piece

def text (piece : Piece) : Bytes :=
  piece.rest ++ piece.lines.flatMap Prod.fst

/-- What is copied of a piece. -/
def kept (piece : Piece) : Bytes :=
  (piece.lines.filter Prod.snd).flatMap Prod.fst

/-- Which bytes are copied. -/
def marks (piece : Piece) : List Bool :=
  List.replicate piece.rest.length false ++
    piece.lines.flatMap fun line => List.replicate line.1.length line.2

/-- The place that the bytes of a token have among those copied: none, unless all of them
are copied. -/
def placeOf (piece : Piece) (start n : Nat) : Option Nat :=
  if ((piece.marks.drop start).take n).all id then
    some (start - (piece.marks.take start).count false)
  else none

end Piece

/-- The pieces of some lines, given those of an included file, and the piece begun.  A line
that starts with `include` and is no directive stays in its piece, but is not copied. -/
def piecesOf (included : Bytes → Option (List Piece)) : Piece → List Bytes → Option (List Piece)
  | piece, [] => some [piece]
  | piece, line :: more =>
      match directive? line with
      | none =>
          piecesOf included
            { piece with lines := piece.lines ++ [(line, (includedFile line).isNone)] } more
      | some (file, rest) => do
          let inner ← included file
          let later ← piecesOf included { rest := rest, lines := [] } more
          some (piece :: (inner ++ later))

/-- The pieces of a file and of those that it includes, in their order. -/
def pieces (fopen : Bytes → Option Bytes) (configDir : Bytes) : Nat → Bytes → Option (List Piece)
  | 0, _ => none
  | depth + 1, contents =>
      piecesOf (fun file => (fopen (includedPath configDir file)).bind (pieces fopen configDir depth))
        { rest := [], lines := [] } (lines contents)

/-- What is copied of the pieces. -/
def copied (ps : List Piece) : Bytes :=
  ps.flatMap Piece.kept

/-- The tokens of all pieces, each piece scanned for itself, with the places that their
texts have in the copy. -/
def tokensOf : Nat → List Piece → List (Token TokenKind)
  | _, [] => []
  | place, piece :: more =>
      ((lexer.scan 0 piece.text).map fun token =>
        { token with
          place := token.place.bind fun start =>
            (piece.placeOf start token.text.length).map (place + ·) }) ++
        tokensOf (place + piece.kept.length) more

/-- The scanner finds the same tokens in the expanded file as in the pieces, each in the
text that it comes from. -/
def SameTokens (fopen : Bytes → Option Bytes) (configDir : Bytes) (depth : Nat)
    (contents : Bytes) : Prop :=
  ∃ text ps, expandFile fopen configDir depth contents = some text ∧
    pieces fopen configDir depth contents = some ps ∧ lexer.scan 0 text = tokensOf 0 ps

/-- The rest of an include line has no tokens: it is white space, or a comment that ends
with the line. -/
def idleRest (rest : Bytes) : Bool :=
  match skipBlanks rest with
  | [] => true
  | b :: line => b == 10 || (b == 35 && line.contains 10)

/-- Nothing is lost or joined: behind each directive there are no tokens on its line, all
lines that start with `include` are directives, and no token or comment that starts in a
piece could go on in what is copied behind it. -/
def Apart : List Piece → Prop
  | [] => True
  | piece :: more =>
      idleRest piece.rest = true ∧ piece.lines.all Prod.snd = true ∧
        lexer.Separate piece.kept (copied more) ∧ Apart more

end OgWebserver.Config

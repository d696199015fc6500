import Braceless.Token

/-!
# From text to tokens

Lexing never fails.  `pieces` divides a text into blanks and lexemes, the longest lexeme first, and loses no
character; `place` then gives every lexeme its position.  What is wrong with a lexeme (a character that
starts no token, a quoted literal that its line does not close) is a fault of that lexeme, and the faults are
listed beside the tokens.

## Main definitions

* `Lexeme.front`: the lexeme at the front of a text that does not start with a blank.
* `pieces`: a text as blanks and lexemes.
* `lex`: tokens and lexical errors of a text.

## Main results

* `flatMap_chars_pieces`: the pieces of a text, joined, are the text.
-/

namespace Braceless

/-! ## Lexical errors -/

/-- What can be wrong with a lexeme. -/
inductive LexicalFault where
  /-- A character that starts no token. -/
  | unexpectedCharacter
  /-- A double-quoted literal that is not closed on its line. -/
  | unterminatedString
  /-- A single-quoted literal that is not closed on its line. -/
  | unterminatedChar
deriving DecidableEq, Repr

namespace LexicalFault

/-- The name of a fault in reports. -/
def tag : LexicalFault → String
  | unexpectedCharacter => "unexpected_character"
  | unterminatedString => "unterminated_string"
  | unterminatedChar => "unterminated_char"

/-- A fault in prose. -/
def describe : LexicalFault → String
  | unexpectedCharacter => "unexpected character"
  | unterminatedString => "unterminated string literal"
  | unterminatedChar => "unterminated char literal"

end LexicalFault

/-- A faulty lexeme: its fault, its first character and where that stands. -/
structure LexicalError where
  fault : LexicalFault
  character : Char
  pos : Position
deriving DecidableEq, Repr

/-- A lexical error in prose, with its place. -/
def LexicalError.message (e : LexicalError) : String :=
  e.fault.describe ++ " '" ++ e.character.toString ++ "' at " ++ e.pos.phrase

/-! ## Lexemes -/

/-- The characters between lexemes: space, tab, carriage return, line feed and the byte order mark. -/
def isBlank (c : Char) : Bool :=
  c == ' ' || c == '\t' || c == '\r' || c == '\n' || c == '\uFEFF'

/-- The characters that start a word. -/
def isWordStart (c : Char) : Bool :=
  c.isAlpha || c == '_'

/-- The characters that continue a word. -/
def isWordPart (c : Char) : Bool :=
  c.isAlphanum || c == '_'

/-- The operators of two characters. -/
def pairOperator? : Char → Char → Option Token.Kind
  | '=', '=' => some .equal
  | '!', '=' => some .notEqual
  | '>', '=' => some .greaterEqual
  | '<', '=' => some .lessEqual
  | '+', '+' => some .increment
  | '-', '-' => some .decrement
  | '+', '=' => some .plusAssign
  | '-', '=' => some .minusAssign
  | '&', '&' => some .and
  | '|', '|' => some .or
  | _, _ => none

/-- The operators and brackets of one character. -/
def singleOperator? : Char → Option Token.Kind
  | '\x7b' => some .lBrace
  | '\x7d' => some .rBrace
  | '(' => some .lParen
  | ')' => some .rParen
  | '[' => some .lBracket
  | ']' => some .rBracket
  | ';' => some .semicolon
  | ',' => some .comma
  | '.' => some .dot
  | '=' => some .assign
  | '+' => some .plus
  | '-' => some .minus
  | '*' => some .star
  | '/' => some .slash
  | '%' => some .percent
  | '>' => some .greater
  | '<' => some .less
  | '!' => some .not
  | _ => none

/-- What a lexeme is, how far it reaches and what is wrong with it. -/
structure Extent where
  kind : Token.Kind
  /-- The number of characters after the first one. -/
  more : Nat
  fault : Option LexicalFault
deriving DecidableEq, Repr

/-- How many characters a run of `p` at the front of a text has. -/
def runLength (p : Char → Bool) (cs : List Char) : Nat :=
  (cs.takeWhile p).length

/-- The length of a block comment after its opening pair: through the closing pair, or to the end. -/
def blockCommentLength : List Char → Nat
  | [] => 0
  | '*' :: '/' :: _ => 2
  | _ :: cs => blockCommentLength cs + 1

/-- The length of a quoted literal after its opening quote, and whether it is closed.  It ends with the
closing quote or before the end of its line.  A backslash takes the next character with it, unless that
starts a new line. -/
def quotedLength (quote : Char) : List Char → Nat × Bool
  | [] => (0, false)
  | c :: cs =>
    if c = '\n' then (0, false)
    else if c = '\\' then
      match cs with
      | [] => (1, false)
      | d :: ds =>
        if d = '\n' then (1, false)
        else
          let rest := quotedLength quote ds
          (rest.1 + 2, rest.2)
    else if c = quote then (1, true)
    else
      let rest := quotedLength quote cs
      (rest.1 + 1, rest.2)

/-- The extent of a number: digits, and a fraction if a digit follows the point. -/
def numberExtent (cs : List Char) : Extent :=
  let whole := runLength Char.isDigit cs
  match cs.drop whole with
  | '.' :: d :: ds =>
    if d.isDigit then ⟨.decimal, whole + 2 + runLength Char.isDigit ds, none⟩
    else ⟨.integer, whole, none⟩
  | _ => ⟨.integer, whole, none⟩

/-- The extent of a literal in the given quotes. -/
def quotedExtent (quote : Char) (kind : Token.Kind) (unclosed : LexicalFault) (cs : List Char) :
    Extent :=
  let (more, closed) := quotedLength quote cs
  ⟨kind, more, if closed then none else some unclosed⟩

/-- The extent of a word, which is a keyword or an identifier. -/
def wordExtent (c : Char) (cs : List Char) : Extent :=
  let more := runLength isWordPart cs
  ⟨if isKeyword (String.ofList (c :: cs.take more)) then .keyword else .identifier, more, none⟩

/-- The extent of an operator, of two characters where possible; any other character stands alone. -/
def operatorExtent (c : Char) (cs : List Char) : Extent :=
  match cs.head?.bind (pairOperator? c) with
  | some kind => ⟨kind, 1, none⟩
  | none =>
    match singleOperator? c with
    | some kind => ⟨kind, 0, none⟩
    | none => ⟨.invalid, 0, some .unexpectedCharacter⟩

/-- The extent of the lexeme that starts with `c`, a character that is not blank, and goes on in `cs`. -/
def extent (c : Char) (cs : List Char) : Extent :=
  if c = '/' ∧ cs.head? = some '/' then ⟨.comment, runLength (· != '\n') cs, none⟩
  else if c = '/' ∧ cs.head? = some '*' then ⟨.comment, blockCommentLength cs.tail + 1, none⟩
  else if c.isDigit then numberExtent cs
  else if c = '"' then quotedExtent c .string .unterminatedString cs
  else if c = '\'' then quotedExtent c .char .unterminatedChar cs
  else if isWordStart c then wordExtent c cs
  else operatorExtent c cs

/-- A lexeme: one or more characters of one kind. -/
structure Lexeme where
  kind : Token.Kind
  first : Char
  /-- The characters after the first one. -/
  others : List Char
  fault : Option LexicalFault
deriving DecidableEq, Repr

namespace Lexeme

/-- The lexeme at the front of the text `c :: cs`, where `c` is not blank. -/
def front (c : Char) (cs : List Char) : Lexeme :=
  let e := extent c cs
  ⟨e.kind, c, cs.take e.more, e.fault⟩

/-- All characters of a lexeme. -/
def chars (l : Lexeme) : List Char :=
  l.first :: l.others

/-- A lexeme at a position is a token. -/
def token (l : Lexeme) (pos : Position) : Token :=
  ⟨l.kind, String.ofList l.chars, pos⟩

/-- The error of a lexeme at a position, if it is faulty. -/
def error? (l : Lexeme) (pos : Position) : Option LexicalError :=
  l.fault.map fun fault => ⟨fault, l.first, pos⟩

end Lexeme

/-! ## Texts as pieces -/

/-- A piece of a text. -/
inductive Piece where
  | blank (c : Char)
  | lexeme (l : Lexeme)
deriving DecidableEq, Repr

/-- The characters of a piece. -/
def Piece.chars : Piece → List Char
  | .blank c => [c]
  | .lexeme l => l.chars

/-- A text as blanks and lexemes. -/
def pieces : List Char → List Piece
  | [] => []
  | c :: cs =>
    if isBlank c then .blank c :: pieces cs
    else .lexeme (Lexeme.front c cs) :: pieces (cs.drop (extent c cs).more)
termination_by cs => cs.length
decreasing_by
  · exact Nat.lt_succ_self _
  · rw [List.length_drop]
    exact Nat.lt_succ_of_le (Nat.sub_le _ _)

theorem flatMap_chars_pieces (cs : List Char) : (pieces cs).flatMap Piece.chars = cs := by
  fun_induction pieces cs with
  | case1 => rfl
  | case2 c cs _ ih => simp [Piece.chars, ih]
  | case3 c cs _ ih => simp [Piece.chars, Lexeme.chars, Lexeme.front, ih]

/-! ## Tokens -/

/-- The tokens of a text and what is wrong with them, both in the order of the text. -/
structure Lexed where
  tokens : List Token
  errors : List LexicalError
deriving DecidableEq, Repr

/-- The tokens of pieces that start at `pos`, closed by the end marker, and their errors. -/
def place (pos : Position) : List Piece → Lexed
  | [] => ⟨[⟨.eof, "", pos⟩], []⟩
  | .blank c :: ps => place (pos.step c) ps
  | .lexeme l :: ps =>
    let rest := place (pos.after l.chars) ps
    ⟨l.token pos :: rest.tokens, (l.error? pos).toList ++ rest.errors⟩

/-- The tokens and lexical errors of a text. -/
def lex (source : String) : Lexed :=
  place .start (pieces source.toList)

end Braceless

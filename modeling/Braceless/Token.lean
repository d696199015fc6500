import Braceless.Position

/-!
# Tokens

A token is a kind, the exact text it covers and the position of its first character.  Comments and invalid
characters are tokens too, so that nothing of a text is lost; they are *trivia*, which no grammar rule sees.

## Main definitions

* `Token.Kind` and its three spellings: `tag` in reports, `label` in listings, `describe` in prose.
* `Token.isWord`: a keyword or identifier with a given spelling.
* `keywords`: the words that are not identifiers.
-/

namespace Braceless

namespace Token

/-- What a token is. -/
inductive Kind where
  | keyword
  | identifier
  | integer
  | decimal
  | string
  | char
  | lBrace
  | rBrace
  | lParen
  | rParen
  | lBracket
  | rBracket
  | semicolon
  | comma
  | dot
  | assign
  | plusAssign
  | minusAssign
  | plus
  | minus
  | star
  | slash
  | percent
  | equal
  | notEqual
  | greater
  | less
  | greaterEqual
  | lessEqual
  | increment
  | decrement
  | and
  | or
  | not
  | comment
  /-- One character that starts no token. -/
  | invalid
  /-- The end of the input. -/
  | eof
deriving DecidableEq, Repr, Inhabited

namespace Kind

/-- Every kind, in a fixed order. -/
def all : List Kind :=
  [keyword, identifier, integer, decimal, string, char,
   lBrace, rBrace, lParen, rParen, lBracket, rBracket, semicolon, comma, dot,
   assign, plusAssign, minusAssign, plus, minus, star, slash, percent,
   equal, notEqual, greater, less, greaterEqual, lessEqual,
   increment, decrement, and, or, not, comment, invalid, eof]

theorem mem_all (k : Kind) : k ∈ all := by
  cases k <;> decide

/-- The name of a kind in reports. -/
def tag : Kind → String
  | keyword => "KEYWORD"
  | identifier => "IDENTIFIER"
  | integer => "INTEGER"
  | decimal => "DECIMAL"
  | string => "STRING"
  | char => "CHAR"
  | lBrace => "L_BRACE"
  | rBrace => "R_BRACE"
  | lParen => "L_PAREN"
  | rParen => "R_PAREN"
  | lBracket => "L_BRACKET"
  | rBracket => "R_BRACKET"
  | semicolon => "SEMICOLON"
  | comma => "COMMA"
  | dot => "DOT"
  | assign => "ASSIGN"
  | plusAssign => "PLUS_ASSIGN"
  | minusAssign => "MINUS_ASSIGN"
  | plus => "PLUS"
  | minus => "MINUS"
  | star => "STAR"
  | slash => "SLASH"
  | percent => "PERCENT"
  | equal => "EQUAL"
  | notEqual => "NOT_EQUAL"
  | greater => "GREATER"
  | less => "LESS"
  | greaterEqual => "GREATER_EQUAL"
  | lessEqual => "LESS_EQUAL"
  | increment => "INCREMENT"
  | decrement => "DECREMENT"
  | and => "AND"
  | or => "OR"
  | not => "NOT"
  | comment => "COMMENT"
  | invalid => "ERROR"
  | eof => "EOF"

/-- The kind with a given name in reports. -/
def ofTag? (name : String) : Option Kind :=
  all.find? (·.tag == name)

/-- The name of a kind in token listings. -/
def label : Kind → String
  | keyword => "Keyword"
  | identifier => "Identifier"
  | integer => "Integer"
  | decimal => "Decimal"
  | string => "String"
  | char => "Char"
  | lBrace => "LBrace"
  | rBrace => "RBrace"
  | lParen => "LParen"
  | rParen => "RParen"
  | lBracket => "LBracket"
  | rBracket => "RBracket"
  | semicolon => "Semicolon"
  | comma => "Comma"
  | dot => "Dot"
  | assign => "Assign"
  | plusAssign => "PlusAssign"
  | minusAssign => "MinusAssign"
  | plus => "Plus"
  | minus => "Minus"
  | star => "Star"
  | slash => "Slash"
  | percent => "Percent"
  | equal => "Equal"
  | notEqual => "NotEqual"
  | greater => "Greater"
  | less => "Less"
  | greaterEqual => "GreaterEqual"
  | lessEqual => "LessEqual"
  | increment => "Increment"
  | decrement => "Decrement"
  | and => "And"
  | or => "Or"
  | not => "Not"
  | comment => "Comment"
  | invalid => "Error"
  | eof => "Eof"

/-- A kind in prose: its one spelling in quotes, if it has only one. -/
def describe : Kind → String
  | keyword => "keyword"
  | identifier => "identifier"
  | integer => "integer literal"
  | decimal => "decimal literal"
  | string => "string literal"
  | char => "char literal"
  | lBrace => "'\x7b'"
  | rBrace => "'\x7d'"
  | lParen => "'('"
  | rParen => "')'"
  | lBracket => "'['"
  | rBracket => "']'"
  | semicolon => "';'"
  | comma => "','"
  | dot => "'.'"
  | assign => "'='"
  | plusAssign => "'+='"
  | minusAssign => "'-='"
  | plus => "'+'"
  | minus => "'-'"
  | star => "'*'"
  | slash => "'/'"
  | percent => "'%'"
  | equal => "'=='"
  | notEqual => "'!='"
  | greater => "'>'"
  | less => "'<'"
  | greaterEqual => "'>='"
  | lessEqual => "'<='"
  | increment => "'++'"
  | decrement => "'--'"
  | and => "'&&'"
  | or => "'||'"
  | not => "'!'"
  | comment => "comment"
  | invalid => "invalid character"
  | eof => "end of input"

/-- Comments and invalid characters carry no grammar. -/
def isTrivia : Kind → Bool
  | comment | invalid => true
  | _ => false

end Kind

end Token

/-- A piece of a text with its kind and place. -/
structure Token where
  kind : Token.Kind
  /-- The exact characters of the token; empty at the end of the input. -/
  text : String
  /-- Where the first character stands. -/
  pos : Position
deriving DecidableEq, Repr, Inhabited

namespace Token

/-- Whether no grammar rule sees this token. -/
def isTrivia (t : Token) : Bool :=
  t.kind.isTrivia

/-- Whether this is a keyword or an identifier with the given spelling. -/
def isWord (t : Token) (word : String) : Bool :=
  (t.kind == .keyword || t.kind == .identifier) && t.text == word

/-- The form of a token in listings, with its position. -/
def display (t : Token) : String :=
  if t.kind = .eof then "EOF at " ++ t.pos.text
  else t.kind.label ++ "(" ++ t.text ++ ") at " ++ t.pos.text

end Token

/-- The words that are keywords wherever they stand. -/
def keywords : List String :=
  ["public", "class", "static", "void", "main", "String", "int", "double", "char", "boolean",
   "true", "false", "if", "else", "for", "while", "System", "out", "println"]

/-- Whether a word is a keyword. -/
def isKeyword (word : String) : Bool :=
  keywords.contains word

end Braceless

import Braceless.Token

/-!
# Syntax errors

What can be wrong with a token list, and the wording of it.

## Main definitions

* `SyntaxFault`: the causes.
* `SyntaxError`: a cause with the token at which it was found.
* `maxNesting`: how deep a program may nest.
-/

namespace Braceless

/-- How many levels of blocks, brackets and operators may be open at once. -/
def maxNesting : Nat := 256

/-- What can be wrong at a token. -/
inductive SyntaxFault where
  /-- A required token is missing. -/
  | expected (what : String)
  /-- The token starts no statement. -/
  | unrecognizedStatement
  /-- The token starts no expression. -/
  | invalidExpression
  /-- The name was declared before. -/
  | redeclared (name : String)
  /-- The name is used before it is declared. -/
  | undeclared (name : String)
  /-- The token stands after the end of the class. -/
  | trailingInput
  /-- More than `maxNesting` levels are open. -/
  | nestingTooDeep
deriving DecidableEq, Repr

/-- A fault in prose. -/
def SyntaxFault.describe : SyntaxFault → String
  | expected what => "expected " ++ what
  | unrecognizedStatement => "unrecognized statement"
  | invalidExpression => "invalid expression"
  | redeclared name => "variable '" ++ name ++ "' was already declared"
  | undeclared name => "variable '" ++ name ++ "' has not been declared"
  | trailingInput => "expected end of input after class"
  | nestingTooDeep => "nesting exceeds the limit of " ++ toString maxNesting ++ " levels"

/-- A fault, what was found instead, and where. -/
structure SyntaxError where
  fault : SyntaxFault
  found : String
  pos : Position
deriving DecidableEq, Repr

namespace SyntaxError

/-- The error of a fault at a token. -/
def ofToken (fault : SyntaxFault) (t : Token) : SyntaxError :=
  ⟨fault, if t.kind = .eof then Token.Kind.eof.describe else t.text, t.pos⟩

/-- A syntax error in prose, with its place. -/
def message (e : SyntaxError) : String :=
  e.fault.describe ++ ", found '" ++ e.found ++ "' at " ++ e.pos.phrase

end SyntaxError

end Braceless

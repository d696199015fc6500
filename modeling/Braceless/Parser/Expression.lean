import Braceless.Parser.Nesting

/-!
# Parsing expressions

Six levels of binary operators, all of which associate to the left, around unary operators and factors.
Every bracketed or nested part takes a level of nesting, and so does every operator that is added to a chain:
the recursion is on the room that is left, and within the same room on the levels of operators.

## Main definitions

* `operatorLevels`: the binary operators, loosest first.
* `literalBody`: what stands between the quotes of a literal.
* `expression`: an expression within the given room.
-/

namespace Braceless

namespace Parser

/-- Binary operators that bind equally, each with its token. -/
abbrev OperatorLevel := List (Token.Kind × BinaryOp)

/-- The levels of binary operators, loosest first. -/
def operatorLevels : List OperatorLevel :=
  [[(.or, .or)],
   [(.and, .and)],
   [(.equal, .eq), (.notEqual, .notEq)],
   [(.greater, .gt), (.less, .lt), (.greaterEqual, .gtEq), (.lessEqual, .ltEq)],
   [(.plus, .add), (.minus, .sub)],
   [(.star, .mul), (.slash, .div), (.percent, .rem)]]

/-- The unary operator of a token. -/
def unaryOp? : Token.Kind → Option UnaryOp
  | .not => some .not
  | .minus => some .neg
  | _ => none

/-- The characters before the first unescaped closing quote, or all of them. -/
def beforeQuote (quote : Char) : List Char → List Char
  | [] => []
  | '\\' :: c :: cs => '\\' :: c :: beforeQuote quote cs
  | c :: cs => if c = quote ∧ c ≠ '\\' then [] else c :: beforeQuote quote cs

/-- What stands between the quotes of a literal; its first character is the quote. -/
def literalBody (text : String) : String :=
  match text.toList with
  | [] => ""
  | quote :: cs => String.ofList (beforeQuote quote cs)

/-- The operator of a level that the current token is. -/
def operatorHere (ops : OperatorLevel) : Parse (Option BinaryOp) :=
  return ops.lookup (← current).kind

/-- Reads the current token as a literal. -/
def literalHere (kind : Literal.Kind) (value : String) : Parse Expr := do
  advance
  return .literal ⟨kind, value⟩

/-- Reports the current token as no expression, and leaves it. -/
def noExpression : Parse Expr := do
  report .invalidExpression
  return .invalid (← placeholder)

/-- Operands joined by operators of the given levels, where `operand` reads what stands between all of them and
`go` goes on after a left operand. -/
def joined (operand : Parse Expr) (go : OperatorLevel → List OperatorLevel → Expr → Parse Expr) :
    List OperatorLevel → Parse Expr
  | [] => operand
  | ops :: tighter => do
    let left ← joined operand go tighter
    go ops tighter left

mutual

/-- An expression, within a level of its own. -/
def expression (room : Nat) : Parse Expr :=
  nested room (fun inner _ => binary inner operatorLevels) skipExpression
termination_by room * 4

/-- Operands joined by operators of the given levels. -/
def binary (room : Nat) (levels : List OperatorLevel) : Parse Expr :=
  joined (unary room) (chain room) levels
termination_by room * 4 + 3

/-- Goes on after `left` with operators of one level, each within one more level of nesting. -/
def chain (room : Nat) (ops : OperatorLevel) (tighter : List OperatorLevel) (left : Expr) :
    Parse Expr := do
  match ← operatorHere ops with
  | none => return left
  | some op =>
    nested room
      (fun inner _ => do
        advance
        let right ← binary inner tighter
        chain inner ops tighter (.binary op left right))
      (do
        discard skipExpression
        return left)
termination_by room * 4

/-- A factor behind any number of unary operators. -/
def unary (room : Nat) : Parse Expr := do
  let t ← current
  match unaryOp? t.kind with
  | none => factor room
  | some op =>
    nested room
      (fun inner _ => do
        advance
        return .unary op (← unary inner))
      skipExpression
termination_by room * 4 + 2

/-- A literal, a variable or a bracketed expression.  Any other token is reported and stays. -/
def factor (room : Nat) : Parse Expr := do
  let t ← current
  match t.kind with
  | .integer => literalHere .int t.text
  | .decimal => literalHere .double t.text
  | .char => literalHere .char (literalBody t.text)
  | .string => literalHere .str (literalBody t.text)
  | .keyword =>
    if t.text = "true" ∨ t.text = "false" then literalHere .boolean t.text else noExpression
  | .identifier =>
    checkDeclared t
    advance
    return .identifier t.text t.pos
  | .lParen =>
    advance
    let inner ← expression room
    discard (expect .rParen "')' to close expression")
    return .group inner
  | _ => noExpression
termination_by room * 4 + 1

end

end Parser

end Braceless

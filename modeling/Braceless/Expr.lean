import Braceless.Position

/-!
# Expressions

The expression trees of the brace language.  Literals keep their spelling, brackets are nodes of their own,
and a place where no expression could be read holds a placeholder.

## Main definitions

* `BinaryOp`, `UnaryOp`, `Literal`, `Placeholder`: the parts of a tree.
* `Expr`: the trees.
* `Expr.identifiers`: the names of a tree, from left to right.
-/

namespace Braceless

/-- The binary operators. -/
inductive BinaryOp where
  | add
  | sub
  | mul
  | div
  | rem
  | eq
  | notEq
  | gt
  | lt
  | gtEq
  | ltEq
  | and
  | or
deriving DecidableEq, Repr

namespace BinaryOp

/-- Every binary operator, in a fixed order. -/
def all : List BinaryOp :=
  [add, sub, mul, div, rem, eq, notEq, gt, lt, gtEq, ltEq, and, or]

theorem mem_all (op : BinaryOp) : op ∈ all := by
  cases op <;> decide

/-- The name of an operator in reports. -/
def tag : BinaryOp → String
  | add => "Add"
  | sub => "Sub"
  | mul => "Mul"
  | div => "Div"
  | rem => "Rem"
  | eq => "Eq"
  | notEq => "NotEq"
  | gt => "Gt"
  | lt => "Lt"
  | gtEq => "GtEq"
  | ltEq => "LtEq"
  | and => "And"
  | or => "Or"

/-- The spelling of an operator in the brace language. -/
def symbol : BinaryOp → String
  | add => "+"
  | sub => "-"
  | mul => "*"
  | div => "/"
  | rem => "%"
  | eq => "=="
  | notEq => "!="
  | gt => ">"
  | lt => "<"
  | gtEq => ">="
  | ltEq => "<="
  | and => "&&"
  | or => "||"

/-- The operator with a given spelling. -/
def ofSymbol? (s : String) : Option BinaryOp :=
  all.find? (·.symbol == s)

end BinaryOp

/-- The unary operators. -/
inductive UnaryOp where
  | not
  | neg
deriving DecidableEq, Repr

namespace UnaryOp

/-- The name of an operator in reports. -/
def tag : UnaryOp → String
  | not => "Not"
  | neg => "Neg"

/-- The operator with a given spelling in the brace language. -/
def ofSymbol? : String → Option UnaryOp
  | "!" => some not
  | "-" => some neg
  | _ => none

end UnaryOp

/-- The kinds of literals. -/
inductive Literal.Kind where
  | int
  | double
  | char
  | str
  | boolean
deriving DecidableEq, Repr

namespace Literal.Kind

/-- Every kind of literal. -/
def all : List Literal.Kind :=
  [int, double, char, str, boolean]

theorem mem_all (k : Literal.Kind) : k ∈ all := by
  cases k <;> decide

/-- The name of a kind in reports. -/
def tag : Literal.Kind → String
  | int => "int"
  | double => "double"
  | char => "char"
  | str => "str"
  | boolean => "boolean"

/-- The kind with a given name in reports. -/
def ofTag? (name : String) : Option Literal.Kind :=
  all.find? (·.tag == name)

end Literal.Kind

/-- A literal as it is spelled.  The value of a quoted literal is what stands between the quotes, with
its escapes as they are written. -/
structure Literal where
  kind : Literal.Kind
  value : String
deriving DecidableEq, Repr

/-- What stands in a tree for a token that could not be used. -/
structure Placeholder where
  text : String
  pos : Position
deriving DecidableEq, Repr

/-- The expressions. -/
inductive Expr where
  | binary (op : BinaryOp) (left right : Expr)
  | unary (op : UnaryOp) (operand : Expr)
  /-- A bracketed expression. -/
  | group (inner : Expr)
  | literal (value : Literal)
  | identifier (name : String) (pos : Position)
  | invalid (placeholder : Placeholder)
deriving DecidableEq, Repr

namespace Expr

/-- The names that an expression uses, from left to right and with repeats. -/
def identifiers : Expr → List String
  | binary _ left right => left.identifiers ++ right.identifiers
  | unary _ operand => operand.identifiers
  | group inner => inner.identifiers
  | literal _ => []
  | identifier name _ => [name]
  | invalid _ => []

end Expr

end Braceless

import Braceless.Expr

/-!
# Expressions of the indentation language

The target of rendering is Python.  Its expression trees hold every pair of brackets that is written, so that
the text of a tree is a plain walk over it; which brackets are needed is decided where the trees are made.

## Main definitions

* `reserved`, `safeName`: names that a variable may have.
* `BinaryOp.spelling`, `BinaryOp.strength`: the operators in the target.
* `Target.Expr`, `Target.Expr.text`: the trees and their text.
-/

namespace Braceless

namespace Target

/-! ## Names -/

/-- The words that are no variable names: keywords, and the functions that the output calls. -/
def reserved : List String :=
  ["False", "None", "True", "and", "as", "assert", "async", "await", "break", "class",
   "continue", "def", "del", "elif", "else", "except", "finally", "for", "from", "global", "if",
   "import", "in", "is", "lambda", "nonlocal", "not", "or", "pass", "print", "raise", "range",
   "return", "try", "while", "with", "yield"]

/-- The name of a variable in the output: a reserved word gets an underscore at its end. -/
def safeName (name : String) : String :=
  if reserved.contains name then name ++ "_" else name

end Target

/-! ## Operators -/

namespace BinaryOp

/-- The spelling of an operator in the target. -/
def spelling : BinaryOp → String
  | and => "and"
  | or => "or"
  | op => op.symbol

/-- How tightly an operator binds in the target, loosest first.  The comparisons share one level. -/
def strength : BinaryOp → Nat
  | or => 1
  | and => 2
  | eq | notEq | gt | lt | gtEq | ltEq => 3
  | add | sub => 4
  | mul | div | rem => 5

/-- Whether an operator compares.  The target reads a run of comparisons as one chained test. -/
def isComparison (op : BinaryOp) : Bool :=
  op.strength == 3

end BinaryOp

namespace Target

/-! ## Trees -/

/-- The expressions of the target, with every pair of brackets. -/
inductive Expr where
  | name (text : String)
  | number (text : String)
  | quoted (quote : Char) (body : String)
  | truth (value : Bool)
  /-- The value `None`. -/
  | nothing
  | not (operand : Expr)
  | neg (operand : Expr)
  | brackets (inner : Expr)
  | binary (op : BinaryOp) (left right : Expr)
deriving DecidableEq, Repr

namespace Expr

/-- The text of an expression. -/
def text : Expr → String
  | name text => text
  | number text => text
  | quoted quote body => quote.toString ++ body ++ quote.toString
  | truth value => if value then "True" else "False"
  | nothing => "None"
  | not operand => "not " ++ operand.text
  | neg operand => "-" ++ operand.text
  | brackets inner => "(" ++ inner.text ++ ")"
  | binary op left right => left.text ++ " " ++ op.spelling ++ " " ++ right.text

end Expr

end Target

end Braceless

import Braceless.Program

/-!
# Building trees without a text

Trees that no text stands behind carry the position of the start of a text.

## Main definitions

* `Expr.ofLiteral`, `Expr.ofInt`, `Expr.ofBool`, `Expr.var`: leaves.
* `Assignment.set`, `Assignment.step`: assignments.
* `IfStatement.when`, `IfStatement.otherwise`, `IfStatement.followedBy`: conditionals, branch by branch.
* `Stmt.println`, `Stmt.counting`: two statements in their usual form.
-/

namespace Braceless

namespace Expr

/-- The literal of a given kind and spelling. -/
def ofLiteral (kind : Literal.Kind) (value : String) : Expr :=
  .literal ⟨kind, value⟩

/-- The literal of an integer, in decimal. -/
def ofInt (n : Int) : Expr :=
  ofLiteral .int (toString n)

/-- The literal of a truth value. -/
def ofBool (b : Bool) : Expr :=
  ofLiteral .boolean (if b then "true" else "false")

/-- A variable. -/
def var (name : String) : Expr :=
  .identifier name .start

/-- The placeholder of a text. -/
def placeholder (text : String) : Expr :=
  .invalid ⟨text, .start⟩

end Expr

namespace Assignment

/-- `name = value` -/
def set (name : String) (value : Expr) : Assignment :=
  ⟨name, value, .start⟩

/-- The update of a variable by a constant: `name = name + k`, or `name = name - k` to step down. -/
def step (name : String) (amount : Int) : Assignment :=
  set name (.binary (if amount < 0 then .sub else .add) (.var name) (.ofInt amount.natAbs))

end Assignment

namespace Declaration

/-- The declaration of a variable, with or without a first value. -/
def make (dataType : DataType) (name : String) (value : Option Expr) : Declaration :=
  ⟨dataType, name, value, .start⟩

end Declaration

namespace IfStatement

/-- A conditional with one branch. -/
def when (condition : Expr) (thenBody : List Stmt) : IfStatement :=
  ⟨condition, thenBody, .none, .start⟩

/-- The conditional with `body` as its last branch, in place of any branches after the first. -/
def otherwise (i : IfStatement) (body : List Stmt) : IfStatement :=
  { i with orElse := .block body }

/-- The conditional followed by another one, in place of any branches after the first. -/
def followedBy (i next : IfStatement) : IfStatement :=
  { i with orElse := .elseIf next }

end IfStatement

namespace Stmt

/-- Output of a value and a line end. -/
def println (value : Expr) : Stmt :=
  .print (some value) true .start

/-- A loop over an integer variable that it declares. -/
def counting (name : String) (first condition : Expr) (update : Assignment) (body : List Stmt) :
    Stmt :=
  .forLoop (.declaration (.make .int name (some first))) condition (some update) body .start

end Stmt

end Braceless

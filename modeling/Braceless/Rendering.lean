import Braceless.Program
import Braceless.Token
import Braceless.Target.Stmt
import Braceless.Target.Comment

/-!
# From the brace language to the indentation language

Trees are lowered to trees of the target, which are then written out line by line.  Lowering puts brackets where
the target would otherwise read an expression differently, gives a value to every declaration, turns a counting
loop into a loop over `range`, and fills empty blocks.

## Main definitions

* `Expr.lower`: expressions, with the brackets they need.
* `rangeStop`, `rangeStep`: a counting loop as a range.
* `Stmt.lower`, `Program.lower`: statements.
* `Program.render`: the text of a program, behind its comments.
-/

namespace Braceless

/-! ## Expressions -/

namespace Literal

/-- The form of a literal in the target. -/
def lower (l : Literal) : Target.Expr :=
  match l.kind with
  | .int | .double => .number l.value
  | .char => .quoted '\'' l.value
  | .str => .quoted '"' l.value
  | .boolean => .truth (l.value == "true")

end Literal

namespace Expr

/-- Whether an operand needs brackets, where `loose` says which strengths are too loose for its place.  In
the target a negation binds looser than every other operator. -/
def needsBrackets (loose : Nat → Bool) : Expr → Bool
  | binary op _ _ => loose op.strength
  | unary .not _ => true
  | _ => false

/-- Whether an expression is an operation on two operands. -/
def isBinary : Expr → Bool
  | binary .. => true
  | _ => false

/-- Whether an expression stands alone without brackets. -/
def isAtom : Expr → Bool
  | literal _ | identifier .. | group _ => true
  | _ => false

end Expr

/-- Puts brackets around an expression of the target. -/
def Target.Expr.bracketsIf (wrap : Bool) (e : Target.Expr) : Target.Expr :=
  if wrap then .brackets e else e

namespace Expr

/-- Too loose as a left operand of `op`: operators of one strength group to the left, but comparisons do not
group at all. -/
def looseOnLeft (op : BinaryOp) (strength : Nat) : Bool :=
  strength < op.strength || op.isComparison && strength == op.strength

/-- Too loose as a right operand of `op`. -/
def looseOnRight (op : BinaryOp) (strength : Nat) : Bool :=
  strength ≤ op.strength

/-- The form of an expression in the target. -/
def lower : Expr → Target.Expr
  | binary op left right =>
    .binary op (left.lower.bracketsIf (left.needsBrackets (looseOnLeft op)))
      (right.lower.bracketsIf (right.needsBrackets (looseOnRight op)))
  | unary .not operand => .not (operand.lower.bracketsIf operand.isBinary)
  | unary .neg operand => .neg (operand.lower.bracketsIf operand.isBinary)
  | group inner => .brackets inner.lower
  | literal l => l.lower
  | identifier name _ => .name (Target.safeName name)
  | invalid _ => .nothing

end Expr

/-! ## Loops -/

/-- The value of a variable that is declared without one. -/
def DataType.defaultValue : DataType → Target.Expr
  | int => .number "0"
  | double => .number "0.0"
  | char => .quoted '\'' " "
  | string => .quoted '"' ""
  | boolean => .truth false

/-- The first value of a declared variable. -/
def Declaration.lowerValue (d : Declaration) : Target.Expr :=
  match d.value with
  | some value => value.lower
  | none => d.dataType.defaultValue

/-- The first value of a loop variable. -/
def ForInit.lowerValue : ForInit → Target.Expr
  | declaration d => d.lowerValue
  | assignment a => a.value.lower

/-- The end of the range that a loop condition describes.  The range leaves its end out. -/
def rangeStop : Expr → Target.Expr
  | .binary .lt _ bound => bound.lower
  | .binary .gt _ bound => bound.lower
  | .binary .ltEq _ bound => .binary .add bound.lower (.number "1")
  | .binary .gtEq _ bound => .binary .sub bound.lower (.number "1")
  | _ => .number "0"

/-- The step of the range that a loop update describes, unless it is one. -/
def rangeStep : Expr → Option Target.Expr
  | .binary .sub _ amount => some (.neg (amount.lower.bracketsIf (!amount.isAtom)))
  | .binary .add _ amount => if amount.lower.text = "1" then none else some amount.lower
  | _ => none

/-! ## Statements -/

/-- A block of the target, which is never empty. -/
def orPass : List Target.Stmt → List Target.Stmt
  | [] => [.pass]
  | ss => ss

mutual

/-- The form of a statement in the target. -/
def Stmt.lower : Stmt → Target.Stmt
  | .declaration d => .assign (Target.safeName d.name) d.lowerValue
  | .assignment a => .assign (Target.safeName a.name) a.value.lower
  | .ifElse ⟨condition, thenBody, orElse, _⟩ =>
    .ifElse condition.lower (orPass (lowerAll thenBody)) orElse.lower
  | .forLoop init condition update body _ =>
    .forRange (Target.safeName init.name) init.lowerValue (rangeStop condition)
      (update.bind fun a => rangeStep a.value) (orPass (lowerAll body))
  | .whileLoop condition body _ => .whileLoop condition.lower (orPass (lowerAll body))
  | .print argument newline _ => .print (argument.map Expr.lower) newline
  | .invalid p => .comment ("untranslated statement: " ++ p.text)

/-- The form of the further branches of a conditional in the target. -/
def Else.lower : Else → Target.Else
  | .none => .none
  | .elseIf ⟨condition, thenBody, orElse, _⟩ =>
    .elif condition.lower (orPass (lowerAll thenBody)) orElse.lower
  | .block body => .block (orPass (lowerAll body))

/-- The form of a run of statements in the target. -/
def lowerAll : List Stmt → List Target.Stmt
  | [] => []
  | s :: ss => s.lower :: lowerAll ss

end

/-! ## Programs -/

/-- The form of a program in the target: the statements of its entry procedure. -/
def Program.lower (p : Program) : List Target.Stmt :=
  orPass (lowerAll p.body)

/-- How the output looks. -/
structure Layout where
  /-- Spaces for each level. -/
  indent : Nat
  /-- Whether the banner stands on top. -/
  header : Bool
deriving DecidableEq, Repr

instance : Inhabited Layout := ⟨4, false⟩

/-- The line that says where the output comes from. -/
def banner : String :=
  "# Translated from Java to Python by javabridge"

/-- The banner and a blank line after it, if the layout has one. -/
def headerLines (layout : Layout) : List Target.Line :=
  if layout.header then [⟨0, banner⟩, ⟨0, ""⟩] else []

/-- The comments among the tokens, and a blank line after them if there are any. -/
def commentSection (tokens : List Token) : List Target.Line :=
  match (tokens.filter (·.kind == .comment)).map fun t => ⟨0, Target.comment t.text⟩ with
  | [] => []
  | lines => lines ++ [⟨0, ""⟩]

/-- The text of a program in the target, behind the comments among the tokens. -/
def Program.render (p : Program) (tokens : List Token) (layout : Layout) : String :=
  Target.page layout.indent
    (headerLines layout ++ commentSection tokens ++ Target.linesOf 0 p.lower)

end Braceless

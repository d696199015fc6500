import Braceless.Target.Expr

/-!
# Statements of the indentation language

A block is the run of lines that stand one level deeper than the line before them.  A statement is therefore a
list of lines, each with its level, and spaces come in only when a page is written out.

## Main definitions

* `Target.Line`, `Target.page`: lines and their text.
* `Target.Stmt`, `Target.Else`: statements.
* `Target.Stmt.lines`: the lines of a statement at a level.
-/

namespace Braceless

namespace Target

/-! ## Lines -/

/-- A line of output, indented by its level. -/
structure Line where
  level : Nat
  text : String
deriving DecidableEq, Repr

/-- A line as it is written, with `width` spaces for each level. -/
def Line.render (width : Nat) (l : Line) : String :=
  String.ofList (List.replicate (width * l.level) ' ') ++ l.text

/-- Lines as one text. -/
def page (width : Nat) (lines : List Line) : String :=
  "\n".intercalate (lines.map (Line.render width))

/-! ## Statements -/

mutual

/-- The statements of the target. -/
inductive Stmt where
  | assign (name : String) (value : Expr)
  | ifElse (condition : Expr) (body : List Stmt) (orElse : Else)
  /-- A loop over `range`, whose step is one if it is not given. -/
  | forRange (name : String) (first stop : Expr) (step : Option Expr) (body : List Stmt)
  | whileLoop (condition : Expr) (body : List Stmt)
  | print (argument : Option Expr) (newline : Bool)
  | pass
  | comment (text : String)
deriving Repr

/-- What follows the first branch of a conditional. -/
inductive Else where
  | none
  | elif (condition : Expr) (body : List Stmt) (orElse : Else)
  | block (body : List Stmt)
deriving Repr

end

/-- The call that prints.  An argument without text counts as none. -/
def printCall (argument : Option Expr) (newline : Bool) : String :=
  let text := (argument.map Expr.text).getD ""
  if newline then "print(" ++ text ++ ")"
  else if text.isEmpty then "print(end=\"\")"
  else "print(" ++ text ++ ", end=\"\")"

/-- The arguments of `range`. -/
def rangeArguments (first stop : Expr) (step : Option Expr) : String :=
  match step with
  | some step => first.text ++ ", " ++ stop.text ++ ", " ++ step.text
  | none => first.text ++ ", " ++ stop.text

mutual

/-- The lines of a statement at a level. -/
def Stmt.lines (level : Nat) : Stmt → List Line
  | .assign name value => [⟨level, name ++ " = " ++ value.text⟩]
  | .ifElse condition body orElse =>
    ⟨level, "if " ++ condition.text ++ ":"⟩ :: linesOf (level + 1) body ++ orElse.lines level
  | .forRange name first stop step body =>
    ⟨level, "for " ++ name ++ " in range(" ++ rangeArguments first stop step ++ "):"⟩ ::
      linesOf (level + 1) body
  | .whileLoop condition body =>
    ⟨level, "while " ++ condition.text ++ ":"⟩ :: linesOf (level + 1) body
  | .print argument newline => [⟨level, printCall argument newline⟩]
  | .pass => [⟨level, "pass"⟩]
  | .comment text => [⟨level, "# " ++ text⟩]

/-- The lines of the further branches of a conditional at a level. -/
def Else.lines (level : Nat) : Else → List Line
  | .none => []
  | .elif condition body orElse =>
    ⟨level, "elif " ++ condition.text ++ ":"⟩ :: linesOf (level + 1) body ++ orElse.lines level
  | .block body => ⟨level, "else:"⟩ :: linesOf (level + 1) body

/-- The lines of a run of statements at a level. -/
def linesOf (level : Nat) : List Stmt → List Line
  | [] => []
  | s :: ss => s.lines level ++ linesOf level ss

end

end Target

end Braceless

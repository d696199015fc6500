import Braceless.Declarations

/-!
# What a program mentions

A tree is read off from left to right as the list of what it mentions: the variables it
declares and uses, its literals, and the places where nothing could be read.  A
declaration comes before its own first value, the variable of an assignment before the
value, the header of a loop before its body, and a branch before the branches after it.

## Main definitions

* `Mention`: one thing that a tree mentions.
* `Expr.mentions`, `Stmt.mentions`, `mentionsOf`: what a tree mentions, in order.
* `Stmt.declarations`, `declarationsOf`: the declarations of a tree, in the same order.

## Main results

* `declaredIn_mentionsOf`: the declared variables among the mentions are the declarations.
-/

namespace Braceless

/-- One thing that a tree mentions. -/
inductive Mention where
  | declared (d : Declared)
  | used (name : String) (pos : Position)
  | literal (l : Literal)
  /-- A place where no expression could be read. -/
  | unread (p : Placeholder)
  /-- A token that starts no statement. -/
  | unrecognized (p : Placeholder)
deriving DecidableEq, Repr

namespace Mention

/-- The variable that is declared, if one is. -/
def declared? : Mention → Option Declared
  | declared d => some d
  | _ => none

end Mention

/-! ## Mentions of trees -/

/-- What an expression mentions. -/
def Expr.mentions : Expr → List Mention
  | binary _ left right => left.mentions ++ right.mentions
  | unary _ operand => operand.mentions
  | group inner => inner.mentions
  | literal l => [.literal l]
  | identifier name pos => [.used name pos]
  | invalid p => [.unread p]

/-- What a part of a tree mentions, if it is there. -/
def mentionsIn {α : Type} (view : α → List Mention) : Option α → List Mention
  | none => []
  | some a => view a

/-- The entry of a declaration in the table. -/
def Declaration.declared (d : Declaration) : Declared :=
  ⟨d.name, d.dataType, d.pos⟩

def Declaration.mentions (d : Declaration) : List Mention :=
  .declared d.declared :: mentionsIn Expr.mentions d.value

def Assignment.mentions (a : Assignment) : List Mention :=
  .used a.name a.pos :: a.value.mentions

def ForInit.mentions : ForInit → List Mention
  | declaration d => d.mentions
  | assignment a => a.mentions

mutual

/-- What a statement mentions. -/
def Stmt.mentions : Stmt → List Mention
  | .declaration d => d.mentions
  | .assignment a => a.mentions
  | .ifElse i => i.mentions
  | .forLoop init condition update body _ =>
    init.mentions ++ (condition.mentions ++
      (mentionsIn Assignment.mentions update ++ mentionsOf body))
  | .whileLoop condition body _ => condition.mentions ++ mentionsOf body
  | .print argument _ _ => mentionsIn Expr.mentions argument
  | .invalid p => [.unrecognized p]

/-- What a conditional mentions. -/
def IfStatement.mentions : IfStatement → List Mention
  | ⟨condition, thenBody, orElse, _⟩ =>
    condition.mentions ++ (mentionsOf thenBody ++ orElse.mentions)

/-- What the further branches of a conditional mention. -/
def Else.mentions : Else → List Mention
  | .none => []
  | .elseIf i => i.mentions
  | .block body => mentionsOf body

/-- What a run of statements mentions. -/
def mentionsOf : List Stmt → List Mention
  | [] => []
  | s :: ss => s.mentions ++ mentionsOf ss

end

/-! ## Declarations of trees -/

def ForInit.declarations : ForInit → List Declaration
  | declaration d => [d]
  | assignment _ => []

mutual

/-- The declarations in a statement. -/
def Stmt.declarations : Stmt → List Declaration
  | .declaration d => [d]
  | .assignment _ => []
  | .ifElse i => i.declarations
  | .forLoop init _ _ body _ => init.declarations ++ declarationsOf body
  | .whileLoop _ body _ => declarationsOf body
  | .print _ _ _ => []
  | .invalid _ => []

/-- The declarations in a conditional. -/
def IfStatement.declarations : IfStatement → List Declaration
  | ⟨_, thenBody, orElse, _⟩ => declarationsOf thenBody ++ orElse.declarations

/-- The declarations in the further branches of a conditional. -/
def Else.declarations : Else → List Declaration
  | .none => []
  | .elseIf i => i.declarations
  | .block body => declarationsOf body

/-- The declarations in a run of statements. -/
def declarationsOf : List Stmt → List Declaration
  | [] => []
  | s :: ss => s.declarations ++ declarationsOf ss

end

/-- The declarations of a program, from left to right. -/
def Program.declarations (p : Program) : List Declaration :=
  declarationsOf p.body

/-- The declared variables among mentions. -/
def declaredIn (ms : List Mention) : List Declared :=
  ms.filterMap Mention.declared?

@[simp] theorem declaredIn_nil : declaredIn [] = [] := rfl

@[simp] theorem declaredIn_append (ms ms' : List Mention) :
    declaredIn (ms ++ ms') = declaredIn ms ++ declaredIn ms' :=
  List.filterMap_append

/-- An expression declares nothing. -/
@[simp] theorem declaredIn_expr (e : Expr) : declaredIn e.mentions = [] := by
  induction e with
  | binary op left right ihLeft ihRight => simp [Expr.mentions, ihLeft, ihRight]
  | unary op operand ih => exact ih
  | group inner ih => exact ih
  | literal l => rfl
  | identifier name pos => rfl
  | invalid p => rfl

@[simp] theorem declaredIn_value (value : Option Expr) :
    declaredIn (mentionsIn Expr.mentions value) = [] := by
  cases value with
  | none => rfl
  | some e => exact declaredIn_expr e

@[simp] theorem declaredIn_declaration (d : Declaration) :
    declaredIn d.mentions = [d.declared] := by
  show d.declared :: declaredIn (mentionsIn Expr.mentions d.value) = _
  rw [declaredIn_value]

@[simp] theorem declaredIn_assignment (a : Assignment) : declaredIn a.mentions = [] :=
  declaredIn_expr a.value

@[simp] theorem declaredIn_update (update : Option Assignment) :
    declaredIn (mentionsIn Assignment.mentions update) = [] := by
  cases update with
  | none => rfl
  | some a => exact declaredIn_assignment a

@[simp] theorem declaredIn_forInit (init : ForInit) :
    declaredIn init.mentions = init.declarations.map Declaration.declared := by
  cases init with
  | declaration d => exact declaredIn_declaration d
  | assignment a => exact declaredIn_assignment a

mutual

theorem declaredIn_stmt (s : Stmt) :
    declaredIn s.mentions = s.declarations.map Declaration.declared := by
  cases s with
  | declaration d => simp [Stmt.mentions, Stmt.declarations]
  | assignment a => simp [Stmt.mentions, Stmt.declarations]
  | ifElse i => exact declaredIn_ifStatement i
  | forLoop init condition update body pos =>
      simp [Stmt.mentions, Stmt.declarations, declaredIn_mentionsOf body]
  | whileLoop condition body pos =>
      simp [Stmt.mentions, Stmt.declarations, declaredIn_mentionsOf body]
  | print argument newline pos => simp [Stmt.mentions, Stmt.declarations]
  | invalid p => rfl

theorem declaredIn_ifStatement (i : IfStatement) :
    declaredIn i.mentions = i.declarations.map Declaration.declared := by
  obtain ⟨condition, thenBody, orElse, pos⟩ := i
  simp [IfStatement.mentions, IfStatement.declarations, declaredIn_mentionsOf thenBody,
    declaredIn_else orElse]

theorem declaredIn_else (e : Else) :
    declaredIn e.mentions = e.declarations.map Declaration.declared := by
  cases e with
  | none => rfl
  | elseIf i => exact declaredIn_ifStatement i
  | block body => exact declaredIn_mentionsOf body

/-- The declared variables among what a run of statements mentions are its
declarations. -/
theorem declaredIn_mentionsOf (ss : List Stmt) :
    declaredIn (mentionsOf ss) = (declarationsOf ss).map Declaration.declared := by
  cases ss with
  | nil => rfl
  | cons s ss =>
      simp [mentionsOf, declarationsOf, declaredIn_stmt s, declaredIn_mentionsOf ss]

end

end Braceless

import Braceless.Analysis
import Braceless.Json

/-!
# Reports

Every part of an analysis as a JSON value.  Statements and expressions carry their form in the field `type`;
a choice without that field is an object with one field, which names it.

## Main definitions

* `Token.report`, `LexicalError.report`, `SyntaxError.report`, `Declarations.report`.
* `Expr.report`, `Stmt.report`, `Program.report`: trees.
* `Analysis.report`: all of it.
-/

namespace Braceless

/-- The value of something that may be absent. -/
def Json.ofOption {α : Type} (f : α → Json) : Option α → Json
  | none => .null
  | some a => f a

/-! ## Tokens and errors -/

/-- The fields of a position that stands among others. -/
def Position.fields (p : Position) : List (String × Json) :=
  [("line", .num p.line), ("column", .num p.column)]

/-- A position as a value of its own. -/
def Position.report (p : Position) : Json :=
  .obj p.fields

/-- A token. -/
def Token.report (t : Token) : Json :=
  .obj ([("kind", .str t.kind.tag), ("text", .str t.text)] ++ t.pos.fields)

/-- A lexical error. -/
def LexicalError.report (e : LexicalError) : Json :=
  .obj ([("character", .str e.character.toString)] ++ e.pos.fields ++
    [("kind", .str e.fault.tag), ("description", .str e.fault.describe)])

/-- The cause of a syntax error. -/
def SyntaxFault.report : SyntaxFault → Json
  | expected what => .obj [("expected", .obj [("expected", .str what)])]
  | unrecognizedStatement => .str "unrecognized_statement"
  | invalidExpression => .str "invalid_expression"
  | redeclared name => .obj [("redeclared", .obj [("name", .str name)])]
  | undeclared name => .obj [("undeclared", .obj [("name", .str name)])]
  | trailingInput => .str "trailing_input"
  | nestingTooDeep => .str "nesting_too_deep"

/-- A syntax error. -/
def SyntaxError.report (e : SyntaxError) : Json :=
  .obj ([("found", .str e.found)] ++ e.pos.fields ++
    [("kind", e.fault.report), ("description", .str e.fault.describe)])

/-- A declared variable, without its name. -/
def Declared.report (d : Declared) : Json :=
  .obj (("data_type", .str d.dataType.keyword) :: d.pos.fields)

/-- The table of declared variables, by name. -/
def Declarations.report (t : Declarations) : Json :=
  .obj (t.entries.map fun d => (d.name, d.report))

/-! ## Expressions -/

/-- The fields of a placeholder. -/
def Placeholder.fields (p : Placeholder) : List (String × Json) :=
  [("text", .str p.text), ("span", p.pos.report)]

/-- An expression. -/
def Expr.report : Expr → Json
  | binary op left right =>
    .obj [("type", .str "Binary"), ("op", .str op.tag), ("left", left.report),
      ("right", right.report)]
  | unary op operand =>
    .obj [("type", .str "Unary"), ("op", .str op.tag), ("operand", operand.report)]
  | group inner => .obj [("type", .str "Group"), ("inner", inner.report)]
  | literal l =>
    .obj [("type", .str "Literal"), ("kind", .str l.kind.tag), ("value", .str l.value)]
  | identifier name pos =>
    .obj [("type", .str "Identifier"), ("name", .str name), ("span", pos.report)]
  | invalid p => .obj (("type", .str "Error") :: p.fields)

/-! ## Statements -/

/-- The fields of a declaration. -/
def Declaration.fields (d : Declaration) : List (String × Json) :=
  [("data_type", .str d.dataType.keyword), ("name", .str d.name),
    ("value", .ofOption Expr.report d.value), ("span", d.pos.report)]

/-- The fields of an assignment. -/
def Assignment.fields (a : Assignment) : List (String × Json) :=
  [("name", .str a.name), ("value", a.value.report), ("span", a.pos.report)]

/-- The set-up of a loop. -/
def ForInit.report : ForInit → Json
  | declaration d => .obj [("Declaration", .obj d.fields)]
  | assignment a => .obj [("Assignment", .obj a.fields)]

mutual

/-- A statement. -/
def Stmt.report : Stmt → Json
  | .declaration d => .obj (("type", .str "Declaration") :: d.fields)
  | .assignment a => .obj (("type", .str "Assignment") :: a.fields)
  | .ifElse i => .obj (("type", .str "If") :: i.fields)
  | .forLoop init condition update body pos =>
    .obj [("type", .str "For"), ("init", init.report), ("condition", condition.report),
      ("update", .ofOption (fun a => .obj a.fields) update), ("body", .arr (reportAll body)),
      ("span", pos.report)]
  | .whileLoop condition body pos =>
    .obj [("type", .str "While"), ("condition", condition.report), ("body", .arr (reportAll body)),
      ("span", pos.report)]
  | .print argument newline pos =>
    .obj [("type", .str "Print"), ("expression", .ofOption Expr.report argument),
      ("newline", .bool newline), ("span", pos.report)]
  | .invalid p => .obj (("type", .str "Error") :: p.fields)

/-- The fields of a conditional. -/
def IfStatement.fields : IfStatement → List (String × Json)
  | ⟨condition, thenBody, orElse, pos⟩ =>
    [("condition", condition.report), ("then_body", .arr (reportAll thenBody)),
      ("else_branch", orElse.report), ("span", pos.report)]

/-- The further branches of a conditional. -/
def Else.report : Else → Json
  | .none => .null
  | .elseIf i => .obj [("If", .obj i.fields)]
  | .block body => .obj [("Block", .arr (reportAll body))]

/-- The statements of a run. -/
def reportAll : List Stmt → List Json
  | [] => []
  | s :: ss => s.report :: reportAll ss

end

/-- A program. -/
def Program.report (p : Program) : Json :=
  .obj [("class_name", .str p.className), ("args_name", .str p.argsName),
    ("body", .arr (reportAll p.body))]

/-- An analysis. -/
def Analysis.report (a : Analysis) : Json :=
  .obj [("success", .bool a.success),
    ("tokens", .arr (a.tokens.map Token.report)),
    ("lexicalErrors", .arr (a.lexicalErrors.map LexicalError.report)),
    ("syntaxErrors", .arr (a.syntaxErrors.map SyntaxError.report)),
    ("declarations", a.declarations.report),
    ("program", a.program.report),
    ("python", .str a.python)]

end Braceless

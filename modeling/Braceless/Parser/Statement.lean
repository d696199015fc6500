import Braceless.Parser.Expression

/-!
# Parsing statements

Every production reports what is missing and goes on, so that a tree comes out of any token list.  A
production that yields nothing has reported why; the run of statements around it then drops a token.

## Main definitions

* `declaration`, `assignment`, `printStatement`: the statements without statements inside.
* `statement`: a statement within the given room.
* `block`: a braced run of statements, within a level of its own.
-/

namespace Braceless

namespace Parser

/-! ## Simple statements -/

/-- The first value of a variable, behind an equals sign. -/
def firstValue (room : Nat) : Parse (Option Expr) := do
  if ← eat .assign then
    return some (← expression room)
  else
    return none

/-- A declaration, from the keyword of its type on.  Without a name there is none. -/
def declaration (room : Nat) (dataType : DataType) : Parse (Option Declaration) := do
  advance
  match ← expect .identifier "identifier after type" with
  | none => return none
  | some ident =>
    declare ident dataType
    let value ← firstValue room
    discard (expect .semicolon "';' after declaration")
    return some ⟨dataType, ident.text, value, ident.pos⟩

/-- The operation that updates a variable by an amount. -/
def updated (target : Token) (op : BinaryOp) (amount : Expr) : Expr :=
  .binary op (.identifier target.text target.pos) amount

/-- The literal by which an increment steps. -/
def one : Expr :=
  .literal ⟨.int, "1"⟩

/-- The value that the operator after `target` assigns to it.  Without such an operator there is none, and
`what` is reported as missing. -/
def updateValue (room : Nat) (target : Token) (what : String) : Parse (Option Expr) := do
  let t ← current
  match t.kind with
  | .assign =>
    advance
    return some (← expression room)
  | .increment =>
    advance
    return some (updated target .add one)
  | .decrement =>
    advance
    return some (updated target .sub one)
  | .plusAssign =>
    advance
    return some (updated target .add (← expression room))
  | .minusAssign =>
    advance
    return some (updated target .sub (← expression room))
  | _ =>
    report (.expected what)
    return none

/-- The value of an assignment whose operator is missing: none is left to read at the end of the statement
or of the block. -/
def valueWithoutOperator (room : Nat) : Parse Expr := do
  let t ← current
  if t.kind = .semicolon ∨ t.kind = .rBrace then
    return .invalid (← placeholder)
  else
    expression room

/-- The value of an assignment to `target`. -/
def assignedValue (room : Nat) (target : Token) : Parse Expr := do
  match ← updateValue room target "'=' in assignment" with
  | some value => return value
  | none => valueWithoutOperator room

/-- An assignment, from the name on. -/
def assignment (room : Nat) : Parse Assignment := do
  let target ← current
  checkDeclared target
  advance
  let value ← assignedValue room target
  discard (expect .semicolon "';' after assignment")
  return ⟨target.text, value, target.pos⟩

/-- The word that says whether output ends its line. -/
def printMethod : Parse Bool := do
  if ← eatWord "println" then
    return true
  else if ← eatWord "print" then
    return false
  else
    report (.expected "'println' or 'print' after 'out.'")
    return true

/-- What is printed, if anything stands between the brackets. -/
def printArgument (room : Nat) : Parse (Option Expr) := do
  if ← isAt .rParen then
    return none
  else
    return some (← expression room)

/-- An output statement, from its first word on. -/
def printStatement (room : Nat) : Parse Stmt := do
  let t ← current
  advance
  discard (expect .dot "'.' after 'System'")
  expectWord "out" "'out' after 'System.'"
  discard (expect .dot "'.' after 'out'")
  let newline ← printMethod
  discard (expect .lParen "'(' after print method")
  let argument ← printArgument room
  discard (expect .rParen "')' after print argument")
  discard (expect .semicolon "';' after print statement")
  return .print argument newline t.pos

/-! ## The header of a counting loop -/

/-- How a loop sets its variable up. -/
def forInit (room : Nat) : Parse (Option ForInit) := do
  match ← typeHere with
  | some dataType => return (← declaration room dataType).map .declaration
  | none =>
    if ← isAt .identifier then
      return some (.assignment (← assignment room))
    else
      report (.expected "loop variable initializer")
      return none

/-- How a loop updates its variable. -/
def forUpdate (room : Nat) : Parse (Option Assignment) := do
  match ← expect .identifier "identifier in for update" with
  | none => return none
  | some target =>
    checkDeclared target
    let value ← updateValue room target "'++', '--', '=', '+=' or '-=' in for update"
    return value.map fun v => ⟨target.text, v, target.pos⟩

/-! ## Compound statements -/

/-- A token that ends a block. -/
def endsBlock (t : Token) : Bool :=
  t.kind == .rBrace || t.kind == .eof

/-- A statement, or a token less where there is none. -/
def orDrop {α : Type} (p : Parse (Option α)) : Parse (Option α) := do
  match ← p with
  | some a => return some a
  | none =>
    advance
    return none

/-- A token that starts no statement. -/
def noStatement : Parse Stmt := do
  let p ← placeholder
  report .unrecognizedStatement
  advance
  return .invalid p

mutual

/-- A braced run of statements.  Without room it is skipped. -/
def block (room : Nat) (opening closing : String) : Parse (List Stmt) :=
  nested room
    (fun inner _ => do
      discard (expect .lBrace opening)
      let s ← get
      let body ← repeatUntil endsBlock (orDrop (statement inner)) s.rest.length
      discard (expect .rBrace closing)
      return body)
    (do
      skipTo (afterBalanced .lBrace .rBrace)
      return [])
termination_by room * 4

/-- A statement, if the tokens give one. -/
def statement (room : Nat) : Parse (Option Stmt) := do
  match ← typeHere with
  | some dataType => return (← declaration room dataType).map .declaration
  | none =>
    if ← isAt .identifier then
      return some (.assignment (← assignment room))
    else if ← isAtWord "if" then
      return some (.ifElse (← ifStatement room))
    else if ← isAtWord "for" then
      forStatement room
    else if ← isAtWord "while" then
      return some (← whileStatement room)
    else if ← isAtWord "System" then
      return some (← printStatement room)
    else
      return some (← noStatement)
termination_by room * 4 + 3

/-- A conditional, from its first word on. -/
def ifStatement (room : Nat) : Parse IfStatement := do
  let t ← current
  advance
  discard (expect .lParen "'(' after 'if'")
  let condition ← expression room
  discard (expect .rParen "')' after if condition")
  let thenBody ← block room "'\x7b' to open if block" "'\x7d' to close if block"
  let orElse ← elseBranch room
  return ⟨condition, thenBody, orElse, t.pos⟩
termination_by room * 4 + 2

/-- What follows the first branch of a conditional.  A further conditional takes a level of its own; without
room it is skipped with all that follow it. -/
def elseBranch (room : Nat) : Parse Else := do
  if ← eatWord "else" then
    if ← isAtWord "if" then
      nested room
        (fun inner _ => return .elseIf (← ifStatement inner))
        (do
          skipTo afterElseChain
          return .none)
    else
      return .block (← block room "'\x7b' after 'else'" "'\x7d' to close else block")
  else
    return .none
termination_by room * 4 + 1

/-- A counting loop, from its first word on.  Without a variable there is none. -/
def forStatement (room : Nat) : Parse (Option Stmt) := do
  let t ← current
  advance
  discard (expect .lParen "'(' after 'for'")
  match ← forInit room with
  | none => return none
  | some init =>
    let condition ← expression room
    discard (expect .semicolon "';' after for condition")
    let update ← forUpdate room
    discard (expect .rParen "')' after for update")
    let body ← block room "'\x7b' to open for body" "'\x7d' to close for body"
    return some (.forLoop init condition update body t.pos)
termination_by room * 4 + 1

/-- A conditional loop, from its first word on. -/
def whileStatement (room : Nat) : Parse Stmt := do
  let t ← current
  advance
  discard (expect .lParen "'(' after 'while'")
  let condition ← expression room
  discard (expect .rParen "')' after while condition")
  let body ← block room "'\x7b' to open while body" "'\x7d' to close while body"
  return .whileLoop condition body t.pos
termination_by room * 4 + 1

end

end Parser

end Braceless

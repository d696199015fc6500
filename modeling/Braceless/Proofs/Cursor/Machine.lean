import Braceless.Parser

/-!
# The parser as a machine with a cursor

The productions of `Parser` read their tokens off a list from which comments, invalid
characters and all that follows the end marker have been taken out, and the room that is left
bounds their recursion.  The machine does the same work on the token list as it stands: it has
a cursor into the list and a counter of the levels that are open, and its procedures call
themselves and each other for as long as they go on.  Nothing ends here by construction.  An
action may need more calls within calls than any number, look behind the last token, count
below zero or take a turn without reading anything, and each of these is an outcome of its own.

The machine keeps a record: every change of its state is an event, and so is every turn of a
loop after which the loop goes on.  What holds throughout a run is what holds of its record.

## Main definitions

* `withEnd`: a token list with an end marker in the last place.
* `Machine`, `Event`, `World`: the state, what happens to it, and the state with its record.
* `Call`, `Run`: the procedures that recurse, and the actions, which may call them.
* `enter`, `leave`: the counter of levels.
* `skipExpression`, `skipBalanced`, `skipElseChain`: the loops that skip.
* `Call.steps`, `Run.eval`: what the procedures do, and what an action comes to.
* `Cursor.parse`: the program of a token list, with the record of the run.
-/

namespace Braceless

namespace Cursor

/-! ## States and records -/

/-- The token list with an end marker in the last place.  One that is added stands where the
last token stands. -/
def withEnd (tokens : List Token) : List Token :=
  match tokens.getLast? with
  | some t => if t.kind = .eof then tokens else tokens ++ [⟨.eof, "", t.pos⟩]
  | none => [⟨.eof, "", .start⟩]

/-- The cursor and what has been found so far. -/
structure Machine where
  /-- The place of the current token. -/
  pos : Nat
  errors : Array SyntaxError
  declared : Declarations
  /-- How many levels of nesting are open. -/
  depth : Nat
  /-- Whether the present excursion past the nesting limit has been reported. -/
  overflowed : Bool

namespace Machine

/-- The state before anything has been read. -/
def start : Machine :=
  { pos := 0, errors := #[], declared := .empty, depth := 0, overflowed := false }

/-- The cursor on the next token. -/
def next (m : Machine) : Machine :=
  { m with pos := m.pos + 1 }

/-- One more error. -/
def report (m : Machine) (e : SyntaxError) : Machine :=
  { m with errors := m.errors.push e }

/-- One more variable. -/
def declare (m : Machine) (d : Declared) : Machine :=
  { m with declared := m.declared.insert d }

/-- One more level.  Where less than half of the levels are open, an earlier excursion past the
limit is over. -/
def openLevel (m : Machine) : Machine :=
  { m with
    overflowed := if m.depth < maxNesting / 2 then false else m.overflowed
    depth := m.depth + 1 }

/-- Past the limit, which has been reported. -/
def overflow (m : Machine) : Machine :=
  { m with overflowed := true }

/-- The given number of levels. -/
def withDepth (m : Machine) (depth : Nat) : Machine :=
  { m with depth := depth }

end Machine

/-- The loops of which every turn has to read a token. -/
inductive Loop where
  /-- The statements of a block. -/
  | statements
  /-- The statements of a bare program, from one stray brace to the next. -/
  | script
  /-- The rest of an expression. -/
  | expression
  /-- A bracketed part. -/
  | balanced
  /-- The branches of a conditional. -/
  | elseChain
deriving DecidableEq, Repr

/-- What happens to a state. -/
inductive Label where
  /-- The cursor has moved on by one token, and may still stand on a comment. -/
  | stepped
  /-- The cursor has come to rest. -/
  | settled
  | reported
  | declared
  /-- A level has been opened. -/
  | entered
  /-- No level could be opened. -/
  | refused
  /-- Levels have been closed. -/
  | released
  /-- A turn of a loop that goes on, and where the cursor was when the turn began. -/
  | turned (loop : Loop) (start : Nat)
deriving DecidableEq, Repr

/-- Something that has happened, and the state after it. -/
structure Event where
  label : Label
  state : Machine

/-- The present state and all that has happened so far. -/
structure World where
  now : Machine
  log : List Event

/-- The world after a change of the state, which is on record. -/
def World.after (w : World) (label : Label) (f : Machine → Machine) : World :=
  ⟨f w.now, w.log ++ [⟨label, f w.now⟩]⟩

/-- Why an action stops without a result. -/
inductive Panic where
  /-- The cursor is behind the last token. -/
  | outOfBounds
  /-- A counter is zero and would be decreased. -/
  | underflow
  /-- A turn of a run of statements has read nothing. -/
  | stalled
deriving DecidableEq, Repr

/-! ## Actions -/

/-- The procedures that call themselves or each other. -/
inductive Call : Type → Type where
  | skipTrivia : Call Unit
  | skipRest (opened : Nat) : Call Unit
  | skipToClosing (opening closing : Token.Kind) (opened : Nat) : Call Unit
  | skipElseChain : Call Unit
  | expression : Call Expr
  | binary (levels : List Parser.OperatorLevel) : Call Expr
  | chain (ops : Parser.OperatorLevel) (tighter : List Parser.OperatorLevel) (left : Expr) :
      Call Expr
  | unary : Call Expr
  | factor : Call Expr
  | block (opening closing : String) : Call (List Stmt)
  | statements : Call (List Stmt)
  | statement : Call (Option Stmt)
  | ifStatement : Call IfStatement
  | elseBranch : Call Else
  | forStatement : Call (Option Stmt)
  | whileStatement : Call Stmt
  | script : Call (List Stmt)

/-- An action on a fixed token list.  What it comes to is said by `Run.eval`. -/
inductive Run : Type → Type 1 where
  | ret {α : Type} (a : α) : Run α
  | seq {α β : Type} (p : Run α) (f : α → Run β) : Run β
  /-- The token list. -/
  | input : Run (List Token)
  /-- The present state. -/
  | state : Run Machine
  /-- A change of the state, which is put on record. -/
  | change (label : Label) (f : Machine → Machine) : Run Unit
  | fail {α : Type} (panic : Panic) : Run α
  | call {α : Type} (c : Call α) : Run α

instance : Monad Run where
  pure := .ret
  bind := .seq

/-- The present state. -/
def now : Run Machine :=
  .state

/-- Changes the state and puts this on record. -/
def act (label : Label) (f : Machine → Machine) : Run Unit :=
  .change label f

/-- Puts a turn of a loop on record that began at `start`. -/
def turn (loop : Loop) (start : Nat) : Run Unit :=
  act (.turned loop start) id

/-- One less, which there has to be. -/
def decrease : Nat → Run Nat
  | 0 => .fail .underflow
  | n + 1 => return n

/-! ## The cursor -/

/-- The token under the cursor. -/
def current : Run Token := do
  match (← Run.input)[(← now).pos]? with
  | some t => return t
  | none => .fail .outOfBounds

/-- Moves the cursor on to the next token that is not trivia. -/
def skipTrivia : Run Unit :=
  .call .skipTrivia

def skipTriviaSteps : Run Unit := do
  if (← current).isTrivia then
    act .stepped Machine.next
    skipTrivia
  else
    act .settled id

/-- Reads one token; at an end marker nothing happens. -/
def advance : Run Unit := do
  if (← current).kind ≠ .eof then
    act .stepped Machine.next
    skipTrivia

/-- Whether the current token has the given kind. -/
def isAt (kind : Token.Kind) : Run Bool :=
  return (← current).kind == kind

/-- Whether the current token is the given word. -/
def isAtWord (word : String) : Run Bool :=
  return (← current).isWord word

/-- The type whose keyword is the current token. -/
def typeHere : Run (Option DataType) := do
  let t ← current
  return if t.kind = .keyword then DataType.ofKeyword? t.text else none

/-- Reports a fault at a token. -/
def reportAt (fault : SyntaxFault) (t : Token) : Run Unit :=
  act .reported (·.report (.ofToken fault t))

/-- Reports a fault at the current token. -/
def report (fault : SyntaxFault) : Run Unit := do
  reportAt fault (← current)

/-- Reads the current token if it has the given kind, and says whether it does. -/
def eat (kind : Token.Kind) : Run Bool := do
  if ← isAt kind then
    advance
    return true
  else
    return false

/-- Reads the current token if it is the given word, and says whether it is. -/
def eatWord (word : String) : Run Bool := do
  if ← isAtWord word then
    advance
    return true
  else
    return false

/-- Reads a token of the given kind.  Any other token stays, and the absence is reported. -/
def expect (kind : Token.Kind) (what : String) : Run (Option Token) := do
  let t ← current
  if t.kind = kind then
    advance
    return some t
  else
    report (.expected what)
    return none

/-- Reads the given word.  Any other token stays, and the absence is reported. -/
def expectWord (word what : String) : Run Unit := do
  unless ← eatWord word do
    report (.expected what)

/-- The placeholder for the current token. -/
def placeholder : Run Placeholder := do
  let t ← current
  return ⟨t.text, t.pos⟩

/-- Enters a variable into the table; a name that is taken is reported. -/
def declare (ident : Token) (dataType : DataType) : Run Unit := do
  if (← now).declared.contains ident.text then
    reportAt (.redeclared ident.text) ident
  else
    act .declared (·.declare ⟨ident.text, dataType, ident.pos⟩)

/-- Reports a name that is not in the table. -/
def checkDeclared (ident : Token) : Run Unit := do
  unless (← now).declared.contains ident.text do
    reportAt (.undeclared ident.text) ident

/-! ## Levels -/

/-- Reports that the nesting limit is reached, once in an excursion past it. -/
def reportOverflow : Run Unit := do
  unless (← now).overflowed do
    report .nestingTooDeep

/-- Opens a level if the limit allows it, and says whether it does. -/
def enter : Run Bool := do
  if maxNesting ≤ (← now).depth then
    reportOverflow
    act .refused Machine.overflow
    return false
  else
    act .entered Machine.openLevel
    return true

/-- Closes a level. -/
def leave : Run Unit := do
  let depth ← decrease (← now).depth
  act .released (·.withDepth depth)

/-- Closes all levels that have been opened beyond the given ones. -/
def restore (depth : Nat) : Run Unit :=
  act .released (·.withDepth depth)

/-! ## Skipping -/

/-- Whether the rest of an expression, of which `opened` brackets are open, ends before a token
of the given kind. -/
def endsRest (opened : Nat) (kind : Token.Kind) : Bool :=
  kind == .eof || opened == 0 && (kind == .semicolon || kind == .rParen || kind == .rBrace)

/-- The number of open brackets behind a token of the given kind. -/
def openedBehind (opened : Nat) : Token.Kind → Run Nat
  | .lParen | .lBrace => return opened + 1
  | .rParen | .rBrace => decrease opened
  | _ => return opened

/-- Skips the rest of an expression, of which `opened` brackets are open. -/
def skipRest (opened : Nat) : Run Unit :=
  .call (.skipRest opened)

def skipRestSteps (opened : Nat) : Run Unit := do
  let start := (← now).pos
  let kind := (← current).kind
  unless endsRest opened kind do
    let opened' ← openedBehind opened kind
    advance
    turn .expression start
    skipRest opened'

/-- Skips the rest of an expression, with a placeholder for it. -/
def skipExpression : Run Expr := do
  let p ← placeholder
  skipRest 0
  return .invalid p

/-- Reads tokens until the last of `opened` brackets is closed. -/
def skipToClosing (opening closing : Token.Kind) (opened : Nat) : Run Unit :=
  .call (.skipToClosing opening closing opened)

/-- Goes on behind a token of the given kind, which has been read in a turn that began at
`start`. -/
def skipBehind (opening closing : Token.Kind) (opened start : Nat) (kind : Token.Kind) :
    Run Unit := do
  if kind = opening then
    turn .balanced start
    skipToClosing opening closing (opened + 1)
  else if kind = closing then
    let fewer ← decrease opened
    unless fewer = 0 do
      turn .balanced start
      skipToClosing opening closing fewer
  else
    turn .balanced start
    skipToClosing opening closing opened

def skipToClosingSteps (opening closing : Token.Kind) (opened : Nat) : Run Unit := do
  let start := (← now).pos
  let kind := (← current).kind
  unless kind = .eof do
    advance
    skipBehind opening closing opened start kind

/-- Skips a bracketed part, if one stands under the cursor. -/
def skipBalanced (opening closing : Token.Kind) : Run Unit := do
  if ← isAt opening then
    skipToClosing opening closing 0

/-- Skips a conditional and all branches that follow it. -/
def skipElseChain : Run Unit :=
  .call .skipElseChain

def skipElseChainSteps : Run Unit := do
  let start := (← now).pos
  discard (eatWord "if")
  skipBalanced .lParen .rParen
  skipBalanced .lBrace .rBrace
  if ← eatWord "else" then
    turn .elseChain start
    skipElseChain

/-! ## Expressions -/

/-- The operator of a level that the current token is. -/
def operatorHere (ops : Parser.OperatorLevel) : Run (Option BinaryOp) :=
  return ops.lookup (← current).kind

/-- Reads the current token as a literal. -/
def literalHere (kind : Literal.Kind) (value : String) : Run Expr := do
  advance
  return .literal ⟨kind, value⟩

/-- Reports the current token as no expression, and leaves it. -/
def noExpression : Run Expr := do
  report .invalidExpression
  return .invalid (← placeholder)

/-- An expression, within a level of its own. -/
def expression : Run Expr :=
  .call .expression

/-- Operands joined by operators of the given levels. -/
def binary (levels : List Parser.OperatorLevel) : Run Expr :=
  .call (.binary levels)

/-- Goes on after `left` with operators of one level.  Each of them opens a level, and none
is closed here. -/
def chain (ops : Parser.OperatorLevel) (tighter : List Parser.OperatorLevel) (left : Expr) :
    Run Expr :=
  .call (.chain ops tighter left)

/-- A factor behind any number of unary operators. -/
def unary : Run Expr :=
  .call .unary

/-- A literal, a variable or a bracketed expression.  Any other token is reported and stays. -/
def factor : Run Expr :=
  .call .factor

def expressionSteps : Run Expr := do
  if ← enter then
    let e ← binary Parser.operatorLevels
    leave
    return e
  else
    skipExpression

/-- Operands joined by operators of one level, whose levels of nesting stay open. -/
def joined (ops : Parser.OperatorLevel) (tighter : List Parser.OperatorLevel) : Run Expr := do
  let left ← binary tighter
  chain ops tighter left

def binarySteps (levels : List Parser.OperatorLevel) : Run Expr := do
  match levels with
  | [] => unary
  | ops :: tighter =>
    let outer := (← now).depth
    let e ← joined ops tighter
    restore outer
    return e

def chainSteps (ops : Parser.OperatorLevel) (tighter : List Parser.OperatorLevel) (left : Expr) :
    Run Expr := do
  match ← operatorHere ops with
  | none => return left
  | some op =>
    if ← enter then
      advance
      let right ← binary tighter
      chain ops tighter (.binary op left right)
    else
      discard skipExpression
      return left

def unarySteps : Run Expr := do
  let t ← current
  match Parser.unaryOp? t.kind with
  | none => factor
  | some op =>
    if ← enter then
      advance
      let operand ← unary
      leave
      return .unary op operand
    else
      skipExpression

def factorSteps : Run Expr := do
  let t ← current
  match t.kind with
  | .integer => literalHere .int t.text
  | .decimal => literalHere .double t.text
  | .char => literalHere .char (Parser.literalBody t.text)
  | .string => literalHere .str (Parser.literalBody t.text)
  | .keyword =>
    if t.text = "true" ∨ t.text = "false" then literalHere .boolean t.text else noExpression
  | .identifier =>
    checkDeclared t
    advance
    return .identifier t.text t.pos
  | .lParen =>
    advance
    let inner ← expression
    discard (expect .rParen "')' to close expression")
    return .group inner
  | _ => noExpression

/-! ## Simple statements -/

/-- The first value of a variable, behind an equals sign. -/
def firstValue : Run (Option Expr) := do
  if ← eat .assign then
    return some (← expression)
  else
    return none

/-- A declaration, from the keyword of its type on. -/
def declaration (dataType : DataType) : Run (Option Declaration) := do
  advance
  match ← expect .identifier "identifier after type" with
  | none => return none
  | some ident =>
    declare ident dataType
    let value ← firstValue
    discard (expect .semicolon "';' after declaration")
    return some ⟨dataType, ident.text, value, ident.pos⟩

/-- The value that the operator after `target` assigns to it. -/
def updateValue (target : Token) (what : String) : Run (Option Expr) := do
  let t ← current
  match t.kind with
  | .assign =>
    advance
    return some (← expression)
  | .increment =>
    advance
    return some (Parser.updated target .add Parser.one)
  | .decrement =>
    advance
    return some (Parser.updated target .sub Parser.one)
  | .plusAssign =>
    advance
    return some (Parser.updated target .add (← expression))
  | .minusAssign =>
    advance
    return some (Parser.updated target .sub (← expression))
  | _ =>
    report (.expected what)
    return none

/-- The value of an assignment whose operator is missing. -/
def valueWithoutOperator : Run Expr := do
  let t ← current
  if t.kind = .semicolon ∨ t.kind = .rBrace then
    return .invalid (← placeholder)
  else
    expression

/-- The value of an assignment to `target`. -/
def assignedValue (target : Token) : Run Expr := do
  match ← updateValue target "'=' in assignment" with
  | some value => return value
  | none => valueWithoutOperator

/-- An assignment, from the name on. -/
def assignment : Run Assignment := do
  let target ← current
  checkDeclared target
  advance
  let value ← assignedValue target
  discard (expect .semicolon "';' after assignment")
  return ⟨target.text, value, target.pos⟩

/-- The word that says whether output ends its line. -/
def printMethod : Run Bool := do
  if ← eatWord "println" then
    return true
  else if ← eatWord "print" then
    return false
  else
    report (.expected "'println' or 'print' after 'out.'")
    return true

/-- What is printed, if anything stands between the brackets. -/
def printArgument : Run (Option Expr) := do
  if ← isAt .rParen then
    return none
  else
    return some (← expression)

/-- An output statement, from its first word on. -/
def printStatement : Run Stmt := do
  let t ← current
  advance
  discard (expect .dot "'.' after 'System'")
  expectWord "out" "'out' after 'System.'"
  discard (expect .dot "'.' after 'out'")
  let newline ← printMethod
  discard (expect .lParen "'(' after print method")
  let argument ← printArgument
  discard (expect .rParen "')' after print argument")
  discard (expect .semicolon "';' after print statement")
  return .print argument newline t.pos

/-- How a loop sets its variable up. -/
def forInit : Run (Option ForInit) := do
  match ← typeHere with
  | some dataType => return (← declaration dataType).map .declaration
  | none =>
    if ← isAt .identifier then
      return some (.assignment (← assignment))
    else
      report (.expected "loop variable initializer")
      return none

/-- How a loop updates its variable. -/
def forUpdate : Run (Option Assignment) := do
  match ← expect .identifier "identifier in for update" with
  | none => return none
  | some target =>
    checkDeclared target
    let value ← updateValue target "'++', '--', '=', '+=' or '-=' in for update"
    return value.map fun v => ⟨target.text, v, target.pos⟩

/-- A token that starts no statement. -/
def noStatement : Run Stmt := do
  let p ← placeholder
  report .unrecognizedStatement
  advance
  return .invalid p

/-! ## Compound statements -/

/-- Drops a token where there was no statement. -/
def dropUnless (item : Option Stmt) : Run Unit := do
  if item.isNone then
    advance

/-- Stops where a turn that began at `start` has read nothing. -/
def checkProgress (start : Nat) : Run Unit := do
  unless start < (← now).pos do
    .fail .stalled

/-- A braced run of statements.  Without room it is skipped. -/
def block (opening closing : String) : Run (List Stmt) :=
  .call (.block opening closing)

/-- Statements up to a closing brace or the end. -/
def statements : Run (List Stmt) :=
  .call .statements

/-- A statement, if the tokens give one. -/
def statement : Run (Option Stmt) :=
  .call .statement

/-- A conditional, from its first word on. -/
def ifStatement : Run IfStatement :=
  .call .ifStatement

/-- What follows the first branch of a conditional. -/
def elseBranch : Run Else :=
  .call .elseBranch

/-- A counting loop, from its first word on.  Without a variable there is none. -/
def forStatement : Run (Option Stmt) :=
  .call .forStatement

/-- A conditional loop, from its first word on. -/
def whileStatement : Run Stmt :=
  .call .whileStatement

def blockSteps (opening closing : String) : Run (List Stmt) := do
  if ← enter then
    discard (expect .lBrace opening)
    let body ← statements
    discard (expect .rBrace closing)
    leave
    return body
  else
    skipBalanced .lBrace .rBrace
    return []

def statementsSteps : Run (List Stmt) := do
  if Parser.endsBlock (← current) then
    return []
  else
    let start := (← now).pos
    let item ← statement
    dropUnless item
    checkProgress start
    turn .statements start
    let items ← statements
    return item.toList ++ items

def statementSteps : Run (Option Stmt) := do
  match ← typeHere with
  | some dataType => return (← declaration dataType).map .declaration
  | none =>
    if ← isAt .identifier then
      return some (.assignment (← assignment))
    else if ← isAtWord "if" then
      return some (.ifElse (← ifStatement))
    else if ← isAtWord "for" then
      forStatement
    else if ← isAtWord "while" then
      return some (← whileStatement)
    else if ← isAtWord "System" then
      return some (← printStatement)
    else
      return some (← noStatement)

def ifStatementSteps : Run IfStatement := do
  let t ← current
  advance
  discard (expect .lParen "'(' after 'if'")
  let condition ← expression
  discard (expect .rParen "')' after if condition")
  let thenBody ← block "'\x7b' to open if block" "'\x7d' to close if block"
  let orElse ← elseBranch
  return ⟨condition, thenBody, orElse, t.pos⟩

def elseBranchSteps : Run Else := do
  if ← eatWord "else" then
    if ← isAtWord "if" then
      if ← enter then
        let next ← ifStatement
        leave
        return .elseIf next
      else
        skipElseChain
        return .none
    else
      return .block (← block "'\x7b' after 'else'" "'\x7d' to close else block")
  else
    return .none

def forStatementSteps : Run (Option Stmt) := do
  let t ← current
  advance
  discard (expect .lParen "'(' after 'for'")
  match ← forInit with
  | none => return none
  | some init =>
    let condition ← expression
    discard (expect .semicolon "';' after for condition")
    let update ← forUpdate
    discard (expect .rParen "')' after for update")
    let body ← block "'\x7b' to open for body" "'\x7d' to close for body"
    return some (.forLoop init condition update body t.pos)

def whileStatementSteps : Run Stmt := do
  let t ← current
  advance
  discard (expect .lParen "'(' after 'while'")
  let condition ← expression
  discard (expect .rParen "')' after while condition")
  let body ← block "'\x7b' to open while body" "'\x7d' to close while body"
  return .whileLoop condition body t.pos

/-! ## Programs -/

/-- The entry procedure: the name of its parameter and its body. -/
def entryProcedure : Run (String × List Stmt) := do
  expectWord "public" "'public' before main method"
  expectWord "static" "'static' in main method"
  expectWord "void" "'void' in main method"
  expectWord "main" "'main' as method name"
  discard (expect .lParen "'(' after 'main'")
  expectWord "String" "'String' in main parameters"
  discard (expect .lBracket "'[' after 'String'")
  discard (expect .rBracket "']' after '['")
  let param ← expect .identifier "parameter name"
  discard (expect .rParen "')' after main parameters")
  let body ← block "'\x7b' to open main body" "'\x7d' to close main body"
  return ((param.map (·.text)).getD "args", body)

/-- Reports a token that stands where the input should end. -/
def checkEnd : Run Unit := do
  unless ← isAt .eof do
    report .trailingInput

/-- A class around its entry procedure, and nothing after it. -/
def classForm : Run Program := do
  expectWord "public" "'public' at start of class"
  expectWord "class" "'class' after 'public'"
  let name ← expect .identifier "class name"
  discard (expect .lBrace "'\x7b' after class name")
  let entry ← entryProcedure
  discard (expect .rBrace "'\x7d' at end of class")
  checkEnd
  return ⟨(name.map (·.text)).getD "Main", entry.1, entry.2⟩

/-- Statements up to the end.  A closing brace has nothing to close there: it is reported and
dropped. -/
def script : Run (List Stmt) :=
  .call .script

def scriptSteps : Run (List Stmt) := do
  let start := (← now).pos
  let body ← statements
  if ← isAt .eof then
    return body
  else
    report .unrecognizedStatement
    advance
    turn .script start
    let more ← script
    return body ++ more

/-- A program in either form; without tokens, the empty one. -/
def form : Run Program := do
  let t ← current
  if t.kind = .eof then
    return default
  else if t.isWord "public" || t.isWord "class" then
    classForm
  else
    let body ← script
    return { (default : Program) with body := body }

/-- The cursor first comes to rest, then the program is read. -/
def program : Run Program := do
  skipTrivia
  form

/-! ## What an action comes to -/

/-- What each procedure does. -/
def Call.steps {α : Type} : Call α → Run α
  | skipTrivia => skipTriviaSteps
  | skipRest opened => skipRestSteps opened
  | skipToClosing opening closing opened => skipToClosingSteps opening closing opened
  | skipElseChain => skipElseChainSteps
  | expression => expressionSteps
  | binary levels => binarySteps levels
  | chain ops tighter left => chainSteps ops tighter left
  | unary => unarySteps
  | factor => factorSteps
  | block opening closing => blockSteps opening closing
  | statements => statementsSteps
  | statement => statementSteps
  | ifStatement => ifStatementSteps
  | elseBranch => elseBranchSteps
  | forStatement => forStatementSteps
  | whileStatement => whileStatementSteps
  | script => scriptSteps

/-- What an action comes to: it returns or stops in a panic, or its calls go too deep. -/
abbrev Outcome (α : Type) := Option (Except Panic (α × World))

/-- Goes on after an action that has returned. -/
def Outcome.andThen {α β : Type} (r : Outcome α) (f : α → World → Outcome β) : Outcome β :=
  match r with
  | some (.ok (a, w)) => f a w
  | some (.error panic) => some (.error panic)
  | none => none

/-- What an action comes to, given what the calls come to. -/
def Run.eval (tokens : List Token) (calls : {β : Type} → Call β → World → Outcome β) {α : Type} :
    Run α → World → Outcome α
  | ret a, w => some (.ok (a, w))
  | seq p f, w => (p.eval tokens calls w).andThen fun a w' => (f a).eval tokens calls w'
  | input, w => some (.ok (tokens, w))
  | state, w => some (.ok (w.now, w))
  | change label f, w => some (.ok ((), w.after label f))
  | fail panic, _ => some (.error panic)
  | call c, w => calls c w

/-- What a call comes to if at most `fuel` calls lie within each other. -/
def Call.eval (tokens : List Token) : Nat → {α : Type} → Call α → World → Outcome α
  | 0, _, _, _ => none
  | fuel + 1, _, c, w => c.steps.eval tokens (Call.eval tokens fuel) w

/-- What an action comes to if at most `fuel` calls lie within each other. -/
def Run.run {α : Type} (p : Run α) (tokens : List Token) (fuel : Nat) : World → Outcome α :=
  p.eval tokens (Call.eval tokens fuel)

theorem Outcome.andThen_eq_some {α β : Type} {r : Outcome α} {f : α → World → Outcome β}
    {result : Except Panic (β × World)} (h : r.andThen f = some result) :
    (∃ a w, r = some (.ok (a, w)) ∧ f a w = some result) ∨
      ∃ panic, r = some (.error panic) ∧ result = .error panic := by
  match r, h with
  | some (.ok (a, w)), h => exact .inl ⟨a, w, rfl, h⟩
  | some (.error panic), h => exact .inr ⟨panic, rfl, (Option.some.inj h).symm⟩

/-- If more calls have an outcome, an outcome of an action stays the same. -/
theorem Run.eval_mono {α : Type} {tokens : List Token}
    {calls calls' : {β : Type} → Call β → World → Outcome β}
    (hCalls : ∀ {β : Type} (c : Call β) w r, calls c w = some r → calls' c w = some r) (p : Run α) :
    ∀ w r, p.eval tokens calls w = some r → p.eval tokens calls' w = some r := by
  induction p with
  | ret | input | state | change | fail => exact fun _ _ h => h
  | call c => exact hCalls c
  | seq p f ihp ihf =>
      intro w r h
      rw [Run.eval] at h ⊢
      obtain ⟨a, w', hp, hf⟩ | ⟨panic, hp, rfl⟩ := Outcome.andThen_eq_some h
      · rw [ihp w _ hp]
        exact ihf a w' r hf
      · rw [ihp w _ hp]
        rfl

/-- With more fuel, an outcome stays the same. -/
theorem Call.eval_mono {tokens : List Token} {fuel fuel' : Nat} (hFuel : fuel ≤ fuel') :
    ∀ {β : Type} (c : Call β) w r,
      c.eval tokens fuel w = some r → c.eval tokens fuel' w = some r := by
  induction fuel generalizing fuel' with
  | zero => exact fun c w r h => nomatch h
  | succ fuel ih =>
      obtain ⟨fuel', rfl⟩ := Nat.exists_eq_add_of_le' (Nat.lt_of_succ_le hFuel)
      exact fun c => Run.eval_mono (ih (Nat.le_of_succ_le_succ hFuel)) c.steps

theorem Run.run_mono {α : Type} {p : Run α} {tokens : List Token} {fuel fuel' : Nat}
    (hFuel : fuel ≤ fuel') {w : World} {r : Except Panic (α × World)}
    (h : p.run tokens fuel w = some r) :
    p.run tokens fuel' w = some r :=
  Run.eval_mono (Call.eval_mono hFuel) p w r h

/-- The program of a token list, what is wrong with it and the variables it declares, with the
last state of the run and its record. -/
def parse (fuel : Nat) (tokens : List Token) : Outcome Parsed :=
  (program.run (withEnd tokens) fuel ⟨.start, []⟩).andThen fun program w =>
    some (.ok (⟨program, w.now.errors.toList, w.now.declared⟩, w))

end Cursor

end Braceless

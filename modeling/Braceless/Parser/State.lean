import Braceless.Declarations
import Braceless.SyntaxError

/-!
# The state of a parse

A parse sees the significant tokens of a list: those before its first end marker, without comments and
invalid characters.  The state holds the ones that are still to be read, so reading on is dropping the first
of them, and the end marker stands for the current token once all are read.

## Main definitions

* `significant`, `endMarker`: what a parse sees of a token list.
* `State`, `Parse`: the state, and the actions on it.
* `expect`: reads a token of a kind, or reports its absence and reads nothing.
* `repeatUntil`: a bounded run of an action.
-/

namespace Braceless

namespace Parser

/-! ## Token lists -/

/-- The tokens that grammar rules see: those before the first end marker that are not trivia. -/
def significant (tokens : List Token) : List Token :=
  (tokens.takeWhile (·.kind != .eof)).filter (!·.isTrivia)

/-- No token that a parse sees is trivia. -/
theorem isTrivia_of_mem_significant {tokens : List Token} {t : Token} (h : t ∈ significant tokens) :
    t.isTrivia = false := by
  simpa using (List.mem_filter.mp h).2

/-- The end marker of a token list.  A list without one ends where its last token stands. -/
def endMarker (tokens : List Token) : Token :=
  match tokens.find? (·.kind == .eof) with
  | some t => t
  | none => ⟨.eof, "", (tokens.getLast?.map (·.pos)).getD .start⟩

/-- The end marker is of the kind that says so, whether it was found or made up. -/
@[simp] theorem kind_endMarker (tokens : List Token) : (endMarker tokens).kind = .eof := by
  unfold endMarker
  split
  · next t h => simpa using List.find?_some h
  · rfl

/-! ## The state -/

/-- What is left to read and what has been found so far. -/
structure State where
  /-- The significant tokens that are still to be read. -/
  rest : List Token
  /-- The end marker, which is the current token when nothing is left. -/
  stop : Token
  /-- The errors so far, in the order in which they were found. -/
  errors : Array SyntaxError
  /-- The variables declared so far. -/
  declared : Declarations
  /-- How many levels of nesting are open. -/
  depth : Nat
  /-- Whether the present excursion past the nesting limit has been reported. -/
  overflowed : Bool

namespace State

/-- The state in which a token list is still to be read. -/
def initial (tokens : List Token) : State :=
  { rest := significant tokens
    stop := endMarker tokens
    errors := #[]
    declared := .empty
    depth := 0
    overflowed := false }

/-- The first token that is still to be read. -/
def current (s : State) : Token :=
  s.rest.headD s.stop

/-- While tokens are left, the first of them is the current one. -/
theorem current_eq_of_rest_cons {s : State} {t : Token} {ts : List Token} (h : s.rest = t :: ts) :
    s.current = t := by
  simp [current, h]

/-- Once all tokens are read, the end marker is the current one. -/
theorem current_eq_stop {s : State} (h : s.rest = []) : s.current = s.stop := by
  simp [current, h]

/-- The state with one more error. -/
def report (s : State) (e : SyntaxError) : State :=
  { s with errors := s.errors.push e }

end State

/-- An action that reads tokens. -/
abbrev Parse (α : Type) := StateM State α

/-! ## Reading tokens -/

/-- The first token that is still to be read. -/
def current : Parse Token :=
  return (← get).current

/-- Reads one token; at the end nothing happens. -/
def advance : Parse Unit :=
  modify fun s => { s with rest := s.rest.tail }

/-- Whether the current token has the given kind. -/
def isAt (kind : Token.Kind) : Parse Bool :=
  return (← current).kind == kind

/-- Whether the current token is the given word. -/
def isAtWord (word : String) : Parse Bool :=
  return (← current).isWord word

/-- The type whose keyword is the current token. -/
def typeHere : Parse (Option DataType) := do
  let t ← current
  return if t.kind = .keyword then DataType.ofKeyword? t.text else none

/-- Reports a fault at a token. -/
def reportAt (fault : SyntaxFault) (t : Token) : Parse Unit :=
  modify (·.report (.ofToken fault t))

/-- Reports a fault at the current token. -/
def report (fault : SyntaxFault) : Parse Unit := do
  reportAt fault (← current)

/-- Reads the current token if it has the given kind, and says whether it does. -/
def eat (kind : Token.Kind) : Parse Bool := do
  if ← isAt kind then
    advance
    return true
  else
    return false

/-- Reads the current token if it is the given word, and says whether it is. -/
def eatWord (word : String) : Parse Bool := do
  if ← isAtWord word then
    advance
    return true
  else
    return false

/-- Reads a token of the given kind.  Any other token stays, and the absence is reported. -/
def expect (kind : Token.Kind) (what : String) : Parse (Option Token) := do
  let t ← current
  if t.kind = kind then
    advance
    return some t
  else
    report (.expected what)
    return none

/-- Reads the given word.  Any other token stays, and the absence is reported. -/
def expectWord (word what : String) : Parse Unit := do
  unless ← eatWord word do
    report (.expected what)

/-- The placeholder for the current token. -/
def placeholder : Parse Placeholder := do
  let t ← current
  return ⟨t.text, t.pos⟩

/-! ## Variables -/

/-- Enters a variable into the table; a name that is taken is reported and its first entry stays. -/
def declare (ident : Token) (dataType : DataType) : Parse Unit := do
  if (← get).declared.contains ident.text then
    reportAt (.redeclared ident.text) ident
  else
    modify fun s => { s with declared := s.declared.insert ⟨ident.text, dataType, ident.pos⟩ }

/-- Reports a name that is not in the table. -/
def checkDeclared (ident : Token) : Parse Unit := do
  unless (← get).declared.contains ident.text do
    reportAt (.undeclared ident.text) ident

/-! ## Repetition -/

/-- Runs `step` while the current token does not satisfy `stop`, at most `bound` times, and collects what
it yields.  A step that reads a token at every turn needs no larger bound than the number of tokens
that are left. -/
def repeatUntil {α : Type} (stop : Token → Bool) (step : Parse (Option α)) :
    Nat → Parse (List α)
  | 0 => return []
  | bound + 1 => do
    if stop (← current) then
      return []
    else
      let item ← step
      let items ← repeatUntil stop step bound
      return item.toList ++ items

end Parser

end Braceless

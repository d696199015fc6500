import Braceless.Parser.State

/-!
# The nesting limit and what is skipped beyond it

A production that nests opens a level for its inside and closes it afterwards.  The number of levels that may
still be opened, the *room*, is handed from each production to the ones inside it and bounds their recursion.
Where no room is left, the excursion is reported once and the inside is skipped, up to the token at which the
production goes on.

## Main definitions

* `nested`: a production inside one more level, or what takes its place without room.
* `afterExpression`, `afterBalanced`, `afterElseChain`: what is left of a token list after a skipped part.

## Main results

* `length_afterBalanced_le`: skipping never makes a token list longer.
-/

namespace Braceless

namespace Parser

/-! ## Levels -/

/-- Opens a level.  Below half of the limit, an earlier excursion past it is over. -/
def openLevel : Parse Unit :=
  modify fun s =>
    { s with
      overflowed := s.overflowed && decide (maxNesting / 2 ≤ s.depth)
      depth := s.depth + 1 }

/-- Closes a level. -/
def closeLevel : Parse Unit :=
  modify fun s => { s with depth := s.depth - 1 }

/-- Reports that the nesting limit is reached, once in an excursion past it. -/
def reportOverflow : Parse Unit := do
  unless (← get).overflowed do
    report .nestingTooDeep
    modify fun s => { s with overflowed := true }

/-- Runs `inside` within one more level, with one level less of room.  Without room, the overflow is
reported and `outside` takes its place. -/
def nested {α : Type} :
    (room : Nat) → (inside : (inner : Nat) → inner < room → Parse α) → (outside : Parse α) → Parse α
  | 0, _, outside => do
    reportOverflow
    outside
  | inner + 1, inside, _ => do
    openLevel
    let a ← inside inner (Nat.lt_succ_self inner)
    closeLevel
    return a

/-! ## Skipping -/

/-- What is left after the rest of an expression, of which `opened` brackets are open: from the first
semicolon or closing bracket outside all of them. -/
def afterExpression (opened : Nat) : List Token → List Token
  | [] => []
  | t :: ts =>
    match t.kind with
    | .semicolon => if opened = 0 then t :: ts else afterExpression opened ts
    | .lParen | .lBrace => afterExpression (opened + 1) ts
    | .rParen | .rBrace => if opened = 0 then t :: ts else afterExpression (opened - 1) ts
    | _ => afterExpression opened ts

/-- What is left after the bracket that closes the last of `opened` brackets. -/
def afterClosing (opening closing : Token.Kind) (opened : Nat) : List Token → List Token
  | [] => []
  | t :: ts =>
    if t.kind = opening then afterClosing opening closing (opened + 1) ts
    else if t.kind = closing then
      if opened ≤ 1 then ts else afterClosing opening closing (opened - 1) ts
    else afterClosing opening closing opened ts

/-- What is left after a bracketed part, if one stands in front. -/
def afterBalanced (opening closing : Token.Kind) : List Token → List Token
  | [] => []
  | t :: ts => if t.kind = opening then afterClosing opening closing 1 ts else t :: ts

/-- What is left after the given word, if it stands in front. -/
def afterWord (word : String) : List Token → List Token
  | [] => []
  | t :: ts => if t.isWord word then ts else t :: ts

theorem length_afterClosing_le (opening closing : Token.Kind) (opened : Nat) (ts : List Token) :
    (afterClosing opening closing opened ts).length ≤ ts.length := by
  induction ts generalizing opened with
  | nil => exact Nat.le_refl _
  | cons t ts ih =>
    unfold afterClosing
    split
    · exact Nat.le_succ_of_le (ih _)
    · split
      · split
        · exact Nat.le_succ _
        · exact Nat.le_succ_of_le (ih _)
      · exact Nat.le_succ_of_le (ih _)

theorem length_afterBalanced_le (opening closing : Token.Kind) (ts : List Token) :
    (afterBalanced opening closing ts).length ≤ ts.length := by
  cases ts with
  | nil => exact Nat.le_refl _
  | cons t ts =>
    rw [afterBalanced]
    split
    · exact Nat.le_succ_of_le (length_afterClosing_le ..)
    · exact Nat.le_refl _

theorem length_afterWord_le (word : String) (ts : List Token) :
    (afterWord word ts).length ≤ ts.length := by
  cases ts with
  | nil => exact Nat.le_refl _
  | cons t ts =>
    rw [afterWord]
    split
    · exact Nat.le_succ _
    · exact Nat.le_refl _

/-- What is left after one conditional without its other branches. -/
def afterConditional (ts : List Token) : List Token :=
  afterBalanced .lBrace .rBrace (afterBalanced .lParen .rParen (afterWord "if" ts))

theorem length_afterConditional_le (ts : List Token) :
    (afterConditional ts).length ≤ ts.length :=
  Nat.le_trans (length_afterBalanced_le ..)
    (Nat.le_trans (length_afterBalanced_le ..) (length_afterWord_le ..))

/-- What is left after a conditional and all branches that follow it. -/
def afterElseChain (ts : List Token) : List Token :=
  match _h : afterConditional ts with
  | [] => []
  | t :: rest => if t.isWord "else" then afterElseChain rest else t :: rest
termination_by ts.length
decreasing_by
  have hle := length_afterConditional_le ts
  rw [_h] at hle
  exact hle

/-- Reads what `after` drops. -/
def skipTo (after : List Token → List Token) : Parse Unit :=
  modify fun s => { s with rest := after s.rest }

/-- Skips the rest of an expression, with a placeholder for it. -/
def skipExpression : Parse Expr := do
  let p ← placeholder
  skipTo (afterExpression 0)
  return .invalid p

end Parser

end Braceless

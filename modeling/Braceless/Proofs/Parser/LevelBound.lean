import Braceless.Parser
import Braceless.Proofs.Levels

/-!
# The levels of what a production returns

The room of a production bounds the levels that are open at a time.  That bounds all levels of
the tree as well: an expression has at most `deepest` of the room levels, and the step of the
induction is the recursion that defines `deepest`.  Nothing is assumed of the tokens, so the
bounds hold on the paths of recovery too.  The operator of an update such as `x++` takes no
room, which makes one more level.

## Main definitions

* `Returns`: what holds of every result of an action.
* `Fits`, `OperandFits`, `ChainFits`: the levels of expressions within a room.
* `Limited`: a way to count the levels of expressions, with its bound.

## Main results

* `returns_expression`: the levels of expressions.
* `returns_program`: the levels of programs.
-/

namespace Braceless

namespace Parser

/-! ## Results of actions -/

/-- Every result of the action satisfies `P`, from whatever state it starts. -/
def Returns {α : Type} (p : Parse α) (P : α → Prop) : Prop :=
  ∀ s, P (p.run s).1

namespace Returns

variable {α β : Type} {p : Parse α} {f : α → Parse β} {P Q : α → Prop} {R : β → Prop}

theorem mono (h : Returns p P) (hPQ : ∀ a, P a → Q a) : Returns p Q :=
  fun s => hPQ _ (h s)

theorem pure {a : α} (h : P a) : Returns (Pure.pure a) P :=
  fun _ => h

theorem bind (hp : Returns p P) (hf : ∀ a, P a → Returns (f a) R) : Returns (p >>= f) R :=
  fun s => hf _ (hp s) (p.run s).2

/-- Nothing needs to be known of the result of the first action. -/
theorem andThen (hf : ∀ a, Returns (f a) R) : Returns (p >>= f) R :=
  fun s => hf (p.run s).1 (p.run s).2

theorem map {g : α → β} (hp : Returns p P) (hg : ∀ a, P a → R (g a)) :
    Returns (p >>= fun a => Pure.pure (g a)) R :=
  hp.bind fun a ha => .pure (hg a ha)

theorem nested {room : Nat} {inside : (inner : Nat) → inner < room → Parse α}
    {outside : Parse α} (hInside : ∀ inner h, Returns (inside inner h) P)
    (hOutside : Returns outside P) : Returns (Parser.nested room inside outside) P := by
  cases room with
  | zero => exact .andThen fun _ => hOutside
  | succ inner =>
      refine .andThen fun _ => (hInside inner (Nat.lt_succ_self inner)).bind fun a ha => ?_
      exact .andThen fun _ => .pure ha

end Returns

/-! ## Expressions -/

open Grammar

theorem deepest_mono {room room' : Nat} (h : room ≤ room') : deepest room ≤ deepest room' := by
  induction h with
  | refl => exact Nat.le_refl _
  | step _ ih =>
      rw [deepest]
      omega

/-- A level of room is worth a level of the tree. -/
theorem deepest_lt {inner room : Nat} (h : inner < room) : deepest inner < deepest room := by
  have hNext := deepest_mono h
  rw [Nat.succ_eq_add_one, deepest] at hNext
  omega

/-- What an expression has at most within a room. -/
structure Fits (room : Nat) (e : Expr) : Prop where
  opened : e.opened ≤ room
  levels : e.levels ≤ deepest room

/-- What an operand of a rank has at most within a room.  It is no chain of a looser rank, and
the chains of its own rank and of each tighter one may add the room once to its levels. -/
structure OperandFits (rank room : Nat) (e : Expr) : Prop where
  opened : e.opened ≤ room + 1
  levels : e.levels ≤ deepest room + 1 + (6 - rank) * room
  apart : ∀ k < rank, e.chainLength k = 0

/-- What a chain of a rank has at most after `left`, if it goes on within a room. -/
structure ChainFits (rank room : Nat) (left e : Expr) : Prop where
  opened : e.opened ≤ max left.opened (left.chainLength rank + room + 1)
  levels : e.levels ≤ max left.levels (deepest room + 1 + (5 - rank) * room) + room
  apart : ∀ k < rank, left.chainLength k = 0 → e.chainLength k = 0

theorem OperandFits.of_six {room : Nat} {e : Expr} (hOpened : e.opened ≤ room + 1)
    (hLevels : e.levels ≤ deepest room + 1) (hChain : ∀ k, e.chainLength k = 0) :
    OperandFits 6 room e :=
  ⟨hOpened, by simpa using hLevels, fun k _ => hChain k⟩

theorem OperandFits.literal (room : Nat) (l : Literal) : OperandFits 6 room (.literal l) :=
  .of_six (Nat.zero_le _) (Nat.zero_le _) fun _ => rfl

theorem OperandFits.invalid (room : Nat) (p : Placeholder) : OperandFits 6 room (.invalid p) :=
  .of_six (Nat.zero_le _) (Nat.zero_le _) fun _ => rfl

theorem ChainFits.refl (rank room : Nat) (left : Expr) : ChainFits rank room left left :=
  ⟨Nat.le_max_left _ _, by omega, fun _ _ h => h⟩

/-- An operator takes a level of room and stands on top of the chain so far. -/
theorem ChainFits.more {rank inner room : Nat} {op : BinaryOp} {left right e : Expr}
    (hRank : op.rank = rank) (h : inner < room) (hRight : OperandFits (rank + 1) inner right)
    (hMore : ChainFits rank inner (.binary op left right) e) : ChainFits rank room left e := by
  have hLength : (Expr.binary op left right).chainLength rank = left.chainLength rank + 1 := by
    rw [Expr.chainLength, if_pos hRank]
  refine ⟨?_, ?_, fun k hk hLeft => hMore.apart k hk ?_⟩
  · have hOpened := hMore.opened
    have hOperand := hRight.opened
    rw [hLength, Expr.opened, hRank] at hOpened
    omega
  · have hLevels := hMore.levels
    have hOperand := hRight.levels
    have hLess := deepest_lt h
    have hRanks : 6 - (rank + 1) = 5 - rank := by omega
    have hChains : (5 - rank) * inner ≤ (5 - rank) * room := Nat.mul_le_mul_left _ h.le
    rw [Expr.levels] at hLevels
    rw [hRanks] at hOperand
    omega
  · rw [Expr.chainLength, if_neg (by omega)]

/-- A chain of a rank around an operand of the next tighter one. -/
theorem ChainFits.operandFits {rank room : Nat} {left e : Expr} (hRank : rank < 6)
    (hLeft : OperandFits (rank + 1) room left) (h : ChainFits rank room left e) :
    OperandFits rank room e := by
  refine ⟨?_, ?_, fun k hk => h.apart k hk (hLeft.apart k (Nat.lt_succ_of_lt hk))⟩
  · have hOpened := h.opened
    have hOperand := hLeft.opened
    rw [hLeft.apart rank (Nat.lt_succ_self rank)] at hOpened
    omega
  · have hLevels := h.levels
    have hOperand := hLeft.levels
    have hRanks : 6 - (rank + 1) = 5 - rank := by omega
    have hOwn : (6 - rank) * room = (5 - rank) * room + room := by
      rw [show 6 - rank = 5 - rank + 1 by omega, Nat.succ_mul]
    rw [hRanks] at hOperand
    omega

theorem returns_skipExpression {P : Expr → Prop} (h : ∀ p, P (.invalid p)) :
    Returns skipExpression P :=
  .andThen fun p => .andThen fun _ => .pure (h p)

theorem returns_noExpression {P : Expr → Prop} (h : ∀ p, P (.invalid p)) :
    Returns noExpression P :=
  .andThen fun _ => .andThen fun p => .pure (h p)

theorem returns_literalHere (kind : Literal.Kind) (value : String) (room : Nat) :
    Returns (literalHere kind value) (OperandFits 6 room) :=
  .andThen fun _ => .pure (.literal room _)

/-- A factor, given the expressions within the same room. -/
theorem returns_factor {room : Nat} (hExpression : Returns (expression room) (Fits room)) :
    Returns (factor room) (OperandFits 6 room) := by
  rw [factor]
  refine .andThen fun t => ?_
  split
  · exact returns_literalHere _ _ room
  · exact returns_literalHere _ _ room
  · exact returns_literalHere _ _ room
  · exact returns_literalHere _ _ room
  · split
    · exact returns_literalHere _ _ room
    · exact returns_noExpression (.invalid room)
  · refine .andThen fun _ => .andThen fun _ => .pure ?_
    exact .of_six (Nat.zero_le _) (Nat.zero_le _) fun _ => rfl
  · refine .andThen fun _ => hExpression.bind fun e he => .andThen fun _ => .pure ?_
    exact .of_six (Nat.succ_le_succ he.opened) (Nat.succ_le_succ he.levels) fun _ => rfl
  · exact returns_noExpression (.invalid room)

/-- A unary operand, given those with less room. -/
theorem returns_unary {room : Nat} (hExpression : Returns (expression room) (Fits room))
    (hInner : ∀ inner < room, Returns (unary inner) (OperandFits 6 inner)) :
    Returns (unary room) (OperandFits 6 room) := by
  rw [unary]
  refine .andThen fun t => ?_
  split
  · exact returns_factor hExpression
  · refine .nested (fun inner h => ?_) (returns_skipExpression (.invalid room))
    refine .andThen fun _ => (hInner inner h).map fun e he => .of_six ?_ ?_ fun _ => rfl
    · have hOpened := he.opened
      rw [Expr.opened]
      omega
    · have hLevels := he.levels
      have hLess := deepest_lt h
      rw [Nat.sub_self, Nat.zero_mul] at hLevels
      rw [Expr.levels]
      omega

theorem returns_operatorHere {rank : Nat} {ops : OperatorLevel} (hLevel : IsLevel rank ops) :
    Returns (operatorHere ops) fun o => ∀ op ∈ o, op.rank = rank :=
  .andThen fun t => .pure fun op hop => ((hLevel t.kind op).mp hop).1

/-- The rest of a chain, given the operands and the chains with less room. -/
theorem returns_chain {room rank : Nat} {ops : OperatorLevel} {left : Expr}
    (hLevel : IsLevel rank ops)
    (hOperand : ∀ inner < room,
      Returns (binary inner (operatorLevels.drop (rank + 1))) (OperandFits (rank + 1) inner))
    (hMore : ∀ inner < room, ∀ left,
      Returns (chain inner ops (operatorLevels.drop (rank + 1)) left)
        (ChainFits rank inner left)) :
    Returns (chain room ops (operatorLevels.drop (rank + 1)) left) (ChainFits rank room left) := by
  rw [chain]
  refine (returns_operatorHere hLevel).bind fun o ho => ?_
  cases o with
  | none => exact .pure (.refl rank room left)
  | some op =>
      refine .nested (fun inner h => ?_) (.andThen fun _ => .pure (.refl rank room left))
      refine .andThen fun _ => (hOperand inner h).bind fun right hRight => ?_
      exact (hMore inner h _).mono fun e he => he.more (ho op rfl) h hRight

/-- An operand of a rank, given the chains of all ranks and the tightest operand. -/
theorem returns_joined {room : Nat} (hUnary : Returns (unary room) (OperandFits 6 room))
    (hChain : ∀ rank < 6, ∀ ops left, IsLevel rank ops →
      Returns (chain room ops (operatorLevels.drop (rank + 1)) left) (ChainFits rank room left)) :
    ∀ k rank, rank + k = 6 →
      Returns (joined (unary room) (chain room) (operatorLevels.drop rank))
        (OperandFits rank room) := by
  intro k
  induction k with
  | zero =>
      rintro rank rfl
      exact hUnary
  | succ k ih =>
      intro rank hSum
      have hRank : rank < 6 := by omega
      obtain ⟨ops, hLevel, hDrop⟩ := exists_isLevel hRank
      rw [hDrop, joined]
      refine (ih (rank + 1) (by omega)).bind fun left hLeft => ?_
      exact (hChain rank hRank ops left hLevel).mono fun e he => he.operandFits hRank hLeft

/-- An expression, given the operands with less room. -/
theorem returns_expression_of {room : Nat}
    (hOperand : ∀ inner < room, Returns (binary inner operatorLevels) (OperandFits 0 inner)) :
    Returns (expression room) (Fits room) := by
  rw [expression]
  have hInvalid : ∀ p, Fits room (.invalid p) := fun _ => ⟨Nat.zero_le _, Nat.zero_le _⟩
  refine .nested (fun inner h => ?_) (returns_skipExpression hInvalid)
  refine (hOperand inner h).mono fun e he => ⟨he.opened.trans h, ?_⟩
  have hLevels := he.levels
  have hNext := deepest_mono h
  rw [Nat.succ_eq_add_one, deepest] at hNext
  omega

/-- Operands of all ranks, chains and unary operands, by the room that is left. -/
theorem returns_operands (room : Nat) :
    (∀ rank ≤ 6, Returns (binary room (operatorLevels.drop rank)) (OperandFits rank room)) ∧
    (∀ rank < 6, ∀ ops left, IsLevel rank ops →
      Returns (chain room ops (operatorLevels.drop (rank + 1)) left)
        (ChainFits rank room left)) ∧
    Returns (unary room) (OperandFits 6 room) := by
  induction room using Nat.strongRecOn with
  | ind room ih =>
      have hExpression := returns_expression_of fun inner h => (ih inner h).1 0 (by omega)
      have hUnary := returns_unary hExpression fun inner h => (ih inner h).2.2
      have hChain : ∀ rank < 6, ∀ ops left, IsLevel rank ops →
          Returns (chain room ops (operatorLevels.drop (rank + 1)) left)
            (ChainFits rank room left) := fun rank hRank ops left hLevel =>
        returns_chain hLevel (fun inner h => (ih inner h).1 (rank + 1) hRank)
          fun inner h left => (ih inner h).2.1 rank hRank ops left hLevel
      refine ⟨fun rank hRank => ?_, hChain, hUnary⟩
      rw [binary]
      exact returns_joined hUnary hChain (6 - rank) rank (by omega)

theorem returns_expression (room : Nat) : Returns (expression room) (Fits room) :=
  returns_expression_of fun inner _ => (returns_operands inner).1 0 (by omega)

/-! ## Simple statements -/

/-- Counted by `f`, an expression has at most `bound` of the room levels, and the operator of
an update adds one. -/
structure Limited (f : Expr → Nat) (bound : Nat → Nat) : Prop where
  expression : ∀ room, Returns (expression room) (f · ≤ bound room)
  grows : ∀ {inner room}, inner < room → bound inner < bound room
  literal : ∀ l, f (.literal l) = 0
  invalid : ∀ p, f (.invalid p) = 0
  updated : ∀ target op e, f (updated target op e) ≤ f e + 1

/-- The levels that are open at a time are those for which there is room. -/
theorem limited_opened : Limited Expr.opened fun room => room where
  expression room := (returns_expression room).mono fun _ he => he.opened
  grows h := h
  literal _ := rfl
  invalid _ := rfl
  updated target op e := by
    have hChain : (Expr.identifier target.text target.pos).chainLength op.rank = 0 := rfl
    rw [Parser.updated, Expr.opened, Expr.opened, hChain]
    omega

theorem limited_levels : Limited Expr.levels deepest where
  expression room := (returns_expression room).mono fun _ he => he.levels
  grows := deepest_lt
  literal _ := rfl
  invalid _ := rfl
  updated target op e := by rw [Parser.updated, Expr.levels, Expr.levels, Nat.zero_max]

section Simple

variable {f : Expr → Nat} {bound : Nat → Nat} (hf : Limited f bound) (room : Nat)

include hf

theorem returns_firstValue : Returns (firstValue room) (·.elim 0 f ≤ bound room) := by
  unfold firstValue
  refine .andThen fun b => ?_
  split
  · exact (hf.expression room).map fun _ he => he
  · exact .pure (Nat.zero_le _)

theorem returns_declaration (dataType : DataType) :
    Returns (declaration room dataType) (·.elim 0 (Declaration.levels f) ≤ bound room) := by
  unfold declaration
  refine .andThen fun _ => .andThen fun ident => ?_
  cases ident with
  | none => exact .pure (Nat.zero_le _)
  | some ident =>
      refine .andThen fun _ => (returns_firstValue hf room).bind fun value hValue => ?_
      exact .andThen fun _ => .pure hValue

theorem returns_declarationHere {β : Type} (g : Declaration → β) {view : β → Nat}
    (hView : ∀ d, view (g d) = d.levels f) (dataType : DataType) :
    Returns (declaration room dataType >>= fun d => pure (d.map g))
      (·.elim 0 view ≤ bound room + 1) := by
  refine (returns_declaration hf room dataType).map fun d hd => ?_
  cases d with
  | none => exact Nat.zero_le _
  | some d => exact (hView d).trans_le (Nat.le_succ_of_le hd)

/-- The operation of an update stands above the amount. -/
theorem returns_updateValue (target : Token) (what : String) :
    Returns (updateValue room target what) (·.elim 0 f ≤ bound room + 1) := by
  have hUpdated (op : BinaryOp) {e : Expr} (he : f e ≤ bound room) :
      f (updated target op e) ≤ bound room + 1 :=
    (hf.updated target op e).trans (Nat.succ_le_succ he)
  have hOne : f one ≤ bound room := (hf.literal _).trans_le (Nat.zero_le _)
  unfold updateValue
  refine .andThen fun t => ?_
  split
  · exact .andThen fun _ => (hf.expression room).map fun e he => Nat.le_succ_of_le he
  · exact .andThen fun _ => .pure (hUpdated .add hOne)
  · exact .andThen fun _ => .pure (hUpdated .sub hOne)
  · exact .andThen fun _ => (hf.expression room).map fun e he => hUpdated .add he
  · exact .andThen fun _ => (hf.expression room).map fun e he => hUpdated .sub he
  · exact .andThen fun _ => .pure (Nat.zero_le _)

theorem returns_valueWithoutOperator :
    Returns (valueWithoutOperator room) (f · ≤ bound room) := by
  unfold valueWithoutOperator
  refine .andThen fun t => ?_
  split
  · exact .andThen fun p => .pure ((hf.invalid p).trans_le (Nat.zero_le _))
  · exact hf.expression room

theorem returns_assignment :
    Returns (assignment room) (·.levels f ≤ bound room + 1) := by
  have hValue (target : Token) : Returns (assignedValue room target) (f · ≤ bound room + 1) := by
    unfold assignedValue
    refine (returns_updateValue hf room target _).bind fun value hValue => ?_
    cases value with
    | none => exact (returns_valueWithoutOperator hf room).mono fun e he => Nat.le_succ_of_le he
    | some value => exact .pure hValue
  unfold assignment
  refine .andThen fun target => .andThen fun _ => .andThen fun _ => ?_
  exact (hValue target).bind fun value h => .andThen fun _ => .pure h

theorem returns_printStatement :
    Returns (printStatement room) (·.levels f ≤ bound room + 1) := by
  have hArgument : Returns (printArgument room) (·.elim 0 f ≤ bound room) := by
    unfold printArgument
    refine .andThen fun b => ?_
    split
    · exact .pure (Nat.zero_le _)
    · exact (hf.expression room).map fun _ he => he
  unfold printStatement
  refine .andThen fun t => .andThen fun _ => .andThen fun _ => .andThen fun _ =>
    .andThen fun _ => .andThen fun newline => .andThen fun _ => ?_
  refine hArgument.bind fun argument h => .andThen fun _ => .andThen fun _ => .pure ?_
  rw [Stmt.levels]
  exact Nat.le_succ_of_le h

theorem returns_forInit :
    Returns (forInit room) (·.elim 0 (ForInit.levels f) ≤ bound room + 1) := by
  unfold forInit
  refine .andThen fun dataType => ?_
  cases dataType with
  | some dataType =>
      exact returns_declarationHere hf room ForInit.declaration (fun _ => rfl) dataType
  | none =>
      refine .andThen fun b => ?_
      split
      · exact (returns_assignment hf room).map fun _ ha => ha
      · exact .andThen fun _ => .pure (Nat.zero_le _)

theorem returns_forUpdate :
    Returns (forUpdate room) (·.elim 0 (Assignment.levels f) ≤ bound room + 1) := by
  unfold forUpdate
  refine .andThen fun target => ?_
  cases target with
  | none => exact .pure (Nat.zero_le _)
  | some target =>
      refine .andThen fun _ => (returns_updateValue hf room target _).map fun value hValue => ?_
      cases value with
      | none => exact Nat.zero_le _
      | some value => exact hValue

end Simple

/-! ## Compound statements -/

section Compound

variable {f : Expr → Nat}

/-- The levels of a statement that may be missing. -/
abbrev StatementWithin (f : Expr → Nat) (n : Nat) (s : Option Stmt) : Prop :=
  s.elim 0 (Stmt.levels f) ≤ n

theorem returns_orDrop {n : Nat} {p : Parse (Option Stmt)}
    (h : Returns p (StatementWithin f n)) : Returns (orDrop p) (StatementWithin f n) := by
  unfold orDrop
  refine h.bind fun o ho => ?_
  cases o with
  | none => exact .andThen fun _ => .pure (Nat.zero_le _)
  | some s => exact .pure ho

theorem returns_repeatUntil {n : Nat} {step : Parse (Option Stmt)}
    (hStep : Returns step (StatementWithin f n)) (stop : Token → Bool) (turns : Nat) :
    Returns (repeatUntil stop step turns) (levelsOf f · ≤ n) := by
  induction turns with
  | zero => exact .pure (Nat.zero_le _)
  | succ turns ih =>
      unfold repeatUntil
      refine .andThen fun t => ?_
      split
      · exact .pure (Nat.zero_le _)
      · refine hStep.bind fun item hItem => ih.map fun items hItems => ?_
        rw [levelsOf_append]
        cases item with
        | none => exact Nat.max_le.mpr ⟨Nat.zero_le _, hItems⟩
        | some s => exact Nat.max_le.mpr ⟨Nat.max_le.mpr ⟨hItem, Nat.zero_le _⟩, hItems⟩

theorem returns_noStatement (n : Nat) : Returns noStatement (·.levels f ≤ n) := by
  refine .andThen fun p => .andThen fun _ => .andThen fun _ => .pure ?_
  rw [Stmt.levels]
  exact Nat.zero_le n

variable {bound : Nat → Nat} (hf : Limited f bound) {room : Nat}

include hf

/-- A block, given the statements with less room. -/
theorem returns_block
    (hStatement : ∀ inner < room,
      Returns (statement inner) (StatementWithin f (bound inner + 1)))
    (opening closing : String) :
    Returns (block room opening closing) (levelsOf f · ≤ bound room) := by
  rw [block]
  refine .nested (fun inner h => ?_) (.andThen fun _ => .pure (Nat.zero_le _))
  have hBody := returns_repeatUntil (returns_orDrop (hStatement inner h)) endsBlock
  refine .andThen fun _ => .andThen fun s => (hBody s.rest.length).bind fun body hLevels => ?_
  exact .andThen fun _ => .pure (hLevels.trans (hf.grows h))

variable (hBlock : ∀ opening closing,
  Returns (block room opening closing) (levelsOf f · ≤ bound room))

include hBlock

theorem returns_elseBranch
    (hIf : ∀ inner < room, Returns (ifStatement inner) (·.levels f ≤ bound inner + 1)) :
    Returns (elseBranch room) (·.levels f ≤ bound room + 1) := by
  rw [elseBranch]
  refine .andThen fun b => ?_
  split
  · refine .andThen fun b => ?_
    split
    · refine .nested (fun inner h => ?_) (.andThen fun _ => .pure (Nat.zero_le _))
      refine (hIf inner h).map fun i hi => ?_
      have hLess := hf.grows h
      rw [Else.levels]
      omega
    · exact (hBlock _ _).map fun body hBody => Nat.succ_le_succ hBody
  · exact .pure (Nat.zero_le _)

theorem returns_ifStatement
    (hIf : ∀ inner < room, Returns (ifStatement inner) (·.levels f ≤ bound inner + 1)) :
    Returns (ifStatement room) (·.levels f ≤ bound room + 1) := by
  rw [ifStatement]
  refine .andThen fun t => .andThen fun _ => .andThen fun _ => ?_
  refine (hf.expression room).bind fun condition hCondition => .andThen fun _ => ?_
  refine (hBlock _ _).bind fun body hBody => ?_
  refine (returns_elseBranch hf hBlock hIf).map fun orElse hElse => ?_
  rw [IfStatement.levels]
  omega

theorem returns_forStatement :
    Returns (forStatement room) (StatementWithin f (bound room + 1)) := by
  rw [forStatement]
  refine .andThen fun t => .andThen fun _ => .andThen fun _ => ?_
  refine (returns_forInit hf room).bind fun init hInit => ?_
  cases init with
  | none => exact .pure (Nat.zero_le _)
  | some init =>
      refine (hf.expression room).bind fun condition hCondition => .andThen fun _ => ?_
      refine (returns_forUpdate hf room).bind fun update hUpdate => .andThen fun _ => ?_
      refine (hBlock _ _).map fun body hBody => ?_
      have hStart : init.levels f ≤ bound room + 1 := hInit
      rw [StatementWithin, Option.elim_some, Stmt.levels]
      omega

theorem returns_whileStatement :
    Returns (whileStatement room) (·.levels f ≤ bound room + 1) := by
  rw [whileStatement]
  refine .andThen fun t => .andThen fun _ => .andThen fun _ => ?_
  refine (hf.expression room).bind fun condition hCondition => .andThen fun _ => ?_
  refine (hBlock _ _).map fun body hBody => ?_
  rw [Stmt.levels]
  omega

/-- A statement, given the blocks and conditionals within the same room. -/
theorem returns_statement_of
    (hIf : Returns (ifStatement room) (·.levels f ≤ bound room + 1)) :
    Returns (statement room) (StatementWithin f (bound room + 1)) := by
  rw [statement]
  refine .andThen fun dataType => ?_
  cases dataType with
  | some dataType =>
      have hView (d : Declaration) : (Stmt.declaration d).levels f = d.levels f := by
        rw [Stmt.levels]
      exact returns_declarationHere hf room Stmt.declaration hView dataType
  | none =>
      refine .andThen fun b => ?_
      split
      · refine (returns_assignment hf room).map fun a ha => ?_
        rw [StatementWithin, Option.elim_some, Stmt.levels]
        exact ha
      refine .andThen fun b => ?_
      split
      · refine hIf.map fun i hi => ?_
        rw [StatementWithin, Option.elim_some, Stmt.levels]
        exact hi
      refine .andThen fun b => ?_
      split
      · exact returns_forStatement hf hBlock
      refine .andThen fun b => ?_
      split
      · exact (returns_whileStatement hf hBlock).map fun _ hs => hs
      refine .andThen fun b => ?_
      split
      · exact (returns_printStatement hf room).map fun _ hs => hs
      · exact (returns_noStatement _).map fun _ hs => hs

end Compound

/-! ## Programs -/

section Programs

variable {f : Expr → Nat} {bound : Nat → Nat} (hf : Limited f bound) (room : Nat)

include hf

/-- Statements and conditionals, by the room that is left. -/
theorem returns_statements :
    Returns (statement room) (StatementWithin f (bound room + 1)) ∧
      Returns (ifStatement room) (·.levels f ≤ bound room + 1) := by
  induction room using Nat.strongRecOn with
  | ind room ih =>
      have hBlock := returns_block hf fun inner h => (ih inner h).1
      have hIf := returns_ifStatement hf hBlock fun inner h => (ih inner h).2
      exact ⟨returns_statement_of hf hBlock hIf, hIf⟩

theorem returns_classForm : Returns (classForm room) (·.levels f ≤ bound room + 1) := by
  have hBlock := returns_block hf fun inner (_ : inner < room) => (returns_statements hf inner).1
  have hEntry : Returns (entryProcedure room) (levelsOf f ·.2 ≤ bound room) := by
    unfold entryProcedure
    refine .andThen fun _ => .andThen fun _ => .andThen fun _ => .andThen fun _ =>
      .andThen fun _ => .andThen fun _ => .andThen fun _ => .andThen fun _ =>
        .andThen fun param => .andThen fun _ => ?_
    exact (hBlock _ _).map fun _ hBody => hBody
  unfold classForm
  refine .andThen fun _ => .andThen fun _ => .andThen fun name => .andThen fun _ => ?_
  refine hEntry.bind fun entry hLevels => .andThen fun _ => .andThen fun _ => .pure ?_
  exact Nat.le_succ_of_le hLevels

theorem returns_scriptForm : Returns (scriptForm room) (·.levels f ≤ bound room + 1) := by
  have hItem : Returns (scriptItem room) (StatementWithin f (bound room + 1)) := by
    unfold scriptItem
    refine .andThen fun b => ?_
    split
    · exact .andThen fun _ => .andThen fun _ => .pure (Nat.zero_le _)
    · exact returns_orDrop (returns_statements hf room).1
  exact .andThen fun s => (returns_repeatUntil hItem _ _).map fun body hBody => hBody

/-- The levels of a program, by either count. -/
theorem returns_program : Returns (program room) (·.levels f ≤ bound room + 1) := by
  unfold program
  refine .andThen fun t => ?_
  split
  · exact .pure (Nat.zero_le _)
  split
  · exact returns_classForm hf room
  · exact returns_scriptForm hf room

end Programs

end Parser

end Braceless

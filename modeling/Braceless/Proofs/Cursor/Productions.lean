import Braceless.Proofs.Cursor.Skipping
import Braceless.Proofs.Parser.Turns

/-!
# Every procedure follows its production

The procedures of the machine and the productions of the parser have the same texts up to three
differences.  The machine asks its counter whether there is room, the parser is handed the
room; the machine leaves the levels of a chain of operators open and closes them together, the
parser closes them one by one; and the machine runs its loops without a bound.  The proofs go
along the texts.  What the procedures call is given as a hypothesis at first, and the
recursion is closed by induction on the room.

## Main results

* `follows_operands`, `follows_expression`: expressions.
* `follows_statement`, `follows_statements`, `follows_block`: statements.
* `follows_script`, `follows_form`: programs.
-/

namespace Braceless

namespace Cursor

variable {tokens : List Token} {room : Nat}

/-! ## Expressions -/

theorem follows_operatorHere (ops : Parser.OperatorLevel) :
    Follows tokens Stays room (operatorHere ops) (Parser.operatorHere ops) :=
  follows_current.bind fun _ => .pure _

theorem follows_literalHere (kind : Literal.Kind) (value : String) :
    Follows tokens Stays room (literalHere kind value) (Parser.literalHere kind value) :=
  follows_advance.bind fun _ => .pure _

theorem follows_noExpression : Follows tokens Stays room noExpression Parser.noExpression :=
  (follows_report _).bind fun _ => follows_placeholder.bind fun _ => .pure _

/-- A level that is opened is closed again. -/
theorem Follows.within {α : Type} {inside outside : Run α}
    {inside' : (inner : Nat) → inner < room → Parser.Parse α} {outside' : Parser.Parse α}
    (hInside : ∀ inner h, inner < maxNesting → Follows tokens Drops inner inside (inside' inner h))
    (hOutside : Follows tokens Stays 0 outside outside') :
    Follows tokens Stays room (enter >>= fun b => if b = true then inside else outside)
      (Parser.nested room inside' outside') :=
  .nested (fun _ _ h => Nat.succ.inj h) (fun _ => rfl) hInside hOutside

theorem follows_expression_of
    (hBinary : ∀ inner < room, Follows tokens Stays inner (binary Parser.operatorLevels)
      (Parser.binary inner Parser.operatorLevels)) :
    Follows tokens Stays room expression (Parser.expression room) := by
  refine .call ?_
  rw [Parser.expression]
  refine .within (fun inner h hRoom => ?_) follows_skipExpression
  rw [← bind_pure (Parser.binary inner Parser.operatorLevels)]
  exact (hBinary inner h).bind fun e => follows_leave e hRoom

/-- A factor, given the expressions within the same room. -/
theorem follows_factor_of
    (hExpression : Follows tokens Stays room expression (Parser.expression room)) :
    Follows tokens Stays room factor (Parser.factor room) := by
  refine .call ?_
  rw [Parser.factor]
  refine follows_current.bind fun t => ?_
  generalize t.kind = kind
  cases kind
  case integer => exact follows_literalHere _ _
  case decimal => exact follows_literalHere _ _
  case char => exact follows_literalHere _ _
  case string => exact follows_literalHere _ _
  case keyword => exact .ite _ (follows_literalHere _ _) follows_noExpression
  case identifier =>
    exact (follows_checkDeclared t).bind fun _ => follows_advance.bind fun _ => .pure _
  case lParen =>
    exact follows_advance.bind fun _ => hExpression.bind fun _ =>
      (follows_discard_expect _ _).bind fun _ => .pure _
  all_goals exact follows_noExpression

/-- A unary operand, given those with less room. -/
theorem follows_unary_of (hFactor : Follows tokens Stays room factor (Parser.factor room))
    (hUnary : ∀ inner < room, Follows tokens Stays inner unary (Parser.unary inner)) :
    Follows tokens Stays room unary (Parser.unary room) := by
  refine .call ?_
  rw [Parser.unary]
  refine follows_current.bind fun t => ?_
  cases Parser.unaryOp? t.kind with
  | none => exact hFactor
  | some op =>
      refine .within (fun inner h hRoom => ?_) follows_skipExpression
      exact follows_advance.bind fun _ => (hUnary inner h).bind fun e => follows_leave _ hRoom

/-- A chain, given the operands and chains with less room.  Its levels stay open. -/
theorem follows_chain_of {ops : Parser.OperatorLevel} {tighter : List Parser.OperatorLevel}
    (hBinary : ∀ inner < room, Follows tokens Stays inner (binary tighter)
      (Parser.binary inner tighter))
    (hChain : ∀ inner < room, ∀ left, Follows tokens Climbs inner (chain ops tighter left)
      (Parser.chain inner ops tighter left)) (left : Expr) :
    Follows tokens Climbs room (chain ops tighter left) (Parser.chain room ops tighter left) := by
  have hStay : ∀ d d', Stays d d' → Climbs d d' := fun _ _ h => Nat.le_of_eq h.symm
  refine .call ?_
  rw [Parser.chain]
  refine (follows_operatorHere ops).bind fun op => ?_
  cases op with
  | none => exact (Follows.pure left).mono hStay
  | some op =>
      refine .nested (fun _ _ h => Nat.le_of_succ_le h) (fun _ => Nat.le_refl _)
        (fun inner h _ => ?_) (follows_skipExpression.discard.bind fun _ => .pure left)
      exact follows_advance.bind fun _ => (hBinary inner h).bind fun right => hChain inner h _

/-- The levels that an action leaves open are closed together. -/
theorem Follows.restoring {α : Type} {p : Run α} {q : Parser.Parse α}
    (h : Follows tokens Climbs room p q) :
    Follows tokens Stays room
      (now >>= fun m => p >>= fun a => restore m.depth >>= fun _ => Pure.pure a) q := by
  intro w hw hRoom
  obtain ⟨a, w', events, hYields, hRun, hDepth, hPassage⟩ := h w hw hRoom
  have hReady : Ready tokens (w'.now.withDepth w.now.depth) :=
    { hPassage.ready with shallow := hw.shallow }
  have hRestore : Passage tokens w' (w'.after .released (·.withDepth w.now.depth)) _ :=
    .act .released (·.withDepth w.now.depth) rfl hReady trivial
  exact ⟨a, _, _, (Yields.now w).bind (hYields.bind ((Yields.act _ _ w').bind (.pure a _))), hRun,
    rfl, hPassage.trans hRestore (Nat.le_trans (Nat.min_le_left _ _) hDepth)⟩

/-- Operands of all levels, given the chains and the unary operands within the same room. -/
theorem follows_binary_of (hUnary : Follows tokens Stays room unary (Parser.unary room))
    (hChain : ∀ ops tighter left, Follows tokens Climbs room (chain ops tighter left)
      (Parser.chain room ops tighter left)) (levels : List Parser.OperatorLevel) :
    Follows tokens Stays room (binary levels) (Parser.binary room levels) := by
  rw [Parser.binary]
  induction levels with
  | nil =>
      refine .call ?_
      rw [Parser.joined]
      exact hUnary
  | cons ops tighter ih =>
      refine .call ?_
      rw [Parser.joined]
      exact (ih.bind fun left => hChain ops tighter left).restoring

/-- Operands, chains and unary operands, by the room that is left. -/
theorem follows_operands (room : Nat) :
    (∀ levels, Follows tokens Stays room (binary levels) (Parser.binary room levels)) ∧
    (∀ ops tighter left, Follows tokens Climbs room (chain ops tighter left)
      (Parser.chain room ops tighter left)) ∧
    Follows tokens Stays room unary (Parser.unary room) := by
  induction room using Nat.strongRecOn with
  | ind room ih =>
      have hExpression := follows_expression_of fun inner h => (ih inner h).1 Parser.operatorLevels
      have hUnary := follows_unary_of (follows_factor_of hExpression) fun inner h => (ih inner h).2.2
      have hChain : ∀ ops tighter left, Follows tokens Climbs room (chain ops tighter left)
          (Parser.chain room ops tighter left) := fun ops tighter =>
        follows_chain_of (fun inner h => (ih inner h).1 tighter)
          fun inner h => (ih inner h).2.1 ops tighter
      exact ⟨follows_binary_of hUnary hChain, hChain, hUnary⟩

theorem follows_expression : Follows tokens Stays room expression (Parser.expression room) :=
  follows_expression_of fun inner _ => (follows_operands inner).1 Parser.operatorLevels

/-! ## Simple statements -/

theorem follows_firstValue : Follows tokens Stays room firstValue (Parser.firstValue room) :=
  (follows_eat _).bind fun _ => .ite _ (follows_expression.bind fun _ => .pure _) (.pure _)

theorem follows_declaration (dataType : DataType) :
    Follows tokens Stays room (declaration dataType) (Parser.declaration room dataType) := by
  refine follows_advance.bind fun _ => (follows_expect _ _).bind fun ident => ?_
  cases ident with
  | none => exact .pure none
  | some ident =>
      exact (follows_declare ident dataType).bind fun _ => follows_firstValue.bind fun _ =>
        (follows_discard_expect _ _).bind fun _ => .pure _

theorem follows_updateValue (target : Token) (what : String) :
    Follows tokens Stays room (updateValue target what) (Parser.updateValue room target what) := by
  refine follows_current.bind fun t => ?_
  have hValue (f : Expr → Expr) : Follows tokens Stays room
      (advance >>= fun _ => expression >>= fun e => pure (some (f e)))
      (Parser.advance >>= fun _ => Parser.expression room >>= fun e => pure (some (f e))) :=
    follows_advance.bind fun _ => follows_expression.bind fun _ => .pure _
  generalize t.kind = kind
  cases kind
  case assign => exact hValue id
  case increment => exact follows_advance.bind fun _ => .pure _
  case decrement => exact follows_advance.bind fun _ => .pure _
  case plusAssign => exact hValue (Parser.updated target .add)
  case minusAssign => exact hValue (Parser.updated target .sub)
  all_goals exact (follows_report _).bind fun _ => .pure _

theorem follows_valueWithoutOperator :
    Follows tokens Stays room valueWithoutOperator (Parser.valueWithoutOperator room) :=
  follows_current.bind fun _ => .ite _ (follows_placeholder.bind fun _ => .pure _) follows_expression

theorem follows_assignedValue (target : Token) :
    Follows tokens Stays room (assignedValue target) (Parser.assignedValue room target) := by
  refine (follows_updateValue target _).bind fun value => ?_
  cases value with
  | none => exact follows_valueWithoutOperator
  | some value => exact .pure value

theorem follows_assignment : Follows tokens Stays room assignment (Parser.assignment room) :=
  follows_current.bind fun target => (follows_checkDeclared target).bind fun _ =>
    follows_advance.bind fun _ => (follows_assignedValue target).bind fun _ =>
      (follows_discard_expect _ _).bind fun _ => .pure _

theorem follows_printMethod : Follows tokens Stays room printMethod Parser.printMethod :=
  (follows_eatWord _).bind fun _ => .ite _ (.pure true) ((follows_eatWord _).bind fun _ =>
    .ite _ (.pure false) ((follows_report _).bind fun _ => .pure true))

theorem follows_printArgument :
    Follows tokens Stays room printArgument (Parser.printArgument room) :=
  (follows_isAt _).bind fun _ => .ite _ (.pure none) (follows_expression.bind fun _ => .pure _)

theorem follows_printStatement :
    Follows tokens Stays room printStatement (Parser.printStatement room) :=
  follows_current.bind fun _ => follows_advance.bind fun _ =>
    (follows_discard_expect _ _).bind fun _ => (follows_expectWord _ _).bind fun _ =>
      (follows_discard_expect _ _).bind fun _ => follows_printMethod.bind fun _ =>
        (follows_discard_expect _ _).bind fun _ => follows_printArgument.bind fun _ =>
          (follows_discard_expect _ _).bind fun _ => (follows_discard_expect _ _).bind fun _ =>
            .pure _

theorem follows_forInit : Follows tokens Stays room forInit (Parser.forInit room) := by
  refine follows_typeHere.bind fun dataType => ?_
  cases dataType with
  | some dataType => exact (follows_declaration dataType).bind fun _ => .pure _
  | none =>
      exact (follows_isAt _).bind fun _ => .ite _ (follows_assignment.bind fun _ => .pure _)
        ((follows_report _).bind fun _ => .pure none)

theorem follows_forUpdate : Follows tokens Stays room forUpdate (Parser.forUpdate room) := by
  refine (follows_expect _ _).bind fun target => ?_
  cases target with
  | none => exact .pure none
  | some target =>
      exact (follows_checkDeclared target).bind fun _ => (follows_updateValue target _).bind fun _ =>
        .pure _

theorem follows_noStatement : Follows tokens Stays room noStatement Parser.noStatement :=
  follows_placeholder.bind fun _ => (follows_report _).bind fun _ => follows_advance.bind fun _ =>
    .pure _

/-! ## Compound statements -/

theorem follows_dropUnless (item : Option Stmt) :
    Follows tokens Stays room (dropUnless item)
      (if item.isNone = true then Parser.advance else pure ()) :=
  .ite _ follows_advance (.pure ())

theorem run_orDrop {p : Parser.Parse (Option Stmt)} {s s' : Parser.State} {item : Option Stmt}
    (h : p.run s = (item, s')) :
    (Parser.orDrop p).run s =
      (item, ((if item.isNone = true then Parser.advance else pure () : Parser.Parse Unit).run
        s').2) := by
  rw [Parser.orDrop, StateT.run_bind, h]
  cases item with
  | none => rfl
  | some a => rfl

/-- A turn of a run of statements reads a token, so it does not stall. -/
theorem exists_statementsTurn
    (hStatement : Follows tokens Stays room statement (Parser.statement room)) {w : World}
    (hw : Ready tokens w.now) (hRoom : w.now.depth + room = maxNesting)
    (h : ¬ Parser.endsBlock (view tokens w.now).current = true) :
    ∃ item w' events,
      (Parser.orDrop (Parser.statement room)).run (view tokens w.now) = (item, view tokens w'.now) ∧
      (∀ {items : List Stmt} {w'' : World}, Yields tokens statements w' items w'' →
        Yields tokens statements w (item.toList ++ items) w'') ∧
      (view tokens w'.now).rest.length < (view tokens w.now).rest.length ∧
      w'.now.depth = w.now.depth ∧ Passage tokens w w' events := by
  obtain ⟨t, ht⟩ := hw.exists_current
  obtain ⟨item, w₁, events₁, hYields₁, hRun₁, hDepth₁, hPassage₁⟩ :=
    Follows.stays_iff.mp hStatement w hw hRoom
  obtain ⟨_, w₂, events₂, hYields₂, hRun₂, hDepth₂, hPassage₂⟩ :=
    Follows.stays_iff.mp (follows_dropUnless item) w₁ hPassage₁.ready
      (by rw [hDepth₁]; exact hRoom)
  have hPassage := hPassage₁.trans hPassage₂ (by omega)
  have hTurn : (Parser.orDrop (Parser.statement room)).run (view tokens w.now) =
      (item, view tokens w₂.now) := by
    rw [run_orDrop hRun₁, hRun₂]
  have hStop : (view tokens w.now).stop.kind = .eof := Parser.kind_endMarker _
  have hLess : (view tokens w₂.now).rest.length < (view tokens w.now).rest.length := by
    have hRead := Parser.consumes_orDrop (Parser.consumes_statement room) (view tokens w.now)
      (Parser.rest_ne_nil_of_not_stop (fun _ => Parser.endsBlock_of_eof) hStop h)
    rwa [hTurn] at hRead
  have hProgress : Yields tokens (checkProgress w.now.pos) w₂ () w₂ := by
    refine (Yields.now w₂).bind ?_
    rw [if_pos (hPassage.lt_of_rest hLess)]
    exact .pure () w₂
  refine ⟨item, w₂.after (.turned .statements w.now.pos) id, _, hTurn, fun hMore => ?_, hLess,
    hDepth₂.trans hDepth₁, hPassage.turn .statements hLess⟩
  rw [current_view ht] at h
  refine .call ((Yields.current ht).bind ?_)
  rw [if_neg h]
  exact (Yields.now w).bind (hYields₁.bind (hYields₂.bind (hProgress.bind
    ((Yields.act _ _ w₂).bind (hMore.bind (.pure _ _))))))

theorem yields_statements_of_ends {w : World} (hw : Ready tokens w.now)
    (h : Parser.endsBlock (view tokens w.now).current = true) :
    Yields tokens statements w [] w := by
  obtain ⟨t, ht⟩ := hw.exists_current
  rw [current_view ht] at h
  refine .call ((Yields.current ht).bind ?_)
  rw [if_pos h]
  exact .pure [] w

/-- A run of statements comes to an end.  The induction is on the tokens that are left. -/
theorem exists_statements
    (hStatement : Follows tokens Stays room statement (Parser.statement room)) (n : Nat) :
    ∀ w : World, Ready tokens w.now → w.now.depth + room = maxNesting →
      (view tokens w.now).rest.length < n →
      ∃ items w' events, Yields tokens statements w items w' ∧
        (Parser.blockBody room).run (view tokens w.now) = (items, view tokens w'.now) ∧
        w'.now.depth = w.now.depth ∧ Passage tokens w w' events := by
  induction n with
  | zero => exact fun w _ _ hLength => absurd hLength (Nat.not_lt_zero _)
  | succ n ih =>
      intro w hw hRoom hLength
      by_cases hEnds : Parser.endsBlock (view tokens w.now).current = true
      · exact ⟨[], w, [], yields_statements_of_ends hw hEnds, Parser.run_blockBody_of_ends hEnds,
          rfl, .refl hw⟩
      · obtain ⟨item, w', events, hTurn, hYields, hLess, hDepth, hPassage⟩ :=
          exists_statementsTurn hStatement hw hRoom hEnds
        obtain ⟨items, w'', events', hYields', hRun, hDepth', hPassage'⟩ :=
          ih w' hPassage.ready (by rw [hDepth]; exact hRoom) (by omega)
        refine ⟨item.toList ++ items, w'', _, hYields hYields', ?_, hDepth'.trans hDepth,
          hPassage.trans hPassage' (by omega)⟩
        rw [Parser.run_blockBody_of_not_ends (Parser.kind_endMarker _) hEnds, hTurn, hRun]

theorem follows_statements_of
    (hStatement : Follows tokens Stays room statement (Parser.statement room)) :
    Follows tokens Stays room statements (Parser.blockBody room) :=
  Follows.stays_iff.mpr fun w hw hRoom =>
    exists_statements hStatement _ w hw hRoom (Nat.lt_succ_self _)

/-- A block, given the statements with less room. -/
theorem follows_block_of
    (hStatement : ∀ inner < room, Follows tokens Stays inner statement (Parser.statement inner))
    (opening closing : String) :
    Follows tokens Stays room (block opening closing) (Parser.block room opening closing) := by
  refine .call ?_
  rw [Parser.block]
  refine .within (fun inner h hRoom => ?_)
    ((follows_skipBalanced (by decide) _).bind fun _ => .pure [])
  refine (follows_discard_expect _ _).bind fun _ => ?_
  exact (follows_statements_of (hStatement inner h)).bind fun body =>
    (follows_discard_expect _ _).bind fun _ => follows_leave body hRoom

section Compound

variable (hBlock : ∀ opening closing,
  Follows tokens Stays room (block opening closing) (Parser.block room opening closing))

include hBlock

theorem follows_elseBranch_of
    (hIf : ∀ inner < room, Follows tokens Stays inner ifStatement (Parser.ifStatement inner)) :
    Follows tokens Stays room elseBranch (Parser.elseBranch room) := by
  refine .call ?_
  rw [Parser.elseBranch]
  refine (follows_eatWord _).bind fun _ => .ite _ ((follows_isAtWord _).bind fun _ => .ite _ ?_
    ((hBlock _ _).bind fun _ => .pure _)) (.pure _)
  refine .within (fun inner h hRoom => ?_) (follows_skipElseChain.bind fun _ => .pure _)
  exact (hIf inner h).bind fun next => follows_leave _ hRoom

theorem follows_ifStatement_of
    (hIf : ∀ inner < room, Follows tokens Stays inner ifStatement (Parser.ifStatement inner)) :
    Follows tokens Stays room ifStatement (Parser.ifStatement room) := by
  refine .call ?_
  rw [Parser.ifStatement]
  exact follows_current.bind fun _ => follows_advance.bind fun _ =>
    (follows_discard_expect _ _).bind fun _ => follows_expression.bind fun _ =>
      (follows_discard_expect _ _).bind fun _ => (hBlock _ _).bind fun _ =>
        (follows_elseBranch_of hBlock hIf).bind fun _ => .pure _

theorem follows_forStatement_of :
    Follows tokens Stays room forStatement (Parser.forStatement room) := by
  refine .call ?_
  rw [Parser.forStatement]
  refine follows_current.bind fun t => follows_advance.bind fun _ =>
    (follows_discard_expect _ _).bind fun _ => follows_forInit.bind fun init => ?_
  cases init with
  | none => exact .pure none
  | some init =>
      exact follows_expression.bind fun _ => (follows_discard_expect _ _).bind fun _ =>
        follows_forUpdate.bind fun _ => (follows_discard_expect _ _).bind fun _ =>
          (hBlock _ _).bind fun _ => .pure _

theorem follows_whileStatement_of :
    Follows tokens Stays room whileStatement (Parser.whileStatement room) := by
  refine .call ?_
  rw [Parser.whileStatement]
  exact follows_current.bind fun _ => follows_advance.bind fun _ =>
    (follows_discard_expect _ _).bind fun _ => follows_expression.bind fun _ =>
      (follows_discard_expect _ _).bind fun _ => (hBlock _ _).bind fun _ => .pure _

/-- A statement, given the blocks and conditionals within the same room. -/
theorem follows_statement_of
    (hIf : Follows tokens Stays room ifStatement (Parser.ifStatement room)) :
    Follows tokens Stays room statement (Parser.statement room) := by
  refine .call ?_
  rw [Parser.statement]
  refine follows_typeHere.bind fun dataType => ?_
  cases dataType with
  | some dataType => exact (follows_declaration dataType).bind fun _ => .pure _
  | none =>
      refine (follows_isAt _).bind fun _ => .ite _ (follows_assignment.bind fun _ => .pure _) ?_
      refine (follows_isAtWord _).bind fun _ => .ite _ (hIf.bind fun _ => .pure _) ?_
      refine (follows_isAtWord _).bind fun _ => .ite _ (follows_forStatement_of hBlock) ?_
      refine (follows_isAtWord _).bind fun _ =>
        .ite _ ((follows_whileStatement_of hBlock).bind fun _ => .pure _) ?_
      exact (follows_isAtWord _).bind fun _ =>
        .ite _ (follows_printStatement.bind fun _ => .pure _)
          (follows_noStatement.bind fun _ => .pure _)

end Compound

/-- Statements and conditionals, by the room that is left. -/
theorem follows_statementForms (room : Nat) :
    Follows tokens Stays room statement (Parser.statement room) ∧
      Follows tokens Stays room ifStatement (Parser.ifStatement room) := by
  induction room using Nat.strongRecOn with
  | ind room ih =>
      have hBlock := follows_block_of fun inner h => (ih inner h).1
      have hIf := follows_ifStatement_of hBlock fun inner h => (ih inner h).2
      exact ⟨follows_statement_of hBlock hIf, hIf⟩

theorem follows_statement : Follows tokens Stays room statement (Parser.statement room) :=
  (follows_statementForms room).1

theorem follows_block (opening closing : String) :
    Follows tokens Stays room (block opening closing) (Parser.block room opening closing) :=
  follows_block_of (fun _ _ => follows_statement) opening closing

/-! ## Programs -/

theorem follows_entryProcedure :
    Follows tokens Stays room entryProcedure (Parser.entryProcedure room) :=
  (follows_expectWord _ _).bind fun _ => (follows_expectWord _ _).bind fun _ =>
    (follows_expectWord _ _).bind fun _ => (follows_expectWord _ _).bind fun _ =>
      (follows_discard_expect _ _).bind fun _ => (follows_expectWord _ _).bind fun _ =>
        (follows_discard_expect _ _).bind fun _ => (follows_discard_expect _ _).bind fun _ =>
          (follows_expect _ _).bind fun _ => (follows_discard_expect _ _).bind fun _ =>
            (follows_block _ _).bind fun _ => .pure _

theorem follows_checkEnd : Follows tokens Stays room checkEnd Parser.checkEnd :=
  (follows_isAt _).bind fun _ => .ite _ (.pure ()) (follows_report _)

theorem follows_classForm : Follows tokens Stays room classForm (Parser.classForm room) :=
  (follows_expectWord _ _).bind fun _ => (follows_expectWord _ _).bind fun _ =>
    (follows_expect _ _).bind fun _ => (follows_discard_expect _ _).bind fun _ =>
      follows_entryProcedure.bind fun _ => (follows_discard_expect _ _).bind fun _ =>
        follows_checkEnd.bind fun _ => .pure _

theorem follows_statements : Follows tokens Stays room statements (Parser.blockBody room) :=
  follows_statements_of follows_statement

/-- A turn of the bare form that goes on drops a closing brace. -/
theorem exists_scriptTurn {w : World} {body : List Stmt} {w' : World} {events : List Event}
    (hBody : Yields tokens statements w body w')
    (hRun : (Parser.blockBody room).run (view tokens w.now) = (body, view tokens w'.now))
    (hDepth : w'.now.depth = w.now.depth) (hRoom : w.now.depth + room = maxNesting)
    (hPassage : Passage tokens w w' events)
    (h : (view tokens w'.now).current.kind ≠ .eof) :
    ∃ w'' events', view tokens w''.now = (Parser.advance.run ((view tokens w'.now).report
        (.ofToken .unrecognizedStatement (view tokens w'.now).current))).2 ∧
      (∀ {more : List Stmt} {w₀ : World}, Yields tokens script w'' more w₀ →
        Yields tokens script w (body ++ more) w₀) ∧
      (view tokens w''.now).rest.length < (view tokens w.now).rest.length ∧
      w''.now.depth = w.now.depth ∧ Passage tokens w w'' events' := by
  obtain ⟨t, ht⟩ := hPassage.ready.exists_current
  obtain ⟨_, w₁, events₁, hReport, hRun₁, hDepth₁, hPassage₁⟩ :=
    Follows.stays_iff.mp (follows_report .unrecognizedStatement) w' hPassage.ready
      (by rw [hDepth]; exact hRoom)
  obtain ⟨_, w₂, events₂, hAdvance, hRun₂, hDepth₂, hPassage₂⟩ :=
    Follows.stays_iff.mp follows_advance w₁ hPassage₁.ready (by rw [hDepth₁, hDepth]; exact hRoom)
  have hReported : view tokens w₁.now = (view tokens w'.now).report
      (.ofToken .unrecognizedStatement (view tokens w'.now).current) :=
    (congrArg Prod.snd hRun₁).symm
  have hDropped : view tokens w₂.now = (Parser.advance.run (view tokens w₁.now)).2 :=
    (congrArg Prod.snd hRun₂).symm
  rw [hReported] at hDropped
  have hRest : (view tokens w'.now).rest ≠ [] := by
    intro hNil
    rw [Parser.State.current_eq_stop hNil] at h
    exact h (Parser.kind_endMarker _)
  have hLess : (view tokens w₂.now).rest.length < (view tokens w.now).rest.length := by
    have hFrame := (Parser.framed_blockBody room (view tokens w.now)).length_le
    rw [hRun] at hFrame
    have hRead := Parser.consumes_advance _ hRest
    rw [hDropped]
    exact Nat.lt_of_lt_of_le hRead hFrame
  have hAll := (hPassage.trans hPassage₁ (by omega)).trans hPassage₂ (by omega)
  refine ⟨w₂.after (.turned .script w.now.pos) id, _, hDropped, fun hMore => ?_, hLess,
    hDepth₂.trans (hDepth₁.trans hDepth), hAll.turn .script hLess⟩
  rw [current_view ht] at h
  refine .call ((Yields.now w).bind (hBody.bind ((Yields.isAt ht .eof).bind ?_)))
  rw [if_neg (by simpa using h)]
  exact hReport.bind (hAdvance.bind ((Yields.act _ _ w₂).bind (hMore.bind (.pure _ _))))

/-- The bare form comes to an end.  The induction is on the tokens that are left. -/
theorem exists_script (n : Nat) : ∀ w : World, Ready tokens w.now →
    w.now.depth + room = maxNesting → (view tokens w.now).rest.length < n →
    ∃ items w' events, Yields tokens script w items w' ∧
      (Parser.scriptBody room).run (view tokens w.now) = (items, view tokens w'.now) ∧
      w'.now.depth = w.now.depth ∧ Passage tokens w w' events := by
  induction n with
  | zero => exact fun w _ _ hLength => absurd hLength (Nat.not_lt_zero _)
  | succ n ih =>
      intro w hw hRoom hLength
      have hStop : (view tokens w.now).stop.kind = .eof := Parser.kind_endMarker _
      obtain ⟨body, w', events, hBody, hRun, hDepth, hPassage⟩ :=
        Follows.stays_iff.mp follows_statements w hw hRoom
      rw [Parser.run_scriptBody room hStop, hRun, Parser.pastBrace]
      by_cases hEof : (view tokens w'.now).current.kind = .eof
      · obtain ⟨t, ht⟩ := hPassage.ready.exists_current
        refine ⟨body, w', events, ?_, if_pos hEof, hDepth, hPassage⟩
        rw [current_view ht] at hEof
        refine .call ((Yields.now w).bind (hBody.bind ((Yields.isAt ht .eof).bind ?_)))
        rw [if_pos (by simpa using hEof)]
        exact .pure body w'
      · obtain ⟨w'', events', hView, hYields, hLess, hDepth', hPassage'⟩ :=
          exists_scriptTurn hBody hRun hDepth hRoom hPassage hEof
        obtain ⟨more, w₀, events'', hMore, hRun', hDepth'', hPassage''⟩ :=
          ih w'' hPassage'.ready (by rw [hDepth']; exact hRoom) (by omega)
        refine ⟨body ++ more, w₀, _, hYields hMore, ?_, hDepth''.trans hDepth',
          hPassage'.trans hPassage'' (by omega)⟩
        rw [if_neg hEof, ← hView]
        simp only [hRun']

theorem follows_script : Follows tokens Stays room script (Parser.scriptBody room) :=
  Follows.stays_iff.mpr fun w hw hRoom => exists_script _ w hw hRoom (Nat.lt_succ_self _)

theorem follows_form : Follows tokens Stays room form (Parser.program room) := by
  refine follows_current.bind fun t => ?_
  by_cases hEof : t.kind = .eof
  · rw [if_pos hEof, if_pos hEof]
    exact .pure default
  · rw [if_neg hEof, if_neg hEof]
    exact .ite _ follows_classForm (follows_script.bind fun _ => .pure _)

end Cursor

end Braceless

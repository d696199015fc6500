import Braceless.Proofs.CursorProgress

/-!
# Levels are closed as they are opened

Blocks, expressions, operators and `else if` open levels of nesting, up to a limit.  Every
procedure of the machine that reads a statement, an expression or a part of one leaves as many
levels open as it found, on each of its ways, and meanwhile neither closes one of those nor goes
past the limit.  Where the limit refuses a level, this has been reported.

## Main definitions

* `Procedure`: the procedures for statements and expressions, with what each of them reads.

## Main results

* `Procedure.follows`: each procedure does what its production does.
* `exists_enter`: a level is refused just at the limit.
* `depth_balanced`: each procedure leaves the levels as it found them.
-/

namespace Braceless

namespace Cursor

variable {α : Type} {tokens : List Token} {room : Nat}

/-- The procedures for statements and expressions, by what they read. -/
inductive Procedure : Type → Type where
  | block (opening closing : String) : Procedure (List Stmt)
  | statements : Procedure (List Stmt)
  | statement : Procedure (Option Stmt)
  | declaration (dataType : DataType) : Procedure (Option Declaration)
  | assignment : Procedure Assignment
  | updateValue (target : Token) (what : String) : Procedure (Option Expr)
  | ifStatement : Procedure IfStatement
  | forStatement : Procedure (Option Stmt)
  | forUpdate : Procedure (Option Assignment)
  | whileStatement : Procedure Stmt
  | printStatement : Procedure Stmt
  | expression : Procedure Expr
  | binary (levels : List Parser.OperatorLevel) : Procedure Expr
  | unary : Procedure Expr
  | factor : Procedure Expr

namespace Procedure

/-- What the machine does. -/
def action : Procedure α → Run α
  | block opening closing => Cursor.block opening closing
  | statements => Cursor.statements
  | statement => Cursor.statement
  | declaration dataType => Cursor.declaration dataType
  | assignment => Cursor.assignment
  | updateValue target what => Cursor.updateValue target what
  | ifStatement => Cursor.ifStatement
  | forStatement => Cursor.forStatement
  | forUpdate => Cursor.forUpdate
  | whileStatement => Cursor.whileStatement
  | printStatement => Cursor.printStatement
  | expression => Cursor.expression
  | binary levels => Cursor.binary levels
  | unary => Cursor.unary
  | factor => Cursor.factor

/-- What the parser does with room for so many levels. -/
def production (room : Nat) : Procedure α → Parser.Parse α
  | block opening closing => Parser.block room opening closing
  | statements => Parser.blockBody room
  | statement => Parser.statement room
  | declaration dataType => Parser.declaration room dataType
  | assignment => Parser.assignment room
  | updateValue target what => Parser.updateValue room target what
  | ifStatement => Parser.ifStatement room
  | forStatement => Parser.forStatement room
  | forUpdate => Parser.forUpdate room
  | whileStatement => Parser.whileStatement room
  | printStatement => Parser.printStatement room
  | expression => Parser.expression room
  | binary levels => Parser.binary room levels
  | unary => Parser.unary room
  | factor => Parser.factor room

theorem follows (p : Procedure α) : Follows tokens Stays room p.action (p.production room) := by
  cases p with
  | block opening closing => exact follows_block opening closing
  | statements => exact follows_statements
  | statement => exact follows_statement
  | declaration dataType => exact follows_declaration dataType
  | assignment => exact follows_assignment
  | updateValue target what => exact follows_updateValue target what
  | ifStatement => exact (follows_statementForms room).2
  | forStatement => exact follows_forStatement_of follows_block
  | forUpdate => exact follows_forUpdate
  | whileStatement => exact follows_whileStatement_of follows_block
  | printStatement => exact follows_printStatement
  | expression => exact follows_expression
  | binary levels => exact (follows_operands room).1 levels
  | unary => exact (follows_operands room).2.2
  | factor => exact follows_factor_of follows_expression

end Procedure

/-- A level is refused just at the limit, and then this has been reported. -/
theorem exists_enter {w : World} (hw : Ready tokens w.now) :
    ∃ opened w', Yields tokens enter w opened w' ∧
      (opened = true ↔ w.now.depth < maxNesting) ∧ (opened = false → w'.now.Overrun) := by
  by_cases hDepth : w.now.depth < maxNesting
  · obtain ⟨w', _, hYields, -⟩ := exists_entry hw hDepth
    exact ⟨true, w', hYields, iff_of_true rfl hDepth, fun h => by cases h⟩
  · have hLimit := Nat.le_antisymm hw.shallow (Nat.not_lt.mp hDepth)
    obtain ⟨w', _, hYields, hOver, -⟩ := exists_refusal hw hLimit
    exact ⟨false, w', hYields, iff_of_false Bool.false_ne_true hDepth, fun _ => hOver⟩

end Cursor

/-- In every state of a run the limit is kept, and an excursion past it has been reported.  In
every such state a level is refused just at the limit, and then the error list says so; and each
procedure returns with as many levels open as it found, which is what its production does, and
meanwhile closes none of them and opens none past the limit. -/
theorem depth_balanced (tokens : List Token) :
    (∃ (fuel : Nat) (w : Cursor.World),
      (∀ fuel' ≥ fuel, Cursor.parse fuel' tokens = some (.ok (parse tokens, w))) ∧
      ∀ e ∈ w.log, e.state.depth ≤ maxNesting ∧
        (e.state.overflowed = true → e.state.Overrun)) ∧
    ∀ w : Cursor.World, w.now.pos < (Cursor.withEnd tokens).length → w.now.depth ≤ maxNesting →
      (w.now.overflowed = true → w.now.Overrun) →
      (∃ opened w', Cursor.Yields (Cursor.withEnd tokens) Cursor.enter w opened w' ∧
        (opened = true ↔ w.now.depth < maxNesting) ∧ (opened = false → w'.now.Overrun)) ∧
      ∀ {α : Type} (p : Cursor.Procedure α),
        ∃ a w' events, Cursor.Yields (Cursor.withEnd tokens) p.action w a w' ∧
          (p.production (maxNesting - w.now.depth)).run
            (Cursor.view (Cursor.withEnd tokens) w.now) =
              (a, Cursor.view (Cursor.withEnd tokens) w'.now) ∧
          w'.now.depth = w.now.depth ∧
          w'.log = w.log ++ events ∧ Cursor.Trail w.now events w'.now ∧
          ∀ e ∈ events, w.now.depth ≤ e.state.depth ∧ e.state.depth ≤ maxNesting ∧
            (e.label = .refused → e.state.Overrun) := by
  constructor
  · obtain ⟨fuel, w, hParse, hPassage, -⟩ := Cursor.exists_parse tokens
    refine ⟨fuel, w, hParse, fun e he => ?_⟩
    have hReady := (hPassage.within e he).ready
    exact ⟨hReady.shallow, hReady.accounted⟩
  · intro w hPos hDepth hOverflowed
    have hw : Cursor.Ready (Cursor.withEnd tokens) w.now :=
      ⟨Cursor.closed_withEnd tokens, hPos, hDepth, hOverflowed⟩
    refine ⟨Cursor.exists_enter hw, fun p => ?_⟩
    obtain ⟨a, w', events, hYields, hRun, hStays, hPassage⟩ :=
      Cursor.Follows.stays_iff.mp p.follows w hw (Nat.add_sub_of_le hDepth)
    refine ⟨a, w', events, hYields, hRun, hStays, hPassage.log, hPassage.trail, fun e he => ?_⟩
    have hWithin := hPassage.within e he
    have hFloor := hWithin.floor
    rw [hStays, Nat.min_self] at hFloor
    refine ⟨hFloor, hWithin.ready.shallow, fun hLabel => ?_⟩
    have hHolds := hWithin.holds
    rw [hLabel] at hHolds
    exact hHolds

/-- A sign before a number. -/
def signedTokens : List Token :=
  [⟨.minus, "-", .start⟩, ⟨.integer, "1", ⟨1, 2⟩⟩]

/-- The state before the first token with as many levels open as there may be. -/
def limitReached : Cursor.World :=
  ⟨Cursor.Machine.start.withDepth maxNesting, []⟩

theorem depth_balanced_limitReached :
    ∃ a w' events,
      Cursor.Yields (Cursor.withEnd signedTokens) Cursor.Procedure.unary.action limitReached a w' ∧
      w'.now.depth = maxNesting ∧ w'.now.errors.toList.map (·.fault) = [.nestingTooDeep] ∧
      w'.log = events ∧
      ∀ e ∈ events, e.state.depth = maxNesting ∧ (e.label = .refused → e.state.Overrun) := by
  have hBalanced := (depth_balanced signedTokens).2 limitReached (by decide) (Nat.le_refl _)
    (fun h => by cases h)
  obtain ⟨a, w', events, hYields, hRun, hDepth, hLog, -, hEvents⟩ := hBalanced.2 .unary
  refine ⟨a, w', events, hYields, hDepth, ?_, hLog, fun e he => ?_⟩
  · have hErrors := congrArg (fun r => r.2.errors.toList.map (·.fault)) hRun
    exact hErrors.symm.trans (by decide +kernel)
  · obtain ⟨hFloor, hLimit, hRefused⟩ := hEvents e he
    exact ⟨Nat.le_antisymm hLimit hFloor, hRefused⟩

end Braceless

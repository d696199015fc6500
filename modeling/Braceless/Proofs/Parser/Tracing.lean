import Braceless.Proofs.Parser.Trace

/-!
# Every production leaves a trace of its tree

The productions of the parser, one by one, on every path: each leaves a trace that mentions
exactly what the tree mentions that it returns.  A part of the input that is skipped or
dropped leaves no mention, and nothing that has been mentioned is dropped later.

## Main results

* `traces_expression`, `traces_statement`: expressions and statements.
* `exists_trace_parse`: a parse leaves a trace of its program.
-/

namespace Braceless

namespace Parser

/-! ## Expressions -/

/-- The mentions are those of the result that are not in `left`. -/
def Extends (left e : Expr) (ms : List Mention) : Prop :=
  e.mentions = left.mentions ++ ms

theorem traces_skipExpression :
    TracesFrom State.Explained skipExpression (Shows Expr.mentions) := by
  unfold skipExpression
  refine traces_placeholder.bind fun p =>
    (traces_skipTo (afterExpression_suffix 0)).andThen fun _ => .pure ?_
  rintro _ rfl
  rfl

/-- A part that is skipped for good is not mentioned. -/
theorem traces_discard_skipExpression :
    Traces (Functor.discard skipExpression) Silent :=
  fun s _ => ⟨[], .skip (afterExpression_suffix 0 s.rest), rfl⟩

theorem traces_noExpression : Traces noExpression (Shows Expr.mentions) := by
  intro s _
  have hReport : Step s [] (s.report (.ofToken .invalidExpression s.current)) :=
    .report id (fun h => by cases h)
  have hExplained : (s.report (.ofToken .invalidExpression s.current)).Explained :=
    explained_report s trivial
  exact ⟨_, .step hReport (.single (.unread hExplained)), rfl⟩

theorem traces_literalHere {t : Token} {l : Literal} (h : ReadAs t l) :
    TracesFrom (·.current = t) (literalHere l.kind l.value) (Shows Expr.mentions) := by
  rintro s rfl
  exact ⟨_, .step (.literal h) (.advance s), rfl⟩

theorem traces_joined {operand : Parse Expr}
    {go : OperatorLevel → List OperatorLevel → Expr → Parse Expr}
    (hOperand : Traces operand (Shows Expr.mentions))
    (hGo : ∀ ops tighter left, Traces (go ops tighter left) (Extends left))
    (levels : List OperatorLevel) :
    Traces (joined operand go levels) (Shows Expr.mentions) := by
  induction levels with
  | nil => exact hOperand
  | cons ops tighter ih =>
      rw [joined]
      refine ih.bind fun left => (hGo ops tighter left).mono ?_
      rintro e ms hExtends _ rfl
      exact hExtends.symm

/-- A factor, given the expressions within the same room. -/
theorem traces_factor {room : Nat}
    (hExpression : Traces (expression room) (Shows Expr.mentions)) :
    Traces (factor room) (Shows Expr.mentions) := by
  rw [factor]
  refine traces_current fun t => ?_
  split
  · next hKind => exact traces_literalHere (.integer hKind)
  · next hKind => exact traces_literalHere (.decimal hKind)
  · next hKind => exact traces_literalHere (.char hKind)
  · next hKind => exact traces_literalHere (.string hKind)
  · next hKind =>
      split
      · exact traces_literalHere (.truth hKind)
      · exact traces_noExpression.from _
  · next hKind =>
      have hName : TracesFrom (fun s => s.current = t ∧ t.kind = .identifier)
          (checkDeclared t >>= fun _ => advance >>= fun _ =>
            pure (Expr.identifier t.text t.pos)) (Shows Expr.mentions) :=
        traces_lookUp_first (.pure ⟨1, rfl⟩)
      exact hName.weaken fun s hs => ⟨hs, hKind⟩
  · refine Traces.from (traces_advance.andThen fun _ => hExpression.bind fun inner =>
      (traces_discard_expect _ _).andThen fun _ => .pure ?_) _
    rintro _ rfl
    exact List.append_nil _
  · exact traces_noExpression.from _

/-- A unary operand, given those with less room. -/
theorem traces_unary {room : Nat}
    (hExpression : Traces (expression room) (Shows Expr.mentions))
    (hInner : ∀ inner < room, Traces (unary inner) (Shows Expr.mentions)) :
    Traces (unary room) (Shows Expr.mentions) := by
  rw [unary]
  refine traces_current fun t => Traces.from ?_ _
  split
  · exact traces_factor hExpression
  · refine .nested (fun inner h => ?_) traces_skipExpression
    refine traces_advance.andThen fun _ => (hInner inner h).bind fun e => .pure ?_
    rintro _ rfl
    exact List.append_nil _

/-- The rest of a chain, given the operands and the chains with less room. -/
theorem traces_chain {room : Nat} {ops : OperatorLevel} {tighter : List OperatorLevel}
    {left : Expr}
    (hOperand : ∀ inner < room, Traces (binary inner tighter) (Shows Expr.mentions))
    (hMore : ∀ inner < room, ∀ left, Traces (chain inner ops tighter left) (Extends left)) :
    Traces (chain room ops tighter left) (Extends left) := by
  rw [chain]
  refine traces_test (fun _ => rfl) fun o => ?_
  cases o with
  | none => exact .pure (List.append_nil _).symm
  | some op =>
      refine .nested (fun inner h => ?_)
        ((traces_discard_skipExpression.from _).andThen fun _ =>
          .pure (List.append_nil _).symm)
      refine traces_advance.andThen fun _ => (hOperand inner h).bind fun right =>
        (hMore inner h (.binary op left right)).mono ?_
      rintro e ms hExtends _ rfl
      rw [Extends, hExtends, Expr.mentions, List.append_assoc]

/-- Operands of all levels, chains and unary operands, by the room that is left. -/
theorem traces_operands (room : Nat) :
    (∀ levels, Traces (binary room levels) (Shows Expr.mentions)) ∧
    (∀ ops tighter left, Traces (chain room ops tighter left) (Extends left)) ∧
    Traces (unary room) (Shows Expr.mentions) := by
  induction room using Nat.strongRecOn with
  | ind room ih =>
      have hExpression : Traces (expression room) (Shows Expr.mentions) := by
        rw [expression]
        exact .nested (fun inner h => (ih inner h).1 _) traces_skipExpression
      have hUnary := traces_unary hExpression fun inner h => (ih inner h).2.2
      have hChain : ∀ ops tighter left,
          Traces (chain room ops tighter left) (Extends left) := fun ops tighter left =>
        traces_chain (fun inner h => (ih inner h).1 tighter)
          fun inner h left => (ih inner h).2.1 ops tighter left
      refine ⟨fun levels => ?_, hChain, hUnary⟩
      rw [binary]
      exact traces_joined hUnary hChain levels

theorem traces_expression (room : Nat) :
    Traces (expression room) (Shows Expr.mentions) := by
  rw [expression]
  exact .nested (fun inner _ => (traces_operands inner).1 _) traces_skipExpression

/-! ## Simple statements -/

theorem traces_firstValue (room : Nat) :
    Traces (firstValue room) (Shows (mentionsIn Expr.mentions)) := by
  unfold firstValue
  refine (traces_eat _).andThen fun b => ?_
  cases b with
  | false => exact .pure rfl
  | true =>
      refine (traces_expression room).bind fun e => .pure ?_
      rintro _ rfl
      exact List.append_nil _

theorem traces_declaration (room : Nat) (dataType : DataType) :
    Traces (declaration room dataType) (Shows (mentionsIn Declaration.mentions)) := by
  unfold declaration
  refine traces_advance.andThen fun _ => traces_expectName (.pure rfl) fun t =>
    traces_declare ((traces_firstValue room).bind fun value =>
      (traces_discard_expect _ _).andThen fun _ => .pure ?_)
  rintro _ rfl
  rw [List.append_nil]
  rfl

/-- The mentions are those of a new value of the variable `target`, but for the variable
itself. -/
def Updates (target : Token) (v : Expr) (ms : List Mention) : Prop :=
  ∃ n, v.mentions = List.replicate n (.used target.text target.pos) ++ ms

/-- A new value, if there is one; without one there are no mentions. -/
def MayUpdate (target : Token) : Option Expr → List Mention → Prop
  | none, ms => ms = []
  | some v, ms => Updates target v ms

/-- An operator with a value behind it. -/
theorem traces_amount (room : Nat) {target : Token} {g : Expr → Expr}
    (hg : ∀ e, Updates target (g e) e.mentions) :
    Traces (advance >>= fun _ => expression room >>= fun e => pure (some (g e)))
      (MayUpdate target) := by
  refine traces_advance.andThen fun _ => (traces_expression room).bind fun e => .pure ?_
  rintro _ rfl
  rw [List.append_nil]
  exact hg e

/-- An operator that steps by one. -/
theorem traces_stepByOne (target : Token) (op : BinaryOp) :
    Traces (advance >>= fun _ => pure (some (updated target op one)))
      (MayUpdate target) :=
  fun s _ => ⟨_, .step .one (.advance s), 1, rfl⟩

theorem traces_updateValue (room : Nat) (target : Token) (what : String) :
    Traces (updateValue room target what) (MayUpdate target) := by
  have hUpdated : ∀ op e, Updates target (updated target op e) e.mentions :=
    fun op e => ⟨1, rfl⟩
  unfold updateValue
  refine traces_current fun t => Traces.from ?_ _
  split
  · exact traces_amount room (g := id) fun e => ⟨0, rfl⟩
  · exact traces_stepByOne target .add
  · exact traces_stepByOne target .sub
  · exact traces_amount room (hUpdated .add)
  · exact traces_amount room (hUpdated .sub)
  · exact (traces_expected what).andThen fun _ => .pure rfl

/-- Without a new value, the operator has been reported as missing. -/
theorem explained_updateValue (room : Nat) (target : Token) (what : String) (s : State) :
    ((updateValue room target what).run s).1 = none →
      ((updateValue room target what).run s).2.Explained := by
  unfold updateValue
  rw [run_bind]
  split
  · intro h; cases h
  · intro h; cases h
  · intro h; cases h
  · intro h; cases h
  · intro h; cases h
  · intro _
    exact explained_report s trivial

theorem traces_valueWithoutOperator (room : Nat) :
    TracesFrom State.Explained (valueWithoutOperator room) (Shows Expr.mentions) := by
  unfold valueWithoutOperator
  refine TracesFrom.current fun t => ?_
  split
  · refine TracesFrom.weaken (traces_placeholder.bind fun p => .pure ?_) fun _ hs => hs.1
    rintro _ rfl
    rfl
  · exact (traces_expression room).from _

theorem traces_assignedValue (room : Nat) (target : Token) :
    Traces (assignedValue room target) (Updates target) := by
  unfold assignedValue
  refine (traces_updateValue room target _).bind_of (fun o s => o = none → s.Explained)
    (fun s _ => explained_updateValue room target _ s) fun o => ?_
  cases o with
  | none =>
      refine ((traces_valueWithoutOperator room).weaken fun s hs => hs rfl).mono ?_
      rintro v _ rfl _ rfl
      exact ⟨0, rfl⟩
  | some v =>
      refine .pure ?_
      intro ms hMentions
      rw [List.append_nil]
      exact hMentions

/-- An assignment, where a name comes first. -/
theorem traces_assignment (room : Nat) :
    TracesFrom (·.current.kind = .identifier) (assignment room)
      (Shows Assignment.mentions) := by
  unfold assignment
  refine TracesFrom.current fun t => TracesFrom.weaken (traces_lookUp_first
    ((traces_assignedValue room t).bind fun v =>
      (traces_discard_expect _ _).andThen fun _ => .pure ?_))
    fun s hs => ⟨hs.2, hs.2 ▸ hs.1⟩
  rintro ms ⟨n, hMentions⟩
  refine ⟨n + 1, ?_⟩
  rw [Shows, Assignment.mentions, hMentions, List.append_nil]
  rfl

theorem traces_printMethod : Traces printMethod Silent := by
  unfold printMethod
  refine (traces_eatWord _).andThen fun line => ?_
  cases line with
  | true => exact .pure rfl
  | false =>
      refine (traces_eatWord _).andThen fun part => ?_
      cases part with
      | true => exact .pure rfl
      | false => exact (traces_expected _).andThen fun _ => .pure rfl

theorem traces_printArgument (room : Nat) :
    Traces (printArgument room) (Shows (mentionsIn Expr.mentions)) := by
  unfold printArgument
  refine traces_test (fun _ => rfl) fun b => ?_
  cases b with
  | true => exact .pure rfl
  | false =>
      refine (traces_expression room).bind fun e => .pure ?_
      rintro _ rfl
      exact List.append_nil _

theorem traces_printStatement (room : Nat) :
    Traces (printStatement room) (Shows Stmt.mentions) := by
  unfold printStatement
  refine traces_current fun t => Traces.from ?_ _
  refine traces_advance.andThen fun _ => (traces_discard_expect _ _).andThen fun _ =>
    (traces_expectWord _ _).andThen fun _ => (traces_discard_expect _ _).andThen fun _ =>
      traces_printMethod.andThen fun newline => (traces_discard_expect _ _).andThen fun _ =>
        (traces_printArgument room).bind fun argument =>
          (traces_discard_expect _ _).andThen fun _ =>
            (traces_discard_expect _ _).andThen fun _ => .pure ?_
  rintro _ rfl
  rw [List.append_nil]
  rfl

/-! ## The header of a counting loop -/

/-- A choice by the kind of the current token. -/
theorem TracesFrom.isAt {α : Type} {P : State → Prop} {kind : Token.Kind} {p q : Parse α}
    {Q : α → List Mention → Prop} (hp : TracesFrom (·.current.kind = kind) p Q)
    (hq : TracesFrom (fun s => P s ∧ s.current.kind ≠ kind) q Q) :
    TracesFrom P (Parser.isAt kind >>= fun b => if b = true then p else q) Q := by
  intro s hs
  show ∃ ms, Trace s ms
    ((if (s.current.kind == kind) = true then p else q).run s).2 ∧
      Q ((if (s.current.kind == kind) = true then p else q).run s).1 ms
  by_cases hKind : (s.current.kind == kind) = true
  · rw [if_pos hKind]
    exact hp s (beq_iff_eq.mp hKind)
  · rw [if_neg hKind]
    exact hq s ⟨hs, fun h => hKind (beq_iff_eq.mpr h)⟩

/-- A result as part of something that mentions the same. -/
theorem TracesFrom.map {α β : Type} {P : State → Prop} {p : Parse α}
    {view : α → List Mention} (hp : TracesFrom P p (Shows view)) {g : α → β}
    {view' : β → List Mention} (hg : ∀ a, view' (g a) = view a) :
    TracesFrom P (p >>= fun a => Pure.pure (g a)) (Shows view') := by
  refine hp.bind fun a => .pure ?_
  rintro _ rfl
  rw [List.append_nil]
  exact (hg a).symm

theorem traces_forInit (room : Nat) :
    Traces (forInit room) (Shows (mentionsIn ForInit.mentions)) := by
  unfold forInit
  refine traces_test (fun _ => rfl) fun o => ?_
  cases o with
  | some dataType =>
      refine (traces_declaration room dataType).map fun d => ?_
      cases d <;> rfl
  | none =>
      exact TracesFrom.isAt ((traces_assignment room).map fun a => rfl)
        (((traces_expected _).from _).andThen fun _ => .pure rfl)

theorem traces_forUpdate (room : Nat) :
    Traces (forUpdate room) (Shows (mentionsIn Assignment.mentions)) := by
  unfold forUpdate
  refine traces_expectName (.pure rfl) fun t => traces_lookUp
    ((traces_updateValue room t _).bind fun o => .pure ?_)
  intro ms hMentions
  cases o with
  | none =>
      -- The variable has been looked up, but there is no update in the tree.
      rw [show ms = [] from hMentions]
      exact ⟨0, rfl⟩
  | some v =>
      obtain ⟨n, hValue⟩ := hMentions
      refine ⟨n + 1, ?_⟩
      show List.replicate (n + 1) (Mention.used t.text t.pos) ++ (ms ++ []) =
        .used t.text t.pos :: v.mentions
      rw [hValue, List.append_nil]
      rfl

/-! ## Compound statements -/

/-- The current token may start a statement: it neither ends a block nor the input. -/
def State.Open (s : State) : Prop :=
  s.current.kind ≠ .rBrace ∧ s.current.kind ≠ .eof

theorem State.open_of_endsBlock {s : State} (h : endsBlock s.current = false) : s.Open := by
  simpa [endsBlock, State.Open] using h

theorem traces_noStatement : TracesFrom State.Open noStatement (Shows Stmt.mentions) :=
  fun s hs => ⟨_, .step (.unrecognized hs.1 hs.2) (.advance (s.report _)), rfl⟩

theorem traces_orDrop {α : Type} {P : State → Prop} {p : Parse (Option α)}
    {view : α → List Mention} (hp : TracesFrom P p (Shows (mentionsIn view))) :
    TracesFrom P (orDrop p) (Shows (mentionsIn view)) := by
  unfold orDrop
  refine hp.bind fun o => ?_
  cases o with
  | none =>
      refine traces_advance.andThen fun _ => .pure ?_
      rintro _ rfl
      rfl
  | some a =>
      refine .pure ?_
      rintro _ rfl
      exact List.append_nil _

theorem traces_repeatUntil (stop : Token → Bool) {step : Parse (Option Stmt)}
    (hStep : TracesFrom (stop ·.current = false) step (Shows (mentionsIn Stmt.mentions)))
    (bound : Nat) : Traces (repeatUntil stop step bound) (Shows mentionsOf) := by
  induction bound with
  | zero => exact .pure rfl
  | succ bound ih =>
      rw [repeatUntil]
      refine traces_current fun t => ?_
      split
      · exact .pure rfl
      · next hStop =>
        have hHere : ∀ s : State, s.current = t → stop s.current = false := by
          rintro s rfl
          exact Bool.eq_false_iff.mpr hStop
        refine TracesFrom.weaken (hStep.bind fun o => ih.bind fun ss => .pure ?_) hHere
        rintro _ rfl _ rfl
        rw [List.append_nil]
        cases o with
        | none => rfl
        | some s => rfl

/-- A block, given the statements with less room. -/
theorem traces_block {room : Nat} {opening closing : String}
    (hInner : ∀ inner < room,
      TracesFrom State.Open (statement inner) (Shows (mentionsIn Stmt.mentions))) :
    Traces (block room opening closing) (Shows mentionsOf) := by
  rw [block]
  refine .nested (fun inner h => ?_)
    (((traces_skipTo (afterBalanced_suffix _ _)).from _).andThen fun _ => .pure rfl)
  have hStatement := traces_orDrop (hInner inner h)
  refine (traces_discard_expect _ _).andThen fun _ => traces_get fun s =>
    (traces_repeatUntil _ (hStatement.weaken fun _ => State.open_of_endsBlock) _).bind
      fun body => (traces_discard_expect _ _).andThen fun _ => .pure ?_
  rintro _ rfl
  exact List.append_nil _

/-- The branches after the first one, given the blocks within the same room and the
conditionals with less. -/
theorem traces_elseBranch {room : Nat}
    (hBlock : ∀ opening closing, Traces (block room opening closing) (Shows mentionsOf))
    (hInner : ∀ inner < room,
      Traces (ifStatement inner) (Shows IfStatement.mentions)) :
    Traces (elseBranch room) (Shows Else.mentions) := by
  rw [elseBranch]
  refine (traces_eatWord _).andThen fun more => ?_
  cases more with
  | false => exact .pure rfl
  | true =>
      refine traces_test (fun _ => rfl) fun again => ?_
      cases again with
      | true =>
          exact .nested (fun inner h => (hInner inner h).map fun _ => rfl)
            (((traces_skipTo afterElseChain_suffix).from _).andThen fun _ => .pure rfl)
      | false => exact (hBlock _ _).map fun _ => rfl

theorem traces_ifStatement {room : Nat}
    (hBlock : ∀ opening closing, Traces (block room opening closing) (Shows mentionsOf))
    (hElse : Traces (elseBranch room) (Shows Else.mentions)) :
    Traces (ifStatement room) (Shows IfStatement.mentions) := by
  rw [ifStatement]
  refine traces_current fun t => Traces.from ?_ _
  refine traces_advance.andThen fun _ => (traces_discard_expect _ _).andThen fun _ =>
    (traces_expression room).bind fun condition =>
      (traces_discard_expect _ _).andThen fun _ => (hBlock _ _).bind fun body =>
        hElse.bind fun orElse => .pure ?_
  rintro _ rfl _ rfl _ rfl
  rw [List.append_nil]
  rfl

theorem traces_forStatement {room : Nat}
    (hBlock : ∀ opening closing, Traces (block room opening closing) (Shows mentionsOf)) :
    Traces (forStatement room) (Shows (mentionsIn Stmt.mentions)) := by
  rw [forStatement]
  refine traces_current fun t => Traces.from ?_ _
  refine traces_advance.andThen fun _ => (traces_discard_expect _ _).andThen fun _ =>
    (traces_forInit room).bind fun o => ?_
  cases o with
  | none =>
      refine .pure ?_
      rintro _ rfl
      rfl
  | some init =>
      refine (traces_expression room).bind fun condition =>
        (traces_discard_expect _ _).andThen fun _ => (traces_forUpdate room).bind fun update =>
          (traces_discard_expect _ _).andThen fun _ => (hBlock _ _).bind fun body => .pure ?_
      rintro _ rfl _ rfl _ rfl _ rfl
      rw [List.append_nil]
      rfl

theorem traces_whileStatement {room : Nat}
    (hBlock : ∀ opening closing, Traces (block room opening closing) (Shows mentionsOf)) :
    Traces (whileStatement room) (Shows Stmt.mentions) := by
  rw [whileStatement]
  refine traces_current fun t => Traces.from ?_ _
  refine traces_advance.andThen fun _ => (traces_discard_expect _ _).andThen fun _ =>
    (traces_expression room).bind fun condition =>
      (traces_discard_expect _ _).andThen fun _ => (hBlock _ _).bind fun body => .pure ?_
  rintro _ rfl _ rfl
  rw [List.append_nil]
  rfl

/-- A statement, given the blocks and conditionals within the same room. -/
theorem traces_statement_of {room : Nat}
    (hBlock : ∀ opening closing, Traces (block room opening closing) (Shows mentionsOf))
    (hIf : Traces (ifStatement room) (Shows IfStatement.mentions)) :
    TracesFrom State.Open (statement room) (Shows (mentionsIn Stmt.mentions)) := by
  rw [statement]
  refine TracesFrom.test (fun _ => rfl) fun o => ?_
  cases o with
  | some dataType =>
      refine ((traces_declaration room dataType).from _).map fun d => ?_
      cases d <;> rfl
  | none =>
      refine TracesFrom.isAt ((traces_assignment room).map fun _ => rfl)
        (TracesFrom.weaken ?_ fun _ hs => hs.1)
      refine TracesFrom.test (fun _ => rfl) fun isIf => ?_
      split
      · exact (hIf.from _).map fun _ => rfl
      refine TracesFrom.test (fun _ => rfl) fun isFor => ?_
      split
      · exact (traces_forStatement hBlock).from _
      refine TracesFrom.test (fun _ => rfl) fun isWhile => ?_
      split
      · exact ((traces_whileStatement hBlock).from _).map fun _ => rfl
      refine TracesFrom.test (fun _ => rfl) fun isPrint => ?_
      split
      · exact ((traces_printStatement room).from _).map fun _ => rfl
      · exact traces_noStatement.map fun _ => rfl

/-- Statements and conditionals, by the room that is left. -/
theorem traces_statements (room : Nat) :
    TracesFrom State.Open (statement room) (Shows (mentionsIn Stmt.mentions)) ∧
      Traces (ifStatement room) (Shows IfStatement.mentions) := by
  induction room using Nat.strongRecOn with
  | ind room ih =>
      have hBlock : ∀ opening closing,
          Traces (block room opening closing) (Shows mentionsOf) := fun _ _ =>
        traces_block fun inner h => (ih inner h).1
      have hIf := traces_ifStatement hBlock
        (traces_elseBranch hBlock fun inner h => (ih inner h).2)
      exact ⟨traces_statement_of hBlock hIf, hIf⟩

theorem traces_statement (room : Nat) :
    TracesFrom State.Open (statement room) (Shows (mentionsIn Stmt.mentions)) :=
  (traces_statements room).1

/-! ## Programs -/

/-- What a program mentions. -/
abbrev programMentions (p : Program) : List Mention :=
  mentionsOf p.body

theorem traces_entryProcedure (room : Nat) :
    Traces (entryProcedure room) (Shows fun entry => mentionsOf entry.2) := by
  have hBlock : ∀ opening closing, Traces (block room opening closing) (Shows mentionsOf) :=
    fun _ _ => traces_block fun inner _ => traces_statement inner
  unfold entryProcedure
  refine (traces_expectWord _ _).andThen fun _ => (traces_expectWord _ _).andThen fun _ =>
    (traces_expectWord _ _).andThen fun _ => (traces_expectWord _ _).andThen fun _ =>
      (traces_discard_expect _ _).andThen fun _ => (traces_expectWord _ _).andThen fun _ =>
        (traces_discard_expect _ _).andThen fun _ => (traces_discard_expect _ _).andThen fun _ =>
          (traces_expect _ _).andThen fun param =>
            (traces_discard_expect _ _).andThen fun _ => (hBlock _ _).map fun _ => rfl

theorem traces_checkEnd : Traces checkEnd Silent := by
  unfold checkEnd
  refine traces_test (fun _ => rfl) fun b => ?_
  cases b with
  | false => exact traces_report id (by decide)
  | true => exact .pure rfl

theorem traces_classForm (room : Nat) : Traces (classForm room) (Shows programMentions) := by
  unfold classForm
  refine (traces_expectWord _ _).andThen fun _ => (traces_expectWord _ _).andThen fun _ =>
    (traces_expect _ _).andThen fun name => (traces_discard_expect _ _).andThen fun _ =>
      (traces_entryProcedure room).bind fun entry =>
        (traces_discard_expect _ _).andThen fun _ => traces_checkEnd.andThen fun _ => .pure ?_
  rintro _ rfl
  exact List.append_nil _

/-- A closing brace in a bare run of statements is reported and dropped. -/
theorem traces_strayBrace :
    TracesFrom (·.current.kind = .rBrace)
      (report .unrecognizedStatement >>= fun _ => advance >>= fun _ => pure none)
      (Shows (mentionsIn Stmt.mentions)) := by
  intro s hs
  have hReport : Step s [] (s.report (.ofToken .unrecognizedStatement s.current)) :=
    .report id fun _ => hs
  exact ⟨_, .step hReport (.advance (s.report _)), rfl⟩

theorem traces_scriptItem (room : Nat) :
    TracesFrom (·.current.kind ≠ .eof) (scriptItem room)
      (Shows (mentionsIn Stmt.mentions)) := by
  unfold scriptItem
  exact TracesFrom.isAt traces_strayBrace
    ((traces_orDrop (traces_statement room)).weaken fun _ hs => ⟨hs.2, hs.1⟩)

theorem traces_scriptForm (room : Nat) :
    Traces (scriptForm room) (Shows programMentions) := by
  have hItem : TracesFrom (fun s => (s.current.kind == .eof) = false) (scriptItem room)
      (Shows (mentionsIn Stmt.mentions)) :=
    (traces_scriptItem room).weaken fun s hs => by simpa using hs
  unfold scriptForm
  exact traces_get fun s => (traces_repeatUntil (·.kind == .eof) hItem _).map fun _ => rfl

theorem traces_program (room : Nat) : Traces (program room) (Shows programMentions) := by
  unfold program
  refine traces_current fun t => Traces.from ?_ _
  split
  · exact .pure rfl
  · split
    · exact traces_classForm room
    · exact traces_scriptForm room

/-- A parse of any token list leaves a trace of its program. -/
theorem exists_trace_parse (tokens : List Token) :
    ∃ s : State, Trace (.initial tokens) (mentionsOf (parse tokens).program.body) s ∧
      (parse tokens).errors = s.errors.toList ∧ (parse tokens).declarations = s.declared := by
  obtain ⟨ms, hTrace, hMentions⟩ := traces_program maxNesting (.initial tokens) trivial
  rw [hMentions] at hTrace
  exact ⟨_, hTrace, rfl, rfl⟩

end Parser

end Braceless

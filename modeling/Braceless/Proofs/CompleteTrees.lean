import Braceless.Proofs.Grammar
import Braceless.Rendering

/-!
# Trees without gaps

A parse puts a placeholder where nothing could be read, and it leaves out the update of a
counting loop that has none.  The rules of the grammar derive no such tree.  Lowering turns the
two kinds of placeholders into the two kinds of the target, a `None` and a comment, and it makes
neither of them out of anything else.

## Main definitions

* `Expr.isComplete`, `Stmt.isComplete`: trees without placeholders, whose counting loops have
  their updates.
* `Target.Expr.isComplete`, `Target.Stmt.isComplete`: output without placeholders.

## Main results

* `Grammar.IsProgram.isComplete`: a derived program is complete.
* `Program.isComplete_lower`: the output of a complete program is complete.
-/

namespace Braceless

/-! ## Trees -/

/-- Whether no part of an expression is a placeholder. -/
def Expr.isComplete : Expr → Bool
  | binary _ left right => left.isComplete && right.isComplete
  | unary _ operand => operand.isComplete
  | group inner => inner.isComplete
  | literal _ => true
  | identifier _ _ => true
  | invalid _ => false

def Declaration.isComplete (d : Declaration) : Bool :=
  d.value.all Expr.isComplete

def Assignment.isComplete (a : Assignment) : Bool :=
  a.value.isComplete

def ForInit.isComplete : ForInit → Bool
  | declaration d => d.isComplete
  | assignment a => a.isComplete

mutual

/-- Whether no part of a statement is a placeholder and all its counting loops have updates. -/
def Stmt.isComplete : Stmt → Bool
  | .declaration d => d.isComplete
  | .assignment a => a.isComplete
  | .ifElse i => i.isComplete
  | .forLoop init condition update body _ =>
    init.isComplete && condition.isComplete && update.any Assignment.isComplete &&
      allComplete body
  | .whileLoop condition body _ => condition.isComplete && allComplete body
  | .print argument _ _ => argument.all Expr.isComplete
  | .invalid _ => false

def IfStatement.isComplete : IfStatement → Bool
  | ⟨condition, thenBody, orElse, _⟩ =>
    condition.isComplete && allComplete thenBody && orElse.isComplete

def Else.isComplete : Else → Bool
  | .none => true
  | .elseIf i => i.isComplete
  | .block body => allComplete body

def allComplete : List Stmt → Bool
  | [] => true
  | s :: ss => s.isComplete && allComplete ss

end

/-! ## Derived trees -/

namespace Grammar

mutual

/-- A derived expression has no placeholders. -/
theorem Operand.isComplete {r : Nat} {ts : List Token} {e : Expr} {n : Nat} :
    Operand r ts e n → e.isComplete = true
  | .chain _ hFirst hMore => hMore.isComplete hFirst.isComplete
  | .unary _ hOperand => hOperand.isComplete
  | .literal _ => rfl
  | .name _ => rfl
  | .group _ hInner _ => hInner.isComplete

theorem Chain.isComplete {r : Nat} {left : Expr} {ts : List Token} {e : Expr} {n : Nat} :
    Chain r left ts e n → left.isComplete = true → e.isComplete = true
  | .done, hLeft => hLeft
  | .more _ hRight hMore, hLeft =>
      hMore.isComplete (Bool.and_eq_true_iff.mpr ⟨hLeft, hRight.isComplete⟩)

end

theorem IsDeclaration.isComplete {ts : List Token} {d : Declaration} {n : Nat}
    (h : IsDeclaration ts d n) : d.isComplete = true := by
  cases h with
  | plain _ _ _ => rfl
  | valued _ _ _ hValue _ => exact hValue.isComplete

theorem IsNewValue.isComplete {name : Token} {ts : List Token} {e : Expr} {n : Nat}
    (h : IsNewValue name ts e n) : e.isComplete = true := by
  cases h with
  | set _ hValue => exact hValue.isComplete
  | increment _ => rfl
  | decrement _ => rfl
  | add _ hAmount => simpa [Expr.isComplete] using hAmount.isComplete
  | subtract _ hAmount => simpa [Expr.isComplete] using hAmount.isComplete

theorem IsUpdate.isComplete {ts : List Token} {a : Assignment} {n : Nat}
    (h : IsUpdate ts a n) : a.isComplete = true := by
  cases h with
  | mk _ hValue => exact hValue.isComplete

theorem IsAssignment.isComplete {ts : List Token} {a : Assignment} {n : Nat}
    (h : IsAssignment ts a n) : a.isComplete = true := by
  cases h with
  | mk hUpdate _ => exact hUpdate.isComplete

theorem IsForInit.isComplete {ts : List Token} {init : ForInit} {n : Nat}
    (h : IsForInit ts init n) : init.isComplete = true := by
  cases h with
  | declaration h => exact h.isComplete
  | assignment h => exact h.isComplete

theorem IsPrintArgument.isComplete {ts : List Token} {argument : Option Expr} {n : Nat}
    (h : IsPrintArgument ts argument n) : argument.all Expr.isComplete = true := by
  cases h with
  | none => rfl
  | some h => exact h.isComplete

mutual

/-- A derived statement is complete. -/
theorem IsStatement.isComplete {ts : List Token} {s : Stmt} {n : Nat} :
    IsStatement ts s n → s.isComplete = true
  | .declaration h => h.isComplete
  | .assignment h => h.isComplete
  | .ifElse h => h.isComplete
  | .forLoop _ _ hInit hCondition _ hUpdate _ hBody => by
      have hLoop := hBody.isComplete
      simp [Stmt.isComplete, hInit.isComplete, hCondition.isComplete, hUpdate.isComplete, hLoop]
  | .whileLoop _ _ hCondition _ hBody => by
      have hLoop := hBody.isComplete
      simp [Stmt.isComplete, hCondition.isComplete, hLoop]
  | .print _ _ _ _ hArgument _ _ => hArgument.isComplete

theorem IsStatements.isComplete {ts : List Token} {ss : List Stmt} {n : Nat} :
    IsStatements ts ss n → allComplete ss = true
  | .nil => rfl
  | .cons hHead hTail =>
      Bool.and_eq_true_iff.mpr ⟨hHead.isComplete, hTail.isComplete⟩

theorem IsBlock.isComplete {ts : List Token} {body : List Stmt} {n : Nat} :
    IsBlock ts body n → allComplete body = true
  | .mk _ hBody _ => hBody.isComplete

theorem IsConditional.isComplete {ts : List Token} {i : IfStatement} {n : Nat} :
    IsConditional ts i n → i.isComplete = true
  | .mk _ _ hCondition _ hBody hElse => by
      have hThen := hBody.isComplete
      have hOther := hElse.isComplete
      simp [IfStatement.isComplete, hCondition.isComplete, hThen, hOther]

theorem IsElse.isComplete {ts : List Token} {e : Else} {n : Nat} :
    IsElse ts e n → e.isComplete = true
  | .none => rfl
  | .elseIf _ h => h.isComplete
  | .block _ h => h.isComplete

end

/-- A derived program is complete. -/
theorem IsProgram.isComplete {ts : List Token} {p : Program} {n : Nat}
    (h : IsProgram ts p n) : allComplete p.body = true := by
  cases h with
  | script h => exact h.isComplete
  | wrapped _ _ _ _ _ hBody _ => exact hBody.isComplete

end Grammar

/-! ## Output -/

/-- Whether an expression of the target holds no `None`. -/
def Target.Expr.isComplete : Target.Expr → Bool
  | nothing => false
  | not operand => operand.isComplete
  | neg operand => operand.isComplete
  | brackets inner => inner.isComplete
  | binary _ left right => left.isComplete && right.isComplete
  | _ => true

mutual

/-- Whether a statement of the target holds neither a `None` nor a comment. -/
def Target.Stmt.isComplete : Target.Stmt → Bool
  | .assign _ value => value.isComplete
  | .ifElse condition body orElse =>
    condition.isComplete && Target.allComplete body && orElse.isComplete
  | .forRange _ first stop step body =>
    first.isComplete && stop.isComplete && step.all Target.Expr.isComplete &&
      Target.allComplete body
  | .whileLoop condition body => condition.isComplete && Target.allComplete body
  | .print argument _ => argument.all Target.Expr.isComplete
  | .pass => true
  | .comment _ => false

def Target.Else.isComplete : Target.Else → Bool
  | .none => true
  | .elif condition body orElse =>
    condition.isComplete && Target.allComplete body && orElse.isComplete
  | .block body => Target.allComplete body

def Target.allComplete : List Target.Stmt → Bool
  | [] => true
  | s :: ss => s.isComplete && Target.allComplete ss

end

@[simp] theorem Target.Expr.isComplete_bracketsIf (wrap : Bool) (e : Target.Expr) :
    (e.bracketsIf wrap).isComplete = e.isComplete := by
  cases wrap <;> rfl

@[simp] theorem Literal.isComplete_lower (l : Literal) : l.lower.isComplete = true := by
  obtain ⟨kind, value⟩ := l
  cases kind <;> rfl

/-- A `None` of the target is a placeholder of the source and nothing else. -/
theorem Expr.isComplete_lower (e : Expr) : e.lower.isComplete = e.isComplete := by
  induction e with
  | binary op left right ihLeft ihRight =>
      simp [Expr.lower, Target.Expr.isComplete, Expr.isComplete, ihLeft, ihRight]
  | unary op operand ih =>
      cases op <;> simp [Expr.lower, Target.Expr.isComplete, Expr.isComplete, ih]
  | group inner ih => exact ih
  | literal l => exact l.isComplete_lower
  | identifier name pos => rfl
  | invalid p => rfl

theorem DataType.isComplete_defaultValue (t : DataType) : t.defaultValue.isComplete = true := by
  cases t <;> rfl

theorem Declaration.isComplete_lowerValue {d : Declaration} (h : d.isComplete = true) :
    d.lowerValue.isComplete = true := by
  obtain ⟨dataType, name, value, pos⟩ := d
  cases value with
  | none => exact dataType.isComplete_defaultValue
  | some e => exact e.isComplete_lower.trans h

theorem ForInit.isComplete_lowerValue {init : ForInit} (h : init.isComplete = true) :
    init.lowerValue.isComplete = true := by
  cases init with
  | declaration d => exact Declaration.isComplete_lowerValue h
  | assignment a => exact a.value.isComplete_lower.trans h

/-- The end of a range is taken from the right side of the condition. -/
theorem isComplete_rangeStop {condition : Expr} (h : condition.isComplete = true) :
    (rangeStop condition).isComplete = true := by
  cases condition with
  | binary op left right =>
      have hRight : right.lower.isComplete = true :=
        right.isComplete_lower.trans (Bool.and_eq_true_iff.mp h).2
      cases op <;> simp [rangeStop, Target.Expr.isComplete, hRight]
  | _ => rfl

theorem isComplete_rangeStep {value : Expr} (h : value.isComplete = true) :
    (rangeStep value).all Target.Expr.isComplete = true := by
  cases value with
  | binary op left right =>
      have hRight : right.lower.isComplete = true :=
        right.isComplete_lower.trans (Bool.and_eq_true_iff.mp h).2
      cases op with
      | add =>
          rw [rangeStep]
          split <;> simp [hRight]
      | sub => simp [rangeStep, Target.Expr.isComplete, hRight]
      | _ => rfl
  | _ => rfl

theorem isComplete_orPass {ss : List Target.Stmt} (h : Target.allComplete ss = true) :
    Target.allComplete (orPass ss) = true := by
  cases ss with
  | nil => rfl
  | cons s ss => exact h

mutual

/-- The output of a complete statement is complete. -/
theorem Stmt.isComplete_lower (s : Stmt) (h : s.isComplete = true) :
    s.lower.isComplete = true := by
  cases s with
  | declaration d => exact Declaration.isComplete_lowerValue h
  | assignment a => exact a.value.isComplete_lower.trans h
  | ifElse i =>
      obtain ⟨condition, thenBody, orElse, pos⟩ := i
      simp only [Stmt.isComplete, IfStatement.isComplete, Bool.and_eq_true] at h
      have hThen := isComplete_orPass (allComplete_lowerAll thenBody h.1.2)
      have hElse := orElse.isComplete_lower h.2
      simp [Stmt.lower, Target.Stmt.isComplete, condition.isComplete_lower, h.1.1, hThen, hElse]
  | forLoop init condition update body pos =>
      simp only [Stmt.isComplete, Bool.and_eq_true] at h
      have hBody := isComplete_orPass (allComplete_lowerAll body h.2)
      have hStep : (update.bind fun a => rangeStep a.value).all
          Target.Expr.isComplete = true := by
        cases update with
        | none => rfl
        | some a => exact isComplete_rangeStep h.1.2
      simp [Stmt.lower, Target.Stmt.isComplete, ForInit.isComplete_lowerValue h.1.1.1,
        isComplete_rangeStop h.1.1.2, hStep, hBody]
  | whileLoop condition body pos =>
      simp only [Stmt.isComplete, Bool.and_eq_true] at h
      have hBody := isComplete_orPass (allComplete_lowerAll body h.2)
      simp [Stmt.lower, Target.Stmt.isComplete, condition.isComplete_lower, h.1, hBody]
  | print argument newline pos =>
      cases argument with
      | none => rfl
      | some e => exact e.isComplete_lower.trans h
  | invalid p => exact absurd h Bool.false_ne_true

theorem Else.isComplete_lower (e : Else) (h : e.isComplete = true) :
    e.lower.isComplete = true := by
  cases e with
  | none => rfl
  | elseIf i =>
      obtain ⟨condition, thenBody, orElse, pos⟩ := i
      simp only [Else.isComplete, IfStatement.isComplete, Bool.and_eq_true] at h
      have hThen := isComplete_orPass (allComplete_lowerAll thenBody h.1.2)
      have hElse := orElse.isComplete_lower h.2
      simp [Else.lower, Target.Else.isComplete, condition.isComplete_lower, h.1.1, hThen, hElse]
  | block body => exact isComplete_orPass (allComplete_lowerAll body h)

theorem allComplete_lowerAll (ss : List Stmt) (h : allComplete ss = true) :
    Target.allComplete (lowerAll ss) = true := by
  cases ss with
  | nil => rfl
  | cons s ss =>
      obtain ⟨hFirst, hRest⟩ := Bool.and_eq_true_iff.mp h
      exact Bool.and_eq_true_iff.mpr ⟨s.isComplete_lower hFirst, allComplete_lowerAll ss hRest⟩

end

theorem Program.isComplete_lower (p : Program) (h : allComplete p.body = true) :
    Target.allComplete p.lower = true :=
  isComplete_orPass (allComplete_lowerAll p.body h)

end Braceless

import Braceless.Proofs.Grammar
import Mathlib.Tactic.Ring

/-!
# The levels of a tree

A level is a block, an `else if`, an operator or a pair of brackets, and a tree has as many
levels as its longest path.  While tokens are read from left to right, levels are opened and
closed again, and what is open at one time is another count.  The two differ in the chains.
When an operator of a chain is read, the levels of the operands on its left are closed, but in
the tree they stand below the operator.  So every chain puts its operators on top of what its
first operand has already, at each of the six ranks and again inside each pair of brackets, and
the levels of a tree can grow with the square of those that are open at a time.  On a single
path they grow past those by as many levels as the path turns to left operands that have levels
of their own.

## Main definitions

* `Expr.levels`: all levels of an expression.
* `Expr.opened`: the levels of an expression that are open at a time.
* `Expr.leftTurns`: the turns of a path to left operands that have levels of their own.
* `Stmt.levels`, `Program.levels`: levels of statements, with either count for expressions.
* `deepest`: the levels of the deepest expression within a room.

## Main results

* `Program.levels_le_opened`: all levels are open at a time or due to turns.
* `Grammar.exists_operand_deepest`: the deepest expression is derived within its room.
-/

namespace Braceless

/-! ## Expressions -/

namespace Expr

/-- The operators and brackets on the longest path of an expression. -/
def levels : Expr → Nat
  | binary _ left right => max left.levels right.levels + 1
  | unary _ operand => operand.levels + 1
  | group inner => inner.levels + 1
  | literal _ => 0
  | identifier _ _ => 0
  | invalid _ => 0

/-- The number of operators in the chain of the given rank that an expression is. -/
def chainLength (rank : Nat) : Expr → Nat
  | binary op left _ => if op.rank = rank then left.chainLength rank + 1 else 0
  | _ => 0

/-- The levels that are open at one time: an operand is read within the operators that stand
before it in its chain. -/
def opened : Expr → Nat
  | binary op left right => max left.opened (left.chainLength op.rank + 1 + right.opened)
  | unary _ operand => operand.opened + 1
  | group inner => inner.opened + 1
  | literal _ => 0
  | identifier _ _ => 0
  | invalid _ => 0

/-- How often a path turns to a left operand that has levels besides the operators of the same
chain. -/
def leftTurns : Expr → Nat
  | binary op left right =>
    max (if left.levels ≤ left.chainLength op.rank then 0 else left.leftTurns + 1) right.leftTurns
  | unary _ operand => operand.leftTurns
  | group inner => inner.leftTurns
  | literal _ => 0
  | identifier _ _ => 0
  | invalid _ => 0

/-- A level that is not open together with the others on its path is due to a turn. -/
theorem levels_le_opened (e : Expr) : e.levels ≤ e.opened + e.leftTurns := by
  induction e with
  | binary op left right ihLeft ihRight =>
      rw [levels, opened, leftTurns]
      split
      · omega
      · omega
  | unary op operand ih =>
      rw [levels, opened, leftTurns]
      omega
  | group inner ih =>
      rw [levels, opened, leftTurns]
      omega
  | literal _ => exact Nat.zero_le _
  | identifier _ _ => exact Nat.zero_le _
  | invalid _ => exact Nat.zero_le _

end Expr

/-! ## Statements -/

section Statements

variable (f : Expr → Nat)

def Declaration.levels (d : Declaration) : Nat :=
  d.value.elim 0 f

def Assignment.levels (a : Assignment) : Nat :=
  f a.value

def ForInit.levels : ForInit → Nat
  | declaration d => d.levels f
  | assignment a => a.levels f

mutual

/-- The levels on the longest path of a statement, whose expressions count as `f` says. -/
def Stmt.levels : Stmt → Nat
  | .declaration d => d.levels f
  | .assignment a => a.levels f
  | .ifElse i => i.levels
  | .forLoop init condition update body _ =>
    max (max (init.levels f) (f condition))
      (max (update.elim 0 (Assignment.levels f)) (levelsOf body + 1))
  | .whileLoop condition body _ => max (f condition) (levelsOf body + 1)
  | .print argument _ _ => argument.elim 0 f
  | .invalid _ => 0

def IfStatement.levels : IfStatement → Nat
  | ⟨condition, thenBody, orElse, _⟩ =>
    max (f condition) (max (levelsOf thenBody + 1) orElse.levels)

def Else.levels : Else → Nat
  | .none => 0
  | .elseIf i => i.levels + 1
  | .block body => levelsOf body + 1

/-- The levels on the longest path of a run of statements. -/
def levelsOf : List Stmt → Nat
  | [] => 0
  | s :: ss => max s.levels (levelsOf ss)

end

/-- The levels on the longest path of a program. -/
def Program.levels (p : Program) : Nat :=
  levelsOf f p.body

theorem levelsOf_append (ss ss' : List Stmt) :
    levelsOf f (ss ++ ss') = max (levelsOf f ss) (levelsOf f ss') := by
  induction ss with
  | nil => exact (Nat.zero_max _).symm
  | cons s ss ih => rw [List.cons_append, levelsOf, levelsOf, ih, Nat.max_assoc]

end Statements

/-! ## The expressions of a program -/

def ForInit.expressions : ForInit → List Expr
  | declaration d => d.value.toList
  | assignment a => [a.value]

mutual

/-- The expressions of a statement, in order. -/
def Stmt.expressions : Stmt → List Expr
  | .declaration d => d.value.toList
  | .assignment a => [a.value]
  | .ifElse i => i.expressions
  | .forLoop init condition update body _ =>
    init.expressions ++ condition :: update.toList.map Assignment.value ++ expressionsOf body
  | .whileLoop condition body _ => condition :: expressionsOf body
  | .print argument _ _ => argument.toList
  | .invalid _ => []

def IfStatement.expressions : IfStatement → List Expr
  | ⟨condition, thenBody, orElse, _⟩ => condition :: expressionsOf thenBody ++ orElse.expressions

def Else.expressions : Else → List Expr
  | .none => []
  | .elseIf i => i.expressions
  | .block body => expressionsOf body

def expressionsOf : List Stmt → List Expr
  | [] => []
  | s :: ss => s.expressions ++ expressionsOf ss

end

def Program.expressions (p : Program) : List Expr :=
  expressionsOf p.body

section Comparison

variable {f g : Expr → Nat} {n : Nat}

theorem elim_le_elim {o : Option Expr} (h : ∀ e ∈ o.toList, f e ≤ g e + n) :
    o.elim 0 f ≤ o.elim 0 g + n := by
  cases o with
  | none => exact Nat.zero_le _
  | some e => exact h e (by simp)

theorem ForInit.levels_le {init : ForInit} (h : ∀ e ∈ init.expressions, f e ≤ g e + n) :
    init.levels f ≤ init.levels g + n := by
  cases init with
  | declaration d => exact elim_le_elim h
  | assignment a => exact h a.value (by simp [expressions])

theorem update_levels_le {update : Option Assignment}
    (h : ∀ e ∈ update.toList.map Assignment.value, f e ≤ g e + n) :
    update.elim 0 (Assignment.levels f) ≤ update.elim 0 (Assignment.levels g) + n := by
  cases update with
  | none => exact Nat.zero_le _
  | some a => exact h a.value (by simp)

mutual

/-- Two counts that differ by at most `n` on expressions do so on statements. -/
theorem Stmt.levels_le (s : Stmt) (h : ∀ e ∈ s.expressions, f e ≤ g e + n) :
    s.levels f ≤ s.levels g + n := by
  cases s with
  | declaration d =>
      rw [Stmt.levels, Stmt.levels]
      exact elim_le_elim (by simpa [Stmt.expressions] using h)
  | assignment a =>
      rw [Stmt.levels, Stmt.levels]
      exact h a.value (by simp [Stmt.expressions])
  | ifElse i =>
      rw [Stmt.levels, Stmt.levels]
      exact i.levels_le (by simpa [Stmt.expressions] using h)
  | forLoop init condition update body pos =>
      simp only [Stmt.expressions, List.forall_mem_append, List.forall_mem_cons] at h
      have hInit := ForInit.levels_le h.1.1
      have hUpdate := update_levels_le h.1.2.2
      have hBody := levelsOf_le body h.2
      rw [Stmt.levels, Stmt.levels]
      omega
  | whileLoop condition body pos =>
      simp only [Stmt.expressions, List.forall_mem_cons] at h
      have hBody := levelsOf_le body h.2
      rw [Stmt.levels, Stmt.levels]
      omega
  | print argument newline pos =>
      rw [Stmt.levels, Stmt.levels]
      exact elim_le_elim (by simpa [Stmt.expressions] using h)
  | invalid p =>
      rw [Stmt.levels]
      exact Nat.zero_le _

theorem IfStatement.levels_le (i : IfStatement) (h : ∀ e ∈ i.expressions, f e ≤ g e + n) :
    i.levels f ≤ i.levels g + n := by
  obtain ⟨condition, thenBody, orElse, pos⟩ := i
  simp only [IfStatement.expressions, List.forall_mem_append, List.forall_mem_cons] at h
  have hThen := levelsOf_le thenBody h.1.2
  have hElse := orElse.levels_le h.2
  rw [IfStatement.levels, IfStatement.levels]
  omega

theorem Else.levels_le (o : Else) (h : ∀ e ∈ o.expressions, f e ≤ g e + n) :
    o.levels f ≤ o.levels g + n := by
  cases o with
  | none =>
      rw [Else.levels]
      exact Nat.zero_le _
  | elseIf i =>
      have hInner := i.levels_le (by simpa [Else.expressions] using h)
      rw [Else.levels, Else.levels]
      omega
  | block body =>
      have hBody := levelsOf_le body (by simpa [Else.expressions] using h)
      rw [Else.levels, Else.levels]
      omega

theorem levelsOf_le (ss : List Stmt) (h : ∀ e ∈ expressionsOf ss, f e ≤ g e + n) :
    levelsOf f ss ≤ levelsOf g ss + n := by
  cases ss with
  | nil => exact Nat.zero_le _
  | cons s ss =>
      simp only [expressionsOf, List.forall_mem_append] at h
      have hHead := s.levels_le h.1
      have hTail := levelsOf_le ss h.2
      rw [levelsOf, levelsOf]
      omega

end

end Comparison

/-- A program has no more levels than are open at a time and turns are made. -/
theorem Program.levels_le_opened {p : Program} {n : Nat}
    (h : ∀ e ∈ p.expressions, e.leftTurns ≤ n) :
    p.levels Expr.levels ≤ p.levels Expr.opened + n :=
  levelsOf_le p.body fun e he => e.levels_le_opened.trans (Nat.add_le_add_left (h e he) _)

/-! ## Growth -/

/-- The levels of the deepest expression within a room: the brackets, and inside them a chain
of every rank, each as long as the room that is left, around the deepest expression of that
room. -/
def deepest : Nat → Nat
  | 0 => 0
  | room + 1 => deepest room + 6 * room + 1

theorem deepest_add (room : Nat) : deepest room + 2 * room = 3 * room * room := by
  induction room with
  | zero => rfl
  | succ room ih =>
      have hSquare : 3 * (room + 1) * (room + 1) = 3 * room * room + 6 * room + 3 := by ring
      rw [deepest, hSquare]
      omega

/-- The growth is quadratic. -/
theorem deepest_eq (room : Nat) : deepest room = room * (3 * room - 2) := by
  have hSum := deepest_add room
  rw [Nat.mul_sub, show room * (3 * room) = 3 * room * room by ring, Nat.mul_comm room 2]
  omega

/-! ## Derived trees -/

/-- Tokens without names. -/
def Nameless (ts : List Token) : Prop :=
  ∀ t ∈ ts, t.kind ≠ .identifier

namespace Grammar

/-- A number, which every rank admits. -/
theorem exists_operand_number {r : Nat} (hr : r ≤ 6) :
    ∃ t l, Operand r [t] (.literal l) 0 ∧ t.kind ≠ .identifier := by
  have hNumber : Operand 6 [⟨.integer, "1", .start⟩] (.literal ⟨.int, "1"⟩) 0 :=
    .literal (.integer rfl)
  exact ⟨_, _, hNumber.of_le hr (Nat.le_refl 6), by decide⟩

/-- A chain of `n` operators opens `n` levels and puts them on top of its left operand. -/
theorem exists_chain_levels (op : BinaryOp) (n : Nat) (left : Expr) :
    ∃ ts e, Chain op.rank left ts e n ∧ e.levels = left.levels + n ∧ Nameless ts := by
  induction n generalizing left with
  | zero => exact ⟨[], left, .done, rfl, nofun⟩
  | succ n ih =>
      have hRank : op.rank + 1 ≤ 6 := by cases op <;> decide
      obtain ⟨t, l, hRight, hNumber⟩ := exists_operand_number hRank
      obtain ⟨ts, e, hMore, hLevels, hNames⟩ := ih (.binary op left (.literal l))
      have hChain := Chain.more (t := ⟨op.kind, op.symbol, .start⟩) rfl hRight hMore
      rw [Nat.zero_max] at hChain
      refine ⟨_, e, hChain, ?_, ?_⟩
      · rw [hLevels, Expr.levels, Expr.levels, Nat.max_zero]
        omega
      · have hOp : op.kind ≠ .identifier := by cases op <;> decide
        simpa [Nameless, hOp, hNumber] using hNames

/-- Around an operand of the tightest rank there is room for a chain of each rank. -/
theorem exists_operand_chains {n : Nat} {ts : List Token} {e : Expr} (h : Operand 6 ts e n)
    (hNames : Nameless ts) {k : Nat} (hk : k ≤ 6) :
    ∃ ts' e', Operand (6 - k) ts' e' n ∧ e'.levels = e.levels + k * n ∧ Nameless ts' := by
  induction k with
  | zero => exact ⟨ts, e, h, by omega, hNames⟩
  | succ k ih =>
      obtain ⟨us, first, hFirst, hLevels, hFirstNames⟩ := ih (by omega)
      have hOp : ∃ op : BinaryOp, op.rank = 6 - (k + 1) := by
        match k, hk with
        | 0, _ => exact ⟨.mul, rfl⟩
        | 1, _ => exact ⟨.add, rfl⟩
        | 2, _ => exact ⟨.gt, rfl⟩
        | 3, _ => exact ⟨.eq, rfl⟩
        | 4, _ => exact ⟨.and, rfl⟩
        | 5, _ => exact ⟨.or, rfl⟩
      obtain ⟨op, hRank⟩ := hOp
      obtain ⟨vs, e', hMore, hMoreLevels, hMoreNames⟩ := exists_chain_levels op n first
      have hTighter : 6 - k = op.rank + 1 := by omega
      rw [hTighter] at hFirst
      have hChain := Operand.chain (by omega) hFirst hMore
      rw [Nat.max_self, hRank] at hChain
      refine ⟨_, e', hChain, ?_, ?_⟩
      · rw [hMoreLevels, hLevels, Nat.succ_mul, Nat.add_assoc]
      · intro t ht
        exact (List.mem_append.mp ht).elim (hFirstNames t) (hMoreNames t)

/-- The deepest expression of a room is derived within it. -/
theorem exists_operand_deepest (n : Nat) :
    ∃ ts e, Operand 6 ts e n ∧ e.levels = deepest n ∧ Nameless ts := by
  induction n with
  | zero =>
      obtain ⟨t, l, hNumber, hName⟩ := exists_operand_number (Nat.le_refl 6)
      exact ⟨[t], .literal l, hNumber, rfl, by simpa [Nameless] using hName⟩
  | succ n ih =>
      obtain ⟨ts, e, hOperand, hLevels, hNames⟩ := ih
      obtain ⟨us, e', hInner, hInnerLevels, hInnerNames⟩ :=
        exists_operand_chains hOperand hNames (Nat.le_refl 6)
      have hGroup : Operand 6 (⟨.lParen, "(", .start⟩ :: (us ++ [⟨.rParen, ")", .start⟩]))
          (.group e') (n + 1) := .group rfl hInner rfl
      refine ⟨_, .group e', hGroup, ?_, ?_⟩
      · rw [Expr.levels, hInnerLevels, hLevels, deepest]
      · simpa [Nameless, or_imp, forall_and] using hInnerNames

end Grammar

end Braceless

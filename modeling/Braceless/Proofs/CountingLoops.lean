import Braceless.Program.Construct
import Braceless.Proofs.MeaningPreservation
import Braceless.Proofs.Target.Ranges

/-!
# Counting loops become ranges

A loop that steps a variable by a positive amount towards a bound tests and steps; the target
counts the numbers in advance, from the bounds as they are before the first turn.  Both go
through the same numbers if the body leaves the variable, the bound and the amount alone.

The invariant of the loop is that the variable has some value `n`, and that the bound and the
amount still have the values they had at the start.  One turn takes `n` from the front of the
range that starts there and leaves the invariant at the next number.

What the body does is left open: it may be any relation that changes only the variables which
the body assigns, so it may end in several ways or not at all.

## Main definitions

* `Expr.IsArithmetic`: the expressions that bounds and amounts consist of.
* `assignedIn`: the variables that statements assign.
* `CountingLoop`, `CountingLoop.Turns`: counting loops and their turns.
* `CountingLoop.Takes`: the values that the variable of a loop has on entry to its body.

## Main results

* `Runs.eq_of_notMem_assignedIn`: a run changes only what its statements assign.
* `CountingLoop.Turns.rangeValues_eq`: the turns of a loop use up a range from its front.
* `rangeOf_countingLoop`: the range in the output has the values that the variable takes.
-/

namespace Braceless

open Target (safeName)

/-! ## Arithmetic -/

/-- Sums, differences, products and negatives of variables and of numbers that have no zero
in front. -/
def Expr.IsArithmetic : Expr → Prop
  | binary op left right => op ∈ [.add, .sub, .mul] ∧ left.IsArithmetic ∧ right.IsArithmetic
  | unary op operand => op = .neg ∧ operand.IsArithmetic
  | group inner => inner.IsArithmetic
  | literal l => l.kind = .int ∧ IsDigits l.value.toList ∧
      (l.value = "0" ∨ l.value.toList.head? ≠ some '0')
  | identifier name _ => Target.IsIdentifier name.toList
  | invalid _ => False

namespace Expr

instance decidableIsArithmetic : (e : Expr) → Decidable e.IsArithmetic
  | binary op left right =>
    have := decidableIsArithmetic left
    have := decidableIsArithmetic right
    inferInstanceAs (Decidable (op ∈ [.add, .sub, .mul] ∧ left.IsArithmetic ∧ right.IsArithmetic))
  | unary op operand =>
    have := decidableIsArithmetic operand
    inferInstanceAs (Decidable (op = .neg ∧ operand.IsArithmetic))
  | group inner => decidableIsArithmetic inner
  | literal l => inferInstanceAs (Decidable (l.kind = .int ∧ IsDigits l.value.toList ∧
      (l.value = "0" ∨ l.value.toList.head? ≠ some '0')))
  | identifier name _ => inferInstanceAs (Decidable (Target.IsIdentifier name.toList))
  | invalid _ => isFalse id

theorem IsArithmetic.worded {e : Expr} (h : e.IsArithmetic) : ∀ m ∈ e.mentions, m.Worded := by
  induction e with
  | binary op left right ihLeft ihRight =>
      exact List.forall_mem_append.mpr ⟨ihLeft h.2.1, ihRight h.2.2⟩
  | unary op operand ih => exact ih h.2
  | group inner ih => exact ih h
  | literal l =>
      have hLine : '\n' ∉ l.value.toList := fun hMem => absurd (h.2.1.2 _ hMem) (by decide)
      exact List.forall_mem_singleton.mpr ⟨hLine, fun _ => h.2.1⟩
  | identifier name pos => exact List.forall_mem_singleton.mpr h
  | invalid p => exact h.elim

theorem IsArithmetic.isCore {e : Expr} (h : e.IsArithmetic) : e.isCore = true := by
  induction e with
  | binary op left right ihLeft ihRight =>
      have hOp : ∀ op ∈ [BinaryOp.add, .sub, .mul], op.isCore = true := by decide
      simp [Expr.isCore, hOp op h.1, ihLeft h.2.1, ihRight h.2.2]
  | unary op operand ih =>
      obtain ⟨rfl, hOperand⟩ := h
      have hNot : operand.isNot = false := by
        cases operand with
        | unary op' inner => rw [hOperand.1]; rfl
        | binary | group | literal | identifier | invalid => rfl
      simp [Expr.isCore, hNot, ih hOperand]
  | group inner ih => exact ih h
  | literal l =>
      obtain ⟨kind, value⟩ := l
      obtain ⟨rfl, _, hZero⟩ := h
      simpa [Expr.isCore, Literal.isCore] using hZero
  | identifier name pos => rfl
  | invalid p => exact h.elim

/-- An arithmetic expression has a number as its value, and the same one in the target. -/
theorem IsArithmetic.exists_value {e : Expr} (h : e.IsArithmetic) {env : Env}
    (hInt : ∀ x ∈ e.identifiers, ∃ n, env x = some (.int n)) :
    ∃ n, e.eval env = some (.int n) ∧
      ∀ tenv : Env, (∀ x ∈ e.identifiers, tenv (safeName x) = env x) →
        e.targetTree.eval tenv = some (.int n) := by
  induction e with
  | binary op left right ihLeft ihRight =>
      obtain ⟨hOp, hLeft, hRight⟩ := h
      obtain ⟨hIntLeft, hIntRight⟩ := List.forall_mem_append.mp hInt
      obtain ⟨m, hm, hm'⟩ := ihLeft hLeft hIntLeft
      obtain ⟨n, hn, hn'⟩ := ihRight hRight hIntRight
      have hAnd : op ≠ .and := by
        rintro rfl
        exact absurd hOp (by decide)
      have hOr : op ≠ .or := by
        rintro rfl
        exact absurd hOp (by decide)
      have hResult : ∃ r, op.eval (.int m) (.int n) = some (.int r) := by
        simp only [List.mem_cons, List.not_mem_nil, or_false] at hOp
        rcases hOp with rfl | rfl | rfl
        · exact ⟨m + n, rfl⟩
        · exact ⟨m - n, rfl⟩
        · exact ⟨m * n, rfl⟩
      obtain ⟨r, hr⟩ := hResult
      refine ⟨r, ?_, ?_⟩
      · rw [Expr.eval_binary hAnd hOr, hm, hn]
        exact hr
      · intro tenv hSame
        obtain ⟨hSameLeft, hSameRight⟩ := List.forall_mem_append.mp hSame
        rw [targetTree, Target.Tree.eval_binary hAnd hOr, hm' tenv hSameLeft,
          hn' tenv hSameRight]
        exact operate_of_eval hr
  | unary op operand ih =>
      obtain ⟨rfl, hOperand⟩ := h
      obtain ⟨n, hn, hn'⟩ := ih hOperand hInt
      refine ⟨-n, ?_, ?_⟩
      · rw [Expr.eval, hn]
        rfl
      · intro tenv hSame
        rw [targetTree, Target.Tree.eval, hn' tenv hSame]
        rfl
  | group inner ih => exact ih h hInt
  | literal l =>
      have hWorded : (Mention.literal l).Worded := IsArithmetic.worded h _ List.mem_cons_self
      have hCore : l.isCore = true := IsArithmetic.isCore h
      have hEval : l.eval = some (.int (decimalValue l.value.toList)) := by
        rw [Literal.eval, h.1]
      exact ⟨_, hEval, fun tenv _ => l.eval_targetTree hCore hWorded hEval tenv⟩
  | identifier name pos =>
      obtain ⟨n, hn⟩ := hInt name List.mem_cons_self
      exact ⟨n, hn, fun tenv hSame => (hSame name List.mem_cons_self).trans hn⟩
  | invalid p => exact h.elim

/-- The value of an expression depends on the variables that it names. -/
theorem eval_congr {e : Expr} {env env' : Env} (h : ∀ x ∈ e.identifiers, env' x = env x) :
    e.eval env' = e.eval env := by
  induction e with
  | binary op left right ihLeft ihRight =>
      obtain ⟨hLeft, hRight⟩ := List.forall_mem_append.mp h
      cases op <;> simp only [Expr.eval, ihLeft hLeft, ihRight hRight]
  | unary op operand ih => rw [Expr.eval, Expr.eval, ih h]
  | group inner ih => exact ih h
  | literal l => rfl
  | identifier name pos => exact h name List.mem_cons_self
  | invalid p => rfl

/-! ## Arguments -/

/-- No operator of an arithmetic expression is looser than a sum. -/
theorem IsArithmetic.four_le_outerLevel {e : Expr} (h : e.IsArithmetic) :
    4 ≤ e.lower.outerLevel := by
  cases e with
  | binary op left right =>
      have hOp : ∀ op ∈ [BinaryOp.add, .sub, .mul], 4 ≤ Target.level op := by decide
      exact hOp op h.1
  | unary op operand =>
      obtain ⟨rfl, _⟩ := h
      exact (by decide : 4 ≤ 6)
  | literal l =>
      rw [Expr.lower, l.outerLevel_lower]
      decide
  | group inner => exact (by decide : 4 ≤ 6)
  | identifier name pos => exact (by decide : 4 ≤ 6)
  | invalid p => exact h.elim

theorem outerLevel_bracketsIf_isAtom (e : Expr) :
    (e.lower.bracketsIf (!e.isAtom)).outerLevel = 6 := by
  cases e with
  | literal l => exact l.outerLevel_lower
  | binary | unary | group | identifier | invalid => rfl

end Expr

theorem foreign_comma : Foreign ',' :=
  ⟨rfl, by decide⟩

theorem Expr.IsArithmetic.isArgument_lower {e : Expr} (h : e.IsArithmetic) :
    e.lower.IsArgument where
  spelled := Expr.spelled_lower (Expr.valid_of_isCore h.isCore h.worded)
  fits := Expr.fits_lower (Expr.noNegatedNot_of_isCore h.isCore)
  noComma := foreign_comma.notMem_core h.isCore h.worded

namespace Target.Expr

theorem isArgument_zero : (number "0").IsArgument :=
  ⟨rfl, trivial, by decide⟩

/-- One more or one less than an argument. -/
theorem IsArgument.binary_one {e : Expr} (h : e.IsArgument) (hLevel : 4 ≤ e.outerLevel)
    {op : BinaryOp} (hOp : level op = 4) : (binary op e (number "1")).IsArgument where
  spelled := ⟨h.spelled, rfl⟩
  fits := by
    refine ⟨?_, ?_, ?_, h.fits, trivial⟩
    · omega
    · omega
    · rw [hOp]
      decide
  noComma := by simp [Target.Expr.text, h.noComma, foreign_comma.notMem_spelling]

theorem IsArgument.neg_bracketsIf {e : Expr} (h : e.IsArgument) {wrap : Bool}
    (hLevel : (e.bracketsIf wrap).outerLevel = 6) : (neg (e.bracketsIf wrap)).IsArgument where
  spelled := h.spelled.bracketsIf wrap
  fits := ⟨hLevel.ge, h.fits.bracketsIf wrap⟩
  noComma := by simp [Target.Expr.text, foreign_comma.notMem_bracketsIf h.noComma]

end Target.Expr

/-! ## Steps -/

/-- Only the number one is written as `1`. -/
theorem Expr.IsArithmetic.eq_one_of_text {e : Expr} (h : e.IsArithmetic) {tenv : Env} {k : Int}
    (hValue : e.targetTree.eval tenv = some (.int k)) (hText : e.lower.text = "1") : k = 1 := by
  have hRead := Expr.read_core h.isCore h.worded
  have hOne : Target.read "1" = some (.number "1") :=
    Target.read_text (e := .number "1") rfl trivial
  rw [hText, hOne] at hRead
  rw [← Option.some.inj hRead] at hValue
  cases hValue
  rfl

/-- The step of a range that goes up: it is left out where it is one. -/
theorem rangeStep_add (left : Expr) {amount : Expr} (h : amount.IsArithmetic) {tenv : Env}
    {k : Int} (hAmount : amount.targetTree.eval tenv = some (.int k)) :
    (rangeStep (.binary .add left amount) = none → k = 1) ∧
      ∀ e ∈ rangeStep (.binary .add left amount),
        e.IsArgument ∧ e.tree.eval tenv = some (.int k) := by
  have hOne := h.eq_one_of_text hAmount
  rw [← Expr.tree_lower] at hAmount
  rw [rangeStep]
  split
  · next hText => exact ⟨fun _ => hOne hText, fun _ he => by cases he⟩
  · refine ⟨fun hNone => (by cases hNone), ?_⟩
    intro e he
    obtain rfl := Option.some.inj he
    exact ⟨h.isArgument_lower, hAmount⟩

/-- The step of a range that goes down. -/
theorem rangeStep_sub (left : Expr) {amount : Expr} (h : amount.IsArithmetic) {tenv : Env}
    {k : Int} (hAmount : amount.targetTree.eval tenv = some (.int k)) :
    (rangeStep (.binary .sub left amount) = none → -k = 1) ∧
      ∀ e ∈ rangeStep (.binary .sub left amount),
        e.IsArgument ∧ e.tree.eval tenv = some (.int (-k)) := by
  rw [← Expr.tree_lower] at hAmount
  rw [rangeStep]
  refine ⟨fun hNone => (by cases hNone), ?_⟩
  intro e he
  obtain rfl := Option.some.inj he
  refine ⟨h.isArgument_lower.neg_bracketsIf amount.outerLevel_bracketsIf_isAtom, ?_⟩
  rw [Target.Expr.tree, Target.Expr.tree_bracketsIf, Target.Tree.eval, hAmount]
  rfl

/-! ## What statements assign -/

mutual

/-- The variables that a statement assigns or declares. -/
def Stmt.assigned : Stmt → List String
  | .declaration d => [d.name]
  | .assignment a => [a.name]
  | .ifElse ⟨_, thenBody, orElse, _⟩ => assignedIn thenBody ++ orElse.assigned
  | .forLoop init _ update body _ =>
    init.name :: ((update.map Assignment.name).toList ++ assignedIn body)
  | .whileLoop _ body _ => assignedIn body
  | .print .. | .invalid _ => []

/-- The variables that the further branches of a conditional assign. -/
def Else.assigned : Else → List String
  | .none => []
  | .elseIf ⟨_, thenBody, orElse, _⟩ => assignedIn thenBody ++ orElse.assigned
  | .block body => assignedIn body

/-- The variables that statements assign. -/
def assignedIn : List Stmt → List String
  | [] => []
  | s :: ss => s.assigned ++ assignedIn ss

end

theorem Else.assignedIn_statements (e : Else) : assignedIn e.statements = e.assigned := by
  cases e with
  | none => rfl
  | elseIf i =>
      obtain ⟨condition, thenBody, orElse, pos⟩ := i
      simp [Else.statements, assignedIn, Stmt.assigned, Else.assigned]
  | block body => rfl

/-- A run changes only what its statements assign. -/
theorem Runs.eq_of_notMem_assignedIn {ss : List Stmt} {env env' : Env} {out : List Output}
    (h : Runs ss env out env') {x : String} (hx : x ∉ assignedIn ss) : env' x = env x := by
  induction h with
  | nil => rfl
  | declaration _ _ ih =>
      simp only [assignedIn, Stmt.assigned, List.mem_append, List.mem_singleton, not_or] at hx
      rw [ih hx.2, Env.set_of_ne _ _ hx.1]
  | assignment _ _ ih =>
      simp only [assignedIn, Stmt.assigned, List.mem_append, List.mem_singleton, not_or] at hx
      rw [ih hx.2, Env.set_of_ne _ _ hx.1]
  | print _ _ ih => exact ih hx
  | printNothing _ ih => exact ih hx
  | @ifElse condition thenBody orElse pos ss env env' env'' b _ _ _ _ _ ihBranch ihRest =>
      simp only [assignedIn, Stmt.assigned, List.mem_append, not_or] at hx
      have hBranch : x ∉ assignedIn (if b then thenBody else orElse.statements) := by
        cases b with
        | true => exact hx.1.1
        | false => exact orElse.assignedIn_statements ▸ hx.1.2
      rw [ihRest hx.2, ihBranch hBranch]
  | whileDone _ _ ih => exact ih fun hRest => hx (List.mem_append_right _ hRest)
  | whileAgain _ _ _ ihOnce ihAgain =>
      rw [ihAgain hx, ihOnce fun hBody => hx (List.mem_append_left _ hBody)]

/-! ## Counting loops -/

/-- The ways to count towards a bound. -/
inductive Way where
  /-- Up, as long as the variable is below the bound. -/
  | below
  /-- Up, to the bound and no further. -/
  | upTo
  /-- Down, as long as the variable is above the bound. -/
  | above
  /-- Down, to the bound and no further. -/
  | downTo
deriving DecidableEq, Repr

namespace Way

/-- The comparison of the variable with the bound. -/
def relation : Way → BinaryOp
  | below => .lt
  | upTo => .ltEq
  | above => .gt
  | downTo => .gtEq

/-- The operation on the variable and the amount. -/
def direction : Way → BinaryOp
  | below | upTo => .add
  | above | downTo => .sub

/-- The end of the range up to a bound. -/
def stop (w : Way) (bound : Int) : Int :=
  match w with
  | below | above => bound
  | upTo => bound + 1
  | downTo => bound - 1

/-- The step of the range for an amount. -/
def step (w : Way) (amount : Int) : Int :=
  match w with
  | below | upTo => amount
  | above | downTo => -amount

theorem step_ne_zero (w : Way) {k : Int} (hk : 0 < k) : w.step k ≠ 0 := by
  cases w <;> simp only [step] <;> omega

/-- The comparison holds where the end of the range lies ahead. -/
theorem eval_relation (w : Way) {k : Int} (hk : 0 < k) (n bound : Int) :
    w.relation.eval (.int n) (.int bound) =
      some (.bool (decide (0 < Target.ahead n (w.stop bound) (w.step k)))) := by
  have hDown : ¬ 0 < -k := by omega
  have hBool : ∀ {p q : Prop} [Decidable p] [Decidable q], (p ↔ q) →
      some (Value.bool (decide p)) = some (.bool (decide q)) := by
    intro p q _ _ hIff
    rw [decide_eq_decide.mpr hIff]
  cases w with
  | below | upTo =>
      refine hBool ?_
      rw [Target.ahead, step, if_pos hk, stop]
      omega
  | above | downTo =>
      refine hBool ?_
      rw [Target.ahead, step, if_neg hDown, stop]
      omega

theorem eval_direction (w : Way) (n k : Int) :
    w.direction.eval (.int n) (.int k) = some (.int (n + w.step k)) := by
  cases w <;> rfl

end Way

/-- The first value of a loop variable. -/
def ForInit.eval (env : Env) : ForInit → Option Value
  | declaration d => d.eval env
  | assignment a => a.value.eval env

theorem ForInit.first_of_value {init : ForInit} {a : Expr} (h : init.value = some a) (env : Env) :
    init.eval env = a.eval env ∧ init.lowerValue = a.lower := by
  cases init with
  | assignment b =>
      obtain rfl := Option.some.inj h
      exact ⟨rfl, rfl⟩
  | declaration d =>
      have hValue : d.value = some a := h
      rw [ForInit.eval, Declaration.eval, ForInit.lowerValue, Declaration.lowerValue, hValue]
      exact ⟨rfl, rfl⟩

theorem ForInit.first_of_no_value {init : ForInit} (h : init.value = none)
    (hInt : ∀ d, init = .declaration d → d.dataType = .int) (env : Env) :
    init.eval env = some (.int 0) ∧ init.lowerValue = .number "0" := by
  cases init with
  | assignment a => cases h
  | declaration d =>
      have hValue : d.value = none := h
      rw [ForInit.eval, Declaration.eval, ForInit.lowerValue, Declaration.lowerValue, hValue,
        hInt d rfl]
      exact ⟨rfl, rfl⟩

/-- A loop with an integer variable that counts towards a bound.  Bound and amount do not
mention the variable. -/
structure CountingLoop where
  init : ForInit
  way : Way
  bound : Expr
  amount : Expr
  /-- Where the variable stands in the condition and in the new value, and the update. -/
  conditionPos : Position
  valuePos : Position
  updatePos : Position
  isInt : ∀ d, init = .declaration d → d.dataType = .int
  isIdentifier_name : Target.IsIdentifier init.name.toList
  isArithmetic_start : ∀ a ∈ init.value, a.IsArithmetic
  isArithmetic_bound : bound.IsArithmetic
  isArithmetic_amount : amount.IsArithmetic
  fresh : init.name ∉ bound.identifiers ++ amount.identifiers

namespace CountingLoop

variable (l : CountingLoop)

/-- The loop variable. -/
def name : String :=
  l.init.name

def condition : Expr :=
  .binary l.way.relation (.identifier l.name l.conditionPos) l.bound

def update : Assignment :=
  ⟨l.name, .binary l.way.direction (.identifier l.name l.valuePos) l.amount, l.updatePos⟩

def statement (body : List Stmt) (pos : Position) : Stmt :=
  .forLoop l.init l.condition (some l.update) body pos

/-- The variables that the first value, the bound and the amount depend on. -/
def names : List String :=
  (l.init.value.map Expr.identifiers).getD [] ++ (l.bound.identifiers ++ l.amount.identifiers)

/-- The variables that the body must leave alone. -/
def kept : List String :=
  l.name :: (l.bound.identifiers ++ l.amount.identifiers)

/-! ## Turns -/

section Turns

variable (does : Env → Env → Prop)

/-- One turn of a loop whose body `does` something: where the variables are `env`, the body
is entered with the value `n`, and after it and the update they are `env'`. -/
structure Turn (env : Env) (n : Int) (env' : Env) : Prop where
  test : l.condition.eval env = some (.bool true)
  value : env l.name = some (.int n)
  once : ∃ mid v, does env mid ∧ l.update.value.eval mid = some v ∧
    env' = mid.set l.update.name v

/-- Turns one after another, with the values on entry to the body. -/
inductive Turns : Env → List Int → Env → Prop where
  | nil {env : Env} : Turns env [] env
  | cons {env env' env'' : Env} {n : Int} {ns : List Int} (first : l.Turn does env n env')
      (rest : Turns env' ns env'') : Turns env (n :: ns) env''

/-- The loop, begun where the variables are `env`, enters its body with the given values. -/
structure Takes (env : Env) (values : List Int) : Prop where
  /-- After any number of turns the body is entered again with the next of the values, or the
  condition fails and these were all of them. -/
  next : ∀ ns env', l.Turns does env ns env' →
    (l.condition.eval env' = some (.bool true) ∧
        ∃ n, env' l.name = some (.int n) ∧ ns ++ [n] <+: values) ∨
      (l.condition.eval env' = some (.bool false) ∧ ns = values)
  /-- If the body always comes to an end, the loop does. -/
  ends : (∀ ns env', l.Turns does env ns env' → l.condition.eval env' = some (.bool true) →
      ∃ mid, does env' mid) →
    ∃ env', l.Turns does env values env' ∧ l.condition.eval env' = some (.bool false)

end Turns

variable {l} {does : Env → Env → Prop}

theorem Turns.concat {env env' env'' : Env} {ns : List Int} {n : Int}
    (h : l.Turns does env ns env') (hTurn : l.Turn does env' n env'') :
    l.Turns does env (ns ++ [n]) env'' := by
  induction h with
  | nil => exact .cons hTurn .nil
  | cons first _ ih => exact .cons first (ih hTurn)

/-- The invariant: the variable has the value `n`, and the bound and the amount have their
values `b` and `k`. -/
structure Counts (l : CountingLoop) (b k : Int) (env : Env) (n : Int) : Prop where
  value : env l.name = some (.int n)
  bound : l.bound.eval env = some (.int b)
  amount : l.amount.eval env = some (.int k)

namespace Counts

variable {b k n : Int} {env : Env}

theorem eval_condition (h : l.Counts b k env n) (hk : 0 < k) :
    l.condition.eval env =
      some (.bool (decide (0 < Target.ahead n (l.way.stop b) (l.way.step k)))) := by
  rw [condition, Expr.eval_binary (by cases l.way <;> decide) (by cases l.way <;> decide),
    Expr.eval, h.value, h.bound]
  exact l.way.eval_relation hk n b

theorem eval_update (h : l.Counts b k env n) :
    l.update.value.eval env = some (.int (n + l.way.step k)) := by
  rw [update, Expr.eval_binary (by cases l.way <;> decide) (by cases l.way <;> decide),
    Expr.eval, h.value, h.amount]
  exact l.way.eval_direction n k

/-- The invariant survives what leaves its variables alone. -/
theorem of_eq (h : l.Counts b k env n) {env' : Env} (hKept : ∀ x ∈ l.kept, env' x = env x) :
    l.Counts b k env' n := by
  obtain ⟨hName, hRest⟩ := List.forall_mem_cons.mp hKept
  obtain ⟨hBound, hAmount⟩ := List.forall_mem_append.mp hRest
  exact ⟨hName.trans h.value, (Expr.eval_congr hBound).trans h.bound,
    (Expr.eval_congr hAmount).trans h.amount⟩

/-- Bound and amount do not depend on the variable. -/
theorem set_name (hBound : l.bound.eval env = some (.int b))
    (hAmount : l.amount.eval env = some (.int k)) (m : Int) :
    l.Counts b k (env.set l.name (.int m)) m := by
  have hOther : ∀ x ∈ l.bound.identifiers ++ l.amount.identifiers,
      env.set l.name (.int m) x = env x := by
    intro x hx
    refine env.set_of_ne _ ?_
    rintro rfl
    exact l.fresh hx
  obtain ⟨hSameBound, hSameAmount⟩ := List.forall_mem_append.mp hOther
  exact ⟨env.set_self _ _, (Expr.eval_congr hSameBound).trans hBound,
    (Expr.eval_congr hSameAmount).trans hAmount⟩

end Counts

section Run

variable {b k n : Int} {env : Env} (hKeeps : ∀ e e', does e e' → ∀ x ∈ l.kept, e' x = e x)
include hKeeps

/-- One turn enters the body with the first number of a range and goes on with the next. -/
theorem Turn.counts {m : Int} {env' : Env} (hTurn : l.Turn does env m env') (hk : 0 < k)
    (h : l.Counts b k env n) :
    m = n ∧ 0 < Target.ahead n (l.way.stop b) (l.way.step k) ∧
      l.Counts b k env' (n + l.way.step k) := by
  obtain ⟨hTest, hValue, mid, v, hDoes, hv, rfl⟩ := hTurn
  have hMid := h.of_eq (hKeeps env mid hDoes)
  have hSame : m = n := by simpa using hValue.symm.trans h.value
  have hAhead : 0 < Target.ahead n (l.way.stop b) (l.way.step k) := by
    simpa using (h.eval_condition hk).symm.trans hTest
  obtain rfl := Option.some.inj (hv.symm.trans hMid.eval_update)
  exact ⟨hSame, hAhead, .set_name hMid.bound hMid.amount _⟩

/-- The turns of a loop use up a range from its front. -/
theorem Turns.rangeValues_eq {ns : List Int} {env' : Env} (hTurns : l.Turns does env ns env')
    (hk : 0 < k) (h : l.Counts b k env n) :
    ∃ n', l.Counts b k env' n' ∧
      Target.rangeValues n (l.way.stop b) (l.way.step k) =
        ns ++ Target.rangeValues n' (l.way.stop b) (l.way.step k) := by
  induction hTurns generalizing n with
  | nil => exact ⟨n, h, rfl⟩
  | cons first _ ih =>
      obtain ⟨rfl, hAhead, hNext⟩ := first.counts hKeeps hk h
      obtain ⟨n', hCounts, hRest⟩ := ih hNext
      refine ⟨n', hCounts, ?_⟩
      rw [Target.rangeValues_of_ahead (l.way.step_ne_zero hk) hAhead, hRest]
      rfl

/-- Where a loop stands after some turns: before the next number of the range, or at its
end. -/
theorem Turns.next {ns : List Int} {env' : Env} (hTurns : l.Turns does env ns env')
    (hk : 0 < k) (h : l.Counts b k env n) :
    (l.condition.eval env' = some (.bool true) ∧ ∃ n', l.Counts b k env' n' ∧
        ns ++ [n'] <+: Target.rangeValues n (l.way.stop b) (l.way.step k)) ∨
      (l.condition.eval env' = some (.bool false) ∧
        ns = Target.rangeValues n (l.way.stop b) (l.way.step k)) := by
  obtain ⟨n', hCounts, hValues⟩ := hTurns.rangeValues_eq hKeeps hk h
  have hTest := hCounts.eval_condition hk
  by_cases hAhead : 0 < Target.ahead n' (l.way.stop b) (l.way.step k)
  · rw [decide_eq_true hAhead] at hTest
    refine .inl ⟨hTest, n', hCounts, ?_⟩
    rw [hValues, Target.rangeValues_of_ahead (l.way.step_ne_zero hk) hAhead]
    exact ⟨_, (List.append_cons ns n' _).symm⟩
  · rw [decide_eq_false hAhead] at hTest
    refine .inr ⟨hTest, ?_⟩
    rw [hValues, Target.rangeValues_of_not_ahead hAhead, List.append_nil]

/-- A loop whose body always comes to an end goes through the whole range.  The induction is
on what is left of the range. -/
theorem Turns.exists_all
    (hBody : ∀ ns env', l.Turns does env ns env' →
      l.condition.eval env' = some (.bool true) → ∃ mid, does env' mid)
    (hk : 0 < k) (h : l.Counts b k env n) {ns rest : List Int} {env' : Env}
    (hTurns : l.Turns does env ns env')
    (hSplit : Target.rangeValues n (l.way.stop b) (l.way.step k) = ns ++ rest) :
    ∃ env'', l.Turns does env (ns ++ rest) env'' ∧
      l.condition.eval env'' = some (.bool false) := by
  have hNext := hTurns.next hKeeps hk h
  rw [hSplit] at hNext
  induction rest generalizing ns env' with
  | nil =>
      rw [List.append_nil] at hNext ⊢
      rcases hNext with ⟨_, n', _, hPrefix⟩ | ⟨hTest, _⟩
      · exact absurd hPrefix.length_le (by simp)
      · exact ⟨env', hTurns, hTest⟩
  | cons m rest ih =>
      rcases hNext with ⟨hTest, n', hCounts, hPrefix⟩ | ⟨_, hAll⟩
      · obtain rfl : n' = m := by simpa using hPrefix
        obtain ⟨mid, hMid⟩ := hBody ns env' hTurns hTest
        have hUpdate := (hCounts.of_eq (hKeeps env' mid hMid)).eval_update
        have hMore := hTurns.concat ⟨hTest, hCounts.value, mid, _, hMid, hUpdate, rfl⟩
        rw [List.append_cons] at hSplit ⊢
        exact ih hMore hSplit (hSplit ▸ hMore.next hKeeps hk h)
      · simp at hAll

theorem Counts.takes (h : l.Counts b k env n) (hk : 0 < k) :
    l.Takes does env (Target.rangeValues n (l.way.stop b) (l.way.step k)) where
  next := by
    intro ns env' hTurns
    rcases hTurns.next hKeeps hk h with ⟨hTest, n', hCounts, hPrefix⟩ | hEnd
    · exact .inl ⟨hTest, n', hCounts.value, hPrefix⟩
    · exact .inr hEnd
  ends := fun hBody => Turns.exists_all hKeeps hBody hk h .nil rfl

end Run

/-! ## The range in the output -/

/-- The first value is a number, and the first argument of the range is that number. -/
theorem exists_first (l : CountingLoop) {env : Env}
    (hInt : ∀ x ∈ l.names, ∃ n, env x = some (.int n)) :
    l.init.lowerValue.IsArgument ∧ ∃ n, l.init.eval env = some (.int n) ∧
      ∀ tenv : Env, (∀ x ∈ l.names, tenv (safeName x) = env x) →
        l.init.lowerValue.tree.eval tenv = some (.int n) := by
  cases hValue : l.init.value with
  | none =>
      obtain ⟨hEval, hLower⟩ := ForInit.first_of_no_value hValue l.isInt env
      rw [hEval, hLower]
      exact ⟨Target.Expr.isArgument_zero, 0, rfl, fun _ _ => rfl⟩
  | some a =>
      have hNames : ∀ x ∈ a.identifiers, x ∈ l.names := by
        intro x hx
        rw [names, hValue]
        exact List.mem_append_left _ hx
      have hArithmetic := l.isArithmetic_start a hValue
      obtain ⟨n, hn, hSame⟩ := hArithmetic.exists_value fun x hx => hInt x (hNames x hx)
      obtain ⟨hEval, hLower⟩ := ForInit.first_of_value hValue env
      rw [hEval, hLower, Expr.tree_lower]
      exact ⟨hArithmetic.isArgument_lower, n, hn, fun tenv h =>
        hSame tenv fun x hx => h x (hNames x hx)⟩

/-- The end of the range, for a bound with the value `b`. -/
theorem rangeStop_condition (l : CountingLoop) {tenv : Env} {b : Int}
    (hBound : l.bound.targetTree.eval tenv = some (.int b)) :
    (rangeStop l.condition).IsArgument ∧
      (rangeStop l.condition).tree.eval tenv = some (.int (l.way.stop b)) := by
  have hArgument := l.isArithmetic_bound.isArgument_lower
  have hLevel := l.isArithmetic_bound.four_le_outerLevel
  rw [← Expr.tree_lower] at hBound
  rw [condition]
  cases l.way with
  | below | above => exact ⟨hArgument, hBound⟩
  | upTo | downTo =>
      refine ⟨hArgument.binary_one hLevel rfl, ?_⟩
      show (l.bound.lower.tree.eval tenv).bind _ = _
      rw [hBound]
      rfl

/-- The step of the range, for an amount with the value `k`. -/
theorem rangeStep_update (l : CountingLoop) {tenv : Env} {k : Int}
    (hAmount : l.amount.targetTree.eval tenv = some (.int k)) :
    (rangeStep l.update.value = none → l.way.step k = 1) ∧
      ∀ e ∈ rangeStep l.update.value,
        e.IsArgument ∧ e.tree.eval tenv = some (.int (l.way.step k)) := by
  rw [update]
  cases l.way with
  | below | upTo => exact rangeStep_add _ l.isArithmetic_amount hAmount
  | above | downTo => exact rangeStep_sub _ l.isArithmetic_amount hAmount

/-- Names that stay apart can keep their values under their new names. -/
theorem exists_env_safeName {names : List String}
    (hDistinct : ∀ x ∈ names, ∀ y ∈ names, safeName x = safeName y → x = y) (env : Env) :
    ∃ tenv : Env, ∀ x ∈ names, tenv (safeName x) = env x := by
  refine ⟨fun y => (names.find? fun x => safeName x == y).bind fun x => env x, ?_⟩
  intro x hx
  show (names.find? fun z => safeName z == safeName x).bind _ = _
  cases hFind : names.find? fun z => safeName z == safeName x with
  | none => exact absurd (List.find?_eq_none.mp hFind x hx) (by simp)
  | some z =>
      have hSame : safeName z = safeName x := by simpa using List.find?_some hFind
      rw [Option.bind_some, hDistinct z (List.mem_of_find?_eq_some hFind) x hx hSame]

end CountingLoop

/-- A counting loop is written as a loop over a range, and the range has just the values that
the variable takes on entry to the body.  The arguments of the range are read from the header
that is written, and evaluated where the variables have their values before the loop. -/
theorem rangeOf_countingLoop (l : CountingLoop) {body : List Stmt}
    (hBody : ∀ x ∈ l.kept, x ∉ assignedIn body) {does : Env → Env → Prop}
    (hDoes : ∀ e e', does e e' → ∀ x, x ∉ assignedIn body → e' x = e x)
    (hDistinct : ∀ x ∈ l.names, ∀ y ∈ l.names, safeName x = safeName y → x = y) {env : Env}
    (hInt : ∀ x ∈ l.names, ∃ n, env x = some (.int n)) {k : Int}
    (hAmount : l.amount.eval env = some (.int k)) (hPositive : 0 < k) (level : Nat)
    (pos : Position) :
    ∃ header block first values,
      (l.statement body pos).lower.lines level = ⟨level, header⟩ :: block ∧
      l.init.eval env = some (.int first) ∧
      l.Takes does (env.set l.name (.int first)) values ∧
      (∃ tenv : Env, ∀ x ∈ l.names, tenv (safeName x) = env x) ∧
      ∀ tenv : Env, (∀ x ∈ l.names, tenv (safeName x) = env x) →
        Target.rangeOf tenv header = some (safeName l.name, values) := by
  obtain ⟨_, hNames⟩ := List.forall_mem_append.mp hInt
  obtain ⟨hBoundNames, hAmountNames⟩ := List.forall_mem_append.mp hNames
  obtain ⟨hFirst, first, hFirstValue, hFirstTree⟩ := l.exists_first hInt
  obtain ⟨b, hBound, hBoundTree⟩ := l.isArithmetic_bound.exists_value hBoundNames
  obtain ⟨k', hAmount', hAmountTree⟩ := l.isArithmetic_amount.exists_value hAmountNames
  obtain rfl : k = k' := by simpa using hAmount.symm.trans hAmount'
  have hKeeps : ∀ e e', does e e' → ∀ x ∈ l.kept, e' x = e x :=
    fun e e' h x hx => hDoes e e' h x (hBody x hx)
  have hCounts : l.Counts b k (env.set l.name (.int first)) first := .set_name hBound hAmount first
  refine ⟨forHeader l.init l.condition (some l.update), _, first, _, rfl, hFirstValue,
    hCounts.takes hKeeps hPositive, CountingLoop.exists_env_safeName hDistinct env, ?_⟩
  intro tenv hSame
  obtain ⟨_, hSameNames⟩ := List.forall_mem_append.mp hSame
  obtain ⟨hSameBound, hSameAmount⟩ := List.forall_mem_append.mp hSameNames
  obtain ⟨hStop, hStopTree⟩ := l.rangeStop_condition (hBoundTree tenv hSameBound)
  obtain ⟨hOne, hStep⟩ := l.rangeStep_update (hAmountTree tenv hSameAmount)
  exact Target.rangeOf_header l.isIdentifier_name.safeName
    (Target.safeName_notMem_fixedWords l.name) hFirst hStop (fun e he => (hStep e he).1)
    (hFirstTree tenv hSame) hStopTree (l.way.step_ne_zero hPositive) hOne
    (fun e he => (hStep e he).2)

/-- `for (int i = -lo + 1; i <= 2 * (n - 1); i = i + in)` -/
def stridingLoop : CountingLoop where
  init := .declaration (.make .int "i"
    (some (.binary .add (.unary .neg (.var "lo")) (.ofLiteral .int "1"))))
  way := .upTo
  bound := .binary .mul (.ofLiteral .int "2")
    (.group (.binary .sub (.var "n") (.ofLiteral .int "1")))
  amount := .var "in"
  conditionPos := .start
  valuePos := .start
  updatePos := .start
  isInt := by
    intro d hd
    cases hd
    rfl
  isIdentifier_name := by decide
  isArithmetic_start := by decide
  isArithmetic_bound := by decide
  isArithmetic_amount := by decide
  fresh := by decide

/-- `total = total + i` -/
def stridingBody : List Stmt :=
  [.assignment (.set "total" (.binary .add (.var "total") (.var "i")))]

/-- The numbers that the loop depends on, where `step` is the name of the third. -/
def stridingEnv (step : String) : Env :=
  ((Env.empty.set "lo" (.int 2)).set "n" (.int 4)).set step (.int 3)

theorem takes_stridingLoop :
    (stridingLoop.statement stridingBody .start).lower.lines 0 =
        [⟨0, "for i in range(-lo + 1, 2 * (n - 1) + 1, in_):"⟩, ⟨1, "total = total + i"⟩] ∧
      Target.rangeOf (stridingEnv "in_") "for i in range(-lo + 1, 2 * (n - 1) + 1, in_):" =
        some ("i", [-1, 2, 5]) ∧
      stridingLoop.init.eval (stridingEnv "in") = some (.int (-1)) ∧
      stridingLoop.amount.eval (stridingEnv "in") = some (.int 3) ∧
      stridingLoop.Takes (fun e e' => ∃ out, Runs stridingBody e out e')
        ((stridingEnv "in").set "i" (.int (-1))) [-1, 2, 5] := by
  have hLines : (stridingLoop.statement stridingBody .start).lower.lines 0 =
      [⟨0, "for i in range(-lo + 1, 2 * (n - 1) + 1, in_):"⟩, ⟨1, "total = total + i"⟩] := by
    decide
  have hValues : Target.rangeOf (stridingEnv "in_")
      "for i in range(-lo + 1, 2 * (n - 1) + 1, in_):" = some ("i", [-1, 2, 5]) := by
    decide +kernel
  have hInit : stridingLoop.init.eval (stridingEnv "in") = some (.int (-1)) := by decide
  have hAmount : stridingLoop.amount.eval (stridingEnv "in") = some (.int 3) := rfl
  have hBody : ∀ x ∈ stridingLoop.kept, x ∉ assignedIn stridingBody := by decide
  have hDoes : ∀ e e', (∃ out, Runs stridingBody e out e') →
      ∀ x, x ∉ assignedIn stridingBody → e' x = e x :=
    fun _ _ ⟨_, hRuns⟩ _ hx => hRuns.eq_of_notMem_assignedIn hx
  have hInt : ∀ x ∈ stridingLoop.names, ∃ n, stridingEnv "in" x = some (.int n) :=
    List.forall_mem_cons.mpr ⟨⟨2, rfl⟩, List.forall_mem_cons.mpr ⟨⟨4, rfl⟩,
      List.forall_mem_singleton.mpr ⟨3, rfl⟩⟩⟩
  have hSame : ∀ x ∈ stridingLoop.names, stridingEnv "in_" (safeName x) = stridingEnv "in" x :=
    List.forall_mem_cons.mpr ⟨rfl, List.forall_mem_cons.mpr ⟨rfl,
      List.forall_mem_singleton.mpr rfl⟩⟩
  obtain ⟨header, block, first, values, hHeader, hFirst, hTakes, _, hRange⟩ :=
    rangeOf_countingLoop stridingLoop hBody hDoes (by decide) hInt hAmount (by decide) 0 .start
  rw [hLines] at hHeader
  obtain ⟨hHead, _⟩ := List.cons.inj hHeader
  obtain ⟨_, rfl⟩ := Target.Line.mk.inj hHead
  obtain rfl : -1 = first := by simpa using hInit.symm.trans hFirst
  obtain ⟨_, rfl⟩ := Prod.mk.inj (Option.some.inj (hValues.symm.trans (hRange _ hSame)))
  exact ⟨hLines, hValues, hInit, hAmount, hTakes⟩

end Braceless

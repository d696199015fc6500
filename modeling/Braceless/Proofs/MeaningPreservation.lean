import Braceless.Analysis
import Braceless.Proofs.CoreCommands
import Braceless.Proofs.Scope
import Mathlib.Data.List.Nodup

/-!
# The output does what the program does

A core program and its output are run side by side.  The variables of the output have the
values of the variables of the program, under their new names.  An expression that has a
value has the same one in the target: its looser rules agree with the strict ones where these
give a result at all.  So every run of the program that comes to an end is matched step by
step by the commands, and the commands are what the target reads in the text.

Two variables must not fall together under their new names, and none may be `__debug__`, which
the target does not let a page assign to.  All names of a program without errors are in its
table, so this is asked of the table only.

Integers are unbounded on both sides, and no page is too large for the target: its limits on the
depth of blocks and brackets and on the digits of a number are left out.

## Main definitions

* `Renamed`: the variables of both sides agree under the new names.

## Main results

* `Expr.eval_targetTree`: expressions keep their value.
* `executes_of_runs`: a run of core statements is matched by a run of their commands.
-/

namespace Braceless

open Target (Executes safeName)

/-! ## Variables -/

/-- The variables of the target are the given ones under their new names, with the same
values. -/
structure Renamed (names : List String) (env tenv : Env) : Prop where
  agree : ∀ x ∈ names, tenv (safeName x) = env x
  other : ∀ y, y ∉ names.map safeName → tenv y = none

theorem renamed_empty (names : List String) : Renamed names .empty .empty :=
  ⟨fun _ _ => rfl, fun _ _ => rfl⟩

/-- Giving a variable a value on both sides. -/
theorem Renamed.set {names : List String} {env tenv : Env}
    (hNames : (names.map safeName).Nodup) (h : Renamed names env tenv) {name : String}
    (hName : name ∈ names) (v : Value) :
    Renamed names (env.set name v) (tenv.set (safeName name) v) := by
  constructor
  · intro x hx
    by_cases hEq : x = name
    · subst hEq
      rw [Env.set_self, Env.set_self]
    · have hSafe : safeName x ≠ safeName name := fun hSame =>
        hEq (List.inj_on_of_nodup_map hNames hx hName hSame)
      rw [Env.set_of_ne _ _ hSafe, Env.set_of_ne _ _ hEq, h.agree x hx]
  · intro y hy
    have hNe : y ≠ safeName name := by
      rintro rfl
      exact hy (List.mem_map_of_mem hName)
    rw [Env.set_of_ne _ _ hNe, h.other y hy]

/-! ## Expressions -/

/-- Numbers without a zero in front have the same value in the target. -/
theorem Literal.eval_targetTree {l : Literal} (hCore : l.isCore = true)
    (hWorded : (Mention.literal l).Worded) {v : Value} (hv : l.eval = some v) (tenv : Env) :
    l.targetTree.eval tenv = some v := by
  obtain ⟨kind, value⟩ := l
  cases kind with
  | int =>
      have hDigits : IsDigits value.toList := hWorded.2 rfl
      have hAll : value.toList.all Char.isDigit = true := List.all_eq_true.mpr hDigits.2
      have hZero : value.toList.head? ≠ some '0' ∨ value.toList.all (· == '0') := by
        rcases Bool.or_eq_true_iff.mp hCore with hSingle | hFirst
        · right
          have hValue : value = "0" := eq_of_beq hSingle
          rw [hValue]
          rfl
        · left
          exact bne_iff_ne.mp hFirst
      show Target.numeral? value.toList = some v
      rw [Target.numeral?, if_pos ⟨hDigits.1, hAll, hZero⟩]
      exact hv
  | boolean => exact hv
  | double => exact nomatch hCore
  | char => exact nomatch hCore
  | str => exact nomatch hCore

/-- The looser rules of the target agree with a strict operation that has a result. -/
theorem operate_of_eval {op : BinaryOp} {v w u : Value} (h : op.eval v w = some u) :
    Target.operate op v w = some u := by
  rw [← h]
  unfold BinaryOp.eval at h ⊢
  split at h
  case h_5 a b => cases a <;> cases b <;> rfl
  case h_7 a b => cases a <;> cases b <;> rfl
  case h_12 => exact nomatch h
  all_goals rfl

theorem Expr.eval_binary {op : BinaryOp} (hAnd : op ≠ .and) (hOr : op ≠ .or) (env : Env)
    (left right : Expr) : (Expr.binary op left right).eval env =
      (left.eval env).bind fun v => (right.eval env).bind (op.eval v) := by
  cases op
  case and => exact absurd rfl hAnd
  case or => exact absurd rfl hOr
  all_goals rfl

theorem Target.Tree.eval_binary {op : BinaryOp} (hAnd : op ≠ .and) (hOr : op ≠ .or) (env : Env)
    (left right : Tree) : (Tree.binary op left right).eval env =
      (left.eval env).bind fun v => (right.eval env).bind (operate op v) := by
  cases op
  case and => exact absurd rfl hAnd
  case or => exact absurd rfl hOr
  all_goals rfl

theorem eq_of_map_truth? {v : Option Value} {w : Value}
    (h : (v.bind Value.truth?).map Value.bool = some w) : v = some w := by
  obtain ⟨b, hb, rfl⟩ := Option.map_eq_some_iff.mp h
  exact eq_bool_of_truth? hb

/-- Core expressions keep their value. -/
theorem Expr.eval_targetTree {names : List String} {env tenv : Env}
    (hEnv : Renamed names env tenv) {e : Expr} (hCore : e.isCore = true)
    (hKnown : ∀ m ∈ e.mentions, m.Known names) {v : Value} (hv : e.eval env = some v) :
    e.targetTree.eval tenv = some v := by
  induction e generalizing v with
  | binary op left right ihLeft ihRight =>
      simp only [Expr.isCore, Bool.and_eq_true] at hCore
      obtain ⟨hLeft, hRight⟩ := List.forall_mem_append.mp hKnown
      have ihLeft := @ihLeft hCore.1.2 hLeft
      have ihRight := @ihRight hCore.2 hRight
      by_cases hAnd : op = .and
      · subst hAnd
        obtain ⟨a, ha, hRest⟩ := Option.bind_eq_some_iff.mp hv
        simp only [Expr.targetTree, Target.Tree.eval, ihLeft (eq_bool_of_truth? ha),
          Option.bind_some, Target.truthy]
        cases a with
        | false => exact hRest
        | true => exact ihRight (eq_of_map_truth? hRest)
      by_cases hOr : op = .or
      · subst hOr
        obtain ⟨a, ha, hRest⟩ := Option.bind_eq_some_iff.mp hv
        simp only [Expr.targetTree, Target.Tree.eval, ihLeft (eq_bool_of_truth? ha),
          Option.bind_some, Target.truthy]
        cases a with
        | false => exact ihRight (eq_of_map_truth? hRest)
        | true => exact hRest
      rw [Expr.eval_binary hAnd hOr] at hv
      obtain ⟨a, ha, hRest⟩ := Option.bind_eq_some_iff.mp hv
      obtain ⟨b, hb, hResult⟩ := Option.bind_eq_some_iff.mp hRest
      rw [Expr.targetTree, Target.Tree.eval_binary hAnd hOr, ihLeft ha, Option.bind_some,
        ihRight hb]
      exact operate_of_eval hResult
  | unary op operand ih =>
      obtain ⟨a, ha, hResult⟩ := Option.bind_eq_some_iff.mp hv
      cases op with
      | not =>
          have hOperand := ih hCore hKnown ha
          cases a with
          | int n => cases hResult
          | bool b =>
              rw [Expr.targetTree, Target.Tree.eval, hOperand]
              exact hResult
      | neg =>
          have hOperand := ih (Bool.and_eq_true_iff.mp hCore).2 hKnown ha
          cases a with
          | int n =>
              rw [Expr.targetTree, Target.Tree.eval, hOperand]
              exact hResult
          | bool b => cases hResult
  | group inner ih => exact ih hCore hKnown hv
  | literal l => exact l.eval_targetTree hCore (hKnown _ List.mem_cons_self).worded hv tenv
  | identifier name pos =>
      have hName : name ∈ names := (hKnown _ List.mem_cons_self).within name rfl
      exact (hEnv.agree name hName).trans hv
  | invalid p => cases hCore

/-! ## Statements -/

theorem Declaration.eval_targetValue {names : List String} {env tenv : Env}
    (hEnv : Renamed names env tenv) {d : Declaration}
    (hCore : (Stmt.declaration d).isCore = true) (hKnown : ∀ m ∈ d.mentions, m.Known names)
    {v : Value} (hv : d.eval env = some v) : d.targetValue.eval tenv = some v := by
  obtain ⟨dataType, name, value, pos⟩ := d
  cases value with
  | none =>
      cases dataType with
      | int => exact hv
      | boolean => exact hv
      | double => exact nomatch hv
      | char => exact nomatch hv
      | string => exact nomatch hv
  | some e =>
      exact Expr.eval_targetTree hEnv (Bool.and_eq_true_iff.mp hCore).2
        (List.forall_mem_cons.mp hKnown).2 hv

/-- Statements that their commands follow: core statements over the given names. -/
structure Followed (names : List String) (ss : List Stmt) : Prop where
  core : allCore ss = true
  known : ∀ m ∈ mentionsOf ss, m.Known names

section Followed

variable {names : List String} {s : Stmt} {ss : List Stmt}

theorem Followed.headCore (h : Followed names (s :: ss)) : s.isCore = true :=
  (Bool.and_eq_true_iff.mp h.core).1

theorem Followed.headKnown (h : Followed names (s :: ss)) :
    ∀ m ∈ s.mentions, m.Known names :=
  (List.forall_mem_append.mp h.known).1

theorem Followed.tail (h : Followed names (s :: ss)) : Followed names ss :=
  ⟨(Bool.and_eq_true_iff.mp h.core).2, (List.forall_mem_append.mp h.known).2⟩

/-- The branch that is run where the condition does not hold. -/
theorem followed_statements {e : Else} (hCore : e.isCore = true)
    (hKnown : ∀ m ∈ e.mentions, m.Known names) : Followed names e.statements := by
  cases e with
  | none => exact ⟨rfl, nofun⟩
  | elseIf i =>
      obtain ⟨condition, thenBody, orElse, pos⟩ := i
      refine ⟨Bool.and_eq_true_iff.mpr ⟨hCore, rfl⟩, ?_⟩
      exact List.forall_mem_append.mpr ⟨hKnown, nofun⟩
  | block body => exact ⟨hCore, hKnown⟩

theorem commandsOf_statements (e : Else) : commandsOf e.statements = e.commands := by
  cases e with
  | none => rfl
  | elseIf i =>
      obtain ⟨condition, thenBody, orElse, pos⟩ := i
      exact List.append_nil _
  | block body => rfl

/-- What is to be known of a conditional, part by part. -/
theorem Followed.branches {condition : Expr} {thenBody : List Stmt} {orElse : Else}
    {pos : Position} (h : Followed names (.ifElse ⟨condition, thenBody, orElse, pos⟩ :: ss)) :
    (condition.isCore = true ∧ ∀ m ∈ condition.mentions, m.Known names) ∧
      ∀ b : Bool, Followed names (if b then thenBody else orElse.statements) := by
  have hCore := h.headCore
  simp only [Stmt.isCore, Bool.and_eq_true] at hCore
  obtain ⟨hCondition, hBranches⟩ := List.forall_mem_append.mp h.headKnown
  obtain ⟨hBody, hElse⟩ := List.forall_mem_append.mp hBranches
  refine ⟨⟨hCore.1.1, hCondition⟩, fun b => ?_⟩
  cases b with
  | true => exact ⟨hCore.1.2, hBody⟩
  | false => exact followed_statements hCore.2 hElse

/-- What is to be known of a loop, part by part. -/
theorem Followed.loop {condition : Expr} {body : List Stmt} {pos : Position}
    (h : Followed names (.whileLoop condition body pos :: ss)) :
    (condition.isCore = true ∧ ∀ m ∈ condition.mentions, m.Known names) ∧
      Followed names body := by
  obtain ⟨hCondition, hBody⟩ := List.forall_mem_append.mp h.headKnown
  obtain ⟨hCoreCondition, hCoreBody⟩ := Bool.and_eq_true_iff.mp h.headCore
  exact ⟨⟨hCoreCondition, hCondition⟩, hCoreBody, hBody⟩

/-- A run of core statements is matched by a run of their commands. -/
theorem executes_of_runs (hNames : (names.map safeName).Nodup) {env env' : Env}
    {out : List Output} (hRun : Runs ss env out env') (hss : Followed names ss) {tenv : Env}
    (hEnv : Renamed names env tenv) :
    ∃ tenv', Executes (commandsOf ss) tenv out tenv' ∧ Renamed names env' tenv' := by
  induction hRun generalizing tenv with
  | nil => exact ⟨tenv, .nil, hEnv⟩
  | declaration value _ ih =>
      obtain ⟨hName, _⟩ := List.forall_mem_cons.mp hss.headKnown
      obtain ⟨tenv', hRest, hEnd⟩ := ih hss.tail (hEnv.set hNames (hName.within _ rfl) _)
      have hValue := Declaration.eval_targetValue hEnv hss.headCore hss.headKnown value
      exact ⟨tenv', .assign hValue hRest, hEnd⟩
  | assignment value _ ih =>
      obtain ⟨hName, hKnown⟩ := List.forall_mem_cons.mp hss.headKnown
      obtain ⟨tenv', hRest, hEnd⟩ := ih hss.tail (hEnv.set hNames (hName.within _ rfl) _)
      have hValue := Expr.eval_targetTree hEnv hss.headCore hKnown value
      exact ⟨tenv', .assign hValue hRest, hEnd⟩
  | print value _ ih =>
      obtain ⟨tenv', hRest, hEnd⟩ := ih hss.tail hEnv
      have hValue := Expr.eval_targetTree hEnv hss.headCore hss.headKnown value
      exact ⟨tenv', .print hValue hRest, hEnd⟩
  | printNothing _ ih =>
      obtain ⟨tenv', hRest, hEnd⟩ := ih hss.tail hEnv
      exact ⟨tenv', .printNothing hRest, hEnd⟩
  | @ifElse condition thenBody orElse pos ss env env' env'' b out out' test _ _ ihBranch
      ihRest =>
      obtain ⟨⟨hCore, hKnown⟩, hBranch⟩ := hss.branches
      obtain ⟨tenv', hOnce, hBetween⟩ := ihBranch (hBranch b) hEnv
      obtain ⟨tenv'', hRest, hEnd⟩ := ihRest hss.tail hBetween
      have hTest := Expr.eval_targetTree hEnv hCore hKnown test
      refine ⟨tenv'', .ifElse hTest ?_ hRest, hEnd⟩
      cases b with
      | true => exact hOnce
      | false => exact commandsOf_statements orElse ▸ hOnce
  | whileDone test _ ih =>
      obtain ⟨⟨hCore, hKnown⟩, _⟩ := hss.loop
      obtain ⟨tenv', hRest, hEnd⟩ := ih hss.tail hEnv
      have hTest := Expr.eval_targetTree hEnv hCore hKnown test
      exact ⟨tenv', .whileDone hTest rfl hRest, hEnd⟩
  | whileAgain test _ _ ihOnce ihAgain =>
      obtain ⟨⟨hCore, hKnown⟩, hBody⟩ := hss.loop
      obtain ⟨tenv', hOnce, hBetween⟩ := ihOnce hBody hEnv
      obtain ⟨tenv'', hAgain, hEnd⟩ := ihAgain hss hBetween
      have hTest := Expr.eval_targetTree hEnv hCore hKnown test
      exact ⟨tenv'', .whileAgain hTest rfl hOnce hAgain, hEnd⟩

end Followed

/-! ## Texts -/

/-- Without comments among the tokens there is no comment section. -/
theorem commentSection_eq_nil {tokens : List Token}
    (h : ∀ t ∈ tokens, t.kind ≠ .comment) : commentSection tokens = [] := by
  have hNone : tokens.filter (·.kind == .comment) = [] :=
    List.filter_eq_nil_iff.mpr fun t ht => by simpa using h t ht
  rw [commentSection, hNone]
  rfl

theorem Target.render_outermost (width : Nat) (text : String) :
    (Line.mk 0 text).render width = text := by
  simp [Line.render]

/-- The banner and the blank line after it hold no code. -/
theorem isCode_headerLines (layout : Layout) (width : Nat) :
    ∀ l ∈ headerLines layout, '\n' ∉ l.text.toList ∧
      (Target.Line.ofChars (l.render width).toList).isCode = false := by
  unfold headerLines
  split
  · intro l hl
    rcases List.mem_cons.mp hl with rfl | hBlank
    · rw [Target.render_outermost]
      decide
    · obtain rfl := List.mem_singleton.mp hBlank
      rw [Target.render_outermost]
      decide
  · exact nofun

/-- The text of a program without comments: the header and the lines of its outlines. -/
theorem render_of_no_comment (p : Program) {tokens : List Token} (layout : Layout)
    (h : ∀ t ∈ tokens, t.kind ≠ .comment) :
    p.render tokens layout = Target.page layout.indent
      (headerLines layout ++ Target.blockLines 0 (outlinesOf p.body)) := by
  rw [Program.render, commentSection_eq_nil h, List.append_nil, p.linesOf_lower]

/-- The output for a core program is read as the commands of its statements, unless the program
declares `__debug__`. -/
theorem readProgram_python {source : String} {layout : Layout}
    (hComments : ∀ t ∈ (lex source).tokens, t.kind ≠ .comment)
    (hSuccess : (analyze source layout).success = true)
    (hCore : allCore (analyze source layout).program.body = true) (hIndent : 1 ≤ layout.indent) :
    Target.readProgram (analyze source layout).python =
      if Target.debugFlag ∈ (analyze source layout).declarations.names then none
      else some (commandsOf (analyze source layout).program.body) := by
  have hErrors : (parse (lex source).tokens).errors = [] :=
    List.isEmpty_iff.mp (Bool.and_eq_true_iff.mp hSuccess).2
  have hWorded := worded_mentions_parse_lex source
  have hPage : Target.readProgram (analyze source layout).python =
      Target.commands? (outlinesOf (analyze source layout).program.body) := by
    show Target.readProgram ((parse (lex source).tokens).program.render _ layout) = _
    rw [render_of_no_comment _ layout hComments]
    exact Target.readProgram_page hIndent (isCode_headerLines layout layout.indent)
      (allProper_outlinesOf _ hWorded) (isCode_outlinesOf _ hCore hWorded 0)
  rw [hPage]
  split
  · next hDebug => exact commands?_of_debugFlag _ (mem_names_parse_iff.mp hDebug)
  · next hDebug =>
      exact commands?_outlinesOf hDebug _ hCore fun m hm =>
        ⟨hWorded m hm, within_names_parse hErrors m hm⟩

/-- **The output does what the program does.**  Take a text without comments and without
errors whose program is a core program, and whose variables stay apart under their new names.
If it declares `__debug__`, the target cannot read the output.  Otherwise it can, and whenever
the program comes to an end, so do the commands that are read, in one way only: they print the
same values with the same line ends, and end with the same values of all variables, under the
new names, and with no variables besides. -/
theorem executes_python {source : String} {layout : Layout}
    (hComments : ∀ t ∈ (lex source).tokens, t.kind ≠ .comment)
    (hSuccess : (analyze source layout).success = true)
    (hCore : allCore (analyze source layout).program.body = true)
    (hNames : ((analyze source layout).declarations.names.map safeName).Nodup)
    (hIndent : 1 ≤ layout.indent) :
    (Target.debugFlag ∈ (analyze source layout).declarations.names →
      Target.readProgram (analyze source layout).python = none) ∧
    (Target.debugFlag ∉ (analyze source layout).declarations.names →
      ∃ commands, Target.readProgram (analyze source layout).python = some commands ∧
        ∀ out env, Runs (analyze source layout).program.body .empty out env →
          ∃ tenv, Executes commands .empty out tenv ∧
            (∀ out' tenv', Executes commands .empty out' tenv' → out' = out ∧ tenv' = tenv) ∧
            (∀ x ∈ (analyze source layout).declarations.names, tenv (safeName x) = env x) ∧
            ∀ y, y ∉ (analyze source layout).declarations.names.map safeName →
              tenv y = none) := by
  have hRead := readProgram_python hComments hSuccess hCore hIndent
  have hErrors : (parse (lex source).tokens).errors = [] :=
    List.isEmpty_iff.mp (Bool.and_eq_true_iff.mp hSuccess).2
  have hFollowed : Followed (analyze source layout).declarations.names
      (analyze source layout).program.body :=
    ⟨hCore, fun m hm => ⟨worded_mentions_parse_lex source m hm, within_names_parse hErrors m hm⟩⟩
  refine ⟨fun hDebug => hRead.trans (if_pos hDebug), fun hDebug => ?_⟩
  refine ⟨commandsOf (analyze source layout).program.body, hRead.trans (if_neg hDebug), ?_⟩
  intro out env hRun
  obtain ⟨tenv, hExecutes, hEnd⟩ := executes_of_runs hNames hRun hFollowed (renamed_empty _)
  exact ⟨tenv, hExecutes, fun out' tenv' h => h.unique hExecutes, hEnd.agree, hEnd.other⟩

/-- A loop with branches, updates, an empty block and a variable that needs a new name. -/
def countdownSource : String :=
  "int in = 3; int sum; boolean done = false;\nwhile (!done && in > -4) \x7b\n" ++
  "if (in > 2) \x7b sum += in * (in - 1); \x7d else if (in == 2) \x7b in--; \x7d\n" ++
  "else \x7b \x7d\n" ++
  "System.out.print(sum - -in); in--; done = in <= 0 == true; \x7d\nSystem.out.println();"

/-- The analysis of `countdownSource`. -/
def countdown : Analysis :=
  analyze countdownSource ⟨2, true⟩

/-- The output for `countdownSource`. -/
def countdownText : String :=
  banner ++ "\n\nin_ = 3\nsum = 0\ndone = False\nwhile (not done) and in_ > -4:\n" ++
  "  if in_ > 2:\n    sum = sum + in_ * (in_ - 1)\n  elif in_ == 2:\n    in_ = in_ - 1\n" ++
  "  else:\n    pass\n  print(sum - -in_, end=\"\")\n  in_ = in_ - 1\n" ++
  "  done = (in_ <= 0) == True\nprint()"

/-- What the program of `countdownSource` prints. -/
def countdownOutput : List Output :=
  [⟨some (.int 9), false⟩, ⟨some (.int 7), false⟩, ⟨none, true⟩]

theorem countdown_facts :
    (∀ t ∈ (lex countdownSource).tokens, t.kind ≠ .comment) ∧ countdown.success = true ∧
      allCore countdown.program.body = true ∧
      (countdown.declarations.names.map safeName).Nodup ∧
      Target.debugFlag ∉ countdown.declarations.names ∧ "in" ∈ countdown.declarations.names ∧
      countdown.python = countdownText ∧
      (run? 40 countdown.program.body .empty).map (·.1) = some countdownOutput ∧
      (run? 40 countdown.program.body .empty).bind (·.2 "in") = some (.int 0) := by
  decide +kernel

theorem executes_python_countdown :
    (∀ t ∈ (lex countdownSource).tokens, t.kind ≠ .comment) ∧ countdown.success = true ∧
      allCore countdown.program.body = true ∧
      (countdown.declarations.names.map safeName).Nodup ∧ 1 ≤ 2 ∧
      Target.debugFlag ∉ countdown.declarations.names ∧ countdown.python = countdownText ∧
      ∃ env, Runs countdown.program.body .empty countdownOutput env ∧
        ∃ commands tenv, Target.readProgram countdown.python = some commands ∧
          Executes commands .empty countdownOutput tenv ∧ tenv "in_" = some (.int 0) := by
  obtain ⟨hComments, hSuccess, hCore, hNames, hDebug, hIn, hText, hOutput, hValue⟩ :=
    countdown_facts
  obtain ⟨⟨out, env⟩, hBounded, hPrinted⟩ := Option.map_eq_some_iff.mp hOutput
  have hRun := runs_of_run? hBounded
  rw [hPrinted] at hRun
  rw [hBounded] at hValue
  obtain ⟨commands, hRead, hAll⟩ :=
    (@executes_python countdownSource ⟨2, true⟩ hComments hSuccess hCore hNames (by decide)).2
      hDebug
  obtain ⟨tenv, hExecutes, _, hAgree, _⟩ := hAll countdownOutput env hRun
  exact ⟨hComments, hSuccess, hCore, hNames, by decide, hDebug, hText, env, hRun, commands, tenv,
    hRead, hExecutes, (hAgree "in" hIn).trans hValue⟩

/-- A core program with a variable `__debug__`. -/
def debugSource : String :=
  "int __debug__ = 1; System.out.println(__debug__);"

/-- The analysis of `debugSource`. -/
def debugged : Analysis :=
  analyze debugSource default

theorem debugged_facts :
    (∀ t ∈ (lex debugSource).tokens, t.kind ≠ .comment) ∧ debugged.success = true ∧
      allCore debugged.program.body = true ∧
      (debugged.declarations.names.map safeName).Nodup ∧
      Target.debugFlag ∈ debugged.declarations.names ∧
      debugged.python = "__debug__ = 1\nprint(__debug__)" ∧
      (run? 10 debugged.program.body .empty).map (·.1) = some [⟨some (.int 1), true⟩] := by
  decide +kernel

/-- The program comes to an end, and the target cannot read its output. -/
theorem readProgram_debugged_eq_none :
    (∀ t ∈ (lex debugSource).tokens, t.kind ≠ .comment) ∧ debugged.success = true ∧
      allCore debugged.program.body = true ∧
      (debugged.declarations.names.map safeName).Nodup ∧ 1 ≤ (default : Layout).indent ∧
      debugged.python = "__debug__ = 1\nprint(__debug__)" ∧
      (∃ env, Runs debugged.program.body .empty [⟨some (.int 1), true⟩] env) ∧
      Target.readProgram debugged.python = none := by
  obtain ⟨hComments, hSuccess, hCore, hNames, hDebug, hText, hOutput⟩ := debugged_facts
  obtain ⟨⟨out, env⟩, hBounded, hPrinted⟩ := Option.map_eq_some_iff.mp hOutput
  have hRun := runs_of_run? hBounded
  rw [hPrinted] at hRun
  have hRead := @readProgram_python debugSource default hComments hSuccess hCore (by decide)
  exact ⟨hComments, hSuccess, hCore, hNames, by decide, hText, ⟨env, hRun⟩,
    hRead.trans (if_pos hDebug)⟩

end Braceless

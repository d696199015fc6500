import Braceless.Proofs.Target.Outline
import Braceless.Proofs.Words

/-!
# The block structure of a program survives in its indentation

A program has its blocks in braces, and the output has them in indentation only.  Each
statement becomes one line, and each conditional and loop a header with its block one level
deeper; nothing in a line can break it, as only comments hold line feeds.  So the page, read
by indentation alone, has the outline of the program, at every width and with any errors.

## Main definitions

* `Stmt.outline`, `outlinesOf`: the outline of statements.

## Main results

* `linesOf_lowerAll`: lowered statements are written as their outlines.
* `Stmt.proper_outline`: the outline of a statement with worded mentions can be written.
-/

namespace Braceless

open Target (Outline Branches IsLine)

/-! ## Outlines of statements -/

/-- The header of a counting loop. -/
def forHeader (init : ForInit) (condition : Expr) (update : Option Assignment) : String :=
  "for " ++ Target.safeName init.name ++ " in range(" ++
    Target.rangeArguments init.lowerValue (rangeStop condition)
      (update.bind fun a => rangeStep a.value) ++ "):"

mutual

/-- The outline of a statement. -/
def Stmt.outline : Stmt → Outline
  | .declaration d => .line (Target.safeName d.name ++ " = " ++ d.lowerValue.text)
  | .assignment a => .line (Target.safeName a.name ++ " = " ++ a.value.lower.text)
  | .ifElse ⟨condition, thenBody, orElse, _⟩ =>
    .choice ("if " ++ condition.lower.text ++ ":") (outlinesOf thenBody) orElse.branches
  | .forLoop init condition update body _ =>
    .loop (forHeader init condition update) (outlinesOf body)
  | .whileLoop condition body _ =>
    .loop ("while " ++ condition.lower.text ++ ":") (outlinesOf body)
  | .print argument newline _ => .line (Target.printCall (argument.map Expr.lower) newline)
  | .invalid p => .line ("# " ++ ("untranslated statement: " ++ p.text))

/-- The further branches of a conditional in its outline. -/
def Else.branches : Else → Branches
  | .none => .none
  | .elseIf ⟨condition, thenBody, orElse, _⟩ =>
    .elif ("elif " ++ condition.lower.text ++ ":") (outlinesOf thenBody) orElse.branches
  | .block body => .otherwise (outlinesOf body)

/-- The outlines of a run of statements. -/
def outlinesOf : List Stmt → List Outline
  | [] => []
  | s :: ss => s.outline :: outlinesOf ss

end

/-! ## Lines of statements -/

theorem Target.Stmt.lines_ne_nil (s : Target.Stmt) (level : Nat) : s.lines level ≠ [] := by
  cases s <;> nofun

/-- A block without statements is written as `pass`, as it is in an outline. -/
theorem linesOf_orPass (ss : List Target.Stmt) (level : Nat) :
    Target.linesOf level (orPass ss) = Target.orPassLine level (Target.linesOf level ss) := by
  cases ss with
  | nil => rfl
  | cons s ss =>
      have hLines : Target.linesOf level (s :: ss) ≠ [] := by
        simp [Target.linesOf, s.lines_ne_nil level]
      obtain ⟨l, ls, hCons⟩ := List.exists_cons_of_ne_nil hLines
      show Target.linesOf level (s :: ss) = _
      rw [hCons]
      rfl

mutual

/-- A lowered statement is written as its outline. -/
theorem Stmt.lines_lower (s : Stmt) (level : Nat) :
    s.lower.lines level = s.outline.lines level := by
  cases s with
  | declaration d => rfl
  | assignment a => rfl
  | ifElse i =>
      obtain ⟨condition, thenBody, orElse, pos⟩ := i
      have hBody := linesOf_lowerAll thenBody (level + 1)
      have hElse := orElse.lines_lower level
      simp only [Stmt.lower, Target.Stmt.lines, Stmt.outline, Outline.lines, linesOf_orPass,
        hBody, hElse, List.cons_append]
  | forLoop init condition update body pos =>
      have hBody := linesOf_lowerAll body (level + 1)
      simp only [Stmt.lower, Target.Stmt.lines, Stmt.outline, Outline.lines, linesOf_orPass,
        hBody, forHeader]
  | whileLoop condition body pos =>
      have hBody := linesOf_lowerAll body (level + 1)
      simp only [Stmt.lower, Target.Stmt.lines, Stmt.outline, Outline.lines, linesOf_orPass,
        hBody]
  | print argument newline pos => rfl
  | invalid p => rfl

theorem Else.lines_lower (e : Else) (level : Nat) :
    e.lower.lines level = e.branches.lines level := by
  cases e with
  | none => rfl
  | elseIf i =>
      obtain ⟨condition, thenBody, orElse, pos⟩ := i
      have hBody := linesOf_lowerAll thenBody (level + 1)
      have hElse := orElse.lines_lower level
      simp only [Else.lower, Target.Else.lines, Else.branches, Branches.lines, linesOf_orPass,
        hBody, hElse, List.cons_append]
  | block body =>
      have hBody := linesOf_lowerAll body (level + 1)
      simp only [Else.lower, Target.Else.lines, Else.branches, Branches.lines, linesOf_orPass,
        hBody]

/-- Lowered statements are written as their outlines. -/
theorem linesOf_lowerAll (ss : List Stmt) (level : Nat) :
    Target.linesOf level (lowerAll ss) = Target.outlineLines level (outlinesOf ss) := by
  cases ss with
  | nil => rfl
  | cons s ss =>
      rw [lowerAll, outlinesOf, Target.linesOf, Target.outlineLines, s.lines_lower,
        linesOf_lowerAll ss]

end

theorem Program.linesOf_lower (p : Program) :
    Target.linesOf 0 p.lower = Target.blockLines 0 (outlinesOf p.body) := by
  rw [Program.lower, linesOf_orPass, linesOf_lowerAll, Target.blockLines]

/-! ## Texts of statements -/

/-- The blank, the brackets and the characters of operators. -/
def expressionSymbols : List Char :=
  [' ', '(', ')', '=', '!', '<', '>', '+', '-', '*', '/', '%']

/-- A character that no name, operator or bracket has: only a literal can bring it into the
text of an expression. -/
structure Foreign (c : Char) : Prop where
  notWord : isWordPart c = false
  notSymbol : c ∉ expressionSymbols

theorem foreign_lineFeed : Foreign '\n' :=
  ⟨rfl, by decide⟩

theorem Foreign.ne {c d : Char} (h : Foreign c)
    (hd : d ∈ expressionSymbols) : c ≠ d := by
  rintro rfl
  exact h.notSymbol hd

theorem Foreign.notMem_word {c : Char} (h : Foreign c) {cs : List Char}
    (hcs : cs.all isWordPart = true) : c ∉ cs := by
  intro hMem
  exact absurd (List.all_eq_true.mp hcs c hMem) (Bool.eq_false_iff.mp h.notWord)

theorem Foreign.notMem_name {c : Char} (h : Foreign c) {cs : List Char}
    (hcs : Target.IsIdentifier cs) : c ∉ cs :=
  h.notMem_word (List.all_eq_true.mpr (Target.isWordPart_of_isIdentifier hcs))

theorem Foreign.notMem_spelling {c : Char} (h : Foreign c) (op : BinaryOp) :
    c ∉ op.spelling.toList := by
  have hAll : op.spelling.toList.all (fun d => isWordPart d ||
      expressionSymbols.contains d) = true := by
    cases op <;> rfl
  intro hMem
  rcases Bool.or_eq_true_iff.mp (List.all_eq_true.mp hAll c hMem) with hWord | hSymbol
  · exact absurd hWord (Bool.eq_false_iff.mp h.notWord)
  · exact h.notSymbol (List.contains_iff_mem.mp hSymbol)

theorem Foreign.notMem_bracketsIf {c : Char} (h : Foreign c) {e : Target.Expr}
    (he : c ∉ e.text.toList) (wrap : Bool) : c ∉ (e.bracketsIf wrap).text.toList := by
  have hOpen : c ≠ '(' := h.ne (by decide)
  have hClose : c ≠ ')' := h.ne (by decide)
  cases wrap with
  | false => exact he
  | true => simp [Target.Expr.bracketsIf, Target.Expr.text, he, hOpen, hClose]

/-- A foreign character stands in the text of an expression only if a literal holds it. -/
theorem Foreign.notMem_lower {c : Char} (hc : Foreign c) {e : Expr}
    (hWorded : ∀ m ∈ e.mentions, m.Worded)
    (hLiterals : ∀ l, .literal l ∈ e.mentions → c ∉ l.lower.text.toList) :
    c ∉ e.lower.text.toList := by
  have hBlank : c ≠ ' ' := hc.ne (by decide)
  induction e with
  | binary op left right ihLeft ihRight =>
      obtain ⟨hLeft, hRight⟩ := List.forall_mem_append.mp hWorded
      have hLeft' := ihLeft hLeft fun l hl => hLiterals l (List.mem_append_left _ hl)
      have hRight' := ihRight hRight fun l hl => hLiterals l (List.mem_append_right _ hl)
      simp [Expr.lower, Target.Expr.text, hc.notMem_bracketsIf hLeft',
        hc.notMem_bracketsIf hRight', hc.notMem_spelling, hBlank]
  | unary op operand ih =>
      have hOperand := hc.notMem_bracketsIf (ih hWorded hLiterals) operand.isBinary
      cases op with
      | not =>
          have hNot : c ∉ "not".toList := hc.notMem_word rfl
          have hChars : (Expr.unary .not operand).lower.text.toList = "not".toList ++
              ' ' :: (operand.lower.bracketsIf operand.isBinary).text.toList :=
            String.toList_append
          simp only [hChars, List.mem_append, List.mem_cons, hNot, hBlank, hOperand, or_self,
            not_false_eq_true]
      | neg =>
          have hMinus : c ≠ '-' := hc.ne (by decide)
          simp [Expr.lower, Target.Expr.text, hOperand, hMinus]
  | group inner ih => exact hc.notMem_bracketsIf (ih hWorded hLiterals) true
  | literal l => exact hLiterals l List.mem_cons_self
  | identifier name pos =>
      have hName : Target.IsIdentifier name.toList := hWorded (.used name pos) List.mem_cons_self
      exact hc.notMem_name hName.safeName
  | invalid p =>
      show c ∉ "None".toList
      exact hc.notMem_word rfl

theorem Literal.oneLine_lower {l : Literal} (h : '\n' ∉ l.value.toList) :
    '\n' ∉ l.lower.text.toList := by
  obtain ⟨kind, value⟩ := l
  cases kind with
  | int => exact h
  | double => exact h
  | char => simpa [Literal.lower, Target.Expr.text] using h
  | str => simpa [Literal.lower, Target.Expr.text] using h
  | boolean =>
      show '\n' ∉ (if value == "true" then "True" else "False").toList
      split <;> decide

/-- The text of an expression stands on one line if its words do. -/
theorem Expr.oneLine_lower {e : Expr} (h : ∀ m ∈ e.mentions, m.Worded) :
    '\n' ∉ e.lower.text.toList :=
  foreign_lineFeed.notMem_lower h fun l hl => l.oneLine_lower (h (.literal l) hl).1

theorem DataType.oneLine_defaultValue (t : DataType) : '\n' ∉ t.defaultValue.text.toList := by
  cases t <;> decide

theorem Declaration.oneLine_lowerValue {d : Declaration} (h : ∀ m ∈ d.mentions, m.Worded) :
    '\n' ∉ d.lowerValue.text.toList := by
  obtain ⟨dataType, name, value, pos⟩ := d
  cases value with
  | none => exact dataType.oneLine_defaultValue
  | some value => exact Expr.oneLine_lower (List.forall_mem_cons.mp h).2

theorem ForInit.oneLine_lowerValue {init : ForInit} (h : ∀ m ∈ init.mentions, m.Worded) :
    '\n' ∉ init.lowerValue.text.toList := by
  cases init with
  | declaration d => exact d.oneLine_lowerValue h
  | assignment a => exact Expr.oneLine_lower (List.forall_mem_cons.mp h).2

theorem ForInit.isIdentifier_name {init : ForInit} (h : ∀ m ∈ init.mentions, m.Worded) :
    Target.IsIdentifier init.name.toList := by
  cases init with
  | declaration d => exact (List.forall_mem_cons.mp h).1
  | assignment a => exact (List.forall_mem_cons.mp h).1

theorem oneLine_rangeStop {e : Expr} (h : ∀ m ∈ e.mentions, m.Worded) :
    '\n' ∉ (rangeStop e).text.toList := by
  unfold rangeStop
  split
  · exact Expr.oneLine_lower (List.forall_mem_append.mp h).2
  · exact Expr.oneLine_lower (List.forall_mem_append.mp h).2
  · simp [Target.Expr.text, foreign_lineFeed.notMem_spelling,
      Expr.oneLine_lower (List.forall_mem_append.mp h).2]
  · simp [Target.Expr.text, foreign_lineFeed.notMem_spelling,
      Expr.oneLine_lower (List.forall_mem_append.mp h).2]
  · simp [Target.Expr.text]

theorem oneLine_rangeStep {e : Expr} {step : Target.Expr} (h : ∀ m ∈ e.mentions, m.Worded)
    (hStep : rangeStep e = some step) : '\n' ∉ step.text.toList := by
  unfold rangeStep at hStep
  split at hStep
  · cases hStep
    have hAmount := Expr.oneLine_lower (List.forall_mem_append.mp h).2
    simp [Target.Expr.text, foreign_lineFeed.notMem_bracketsIf hAmount]
  · split at hStep
    · cases hStep
    · cases hStep
      exact Expr.oneLine_lower (List.forall_mem_append.mp h).2
  · cases hStep

theorem oneLine_rangeArguments {first stop : Target.Expr} {step : Option Target.Expr}
    (hFirst : '\n' ∉ first.text.toList) (hStop : '\n' ∉ stop.text.toList)
    (hStep : ∀ e ∈ step, '\n' ∉ e.text.toList) :
    '\n' ∉ (Target.rangeArguments first stop step).toList := by
  cases step with
  | none => simp [Target.rangeArguments, hFirst, hStop]
  | some step => simp [Target.rangeArguments, hFirst, hStop, hStep step rfl]

theorem oneLine_printCall {argument : Option Target.Expr}
    (h : ∀ e ∈ argument, '\n' ∉ e.text.toList) (newline : Bool) :
    ∃ rest, (Target.printCall argument newline).toList = "print".toList ++ '(' :: rest ∧
      '\n' ∉ rest := by
  have hText : '\n' ∉ ((argument.map Target.Expr.text).getD "").toList := by
    cases argument with
    | none => simp
    | some e => exact h e rfl
  unfold Target.printCall
  dsimp only
  split
  · exact ⟨((argument.map Target.Expr.text).getD "").toList ++ [')'], by simp, by simpa using hText⟩
  · split
    · exact ⟨"end=\"\")".toList, by decide, by decide⟩
    · exact ⟨((argument.map Target.Expr.text).getD "").toList ++ ", end=\"\")".toList, by simp,
        by simpa using hText⟩

/-! ## Headings of statements -/

namespace Target

/-- A word without a fixed meaning starts no header. -/
theorem wordHeading_of_notMem_fixedWords {word : String} (h : word ∉ fixedWords) :
    wordHeading word = .plain := by
  unfold wordHeading
  split
  all_goals first
    | rfl
    | exact absurd (by decide) h

/-- A line that starts with a word and holds more than words is no `pass`. -/
theorem proper_line_of_word {text : String} (word : List Char) {c : Char} {rest : List Char}
    (hText : text.toList = word ++ c :: rest) (hne : word ≠ [])
    (hWord : ∀ d ∈ word, isWordPart d = true) (hc : isWordPart c = false)
    (hHeading : wordHeading (String.ofList word) = .plain) (hLine : '\n' ∉ text.toList) :
    (Outline.line text).Proper := by
  have hIsLine := isLine_of_word word hText hne hWord hc hLine
  rw [hHeading] at hIsLine
  refine ⟨hIsLine, ?_⟩
  rintro rfl
  have hMem : c ∈ "pass".toList := by
    rw [hText]
    exact List.mem_append_right word List.mem_cons_self
  have hAll : ∀ d ∈ "pass".toList, isWordPart d = true := List.all_eq_true.mp rfl
  rw [hAll c hMem] at hc
  exact Bool.noConfusion hc

/-- The line of an assignment. -/
theorem proper_assign {name text : String} (hName : IsIdentifier name.toList)
    (hText : '\n' ∉ text.toList) : (Outline.line (safeName name ++ " = " ++ text)).Proper := by
  have hSafe := hName.safeName
  have hne : (safeName name).toList ≠ [] := by
    obtain ⟨d, ds, hChars, _⟩ := hSafe
    rw [hChars]
    nofun
  have hHeading := wordHeading_of_notMem_fixedWords (safeName_notMem_fixedWords name)
  have hChars : (safeName name ++ " = " ++ text).toList =
      (safeName name).toList ++ ' ' :: ('=' :: ' ' :: text.toList) := by
    rw [String.toList_append, String.toList_append, List.append_assoc]
    rfl
  refine proper_line_of_word (safeName name).toList hChars hne
    (isWordPart_of_isIdentifier hSafe) rfl ?_ ?_
  · rwa [String.ofList_toList]
  · simp [foreign_lineFeed.notMem_name hSafe, hText]

theorem proper_print {argument : Option Expr} (h : ∀ e ∈ argument, '\n' ∉ e.text.toList)
    (newline : Bool) : (Outline.line (printCall argument newline)).Proper := by
  obtain ⟨rest, hChars, hRest⟩ := oneLine_printCall h newline
  refine proper_line_of_word "print".toList hChars nofun (List.all_eq_true.mp rfl) rfl
    (by decide) ?_
  rw [hChars]
  simpa using hRest

theorem proper_comment {text : String} (h : '\n' ∉ text.toList) :
    (Outline.line ("# " ++ text)).Proper := by
  have hChars : ("# " ++ text).toList = '#' :: ' ' :: text.toList := by
    rw [String.toList_append]
    rfl
  refine ⟨⟨⟨⟨'#', by rw [hChars]; rfl, by decide⟩, by simpa [hChars] using h⟩, ?_⟩, ?_⟩
  · rw [heading, firstWord, hChars]
    rfl
  · intro hPass
    rw [hPass] at hChars
    exact absurd (List.cons.inj hChars).1 (by decide)

/-- A header starts with a word and a blank. -/
theorem isLine_header {lead text : String} (word : List Char) (hLead : lead.toList = word ++ [' '])
    (hne : word ≠ []) (hWord : ∀ d ∈ word, isWordPart d = true) (h : '\n' ∉ text.toList) :
    IsLine (wordHeading (String.ofList word)) (lead ++ text) := by
  have hLine : '\n' ∉ word := fun hMem => absurd (hWord '\n' hMem) (by decide)
  have hChars : (lead ++ text).toList = word ++ ' ' :: text.toList := by
    rw [String.toList_append, hLead, List.append_assoc]
    rfl
  exact isLine_of_word word hChars hne hWord rfl (by simp [hChars, hLine, h])

/-- A header with a condition, which ends in a colon. -/
theorem isLine_condition {lead text : String} (word : List Char)
    (hLead : lead.toList = word ++ [' ']) (hne : word ≠ []) (hWord : word.all isWordPart = true)
    (h : '\n' ∉ text.toList) :
    IsLine (wordHeading (String.ofList word)) (lead ++ text ++ ":") := by
  rw [String.append_assoc]
  exact isLine_header word hLead hne (List.all_eq_true.mp hWord) (by simpa using h)

theorem isLine_for {name arguments : String} (hName : '\n' ∉ name.toList)
    (hArguments : '\n' ∉ arguments.toList) :
    IsLine .loop ("for " ++ name ++ " in range(" ++ arguments ++ "):") := by
  rw [String.append_assoc, String.append_assoc, String.append_assoc]
  exact isLine_header ['f', 'o', 'r'] rfl nofun (List.all_eq_true.mp rfl)
    (by simp [hName, hArguments])

end Target

theorem isLine_forHeader {init : ForInit} {condition : Expr} {update : Option Assignment}
    (hInit : ∀ m ∈ init.mentions, m.Worded) (hCondition : ∀ m ∈ condition.mentions, m.Worded)
    (hUpdate : ∀ m ∈ mentionsIn Assignment.mentions update, m.Worded) :
    IsLine .loop (forHeader init condition update) := by
  have hStep : ∀ e ∈ update.bind fun a => rangeStep a.value, '\n' ∉ e.text.toList := by
    cases update with
    | none => exact nofun
    | some a =>
        intro e he
        exact oneLine_rangeStep (List.forall_mem_cons.mp hUpdate).2 he
  exact Target.isLine_for (foreign_lineFeed.notMem_name (init.isIdentifier_name hInit).safeName)
    (oneLine_rangeArguments (init.oneLine_lowerValue hInit) (oneLine_rangeStop hCondition) hStep)

mutual

/-- The outline of a statement can be written if its words stand on one line each. -/
theorem Stmt.proper_outline (s : Stmt) (h : ∀ m ∈ s.mentions, m.Worded) :
    s.outline.Proper := by
  cases s with
  | declaration d =>
      exact Target.proper_assign (List.forall_mem_cons.mp h).1 (d.oneLine_lowerValue h)
  | assignment a =>
      exact Target.proper_assign (List.forall_mem_cons.mp h).1
        (Expr.oneLine_lower (List.forall_mem_cons.mp h).2)
  | ifElse i =>
      obtain ⟨condition, thenBody, orElse, pos⟩ := i
      obtain ⟨hCondition, hBranches⟩ := List.forall_mem_append.mp h
      obtain ⟨hBody, hElse⟩ := List.forall_mem_append.mp hBranches
      have hText := Expr.oneLine_lower hCondition
      exact ⟨Target.isLine_condition ['i', 'f'] rfl nofun rfl hText,
        allProper_outlinesOf thenBody hBody, orElse.proper_branches hElse⟩
  | forLoop init condition update body pos =>
      obtain ⟨hInit, hRest⟩ := List.forall_mem_append.mp h
      obtain ⟨hCondition, hRest⟩ := List.forall_mem_append.mp hRest
      obtain ⟨hUpdate, hBody⟩ := List.forall_mem_append.mp hRest
      exact ⟨isLine_forHeader hInit hCondition hUpdate, allProper_outlinesOf body hBody⟩
  | whileLoop condition body pos =>
      obtain ⟨hCondition, hBody⟩ := List.forall_mem_append.mp h
      have hText := Expr.oneLine_lower hCondition
      exact ⟨Target.isLine_condition ['w', 'h', 'i', 'l', 'e'] rfl nofun rfl hText,
        allProper_outlinesOf body hBody⟩
  | print argument newline pos =>
      refine Target.proper_print ?_ newline
      cases argument with
      | none => exact nofun
      | some e =>
          intro lowered hLowered
          obtain rfl := Option.some.inj hLowered
          exact Expr.oneLine_lower h
  | invalid p =>
      have hText : '\n' ∉ p.text.toList := h (.unrecognized p) List.mem_cons_self
      exact Target.proper_comment (by simpa using hText)

theorem Else.proper_branches (e : Else) (h : ∀ m ∈ e.mentions, m.Worded) :
    e.branches.Proper := by
  cases e with
  | none => trivial
  | elseIf i =>
      obtain ⟨condition, thenBody, orElse, pos⟩ := i
      obtain ⟨hCondition, hBranches⟩ := List.forall_mem_append.mp h
      obtain ⟨hBody, hElse⟩ := List.forall_mem_append.mp hBranches
      have hText := Expr.oneLine_lower hCondition
      exact ⟨Target.isLine_condition ['e', 'l', 'i', 'f'] rfl nofun rfl hText,
        allProper_outlinesOf thenBody hBody, orElse.proper_branches hElse⟩
  | block body => exact allProper_outlinesOf body h

theorem allProper_outlinesOf (ss : List Stmt) (h : ∀ m ∈ mentionsOf ss, m.Worded) :
    Target.AllProper (outlinesOf ss) := by
  cases ss with
  | nil => trivial
  | cons s ss =>
      obtain ⟨hFirst, hRest⟩ := List.forall_mem_append.mp h
      exact ⟨s.proper_outline hFirst, allProper_outlinesOf ss hRest⟩

end

/-! ## Pages of programs -/

/-- The text of the statements of a program, without comments or a banner. -/
theorem render_eq_page (p : Program) (width : Nat) :
    p.render [] ⟨width, false⟩ = Target.page width (Target.blockLines 0 (outlinesOf p.body)) := by
  rw [← p.linesOf_lower]
  rfl

/-- **Indentation holds the block structure.**  Whatever errors a text has, the page of its
program has one line for each statement, branch and empty block, indented by its depth, and
the outline of the program can be read back from the page.  Pages of different widths differ
in the blanks at the front of their lines only. -/
theorem readPage_render_parse_lex (source : String) {width : Nat} (hWidth : 1 ≤ width) :
    let program := (parse (lex source).tokens).program
    let text := program.render [] ⟨width, false⟩
    let lines := Target.blockLines 0 (outlinesOf program.body)
    text.toList.splitOn '\n' =
        lines.map (fun l => List.replicate (width * l.level) ' ' ++ l.text.toList) ∧
      (∀ l ∈ lines, (∃ c ∈ l.text.toList.head?, c ≠ ' ') ∧ '\n' ∉ l.text.toList) ∧
      Target.readPage text = some (outlinesOf program.body) ∧
      ∀ other, 1 ≤ other →
        ((program.render [] ⟨other, false⟩).toList.splitOn '\n').map (List.dropWhile (· == ' ')) =
          (text.toList.splitOn '\n').map (List.dropWhile (· == ' ')) := by
  intro program text lines
  have hProper := allProper_outlinesOf program.body (worded_mentions_parse_lex source)
  have hWritable : ∀ l ∈ lines, Target.Writable l.text :=
    Target.writable_of_mem_blockLines hProper 0
  have hne : lines ≠ [] := Target.blockLines_ne_nil 0 _
  have hSplit : ∀ w, (program.render [] ⟨w, false⟩).toList.splitOn '\n' =
      lines.map fun l => (l.render w).toList := by
    intro w
    rw [render_eq_page]
    exact Target.splitOn_page hne fun l hl => (hWritable l hl).oneLine
  have hStripped : ∀ w, ((program.render [] ⟨w, false⟩).toList.splitOn '\n').map
      (List.dropWhile (· == ' ')) = lines.map fun l => l.text.toList := by
    intro w
    rw [hSplit, List.map_map]
    exact List.map_congr_left fun l hl => Target.dropWhile_render w (hWritable l hl)
  refine ⟨?_, fun l hl => ⟨(hWritable l hl).starts, (hWritable l hl).oneLine⟩, ?_, ?_⟩
  · rw [hSplit]
    exact List.map_congr_left fun l _ => Target.toList_render width l
  · show Target.readLines (Target.pageLines (program.render [] ⟨width, false⟩)) = _
    rw [render_eq_page, Target.pageLines_page hne fun l hl => (hWritable l hl).oneLine,
      Target.map_ofChars_render width hWritable]
    exact Target.readLines_blockLines hWidth hProper
  · intro other _
    exact (hStripped other).trans (hStripped width).symm

/-- A text with nested branches, empty blocks and statements that cannot be read. -/
def unreadableSource : String :=
  "int n = 3;\nif (n > 1) \x7b while (n > 2) \x7b \x7d else ; \x7d\n" ++
  "else if (n == 1) \x7b + \x7d else \x7b \x7d\nfor (int pass = 0; pass <= n; pass += 2) \x7b n++; \x7d"

/-- The page of `unreadableSource` at width 2. -/
def unreadablePage : String :=
  "n = 3\nif n > 1:\n  while n > 2:\n    pass\n  # untranslated statement: else\n" ++
  "  # untranslated statement: ;\nelif n == 1:\n  # untranslated statement: +\nelse:\n" ++
  "  pass\nfor pass_ in range(0, n + 1, 2):\n  n = n + 1"

theorem readPage_render_unreadableSource :
    (parse (lex unreadableSource).tokens).errors ≠ [] ∧ 1 ≤ 2 ∧
      (parse (lex unreadableSource).tokens).program.render [] ⟨2, false⟩ = unreadablePage ∧
      Target.readPage unreadablePage =
        some (outlinesOf (parse (lex unreadableSource).tokens).program.body) := by
  have hFacts : (parse (lex unreadableSource).tokens).errors ≠ [] ∧
      (parse (lex unreadableSource).tokens).program.render [] ⟨2, false⟩ = unreadablePage := by
    decide +kernel
  have hRead := (readPage_render_parse_lex unreadableSource (show 1 ≤ 2 by decide)).2.2.1
  rw [hFacts.2] at hRead
  exact ⟨hFacts.1, by decide, hFacts.2, hRead⟩

end Braceless

import Braceless.Analysis
import Braceless.Proofs.BlockStructure
import Braceless.Proofs.Literals
import Braceless.Proofs.Scope
import Braceless.Proofs.Target.Identifiers
import Mathlib.Data.Set.Function

/-!
# The names of variables in the output

A variable keeps its name in the output, unless the name is reserved there; then it gets an
underscore.  That is decided name by name, and the table of variables is not asked.  So no
variable of the output has a reserved name, and the identifiers on the page are those of the
program, one by one and in order, but for the parts of a loop header that its range makes
superfluous.  Two variables share a name exactly if one is reserved and the other is that word
with an underscore.

## Main definitions

* `Target.Merges`: two names that become one.
* `namesIn`: the names among mentions.
* `Stmt.kept`, `keptOf`: the mentions that the output keeps.

## Main results

* `Target.safeName_eq_iff`: which names become equal.
* `mentioningLines_lowerAll`: the identifiers in the lines of lowered statements.
-/

namespace Braceless

/-! ## Renaming -/

namespace Target

/-- Two names that become one: a word with a fixed meaning, and that word with an
underscore. -/
def Merges (x y : String) : Prop :=
  x ∈ fixedWords ∧ y = x ++ "_"

theorem Merges.safeName_eq {x y : String} (h : Merges x y) : safeName x = safeName y := by
  obtain ⟨hx, rfl⟩ := h
  have hy := safeName_notMem_fixedWords x
  rw [safeName_of_mem hx] at hy ⊢
  rw [safeName_of_notMem hy]

/-- Different names become equal only if they merge. -/
theorem safeName_eq_iff {x y : String} :
    safeName x = safeName y ↔ x = y ∨ Merges x y ∨ Merges y x := by
  constructor
  · intro hSame
    by_cases hx : x ∈ fixedWords
    · by_cases hy : y ∈ fixedWords
      · rw [safeName_of_mem hx, safeName_of_mem hy] at hSame
        exact .inl ((String.append_left_inj "_").mp hSame)
      · rw [safeName_of_mem hx, safeName_of_notMem hy] at hSame
        exact .inr (.inl ⟨hx, hSame.symm⟩)
    · by_cases hy : y ∈ fixedWords
      · rw [safeName_of_notMem hx, safeName_of_mem hy] at hSame
        exact .inr (.inr ⟨hy, hSame⟩)
      · rw [safeName_of_notMem hx, safeName_of_notMem hy] at hSame
        exact .inl hSame
  · rintro (rfl | hMerges | hMerges)
    · rfl
    · exact hMerges.safeName_eq
    · exact hMerges.safeName_eq.symm

/-- Names can be told from their new names if no two of them merge. -/
theorem exists_leftInverse_safeName {names : List String}
    (h : ∀ x ∈ names, ∀ y ∈ names, ¬ Merges x y) :
    ∃ original : String → String, ∀ x ∈ names, original (safeName x) = x := by
  have hInjective : Set.InjOn safeName {x | x ∈ names} := by
    intro x hx y hy hSame
    rcases safeName_eq_iff.mp hSame with hEq | hMerges | hMerges
    · exact hEq
    · exact absurd hMerges (h x hx y hy)
    · exact absurd hMerges (h y hy x hx)
  exact ⟨Function.invFunOn safeName {x | x ∈ names}, fun x hx => hInjective.leftInvOn_invFunOn hx⟩

end Target

/-! ## Mentions that the output keeps -/

/-- The names among mentions. -/
def namesIn (ms : List Mention) : List String :=
  ms.filterMap Mention.name?

/-- The names among mentions as the output has them. -/
def safeNamesIn (ms : List Mention) : List String :=
  (namesIn ms).map Target.safeName

@[simp] theorem safeNamesIn_append (ms ms' : List Mention) :
    safeNamesIn (ms ++ ms') = safeNamesIn ms ++ safeNamesIn ms' := by
  simp [safeNamesIn, namesIn]

/-- What the end of a range keeps of a loop condition. -/
def boundMentions : Expr → List Mention
  | .binary .lt _ bound => bound.mentions
  | .binary .gt _ bound => bound.mentions
  | .binary .ltEq _ bound => bound.mentions
  | .binary .gtEq _ bound => bound.mentions
  | _ => []

/-- What the step of a range keeps of the value of a loop update. -/
def amountMentions : Expr → List Mention
  | .binary .sub _ amount => amount.mentions
  | .binary .add _ amount => amount.mentions
  | _ => []

mutual

/-- What the output keeps of the mentions of a statement. -/
def Stmt.kept : Stmt → List Mention
  | .declaration d => d.mentions
  | .assignment a => a.mentions
  | .ifElse i => i.kept
  | .forLoop init condition update body _ =>
    init.mentions ++ (boundMentions condition ++
      (mentionsIn (fun a => amountMentions a.value) update ++ keptOf body))
  | .whileLoop condition body _ => condition.mentions ++ keptOf body
  | .print argument _ _ => mentionsIn Expr.mentions argument
  | .invalid _ => []

/-- What the output keeps of the mentions of a conditional. -/
def IfStatement.kept : IfStatement → List Mention
  | ⟨condition, thenBody, orElse, _⟩ => condition.mentions ++ (keptOf thenBody ++ orElse.kept)

/-- What the output keeps of the mentions of further branches. -/
def Else.kept : Else → List Mention
  | .none => []
  | .elseIf i => i.kept
  | .block body => keptOf body

/-- What the output keeps of the mentions of a run of statements. -/
def keptOf : List Stmt → List Mention
  | [] => []
  | s :: ss => s.kept ++ keptOf ss

end

theorem boundMentions_sublist (e : Expr) : (boundMentions e).Sublist e.mentions := by
  unfold boundMentions
  split
  all_goals first
    | exact List.sublist_append_right _ _
    | exact List.nil_sublist _

theorem amountMentions_sublist (e : Expr) : (amountMentions e).Sublist e.mentions := by
  unfold amountMentions
  split
  all_goals first
    | exact List.sublist_append_right _ _
    | exact List.nil_sublist _

mutual

theorem Stmt.kept_sublist (s : Stmt) : s.kept.Sublist s.mentions := by
  cases s with
  | declaration d => exact List.Sublist.refl _
  | assignment a => exact List.Sublist.refl _
  | ifElse i => exact i.kept_sublist
  | forLoop init condition update body pos =>
      have hUpdate : (mentionsIn (fun a => amountMentions a.value) update).Sublist
          (mentionsIn Assignment.mentions update) := by
        cases update with
        | none => exact List.Sublist.refl _
        | some a => exact (amountMentions_sublist a.value).cons _
      exact (List.Sublist.refl _).append
        ((boundMentions_sublist condition).append (hUpdate.append (keptOf_sublist body)))
  | whileLoop condition body pos => exact (List.Sublist.refl _).append (keptOf_sublist body)
  | print argument newline pos => exact List.Sublist.refl _
  | invalid p => exact List.nil_sublist _

theorem IfStatement.kept_sublist (i : IfStatement) : i.kept.Sublist i.mentions := by
  obtain ⟨condition, thenBody, orElse, pos⟩ := i
  exact (List.Sublist.refl _).append ((keptOf_sublist thenBody).append orElse.kept_sublist)

theorem Else.kept_sublist (e : Else) : e.kept.Sublist e.mentions := by
  cases e with
  | none => exact List.Sublist.refl _
  | elseIf i => exact i.kept_sublist
  | block body => exact keptOf_sublist body

/-- The output keeps mentions in their order. -/
theorem keptOf_sublist (ss : List Stmt) : (keptOf ss).Sublist (mentionsOf ss) := by
  cases ss with
  | nil => exact List.Sublist.refl _
  | cons s ss => exact s.kept_sublist.append (keptOf_sublist ss)

end

/-! ## Identifiers of lowered trees -/

open Target (Mentioning MentioningLine MentioningLines)

theorem mentioning_safeName {name : String} (h : Target.IsIdentifier name.toList) :
    Mentioning (Target.safeName name) [Target.safeName name] :=
  Target.mentioning_name h.safeName (Target.safeName_notMem_fixedWords name)

theorem Literal.mentioning_lower {l : Literal} (h : l.Valid) : Mentioning l.lower.text [] := by
  have hSpelled := l.spelled_lower h
  obtain ⟨kind, value⟩ := l
  cases kind with
  | int => exact Target.mentioning_number hSpelled
  | double => exact Target.mentioning_number hSpelled
  | char => exact Target.mentioning_quoted hSpelled.1 hSpelled.2
  | str => exact Target.mentioning_quoted hSpelled.1 hSpelled.2
  | boolean =>
      show Mentioning (if value == "true" then "True" else "False") []
      split
      · exact Target.mentioning_fixed "True" (by decide)
      · exact Target.mentioning_fixed "False" (by decide)

/-- The identifiers in the text of an expression are the names that it mentions. -/
theorem Expr.mentioning_lower {e : Expr} (h : ∀ m ∈ e.mentions, m.Spelled) :
    Mentioning e.lower.text (safeNamesIn e.mentions) := by
  induction e with
  | binary op left right ihLeft ihRight =>
      obtain ⟨hLeft, hRight⟩ := List.forall_mem_append.mp h
      rw [Expr.mentions, safeNamesIn_append]
      exact Target.mentioning_binary op ((ihLeft hLeft).bracketsIf _)
        ((ihRight hRight).bracketsIf _)
  | unary op operand ih =>
      cases op with
      | not => exact Target.mentioning_not ((ih h).bracketsIf _)
      | neg => exact Target.mentioning_neg ((ih h).bracketsIf _)
  | group inner ih => exact Target.mentioning_brackets (ih h)
  | literal l => exact l.mentioning_lower (h (.literal l) List.mem_cons_self)
  | identifier name pos => exact mentioning_safeName (h (.used name pos) List.mem_cons_self)
  | invalid p => exact Target.mentioning_fixed "None" (by decide)

theorem DataType.mentioning_defaultValue (t : DataType) :
    Mentioning t.defaultValue.text [] := by
  cases t with
  | int => exact Target.mentioning_number rfl
  | double => exact Target.mentioning_number rfl
  | char => exact Target.mentioning_quoted (.inr rfl) (.plain (by decide) (by decide) (by decide) .nil)
  | string => exact Target.mentioning_quoted (.inl rfl) .nil
  | boolean => exact Target.mentioning_fixed "False" (by decide)

theorem Declaration.mentioning_lowerValue {d : Declaration}
    (h : ∀ m ∈ mentionsIn Expr.mentions d.value, m.Spelled) :
    Mentioning d.lowerValue.text (safeNamesIn (mentionsIn Expr.mentions d.value)) := by
  obtain ⟨dataType, name, value, pos⟩ := d
  cases value with
  | none => exact dataType.mentioning_defaultValue
  | some e => exact Expr.mentioning_lower h

theorem mentioning_rangeStop {e : Expr} (h : ∀ m ∈ e.mentions, m.Spelled) :
    Mentioning (rangeStop e).text (safeNamesIn (boundMentions e)) := by
  have hZero : Mentioning (Target.Expr.number "0").text [] := Target.mentioning_number rfl
  have hOne : Mentioning (Target.Expr.number "1").text [] := Target.mentioning_number rfl
  cases e with
  | binary op left bound =>
      have hBound := Expr.mentioning_lower (List.forall_mem_append.mp h).2
      cases op with
      | lt => exact hBound
      | gt => exact hBound
      | ltEq =>
          have hSum := Target.mentioning_binary .add hBound hOne
          rwa [List.append_nil] at hSum
      | gtEq =>
          have hDifference := Target.mentioning_binary .sub hBound hOne
          rwa [List.append_nil] at hDifference
      | _ => exact hZero
  | _ => exact hZero

theorem mentioning_rangeStep {e : Expr} (h : ∀ m ∈ e.mentions, m.Spelled) :
    Mentioning (((rangeStep e).map Target.Expr.text).getD "")
      (safeNamesIn (amountMentions e)) := by
  cases e with
  | binary op left amount =>
      have hAmount := Expr.mentioning_lower (List.forall_mem_append.mp h).2
      cases op with
      | sub => exact Target.mentioning_neg (hAmount.bracketsIf _)
      | add =>
          by_cases hOne : amount.lower.text = "1"
          · -- A step that is written as one has no names, so leaving it out loses none.
            have hNames : safeNamesIn amount.mentions = [] := by
              rw [hOne] at hAmount
              exact hAmount.unique (Target.mentioning_number rfl)
            simp only [rangeStep, amountMentions, if_pos hOne, hNames]
            exact Target.mentioning_empty
          · simp only [rangeStep, amountMentions, if_neg hOne]
            exact hAmount
      | _ => exact Target.mentioning_empty
  | _ => exact Target.mentioning_empty

theorem ForInit.mentioning_lowerValue {init : ForInit} (h : ∀ m ∈ init.mentions, m.Spelled) :
    ∃ names, safeNamesIn init.mentions = Target.safeName init.name :: names ∧
      Mentioning init.lowerValue.text names := by
  cases init with
  | declaration d =>
      exact ⟨_, rfl, d.mentioning_lowerValue (List.forall_mem_cons.mp h).2⟩
  | assignment a => exact ⟨_, rfl, Expr.mentioning_lower (List.forall_mem_cons.mp h).2⟩

theorem ForInit.isIdentifier_of_spelled {init : ForInit} (h : ∀ m ∈ init.mentions, m.Spelled) :
    Target.IsIdentifier init.name.toList := by
  cases init with
  | declaration d => exact (List.forall_mem_cons.mp h).1
  | assignment a => exact (List.forall_mem_cons.mp h).1

/-- The header of a counting loop. -/
theorem mentioningLine_forHeader {init : ForInit} {condition : Expr} {update : Option Assignment}
    (hInit : ∀ m ∈ init.mentions, m.Spelled) (hCondition : ∀ m ∈ condition.mentions, m.Spelled)
    (hUpdate : ∀ m ∈ mentionsIn Assignment.mentions update, m.Spelled) :
    MentioningLine (forHeader init condition update)
      (safeNamesIn init.mentions ++ (safeNamesIn (boundMentions condition) ++
        safeNamesIn (mentionsIn (fun a => amountMentions a.value) update))) := by
  obtain ⟨names, hNames, hFirst⟩ := init.mentioning_lowerValue hInit
  have hName := mentioning_safeName (init.isIdentifier_of_spelled hInit)
  have hStep : Mentioning (((update.bind fun a => rangeStep a.value).map Target.Expr.text).getD "")
      (safeNamesIn (mentionsIn (fun a => amountMentions a.value) update)) := by
    cases update with
    | none => exact Target.mentioning_empty
    | some a => exact mentioning_rangeStep (List.forall_mem_cons.mp hUpdate).2
  have hArguments :=
    Target.mentioning_rangeArguments hFirst (mentioning_rangeStop hCondition) hStep
  have hHeader := Target.mentioningLine_for hName hArguments
  rw [hNames]
  exact hHeader

/-- A block that has no statements mentions nothing. -/
theorem mentioningLines_orPass {ss : List Target.Stmt} {level : Nat} {names : List String}
    (h : MentioningLines (Target.linesOf level ss) names) :
    MentioningLines (Target.linesOf level (orPass ss)) names := by
  cases ss with
  | nil =>
      have hNames : [] = names := by
        simpa [Target.linesOf, Target.writtenLines, Target.identifiers_nil] using
          h 0 [] Target.closesLine_nil
      rw [← hNames]
      exact Target.mentioningLines_singleton (Target.mentioning_fixed "pass" (by decide)).line
  | cons s ss => exact h

mutual

/-- The identifiers in the lines of a statement are the names that the output keeps. -/
theorem Stmt.mentioningLines_lower (s : Stmt) (level : Nat) (h : ∀ m ∈ s.mentions, m.Spelled) :
    MentioningLines (s.lower.lines level) (safeNamesIn s.kept) := by
  cases s with
  | declaration d =>
      obtain ⟨hName, hValue⟩ := List.forall_mem_cons.mp h
      exact Target.mentioningLines_singleton (Target.mentioningLine_assign
        (mentioning_safeName hName) (d.mentioning_lowerValue hValue))
  | assignment a =>
      obtain ⟨hName, hValue⟩ := List.forall_mem_cons.mp h
      exact Target.mentioningLines_singleton (Target.mentioningLine_assign
        (mentioning_safeName hName) (Expr.mentioning_lower hValue))
  | ifElse i =>
      obtain ⟨condition, thenBody, orElse, pos⟩ := i
      obtain ⟨hCondition, hBranches⟩ := List.forall_mem_append.mp h
      obtain ⟨hBody, hElse⟩ := List.forall_mem_append.mp hBranches
      have hHeader := Target.mentioningLine_condition "if" "if " (by decide) rfl
        (Expr.mentioning_lower hCondition)
      have hBlock := mentioningLines_orPass (mentioningLines_lowerAll thenBody (level + 1) hBody)
      simp only [Stmt.kept, IfStatement.kept, safeNamesIn_append]
      exact .cons hHeader (hBlock.append (orElse.mentioningLines_lower level hElse))
  | forLoop init condition update body pos =>
      obtain ⟨hInit, hRest⟩ := List.forall_mem_append.mp h
      obtain ⟨hCondition, hRest⟩ := List.forall_mem_append.mp hRest
      obtain ⟨hUpdate, hBody⟩ := List.forall_mem_append.mp hRest
      have hBlock := mentioningLines_orPass (mentioningLines_lowerAll body (level + 1) hBody)
      have hNames : safeNamesIn (Stmt.forLoop init condition update body pos).kept =
          safeNamesIn init.mentions ++ (safeNamesIn (boundMentions condition) ++
            safeNamesIn (mentionsIn (fun a => amountMentions a.value) update)) ++
              safeNamesIn (keptOf body) := by
        simp [Stmt.kept]
      rw [hNames]
      exact .cons (mentioningLine_forHeader hInit hCondition hUpdate) hBlock
  | whileLoop condition body pos =>
      obtain ⟨hCondition, hBody⟩ := List.forall_mem_append.mp h
      have hHeader := Target.mentioningLine_condition "while" "while " (by decide) rfl
        (Expr.mentioning_lower hCondition)
      have hBlock := mentioningLines_orPass (mentioningLines_lowerAll body (level + 1) hBody)
      simp only [Stmt.kept, safeNamesIn_append]
      exact .cons hHeader hBlock
  | print argument newline pos =>
      refine Target.mentioningLines_singleton (Target.mentioningLine_print ?_ newline)
      cases argument with
      | none => exact Target.mentioning_empty
      | some e => exact Expr.mentioning_lower h
  | invalid p =>
      have hText : '\n' ∉ p.text.toList := h (.unrecognized p) List.mem_cons_self
      exact Target.mentioningLines_singleton
        (Target.mentioningLine_comment (by simpa using hText))

theorem Else.mentioningLines_lower (e : Else) (level : Nat) (h : ∀ m ∈ e.mentions, m.Spelled) :
    MentioningLines (e.lower.lines level) (safeNamesIn e.kept) := by
  cases e with
  | none => exact Target.mentioningLines_nil
  | elseIf i =>
      obtain ⟨condition, thenBody, orElse, pos⟩ := i
      obtain ⟨hCondition, hBranches⟩ := List.forall_mem_append.mp h
      obtain ⟨hBody, hElse⟩ := List.forall_mem_append.mp hBranches
      have hHeader := Target.mentioningLine_condition "elif" "elif " (by decide) rfl
        (Expr.mentioning_lower hCondition)
      have hBlock := mentioningLines_orPass (mentioningLines_lowerAll thenBody (level + 1) hBody)
      simp only [Else.kept, IfStatement.kept, safeNamesIn_append]
      exact .cons hHeader (hBlock.append (orElse.mentioningLines_lower level hElse))
  | block body =>
      have hBlock := mentioningLines_orPass (mentioningLines_lowerAll body (level + 1) h)
      exact .cons Target.mentioningLine_else hBlock

/-- The identifiers in the lines of lowered statements are the names that the output keeps. -/
theorem mentioningLines_lowerAll (ss : List Stmt) (level : Nat)
    (h : ∀ m ∈ mentionsOf ss, m.Spelled) :
    MentioningLines (Target.linesOf level (lowerAll ss)) (safeNamesIn (keptOf ss)) := by
  cases ss with
  | nil => exact Target.mentioningLines_nil
  | cons s ss =>
      obtain ⟨hFirst, hRest⟩ := List.forall_mem_append.mp h
      rw [lowerAll, Target.linesOf, keptOf, safeNamesIn_append]
      exact (s.mentioningLines_lower level hFirst).append (mentioningLines_lowerAll ss level hRest)

end

/-! ## Programs -/

/-- The code of a program: its page without a banner and comments. -/
def Program.code (p : Program) (width : Nat) : List Char :=
  (Target.page width (Target.linesOf 0 p.lower)).toList

/-- Whatever stands before it, a page ends with its last lines. -/
theorem Target.page_suffix (width : Nat) (ls : List Target.Line) {code : List Target.Line}
    (hne : code ≠ []) :
    (Target.page width code).toList <:+ (Target.page width (ls ++ code)).toList := by
  induction ls with
  | nil => exact List.suffix_refl _
  | cons l ls ih =>
      rw [List.cons_append, Target.toList_page_cons width l (by simp [hne])]
      exact (ih.trans (List.suffix_cons _ _)).trans (List.suffix_append _ _)

theorem Program.code_suffix_render (p : Program) (tokens : List Token) (layout : Layout) :
    p.code layout.indent <:+ (p.render tokens layout).toList := by
  have hne : Target.linesOf 0 p.lower ≠ [] := by
    rw [p.linesOf_lower]
    exact Target.blockLines_ne_nil 0 _
  exact Target.page_suffix layout.indent _ hne

/-- The identifiers in the code of a text without lexical errors. -/
theorem identifiers_code {source : String} (h : (lex source).errors = []) (width : Nat) :
    Target.identifiers ((parse (lex source).tokens).program.code width) =
      safeNamesIn (keptOf (parse (lex source).tokens).program.body) :=
  Target.identifiers_page (mentioningLines_orPass
    (mentioningLines_lowerAll _ 0 (spelled_mentions_parse_lex h))) width

/-- Without errors, the output keeps names of declared variables only. -/
theorem mem_names_of_mem_kept {tokens : List Token} (h : (parse tokens).errors = [])
    {x : String} (hx : x ∈ namesIn (keptOf (parse tokens).program.body)) :
    x ∈ (parse tokens).declarations.names := by
  obtain ⟨m, hm, hName⟩ := List.mem_filterMap.mp hx
  exact within_names_parse h m ((keptOf_sublist _).mem hm) x hName

/-- **Renaming captures nothing, and merges only a word and its own new name.**  In the code of
a text without errors, the identifiers are the new names of the declared variables that the
program mentions, one for each mention that is kept and in their order.  No new name is a
keyword or a function of the target.  Two variables get one name exactly if one is called like
a word of the target and the other like that word with an underscore; if no two are, the
variable of every identifier can be told. -/
theorem identifiers_code_eq_map_safeName (source : String) (layout : Layout)
    (hLexical : (analyze source layout).lexicalErrors = [])
    (hSyntax : (analyze source layout).syntaxErrors = []) :
    let program := (analyze source layout).program
    let names := (analyze source layout).declarations.names
    let code := program.code layout.indent
    let mentioned := namesIn (keptOf program.body)
    code <:+ (analyze source layout).python.toList ∧
      Target.identifiers code = mentioned.map Target.safeName ∧
      (keptOf program.body).Sublist (mentionsOf program.body) ∧
      (∀ x ∈ mentioned, x ∈ names) ∧
      (∀ x ∈ names, Target.safeName x ∉ Target.keywords ∧ Target.safeName x ≠ "print" ∧
        Target.safeName x ≠ "range") ∧
      (∀ x ∈ names, ∀ y ∈ names, Target.safeName x = Target.safeName y ↔
        x = y ∨ Target.Merges x y ∨ Target.Merges y x) ∧
      ((∀ x ∈ names, ∀ y ∈ names, ¬ Target.Merges x y) →
        ∃ original : String → String, (∀ x ∈ names, original (Target.safeName x) = x) ∧
          (Target.identifiers code).map original = mentioned) := by
  intro program names code mentioned
  have hIdentifiers : Target.identifiers code = mentioned.map Target.safeName :=
    identifiers_code hLexical layout.indent
  have hNames : ∀ x ∈ mentioned, x ∈ names := fun x hx => mem_names_of_mem_kept hSyntax hx
  refine ⟨program.code_suffix_render _ layout, hIdentifiers, keptOf_sublist _, hNames, ?_,
    fun x _ y _ => Target.safeName_eq_iff, ?_⟩
  · intro x _
    have hFree := Target.safeName_notMem_fixedWords x
    simp only [Target.fixedWords, List.mem_append, List.mem_cons, List.not_mem_nil, or_false,
      not_or] at hFree
    exact hFree
  · intro hApart
    obtain ⟨original, hOriginal⟩ := Target.exists_leftInverse_safeName hApart
    refine ⟨original, hOriginal, ?_⟩
    rw [hIdentifiers, List.map_map]
    exact (List.map_congr_left fun x hx => hOriginal x (hNames x hx)).trans (List.map_id _)

/-- Variables called like words of the target, a quoted text with such words, and a variable
with the name of an option. -/
def wordySource : String :=
  "int range = 3; int end = 2; for (int is = 0; is < range; is += end) \x7b " ++
  "System.out.print(is + \" in \" + end); \x7d"

/-- The page of `wordySource`. -/
def wordyPage : String :=
  "range_ = 3\nend = 2\nfor is_ in range(0, range_, end):\n" ++
  "    print(is_ + \" in \" + end, end=\"\")"

theorem identifiers_code_wordySource :
    (analyze wordySource ⟨4, false⟩).lexicalErrors = [] ∧
      (analyze wordySource ⟨4, false⟩).syntaxErrors = [] ∧
      (analyze wordySource ⟨4, false⟩).python = wordyPage ∧
      Target.identifiers wordyPage.toList =
        ["range_", "end", "is_", "range_", "end", "is_", "end"] ∧
      ∃ original : String → String,
        (Target.identifiers wordyPage.toList).map original =
          ["range", "end", "is", "range", "end", "is", "end"] := by
  have hFacts : (analyze wordySource ⟨4, false⟩).lexicalErrors = [] ∧
      (analyze wordySource ⟨4, false⟩).syntaxErrors = [] ∧
      (analyze wordySource ⟨4, false⟩).python = wordyPage ∧
      (analyze wordySource ⟨4, false⟩).program.code 4 = wordyPage.toList ∧
      namesIn (keptOf (analyze wordySource ⟨4, false⟩).program.body) =
        ["range", "end", "is", "range", "end", "is", "end"] ∧
      (analyze wordySource ⟨4, false⟩).declarations.names = ["range", "end", "is"] := by
    decide +kernel
  obtain ⟨hLexical, hSyntax, hPython, hCode, hMentioned, hNames⟩ := hFacts
  obtain ⟨_, hIdentifiers, _, _, _, _, hOriginal⟩ :=
    identifiers_code_eq_map_safeName wordySource ⟨4, false⟩ hLexical hSyntax
  have hApart : ∀ x ∈ ["range", "end", "is"], ∀ y ∈ ["range", "end", "is"],
      ¬ (x ∈ Target.fixedWords ∧ y = x ++ "_") := by
    decide
  rw [hNames] at hOriginal
  obtain ⟨original, _, hMap⟩ := hOriginal hApart
  rw [hCode, hMentioned] at hIdentifiers hMap
  exact ⟨hLexical, hSyntax, hPython, hIdentifiers, original, hMap⟩

/-- A text that declares a word of the target and that word with an underscore. -/
def mergedSource : String :=
  "int in = 1; int in_ = 2;"

/-- Both variables of `mergedSource` are called `in_` in the output. -/
theorem safeName_merges_mergedSource :
    (analyze mergedSource ⟨4, false⟩).lexicalErrors = [] ∧
      (analyze mergedSource ⟨4, false⟩).syntaxErrors = [] ∧
      (analyze mergedSource ⟨4, false⟩).declarations.names = ["in", "in_"] ∧
      Target.safeName "in" = Target.safeName "in_" ∧
      (analyze mergedSource ⟨4, false⟩).python = "in_ = 1\nin_ = 2" := by
  decide +kernel

end Braceless

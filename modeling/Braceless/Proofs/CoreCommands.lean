import Braceless.Proofs.BlockStructure
import Braceless.Proofs.Scope
import Braceless.Proofs.Target.Commands

/-!
# Core programs and their commands

Core programs compute with integers and truth values only: they have no counting loops, no
division, no other types, no number with a zero in front, and no negative of a negation.
Each statement of theirs is one command of the target, and this command is what the target
reads in the lines of the statement.  The one name that gets in the way is `__debug__`: it keeps
its name in the output, and the target does not read a page with its declaration.

## Main definitions

* `Expr.isCore`, `Stmt.isCore`, `allCore`: core programs.
* `Stmt.commands`, `commandsOf`: the commands of statements.
* `Mention.Known`: mentions that are words, and names from a list.

## Main results

* `Expr.read_core`: the target reads a core expression as the tree that is meant.
* `commands?_outlinesOf`: it reads core statements as their commands.
* `commands?_of_debugFlag`: it does not read statements that declare `__debug__`.
-/

namespace Braceless

open Target (Command)

/-! ## Core programs -/

/-- All operators but those that divide. -/
def BinaryOp.isCore : BinaryOp → Bool
  | div | rem => false
  | _ => true

/-- Truth values, and numbers without a zero in front. -/
def Literal.isCore (l : Literal) : Bool :=
  match l.kind with
  | .int => l.value == "0" || l.value.toList.head? != some '0'
  | .boolean => true
  | .double | .char | .str => false

/-- Expressions over integers and truth values. -/
def Expr.isCore : Expr → Bool
  | binary op left right => op.isCore && left.isCore && right.isCore
  | unary .neg operand => !operand.isNot && operand.isCore
  | unary .not operand => operand.isCore
  | group inner => inner.isCore
  | literal l => l.isCore
  | identifier .. => true
  | invalid _ => false

/-- Integers and truth values. -/
def DataType.isCore : DataType → Bool
  | int | boolean => true
  | double | char | string => false

mutual

/-- Statements over integers and truth values. -/
def Stmt.isCore : Stmt → Bool
  | .declaration d => d.dataType.isCore && d.value.all Expr.isCore
  | .assignment a => a.value.isCore
  | .ifElse ⟨condition, thenBody, orElse, _⟩ =>
    condition.isCore && allCore thenBody && orElse.isCore
  | .whileLoop condition body _ => condition.isCore && allCore body
  | .print argument _ _ => argument.all Expr.isCore
  | .forLoop .. | .invalid _ => false

/-- Branches with such statements. -/
def Else.isCore : Else → Bool
  | .none => true
  | .elseIf ⟨condition, thenBody, orElse, _⟩ =>
    condition.isCore && allCore thenBody && orElse.isCore
  | .block body => allCore body

/-- Runs of such statements. -/
def allCore : List Stmt → Bool
  | [] => true
  | s :: ss => s.isCore && allCore ss

end

/-! ## Commands -/

/-- The first value of a declared variable, as the target is to understand it. -/
def Declaration.targetValue (d : Declaration) : Target.Tree :=
  match d.value with
  | some e => e.targetTree
  | none => d.dataType.defaultValue.tree

mutual

/-- The command of a core statement.  Other statements have none. -/
def Stmt.commands : Stmt → List Command
  | .declaration d => [.assign (Target.safeName d.name) d.targetValue]
  | .assignment a => [.assign (Target.safeName a.name) a.value.targetTree]
  | .ifElse ⟨condition, thenBody, orElse, _⟩ =>
    [.ifElse condition.targetTree (commandsOf thenBody) orElse.commands]
  | .whileLoop condition body _ => [.whileLoop condition.targetTree (commandsOf body)]
  | .print argument newline _ => [.print (argument.map Expr.targetTree) newline]
  | .forLoop .. | .invalid _ => []

/-- The commands of further branches. -/
def Else.commands : Else → List Command
  | .none => []
  | .elseIf ⟨condition, thenBody, orElse, _⟩ =>
    [.ifElse condition.targetTree (commandsOf thenBody) orElse.commands]
  | .block body => commandsOf body

/-- The commands of a run of statements. -/
def commandsOf : List Stmt → List Command
  | [] => []
  | s :: ss => s.commands ++ commandsOf ss

end

/-! ## Core expressions -/

theorem Literal.valid_of_isCore {l : Literal} (hCore : l.isCore = true)
    (hWorded : (Mention.literal l).Worded) : l.Valid := by
  obtain ⟨kind, value⟩ := l
  cases kind with
  | int => exact hWorded.2 rfl
  | boolean => trivial
  | double => exact nomatch hCore
  | char => exact nomatch hCore
  | str => exact nomatch hCore

theorem Expr.valid_of_isCore {e : Expr} (hCore : e.isCore = true)
    (hWorded : ∀ m ∈ e.mentions, m.Worded) : e.Valid := by
  induction e with
  | binary op left right ihLeft ihRight =>
      simp only [Expr.isCore, Bool.and_eq_true] at hCore
      obtain ⟨hLeft, hRight⟩ := List.forall_mem_append.mp hWorded
      exact ⟨ihLeft hCore.1.2 hLeft, ihRight hCore.2 hRight⟩
  | unary op operand ih =>
      cases op with
      | not => exact ih hCore hWorded
      | neg =>
          simp only [Expr.isCore, Bool.and_eq_true] at hCore
          exact ih hCore.2 hWorded
  | group inner ih => exact ih hCore hWorded
  | literal l => exact l.valid_of_isCore hCore (hWorded _ List.mem_cons_self)
  | identifier name pos => exact hWorded _ List.mem_cons_self
  | invalid p => exact nomatch hCore

theorem Expr.noNegatedNot_of_isCore {e : Expr} (hCore : e.isCore = true) :
    e.NoNegatedNot := by
  induction e with
  | binary op left right ihLeft ihRight =>
      simp only [Expr.isCore, Bool.and_eq_true] at hCore
      exact ⟨ihLeft hCore.1.2, ihRight hCore.2⟩
  | unary op operand ih =>
      cases op with
      | not => exact ⟨nofun, ih hCore⟩
      | neg =>
          simp only [Expr.isCore, Bool.and_eq_true, Bool.not_eq_true'] at hCore
          exact ⟨fun _ => hCore.1, ih hCore.2⟩
  | group inner ih => exact ih hCore
  | literal l => trivial
  | identifier name pos => trivial
  | invalid p => trivial

/-- The target reads a core expression as the tree that is meant. -/
theorem Expr.read_core {e : Expr} (hCore : e.isCore = true)
    (hWorded : ∀ m ∈ e.mentions, m.Worded) : Target.read e.lower.text = some e.targetTree := by
  have hSpelled := Expr.spelled_lower (Expr.valid_of_isCore hCore hWorded)
  have hFits := Expr.fits_lower (Expr.noNegatedNot_of_isCore hCore)
  rw [Target.read_text hSpelled hFits, Expr.tree_lower]

theorem Expr.isCore_of_mem_mentions {e : Expr} (hCore : e.isCore = true) {l : Literal}
    (h : .literal l ∈ e.mentions) : l.isCore = true := by
  induction e with
  | binary op left right ihLeft ihRight =>
      simp only [Expr.isCore, Bool.and_eq_true] at hCore
      rcases List.mem_append.mp h with hLeft | hRight
      · exact ihLeft hCore.1.2 hLeft
      · exact ihRight hCore.2 hRight
  | unary op operand ih =>
      cases op with
      | not => exact ih hCore h
      | neg =>
          simp only [Expr.isCore, Bool.and_eq_true] at hCore
          exact ih hCore.2 h
  | group inner ih => exact ih hCore h
  | literal k =>
      obtain rfl : l = k := by simpa [Expr.mentions] using h
      exact hCore
  | identifier name pos => simp [Expr.mentions] at h
  | invalid p => cases hCore

theorem foreign_quote : Foreign '"' :=
  ⟨rfl, by decide⟩

theorem Foreign.notMem_literal {c : Char} (hc : Foreign c) {l : Literal}
    (hCore : l.isCore = true) (hWorded : (Mention.literal l).Worded) :
    c ∉ l.lower.text.toList := by
  obtain ⟨kind, value⟩ := l
  cases kind with
  | int =>
      have hDigits : IsDigits value.toList := hWorded.2 rfl
      exact hc.notMem_word
        (List.all_eq_true.mpr fun d hd => isWordPart_of_isDigit (hDigits.2 d hd))
  | boolean =>
      show c ∉ (if value == "true" then "True" else "False").toList
      split <;> exact hc.notMem_word rfl
  | double => exact nomatch hCore
  | char => exact nomatch hCore
  | str => exact nomatch hCore

/-- A core expression is written without foreign characters. -/
theorem Foreign.notMem_core {c : Char} (hc : Foreign c) {e : Expr} (hCore : e.isCore = true)
    (hWorded : ∀ m ∈ e.mentions, m.Worded) : c ∉ e.lower.text.toList :=
  hc.notMem_lower hWorded fun l hl =>
    hc.notMem_literal (Expr.isCore_of_mem_mentions hCore hl) (hWorded (.literal l) hl)

/-! ## Core statements -/

/-- The target reads the first value of a core variable as it is meant. -/
theorem Declaration.read_core {d : Declaration} (hType : d.dataType.isCore = true)
    (hValue : d.value.all Expr.isCore = true) (hWorded : ∀ m ∈ d.mentions, m.Worded) :
    Target.read d.lowerValue.text = some d.targetValue := by
  obtain ⟨dataType, name, value, pos⟩ := d
  cases value with
  | none =>
      cases dataType with
      | int => exact Target.read_text (e := .number "0") rfl trivial
      | boolean => exact Target.read_text (e := .truth false) trivial trivial
      | double => exact nomatch hType
      | char => exact nomatch hType
      | string => exact nomatch hType
  | some e => exact Expr.read_core hValue (List.forall_mem_cons.mp hWorded).2

theorem safeName_eq_debugFlag_iff {name : String} :
    Target.safeName name = Target.debugFlag ↔ name = Target.debugFlag := by
  by_cases h : name ∈ Target.fixedWords
  · have hFixed : ∀ word ∈ Target.fixedWords,
        word ++ "_" ≠ Target.debugFlag ∧ word ≠ Target.debugFlag := by decide
    rw [Target.safeName_of_mem h]
    exact iff_of_false (hFixed name h).1 (hFixed name h).2
  · rw [Target.safeName_of_notMem h]

/-- An assignment under the new name can be read, unless the name is `__debug__`. -/
theorem readLine_assign_safeName {name : String} (hName : Target.IsIdentifier name.toList)
    (text : String) :
    Target.readLine (Target.safeName name ++ " = " ++ text) =
      if name = Target.debugFlag then none
      else (Target.read text).map (.assign (Target.safeName name)) := by
  rw [Target.readLine_assign text hName.safeName (Target.safeName_notMem_fixedWords name)]
  simp only [safeName_eq_debugFlag_iff]

/-- What is mentioned is worded, and a name is one of the given names. -/
structure Mention.Known (names : List String) (m : Mention) : Prop where
  worded : m.Worded
  within : m.Within names

section Known

variable {names : List String}

/-- A known variable can be assigned to, if `__debug__` is not among the names. -/
theorem readLine_assign_known (hDebug : Target.debugFlag ∉ names) {m : Mention} {name : String}
    (hKnown : m.Known names) (hWord : m.Worded → Target.IsIdentifier name.toList)
    (hName : m.name? = some name) {text : String} {t : Target.Tree}
    (hRead : Target.read text = some t) :
    Target.readLine (Target.safeName name ++ " = " ++ text) =
      some (.assign (Target.safeName name) t) := by
  have hOther : name ≠ Target.debugFlag := by
    rintro rfl
    exact hDebug (hKnown.within _ hName)
  rw [readLine_assign_safeName (hWord hKnown.worded), if_neg hOther, hRead]
  rfl

mutual

/-- The target reads a core statement as its command. -/
theorem Stmt.command?_outline (hDebug : Target.debugFlag ∉ names) (s : Stmt)
    (hCore : s.isCore = true) (hKnown : ∀ m ∈ s.mentions, m.Known names) :
    ∃ c, s.outline.command? = some c ∧ s.commands = [c] := by
  have hWorded : ∀ m ∈ s.mentions, m.Worded := fun m hm => (hKnown m hm).worded
  cases s with
  | declaration d =>
      obtain ⟨hType, hValue⟩ := Bool.and_eq_true_iff.mp hCore
      have hRead := d.read_core hType hValue hWorded
      exact ⟨_, readLine_assign_known hDebug (List.forall_mem_cons.mp hKnown).1 id rfl hRead, rfl⟩
  | assignment a =>
      have hRead := Expr.read_core hCore (List.forall_mem_cons.mp hWorded).2
      exact ⟨_, readLine_assign_known hDebug (List.forall_mem_cons.mp hKnown).1 id rfl hRead, rfl⟩
  | ifElse i =>
      obtain ⟨condition, thenBody, orElse, pos⟩ := i
      simp only [Stmt.isCore, Bool.and_eq_true] at hCore
      obtain ⟨hCondition, _⟩ := List.forall_mem_append.mp hWorded
      obtain ⟨hBody, hElse⟩ := List.forall_mem_append.mp (List.forall_mem_append.mp hKnown).2
      refine ⟨_, ?_, rfl⟩
      simp only [Stmt.outline, Target.Outline.command?, Target.condition?_header,
        Expr.read_core hCore.1.1 hCondition, commands?_outlinesOf hDebug thenBody hCore.1.2 hBody,
        orElse.commands?_branches hDebug hCore.2 hElse]
  | forLoop init condition update body pos => exact nomatch hCore
  | whileLoop condition body pos =>
      obtain ⟨hCondition, _⟩ := List.forall_mem_append.mp hWorded
      obtain ⟨_, hBody⟩ := List.forall_mem_append.mp hKnown
      obtain ⟨hCoreCondition, hCoreBody⟩ := Bool.and_eq_true_iff.mp hCore
      refine ⟨_, ?_, rfl⟩
      simp only [Stmt.outline, Target.Outline.command?, Target.condition?_header,
        Expr.read_core hCoreCondition hCondition,
        commands?_outlinesOf hDebug body hCoreBody hBody]
  | print argument newline pos =>
      cases argument with
      | none => exact ⟨_, Target.readLine_printNothing newline, rfl⟩
      | some e =>
          exact ⟨_, Target.readLine_print (Expr.read_core hCore hWorded)
            (foreign_quote.notMem_core hCore hWorded) newline, rfl⟩
  | invalid p => exact nomatch hCore

theorem Else.commands?_branches (hDebug : Target.debugFlag ∉ names) (e : Else)
    (hCore : e.isCore = true) (hKnown : ∀ m ∈ e.mentions, m.Known names) :
    e.branches.commands? = some e.commands := by
  cases e with
  | none => rfl
  | elseIf i =>
      obtain ⟨condition, thenBody, orElse, pos⟩ := i
      simp only [Else.isCore, Bool.and_eq_true] at hCore
      obtain ⟨hCondition, hBranches⟩ := List.forall_mem_append.mp hKnown
      obtain ⟨hBody, hElse⟩ := List.forall_mem_append.mp hBranches
      have hRead := Expr.read_core hCore.1.1 fun m hm => (hCondition m hm).worded
      simp only [Else.branches, Target.Branches.commands?, Target.condition?_header, hRead,
        commands?_outlinesOf hDebug thenBody hCore.1.2 hBody,
        orElse.commands?_branches hDebug hCore.2 hElse, Else.commands]
  | block body => exact commands?_outlinesOf hDebug body hCore hKnown

/-- **The target reads core statements as their commands**, if `__debug__` is not among their
names. -/
theorem commands?_outlinesOf (hDebug : Target.debugFlag ∉ names) (ss : List Stmt)
    (hCore : allCore ss = true) (hKnown : ∀ m ∈ mentionsOf ss, m.Known names) :
    Target.commands? (outlinesOf ss) = some (commandsOf ss) := by
  cases ss with
  | nil => rfl
  | cons s ss =>
      obtain ⟨hFirst, hRest⟩ := List.forall_mem_append.mp hKnown
      obtain ⟨hCoreFirst, hCoreRest⟩ := Bool.and_eq_true_iff.mp hCore
      obtain ⟨c, hCommand, hCommands⟩ := s.command?_outline hDebug hCoreFirst hFirst
      rw [outlinesOf, commandsOf, hCommands, Target.commands?, hCommand,
        commands?_outlinesOf hDebug ss hCoreRest hRest]
      rfl

end

end Known

/-! ## Declarations of `__debug__` -/

theorem condition?_forHeader (init : ForInit) (condition : Expr) (update : Option Assignment) :
    Target.condition? "while " (forHeader init condition update) = none := by
  cases h : Target.enclosed? "while ".toList [':'] (forHeader init condition update).toList with
  | none => rw [Target.condition?, h]; rfl
  | some inner =>
      have hChars := Target.enclosed?_eq_some_iff.mp h
      rw [forHeader] at hChars
      simp at hChars

mutual

/-- A statement that declares `__debug__` cannot be read. -/
theorem Stmt.command?_of_debugFlag (s : Stmt)
    (h : ∃ d ∈ s.declarations, d.name = Target.debugFlag) : s.outline.command? = none := by
  cases s with
  | declaration d =>
      obtain ⟨d', hMem, hName⟩ := h
      obtain rfl : d' = d := List.mem_singleton.mp hMem
      have hDebug : Target.IsIdentifier Target.debugFlag.toList := by decide
      rw [← hName] at hDebug
      exact (readLine_assign_safeName hDebug _).trans (if_pos hName)
  | assignment a => simp [Stmt.declarations] at h
  | ifElse i =>
      obtain ⟨condition, thenBody, orElse, pos⟩ := i
      obtain ⟨d, hMem, hName⟩ := h
      refine Target.command?_choice_of_none _ ((List.mem_append.mp hMem).imp ?_ ?_)
      · exact fun hBody => commands?_of_debugFlag thenBody ⟨d, hBody, hName⟩
      · exact fun hElse => orElse.commands?_of_debugFlag ⟨d, hElse, hName⟩
  | forLoop init condition update body pos =>
      rw [Stmt.outline, Target.Outline.command?, condition?_forHeader]
  | whileLoop condition body pos =>
      exact Target.command?_loop_of_none _ (commands?_of_debugFlag body h)
  | print argument newline pos => simp [Stmt.declarations] at h
  | invalid p => simp [Stmt.declarations] at h

theorem Else.commands?_of_debugFlag (e : Else)
    (h : ∃ d ∈ e.declarations, d.name = Target.debugFlag) : e.branches.commands? = none := by
  cases e with
  | none => simp [Else.declarations] at h
  | elseIf i =>
      obtain ⟨condition, thenBody, orElse, pos⟩ := i
      obtain ⟨d, hMem, hName⟩ := h
      refine Target.commands?_elif_of_none _ ((List.mem_append.mp hMem).imp ?_ ?_)
      · exact fun hBody => commands?_of_debugFlag thenBody ⟨d, hBody, hName⟩
      · exact fun hElse => orElse.commands?_of_debugFlag ⟨d, hElse, hName⟩
  | block body => exact commands?_of_debugFlag body h

/-- **The target does not read statements that declare `__debug__`.** -/
theorem commands?_of_debugFlag (ss : List Stmt)
    (h : ∃ d ∈ declarationsOf ss, d.name = Target.debugFlag) :
    Target.commands? (outlinesOf ss) = none := by
  cases ss with
  | nil => simp [declarationsOf] at h
  | cons s ss =>
      obtain ⟨d, hMem, hName⟩ := h
      refine Target.commands?_cons_of_none ((List.mem_append.mp hMem).imp ?_ ?_)
      · exact fun hFirst => s.command?_of_debugFlag ⟨d, hFirst, hName⟩
      · exact fun hRest => commands?_of_debugFlag ss ⟨d, hRest, hName⟩

end

/-! ## Lines of code -/

theorem isCode_header {lead : String} (h : lead.toList.head?.any (· != '#') = true)
    (text : String) (level : Nat) :
    (Target.Line.mk level (lead ++ text ++ ":")).isCode = true :=
  Target.isCode_append (Target.isCode_append h text) ":"

theorem isCode_assign {name : String} (hName : Target.IsIdentifier name.toList) (text : String)
    (level : Nat) :
    (Target.Line.mk level (Target.safeName name ++ " = " ++ text)).isCode = true :=
  Target.isCode_append
    (Target.isCode_append (Target.isCode_of_isIdentifier hName.safeName level) " = ") text

mutual

/-- Core statements are written in lines of code. -/
theorem Stmt.isCode_outline (s : Stmt) (hCore : s.isCore = true)
    (hWorded : ∀ m ∈ s.mentions, m.Worded) (level : Nat) :
    ∀ l ∈ s.outline.lines level, l.isCode = true := by
  cases s with
  | declaration d =>
      exact List.forall_mem_singleton.mpr
        (isCode_assign (List.forall_mem_cons.mp hWorded).1 _ level)
  | assignment a =>
      exact List.forall_mem_singleton.mpr
        (isCode_assign (List.forall_mem_cons.mp hWorded).1 _ level)
  | ifElse i =>
      obtain ⟨condition, thenBody, orElse, pos⟩ := i
      simp only [Stmt.isCore, Bool.and_eq_true] at hCore
      obtain ⟨hBody, hElse⟩ := List.forall_mem_append.mp (List.forall_mem_append.mp hWorded).2
      have hLead : "if ".toList.head?.any (· != '#') = true := by decide
      have hHeader := isCode_header hLead condition.lower.text level
      exact List.forall_mem_append.mpr
        ⟨Target.isCode_of_block hHeader (isCode_outlinesOf thenBody hCore.1.2 hBody (level + 1)),
          orElse.isCode_branches hCore.2 hElse level⟩
  | forLoop init condition update body pos => exact nomatch hCore
  | whileLoop condition body pos =>
      obtain ⟨_, hCoreBody⟩ := Bool.and_eq_true_iff.mp hCore
      obtain ⟨_, hBody⟩ := List.forall_mem_append.mp hWorded
      have hLead : "while ".toList.head?.any (· != '#') = true := by decide
      have hHeader := isCode_header hLead condition.lower.text level
      exact Target.isCode_of_block hHeader (isCode_outlinesOf body hCoreBody hBody (level + 1))
  | print argument newline pos =>
      exact List.forall_mem_singleton.mpr (Target.isCode_printCall _ newline level)
  | invalid p => exact nomatch hCore

theorem Else.isCode_branches (e : Else) (hCore : e.isCore = true)
    (hWorded : ∀ m ∈ e.mentions, m.Worded) (level : Nat) :
    ∀ l ∈ e.branches.lines level, l.isCode = true := by
  cases e with
  | none => exact nofun
  | elseIf i =>
      obtain ⟨condition, thenBody, orElse, pos⟩ := i
      simp only [Else.isCore, Bool.and_eq_true] at hCore
      obtain ⟨hBody, hElse⟩ := List.forall_mem_append.mp (List.forall_mem_append.mp hWorded).2
      have hLead : "elif ".toList.head?.any (· != '#') = true := by decide
      have hHeader := isCode_header hLead condition.lower.text level
      exact List.forall_mem_append.mpr
        ⟨Target.isCode_of_block hHeader (isCode_outlinesOf thenBody hCore.1.2 hBody (level + 1)),
          orElse.isCode_branches hCore.2 hElse level⟩
  | block body =>
      exact Target.isCode_of_block (Target.isCode_else level)
        (isCode_outlinesOf body hCore hWorded (level + 1))

theorem isCode_outlinesOf (ss : List Stmt) (hCore : allCore ss = true)
    (hWorded : ∀ m ∈ mentionsOf ss, m.Worded) (level : Nat) :
    ∀ l ∈ Target.outlineLines level (outlinesOf ss), l.isCode = true := by
  cases ss with
  | nil => exact nofun
  | cons s ss =>
      obtain ⟨hFirst, hRest⟩ := List.forall_mem_append.mp hWorded
      obtain ⟨hCoreFirst, hCoreRest⟩ := Bool.and_eq_true_iff.mp hCore
      exact List.forall_mem_append.mpr
        ⟨s.isCode_outline hCoreFirst hFirst level, isCode_outlinesOf ss hCoreRest hRest level⟩

end

end Braceless

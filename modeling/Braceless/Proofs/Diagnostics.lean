import Braceless.Analysis
import Braceless.Proofs.Parser.Positions

/-!
# Diagnostics in the order of the text

What is wrong with a text is found by the lexer and by the parser, each on its own way through
the text, and then put together by sorting.  The lexer goes from left to right and finds at most
one error in a token.  The parser goes back nowhere either: whatever a step reports, it reports at
the token that is current before the step, and no step leads back.  So both lists are in order
before they are sorted, and since the sort is stable, it merges them: neither of them is
rearranged, and at one position the lexical error comes first.

## Main results

* `filter_mergeSort`: a stable sort leaves alone what is in order.
* `pairwise_pos_errors_lex`: lexical errors stand at increasing positions.
* `Parser.Step.exists_new_errors`, `Parser.Trace.pairwise_errors`: syntax errors do not go back.
* `diagnostics_analyze`: the merged list.
-/

namespace Braceless

/-! ## Sorting -/

/-- A stable sort leaves the elements of any kind alone if they are in order among
themselves. -/
theorem filter_mergeSort {α : Type} {le : α → α → Bool}
    (hTrans : ∀ a b c, le a b = true → le b c = true → le a c = true)
    (hTotal : ∀ a b, (le a b || le b a) = true) {l : List α} {q : α → Bool}
    (h : (l.filter q).Pairwise (le · · = true)) :
    (l.mergeSort le).filter q = l.filter q := by
  have hSorted : (l.filter q).Sublist (l.mergeSort le) :=
    List.sublist_mergeSort hTrans hTotal h List.filter_sublist
  have hKept : (l.filter q).Sublist ((l.mergeSort le).filter q) := by
    simpa using hSorted.filter q
  have hLength : (l.filter q).length = ((l.mergeSort le).filter q).length :=
    ((List.mergeSort_perm l le).filter q).length_eq.symm
  exact (hKept.eq_of_length hLength).symm

theorem Position.le_total (p q : Position) : p ≤ q ∨ q ≤ p := by
  rw [le_def, le_def]
  omega

/-! ## Lexical errors -/

/-- Every lexical error stands at a token of its own. -/
theorem map_pos_errors_place (pos : Position) (ps : List Piece) :
    ((place pos ps).errors.map (·.pos)).Sublist ((place pos ps).tokens.map (·.pos)) := by
  fun_induction place pos ps with
  | case1 => exact List.nil_sublist _
  | case2 pos c ps ih => exact ih
  | case3 pos l ps rest ih =>
      cases hFault : l.fault with
      | none =>
          have hNone : l.error? pos = none := by simp [Lexeme.error?, hFault]
          rw [hNone]
          exact ih.cons pos
      | some fault => simpa [Lexeme.error?, hFault, Lexeme.token] using ih

theorem pairwise_pos_errors_lex (source : String) :
    (lex source).errors.Pairwise (·.pos < ·.pos) := by
  obtain ⟨ts, stop, hTokens, _, _, hOrder⟩ := Parser.exists_tokens_lex source
  have hPlaces : ((lex source).tokens.map (·.pos)).Pairwise (· < ·) := by
    rw [hTokens]
    exact List.pairwise_map.mpr hOrder
  exact List.pairwise_map.mp (hPlaces.sublist (map_pos_errors_place _ _))

/-! ## Syntax errors -/

namespace Parser

/-- What a step reports comes behind what was reported before, and stands at the current
token. -/
theorem Step.exists_new_errors {s s' : State} {ms : List Mention} (h : Step s ms s') :
    ∃ new, s'.errors.toList = s.errors.toList ++ new ∧ ∀ e ∈ new, e.pos = s.current.pos := by
  have hNone : ∃ new, s.errors.toList = s.errors.toList ++ new ∧
      ∀ e ∈ new, e.pos = s.current.pos :=
    ⟨[], by simp, by simp⟩
  have hOne : ∀ fault, ∃ new,
      (s.errors.push (.ofToken fault s.current)).toList = s.errors.toList ++ new ∧
        ∀ e ∈ new, e.pos = s.current.pos :=
    fun fault => ⟨[.ofToken fault s.current], by simp, by simp [SyntaxError.ofToken]⟩
  cases h with
  | skip _ => exact hNone
  | report _ _ => exact hOne _
  | level _ _ _ => exact hNone
  | overflow => exact hOne _
  | declare dataType _ =>
      rw [run_declare]
      split
      · exact hOne _
      · exact hNone
  | lookUp n _ =>
      rw [run_checkDeclared]
      split
      · exact hNone
      · exact hOne _
  | literal _ => exact hNone
  | one => exact hNone
  | unread _ => exact hNone
  | unrecognized _ _ => exact hOne _

/-- A step keeps the errors in the order of the text: the new ones stand at the current token,
and none of the old ones stands behind it. -/
theorem Step.pairwise_errors {s s' : State} {ms : List Mention} (h : Step s ms s')
    (hs : s.InOrder) (hErrors : s.errors.toList.Pairwise (·.pos ≤ ·.pos)) :
    s'.errors.toList.Pairwise (·.pos ≤ ·.pos) := by
  obtain ⟨new, hNew, hHere⟩ := h.exists_new_errors
  rw [hNew, List.pairwise_append]
  refine ⟨hErrors, ?_, ?_⟩
  · refine List.pairwise_of_forall_mem_list fun e he f hf => ?_
    rw [hHere e he, hHere f hf]
    exact Position.le_refl _
  · intro e he f hf
    rw [hHere f hf]
    exact hs.errors e (Array.mem_toList_iff.mp he)

theorem Trace.pairwise_errors {s s' : State} {ms : List Mention} (h : Trace s ms s')
    (hs : s.InOrder) (hErrors : s.errors.toList.Pairwise (·.pos ≤ ·.pos)) :
    s'.errors.toList.Pairwise (·.pos ≤ ·.pos) := by
  induction h with
  | refl s => exact hErrors
  | step hStep _ ih => exact ih (hStep.inOrder hs) (hStep.pairwise_errors hs hErrors)

end Parser

theorem pairwise_pos_errors_parse_lex (source : String) :
    (parse (lex source).tokens).errors.Pairwise (·.pos ≤ ·.pos) := by
  obtain ⟨s, hTrace, hErrors, _⟩ := Parser.exists_trace_parse (lex source).tokens
  rw [hErrors]
  exact hTrace.pairwise_errors (Parser.inOrder_initial_lex source) .nil

/-! ## All of them -/

/-- Whether the lexer found it. -/
def Diagnostic.isLexical : Diagnostic → Bool
  | .lexical _ => true
  | .syntactic _ => false

namespace Analysis

/-- The lexical errors and then the syntax errors. -/
def findings (a : Analysis) : List Diagnostic :=
  a.lexicalErrors.map .lexical ++ a.syntaxErrors.map .syntactic

theorem perm_diagnostics (a : Analysis) : a.diagnostics.Perm a.findings :=
  List.mergeSort_perm _ _

/-- The order by positions is transitive and total, as a sort needs it. -/
theorem byPos_trans_total :
    (∀ x y z : Diagnostic, decide (x.pos ≤ y.pos) = true → decide (y.pos ≤ z.pos) = true →
      decide (x.pos ≤ z.pos) = true) ∧
    ∀ x y : Diagnostic, (decide (x.pos ≤ y.pos) || decide (y.pos ≤ x.pos)) = true := by
  refine ⟨fun x y z hxy hyz => ?_, fun x y => ?_⟩
  · exact decide_eq_true (Position.le_trans (of_decide_eq_true hxy) (of_decide_eq_true hyz))
  · simpa using Position.le_total x.pos y.pos

theorem pairwise_pos_diagnostics (a : Analysis) : a.diagnostics.Pairwise (·.pos ≤ ·.pos) :=
  (List.pairwise_mergeSort byPos_trans_total.1 byPos_trans_total.2 a.findings).imp
    of_decide_eq_true

theorem filter_diagnostics {a : Analysis} {q : Diagnostic → Bool}
    (h : (a.findings.filter q).Pairwise (·.pos ≤ ·.pos)) :
    a.diagnostics.filter q = a.findings.filter q :=
  filter_mergeSort byPos_trans_total.1 byPos_trans_total.2 (h.imp decide_eq_true)

theorem filter_isLexical_findings (a : Analysis) :
    a.findings.filter (·.isLexical) = a.lexicalErrors.map .lexical := by
  simp [findings, List.filter_map, Function.comp_def, Diagnostic.isLexical]

theorem filter_not_isLexical_findings (a : Analysis) :
    a.findings.filter (!·.isLexical) = a.syntaxErrors.map .syntactic := by
  simp [findings, List.filter_map, Function.comp_def, Diagnostic.isLexical]

/-- What was found at one position. -/
theorem filter_pos_diagnostics (a : Analysis) (p : Position) :
    a.diagnostics.filter (·.pos = p) =
      (a.lexicalErrors.filter (·.pos = p)).map .lexical ++
        (a.syntaxErrors.filter (·.pos = p)).map .syntactic := by
  have hSame : (a.findings.filter (·.pos = p)).Pairwise (·.pos ≤ ·.pos) := by
    refine List.pairwise_of_forall_mem_list fun x hx y hy => ?_
    have hxp : x.pos = p := by simpa using (List.mem_filter.mp hx).2
    have hyp : y.pos = p := by simpa using (List.mem_filter.mp hy).2
    rw [hxp, hyp]
    exact Position.le_refl p
  rw [filter_diagnostics hSame, findings, List.filter_append, List.filter_map, List.filter_map]
  rfl

end Analysis

/-- **Diagnostics merge the errors of lexer and parser in the order of the text.**  Both lists are
in order as they are found, the lexical errors strictly.  The diagnostics are sorted by position
and are these errors, each as often as it was found; the lexical errors among them are the list
that the lexer found, and the syntax errors the list that the parser found.  At one position the
lexical errors come first. -/
theorem diagnostics_analyze (source : String) (layout : Layout) :
    (analyze source layout).lexicalErrors.Pairwise (·.pos < ·.pos) ∧
    (analyze source layout).syntaxErrors.Pairwise (·.pos ≤ ·.pos) ∧
    (analyze source layout).diagnostics.Pairwise (·.pos ≤ ·.pos) ∧
    (analyze source layout).diagnostics.Perm ((analyze source layout).lexicalErrors.map .lexical ++
      (analyze source layout).syntaxErrors.map .syntactic) ∧
    (analyze source layout).diagnostics.filter (·.isLexical) =
      (analyze source layout).lexicalErrors.map .lexical ∧
    (analyze source layout).diagnostics.filter (!·.isLexical) =
      (analyze source layout).syntaxErrors.map .syntactic ∧
    ∀ p, (analyze source layout).diagnostics.filter (·.pos = p) =
      ((analyze source layout).lexicalErrors.filter (·.pos = p)).map .lexical ++
        ((analyze source layout).syntaxErrors.filter (·.pos = p)).map .syntactic := by
  have hLexical : (analyze source layout).lexicalErrors.Pairwise (·.pos < ·.pos) :=
    pairwise_pos_errors_lex source
  have hSyntax : (analyze source layout).syntaxErrors.Pairwise (·.pos ≤ ·.pos) :=
    pairwise_pos_errors_parse_lex source
  refine ⟨hLexical, hSyntax, Analysis.pairwise_pos_diagnostics _, Analysis.perm_diagnostics _,
    ?_, ?_, Analysis.filter_pos_diagnostics _⟩
  · rw [← Analysis.filter_isLexical_findings]
    refine Analysis.filter_diagnostics ?_
    rw [Analysis.filter_isLexical_findings]
    exact List.pairwise_map.mpr (hLexical.imp Position.le_of_lt)
  · rw [← Analysis.filter_not_isLexical_findings]
    refine Analysis.filter_diagnostics ?_
    rw [Analysis.filter_not_isLexical_findings]
    exact List.pairwise_map.mpr hSyntax

end Braceless

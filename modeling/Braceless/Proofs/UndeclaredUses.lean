import Braceless.Proofs.Parser.Positions
import Braceless.Proofs.DeclarationTable
import Braceless.Proofs.Scope

/-!
# Uses of names that are not declared

A name is looked up in the table when it is read, and the table then holds what has been
declared so far, on every path of recovery.  In the tree this is what stands to the left: a
use is reported exactly if no declaration of the name comes before it.  The law is one about
the tree alone, so it holds of a text with any errors.

That a use is not reported has to be told from the list of all errors.  Since the tokens of a
text stand at different positions, an error at the position of a use can only come from the
step that looked this use up.

## Main definitions

* `ReportsUndeclared`: a use at a position is among the reported ones.

## Main results

* `Parser.Step.eq_of_used`: a step that mentions a use looks it up.
* `Parser.Trace.reportsUndeclared_iff`: the law for every run of a parser.
-/

namespace Braceless

/-- The use of the name `x` at the position `p` is reported as not declared. -/
def ReportsUndeclared (errors : List SyntaxError) (x : String) (p : Position) : Prop :=
  ∃ e ∈ errors, e.fault = .undeclared x ∧ e.pos = p

/-- The use `m` stands in the first of two lists of mentions or in the second one. -/
theorem mention_cases {ms ms' before after : List Mention} {m : Mention}
    (h : ms ++ ms' = before ++ m :: after) :
    (∃ later, ms = before ++ m :: later) ∨
      ∃ earlier, before = ms ++ earlier ∧ ms' = earlier ++ m :: after := by
  rcases List.append_eq_append_iff.mp h with ⟨as, hBefore, hLater⟩ | ⟨bs, hFirst, hRest⟩
  · exact .inr ⟨as, hBefore, hLater⟩
  · cases bs with
    | nil =>
        refine .inr ⟨[], ?_, ?_⟩
        · simpa using hFirst.symm
        · simpa using hRest.symm
    | cons b bs =>
        rw [List.cons_append, List.cons.injEq] at hRest
        rw [← hRest.1] at hFirst
        exact .inl ⟨bs, hFirst⟩

namespace Parser

variable {s s' : State} {ms before after : List Mention} {x : String} {p : Position}

/-- A step that mentions a use looks the current token up. -/
theorem Step.eq_of_used (h : Step s ms s') (hMs : ms = before ++ .used x p :: after) :
    s.current.kind = .identifier ∧ s.current.text = x ∧ s.current.pos = p ∧
      declaredIn before = [] ∧ s' = ((checkDeclared s.current).run (advance.run s).2).2 := by
  have hMem : Mention.used x p ∈ ms := by simp [hMs]
  cases h with
  | lookUp n hKind =>
      have hUse := List.eq_of_mem_replicate hMem
      rw [Mention.used.injEq] at hUse
      refine ⟨hKind, hUse.1.symm, hUse.2.symm, ?_, rfl⟩
      apply List.filterMap_eq_nil_iff.mpr
      intro m hm
      have hInRun : m ∈ List.replicate n (.used s.current.text s.current.pos) := by
        rw [hMs]
        exact List.mem_append_left _ hm
      rw [List.eq_of_mem_replicate hInRun]
      rfl
  | _ => simp at hMem

/-- A use that is looked up is reported exactly if the table does not hold its name, whatever
is reported later. -/
theorem reportsUndeclared_of_lookUp (hs : s.InOrder) (hKind : s.current.kind = .identifier)
    (hRest : Trace ((checkDeclared s.current).run (advance.run s).2).2 ms s') :
    ReportsUndeclared s'.errors.toList s.current.text s.current.pos ↔
      s.current.text ∉ s.declared.names := by
  have hLookUp : Step s (List.replicate 0 (.used s.current.text s.current.pos))
      ((checkDeclared s.current).run (advance.run s).2).2 := .lookUp 0 hKind
  have hRead : s.current.pos <
      ((checkDeclared s.current).run (advance.run s).2).2.current.pos := by
    rw [current_checkDeclared]
    exact hs.current_lt_advance (by rw [hKind]; decide)
  constructor
  · rintro ⟨e, he, hFault, hPos⟩
    -- Neither an earlier nor a later error stands at this position.
    rcases hRest.mem_errors_or_le (hLookUp.inOrder hs) (Array.mem_toList_iff.mp he)
      with hThen | hLater
    · rcases mem_errors_checkDeclared_iff.mp hThen with hOld | ⟨hTable, _⟩
      · have hBefore := hs.naming e hOld (by rw [hFault]; trivial)
        rw [hPos] at hBefore
        exact absurd hBefore (Position.lt_irrefl _)
      · exact hTable
    · rw [hPos] at hLater
      exact absurd hRead (Position.not_lt_of_le hLater)
  · intro hTable
    have hNow : SyntaxError.ofToken (.undeclared s.current.text) s.current ∈
        ((checkDeclared s.current).run (advance.run s).2).2.errors :=
      mem_errors_checkDeclared_iff.mpr (.inr ⟨hTable, rfl⟩)
    exact ⟨_, hRest.frame.errors.subset (Array.mem_toList_iff.mpr hNow), rfl, rfl⟩

/-- A use is reported exactly if its name is neither in the table at the start nor declared
by what is mentioned before the use. -/
theorem Trace.reportsUndeclared_iff (h : Trace s ms s') (hs : s.InOrder)
    (hMs : ms = before ++ .used x p :: after) :
    ReportsUndeclared s'.errors.toList x p ↔
      x ∉ s.declared.names ∧ ∀ d ∈ declaredIn before, d.name ≠ x := by
  induction h generalizing before with
  | refl s => simp at hMs
  | step hStep hRest ih =>
      rcases mention_cases hMs with ⟨later, hFirst⟩ | ⟨earlier, rfl, hLater⟩
      · obtain ⟨hKind, rfl, rfl, hNone, rfl⟩ := hStep.eq_of_used hFirst
        rw [reportsUndeclared_of_lookUp hs hKind hRest, hNone]
        simp
      · rw [ih (hStep.inOrder hs) hLater, hStep.tallies.declared,
          Declarations.mem_names_insertAll_iff,
          declaredIn_append]
        constructor
        · rintro ⟨hTable, hEarlier⟩
          refine ⟨fun hx => hTable (.inl hx), ?_⟩
          intro d hd hName
          rcases List.mem_append.mp hd with hNow | hThen
          · exact hTable (.inr ⟨d, hNow, hName⟩)
          · exact hEarlier d hThen hName
        · rintro ⟨hTable, hBefore⟩
          refine ⟨?_, fun d hd => hBefore d (List.mem_append_right _ hd)⟩
          rintro (hx | ⟨d, hd, hName⟩)
          · exact hTable hx
          · exact hBefore d (List.mem_append_left _ hd) hName

end Parser

/-- **Undeclared uses**: in the tree of every text, with any errors, a use of a name is
reported exactly if no declaration of the name stands before it.  So without errors every name
that is used is declared before, and it is in the table. -/
theorem reportsUndeclared_parse_lex_iff (source : String) :
    (∀ before after x p,
        mentionsOf (parse (lex source).tokens).program.body = before ++ .used x p :: after →
          (ReportsUndeclared (parse (lex source).tokens).errors x p ↔
            ∀ d ∈ declaredIn before, d.name ≠ x)) ∧
      ((parse (lex source).tokens).errors = [] → ∀ before after x p,
        mentionsOf (parse (lex source).tokens).program.body = before ++ .used x p :: after →
          (∃ d ∈ declaredIn before, d.name = x) ∧
            x ∈ (parse (lex source).tokens).declarations.names) := by
  obtain ⟨s, hTrace, hErrors, hTable⟩ := Parser.exists_trace_parse (lex source).tokens
  have hLaw : ∀ before after x p,
      mentionsOf (parse (lex source).tokens).program.body = before ++ .used x p :: after →
        (ReportsUndeclared (parse (lex source).tokens).errors x p ↔
          ∀ d ∈ declaredIn before, d.name ≠ x) := by
    intro before after x p hUse
    rw [hErrors, hTrace.reportsUndeclared_iff (Parser.inOrder_initial_lex source) hUse]
    exact and_iff_right List.not_mem_nil
  refine ⟨hLaw, ?_⟩
  intro hClean before after x p hUse
  have hDeclared : ∃ d ∈ declaredIn before, d.name = x := by
    have hNone : ¬ ReportsUndeclared (parse (lex source).tokens).errors x p := by
      rw [hClean]
      rintro ⟨e, he, _⟩
      exact List.not_mem_nil he
    rw [hLaw before after x p hUse] at hNone
    simpa using hNone
  refine ⟨hDeclared, ?_⟩
  rw [hTable, hTrace.tallies.declared, hUse, declaredIn_append, Declarations.mem_names_insertAll_iff]
  obtain ⟨d, hd, hName⟩ := hDeclared
  exact .inr ⟨d, List.mem_append_left _ hd, hName⟩

/-- A use before the declaration of its name, a use in that declaration, and an unfinished
conditional. -/
def earlyUseSource : String :=
  "x += 1; int x = x; if ("

/-- What is mentioned up to the use in the declaration. -/
def earlyMentions : List Mention :=
  [.used "x" ⟨1, 1⟩, .used "x" ⟨1, 1⟩, .literal ⟨.int, "1"⟩, .declared ⟨"x", .int, ⟨1, 13⟩⟩]

theorem reportsUndeclared_earlyUseSource :
    (parse (lex earlyUseSource).tokens).errors ≠ [] ∧
      ReportsUndeclared (parse (lex earlyUseSource).tokens).errors "x" ⟨1, 1⟩ ∧
      ¬ ReportsUndeclared (parse (lex earlyUseSource).tokens).errors "x" ⟨1, 17⟩ ∧
      (parse (lex "int n = n;").tokens).errors = [] ∧
      "n" ∈ (parse (lex "int n = n;").tokens).declarations.names := by
  have hFacts : (parse (lex earlyUseSource).tokens).errors ≠ [] ∧
      mentionsOf (parse (lex earlyUseSource).tokens).program.body =
        earlyMentions ++ [.used "x" ⟨1, 17⟩, .unread ⟨"", ⟨1, 24⟩⟩] := by
    decide +kernel
  have hClean : (parse (lex "int n = n;").tokens).errors = [] ∧
      mentionsOf (parse (lex "int n = n;").tokens).program.body =
        [.declared ⟨"n", .int, ⟨1, 5⟩⟩] ++ [.used "n" ⟨1, 9⟩] := by
    decide +kernel
  obtain ⟨hLaw, _⟩ := reportsUndeclared_parse_lex_iff earlyUseSource
  obtain ⟨_, hTable⟩ := reportsUndeclared_parse_lex_iff "int n = n;"
  have hFirst := hLaw [] _ "x" ⟨1, 1⟩ hFacts.2
  have hOwn := hLaw earlyMentions _ "x" ⟨1, 17⟩ hFacts.2
  refine ⟨hFacts.1, hFirst.mpr (by decide), ?_, hClean.1, ?_⟩
  · rw [hOwn]
    decide
  · exact (hTable hClean.1 _ _ "n" ⟨1, 9⟩ hClean.2).2

end Braceless

import Braceless.Proofs.CompleteTrees
import Braceless.Proofs.Parser.Positions
import Braceless.Proofs.Parser.Soundness

/-!
# Placeholders and errors

Where a parse cannot go on it puts a placeholder into the tree and reports an error, but not
always both, and not always at the same time.  The placeholders for statements are the tokens
that are reported as starting none, but for a closing brace, which is reported and dropped.  A
placeholder for an expression stands where a fault was reported; beyond the nesting limit only
the first of several places is reported, and then that report stands further to the left.

Both laws are about the list of all errors and the tree of a text, on every path of recovery.

## Main definitions

* `unrecognizedIn`, `unreadIn`: the placeholders of a tree, from left to right.
* `unrecognizedErrors`: what is reported as starting no statement, closing braces apart.
* `Accounts`: errors that account for a place where no expression could be read.

## Main results

* `braceSpelled_of_mem_place`: only a closing brace is spelled as one.
* `Parser.Trace.unrecognizedErrors_eq`: the placeholders for statements, in every run.
* `Parser.Trace.accounts`: the placeholders for expressions, in every run.
-/

namespace Braceless

/-! ## Placeholders of a tree -/

/-- The placeholder for a statement that is mentioned, if one is. -/
def Mention.unrecognized? : Mention → Option Placeholder
  | unrecognized p => some p
  | _ => none

/-- The placeholder for an expression that is mentioned, if one is. -/
def Mention.unread? : Mention → Option Placeholder
  | unread p => some p
  | _ => none

/-- The placeholders for statements, in order. -/
def unrecognizedIn (ms : List Mention) : List Placeholder :=
  ms.filterMap Mention.unrecognized?

/-- The placeholders for expressions, in order. -/
def unreadIn (ms : List Mention) : List Placeholder :=
  ms.filterMap Mention.unread?

/-! ## Errors about statements -/

/-- Whether an error says that a token other than a closing brace starts no statement. -/
def SyntaxError.isUnrecognized (e : SyntaxError) : Bool :=
  e.fault == .unrecognizedStatement && e.found != "\x7d"

/-- What was found where no statement starts, and where, closing braces apart. -/
def unrecognizedErrors (errors : List SyntaxError) : List Placeholder :=
  (errors.filter SyntaxError.isUnrecognized).map fun e => ⟨e.found, e.pos⟩

theorem unrecognizedErrors_push (errors : Array SyntaxError) (e : SyntaxError) :
    unrecognizedErrors (errors.push e).toList =
      unrecognizedErrors errors.toList ++ unrecognizedErrors [e] := by
  simp [unrecognizedErrors]

/-- Any other fault leaves them as they are. -/
theorem unrecognizedErrors_push_other (errors : Array SyntaxError) (t : Token)
    {fault : SyntaxFault} (h : fault ≠ .unrecognizedStatement) :
    unrecognizedErrors (errors.push (.ofToken fault t)).toList =
      unrecognizedErrors errors.toList := by
  simp [unrecognizedErrors, SyntaxError.isUnrecognized, SyntaxError.ofToken, h]

/-! ## Closing braces -/

theorem ne_rBrace_of_pairOperator {c d : Char} : pairOperator? c d ≠ some .rBrace := by
  unfold pairOperator?
  split <;> simp

theorem eq_brace_of_singleOperator {c : Char} (h : singleOperator? c = some .rBrace) :
    c = '\x7d' := by
  unfold singleOperator? at h
  split at h <;> simp_all

theorem eq_brace_of_kind_operatorExtent {c : Char} {cs : List Char}
    (h : (operatorExtent c cs).kind = .rBrace) : c = '\x7d' := by
  unfold operatorExtent at h
  split at h
  · next kind hPair =>
      obtain ⟨d, _, hKind⟩ := Option.bind_eq_some_iff.mp hPair
      rw [show kind = .rBrace from h] at hKind
      exact absurd hKind ne_rBrace_of_pairOperator
  · split at h
    · next kind hSingle =>
        rw [show kind = .rBrace from h] at hSingle
        exact eq_brace_of_singleOperator hSingle
    · cases h

theorem kind_numberExtent_ne_rBrace (cs : List Char) : (numberExtent cs).kind ≠ .rBrace := by
  unfold numberExtent
  dsimp only
  split
  · split <;> simp
  · simp

/-- A lexeme that is a closing brace starts with one. -/
theorem eq_brace_of_kind_extent {c : Char} {cs : List Char}
    (h : (extent c cs).kind = .rBrace) : c = '\x7d' := by
  unfold extent at h
  split at h
  · cases h
  split at h
  · cases h
  split at h
  · exact absurd h (kind_numberExtent_ne_rBrace cs)
  split at h
  · cases h
  split at h
  · cases h
  split at h
  · simp only [wordExtent] at h
    split at h <;> cases h
  · exact eq_brace_of_kind_operatorExtent h

/-- A closing brace is a lexeme by itself. -/
theorem extent_brace (cs : List Char) : extent '\x7d' cs = ⟨.rBrace, 0, none⟩ := by
  have hPair : cs.head?.bind (pairOperator? '\x7d') = none := by
    cases cs with
    | nil => rfl
    | cons d ds => rfl
  have hOperator : operatorExtent '\x7d' cs = ⟨.rBrace, 0, none⟩ := by
    rw [operatorExtent, hPair]
    rfl
  rw [← hOperator]
  rfl

/-- Whether a token is a closing brace can be told from its text. -/
def Token.BraceSpelled (t : Token) : Prop :=
  t.kind = .rBrace ↔ t.text = "\x7d"

theorem braceSpelled_front (c : Char) (cs : List Char) (pos : Position) :
    ((Lexeme.front c cs).token pos).BraceSpelled := by
  show (extent c cs).kind = .rBrace ↔
    String.ofList (c :: cs.take (extent c cs).more) = "\x7d"
  constructor
  · intro h
    obtain rfl := eq_brace_of_kind_extent h
    rw [extent_brace]
    rfl
  · intro h
    have hChars := congrArg String.toList h
    rw [String.toList_ofList] at hChars
    have hFirst : c = '\x7d' := (List.cons.inj hChars).1
    rw [hFirst, extent_brace]

/-- Only a closing brace is spelled as one. -/
theorem braceSpelled_of_mem_place {cs : List Char} {pos : Position} {t : Token}
    (h : t ∈ (place pos (pieces cs)).tokens) : t.BraceSpelled := by
  fun_induction pieces cs generalizing pos with
  | case1 =>
      obtain rfl := List.mem_singleton.mp h
      simp [Token.BraceSpelled]
  | case2 c cs _ ih => exact ih h
  | case3 c cs _ ih =>
      rcases List.mem_cons.mp h with rfl | hRest
      · exact braceSpelled_front c cs pos
      · exact ih hRest

namespace Parser

/-! ## Statements -/

/-- States in which only closing braces are spelled as such. -/
structure State.BraceSpelled (s : State) : Prop where
  rest : ∀ t ∈ s.rest, t.BraceSpelled
  stop : s.stop.kind = .eof

theorem State.BraceSpelled.current {s : State} (h : s.BraceSpelled)
    (hEnd : s.current.kind ≠ .eof) : s.current.BraceSpelled := by
  obtain ⟨ts, hRest⟩ := State.exists_rest_eq_cons h.stop hEnd
  exact h.rest s.current (hRest ▸ List.mem_cons_self)

theorem Step.braceSpelled {s s' : State} {ms : List Mention} (h : Step s ms s')
    (hs : s.BraceSpelled) : s'.BraceSpelled :=
  ⟨fun t ht => hs.rest t (h.frame.rest.subset ht), by rw [h.frame.stop]; exact hs.stop⟩

/-- An error about a closing brace does not count. -/
theorem unrecognizedErrors_brace {t : Token} (hKind : t.kind = .rBrace) (h : t.BraceSpelled) :
    unrecognizedErrors [.ofToken .unrecognizedStatement t] = [] := by
  simp [unrecognizedErrors, SyntaxError.isUnrecognized, SyntaxError.ofToken, hKind, h.mp hKind]

/-- An error about any other token is about the placeholder for it. -/
theorem unrecognizedErrors_token {t : Token} (hBrace : t.kind ≠ .rBrace)
    (hEnd : t.kind ≠ .eof) (h : t.BraceSpelled) :
    unrecognizedErrors [.ofToken .unrecognizedStatement t] = [⟨t.text, t.pos⟩] := by
  have hText : t.text ≠ "\x7d" := fun hText => hBrace (h.mpr hText)
  simp [unrecognizedErrors, SyntaxError.isUnrecognized, SyntaxError.ofToken, hEnd, hText]

theorem unrecognizedErrors_declare (s : State) (t : Token) (dataType : DataType) :
    unrecognizedErrors ((declare t dataType).run s).2.errors.toList =
      unrecognizedErrors s.errors.toList := by
  rw [run_declare]
  split
  · exact unrecognizedErrors_push_other s.errors t (by simp)
  · rfl

theorem unrecognizedErrors_checkDeclared (s : State) (t : Token) :
    unrecognizedErrors ((checkDeclared t).run s).2.errors.toList =
      unrecognizedErrors s.errors.toList := by
  rw [run_checkDeclared]
  split
  · rfl
  · exact unrecognizedErrors_push_other s.errors t (by simp)

/-- What a step reports as starting no statement is what it mentions as such. -/
theorem Step.unrecognizedErrors_eq {s s' : State} {ms : List Mention} (h : Step s ms s')
    (hs : s.BraceSpelled) :
    unrecognizedErrors s'.errors.toList =
      unrecognizedErrors s.errors.toList ++ unrecognizedIn ms := by
  cases h with
  | skip _ => exact (List.append_nil _).symm
  | @report fault _ hBrace =>
      show unrecognizedErrors (s.errors.push _).toList = unrecognizedErrors _ ++ []
      by_cases hFault : fault = .unrecognizedStatement
      · subst hFault
        have hKind := hBrace rfl
        have hEnd : s.current.kind ≠ .eof := by
          rw [hKind]
          decide
        rw [unrecognizedErrors_push, unrecognizedErrors_brace hKind (hs.current hEnd)]
      · rw [unrecognizedErrors_push_other s.errors s.current hFault, List.append_nil]
  | level _ _ _ => exact (List.append_nil _).symm
  | overflow =>
      show unrecognizedErrors (s.errors.push _).toList = unrecognizedErrors _ ++ []
      rw [unrecognizedErrors_push_other s.errors s.current (by simp), List.append_nil]
  | declare dataType _ =>
      rw [unrecognizedErrors_declare]
      exact (List.append_nil _).symm
  | lookUp n _ =>
      have hNone : unrecognizedIn
          (List.replicate n (.used s.current.text s.current.pos)) = [] := by
        apply List.filterMap_eq_nil_iff.mpr
        intro m hm
        rw [List.eq_of_mem_replicate hm]
        rfl
      rw [unrecognizedErrors_checkDeclared, hNone]
      exact (List.append_nil _).symm
  | literal _ => exact (List.append_nil _).symm
  | one => exact (List.append_nil _).symm
  | unread _ => exact (List.append_nil _).symm
  | unrecognized hBrace hEnd =>
      show unrecognizedErrors (s.errors.push _).toList = _
      rw [unrecognizedErrors_push, unrecognizedErrors_token hBrace hEnd (hs.current hEnd)]
      rfl

theorem Trace.unrecognizedErrors_eq {s s' : State} {ms : List Mention} (h : Trace s ms s')
    (hs : s.BraceSpelled) :
    unrecognizedErrors s'.errors.toList =
      unrecognizedErrors s.errors.toList ++ unrecognizedIn ms := by
  induction h with
  | refl s => exact (List.append_nil _).symm
  | step hStep _ ih =>
      rw [ih (hStep.braceSpelled hs), hStep.unrecognizedErrors_eq hs, List.append_assoc,
        unrecognizedIn, unrecognizedIn, unrecognizedIn, List.filterMap_append]

theorem braceSpelled_initial_lex (source : String) :
    (State.initial (lex source).tokens).BraceSpelled := by
  refine ⟨?_, kind_endMarker _⟩
  intro t ht
  have hMem := List.mem_of_mem_filter ht
  exact braceSpelled_of_mem_place ((List.takeWhile_sublist _).mem hMem)

end Parser

/-! ## Expressions -/

/-- The errors account for a place where no expression could be read: one that explains it
stands there, or the nesting limit was exceeded further to the left. -/
def Accounts (errors : List SyntaxError) (p : Placeholder) : Prop :=
  (∃ e ∈ errors, e.fault.IsGap ∧ e.pos = p.pos) ∨
    ∃ e ∈ errors, e.fault = .nestingTooDeep ∧ e.pos < p.pos

theorem Accounts.mono {errors errors' : List SyntaxError} {p : Placeholder}
    (h : Accounts errors p) (hSubset : errors ⊆ errors') : Accounts errors' p := by
  rcases h with ⟨e, he, hHere⟩ | ⟨e, he, hLeft⟩
  · exact .inl ⟨e, hSubset he, hHere⟩
  · exact .inr ⟨e, hSubset he, hLeft⟩

namespace Parser

/-- What explains a gap at the current token accounts for the placeholder.  An excursion past
the limit has been reported before, and nothing is reported behind the current token. -/
theorem State.Explained.accounts {s : State} (h : s.Explained) (hs : s.InOrder)
    (hAcc : s.Accounted) : Accounts s.errors.toList ⟨s.current.text, s.current.pos⟩ := by
  rcases h with hOver | ⟨e, he, hFault, hPos⟩
  · obtain ⟨e, he, hFault⟩ := hAcc hOver
    have hMem := Array.mem_toList_iff.mpr he
    rcases Position.eq_or_lt_of_le (hs.errors e he) with hHere | hLeft
    · exact .inl ⟨e, hMem, by rw [hFault]; trivial, hHere⟩
    · exact .inr ⟨e, hMem, hFault, hLeft⟩
  · exact .inl ⟨e, Array.mem_toList_iff.mpr he, hFault, hPos⟩

/-- Only where a gap is explained does a step mention one. -/
theorem Step.accounts {s s' : State} {ms : List Mention} (h : Step s ms s') (hs : s.InOrder)
    (hAcc : s.Accounted) {p : Placeholder} (hp : .unread p ∈ ms) :
    Accounts s'.errors.toList p := by
  cases h with
  | unread hExplained =>
      rw [List.mem_singleton, Mention.unread.injEq] at hp
      rw [hp]
      exact hExplained.accounts hs hAcc
  | lookUp n _ => exact absurd (List.eq_of_mem_replicate hp) (by simp)
  | _ => simp at hp

theorem Trace.accounts {s s' : State} {ms : List Mention} (h : Trace s ms s')
    (hs : s.InOrder) (hAcc : s.Accounted) {p : Placeholder} (hp : .unread p ∈ ms) :
    Accounts s'.errors.toList p := by
  induction h with
  | refl s => exact absurd hp List.not_mem_nil
  | step hStep hRest ih =>
      rcases List.mem_append.mp hp with hNow | hLater
      · exact (hStep.accounts hs hAcc hNow).mono hRest.frame.errors.subset
      · exact ih (hStep.inOrder hs) (hStep.frame.accounted hAcc) hLater

end Parser

/-- **Placeholders and errors match.**  In the tree of every text, with any errors: the
placeholders for statements are what is reported as starting none, in order and closing braces
apart; every placeholder for an expression is accounted for; and without errors the tree and
the output have no gaps. -/
theorem placeholders_parse_lex (source : String) :
    unrecognizedIn (mentionsOf (parse (lex source).tokens).program.body) =
        unrecognizedErrors (parse (lex source).tokens).errors ∧
      (∀ p ∈ unreadIn (mentionsOf (parse (lex source).tokens).program.body),
        Accounts (parse (lex source).tokens).errors p) ∧
      ((parse (lex source).tokens).errors = [] →
        allComplete (parse (lex source).tokens).program.body = true ∧
          Target.allComplete (parse (lex source).tokens).program.lower = true) := by
  obtain ⟨s, hTrace, hErrors, _⟩ := Parser.exists_trace_parse (lex source).tokens
  refine ⟨?_, ?_, ?_⟩
  · rw [hErrors, hTrace.unrecognizedErrors_eq (Parser.braceSpelled_initial_lex source)]
    rfl
  · intro p hp
    have hMention : .unread p ∈ mentionsOf (parse (lex source).tokens).program.body := by
      obtain ⟨m, hm, hUnread⟩ := List.mem_filterMap.mp hp
      cases m <;> cases hUnread
      exact hm
    rw [hErrors]
    exact hTrace.accounts (Parser.inOrder_initial_lex source)
      (fun h => absurd h Bool.false_ne_true) hMention
  · intro hClean
    obtain ⟨n, hProgram⟩ := Parser.exists_isProgram_of_errors_eq_nil
      (fun _ ht => Parser.wellSpelled_of_mem_significant_lex ht) hClean
    have hComplete := hProgram.isComplete
    exact ⟨hComplete, Program.isComplete_lower _ hComplete⟩

/-- A brace that closes nothing, operands that are missing, an assignment without an operator
and a token that starts no statement. -/
def gapSource : String :=
  "\x7d int a = * ; a ; 5"

theorem placeholders_gapSource :
    unrecognizedErrors (parse (lex gapSource).tokens).errors = [⟨"5", ⟨1, 19⟩⟩] ∧
      Accounts (parse (lex gapSource).tokens).errors ⟨";", ⟨1, 17⟩⟩ ∧
      (parse (lex "int n = 2;").tokens).errors = [] ∧
      Target.allComplete (parse (lex "int n = 2;").tokens).program.lower = true := by
  have hMentions : mentionsOf (parse (lex gapSource).tokens).program.body =
      [.declared ⟨"a", .int, ⟨1, 7⟩⟩, .unread ⟨"*", ⟨1, 11⟩⟩, .unread ⟨";", ⟨1, 13⟩⟩,
        .used "a" ⟨1, 15⟩, .unread ⟨";", ⟨1, 17⟩⟩, .unrecognized ⟨"5", ⟨1, 19⟩⟩] := by
    decide +kernel
  have hClean : (parse (lex "int n = 2;").tokens).errors = [] := by decide +kernel
  obtain ⟨hStatements, hExpressions, _⟩ := placeholders_parse_lex gapSource
  rw [hMentions] at hStatements hExpressions
  exact ⟨hStatements.symm, hExpressions _ (by decide), hClean,
    ((placeholders_parse_lex "int n = 2;").2.2 hClean).2⟩

end Braceless

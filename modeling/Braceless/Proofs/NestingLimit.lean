import Braceless.Proofs.Parser.Completeness
import Braceless.Proofs.Parser.LevelBound
import Braceless.Proofs.Parser.Tracing

/-!
# What the nesting limit bounds

The nesting limit bounds the levels that are open at a time while a program is read.  All
levels of its tree are bounded by about three times the square of the limit, and there are
programs without errors that come within two levels of this bound.  So the limit is no bound
on the levels of a tree by itself: a path of the tree can go past it by as many levels as it
turns to left operands.

## Main results

* `levels_parse_le`: the levels of the trees of all parses.
* `levels_parse_bracketedSum`: a program without errors with more levels than the limit.
* `exists_levels_parse`: a program without errors that comes close to the bound.
-/

namespace Braceless

/-! ## All trees -/

/-- **What the nesting limit bounds**: for every token list, the tree has no more levels open
at a time than the limit and one, and no more levels at all than about three times the square
of the limit.  If no path turns more than `n` times to a left operand that has levels of its
own, then `n` more than the limit and one bound all levels of the tree. -/
theorem levels_parse_le (tokens : List Token) :
    (parse tokens).program.levels Expr.opened ≤ maxNesting + 1 ∧
      (parse tokens).program.levels Expr.levels ≤ maxNesting * (3 * maxNesting - 2) + 1 ∧
      ∀ n, (∀ e ∈ (parse tokens).program.expressions, e.leftTurns ≤ n) →
        (parse tokens).program.levels Expr.levels ≤ maxNesting + 1 + n := by
  have hOpened := Parser.returns_program Parser.limited_opened maxNesting (.initial tokens)
  have hLevels := Parser.returns_program Parser.limited_levels maxNesting (.initial tokens)
  rw [deepest_eq] at hLevels
  refine ⟨hOpened, hLevels, fun n hTurns => ?_⟩
  exact (Program.levels_le_opened hTurns).trans (Nat.add_le_add_right hOpened n)

/-- A loop whose condition turns to the left once, to the operand of `&&`. -/
def turningLoop : String :=
  "int i; while (i < 3 && 2 > -(i - 3 - 4)) \x7b i++; \x7d"

theorem levels_parse_turningLoop :
    (∀ e ∈ (parse (lex turningLoop).tokens).program.expressions, e.leftTurns ≤ 1) ∧
      (parse (lex turningLoop).tokens).program.levels Expr.levels ≤ maxNesting + 2 := by
  have hTurns : ∀ e ∈ (parse (lex turningLoop).tokens).program.expressions,
      e.leftTurns ≤ 1 := by
    decide +kernel
  exact ⟨hTurns, (levels_parse_le (lex turningLoop).tokens).2.2 1 hTurns⟩

/-- The tokens of a declaration whose value is a sum: the number one in `k` pairs of brackets
and then `n` times the number one. -/
def bracketedSum (k n : Nat) : List Token :=
  [⟨.keyword, "int", .start⟩, ⟨.identifier, "x", .start⟩, ⟨.assign, "=", .start⟩] ++
    List.replicate k ⟨.lParen, "(", .start⟩ ++ [⟨.integer, "1", .start⟩] ++
    List.replicate k ⟨.rParen, ")", .start⟩ ++
    (List.replicate n [⟨.plus, "+", .start⟩, ⟨.integer, "1", .start⟩]).flatten ++
    [⟨.semicolon, ";", .start⟩]

/-- The limit itself does not bound the tree: the brackets fit into the limit and so do the
operators, but the operators stand above the brackets. -/
theorem levels_parse_bracketedSum :
    (parse (bracketedSum 255 2)).errors = [] ∧
      maxNesting < (parse (bracketedSum 255 2)).program.levels Expr.levels := by
  decide +kernel

/-! ## Programs without names -/

namespace Parser

/-- Neither what is left to read nor what has been reported has to do with names. -/
structure State.WithoutNames (s : State) : Prop where
  rest : Nameless s.rest
  stop : s.stop.kind ≠ .identifier
  errors : ∀ e ∈ s.errors, ¬ e.fault.IsNaming

theorem State.WithoutNames.current {s : State} (hs : s.WithoutNames) :
    s.current.kind ≠ .identifier :=
  State.current_of_forall hs.rest hs.stop

/-- A step reports a variable only at a name. -/
theorem Step.withoutNames {s s' : State} {ms : List Mention} (h : Step s ms s')
    (hs : s.WithoutNames) : s'.WithoutNames := by
  have hFrame := h.frame
  have hReport : ∀ fault : SyntaxFault, ¬ fault.IsNaming →
      ∀ e ∈ s.errors.push (.ofToken fault s.current), ¬ e.fault.IsNaming := by
    intro fault hFault e he
    rcases Array.mem_push.mp he with hOld | rfl
    · exact hs.errors e hOld
    · exact hFault
  refine ⟨fun t ht => hs.rest t (hFrame.rest.subset ht), hFrame.stop ▸ hs.stop, ?_⟩
  cases h with
  | skip _ => exact hs.errors
  | report hFault _ => exact hReport _ hFault
  | level _ _ _ => exact hs.errors
  | overflow => exact hReport _ id
  | declare _ hKind => exact absurd hKind hs.current
  | lookUp _ hKind => exact absurd hKind hs.current
  | literal _ => exact hs.errors
  | one => exact hs.errors
  | unread _ => exact hs.errors
  | unrecognized _ _ => exact hReport _ id

theorem Trace.withoutNames {s s' : State} {ms : List Mention} (h : Trace s ms s')
    (hs : s.WithoutNames) : s'.WithoutNames := by
  induction h with
  | refl s => exact hs
  | step hStep _ ih => exact ih (hStep.withoutNames hs)

/-- A derived program without names and within the limit is parsed without errors. -/
theorem parse_of_nameless {tokens : List Token} {p : Program} {n : Nat}
    (h : Grammar.IsProgram (significant tokens) p n) (hFits : n ≤ maxNesting)
    (hNames : Nameless (significant tokens)) :
    (parse tokens).errors = [] ∧ (parse tokens).program = p := by
  obtain ⟨s, hTrace, hErrors, _⟩ := exists_trace_parse tokens
  have hStop : (endMarker tokens).kind ≠ .identifier := by
    rw [kind_endMarker]
    decide
  have hInitial : (State.initial tokens).WithoutNames :=
    ⟨hNames, hStop, fun e he => absurd he (Array.not_mem_empty e)⟩
  refine ⟨List.eq_nil_iff_forall_not_mem.mpr fun e he => ?_, (outcome_parse h).post.2 hFits⟩
  rcases lawful_parse h e he with hDeep | hNaming
  · exact absurd ((nestingTooDeep_parse_iff h).mp ⟨e, he, hDeep⟩) (Nat.not_lt.mpr hFits)
  · rw [hErrors, Array.mem_toList_iff] at he
    exact (hTrace.withoutNames hInitial).errors e he hNaming

end Parser

/-! ## A program that comes close to the bound -/

/-- The tokens of a loop with the given condition and an empty body. -/
def emptyLoop (condition : List Token) : List Token :=
  ⟨.keyword, "while", .start⟩ :: ⟨.lParen, "(", .start⟩ ::
    (condition ++ ⟨.rParen, ")", .start⟩ ::
      [⟨.lBrace, "\x7b", .start⟩, ⟨.rBrace, "\x7d", .start⟩])

theorem Grammar.isProgram_emptyLoop {ts : List Token} {e : Expr} {n : Nat}
    (h : Operand 0 ts e n) :
    IsProgram (emptyLoop ts) ⟨"Main", "args", [.whileLoop e [] .start]⟩ (n + 1) := by
  have hBody : IsBlock [⟨.lBrace, "\x7b", .start⟩, ⟨.rBrace, "\x7d", .start⟩] [] 1 :=
    .mk rfl .nil rfl
  have hLoop : IsStatement (emptyLoop ts) (.whileLoop e [] .start) (max (n + 1) 1) :=
    .whileLoop ⟨rfl, rfl⟩ rfl h rfl hBody
  have hRun := IsStatements.cons hLoop .nil
  rw [List.append_nil, Nat.max_zero, Nat.max_eq_left (Nat.le_add_left 1 n)] at hRun
  exact .script hRun

theorem nameless_emptyLoop {ts : List Token} (h : Nameless ts) : Nameless (emptyLoop ts) := by
  simpa [Nameless, emptyLoop, or_imp, forall_and] using h

/-- A loop whose condition is the deepest expression of the room that a loop leaves for it. -/
theorem exists_parse_deepest (n : Nat) (hFits : n + 1 ≤ maxNesting) (hn : 0 < n) :
    ∃ tokens, (parse tokens).errors = [] ∧
      (parse tokens).program.levels Expr.levels + 1 = deepest (n + 1) := by
  obtain ⟨ts, e, hOperand, hLevels, hNames⟩ := Grammar.exists_operand_deepest n
  obtain ⟨us, e', hCondition, hTotal, hNameless⟩ :=
    Grammar.exists_operand_chains hOperand hNames (Nat.le_refl 6)
  have hLoop := Grammar.isProgram_emptyLoop hCondition
  have hSeen : Parser.significant (emptyLoop us ++ [⟨.eof, "", .start⟩]) = emptyLoop us :=
    Parser.significant_program hLoop rfl
  have hParse := Parser.parse_of_nameless (Parser.isProgram_significant hLoop rfl) hFits
    (hSeen.symm ▸ nameless_emptyLoop hNameless)
  refine ⟨_, hParse.1, ?_⟩
  rw [hParse.2, Program.levels, levelsOf, levelsOf, Stmt.levels, levelsOf, hTotal, hLevels,
    deepest]
  omega

/-- Up to two levels, the bound on all levels is the best one, and no error has to be reported
for that. -/
theorem exists_levels_parse :
    ∃ tokens, (parse tokens).errors = [] ∧
      (parse tokens).program.levels Expr.levels + 1 = maxNesting * (3 * maxNesting - 2) := by
  rw [← deepest_eq]
  exact exists_parse_deepest 255 (Nat.le_refl maxNesting) (by decide)

end Braceless

import Braceless.Rendering
import Braceless.Proofs.Target.Reading
import Mathlib.Data.List.TakeWhile

/-!
# What the target reads in a lowered expression

The two languages group differently.  The brace language has two levels of comparisons
and a tight negation; the target has one level, on which a run of comparisons is a
chained test, and a negation that is looser than every comparison.  Trees also need not
come from a text: an update `x -= a || b` holds a disjunction as a right operand without
any brackets.  Lowering puts brackets by the pair of operators and the side, and the
target then reads the tree that was meant.

The one place where it does not is a negative of a negation, which no grammar of the
target allows without brackets.

## Main definitions

* `Expr.Valid`: trees whose names and literals are spelled as the lexer spells them.
* `Expr.NoNegatedNot`: trees without a negative of a negation.
* `Expr.targetTree`: the tree that is meant.

## Main results

* `Expr.fits_lower`: lowering puts all the brackets that are needed.
* `Expr.tree_lower`: lowering changes nothing but names and brackets.
-/

namespace Braceless

/-! ## Trees -/

/-- One digit or more. -/
def IsDigits (cs : List Char) : Prop :=
  cs ≠ [] ∧ ∀ c ∈ cs, c.isDigit = true

instance (cs : List Char) : Decidable (IsDigits cs) :=
  decidable_of_iff (cs ≠ [] ∧ cs.all Char.isDigit = true) (by rw [IsDigits, List.all_eq_true])

namespace Literal

/-- Literals that are spelled as the lexer spells them. -/
def Valid (l : Literal) : Prop :=
  match l.kind with
  | .int => IsDigits l.value.toList
  | .double => ∃ whole fraction, l.value.toList = whole ++ '.' :: fraction ∧
      IsDigits whole ∧ IsDigits fraction
  | .char => QuotedBody '\'' l.value.toList
  | .str => QuotedBody '"' l.value.toList
  | .boolean => True

/-- A literal as the target is to understand it. -/
def targetTree (l : Literal) : Target.Tree :=
  match l.kind with
  | .int | .double => .number l.value
  | .char => .quoted '\'' l.value
  | .str => .quoted '"' l.value
  | .boolean => .truth (l.value == "true")

end Literal

namespace Expr

/-- Trees whose names and literals are spelled as the lexer spells them. -/
def Valid : Expr → Prop
  | binary _ left right => left.Valid ∧ right.Valid
  | unary _ operand => operand.Valid
  | group inner => inner.Valid
  | literal l => l.Valid
  | identifier name _ => Target.IsIdentifier name.toList
  | invalid _ => True

/-- Whether an expression is a negation. -/
def isNot : Expr → Bool
  | unary .not _ => true
  | _ => false

/-- Trees in which no negative stands directly on a negation. -/
def NoNegatedNot : Expr → Prop
  | binary _ left right => left.NoNegatedNot ∧ right.NoNegatedNot
  | unary op operand => (op = .neg → operand.isNot = false) ∧ operand.NoNegatedNot
  | group inner => inner.NoNegatedNot
  | literal _ | identifier .. | invalid _ => True

/-- An expression as the target is to understand it: the same operations on the same
operands, with names out of the way of the reserved words. -/
def targetTree : Expr → Target.Tree
  | binary op left right => .binary op left.targetTree right.targetTree
  | unary .not operand => .not operand.targetTree
  | unary .neg operand => .neg operand.targetTree
  | group inner => inner.targetTree
  | literal l => l.targetTree
  | identifier name _ => .name (Target.safeName name)
  | invalid _ => .nothing

end Expr

/-- Trees without a chained comparison. -/
def Target.Tree.Unchained : Target.Tree → Prop
  | chained .. => False
  | binary _ left right => left.Unchained ∧ right.Unchained
  | not operand => operand.Unchained
  | neg operand => operand.Unchained
  | name _ | number _ | quoted .. | truth _ | nothing => True

theorem Literal.unchained_targetTree (l : Literal) : l.targetTree.Unchained := by
  unfold Literal.targetTree
  split <;> trivial

/-- Only a text can hold a chained comparison: no tree means one. -/
theorem Expr.unchained_targetTree (e : Expr) : e.targetTree.Unchained := by
  induction e with
  | binary op left right ihLeft ihRight => exact ⟨ihLeft, ihRight⟩
  | unary op operand ih => cases op <;> exact ih
  | group inner ih => exact ih
  | literal l => exact l.unchained_targetTree
  | identifier name pos => trivial
  | invalid p => trivial

/-! ## Brackets that lowering adds -/

namespace Target

namespace Expr

theorem tree_bracketsIf (wrap : Bool) (e : Expr) : (e.bracketsIf wrap).tree = e.tree := by
  cases wrap <;> rfl

theorem Spelled.bracketsIf {e : Expr} (h : e.Spelled) (wrap : Bool) :
    (e.bracketsIf wrap).Spelled := by
  cases wrap <;> exact h

theorem Fits.bracketsIf {e : Expr} (h : e.Fits) (wrap : Bool) :
    (e.bracketsIf wrap).Fits := by
  cases wrap <;> exact h

end Expr

/-! ## Names and literals -/

theorem IsIdentifier.safeName {name : String} (h : IsIdentifier name.toList) :
    IsIdentifier (safeName name).toList := by
  unfold Target.safeName
  split
  · obtain ⟨d, ds, hName, hStart, hParts⟩ := h
    refine ⟨d, ds ++ ['_'], ?_, hStart, ?_⟩
    · rw [String.toList_append, hName]
      rfl
    · intro c hc
      rcases List.mem_append.mp hc with hMem | hMem
      · exact hParts c hMem
      · rw [List.mem_singleton.mp hMem]
        rfl
  · exact h

/-- The words that are renamed are those with a fixed meaning. -/
theorem mem_reserved_iff {word : String} : word ∈ reserved ↔ word ∈ fixedWords := by
  have hForward : ∀ w ∈ reserved, w ∈ fixedWords := by decide
  have hBackward : ∀ w ∈ fixedWords, w ∈ reserved := by decide
  exact ⟨hForward word, hBackward word⟩

theorem safeName_of_mem {name : String} (h : name ∈ fixedWords) :
    safeName name = name ++ "_" :=
  if_pos (List.contains_iff_mem.mpr (mem_reserved_iff.mpr h))

theorem safeName_of_notMem {name : String} (h : name ∉ fixedWords) : safeName name = name :=
  if_neg fun hMem => h (mem_reserved_iff.mp (List.contains_iff_mem.mp hMem))

/-- No name of the output has a fixed meaning. -/
theorem safeName_notMem_fixedWords (name : String) : safeName name ∉ fixedWords := by
  by_cases h : name ∈ fixedWords
  · have hLonger : ∀ word ∈ fixedWords, word ++ "_" ∉ fixedWords := by decide
    rw [safeName_of_mem h]
    exact hLonger name h
  · rwa [safeName_of_notMem h]

end Target

theorem isNumeral_of_isDigits {cs : List Char} (h : IsDigits cs) :
    Target.isNumeral cs = true := by
  have hTake := List.takeWhile_eq_self_iff.mpr h.2
  have hDrop := List.dropWhile_eq_nil_iff.mpr h.2
  simp [Target.isNumeral, hTake, hDrop, h.1]

theorem isNumeral_of_fraction {whole fraction : List Char} (hWhole : IsDigits whole)
    (hFraction : IsDigits fraction) :
    Target.isNumeral (whole ++ '.' :: fraction) = true := by
  have hTake : (whole ++ '.' :: fraction).takeWhile Char.isDigit = whole := by
    rw [List.takeWhile_append_of_pos hWhole.2, List.takeWhile_cons_of_neg (by decide),
      List.append_nil]
  have hDrop : (whole ++ '.' :: fraction).dropWhile Char.isDigit = '.' :: fraction := by
    rw [List.dropWhile_append_of_pos hWhole.2, List.dropWhile_cons_of_neg (by decide)]
  have hAll : fraction.all Char.isDigit = true := List.all_eq_true.mpr hFraction.2
  simp [Target.isNumeral, hTake, hDrop, hWhole.1, hFraction.1, hAll]

namespace Literal

theorem spelled_lower {l : Literal} (h : l.Valid) : l.lower.Spelled := by
  obtain ⟨kind, value⟩ := l
  cases kind with
  | int => exact isNumeral_of_isDigits h
  | double =>
      obtain ⟨whole, fraction, hValue, hWhole, hFraction⟩ := h
      show Target.isNumeral value.toList = true
      rw [show value.toList = whole ++ '.' :: fraction from hValue]
      exact isNumeral_of_fraction hWhole hFraction
  | char => exact ⟨.inr rfl, h⟩
  | str => exact ⟨.inl rfl, h⟩
  | boolean => trivial

theorem fits_lower (l : Literal) : l.lower.Fits := by
  unfold lower
  split <;> trivial

theorem outerLevel_lower (l : Literal) : l.lower.outerLevel = 6 := by
  unfold lower
  split <;> rfl

theorem tree_lower (l : Literal) : l.lower.tree = l.targetTree := by
  obtain ⟨kind, value⟩ := l
  cases kind <;> rfl

end Literal

/-! ## Levels -/

/-- The strengths of the operators count the levels of the target but for the level of
the negation. -/
theorem strength_cases (op : BinaryOp) :
    Target.level op < 2 ∧ op.strength = Target.level op + 1 ∨
      2 < Target.level op ∧ op.strength = Target.level op := by
  cases op <;> decide

namespace Expr

/-- An operator that may stand on the left of another is of its level or of a tighter one,
and of a tighter one than a comparison. -/
theorem level_of_looseOnLeft {op inner : BinaryOp}
    (h : looseOnLeft op inner.strength = false) :
    Target.level op ≤ Target.level inner ∧
      (Target.level op = 3 → 3 < Target.level inner) := by
  have hOp := strength_cases op
  have hInner := strength_cases inner
  simp only [looseOnLeft, BinaryOp.isComparison, Bool.or_eq_false_iff, Bool.and_eq_false_iff,
    decide_eq_false_iff_not, beq_eq_false_iff_ne] at h
  omega

/-- An operator that may stand on the right of another is of a tighter level. -/
theorem level_of_looseOnRight {op inner : BinaryOp}
    (h : looseOnRight op inner.strength = false) :
    Target.level op < Target.level inner := by
  have hOp := strength_cases op
  have hInner := strength_cases inner
  simp only [looseOnRight, decide_eq_false_iff_not] at h
  omega

/-- An operand is a factor, or an operation that is not too loose for its place. -/
theorem outerLevel_operand (loose : Nat → Bool) (e : Expr) :
    (e.lower.bracketsIf (e.needsBrackets loose)).outerLevel = 6 ∨
      ∃ op : BinaryOp, loose op.strength = false ∧
        (e.lower.bracketsIf (e.needsBrackets loose)).outerLevel = Target.level op := by
  cases e with
  | binary op left right =>
      cases hLoose : loose op.strength with
      | true =>
          left
          simp only [needsBrackets, hLoose]
          rfl
      | false =>
          right
          refine ⟨op, hLoose, ?_⟩
          simp only [needsBrackets, hLoose]
          rfl
  | unary op operand => cases op <;> exact .inl rfl
  | group inner => exact .inl rfl
  | literal l => exact .inl l.outerLevel_lower
  | identifier name pos => exact .inl rfl
  | invalid p => exact .inl rfl

/-- An operand of a unary operator is a factor, unless it is a negation. -/
theorem outerLevel_unaryOperand (e : Expr) :
    (e.lower.bracketsIf e.isBinary).outerLevel = if e.isNot then 2 else 6 := by
  cases e with
  | unary op operand => cases op <;> rfl
  | literal l => exact l.outerLevel_lower
  | binary op left right => rfl
  | group inner => rfl
  | identifier name pos => rfl
  | invalid p => rfl

/-! ## Lowered expressions -/

theorem spelled_lower {e : Expr} (h : e.Valid) : e.lower.Spelled := by
  induction e with
  | binary op left right ihLeft ihRight =>
      exact ⟨(ihLeft h.1).bracketsIf _, (ihRight h.2).bracketsIf _⟩
  | unary op operand ih => cases op <;> exact (ih h).bracketsIf _
  | group inner ih => exact ih h
  | literal l => exact l.spelled_lower h
  | identifier name pos => exact h.safeName
  | invalid p => trivial

/-- Lowering puts all the brackets that are needed. -/
theorem fits_lower {e : Expr} (h : e.NoNegatedNot) : e.lower.Fits := by
  induction e with
  | binary op left right ihLeft ihRight =>
      have hFive := (Target.level_le_five op).1
      have hLeft : Target.level op ≤
            (left.lower.bracketsIf (left.needsBrackets (looseOnLeft op))).outerLevel ∧
          (Target.level op = 3 →
            3 < (left.lower.bracketsIf (left.needsBrackets (looseOnLeft op))).outerLevel) := by
        rcases outerLevel_operand (looseOnLeft op) left with hSix | ⟨inner, hLoose, hLevel⟩
        · omega
        · rw [hLevel]
          exact level_of_looseOnLeft hLoose
      have hRight : Target.level op <
          (right.lower.bracketsIf (right.needsBrackets (looseOnRight op))).outerLevel := by
        rcases outerLevel_operand (looseOnRight op) right with hSix | ⟨inner, hLoose, hLevel⟩
        · omega
        · rw [hLevel]
          exact level_of_looseOnRight hLoose
      exact ⟨hLeft.1, hLeft.2, hRight, (ihLeft h.1).bracketsIf _, (ihRight h.2).bracketsIf _⟩
  | unary op operand ih =>
      have hLevel := outerLevel_unaryOperand operand
      have hOperand := (ih h.2).bracketsIf operand.isBinary
      cases op with
      | not =>
          refine ⟨?_, hOperand⟩
          rw [hLevel]
          split <;> omega
      | neg =>
          refine ⟨?_, hOperand⟩
          rw [hLevel, h.1 rfl]
          exact Nat.le_refl 6
  | group inner ih => exact ih h
  | literal l => exact l.fits_lower
  | identifier name pos => exact fun hKeyword =>
      Target.safeName_notMem_fixedWords name (List.mem_append_left _ hKeyword)
  | invalid p => trivial

/-- Lowering changes nothing but names and brackets. -/
theorem tree_lower (e : Expr) : e.lower.tree = e.targetTree := by
  induction e with
  | binary op left right ihLeft ihRight =>
      simp only [lower, Target.Expr.tree, Target.Expr.tree_bracketsIf, ihLeft, ihRight,
        targetTree]
  | unary op operand ih =>
      cases op <;>
        simp only [lower, Target.Expr.tree, Target.Expr.tree_bracketsIf, ih, targetTree]
  | group inner ih => exact ih
  | literal l => exact l.tree_lower
  | identifier name pos => rfl
  | invalid p => rfl

end Expr

/-- The target reads the text of a lowered expression as the tree that is meant, in which
no comparison is chained. -/
theorem read_text_lower {e : Expr} (hValid : e.Valid) (hNegated : e.NoNegatedNot) :
    Target.read e.lower.text = some e.targetTree ∧ e.targetTree.Unchained := by
  have hRead := Target.read_text (Expr.spelled_lower hValid) (Expr.fits_lower hNegated)
  rw [Expr.tree_lower] at hRead
  exact ⟨hRead, e.unchained_targetTree⟩

/-- Operations on both sides that need brackets and some that do not, with an update's
bare disjunction, a renamed name, an escaped quote and a placeholder. -/
def bracketedSample : Expr :=
  .binary .and
    (.unary .not (.binary .eq
      (.binary .lt (.identifier "x" ⟨1, 1⟩)
        (.unary .neg (.unary .neg (.literal ⟨.double, "1.50"⟩))))
      (.literal ⟨.boolean, "true"⟩)))
    (.binary .gtEq
      (.binary .sub (.identifier "in" ⟨1, 1⟩)
        (.binary .or (.unary .not (.identifier "b" ⟨1, 1⟩)) (.invalid ⟨";", ⟨1, 1⟩⟩)))
      (.group (.literal ⟨.str, "\\\"a"⟩)))

theorem read_text_lower_bracketedSample :
    bracketedSample.lower.text =
        "(not ((x < --1.50) == True)) and in_ - ((not b) or None) >= (\"\\\"a\")" ∧
      bracketedSample.Valid ∧ bracketedSample.NoNegatedNot ∧
      Target.read bracketedSample.lower.text = some bracketedSample.targetTree ∧
      bracketedSample.targetTree.Unchained := by
  have hQuoted : QuotedBody '"' "\\\"a".toList :=
    .escape (by decide) (.plain (by decide) (by decide) (by decide) .nil)
  have hDouble : (Literal.mk .double "1.50").Valid :=
    ⟨['1'], ['5', '0'], rfl, ⟨nofun, List.all_eq_true.mp rfl⟩,
      ⟨nofun, List.all_eq_true.mp rfl⟩⟩
  have hValid : bracketedSample.Valid :=
    ⟨⟨⟨Target.isIdentifier_cons rfl rfl, hDouble⟩, trivial⟩,
      ⟨Target.isIdentifier_cons rfl rfl, Target.isIdentifier_cons rfl rfl, trivial⟩, hQuoted⟩
  have hNegated : bracketedSample.NoNegatedNot := by
    simp [bracketedSample, Expr.NoNegatedNot, Expr.isNot]
  exact ⟨by decide, hValid, hNegated, read_text_lower hValid hNegated⟩

end Braceless

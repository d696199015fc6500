import Braceless.Analysis
import Braceless.Proofs.Levels
import Braceless.Proofs.Literals
import Mathlib.Data.List.Chain

/-!
# Which expressions are sentences of the target

The grammar of the target's expressions, as a set of rules and not as a reader, and the texts that
lowering writes.  Two places decide on brackets.  One looks at the operands of a binary operator and
puts brackets around every negation there.  The other looks at the operand of a unary operator and
puts brackets around binary operations only.  So a negative of a negation is written `-not x`, and no
rule of the target has a `not` behind a minus.

This is the only way to leave the grammar.  A `not` may stand first, behind an opening bracket and
behind another word, and where all of them do, the text is a sentence.

## Main definitions

* `Target.Sentence`: the rules of the target, by level.
* `Target.MayPrecede`: what a `not` may stand behind.

## Main results

* `Target.Sentence.isChain`: in a sentence, every `not` stands where it may.
* `Expr.sentence_lower_iff`: a lowered expression is a sentence unless it has a negative of a
  negation.
* `mentions_subset_of_mem_expressions`: a program mentions what its expressions mention.
-/

namespace Braceless

namespace Target

/-! ## The rules -/

/-- The sentences of the target's grammar of expressions.  The levels are those of its rules, from
disjunctions at 0 to factors at 6. -/
inductive Sentence : Nat → List Token → Prop where
  /-- A name, a literal or one of the constants. -/
  | atom {t : Token} {a : Tree} (h : Target.atom t = some a) : Sentence 6 [t]
  | brackets {ts : List Token} (inner : Sentence 0 ts) :
      Sentence 6 (.symbol "(" :: (ts ++ [.symbol ")"]))
  | neg {ts : List Token} (operand : Sentence 6 ts) : Sentence 6 (.symbol "-" :: ts)
  | not {ts : List Token} (operand : Sentence 2 ts) : Sentence 2 (.word "not" :: ts)
  /-- A rule includes the next tighter one. -/
  | tighter {k : Nat} {ts : List Token} (h : Sentence (k + 1) ts) : Sentence k ts
  /-- A run of operators of one level, or a chained comparison. -/
  | binary {t : Token} {op : BinaryOp} {ts us : List Token} (h : operator t = some op)
      (left : Sentence (level op) ts) (right : Sentence (level op + 1) us) :
      Sentence (level op) (ts ++ t :: us)

theorem Sentence.of_le {k l : Nat} {ts : List Token} (h : Sentence l ts) (hkl : k ≤ l) :
    Sentence k ts := by
  obtain ⟨d, rfl⟩ := Nat.exists_eq_add_of_le hkl
  induction d with
  | zero => exact h
  | succ d ih => exact ih h.tighter (Nat.le_add_right k d)

/-- An expression with the brackets that it needs is a sentence. -/
theorem sentence_tokens {e : Expr} (hFits : e.Fits) : Sentence e.outerLevel e.tokens := by
  induction e with
  | name text => exact .atom (atom_name hFits)
  | number text => exact .atom rfl
  | quoted quote body => exact .atom rfl
  | truth value => cases value <;> exact .atom rfl
  | nothing => exact .atom rfl
  | not operand ih => exact .not ((ih hFits.2).of_le hFits.1)
  | neg operand ih => exact .neg ((ih hFits.2).of_le hFits.1)
  | brackets inner ih => exact .brackets ((ih hFits).of_le (Nat.zero_le _))
  | binary op left right ihLeft ihRight =>
      obtain ⟨hLeft, -, hRight, hFitsLeft, hFitsRight⟩ := hFits
      exact .binary (operator_operatorToken op) ((ihLeft hFitsLeft).of_le hLeft)
        ((ihRight hFitsRight).of_le hRight)

/-! ## Where a negation may stand -/

/-- Whether `a` may stand before `b`: a `not` has an opening bracket or a word before it. -/
def MayPrecede (a b : Token) : Prop :=
  b = .word "not" → a ∈ [.symbol "(", .word "and", .word "or", .word "not"]

theorem operator_ne_not {t : Token} {op : BinaryOp} (h : operator t = some op) :
    t ≠ .word "not" := by
  rintro rfl
  cases h

/-- The rules from comparisons on have no sentence that starts with a `not`. -/
theorem Sentence.head?_ne_not {k : Nat} {ts : List Token} (h : Sentence k ts) (hk : 3 ≤ k) :
    ts.head? ≠ some (.word "not") := by
  induction h with
  | atom h =>
      intro hHead
      obtain rfl := Option.some.inj hHead
      cases h
  | brackets _ _ => simp
  | neg _ _ => simp
  | not _ _ => exact absurd hk (by decide)
  | tighter _ ih => exact ih (Nat.le_succ_of_le hk)
  | @binary t op ts us h left right ihLeft _ =>
      cases ts with
      | nil => simpa using operator_ne_not h
      | cons u ts => exact ihLeft hk

/-- The operators that bind looser than a negation are words. -/
theorem operator_of_level_lt {t : Token} {op : BinaryOp} (h : operator t = some op)
    (hLevel : level op < 2) : t ∈ [.symbol "(", .word "and", .word "or", .word "not"] := by
  unfold operator at h
  split at h
  case h_1 => decide
  case h_2 => decide
  case h_14 => cases h
  all_goals
    obtain rfl := Option.some.inj h
    exact absurd hLevel (by decide)

/-- **In a sentence, every `not` stands where it may.** -/
theorem Sentence.isChain {k : Nat} {ts : List Token} (h : Sentence k ts) :
    ts.IsChain MayPrecede := by
  induction h with
  | atom _ => exact .singleton _
  | @brackets ts _ ih =>
      refine List.isChain_cons.mpr ⟨fun _ _ _ => by decide, ?_⟩
      refine List.isChain_append.mpr ⟨ih, .singleton _, fun _ _ b hb hNot => ?_⟩
      obtain rfl := Option.some.inj hb
      cases hNot
  | @neg ts operand ih =>
      refine List.isChain_cons.mpr ⟨fun b hb hNot => ?_, ih⟩
      subst hNot
      exact absurd hb (operand.head?_ne_not (by decide))
  | not _ ih => exact List.isChain_cons.mpr ⟨fun _ _ _ => by decide, ih⟩
  | tighter _ ih => exact ih
  | @binary t op ts us h left right ihLeft ihRight =>
      refine List.isChain_append.mpr ⟨ihLeft, List.isChain_cons.mpr ⟨?_, ihRight⟩, ?_⟩
      · -- Only an operand that binds looser than a comparison may start with a `not`.
        rintro b hb rfl
        have hLevel : level op < 2 := by
          by_contra hTight
          exact right.head?_ne_not (by omega) hb
        exact operator_of_level_lt h hLevel
      · intro _ _ b hb hNot
        obtain rfl := Option.some.inj hb
        exact absurd hNot (operator_ne_not h)

end Target

/-! ## Lowered expressions -/

theorem Target.Expr.isChain_of_bracketsIf {e : Target.Expr} {wrap : Bool}
    (h : (e.bracketsIf wrap).tokens.IsChain MayPrecede) : e.tokens.IsChain MayPrecede := by
  cases wrap with
  | false => exact h
  | true => exact (List.isChain_append.mp (List.isChain_cons.mp h).2).1

namespace Expr

/-- A negation is never put in brackets as the operand of a unary operator. -/
theorem head?_tokens_of_isNot {e : Expr} (h : e.isNot = true) :
    (e.lower.bracketsIf e.isBinary).tokens.head? = some (.word "not") := by
  cases e with
  | unary op operand =>
      cases op with
      | not => rfl
      | neg => cases h
  | _ => cases h

/-- Where every `not` stands where it may, no negative stands on a negation. -/
theorem noNegatedNot_of_isChain {e : Expr} (h : e.lower.tokens.IsChain Target.MayPrecede) :
    e.NoNegatedNot := by
  induction e with
  | binary op left right ihLeft ihRight =>
      obtain ⟨hLeft, hRight, -⟩ := List.isChain_append.mp h
      exact ⟨ihLeft (Target.Expr.isChain_of_bracketsIf hLeft),
        ihRight (Target.Expr.isChain_of_bracketsIf (List.isChain_cons.mp hRight).2)⟩
  | unary op operand ih =>
      cases op with
      | not =>
          obtain ⟨-, hOperand⟩ := List.isChain_cons.mp h
          exact ⟨nofun, ih (Target.Expr.isChain_of_bracketsIf hOperand)⟩
      | neg =>
          obtain ⟨hHead, hOperand⟩ := List.isChain_cons.mp h
          refine ⟨fun _ => ?_, ih (Target.Expr.isChain_of_bracketsIf hOperand)⟩
          cases hNot : operand.isNot with
          | false => rfl
          | true =>
              have hMinus := hHead _ (head?_tokens_of_isNot hNot) rfl
              exact absurd hMinus (by decide)
  | group inner ih => exact ih (List.isChain_append.mp (List.isChain_cons.mp h).2).1
  | literal l => trivial
  | identifier name pos => trivial
  | invalid p => trivial

/-- **A lowered expression is a sentence** exactly if no negative stands on a negation. -/
theorem sentence_lower_iff (e : Expr) :
    Target.Sentence 0 e.lower.tokens ↔ e.NoNegatedNot :=
  ⟨fun h => noNegatedNot_of_isChain h.isChain,
    fun h => (Target.sentence_tokens (fits_lower h)).of_le (Nat.zero_le _)⟩

end Expr

/-! ## The expressions of a program -/

section Mentions

open List (subset_append_left subset_append_of_subset_left subset_append_of_subset_right)

theorem Declaration.mentions_subset {d : Declaration} {e : Expr} (h : e ∈ d.value.toList) :
    e.mentions ⊆ d.mentions := by
  have hValue : d.value = some e := by simpa using h
  unfold Declaration.mentions
  rw [hValue]
  exact List.subset_cons_self _ _

theorem ForInit.mentions_subset {init : ForInit} {e : Expr} (h : e ∈ init.expressions) :
    e.mentions ⊆ init.mentions := by
  cases init with
  | declaration d => exact Declaration.mentions_subset h
  | assignment a =>
      obtain rfl := List.mem_singleton.mp h
      exact List.subset_cons_self _ _

theorem update_mentions_subset {update : Option Assignment} {e : Expr}
    (h : e ∈ update.toList.map Assignment.value) :
    e.mentions ⊆ mentionsIn Assignment.mentions update := by
  obtain ⟨a, ha, rfl⟩ := List.mem_map.mp h
  obtain rfl : update = some a := by simpa using ha
  exact List.subset_cons_self _ _

mutual

theorem Stmt.mentions_subset (s : Stmt) {e : Expr} (h : e ∈ s.expressions) :
    e.mentions ⊆ s.mentions := by
  cases s with
  | declaration d => exact Declaration.mentions_subset h
  | assignment a =>
      obtain rfl := List.mem_singleton.mp h
      exact List.subset_cons_self _ _
  | ifElse i => exact i.mentions_subset h
  | forLoop init condition update body pos =>
      simp only [Stmt.expressions, List.mem_append, List.mem_cons] at h
      rcases h with (hInit | rfl | hUpdate) | hBody
      · exact subset_append_of_subset_left _ (ForInit.mentions_subset hInit)
      · exact subset_append_of_subset_right _ (subset_append_left _ _)
      · exact subset_append_of_subset_right _ (subset_append_of_subset_right _
          (subset_append_of_subset_left _ (update_mentions_subset hUpdate)))
      · exact subset_append_of_subset_right _ (subset_append_of_subset_right _
          (subset_append_of_subset_right _ (mentions_subset_of_mem_expressions body hBody)))
  | whileLoop condition body pos =>
      rcases List.mem_cons.mp h with rfl | hBody
      · exact subset_append_left _ _
      · exact subset_append_of_subset_right _ (mentions_subset_of_mem_expressions body hBody)
  | print argument newline pos =>
      obtain rfl : argument = some e := by simpa [Stmt.expressions] using h
      exact List.Subset.refl _
  | invalid p => cases h

theorem IfStatement.mentions_subset (i : IfStatement) {e : Expr} (h : e ∈ i.expressions) :
    e.mentions ⊆ i.mentions := by
  obtain ⟨condition, thenBody, orElse, pos⟩ := i
  simp only [IfStatement.expressions, List.mem_append, List.mem_cons] at h
  rcases h with (rfl | hThen) | hElse
  · exact subset_append_left _ _
  · exact subset_append_of_subset_right _
      (subset_append_of_subset_left _ (mentions_subset_of_mem_expressions thenBody hThen))
  · exact subset_append_of_subset_right _
      (subset_append_of_subset_right _ (orElse.mentions_subset hElse))

theorem Else.mentions_subset (o : Else) {e : Expr} (h : e ∈ o.expressions) :
    e.mentions ⊆ o.mentions := by
  cases o with
  | none => cases h
  | elseIf i => exact i.mentions_subset h
  | block body => exact mentions_subset_of_mem_expressions body h

/-- Statements mention what their expressions mention. -/
theorem mentions_subset_of_mem_expressions (ss : List Stmt) {e : Expr}
    (h : e ∈ expressionsOf ss) : e.mentions ⊆ mentionsOf ss := by
  cases ss with
  | nil => cases h
  | cons s ss =>
      rcases List.mem_append.mp h with hFirst | hRest
      · exact subset_append_of_subset_left _ (s.mentions_subset hFirst)
      · exact subset_append_of_subset_right _ (mentions_subset_of_mem_expressions ss hRest)

end

end Mentions

/-- An expression is valid if all that it mentions is spelled. -/
theorem Expr.valid_of_spelled {e : Expr} (h : ∀ m ∈ e.mentions, m.Spelled) : e.Valid := by
  induction e with
  | binary op left right ihLeft ihRight =>
      obtain ⟨hLeft, hRight⟩ := List.forall_mem_append.mp h
      exact ⟨ihLeft hLeft, ihRight hRight⟩
  | unary op operand ih => exact ih h
  | group inner ih => exact ih h
  | literal l => exact h _ List.mem_cons_self
  | identifier name pos => exact h _ List.mem_cons_self
  | invalid p => trivial

/-- **Which expressions of the output are sentences.**  Take a text without lexical errors.  The text
that is written for an expression of its program always falls into tokens of the target, and these
are a sentence exactly if no negative stands directly on a negation. -/
theorem sentence_text_lower_iff {source : String} (hErrors : (lex source).errors = []) {e : Expr}
    (he : e ∈ (parse (lex source).tokens).program.expressions) :
    ∃ ts, Target.tokenize e.lower.text.toList = some ts ∧
      (Target.Sentence 0 ts ↔ e.NoNegatedNot) := by
  have hSpelled : ∀ m ∈ e.mentions, m.Spelled := fun m hm =>
    spelled_mentions_parse_lex hErrors m (mentions_subset_of_mem_expressions _ he hm)
  have hValid := Expr.spelled_lower (Expr.valid_of_spelled hSpelled)
  exact ⟨e.lower.tokens, Target.tokenize_text_nil hValid, e.sentence_lower_iff⟩

/-- Negations as operands of both kinds of operators, and brackets that are in the source. -/
def negationSource : String :=
  "boolean b = !!true; int x = - -1; while (!b && !(x < -(2)) == b) \x7b x = -(!b); \x7d"

/-- The value of the assignment in `negationSource`. -/
def bracketedNegation : Expr :=
  .unary .neg (.group (.unary .not (.identifier "b" ⟨1, 75⟩)))

theorem sentence_bracketedNegation :
    (lex negationSource).errors = [] ∧
      bracketedNegation ∈ (parse (lex negationSource).tokens).program.expressions ∧
      (parse (lex negationSource).tokens).program.expressions.map (·.lower.text) =
        ["not not True", "--1", "(not b) and (not (x < -(2))) == b", "-(not b)"] ∧
      ∃ ts, Target.tokenize bracketedNegation.lower.text.toList = some ts ∧
        Target.Sentence 0 ts := by
  have hErrors : (lex negationSource).errors = [] := by decide +kernel
  have hMem : bracketedNegation ∈ (parse (lex negationSource).tokens).program.expressions := by
    decide +kernel
  have hNegated : bracketedNegation.NoNegatedNot := ⟨fun _ => rfl, nofun, trivial⟩
  obtain ⟨ts, hTokens, hSentence⟩ := sentence_text_lower_iff hErrors hMem
  exact ⟨hErrors, hMem, by decide +kernel, ts, hTokens, hSentence.mpr hNegated⟩

/-- A negative of a negation without brackets. -/
def negatedSource : String :=
  "boolean b = true; int x = -!b;"

/-- The first value of the second variable in `negatedSource`. -/
def negatedNegation : Expr :=
  .unary .neg (.unary .not (.identifier "b" ⟨1, 29⟩))

/-- A program without any errors whose output is no program: a minus stands before a `not`. -/
theorem not_sentence_negatedNegation :
    (analyze negatedSource default).success = true ∧
      (analyze negatedSource default).python = "b = True\nx = -not b" ∧
      negatedNegation ∈ (parse (lex negatedSource).tokens).program.expressions ∧
      negatedNegation.lower.text = "-not b" ∧
      ∀ ts, Target.tokenize negatedNegation.lower.text.toList = some ts →
        ¬ Target.Sentence 0 ts := by
  refine ⟨by decide +kernel, by decide +kernel, by decide +kernel, by decide, ?_⟩
  intro ts hTokens hSentence
  have hSpelled : negatedNegation.lower.Spelled := Target.isIdentifier_cons rfl rfl
  obtain rfl := Option.some.inj (hTokens.symm.trans (Target.tokenize_text_nil hSpelled))
  have hNegated := (Expr.sentence_lower_iff negatedNegation).mp hSentence
  exact absurd (hNegated.1 rfl) (by decide)

end Braceless

import Braceless.Proofs.Spelling
import Braceless.Target.Expr

/-!
# Tokens of the indentation language

What a text of the target consists of, as far as expressions need it.  The rules are
those of the target's own reference: the longest token comes first, a quote ends at the
first unescaped quote of its kind and not at the end of a line, and three quotes in a
row open a text of another kind.  Where a text goes beyond expressions, or where two
tokens touch that are usually apart, there is no answer.

Names and literals are taken as atoms: how far they reach is asked, and not whether the
target accepts what is within.  So `007`, a carriage return between quotes and an escape
that is cut short are tokens here, though the target refuses them.  Where such a literal is
part of a statement, its digits or its body have to be looked at as well.

## Main definitions

* `Target.Token`, `Target.tokenize`: the tokens of a text.
* `Target.Expr.tokens`: the tokens of an expression.
* `Target.Expr.Spelled`: expressions whose names and literals are tokens.

## Main results

* `tokenize_text`: the text of an expression has the tokens of the expression.
-/

namespace Braceless

namespace Target

/-! ## Tokens -/

/-- A token of the target. -/
inductive Token where
  | word (text : String)
  | number (text : String)
  | quoted (quote : Char) (body : String)
  | symbol (text : String)
deriving DecidableEq, Repr

/-- Digits, with a fraction or without. -/
def isNumeral (cs : List Char) : Bool :=
  !(cs.takeWhile Char.isDigit).isEmpty &&
    match cs.dropWhile Char.isDigit with
    | [] => true
    | '.' :: ds => !ds.isEmpty && ds.all Char.isDigit
    | _ => false

/-- What may follow a word or a number. -/
def endsWord (cs : List Char) : Bool :=
  cs.head?.all [' ', '(', ')', '+', '-', '*', '/', '%', '<', '>', '=', '!'].contains

/-- What stands before the closing quote, if there is one on the line. -/
def quotedBody (quote : Char) : List Char → Option (List Char)
  | [] => none
  | c :: cs =>
    if c = '\n' then none
    else if c = '\\' then
      match cs with
      | [] => none
      | d :: ds => if d = '\n' then none else (quotedBody quote ds).map ('\\' :: d :: ·)
    else if c = quote then some []
    else (quotedBody quote cs).map (c :: ·)

/-- Pairs that are one operator, and none of an expression. -/
def otherPairs : List (Char × Char) :=
  [('*', '*'), ('/', '/'), ('<', '<'), ('>', '>'), ('-', '>'), ('<', '>')]

/-- The operator or bracket that starts with `c`, with the number of its further
characters. -/
def symbolAt (c : Char) (cs : List Char) : Option (Token × Nat) :=
  if cs.head? = some '=' then
    if c ∈ ['=', '!', '<', '>'] then some (.symbol (String.ofList [c, '=']), 1) else none
  else if cs.head?.any fun d => otherPairs.contains (c, d) then none
  else if c ∈ ['(', ')', '+', '-', '*', '/', '%', '<', '>'] then
    some (.symbol (String.ofList [c]), 0)
  else none

/-- The token that starts with `c`, which is not blank, and the number of its further
characters. -/
def tokenAt (c : Char) (cs : List Char) : Option (Token × Nat) :=
  if isWordStart c then
    let more := runLength isWordPart cs
    if endsWord (cs.drop more) then some (.word (String.ofList (c :: cs.take more)), more)
    else none
  else if c.isDigit then
    let more := runLength (fun d => isWordPart d || d == '.') cs
    if isNumeral (c :: cs.take more) && endsWord (cs.drop more) then
      some (.number (String.ofList (c :: cs.take more)), more)
    else none
  else if c = '"' ∨ c = '\'' then
    if cs.take 2 = [c, c] then none
    else (quotedBody c cs).map fun body => (.quoted c (String.ofList body), body.length + 1)
  else symbolAt c cs

/-- The tokens of a text. -/
def tokenize : List Char → Option (List Token)
  | [] => some []
  | c :: cs =>
    if c = ' ' then tokenize cs
    else
      match tokenAt c cs with
      | none => none
      | some (t, more) => (tokenize (cs.drop more)).map (t :: ·)
termination_by cs => cs.length
decreasing_by
  · exact Nat.lt_succ_self _
  · rw [List.length_drop]
    exact Nat.lt_succ_of_le (Nat.sub_le _ _)

theorem tokenize_blank (cs : List Char) : tokenize (' ' :: cs) = tokenize cs := by
  rw [tokenize, if_pos rfl]

/-- One token in front of a text. -/
theorem tokenize_cons {c : Char} {cs : List Char} {t : Token} {more : Nat} (hc : c ≠ ' ')
    (h : tokenAt c cs = some (t, more)) :
    tokenize (c :: cs) = (tokenize (cs.drop more)).map (t :: ·) := by
  rw [tokenize, if_neg hc, h]

/-! ## The tokens of an expression -/

/-- The token of a binary operator. -/
def operatorToken : BinaryOp → Token
  | .and => .word "and"
  | .or => .word "or"
  | op => .symbol op.spelling

/-- The tokens of an expression. -/
def Expr.tokens : Expr → List Token
  | name text => [.word text]
  | number text => [.number text]
  | quoted quote body => [.quoted quote body]
  | truth value => [.word (if value then "True" else "False")]
  | nothing => [.word "None"]
  | not operand => .word "not" :: operand.tokens
  | neg operand => .symbol "-" :: operand.tokens
  | brackets inner => .symbol "(" :: (inner.tokens ++ [.symbol ")"])
  | binary op left right => left.tokens ++ operatorToken op :: right.tokens

/-- A letter or underscore, and then letters, digits and underscores. -/
def IsIdentifier (cs : List Char) : Prop :=
  ∃ d ds, cs = d :: ds ∧ isWordStart d = true ∧ ∀ c ∈ ds, isWordPart c = true

theorem isIdentifier_cons {c : Char} {cs : List Char} (hStart : isWordStart c = true)
    (hParts : cs.all isWordPart = true) : IsIdentifier (c :: cs) :=
  ⟨c, cs, rfl, hStart, List.all_eq_true.mp hParts⟩

instance (cs : List Char) : Decidable (IsIdentifier cs) :=
  match cs with
  | [] => isFalse fun ⟨_, _, h, _⟩ => List.cons_ne_nil _ _ h.symm
  | c :: cs => decidable_of_iff (isWordStart c = true ∧ cs.all isWordPart = true)
      ⟨fun h => isIdentifier_cons h.1 h.2, fun ⟨_, _, h, hStart, hParts⟩ =>
        (List.cons.inj h).1 ▸ (List.cons.inj h).2 ▸ ⟨hStart, List.all_eq_true.mpr hParts⟩⟩

/-- Expressions whose names and literals are each one token. -/
def Expr.Spelled : Expr → Prop
  | name text => IsIdentifier text.toList
  | number text => isNumeral text.toList = true
  | quoted quote body => (quote = '"' ∨ quote = '\'') ∧ QuotedBody quote body.toList
  | truth _ | nothing => True
  | not operand => operand.Spelled
  | neg operand => operand.Spelled
  | brackets inner => inner.Spelled
  | binary _ left right => left.Spelled ∧ right.Spelled

/-- What follows an expression in a text: nothing, a blank or a closing bracket. -/
def Follows (cs : List Char) : Prop :=
  ∀ c ∈ cs.head?, c = ' ' ∨ c = ')'

theorem follows_cons {c : Char} (cs : List Char) (h : c = ' ' ∨ c = ')') :
    Follows (c :: cs) := by
  intro d hd
  obtain rfl := Option.some.inj hd
  exact h

theorem endsWord_of_follows {cs : List Char} (h : Follows cs) : endsWord cs = true := by
  cases cs with
  | nil => rfl
  | cons c cs =>
      rcases h c rfl with rfl | rfl
      · rfl
      · rfl

/-- A run ends at what follows. -/
theorem runLength_append {p : Char → Bool} {cs rest : List Char}
    (hcs : ∀ c ∈ cs, p c = true) (hRest : Follows rest) (hBlank : p ' ' = false)
    (hClose : p ')' = false) : runLength p (cs ++ rest) = cs.length := by
  refine runLength_append_of_stop hcs ?_
  intro c hc
  rcases hRest c hc with rfl | rfl
  · exact hBlank
  · exact hClose

/-! ## Single tokens -/

theorem tokenize_token {c : Char} {cs rest : List Char} {t : Token} (hc : c ≠ ' ')
    (h : tokenAt c (cs ++ rest) = some (t, cs.length)) :
    tokenize (c :: (cs ++ rest)) = (tokenize rest).map (t :: ·) := by
  rw [tokenize_cons hc h, List.drop_left]

theorem tokenize_word (cs : List Char) {rest : List Char} (h : IsIdentifier cs)
    (hRest : Follows rest) :
    tokenize (cs ++ rest) = (tokenize rest).map (.word (String.ofList cs) :: ·) := by
  obtain ⟨c, cs, rfl, hStart, hParts⟩ := h
  have hRun : runLength isWordPart (cs ++ rest) = cs.length :=
    runLength_append hParts hRest rfl rfl
  have hc : c ≠ ' ' := by
    rintro rfl
    exact absurd hStart (by decide)
  refine tokenize_token hc ?_
  rw [tokenAt, if_pos hStart]
  simp only [hRun, List.drop_left, List.take_left, endsWord_of_follows hRest, if_true]

/-- A digit starts no word. -/
theorem isWordStart_of_isDigit {c : Char} (h : c.isDigit = true) :
    isWordStart c = false := by
  have hDigit : 48 ≤ c.toNat ∧ c.toNat ≤ 57 := Char.isDigit_iff_toNat.mp h
  have hUpper : c.isUpper = false := by
    apply decide_eq_false
    intro hLetter
    have hFirst : 65 ≤ c.toNat := UInt32.le_iff_toNat_le.mp hLetter.1
    omega
  have hLower : decide ('a'.val ≤ c.val) = false := by
    apply decide_eq_false
    intro hLetter
    have hFirst : 97 ≤ c.toNat := UInt32.le_iff_toNat_le.mp hLetter
    omega
  have hLine : (c == '_') = false := by
    apply beq_eq_false_iff_ne.mpr
    rintro rfl
    exact absurd h (by decide)
  show (c.isUpper || (decide ('a'.val ≤ c.val) && _) || c == '_') = false
  rw [hUpper, hLower, hLine]
  rfl

theorem isDigit_of_isNumeral {c : Char} {cs : List Char} (h : isNumeral (c :: cs) = true) :
    c.isDigit = true := by
  cases hc : c.isDigit with
  | true => rfl
  | false => simp [isNumeral, hc] at h

/-- A number consists of digits and a point. -/
theorem mem_of_isNumeral {cs : List Char} (h : isNumeral cs = true) :
    ∀ c ∈ cs, (isWordPart c || c == '.') = true := by
  have hDigit : ∀ {c : Char}, c.isDigit = true → (isWordPart c || c == '.') = true :=
    fun hc => by simp [isWordPart_of_isDigit hc]
  intro c hc
  rw [← List.takeWhile_append_dropWhile (p := Char.isDigit) (l := cs), List.mem_append] at hc
  rcases hc with hWhole | hFraction
  · exact hDigit (List.all_eq_true.mp List.all_takeWhile c hWhole)
  · have hEnd := (Bool.and_eq_true_iff.mp h).2
    split at hEnd
    · next hNil => simp [hNil] at hFraction
    · next ds hPoint =>
        rw [hPoint] at hFraction
        rcases List.mem_cons.mp hFraction with rfl | hMem
        · rfl
        · exact hDigit (List.all_eq_true.mp (Bool.and_eq_true_iff.mp hEnd).2 c hMem)
    · cases hEnd

theorem tokenize_number {cs rest : List Char} (h : isNumeral cs = true)
    (hRest : Follows rest) :
    tokenize (cs ++ rest) = (tokenize rest).map (.number (String.ofList cs) :: ·) := by
  have hParts := mem_of_isNumeral h
  cases cs with
  | nil => exact absurd h (by decide)
  | cons c cs =>
      have hDigit := isDigit_of_isNumeral h
      have hRun : runLength (fun d => isWordPart d || d == '.') (cs ++ rest) = cs.length :=
        runLength_append (fun d hd => hParts d (by simp [hd])) hRest rfl rfl
      have hc : c ≠ ' ' := by
        rintro rfl
        exact absurd hDigit (by decide)
      refine tokenize_token hc ?_
      rw [tokenAt, isWordStart_of_isDigit hDigit, if_neg (by decide), if_pos hDigit]
      simp only [hRun, List.drop_left, List.take_left, endsWord_of_follows hRest, h,
        Bool.and_self, if_true]

/-- The body ends at the quote that closes it. -/
theorem quotedBody_append {quote : Char} {body : List Char} (hSlash : quote ≠ '\\')
    (hLine : quote ≠ '\n') (h : QuotedBody quote body) (rest : List Char) :
    quotedBody quote (body ++ quote :: rest) = some body := by
  induction h with
  | nil =>
      unfold quotedBody
      simp [hSlash, hLine]
  | plain hc hcSlash hcLine _ ih =>
      rw [List.cons_append]
      unfold quotedBody
      simp [hc, hcSlash, hcLine, ih]
  | escape hcLine _ ih =>
      rw [List.cons_append, List.cons_append]
      unfold quotedBody
      simp [hcLine, ih]

theorem tokenize_quoted {quote : Char} {body rest : List Char}
    (hQuote : quote = '"' ∨ quote = '\'') (h : QuotedBody quote body)
    (hRest : Follows rest) :
    tokenize (quote :: (body ++ quote :: rest)) =
      (tokenize rest).map (.quoted quote (String.ofList body) :: ·) := by
  have hFacts : quote ≠ ' ' ∧ quote ≠ '\\' ∧ quote ≠ '\n' ∧ isWordStart quote = false ∧
      quote.isDigit = false ∧ quote ≠ ')' := by
    rcases hQuote with rfl | rfl
    · decide
    · decide
  obtain ⟨hBlank, hSlash, hLine, hStart, hDigit, hClose⟩ := hFacts
  -- Three quotes in a row would need a quote behind an empty literal.
  have hTriple : (body ++ quote :: rest).take 2 ≠ [quote, quote] := by
    intro hTake
    cases h with
    | nil =>
        cases rest with
        | nil => simp at hTake
        | cons c rest =>
            have hc : c = quote := by simpa using hTake
            rcases hRest c rfl with hKind | hKind
            · exact hBlank (hc.symm.trans hKind)
            · exact hClose (hc.symm.trans hKind)
    | plain hc _ _ _ => exact hc (List.cons.inj hTake).1
    | escape _ _ => exact hSlash (List.cons.inj hTake).1.symm
  have hToken : tokenAt quote (body ++ quote :: rest) =
      some (.quoted quote (String.ofList body), body.length + 1) := by
    rw [tokenAt, hStart, if_neg (by decide), hDigit, if_neg (by decide), if_pos hQuote,
      if_neg hTriple, quotedBody_append hSlash hLine h]
    rfl
  have hRest' : (body ++ quote :: rest).drop (body.length + 1) = rest := by simp
  rw [tokenize_cons hBlank hToken, hRest']

/-- The symbols of one character, where no longer symbol starts with them. -/
theorem tokenize_symbol {c : Char} {cs : List Char}
    (hc : c ∈ ['(', ')', '+', '-', '*', '/', '%', '<', '>'])
    (hNext : ∀ d ∈ cs.head?, d ≠ '=' ∧ otherPairs.contains (c, d) = false) :
    tokenize (c :: cs) = (tokenize cs).map (.symbol (String.ofList [c]) :: ·) := by
  have hFacts : c ≠ ' ' ∧ isWordStart c = false ∧ c.isDigit = false ∧
      ¬ (c = '"' ∨ c = '\'') := by
    have hKinds := hc
    simp only [List.mem_cons, List.not_mem_nil, or_false] at hKinds
    rcases hKinds with rfl | rfl | rfl | rfl | rfl | rfl | rfl | rfl | rfl <;> decide
  obtain ⟨hBlank, hStart, hDigit, hQuote⟩ := hFacts
  have hEquals : cs.head? ≠ some '=' := fun h => (hNext '=' h).1 rfl
  have hPair : cs.head?.any (fun d => otherPairs.contains (c, d)) = false := by
    cases cs with
    | nil => rfl
    | cons d cs => exact (hNext d rfl).2
  have hToken : tokenAt c cs = some (.symbol (String.ofList [c]), 0) := by
    rw [tokenAt, hStart, if_neg (by decide), hDigit, if_neg (by decide), if_neg hQuote,
      symbolAt, if_neg hEquals, hPair, if_neg (by decide), if_pos hc]
  rw [tokenize_cons hBlank hToken, List.drop_zero]

/-- A binary operator and the blank behind it. -/
theorem tokenize_operator (op : BinaryOp) (rest : List Char) :
    tokenize (op.spelling.toList ++ ' ' :: rest) =
      (tokenize rest).map (operatorToken op :: ·) := by
  have hToken : ∃ c cs, op.spelling.toList = c :: cs ∧ c ≠ ' ' ∧
      tokenAt c (cs ++ ' ' :: rest) = some (operatorToken op, cs.length) := by
    cases op <;> exact ⟨_, _, rfl, by decide, rfl⟩
  obtain ⟨c, cs, hSpelling, hc, hAt⟩ := hToken
  rw [hSpelling, List.cons_append, tokenize_token hc hAt, tokenize_blank]

/-! ## Texts of expressions -/

/-- The first character of an expression goes on with no symbol before it. -/
theorem exists_cons_text {e : Expr} (h : e.Spelled) :
    ∃ c cs, e.text.toList = c :: cs ∧ c ≠ '=' ∧ c ≠ '>' := by
  induction e with
  | name text =>
      obtain ⟨c, cs, hText, hStart, _⟩ := h
      refine ⟨c, cs, hText, ?_, ?_⟩
      · rintro rfl
        exact absurd hStart (by decide)
      · rintro rfl
        exact absurd hStart (by decide)
  | number text =>
      cases hText : text.toList with
      | nil =>
          rw [Expr.Spelled, hText] at h
          exact absurd h (by decide)
      | cons c cs =>
          rw [Expr.Spelled, hText] at h
          have hDigit := isDigit_of_isNumeral h
          refine ⟨c, cs, hText, ?_, ?_⟩
          · rintro rfl
            exact absurd hDigit (by decide)
          · rintro rfl
            exact absurd hDigit (by decide)
  | quoted quote body =>
      refine ⟨quote, body.toList ++ [quote], by simp [Expr.text], ?_⟩
      rcases h.1 with rfl | rfl
      · decide
      · decide
  | truth value => cases value <;> exact ⟨_, _, rfl, by decide⟩
  | nothing => exact ⟨_, _, rfl, by decide⟩
  | not operand _ =>
      exact ⟨'n', _, by rw [Expr.text, String.toList_append]; rfl, by decide⟩
  | neg operand _ =>
      exact ⟨'-', _, by rw [Expr.text, String.toList_append]; rfl, by decide⟩
  | brackets inner _ =>
      refine ⟨'(', inner.text.toList ++ [')'], ?_, by decide⟩
      rw [Expr.text, String.toList_append, String.toList_append, List.append_assoc]
      rfl
  | binary op left right ihLeft _ =>
      obtain ⟨c, cs, hText, hc⟩ := ihLeft h.1
      refine ⟨c, cs ++ ' ' :: (op.spelling.toList ++ ' ' :: right.text.toList), ?_, hc⟩
      simp [Expr.text, hText]

/-- A symbol in front of an expression is a token of its own. -/
theorem tokenize_symbol_text {c : Char} (hc : c = '(' ∨ c = '-') {e : Expr} (h : e.Spelled)
    (rest : List Char) :
    tokenize (c :: (e.text.toList ++ rest)) =
      (tokenize (e.text.toList ++ rest)).map (.symbol (String.ofList [c]) :: ·) := by
  obtain ⟨d, ds, hText, hEquals, hGreater⟩ := exists_cons_text h
  refine tokenize_symbol (by rcases hc with rfl | rfl <;> decide) ?_
  intro d' hd'
  rw [hText] at hd'
  obtain rfl := Option.some.inj hd'
  refine ⟨hEquals, ?_⟩
  rcases hc with rfl | rfl <;> simp [otherPairs, hGreater]

/-- The text of an expression has the tokens of the expression, wherever it stands. -/
theorem tokenize_text {e : Expr} (h : e.Spelled) : ∀ rest, Follows rest →
    tokenize (e.text.toList ++ rest) = (tokenize rest).map (e.tokens ++ ·) := by
  induction e with
  | name text =>
      intro rest hRest
      have hToken := tokenize_word text.toList h hRest
      rw [String.ofList_toList] at hToken
      exact hToken
  | number text =>
      intro rest hRest
      have hToken := tokenize_number h hRest
      rw [String.ofList_toList] at hToken
      exact hToken
  | quoted quote body =>
      intro rest hRest
      have hText : (Expr.quoted quote body).text.toList ++ rest =
          quote :: (body.toList ++ quote :: rest) := by
        simp [Expr.text]
      rw [hText, tokenize_quoted h.1 h.2 hRest, String.ofList_toList]
      rfl
  | truth value =>
      intro rest hRest
      cases value with
      | true => exact tokenize_word "True".toList (isIdentifier_cons rfl rfl) hRest
      | false => exact tokenize_word "False".toList (isIdentifier_cons rfl rfl) hRest
  | nothing =>
      intro rest hRest
      exact tokenize_word "None".toList (isIdentifier_cons rfl rfl) hRest
  | not operand ih =>
      intro rest hRest
      have hWord := tokenize_word "not".toList (isIdentifier_cons rfl rfl)
        (follows_cons (operand.text.toList ++ rest) (.inl rfl))
      rw [tokenize_blank, ih h rest hRest, Option.map_map] at hWord
      rw [Expr.text, String.toList_append, List.append_assoc]
      exact hWord
  | neg operand ih =>
      intro rest hRest
      have hSymbol := tokenize_symbol_text (c := '-') (.inr rfl) (e := operand) h rest
      rw [ih h rest hRest, Option.map_map] at hSymbol
      rw [Expr.text, String.toList_append, List.append_assoc]
      exact hSymbol
  | brackets inner ih =>
      intro rest hRest
      have hClose : tokenize (')' :: rest) = (tokenize rest).map (.symbol ")" :: ·) := by
        refine tokenize_symbol (by decide) fun d hd => ?_
        rcases hRest d hd with rfl | rfl <;> decide
      have hSymbol := tokenize_symbol_text (c := '(') (.inl rfl) (e := inner) h (')' :: rest)
      rw [ih h (')' :: rest) (follows_cons rest (.inr rfl)), hClose, Option.map_map,
        Option.map_map] at hSymbol
      have hTokens : ∀ ts, (Expr.brackets inner).tokens ++ ts =
          .symbol "(" :: (inner.tokens ++ .symbol ")" :: ts) := by
        simp [Expr.tokens]
      simp only [hTokens]
      rw [Expr.text, String.toList_append, String.toList_append, List.append_assoc,
        List.append_assoc]
      exact hSymbol
  | binary op left right ihLeft ihRight =>
      intro rest hRest
      have hTokens : ∀ ts, (Expr.binary op left right).tokens ++ ts =
          left.tokens ++ operatorToken op :: (right.tokens ++ ts) := by
        simp [Expr.tokens]
      have hOperator := tokenize_operator op (right.text.toList ++ rest)
      rw [ihRight h.2 rest hRest, Option.map_map] at hOperator
      have hLeft := ihLeft h.1 (' ' :: (op.spelling.toList ++ ' ' :: (right.text.toList ++ rest)))
        (follows_cons _ (.inl rfl))
      rw [tokenize_blank, hOperator, Option.map_map] at hLeft
      simp only [hTokens]
      simp only [Expr.text, String.toList_append, List.append_assoc]
      exact hLeft

theorem tokenize_text_nil {e : Expr} (h : e.Spelled) :
    tokenize e.text.toList = some e.tokens := by
  have hText := tokenize_text h [] (fun _ h => by cases h)
  rw [List.append_nil, tokenize, Option.map_some, List.append_nil] at hText
  exact hText

end Target

end Braceless

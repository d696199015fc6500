import Braceless.Proofs.Lexer.Lines
import Braceless.Proofs.Words

/-!
# The errors of a text are its faulty tokens

The lexer lists errors beside the tokens, and nothing of an error is lost if only the tokens are
kept.  A character that starts no token is a token of its own, and whether a literal is closed can be
seen in its text: a quote closes it unless the backslashes right before the quote are odd in number.

Where a character starts no token is a question about the text before it, which comments and literals
may reach into.  It is answered here by an automaton that reads one character after the other and
knows no tokens.  At the start of each lexeme the automaton stands in code, or the character that
comes next leads it back there.

## Main definitions

* `Closes`: literals with a quote that is not escaped.
* `Token.lexicalError?`: what is wrong with a token, by its kind and text.
* `Region`, `regionBehind`: code, comments and literals, told apart character by character.
* `operators`: the spellings of all operators and brackets.

## Main results

* `closes_take_quotedLength`: the lexer closes a literal at its first quote that is not escaped.
* `ready_front`: behind a lexeme, the automaton is back in code or about to be.
* `lex_errors_eq_filterMap`: the errors of a text are the errors of its tokens.
-/

namespace Braceless

/-! ## Quotes that close -/

/-- Whether a quote stands in `cs` that is not escaped, where `cs` follows `front`. -/
def ClosesBehind (quote : Char) (front cs : List Char) : Prop :=
  ∃ before after, cs = before ++ quote :: after ∧ ¬ EndsEscaping (front ++ before)

theorem not_closesBehind_nil (quote : Char) (front : List Char) :
    ¬ ClosesBehind quote front [] := by
  rintro ⟨before, after, hText, -⟩
  simp at hText

theorem closesBehind_cons {quote c : Char} {front cs : List Char} :
    ClosesBehind quote front (c :: cs) ↔
      c = quote ∧ ¬ EndsEscaping front ∨ ClosesBehind quote (front ++ [c]) cs := by
  constructor
  · rintro ⟨before, after, hText, hEscaped⟩
    cases before with
    | nil =>
        obtain ⟨rfl, -⟩ := List.cons.inj hText
        exact .inl ⟨rfl, by simpa using hEscaped⟩
    | cons d before =>
        obtain ⟨rfl, rfl⟩ := List.cons.inj hText
        exact .inr ⟨before, after, rfl, by simpa using hEscaped⟩
  · rintro (⟨rfl, hEscaped⟩ | ⟨before, after, rfl, hEscaped⟩)
    · exact ⟨[], cs, rfl, by simpa using hEscaped⟩
    · exact ⟨c :: before, after, rfl, by simpa using hEscaped⟩

instance decidableClosesBehind (quote : Char) :
    ∀ front cs, Decidable (ClosesBehind quote front cs)
  | front, [] => isFalse (not_closesBehind_nil quote front)
  | front, c :: cs =>
    have := decidableClosesBehind quote (front ++ [c]) cs
    decidable_of_iff _ closesBehind_cons.symm

/-- Whether a text has a quote that is not escaped. -/
def Closes (quote : Char) (cs : List Char) : Prop :=
  ClosesBehind quote [] cs

instance (quote : Char) (cs : List Char) : Decidable (Closes quote cs) :=
  decidableClosesBehind quote [] cs

/-- **The lexer closes a literal at its first quote that is not escaped.** -/
theorem closesBehind_take_quotedLength {quote : Char} (hSlash : quote ≠ '\\') (cs : List Char) :
    ∀ front, ¬ EndsEscaping front →
      (ClosesBehind quote front (cs.take (quotedLength quote cs).1) ↔
        (quotedLength quote cs).2 = true) := by
  -- The scanner takes a backslash and the next character at once, so it never stands behind a
  -- backslash that escapes.
  fun_induction quotedLength quote cs with
  | case1 => simp [not_closesBehind_nil]
  | case2 cs => simp [not_closesBehind_nil]
  | case3 => simp [closesBehind_cons, not_closesBehind_nil, hSlash.symm]
  | case4 cs => simp [closesBehind_cons, not_closesBehind_nil, hSlash.symm]
  | case5 d cs hLine rest _ ih =>
      intro front hFront
      have hBackslash : EndsEscaping (front ++ ['\\']) :=
        (endsEscaping_concat front '\\').mpr ⟨rfl, hFront⟩
      have hNext : ¬ EndsEscaping (front ++ ['\\'] ++ [d]) := fun h =>
        ((endsEscaping_concat _ d).mp h).2 hBackslash
      rw [List.take_succ_cons, List.take_succ_cons, closesBehind_cons, closesBehind_cons,
        ih _ hNext]
      simp [hSlash.symm, hBackslash, rest]
  | case6 cs =>
      exact fun front hFront => iff_of_true (closesBehind_cons.mpr (.inl ⟨rfl, hFront⟩)) rfl
  | case7 c cs hLine hBackslash hQuote rest ih =>
      intro front hFront
      have hNext : ¬ EndsEscaping (front ++ [c]) := fun h =>
        hBackslash ((endsEscaping_concat front c).mp h).1
      rw [List.take_succ_cons, closesBehind_cons, ih _ hNext]
      simp [hQuote, rest]

theorem closes_take_quotedLength {quote : Char} (hSlash : quote ≠ '\\') (cs : List Char) :
    Closes quote (cs.take (quotedLength quote cs).1) ↔ (quotedLength quote cs).2 = true :=
  closesBehind_take_quotedLength hSlash cs [] not_endsEscaping_nil

/-! ## Faulty tokens -/

/-- What is wrong with a token, by its kind and text. -/
def Token.lexicalError? (t : Token) : Option LexicalError :=
  match t.kind, t.text.toList with
  | .invalid, [c] => some ⟨.unexpectedCharacter, c, t.pos⟩
  | .string, _ :: cs => if Closes '"' cs then none else some ⟨.unterminatedString, '"', t.pos⟩
  | .char, _ :: cs => if Closes '\'' cs then none else some ⟨.unterminatedChar, '\'', t.pos⟩
  | _, _ => none

/-- What holds of every form that the lexeme at the front of a text can have holds of the lexeme. -/
@[elab_as_elim]
theorem extent_cases {motive : Extent → Prop} (c : Char) (cs : List Char)
    (lineComment : ∀ body, c = '/' → cs = '/' :: body →
      motive ⟨.comment, runLength (· != '\n') body + 1, none⟩)
    (blockComment : ∀ body, c = '/' → cs = '*' :: body →
      motive ⟨.comment, blockCommentLength body + 1, none⟩)
    (number : c.isDigit = true → motive (numberExtent cs))
    (string : c = '"' → motive (quotedExtent '"' .string .unterminatedString cs))
    (char : c = '\'' → motive (quotedExtent '\'' .char .unterminatedChar cs))
    (word : isWordStart c = true → motive (wordExtent c cs))
    (operator : ¬ (c = '/' ∧ (cs.head? = some '/' ∨ cs.head? = some '*')) →
      c.isDigit = false → c ≠ '"' → c ≠ '\'' → isWordStart c = false →
      motive (operatorExtent c cs)) :
    motive (extent c cs) := by
  unfold extent
  split
  · next h =>
      obtain ⟨body, rfl⟩ := exists_eq_cons_of_head? h.2
      rw [runLength_cons_of_pos (by decide)]
      exact lineComment body h.1 rfl
  next hLine =>
  split
  · next h =>
      obtain ⟨body, rfl⟩ := exists_eq_cons_of_head? h.2
      exact blockComment body h.1 rfl
  next hBlock =>
  split
  · next h => exact number h
  next hDigit =>
  split
  · next h => exact h ▸ string h
  next hString =>
  split
  · next h => exact h ▸ char h
  next hChar =>
  split
  · next h => exact word h
  next hWord =>
  refine operator ?_ (Bool.eq_false_iff.mpr hDigit) hString hChar (Bool.eq_false_iff.mpr hWord)
  rintro ⟨hc, hHead | hHead⟩
  · exact hLine ⟨hc, hHead⟩
  · exact hBlock ⟨hc, hHead⟩

/-- Only three kinds of tokens can be faulty. -/
theorem Token.lexicalError?_eq_none {t : Token} (hInvalid : t.kind ≠ .invalid)
    (hString : t.kind ≠ .string) (hChar : t.kind ≠ .char) : t.lexicalError? = none := by
  unfold Token.lexicalError?
  split <;> simp_all

theorem fault_numberExtent (cs : List Char) :
    (numberExtent cs).fault = none ∧ (numberExtent cs).kind ≠ .invalid := by
  unfold numberExtent
  dsimp only
  split
  · split <;> simp
  · simp

theorem kind_wordExtent (c : Char) (cs : List Char) :
    (wordExtent c cs).kind = .keyword ∨ (wordExtent c cs).kind = .identifier := by
  unfold wordExtent
  dsimp only
  split
  · exact .inl rfl
  · exact .inr rfl

/-- The kinds of operators, and what is left when there is no operator. -/
theorem operatorExtent_cases (c : Char) (cs : List Char) :
    (operatorExtent c cs).fault = none ∧ (operatorExtent c cs).kind ≠ .invalid ∨
      operatorExtent c cs = ⟨.invalid, 0, some .unexpectedCharacter⟩ ∧
        cs.head?.bind (pairOperator? c) = none ∧ singleOperator? c = none := by
  unfold operatorExtent
  split
  · next kind hPair =>
      obtain ⟨d, -, hd⟩ := Option.bind_eq_some_iff.mp hPair
      refine .inl ⟨rfl, ?_⟩
      rintro rfl
      unfold pairOperator? at hd
      split at hd <;> cases hd
  · next hPair =>
      split
      · next kind hSingle =>
          refine .inl ⟨rfl, ?_⟩
          rintro rfl
          unfold singleOperator? at hSingle
          split at hSingle <;> cases hSingle
      · next hSingle => exact .inr ⟨rfl, hPair, hSingle⟩

/-- What is wrong with a literal in the given quotes can be seen in its text. -/
theorem fault_quotedExtent {quote : Char} (hSlash : quote ≠ '\\') (kind : Token.Kind)
    (unclosed : LexicalFault) (cs : List Char) :
    (quotedExtent quote kind unclosed cs).fault =
      if Closes quote (cs.take (quotedExtent quote kind unclosed cs).more) then none
      else some unclosed := by
  have hCloses := closes_take_quotedLength hSlash cs
  simp only [quotedExtent, hCloses]

/-- The error of a lexeme is that of its token. -/
theorem error?_front (c : Char) (cs : List Char) (pos : Position) :
    (Lexeme.front c cs).error? pos = ((Lexeme.front c cs).token pos).lexicalError? := by
  show (extent c cs).fault.map (fun fault => ⟨fault, c, pos⟩) =
    Token.lexicalError? ⟨(extent c cs).kind,
      String.ofList (c :: cs.take (extent c cs).more), pos⟩
  refine extent_cases c cs ?_ ?_ ?_ ?_ ?_ ?_ ?_
  · intros
    rfl
  · intros
    rfl
  · intro _
    obtain ⟨hFault, hInvalid⟩ := fault_numberExtent cs
    obtain ⟨_, _, _, hString, hChar⟩ := unspelled_numberExtent cs
    rw [hFault, Token.lexicalError?_eq_none hInvalid hString hChar]
    rfl
  · rintro rfl
    rw [fault_quotedExtent (by decide), apply_ite (Option.map _)]
    simp only [Token.lexicalError?, String.toList_ofList, quotedExtent]
    rfl
  · rintro rfl
    rw [fault_quotedExtent (by decide), apply_ite (Option.map _)]
    simp only [Token.lexicalError?, String.toList_ofList, quotedExtent]
    rfl
  · intro _
    have hNone : Token.lexicalError? ⟨(wordExtent c cs).kind,
        String.ofList (c :: cs.take (wordExtent c cs).more), pos⟩ = none := by
      rcases kind_wordExtent c cs with hKind | hKind <;>
        exact Token.lexicalError?_eq_none (by simp [hKind]) (by simp [hKind]) (by simp [hKind])
    rw [hNone]
    rfl
  · intro _ _ _ _ _
    rcases operatorExtent_cases c cs with ⟨hFault, hInvalid⟩ | ⟨hExtent, -, -⟩
    · obtain ⟨_, _, _, hString, hChar⟩ := unspelled_operatorExtent c cs
      rw [hFault, Token.lexicalError?_eq_none hInvalid hString hChar]
      rfl
    · rw [hExtent]
      simp [Token.lexicalError?]

/-- The errors of the pieces of a text are the errors of their tokens. -/
theorem errors_place_eq_filterMap (cs : List Char) (pos : Position) :
    (place pos (pieces cs)).errors =
      (place pos (pieces cs)).tokens.filterMap Token.lexicalError? := by
  fun_induction pieces cs generalizing pos with
  | case1 => rfl
  | case2 c cs _ ih => exact ih (pos.step c)
  | case3 c cs _ ih =>
      simp only [place, error?_front, ih]
      rw [List.filterMap_cons]
      cases ((Lexeme.front c cs).token pos).lexicalError? with
      | none => rfl
      | some e => rfl

/-! ## Code, comments and literals -/

/-- Where a place in a text is. -/
inductive Region where
  | code
  /-- In code, right behind a slash. -/
  | slash
  | lineComment
  | blockComment
  /-- In a block comment, right behind a star. -/
  | star
  | quoted (quote : Char)
  /-- In a literal, right behind a backslash that escapes. -/
  | escape (quote : Char)
deriving DecidableEq, Repr

namespace Region

/-- Whether a place is outside of every comment and literal. -/
def isCode : Region → Bool
  | code | slash => true
  | _ => false

/-- Where a character leads that stands in code. -/
def enter (c : Char) : Region :=
  if c = '/' then slash
  else if c = '"' ∨ c = '\'' then quoted c
  else code

/-- Where a character leads. -/
def step : Region → Char → Region
  | code, c => enter c
  | slash, c =>
    if c = '/' then lineComment else if c = '*' then blockComment else enter c
  | lineComment, c => if c = '\n' then code else lineComment
  | blockComment, c => if c = '*' then star else blockComment
  | star, c => if c = '/' then code else if c = '*' then star else blockComment
  | quoted quote, c =>
    if c = '\n' then code
    else if c = '\\' then escape quote
    else if c = quote then code
    else quoted quote
  | escape quote, c => if c = '\n' then code else quoted quote

end Region

/-- Where the end of a text is. -/
def regionBehind (cs : List Char) : Region :=
  cs.foldl Region.step .code

theorem regionBehind_append (cs ds : List Char) :
    regionBehind (cs ++ ds) = ds.foldl Region.step (regionBehind cs) :=
  List.foldl_append

/-- A lexeme may start here: the next character leads where it would lead in code, and unless it
ends the line this is code. -/
def Ready (r : Region) (cs : List Char) : Prop :=
  ∀ c ∈ cs.head?, r.step c = .enter c ∧ (c = '\n' ∨ r.isCode = true)

theorem ready_code (cs : List Char) : Ready .code cs :=
  fun _ _ => ⟨rfl, .inr rfl⟩

theorem ready_nil (r : Region) : Ready r [] :=
  fun _ h => nomatch h

/-- What ends with its line leads back to code there. -/
theorem ready_of_line {r : Region} {cs : List Char} (h : ∀ c ∈ cs.head?, c = '\n')
    (hLine : r.step '\n' = .code) : Ready r cs := by
  intro c hc
  obtain rfl := h c hc
  exact ⟨hLine, .inl rfl⟩

/-! ## Behind a lexeme -/

/-- Characters that open neither a comment nor a literal. -/
def isPlain (c : Char) : Bool :=
  c != '/' && c != '"' && c != '\''

theorem enter_of_isPlain {c : Char} (h : isPlain c = true) : Region.enter c = .code := by
  simp only [isPlain, Bool.and_eq_true, bne_iff_ne] at h
  simp [Region.enter, h]

/-- Plain characters do not lead out of code. -/
theorem foldl_step_of_isPlain {cs : List Char} (h : ∀ c ∈ cs, isPlain c = true) :
    cs.foldl Region.step .code = .code := by
  induction cs with
  | nil => rfl
  | cons c cs ih =>
      obtain ⟨hc, hcs⟩ := List.forall_mem_cons.mp h
      show cs.foldl Region.step (.enter c) = _
      rw [enter_of_isPlain hc, ih hcs]

theorem isPlain_of_isWordPart {c : Char} (h : isWordPart c = true) : isPlain c = true := by
  have hOther : ∀ d ∈ ['/', '"', '\''], c ≠ d := by
    rintro d hd rfl
    simp only [List.mem_cons, List.not_mem_nil, or_false] at hd
    rcases hd with rfl | rfl | rfl <;> exact absurd h (by decide)
  simpa [isPlain, and_assoc] using hOther

/-- A number consists of plain characters. -/
theorem isPlain_of_mem_number {cs : List Char} :
    ∀ c ∈ cs.take (numberExtent cs).more, isPlain c = true := by
  have hRun : ∀ (ds : List Char), ∀ c ∈ ds.take (runLength Char.isDigit ds), isPlain c = true :=
    fun ds c hc => isPlain_of_isWordPart (isWordPart_of_isDigit (of_mem_take_run hc))
  unfold numberExtent
  dsimp only
  split
  · next d ds hDrop =>
      split
      · next hd =>
          have hTake : cs.take (runLength Char.isDigit cs + 2 + runLength Char.isDigit ds) =
              cs.take (runLength Char.isDigit cs) ++
                '.' :: d :: ds.take (runLength Char.isDigit ds) := by
            rw [Nat.add_assoc, List.take_add, hDrop, Nat.add_comm]
            rfl
          rw [hTake, List.forall_mem_append, List.forall_mem_cons, List.forall_mem_cons]
          exact ⟨hRun cs, rfl, isPlain_of_isWordPart (isWordPart_of_isDigit hd), hRun ds⟩
      · exact hRun cs
  · exact hRun cs

/-- A line comment ends before the end of its line. -/
theorem foldl_step_lineComment (cs : List Char) :
    (cs.take (runLength (· != '\n') cs)).foldl Region.step .lineComment = .lineComment := by
  have hLine : ∀ c ∈ cs.take (runLength (· != '\n') cs), c ≠ '\n' :=
    fun c hc => bne_iff_ne.mp (of_mem_take_run (p := (· != '\n')) hc)
  generalize cs.take (runLength (· != '\n') cs) = ds at hLine
  induction ds with
  | nil => rfl
  | cons d ds ih =>
      obtain ⟨hd, hds⟩ := List.forall_mem_cons.mp hLine
      simpa [Region.step, hd] using ih hds

/-- A block comment ends with its closing pair, or with the text. -/
theorem ready_blockComment (body : List Char) :
    ∀ r, r = .blockComment ∨ r = .star ∧ body.head? ≠ some '/' →
      Ready ((body.take (blockCommentLength body)).foldl Region.step r)
        (body.drop (blockCommentLength body)) := by
  fun_induction blockCommentLength body with
  | case1 => exact fun r _ => ready_nil r
  | case2 body =>
      rintro r (rfl | ⟨rfl, -⟩)
      · exact ready_code body
      · exact ready_code body
  | case3 c body hPair ih =>
      intro r hr
      show Ready ((body.take (blockCommentLength body)).foldl Region.step (r.step c)) _
      refine ih _ ?_
      by_cases hc : c = '*'
      · subst hc
        refine .inr ⟨?_, ?_⟩
        · rcases hr with rfl | ⟨rfl, -⟩
          · rfl
          · rfl
        · intro hHead
          obtain ⟨rest, hRest⟩ := exists_eq_cons_of_head? hHead
          exact hPair rest rfl hRest
      · refine .inl ?_
        rcases hr with rfl | ⟨rfl, hSlash⟩
        · simp [Region.step, hc]
        · have hc' : c ≠ '/' := by simpa using hSlash
          simp [Region.step, hc, hc']

/-- A literal ends with the quote that closes it, or with its line. -/
theorem ready_quoted (quote : Char) (cs : List Char) :
    Ready ((cs.take (quotedLength quote cs).1).foldl Region.step (.quoted quote))
      (cs.drop (quotedLength quote cs).1) := by
  fun_induction quotedLength quote cs with
  | case1 => exact ready_nil _
  | case2 cs => exact ready_of_line (by simp) rfl
  | case3 => exact ready_nil _
  | case4 cs => exact ready_of_line (by simp) rfl
  | case5 d cs hLine rest _ ih => simpa [Region.step, hLine, rest] using ih
  | case6 cs hLine hSlash =>
      simpa [Region.step, hLine, hSlash] using ready_code cs
  | case7 c cs hLine hSlash hQuote rest ih =>
      simpa [Region.step, hLine, hSlash, hQuote, rest] using ih

/-! ## Operators -/

/-- The operators and brackets, each with its spelling. -/
def operators : List (List Char) :=
  ["==", "!=", ">=", "<=", "++", "--", "+=", "-=", "&&", "||", "\x7b", "\x7d", "(", ")", "[", "]",
    ";", ",", ".", "=", "+", "-", "*", "/", "%", ">", "<", "!"].map String.toList

/-- Whether the tables of operators have an entry for a spelling. -/
def hasEntry : List Char → Bool
  | [c] => (singleOperator? c).isSome
  | [c, d] => (pairOperator? c d).isSome
  | _ => false

/-- Where neither table has an entry, no operator starts. -/
theorem not_prefix_of_no_operator {c : Char} {cs : List Char}
    (hPair : cs.head?.bind (pairOperator? c) = none) (hSingle : singleOperator? c = none) :
    ∀ op ∈ operators, ¬ op <+: c :: cs := by
  intro op hop hPrefix
  have hEntries : operators.all hasEntry = true := by decide
  have hEntry := List.all_eq_true.mp hEntries op hop
  match op with
  | [] => cases hEntry
  | [a] =>
      obtain ⟨rfl, -⟩ := List.cons_prefix_cons.mp hPrefix
      rw [hasEntry, hSingle] at hEntry
      cases hEntry
  | [a, b] =>
      obtain ⟨rfl, rest, rfl⟩ := List.cons_prefix_cons.mp hPrefix
      rw [hasEntry, show pairOperator? a b = none from hPair] at hEntry
      cases hEntry
  | _ :: _ :: _ :: _ => cases hEntry

theorem isPlain_of_pairOperator? {c d : Char} {k : Token.Kind} (h : pairOperator? c d = some k) :
    isPlain c = true ∧ isPlain d = true := by
  unfold pairOperator? at h
  split at h <;> cases h <;> decide

theorem ready_operator {c : Char} {cs : List Char}
    (hComment : ¬ (c = '/' ∧ (cs.head? = some '/' ∨ cs.head? = some '*'))) (hString : c ≠ '"')
    (hChar : c ≠ '\'') :
    Ready ((cs.take (operatorExtent c cs).more).foldl Region.step (.enter c))
      (cs.drop (operatorExtent c cs).more) := by
  unfold operatorExtent
  split
  · next kind hPair =>
      obtain ⟨d, hHead, hd⟩ := Option.bind_eq_some_iff.mp hPair
      obtain ⟨rest, rfl⟩ := exists_eq_cons_of_head? hHead
      obtain ⟨hc, hd⟩ := isPlain_of_pairOperator? hd
      rw [enter_of_isPlain hc]
      show Ready (.enter d) rest
      rw [enter_of_isPlain hd]
      exact ready_code rest
  · have hMore : ∀ e : Extent, e.more = 0 →
        Ready ((cs.take e.more).foldl Region.step (.enter c)) (cs.drop e.more) := by
      rintro e he
      rw [he]
      show Ready (.enter c) cs
      by_cases hSlash : c = '/'
      · subst hSlash
        intro d hd
        have hNext : d ≠ '/' ∧ d ≠ '*' := by
          refine ⟨?_, ?_⟩
          · rintro rfl
            exact hComment ⟨rfl, .inl hd⟩
          · rintro rfl
            exact hComment ⟨rfl, .inr hd⟩
        have hStep : Region.slash.step d = .enter d := by simp [Region.step, hNext]
        exact ⟨hStep, .inr rfl⟩
      · have hPlain : isPlain c = true := by simp [isPlain, hSlash, hString, hChar]
        rw [enter_of_isPlain hPlain]
        exact ready_code cs
    split
    · exact hMore _ rfl
    · exact hMore _ rfl

/-- **Behind a lexeme, the next one may start.** -/
theorem ready_front (c : Char) (cs : List Char) :
    Ready ((Lexeme.front c cs).others.foldl Region.step (.enter c))
      (cs.drop (extent c cs).more) := by
  show Ready ((cs.take (extent c cs).more).foldl Region.step (.enter c)) _
  refine extent_cases c cs ?_ ?_ ?_ ?_ ?_ ?_ ?_
  · rintro body rfl rfl
    show Ready ((body.take (runLength (· != '\n') body)).foldl Region.step .lineComment) _
    rw [foldl_step_lineComment]
    refine ready_of_line (fun c hc => ?_) rfl
    simpa using head?_drop_run (· != '\n') body c hc
  · rintro body rfl rfl
    exact ready_blockComment body .blockComment (.inl rfl)
  · intro hDigit
    have hPlain : isPlain c = true :=
      isPlain_of_isWordPart (isWordPart_of_isDigit hDigit)
    rw [enter_of_isPlain hPlain, foldl_step_of_isPlain isPlain_of_mem_number]
    exact ready_code _
  · rintro rfl
    exact ready_quoted '"' cs
  · rintro rfl
    exact ready_quoted '\'' cs
  · intro hWord
    have hPlain : isPlain c = true := isPlain_of_isWordPart (isWordPart_of_isWordStart hWord)
    have hRun : ∀ d ∈ cs.take (wordExtent c cs).more, isPlain d = true :=
      fun d hd => isPlain_of_isWordPart (of_mem_take_run (p := isWordPart) hd)
    rw [enter_of_isPlain hPlain, foldl_step_of_isPlain hRun]
    exact ready_code _
  · intro hComment _ hString hChar _
    exact ready_operator hComment hString hChar

/-! ## Characters that start no token -/

/-- A character of code at which nothing starts: no blank, number, word, comment or literal, and no
operator.  It stands behind `before` and in front of `after`. -/
structure StartsNothing (before : List Char) (c : Char) (after : List Char) : Prop where
  inCode : (regionBehind before).isCode = true
  staysInCode : regionBehind (before ++ [c]) = .code
  notBlank : c ∉ blanks
  noNumber : c.isDigit = false
  noWord : c.isAlpha = false ∧ c ≠ '_'
  noOperator : ∀ op ∈ operators, ¬ op <+: c :: after

/-- The lexeme at the front of a text is invalid only if nothing starts there, and then it is one
character. -/
theorem startsNothing_front {before : List Char} {c : Char} {cs : List Char}
    (hBlank : isBlank c = false) (hReady : Ready (regionBehind before) (c :: cs))
    (hKind : (extent c cs).kind = .invalid) :
    (extent c cs).more = 0 ∧ StartsNothing before c cs := by
  obtain ⟨hStep, hCode⟩ := hReady c rfl
  revert hKind
  refine extent_cases c cs ?_ ?_ ?_ ?_ ?_ ?_ ?_
  · rintro _ _ _ ⟨⟩
  · rintro _ _ _ ⟨⟩
  · exact fun _ hKind => absurd hKind (fault_numberExtent cs).2
  · rintro _ ⟨⟩
  · rintro _ ⟨⟩
  · intro _ hKind
    rcases kind_wordExtent c cs with hWord | hWord
    · cases hWord.symm.trans hKind
    · cases hWord.symm.trans hKind
  · intro _ hDigit hString hChar hWord hKind
    rcases operatorExtent_cases c cs with ⟨-, hInvalid⟩ | ⟨hExtent, hPair, hSingle⟩
    · exact absurd hKind hInvalid
    · have hLine : c ≠ '\n' := by
        rintro rfl
        cases hBlank
      have hSlash : c ≠ '/' := by
        rintro rfl
        cases hSingle
      have hPlain : isPlain c = true := by simp [isPlain, hSlash, hString, hChar]
      obtain ⟨hAlpha, hUnderscore⟩ := Bool.or_eq_false_iff.mp hWord
      refine ⟨by rw [hExtent], ⟨hCode.resolve_left hLine, ?_, ?_, hDigit, ?_, ?_⟩⟩
      · rw [regionBehind_append]
        exact hStep.trans (enter_of_isPlain hPlain)
      · exact fun hMem => Bool.false_ne_true (hBlank.symm.trans (isBlank_iff.mpr hMem))
      · exact ⟨hAlpha, beq_eq_false_iff_ne.mp hUnderscore⟩
      · exact not_prefix_of_no_operator hPair hSingle

theorem isPlain_of_isBlank {c : Char} (h : isBlank c = true) : isPlain c = true := by
  have hPlain : blanks.all isPlain = true := by decide
  exact List.all_eq_true.mp hPlain c (isBlank_iff.mp h)

/-- Where the pieces of a text that goes on after `before` have an invalid token, nothing starts. -/
theorem exists_startsNothing_place {t : Token} (hKind : t.kind = .invalid) (cs : List Char) :
    ∀ before, Ready (regionBehind before) cs →
      t ∈ (place (.behind before) (pieces cs)).tokens →
      ∃ front c after, before ++ cs = front ++ c :: after ∧ t.text = String.ofList [c] ∧
        t.pos = .behind front ∧ StartsNothing front c after := by
  fun_induction pieces cs with
  | case1 =>
      intro before _ ht
      rw [List.mem_singleton.mp ht] at hKind
      cases hKind
  | case2 c cs hBlank ih =>
      intro before hReady ht
      have hCode : regionBehind (before ++ [c]) = .code := by
        rw [regionBehind_append]
        exact (hReady c rfl).1.trans (enter_of_isPlain (isPlain_of_isBlank hBlank))
      have hNext := ih (before ++ [c]) (hCode ▸ ready_code cs)
      rw [Position.behind_concat, List.append_assoc] at hNext
      exact hNext ht
  | case3 c cs hBlank ih =>
      intro before hReady ht
      rcases List.mem_cons.mp ht with rfl | hRest
      · obtain ⟨hMore, hNothing⟩ :=
          startsNothing_front (Bool.eq_false_iff.mpr hBlank) hReady hKind
        refine ⟨before, c, cs, rfl, ?_, rfl, hNothing⟩
        simp [Lexeme.token, Lexeme.chars, Lexeme.front, hMore]
      · have hBehind : Ready (regionBehind (before ++ (Lexeme.front c cs).chars))
            (cs.drop (extent c cs).more) := by
          rw [regionBehind_append, Lexeme.chars, List.foldl_cons]
          show Ready (List.foldl _ ((regionBehind before).step c) _) _
          rw [(hReady c rfl).1]
          exact ready_front c cs
        have hSplit : (Lexeme.front c cs).chars ++ cs.drop (extent c cs).more = c :: cs := by
          simp [Lexeme.chars, Lexeme.front]
        have hNext := ih _ hBehind
        rw [← Position.after_behind, List.append_assoc, hSplit] at hNext
        exact hNext hRest

/-- **The errors of a text are its faulty tokens**, in order: each invalid token, and each literal
without a quote that closes it.  An invalid token is one character, and it stands where it says:
outside of all comments and literals, at a place where no blank, number, word or operator starts. -/
theorem lex_errors_eq_filterMap (source : String) :
    (lex source).errors = (lex source).tokens.filterMap Token.lexicalError? ∧
      ∀ t ∈ (lex source).tokens, t.kind = .invalid →
        ∃ before c after, source.toList = before ++ c :: after ∧ t.text = String.ofList [c] ∧
          t.pos = .behind before ∧ StartsNothing before c after := by
  refine ⟨errors_place_eq_filterMap source.toList .start, fun t ht hKind => ?_⟩
  exact exists_startsNothing_place hKind source.toList [] (ready_code _) ht

-- A closed literal, a comment and a pair of ampersands are no errors, and neither is what they hold.
example : ((lex "'\\'&' /* # */ &&& é \"a\\\"").errors.map fun e => (e.fault, e.character, e.pos)) =
    [(.unexpectedCharacter, '&', ⟨1, 17⟩), (.unexpectedCharacter, 'é', ⟨1, 19⟩),
      (.unterminatedString, '"', ⟨1, 21⟩)] := by
  decide +kernel

end Braceless

import Braceless.Proofs.Lexer.Coverage
import Braceless.Proofs.Relocation

/-!
# Texts line by line

The lexer looks ahead: behind the digits of a number, at the second character of an operator,
for the quote that closes a literal.  Wherever it does, a line feed is as good to it as the end
of the text, and only a block comment goes on to the next line.  So two texts that are joined by
a line feed have the tokens of the first and the tokens of the second, further down, unless the
first ends within a block comment.  Then the comment takes the line feed with it, so the
condition cannot be dropped.

## Main definitions

* `Unclosed`: a block comment without its closing pair.
* `ReachesLineEnd`: a lexeme that goes on to the end of its line.
* `EndsUnclosed`: tokens that end with such a comment.
* `Position.down`, `Lexed.mapPos`: the same place some lines further down, and tokens and errors
  at other places.

## Main results

* `extent_append_blank`, `extent_append_line`: a blank, and a line feed in particular, ends a
  lexeme as the end of the text does.
* `pieces_append_line`: the pieces of two texts joined by a line feed.
* `mapPos_down_place`: pieces that start further down have the same tokens further down.
* `lex_append_line_iff`: tokens and errors of two texts joined by a line feed.
-/

namespace Braceless

/-! ## Block comments -/

/-- A block comment without its closing pair. -/
def Unclosed (cs : List Char) : Prop :=
  ∃ body, cs = '/' :: '*' :: body ∧ ¬ ['*', '/'] <:+: body

/-- The closing pair ends a block comment, whatever follows. -/
theorem blockCommentLength_append {body : List Char} (h : ['*', '/'] <:+: body)
    (rest : List Char) : blockCommentLength (body ++ rest) = blockCommentLength body := by
  fun_induction blockCommentLength body with
  | case1 => simp at h
  | case2 body => rfl
  | case3 c body hPair ih =>
      have hLater : ['*', '/'] <:+: body := by
        rcases List.infix_cons_iff.mp h with ⟨tail, hFront⟩ | hLater
        · obtain ⟨hc, hBody⟩ := List.cons.inj hFront
          exact (hPair tail hc.symm hBody.symm).elim
        · exact hLater
      rw [List.cons_append, blockCommentLength, ih hLater]
      intro tail hc hTail
      cases body with
      | nil => simp at hLater
      | cons d body =>
          obtain ⟨rfl, -⟩ := List.cons.inj hTail
          exact hPair body hc rfl

/-- Without a closing pair, a block comment goes on into what follows. -/
theorem blockCommentLength_append_of_unclosed {body rest : List Char}
    (h : ¬ ['*', '/'] <:+: body) (hRest : rest.head? ≠ some '/') :
    blockCommentLength (body ++ rest) = body.length + blockCommentLength rest := by
  fun_induction blockCommentLength body with
  | case1 => simp
  | case2 body => exact absurd ⟨[], body, rfl⟩ h
  | case3 c body hPair ih =>
      have hLater : ¬ ['*', '/'] <:+: body := fun hIn => h (List.infix_cons_iff.mpr (.inr hIn))
      rw [List.cons_append, blockCommentLength, ih hLater, List.length_cons]
      · omega
      · intro tail hc hTail
        cases body with
        | nil =>
            rw [List.nil_append] at hTail
            exact hRest (by rw [hTail]; rfl)
        | cons d body =>
            obtain ⟨rfl, -⟩ := List.cons.inj hTail
            exact hPair body hc rfl

theorem blockCommentLength_of_unclosed {body : List Char} (h : ¬ ['*', '/'] <:+: body) :
    blockCommentLength body = body.length := by
  have hAll : blockCommentLength (body ++ []) = body.length + blockCommentLength [] :=
    blockCommentLength_append_of_unclosed h (by simp)
  simpa [blockCommentLength] using hAll

theorem blockCommentLength_le (body : List Char) : blockCommentLength body ≤ body.length := by
  fun_induction blockCommentLength body with
  | case1 => exact Nat.le_refl _
  | case2 body => simp
  | case3 c body _ ih => exact Nat.succ_le_succ ih

/-! ## How far a lexeme reaches -/

theorem runLength_le (p : Char → Bool) (cs : List Char) : runLength p cs ≤ cs.length :=
  (List.takeWhile_prefix p).length_le

theorem runLength_append_stop {p : Char → Bool} {b : Char} (h : p b = false)
    (cs ds : List Char) : runLength p (cs ++ b :: ds) = runLength p cs := by
  induction cs with
  | nil => simp [runLength, h]
  | cons c cs ih =>
      unfold runLength at ih ⊢
      by_cases hc : p c = true
      · simp [hc, ih]
      · simp [hc]

theorem quotedLength_le (quote : Char) (cs : List Char) :
    (quotedLength quote cs).1 ≤ cs.length := by
  fun_induction quotedLength quote cs with
  | case1 => exact Nat.le_refl _
  | case2 => exact Nat.zero_le _
  | case3 => exact Nat.le_refl _
  | case4 => simp
  | case5 d ds _ rest _ ih => exact Nat.succ_le_succ (Nat.succ_le_succ ih)
  | case6 => simp
  | case7 c cs _ _ _ rest ih => exact Nat.succ_le_succ ih

theorem quotedLength_line (quote : Char) (cs : List Char) :
    quotedLength quote ('\n' :: cs) = (0, false) := by
  rw [quotedLength.eq_def]
  simp

theorem quotedLength_quote {quote : Char} (hLine : quote ≠ '\n') (hSlash : quote ≠ '\\')
    (cs : List Char) : quotedLength quote (quote :: cs) = (1, true) := by
  rw [quotedLength.eq_def]
  simp [hLine, hSlash]

theorem quotedLength_plain {quote c : Char} (hLine : c ≠ '\n') (hSlash : c ≠ '\\')
    (hQuote : c ≠ quote) (cs : List Char) :
    quotedLength quote (c :: cs) =
      ((quotedLength quote cs).1 + 1, (quotedLength quote cs).2) := by
  rw [quotedLength.eq_def]
  simp [hLine, hSlash, hQuote]

theorem quotedLength_append_line (quote : Char) (cs ds : List Char) :
    quotedLength quote (cs ++ '\n' :: ds) = quotedLength quote cs := by
  fun_induction quotedLength quote cs with
  | case1 => exact quotedLength_line quote ds
  | case2 cs => exact quotedLength_line quote (cs ++ '\n' :: ds)
  | case3 => simp [quotedLength]
  | case4 cs => simp [quotedLength]
  | case5 d cs hLine rest _ ih => simp [quotedLength, hLine, rest, ih]
  | case6 cs hLine hSlash => exact quotedLength_quote hLine hSlash (cs ++ '\n' :: ds)
  | case7 c cs hLine hSlash hQuote rest ih =>
      rw [List.cons_append, quotedLength_plain hLine hSlash hQuote, ih]

/-- A literal that is closed ends with its closing quote, whatever follows. -/
theorem quotedLength_append_of_closed {quote : Char} {cs : List Char}
    (h : (quotedLength quote cs).2 = true) (ds : List Char) :
    quotedLength quote (cs ++ ds) = quotedLength quote cs := by
  fun_induction quotedLength quote cs with
  | case1 => cases h
  | case2 cs => cases h
  | case3 => cases h
  | case4 cs => cases h
  | case5 d cs hLine rest _ ih => simp [quotedLength, hLine, rest, ih h]
  | case6 cs hLine hSlash => exact quotedLength_quote hLine hSlash (cs ++ ds)
  | case7 c cs hLine hSlash hQuote rest ih =>
      rw [List.cons_append, quotedLength_plain hLine hSlash hQuote, ih h]

theorem not_isWordPart_of_isBlank {b : Char} (h : isBlank b = true) : isWordPart b = false := by
  have hAll : blanks.all (fun b => !isWordPart b) = true := rfl
  simpa using List.all_eq_true.mp hAll b (isBlank_iff.mp h)

theorem not_isDigit_of_isBlank {b : Char} (h : isBlank b = true) : b.isDigit = false := by
  have hAll : blanks.all (fun b => !b.isDigit) = true := rfl
  simpa using List.all_eq_true.mp hAll b (isBlank_iff.mp h)

theorem pairOperator?_blank (c : Char) {b : Char} (h : isBlank b = true) :
    pairOperator? c b = none := by
  unfold pairOperator?
  split
  all_goals first
    | rfl
    | exact absurd h (by decide)

/-- A blank behind a text does not change which other character the text starts with. -/
theorem head?_append_blank {b c : Char} (hb : isBlank b = true) (hc : isBlank c = false)
    (cs ds : List Char) : (cs ++ b :: ds).head? = some c ↔ cs.head? = some c := by
  cases cs with
  | nil =>
      have hOther : b ≠ c := by
        rintro rfl
        exact Bool.noConfusion (hb.symm.trans hc)
      simp [hOther]
  | cons d cs => simp

theorem numberExtent_append_blank {b : Char} (hb : isBlank b = true) (cs ds : List Char) :
    numberExtent (cs ++ b :: ds) = numberExtent cs := by
  have hStop : b.isDigit = false := not_isDigit_of_isBlank hb
  have hPoint : b ≠ '.' := by
    rintro rfl
    cases hb
  unfold numberExtent
  dsimp only
  rw [runLength_append_stop hStop, List.drop_append_of_le_length (runLength_le _ _)]
  -- What stands behind the digits: nothing, a point and nothing, or enough to decide.
  rcases hDrop : cs.drop (runLength Char.isDigit cs) with _ | ⟨c, _ | ⟨d, rest⟩⟩
  · simp [hPoint]
  · by_cases hc : c = '.'
    · subst hc
      simp [hStop]
    · simp [hc]
  · by_cases hc : c = '.'
    · subst hc
      simp [runLength_append_stop hStop]
    · simp [hc]

theorem wordExtent_append_blank (c : Char) {b : Char} (hb : isBlank b = true)
    (cs ds : List Char) : wordExtent c (cs ++ b :: ds) = wordExtent c cs := by
  unfold wordExtent
  dsimp only
  rw [runLength_append_stop (not_isWordPart_of_isBlank hb),
    List.take_append_of_le_length (runLength_le _ _)]

theorem operatorExtent_append_blank (c : Char) {b : Char} (hb : isBlank b = true)
    (cs ds : List Char) : operatorExtent c (cs ++ b :: ds) = operatorExtent c cs := by
  unfold operatorExtent
  cases cs with
  | nil => simp [pairOperator?_blank c hb]
  | cons d cs => rfl

/-- A text starts with the character that is at its head. -/
theorem exists_eq_cons_of_head? {cs : List Char} {c : Char} (h : cs.head? = some c) :
    ∃ rest, cs = c :: rest := by
  cases cs with
  | nil => cases h
  | cons d rest =>
      obtain rfl := Option.some.inj h
      exact ⟨rest, rfl⟩

/-- A lexeme that reaches to the end of its line, if nothing else ends it: a comment of one line,
or a literal without its closing quote. -/
def ReachesLineEnd (c : Char) (cs : List Char) : Prop :=
  c = '/' ∧ cs.head? = some '/' ∨ (c = '"' ∨ c = '\'') ∧ (quotedLength c cs).2 = false

instance (c : Char) (cs : List Char) : Decidable (ReachesLineEnd c cs) :=
  inferInstanceAs (Decidable (_ ∨ _))

/-- A blank ends a literal, if that is closed or the blank is a line feed. -/
theorem quotedLength_append_blank {c b : Char} {cs : List Char} (hQuote : c = '"' ∨ c = '\'')
    (hLine : b ≠ '\n' → ¬ ReachesLineEnd c cs) (ds : List Char) :
    quotedLength c (cs ++ b :: ds) = quotedLength c cs := by
  by_cases hb : b = '\n'
  · rw [hb, quotedLength_append_line]
  · have hClosed : (quotedLength c cs).2 = true :=
      Bool.not_eq_false _ ▸ fun hOpen => hLine hb (.inr ⟨hQuote, hOpen⟩)
    exact quotedLength_append_of_closed hClosed _

/-- **A blank ends a lexeme** as the end of the text does, but for a block comment that is not
closed, and for a lexeme that only a line feed ends. -/
theorem extent_append_blank {c b : Char} {cs : List Char} (hb : isBlank b = true)
    (hOpen : ¬ Unclosed (c :: cs)) (hLine : b ≠ '\n' → ¬ ReachesLineEnd c cs)
    (ds : List Char) : extent c (cs ++ b :: ds) = extent c cs := by
  have hSlash := head?_append_blank (c := '/') hb rfl cs ds
  have hStar := head?_append_blank (c := '*') hb rfl cs ds
  unfold extent
  simp only [hSlash, hStar]
  split
  · next hComment =>
      have hFeed : b = '\n' := Classical.byContradiction fun hNot => hLine hNot (.inl hComment)
      rw [hFeed, runLength_append_stop rfl]
  split
  · next _ hComment =>
      obtain ⟨rfl, hHead⟩ := hComment
      obtain ⟨body, rfl⟩ := exists_eq_cons_of_head? hHead
      have hClosed : ['*', '/'] <:+: body :=
        Classical.byContradiction fun hNot => hOpen ⟨body, rfl, hNot⟩
      rw [List.cons_append, List.tail_cons, List.tail_cons, blockCommentLength_append hClosed]
  split
  · exact numberExtent_append_blank hb cs ds
  split
  · next hQuote =>
      rw [quotedExtent, quotedLength_append_blank (.inl hQuote) hLine, quotedExtent]
  split
  · next hQuote =>
      rw [quotedExtent, quotedLength_append_blank (.inr hQuote) hLine, quotedExtent]
  split
  · exact wordExtent_append_blank c hb cs ds
  · exact operatorExtent_append_blank c hb cs ds

/-- A line feed ends every lexeme but a block comment that is not closed. -/
theorem extent_append_line {c : Char} {cs : List Char} (h : ¬ Unclosed (c :: cs))
    (ds : List Char) : extent c (cs ++ '\n' :: ds) = extent c cs :=
  extent_append_blank rfl h (absurd rfl) ds

theorem more_numberExtent_le (cs : List Char) : (numberExtent cs).more ≤ cs.length := by
  have hWhole := runLength_le Char.isDigit cs
  unfold numberExtent
  dsimp only
  split
  · next d ds hDrop =>
      have hLength := congrArg List.length hDrop
      have hFraction := runLength_le Char.isDigit ds
      simp only [List.length_drop, List.length_cons] at hLength
      split
      · show _ + 2 + _ ≤ _
        omega
      · exact hWhole
  · exact hWhole

theorem more_operatorExtent_le (c : Char) (cs : List Char) :
    (operatorExtent c cs).more ≤ cs.length := by
  unfold operatorExtent
  split
  · next kind hPair =>
      obtain ⟨d, hHead, -⟩ := Option.bind_eq_some_iff.mp hPair
      obtain ⟨rest, rfl⟩ := exists_eq_cons_of_head? hHead
      simp
  · split <;> exact Nat.zero_le _

/-- A lexeme reaches no further than the text. -/
theorem more_extent_le (c : Char) (cs : List Char) : (extent c cs).more ≤ cs.length := by
  unfold extent
  split
  · exact runLength_le _ cs
  split
  · next _ hOpen =>
      obtain ⟨body, rfl⟩ := exists_eq_cons_of_head? hOpen.2
      exact Nat.succ_le_succ (blockCommentLength_le body)
  split
  · exact more_numberExtent_le cs
  split
  · exact quotedLength_le c cs
  split
  · exact quotedLength_le c cs
  split
  · exact runLength_le isWordPart cs
  · exact more_operatorExtent_le c cs

/-! ## Texts that end within a comment -/

/-- The extent of a block comment. -/
theorem extent_comment (body : List Char) :
    extent '/' ('*' :: body) = ⟨.comment, blockCommentLength body + 1, none⟩ := by
  rw [extent, if_neg (by simp), if_pos ⟨rfl, rfl⟩, List.tail_cons]

/-- A block comment that is not closed takes all that is left of the text. -/
theorem extent_of_unclosed {c : Char} {cs : List Char} (h : Unclosed (c :: cs)) :
    extent c cs = ⟨.comment, cs.length, none⟩ := by
  obtain ⟨body, hText, hNot⟩ := h
  obtain ⟨rfl, rfl⟩ := List.cons.inj hText
  rw [extent_comment, blockCommentLength_of_unclosed hNot, List.length_cons]

theorem chars_front_of_unclosed {c : Char} {cs : List Char} (h : Unclosed (c :: cs)) :
    (Lexeme.front c cs).chars = c :: cs := by
  simp [Lexeme.chars, Lexeme.front, extent_of_unclosed h]

/-- A block comment that is closed ends with the closing pair. -/
theorem infix_take_blockCommentLength {body : List Char} (h : ['*', '/'] <:+: body) :
    ['*', '/'] <:+: body.take (blockCommentLength body) := by
  fun_induction blockCommentLength body with
  | case1 => exact h
  | case2 body => exact List.infix_refl _
  | case3 c body hPair ih =>
      rcases List.infix_cons_iff.mp h with ⟨tail, hFront⟩ | hLater
      · obtain ⟨hc, hBody⟩ := List.cons.inj hFront
        exact (hPair tail hc.symm hBody.symm).elim
      · exact List.infix_cons_iff.mpr (.inr (ih hLater))

/-- The lexeme at the front of a text is a block comment that is not closed only if it is the
whole text. -/
theorem unclosed_of_unclosed_front {c : Char} {cs : List Char}
    (h : Unclosed (Lexeme.front c cs).chars) : Unclosed (c :: cs) := by
  obtain ⟨body, hText, hNot⟩ := h
  obtain ⟨hc, hTake⟩ : c = '/' ∧ cs.take (extent c cs).more = '*' :: body :=
    List.cons.inj hText
  obtain ⟨rest, hRest⟩ := hTake ▸ List.take_prefix (extent c cs).more cs
  subst hc
  rw [← hRest, List.cons_append] at hTake ⊢
  rw [extent_comment, List.take_succ_cons, List.cons.injEq] at hTake
  refine ⟨body ++ rest, rfl, fun hClosed => hNot ?_⟩
  rw [← hTake.2]
  exact infix_take_blockCommentLength hClosed

/-- Tokens that end with a block comment that is not closed, and the end marker. -/
def EndsUnclosed (ts : List Token) : Prop :=
  ∃ before t stop, ts = before ++ [t, stop] ∧ t.kind = .comment ∧ Unclosed t.text.toList

theorem unclosed_of_endsUnclosed_pair {t stop : Token} (h : EndsUnclosed [t, stop]) :
    Unclosed t.text.toList := by
  obtain ⟨before, u, last, hTokens, -, hText⟩ := h
  have hNone : before = [] := by
    have hLength := congrArg List.length hTokens
    simpa using hLength
  subst hNone
  obtain ⟨rfl, -⟩ := List.cons.inj hTokens
  exact hText

theorem tokens_place_ne_nil (pos : Position) (ps : List Piece) : (place pos ps).tokens ≠ [] := by
  fun_induction place pos ps with
  | case1 => exact List.cons_ne_nil _ _
  | case2 pos c ps ih => exact ih
  | case3 => exact List.cons_ne_nil _ _

theorem pieces_blank {c : Char} (h : isBlank c = true) (cs : List Char) :
    pieces (c :: cs) = .blank c :: pieces cs := by
  rw [pieces, if_pos h]

theorem pieces_lexeme {c : Char} (h : ¬ isBlank c = true) (cs : List Char) :
    pieces (c :: cs) =
      .lexeme (Lexeme.front c cs) :: pieces (cs.drop (extent c cs).more) := by
  rw [pieces, if_neg h]

/-- A text ends within a comment if its first lexeme is one that is not closed, or if what is
left behind the first lexeme ends so. -/
theorem endsUnclosed_lexeme_iff (c : Char) (cs : List Char) (pos pos' : Position) :
    EndsUnclosed ((Lexeme.front c cs).token pos ::
        (place pos' (pieces (cs.drop (extent c cs).more))).tokens) ↔
      Unclosed (c :: cs) ∨
        EndsUnclosed (place pos' (pieces (cs.drop (extent c cs).more))).tokens := by
  constructor
  · rintro ⟨before, t, stop, hTokens, hKind, hText⟩
    cases before with
    | nil =>
        obtain ⟨rfl, -⟩ := List.cons.inj hTokens
        refine .inl (unclosed_of_unclosed_front ?_)
        simpa [Lexeme.token] using hText
    | cons u before => exact .inr ⟨before, t, stop, (List.cons.inj hTokens).2, hKind, hText⟩
  · rintro (hOpen | ⟨before, t, stop, hTokens, hKind, hText⟩)
    · refine ⟨[], (Lexeme.front c cs).token pos, ⟨.eof, "", pos'⟩, ?_, ?_, ?_⟩
      · simp [extent_of_unclosed hOpen, pieces, place]
      · simp [Lexeme.token, Lexeme.front, extent_of_unclosed hOpen]
      · simpa [Lexeme.token, chars_front_of_unclosed hOpen] using hOpen
    · exact ⟨(Lexeme.front c cs).token pos :: before, t, stop, by simp [hTokens], hKind, hText⟩

/-! ## Two texts -/

theorem front_append_line {c : Char} {cs : List Char} (h : ¬ Unclosed (c :: cs))
    (ds : List Char) : Lexeme.front c (cs ++ '\n' :: ds) = Lexeme.front c cs := by
  unfold Lexeme.front
  dsimp only
  rw [extent_append_line h, List.take_append_of_le_length (more_extent_le c cs)]

/-- **The pieces of two texts joined by a line feed** are the pieces of the one, the line feed,
and the pieces of the other, unless the first text ends within a comment. -/
theorem pieces_append_line {cs : List Char} {pos : Position}
    (h : ¬ EndsUnclosed (place pos (pieces cs)).tokens) (ds : List Char) :
    pieces (cs ++ '\n' :: ds) = pieces cs ++ .blank '\n' :: pieces ds := by
  fun_induction pieces cs generalizing pos with
  | case1 => exact pieces_blank rfl ds
  | case2 c cs hBlank ih => rw [List.cons_append, pieces_blank hBlank, ih h, List.cons_append]
  | case3 c cs hBlank ih =>
      have hBoth : ¬ (Unclosed (c :: cs) ∨ _) := fun hOpen =>
        h ((endsUnclosed_lexeme_iff c cs pos _).mpr hOpen)
      obtain ⟨hFront, hRest⟩ := not_or.mp hBoth
      rw [List.cons_append, pieces_lexeme hBlank, front_append_line hFront,
        extent_append_line hFront, List.drop_append_of_le_length (more_extent_le c cs), ih hRest,
        List.cons_append]

/-- Without a closing pair, a comment takes the line feed behind the text with it. -/
theorem front_append_line_ne {c : Char} {cs : List Char} (h : Unclosed (c :: cs))
    (ds : List Char) :
    (Lexeme.front c (cs ++ '\n' :: ds)).chars ≠ (Lexeme.front c cs).chars := by
  rw [chars_front_of_unclosed h]
  obtain ⟨body, hText, hNot⟩ := h
  obtain ⟨rfl, rfl⟩ := List.cons.inj hText
  have hLonger : blockCommentLength (body ++ '\n' :: ds) =
      body.length + (blockCommentLength ds + 1) :=
    blockCommentLength_append_of_unclosed hNot (by simp)
  intro hSame
  have hLength := congrArg List.length hSame
  simp only [Lexeme.chars, Lexeme.front, List.cons_append, extent_comment, hLonger,
    List.length_cons, List.length_take, List.length_append] at hLength
  omega

/-- A text that ends within a comment does not keep its tokens when another line follows. -/
theorem tokens_append_line_ne {cs : List Char} {pos : Position}
    (h : EndsUnclosed (place pos (pieces cs)).tokens) (ds : List Char) (ts : List Token) :
    (place pos (pieces (cs ++ '\n' :: ds))).tokens ≠
      (place pos (pieces cs)).tokens.dropLast ++ ts := by
  fun_induction pieces cs generalizing pos with
  | case1 =>
      obtain ⟨before, t, stop, hTokens, -, -⟩ := h
      have hLength := congrArg List.length hTokens
      simp [place] at hLength
  | case2 c cs hBlank ih =>
      rw [List.cons_append, pieces_blank hBlank]
      exact ih h
  | case3 c cs hBlank ih =>
      rw [List.cons_append, pieces_lexeme hBlank]
      dsimp only [place]
      rw [List.dropLast_cons_of_ne_nil (tokens_place_ne_nil _ _), List.cons_append]
      intro hSame
      obtain ⟨hFirst, hOthers⟩ := List.cons.inj hSame
      by_cases hOpen : Unclosed (c :: cs)
      · refine front_append_line_ne hOpen ds ?_
        have hText := congrArg (·.text.toList) hFirst
        simpa [Lexeme.token] using hText
      · rcases (endsUnclosed_lexeme_iff c cs pos _).mp h with hFront | hRest
        · exact hOpen hFront
        · rw [front_append_line hOpen, extent_append_line hOpen,
            List.drop_append_of_le_length (more_extent_le c cs)] at hOthers
          exact ih hRest hOthers

/-! ## Places -/

namespace Position

/-- The same column some lines further down. -/
def down (n : Nat) (p : Position) : Position :=
  ⟨p.line + n, p.column⟩

theorem step_down (n : Nat) (p : Position) (c : Char) :
    (p.down n).step c = (p.step c).down n := by
  unfold step down
  split
  · rw [mk.injEq]
    exact ⟨Nat.add_right_comm p.line n 1, rfl⟩
  · rfl

theorem after_down (n : Nat) (p : Position) (cs : List Char) :
    (p.down n).after cs = (p.after cs).down n := by
  induction cs generalizing p with
  | nil => rfl
  | cons c cs ih => rw [after_cons, after_cons, step_down, ih]

/-- A line feed behind a text leads to the start of the next line. -/
theorem after_concat_line (cs : List Char) :
    start.after (cs ++ ['\n']) = start.down (cs.count '\n' + 1) := by
  have hCounted := after_behind [] (cs ++ ['\n'])
  rw [List.nil_append, behind_concat] at hCounted
  rw [show start = behind [] from rfl, hCounted]
  simp [step, behind, down, Nat.add_comm]

end Position

def LexicalError.mapPos (f : Position → Position) (e : LexicalError) : LexicalError :=
  { e with pos := f e.pos }

namespace Lexed

/-- Tokens and errors at other positions. -/
def mapPos (f : Position → Position) (l : Lexed) : Lexed :=
  ⟨l.tokens.map (Token.mapPos f), l.errors.map (LexicalError.mapPos f)⟩

/-- The tokens and errors of one text and then those of another.  The end marker between them
is dropped. -/
def followedBy (l next : Lexed) : Lexed :=
  ⟨l.tokens.dropLast ++ next.tokens, l.errors ++ next.errors⟩

end Lexed

theorem map_mapPos_error? (f : Position → Position) (l : Lexeme) (pos : Position) :
    (l.error? pos).toList.map (LexicalError.mapPos f) = (l.error? (f pos)).toList := by
  unfold Lexeme.error?
  cases l.fault with
  | none => rfl
  | some fault => rfl

/-- Pieces that start further down have the same tokens and errors further down. -/
theorem mapPos_down_place (n : Nat) (pos : Position) (ps : List Piece) :
    place (pos.down n) ps = (place pos ps).mapPos (.down n) := by
  fun_induction place pos ps with
  | case1 => rfl
  | case2 pos c ps ih => rw [place, Position.step_down, ih]
  | case3 pos l ps rest ih =>
      rw [place, Position.after_down, ih, ← map_mapPos_error?]
      simp [Lexed.mapPos, Lexeme.token, Token.mapPos, rest]

theorem place_append (pos : Position) (ps qs : List Piece) :
    place pos (ps ++ qs) =
      (place pos ps).followedBy (place (pos.after (ps.flatMap Piece.chars)) qs) := by
  fun_induction place pos ps with
  | case1 => rfl
  | case2 pos c ps ih => rw [List.cons_append, place, ih]; rfl
  | case3 pos l ps rest ih =>
      rw [List.cons_append, place, ih]
      simp only [Lexed.followedBy, List.dropLast_cons_of_ne_nil (tokens_place_ne_nil _ _),
        List.flatMap_cons, Piece.chars, Position.after_append, List.cons_append,
        List.append_assoc, rest]

/-- **Lexing goes line by line.**  Two texts joined by a line feed have the tokens and errors of
the first and then, as many lines further down as the first has line feeds and one, those of the
second.  This fails only if the first text ends within a block comment, and then it always
fails. -/
theorem lex_append_line_iff (a b : String) :
    lex (a ++ "\n" ++ b) =
        (lex a).followedBy ((lex b).mapPos (.down (a.toList.count '\n' + 1))) ↔
      ¬ EndsUnclosed (lex a).tokens := by
  have hText : (a ++ "\n" ++ b).toList = a.toList ++ '\n' :: b.toList := by simp
  constructor
  · intro hSame hOpen
    have hTokens := congrArg Lexed.tokens hSame
    unfold lex at hTokens
    rw [hText] at hTokens
    exact tokens_append_line_ne hOpen b.toList _ hTokens
  · intro hClosed
    have hStart : (Position.start.after ((pieces a.toList).flatMap Piece.chars)).step '\n' =
        Position.start.down (a.toList.count '\n' + 1) := by
      rw [flatMap_chars_pieces, ← Position.after_concat_line, Position.after_append]
      rfl
    unfold lex
    rw [hText, pieces_append_line hClosed, place_append, place, hStart, mapPos_down_place]

end Braceless

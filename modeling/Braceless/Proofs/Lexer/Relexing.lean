import Braceless.Proofs.Lexer.Lines
import Braceless.Proofs.Words

/-!
# Lexing the lexemes again

Where a lexeme ends may depend on what follows it: a point belongs to a number if a digit comes
next, and a literal that is not closed ends with its line.  Still a lexeme that is cut out of its
text is read as the same lexeme: the lexer saw behind it only what does not go on with it, and the
end of the text does not go on with it either.  A line feed is as good as that end, so the lexemes
of a text can be written one below the other and are read as they were.  Only a block comment that
is not closed would go on into the next line, and such a comment is the last lexeme of its text.

## Main definitions

* `lexemesOf`: the lexemes among the pieces of a text.

## Main results

* `extent_take`: a lexeme reaches as far without the text behind it.
* `pieces_chars_of_mem`: a lexeme of a text, on its own, is one piece.
* `lexemesOf_pieces_intercalate`: lexemes one below the other.
* `lex_intercalate_texts`: so the texts of the tokens of a text have the same tokens.
-/

namespace Braceless

/-! ## Lexemes without the text behind them -/

theorem runLength_take (p : Char → Bool) (cs : List Char) :
    runLength p (cs.take (runLength p cs)) = runLength p cs := by
  induction cs with
  | nil => rfl
  | cons c cs ih =>
      by_cases hc : p c = true
      · rw [runLength_cons_of_pos hc, List.take_succ_cons, runLength_cons_of_pos hc, ih]
      · simp [runLength, hc]

theorem blockCommentLength_take (body : List Char) :
    blockCommentLength (body.take (blockCommentLength body)) = blockCommentLength body := by
  fun_induction blockCommentLength body with
  | case1 => rfl
  | case2 body => rfl
  | case3 c body hPair ih =>
      rw [List.take_succ_cons, blockCommentLength, ih]
      intro tail hc hTail
      obtain ⟨rest, hRest⟩ := hTail ▸ List.take_prefix (blockCommentLength body) body
      exact hPair (tail ++ rest) hc hRest.symm

theorem quotedLength_take (quote : Char) (cs : List Char) :
    quotedLength quote (cs.take (quotedLength quote cs).1) = quotedLength quote cs := by
  fun_induction quotedLength quote cs with
  | case1 => rfl
  | case2 cs => rfl
  | case3 => simp [quotedLength]
  | case4 cs => simp [quotedLength]
  | case5 d cs hLine rest _ ih => simp [quotedLength, hLine, rest, ih]
  | case6 cs hLine hSlash => exact quotedLength_quote hLine hSlash []
  | case7 c cs hLine hSlash hQuote rest ih =>
      rw [List.take_succ_cons, quotedLength_plain hLine hSlash hQuote, ih]

theorem numberExtent_digits {cs rest : List Char} (h : ∀ c ∈ cs, c.isDigit = true)
    (hStop : ∀ c ∈ rest.head?, c.isDigit = false)
    (hPoint : ∀ d ds, rest = '.' :: d :: ds → d.isDigit = false) :
    numberExtent (cs ++ rest) = ⟨.integer, cs.length, none⟩ := by
  have hRun : runLength Char.isDigit (cs ++ rest) = cs.length := runLength_append_of_stop h hStop
  unfold numberExtent
  dsimp only
  rw [hRun, List.drop_left]
  split
  · next d ds => rw [if_neg (Bool.eq_false_iff.mp (hPoint d ds rfl))]
  · rfl

theorem numberExtent_fraction {cs : List Char} (h : ∀ c ∈ cs, c.isDigit = true) {d : Char}
    (hd : d.isDigit = true) (ds : List Char) :
    numberExtent (cs ++ '.' :: d :: ds) =
      ⟨.decimal, cs.length + 2 + runLength Char.isDigit ds, none⟩ := by
  have hRun : runLength Char.isDigit (cs ++ '.' :: d :: ds) = cs.length :=
    runLength_append_of_stop h (by simp)
  simp [numberExtent, hRun, hd]

theorem numberExtent_take (cs : List Char) :
    numberExtent (cs.take (numberExtent cs).more) = numberExtent cs := by
  have hDigits : ∀ c ∈ cs.take (runLength Char.isDigit cs), c.isDigit = true :=
    fun c hc => of_mem_take_run hc
  have hLength : (cs.take (runLength Char.isDigit cs)).length = runLength Char.isDigit cs :=
    List.length_take_of_le (runLength_le _ cs)
  by_cases hPoint : ∃ d ds,
      cs.drop (runLength Char.isDigit cs) = '.' :: d :: ds ∧ d.isDigit = true
  · obtain ⟨d, ds, hDrop, hd⟩ := hPoint
    have hAll := numberExtent_fraction hDigits hd ds
    rw [← hDrop, List.take_append_drop, hLength] at hAll
    have hTake : cs.take (runLength Char.isDigit cs + 2 + runLength Char.isDigit ds) =
        cs.take (runLength Char.isDigit cs) ++
          '.' :: d :: ds.take (runLength Char.isDigit ds) := by
      rw [Nat.add_assoc, List.take_add, hDrop, Nat.add_comm]
      rfl
    rw [hAll, hTake, numberExtent_fraction hDigits hd, hLength, runLength_take]
  · have hAll : numberExtent cs = ⟨.integer, runLength Char.isDigit cs, none⟩ := by
      unfold numberExtent
      dsimp only
      split
      · next d ds hDrop => rw [if_neg fun hd => hPoint ⟨d, ds, hDrop, hd⟩]
      · rfl
    have hCut := @numberExtent_digits _ [] hDigits nofun nofun
    rw [List.append_nil] at hCut
    rw [hAll, hCut, hLength]

theorem wordExtent_take (c : Char) (cs : List Char) :
    wordExtent c (cs.take (wordExtent c cs).more) = wordExtent c cs := by
  show wordExtent c (cs.take (runLength isWordPart cs)) = wordExtent c cs
  unfold wordExtent
  dsimp only
  rw [runLength_take, List.take_take, Nat.min_self]

theorem operatorExtent_take (c : Char) (cs : List Char) :
    operatorExtent c (cs.take (operatorExtent c cs).more) = operatorExtent c cs := by
  cases hPair : cs.head?.bind (pairOperator? c) with
  | none =>
      -- An operator of one character is decided by that character.
      have hSame : ∀ ds : List Char, ds.head?.bind (pairOperator? c) = none →
          operatorExtent c ds = operatorExtent c [] := by
        intro ds hNone
        simp [operatorExtent, hNone]
      have hMore : (operatorExtent c []).more = 0 := by
        simp only [operatorExtent, List.head?_nil, Option.bind_none]
        split <;> rfl
      rw [hSame cs hPair, hMore, List.take_zero]
  | some kind =>
      obtain ⟨d, hHead, hKind⟩ := Option.bind_eq_some_iff.mp hPair
      obtain ⟨rest, rfl⟩ := exists_eq_cons_of_head? hHead
      simp [operatorExtent, hKind]

theorem extent_lineComment (cs : List Char) :
    extent '/' ('/' :: cs) = ⟨.comment, runLength (· != '\n') cs + 1, none⟩ := by
  rw [extent, if_pos ⟨rfl, rfl⟩, runLength_cons_of_pos (by decide)]

/-- The extent of a lexeme that is no comment. -/
theorem extent_plain {c : Char} (cs : List Char)
    (hLine : ¬ (c = '/' ∧ cs.head? = some '/')) (hBlock : ¬ (c = '/' ∧ cs.head? = some '*')) :
    extent c cs =
      if c.isDigit then numberExtent cs
      else if c = '"' then quotedExtent c .string .unterminatedString cs
      else if c = '\'' then quotedExtent c .char .unterminatedChar cs
      else if isWordStart c then wordExtent c cs
      else operatorExtent c cs := by
  rw [extent, if_neg hLine, if_neg hBlock]

/-- **A lexeme reaches as far without the text behind it.** -/
theorem extent_take (c : Char) (cs : List Char) :
    extent c (cs.take (extent c cs).more) = extent c cs := by
  by_cases hLine : c = '/' ∧ cs.head? = some '/'
  · obtain ⟨rfl, hHead⟩ := hLine
    obtain ⟨rest, rfl⟩ := exists_eq_cons_of_head? hHead
    rw [extent_lineComment, List.take_succ_cons, extent_lineComment, runLength_take]
  by_cases hBlock : c = '/' ∧ cs.head? = some '*'
  · obtain ⟨rfl, hHead⟩ := hBlock
    obtain ⟨body, rfl⟩ := exists_eq_cons_of_head? hHead
    rw [extent_comment, List.take_succ_cons, extent_comment, blockCommentLength_take]
  -- No comment starts here, and none does in a shorter text.
  have hHead : ∀ {n : Nat} {d : Char}, (cs.take n).head? = some d → cs.head? = some d := by
    intro n d hd
    obtain ⟨rest, hRest⟩ := exists_eq_cons_of_head? hd
    obtain ⟨more, hMore⟩ := hRest ▸ List.take_prefix n cs
    rw [← hMore]
    rfl
  rw [extent_plain (cs.take _) (fun h => hLine ⟨h.1, hHead h.2⟩)
    (fun h => hBlock ⟨h.1, hHead h.2⟩), extent_plain cs hLine hBlock]
  by_cases hDigit : c.isDigit = true
  · simp only [if_pos hDigit]
    exact numberExtent_take cs
  simp only [if_neg hDigit]
  by_cases hString : c = '"'
  · simp only [if_pos hString, quotedExtent, quotedLength_take]
  simp only [if_neg hString]
  by_cases hChar : c = '\''
  · simp only [if_pos hChar, quotedExtent, quotedLength_take]
  simp only [if_neg hChar]
  by_cases hWord : isWordStart c = true
  · simp only [if_pos hWord]
    exact wordExtent_take c cs
  · simp only [if_neg hWord]
    exact operatorExtent_take c cs

/-- A lexeme on its own is one piece. -/
theorem pieces_chars_front {c : Char} (h : ¬ isBlank c = true) (cs : List Char) :
    pieces (Lexeme.front c cs).chars = [.lexeme (Lexeme.front c cs)] := by
  have hFront : Lexeme.front c (cs.take (extent c cs).more) = Lexeme.front c cs := by
    unfold Lexeme.front
    dsimp only
    rw [extent_take, List.take_take, Nat.min_self]
  have hRest : (cs.take (extent c cs).more).drop (extent c cs).more = [] :=
    List.drop_eq_nil_of_le (List.length_take_le _ _)
  show pieces (c :: cs.take (extent c cs).more) = _
  rw [pieces_lexeme h, hFront, extent_take, hRest, pieces]

/-! ## The lexemes of a text -/

/-- The lexemes among the pieces of a text. -/
def lexemesOf : List Piece → List Lexeme
  | [] => []
  | .blank _ :: ps => lexemesOf ps
  | .lexeme l :: ps => l :: lexemesOf ps

theorem lexemesOf_append (ps qs : List Piece) :
    lexemesOf (ps ++ qs) = lexemesOf ps ++ lexemesOf qs := by
  fun_induction lexemesOf ps with
  | case1 => rfl
  | case2 c ps ih => exact ih
  | case3 l ps ih => exact congrArg (l :: ·) ih

theorem pieces_chars_of_mem {cs : List Char} {l : Lexeme} (h : l ∈ lexemesOf (pieces cs)) :
    pieces l.chars = [.lexeme l] := by
  fun_induction pieces cs with
  | case1 => cases h
  | case2 c cs _ ih => exact ih h
  | case3 c cs hBlank ih =>
      rcases List.mem_cons.mp h with rfl | hRest
      · exact pieces_chars_front hBlank cs
      · exact ih hRest

/-- Only the last lexeme of a text can be a block comment that is not closed. -/
theorem not_unclosed_of_mem_dropLast {cs : List Char} {l : Lexeme}
    (h : l ∈ (lexemesOf (pieces cs)).dropLast) : ¬ Unclosed l.chars := by
  fun_induction pieces cs with
  | case1 => cases h
  | case2 c cs _ ih => exact ih h
  | case3 c cs _ ih =>
      by_cases hLast : lexemesOf (pieces (cs.drop (extent c cs).more)) = []
      · simp [lexemesOf, hLast] at h
      · rw [lexemesOf, List.dropLast_cons_of_ne_nil hLast] at h
        rcases List.mem_cons.mp h with rfl | hRest
        · intro hOpen
          have hAll := extent_of_unclosed (unclosed_of_unclosed_front hOpen)
          simp [hAll, pieces, lexemesOf] at hLast
        · exact ih hRest

/-- Lexemes one below the other are read as they are, if none but the last is a block comment
that is not closed. -/
theorem lexemesOf_pieces_intercalate {ls : List Lexeme}
    (hAlone : ∀ l ∈ ls, pieces l.chars = [.lexeme l])
    (hClosed : ∀ l ∈ ls.dropLast, ¬ Unclosed l.chars) :
    lexemesOf (pieces (['\n'].intercalate (ls.map Lexeme.chars))) = ls := by
  induction ls with
  | nil => simp [List.intercalate, pieces, lexemesOf]
  | cons l ls ih =>
      have hFirst := hAlone l (by simp)
      cases ls with
      | nil => simp [List.intercalate, hFirst, lexemesOf]
      | cons next ls =>
          have hShut : ¬ EndsUnclosed (place .start (pieces l.chars)).tokens := by
            intro hOpen
            rw [hFirst] at hOpen
            refine hClosed l (by simp) ?_
            simpa [Lexeme.token] using unclosed_of_endsUnclosed_pair hOpen
          have hRest := ih (fun l' hl' => hAlone l' (by simp [hl']))
            (fun l' hl' => hClosed l' (by simp [hl']))
          rw [List.map_cons, List.map_cons, List.intercalate_cons_cons, List.append_assoc,
            List.singleton_append, pieces_append_line hShut, lexemesOf_append, hFirst]
          exact congrArg (l :: ·) hRest

/-! ## Tokens without places -/

/-- Apart from positions, tokens and errors are those of the lexemes, one by one. -/
theorem mapPos_nowhere_place (pos : Position) (ps : List Piece) :
    (place pos ps).mapPos nowhere =
      ⟨(lexemesOf ps).map (·.token .start) ++ [⟨.eof, "", .start⟩],
        (lexemesOf ps).flatMap fun l => (l.error? .start).toList⟩ := by
  fun_induction place pos ps with
  | case1 => rfl
  | case2 pos c ps ih => exact ih
  | case3 pos l ps rest ih =>
      rw [Lexed.mapPos, Lexed.mk.injEq] at ih ⊢
      refine ⟨?_, ?_⟩
      · rw [List.map_cons, ih.1]
        rfl
      · rw [List.map_append, ih.2, map_mapPos_error?]
        rfl

theorem texts_place (pos : Position) (cs : List Char) :
    ((place pos (pieces cs)).tokens.filter (·.kind != .eof)).map (·.text) =
      (lexemesOf (pieces cs)).map (String.ofList ·.chars) := by
  fun_induction pieces cs generalizing pos with
  | case1 => rfl
  | case2 c cs _ ih => exact ih (pos.step c)
  | case3 c cs _ ih =>
      have hKind : (((Lexeme.front c cs).token pos).kind != .eof) = true := by
        simpa using (wellSpelled_front c cs pos).notEnd
      dsimp only [place]
      rw [List.filter_cons, if_pos hKind, List.map_cons, ih]
      rfl

/-- A lexeme that is one piece on its own is one token on its own. -/
theorem tokens_lex_chars {l : Lexeme} (h : pieces l.chars = [.lexeme l]) :
    (lex (String.ofList l.chars)).tokens = [l.token .start, ⟨.eof, "", .behind l.chars⟩] := by
  have hEnd : Position.start.after l.chars = .behind l.chars := Position.after_behind [] l.chars
  rw [lex, String.toList_ofList, h, ← hEnd]
  rfl

/-- **The texts of the tokens, one below the other, have the same tokens** and errors, but for
their positions.  Each of these texts on its own is one token, of the same kind. -/
theorem lex_intercalate_texts (source : String) :
    (lex ("\n".intercalate
        (((lex source).tokens.filter (·.kind != .eof)).map (·.text)))).mapPos nowhere =
      (lex source).mapPos nowhere ∧
    ∀ t ∈ (lex source).tokens, t.kind ≠ .eof →
      (lex t.text).tokens =
        [⟨t.kind, t.text, .start⟩, ⟨.eof, "", .behind t.text.toList⟩] := by
  refine ⟨?_, ?_⟩
  · have hText : ("\n".intercalate
          (((lex source).tokens.filter (·.kind != .eof)).map (·.text))).toList =
        ['\n'].intercalate ((lexemesOf (pieces source.toList)).map Lexeme.chars) := by
      rw [String.toList_intercalate, lex, texts_place, List.map_map]
      simp [Function.comp_def]
    have hAlone : ∀ l ∈ lexemesOf (pieces source.toList), pieces l.chars = [.lexeme l] :=
      fun _ => pieces_chars_of_mem
    have hClosed : ∀ l ∈ (lexemesOf (pieces source.toList)).dropLast, ¬ Unclosed l.chars :=
      fun _ => not_unclosed_of_mem_dropLast
    rw [lex, hText, mapPos_nowhere_place, lexemesOf_pieces_intercalate hAlone hClosed, lex,
      mapPos_nowhere_place]
  · intro t ht hKind
    have hMem : t.mapPos nowhere ∈ ((lex source).mapPos nowhere).tokens :=
      List.mem_map_of_mem ht
    rw [lex, mapPos_nowhere_place] at hMem
    rcases List.mem_append.mp hMem with hLexeme | hEnd
    · obtain ⟨l, hl, hToken⟩ := List.mem_map.mp hLexeme
      obtain ⟨hKind', hText⟩ : l.kind = t.kind ∧ String.ofList l.chars = t.text := by
        simpa [Lexeme.token, Token.mapPos, nowhere] using hToken
      have hAlone := tokens_lex_chars (pieces_chars_of_mem hl)
      rw [hText] at hAlone
      rw [hAlone, Lexeme.token, hKind', ← hText, String.toList_ofList]
    · have hToken := List.mem_singleton.mp hEnd
      exact absurd (congrArg Token.kind hToken) hKind

/-- A number before a point that is not its own, a literal that ends with its line in half an
escape, a character that starts no token, and a block comment that is not closed. -/
def raggedSource : String :=
  "7.'a\\\n&==/*/ *"

theorem lex_intercalate_raggedSource :
    (lex "7\n.\n'a\\\n&\n==\n/*/ *").mapPos nowhere = (lex raggedSource).mapPos nowhere ∧
      (⟨.char, "'a\\", ⟨1, 3⟩⟩ : Token) ∈ (lex raggedSource).tokens ∧
      (lex "'a\\").tokens = [⟨.char, "'a\\", ⟨1, 1⟩⟩, ⟨.eof, "", ⟨1, 4⟩⟩] := by
  have hFacts : "\n".intercalate
        (((lex raggedSource).tokens.filter (·.kind != .eof)).map (·.text)) =
          "7\n.\n'a\\\n&\n==\n/*/ *" ∧
      (⟨.char, "'a\\", ⟨1, 3⟩⟩ : Token) ∈ (lex raggedSource).tokens := by
    decide +kernel
  obtain ⟨hAgain, hAlone⟩ := lex_intercalate_texts raggedSource
  rw [hFacts.1] at hAgain
  exact ⟨hAgain, hFacts.2, hAlone _ hFacts.2 (by decide)⟩

end Braceless

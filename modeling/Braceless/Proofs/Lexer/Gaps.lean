import Braceless.Proofs.Lexer.Relexing

/-!
# Other gaps between the same lexemes

The blanks between two lexemes are dropped, and which blanks they are hardly matters.  A gap can
be changed, and one can be put where there was none.  Three things can go wrong.  A gap that is
closed may join what was apart, and not only its neighbours: in `1. 5` the number ends before the
point because no digit follows that, so closing the gap behind the point makes one number of all
three.  Behind a comment of one line or a literal that is not closed, only a line feed ends the
lexeme.  And a block comment that is not closed takes all that follows.  A change of the gaps that
keeps clear of these three keeps every lexeme.

The argument is about what a lexeme looks at behind its end.  That is one character, and for a
number before a point one more.

## Main definitions

* `SameAhead`: two texts that look the same to a lexeme in front of them.
* `Lexeme.ReadBefore`: a lexeme that is read as it is in front of a text.
* `Lexeme.Allows`: the gaps that may follow a lexeme.
* `Piece.Respaced`, `Respaced`: pieces, and texts, with the same lexemes and other gaps.

## Main results

* `extent_congr`: how far a lexeme reaches depends on what it looks at.
* `pieces_of_respaced`: pieces with other gaps are the pieces of their text.
* `tokens_of_respaced`: texts with other gaps have the same tokens, but for positions.
-/

namespace Braceless

/-! ## What a lexeme looks at -/

/-- A lexeme in front of `rest'` sees what it sees in front of `rest`: the same character, and a
digit behind that only if there was one. -/
structure SameAhead (rest rest' : List Char) : Prop where
  head : rest'.head? = rest.head?
  digit : ∀ d ∈ rest'.tail.head?, d.isDigit = true → ∃ e ∈ rest.tail.head?, e.isDigit = true

section Ahead

variable {cs rest rest' : List Char}

theorem head?_append_congr (h : rest'.head? = rest.head?) (cs : List Char) :
    (cs ++ rest').head? = (cs ++ rest).head? := by
  cases cs with
  | nil => exact h
  | cons c cs => rfl

theorem eq_nil_of_head? (h : rest'.head? = rest.head?) (hRest : rest = []) : rest' = [] := by
  rw [hRest] at h
  exact List.head?_eq_none_iff.mp h

theorem runLength_congr {p : Char → Bool} (h : runLength p (cs ++ rest) ≤ cs.length)
    (hHead : rest'.head? = rest.head?) :
    runLength p (cs ++ rest') = runLength p (cs ++ rest) := by
  induction cs with
  | nil =>
      cases rest with
      | nil => rw [eq_nil_of_head? hHead rfl]
      | cons d rest =>
          obtain ⟨more, rfl⟩ := exists_eq_cons_of_head? hHead
          by_cases hd : p d = true
          · simp [runLength, hd] at h
          · simp [runLength, hd]
  | cons c cs ih =>
      by_cases hc : p c = true
      · rw [List.cons_append, runLength_cons_of_pos hc, List.length_cons,
          Nat.add_le_add_iff_right] at h
        rw [List.cons_append, List.cons_append, runLength_cons_of_pos hc,
          runLength_cons_of_pos hc, ih h]
      · simp [runLength, hc]

theorem blockCommentLength_pos (c : Char) (cs : List Char) :
    0 < blockCommentLength (c :: cs) := by
  unfold blockCommentLength
  split
  · next hNil => cases hNil
  · exact Nat.two_pos
  · exact Nat.succ_pos _

theorem blockCommentLength_congr (h : blockCommentLength (cs ++ rest) ≤ cs.length)
    (hHead : rest'.head? = rest.head?) :
    blockCommentLength (cs ++ rest') = blockCommentLength (cs ++ rest) := by
  fun_induction blockCommentLength cs with
  | case1 =>
      cases rest with
      | nil => rw [eq_nil_of_head? hHead rfl]
      | cons d rest =>
          exact absurd h (Nat.not_le_of_lt (blockCommentLength_pos d rest))
  | case2 cs => rfl
  | case3 c cs hPair ih =>
      -- The pair is not closed across the end of `cs`, or the comment would go on.
      have hOpen : ∀ tail, c = '*' → cs ++ rest ≠ '/' :: tail := by
        rintro tail rfl hTail
        cases cs with
        | nil =>
            rw [List.nil_append] at hTail
            subst hTail
            simp [blockCommentLength] at h
        | cons d cs =>
            obtain ⟨rfl, -⟩ := List.cons.inj hTail
            exact hPair cs rfl rfl
      have hOpen' : ∀ tail, c = '*' → cs ++ rest' ≠ '/' :: tail := by
        intro tail hc hTail
        have hSame := head?_append_congr hHead cs
        rw [hTail] at hSame
        obtain ⟨tail', hTail'⟩ := exists_eq_cons_of_head? hSame.symm
        exact hOpen tail' hc hTail'
      rw [List.cons_append, blockCommentLength, List.length_cons, Nat.add_le_add_iff_right] at h
      · rw [List.cons_append, List.cons_append, blockCommentLength, blockCommentLength, ih h]
        · exact hOpen
        · exact hOpen'
      · exact hOpen

theorem quotedLength_pos (quote : Char) {c : Char} (hc : c ≠ '\n') (cs : List Char) :
    0 < (quotedLength quote (c :: cs)).1 := by
  unfold quotedLength
  rw [if_neg hc]
  split
  · split
    · exact Nat.one_pos
    · split
      · exact Nat.one_pos
      · exact Nat.succ_pos _
  · split
    · exact Nat.one_pos
    · exact Nat.succ_pos _

theorem quotedLength_congr {quote : Char} (h : (quotedLength quote (cs ++ rest)).1 ≤ cs.length)
    (hHead : rest'.head? = rest.head?) :
    quotedLength quote (cs ++ rest') = quotedLength quote (cs ++ rest) := by
  fun_induction quotedLength quote cs with
  | case1 =>
      -- No character is left, so the literal ends with the text or with its line.
      cases rest with
      | nil => rw [eq_nil_of_head? hHead rfl]
      | cons d rest =>
          obtain ⟨more, rfl⟩ := exists_eq_cons_of_head? hHead
          by_cases hd : d = '\n'
          · rw [hd, List.nil_append, List.nil_append, quotedLength_line, quotedLength_line]
          · exact absurd h (Nat.not_le_of_lt (quotedLength_pos quote hd rest))
  | case2 cs => rw [List.cons_append, List.cons_append, quotedLength_line, quotedLength_line]
  | case3 =>
      cases rest with
      | nil => rw [eq_nil_of_head? hHead rfl]
      | cons d rest =>
          obtain ⟨more, rfl⟩ := exists_eq_cons_of_head? hHead
          by_cases hd : d = '\n'
          · simp [quotedLength, hd]
          · simp [quotedLength, hd] at h
  | case4 cs => simp [quotedLength]
  | case5 d cs hLine more _ ih =>
      simp only [List.cons_append, quotedLength, hLine, if_false, List.length_cons] at h ⊢
      simp [ih (by simpa using h)]
  | case6 cs hLine hSlash =>
      rw [List.cons_append, List.cons_append, quotedLength_quote hLine hSlash,
        quotedLength_quote hLine hSlash]
  | case7 c cs hLine hSlash hQuote more ih =>
      rw [List.cons_append, quotedLength_plain hLine hSlash hQuote, List.length_cons,
        Nat.add_le_add_iff_right] at h
      rw [List.cons_append, List.cons_append, quotedLength_plain hLine hSlash hQuote,
        quotedLength_plain hLine hSlash hQuote, ih h]

theorem wordExtent_congr {c : Char} (h : (wordExtent c (cs ++ rest)).more ≤ cs.length)
    (hHead : rest'.head? = rest.head?) :
    wordExtent c (cs ++ rest') = wordExtent c (cs ++ rest) := by
  have hShort : runLength isWordPart (cs ++ rest) ≤ cs.length := h
  unfold wordExtent
  dsimp only
  rw [runLength_congr hShort hHead, List.take_append_of_le_length hShort,
    List.take_append_of_le_length hShort]

theorem operatorExtent_congr (c : Char) (hHead : rest'.head? = rest.head?) (cs : List Char) :
    operatorExtent c (cs ++ rest') = operatorExtent c (cs ++ rest) := by
  rw [operatorExtent, operatorExtent, head?_append_congr hHead]

theorem runLength_le_more_numberExtent (cs : List Char) :
    runLength Char.isDigit cs ≤ (numberExtent cs).more := by
  unfold numberExtent
  dsimp only
  split
  · split
    · exact Nat.le_add_right_of_le (Nat.le_add_right _ 2)
    · exact Nat.le_refl _
  · exact Nat.le_refl _

/-- A fraction does not start in front of `rest'` if none starts in front of `rest`. -/
theorem SameAhead.noFraction (hAhead : SameAhead rest rest')
    (h : ∀ d ds, cs ++ rest = '.' :: d :: ds → d.isDigit = false) :
    ∀ d ds, cs ++ rest' = '.' :: d :: ds → d.isDigit = false := by
  intro d ds hText
  refine Bool.eq_false_iff.mpr fun hd => ?_
  match cs, hText with
  | [], hText =>
      obtain ⟨tail, rfl⟩ := exists_eq_cons_of_head? (hAhead.head.symm.trans (congrArg _ hText))
      obtain rfl : rest' = '.' :: d :: ds := hText
      obtain ⟨e, he, hDigit⟩ := hAhead.digit d rfl hd
      obtain ⟨more, rfl⟩ := exists_eq_cons_of_head? he
      exact Bool.noConfusion (hDigit.symm.trans (h e more rfl))
  | [c], hText =>
      obtain ⟨rfl, rfl⟩ := List.cons.inj hText
      obtain ⟨tail, rfl⟩ := exists_eq_cons_of_head? hAhead.head.symm
      exact Bool.noConfusion (hd.symm.trans (h d tail rfl))
  | c :: c' :: cs, hText =>
      obtain ⟨rfl, hTail⟩ := List.cons.inj hText
      obtain ⟨rfl, -⟩ := List.cons.inj hTail
      exact Bool.noConfusion (hd.symm.trans (h c' (cs ++ rest) rfl))

theorem numberExtent_congr (h : (numberExtent (cs ++ rest)).more ≤ cs.length)
    (hAhead : SameAhead rest rest') : numberExtent (cs ++ rest') = numberExtent (cs ++ rest) := by
  -- The digits at the front are in `cs`, whatever else the number has.
  obtain ⟨whole, others, rfl, hDigits, hStop⟩ : ∃ whole others, cs = whole ++ others ∧
      (∀ c ∈ whole, c.isDigit = true) ∧ ∀ c ∈ (others ++ rest).head?, c.isDigit = false := by
    have hWithin := Nat.le_trans (runLength_le_more_numberExtent _) h
    refine ⟨cs.take (runLength Char.isDigit (cs ++ rest)),
      cs.drop (runLength Char.isDigit (cs ++ rest)), (List.take_append_drop _ cs).symm, ?_, ?_⟩
    · have hTake : (cs ++ rest).take _ = cs.take _ := List.take_append_of_le_length hWithin
      rw [← hTake]
      exact fun c hc => of_mem_take_run hc
    · rw [← List.drop_append_of_le_length hWithin]
      exact head?_drop_run _ _
  rw [List.append_assoc] at h
  rw [List.append_assoc, List.append_assoc]
  by_cases hPoint : ∃ d ds, others ++ rest = '.' :: d :: ds ∧ d.isDigit = true
  · obtain ⟨d, ds, hText, hd⟩ := hPoint
    rw [hText, numberExtent_fraction hDigits hd, List.length_append] at h
    have hMore : 2 + runLength Char.isDigit ds ≤ others.length :=
      Nat.le_of_add_le_add_left (Nat.add_assoc _ _ _ ▸ h)
    -- The point and the first digit behind it are in `cs` as well.
    match others, hText, hMore with
    | [], _, hMore => exact absurd hMore (by simp)
    | [c], _, hMore => exact absurd hMore (by simp; omega)
    | c :: c' :: others, hText, hMore =>
        obtain ⟨rfl, hTail⟩ := List.cons.inj hText
        obtain ⟨rfl, hRest⟩ := List.cons.inj hTail
        have hFraction : runLength Char.isDigit (others ++ rest) ≤ others.length := by
          rw [List.length_cons, List.length_cons, ← hRest] at hMore
          exact Nat.le_of_add_le_add_left (Nat.add_comm 2 others.length ▸ hMore)
        rw [List.cons_append, List.cons_append, List.cons_append, List.cons_append,
          numberExtent_fraction hDigits hd, numberExtent_fraction hDigits hd,
          runLength_congr hFraction hAhead.head]
  · have hNone : ∀ d ds, others ++ rest = '.' :: d :: ds → d.isDigit = false := fun d ds hText =>
      Bool.eq_false_iff.mpr fun hd => hPoint ⟨d, ds, hText, hd⟩
    rw [numberExtent_digits hDigits hStop hNone,
      numberExtent_digits hDigits ?_ (hAhead.noFraction hNone)]
    rwa [head?_append_congr hAhead.head]

/-- **How far a lexeme reaches depends on what it looks at.** -/
theorem extent_congr {c : Char} (h : (extent c (cs ++ rest)).more ≤ cs.length)
    (hAhead : SameAhead rest rest') : extent c (cs ++ rest') = extent c (cs ++ rest) := by
  have hHead := head?_append_congr hAhead.head cs
  unfold extent at h ⊢
  rw [hHead]
  split at h
  · next hComment => rw [if_pos hComment, if_pos hComment, runLength_congr h hAhead.head]
  next hLine =>
  rw [if_neg hLine, if_neg hLine]
  split at h
  · next hComment =>
      rw [if_pos hComment, if_pos hComment]
      -- The opening pair is in `cs`, as the comment takes a character behind the first.
      cases cs with
      | nil => exact absurd h (by simp)
      | cons d cs =>
          have hBody : blockCommentLength (cs ++ rest) ≤ cs.length := Nat.le_of_succ_le_succ h
          rw [List.cons_append, List.cons_append, List.tail_cons, List.tail_cons,
            blockCommentLength_congr hBody hAhead.head]
  next hBlock =>
  rw [if_neg hBlock, if_neg hBlock]
  split at h
  · next hDigit => rw [if_pos hDigit, if_pos hDigit, numberExtent_congr h hAhead]
  next hDigit =>
  rw [if_neg hDigit, if_neg hDigit]
  split at h
  · next hQuote =>
      rw [if_pos hQuote, if_pos hQuote, quotedExtent, quotedExtent,
        quotedLength_congr h hAhead.head]
  next hString =>
  rw [if_neg hString, if_neg hString]
  split at h
  · next hQuote =>
      rw [if_pos hQuote, if_pos hQuote, quotedExtent, quotedExtent,
        quotedLength_congr h hAhead.head]
  next hChar =>
  rw [if_neg hChar, if_neg hChar]
  split at h
  · next hWord => rw [if_pos hWord, if_pos hWord, wordExtent_congr h hAhead.head]
  · next hWord => rw [if_neg hWord, if_neg hWord, operatorExtent_congr c hAhead.head]

end Ahead

/-! ## Lexemes in front of a text -/

namespace Lexeme

variable {l : Lexeme} {rest rest' : List Char}

/-- The lexeme is read as it is in front of the given text. -/
structure ReadBefore (l : Lexeme) (rest : List Char) : Prop where
  start : ¬ isBlank l.first = true
  extent : Braceless.extent l.first (l.others ++ rest) = ⟨l.kind, l.others.length, l.fault⟩

theorem ReadBefore.pieces_eq (h : l.ReadBefore rest) :
    pieces (l.chars ++ rest) = .lexeme l :: pieces rest := by
  have hFront : front l.first (l.others ++ rest) = l := by
    unfold front
    dsimp only
    rw [h.extent, List.take_left]
  show pieces (l.first :: (l.others ++ rest)) = _
  rw [pieces_lexeme h.start, hFront, h.extent, List.drop_left]

theorem readBefore_of_pieces {ps : List Piece}
    (h : pieces (l.chars ++ rest) = .lexeme l :: ps) : l.ReadBefore rest ∧ pieces rest = ps := by
  change pieces (l.first :: (l.others ++ rest)) = _ at h
  have hStart : ¬ isBlank l.first = true := by
    intro hBlank
    rw [pieces_blank hBlank] at h
    cases h
  rw [pieces_lexeme hStart, List.cons.injEq, Piece.lexeme.injEq] at h
  obtain ⟨hFront, hRest⟩ := h
  have hMore : (Braceless.extent l.first (l.others ++ rest)).more = l.others.length := by
    have hOthers : (l.others ++ rest).take (Braceless.extent l.first (l.others ++ rest)).more =
        l.others := congrArg Lexeme.others hFront
    rw [← hOthers, List.length_take_of_le (more_extent_le _ _), hOthers]
  rw [hMore, List.drop_left] at hRest
  refine ⟨⟨hStart, ?_⟩, hRest⟩
  rw [← hMore, ← congrArg Lexeme.kind hFront, ← congrArg Lexeme.fault hFront]
  rfl

/-- A lexeme is read as it is where nothing follows. -/
theorem ReadBefore.alone (h : l.ReadBefore rest) : l.ReadBefore [] := by
  refine ⟨h.start, ?_⟩
  have hCut := extent_take l.first (l.others ++ rest)
  rw [h.extent, List.take_left] at hCut
  rw [List.append_nil, hCut]

/-- A lexeme is read as it is where it sees the same. -/
theorem ReadBefore.congr (h : l.ReadBefore rest) (hAhead : SameAhead rest rest') :
    l.ReadBefore rest' := by
  refine ⟨h.start, ?_⟩
  rw [extent_congr (by rw [h.extent]) hAhead, h.extent]

/-- The gaps that may follow a lexeme.  A line feed comes first where nothing else ends the
lexeme, and no gap ends a block comment that is not closed. -/
structure Allows (l : Lexeme) (gap : List Char) : Prop where
  blank : ∀ b ∈ gap, isBlank b = true
  line : ReachesLineEnd l.first l.others → ∀ b ∈ gap.head?, b = '\n'
  closed : Unclosed l.chars → gap = []

/-- A lexeme that is no comment and no literal in quotes may be followed by any blanks. -/
theorem allows_of_plain {gap : List Char} (hPlain : l.first ∉ ['/', '"', '\''])
    (hBlank : ∀ b ∈ gap, isBlank b = true) : l.Allows gap := by
  have hFirst : l.first ≠ '/' ∧ l.first ≠ '"' ∧ l.first ≠ '\'' := by simpa using hPlain
  refine ⟨hBlank, ?_, ?_⟩
  · rintro (⟨hSlash, -⟩ | ⟨hQuote | hQuote, -⟩)
    · exact absurd hSlash hFirst.1
    · exact absurd hQuote hFirst.2.1
    · exact absurd hQuote hFirst.2.2
  · rintro ⟨body, hText, -⟩
    exact absurd (List.cons.inj hText).1 hFirst.1

/-- A lexeme is read as it is in front of a gap that may follow it. -/
theorem ReadBefore.gap (h : l.ReadBefore []) {b : Char} {gap : List Char}
    (hAllows : l.Allows (b :: gap)) (rest : List Char) : l.ReadBefore (b :: gap ++ rest) := by
  refine ⟨h.start, ?_⟩
  have hOpen : ¬ Unclosed (l.first :: l.others) := fun hOpen =>
    List.cons_ne_nil b gap (hAllows.closed hOpen)
  have hLine : b ≠ '\n' → ¬ ReachesLineEnd l.first l.others := fun hb hReaches =>
    hb (hAllows.line hReaches b rfl)
  have hAlone := h.extent
  rw [List.append_nil] at hAlone
  rw [List.cons_append, extent_append_blank (hAllows.blank b List.mem_cons_self) hOpen hLine,
    hAlone]

end Lexeme

/-! ## Other gaps -/

/-- A run of blanks as pieces. -/
def gapPieces (gap : List Char) : List Piece :=
  gap.map .blank

theorem flatMap_chars_gapPieces (gap : List Char) : (gapPieces gap).flatMap Piece.chars = gap := by
  simp [gapPieces, List.flatMap_map, Piece.chars]

theorem lexemesOf_gapPieces_append (gap : List Char) (ps : List Piece) :
    lexemesOf (gapPieces gap ++ ps) = lexemesOf ps := by
  induction gap with
  | nil => rfl
  | cons b gap ih => exact ih

theorem pieces_gap_append {gap : List Char} (h : ∀ b ∈ gap, isBlank b = true) (cs : List Char) :
    pieces (gap ++ cs) = gapPieces gap ++ pieces cs := by
  induction gap with
  | nil => rfl
  | cons b gap ih =>
      obtain ⟨hFirst, hRest⟩ := List.forall_mem_cons.mp h
      rw [List.cons_append, pieces_blank hFirst, ih hRest]
      rfl

theorem pieces_of_gap_append {gap cs : List Char} {ps : List Piece}
    (h : pieces (gap ++ cs) = gapPieces gap ++ ps) : pieces cs = ps := by
  induction gap with
  | nil => exact h
  | cons b gap ih =>
      by_cases hBlank : isBlank b = true
      · rw [List.cons_append, pieces_blank hBlank] at h
        exact ih (List.cons.inj h).2
      · rw [List.cons_append, pieces_lexeme hBlank] at h
        exact absurd (List.cons.inj h).1 nofun

namespace Piece

/-- Pieces with the same lexemes and other gaps behind them.  A gap is closed only at the end of
the text. -/
inductive Respaced : List Piece → List Piece → Prop where
  | nil : Respaced [] []
  | lexeme {l : Lexeme} {gap gap' : List Char} {ps qs : List Piece} (hAllows : l.Allows gap')
      (hApart : gap' = [] → gap = [] ∨ ps = []) (rest : Respaced ps qs) :
      Respaced (.lexeme l :: (gapPieces gap ++ ps)) (.lexeme l :: (gapPieces gap' ++ qs))

variable {ps qs : List Piece}

/-- Blanks in place of any gap, behind a lexeme that is no comment and no literal in quotes. -/
theorem Respaced.plain (l : Lexeme) (gap gap' : List Char)
    (hPlain : l.first ∉ ['/', '"', '\'']) (hGap : gap' ≠ [] ∧ gap'.all isBlank = true)
    (rest : Respaced ps qs) :
    Respaced (.lexeme l :: (gapPieces gap ++ ps)) (.lexeme l :: (gapPieces gap' ++ qs)) :=
  .lexeme (Lexeme.allows_of_plain hPlain (List.all_eq_true.mp hGap.2)) (absurd · hGap.1) rest

theorem flatMap_chars_lexeme (l : Lexeme) (gap : List Char) (ps : List Piece) :
    (Piece.lexeme l :: (gapPieces gap ++ ps)).flatMap chars =
      l.chars ++ (gap ++ ps.flatMap chars) := by
  rw [List.flatMap_cons, List.flatMap_append, flatMap_chars_gapPieces]
  rfl

theorem Respaced.lexemesOf_eq (h : Respaced ps qs) : lexemesOf qs = lexemesOf ps := by
  induction h with
  | nil => rfl
  | lexeme _ _ _ ih => rw [lexemesOf, lexemesOf, lexemesOf_gapPieces_append, ih,
      lexemesOf_gapPieces_append]

theorem Respaced.head?_eq (h : Respaced ps qs) :
    (qs.flatMap chars).head? = (ps.flatMap chars).head? := by
  cases h with
  | nil => rfl
  | lexeme _ _ _ => rw [flatMap_chars_lexeme, flatMap_chars_lexeme]; rfl

/-- What is respaced looks the same to a lexeme in front of it. -/
theorem Respaced.sameAhead (h : Respaced ps qs) :
    SameAhead (ps.flatMap chars) (qs.flatMap chars) := by
  refine ⟨h.head?_eq, ?_⟩
  cases h with
  | nil => exact nofun
  | @lexeme l gap gap' ps qs hAllows hApart rest =>
      rw [flatMap_chars_lexeme, flatMap_chars_lexeme]
      intro d hd hDigit
      show ∃ e ∈ (l.others ++ (gap ++ ps.flatMap chars)).head?, e.isDigit = true
      change d ∈ (l.others ++ (gap' ++ qs.flatMap chars)).head? at hd
      -- A digit behind the first character is in the lexeme, or in the next one without a gap.
      cases hOthers : l.others with
      | cons e others =>
          rw [hOthers] at hd
          exact ⟨d, hd, hDigit⟩
      | nil =>
          rw [hOthers, List.nil_append] at hd
          cases gap' with
          | cons b gap' =>
              obtain rfl := Option.some.inj hd
              have hNot := not_isDigit_of_isBlank (hAllows.blank b List.mem_cons_self)
              exact Bool.noConfusion (hDigit.symm.trans hNot)
          | nil =>
              rw [List.nil_append, rest.head?_eq] at hd
              have hClosed : gap = [] := by
                refine (hApart rfl).resolve_right fun hNil => ?_
                rw [hNil] at hd
                exact nomatch hd
              rw [hClosed]
              exact ⟨d, hd, hDigit⟩

end Piece

/-- **Pieces with other gaps are the pieces of their text.** -/
theorem pieces_of_respaced {ps qs : List Piece} (h : Piece.Respaced ps qs)
    (hPieces : pieces (ps.flatMap Piece.chars) = ps) : pieces (qs.flatMap Piece.chars) = qs := by
  induction h with
  | nil => exact hPieces
  | @lexeme l gap gap' ps qs hAllows hApart rest ih =>
      rw [Piece.flatMap_chars_lexeme] at hPieces
      obtain ⟨hRead, hRest⟩ := Lexeme.readBefore_of_pieces hPieces
      have hNext : l.ReadBefore (gap' ++ qs.flatMap Piece.chars) := by
        cases gap' with
        | cons b gap' => exact hRead.alone.gap hAllows _
        | nil =>
            rcases hApart rfl with rfl | rfl
            · exact hRead.congr rest.sameAhead
            · cases rest with
              | nil => exact hRead.alone
      rw [Piece.flatMap_chars_lexeme, hNext.pieces_eq, pieces_gap_append hAllows.blank,
        ih (pieces_of_gap_append hRest)]

/-- Two texts with the same lexemes and other gaps between them.  Gaps are put in and changed from
the first text to the second, so they are closed from the second to the first. -/
def Respaced (source source' : String) : Prop :=
  ∃ (lead lead' : List Char) (ps qs : List Piece),
    pieces source.toList = gapPieces lead ++ ps ∧ Piece.Respaced ps qs ∧
      (∀ b ∈ lead', isBlank b = true) ∧ source'.toList = lead' ++ qs.flatMap Piece.chars

/-- **Texts with other gaps have the same tokens**, but for positions. -/
theorem tokens_of_respaced {source source' : String} (h : Respaced source source') :
    (lex source').tokens.map (Token.mapPos nowhere) =
      (lex source).tokens.map (Token.mapPos nowhere) := by
  obtain ⟨lead, lead', ps, qs, hPieces, hRespaced, hLead', hText'⟩ := h
  have hText : source.toList = lead ++ ps.flatMap Piece.chars := by
    have hAll := flatMap_chars_pieces source.toList
    rw [hPieces, List.flatMap_append, flatMap_chars_gapPieces] at hAll
    exact hAll.symm
  have hKept : pieces (ps.flatMap Piece.chars) = ps :=
    pieces_of_gap_append (hText ▸ hPieces)
  have hLexemes : lexemesOf (pieces source'.toList) = lexemesOf (pieces source.toList) := by
    rw [hText', pieces_gap_append hLead', pieces_of_respaced hRespaced hKept, hPieces,
      lexemesOf_gapPieces_append, lexemesOf_gapPieces_append, hRespaced.lexemesOf_eq]
  have hPlaced := mapPos_nowhere_place .start (pieces source'.toList)
  rw [hLexemes, ← mapPos_nowhere_place .start] at hPlaced
  exact congrArg Lexed.tokens hPlaced

end Braceless

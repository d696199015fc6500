import Braceless.Proofs.Words

/-!
# The literals of a tree

A text without lexical errors closes all its quotes.  So each literal of its tree is spelled
as the lexer spells one: a number has digits and perhaps a fraction, and what stands between
quotes neither closes them nor ends with half an escape.

## Main definitions

* `Token.Whole`: literals that are complete.
* `Mention.Spelled`: mentions with names and literals that are spelled as the lexer does.

## Main results

* `whole_of_mem_place`: without lexical errors, all tokens are whole.
* `Parser.Trace.literal_cases`: a literal of a tree is read off a token, or is the one of an
  increment.
* `spelled_mentions_parse_lex`: without lexical errors, all that a tree mentions is spelled.
-/

namespace Braceless

/-! ## Tokens -/

/-- What holds of the text of a literal that is complete. -/
structure Token.Whole (t : Token) : Prop where
  decimal : t.kind = .decimal → ∃ whole fraction, t.text.toList = whole ++ '.' :: fraction ∧
    IsDigits whole ∧ IsDigits fraction
  string : t.kind = .string → ∃ body, QuotedBody '"' body ∧
    t.text.toList = '"' :: (body ++ ['"'])
  char : t.kind = .char → ∃ body, QuotedBody '\'' body ∧
    t.text.toList = '\'' :: (body ++ ['\''])

/-- The kinds that say something about the text. -/
def literalKinds : List Token.Kind :=
  [.decimal, .string, .char]

/-- Only literals have more to them. -/
theorem Token.Whole.of_kind {t : Token} (h : literalKinds.contains t.kind = false) :
    t.Whole := by
  have hKind : ∀ k ∈ literalKinds, t.kind ≠ k := by
    intro k hk hSame
    rw [hSame, List.contains_iff_mem.mpr hk] at h
    cases h
  exact ⟨fun h => absurd h (hKind _ (by decide)), fun h => absurd h (hKind _ (by decide)),
    fun h => absurd h (hKind _ (by decide))⟩

theorem Token.Whole.of_string {t : Token} (h : t.kind = .string)
    (hText : ∃ body, QuotedBody '"' body ∧ t.text.toList = '"' :: (body ++ ['"'])) : t.Whole :=
  ⟨by simp [h], fun _ => hText, by simp [h]⟩

theorem Token.Whole.of_char {t : Token} (h : t.kind = .char)
    (hText : ∃ body, QuotedBody '\'' body ∧ t.text.toList = '\'' :: (body ++ ['\''])) :
    t.Whole :=
  ⟨by simp [h], by simp [h], fun _ => hText⟩

/-- A literal that is closed has a body before its last quote. -/
theorem exists_quotedBody_take {quote : Char} {cs : List Char}
    (h : (quotedLength quote cs).2 = true) :
    ∃ body, QuotedBody quote body ∧ cs.take (quotedLength quote cs).1 = body ++ [quote] := by
  fun_induction quotedLength quote cs with
  | case1 => exact absurd h Bool.false_ne_true
  | case2 => exact absurd h Bool.false_ne_true
  | case3 => exact absurd h Bool.false_ne_true
  | case4 => exact absurd h Bool.false_ne_true
  | case5 d ds hLine rest _ ih =>
      obtain ⟨body, hBody, hTake⟩ := ih h
      exact ⟨'\\' :: d :: body, .escape hLine hBody, by simp [rest, hTake]⟩
  | case6 => exact ⟨[], .nil, rfl⟩
  | case7 c cs hLine hSlash hQuote rest ih =>
      obtain ⟨body, hBody, hTake⟩ := ih h
      exact ⟨c :: body, .plain hQuote hSlash hLine hBody, by simp [rest, hTake]⟩

/-- The text of a literal in the given quotes that has no fault. -/
theorem exists_quotedBody_of_noFault {quote : Char} {kind : Token.Kind} {fault : LexicalFault}
    {cs : List Char} (h : (quotedExtent quote kind fault cs).fault = none) :
    ∃ body, QuotedBody quote body ∧
      quote :: cs.take (quotedExtent quote kind fault cs).more = quote :: (body ++ [quote]) := by
  have hClosed : (quotedLength quote cs).2 = true := by
    by_contra hOpen
    simp [quotedExtent, hOpen] at h
  obtain ⟨body, hBody, hTake⟩ := exists_quotedBody_take hClosed
  exact ⟨body, hBody, congrArg (quote :: ·) hTake⟩

/-- A number with a fraction has digits on both sides of its point. -/
theorem exists_fraction_of_decimal {c : Char} (hDigit : c.isDigit = true) {cs : List Char}
    (h : (numberExtent cs).kind = .decimal) :
    ∃ whole fraction, c :: cs.take (numberExtent cs).more = whole ++ '.' :: fraction ∧
      IsDigits whole ∧ IsDigits fraction := by
  unfold numberExtent at h ⊢
  dsimp only at h ⊢
  split at h
  · next d ds hDrop =>
      by_cases hd : d.isDigit = true
      · have hWhole : ∀ e ∈ cs.take (runLength Char.isDigit cs), e.isDigit = true :=
          fun e he => of_mem_take_run he
        have hFraction : ∀ e ∈ ds.take (runLength Char.isDigit ds), e.isDigit = true :=
          fun e he => of_mem_take_run he
        refine ⟨c :: cs.take (runLength Char.isDigit cs), d :: ds.take (runLength Char.isDigit ds),
          ?_, ⟨by simp, by simpa [hDigit] using hWhole⟩, ⟨by simp, by simpa [hd] using hFraction⟩⟩
        rw [if_pos hd, Nat.add_assoc, List.take_add, hDrop, Nat.add_comm]
        rfl
      · rw [if_neg hd] at h
        cases h
  · cases h

/-- The lexeme at the front of a text is whole if it has no fault. -/
theorem whole_front {c : Char} {cs : List Char} (pos : Position)
    (hFault : (extent c cs).fault = none) : ((Lexeme.front c cs).token pos).Whole := by
  show Token.Whole ⟨(extent c cs).kind, String.ofList (c :: cs.take (extent c cs).more), pos⟩
  unfold extent at hFault ⊢
  split
  · exact .of_kind rfl
  rename_i hNoLineComment
  rw [if_neg hNoLineComment] at hFault
  split
  · exact .of_kind rfl
  rename_i hNoBlockComment
  rw [if_neg hNoBlockComment] at hFault
  split
  · next hDigit =>
      obtain ⟨_, _, _, hString, hChar⟩ := unspelled_numberExtent cs
      refine ⟨?_, fun h => absurd h hString, fun h => absurd h hChar⟩
      intro hKind
      rw [String.toList_ofList]
      exact exists_fraction_of_decimal hDigit hKind
  rename_i hNoDigit
  rw [if_neg hNoDigit] at hFault
  split
  · next hQuote =>
      rw [if_pos hQuote] at hFault
      subst hQuote
      refine .of_string rfl ?_
      rw [String.toList_ofList]
      exact exists_quotedBody_of_noFault hFault
  rename_i hNoString
  rw [if_neg hNoString] at hFault
  split
  · next hQuote =>
      rw [if_pos hQuote] at hFault
      subst hQuote
      refine .of_char rfl ?_
      rw [String.toList_ofList]
      exact exists_quotedBody_of_noFault hFault
  split
  · have hKind : (wordExtent c cs).kind = .keyword ∨ (wordExtent c cs).kind = .identifier := by
      unfold wordExtent
      dsimp only
      split
      · exact .inl rfl
      · exact .inr rfl
    rcases hKind with hKind | hKind
    · exact .of_kind (by simp [hKind, literalKinds])
    · exact .of_kind (by simp [hKind, literalKinds])
  · obtain ⟨_, _, _, hString, hChar⟩ := unspelled_operatorExtent c cs
    have hDecimal := (unnumbered_operatorExtent c cs).2
    exact .of_kind (by simp [literalKinds, hDecimal, hString, hChar])

/-- Without lexical errors, all tokens are whole. -/
theorem whole_of_mem_place {cs : List Char} {pos : Position} {t : Token}
    (hErrors : (place pos (pieces cs)).errors = [])
    (h : t ∈ (place pos (pieces cs)).tokens) : t.Whole := by
  fun_induction pieces cs generalizing pos with
  | case1 =>
      obtain rfl := List.mem_singleton.mp h
      exact .of_kind rfl
  | case2 c cs _ ih => exact ih hErrors h
  | case3 c cs _ ih =>
      obtain ⟨hFirst, hRest⟩ := List.append_eq_nil_iff.mp hErrors
      rcases List.mem_cons.mp h with rfl | hMem
      · have hFault : (extent c cs).fault = none := by
          simpa [Lexeme.error?, Lexeme.front] using hFirst
        exact whole_front pos hFault
      · exact ih hRest hMem

/-! ## Literals -/

namespace Parser

/-- A literal that is read off a whole token is valid. -/
theorem valid_of_readAs {t : Token} {l : Literal} (hWorded : t.Worded) (hWhole : t.Whole)
    (h : ReadAs t l) : l.Valid := by
  cases h with
  | integer hKind => exact hWorded.number hKind
  | decimal hKind => exact hWhole.decimal hKind
  | char hKind =>
      obtain ⟨body, hBody, hText⟩ := hWhole.char hKind
      have hQuoted : QuotedText '\'' body t.text.toList := hText ▸ .closed hBody
      show QuotedBody '\'' (literalBody t.text).toList
      rw [literalBody_of_quotedText (by decide) hQuoted, String.toList_ofList]
      exact hBody
  | string hKind =>
      obtain ⟨body, hBody, hText⟩ := hWhole.string hKind
      have hQuoted : QuotedText '"' body t.text.toList := hText ▸ .closed hBody
      show QuotedBody '"' (literalBody t.text).toList
      rw [literalBody_of_quotedText (by decide) hQuoted, String.toList_ofList]
      exact hBody
  | truth _ => trivial

/-- A literal of a tree is read off a token, or is the one of an increment. -/
theorem Trace.literal_cases {s s' : State} {ms : List Mention} (h : Trace s ms s')
    {l : Literal} (hl : .literal l ∈ ms) :
    l = ⟨.int, "1"⟩ ∨ ∃ t, (t ∈ s.rest ∨ t = s.stop) ∧ ReadAs t l := by
  induction h with
  | refl s => cases hl
  | @step s s' s'' ms ms' hStep _ ih =>
      rcases List.mem_append.mp hl with hFirst | hRest
      · cases hStep with
        | literal hRead =>
            obtain rfl : l = _ := by simpa using hFirst
            have hCurrent : s.current ∈ s.rest ∨ s.current = s.stop :=
              State.current_of_forall (P := fun t => t ∈ s.rest ∨ t = s.stop)
                (fun _ h => .inl h) (.inr rfl)
            exact .inr ⟨s.current, hCurrent, hRead⟩
        | one => exact .inl (by simpa using hFirst)
        | lookUp n _ => simpa using List.eq_of_mem_replicate hFirst
        | _ => simp at hFirst
      · rcases ih hRest with hOne | ⟨t, ht, hRead⟩
        · exact .inl hOne
        · refine .inr ⟨t, ?_, hRead⟩
          rcases ht with hMem | hStop
          · exact .inl (hStep.frame.rest.subset hMem)
          · exact .inr (hStop.trans hStep.frame.stop)

/-- Without lexical errors, a parse starts with whole tokens. -/
theorem whole_initial_lex {source : String} (hErrors : (lex source).errors = []) {t : Token}
    (ht : t ∈ (State.initial (lex source).tokens).rest ∨
      t = (State.initial (lex source).tokens).stop) : t.Whole := by
  have hTokens : ∀ t ∈ (lex source).tokens, t.Whole := fun t ht => whole_of_mem_place hErrors ht
  rcases ht with hRest | rfl
  · exact hTokens t ((List.takeWhile_sublist _).mem (List.mem_of_mem_filter hRest))
  · show (endMarker (lex source).tokens).Whole
    unfold endMarker
    split
    · next t hFind => exact hTokens t (List.mem_of_find?_eq_some hFind)
    · exact .of_kind rfl

end Parser

/-- Without lexical errors, all literals of a tree are valid. -/
theorem valid_literal_parse_lex {source : String} (hErrors : (lex source).errors = [])
    {l : Literal} (hl : .literal l ∈ mentionsOf (parse (lex source).tokens).program.body) :
    l.Valid := by
  obtain ⟨s, hTrace, _, _⟩ := Parser.exists_trace_parse (lex source).tokens
  rcases hTrace.literal_cases hl with rfl | ⟨t, ht, hRead⟩
  · exact ⟨by decide, List.all_eq_true.mp rfl⟩
  · have hInitial := Parser.worded_initial_lex source
    have hWorded : t.Worded := by
      rcases ht with hRest | rfl
      · exact hInitial.rest t hRest
      · exact hInitial.stop
    exact Parser.valid_of_readAs hWorded (Parser.whole_initial_lex hErrors ht) hRead

/-- What holds of everything that a tree without lexical errors mentions. -/
def Mention.Spelled : Mention → Prop
  | .declared d => Target.IsIdentifier d.name.toList
  | .used name _ => Target.IsIdentifier name.toList
  | .literal l => l.Valid
  | .unread p => '\n' ∉ p.text.toList
  | .unrecognized p => '\n' ∉ p.text.toList

/-- Without lexical errors, all that a tree mentions is spelled. -/
theorem spelled_mentions_parse_lex {source : String} (hErrors : (lex source).errors = []) :
    ∀ m ∈ mentionsOf (parse (lex source).tokens).program.body, m.Spelled := by
  intro m hm
  have hWorded := worded_mentions_parse_lex source m hm
  cases m with
  | declared d => exact hWorded
  | used name pos => exact hWorded
  | literal l => exact valid_literal_parse_lex hErrors hm
  | unread p => exact hWorded
  | unrecognized p => exact hWorded

end Braceless

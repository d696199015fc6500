import Braceless.Proofs.Lowering
import Braceless.Proofs.Parser.Tracing

/-!
# The words of a tree

Every name, literal and placeholder of a tree is the text of a token, or the part of one
between quotes.  Only a comment can hold a line feed, and a parse never looks at a comment.
So whatever errors a text has, the words of its tree stand on one line each, its names are
identifiers and its integers are digits.

## Main definitions

* `Token.Worded`, `Mention.Worded`: tokens and mentions with such words.

## Main results

* `worded_of_mem_place`: tokens of the lexer that are no comments are worded.
* `worded_mentions_parse_lex`: so is all that a tree mentions.
-/

namespace Braceless

/-! ## Tokens -/

/-- What holds of the text of every token but a comment. -/
structure Token.Worded (t : Token) : Prop where
  oneLine : '\n' ∉ t.text.toList
  name : t.kind = .identifier → Target.IsIdentifier t.text.toList
  number : t.kind = .integer → IsDigits t.text.toList

theorem of_mem_take_run {p : Char → Bool} {cs : List Char} {c : Char}
    (h : c ∈ cs.take (runLength p cs)) : p c = true := by
  have hTake : cs.takeWhile p = cs.take (runLength p cs) :=
    List.prefix_iff_eq_take.mp (List.takeWhile_prefix p)
  rw [← hTake] at h
  exact List.all_eq_true.mp List.all_takeWhile c h

theorem notMem_take_run {p : Char → Bool} (h : p '\n' = false) (cs : List Char) :
    '\n' ∉ cs.take (runLength p cs) := by
  intro hMem
  rw [of_mem_take_run hMem] at h
  exact Bool.noConfusion h

theorem notMem_of_quotedText {quote : Char} {body text : List Char} (hQuote : '\n' ≠ quote)
    (h : QuotedText quote body text) : '\n' ∉ text := by
  have hBody : ∀ {cs : List Char}, QuotedBody quote cs → '\n' ∉ cs := by
    intro cs hcs
    induction hcs with
    | nil => exact List.not_mem_nil
    | plain _ _ hLine _ ih => simp [ih, hLine.symm]
    | escape hLine _ ih => simp [ih, hLine.symm]
  cases h with
  | closed h => simp [hBody h, hQuote]
  | unclosed h => simp [hBody h, hQuote]
  | dangling h => simp [hBody h, hQuote]

/-- A number has no line feed, and one without a fraction is digits only. -/
theorem worded_numberExtent (cs : List Char) :
    '\n' ∉ cs.take (numberExtent cs).more ∧ ((numberExtent cs).kind = .integer →
      ∀ d ∈ cs.take (numberExtent cs).more, d.isDigit = true) := by
  have hWhole := notMem_take_run (p := Char.isDigit) rfl cs
  unfold numberExtent
  dsimp only
  split
  · next d ds hDrop =>
      by_cases hd : d.isDigit = true
      · rw [if_pos hd]
        refine ⟨?_, nofun⟩
        have hFraction := notMem_take_run (p := Char.isDigit) rfl ds
        have hd' : '\n' ≠ d := by
          rintro rfl
          exact absurd hd (by decide)
        rw [Nat.add_assoc, List.take_add, hDrop, Nat.add_comm]
        simp [hWhole, hFraction, hd']
      · rw [if_neg hd]
        exact ⟨hWhole, fun _ e he => of_mem_take_run he⟩
  · exact ⟨hWhole, fun _ e he => of_mem_take_run he⟩

/-- An operator is no number. -/
theorem unnumbered_operatorExtent (c : Char) (cs : List Char) :
    (operatorExtent c cs).kind ≠ .integer ∧ (operatorExtent c cs).kind ≠ .decimal := by
  unfold operatorExtent
  split
  · next kind hPair =>
      obtain ⟨d, _, hKind⟩ := Option.bind_eq_some_iff.mp hPair
      unfold pairOperator? at hKind
      split at hKind <;> cases hKind <;> decide
  · split
    · next kind hSingle =>
        unfold singleOperator? at hSingle
        split at hSingle <;> cases hSingle <;> decide
    · decide

theorem notMem_operatorExtent (c : Char) (cs : List Char) :
    '\n' ∉ cs.take (operatorExtent c cs).more := by
  unfold operatorExtent
  split
  · next kind hPair =>
      obtain ⟨d, hd, hKind⟩ := Option.bind_eq_some_iff.mp hPair
      have hLine : '\n' ≠ d := by
        rintro rfl
        unfold pairOperator? at hKind
        split at hKind <;> simp_all
      cases cs with
      | nil => exact List.not_mem_nil
      | cons e cs =>
          obtain rfl := Option.some.inj hd
          simpa using hLine
  · split <;> simp

/-- Only names and integers have more to them than that they stand on one line. -/
theorem Token.Worded.of_oneLine {kind : Token.Kind} {text : List Char} {pos : Position}
    (hText : '\n' ∉ text) (hName : kind ≠ .identifier) (hNumber : kind ≠ .integer) :
    Token.Worded ⟨kind, String.ofList text, pos⟩ :=
  ⟨by simpa using hText, fun h => absurd h hName, fun h => absurd h hNumber⟩

theorem Token.worded_eof (pos : Position) : Token.Worded ⟨.eof, "", pos⟩ :=
  have hText : '\n' ∉ ([] : List Char) := List.not_mem_nil
  .of_oneLine hText (by decide) (by decide)

theorem worded_word {c : Char} (hLine : '\n' ≠ c) (hStart : isWordStart c = true)
    (cs : List Char) (pos : Position) :
    Token.Worded ⟨(wordExtent c cs).kind,
      String.ofList (c :: cs.take (wordExtent c cs).more), pos⟩ := by
  have hRun := notMem_take_run (p := isWordPart) rfl cs
  refine ⟨by simpa [wordExtent, hLine] using hRun, ?_, ?_⟩
  · intro _
    refine ⟨c, cs.take (runLength isWordPart cs), by simp [wordExtent], hStart, ?_⟩
    exact fun d hd => of_mem_take_run hd
  · intro hInteger
    simp only [wordExtent] at hInteger
    split at hInteger <;> cases hInteger

theorem worded_number {c : Char} (hLine : '\n' ≠ c) (hDigit : c.isDigit = true)
    (cs : List Char) (pos : Position) :
    Token.Worded ⟨(numberExtent cs).kind,
      String.ofList (c :: cs.take (numberExtent cs).more), pos⟩ := by
  obtain ⟨hRun, hDigits⟩ := worded_numberExtent cs
  refine ⟨by simp [hLine, hRun], fun h => absurd h (unspelled_numberExtent cs).2.2.1, ?_⟩
  intro hInteger
  exact ⟨by simp, by simpa [hDigit] using hDigits hInteger⟩

theorem worded_quoted {quote : Char} (hLine : '\n' ≠ quote) (kind : Token.Kind)
    (hName : kind ≠ .identifier) (hNumber : kind ≠ .integer) (fault : LexicalFault)
    (cs : List Char) (pos : Position) :
    Token.Worded ⟨(quotedExtent quote kind fault cs).kind,
      String.ofList (quote :: cs.take (quotedExtent quote kind fault cs).more), pos⟩ := by
  obtain ⟨body, hText⟩ := exists_quotedText_take quote cs
  exact .of_oneLine (notMem_of_quotedText hLine hText) hName hNumber

/-- The lexeme at the front of a text is worded, unless it is a comment. -/
theorem worded_front {c : Char} (hc : isBlank c = false) (cs : List Char) (pos : Position)
    (hKind : (extent c cs).kind ≠ .comment) :
    ((Lexeme.front c cs).token pos).Worded := by
  have hLine : '\n' ≠ c := by
    rintro rfl
    exact absurd hc (by decide)
  show Token.Worded ⟨(extent c cs).kind,
    String.ofList (c :: cs.take (extent c cs).more), pos⟩
  unfold extent at hKind ⊢
  split at hKind
  · exact absurd rfl hKind
  rename_i hNoLineComment
  split at hKind
  · exact absurd rfl hKind
  rename_i hNoBlockComment
  rw [if_neg hNoLineComment, if_neg hNoBlockComment]
  split
  · next hDigit => exact worded_number hLine hDigit cs pos
  split
  · exact worded_quoted hLine .string nofun nofun .unterminatedString cs pos
  split
  · exact worded_quoted hLine .char nofun nofun .unterminatedChar cs pos
  split
  · next hStart => exact worded_word hLine hStart cs pos
  · exact .of_oneLine (by simp [hLine, notMem_operatorExtent c cs])
      (unspelled_operatorExtent c cs).2.2.1 (unnumbered_operatorExtent c cs).1

/-- The tokens of the lexer are worded, but for the comments. -/
theorem worded_of_mem_place {cs : List Char} {pos : Position} {t : Token}
    (h : t ∈ (place pos (pieces cs)).tokens) (hKind : t.kind ≠ .comment) : t.Worded := by
  fun_induction pieces cs generalizing pos with
  | case1 =>
      obtain rfl := List.mem_singleton.mp h
      exact Token.worded_eof pos
  | case2 c cs _ ih => exact ih h
  | case3 c cs hBlank ih =>
      rcases List.mem_cons.mp h with rfl | hRest
      · exact worded_front (Bool.eq_false_iff.mpr hBlank) cs pos hKind
      · exact ih hRest

/-! ## Mentions -/

/-- What holds of everything that a tree mentions. -/
def Mention.Worded : Mention → Prop
  | .declared d => Target.IsIdentifier d.name.toList
  | .used name _ => Target.IsIdentifier name.toList
  | .literal l => '\n' ∉ l.value.toList ∧ (l.kind = .int → IsDigits l.value.toList)
  | .unread p => '\n' ∉ p.text.toList
  | .unrecognized p => '\n' ∉ p.text.toList

namespace Parser

theorem beforeQuote_subset (quote : Char) (cs : List Char) :
    beforeQuote quote cs ⊆ cs := by
  fun_induction beforeQuote quote cs with
  | case1 => exact List.Subset.refl []
  | case2 c cs ih => exact List.cons_subset_cons _ (List.cons_subset_cons _ ih)
  | case3 c cs _ _ => exact List.nil_subset _
  | case4 c cs _ _ ih => exact List.cons_subset_cons _ ih

theorem notMem_literalBody {text : String} (h : '\n' ∉ text.toList) :
    '\n' ∉ (literalBody text).toList := by
  unfold literalBody
  split
  · simp
  · next quote cs hText =>
      rw [hText] at h
      intro hMem
      rw [String.toList_ofList] at hMem
      exact h (List.mem_cons_of_mem _ (beforeQuote_subset quote cs hMem))

theorem worded_of_readAs {t : Token} {l : Literal} (ht : t.Worded) (h : ReadAs t l) :
    (Mention.literal l).Worded := by
  cases h with
  | integer hKind => exact ⟨ht.oneLine, fun _ => ht.number hKind⟩
  | decimal _ => exact ⟨ht.oneLine, nofun⟩
  | char _ => exact ⟨notMem_literalBody ht.oneLine, nofun⟩
  | string _ => exact ⟨notMem_literalBody ht.oneLine, nofun⟩
  | truth _ => exact ⟨ht.oneLine, nofun⟩

/-- States whose tokens are worded. -/
structure State.Worded (s : State) : Prop where
  rest : ∀ t ∈ s.rest, t.Worded
  stop : s.stop.Worded

theorem State.Worded.current {s : State} (h : s.Worded) : s.current.Worded :=
  State.current_of_forall h.rest h.stop

/-- A state with fewer tokens. -/
theorem State.Worded.of_suffix {s s' : State} (h : s.Worded) (hRest : s'.rest <:+ s.rest)
    (hStop : s'.stop = s.stop) : s'.Worded :=
  ⟨fun t ht => h.rest t (hRest.subset ht), hStop ▸ h.stop⟩

/-- A step takes its words from the tokens that are left, and adds none to them. -/
theorem Step.worded {s s' : State} {ms : List Mention} (hStep : Step s ms s')
    (h : s.Worded) : s'.Worded ∧ ∀ m ∈ ms, m.Worded := by
  have hNone : ∀ m ∈ ([] : List Mention), m.Worded := nofun
  refine ⟨h.of_suffix hStep.frame.rest hStep.frame.stop, ?_⟩
  cases hStep with
  | skip _ => exact hNone
  | report _ _ => exact hNone
  | level _ _ _ => exact hNone
  | overflow => exact hNone
  | declare dataType hKind => simpa [Mention.Worded] using h.current.name hKind
  | lookUp n hKind =>
      intro m hm
      rw [List.eq_of_mem_replicate hm]
      exact h.current.name hKind
  | literal hRead => simpa using worded_of_readAs h.current hRead
  | one =>
      have hOne : (Mention.literal ⟨.int, "1"⟩).Worded :=
        ⟨by decide, fun _ => ⟨nofun, List.all_eq_true.mp rfl⟩⟩
      simpa using hOne
  | unread _ => simpa [Mention.Worded] using h.current.oneLine
  | unrecognized _ _ => simpa [Mention.Worded] using h.current.oneLine

theorem Trace.worded {s s' : State} {ms : List Mention} (hTrace : Trace s ms s')
    (h : s.Worded) : ∀ m ∈ ms, m.Worded := by
  induction hTrace with
  | refl s => exact nofun
  | step hStep _ ih =>
      obtain ⟨hNext, hMentions⟩ := hStep.worded h
      intro m hm
      rcases List.mem_append.mp hm with hFirst | hRest
      · exact hMentions m hFirst
      · exact ih hNext m hRest

theorem worded_initial_lex (source : String) :
    (State.initial (lex source).tokens).Worded := by
  refine ⟨?_, ?_⟩
  · intro t ht
    have hTrivia := isTrivia_of_mem_significant ht
    have hMem := List.mem_of_mem_filter ht
    refine worded_of_mem_place ((List.takeWhile_sublist _).mem hMem) ?_
    intro hKind
    simp [Token.isTrivia, Token.Kind.isTrivia, hKind] at hTrivia
  · show (endMarker (lex source).tokens).Worded
    unfold endMarker
    split
    · next t hFind =>
        have hKind : t.kind = .eof := by simpa using List.find?_some hFind
        refine worded_of_mem_place (List.mem_of_find?_eq_some hFind) ?_
        rw [hKind]
        decide
    · exact Token.worded_eof _

end Parser

/-- All that the tree of a text mentions is worded, with any errors. -/
theorem worded_mentions_parse_lex (source : String) :
    ∀ m ∈ mentionsOf (parse (lex source).tokens).program.body, m.Worded := by
  obtain ⟨s, hTrace, _, _⟩ := Parser.exists_trace_parse (lex source).tokens
  exact hTrace.worded (Parser.worded_initial_lex source)

end Braceless

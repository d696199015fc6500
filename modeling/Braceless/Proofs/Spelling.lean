import Braceless.Parser.Expression
import Braceless.Token.Lexer

/-!
# How tokens are spelled

The kind of a token says something about its text.  A word is a keyword exactly
if it is in the table of keywords, and a quoted literal starts with its quote and
holds no second one that is not escaped.  The lexer keeps these rules on every
text, so a grammar may be stated over tokens that follow them.

## Main definitions

* `EndsEscaping`: texts that end with a backslash which escapes what follows.
* `QuotedBody`: what may stand between quotes.
* `QuotedText`: the text of a literal with a given body, closed or not.
* `Token.Spells`, `Token.IsName`: a given word, and a word that is no keyword.
* `Token.WellSpelled`: the rules together.

## Main results

* `literalBody_of_quotedText`: the body of a literal can be read off its text.
* `wellSpelled_of_mem_significant_lex`: tokens of the lexer follow the rules.
-/

namespace Braceless

/-! ## Characters of words -/

theorem runLength_cons_of_pos {p : Char → Bool} {c : Char} (h : p c = true) (cs : List Char) :
    runLength p (c :: cs) = runLength p cs + 1 := by
  rw [runLength, List.takeWhile_cons_of_pos h, List.length_cons, runLength]

/-- A run ends where the next character does not go on with it. -/
theorem runLength_append_of_stop {p : Char → Bool} {cs rest : List Char}
    (hcs : ∀ c ∈ cs, p c = true) (hRest : ∀ c ∈ rest.head?, p c = false) :
    runLength p (cs ++ rest) = cs.length := by
  have hNone : rest.takeWhile p = [] := by
    cases rest with
    | nil => rfl
    | cons c rest => simp [hRest c rfl]
  rw [runLength, List.takeWhile_append_of_pos hcs, hNone, List.append_nil]

/-- The character behind a run does not go on with it. -/
theorem head?_drop_run (p : Char → Bool) (cs : List Char) :
    ∀ c ∈ (cs.drop (runLength p cs)).head?, p c = false := by
  induction cs with
  | nil => simp
  | cons d cs ih =>
      by_cases hd : p d = true
      · rwa [runLength_cons_of_pos hd, List.drop_succ_cons]
      · simp [runLength, hd]

theorem isWordPart_of_isDigit {c : Char} (h : c.isDigit = true) : isWordPart c = true := by
  simp [isWordPart, Char.isAlphanum, h]

theorem isWordPart_of_isWordStart {c : Char} (h : isWordStart c = true) :
    isWordPart c = true := by
  rw [isWordStart, Bool.or_eq_true] at h
  rcases h with hAlpha | hLine
  · simp [isWordPart, Char.isAlphanum, hAlpha]
  · simp [isWordPart, hLine]

/-! ## Quoted literals -/

/-- Whether a text ends with an odd number of backslashes, which escape the next character. -/
def EndsEscaping (cs : List Char) : Prop :=
  (cs.reverse.takeWhile (· == '\\')).length % 2 = 1

instance (cs : List Char) : Decidable (EndsEscaping cs) :=
  inferInstanceAs (Decidable (_ = 1))

theorem not_endsEscaping_nil : ¬ EndsEscaping [] := by
  decide

/-- A backslash escapes what follows it, unless it is escaped itself. -/
theorem endsEscaping_concat (cs : List Char) (c : Char) :
    EndsEscaping (cs ++ [c]) ↔ c = '\\' ∧ ¬ EndsEscaping cs := by
  unfold EndsEscaping
  rw [List.reverse_append, List.reverse_singleton, List.singleton_append]
  by_cases hc : c = '\\'
  · subst hc
    simp only [List.takeWhile_cons, beq_self_eq_true, if_true, List.length_cons, true_and]
    omega
  · simp [hc]

/-- Characters that neither close a literal in the given quotes nor end its line.
A backslash stands together with the character after it. -/
inductive QuotedBody (quote : Char) : List Char → Prop where
  | nil : QuotedBody quote []
  | plain {c : Char} {cs : List Char} (hQuote : c ≠ quote) (hSlash : c ≠ '\\')
      (hLine : c ≠ '\n') (rest : QuotedBody quote cs) : QuotedBody quote (c :: cs)
  | escape {c : Char} {cs : List Char} (hLine : c ≠ '\n')
      (rest : QuotedBody quote cs) : QuotedBody quote ('\\' :: c :: cs)

/-- The text of a literal with the given body.  A literal that its line does not
close has no second quote, and its last character may be a lone backslash. -/
inductive QuotedText (quote : Char) : (body text : List Char) → Prop where
  | closed {body : List Char} (hBody : QuotedBody quote body) :
      QuotedText quote body (quote :: (body ++ [quote]))
  | unclosed {body : List Char} (hBody : QuotedBody quote body) :
      QuotedText quote body (quote :: body)
  | dangling {body : List Char} (hBody : QuotedBody quote body) :
      QuotedText quote (body ++ ['\\']) (quote :: (body ++ ['\\']))

/-- One more plain character in front of the body. -/
theorem QuotedText.plain {quote c : Char} {body text : List Char}
    (h : QuotedText quote body (quote :: text)) (hQuote : c ≠ quote)
    (hSlash : c ≠ '\\') (hLine : c ≠ '\n') :
    QuotedText quote (c :: body) (quote :: c :: text) := by
  cases h with
  | closed hBody => exact .closed (.plain hQuote hSlash hLine hBody)
  | unclosed hBody => exact .unclosed (.plain hQuote hSlash hLine hBody)
  | dangling hBody => exact .dangling (.plain hQuote hSlash hLine hBody)

/-- One more escaped character in front of the body. -/
theorem QuotedText.escape {quote c : Char} {body text : List Char}
    (h : QuotedText quote body (quote :: text)) (hLine : c ≠ '\n') :
    QuotedText quote ('\\' :: c :: body) (quote :: '\\' :: c :: text) := by
  cases h with
  | closed hBody => exact .closed (.escape hLine hBody)
  | unclosed hBody => exact .unclosed (.escape hLine hBody)
  | dangling hBody => exact .dangling (.escape hLine hBody)

/-- Scanning a literal finds the text of some body. -/
theorem exists_quotedText_take (quote : Char) (cs : List Char) :
    ∃ body, QuotedText quote body (quote :: cs.take (quotedLength quote cs).1) := by
  fun_induction quotedLength quote cs with
  | case1 => exact ⟨[], .unclosed .nil⟩
  | case2 => exact ⟨[], .unclosed .nil⟩
  | case3 => exact ⟨['\\'], .dangling .nil⟩
  | case4 => exact ⟨['\\'], .dangling .nil⟩
  | case5 d ds hLine _ rest ih =>
      obtain ⟨body, hText⟩ := ih
      exact ⟨'\\' :: d :: body, hText.escape hLine⟩
  | case6 => exact ⟨[], .closed .nil⟩
  | case7 c cs hLine hSlash hQuote rest ih =>
      obtain ⟨body, hText⟩ := ih
      exact ⟨c :: body, hText.plain hQuote hSlash hLine⟩

namespace Parser

/-- A body goes through unchanged to what follows it. -/
theorem beforeQuote_append {quote : Char} {body : List Char}
    (hBody : QuotedBody quote body) (cs : List Char) :
    beforeQuote quote (body ++ cs) = body ++ beforeQuote quote cs := by
  induction hBody with
  | nil => rfl
  | @plain c body hQuote hSlash _ _ ih =>
      rw [List.cons_append, beforeQuote, if_neg (fun h => hQuote h.1), ih]
      · rfl
      · intro d ds hHead _
        exact hSlash hHead
  | @escape c body _ _ ih =>
      show '\\' :: c :: beforeQuote quote (body ++ cs) = _
      rw [ih]
      rfl

/-- The body of a literal can be read off its text, for the quotes that there
are. -/
theorem literalBody_of_quotedText {quote : Char} {body : List Char} {text : String}
    (hQuote : quote ≠ '\\') (h : QuotedText quote body text.toList) :
    literalBody text = String.ofList body := by
  generalize hText : text.toList = cs at h
  unfold literalBody
  rw [hText]
  cases h with
  | closed hBody =>
      have hStop : beforeQuote quote [quote] = [] := by
        simp [beforeQuote, hQuote]
      simp [beforeQuote_append hBody, hStop]
  | unclosed hBody =>
      have hAll := beforeQuote_append hBody []
      simp only [List.append_nil, beforeQuote] at hAll
      simp [hAll]
  | dangling hBody =>
      have hLast : beforeQuote quote ['\\'] = ['\\'] := by
        simp [beforeQuote]
      simp [beforeQuote_append hBody, hLast]

end Parser

/-! ## Words -/

namespace Token

/-- Whether a token is the given word: a keyword if the word is one. -/
def Spells (t : Token) (word : String) : Prop :=
  t.kind = (if isKeyword word then .keyword else .identifier) ∧ t.text = word

/-- Whether a token is a name, a word that is no keyword. -/
def IsName (t : Token) : Prop :=
  t.kind = .identifier ∧ isKeyword t.text = false

/-- What the kind of a token says about its text, for all tokens but the end
marker. -/
structure WellSpelled (t : Token) : Prop where
  notEnd : t.kind ≠ .eof
  keyword : t.kind = .keyword → isKeyword t.text = true
  name : t.kind = .identifier → isKeyword t.text = false
  string : t.kind = .string → ∃ body, QuotedText '"' body t.text.toList
  char : t.kind = .char → ∃ body, QuotedText '\'' body t.text.toList

/-- A word is that word and no other. -/
theorem isWord_eq_of_spells {t : Token} {word other : String} (h : t.Spells word) :
    t.isWord other = (word == other) := by
  obtain ⟨hKind, hText⟩ := h
  unfold isWord
  rw [hKind, hText]
  split <;> simp

theorem isWord_of_spells {t : Token} {word : String} (h : t.Spells word) :
    t.isWord word = true := by
  rw [isWord_eq_of_spells h]
  exact beq_self_eq_true word

/-- Among well spelled tokens a word has one kind only. -/
theorem WellSpelled.spells {t : Token} {word : String} (h : t.WellSpelled)
    (hWord : t.isWord word = true) : t.Spells word := by
  simp only [isWord, Bool.and_eq_true, Bool.or_eq_true, beq_iff_eq] at hWord
  obtain ⟨hKind | hKind, rfl⟩ := hWord
  · exact ⟨by rw [h.keyword hKind, hKind]; rfl, rfl⟩
  · exact ⟨by rw [h.name hKind, hKind]; rfl, rfl⟩

theorem WellSpelled.isName {t : Token} (h : t.WellSpelled)
    (hKind : t.kind = .identifier) : t.IsName :=
  ⟨hKind, h.name hKind⟩

/-- A name is not any of the keywords. -/
theorem IsName.isWord_eq_false {t : Token} (h : t.IsName) {word : String}
    (hWord : isKeyword word = true) : t.isWord word = false := by
  have hText : t.text ≠ word := by
    rintro rfl
    rw [h.2] at hWord
    exact Bool.false_ne_true hWord
  simp [isWord, hText]

end Token

/-! ## The tokens of the lexer -/

/-- Kinds that say nothing about the text. -/
def Token.Kind.Unspelled (k : Token.Kind) : Prop :=
  k ≠ .eof ∧ k ≠ .keyword ∧ k ≠ .identifier ∧ k ≠ .string ∧ k ≠ .char

theorem Token.WellSpelled.of_unspelled {t : Token} (h : t.kind.Unspelled) :
    t.WellSpelled :=
  ⟨h.1, fun hk => absurd hk h.2.1, fun hk => absurd hk h.2.2.1,
    fun hk => absurd hk h.2.2.2.1, fun hk => absurd hk h.2.2.2.2⟩

theorem Token.WellSpelled.of_word {t : Token}
    (h : t.kind = if isKeyword t.text then .keyword else .identifier) :
    t.WellSpelled := by
  cases hWord : isKeyword t.text <;> rw [hWord] at h <;>
    constructor <;> simp_all

theorem Token.WellSpelled.of_string {t : Token} (h : t.kind = .string)
    (hText : ∃ body, QuotedText '"' body t.text.toList) : t.WellSpelled := by
  constructor <;> simp_all

theorem Token.WellSpelled.of_char {t : Token} (h : t.kind = .char)
    (hText : ∃ body, QuotedText '\'' body t.text.toList) : t.WellSpelled := by
  constructor <;> simp_all

theorem unspelled_of_pairOperator {c d : Char} {k : Token.Kind}
    (h : pairOperator? c d = some k) : k.Unspelled := by
  unfold pairOperator? at h
  split at h <;> cases h <;> simp [Token.Kind.Unspelled]

theorem unspelled_of_singleOperator {c : Char} {k : Token.Kind}
    (h : singleOperator? c = some k) : k.Unspelled := by
  unfold singleOperator? at h
  split at h <;> cases h <;> simp [Token.Kind.Unspelled]

theorem unspelled_numberExtent (cs : List Char) :
    (numberExtent cs).kind.Unspelled := by
  unfold numberExtent
  dsimp only
  split
  · split <;> simp [Token.Kind.Unspelled]
  · simp [Token.Kind.Unspelled]

theorem unspelled_operatorExtent (c : Char) (cs : List Char) :
    (operatorExtent c cs).kind.Unspelled := by
  unfold operatorExtent
  split
  · next k hPair =>
      obtain ⟨d, _, hd⟩ := Option.bind_eq_some_iff.mp hPair
      exact unspelled_of_pairOperator hd
  · split
    · next k hSingle => exact unspelled_of_singleOperator hSingle
    · simp [Token.Kind.Unspelled]

/-- The lexeme at the front of a text is well spelled. -/
theorem wellSpelled_front (c : Char) (cs : List Char) (pos : Position) :
    ((Lexeme.front c cs).token pos).WellSpelled := by
  show Token.WellSpelled ⟨(extent c cs).kind,
    String.ofList (c :: cs.take (extent c cs).more), pos⟩
  unfold extent
  split
  · exact .of_unspelled (by simp [Token.Kind.Unspelled])
  split
  · exact .of_unspelled (by simp [Token.Kind.Unspelled])
  split
  · exact .of_unspelled (unspelled_numberExtent cs)
  split
  · next hQuote =>
      subst hQuote
      exact .of_string rfl
        (by simpa [quotedExtent] using exists_quotedText_take '"' cs)
  split
  · next hQuote =>
      subst hQuote
      exact .of_char rfl
        (by simpa [quotedExtent] using exists_quotedText_take '\'' cs)
  split
  · exact .of_word rfl
  · exact .of_unspelled (unspelled_operatorExtent c cs)

/-- The tokens of pieces of a text, but for the end marker after them. -/
theorem place_eq_append_eof (cs : List Char) (pos : Position) :
    ∃ ts stop, (place pos (pieces cs)).tokens = ts ++ [stop] ∧
      stop.kind = .eof ∧ ∀ t ∈ ts, t.WellSpelled := by
  fun_induction pieces cs generalizing pos with
  | case1 => exact ⟨[], ⟨.eof, "", pos⟩, rfl, rfl, by simp⟩
  | case2 c cs _ ih => exact ih (pos.step c)
  | case3 c cs _ ih =>
      obtain ⟨ts, stop, hTokens, hStop, hSpelled⟩ :=
        ih (pos.after (Lexeme.front c cs).chars)
      refine ⟨(Lexeme.front c cs).token pos :: ts, stop, ?_, hStop, ?_⟩
      · simp [place, hTokens]
      · intro t ht
        rcases List.mem_cons.mp ht with rfl | ht
        · exact wellSpelled_front c cs pos
        · exact hSpelled t ht

namespace Parser

/-- What a parse sees of a token list that ends with its only end marker. -/
theorem significant_append_eof {ts : List Token} {stop : Token}
    (hts : ∀ t ∈ ts, t.kind ≠ .eof) (hStop : stop.kind = .eof) :
    significant (ts ++ [stop]) = ts.filter (!·.isTrivia) := by
  have hTake : (ts ++ [stop]).takeWhile (·.kind != .eof) = ts := by
    rw [List.takeWhile_append_of_pos (by simpa using hts)]
    simp [hStop]
  rw [significant, hTake]

/-- A parse sees of the tokens of the lexer all but trivia and the end marker. -/
theorem significant_lex (source : String) :
    significant (lex source).tokens =
      (lex source).tokens.filter fun t => !t.isTrivia && t.kind != .eof := by
  obtain ⟨ts, stop, hTokens, hStop, hSpelled⟩ :=
    place_eq_append_eof source.toList .start
  have hNotEnd : ∀ t ∈ ts, t.kind ≠ .eof := fun t ht => (hSpelled t ht).notEnd
  rw [show (lex source).tokens = ts ++ [stop] from hTokens,
    significant_append_eof hNotEnd hStop, List.filter_append]
  simp only [List.filter_cons, hStop, bne_self_eq_false, Bool.and_false,
    Bool.false_eq_true, if_false, List.filter_nil, List.append_nil]
  refine List.filter_congr fun t ht => ?_
  simp [hNotEnd t ht]

/-- What a parse sees of the tokens of the lexer is well spelled. -/
theorem wellSpelled_of_mem_significant_lex {source : String} {t : Token}
    (h : t ∈ significant (lex source).tokens) : t.WellSpelled := by
  obtain ⟨ts, stop, hTokens, hStop, hSpelled⟩ :=
    place_eq_append_eof source.toList .start
  have hNotEnd : ∀ t ∈ ts, t.kind ≠ .eof := fun t ht => (hSpelled t ht).notEnd
  rw [show (lex source).tokens = ts ++ [stop] from hTokens,
    significant_append_eof hNotEnd hStop] at h
  exact hSpelled t (List.mem_filter.mp h).1

end Parser

end Braceless

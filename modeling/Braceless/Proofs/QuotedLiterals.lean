import Braceless.Proofs.Lexer.Faults
import Braceless.Proofs.Parser.Positions
import Mathlib.Data.List.Nodup

/-!
# Quoted literals are written as they were read

A quoted literal is scanned three times.  The lexer looks for the quote that closes it, the parser
looks for that quote again to drop both quotes, and the output puts quotes around what is left.  The
second scan sees only the text of the token, and no flag says whether the first one found a quote;
still both stop at the same place, for they agree on what a backslash escapes.  So a literal comes out
as it went in, and one that its line does not close gets the quote that it lacks.

## Main definitions

* `Token.Kind.quote?`: the quotes of a kind of literal.
* `Lexed.ReportsUnclosed`: a literal at a place is reported as not closed.

## Main results

* `QuotedBody.closesBehind_append`: no quote in the body of a literal closes it.
* `reportsUnclosed_iff`: a literal is reported exactly if its text has no quote that closes it.
* `text_factor_quoted`: the text of the expression that is read off a literal.
-/

namespace Braceless

/-! ## Bodies and quotes -/

/-- A body neither closes its literal nor escapes what follows. -/
theorem QuotedBody.closesBehind_append {quote : Char} (hSlash : quote ≠ '\\') {body : List Char}
    (h : QuotedBody quote body) (cs : List Char) :
    ∀ front, ¬ EndsEscaping front →
      ¬ EndsEscaping (front ++ body) ∧
        (ClosesBehind quote front (body ++ cs) ↔ ClosesBehind quote (front ++ body) cs) := by
  induction h with
  | nil =>
      intro front hFront
      simp [hFront]
  | @plain c body hQuote hBackslash _ _ ih =>
      intro front hFront
      have hNext : ¬ EndsEscaping (front ++ [c]) := fun h =>
        hBackslash ((endsEscaping_concat front c).mp h).1
      obtain ⟨hEnd, hCloses⟩ := ih (front ++ [c]) hNext
      rw [List.append_cons]
      refine ⟨hEnd, ?_⟩
      rw [List.cons_append, closesBehind_cons, hCloses]
      simp [hQuote]
  | @escape c body _ _ ih =>
      intro front hFront
      have hBackslash : EndsEscaping (front ++ ['\\']) :=
        (endsEscaping_concat front '\\').mpr ⟨rfl, hFront⟩
      have hNext : ¬ EndsEscaping (front ++ ['\\'] ++ [c]) := fun h =>
        ((endsEscaping_concat _ c).mp h).2 hBackslash
      obtain ⟨hEnd, hCloses⟩ := ih (front ++ ['\\'] ++ [c]) hNext
      rw [List.append_cons front, List.append_cons (front ++ ['\\'])]
      refine ⟨hEnd, ?_⟩
      rw [List.cons_append, List.cons_append, closesBehind_cons, closesBehind_cons, hCloses]
      simp [hSlash.symm, hBackslash]

/-- Quotes around the body of a literal give its text, with the quote that it lacks. -/
theorem QuotedText.requote {quote : Char} (hSlash : quote ≠ '\\') {body text : List Char}
    (h : QuotedText quote body text) :
    quote :: (body ++ [quote]) = if Closes quote text.tail then text else text ++ [quote] := by
  cases h with
  | closed hBody =>
      obtain ⟨hEnd, hCloses⟩ := hBody.closesBehind_append hSlash [quote] [] not_endsEscaping_nil
      have hClosed : Closes quote (body ++ [quote]) :=
        hCloses.mpr (closesBehind_cons.mpr (.inl ⟨rfl, hEnd⟩))
      simp [hClosed]
  | unclosed hBody =>
      obtain ⟨-, hCloses⟩ := hBody.closesBehind_append hSlash [] [] not_endsEscaping_nil
      have hOpen : ¬ Closes quote body := by
        rw [List.append_nil] at hCloses
        exact fun h => not_closesBehind_nil _ _ (hCloses.mp h)
      simp [hOpen]
  | @dangling body hBody =>
      obtain ⟨-, hCloses⟩ := hBody.closesBehind_append hSlash ['\\'] [] not_endsEscaping_nil
      have hOpen : ¬ Closes quote (body ++ ['\\']) := by
        intro h
        rcases closesBehind_cons.mp (hCloses.mp h) with ⟨hQuote, -⟩ | hNone
        · exact hSlash hQuote.symm
        · exact not_closesBehind_nil _ _ hNone
      simp [hOpen]

/-! ## Reports -/

/-- The quotes of a kind of literal. -/
def Token.Kind.quote? : Token.Kind → Option Char
  | .string => some '"'
  | .char => some '\''
  | _ => none

/-- Whether a literal at the given place is reported as not closed. -/
def Lexed.ReportsUnclosed (l : Lexed) (pos : Position) : Prop :=
  ∃ e ∈ l.errors, e.pos = pos ∧ (e.fault = .unterminatedString ∨ e.fault = .unterminatedChar)

instance (l : Lexed) (pos : Position) : Decidable (l.ReportsUnclosed pos) :=
  inferInstanceAs (Decidable (∃ e ∈ l.errors, _))

theorem Token.pos_of_lexicalError? {t : Token} {e : LexicalError} (h : t.lexicalError? = some e) :
    e.pos = t.pos := by
  unfold Token.lexicalError? at h
  split at h
  · obtain rfl := Option.some.inj h
    rfl
  · split at h
    · cases h
    · obtain rfl := Option.some.inj h
      rfl
  · split at h
    · cases h
    · obtain rfl := Option.some.inj h
      rfl
  · cases h

/-- No two tokens of a text stand at the same place. -/
theorem eq_of_pos_eq_lex {source : String} {t u : Token} (ht : t ∈ (lex source).tokens)
    (hu : u ∈ (lex source).tokens) (h : t.pos = u.pos) : t = u := by
  obtain ⟨ts, stop, hTokens, _, _, hOrder⟩ := Parser.exists_tokens_lex source
  have hPlaces : ((lex source).tokens.map (·.pos)).Nodup := by
    rw [hTokens]
    exact List.pairwise_map.mpr (hOrder.imp fun hLess hSame => by
      rw [hSame, Position.lt_def] at hLess
      omega)
  exact List.inj_on_of_nodup_map hPlaces ht hu h

/-- There are two kinds of quoted literals. -/
theorem Token.Kind.quote?_eq_some_iff {k : Token.Kind} {quote : Char} :
    k.quote? = some quote ↔ k = .string ∧ quote = '"' ∨ k = .char ∧ quote = '\'' := by
  cases k <;> simp [Token.Kind.quote?, eq_comm]

/-- What is wrong with a quoted literal that has a text. -/
theorem Token.lexicalError?_of_quote {t : Token} {quote : Char}
    (hQuote : t.kind.quote? = some quote) {cs : List Char} (hText : t.text.toList = quote :: cs) :
    ∃ fault, (fault = .unterminatedString ∨ fault = .unterminatedChar) ∧
      t.lexicalError? = if Closes quote cs then none else some ⟨fault, quote, t.pos⟩ := by
  rcases Token.Kind.quote?_eq_some_iff.mp hQuote with ⟨hKind, rfl⟩ | ⟨hKind, rfl⟩
  · exact ⟨.unterminatedString, .inl rfl, by simp only [Token.lexicalError?, hKind, hText]⟩
  · exact ⟨.unterminatedChar, .inr rfl, by simp only [Token.lexicalError?, hKind, hText]⟩

/-- The text of a quoted literal of a text starts with its quote. -/
theorem exists_quotedText_of_mem_lex {source : String} {t : Token} {quote : Char}
    (ht : t ∈ (lex source).tokens) (hQuote : t.kind.quote? = some quote) :
    ∃ body, QuotedText quote body t.text.toList := by
  obtain ⟨ts, stop, hTokens, hStop, hSpelled⟩ := place_eq_append_eof source.toList .start
  rw [show (lex source).tokens = ts ++ [stop] from hTokens, List.mem_append,
    List.mem_singleton] at ht
  rcases ht with hMem | rfl
  · rcases Token.Kind.quote?_eq_some_iff.mp hQuote with ⟨hKind, rfl⟩ | ⟨hKind, rfl⟩
    · exact (hSpelled t hMem).string hKind
    · exact (hSpelled t hMem).char hKind
  · rw [hStop] at hQuote
    cases hQuote

theorem QuotedText.exists_eq_cons {quote : Char} {body text : List Char}
    (h : QuotedText quote body text) : ∃ cs, text = quote :: cs := by
  cases h with
  | closed _ => exact ⟨_, rfl⟩
  | unclosed _ => exact ⟨_, rfl⟩
  | dangling _ => exact ⟨_, rfl⟩

/-- A quoted literal is reported exactly if its text has no quote that closes it. -/
theorem reportsUnclosed_iff {source : String} {t : Token} {quote : Char}
    (ht : t ∈ (lex source).tokens) (hQuote : t.kind.quote? = some quote) :
    (lex source).ReportsUnclosed t.pos ↔ ¬ Closes quote t.text.toList.tail := by
  have hErrors : (lex source).errors = (lex source).tokens.filterMap Token.lexicalError? :=
    errors_place_eq_filterMap source.toList .start
  obtain ⟨body, hQuoted⟩ := exists_quotedText_of_mem_lex ht hQuote
  obtain ⟨cs, hText⟩ := hQuoted.exists_eq_cons
  obtain ⟨fault, hFault, hOwn⟩ := Token.lexicalError?_of_quote hQuote hText
  rw [hText, List.tail_cons]
  constructor
  · rintro ⟨e, he, hPos, -⟩ hCloses
    rw [hErrors] at he
    obtain ⟨u, hu, hError⟩ := List.mem_filterMap.mp he
    obtain rfl := eq_of_pos_eq_lex hu ht ((Token.pos_of_lexicalError? hError).symm.trans hPos)
    rw [hOwn, if_pos hCloses] at hError
    cases hError
  · intro hOpen
    rw [if_neg hOpen] at hOwn
    exact ⟨_, hErrors ▸ List.mem_filterMap.mpr ⟨t, ht, hOwn⟩, rfl, hFault⟩

/-! ## Expressions -/

/-- What the parser reads off a quoted literal, wherever it meets one. -/
theorem run_factor_quoted {s : Parser.State} {quote : Char}
    (hQuote : s.current.kind.quote? = some quote) (room : Nat) :
    ∃ l : Literal, (Parser.factor room).run s = (.literal l, { s with rest := s.rest.tail }) ∧
      l.lower = .quoted quote (Parser.literalBody s.current.text) := by
  have hCurrent : ∀ f : Token → Parser.Parse Expr,
      (Parser.current >>= f).run s = (f s.current).run s := fun _ => rfl
  rw [Parser.factor, hCurrent]
  rcases Token.Kind.quote?_eq_some_iff.mp hQuote with ⟨hKind, rfl⟩ | ⟨hKind, rfl⟩
  · rw [hKind]
    exact ⟨⟨.str, Parser.literalBody s.current.text⟩, rfl, rfl⟩
  · rw [hKind]
    exact ⟨⟨.char, Parser.literalBody s.current.text⟩, rfl, rfl⟩

/-- **Quoted literals are written as they were read.**  Take any quoted literal among the tokens of a
text, and any state in which a parse has come to it.  The expression that is read off the literal is
written as the text of the literal, if no error is reported there, and with the quote that closes it
put behind the text, if one is. -/
theorem text_factor_quoted {source : String} {t : Token} (ht : t ∈ (lex source).tokens)
    {quote : Char} (hQuote : t.kind.quote? = some quote) {s : Parser.State} (hs : s.current = t)
    (room : Nat) :
    ∃ l : Literal, (Parser.factor room).run s = (.literal l, { s with rest := s.rest.tail }) ∧
      (Expr.literal l).lower.text =
        if (lex source).ReportsUnclosed t.pos then t.text ++ quote.toString else t.text := by
  have hSlash : quote ≠ '\\' := by
    rcases Token.Kind.quote?_eq_some_iff.mp hQuote with ⟨-, rfl⟩ | ⟨-, rfl⟩ <;> decide
  obtain ⟨body, hQuoted⟩ := exists_quotedText_of_mem_lex ht hQuote
  subst hs
  obtain ⟨l, hRun, hLower⟩ := run_factor_quoted hQuote room
  refine ⟨l, hRun, ?_⟩
  have hText : l.lower.text.toList = quote :: (body ++ [quote]) := by
    rw [hLower, Parser.literalBody_of_quotedText hSlash hQuoted]
    simp [Target.Expr.text]
  apply String.toList_injective
  show l.lower.text.toList = _
  rw [hText, hQuoted.requote hSlash]
  by_cases hCloses : Closes quote s.current.text.toList.tail
  · rw [if_pos hCloses, if_neg fun h => (reportsUnclosed_iff ht hQuote).mp h hCloses]
  · rw [if_neg hCloses, if_pos ((reportsUnclosed_iff ht hQuote).mpr hCloses)]
    simp

/-- A closed literal with two escapes before its last quotes, and one that ends with its text behind
a backslash. -/
def escapingSource : String :=
  "'\"' + \"a\\\\\\\"b\" + \"open\\"

/-- The closed literal in `escapingSource`. -/
def closedToken : Token :=
  ⟨.string, "\"a\\\\\\\"b\"", ⟨1, 7⟩⟩

/-- The literal in `escapingSource` that is not closed. -/
def openToken : Token :=
  ⟨.string, "\"open\\", ⟨1, 18⟩⟩

theorem escapingSource_facts :
    closedToken ∈ (lex escapingSource).tokens ∧ openToken ∈ (lex escapingSource).tokens ∧
      ¬ (lex escapingSource).ReportsUnclosed closedToken.pos ∧
      (lex escapingSource).ReportsUnclosed openToken.pos := by
  decide +kernel

theorem text_factor_escapingSource :
    closedToken ∈ (lex escapingSource).tokens ∧ openToken ∈ (lex escapingSource).tokens ∧
      (∃ l : Literal, ((Parser.factor 1).run (.initial [closedToken])).1 = .literal l ∧
        (Expr.literal l).lower.text = closedToken.text) ∧
      ∃ l : Literal, ((Parser.factor 1).run (.initial [openToken])).1 = .literal l ∧
        (Expr.literal l).lower.text = openToken.text ++ "\"" := by
  obtain ⟨hClosed, hOpen, hSilent, hReported⟩ := escapingSource_facts
  obtain ⟨l, hRun, hText⟩ :=
    text_factor_quoted hClosed rfl (s := .initial [closedToken]) rfl 1
  obtain ⟨m, hRunOpen, hTextOpen⟩ :=
    text_factor_quoted hOpen rfl (s := .initial [openToken]) rfl 1
  rw [if_neg hSilent] at hText
  rw [if_pos hReported] at hTextOpen
  exact ⟨hClosed, hOpen, ⟨l, by rw [hRun], hText⟩, m, by rw [hRunOpen], hTextOpen⟩

end Braceless

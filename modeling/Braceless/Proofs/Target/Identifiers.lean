import Braceless.Proofs.Lowering
import Braceless.Proofs.Target.Outline

/-!
# The identifiers on a page

Which variables a page of the target is about can be read off its characters: a word is a
variable, unless it has a fixed meaning, stands between quotes or in a comment, or names an
option of a call.  Nothing is known about the program that the page comes from.

## Main definitions

* `Target.identifiers`: the identifiers in a text, from left to right.
* `Target.Mentioning`, `Target.MentioningLines`: texts and lines with given identifiers,
  wherever they stand.

## Main results

* `identifiers_page`: the identifiers on a page are those of its lines.
-/

namespace Braceless

namespace Target

/-! ## Reading -/

/-- How many characters after `c`, which starts no word, belong to it: those of a number, of
a text in quotes or of a comment. -/
def spanAt (c : Char) (cs : List Char) : Nat :=
  if c.isDigit then runLength (fun d => isWordPart d || d == '.') cs
  else if c = '"' ∨ c = '\'' then ((quotedBody c cs).map (·.length + 1)).getD 0
  else if c = '#' then runLength (· != '\n') cs
  else 0

/-- The identifiers in a text, from left to right.  A word directly before an equals sign
names an option of a call, as an assignment has a blank there. -/
def identifiers : List Char → List String
  | [] => []
  | c :: cs =>
    if isWordStart c then
      let more := runLength isWordPart cs
      let word := String.ofList (c :: cs.take more)
      if word ∈ fixedWords ∨ (cs.drop more).head? = some '=' then identifiers (cs.drop more)
      else word :: identifiers (cs.drop more)
    else identifiers (cs.drop (spanAt c cs))
termination_by cs => cs.length
decreasing_by
  all_goals
    rw [List.length_drop]
    exact Nat.lt_succ_of_le (Nat.sub_le _ _)

theorem identifiers_nil : identifiers [] = [] := by
  rw [identifiers]

/-! ## Single characters and words -/

/-- A word, whatever it is. -/
theorem identifiers_word {cs rest : List Char} (h : IsIdentifier cs)
    (hRest : ∀ c ∈ rest.head?, isWordPart c = false) :
    identifiers (cs ++ rest) =
      if String.ofList cs ∈ fixedWords ∨ rest.head? = some '=' then identifiers rest
      else String.ofList cs :: identifiers rest := by
  obtain ⟨c, cs, rfl, hStart, hParts⟩ := h
  have hRun := runLength_append_of_stop hParts hRest
  rw [List.cons_append, identifiers, if_pos hStart]
  simp only [hRun, List.drop_left, List.take_left]

theorem identifiers_span {c : Char} {cs : List Char} (h : isWordStart c = false) :
    identifiers (c :: cs) = identifiers (cs.drop (spanAt c cs)) := by
  rw [identifiers, h, if_neg (by decide)]

/-- Characters that belong to no word, number, quoted text or comment. -/
def isPlainSymbol (c : Char) : Bool :=
  !isWordStart c && !c.isDigit && c != '"' && c != '\'' && c != '#'

theorem identifiers_symbol {c : Char} (h : isPlainSymbol c = true) (cs : List Char) :
    identifiers (c :: cs) = identifiers cs := by
  simp only [isPlainSymbol, Bool.and_eq_true, Bool.not_eq_true', bne_iff_ne] at h
  obtain ⟨⟨⟨⟨hStart, hDigit⟩, hDouble⟩, hSingle⟩, hComment⟩ := h
  have hSpan : spanAt c cs = 0 := by
    simp [spanAt, hDigit, hDouble, hSingle, hComment]
  rw [identifiers_span hStart, hSpan, List.drop_zero]

theorem identifiers_symbols {cs : List Char} (h : cs.all isPlainSymbol = true)
    (rest : List Char) : identifiers (cs ++ rest) = identifiers rest := by
  induction cs with
  | nil => rfl
  | cons c cs ih =>
      obtain ⟨hFirst, hRest⟩ := Bool.and_eq_true_iff.mp h
      rw [List.cons_append, identifiers_symbol hFirst, ih hRest]

theorem isIdentifier_of_mem_fixedWords {word : String} (h : word ∈ fixedWords) :
    IsIdentifier word.toList := by
  have hAll : ∀ w ∈ fixedWords, (w.toList.head?.any isWordStart &&
      w.toList.tail.all isWordPart) = true := by
    decide
  obtain ⟨hHead, hTail⟩ := Bool.and_eq_true_iff.mp (hAll word h)
  cases hChars : word.toList with
  | nil =>
      rw [hChars] at hHead
      cases hHead
  | cons c cs =>
      rw [hChars] at hHead hTail
      exact isIdentifier_cons hHead hTail

/-- A word with a fixed meaning is no identifier. -/
theorem identifiers_fixed (word : String) (h : word ∈ fixedWords) {rest : List Char}
    (hRest : ∀ c ∈ rest.head?, isWordPart c = false) :
    identifiers (word.toList ++ rest) = identifiers rest := by
  rw [identifiers_word (isIdentifier_of_mem_fixedWords h) hRest, String.ofList_toList,
    if_pos (.inl h)]

theorem identifiers_fixed_cons (word : String) (h : word ∈ fixedWords) {c : Char}
    (hc : isWordPart c = false) (rest : List Char) :
    identifiers (word.toList ++ c :: rest) = identifiers (c :: rest) :=
  identifiers_fixed word h fun _ hd => Option.some.inj hd ▸ hc

/-! ## Texts -/

/-- The characters that may follow an expression on a page. -/
def closers : List Char :=
  [' ', ')', ':', ',', '\n']

/-- What follows an expression on a page. -/
def Closes (cs : List Char) : Prop :=
  ∀ c ∈ cs.head?, c ∈ closers

theorem closes_nil : Closes [] := by
  intro c hc
  cases hc

theorem closes_cons {c : Char} (cs : List Char) (h : c ∈ closers) : Closes (c :: cs) := by
  intro d hd
  obtain rfl := Option.some.inj hd
  exact h

theorem Closes.stop {p : Char → Bool} (hp : (closers.all fun c => !p c) = true)
    {cs : List Char} (h : Closes cs) : ∀ c ∈ cs.head?, p c = false := by
  intro c hc
  exact Bool.not_eq_true' _ ▸ List.all_eq_true.mp hp c (h c hc)

/-- The text has the given identifiers, wherever it stands. -/
def Mentioning (text : String) (names : List String) : Prop :=
  ∀ rest, Closes rest → identifiers (text.toList ++ rest) = names ++ identifiers rest

/-- A text has one list of identifiers. -/
theorem Mentioning.unique {text : String} {names names' : List String}
    (h : Mentioning text names) (h' : Mentioning text names') : names = names' := by
  have hSame := (h [] closes_nil).symm.trans (h' [] closes_nil)
  rwa [identifiers_nil, List.append_nil, List.append_nil] at hSame

theorem mentioning_empty : Mentioning "" [] :=
  fun _ _ => rfl

theorem mentioning_name {name : String} (h : IsIdentifier name.toList) (hFree : name ∉ fixedWords) :
    Mentioning name [name] := by
  intro rest hRest
  have hStop : ∀ c ∈ rest.head?, isWordPart c = false := hRest.stop rfl
  have hEquals : rest.head? ≠ some '=' := fun hHead => absurd (hRest '=' hHead) (by decide)
  rw [identifiers_word h hStop, String.ofList_toList, if_neg (not_or_intro hFree hEquals)]
  rfl

theorem mentioning_fixed (word : String) (h : word ∈ fixedWords) : Mentioning word [] :=
  fun _ hRest => identifiers_fixed word h (hRest.stop rfl)

theorem mentioning_number {text : String} (h : isNumeral text.toList = true) :
    Mentioning text [] := by
  intro rest hRest
  have hParts := mem_of_isNumeral h
  cases hText : text.toList with
  | nil =>
      rw [hText] at h
      exact absurd h (by decide)
  | cons c cs =>
      rw [hText] at h hParts
      have hDigit := isDigit_of_isNumeral h
      have hStop : ∀ d ∈ rest.head?, (isWordPart d || d == '.') = false :=
        hRest.stop (p := fun d => isWordPart d || d == '.') rfl
      have hRun : runLength (fun d => isWordPart d || d == '.') (cs ++ rest) = cs.length :=
        runLength_append_of_stop (fun d hd => hParts d (List.mem_cons_of_mem c hd)) hStop
      rw [List.cons_append, identifiers_span (isWordStart_of_isDigit hDigit), spanAt,
        if_pos hDigit, hRun, List.drop_left]
      rfl

theorem mentioning_quoted {quote : Char} {body : String} (hQuote : quote = '"' ∨ quote = '\'')
    (h : QuotedBody quote body.toList) : Mentioning (Expr.quoted quote body).text [] := by
  intro rest _
  have hFacts : isWordStart quote = false ∧ quote.isDigit = false ∧ quote ≠ '\\' ∧
      quote ≠ '\n' := by
    rcases hQuote with rfl | rfl
    · decide
    · decide
  obtain ⟨hStart, hDigit, hSlash, hLine⟩ := hFacts
  have hText : (Expr.quoted quote body).text.toList ++ rest =
      quote :: (body.toList ++ quote :: rest) := by
    simp [Expr.text]
  have hSpan : spanAt quote (body.toList ++ quote :: rest) = body.toList.length + 1 := by
    rw [spanAt, hDigit, if_neg (by decide), if_pos hQuote, quotedBody_append hSlash hLine h]
    rfl
  have hRest : (body.toList ++ quote :: rest).drop (body.toList.length + 1) = rest := by simp
  rw [hText, identifiers_span hStart, hSpan, hRest]
  rfl

/-! ## Expressions -/

/-- A text whose identifiers are known goes on with what follows. -/
theorem Mentioning.append {text : String} {names : List String} (h : Mentioning text names)
    {c : Char} (hc : c ∈ closers) (rest : List Char) :
    identifiers (text.toList ++ c :: rest) = names ++ identifiers (c :: rest) :=
  h (c :: rest) (closes_cons rest hc)

theorem mentioning_not {text : String} {names : List String} (h : Mentioning text names) :
    Mentioning ("not " ++ text) names := by
  intro rest hRest
  have hWord : identifiers ("not".toList ++ ' ' :: (text.toList ++ rest)) =
      identifiers (' ' :: (text.toList ++ rest)) :=
    identifiers_fixed_cons _ (by decide) rfl _
  rw [String.toList_append, List.append_assoc]
  exact hWord.trans ((identifiers_symbol rfl _).trans (h rest hRest))

theorem mentioning_neg {text : String} {names : List String} (h : Mentioning text names) :
    Mentioning ("-" ++ text) names := by
  intro rest hRest
  rw [String.toList_append, List.append_assoc]
  exact (identifiers_symbol rfl _).trans (h rest hRest)

theorem mentioning_brackets {text : String} {names : List String} (h : Mentioning text names) :
    Mentioning ("(" ++ text ++ ")") names := by
  intro rest hRest
  have hText : ("(" ++ text ++ ")").toList ++ rest = '(' :: (text.toList ++ ')' :: rest) := by
    simp
  rw [hText, identifiers_symbol rfl, h.append (by decide), identifiers_symbol rfl]

theorem Mentioning.bracketsIf {e : Expr} {names : List String} (h : Mentioning e.text names)
    (wrap : Bool) : Mentioning (e.bracketsIf wrap).text names := by
  cases wrap with
  | false => exact h
  | true => exact mentioning_brackets h

/-- An operator is a symbol or a keyword. -/
theorem identifiers_spelling (op : BinaryOp) (rest : List Char) :
    identifiers (op.spelling.toList ++ ' ' :: rest) = identifiers (' ' :: rest) := by
  cases op with
  | and => exact identifiers_fixed_cons "and" (by decide) rfl rest
  | or => exact identifiers_fixed_cons "or" (by decide) rfl rest
  | _ => exact identifiers_symbols rfl _

theorem mentioning_binary (op : BinaryOp) {left right : Expr} {names names' : List String}
    (hLeft : Mentioning left.text names) (hRight : Mentioning right.text names') :
    Mentioning (Expr.binary op left right).text (names ++ names') := by
  intro rest hRest
  have hText : (Expr.binary op left right).text.toList ++ rest =
      left.text.toList ++ ' ' :: (op.spelling.toList ++ ' ' :: (right.text.toList ++ rest)) := by
    simp [Expr.text]
  rw [hText, hLeft.append (by decide), identifiers_symbol rfl, identifiers_spelling,
    identifiers_symbol rfl, hRight rest hRest, List.append_assoc]

/-! ## Lines -/

/-- What follows a line on a page. -/
def ClosesLine (cs : List Char) : Prop :=
  ∀ c ∈ cs.head?, c = '\n'

theorem closesLine_nil : ClosesLine [] := by
  intro c hc
  cases hc

theorem ClosesLine.closes {cs : List Char} (h : ClosesLine cs) : Closes cs := by
  intro c hc
  rw [h c hc]
  decide

/-- The line has the given identifiers, wherever it stands. -/
def MentioningLine (text : String) (names : List String) : Prop :=
  ∀ rest, ClosesLine rest → identifiers (text.toList ++ rest) = names ++ identifiers rest

theorem Mentioning.line {text : String} {names : List String} (h : Mentioning text names) :
    MentioningLine text names :=
  fun rest hRest => h rest hRest.closes

theorem mentioningLine_assign {name value : String} {names names' : List String}
    (hName : Mentioning name names) (hValue : Mentioning value names') :
    MentioningLine (name ++ " = " ++ value) (names ++ names') := by
  intro rest hRest
  have hText : (name ++ " = " ++ value).toList ++ rest =
      name.toList ++ ' ' :: '=' :: ' ' :: (value.toList ++ rest) := by
    simp
  rw [hText, hName.append (by decide), identifiers_symbol rfl, identifiers_symbol rfl,
    identifiers_symbol rfl, hValue.line rest hRest, List.append_assoc]

/-- A header with a condition: a keyword, the condition and a colon. -/
theorem mentioningLine_condition (word lead : String) {text : String} {names : List String}
    (hWord : word ∈ fixedWords) (hLead : lead.toList = word.toList ++ [' '])
    (h : Mentioning text names) : MentioningLine (lead ++ text ++ ":") names := by
  intro rest _
  have hText : (lead ++ text ++ ":").toList ++ rest =
      word.toList ++ ' ' :: (text.toList ++ ':' :: rest) := by
    simp [hLead]
  rw [hText, identifiers_fixed_cons word hWord rfl, identifiers_symbol rfl,
    h.append (by decide), identifiers_symbol rfl]

theorem mentioningLine_else : MentioningLine "else:" [] := by
  intro rest _
  have hWord : identifiers ("else".toList ++ ':' :: rest) = identifiers (':' :: rest) :=
    identifiers_fixed_cons _ (by decide) rfl _
  exact hWord.trans (identifiers_symbol rfl rest)

/-- The arguments of a range, where the last one may be missing. -/
theorem mentioning_rangeArguments {first stop : Expr} {step : Option Expr}
    {names names' names'' : List String} (hFirst : Mentioning first.text names)
    (hStop : Mentioning stop.text names')
    (hStep : Mentioning ((step.map Expr.text).getD "") names'') :
    Mentioning (rangeArguments first stop step) (names ++ (names' ++ names'')) := by
  intro rest hRest
  cases step with
  | none =>
      have hText : (rangeArguments first stop none).toList ++ rest =
          first.text.toList ++ ',' :: ' ' :: (stop.text.toList ++ rest) := by
        simp [rangeArguments]
      rw [hText, hFirst.append (by decide), identifiers_symbol rfl, identifiers_symbol rfl,
        hStop rest hRest, hStep.unique mentioning_empty, List.append_nil, List.append_assoc]
  | some e =>
      have hLast : identifiers (e.text.toList ++ rest) = names'' ++ identifiers rest :=
        hStep rest hRest
      have hText : (rangeArguments first stop (some e)).toList ++ rest = first.text.toList ++
          ',' :: ' ' :: (stop.text.toList ++ ',' :: ' ' :: (e.text.toList ++ rest)) := by
        simp [rangeArguments]
      rw [hText, hFirst.append (by decide), identifiers_symbol rfl, identifiers_symbol rfl,
        hStop.append (by decide), identifiers_symbol rfl, identifiers_symbol rfl,
        hLast, List.append_assoc, List.append_assoc]

theorem mentioningLine_for {name arguments : String} {names names' : List String}
    (hName : Mentioning name names) (hArguments : Mentioning arguments names') :
    MentioningLine ("for " ++ name ++ " in range(" ++ arguments ++ "):") (names ++ names') := by
  intro rest _
  have hText : ("for " ++ name ++ " in range(" ++ arguments ++ "):").toList ++ rest =
      "for".toList ++ ' ' :: (name.toList ++ ' ' :: ("in".toList ++ ' ' :: ("range".toList ++
        '(' :: (arguments.toList ++ ')' :: ':' :: rest)))) := by
    simp
  rw [hText, identifiers_fixed_cons _ (by decide) rfl _, identifiers_symbol rfl,
    hName.append (by decide), identifiers_symbol rfl,
    identifiers_fixed_cons _ (by decide) rfl _, identifiers_symbol rfl,
    identifiers_fixed_cons _ (by decide) rfl _, identifiers_symbol rfl,
    hArguments.append (by decide), identifiers_symbol rfl, identifiers_symbol rfl,
    List.append_assoc]

/-- The option of a call that prints no line feed. -/
theorem identifiers_endOption (rest : List Char) :
    identifiers ("end=\"\")".toList ++ rest) = identifiers rest := by
  have hOption : identifiers ("end".toList ++ '=' :: '"' :: '"' :: ')' :: rest) =
      identifiers ('=' :: '"' :: '"' :: ')' :: rest) := by
    have hWord : IsIdentifier "end".toList := isIdentifier_cons rfl rfl
    rw [identifiers_word hWord (by simp; rfl), if_pos (.inr rfl)]
  have hEmpty : Mentioning (Expr.quoted '"' "").text [] := mentioning_quoted (.inl rfl) .nil
  have hQuotes : identifiers ('"' :: '"' :: ')' :: rest) = identifiers (')' :: rest) :=
    hEmpty.append (by decide) rest
  exact hOption.trans
    ((identifiers_symbol rfl _).trans (hQuotes.trans (identifiers_symbol rfl rest)))

theorem mentioningLine_print {argument : Option Expr} {names : List String}
    (h : Mentioning ((argument.map Expr.text).getD "") names) (newline : Bool) :
    MentioningLine (printCall argument newline) names := by
  intro rest _
  have hCall : ∀ cs, identifiers ("print(".toList ++ cs) = identifiers cs := by
    intro cs
    have hWord : identifiers ("print".toList ++ '(' :: cs) = identifiers ('(' :: cs) :=
      identifiers_fixed_cons _ (by decide) rfl _
    exact hWord.trans (identifiers_symbol rfl cs)
  unfold printCall
  dsimp only
  split
  · rw [String.toList_append, String.toList_append, List.append_assoc, List.append_assoc, hCall]
    exact (h.append (by decide) rest).trans (congrArg _ (identifiers_symbol rfl rest))
  · split
    · next hEmpty =>
        rw [String.isEmpty_iff.mp hEmpty] at h
        rw [h.unique mentioning_empty]
        exact (hCall _).trans (identifiers_endOption rest)
    · rw [String.toList_append, String.toList_append, List.append_assoc, List.append_assoc, hCall]
      have hOption : identifiers (", end=\"\")".toList ++ rest) = identifiers rest :=
        (identifiers_symbol rfl _).trans
          ((identifiers_symbol rfl _).trans (identifiers_endOption rest))
      exact (h.append (by decide) _).trans (congrArg _ hOption)

theorem mentioningLine_comment {text : String} (h : '\n' ∉ text.toList) :
    MentioningLine ("# " ++ text) [] := by
  intro rest hRest
  have hText : ("# " ++ text).toList ++ rest = '#' :: ((' ' :: text.toList) ++ rest) := by
    simp
  have hParts : ∀ c ∈ ' ' :: text.toList, (c != '\n') = true := by
    intro c hc
    have hMem : c ∈ ' ' :: text.toList := hc
    rw [bne_iff_ne]
    rintro rfl
    simp [h] at hMem
  have hStop : ∀ c ∈ rest.head?, (c != '\n') = false := by
    intro c hc
    rw [hRest c hc]
    rfl
  have hSpan : spanAt '#' ((' ' :: text.toList) ++ rest) = (' ' :: text.toList).length :=
    runLength_append_of_stop hParts hStop
  rw [hText, identifiers_span rfl, hSpan, List.drop_left]
  rfl

/-! ## Pages -/

/-- The characters of lines, each behind a line feed. -/
def writtenLines (width : Nat) (ls : List Line) : List Char :=
  ls.flatMap fun l => '\n' :: (l.render width).toList

/-- The lines have the given identifiers, wherever they stand. -/
def MentioningLines (ls : List Line) (names : List String) : Prop :=
  ∀ width rest, ClosesLine rest →
    identifiers (writtenLines width ls ++ rest) = names ++ identifiers rest

theorem mentioningLines_nil : MentioningLines [] [] :=
  fun _ _ _ => rfl

theorem closesLine_writtenLines (width : Nat) (ls : List Line) {rest : List Char}
    (h : ClosesLine rest) : ClosesLine (writtenLines width ls ++ rest) := by
  cases ls with
  | nil => exact h
  | cons l ls =>
      intro c hc
      exact (Option.some.inj hc).symm

theorem MentioningLines.append {ls ls' : List Line} {names names' : List String}
    (h : MentioningLines ls names) (h' : MentioningLines ls' names') :
    MentioningLines (ls ++ ls') (names ++ names') := by
  intro width rest hRest
  have hSplit : writtenLines width (ls ++ ls') ++ rest =
      writtenLines width ls ++ (writtenLines width ls' ++ rest) := by
    simp [writtenLines]
  rw [hSplit, h width _ (closesLine_writtenLines width ls' hRest), h' width rest hRest,
    List.append_assoc]

/-- Blanks at the front of a line mention nothing. -/
theorem mentioningLines_singleton {level : Nat} {text : String} {names : List String}
    (h : MentioningLine text names) : MentioningLines [⟨level, text⟩] names := by
  intro width rest hRest
  have hBlanks : (List.replicate (width * level) ' ').all isPlainSymbol = true := by
    rw [List.all_replicate]
    split <;> rfl
  have hText : writtenLines width [⟨level, text⟩] ++ rest =
      '\n' :: (List.replicate (width * level) ' ' ++ (text.toList ++ rest)) := by
    simp [writtenLines, Line.render]
  rw [hText, identifiers_symbol rfl, identifiers_symbols hBlanks, h rest hRest]

theorem MentioningLines.cons {level : Nat} {text : String} {ls : List Line}
    {names names' : List String} (h : MentioningLine text names)
    (h' : MentioningLines ls names') : MentioningLines (⟨level, text⟩ :: ls) (names ++ names') :=
  (mentioningLines_singleton h).append h'

/-- A page has line feeds between its lines only. -/
theorem writtenLines_cons (width : Nat) (l : Line) (ls : List Line) :
    writtenLines width (l :: ls) = '\n' :: (page width (l :: ls)).toList := by
  induction ls generalizing l with
  | nil => simp [writtenLines, page]
  | cons l' ls ih =>
      rw [toList_page_cons width l (List.cons_ne_nil l' ls), ← ih l']
      rfl

/-- The identifiers on a page are those of its lines. -/
theorem identifiers_page {ls : List Line} {names : List String} (h : MentioningLines ls names)
    (width : Nat) : identifiers (page width ls).toList = names := by
  have hWritten : identifiers (page width ls).toList = identifiers (writtenLines width ls) := by
    cases ls with
    | nil => rfl
    | cons l ls => rw [writtenLines_cons, identifiers_symbol rfl]
  have hLines := h width [] closesLine_nil
  rw [List.append_nil, identifiers_nil, List.append_nil] at hLines
  exact hWritten.trans hLines

end Target

end Braceless

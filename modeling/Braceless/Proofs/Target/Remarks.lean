import Braceless.Proofs.BlockStructure
import Mathlib.Data.List.Induction

/-!
# What the target makes of comments

The target passes over a line that starts with `#`, and over a text in triple quotes that
stands by itself.  Such a text ends with the first three quotes in a row behind the ones that
open it, where a backslash takes the next character along.  A closed block comment is put into
triple quotes, and they close it where they should unless something at its end gets in the way:
a quote right before them closes the text one character early, and a backslash right before
them takes the first of them, unless it is itself taken by another one.  These are the only
comments that are not passed over as they stand.

A line ends with a line feed here, and with nothing else.  The target also ends a line at a
carriage return that stands alone.  That is not modelled: it ends a comment that starts with
`#` early, and does not matter to where a text in triple quotes ends.

## Main definitions

* `Target.afterLiteral`: what follows a text in triple quotes.
* `Target.IsRemark`: texts that the target passes over.
* `Target.Remarks`: what the target passes over in front of the code.
* `Target.runsOn`: block comments whose quotes do not close them at their end.

## Main results

* `Target.afterQuotes_append_quotes`: which texts are closed by the quotes behind them.
* `isRemark_comment_iff_runsOn`: which comments are passed over, and that the code follows them.
-/

namespace Braceless

namespace Target

/-! ## Remarks -/

/-- What follows the quotes that close a text, from behind the quotes that open it. -/
def afterQuotes : List Char → Option (List Char)
  | [] => none
  | '\\' :: _ :: cs => afterQuotes cs
  | '\'' :: '\'' :: '\'' :: cs => some cs
  | _ :: cs => afterQuotes cs

/-- What follows a text in triple quotes, if one stands in front and is closed. -/
def afterLiteral : List Char → Option (List Char)
  | '\'' :: '\'' :: '\'' :: cs => afterQuotes cs
  | _ => none

/-- A text that is passed over: every line of it starts with the mark of a comment, or it is
one text in triple quotes from its first character to its last. -/
def IsRemark (cs : List Char) : Prop :=
  (∀ line ∈ cs.splitOn '\n', line.head? = some '#') ∨ afterLiteral cs = some []

instance : DecidablePred IsRemark :=
  fun _ => inferInstanceAs (Decidable (_ ∨ _))

/-- Blank lines, comments and texts in triple quotes in front of `rest`. -/
inductive Remarks : List Char → List Char → Prop where
  | done {rest : List Char} : Remarks rest rest
  | blank {cs rest : List Char} (h : Remarks cs rest) : Remarks ('\n' :: cs) rest
  | comment {line cs rest : List Char} (hLine : '\n' ∉ line) (h : Remarks cs rest) :
      Remarks ('#' :: (line ++ '\n' :: cs)) rest
  | literal {cs after rest : List Char} (hLiteral : afterLiteral cs = some ('\n' :: after))
      (h : Remarks after rest) : Remarks cs rest

/-! ## Texts in triple quotes -/

/-- A character that takes no other one and does not close the text is passed over. -/
theorem afterQuotes_cons {c : Char} {cs : List Char} (hEscape : c ≠ '\\' ∨ cs = [])
    (hQuotes : c ≠ '\'' ∨ ¬ ['\'', '\''] <+: cs) : afterQuotes (c :: cs) = afterQuotes cs := by
  rw [afterQuotes]
  · rintro d ds rfl rfl
    simp at hEscape
  · rintro ds rfl rfl
    simp at hQuotes

/-- Nothing closes a text but three quotes. -/
theorem length_of_afterQuotes {cs after : List Char} (h : afterQuotes cs = some after) :
    3 ≤ cs.length := by
  fun_induction afterQuotes cs with
  | case1 => cases h
  | case2 c cs ih => exact Nat.le_add_right_of_le (Nat.le_add_right_of_le (ih h))
  | case3 cs => exact Nat.le_add_left 3 cs.length
  | case4 c cs _ _ ih => exact Nat.le_add_right_of_le (ih h)

/-- What closes a text closes it whatever follows. -/
theorem afterQuotes_append {cs after : List Char} (ds : List Char)
    (h : afterQuotes cs = some after) : afterQuotes (cs ++ ds) = some (after ++ ds) := by
  fun_induction afterQuotes cs with
  | case1 => cases h
  | case2 c cs ih => exact ih h
  | case3 cs =>
      obtain rfl := Option.some.inj h
      rfl
  | case4 c cs hEscape hQuotes ih =>
      match cs, length_of_afterQuotes h with
      | d :: e :: cs, _ =>
          rw [List.cons_append, afterQuotes_cons]
          · exact ih h
          · exact .inl fun hc => hEscape d (e :: cs) hc rfl
          · refine not_or_of_imp ?_
            rintro rfl ⟨tail, hTail⟩
            simp only [List.cons_append, List.nil_append, List.cons.injEq] at hTail
            obtain ⟨rfl, rfl, _⟩ := hTail
            exact hQuotes cs rfl rfl

theorem afterLiteral_append {cs after : List Char} (ds : List Char)
    (h : afterLiteral cs = some after) : afterLiteral (cs ++ ds) = some (after ++ ds) := by
  unfold afterLiteral at h
  split at h
  · exact afterQuotes_append ds h
  · cases h

theorem hasTripleQuote_tail {c : Char} {cs : List Char} (h : hasTripleQuote (c :: cs) = false) :
    hasTripleQuote cs = false := by
  unfold hasTripleQuote at h
  split at h
  · next hNil => cases hNil
  · cases h
  · next hCons =>
      obtain ⟨rfl, rfl⟩ := List.cons.inj hCons
      exact h

/-! ## The end of a text -/

/-- The end of a text is such that three quotes behind it do not close it where they end: its
last backslash takes the first of them, or its last character is a quote and no backslash
takes that. -/
def endsOpen (cs : List Char) : Bool :=
  EndsEscaping cs || (cs.getLast? == some '\'' && !EndsEscaping cs.dropLast)

/-- A backslash takes the next character along, whatever that is. -/
theorem endsEscaping_pair (c : Char) (cs : List Char) :
    EndsEscaping ('\\' :: c :: cs) ↔ EndsEscaping cs := by
  induction cs using List.reverseRecOn with
  | nil =>
      have hFirst : EndsEscaping ['\\'] := by decide
      refine iff_of_false (fun hBoth => ?_) not_endsEscaping_nil
      exact ((endsEscaping_concat ['\\'] c).mp hBoth).2 hFirst
  | append_singleton cs d ih =>
      rw [← List.cons_append, ← List.cons_append, endsEscaping_concat, endsEscaping_concat, ih]

theorem endsEscaping_cons {c : Char} (hc : c ≠ '\\') (cs : List Char) :
    EndsEscaping (c :: cs) ↔ EndsEscaping cs := by
  induction cs using List.reverseRecOn with
  | nil =>
      refine iff_of_false (fun hOnly => ?_) not_endsEscaping_nil
      exact hc ((endsEscaping_concat [] c).mp hOnly).1
  | append_singleton cs d ih =>
      rw [← List.cons_append, endsEscaping_concat, endsEscaping_concat, ih]

theorem endsOpen_concat (cs : List Char) (c : Char) :
    endsOpen (cs ++ [c]) = (!decide (EndsEscaping cs) && (c == '\\' || c == '\'')) := by
  rw [endsOpen, List.getLast?_concat, List.dropLast_concat, Bool.eq_iff_iff]
  by_cases hEscaping : EndsEscaping cs
  · simp [endsEscaping_concat, hEscaping]
  · simp [endsEscaping_concat, hEscaping]

theorem endsOpen_pair (c : Char) (cs : List Char) :
    endsOpen ('\\' :: c :: cs) = endsOpen cs := by
  induction cs using List.reverseRecOn with
  | nil => exact endsOpen_concat ['\\'] c
  | append_singleton cs d _ =>
      rw [← List.cons_append, ← List.cons_append, endsOpen_concat, endsOpen_concat,
        decide_eq_decide.mpr (endsEscaping_pair c cs)]

theorem endsOpen_cons {c : Char} (hc : c ≠ '\\') {cs : List Char} (hne : cs ≠ []) :
    endsOpen (c :: cs) = endsOpen cs := by
  induction cs using List.reverseRecOn with
  | nil => exact absurd rfl hne
  | append_singleton cs d _ =>
      rw [← List.cons_append, endsOpen_concat, endsOpen_concat,
        decide_eq_decide.mpr (endsEscaping_cons hc cs)]

/-- In a text without three quotes in a row, only a single quote at its end makes three with
the ones behind it. -/
theorem quotes_apart {c d : Char} {cs : List Char} (h : hasTripleQuote (c :: d :: cs) = false)
    (hEnd : ¬ (c = '\'' ∧ d = '\'' ∧ cs = [])) :
    c ≠ '\'' ∨ ¬ ['\'', '\''] <+: d :: cs ++ ['\'', '\'', '\''] := by
  refine not_or_of_imp ?_
  rintro rfl ⟨tail, hTail⟩
  cases cs with
  | nil =>
      simp only [List.cons_append, List.nil_append, List.cons.injEq] at hTail
      exact hEnd ⟨rfl, hTail.1.symm, rfl⟩
  | cons e cs =>
      simp only [List.cons_append, List.nil_append, List.cons.injEq] at hTail
      obtain ⟨rfl, rfl, _⟩ := hTail
      cases h

/-- The three quotes behind a text without three quotes in a row close it where they end,
unless its end is open. -/
theorem afterQuotes_append_quotes {cs : List Char} (h : hasTripleQuote cs = false) :
    afterQuotes (cs ++ ['\'', '\'', '\'']) = some [] ↔ endsOpen cs = false := by
  fun_induction afterQuotes cs with
  | case1 => exact iff_of_true rfl rfl
  | case2 c cs ih =>
      rw [endsOpen_pair]
      exact ih (hasTripleQuote_tail (hasTripleQuote_tail h))
  | case3 cs => cases h
  | case4 c cs hEscape _ ih =>
      cases cs with
      | nil =>
          -- The last character of the text meets the quotes.
          by_cases hBackslash : c = '\\'
          · subst hBackslash
            exact iff_of_false (by decide) (by decide)
          by_cases hQuote : c = '\''
          · subst hQuote
            exact iff_of_false (by decide) (by decide)
          have hOpen := endsOpen_concat [] c
          rw [beq_eq_false_iff_ne.mpr hBackslash, beq_eq_false_iff_ne.mpr hQuote] at hOpen
          rw [List.cons_append, afterQuotes_cons (.inl hBackslash) (.inl hQuote)]
          exact iff_of_true rfl hOpen
      | cons d cs =>
          have hBackslash : c ≠ '\\' := fun hc => hEscape d cs hc rfl
          rw [endsOpen_cons hBackslash (List.cons_ne_nil d cs)]
          by_cases hEnd : c = '\'' ∧ d = '\'' ∧ cs = []
          · obtain ⟨rfl, rfl, rfl⟩ := hEnd
            exact iff_of_false (by decide) (by decide)
          · rw [List.cons_append, afterQuotes_cons (.inl hBackslash) (quotes_apart h hEnd)]
            exact ih (hasTripleQuote_tail h)

/-! ## Comments -/

/-- A closed block comment that is put into quotes, though they do not close it at its end. -/
def runsOn (cs : List Char) : Bool :=
  (blockBody? cs).any fun body => !hasTripleQuote body && endsOpen body

theorem isRemark_of_lines {lines : List (List Char)} (hne : lines ≠ [])
    (h : ∀ line ∈ lines, '\n' ∉ line ∧ line.head? = some '#') :
    IsRemark (['\n'].intercalate lines) := by
  refine .inl ?_
  rw [List.splitOn_intercalate '\n' (fun line hl => (h line hl).1) hne]
  exact fun line hl => (h line hl).2

theorem notMem_textLines (cs : List Char) : ∀ line ∈ textLines cs, '\n' ∉ line := by
  fun_induction textLines cs with
  | case1 => exact nofun
  | case2 cs ih => simpa using ih
  | case3 cs ih => simpa using ih
  | case4 c cs hFeed _ ih =>
      have hc : '\n' ≠ c := fun h => hFeed h.symm
      cases hLines : textLines cs with
      | nil => simp [consFirst, hc]
      | cons line lines =>
          rw [hLines] at ih
          simpa [consFirst, hc] using ih

theorem textLines_ne_nil {cs : List Char} (hne : cs ≠ []) : textLines cs ≠ [] := by
  fun_cases textLines cs with
  | case1 => exact absurd rfl hne
  | case2 cs => exact List.cons_ne_nil _ _
  | case3 cs => exact List.cons_ne_nil _ _
  | case4 c cs _ _ =>
      unfold consFirst
      split <;> exact List.cons_ne_nil _ _

/-- A line comment for each line of a text is passed over. -/
theorem isRemark_commentLines {cs : List Char} (hne : cs ≠ []) :
    IsRemark (commentLines cs).toList := by
  rw [commentLines, String.toList_intercalate, List.map_map]
  refine isRemark_of_lines (by simpa using textLines_ne_nil hne) ?_
  simpa using notMem_textLines cs

theorem exists_mem_splitOn {c : Char} (hc : c ≠ '\n') (cs : List Char) :
    ∃ line ∈ (c :: cs).splitOn '\n', line.head? = some c := by
  rw [List.splitOn_cons_eq_if_modifyHead, if_neg (by simpa using hc)]
  cases hLines : cs.splitOn '\n' with
  | nil => exact absurd hLines (List.splitOn_ne_nil _ _)
  | cons line lines => exact ⟨c :: line, List.mem_cons_self, rfl⟩

/-- A text between triple quotes is passed over exactly if the ones behind it close it. -/
theorem isRemark_quoted_iff {body : List Char} (h : hasTripleQuote body = false) :
    IsRemark ("'''" ++ String.ofList body ++ "'''").toList ↔ endsOpen body = false := by
  have hText : ("'''" ++ String.ofList body ++ "'''").toList =
      '\'' :: '\'' :: '\'' :: (body ++ ['\'', '\'', '\'']) := by simp
  rw [hText, ← afterQuotes_append_quotes h]
  refine or_iff_right fun hLines => ?_
  obtain ⟨line, hMem, hHead⟩ := exists_mem_splitOn (c := '\'') (by decide)
    ('\'' :: '\'' :: (body ++ ['\'', '\'', '\'']))
  have hMark := hLines line hMem
  rw [hHead] at hMark
  exact absurd hMark (by decide)

/-- Which comments are passed over. -/
theorem isRemark_comment_iff {text : String} (hne : text.toList ≠ [])
    (hLine : ∀ cs, text.toList = '/' :: '/' :: cs → '\n' ∉ cs) :
    IsRemark (comment text).toList ↔ runsOn text.toList = false := by
  unfold comment
  split
  · next cs hText =>
      refine iff_of_true ?_ ?_
      · have hOne : IsRemark (['\n'].intercalate ['#' :: cs]) :=
          isRemark_of_lines (List.cons_ne_nil _ _) (by simpa using hLine cs hText)
        simpa using hOne
      · rw [hText]
        rfl
  · next hText =>
      rw [runsOn]
      split
      · next body hBody =>
          rw [hBody]
          split
          · next hTriple =>
              refine iff_of_true (isRemark_commentLines hne) ?_
              simp [hTriple]
          · next hTriple =>
              rw [isRemark_quoted_iff (Bool.eq_false_iff.mpr hTriple)]
              simp [hTriple]
      · next hBody =>
          rw [hBody]
          exact iff_of_true (isRemark_commentLines hne) rfl

/-! ## Pages -/

/-- A remark on a page is passed over. -/
theorem IsRemark.remarks {cs after rest : List Char} (h : IsRemark cs)
    (hAfter : Remarks after rest) : Remarks (cs ++ '\n' :: after) rest := by
  rcases h with hLines | hLiteral
  · -- By the number of lines: the first one is passed over, and the others are a remark.
    induction hLength : cs.length using Nat.strongRecOn generalizing cs with
    | ind n ih =>
        by_cases hFeed : '\n' ∈ cs
        · obtain ⟨line, others, rfl, hLine⟩ := List.eq_append_cons_of_mem hFeed
          rw [List.splitOn_append_cons_self_of_not_mem hLine, List.forall_mem_cons] at hLines
          obtain ⟨tail, rfl⟩ := List.head?_eq_some_iff.mp hLines.1
          have hOthers := ih others.length (by simp [← hLength]; omega) hLines.2 rfl
          have hTail : '\n' ∉ tail := fun h => hLine (List.mem_cons_of_mem _ h)
          simpa using Remarks.comment hTail hOthers
        · rw [List.splitOn_eq_singleton hFeed, List.forall_mem_singleton] at hLines
          obtain ⟨tail, rfl⟩ := List.head?_eq_some_iff.mp hLines
          exact .comment (fun h => hFeed (List.mem_cons_of_mem _ h)) hAfter
  · exact .literal (afterLiteral_append ('\n' :: after) hLiteral) hAfter

/-- A line that is passed over. -/
def Line.IsRemark (l : Line) : Prop :=
  l.level = 0 ∧ (l.text = "" ∨ Target.IsRemark l.text.toList)

/-- Remarks and blank lines on top of a page are passed over. -/
theorem remarks_page {width : Nat} {ls code : List Line} (hne : code ≠ [])
    (h : ∀ l ∈ ls, l.IsRemark) :
    Remarks (page width (ls ++ code)).toList (page width code).toList := by
  induction ls with
  | nil => exact .done
  | cons l ls ih =>
      rw [List.forall_mem_cons] at h
      obtain ⟨⟨hLevel, hText⟩, hMore⟩ := h
      have hRender : (l.render width).toList = l.text.toList := by
        simp [Line.render, hLevel]
      rw [List.cons_append, toList_page_cons width l (by simp [hne]), hRender]
      rcases hText with hBlank | hRemark
      · rw [hBlank]
        exact .blank (ih hMore)
      · exact hRemark.remarks (ih hMore)

end Target

theorem isRemark_headerLines (layout : Layout) :
    ∀ l ∈ headerLines layout, l.IsRemark := by
  have hBanner : Target.IsRemark banner.toList := by decide
  unfold headerLines
  split
  · simp [Target.Line.IsRemark, hBanner]
  · exact nofun

/-- The comment section is passed over if all its comments are. -/
theorem isRemark_commentSection {tokens : List Token}
    (h : ∀ t ∈ tokens, t.kind = .comment → Target.IsRemark (Target.comment t.text).toList) :
    ∀ l ∈ commentSection tokens, l.IsRemark := by
  have hComments : ∀ l ∈ (tokens.filter (·.kind == .comment)).map
      (fun t => Target.Line.mk 0 (Target.comment t.text)), l.IsRemark := by
    simp only [List.forall_mem_map, List.mem_filter, beq_iff_eq]
    exact fun t ht => ⟨rfl, .inr (h t ht.1 ht.2)⟩
  unfold commentSection
  split
  · exact nofun
  · intro l hl
    rcases List.mem_append.mp hl with hComment | hBlank
    · exact hComments l hComment
    · obtain rfl := List.mem_singleton.mp hBlank
      exact ⟨rfl, .inl rfl⟩

/-- Behind comments that are passed over, the code of a program follows. -/
theorem remarks_render (p : Program) {tokens : List Token} (layout : Layout)
    (h : ∀ t ∈ tokens, t.kind = .comment → Target.IsRemark (Target.comment t.text).toList) :
    Target.Remarks (p.render tokens layout).toList
      (Target.page layout.indent (Target.linesOf 0 p.lower)).toList := by
  have hCode : Target.linesOf 0 p.lower ≠ [] := by
    rw [p.linesOf_lower]
    exact Target.blockLines_ne_nil 0 _
  refine Target.remarks_page hCode fun l hl => ?_
  rcases List.mem_append.mp hl with hHeader | hComment
  · exact isRemark_headerLines layout l hHeader
  · exact isRemark_commentSection h l hComment

/-! ## Comments of a text -/

theorem notMem_lineComment {c : Char} {cs ds : List Char}
    (h : c :: cs.take (extent c cs).more = '/' :: '/' :: ds) : '\n' ∉ ds := by
  obtain ⟨rfl, hTake⟩ := List.cons.inj h
  have hHead : cs.head? = some '/' := by
    obtain ⟨rest, hRest⟩ := hTake ▸ List.take_prefix (extent '/' cs).more cs
    rw [← hRest]
    rfl
  have hMore : (extent '/' cs).more = runLength (· != '\n') cs := by
    rw [extent, if_pos ⟨rfl, hHead⟩]
  have hRun : '\n' ∉ cs.take (runLength (· != '\n') cs) := notMem_take_run rfl cs
  rw [← hMore, hTake] at hRun
  exact fun hMem => hRun (List.mem_cons_of_mem _ hMem)

/-- A comment has characters, and a line comment no line feed. -/
theorem comment_of_mem_place {cs : List Char} {pos : Position} {t : Token}
    (h : t ∈ (place pos (pieces cs)).tokens) (hKind : t.kind = .comment) :
    t.text.toList ≠ [] ∧ ∀ ds, t.text.toList = '/' :: '/' :: ds → '\n' ∉ ds := by
  fun_induction pieces cs generalizing pos with
  | case1 =>
      obtain rfl := List.mem_singleton.mp h
      cases hKind
  | case2 c cs _ ih => exact ih h
  | case3 c cs _ ih =>
      rcases List.mem_cons.mp h with rfl | hRest
      · have hText : ((Lexeme.front c cs).token pos).text.toList =
            c :: cs.take (extent c cs).more := String.toList_ofList
        rw [hText]
        exact ⟨List.cons_ne_nil _ _, fun ds => notMem_lineComment⟩
      · exact ih hRest

/-- **Which comments stay apart from the code**: in the output for a text, a comment is passed
over by the target from its first character to its last exactly if it does not run on.  If no
comment runs on, the target passes over all of them and comes to the code of the program, for
every layout. -/
theorem isRemark_comment_iff_runsOn (source : String) :
    (∀ t ∈ (lex source).tokens, t.kind = .comment →
      (Target.IsRemark (Target.comment t.text).toList ↔
        Target.runsOn t.text.toList = false)) ∧
    ((∀ t ∈ (lex source).tokens, t.kind = .comment → Target.runsOn t.text.toList = false) →
      ∀ (p : Program) (layout : Layout),
        Target.Remarks (p.render (lex source).tokens layout).toList
          (Target.page layout.indent (Target.linesOf 0 p.lower)).toList) := by
  have hComment : ∀ t ∈ (lex source).tokens, t.kind = .comment →
      (Target.IsRemark (Target.comment t.text).toList ↔
        Target.runsOn t.text.toList = false) := by
    intro t ht hKind
    obtain ⟨hne, hLine⟩ := comment_of_mem_place ht hKind
    exact Target.isRemark_comment_iff hne hLine
  refine ⟨hComment, fun hNone p layout => remarks_render p layout fun t ht hKind => ?_⟩
  exact (hComment t ht hKind).mpr (hNone t ht hKind)

/-- A line comment, and a block comment that starts with a quote and ends with one that a
backslash takes. -/
def quotedSource : String :=
  "// it's\n/*'tis a \\'*/int x;"

theorem remarks_quotedSource :
    (⟨.comment, "/*'tis a \\'*/", ⟨2, 1⟩⟩ : Token) ∈ (lex quotedSource).tokens ∧
      Target.IsRemark (Target.comment "/*'tis a \\'*/").toList ∧
      (∀ t ∈ (lex quotedSource).tokens, t.kind = .comment →
        Target.runsOn t.text.toList = false) ∧
      Target.Remarks "# it's\n''''tis a \\''''\n\nx = 0".toList "x = 0".toList := by
  have hFacts : (⟨.comment, "/*'tis a \\'*/", ⟨2, 1⟩⟩ : Token) ∈ (lex quotedSource).tokens ∧
      ((lex quotedSource).tokens.all fun t =>
        t.kind != .comment || !Target.runsOn t.text.toList) = true ∧
      (parse (lex quotedSource).tokens).program.render (lex quotedSource).tokens ⟨4, false⟩ =
        "# it's\n''''tis a \\''''\n\nx = 0" ∧
      Target.page 4 (Target.linesOf 0 (parse (lex quotedSource).tokens).program.lower) =
        "x = 0" := by
    decide +kernel
  obtain ⟨hMem, hAll, hPage, hCode⟩ := hFacts
  have hNone : ∀ t ∈ (lex quotedSource).tokens, t.kind = .comment →
      Target.runsOn t.text.toList = false := by
    intro t ht hKind
    simpa [hKind] using List.all_eq_true.mp hAll t ht
  have hApart := isRemark_comment_iff_runsOn quotedSource
  have hRemarks := hApart.2 hNone (parse (lex quotedSource).tokens).program ⟨4, false⟩
  rw [hPage, hCode] at hRemarks
  exact ⟨hMem, (hApart.1 _ hMem rfl).mpr (hNone _ hMem rfl), hNone, hRemarks⟩

/-- A comment that runs on: the quote in it is one of the three that close the text, and the
last quote of the output opens another text in front of the code. -/
theorem not_isRemark_quoteComment :
    (⟨.comment, "/*'*/", ⟨1, 1⟩⟩ : Token) ∈ (lex "/*'*/int x;").tokens ∧
      ¬ Target.IsRemark (Target.comment "/*'*/").toList ∧
      Target.afterLiteral ((parse (lex "/*'*/int x;").tokens).program.render
        (lex "/*'*/int x;").tokens ⟨4, false⟩).toList = some "'\n\nx = 0".toList := by
  decide +kernel

end Braceless

import Braceless.Proofs.Target.Execution
import Braceless.Proofs.Target.Outline

/-!
# Reading the commands of a page

How the target reads a page of statements, as far as they are executed here.  Blank lines
and lines with a comment only are left out first, then blocks are read by indentation, and
then each line by its own form: an assignment, a call of `print` with or without an end
option, or a header with its condition.  A line of another form cannot be read.

Which words a page may assign to is a rule of the target, and does not depend on the words that
the translation keeps away from: the keywords, the two functions that a page calls, and
`__debug__`, which is the name of a constant.  Three things are not modelled here.  Literals are
taken as they stand, whether or not the target accepts their digits and escapes.  Only a line
feed ends a line.  And there is no limit to the size of a page: to the depth of its blocks and
brackets, and to the digits of a number.

## Main definitions

* `enclosed?`: what stands between two given ends of a text.
* `isVariable`, `isAssignable`: words that stand for a variable, and that can be assigned to.
* `readLine`, `condition?`: the forms of a line.
* `Outline.command?`, `readProgram`: the commands of an outline and of a page.

## Main results

* `readLine_assign`, `readLine_print`, `condition?_header`: lines are read as what they say.
* `readProgram_page`: the commands of outlines can be read from a page of their lines.
-/

namespace Braceless

namespace Target

/-! ## Ends of a text -/

/-- What stands between the given ends of a text. -/
def enclosed? (front back cs : List Char) : Option (List Char) :=
  let rest := cs.drop front.length
  if front.isPrefixOf cs && back.isSuffixOf rest then
    some (rest.take (rest.length - back.length))
  else none

theorem enclosed?_eq_some_iff {front back cs inner : List Char} :
    enclosed? front back cs = some inner ↔ cs = front ++ (inner ++ back) := by
  constructor
  · intro h
    unfold enclosed? at h
    dsimp only at h
    split at h
    · next hEnds =>
        rw [Bool.and_eq_true, List.isPrefixOf_iff_prefix, List.isSuffixOf_iff_suffix] at hEnds
        obtain ⟨⟨rest, rfl⟩, hBack⟩ := hEnds
        rw [List.drop_left] at h hBack
        obtain ⟨middle, rfl⟩ := hBack
        simp only [List.length_append, Nat.add_sub_cancel, List.take_left,
          Option.some.injEq] at h
        rw [h]
    · exact nomatch h
  · rintro rfl
    have hFront : front.isPrefixOf (front ++ (inner ++ back)) = true :=
      List.isPrefixOf_iff_prefix.mpr (List.prefix_append _ _)
    have hBack : back.isSuffixOf (inner ++ back) = true :=
      List.isSuffixOf_iff_suffix.mpr (List.suffix_append _ _)
    simp [enclosed?, hFront, hBack]

/-! ## Lines -/

/-- The words that can stand for a variable. -/
def isVariable (word : List Char) : Bool :=
  word.head?.any isWordStart && !fixedWords.contains (String.ofList word)

/-- The name of a constant of the target.  It is no keyword and can be read as any other name,
but the target refuses a page that assigns to it. -/
def debugFlag : String :=
  "__debug__"

/-- The words that a value may be assigned to. -/
def isAssignable (word : List Char) : Bool :=
  isVariable word && String.ofList word != debugFlag

/-- An assignment: a name, an equals sign between blanks, and an expression. -/
def readAssign (cs : List Char) : Option Command :=
  match cs.dropWhile isWordPart with
  | ' ' :: '=' :: ' ' :: value =>
    if isAssignable (cs.takeWhile isWordPart) then
      (read (String.ofList value)).map (.assign (String.ofList (cs.takeWhile isWordPart)))
    else none
  | _ => none

/-- The option that keeps a call of `print` from ending the line. -/
def endOption : List Char :=
  "end=\"\"".toList

/-- The arguments of a call of `print`. -/
def readArguments (cs : List Char) : Option Command :=
  if cs = [] then some (.print none true)
  else if cs = endOption then some (.print none false)
  else
    match enclosed? [] (", ".toList ++ endOption) cs with
    | some argument => (read (String.ofList argument)).map fun t => .print (some t) false
    | none => (read (String.ofList cs)).map fun t => .print (some t) true

/-- A line that is no header. -/
def readLine (text : String) : Option Command :=
  if firstWord text = "print" then
    (enclosed? "print(".toList [')'] text.toList).bind readArguments
  else readAssign text.toList

/-- The condition in a header that starts with the given text. -/
def condition? (lead header : String) : Option Tree :=
  (enclosed? lead.toList [':'] header.toList).bind fun cs => read (String.ofList cs)

/-! ## Outlines and pages -/

mutual

/-- The command of an outline. -/
def Outline.command? : Outline → Option Command
  | .line text => readLine text
  | .loop header body =>
    match condition? "while " header, commands? body with
    | some condition, some body => some (.whileLoop condition body)
    | _, _ => none
  | .choice header body further =>
    match condition? "if " header, commands? body, further.commands? with
    | some condition, some body, some orElse => some (.ifElse condition body orElse)
    | _, _, _ => none

/-- The commands of the further branches of a choice. -/
def Branches.commands? : Branches → Option (List Command)
  | .none => some []
  | .elif header body further =>
    match condition? "elif " header, commands? body, further.commands? with
    | some condition, some body, some orElse => some [.ifElse condition body orElse]
    | _, _, _ => none
  | .otherwise body => commands? body

/-- The commands of a run of outlines. -/
def commands? : List Outline → Option (List Command)
  | [] => some []
  | o :: os =>
    match o.command?, commands? os with
    | some c, some cs => some (c :: cs)
    | _, _ => none

end

/-! What cannot be read in a part cannot be read in the whole. -/

theorem command?_loop_of_none (header : String) {body : List Outline}
    (h : commands? body = none) : (Outline.loop header body).command? = none := by
  rw [Outline.command?, h]
  cases condition? "while " header with
  | none => rfl
  | some t => rfl

theorem command?_choice_of_none (header : String) {body : List Outline}
    {further : Branches} (h : commands? body = none ∨ further.commands? = none) :
    (Outline.choice header body further).command? = none := by
  rw [Outline.command?]
  split
  · next hBody hFurther => simp [hBody, hFurther] at h
  · rfl

theorem commands?_elif_of_none (header : String) {body : List Outline}
    {further : Branches} (h : commands? body = none ∨ further.commands? = none) :
    (Branches.elif header body further).commands? = none := by
  rw [Branches.commands?]
  split
  · next hBody hFurther => simp [hBody, hFurther] at h
  · rfl

theorem commands?_cons_of_none {o : Outline} {os : List Outline}
    (h : o.command? = none ∨ commands? os = none) : commands? (o :: os) = none := by
  rw [commands?]
  split
  · next hFirst hRest => simp [hFirst, hRest] at h
  · rfl

/-- Whether a line is more than blanks and a comment. -/
def Line.isCode (l : Line) : Bool :=
  l.text.toList.head?.any (· != '#')

/-- The commands of a page. -/
def readProgram (text : String) : Option (List Command) :=
  (readLines ((pageLines text).filter Line.isCode)).bind commands?

/-! ## Lines are read as what they say -/

/-- No rule reads an expression from nothing. -/
theorem readFrom_nil (k : Nat) : readFrom k [] = none := by
  by_cases hk : 6 ≤ k
  · rw [readFrom, if_pos hk, factor]
  · have hNext := readFrom_nil (k + 1)
    have hOther : ¬ (k = 2 ∧ ([] : List Token).head? = some (.word "not")) := by
      rintro ⟨_, hHead⟩
      cases hHead
    rw [readFrom, if_neg hk, dif_neg hOther, hNext]
termination_by 6 - k

theorem ne_nil_of_read {text : String} {t : Tree} (h : read text = some t) :
    text.toList ≠ [] := by
  intro hNil
  rw [read, hNil, tokenize, Option.bind_some, readFrom_nil] at h
  cases h

theorem isVariable_of_isIdentifier {name : String} (hName : IsIdentifier name.toList)
    (hFree : name ∉ fixedWords) : isVariable name.toList = true := by
  obtain ⟨d, ds, hChars, hStart, _⟩ := hName
  have hFixed : fixedWords.contains name = false :=
    Bool.eq_false_iff.mpr fun h => hFree (List.contains_iff_mem.mp h)
  rw [isVariable, String.ofList_toList, hFixed, hChars]
  simp [hStart]

/-- A name that is no keyword can be assigned to, unless it is that of the constant. -/
theorem isAssignable_of_isIdentifier {name : String} (hName : IsIdentifier name.toList)
    (hFree : name ∉ fixedWords) : isAssignable name.toList = (name != debugFlag) := by
  rw [isAssignable, isVariable_of_isIdentifier hName hFree, Bool.true_and,
    String.ofList_toList]

/-- **An assignment can be read** if its value can, unless it is to the constant. -/
theorem readLine_assign {name : String} (text : String) (hName : IsIdentifier name.toList)
    (hFree : name ∉ fixedWords) :
    readLine (name ++ " = " ++ text) =
      if name = debugFlag then none else (read text).map (.assign name) := by
  have hWord := isWordPart_of_isIdentifier hName
  have hChars : (name ++ " = " ++ text).toList =
      name.toList ++ ' ' :: ('=' :: ' ' :: text.toList) := by
    rw [String.toList_append, String.toList_append, List.append_assoc]
    rfl
  have hFirst : firstWord (name ++ " = " ++ text) ≠ "print" := by
    rw [firstWord_eq hChars hWord rfl, String.ofList_toList]
    rintro rfl
    exact hFree (by decide)
  have hTake : (name.toList ++ ' ' :: ('=' :: ' ' :: text.toList)).takeWhile isWordPart =
      name.toList := by
    rw [List.takeWhile_append_of_pos hWord, List.takeWhile_cons_of_neg (by decide),
      List.append_nil]
  have hDrop : (name.toList ++ ' ' :: ('=' :: ' ' :: text.toList)).dropWhile isWordPart =
      ' ' :: '=' :: ' ' :: text.toList := by
    rw [List.dropWhile_append_of_pos hWord, List.dropWhile_cons_of_neg (by decide)]
  rw [readLine, if_neg hFirst, readAssign, hChars, hTake, hDrop]
  rw [isAssignable_of_isIdentifier hName hFree, String.ofList_toList]
  by_cases hDebug : name = debugFlag
  · simp [hDebug]
  · simp [hDebug]

theorem readArguments_value {text : String} {t : Tree} (hRead : read text = some t)
    (hQuote : '"' ∉ text.toList) : readArguments text.toList = some (.print (some t) true) := by
  have hEnd : text.toList ≠ endOption := by
    intro h
    rw [h] at hQuote
    exact hQuote (by decide)
  have hOption : enclosed? [] (", ".toList ++ endOption) text.toList = none := by
    cases hEnclosed : enclosed? [] (", ".toList ++ endOption) text.toList with
    | none => rfl
    | some inner =>
        rw [enclosed?_eq_some_iff.mp hEnclosed] at hQuote
        exact absurd (by simp [endOption]) hQuote
  rw [readArguments, if_neg (ne_nil_of_read hRead), if_neg hEnd, hOption]
  simp [hRead]

theorem readArguments_option {text : String} {t : Tree} (hRead : read text = some t) :
    readArguments (text.toList ++ (", ".toList ++ endOption)) =
      some (.print (some t) false) := by
  have hne := ne_nil_of_read hRead
  have hOption : enclosed? [] (", ".toList ++ endOption)
      (text.toList ++ (", ".toList ++ endOption)) = some text.toList :=
    enclosed?_eq_some_iff.mpr rfl
  have hEnd : text.toList ++ (", ".toList ++ endOption) ≠ endOption := by
    intro h
    have hLength := congrArg List.length h
    simp only [List.length_append] at hLength
    have hTwo : ", ".toList.length = 2 := rfl
    omega
  rw [readArguments, if_neg (by simp [hne]), if_neg hEnd, hOption]
  simp [hRead]

theorem readLine_call {text : String} {inner : List Char}
    (hChars : text.toList = "print(".toList ++ (inner ++ [')'])) :
    readLine text = readArguments inner := by
  have hWord : text.toList = "print".toList ++ '(' :: (inner ++ [')']) := hChars
  have hFirst : firstWord text = "print" := firstWord_eq hWord (List.all_eq_true.mp rfl) rfl
  rw [readLine, if_pos hFirst, enclosed?_eq_some_iff.mpr hChars]
  rfl

/-- A call of `print` is read as one, if there is no quote in its argument. -/
theorem readLine_print {e : Expr} {t : Tree} (hRead : read e.text = some t)
    (hQuote : '"' ∉ e.text.toList) (newline : Bool) :
    readLine (printCall (some e) newline) = some (.print (some t) newline) := by
  cases newline with
  | true =>
      have hChars : (printCall (some e) true).toList =
          "print(".toList ++ (e.text.toList ++ [')']) := by
        simp [printCall]
      rw [readLine_call hChars, readArguments_value hRead hQuote]
  | false =>
      have hne : e.text.isEmpty = false := by
        simpa using ne_nil_of_read hRead
      have hChars : (printCall (some e) false).toList =
          "print(".toList ++ (e.text.toList ++ (", ".toList ++ endOption) ++ [')']) := by
        simp [printCall, hne, endOption]
      rw [readLine_call hChars, readArguments_option hRead]

theorem readLine_printNothing (newline : Bool) :
    readLine (printCall none newline) = some (.print none newline) := by
  cases newline <;> rfl

theorem condition?_header (lead text : String) :
    condition? lead (lead ++ text ++ ":") = read text := by
  have hEnclosed : enclosed? lead.toList [':'] (lead ++ text ++ ":").toList =
      some text.toList := by
    rw [enclosed?_eq_some_iff, String.toList_append, String.toList_append, List.append_assoc]
    rfl
  rw [condition?, hEnclosed]
  simp

/-! ## Pages are read as what is written on them -/

theorem isCode_append {level : Nat} {front : String}
    (h : (Line.mk level front).isCode = true) (text : String) :
    (Line.mk level (front ++ text)).isCode = true := by
  unfold Line.isCode at h ⊢
  rw [String.toList_append]
  cases hFront : front.toList with
  | nil =>
      rw [hFront] at h
      exact nomatch h
  | cons c cs =>
      rw [hFront] at h
      exact h

theorem isCode_pass (level : Nat) : (Line.mk level "pass").isCode = true := by
  simp [Line.isCode]

theorem isCode_else (level : Nat) : (Line.mk level "else:").isCode = true := by
  simp [Line.isCode]

/-- A line that starts with a name is more than a comment. -/
theorem isCode_of_isIdentifier {name : String} (h : IsIdentifier name.toList) (level : Nat) :
    (Line.mk level name).isCode = true := by
  obtain ⟨c, cs, hChars, hStart, _⟩ := h
  have hc : c ≠ '#' := by
    rintro rfl
    exact absurd hStart (by decide)
  simp [Line.isCode, hChars, hc]

theorem isCode_printCall (argument : Option Expr) (newline : Bool) (level : Nat) :
    (Line.mk level (printCall argument newline)).isCode = true := by
  have hLead : (Line.mk level "print(").isCode = true := by simp [Line.isCode]
  unfold printCall
  dsimp only
  split
  · exact isCode_append (isCode_append hLead _) _
  · split
    · simp [Line.isCode]
    · exact isCode_append (isCode_append hLead _) _

theorem isCode_of_block {level : Nat} {header : String} {ls : List Line}
    (hHeader : (Line.mk level header).isCode = true) (hls : ∀ l ∈ ls, l.isCode = true) :
    ∀ l ∈ ⟨level, header⟩ :: orPassLine (level + 1) ls, l.isCode = true :=
  forall_mem_block hHeader (isCode_pass (level + 1)) hls

/-- **Pages are read as what is written on them**: lines of code, behind lines that hold none,
are read as the commands of their outlines, if these can be read. -/
theorem readProgram_page {width : Nat} (hWidth : 1 ≤ width) {front : List Line}
    {os : List Outline}
    (hFront : ∀ l ∈ front, '\n' ∉ l.text.toList ∧
      (Line.ofChars (l.render width).toList).isCode = false)
    (hProper : AllProper os) (hOutlines : ∀ l ∈ outlineLines 0 os, l.isCode = true) :
    readProgram (page width (front ++ blockLines 0 os)) = commands? os := by
  have hWritable := writable_of_mem_blockLines hProper 0
  have hOneLine : ∀ l ∈ front ++ blockLines 0 os, '\n' ∉ l.text.toList :=
    List.forall_mem_append.mpr
      ⟨fun l hl => (hFront l hl).1, fun l hl => (hWritable l hl).oneLine⟩
  have hne : front ++ blockLines 0 os ≠ [] := by
    simp [blockLines_ne_nil 0 os]
  have hLines : pageLines (page width (front ++ blockLines 0 os)) =
      front.map (fun l => Line.ofChars (l.render width).toList) ++
        widened width (blockLines 0 os) := by
    rw [pageLines_page hne hOneLine, List.map_append, map_ofChars_render width hWritable]
  have hCode : ∀ l ∈ blockLines 0 os, l.isCode = true :=
    forall_mem_orPassLine (isCode_pass 0) hOutlines
  have hFilter : (pageLines (page width (front ++ blockLines 0 os))).filter Line.isCode =
      widened width (blockLines 0 os) := by
    rw [hLines, List.filter_append, List.filter_eq_nil_iff.mpr, List.filter_eq_self.mpr,
      List.nil_append]
    · intro l hl
      obtain ⟨k, hk, rfl⟩ := List.mem_map.mp hl
      exact hCode k hk
    · intro l hl
      obtain ⟨k, hk, rfl⟩ := List.mem_map.mp hl
      exact Bool.eq_false_iff.mp (hFront k hk).2
  rw [readProgram, hFilter, readLines_blockLines hWidth hProper]
  rfl

end Target

end Braceless

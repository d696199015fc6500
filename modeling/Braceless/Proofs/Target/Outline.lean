import Braceless.Proofs.Target.Tokens
import Braceless.Target.Stmt
import Mathlib.Data.List.TakeWhile

/-!
# Pages read by indentation

What the target makes of a page before it looks into any line.  A line owns the longest run
of deeper lines that follows it; the lines of one block start in the same column; a line
that opens with one of a few words is a header and must own a block, and any other line must
own none.  An `elif` or `else` belongs to the `if` right before it in its block.  A block
that holds nothing but `pass` is empty, and `pass` may stand nowhere else.

Lines are read from the last to the first: a line then finds the blocks that it owns, and an
`if` finds its further branches, in front of what has been read already.

## Main definitions

* `Outline`, `Branches`: statements with all that indentation says about them.
* `Outline.lines`: the lines of an outline.
* `forest`: lines as trees, by indentation alone.
* `readLines`, `readPage`: the outlines of a page.

## Main results

* `forest_cons_append`: a line owns the longest run of deeper lines.
* `readLines_blockLines`: outlines can be read back from their lines, at any width.
* `pageLines_page`: the lines of a page are those that were written on it.
-/

namespace Braceless

namespace Target

/-! ## Outlines -/

mutual

/-- A statement of a page: a line by itself, or a header with its block.  The text of a
header is kept as it stands. -/
inductive Outline where
  | line (text : String)
  | loop (header : String) (body : List Outline)
  | choice (header : String) (body : List Outline) (further : Branches)

/-- The branches of a choice after its first one. -/
inductive Branches where
  | none
  | elif (header : String) (body : List Outline) (further : Branches)
  | otherwise (body : List Outline)

end

/-- The lines of a block: an empty one is written as `pass`. -/
def orPassLine (level : Nat) : List Line → List Line
  | [] => [⟨level, "pass"⟩]
  | ls => ls

mutual

/-- The lines of an outline, each with the number of blocks around it. -/
def Outline.lines (level : Nat) : Outline → List Line
  | .line text => [⟨level, text⟩]
  | .loop header body => ⟨level, header⟩ :: orPassLine (level + 1) (outlineLines (level + 1) body)
  | .choice header body further =>
    ⟨level, header⟩ ::
      (orPassLine (level + 1) (outlineLines (level + 1) body) ++ further.lines level)

/-- The lines of further branches. -/
def Branches.lines (level : Nat) : Branches → List Line
  | .none => []
  | .elif header body further =>
    ⟨level, header⟩ ::
      (orPassLine (level + 1) (outlineLines (level + 1) body) ++ further.lines level)
  | .otherwise body =>
    ⟨level, "else:"⟩ :: orPassLine (level + 1) (outlineLines (level + 1) body)

/-- The lines of a run of outlines. -/
def outlineLines (level : Nat) : List Outline → List Line
  | [] => []
  | o :: os => o.lines level ++ outlineLines level os

end

/-- The lines of a block, which is never without lines. -/
def blockLines (level : Nat) (body : List Outline) : List Line :=
  orPassLine level (outlineLines level body)

/-! ## Headers -/

/-- The word at the front of a text. -/
def firstWord (text : String) : String :=
  String.ofList (text.toList.takeWhile isWordPart)

/-- What a line can be to the lines around it. -/
inductive Heading where
  | plain
  | ifBranch
  | elifBranch
  | elseBranch
  | loop
deriving DecidableEq, Repr

/-- What a line is that starts with the given word. -/
def wordHeading : String → Heading
  | "if" => .ifBranch
  | "elif" => .elifBranch
  | "else" => .elseBranch
  | "for" => .loop
  | "while" => .loop
  | _ => .plain

/-- What its first word makes of a line. -/
def heading (text : String) : Heading :=
  wordHeading (firstWord text)

/-! ## Blocks by indentation -/

/-- A line with the trees of the lines that it owns. -/
inductive Node where
  | mk (line : Line) (owned : List Node)

/-- The line of a tree. -/
def Node.line : Node → Line
  | mk line _ => line

/-- A line in front of trees owns the first of them, as far as they are deeper. -/
def adopt (l : Line) (ns : List Node) : List Node :=
  .mk l (ns.takeWhile fun n => l.level < n.line.level) ::
    ns.dropWhile fun n => l.level < n.line.level

/-- Lines as trees. -/
def forest (ls : List Line) : List Node :=
  ls.foldr adopt []

/-! ## Reading trees -/

/-- The column of a block, which is that of its first line. -/
def blockColumn : List Node → Nat
  | [] => 0
  | n :: _ => n.line.level

/-- The statements of a block, from its trees and what was read in them: at least one, and
no branches that belong to nothing. -/
def closeBlock (ns : List Node) (inside : Option (Branches × List Outline)) :
    Option (List Outline) :=
  match ns with
  | [] => none
  | [.mk ⟨_, "pass"⟩ []] => some []
  | _ :: _ =>
    match inside with
    | some (.none, os) => some os
    | _ => none

/-- A line in front of what was read after it, where `owns` says if it owns lines and `body`
what they are.  What was read are the branches that come first, and then statements. -/
def attach (text : String) (owns : Bool) (body : Option (List Outline)) :
    Branches × List Outline → Option (Branches × List Outline)
  | (further, os) =>
    match heading text, body, further with
    | .plain, _, .none =>
      if owns || text == "pass" then none else some (.none, .line text :: os)
    | .ifBranch, some body, further => some (.none, .choice text body further :: os)
    | .elifBranch, some body, further => some (.elif text body further, os)
    | .elseBranch, some body, .none =>
      if text = "else:" then some (.otherwise body, os) else none
    | .loop, some body, .none => some (.none, .loop text body :: os)
    | _, _, _ => none

mutual

/-- A tree in front of what was read after it, in a block at `column`. -/
def Node.read (column : Nat) (after : Branches × List Outline) :
    Node → Option (Branches × List Outline)
  | .mk line owned =>
    if line.level = column then
      attach line.text (!owned.isEmpty)
        (closeBlock owned (readNodes (blockColumn owned) owned)) after
    else none

/-- The trees of a block at `column`. -/
def readNodes (column : Nat) : List Node → Option (Branches × List Outline)
  | [] => some (.none, [])
  | n :: ns =>
    match readNodes column ns with
    | some after => n.read column after
    | none => none

end

/-- The statements of a page, whose first block starts in column 0. -/
def readLines (ls : List Line) : Option (List Outline) :=
  if blockColumn (forest ls) = 0 then closeBlock (forest ls) (readNodes 0 (forest ls)) else none

/-! ## Pages -/

/-- A written line: its level is the number of blanks at its front. -/
def Line.ofChars (cs : List Char) : Line :=
  ⟨(cs.takeWhile (· == ' ')).length, String.ofList (cs.dropWhile (· == ' '))⟩

/-- The lines of a page. -/
def pageLines (text : String) : List Line :=
  (text.toList.splitOn '\n').map Line.ofChars

/-- The statements of a page. -/
def readPage (text : String) : Option (List Outline) :=
  readLines (pageLines text)

/-! ## What a line owns -/

theorem forest_cons (l : Line) (ls : List Line) : forest (l :: ls) = adopt l (forest ls) :=
  rfl

/-- The trees of lines stand in the lines. -/
theorem line_mem_of_mem_forest {ls : List Line} {n : Node} (h : n ∈ forest ls) :
    n.line ∈ ls := by
  induction ls with
  | nil => exact absurd h List.not_mem_nil
  | cons l ls ih =>
      rcases List.mem_cons.mp h with rfl | hRest
      · exact List.mem_cons_self
      · exact List.mem_cons_of_mem l (ih ((List.dropWhile_sublist _).mem hRest))

/-- The first tree of lines has the first line. -/
theorem line_eq_of_head_forest {ls : List Line} {n : Node} (h : n ∈ (forest ls).head?) :
    n.line ∈ ls.head? := by
  cases ls with
  | nil => exact nomatch h
  | cons l ls =>
      obtain rfl := Option.some.inj h
      rfl

/-- Deeper trees are all owned. -/
theorem adopt_of_deeper {l : Line} {ns : List Node} (h : ∀ n ∈ ns, l.level < n.line.level) :
    adopt l ns = [.mk l ns] := by
  have hDeeper : ∀ n ∈ ns, decide (l.level < n.line.level) = true := fun n hn =>
    decide_eq_true (h n hn)
  rw [adopt, List.takeWhile_eq_self_iff.mpr hDeeper, List.dropWhile_eq_nil_iff.mpr hDeeper]

/-- From the first tree on that is not deeper, nothing is owned. -/
theorem adopt_append {l : Line} {ns ms : List Node}
    (h : ∀ m ∈ ms.head?, m.line.level ≤ l.level) : adopt l (ns ++ ms) = adopt l ns ++ ms := by
  induction ns with
  | nil =>
      cases ms with
      | nil => rfl
      | cons m ms =>
          have hLevel : ¬ l.level < m.line.level := Nat.not_lt.mpr (h m rfl)
          simp [adopt, hLevel]
  | cons n ns ih =>
      by_cases hDeeper : l.level < n.line.level
      · simpa [adopt, hDeeper] using ih
      · simp [adopt, hDeeper]

/-- Deeper lines keep to themselves. -/
theorem forest_append {level : Nat} {ls rest : List Line} (hls : ∀ l ∈ ls, level < l.level)
    (hRest : ∀ l ∈ rest.head?, l.level ≤ level) :
    forest (ls ++ rest) = forest ls ++ forest rest := by
  induction ls with
  | nil => rfl
  | cons l ls ih =>
      have hLevel : level < l.level := hls l List.mem_cons_self
      have hHead : ∀ n ∈ (forest rest).head?, n.line.level ≤ l.level := fun n hn =>
        Nat.le_trans (hRest n.line (line_eq_of_head_forest hn)) (Nat.le_of_lt hLevel)
      rw [List.cons_append, forest_cons, forest_cons,
        ih fun k hk => hls k (List.mem_cons_of_mem l hk), adopt_append hHead]

/-- **A line owns the longest run of deeper lines that follows it.** -/
theorem forest_cons_append {l : Line} {owned rest : List Line}
    (hOwned : ∀ k ∈ owned, l.level < k.level) (hRest : ∀ k ∈ rest.head?, k.level ≤ l.level) :
    forest (l :: (owned ++ rest)) = .mk l (forest owned) :: forest rest := by
  have hHead : ∀ n ∈ (forest rest).head?, n.line.level ≤ l.level := fun n hn =>
    hRest n.line (line_eq_of_head_forest hn)
  have hDeeper : ∀ n ∈ forest owned, l.level < n.line.level := fun n hn =>
    hOwned n.line (line_mem_of_mem_forest hn)
  rw [forest_cons, forest_append hOwned hRest, adopt_append hHead, adopt_of_deeper hDeeper]
  rfl

/-! ## Outlines that can be written -/

/-- A text that can stand on a line of its own behind any indentation. -/
structure Writable (text : String) : Prop where
  starts : ∃ c ∈ text.toList.head?, c ≠ ' '
  oneLine : '\n' ∉ text.toList

/-- A text that stands on a line of its own and has the given heading. -/
structure IsLine (h : Heading) (text : String) : Prop extends Writable text where
  heading : Target.heading text = h

theorem isWordPart_of_isIdentifier {cs : List Char} (h : IsIdentifier cs) :
    ∀ c ∈ cs, isWordPart c = true := by
  obtain ⟨d, ds, rfl, hStart, hParts⟩ := h
  exact List.forall_mem_cons.mpr ⟨isWordPart_of_isWordStart hStart, hParts⟩

/-- The first word of a text ends where no word goes on. -/
theorem firstWord_eq {text : String} {word : List Char} {c : Char} {rest : List Char}
    (hText : text.toList = word ++ c :: rest) (hWord : ∀ d ∈ word, isWordPart d = true)
    (hc : isWordPart c = false) : firstWord text = String.ofList word := by
  rw [firstWord, hText, List.takeWhile_append_of_pos hWord,
    List.takeWhile_cons_of_neg (Bool.eq_false_iff.mp hc), List.append_nil]

/-- A line that starts with a word. -/
theorem isLine_of_word {text : String} (word : List Char) {c : Char} {rest : List Char}
    (hText : text.toList = word ++ c :: rest) (hne : word ≠ [])
    (hWord : ∀ d ∈ word, isWordPart d = true) (hc : isWordPart c = false)
    (hLine : '\n' ∉ text.toList) : IsLine (wordHeading (String.ofList word)) text := by
  refine ⟨⟨?_, hLine⟩, by rw [heading, firstWord_eq hText hWord hc]⟩
  cases word with
  | nil => exact absurd rfl hne
  | cons d ds =>
      refine ⟨d, by rw [hText]; rfl, ?_⟩
      rintro rfl
      exact absurd (hWord ' ' List.mem_cons_self) (by decide)

theorem isLine_else : IsLine .elseBranch "else:" :=
  ⟨⟨⟨'e', rfl, by decide⟩, by decide⟩, by decide⟩

theorem writable_pass : Writable "pass" :=
  ⟨⟨'p', rfl, by decide⟩, by decide⟩

mutual

/-- Outlines whose texts are lines with the headings that their places ask for. -/
def Outline.Proper : Outline → Prop
  | .line text => IsLine .plain text ∧ text ≠ "pass"
  | .loop header body => IsLine .loop header ∧ AllProper body
  | .choice header body further =>
    IsLine .ifBranch header ∧ AllProper body ∧ further.Proper

/-- Branches whose texts are such lines. -/
def Branches.Proper : Branches → Prop
  | .none => True
  | .elif header body further => IsLine .elifBranch header ∧ AllProper body ∧ further.Proper
  | .otherwise body => AllProper body

/-- Runs of such outlines. -/
def AllProper : List Outline → Prop
  | [] => True
  | o :: os => o.Proper ∧ AllProper os

end

/-! ## The lines of an outline -/

theorem orPassLine_ne_nil (level : Nat) (ls : List Line) : orPassLine level ls ≠ [] := by
  cases ls <;> nofun

/-- What holds of `pass` and of all given lines holds of the lines of a block. -/
theorem forall_mem_orPassLine {P : Line → Prop} {level : Nat} {ls : List Line}
    (hPass : P ⟨level, "pass"⟩) (hls : ∀ l ∈ ls, P l) : ∀ l ∈ orPassLine level ls, P l := by
  cases ls with
  | nil => simpa [orPassLine] using hPass
  | cons l ls => exact hls

/-- A line that can be written, in a block at the given level or deeper. -/
structure Inside (level : Nat) (l : Line) : Prop where
  level : level ≤ l.level
  writable : Writable l.text

theorem Inside.outer {level : Nat} {l : Line} (h : Inside (level + 1) l) : Inside level l :=
  ⟨Nat.le_of_succ_le h.level, h.writable⟩

/-- What holds of a header, of `pass` and of all lines of a block holds of them together. -/
theorem forall_mem_block {P : Line → Prop} {level : Nat} {header : String} {ls : List Line}
    (hHeader : P ⟨level, header⟩) (hPass : P ⟨level + 1, "pass"⟩) (hls : ∀ l ∈ ls, P l) :
    ∀ l ∈ ⟨level, header⟩ :: orPassLine (level + 1) ls, P l :=
  List.forall_mem_cons.mpr ⟨hHeader, forall_mem_orPassLine hPass hls⟩

/-- A header and its block. -/
theorem inside_of_block {level : Nat} {header : String} {ls : List Line}
    (hHeader : Writable header) (hls : ∀ l ∈ ls, Inside (level + 1) l) :
    ∀ l ∈ ⟨level, header⟩ :: orPassLine (level + 1) ls, Inside level l := by
  have hPass : Inside (level + 1) ⟨level + 1, "pass"⟩ := ⟨Nat.le_refl _, writable_pass⟩
  exact forall_mem_block ⟨Nat.le_refl _, hHeader⟩ hPass.outer fun l hl => (hls l hl).outer

mutual

/-- The lines of an outline can be written, and none stands further out than the outline. -/
theorem Outline.inside {o : Outline} (h : o.Proper) (level : Nat) :
    ∀ l ∈ o.lines level, Inside level l := by
  cases o with
  | line text => simpa [Outline.lines] using ⟨Nat.le_refl _, h.1.toWritable⟩
  | loop header body => exact inside_of_block h.1.toWritable (inside_outlineLines h.2 (level + 1))
  | choice header body further =>
      have hBlock := inside_of_block h.1.toWritable (inside_outlineLines h.2.1 (level + 1))
      have hFurther := Branches.inside h.2.2 level
      intro l hl
      rw [Outline.lines, ← List.cons_append, List.mem_append] at hl
      exact hl.elim (hBlock l) (hFurther l)

theorem Branches.inside {b : Branches} (h : b.Proper) (level : Nat) :
    ∀ l ∈ b.lines level, Inside level l := by
  cases b with
  | none => exact nofun
  | elif header body further =>
      have hBlock := inside_of_block h.1.toWritable (inside_outlineLines h.2.1 (level + 1))
      have hFurther := Branches.inside h.2.2 level
      intro l hl
      rw [Branches.lines, ← List.cons_append, List.mem_append] at hl
      exact hl.elim (hBlock l) (hFurther l)
  | otherwise body =>
      exact inside_of_block isLine_else.toWritable (inside_outlineLines h (level + 1))

theorem inside_outlineLines {os : List Outline} (h : AllProper os) (level : Nat) :
    ∀ l ∈ outlineLines level os, Inside level l := by
  cases os with
  | nil => exact nofun
  | cons o os =>
      have hFirst := Outline.inside h.1 level
      have hRest := inside_outlineLines h.2 level
      intro l hl
      rw [outlineLines, List.mem_append] at hl
      exact hl.elim (hFirst l) (hRest l)

end

theorem writable_of_mem_blockLines {os : List Outline} (h : AllProper os) (level : Nat) :
    ∀ l ∈ blockLines level os, Writable l.text :=
  forall_mem_orPassLine writable_pass fun l hl => (inside_outlineLines h level l hl).writable

theorem blockLines_ne_nil (level : Nat) (os : List Outline) : blockLines level os ≠ [] :=
  orPassLine_ne_nil level _

/-! ## Reading an outline back -/

/-- A line whose level is counted in columns. -/
def Line.widen (width : Nat) (l : Line) : Line :=
  ⟨width * l.level, l.text⟩

/-- Lines with their levels in columns. -/
def widened (width : Nat) (ls : List Line) : List Line :=
  ls.map (Line.widen width)

theorem widened_cons (width level : Nat) (text : String) (ls : List Line) :
    widened width (⟨level, text⟩ :: ls) = ⟨width * level, text⟩ :: widened width ls := rfl

theorem widened_append (width : Nat) (ls ls' : List Line) :
    widened width (ls ++ ls') = widened width ls ++ widened width ls' :=
  List.map_append

section Reading

variable {width level : Nat}

/-- A block can be read back from its lines. -/
structure ReadsBlock (width level : Nat) (body : List Outline) : Prop where
  ne_nil : forest (widened width (blockLines level body)) ≠ []
  column : blockColumn (forest (widened width (blockLines level body))) = width * level
  closed : closeBlock (forest (widened width (blockLines level body)))
    (readNodes (width * level) (forest (widened width (blockLines level body)))) = some body

/-- An outline starts with a line at its own level. -/
theorem Outline.exists_lines_eq (level : Nat) (o : Outline) :
    ∃ text ls, o.lines level = ⟨level, text⟩ :: ls := by
  cases o with
  | line text => exact ⟨text, _, rfl⟩
  | loop header body => exact ⟨header, _, rfl⟩
  | choice header body further => exact ⟨header, _, rfl⟩

/-- A lone `pass` is no statement. -/
theorem readNodes_pass (column indent : Nat) :
    readNodes column [.mk ⟨indent, "pass"⟩ []] = none := by
  simp only [readNodes, Node.read]
  split
  · decide
  · rfl

/-- A block holds what was read in it. -/
theorem closeBlock_of_readNodes {column : Nat} {ns : List Node} {os : List Outline}
    (hne : ns ≠ []) (h : readNodes column ns = some (.none, os)) :
    closeBlock ns (readNodes column ns) = some os := by
  unfold closeBlock
  split
  · exact absurd rfl hne
  · rw [readNodes_pass] at h
    exact nomatch h
  · rw [h]

/-- The outlines of a run are those that its block has. -/
theorem readsBlock_of_readNodes {body : List Outline}
    (h : readNodes (width * level) (forest (widened width (outlineLines level body))) =
      some (.none, body)) : ReadsBlock width level body := by
  cases body with
  | nil => exact ⟨nofun, rfl, rfl⟩
  | cons o os =>
      obtain ⟨text, ls, hLines⟩ := o.exists_lines_eq level
      have hAll : outlineLines level (o :: os) =
          ⟨level, text⟩ :: (ls ++ outlineLines level os) := by
        rw [outlineLines, hLines, List.cons_append]
      have hBlock : blockLines level (o :: os) = outlineLines level (o :: os) := by
        rw [blockLines, hAll]
        rfl
      have hne : forest (widened width (outlineLines level (o :: os))) ≠ [] := by
        rw [hAll]
        nofun
      have hColumn : blockColumn (forest (widened width (outlineLines level (o :: os)))) =
          width * level := by
        rw [hAll]
        rfl
      exact ⟨hBlock ▸ hne, hBlock ▸ hColumn, hBlock ▸ closeBlock_of_readNodes hne h⟩

/-- The lines of a block are deeper than its header. -/
theorem lt_level_of_mem_widened (hWidth : 1 ≤ width) {body : List Outline}
    (hProper : AllProper body) :
    ∀ l ∈ widened width (blockLines (level + 1) body), width * level < l.level := by
  intro l hl
  obtain ⟨k, hk, rfl⟩ := List.mem_map.mp hl
  have hPass : Inside (level + 1) ⟨level + 1, "pass"⟩ := ⟨Nat.le_refl _, writable_pass⟩
  have hLevel := (forall_mem_orPassLine hPass (inside_outlineLines hProper (level + 1)) k hk).level
  exact Nat.mul_lt_mul_of_pos_left hLevel hWidth

/-- A line without a block is read in front of what was read after it. -/
theorem readNodes_line {text : String} {rest : List Line} {after : Branches × List Outline}
    (hRest : ∀ l ∈ rest.head?, l.level ≤ width * level)
    (hAfter : readNodes (width * level) (forest rest) = some after) :
    readNodes (width * level) (forest (⟨width * level, text⟩ :: rest)) =
      attach text false none after := by
  have hAlone : forest (⟨width * level, text⟩ :: ([] ++ rest)) =
      .mk ⟨width * level, text⟩ [] :: forest rest := forest_cons_append nofun hRest
  rw [List.nil_append] at hAlone
  rw [hAlone, readNodes, hAfter]
  show Node.read _ _ _ = _
  rw [Node.read, if_pos rfl]
  rfl

/-- A header is read with its block, in front of what was read after it. -/
theorem readNodes_header (hWidth : 1 ≤ width) {header : String} {body : List Outline}
    {rest : List Line} {after : Branches × List Outline} (hProper : AllProper body)
    (hBlock : ReadsBlock width (level + 1) body)
    (hRest : ∀ l ∈ rest.head?, l.level ≤ width * level)
    (hAfter : readNodes (width * level) (forest rest) = some after) :
    readNodes (width * level)
        (forest (⟨width * level, header⟩ ::
          (widened width (blockLines (level + 1) body) ++ rest))) =
      attach header true (some body) after := by
  have hOwns : (!(forest (widened width (blockLines (level + 1) body))).isEmpty) = true := by
    simpa using hBlock.ne_nil
  rw [forest_cons_append (lt_level_of_mem_widened hWidth hProper) hRest, readNodes, hAfter]
  show Node.read _ _ _ = _
  rw [Node.read, if_pos rfl, hBlock.column, hBlock.closed, hOwns]

/-- What comes first after a branch stands no deeper than it. -/
theorem Branches.head_le (b : Branches) {rest : List Line}
    (hRest : ∀ l ∈ rest.head?, l.level ≤ width * level) :
    ∀ l ∈ (widened width (b.lines level) ++ rest).head?, l.level ≤ width * level := by
  cases b with
  | none => exact hRest
  | elif header body further =>
      intro l hl
      obtain rfl := Option.some.inj hl
      exact Nat.le_refl _
  | otherwise body =>
      intro l hl
      obtain rfl := Option.some.inj hl
      exact Nat.le_refl _

/-- What comes first in a run stands at the level of the run. -/
theorem head_le_outlineLines (os : List Outline) :
    ∀ l ∈ (widened width (outlineLines level os)).head?, l.level ≤ width * level := by
  cases os with
  | nil => exact nofun
  | cons o os =>
      obtain ⟨text, ls, hLines⟩ := o.exists_lines_eq level
      intro l hl
      rw [outlineLines, hLines] at hl
      obtain rfl := Option.some.inj hl
      exact Nat.le_refl _

mutual

/-- An outline is read in front of what was read after it. -/
theorem Outline.readNodes_lines (hWidth : 1 ≤ width) {o : Outline} (h : o.Proper)
    {level : Nat} {rest : List Line} {os : List Outline}
    (hRest : ∀ l ∈ rest.head?, l.level ≤ width * level)
    (hAfter : readNodes (width * level) (forest rest) = some (.none, os)) :
    readNodes (width * level) (forest (widened width (o.lines level) ++ rest)) =
      some (.none, o :: os) := by
  cases o with
  | line text =>
      show readNodes _ (forest (⟨width * level, text⟩ :: rest)) = _
      rw [readNodes_line hRest hAfter]
      simp [attach, h.1.heading, h.2]
  | loop header body =>
      have hBlock := readsBlock_of_readNodes (readNodes_outlineLines hWidth h.2 (level + 1))
      rw [Outline.lines, widened_cons, List.cons_append, ← blockLines,
        readNodes_header hWidth h.2 hBlock hRest hAfter]
      simp [attach, h.1.heading]
  | choice header body further =>
      have hBlock := readsBlock_of_readNodes (readNodes_outlineLines hWidth h.2.1 (level + 1))
      have hFurther := further.readNodes_lines hWidth h.2.2 hRest hAfter
      rw [Outline.lines, widened_cons, widened_append, List.cons_append, List.append_assoc,
        ← blockLines, readNodes_header hWidth h.2.1 hBlock (further.head_le hRest) hFurther]
      simp [attach, h.1.heading]

/-- Branches are read in front of what was read after them. -/
theorem Branches.readNodes_lines (hWidth : 1 ≤ width) (b : Branches) (h : b.Proper)
    {level : Nat} {rest : List Line} {os : List Outline}
    (hRest : ∀ l ∈ rest.head?, l.level ≤ width * level)
    (hAfter : readNodes (width * level) (forest rest) = some (.none, os)) :
    readNodes (width * level) (forest (widened width (b.lines level) ++ rest)) =
      some (b, os) := by
  cases b with
  | none => exact hAfter
  | elif header body further =>
      have hBlock := readsBlock_of_readNodes (readNodes_outlineLines hWidth h.2.1 (level + 1))
      have hFurther := further.readNodes_lines hWidth h.2.2 hRest hAfter
      rw [Branches.lines, widened_cons, widened_append, List.cons_append, List.append_assoc,
        ← blockLines, readNodes_header hWidth h.2.1 hBlock (further.head_le hRest) hFurther]
      simp [attach, h.1.heading]
  | otherwise body =>
      have hBlock := readsBlock_of_readNodes (readNodes_outlineLines hWidth h (level + 1))
      rw [Branches.lines, widened_cons, List.cons_append, ← blockLines,
        readNodes_header hWidth h hBlock hRest hAfter]
      simp [attach, isLine_else.heading]

/-- A run of outlines is read back from its lines. -/
theorem readNodes_outlineLines (hWidth : 1 ≤ width) {os : List Outline} (h : AllProper os)
    (level : Nat) :
    readNodes (width * level) (forest (widened width (outlineLines level os))) =
      some (.none, os) := by
  cases os with
  | nil => rfl
  | cons o os =>
      have hRest := readNodes_outlineLines hWidth h.2 level
      rw [outlineLines, widened_append]
      exact Outline.readNodes_lines hWidth h.1 (head_le_outlineLines os) hRest

end

/-- Outlines are read back from their lines, at every width. -/
theorem readLines_blockLines (hWidth : 1 ≤ width) {os : List Outline} (h : AllProper os) :
    readLines (widened width (blockLines 0 os)) = some os := by
  have hBlock := readsBlock_of_readNodes (readNodes_outlineLines hWidth h 0)
  have hColumn := hBlock.column
  have hClosed := hBlock.closed
  rw [Nat.mul_zero] at hColumn hClosed
  rw [readLines, if_pos hColumn, hClosed]

end Reading

/-! ## Pages -/

/-- One line on top of a page. -/
theorem toList_page_cons (width : Nat) (l : Line) {ls : List Line} (hne : ls ≠ []) :
    (page width (l :: ls)).toList = (l.render width).toList ++ '\n' :: (page width ls).toList := by
  obtain ⟨l', ls, rfl⟩ := List.exists_cons_of_ne_nil hne
  simp [page, String.toList_intercalate]

/-- The lines of a page are the lines that were written on it. -/
theorem splitOn_page {width : Nat} {ls : List Line} (hne : ls ≠ [])
    (h : ∀ l ∈ ls, '\n' ∉ l.text.toList) :
    (page width ls).toList.splitOn '\n' = ls.map fun l => (l.render width).toList := by
  have hLine : ∀ l ∈ ls, '\n' ∉ (l.render width).toList := by
    intro l hl
    simp [Line.render, h l hl]
  rw [page, String.toList_intercalate, List.map_map]
  exact List.splitOn_intercalate '\n' (by simpa using hLine) (by simpa using hne)

theorem toList_render (width : Nat) (l : Line) :
    (l.render width).toList = List.replicate (width * l.level) ' ' ++ l.text.toList := by
  simp [Line.render]

/-- The indentation of a written line, and what stands behind it. -/
theorem ofChars_render (width : Nat) {l : Line} (h : Writable l.text) :
    Line.ofChars (l.render width).toList = l.widen width := by
  obtain ⟨c, hc, hBlank⟩ := h.starts
  have hBlanks : ∀ d ∈ List.replicate (width * l.level) ' ', (d == ' ') = true := by
    intro d hd
    rw [List.eq_of_mem_replicate hd]
    rfl
  have hTake : l.text.toList.takeWhile (· == ' ') = [] := by
    cases hText : l.text.toList with
    | nil => rfl
    | cons d ds =>
        rw [hText] at hc
        obtain rfl := Option.some.inj hc
        simp [hBlank]
  have hDrop : l.text.toList.dropWhile (· == ' ') = l.text.toList := by
    have hAll := List.takeWhile_append_dropWhile (p := (· == ' ')) (l := l.text.toList)
    rwa [hTake] at hAll
  rw [toList_render, Line.ofChars, List.takeWhile_append_of_pos hBlanks,
    List.dropWhile_append_of_pos hBlanks, hTake, hDrop]
  simp [Line.widen]

theorem map_ofChars_render (width : Nat) {ls : List Line} (h : ∀ l ∈ ls, Writable l.text) :
    (ls.map fun l => Line.ofChars (l.render width).toList) = widened width ls :=
  List.map_congr_left fun l hl => ofChars_render width (h l hl)

/-- The lines of a page, read one by one. -/
theorem pageLines_page {width : Nat} {ls : List Line} (hne : ls ≠ [])
    (h : ∀ l ∈ ls, '\n' ∉ l.text.toList) :
    pageLines (page width ls) = ls.map fun l => Line.ofChars (l.render width).toList := by
  rw [pageLines, splitOn_page hne h, List.map_map]
  rfl

/-- Without the blanks at the front, a line of a page is its text. -/
theorem dropWhile_render (width : Nat) {l : Line} (h : Writable l.text) :
    (l.render width).toList.dropWhile (· == ' ') = l.text.toList := by
  have hText := congrArg (String.toList ∘ Line.text) (ofChars_render width h)
  simpa [Line.ofChars, Line.widen] using hText

end Target

end Braceless

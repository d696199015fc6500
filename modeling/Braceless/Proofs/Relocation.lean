import Braceless.Parser
import Braceless.Rendering

/-!
# Moving a tree to other places

Tokens, trees, errors and the table of variables carry the positions they come from.
`mapPos` puts a function of each position in its place.  With the constant function, all
positions are forgotten, and two results that are then equal differ in nothing but their
positions.

## Main definitions

* `Expr.mapPos`, `Stmt.mapPos`, `Parsed.mapPos`: a tree, or all that comes out of a token
  list, at other positions.
* `nowhere`: the function that forgets positions.

## Main results

* `mapPosAll_id`: positions that do not change leave the tree as it is.
* `Program.render_mapPos`: the output does not depend on positions.
-/

namespace Braceless

/-- Forgets a position. -/
def nowhere (_ : Position) : Position :=
  .start

variable (f : Position → Position)

/-! ## Tokens, errors and entries -/

def Token.mapPos (t : Token) : Token :=
  { t with pos := f t.pos }

def SyntaxError.mapPos (e : SyntaxError) : SyntaxError :=
  { e with pos := f e.pos }

def Declared.mapPos (d : Declared) : Declared :=
  { d with pos := f d.pos }

def Declarations.mapPos (t : Declarations) : Declarations :=
  ⟨t.entries.map (Declared.mapPos f)⟩

/-- Two tokens are the same at other positions exactly if they have the same kind, the same
text and the same new position. -/
theorem Token.mapPos_eq_iff {t t' : Token} :
    t.mapPos f = t'.mapPos f ↔ t.kind = t'.kind ∧ t.text = t'.text ∧ f t.pos = f t'.pos := by
  simp [Token.mapPos]

/-- The names of the table stay. -/
@[simp] theorem Declarations.names_mapPos (t : Declarations) :
    (t.mapPos f).names = t.names := by
  simp [Declarations.mapPos, Declarations.names, Declared.mapPos, Function.comp_def]

theorem Declarations.mapPos_insert (t : Declarations) (d : Declared) :
    (t.insert d).mapPos f = (t.mapPos f).insert (d.mapPos f) := by
  have hName : (d.mapPos f).name = d.name := rfl
  by_cases h : d.name ∈ t.names
  · simp [Declarations.insert, hName, h]
  · simp only [Declarations.insert, Declarations.contains_iff, Declarations.names_mapPos, hName,
      h, if_false]
    simp [Declarations.mapPos]

/-! ## Trees -/

def Placeholder.mapPos (p : Placeholder) : Placeholder :=
  { p with pos := f p.pos }

/-- An expression at other positions. -/
def Expr.mapPos : Expr → Expr
  | binary op left right => .binary op left.mapPos right.mapPos
  | unary op operand => .unary op operand.mapPos
  | group inner => .group inner.mapPos
  | literal l => .literal l
  | identifier name pos => .identifier name (f pos)
  | invalid p => .invalid (p.mapPos f)

def Declaration.mapPos (d : Declaration) : Declaration :=
  { d with value := d.value.map (Expr.mapPos f), pos := f d.pos }

def Assignment.mapPos (a : Assignment) : Assignment :=
  { a with value := a.value.mapPos f, pos := f a.pos }

def ForInit.mapPos : ForInit → ForInit
  | declaration d => .declaration (d.mapPos f)
  | assignment a => .assignment (a.mapPos f)

mutual

/-- A statement at other positions. -/
def Stmt.mapPos : Stmt → Stmt
  | .declaration d => .declaration (d.mapPos f)
  | .assignment a => .assignment (a.mapPos f)
  | .ifElse i => .ifElse i.mapPos
  | .forLoop init condition update body pos =>
    .forLoop (init.mapPos f) (condition.mapPos f) (update.map (Assignment.mapPos f))
      (mapPosAll body) (f pos)
  | .whileLoop condition body pos => .whileLoop (condition.mapPos f) (mapPosAll body) (f pos)
  | .print argument newline pos => .print (argument.map (Expr.mapPos f)) newline (f pos)
  | .invalid p => .invalid (p.mapPos f)

/-- A conditional at other positions. -/
def IfStatement.mapPos : IfStatement → IfStatement
  | ⟨condition, thenBody, orElse, pos⟩ =>
    ⟨condition.mapPos f, mapPosAll thenBody, orElse.mapPos, f pos⟩

/-- The further branches of a conditional at other positions. -/
def Else.mapPos : Else → Else
  | .none => .none
  | .elseIf i => .elseIf i.mapPos
  | .block body => .block (mapPosAll body)

/-- A run of statements at other positions. -/
def mapPosAll : List Stmt → List Stmt
  | [] => []
  | s :: ss => s.mapPos :: mapPosAll ss

end

def Program.mapPos (p : Program) : Program :=
  { p with body := mapPosAll f p.body }

/-- All that comes out of a token list, at other positions. -/
def Parsed.mapPos (p : Parsed) : Parsed :=
  ⟨p.program.mapPos f, p.errors.map (SyntaxError.mapPos f), p.declarations.mapPos f⟩

/-- An optional item in front of a run of statements. -/
theorem mapPosAll_toList_append (o : Option Stmt) (ss : List Stmt) :
    mapPosAll f (o.toList ++ ss) = (o.map (Stmt.mapPos f)).toList ++ mapPosAll f ss := by
  cases o with
  | none => rfl
  | some s => rfl

/-! ## Positions that stay -/

theorem Expr.mapPos_id (e : Expr) : e.mapPos id = e := by
  induction e with
  | binary op left right ihLeft ihRight => simp [Expr.mapPos, ihLeft, ihRight]
  | unary op operand ih => simp [Expr.mapPos, ih]
  | group inner ih => simp [Expr.mapPos, ih]
  | literal l => rfl
  | identifier name pos => rfl
  | invalid p => rfl

theorem Expr.map_mapPos_id (o : Option Expr) : o.map (Expr.mapPos id) = o := by
  cases o with
  | none => rfl
  | some e => simp [Expr.mapPos_id]

theorem Declaration.mapPos_id (d : Declaration) : d.mapPos id = d := by
  simp [Declaration.mapPos, Expr.map_mapPos_id]

theorem Assignment.mapPos_id (a : Assignment) : a.mapPos id = a := by
  simp [Assignment.mapPos, Expr.mapPos_id]

theorem ForInit.mapPos_id (init : ForInit) : init.mapPos id = init := by
  cases init with
  | declaration d => simp [ForInit.mapPos, Declaration.mapPos_id]
  | assignment a => simp [ForInit.mapPos, Assignment.mapPos_id]

mutual

theorem Stmt.mapPos_id (s : Stmt) : s.mapPos id = s := by
  cases s with
  | declaration d => simp [Stmt.mapPos, Declaration.mapPos_id]
  | assignment a => simp [Stmt.mapPos, Assignment.mapPos_id]
  | ifElse i => simp [Stmt.mapPos, IfStatement.mapPos_id i]
  | forLoop init condition update body pos =>
      have hUpdate : update.map (Assignment.mapPos id) = update := by
        cases update with
        | none => rfl
        | some a => simp [Assignment.mapPos_id]
      simp [Stmt.mapPos, ForInit.mapPos_id, Expr.mapPos_id, hUpdate, mapPosAll_id body]
  | whileLoop condition body pos => simp [Stmt.mapPos, Expr.mapPos_id, mapPosAll_id body]
  | print argument newline pos => simp [Stmt.mapPos, Expr.map_mapPos_id]
  | invalid p => rfl

theorem IfStatement.mapPos_id (i : IfStatement) : i.mapPos id = i := by
  obtain ⟨condition, thenBody, orElse, pos⟩ := i
  simp [IfStatement.mapPos, Expr.mapPos_id, mapPosAll_id thenBody, Else.mapPos_id orElse]

theorem Else.mapPos_id (e : Else) : e.mapPos id = e := by
  cases e with
  | none => rfl
  | elseIf i => simp [Else.mapPos, IfStatement.mapPos_id i]
  | block body => simp [Else.mapPos, mapPosAll_id body]

/-- Positions that do not change leave a run of statements as it is. -/
theorem mapPosAll_id (ss : List Stmt) : mapPosAll id ss = ss := by
  cases ss with
  | nil => rfl
  | cons s ss => simp [mapPosAll, Stmt.mapPos_id s, mapPosAll_id ss]

end

/-! ## The output -/

section Output

theorem Expr.needsBrackets_mapPos (loose : Nat → Bool) (e : Expr) :
    (e.mapPos f).needsBrackets loose = e.needsBrackets loose := by
  cases e with
  | unary op operand => cases op <;> rfl
  | _ => rfl

theorem Expr.isBinary_mapPos (e : Expr) : (e.mapPos f).isBinary = e.isBinary := by
  cases e <;> rfl

theorem Expr.isAtom_mapPos (e : Expr) : (e.mapPos f).isAtom = e.isAtom := by
  cases e <;> rfl

/-- Lowering does not look at positions. -/
@[simp] theorem Expr.lower_mapPos (e : Expr) : (e.mapPos f).lower = e.lower := by
  induction e with
  | binary op left right ihLeft ihRight =>
      simp only [Expr.mapPos, Expr.lower, Expr.needsBrackets_mapPos, ihLeft, ihRight]
  | unary op operand ih =>
      cases op <;> simp only [Expr.mapPos, Expr.lower, Expr.isBinary_mapPos, ih]
  | group inner ih => simp only [Expr.mapPos, Expr.lower, ih]
  | literal l => rfl
  | identifier name pos => rfl
  | invalid p => rfl

theorem Declaration.lowerValue_mapPos (d : Declaration) :
    (d.mapPos f).lowerValue = d.lowerValue := by
  obtain ⟨dataType, name, value, pos⟩ := d
  cases value with
  | none => rfl
  | some e => exact e.lower_mapPos f

theorem ForInit.lowerValue_mapPos (init : ForInit) :
    (init.mapPos f).lowerValue = init.lowerValue := by
  cases init with
  | declaration d => exact d.lowerValue_mapPos f
  | assignment a => exact a.value.lower_mapPos f

theorem ForInit.name_mapPos (init : ForInit) : (init.mapPos f).name = init.name := by
  cases init <;> rfl

theorem rangeStop_mapPos (condition : Expr) :
    rangeStop (condition.mapPos f) = rangeStop condition := by
  cases condition with
  | binary op left bound => cases op <;> simp [Expr.mapPos, rangeStop]
  | _ => rfl

theorem rangeStep_mapPos (value : Expr) : rangeStep (value.mapPos f) = rangeStep value := by
  cases value with
  | binary op left amount =>
      cases op <;> simp [Expr.mapPos, rangeStep, Expr.isAtom_mapPos]
  | _ => rfl

mutual

theorem Stmt.lower_mapPos (s : Stmt) : (s.mapPos f).lower = s.lower := by
  cases s with
  | declaration d =>
      simp only [Stmt.mapPos, Stmt.lower, Declaration.lowerValue_mapPos]
      rfl
  | assignment a => simp [Stmt.mapPos, Stmt.lower, Assignment.mapPos]
  | ifElse i =>
      obtain ⟨condition, thenBody, orElse, pos⟩ := i
      simp [Stmt.mapPos, IfStatement.mapPos, Stmt.lower, lowerAll_mapPos thenBody,
        Else.lower_mapPos orElse]
  | forLoop init condition update body pos =>
      have hStep : ((update.map (Assignment.mapPos f)).bind fun a => rangeStep a.value) =
          update.bind fun a => rangeStep a.value := by
        cases update with
        | none => rfl
        | some a => exact rangeStep_mapPos f a.value
      simp only [Stmt.mapPos, Stmt.lower, ForInit.name_mapPos, ForInit.lowerValue_mapPos,
        rangeStop_mapPos, hStep, lowerAll_mapPos body]
  | whileLoop condition body pos => simp [Stmt.mapPos, Stmt.lower, lowerAll_mapPos body]
  | print argument newline pos =>
      cases argument with
      | none => rfl
      | some e => simp [Stmt.mapPos, Stmt.lower]
  | invalid p => rfl

theorem Else.lower_mapPos (e : Else) : (e.mapPos f).lower = e.lower := by
  cases e with
  | none => rfl
  | elseIf i =>
      obtain ⟨condition, thenBody, orElse, pos⟩ := i
      simp [Else.mapPos, IfStatement.mapPos, Else.lower, lowerAll_mapPos thenBody,
        Else.lower_mapPos orElse]
  | block body => simp [Else.mapPos, Else.lower, lowerAll_mapPos body]

/-- The output of a run of statements does not depend on positions. -/
theorem lowerAll_mapPos (ss : List Stmt) : lowerAll (mapPosAll f ss) = lowerAll ss := by
  cases ss with
  | nil => rfl
  | cons s ss => simp [mapPosAll, lowerAll, Stmt.lower_mapPos s, lowerAll_mapPos ss]

end

/-- Which comments there are does not depend on positions. -/
theorem commentSection_mapPos (tokens : List Token) :
    commentSection (tokens.map (Token.mapPos f)) = commentSection tokens := by
  have hTexts : ((tokens.map (Token.mapPos f)).filter (·.kind == .comment)).map
        (fun t => (⟨0, Target.comment t.text⟩ : Target.Line)) =
      (tokens.filter (·.kind == .comment)).map fun t => ⟨0, Target.comment t.text⟩ := by
    rw [List.filter_map, List.map_map]
    rfl
  rw [commentSection, hTexts, commentSection]

/-- The output of a program does not depend on positions, neither those of its tree nor
those of the tokens that its comments come from. -/
theorem Program.render_mapPos (p : Program) (tokens : List Token) (layout : Layout) :
    (p.mapPos f).render (tokens.map (Token.mapPos f)) layout = p.render tokens layout := by
  have hLower : (p.mapPos f).lower = p.lower := by
    rw [Program.lower, Program.mapPos, lowerAll_mapPos, Program.lower]
  rw [Program.render, commentSection_mapPos, hLower, Program.render]

end Output

end Braceless

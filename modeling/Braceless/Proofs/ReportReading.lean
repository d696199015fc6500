import Braceless.Report

/-!
# Reading reports

A report is read back by the names of its fields.  The field `type` says which form a statement or
an expression has, an object with a single field is the choice that the field names, and a value
that may be absent is absent where it is null.  So nothing of an analysis is lost in its report,
however deep its trees are and whether or not a text stands behind them: what a report is read as
is the analysis it was made from.

Reading by names makes sense for values in which no object names a field twice.  The only names in
a report that are not fixed are those of the declared variables, so a report is such a value
exactly if the names in the table are distinct.

## Main definitions

* `Json.field?`: the value of a field, smaller than the object it is in.
* `Expr.ofReport?`, `Stmt.ofReport?`, `Analysis.ofReport?`: what a value can be read as.
* `Json.WellKeyed`: values in which no object names a field twice.

## Main results

* `Expr.ofReport?_report`, `Stmt.ofReport?_report`: trees are read back.
* `Analysis.ofReport?_report`: so are analyses.
* `Analysis.wellKeyed_report_iff`: which reports name no field twice.
* `report_loses_nothing`: both, and two analyses never have the same report.
-/

namespace Braceless

/-! ## Names and what they name -/

theorem Token.Kind.ofTag?_tag (k : Token.Kind) : ofTag? k.tag = some k := by
  cases k <;> rfl

theorem Literal.Kind.ofTag?_tag (k : Literal.Kind) : ofTag? k.tag = some k := by
  cases k <;> rfl

theorem DataType.ofKeyword?_keyword (t : DataType) : ofKeyword? t.keyword = some t := by
  cases t <;> rfl

/-- The operator with a given name in reports. -/
def BinaryOp.ofTag? (name : String) : Option BinaryOp :=
  all.find? (·.tag == name)

theorem BinaryOp.ofTag?_tag (op : BinaryOp) : ofTag? op.tag = some op := by
  cases op <;> rfl

/-- The operator with a given name in reports. -/
def UnaryOp.ofTag? : String → Option UnaryOp
  | "Not" => some not
  | "Neg" => some neg
  | _ => none

theorem UnaryOp.ofTag?_tag (op : UnaryOp) : ofTag? op.tag = some op := by
  cases op <;> rfl

/-- The fault with a given name in reports. -/
def LexicalFault.ofTag? : String → Option LexicalFault
  | "unexpected_character" => some unexpectedCharacter
  | "unterminated_string" => some unterminatedString
  | "unterminated_char" => some unterminatedChar
  | _ => none

theorem LexicalFault.ofTag?_tag (fault : LexicalFault) : ofTag? fault.tag = some fault := by
  cases fault <;> rfl

/-! ## Fields -/

namespace Json

theorem sizeOf_value_lt (key : String) (value : Json) (fields : List (String × Json)) :
    sizeOf value < sizeOf ((key, value) :: fields) := by
  simp only [List.cons.sizeOf_spec, Prod.mk.sizeOf_spec]
  omega

theorem sizeOf_tail_lt (entry : String × Json) (fields : List (String × Json)) :
    sizeOf fields < sizeOf (entry :: fields) := by
  simp only [List.cons.sizeOf_spec]
  omega

/-- The value of the first field with the given name, which is smaller than the fields, so that
what stands inside an object can be read by recursion. -/
def field? (name : String) :
    (fields : List (String × Json)) → Option { j : Json // sizeOf j < sizeOf fields }
  | [] => none
  | (key, value) :: fields =>
    if key = name then some ⟨value, sizeOf_value_lt key value fields⟩
    else (field? name fields).map fun j => ⟨j.1, Nat.lt_trans j.2 (sizeOf_tail_lt _ fields)⟩

/-- The value of the first field with the given name. -/
def value? (name : String) (fields : List (String × Json)) : Option Json :=
  (field? name fields).map (·.1)

def text? (name : String) (fields : List (String × Json)) : Option String :=
  match value? name fields with
  | some (.str value) => some value
  | _ => none

def number? (name : String) (fields : List (String × Json)) : Option Nat :=
  match value? name fields with
  | some (.num value) => some value
  | _ => none

def truth? (name : String) (fields : List (String × Json)) : Option Bool :=
  match value? name fields with
  | some (.bool value) => some value
  | _ => none

@[simp] theorem value?_nil (name : String) : value? name [] = none := rfl

@[simp] theorem value?_cons (name key : String) (value : Json) (fields : List (String × Json)) :
    value? name ((key, value) :: fields) =
      if key = name then some value else value? name fields := by
  unfold value?
  rw [field?]
  split
  · rfl
  · rw [Option.map_map]
    rfl

/-- The items of an array, each read by `read`. -/
def items? {α : Type} (read : Json → Option α) : Json → Option (List α)
  | arr items => items.mapM read
  | _ => none

/-- A value that may be absent. -/
def optional? {α : Type} (read : Json → Option α) : Json → Option (Option α)
  | null => some none
  | j => (read j).map some

variable {α : Type} {read : Json → Option α} {report : α → Json}

theorem mapM_map {β : Type} {read : β → Option α} {report : α → β}
    (h : ∀ a, read (report a) = some a) (l : List α) : (l.map report).mapM read = some l := by
  induction l with
  | nil => rfl
  | cons a l ih => simp [h, ih]

theorem items?_map (h : ∀ a, read (report a) = some a) (l : List α) :
    items? read (.arr (l.map report)) = some l :=
  mapM_map h l

theorem optional?_ofOption (h : ∀ a, read (report a) = some a) (hNull : ∀ a, report a ≠ .null)
    (a : Option α) : optional? read (.ofOption report a) = some a := by
  cases a with
  | none => rfl
  | some a =>
      show optional? read (report a) = some (some a)
      unfold optional?
      split
      · next hReport => exact absurd hReport (hNull a)
      · rw [h]
        rfl

end Json

open Json

/-! ## Tokens and errors -/

namespace Position

/-- The position that stands among other fields. -/
def ofFields? (fields : List (String × Json)) : Option Position := do
  return ⟨← number? "line" fields, ← number? "column" fields⟩

def ofReport? : Json → Option Position
  | .obj fields => ofFields? fields
  | _ => none

theorem ofReport?_report (p : Position) : ofReport? p.report = some p := by
  simp [report, ofReport?, fields, ofFields?, number?]

/-- The position in the field `span`. -/
def spanIn? (fields : List (String × Json)) : Option Position := do
  ofReport? (← value? "span" fields)

end Position

def Token.ofReport? : Json → Option Token
  | .obj fields => do
    return ⟨← Kind.ofTag? (← text? "kind" fields), ← text? "text" fields,
      ← Position.ofFields? fields⟩
  | _ => none

theorem Token.ofReport?_report (t : Token) : ofReport? t.report = some t := by
  simp [report, ofReport?, Position.fields, Position.ofFields?, text?, number?,
    Kind.ofTag?_tag]

/-- The character that a text consists of. -/
def onlyChar? (s : String) : Option Char :=
  match s.toList with
  | [c] => some c
  | _ => none

def LexicalError.ofReport? : Json → Option LexicalError
  | .obj fields => do
    return ⟨← LexicalFault.ofTag? (← text? "kind" fields), ← onlyChar? (← text? "character" fields),
      ← Position.ofFields? fields⟩
  | _ => none

theorem LexicalError.ofReport?_report (e : LexicalError) : ofReport? e.report = some e := by
  simp [report, ofReport?, Position.fields, Position.ofFields?, text?, number?, onlyChar?,
    LexicalFault.ofTag?_tag]

/-- A cause without further data is a text, and any other an object with the single field that
names it. -/
def SyntaxFault.ofReport? : Json → Option SyntaxFault
  | .str "unrecognized_statement" => some unrecognizedStatement
  | .str "invalid_expression" => some invalidExpression
  | .str "trailing_input" => some trailingInput
  | .str "nesting_too_deep" => some nestingTooDeep
  | .obj [(choice, .obj fields)] =>
    match choice with
    | "expected" => (text? "expected" fields).map expected
    | "redeclared" => (text? "name" fields).map redeclared
    | "undeclared" => (text? "name" fields).map undeclared
    | _ => none
  | _ => none

theorem SyntaxFault.ofReport?_report (fault : SyntaxFault) :
    ofReport? fault.report = some fault := by
  cases fault <;> simp [report, ofReport?, text?]

def SyntaxError.ofReport? : Json → Option SyntaxError
  | .obj fields => do
    return ⟨← SyntaxFault.ofReport? (← value? "kind" fields), ← text? "found" fields,
      ← Position.ofFields? fields⟩
  | _ => none

theorem SyntaxError.ofReport?_report (e : SyntaxError) : ofReport? e.report = some e := by
  simp [report, ofReport?, Position.fields, Position.ofFields?, text?, number?,
    SyntaxFault.ofReport?_report]

def Declared.ofEntry? : String × Json → Option Declared
  | (name, .obj fields) => do
    return ⟨name, ← DataType.ofKeyword? (← text? "data_type" fields), ← Position.ofFields? fields⟩
  | _ => none

theorem Declared.ofEntry?_report (d : Declared) : ofEntry? (d.name, d.report) = some d := by
  simp [report, ofEntry?, Position.fields, Position.ofFields?, text?, number?,
    DataType.ofKeyword?_keyword]

def Declarations.ofReport? : Json → Option Declarations
  | .obj fields => (fields.mapM Declared.ofEntry?).map Declarations.mk
  | _ => none

theorem Declarations.ofReport?_report (t : Declarations) : ofReport? t.report = some t := by
  rw [report, ofReport?, mapM_map Declared.ofEntry?_report]
  rfl

/-! ## Expressions -/

def Placeholder.ofFields? (fields : List (String × Json)) : Option Placeholder := do
  return ⟨← text? "text" fields, ← Position.spanIn? fields⟩

namespace Expr

/-- What a value can be read as, by its field `type`. -/
def ofReport? (j : Json) : Option Expr :=
  match j with
  | .obj fields => do
    match ← text? "type" fields with
    | "Binary" =>
      let op ← BinaryOp.ofTag? (← text? "op" fields)
      let ⟨left, _⟩ ← field? "left" fields
      let ⟨right, _⟩ ← field? "right" fields
      return .binary op (← ofReport? left) (← ofReport? right)
    | "Unary" =>
      let op ← UnaryOp.ofTag? (← text? "op" fields)
      let ⟨operand, _⟩ ← field? "operand" fields
      return .unary op (← ofReport? operand)
    | "Group" =>
      let ⟨inner, _⟩ ← field? "inner" fields
      return .group (← ofReport? inner)
    | "Literal" =>
      return .literal ⟨← Literal.Kind.ofTag? (← text? "kind" fields), ← text? "value" fields⟩
    | "Identifier" => return .identifier (← text? "name" fields) (← Position.spanIn? fields)
    | "Error" => return .invalid (← Placeholder.ofFields? fields)
    | _ => none
  | _ => none
termination_by sizeOf j
decreasing_by all_goals (simp only [Json.obj.sizeOf_spec]; omega)

theorem ofReport?_report (e : Expr) : ofReport? e.report = some e := by
  induction e with
  | binary op left right ihLeft ihRight =>
      rw [report, ofReport?]
      simp [text?, field?, ihLeft, ihRight, BinaryOp.ofTag?_tag]
  | unary op operand ih =>
      rw [report, ofReport?]
      simp [text?, field?, ih, UnaryOp.ofTag?_tag]
  | group inner ih =>
      rw [report, ofReport?]
      simp [text?, field?, ih]
  | literal l =>
      rw [report, ofReport?]
      simp [text?, field?, Literal.Kind.ofTag?_tag]
  | identifier name pos =>
      rw [report, ofReport?]
      simp [text?, field?, Position.spanIn?, Position.ofReport?_report]
  | invalid p =>
      rw [report, ofReport?]
      simp [text?, field?, Placeholder.fields, Placeholder.ofFields?, Position.spanIn?,
        Position.ofReport?_report]

theorem report_ne_null (e : Expr) : e.report ≠ .null := by
  cases e <;> simp [report]

/-- The expression in a field. -/
def inField? (name : String) (fields : List (String × Json)) : Option Expr := do
  ofReport? (← value? name fields)

/-- The expression in a field, if one is there. -/
def maybeInField? (name : String) (fields : List (String × Json)) : Option (Option Expr) := do
  optional? ofReport? (← value? name fields)

theorem optional?_report (e : Option Expr) :
    optional? ofReport? (.ofOption report e) = some e :=
  optional?_ofOption ofReport?_report report_ne_null e

end Expr

/-! ## Statements -/

namespace Declaration

def ofFields? (fields : List (String × Json)) : Option Declaration := do
  return ⟨← DataType.ofKeyword? (← text? "data_type" fields), ← text? "name" fields,
    ← Expr.maybeInField? "value" fields, ← Position.spanIn? fields⟩

theorem ofFields?_fields (d : Declaration) : ofFields? d.fields = some d := by
  simp [fields, ofFields?, text?, Expr.maybeInField?, Expr.optional?_report,
    Position.spanIn?, Position.ofReport?_report, DataType.ofKeyword?_keyword]

/-- The form that stands in front of the fields does not matter to them. -/
theorem ofFields?_type (form : Json) (fields : List (String × Json)) :
    ofFields? (("type", form) :: fields) = ofFields? fields := by
  simp [ofFields?, text?, Expr.maybeInField?, Position.spanIn?]

end Declaration

namespace Assignment

def ofFields? (fields : List (String × Json)) : Option Assignment := do
  return ⟨← text? "name" fields, ← Expr.inField? "value" fields, ← Position.spanIn? fields⟩

theorem ofFields?_fields (a : Assignment) : ofFields? a.fields = some a := by
  simp [fields, ofFields?, text?, Expr.inField?, Expr.ofReport?_report, Position.spanIn?,
    Position.ofReport?_report]

theorem ofFields?_type (form : Json) (fields : List (String × Json)) :
    ofFields? (("type", form) :: fields) = ofFields? fields := by
  simp [ofFields?, text?, Expr.inField?, Position.spanIn?]

/-- The assignment that is the fields of an object. -/
def ofReport? : Json → Option Assignment
  | .obj fields => ofFields? fields
  | _ => none

theorem optional?_report (a : Option Assignment) :
    optional? ofReport? (.ofOption (fun a => .obj a.fields) a) = some a :=
  optional?_ofOption ofFields?_fields (by simp) a

end Assignment

/-- The set-up of a loop: an object with the single field that names its form. -/
def ForInit.ofReport? : Json → Option ForInit
  | .obj [(choice, .obj fields)] =>
    match choice with
    | "Declaration" => (Declaration.ofFields? fields).map declaration
    | "Assignment" => (Assignment.ofFields? fields).map assignment
    | _ => none
  | _ => none

theorem ForInit.ofReport?_report (init : ForInit) : ofReport? init.report = some init := by
  cases init with
  | declaration d => simp [report, ofReport?, Declaration.ofFields?_fields]
  | assignment a => simp [report, ofReport?, Assignment.ofFields?_fields]

mutual

/-- What a value can be read as, by its field `type`. -/
def Stmt.ofReport? (j : Json) : Option Stmt :=
  match j with
  | .obj fields => do
    match ← text? "type" fields with
    | "Declaration" => return .declaration (← Declaration.ofFields? fields)
    | "Assignment" => return .assignment (← Assignment.ofFields? fields)
    | "If" => return .ifElse (← IfStatement.ofFields? fields)
    | "For" =>
      let init ← ForInit.ofReport? (← value? "init" fields)
      let condition ← Expr.inField? "condition" fields
      let update ← optional? Assignment.ofReport? (← value? "update" fields)
      let ⟨body, _⟩ ← field? "body" fields
      return .forLoop init condition update (← ofReports? body) (← Position.spanIn? fields)
    | "While" =>
      let condition ← Expr.inField? "condition" fields
      let ⟨body, _⟩ ← field? "body" fields
      return .whileLoop condition (← ofReports? body) (← Position.spanIn? fields)
    | "Print" =>
      return .print (← Expr.maybeInField? "expression" fields) (← truth? "newline" fields)
        (← Position.spanIn? fields)
    | "Error" => return .invalid (← Placeholder.ofFields? fields)
    | _ => none
  | _ => none
termination_by sizeOf j
decreasing_by all_goals (simp only [Json.obj.sizeOf_spec]; omega)

/-- The conditional that has the given fields. -/
def IfStatement.ofFields? (fields : List (String × Json)) : Option IfStatement := do
  let condition ← Expr.inField? "condition" fields
  let ⟨thenBody, _⟩ ← field? "then_body" fields
  let ⟨orElse, _⟩ ← field? "else_branch" fields
  return ⟨condition, ← ofReports? thenBody, ← Else.ofReport? orElse, ← Position.spanIn? fields⟩
termination_by sizeOf fields
decreasing_by all_goals assumption

/-- The further branches: null, or an object with the single field that names their form. -/
def Else.ofReport? (j : Json) : Option Else :=
  match j with
  | .null => some .none
  | .obj [(choice, value)] =>
    match choice, value with
    | "If", .obj fields => return .elseIf (← IfStatement.ofFields? fields)
    | "Block", body => return .block (← ofReports? body)
    | _, _ => none
  | _ => none
termination_by sizeOf j
decreasing_by all_goals (simp; omega)

/-- The statements of an array. -/
def ofReports? (j : Json) : Option (List Stmt) :=
  match j with
  | .arr items => ofItems? items
  | _ => none
termination_by sizeOf j
decreasing_by all_goals (simp only [Json.arr.sizeOf_spec]; omega)

def ofItems? (items : List Json) : Option (List Stmt) :=
  match items with
  | [] => some []
  | item :: items => return (← Stmt.ofReport? item) :: (← ofItems? items)
termination_by sizeOf items
decreasing_by all_goals (simp only [List.cons.sizeOf_spec]; omega)

end

theorem IfStatement.ofFields?_type (form : Json) (fields : List (String × Json)) :
    IfStatement.ofFields? (("type", form) :: fields) = IfStatement.ofFields? fields := by
  rw [IfStatement.ofFields?, IfStatement.ofFields?]
  cases hThen : field? "then_body" fields <;> cases hElse : field? "else_branch" fields <;>
    simp [field?, hThen, hElse, Expr.inField?, Position.spanIn?]

mutual

theorem Stmt.ofReport?_report : ∀ s : Stmt, Stmt.ofReport? s.report = some s
  | .declaration d => by
      rw [Stmt.report, Stmt.ofReport?]
      simp [text?, field?, Declaration.ofFields?_type, Declaration.ofFields?_fields]
  | .assignment a => by
      rw [Stmt.report, Stmt.ofReport?]
      simp [text?, field?, Assignment.ofFields?_type, Assignment.ofFields?_fields]
  | .ifElse i => by
      rw [Stmt.report, Stmt.ofReport?]
      simp [text?, field?, IfStatement.ofFields?_type, IfStatement.ofFields?_fields i]
  | .forLoop init condition update body pos => by
      rw [Stmt.report, Stmt.ofReport?]
      simp [text?, field?, ForInit.ofReport?_report, Expr.inField?, Expr.ofReport?_report,
        Assignment.optional?_report, ofReports?_reportAll body, Position.spanIn?,
        Position.ofReport?_report]
  | .whileLoop condition body pos => by
      rw [Stmt.report, Stmt.ofReport?]
      simp [text?, field?, Expr.inField?, Expr.ofReport?_report, ofReports?_reportAll body,
        Position.spanIn?, Position.ofReport?_report]
  | .print argument newline pos => by
      rw [Stmt.report, Stmt.ofReport?]
      simp [text?, truth?, field?, Expr.maybeInField?, Expr.optional?_report, Position.spanIn?,
        Position.ofReport?_report]
  | .invalid p => by
      rw [Stmt.report, Stmt.ofReport?]
      simp [text?, field?, Placeholder.fields, Placeholder.ofFields?, Position.spanIn?,
        Position.ofReport?_report]

theorem IfStatement.ofFields?_fields : ∀ i : IfStatement, IfStatement.ofFields? i.fields = some i
  | ⟨condition, thenBody, orElse, pos⟩ => by
      rw [IfStatement.fields, IfStatement.ofFields?]
      simp [field?, Expr.inField?, Expr.ofReport?_report, ofReports?_reportAll thenBody,
        Else.ofReport?_report orElse, Position.spanIn?, Position.ofReport?_report]

theorem Else.ofReport?_report : ∀ e : Else, Else.ofReport? e.report = some e
  | .none => by rw [Else.report, Else.ofReport?]
  | .elseIf i => by
      rw [Else.report, Else.ofReport?]
      simp [IfStatement.ofFields?_fields i]
  | .block body => by
      rw [Else.report, Else.ofReport?]
      simp [ofReports?_reportAll body]

theorem ofReports?_reportAll : ∀ body : List Stmt, ofReports? (.arr (reportAll body)) = some body
  | [] => by rw [reportAll, ofReports?, ofItems?]
  | s :: ss => by
      have hRest := ofReports?_reportAll ss
      rw [ofReports?] at hRest
      rw [reportAll, ofReports?, ofItems?, Stmt.ofReport?_report s, hRest]
      rfl

end

/-! ## Programs and analyses -/

def Program.ofReport? : Json → Option Program
  | .obj fields => do
    return ⟨← text? "class_name" fields, ← text? "args_name" fields,
      ← ofReports? (← value? "body" fields)⟩
  | _ => none

theorem Program.ofReport?_report (p : Program) : ofReport? p.report = some p := by
  simp [report, ofReport?, text?, ofReports?_reportAll]

namespace Analysis

/-- The analysis that a report was made from. -/
def ofReport? : Json → Option Analysis
  | .obj fields => do
    return {
      success := ← truth? "success" fields
      tokens := ← items? Token.ofReport? (← value? "tokens" fields)
      lexicalErrors := ← items? LexicalError.ofReport? (← value? "lexicalErrors" fields)
      syntaxErrors := ← items? SyntaxError.ofReport? (← value? "syntaxErrors" fields)
      declarations := ← Declarations.ofReport? (← value? "declarations" fields)
      program := ← Program.ofReport? (← value? "program" fields)
      python := ← text? "python" fields }
  | _ => none

theorem ofReport?_report (a : Analysis) : ofReport? a.report = some a := by
  simp [report, ofReport?, truth?, text?, items?_map Token.ofReport?_report,
    items?_map LexicalError.ofReport?_report, items?_map SyntaxError.ofReport?_report,
    Declarations.ofReport?_report, Program.ofReport?_report]

end Analysis

/-! ## Names that occur once -/

namespace Json

mutual

/-- No object names a field twice, at any depth. -/
@[simp] def WellKeyed : Json → Prop
  | arr items => AllWellKeyed items
  | obj fields => (fields.map (·.1)).Nodup ∧ FieldsWellKeyed fields
  | _ => True

@[simp] def AllWellKeyed : List Json → Prop
  | [] => True
  | item :: items => WellKeyed item ∧ AllWellKeyed items

@[simp] def FieldsWellKeyed : List (String × Json) → Prop
  | [] => True
  | (_, value) :: fields => WellKeyed value ∧ FieldsWellKeyed fields

end

/-- A form can be put in front of fields that have none. -/
theorem wellKeyed_type {fields : List (String × Json)} (form : String)
    (h : (obj fields).WellKeyed) (hType : "type" ∉ fields.map (·.1)) :
    (obj (("type", .str form) :: fields)).WellKeyed := by
  rw [WellKeyed] at h
  exact ⟨List.nodup_cons.2 ⟨hType, h.1⟩, trivial, h.2⟩

theorem wellKeyed_ofOption {α : Type} {report : α → Json} (h : ∀ a, (report a).WellKeyed)
    (a : Option α) : (ofOption report a).WellKeyed := by
  cases a with
  | none => trivial
  | some a => exact h a

theorem allWellKeyed_map {α : Type} {report : α → Json} (h : ∀ a, (report a).WellKeyed)
    (l : List α) : AllWellKeyed (l.map report) := by
  induction l with
  | nil => trivial
  | cons a l ih => exact ⟨h a, ih⟩

theorem fieldsWellKeyed_map {α : Type} {report : α → Json} (h : ∀ a, (report a).WellKeyed)
    (name : α → String) (l : List α) :
    FieldsWellKeyed (l.map fun a => (name a, report a)) := by
  induction l with
  | nil => trivial
  | cons a l ih => exact ⟨h a, ih⟩

end Json

theorem Position.wellKeyed_report (p : Position) : p.report.WellKeyed := by
  simp [report, fields]

theorem Token.wellKeyed_report (t : Token) : t.report.WellKeyed := by
  simp [report, Position.fields]

theorem LexicalError.wellKeyed_report (e : LexicalError) : e.report.WellKeyed := by
  simp [report, Position.fields]

theorem SyntaxFault.wellKeyed_report (fault : SyntaxFault) : fault.report.WellKeyed := by
  cases fault <;> simp [report]

theorem SyntaxError.wellKeyed_report (e : SyntaxError) : e.report.WellKeyed := by
  simp [report, Position.fields, SyntaxFault.wellKeyed_report]

theorem Declared.wellKeyed_report (d : Declared) : d.report.WellKeyed := by
  simp [report, Position.fields]

theorem Declarations.wellKeyed_report_iff (t : Declarations) :
    t.report.WellKeyed ↔ t.names.Nodup := by
  simp [report, names, fieldsWellKeyed_map Declared.wellKeyed_report, Function.comp_def]

theorem Expr.wellKeyed_report (e : Expr) : e.report.WellKeyed := by
  induction e with
  | binary op left right ihLeft ihRight => simp [report, ihLeft, ihRight]
  | unary op operand ih => simp [report, ih]
  | group inner ih => simp [report, ih]
  | literal l => simp [report]
  | identifier name pos => simp [report, Position.wellKeyed_report]
  | invalid p => simp [report, Placeholder.fields, Position.wellKeyed_report]

theorem Declaration.wellKeyed_fields (d : Declaration) : (Json.obj d.fields).WellKeyed := by
  simp [fields, wellKeyed_ofOption Expr.wellKeyed_report, Position.wellKeyed_report]

theorem Assignment.wellKeyed_fields (a : Assignment) : (Json.obj a.fields).WellKeyed := by
  simp [fields, Expr.wellKeyed_report, Position.wellKeyed_report]

theorem ForInit.wellKeyed_report (init : ForInit) : init.report.WellKeyed := by
  cases init with
  | declaration d => exact ⟨by simp, d.wellKeyed_fields, trivial⟩
  | assignment a => exact ⟨by simp, a.wellKeyed_fields, trivial⟩

mutual

theorem Stmt.wellKeyed_report : ∀ s : Stmt, s.report.WellKeyed
  | .declaration d => wellKeyed_type _ d.wellKeyed_fields (by simp [Declaration.fields])
  | .assignment a => wellKeyed_type _ a.wellKeyed_fields (by simp [Assignment.fields])
  | .ifElse i => by
      rw [Stmt.report]
      exact wellKeyed_type _ (IfStatement.wellKeyed_fields i)
        (by cases i; simp [IfStatement.fields])
  | .forLoop init condition update body pos => by
      simp [Stmt.report, init.wellKeyed_report, condition.wellKeyed_report,
        wellKeyed_ofOption Assignment.wellKeyed_fields, allWellKeyed_reportAll body,
        pos.wellKeyed_report]
  | .whileLoop condition body pos => by
      simp [Stmt.report, condition.wellKeyed_report, allWellKeyed_reportAll body,
        pos.wellKeyed_report]
  | .print argument newline pos => by
      simp [Stmt.report, wellKeyed_ofOption Expr.wellKeyed_report, pos.wellKeyed_report]
  | .invalid p => by
      simp [Stmt.report, Placeholder.fields, Position.wellKeyed_report]

theorem IfStatement.wellKeyed_fields : ∀ i : IfStatement, (Json.obj i.fields).WellKeyed
  | ⟨condition, thenBody, orElse, pos⟩ => by
      simp [IfStatement.fields, condition.wellKeyed_report, allWellKeyed_reportAll thenBody,
        Else.wellKeyed_report orElse, pos.wellKeyed_report]

theorem Else.wellKeyed_report : ∀ e : Else, e.report.WellKeyed
  | .none => by simp [Else.report]
  | .elseIf i => by
      rw [Else.report]
      exact ⟨by simp, IfStatement.wellKeyed_fields i, trivial⟩
  | .block body => by simp [Else.report, allWellKeyed_reportAll body]

theorem allWellKeyed_reportAll : ∀ body : List Stmt, AllWellKeyed (reportAll body)
  | [] => by simp [reportAll]
  | s :: ss => by
      rw [reportAll]
      exact ⟨Stmt.wellKeyed_report s, allWellKeyed_reportAll ss⟩

end

theorem Program.wellKeyed_report (p : Program) : p.report.WellKeyed := by
  simp [report, allWellKeyed_reportAll]

theorem Analysis.wellKeyed_report_iff (a : Analysis) :
    a.report.WellKeyed ↔ a.declarations.names.Nodup := by
  simp [report, allWellKeyed_map Token.wellKeyed_report,
    allWellKeyed_map LexicalError.wellKeyed_report, allWellKeyed_map SyntaxError.wellKeyed_report,
    Declarations.wellKeyed_report_iff, Program.wellKeyed_report]

/-- A report loses nothing.  Every analysis is read back from its report, its trees of any shape
and depth, so that two analyses never have the same report; and where the names in the table are
distinct, and only there, no object of the report names a field twice. -/
theorem report_loses_nothing :
    (∀ a : Analysis, Analysis.ofReport? a.report = some a) ∧
      Function.Injective Analysis.report ∧
      ∀ a : Analysis, a.report.WellKeyed ↔ a.declarations.names.Nodup := by
  refine ⟨Analysis.ofReport?_report, fun a b hSame => ?_, Analysis.wellKeyed_report_iff⟩
  have hRead := a.ofReport?_report
  rw [hSame, b.ofReport?_report] at hRead
  exact (Option.some.inj hRead).symm

end Braceless

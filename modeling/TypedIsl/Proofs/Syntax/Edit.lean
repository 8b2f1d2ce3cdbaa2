import TypedIsl.Syntax.Basic

/-!
# Trees with parts replaced

An edit replaces the ranges, the parameter lists and the docstrings of a tree and keeps its form.
Two edits serve as yardsticks: `Edit.positions` forgets where things stand, and
`Edit.annotations` forgets types and docstrings.
-/

namespace TypedIsl

structure Edit where
  range : Range → Range
  params : Params → Params
  docs : List String → List String

def Ident.edit (e : Edit) (ident : Ident) : Ident :=
  ⟨ident.name, e.range ident.range⟩

mutual

def Value.edit (e : Edit) : Value → Value
  | .literal range value => .literal (e.range range) value
  | .name ident => .name (ident.edit e)
  | .branch range condition thenArm elseArm =>
      .branch (e.range range) (condition.edit e) (thenArm.edit e) (elseArm.edit e)
  | .cond range clauses none => .cond (e.range range) (Clause.editAll e clauses) none
  | .cond range clauses (some value) =>
      .cond (e.range range) (Clause.editAll e clauses) (some (value.edit e))
  | .lambda range params body => .lambda (e.range range) (e.params params) (body.edit e)
  | .locals range definitions body =>
      .locals (e.range range) (Definition.editAll e definitions) (body.edit e)
  | .lets range kind bindings body =>
      .lets (e.range range) kind (LetBinding.editAll e bindings) (body.edit e)
  | .require range library => .require (e.range range) (library.edit e)
  | .call range callee args => .call (e.range range) (callee.edit e) (Value.editAll e args)

def Value.editAll (e : Edit) : List Value → List Value
  | [] => []
  | value :: values => value.edit e :: Value.editAll e values

def Clause.edit (e : Edit) : Clause → Clause
  | .mk range condition body => .mk (e.range range) (condition.edit e) (body.edit e)

def Clause.editAll (e : Edit) : List Clause → List Clause
  | [] => []
  | clause :: clauses => clause.edit e :: Clause.editAll e clauses

def LetBinding.edit (e : Edit) : LetBinding → LetBinding
  | .mk range name value => .mk (e.range range) (name.edit e) (value.edit e)

def LetBinding.editAll (e : Edit) : List LetBinding → List LetBinding
  | [] => []
  | binding :: bindings => binding.edit e :: LetBinding.editAll e bindings

def Definition.edit (e : Edit) : Definition → Definition
  | .function range docs name params body =>
      .function (e.range range) (e.docs docs) (name.edit e) (e.params params) (body.edit e)
  | .constant range docs name value =>
      .constant (e.range range) (e.docs docs) (name.edit e) (value.edit e)

def Definition.editAll (e : Edit) : List Definition → List Definition
  | [] => []
  | definition :: definitions => definition.edit e :: Definition.editAll e definitions

end

def StructDefinition.edit (e : Edit) (definition : StructDefinition) : StructDefinition :=
  ⟨e.range definition.range, e.docs definition.docs, definition.name.edit e,
    e.params definition.fields⟩

def TopLevel.edit (e : Edit) : TopLevel → TopLevel
  | definition form => .definition (form.edit e)
  | struct form => .struct (form.edit e)
  | value form => .value (form.edit e)

def Program.edit (e : Edit) (program : Program) : Program :=
  program.map (TopLevel.edit e)

/-! ## Forgetting positions -/

def Ident.unranged (ident : Ident) : Ident :=
  ⟨ident.name, default⟩

mutual

def TypeExpr.unranged : TypeExpr → TypeExpr
  | .named name => .named name.unranged
  | .apply _ function args => .apply default function.unranged (TypeExpr.unrangedAll args)

def TypeExpr.unrangedAll : List TypeExpr → List TypeExpr
  | [] => []
  | type :: types => type.unranged :: TypeExpr.unrangedAll types

end

def TypedParam.unranged (param : TypedParam) : TypedParam :=
  ⟨param.name.unranged, param.type.unranged⟩

def Params.unranged : Params → Params
  | typed _ params result? =>
      .typed default (params.map TypedParam.unranged) (result?.map TypeExpr.unranged)
  | untyped _ names => .untyped default (names.map Ident.unranged)

/-- Puts every range of a tree at one place. -/
def Edit.positions : Edit :=
  ⟨fun _ => default, Params.unranged, id⟩

@[simp] theorem Edit.positions_range (range : Range) : positions.range range = default := rfl

@[simp] theorem Edit.positions_params (params : Params) :
    positions.params params = params.unranged := rfl

@[simp] theorem Edit.positions_docs (docs : List String) : positions.docs docs = docs := rfl

@[simp] theorem Ident.edit_positions (ident : Ident) :
    ident.edit .positions = ident.unranged := rfl

/-- A value without its positions. -/
def Value.unranged (value : Value) : Value :=
  value.edit .positions

/-- A program without its positions. -/
def Program.unranged (program : Program) : Program :=
  program.edit .positions

/-! ## Forgetting types and docstrings -/

/-- The untyped list of the same names. -/
def Params.withoutTypes (params : Params) : Params :=
  .untyped params.range params.names

/-- Makes every parameter list untyped and empties every list of docstrings. -/
def Edit.annotations : Edit :=
  ⟨id, Params.withoutTypes, fun _ => []⟩

@[simp] theorem Edit.annotations_range (range : Range) : annotations.range range = range := rfl

@[simp] theorem Edit.annotations_params (params : Params) :
    annotations.params params = params.withoutTypes := rfl

@[simp] theorem Edit.annotations_docs (docs : List String) : annotations.docs docs = [] := rfl

@[simp] theorem Ident.edit_annotations (ident : Ident) : ident.edit .annotations = ident := rfl

/-- A program without types and docstrings. -/
def Program.plain (program : Program) : Program :=
  program.edit .annotations

/-! ## Edits one after the other -/

/-- First `e`, then `f`. -/
def Edit.andThen (e f : Edit) : Edit :=
  ⟨f.range ∘ e.range, f.params ∘ e.params, f.docs ∘ e.docs⟩

variable (e f : Edit)

theorem Ident.edit_edit (ident : Ident) : (ident.edit e).edit f = ident.edit (e.andThen f) := rfl

mutual

theorem Value.edit_edit (value : Value) : (value.edit e).edit f = value.edit (e.andThen f) := by
  match value with
  | .literal .. | .name .. | .require .. => rfl
  | .branch _ condition thenArm elseArm =>
      simp [Value.edit, Value.edit_edit condition, Value.edit_edit thenArm,
        Value.edit_edit elseArm, Edit.andThen]
  | .cond _ clauses none => simp [Value.edit, Clause.editAll_editAll clauses, Edit.andThen]
  | .cond _ clauses (some value) =>
      simp [Value.edit, Clause.editAll_editAll clauses, Value.edit_edit value, Edit.andThen]
  | .lambda _ params body => simp [Value.edit, Value.edit_edit body, Edit.andThen]
  | .locals _ definitions body =>
      simp [Value.edit, Definition.editAll_editAll definitions, Value.edit_edit body,
        Edit.andThen]
  | .lets _ _ bindings body =>
      simp [Value.edit, LetBinding.editAll_editAll bindings, Value.edit_edit body, Edit.andThen]
  | .call _ callee args =>
      simp [Value.edit, Value.edit_edit callee, Value.editAll_editAll args, Edit.andThen]
termination_by structural value

theorem Value.editAll_editAll (values : List Value) :
    Value.editAll f (Value.editAll e values) = Value.editAll (e.andThen f) values := by
  match values with
  | [] => rfl
  | value :: values => simp [Value.editAll, Value.edit_edit value, Value.editAll_editAll values]
termination_by structural values

theorem Clause.edit_edit (clause : Clause) :
    (clause.edit e).edit f = clause.edit (e.andThen f) := by
  match clause with
  | .mk _ condition body =>
      simp [Clause.edit, Value.edit_edit condition, Value.edit_edit body, Edit.andThen]
termination_by structural clause

theorem Clause.editAll_editAll (clauses : List Clause) :
    Clause.editAll f (Clause.editAll e clauses) = Clause.editAll (e.andThen f) clauses := by
  match clauses with
  | [] => rfl
  | clause :: clauses =>
      simp [Clause.editAll, Clause.edit_edit clause, Clause.editAll_editAll clauses]
termination_by structural clauses

theorem LetBinding.edit_edit (binding : LetBinding) :
    (binding.edit e).edit f = binding.edit (e.andThen f) := by
  match binding with
  | .mk _ name value =>
      simp [LetBinding.edit, Value.edit_edit value, Ident.edit_edit, Edit.andThen]
termination_by structural binding

theorem LetBinding.editAll_editAll (bindings : List LetBinding) :
    LetBinding.editAll f (LetBinding.editAll e bindings) =
      LetBinding.editAll (e.andThen f) bindings := by
  match bindings with
  | [] => rfl
  | binding :: bindings =>
      simp [LetBinding.editAll, LetBinding.edit_edit binding,
        LetBinding.editAll_editAll bindings]
termination_by structural bindings

theorem Definition.edit_edit (definition : Definition) :
    (definition.edit e).edit f = definition.edit (e.andThen f) := by
  match definition with
  | .function _ _ name _ body =>
      simp [Definition.edit, Value.edit_edit body, Ident.edit_edit, Edit.andThen]
  | .constant _ _ name value =>
      simp [Definition.edit, Value.edit_edit value, Ident.edit_edit, Edit.andThen]
termination_by structural definition

theorem Definition.editAll_editAll (definitions : List Definition) :
    Definition.editAll f (Definition.editAll e definitions) =
      Definition.editAll (e.andThen f) definitions := by
  match definitions with
  | [] => rfl
  | definition :: definitions =>
      simp [Definition.editAll, Definition.edit_edit definition,
        Definition.editAll_editAll definitions]
termination_by structural definitions

end

theorem TopLevel.edit_edit (form : TopLevel) : (form.edit e).edit f = form.edit (e.andThen f) := by
  cases form with
  | definition form => simp [TopLevel.edit, Definition.edit_edit]
  | struct form => rfl
  | value form => simp [TopLevel.edit, Value.edit_edit]

theorem Program.edit_edit (program : Program) :
    Program.edit f (Program.edit e program) = Program.edit (e.andThen f) program := by
  simp [Program.edit, Function.comp_def, TopLevel.edit_edit]

/-! ## Edits of lists -/

theorem Value.editAll_eq (values : List Value) :
    Value.editAll e values = values.map (Value.edit e) := by
  induction values with
  | nil => rfl
  | cons value values ih => rw [Value.editAll, ih, List.map_cons]

theorem Clause.editAll_eq (clauses : List Clause) :
    Clause.editAll e clauses = clauses.map (Clause.edit e) := by
  induction clauses with
  | nil => rfl
  | cons clause clauses ih => rw [Clause.editAll, ih, List.map_cons]

theorem LetBinding.editAll_eq (bindings : List LetBinding) :
    LetBinding.editAll e bindings = bindings.map (LetBinding.edit e) := by
  induction bindings with
  | nil => rfl
  | cons binding bindings ih => rw [LetBinding.editAll, ih, List.map_cons]

theorem Definition.editAll_eq (definitions : List Definition) :
    Definition.editAll e definitions = definitions.map (Definition.edit e) := by
  induction definitions with
  | nil => rfl
  | cons definition definitions ih => rw [Definition.editAll, ih, List.map_cons]

theorem Clause.ne_nil_of_editAll {e f : Edit} {clauses others : List Clause}
    (h : Clause.editAll e clauses = Clause.editAll f others) (hne : others ≠ []) :
    clauses ≠ [] := by
  rintro rfl
  cases others with
  | nil => exact hne rfl
  | cons clause clauses => exact absurd h (by simp [Clause.editAll])

theorem Clause.editAll_ne_nil {e : Edit} {clauses : List Clause} (h : clauses ≠ []) :
    Clause.editAll e clauses ≠ [] := by
  cases clauses with
  | nil => exact absurd rfl h
  | cons clause clauses => simp [Clause.editAll]

end TypedIsl

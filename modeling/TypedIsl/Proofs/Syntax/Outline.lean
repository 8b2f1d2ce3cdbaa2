import TypedIsl.Proofs.Syntax.Moving
import TypedIsl.Syntax.Outline

/-!
# Outlines and positions

The outline of a tree shows lines and columns. Moving the tree does not change it if every position
keeps its line and its column.
-/

namespace TypedIsl

/-- Positions keep their lines and columns, and only their indices change. -/
def KeepsPlaces (f : Position → Position) : Prop :=
  ∀ p, (f p).line = p.line ∧ (f p).column = p.column

section

variable {f : Position → Position} (hf : KeepsPlaces f)
include hf

theorem Position.text_move (p : Position) : (f p).text = p.text := by
  rw [text, text, (hf p).1, (hf p).2]

theorem Range.text_move (range : Range) : (range.move f).text = range.text := by
  rw [text, text, Range.move, Position.text_move hf, Position.text_move hf]

omit hf in
mutual

theorem TypeExpr.text_move (type : TypeExpr) : (type.move f).text = type.text := by
  match type with
  | .named name => rfl
  | .apply _ function args =>
      simp only [TypeExpr.move, TypeExpr.text, TypeExpr.argTexts_moveAll args, Ident.move]
termination_by structural type

theorem TypeExpr.argTexts_moveAll (types : List TypeExpr) :
    TypeExpr.argTexts (TypeExpr.moveAll f types) = TypeExpr.argTexts types := by
  match types with
  | [] => rfl
  | type :: types =>
      simp only [TypeExpr.moveAll, TypeExpr.argTexts, type.text_move,
        TypeExpr.argTexts_moveAll types]
termination_by structural types

end

theorem Params.outline_move (depth : Nat) (params : Params) :
    (params.move f).outline depth = params.outline depth := by
  cases params with
  | untyped range names =>
      simp [Params.move, Params.outline, Range.text_move hf, Function.comp_def, Ident.move]
  | typed range params result? =>
      cases result? <;>
        simp [Params.move, Params.outline, Range.text_move hf, Function.comp_def, TypedParam.move,
          Ident.move, TypeExpr.text_move]

-- The hypothesis is used at ranges, which the linter does not see in a mutual block.
set_option linter.unusedSectionVars false in
mutual

theorem Value.outline_move (depth : Nat) (value : Value) :
    (value.edit (.moving f)).outline depth = value.outline depth := by
  match value with
  | .literal .. | .name .. | .require .. =>
      simp [Value.edit, Value.outline, Range.text_move hf, Ident.edit]
  | .branch _ condition thenArm elseArm =>
      simp [Value.edit, Value.outline, Range.text_move hf, condition.outline_move,
        thenArm.outline_move, elseArm.outline_move]
  | .cond _ clauses none =>
      simp [Value.edit, Value.outline, Range.text_move hf, Clause.outlines_move _ clauses]
  | .cond _ clauses (some value) =>
      simp [Value.edit, Value.outline, Range.text_move hf, Clause.outlines_move _ clauses,
        value.outline_move]
  | .lambda _ params body =>
      simp [Value.edit, Value.outline, Range.text_move hf, params.outline_move hf,
        body.outline_move]
  | .locals _ definitions body =>
      simp [Value.edit, Value.outline, Range.text_move hf, Definition.outlines_move _ definitions,
        body.outline_move]
  | .lets _ _ bindings body =>
      simp [Value.edit, Value.outline, Range.text_move hf, LetBinding.outlines_move _ bindings,
        body.outline_move]
  | .call _ callee args =>
      simp [Value.edit, Value.outline, Range.text_move hf, callee.outline_move,
        Value.outlines_move _ args]
termination_by structural value

theorem Value.outlines_move (depth : Nat) (values : List Value) :
    Value.outlines depth (Value.editAll (.moving f) values) = Value.outlines depth values := by
  match values with
  | [] => rfl
  | value :: values =>
      simp only [Value.editAll, Value.outlines, value.outline_move, Value.outlines_move _ values]
termination_by structural values

theorem Clause.outline_move (depth : Nat) (clause : Clause) :
    (clause.edit (.moving f)).outline depth = clause.outline depth := by
  match clause with
  | .mk _ condition body =>
      simp [Clause.edit, Clause.outline, Range.text_move hf, condition.outline_move,
        body.outline_move]
termination_by structural clause

theorem Clause.outlines_move (depth : Nat) (clauses : List Clause) :
    Clause.outlines depth (Clause.editAll (.moving f) clauses) = Clause.outlines depth clauses := by
  match clauses with
  | [] => rfl
  | clause :: clauses =>
      simp only [Clause.editAll, Clause.outlines, clause.outline_move,
        Clause.outlines_move _ clauses]
termination_by structural clauses

theorem LetBinding.outline_move (depth : Nat) (binding : LetBinding) :
    (binding.edit (.moving f)).outline depth = binding.outline depth := by
  match binding with
  | .mk _ name value =>
      simp [LetBinding.edit, LetBinding.outline, Range.text_move hf, value.outline_move, Ident.edit]
termination_by structural binding

theorem LetBinding.outlines_move (depth : Nat) (bindings : List LetBinding) :
    LetBinding.outlines depth (LetBinding.editAll (.moving f) bindings) =
      LetBinding.outlines depth bindings := by
  match bindings with
  | [] => rfl
  | binding :: bindings =>
      simp only [LetBinding.editAll, LetBinding.outlines, binding.outline_move,
        LetBinding.outlines_move _ bindings]
termination_by structural bindings

theorem Definition.outline_move (depth : Nat) (definition : Definition) :
    (definition.edit (.moving f)).outline depth = definition.outline depth := by
  match definition with
  | .function _ docs name params body =>
      simp [Definition.edit, Definition.outline, Range.text_move hf, params.outline_move hf,
        body.outline_move, Ident.edit]
  | .constant _ docs name value =>
      simp [Definition.edit, Definition.outline, Range.text_move hf, value.outline_move, Ident.edit]
termination_by structural definition

theorem Definition.outlines_move (depth : Nat) (definitions : List Definition) :
    Definition.outlines depth (Definition.editAll (.moving f) definitions) =
      Definition.outlines depth definitions := by
  match definitions with
  | [] => rfl
  | definition :: definitions =>
      simp only [Definition.editAll, Definition.outlines, definition.outline_move,
        Definition.outlines_move _ definitions]
termination_by structural definitions

end

theorem TopLevel.outline_move (form : TopLevel) :
    (form.edit (.moving f)).outline = form.outline := by
  cases form with
  | value form => exact form.outline_move hf 0
  | definition form => exact form.outline_move hf 0
  | struct form =>
      simp [TopLevel.edit, TopLevel.outline, StructDefinition.outline, StructDefinition.edit,
        Range.text_move hf, form.fields.outline_move hf, Ident.edit]

theorem Program.outline_move (program : Program) :
    Program.outline (Program.edit (.moving f) program) = Program.outline program := by
  rw [outline, outline, edit, List.map_map]
  exact congrArg String.join (List.map_congr_left fun form _ => form.outline_move hf)

end

end TypedIsl

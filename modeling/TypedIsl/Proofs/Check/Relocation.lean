import TypedIsl.Check.Program
import TypedIsl.Proofs.Check.Matching
import TypedIsl.Proofs.Syntax.Moving

/-!
# Checking a program in another place

If the positions of a program are moved, and no two of them are brought together, its check finds
the same types and the same problems, with all ranges moved likewise.
-/

namespace TypedIsl

/-! ## Diagnostics and scopes -/

section

variable (f : Position → Position)

def Note.move (note : Note) : Note :=
  ⟨note.text, note.range.move f⟩

def Diagnostic.move (d : Diagnostic) : Diagnostic :=
  ⟨d.problem, d.range.move f, d.notes.map (Note.move f)⟩

def Binding.move (binding : Binding) : Binding :=
  ⟨binding.type, binding.definedAt?.map (Range.move f)⟩

def Scope.move (scope : Scope) : Scope :=
  ⟨scope.entries.map fun (name, binding) => (name, binding.move f)⟩

def Scopes.move (scopes : Scopes) : Scopes :=
  ⟨scopes.current.move f, scopes.outer.map (Scope.move f)⟩

/-- The second diagnostics are the first ones moved. -/
def Moved (ds es : List Diagnostic) : Prop :=
  es = ds.map (Diagnostic.move f)

theorem additive_moved : Additive (Moved f) := by
  refine ⟨rfl, ?_⟩
  rintro ds _ more _ rfl rfl
  exact List.map_append.symm

theorem report_moved (problem : Problem) (range : Range) (notes : List Note) :
    (Judged.report ⟨problem, range, notes⟩).Match (Moved f) Eq
      (Judged.report ⟨problem, range.move f, notes.map (Note.move f)⟩) :=
  .report rfl

theorem Scope.globals_move (scope : Scope) : Scope.globals (scope.move f) = scope.globals := by
  simp [Scope.globals, Scope.move, List.filterMap_map, Binding.move]

theorem Language.scope_move (language : Language) : language.scope.move f = language.scope := by
  simp [Language.scope, Scope.move, Function.comp_def, Binding.move]

theorem Table.findEntry?_move (name : String) (entries : List (String × Binding)) :
    findEntry? name (entries.map fun (name, binding) => (name, binding.move f)) =
      ( findEntry? name entries).map (Binding.move f) := by
  induction entries with
  | nil => rfl
  | cons entry entries ih =>
      rw [List.map_cons, findEntry?, findEntry?, ih]
      split <;> rfl

theorem Table.putEntry_move (name : String) (binding : Binding)
    (entries : List (String × Binding)) :
    (putEntry name binding entries).map (fun (name, binding) => (name, binding.move f)) =
      putEntry name (binding.move f)
        (entries.map fun (name, binding) => (name, binding.move f)) := by
  induction entries with
  | nil => rfl
  | cons entry entries ih =>
      rw [List.map_cons, putEntry, putEntry]
      split
      · rfl
      · rw [List.map_cons, ih]

namespace Scopes

variable (scopes : Scopes)

@[simp] theorem local?_move (name : String) :
    (scopes.move f).local? name = (scopes.local? name).map (Binding.move f) :=
  Table.findEntry?_move f name scopes.current.entries

theorem get?_move (name : String) :
    (scopes.move f).get? name = (scopes.get? name).map (Binding.move f) := by
  have hget : ∀ list : List Scope, (list.map (Scope.move f)).findSome? (·.get? name) =
      (list.findSome? (·.get? name)).map (Binding.move f) := by
    intro list
    induction list with
    | nil => rfl
    | cons scope list ih =>
        have hscope : Table.get? (scope.move f) name = (scope.get? name).map (Binding.move f) :=
          Table.findEntry?_move f name scope.entries
        rw [List.map_cons, List.findSome?_cons, List.findSome?_cons, hscope]
        cases scope.get? name with
        | none => exact ih
        | some binding => rfl
  exact hget (scopes.current :: scopes.outer)

theorem bind_move (ident : Ident) (type : Ty) :
    (scopes.move f).bind (ident.move f) type = (scopes.bind ident type).move f :=
  congrArg (fun entries => Scopes.mk ⟨entries⟩ (scopes.outer.map (Scope.move f)))
    (Table.putEntry_move f ident.name ⟨type, some ident.range⟩ scopes.current.entries).symm

theorem conflict?_move (ident : Ident) (problem : Problem) :
    (scopes.move f).conflict? (ident.move f) problem =
      (scopes.conflict? ident problem).map (Diagnostic.move f) := by
  rw [conflict?, conflict?, Ident.move, local?_move]
  cases scopes.local? ident.name with
  | none => rfl
  | some binding =>
      obtain ⟨type, definedAt?⟩ := binding
      cases definedAt? <;> rfl

theorem use_move (ident : Ident) :
    (scopes.use ident).Match (Moved f) Eq ((scopes.move f).use (ident.move f)) := by
  have hR := additive_moved f
  rw [use, use, get?_move, Ident.move]
  cases scopes.get? ident.name with
  | none => exact .step hR (report_moved f _ _ _) fun _ => .pure hR rfl
  | some binding => exact .pure hR rfl

theorem bindNew_move (ident : Ident) (type : Ty) (problem : Problem) :
    (scopes.bindNew ident type problem).Match (Moved f) (fun s t => t = s.move f)
      ((scopes.move f).bindNew (ident.move f) type problem) := by
  have hR := additive_moved f
  rw [bindNew, bindNew, conflict?_move]
  cases scopes.conflict? ident problem with
  | none => exact .pure hR (scopes.bind_move f ident type)
  | some d => exact .step hR (.report rfl) fun _ => .pure hR rfl

theorem bindParams_move (params : List (Ident × Ty)) :
    (scopes.bindParams params).Match (Moved f) (fun s t => t = s.move f)
      ((scopes.move f).bindParams (params.map fun (ident, type) => (ident.move f, type))) := by
  have hR := additive_moved f
  induction params generalizing scopes with
  | nil => exact .pure hR rfl
  | cons param params ih =>
      refine .bind hR (scopes.bindNew_move f param.1 param.2 _) ?_
      rintro inner _ rfl
      exact ih inner

/-- Definitions are told apart by their ranges, so no two positions may be brought together. -/
theorem finalize_move (hf : Function.Injective f) (ident : Ident) (type : Ty) :
    (scopes.move f).finalize (ident.move f) type = (scopes.finalize ident type).move f := by
  have hrange : ∀ r s : Range, r.move f = s.move f ↔ r = s := by
    rintro ⟨start, stop⟩ ⟨start', stop'⟩
    simp [Range.move, hf.eq_iff]
  have hsame : ((scopes.move f).local? (ident.move f).name).any
        (fun binding => binding.definedAt? = some (ident.move f).range) =
      (scopes.local? ident.name).any fun binding => binding.definedAt? = some ident.range := by
    rw [Ident.move, local?_move, Option.any_map]
    congr 1
    funext binding
    cases hbinding : binding.definedAt? <;> simp [Binding.move, hbinding, hrange]
  rw [finalize, finalize, hsame, bind_move]
  split <;> rfl

end Scopes

end

/-! ## Annotations and calls -/

section

variable {f : Position → Position} {structs : List String}

theorem unknownType_move (name : Ident) :
    (unknownType name).Match (Moved f) Eq (unknownType (name.move f)) := by
  have hR := additive_moved f
  exact .step hR (report_moved f _ _ _) fun _ => .pure hR rfl

theorem TypeExpr.resolve_move (f : Position → Position) (structs : List String)
    (type : TypeExpr) :
    (type.resolve structs).Match (Moved f) Eq ((type.move f).resolve structs) := by
  have hR := additive_moved f
  cases type with
  | named name =>
      have hname : (name.move f).name = name.name := rfl
      rw [TypeExpr.move, TypeExpr.resolve, TypeExpr.resolve, hname]
      split
      · exact .pure hR rfl
      · exact unknownType_move name
  | apply range function args =>
      have hname : (function.move f).name = function.name := rfl
      rw [TypeExpr.move]
      unfold TypeExpr.resolve
      rw [hname]
      split
      · exact .pure hR rfl
      · split
        · cases args with
          | nil => exact .pure hR rfl
          | cons arg args =>
              exact .step hR (arg.resolve_move f structs) fun _ => .pure hR rfl
        · exact unknownType_move function

theorem resolveParams_move (f : Position → Position) (structs : List String)
    (params : List TypedParam) :
    (resolveParams structs params).Match (Moved f) Eq
      (resolveParams structs (params.map (TypedParam.move f))) := by
  have hR := additive_moved f
  induction params with
  | nil => exact .pure hR rfl
  | cons param params ih =>
      exact .step hR (param.type.resolve_move f structs) fun _ => .step hR ih fun _ => .pure hR rfl

theorem Params.declaredType_move (params : Params) :
    (params.move f).declaredType structs = params.declaredType structs := by
  cases params with
  | untyped _ names => simp [Params.move, declaredType, Function.comp_def]
  | typed _ params result? =>
      have hparams := (resolveParams_move f structs params).result
      cases result? with
      | none => rw [declaredType, hparams]; rfl
      | some declared =>
          have hdeclared := (declared.resolve_move f structs).result
          simp only [declaredType, hparams, hdeclared]
          rfl

theorem Params.fieldTypes_move (params : Params) :
    (params.fieldTypes structs).Match (Moved f) Eq ((params.move f).fieldTypes structs) := by
  cases params with
  | untyped range names => exact .pure (additive_moved f) (by simp [Function.comp_def])
  | typed range params result? => exact resolveParams_move f structs params

theorem bindTypedParams_move (scopes : Scopes) (params : List TypedParam) :
    (bindTypedParams structs scopes params).Match (Moved f)
      (fun s t => t = (s.1.move f, s.2))
      (bindTypedParams structs (scopes.move f) (params.map (TypedParam.move f))) := by
  have hR := additive_moved f
  induction params generalizing scopes with
  | nil => exact .pure hR rfl
  | cons param params ih =>
      refine .step hR (param.type.resolve_move f structs) fun type => ?_
      refine .bind hR (scopes.bindNew_move f param.name type _) ?_
      rintro inner _ rfl
      refine .bind hR (ih inner) ?_
      rintro ⟨last, types⟩ _ rfl
      exact .pure hR rfl

theorem TypedParam.zip_move (params : List TypedParam) (types : List Ty) :
    ((params.map (TypedParam.move f)).map (·.name)).zip types =
      ((params.map (·.name)).zip types).map fun (ident, type) => (ident.move f, type) := by
  have hnames : (params.map (TypedParam.move f)).map (·.name) =
      (params.map (·.name)).map (Ident.move f) := by
    rw [List.map_map, List.map_map]
    rfl
  rw [hnames, List.zip_map_left]
  rfl

theorem ensure_moved (holds : Bool) (range : Range) (problem : Problem) :
    (Judged.ensure holds range problem).Match (Moved f) Eq
      (Judged.ensure holds (range.move f) problem) := by
  unfold Judged.ensure
  split
  · exact .pure (additive_moved f) rfl
  · exact report_moved f problem range []

theorem judgeResult_move (function? : Option String) (body declared : Range)
    (expected actual : Ty) :
    (judgeResult function? body declared expected actual).Match (Moved f) Eq
      (judgeResult function? (body.move f) (declared.move f) expected actual) := by
  unfold judgeResult
  split
  · exact .pure (additive_moved f) rfl
  · exact report_moved f _ body _

theorem judgeArgs_move (callee : Callee) (position : Nat) (args : List (Range × Ty))
    (types : List Ty) :
    (judgeArgs callee position args types).Match (Moved f) Eq
      (judgeArgs callee position (args.map (Prod.map (Range.move f) id)) types) := by
  have hR := additive_moved f
  induction args generalizing position types with
  | nil => exact .pure hR rfl
  | cons arg args ih =>
      cases types with
      | nil => exact .pure hR rfl
      | cons type types => exact .step hR (ensure_moved _ _ _) fun _ => ih (position + 1) types

theorem judgeCall_move (range : Range) (callee : Callee) (params : List Param) (result : Ty)
    (args : List (Range × Ty)) :
    (judgeCall range callee params result args).Match (Moved f) Eq
      (judgeCall (range.move f) callee params result (args.map (Prod.map (Range.move f) id))) := by
  have hR := additive_moved f
  unfold judgeCall
  rw [List.length_map]
  split
  · exact .step hR (judgeArgs_move callee 1 args _) fun _ => .pure hR rfl
  · exact .step hR (report_moved f _ range []) fun _ => .pure hR rfl

theorem TypeExpr.range_move (f : Position → Position) (type : TypeExpr) :
    (type.move f).range = type.range.move f := by
  cases type <;> rfl

theorem Value.range_edit (e : Edit) (value : Value) :
    (value.edit e).range = e.range value.range := by
  match value with
  | .cond _ _ none | .cond _ _ (some _) => rfl
  | .literal .. | .name .. | .branch .. | .lambda .. | .locals .. | .lets .. | .require ..
  | .call .. => rfl

theorem Value.asCallee_edit (e : Edit) (value : Value) :
    (value.edit e).asCallee = value.asCallee := by
  match value with
  | .cond _ _ none | .cond _ _ (some _) => rfl
  | .literal .. | .name .. | .branch .. | .lambda .. | .locals .. | .lets .. | .require ..
  | .call .. => rfl

theorem Value.map_range_editAll (values : List Value) :
    (Value.editAll (.moving f) values).map Value.range =
      (values.map Value.range).map (Range.move f) := by
  rw [Value.editAll_eq, List.map_map, List.map_map]
  exact List.map_congr_left fun value _ => value.range_edit (.moving f)

end

/-! ## Values and definitions -/

section

variable {f : Position → Position} (hf : Function.Injective f) (structs : List String)

include hf

-- The hypothesis is used where definitions are checked, which the linter does not see in a mutual
-- block.
set_option linter.unusedSectionVars false in
mutual

theorem Value.check_move (value : Value) (scopes : Scopes) :
    (value.check structs scopes).Match (Moved f) Eq
      ((value.edit (.moving f)).check structs (scopes.move f)) := by
  have hR := additive_moved f
  match value with
  | .name ident => exact scopes.use_move f ident
  | .branch _ condition thenArm elseArm =>
      rw [Value.edit, Value.check, Value.check, condition.range_edit]
      refine .step hR (condition.check_move scopes) fun type => ?_
      refine .step hR (ensure_moved _ _ _) fun _ => ?_
      refine .step hR (thenArm.check_move scopes) fun _ => ?_
      exact .step hR (elseArm.check_move scopes) fun _ => .pure hR rfl
  | .cond _ clauses none =>
      rw [Value.edit, Value.check, Value.check]
      exact .step hR (Clause.checkAll_move clauses scopes) fun _ => .pure hR rfl
  | .cond _ clauses (some value) =>
      rw [Value.edit, Value.check, Value.check]
      refine .step hR (Clause.checkAll_move clauses scopes) fun _ => ?_
      exact .step hR (value.check_move scopes) fun _ => .pure hR rfl
  | .lambda _ (.untyped _ names) body =>
      rw [Value.edit]
      simp only [Edit.moving_params, Params.move, Value.check, List.map_map]
      have hparams := scopes.enter.bindParams_move f (names.map fun name => (name, .flexible))
      rw [List.map_map] at hparams
      refine .bind hR hparams ?_
      rintro inner _ rfl
      exact .step hR (body.check_move inner) fun _ => .pure hR rfl
  | .lambda _ (.typed _ params none) body =>
      rw [Value.edit]
      simp only [Edit.moving_params, Params.move, Value.check, Option.map_none]
      refine .bind hR (bindTypedParams_move scopes.enter params) ?_
      rintro ⟨inner, types⟩ _ rfl
      exact .step hR (body.check_move inner) fun _ => .pure hR rfl
  | .lambda _ (.typed _ params (some declared)) body =>
      rw [Value.edit]
      simp only [Edit.moving_params, Params.move, Value.check, Option.map_some]
      refine .bind hR (bindTypedParams_move scopes.enter params) ?_
      rintro ⟨inner, types⟩ _ rfl
      refine .step hR (body.check_move inner) fun type => ?_
      refine .step hR (declared.resolve_move f structs) fun expected => ?_
      have hresult :=
        judgeResult_move (f := f) none body.range declared.range expected type.collapse
      rw [body.range_edit, declared.range_move]
      exact .step hR hresult fun _ => .pure hR rfl
  | .locals _ definitions body =>
      rw [Value.edit, Value.check, Value.check]
      refine .bind hR (Definition.registerAll_move definitions scopes.enter) ?_
      rintro registered _ rfl
      refine .bind hR (Definition.checkAll_move definitions registered) ?_
      rintro inner _ rfl
      exact body.check_move inner
  | .lets _ _ bindings body =>
      rw [Value.edit, Value.check, Value.check]
      refine .bind hR (LetBinding.checkAll_move bindings scopes.enter) ?_
      rintro inner _ rfl
      exact body.check_move inner
  | .call range callee args =>
      rw [Value.edit, Value.check, Value.check, callee.asCallee_edit, callee.range_edit,
        Value.map_range_editAll]
      refine .step hR (callee.check_move scopes) fun type => ?_
      split
      · exact .pure hR rfl
      · refine .step hR (Value.checkAll_move args scopes) fun types => ?_
        have hcall := judgeCall_move (f := f) range callee.asCallee ‹_› ‹_›
          ((args.map Value.range).zip types)
        rwa [← List.zip_map_left] at hcall
      · exact .step hR (report_moved f _ _ []) fun _ => .pure hR rfl
  | .literal .. | .require .. => exact .pure hR rfl
termination_by structural value

theorem Value.checkAll_move (values : List Value) (scopes : Scopes) :
    (Value.checkAll structs scopes values).Match (Moved f) Eq
      (Value.checkAll structs (scopes.move f) (Value.editAll (.moving f) values)) := by
  have hR := additive_moved f
  match values with
  | [] => exact .pure hR rfl
  | value :: values =>
      refine .step hR (value.check_move scopes) fun _ => ?_
      exact .step hR (Value.checkAll_move values scopes) fun _ => .pure hR rfl
termination_by structural values

theorem Clause.check_move (clause : Clause) (scopes : Scopes) :
    (clause.check structs scopes).Match (Moved f) Eq
      ((clause.edit (.moving f)).check structs (scopes.move f)) := by
  have hR := additive_moved f
  match clause with
  | .mk _ condition body =>
      rw [Clause.edit, Clause.check, Clause.check, condition.range_edit]
      refine .step hR (condition.check_move scopes) fun type => ?_
      exact .step hR (ensure_moved _ _ _) fun _ => body.check_move scopes
termination_by structural clause

theorem Clause.checkAll_move (clauses : List Clause) (scopes : Scopes) :
    (Clause.checkAll structs scopes clauses).Match (Moved f) Eq
      (Clause.checkAll structs (scopes.move f) (Clause.editAll (.moving f) clauses)) := by
  have hR := additive_moved f
  match clauses with
  | [] => exact .pure hR rfl
  | clause :: clauses =>
      refine .step hR (clause.check_move scopes) fun _ => ?_
      exact .step hR (Clause.checkAll_move clauses scopes) fun _ => .pure hR rfl
termination_by structural clauses

theorem LetBinding.check_move (binding : LetBinding) (scopes : Scopes) :
    (binding.check structs scopes).Match (Moved f) (fun s t => t = s.move f)
      ((binding.edit (.moving f)).check structs (scopes.move f)) := by
  have hR := additive_moved f
  match binding with
  | .mk _ name value =>
      have hconflict : (scopes.move f).conflict? (name.edit (.moving f))
          (.alreadyDefinedLocally (name.edit (.moving f)).name) =
            (scopes.conflict? name (.alreadyDefinedLocally name.name)).map (Diagnostic.move f) :=
        scopes.conflict?_move f name _
      rw [LetBinding.edit, LetBinding.check, LetBinding.check, hconflict]
      cases scopes.conflict? name (.alreadyDefinedLocally name.name) with
      | some d => exact .step hR (.report rfl) fun _ => .pure hR rfl
      | none =>
          refine .step hR (value.check_move scopes) fun type => ?_
          exact .pure hR (scopes.bind_move f name type)
termination_by structural binding

theorem LetBinding.checkAll_move (bindings : List LetBinding) (scopes : Scopes) :
    (LetBinding.checkAll structs scopes bindings).Match (Moved f) (fun s t => t = s.move f)
      (LetBinding.checkAll structs (scopes.move f) (LetBinding.editAll (.moving f) bindings)) := by
  have hR := additive_moved f
  match bindings with
  | [] => exact .pure hR rfl
  | binding :: bindings =>
      refine .bind hR (binding.check_move scopes) ?_
      rintro inner _ rfl
      exact LetBinding.checkAll_move bindings inner
termination_by structural bindings

theorem Definition.register_move (definition : Definition) (scopes : Scopes) :
    (definition.register structs scopes).Match (Moved f) (fun s t => t = s.move f)
      ((definition.edit (.moving f)).register structs (scopes.move f)) := by
  have hR := additive_moved f
  match definition with
  | .function _ _ name params _ =>
      have htype : (params.move f).declaredType structs = params.declaredType structs :=
        params.declaredType_move ..
      rw [Definition.register]
      simp only [← htype]
      exact scopes.bindNew_move f name _ _
  | .constant _ _ name value =>
      have hconflict : (scopes.move f).conflict? (name.edit (.moving f))
          (.alreadyDefined (name.edit (.moving f)).name) =
            (scopes.conflict? name (.alreadyDefined name.name)).map (Diagnostic.move f) :=
        scopes.conflict?_move f name _
      rw [Definition.edit, Definition.register, Definition.register, hconflict,
        ← (value.check_move scopes).result]
      cases scopes.conflict? name (.alreadyDefined name.name) with
      | some d => exact .step hR (.report rfl) fun _ => .pure hR rfl
      | none => exact .pure hR (scopes.bind_move f name _)
termination_by structural definition

theorem Definition.registerAll_move (definitions : List Definition) (scopes : Scopes) :
    (Definition.registerAll structs scopes definitions).Match (Moved f) (fun s t => t = s.move f)
      (Definition.registerAll structs (scopes.move f)
        (Definition.editAll (.moving f) definitions)) := by
  have hR := additive_moved f
  match definitions with
  | [] => exact .pure hR rfl
  | definition :: definitions =>
      refine .bind hR (definition.register_move scopes) ?_
      rintro inner _ rfl
      exact Definition.registerAll_move definitions inner
termination_by structural definitions

theorem Definition.check_move (definition : Definition) (scopes : Scopes) :
    (definition.check structs scopes).Match (Moved f) (fun s t => t = s.move f)
      ((definition.edit (.moving f)).check structs (scopes.move f)) := by
  have hR := additive_moved f
  match definition with
  | .function _ _ name (.untyped _ names) body =>
      rw [Definition.edit]
      simp only [Edit.moving_params, Params.move, Definition.check, List.map_map]
      have hparams := scopes.enter.bindParams_move f (names.map fun name => (name, .flexible))
      rw [List.map_map] at hparams
      refine .step hR (report_moved f _ _ []) fun _ => ?_
      refine .bind hR hparams ?_
      rintro inner _ rfl
      exact .step hR (body.check_move inner) fun _ => .pure hR rfl
  | .function _ _ name (.typed _ params none) body =>
      rw [Definition.edit]
      simp only [Edit.moving_params, Params.move, Definition.check, Option.map_none]
      refine .step hR (resolveParams_move f structs params) fun types => ?_
      rw [TypedParam.zip_move]
      refine .bind hR (scopes.enter.bindParams_move f _) ?_
      rintro inner _ rfl
      refine .step hR (body.check_move inner) fun _ => ?_
      exact .step hR (report_moved f _ _ []) fun _ => .pure hR rfl
  | .function _ _ name (.typed _ params (some declared)) body =>
      rw [Definition.edit]
      simp only [Edit.moving_params, Params.move, Definition.check, Option.map_some]
      refine .step hR (resolveParams_move f structs params) fun types => ?_
      refine .step hR (declared.resolve_move f structs) fun expected => ?_
      rw [TypedParam.zip_move]
      refine .bind hR (scopes.enter.bindParams_move f _) ?_
      rintro inner _ rfl
      refine .step hR (body.check_move inner) fun type => ?_
      rw [body.range_edit, declared.range_move]
      refine .step hR (judgeResult_move _ _ _ _ _) fun _ => ?_
      exact .pure hR (scopes.finalize_move f hf name _)
  | .constant _ _ name value =>
      refine .step hR (value.check_move scopes) fun type => ?_
      exact .pure hR (scopes.finalize_move f hf name type)
termination_by structural definition

theorem Definition.checkAll_move (definitions : List Definition) (scopes : Scopes) :
    (Definition.checkAll structs scopes definitions).Match (Moved f) (fun s t => t = s.move f)
      (Definition.checkAll structs (scopes.move f)
        (Definition.editAll (.moving f) definitions)) := by
  have hR := additive_moved f
  match definitions with
  | [] => exact .pure hR rfl
  | definition :: definitions =>
      refine .bind hR (definition.check_move scopes) ?_
      rintro inner _ rfl
      exact Definition.checkAll_move definitions inner
termination_by structural definitions

end

/-! ## Programs -/

omit hf in
theorem StructDefinition.bindCoined_move (range : Range) (scopes : Scopes)
    (coined : List (String × Ty)) :
    (bindCoined range scopes coined).Match (Moved f) (fun s t => t = s.move f)
      (bindCoined (range.move f) (scopes.move f) coined) := by
  have hR := additive_moved f
  induction coined generalizing scopes with
  | nil => exact .pure hR rfl
  | cons entry coined ih =>
      refine .bind hR (scopes.bindNew_move f ⟨entry.1, range⟩ entry.2 _) ?_
      rintro inner _ rfl
      exact ih inner

def Registered.move (f : Position → Position) (registered : Registered) : Registered :=
  ⟨registered.scopes.move f, registered.coined⟩

omit hf in
theorem StructDefinition.coined_edit (definition : StructDefinition) (types : List Ty) :
    (definition.edit (.moving f)).coined types = definition.coined types := by
  have hfields : (definition.fields.move f).names =
      definition.fields.names.map (Ident.move f) := by
    cases definition.fields <;> simp [Params.move, Params.names, TypedParam.move]
  simp only [coined, edit, Edit.moving_params, hfields, List.zip_map_left, List.map_map]
  rfl

omit hf in
theorem StructDefinition.register_move (definition : StructDefinition) (registered : Registered) :
    (definition.register structs registered).Match (Moved f) (fun s t => t = s.move f)
      ((definition.edit (.moving f)).register structs (registered.move f)) := by
  have hR := additive_moved f
  have hconflict : (registered.scopes.move f).conflict? (definition.edit (.moving f)).name
      (.alreadyDefined (definition.edit (.moving f)).name.name) =
        (registered.scopes.conflict? definition.name (.alreadyDefined definition.name.name)).map
          (Diagnostic.move f) := registered.scopes.conflict?_move f definition.name _
  simp only [register, Registered.move, hconflict, coined_edit]
  cases registered.scopes.conflict? definition.name (.alreadyDefined definition.name.name) with
  | some d => exact .step hR (.report rfl) fun _ => .pure hR rfl
  | none =>
      refine .step hR definition.fields.fieldTypes_move fun types => ?_
      have hbind := registered.scopes.bind_move f definition.name (.struct definition.name.name)
      have hcoined := bindCoined_move (f := f) definition.name.range
        (registered.scopes.bind definition.name (.struct definition.name.name))
        (definition.coined types)
      rw [← hbind] at hcoined
      refine .bind hR hcoined ?_
      rintro inner _ rfl
      exact .pure hR rfl

omit hf in
theorem TopLevel.structName?_edit (e : Edit) (form : TopLevel) :
    (form.edit e).structName? = form.structName? := by
  cases form <;> rfl

theorem TopLevel.register_move (form : TopLevel) (registered : Registered) :
    (form.register structs registered).Match (Moved f) (fun s t => t = s.move f)
      ((form.edit (.moving f)).register structs (registered.move f)) := by
  have hR := additive_moved f
  cases form with
  | value form => exact .pure hR rfl
  | struct form => exact form.register_move structs registered
  | definition form =>
      refine .bind hR (form.register_move hf structs registered.scopes) ?_
      rintro inner _ rfl
      exact .pure hR rfl

theorem TopLevel.check_move (form : TopLevel) (scopes : Scopes) :
    (form.check structs scopes).Match (Moved f) (fun s t => t = s.move f)
      ((form.edit (.moving f)).check structs (scopes.move f)) := by
  have hR := additive_moved f
  cases form with
  | value form => exact .step hR (form.check_move hf structs scopes) fun _ => .pure hR rfl
  | struct form => exact .pure hR rfl
  | definition form => exact form.check_move hf structs scopes

namespace Program

theorem register_move (program : Program) (registered : Registered) :
    (register structs registered program).Match (Moved f) (fun s t => t = s.move f)
      (register structs (registered.move f) (edit (.moving f) program)) := by
  have hR := additive_moved f
  induction program generalizing registered with
  | nil => exact .pure hR rfl
  | cons form program ih =>
      refine .bind hR (form.register_move hf structs registered) ?_
      rintro next _ rfl
      exact ih next

theorem checkForms_move (program : Program) (scopes : Scopes) :
    (checkForms structs scopes program).Match (Moved f) (fun s t => t = s.move f)
      (checkForms structs (scopes.move f) (edit (.moving f) program)) := by
  have hR := additive_moved f
  induction program generalizing scopes with
  | nil => exact .pure hR rfl
  | cons form program ih =>
      refine .bind hR (form.check_move hf structs scopes) ?_
      rintro next _ rfl
      exact ih next

omit hf in
theorem structNames_edit (e : Edit) (program : Program) :
    structNames (edit e program) = structNames program := by
  rw [structNames, structNames, edit, List.filterMap_map]
  exact List.filterMap_congr fun form _ => form.structName?_edit e

/-- Moving a program moves its diagnostics and nothing else. -/
theorem check_move (language : Language) (program : Program) :
    (check language (edit (.moving f) program)).diagnostics =
        (check language program).diagnostics.map (Diagnostic.move f) ∧
      (check language (edit (.moving f) program)).globals = (check language program).globals := by
  have hroot : (Scopes.root language.scope).move f = .root language.scope := by
    rw [Scopes.move, Scopes.root, Language.scope_move, List.map_nil]
  have hregister := register_move hf (structNames program) program
    ⟨.root language.scope, []⟩
  rw [Registered.move, hroot] at hregister
  have hcheck := checkForms_move hf (structNames program) program
    (register (structNames program) ⟨.root language.scope, []⟩ program).result.scopes
  simp only [check, structNames_edit]
  rw [hregister.result]
  refine ⟨?_, ?_⟩
  · rw [List.map_append]
    exact congrArg₂ (· ++ ·) hregister.diagnostics hcheck.diagnostics
  · have hresult := congrArg (fun scopes => Scope.globals (Scopes.current scopes)) hcheck.result
    exact hresult.trans (Scope.globals_move f _)

end Program

end

end TypedIsl

import Mathlib.Data.List.Forall2
import TypedIsl.Check.Program
import TypedIsl.Proofs.Check.Lookup
import TypedIsl.Proofs.Check.Matching

/-!
# One tree, two runs

A tree is checked twice, in scopes that bind the same names at the same places, with types that are
related one by one. A relation between types, and one between lists of diagnostics, are kept by the
two runs if the few steps keep them that look at types at all: the rest of the checker only hands
types on.
-/

namespace TypedIsl

section

variable (structs : List String) (scopes : Scopes) (range : Range) (callee : Value)
  (args : List Value)

/-- How a call goes on when the type of the callee is known. -/
def Value.callAs : Ty → Judged Ty
  | .flexible => return .flexible
  | .function params result => do
      let types ← Value.checkAll structs scopes args
      judgeCall range callee.asCallee params result ((args.map Value.range).zip types)
  | other => do
      Judged.report ⟨.notCallable callee.asCallee other.tag, callee.range, []⟩
      return .flexible

theorem Value.check_call : (Value.call range callee args).check structs scopes =
    callee.check structs scopes >>= Value.callAs structs scopes range callee args := rfl

theorem Value.callAs_other {type : Ty} (hflexible : type.tag ≠ .flexible)
    (hfunction : type.tag ≠ .function) :
    Value.callAs structs scopes range callee args type = do
      Judged.report ⟨.notCallable callee.asCallee type.tag, callee.range, []⟩
      return .flexible := by
  cases type <;> first | rfl | exact absurd rfl hflexible | exact absurd rfl hfunction

end

/-- What the steps that look at types have to keep. -/
structure Simulation (R : List Diagnostic → List Diagnostic → Prop) (r : Ty → Ty → Prop) :
    Prop where
  additive : Additive R
  refl : ∀ ds, R ds ds
  same : ∀ t, r t t
  function : ∀ {t u} (params : List Param), r t u → r (.function params t) (.function params u)
  collapse : ∀ {t u : Ty}, r t u → r t.collapse u.collapse
  unionOf : ∀ {ts us}, List.Forall₂ r ts us → r (.unionOf ts) (.unionOf us)
  condition : ∀ {t u} (form range), r t u →
    (judgeCondition form range t).Match R Eq (judgeCondition form range u)
  result : ∀ {t u} (function? body declared expected), r t u →
    (judgeResult function? body declared expected t).Match R Eq
      (judgeResult function? body declared expected u)
  call : ∀ {t u structs scopes others} (range callee) {args : List Value}, r t u →
    (Value.checkAll structs scopes args).Match R (List.Forall₂ r)
      (Value.checkAll structs others args) →
    (Value.callAs structs scopes range callee args t).Match R r
      (Value.callAs structs others range callee args u)

/-- The second binding is that of the same definition, with a related type. -/
def Binding.Related (r : Ty → Ty → Prop) (binding other : Binding) : Prop :=
  other.definedAt? = binding.definedAt? ∧ r binding.type other.type

/-- The same names are bound, at the same places, and their types are related. -/
structure Scopes.Related (r : Ty → Ty → Prop) (scopes others : Scopes) : Prop where
  local? : ∀ name, Option.Rel (Binding.Related r) (scopes.local? name) (others.local? name)
  type? : ∀ name, Option.Rel r (scopes.type? name) (others.type? name)

/-! ## Scopes -/

section

variable {R : List Diagnostic → List Diagnostic → Prop} {r : Ty → Ty → Prop}
  {structs : List String} {scopes others : Scopes}

namespace Scopes.Related

theorem enter (h : scopes.Related r others) : scopes.enter.Related r others.enter :=
  ⟨fun _ => .none, h.type?⟩

theorem bind (h : scopes.Related r others) (name : Ident) {type other : Ty} (htype : r type other) :
    (scopes.bind name type).Related r (others.bind name other) := by
  constructor
  · intro looked
    rw [local?_bind, local?_bind]
    split
    · exact .some ⟨rfl, htype⟩
    · exact h.local? looked
  · intro looked
    rw [type?_bind, type?_bind]
    split
    · exact .some htype
    · exact h.type? looked

theorem conflict? (h : scopes.Related r others) (name : Ident) (problem : Problem) :
    others.conflict? name problem = scopes.conflict? name problem := by
  have hlocal := h.local? name.name
  unfold Scopes.conflict?
  generalize scopes.local? name.name = found at hlocal ⊢
  generalize others.local? name.name = other at hlocal ⊢
  cases hlocal with
  | none => rfl
  | some hbinding => rw [Option.map_some, Option.map_some, hbinding.1]

theorem finalize (h : scopes.Related r others) (name : Ident) {type other : Ty}
    (htype : r type other) :
    (scopes.finalize name type).Related r (others.finalize name other) := by
  have hlocal := h.local? name.name
  have hcond : (others.local? name.name).any (fun binding => binding.definedAt? = some name.range) =
      (scopes.local? name.name).any fun binding => binding.definedAt? = some name.range := by
    generalize scopes.local? name.name = found at hlocal ⊢
    generalize others.local? name.name = looked at hlocal ⊢
    cases hlocal with
    | none => rfl
    | some hbinding => rw [Option.any_some, Option.any_some, hbinding.1]
  unfold Scopes.finalize
  rw [hcond]
  split
  · exact h.bind name htype
  · exact h

end Scopes.Related

end

namespace Simulation

variable {R : List Diagnostic → List Diagnostic → Prop} {r : Ty → Ty → Prop}
  (hsim : Simulation R r) {structs : List String} {scopes others : Scopes}
  (h : scopes.Related r others)

include hsim h

theorem use (name : Ident) : (scopes.use name).Match R r (others.use name) := by
  have htype := h.type? name.name
  rw [Scopes.use_eq, Scopes.use_eq]
  generalize scopes.type? name.name = found at htype ⊢
  generalize others.type? name.name = looked at htype ⊢
  cases htype with
  | some htype => exact .pure hsim.additive htype
  | none => exact .step hsim.additive (.refl hsim.refl _) fun _ => .pure hsim.additive (hsim.same _)

theorem bindNew (name : Ident) {type other : Ty} (htype : r type other) (problem : Problem) :
    (scopes.bindNew name type problem).Match R (Scopes.Related r)
      (others.bindNew name other problem) := by
  unfold Scopes.bindNew
  rw [h.conflict?]
  split
  · exact .step hsim.additive (.refl hsim.refl _) fun _ => .pure hsim.additive h
  · exact .pure hsim.additive (h.bind name htype)

theorem bindParams (params : List (Ident × Ty)) :
    (scopes.bindParams params).Match R (Scopes.Related r) (others.bindParams params) := by
  induction params generalizing scopes others with
  | nil => exact .pure hsim.additive h
  | cons param params ih =>
      obtain ⟨name, type⟩ := param
      exact .bind hsim.additive (hsim.bindNew h name (hsim.same type) _) fun _ _ hinner => ih hinner

theorem bindTypedParams (params : List TypedParam) :
    (TypedIsl.bindTypedParams structs scopes params).Match R
      (fun inner other => inner.1.Related r other.1 ∧ inner.2 = other.2)
      (TypedIsl.bindTypedParams structs others params) := by
  induction params generalizing scopes others with
  | nil => exact .pure hsim.additive ⟨h, rfl⟩
  | cons param params ih =>
      rw [TypedIsl.bindTypedParams, TypedIsl.bindTypedParams]
      refine .after hsim.additive hsim.refl (param.type.resolve structs) ?_
      refine .bind hsim.additive (hsim.bindNew h param.name (hsim.same _) _) fun _ _ hinner => ?_
      refine .bind hsim.additive (ih hinner) ?_
      rintro ⟨inner, types⟩ ⟨other, _⟩ ⟨hinner, rfl⟩
      exact .pure hsim.additive ⟨hinner, rfl⟩

end Simulation

/-! ## Trees -/

section

variable {R : List Diagnostic → List Diagnostic → Prop} {r : Ty → Ty → Prop}
  (hsim : Simulation R r) {structs : List String}

include hsim

mutual

theorem Value.check_related (value : Value) {scopes others : Scopes} (h : scopes.Related r others) :
    (value.check structs scopes).Match R r (value.check structs others) := by
  have hR := hsim.additive
  match value with
  | .name ident => exact hsim.use h ident
  | .literal _ _ | .require _ _ => exact .pure hR (hsim.same _)
  | .branch _ condition thenArm elseArm =>
      rw [Value.check, Value.check]
      refine .bind hR (condition.check_related h) fun _ _ htype => ?_
      refine .step hR (hsim.condition _ _ htype) fun _ => ?_
      refine .bind hR (thenArm.check_related h) fun _ _ hthen => ?_
      refine .bind hR (elseArm.check_related h) fun _ _ helse => ?_
      exact .pure hR (hsim.unionOf (.cons hthen (.cons helse .nil)))
  | .cond _ clauses none =>
      rw [Value.check, Value.check]
      refine .bind hR (Clause.checkAll_related clauses h) fun _ _ htypes => ?_
      exact .pure hR (hsim.unionOf htypes)
  | .cond _ clauses (some otherwise) =>
      rw [Value.check, Value.check]
      refine .bind hR (Clause.checkAll_related clauses h) fun _ _ htypes => ?_
      refine .bind hR (otherwise.check_related h) fun _ _ htype => ?_
      exact .pure hR (hsim.unionOf (List.rel_append htypes (.cons htype .nil)))
  | .lambda _ (.untyped _ names) body =>
      rw [Value.check, Value.check]
      refine .bind hR (hsim.bindParams h.enter _) fun _ _ hinner => ?_
      refine .bind hR (body.check_related hinner) fun _ _ htype => ?_
      exact .pure hR (hsim.function _ (hsim.collapse htype))
  | .lambda _ (.typed _ params none) body =>
      rw [Value.check, Value.check]
      refine .bind hR (hsim.bindTypedParams h.enter params) ?_
      rintro ⟨inner, types⟩ ⟨other, _⟩ ⟨hinner, rfl⟩
      refine .bind hR (body.check_related hinner) fun _ _ htype => ?_
      exact .pure hR (hsim.function _ (hsim.collapse htype))
  | .lambda _ (.typed _ params (some declared)) body =>
      rw [Value.check, Value.check]
      refine .bind hR (hsim.bindTypedParams h.enter params) ?_
      rintro ⟨inner, types⟩ ⟨other, _⟩ ⟨hinner, rfl⟩
      refine .bind hR (body.check_related hinner) fun _ _ htype => ?_
      refine .after hR hsim.refl (declared.resolve structs) ?_
      refine .step hR (hsim.result _ _ _ _ (hsim.collapse htype)) fun _ => ?_
      exact .pure hR (hsim.same _)
  | .locals _ definitions body =>
      rw [Value.check, Value.check]
      refine .bind hR (Definition.registerAll_related definitions h.enter) fun _ _ hinner => ?_
      refine .bind hR (Definition.checkAll_related definitions hinner) fun _ _ hinner => ?_
      exact body.check_related hinner
  | .lets _ _ bindings body =>
      rw [Value.check, Value.check]
      refine .bind hR (LetBinding.checkAll_related bindings h.enter) fun _ _ hinner => ?_
      exact body.check_related hinner
  | .call range callee args =>
      rw [Value.check_call, Value.check_call]
      refine .bind hR (callee.check_related h) fun _ _ htype => ?_
      exact hsim.call range callee htype (Value.checkAll_related args h)
termination_by structural value

theorem Value.checkAll_related (values : List Value) {scopes others : Scopes}
    (h : scopes.Related r others) :
    (Value.checkAll structs scopes values).Match R (List.Forall₂ r)
      (Value.checkAll structs others values) := by
  match values with
  | [] => exact .pure hsim.additive .nil
  | value :: values =>
      refine .bind hsim.additive (value.check_related h) fun _ _ htype => ?_
      refine .bind hsim.additive (Value.checkAll_related values h) fun _ _ htypes => ?_
      exact .pure hsim.additive (.cons htype htypes)
termination_by structural values

theorem Clause.check_related (clause : Clause) {scopes others : Scopes}
    (h : scopes.Related r others) :
    (clause.check structs scopes).Match R r (clause.check structs others) := by
  match clause with
  | .mk _ condition body =>
      rw [Clause.check, Clause.check]
      refine .bind hsim.additive (condition.check_related h) fun _ _ htype => ?_
      refine .step hsim.additive (hsim.condition _ _ htype) fun _ => ?_
      exact body.check_related h
termination_by structural clause

theorem Clause.checkAll_related (clauses : List Clause) {scopes others : Scopes}
    (h : scopes.Related r others) :
    (Clause.checkAll structs scopes clauses).Match R (List.Forall₂ r)
      (Clause.checkAll structs others clauses) := by
  match clauses with
  | [] => exact .pure hsim.additive .nil
  | clause :: clauses =>
      refine .bind hsim.additive (clause.check_related h) fun _ _ htype => ?_
      refine .bind hsim.additive (Clause.checkAll_related clauses h) fun _ _ htypes => ?_
      exact .pure hsim.additive (.cons htype htypes)
termination_by structural clauses

theorem LetBinding.check_related (binding : LetBinding) {scopes others : Scopes}
    (h : scopes.Related r others) :
    (binding.check structs scopes).Match R (Scopes.Related r)
      (binding.check structs others) := by
  match binding with
  | .mk _ name value =>
      rw [LetBinding.check, LetBinding.check, h.conflict?]
      split
      · exact .after hsim.additive hsim.refl _ (.pure hsim.additive h)
      · refine .bind hsim.additive (value.check_related h) fun _ _ htype => ?_
        exact .pure hsim.additive (h.bind name htype)
termination_by structural binding

theorem LetBinding.checkAll_related (bindings : List LetBinding) {scopes others : Scopes}
    (h : scopes.Related r others) :
    (LetBinding.checkAll structs scopes bindings).Match R (Scopes.Related r)
      (LetBinding.checkAll structs others bindings) := by
  match bindings with
  | [] => exact .pure hsim.additive h
  | binding :: bindings =>
      refine .bind hsim.additive (binding.check_related h) fun _ _ hnext => ?_
      exact LetBinding.checkAll_related bindings hnext
termination_by structural bindings

theorem Definition.register_related (definition : Definition) {scopes others : Scopes}
    (h : scopes.Related r others) :
    (definition.register structs scopes).Match R (Scopes.Related r)
      (definition.register structs others) := by
  match definition with
  | .function _ _ name params _ => exact hsim.bindNew h name (hsim.same _) _
  | .constant _ _ name value =>
      rw [Definition.register, Definition.register, h.conflict?]
      split
      · exact .after hsim.additive hsim.refl _ (.pure hsim.additive h)
      · exact .pure hsim.additive (h.bind name (value.check_related h).result)
termination_by structural definition

theorem Definition.registerAll_related (definitions : List Definition) {scopes others : Scopes}
    (h : scopes.Related r others) :
    (Definition.registerAll structs scopes definitions).Match R (Scopes.Related r)
      (Definition.registerAll structs others definitions) := by
  match definitions with
  | [] => exact .pure hsim.additive h
  | definition :: definitions =>
      refine .bind hsim.additive (definition.register_related h) fun _ _ hnext => ?_
      exact Definition.registerAll_related definitions hnext
termination_by structural definitions

theorem Definition.check_related (definition : Definition) {scopes others : Scopes}
    (h : scopes.Related r others) :
    (definition.check structs scopes).Match R (Scopes.Related r)
      (definition.check structs others) := by
  have hR := hsim.additive
  match definition with
  | .constant _ _ name value =>
      rw [Definition.check, Definition.check]
      refine .bind hR (value.check_related h) fun _ _ htype => ?_
      exact .pure hR (h.finalize name htype)
  | .function _ _ name (.typed _ params (some declared)) body =>
      rw [Definition.check, Definition.check]
      refine .after hR hsim.refl (resolveParams structs params) ?_
      refine .after hR hsim.refl (declared.resolve structs) ?_
      refine .bind hR (hsim.bindParams h.enter _) fun _ _ hinner => ?_
      refine .bind hR (body.check_related hinner) fun _ _ htype => ?_
      refine .step hR (hsim.result _ _ _ _ (hsim.collapse htype)) fun _ => ?_
      exact .pure hR (h.finalize name (hsim.same _))
  | .function _ _ name (.typed _ params none) body =>
      rw [Definition.check, Definition.check]
      refine .after hR hsim.refl (resolveParams structs params) ?_
      refine .bind hR (hsim.bindParams h.enter _) fun _ _ hinner => ?_
      refine .bind hR (body.check_related hinner) fun _ _ _ => ?_
      exact .after hR hsim.refl _ (.pure hR h)
  | .function _ _ name (.untyped _ names) body =>
      rw [Definition.check, Definition.check]
      refine .after hR hsim.refl _ ?_
      refine .bind hR (hsim.bindParams h.enter _) fun _ _ hinner => ?_
      exact .bind hR (body.check_related hinner) fun _ _ _ => .pure hR h
termination_by structural definition

theorem Definition.checkAll_related (definitions : List Definition) {scopes others : Scopes}
    (h : scopes.Related r others) :
    (Definition.checkAll structs scopes definitions).Match R (Scopes.Related r)
      (Definition.checkAll structs others definitions) := by
  match definitions with
  | [] => exact .pure hsim.additive h
  | definition :: definitions =>
      refine .bind hsim.additive (definition.check_related h) fun _ _ hnext => ?_
      exact Definition.checkAll_related definitions hnext
termination_by structural definitions

end

/-! ## Programs -/

theorem StructDefinition.bindCoined_related {scopes others : Scopes} (h : scopes.Related r others)
    (range : Range) (coined : List (String × Ty)) :
    (bindCoined range scopes coined).Match R (Scopes.Related r)
      (bindCoined range others coined) := by
  induction coined generalizing scopes others with
  | nil => exact .pure hsim.additive h
  | cons entry coined ih =>
      obtain ⟨name, type⟩ := entry
      refine .bind hsim.additive (hsim.bindNew h ⟨name, range⟩ (hsim.same type) _) ?_
      exact fun _ _ hinner => ih hinner

theorem TopLevel.register_related {registered other : Registered}
    (h : registered.scopes.Related r other.scopes) (form : TopLevel) :
    (form.register structs registered).Match R
      (fun registered other => registered.scopes.Related r other.scopes)
      (form.register structs other) := by
  have hR := hsim.additive
  cases form with
  | value form => exact .pure hR h
  | definition form =>
      refine .bind hR (form.register_related hsim h) fun _ _ hscopes => ?_
      exact .pure hR hscopes
  | struct form =>
      rw [TopLevel.register, TopLevel.register, StructDefinition.register,
        StructDefinition.register]
      dsimp only
      rw [h.conflict?]
      split
      · exact .after hR hsim.refl _ (.pure hR h)
      · refine .after hR hsim.refl _ ?_
        refine .bind hR (StructDefinition.bindCoined_related hsim (h.bind _ (hsim.same _)) _ _) ?_
        exact fun _ _ hscopes => .pure hR hscopes

theorem TopLevel.check_related {scopes others : Scopes} (h : scopes.Related r others)
    (form : TopLevel) :
    (form.check structs scopes).Match R (Scopes.Related r) (form.check structs others) := by
  cases form with
  | definition form => exact form.check_related hsim h
  | struct form => exact .pure hsim.additive h
  | value form =>
      exact .bind hsim.additive (form.check_related hsim h) fun _ _ _ => .pure hsim.additive h

namespace Program

theorem register_related {registered other : Registered}
    (h : registered.scopes.Related r other.scopes) (program : Program) :
    (register structs registered program).Match R
      (fun registered other => registered.scopes.Related r other.scopes)
      (register structs other program) := by
  induction program generalizing registered other with
  | nil => exact .pure hsim.additive h
  | cons form program ih =>
      exact .bind hsim.additive (form.register_related hsim h) fun _ _ hnext => ih hnext

theorem checkForms_related {scopes others : Scopes} (h : scopes.Related r others)
    (program : Program) :
    (checkForms structs scopes program).Match R (Scopes.Related r)
      (checkForms structs others program) := by
  induction program generalizing scopes others with
  | nil => exact .pure hsim.additive h
  | cons form program ih =>
      exact .bind hsim.additive (form.check_related hsim h) fun _ _ hnext => ih hnext

/-- If the types of the builtins are related, so are the diagnostics of a program. -/
theorem diagnostics_related {language other : Language}
    (h : (Scopes.root language.scope).Related r (.root other.scope)) (program : Program) :
    R (check language program).diagnostics (check other program).diagnostics := by
  have hregistered : (register (structNames program) ⟨.root language.scope, []⟩ program).Match R
      (fun registered other => registered.scopes.Related r other.scopes)
      (register (structNames program) ⟨.root other.scope, []⟩ program) :=
    register_related hsim h program
  refine hsim.additive.append hregistered.diagnostics ?_
  exact (checkForms_related hsim hregistered.result program).diagnostics

end Program

end

end TypedIsl

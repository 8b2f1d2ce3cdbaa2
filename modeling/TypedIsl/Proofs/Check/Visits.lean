import Mathlib.Data.List.Perm.Subperm
import TypedIsl.Proofs.Check.Root

/-!
# What the checker visits

Checking a part of a program leads to the parts inside it, each in scopes of its own. The
diagnostics of a part are those that it reports itself and those of the parts that it leads to.
Constants are rehearsed before they are checked: their values are visited to find out their types,
and nothing is reported.
-/

namespace TypedIsl

/-- The elements of a list with the states in which they are met, if each of them turns a state into
the next one. -/
def stages {σ α : Type} (next : σ → α → σ) : σ → List α → List (σ × α)
  | _, [] => []
  | state, a :: rest => (state, a) :: stages next (next state a) rest

theorem mem_of_mem_stages {σ α : Type} {next : σ → α → σ} {state found : σ} {list : List α} {a : α}
    (h : (found, a) ∈ stages next state list) : a ∈ list := by
  induction list generalizing state with
  | nil => exact absurd h List.not_mem_nil
  | cons b list ih =>
      rcases List.mem_cons.mp h with heq | h
      · exact (Prod.mk.inj heq).2 ▸ List.mem_cons_self
      · exact List.mem_cons_of_mem _ (ih h)

theorem sublist_flatMap_of_mem {α β : Type} {f : α → List β} {list : List α} {a : α}
    (h : a ∈ list) : (f a).Sublist (list.flatMap f) := by
  rw [List.flatMap_def]
  exact List.sublist_flatten_of_mem (List.mem_map_of_mem h)

namespace Judged

variable {α β : Type}

@[simp] theorem result_map (f : α → β) (x : Judged α) : (f <$> x).result = f x.result := rfl

@[simp] theorem diagnostics_map (f : α → β) (x : Judged α) :
    (f <$> x).diagnostics = x.diagnostics :=
  List.append_nil x.diagnostics

end Judged

/-! ## Bodies -/

namespace Params

/-- The parameters with the types that they have in the body. -/
def bindings (structs : List String) : Params → List (Ident × Ty)
  | typed _ params _ => (params.map (·.name)).zip (resolveParams structs params).result
  | untyped _ names => names.map fun name => (name, .flexible)

/-- The type that the result is declared to have. -/
def result? : Params → Option TypeExpr
  | typed _ _ result? => result?
  | untyped _ _ => none

def annotations : Params → List TypeExpr
  | typed _ params result? => params.map (·.type) ++ result?.toList
  | untyped _ _ => []

/-- The scopes in which a body with these parameters is checked. -/
def inner (structs : List String) (scopes : Scopes) (params : Params) : Scopes :=
  (scopes.enter.bindParams (params.bindings structs)).result

/-- What is reported about the parameters, and about the result of a body that has the given
type. -/
def reports (structs : List String) (scopes : Scopes) (function? : Option String) (body : Range)
    (actual : Ty) (params : Params) : List Diagnostic :=
  params.annotations.flatMap (fun type => (type.resolve structs).diagnostics) ++
    (scopes.enter.bindParams (params.bindings structs)).diagnostics ++
    params.result?.toList.flatMap fun declared =>
      (judgeResult function? body declared.range (declared.resolve structs).result
        actual.collapse).diagnostics

end Params

theorem resolveParams_diagnostics (structs : List String) (params : List TypedParam) :
    (resolveParams structs params).diagnostics =
      (params.map (·.type)).flatMap fun type => (type.resolve structs).diagnostics := by
  induction params with
  | nil => rfl
  | cons param params ih => simp [resolveParams, ih]

section

variable (structs : List String) (scopes : Scopes)

/-- Parameters may as well be bound after all their types have been resolved. -/
theorem bindTypedParams_result (params : List TypedParam) :
    (bindTypedParams structs scopes params).result =
      ((scopes.bindParams ((params.map (·.name)).zip (resolveParams structs params).result)).result,
        (resolveParams structs params).result) := by
  induction params generalizing scopes with
  | nil => rfl
  | cons param params ih => simp [bindTypedParams, resolveParams, Scopes.bindParams, ih]

theorem bindTypedParams_diagnostics (params : List TypedParam) :
    (bindTypedParams structs scopes params).diagnostics.Perm
      ((resolveParams structs params).diagnostics ++ (scopes.bindParams
        ((params.map (·.name)).zip (resolveParams structs params).result)).diagnostics) := by
  induction params generalizing scopes with
  | nil => exact .refl _
  | cons param params ih =>
      have hrest := ih (scopes.bindParam param.name (param.type.resolve structs).result).result
      rw [List.perm_iff_count]
      intro d
      have hcount := hrest.count_eq d
      simp [bindTypedParams, resolveParams, Scopes.bindParams] at hcount ⊢
      omega

end

/-! ## Visits -/

/-- A part of a program that is checked by itself. -/
inductive Subject where
  | value (value : Value)
  | definition (definition : Definition)

/-- A part of a program and the scopes in which it is checked. -/
structure Visit where
  scopes : Scopes
  subject : Subject

/-- The values in a clause. -/
def Clause.steps (scopes : Scopes) : Clause → List Visit
  | .mk _ condition body => [⟨scopes, .value condition⟩, ⟨scopes, .value body⟩]

/-- What is reported about the type of the condition. -/
def Clause.reports (structs : List String) (scopes : Scopes) : Clause → List Diagnostic
  | .mk _ condition _ =>
      (judgeCondition "cond" condition.range (condition.check structs scopes).result).diagnostics

/-- The value of a binding whose name is free. -/
def LetBinding.steps (scopes : Scopes) : LetBinding → List Visit
  | .mk _ name value =>
      if (scopes.local? name.name).isSome then [] else [⟨scopes, .value value⟩]

def LetBinding.reports (scopes : Scopes) : LetBinding → List Diagnostic
  | .mk _ name _ => (scopes.conflict? name (.alreadyDefinedLocally name.name)).toList

/-- The value of a constant whose name is free. -/
def Definition.rehearsals (scopes : Scopes) : Definition → List Visit
  | .function _ _ _ _ _ => []
  | .constant _ _ name value =>
      if (scopes.local? name.name).isSome then [] else [⟨scopes, .value value⟩]

namespace Value

/-- What checking the value leads to, in order. -/
def steps (structs : List String) (scopes : Scopes) : Value → List Visit
  | literal _ _ => []
  | name _ => []
  | branch _ condition thenArm elseArm =>
      [⟨scopes, .value condition⟩, ⟨scopes, .value thenArm⟩, ⟨scopes, .value elseArm⟩]
  | cond _ clauses otherwise? =>
      clauses.flatMap (Clause.steps scopes) ++
        otherwise?.toList.map fun value => ⟨scopes, .value value⟩
  | lambda _ params body => [⟨params.inner structs scopes, .value body⟩]
  | locals _ definitions body =>
      let registered := (Definition.registerAll structs scopes.enter definitions).result
      let next := fun (scopes : Scopes) (definition : Definition) =>
        (definition.check structs scopes).result
      (stages next registered definitions).map (fun (scopes, definition) =>
          ⟨scopes, .definition definition⟩) ++
        [⟨(Definition.checkAll structs registered definitions).result, .value body⟩]
  | lets _ _ bindings body =>
      let next := fun (scopes : Scopes) (binding : LetBinding) =>
        (binding.check structs scopes).result
      (stages next scopes.enter bindings).flatMap (fun (scopes, binding) =>
          binding.steps scopes) ++
        [⟨(LetBinding.checkAll structs scopes.enter bindings).result, .value body⟩]
  | require _ _ => []
  | call _ callee args =>
      ⟨scopes, .value callee⟩ ::
        if (callee.check structs scopes).result.tag = .function then
          args.map fun arg => ⟨scopes, .value arg⟩
        else []

/-- The constants that are rehearsed while the value is checked. -/
def rehearsals (structs : List String) (scopes : Scopes) : Value → List Visit
  | locals _ definitions _ =>
      let next := fun (scopes : Scopes) (definition : Definition) =>
        (definition.register structs scopes).result
      (stages next scopes.enter definitions).flatMap fun (scopes, definition) =>
        definition.rehearsals scopes
  | _ => []

/-- What the value reports itself. -/
def reports (structs : List String) (scopes : Scopes) : Value → List Diagnostic
  | literal _ _ => []
  | name ident => (scopes.use ident).diagnostics
  | branch _ condition _ _ =>
      (judgeCondition "if" condition.range (condition.check structs scopes).result).diagnostics
  | cond _ clauses _ => clauses.flatMap (Clause.reports structs scopes)
  | lambda _ params body =>
      params.reports structs scopes none body.range
        (body.check structs (params.inner structs scopes)).result
  | locals _ definitions _ => (Definition.registerAll structs scopes.enter definitions).diagnostics
  | lets _ _ bindings _ =>
      let next := fun (scopes : Scopes) (binding : LetBinding) =>
        (binding.check structs scopes).result
      (stages next scopes.enter bindings).flatMap fun (scopes, binding) => binding.reports scopes
  | require _ _ => []
  | call range callee args =>
      match (callee.check structs scopes).result with
      | .flexible => []
      | .function params result =>
          let types := (Value.checkAll structs scopes args).result
          (judgeCall range callee.asCallee params result
            ((args.map Value.range).zip types)).diagnostics
      | other => [⟨.notCallable callee.asCallee other.tag, callee.range, []⟩]

end Value

namespace Definition

def steps (structs : List String) (scopes : Scopes) : Definition → List Visit
  | function _ _ _ params body => [⟨params.inner structs scopes, .value body⟩]
  | constant _ _ _ value => [⟨scopes, .value value⟩]

/-- What the definition reports itself. -/
def reports (structs : List String) (scopes : Scopes) : Definition → List Diagnostic
  | function _ _ name params body =>
      params.reports structs scopes (some name.name) body.range
          (body.check structs (params.inner structs scopes)).result ++
        if params.result?.isSome then [] else [⟨.notTypeChecked name.name, name.range, []⟩]
  | constant _ _ _ _ => []

end Definition

namespace Visit

variable (structs : List String)

def diagnostics : Visit → List Diagnostic
  | ⟨scopes, .value value⟩ => (value.check structs scopes).diagnostics
  | ⟨scopes, .definition definition⟩ => (definition.check structs scopes).diagnostics

/-- What the visit leads to. -/
def steps : Visit → List Visit
  | ⟨scopes, .value value⟩ => value.steps structs scopes
  | ⟨scopes, .definition definition⟩ => definition.steps structs scopes

def rehearsals : Visit → List Visit
  | ⟨scopes, .value value⟩ => value.rehearsals structs scopes
  | ⟨_, .definition _⟩ => []

/-- What is reported by the visit itself, not by those that it leads to. -/
def reports : Visit → List Diagnostic
  | ⟨scopes, .value value⟩ => value.reports structs scopes
  | ⟨scopes, .definition definition⟩ => definition.reports structs scopes

end Visit

/-! ## What is reported -/

section

variable (structs : List String) (scopes : Scopes)

theorem Value.checkAll_diagnostics (values : List Value) :
    (Value.checkAll structs scopes values).diagnostics =
      values.flatMap fun value => (value.check structs scopes).diagnostics := by
  induction values with
  | nil => rfl
  | cons value values ih => simp [Value.checkAll, ih]

theorem Clause.checkAll_diagnostics (clauses : List Clause) :
    (Clause.checkAll structs scopes clauses).diagnostics.Perm
      (clauses.flatMap (Clause.reports structs scopes) ++
        (clauses.flatMap (Clause.steps scopes)).flatMap (Visit.diagnostics structs)) := by
  induction clauses with
  | nil => simp [Clause.checkAll]
  | cons clause clauses ih =>
      obtain ⟨range, condition, body⟩ := clause
      rw [List.perm_iff_count]
      intro d
      have hcount := ih.count_eq d
      simp only [Clause.checkAll, Clause.check, Clause.reports, Clause.steps, Visit.diagnostics,
        Judged.diagnostics_bind, Judged.diagnostics_pure, List.flatMap_cons, List.flatMap_append,
        List.flatMap_nil, List.count_append, List.append_nil] at hcount ⊢
      omega

theorem LetBinding.check_diagnostics (binding : LetBinding) :
    (binding.check structs scopes).diagnostics =
      binding.reports scopes ++ (binding.steps scopes).flatMap (Visit.diagnostics structs) := by
  obtain ⟨range, name, value⟩ := binding
  cases hlocal : scopes.local? name.name <;>
    simp [LetBinding.check, reports, steps, Scopes.conflict?, hlocal, Visit.diagnostics,
      Judged.report]

theorem LetBinding.checkAll_diagnostics (bindings : List LetBinding) :
    let next := fun (scopes : Scopes) (binding : LetBinding) =>
      (binding.check structs scopes).result
    (LetBinding.checkAll structs scopes bindings).diagnostics.Perm
      ((stages next scopes bindings).flatMap (fun (scopes, binding) => binding.reports scopes) ++
        ((stages next scopes bindings).flatMap fun (scopes, binding) =>
          binding.steps scopes).flatMap (Visit.diagnostics structs)) := by
  intro next
  induction bindings generalizing scopes with
  | nil => exact .refl _
  | cons binding bindings ih =>
      rw [List.perm_iff_count]
      intro d
      have hcount := (ih (next scopes binding)).count_eq d
      simp only [LetBinding.checkAll, stages, Judged.diagnostics_bind, List.flatMap_cons,
        List.flatMap_append, List.count_append, check_diagnostics, next] at hcount ⊢
      omega

theorem Definition.checkAll_diagnostics (definitions : List Definition) :
    let next := fun (scopes : Scopes) (definition : Definition) =>
      (definition.check structs scopes).result
    (Definition.checkAll structs scopes definitions).diagnostics =
      ((stages next scopes definitions).map fun (scopes, definition) =>
        Visit.mk scopes (.definition definition)).flatMap (Visit.diagnostics structs) := by
  intro next
  induction definitions generalizing scopes with
  | nil => rfl
  | cons definition definitions ih =>
      rw [stages, List.map_cons, List.flatMap_cons, ← ih]
      rfl

/-- A value reports what it finds itself and what is found in the parts that it leads to. -/
theorem Value.diagnostics_perm (value : Value) :
    (value.check structs scopes).diagnostics.Perm
      (value.reports structs scopes ++
        (value.steps structs scopes).flatMap (Visit.diagnostics structs)) := by
  match value with
  | .literal _ _ => exact .refl _
  | .require _ _ => exact .refl _
  | .name _ => simp [Value.check, Value.reports, Value.steps]
  | .branch _ condition thenArm elseArm =>
      rw [List.perm_iff_count]
      intro d
      simp only [Value.check, Value.reports, Value.steps, Visit.diagnostics,
        Judged.diagnostics_bind, Judged.diagnostics_pure, List.flatMap_cons, List.flatMap_nil,
        List.count_append, List.append_nil]
      omega
  | .cond _ clauses none =>
      have hclauses := Clause.checkAll_diagnostics structs scopes clauses
      simpa [Value.check, Value.reports, Value.steps] using hclauses
  | .cond _ clauses (some otherwise) =>
      have hclauses := Clause.checkAll_diagnostics structs scopes clauses
      rw [List.perm_iff_count]
      intro d
      have hcount := hclauses.count_eq d
      simp only [Value.check, Value.reports, Value.steps, Visit.diagnostics, Option.toList_some,
        Judged.diagnostics_bind, Judged.diagnostics_pure, List.flatMap_append, List.map_cons,
        List.map_nil, List.flatMap_cons, List.flatMap_nil, List.count_append, List.append_nil]
        at hcount ⊢
      omega
  | .lambda _ (.untyped _ names) body =>
      simp [Value.check, Value.reports, Value.steps, Params.reports, Params.annotations,
        Params.result?, Params.inner, Params.bindings, Visit.diagnostics]
  | .lambda _ (.typed _ params none) body =>
      have hparams := bindTypedParams_diagnostics structs scopes.enter params
      rw [resolveParams_diagnostics] at hparams
      simpa [Value.check, Value.reports, Value.steps, Params.reports, Params.annotations,
        Params.result?, Params.inner, Params.bindings, Visit.diagnostics, bindTypedParams_result]
        using hparams.append_right _
  | .lambda _ (.typed _ params (some declared)) body =>
      have hparams := bindTypedParams_diagnostics structs scopes.enter params
      rw [resolveParams_diagnostics] at hparams
      rw [List.perm_iff_count]
      intro d
      have hcount := hparams.count_eq d
      simp [Value.check, Value.reports, Value.steps, Params.reports, Params.annotations,
        Params.result?, Params.inner, Params.bindings, Visit.diagnostics, bindTypedParams_result]
        at hcount ⊢
      omega
  | .locals _ definitions body =>
      rw [Value.check, Value.reports, Value.steps]
      simp [Definition.checkAll_diagnostics, Visit.diagnostics]
  | .lets _ _ bindings body =>
      have hbindings := LetBinding.checkAll_diagnostics structs scopes.enter bindings
      rw [Value.check, Value.reports, Value.steps]
      simpa [Visit.diagnostics] using hbindings.append_right _
  | .call range callee args =>
      rw [Value.check, Value.reports, Value.steps]
      cases hcallee : (callee.check structs scopes).result with
      | flexible => simp [Visit.diagnostics, hcallee, Ty.tag]
      | function params result =>
          rw [List.perm_iff_count]
          intro d
          simp [Visit.diagnostics, hcallee, Ty.tag, Value.checkAll_diagnostics, List.flatMap_map]
          omega
      | _ => simp [Visit.diagnostics, hcallee, Judged.report, Ty.tag]

theorem Definition.diagnostics_perm (definition : Definition) :
    (definition.check structs scopes).diagnostics.Perm
      (definition.reports structs scopes ++
        (definition.steps structs scopes).flatMap (Visit.diagnostics structs)) := by
  match definition with
  | .constant _ _ name value =>
      simp [Definition.check, Definition.reports, Definition.steps, Visit.diagnostics]
  | .function _ _ name (.untyped _ names) body =>
      rw [List.perm_iff_count]
      intro d
      simp [Definition.check, Definition.reports, Definition.steps, Params.reports,
        Params.annotations, Params.result?, Params.inner, Params.bindings, Visit.diagnostics,
        Judged.report, List.count_cons]
      omega
  | .function _ _ name (.typed _ params none) body =>
      rw [List.perm_iff_count]
      intro d
      simp [Definition.check, Definition.reports, Definition.steps, Params.reports,
        Params.annotations, Params.result?, Params.inner, Params.bindings, Visit.diagnostics,
        Judged.report, List.count_cons, resolveParams_diagnostics]
  | .function _ _ name (.typed _ params (some declared)) body =>
      rw [List.perm_iff_count]
      intro d
      simp [Definition.check, Definition.reports, Definition.steps, Params.reports,
        Params.annotations, Params.result?, Params.inner, Params.bindings, Visit.diagnostics,
        resolveParams_diagnostics]
      omega

end

/-- A visit reports what it finds itself and what the visits report that it leads to. -/
theorem Visit.diagnostics_perm (structs : List String) (visit : Visit) :
    (visit.diagnostics structs).Perm
      (visit.reports structs ++ (visit.steps structs).flatMap (Visit.diagnostics structs)) := by
  obtain ⟨scopes, value | definition⟩ := visit
  · exact value.diagnostics_perm structs scopes
  · exact definition.diagnostics_perm structs scopes

/-! ## Going down -/

section

variable {structs : List String} {scopes : Scopes} {next : Visit}

theorem Clause.sizeOf_lt_of_mem_steps {clause : Clause} (h : next ∈ clause.steps scopes) :
    sizeOf next.subject < 1 + sizeOf clause := by
  obtain ⟨range, condition, body⟩ := clause
  simp only [steps, List.mem_cons, List.not_mem_nil, or_false] at h
  rcases h with rfl | rfl <;>
    (simp only [Clause.mk.sizeOf_spec, Subject.value.sizeOf_spec]
     omega)

theorem LetBinding.sizeOf_lt_of_mem_steps {binding : LetBinding} (h : next ∈ binding.steps scopes) :
    sizeOf next.subject < 1 + sizeOf binding := by
  obtain ⟨range, name, value⟩ := binding
  rw [steps] at h
  split at h
  · exact absurd h List.not_mem_nil
  · simp only [List.mem_singleton.mp h, LetBinding.mk.sizeOf_spec, Subject.value.sizeOf_spec]
    omega

theorem Value.sizeOf_lt_of_mem_steps {value : Value} (h : next ∈ value.steps structs scopes) :
    sizeOf next.subject < 1 + sizeOf value := by
  cases value with
  | literal range value => exact absurd h List.not_mem_nil
  | name ident => exact absurd h List.not_mem_nil
  | require range library => exact absurd h List.not_mem_nil
  | branch range condition thenArm elseArm =>
      simp only [steps, List.mem_cons, List.not_mem_nil, or_false] at h
      rcases h with rfl | rfl | rfl <;>
        (simp only [Value.branch.sizeOf_spec, Subject.value.sizeOf_spec]
         omega)
  | cond range clauses otherwise? =>
      rcases List.mem_append.mp h with h | h
      · obtain ⟨clause, hclause, hnext⟩ := List.mem_flatMap.mp h
        have hsize := List.sizeOf_lt_of_mem hclause
        have hlt := Clause.sizeOf_lt_of_mem_steps hnext
        rw [Value.cond.sizeOf_spec]
        omega
      · obtain ⟨value, hvalue, rfl⟩ := List.mem_map.mp h
        obtain rfl := Option.mem_toList.mp hvalue
        simp only [Value.cond.sizeOf_spec, Option.some.sizeOf_spec, Subject.value.sizeOf_spec]
        omega
  | lambda range params body =>
      simp only [List.mem_singleton.mp h, Value.lambda.sizeOf_spec, Subject.value.sizeOf_spec]
      omega
  | locals range definitions body =>
      rcases List.mem_append.mp h with h | h
      · obtain ⟨⟨inner, definition⟩, hstage, rfl⟩ := List.mem_map.mp h
        have hsize := List.sizeOf_lt_of_mem (mem_of_mem_stages hstage)
        simp only [Value.locals.sizeOf_spec, Subject.definition.sizeOf_spec]
        omega
      · simp only [List.mem_singleton.mp h, Value.locals.sizeOf_spec, Subject.value.sizeOf_spec]
        omega
  | lets range kind bindings body =>
      rcases List.mem_append.mp h with h | h
      · obtain ⟨⟨inner, binding⟩, hstage, hnext⟩ := List.mem_flatMap.mp h
        have hsize := List.sizeOf_lt_of_mem (mem_of_mem_stages hstage)
        have hlt := LetBinding.sizeOf_lt_of_mem_steps hnext
        rw [Value.lets.sizeOf_spec]
        omega
      · simp only [List.mem_singleton.mp h, Value.lets.sizeOf_spec, Subject.value.sizeOf_spec]
        omega
  | call range callee args =>
      rcases List.mem_cons.mp h with rfl | h
      · simp only [Value.call.sizeOf_spec, Subject.value.sizeOf_spec]
        omega
      · split at h
        · obtain ⟨arg, harg, rfl⟩ := List.mem_map.mp h
          have hsize := List.sizeOf_lt_of_mem harg
          simp only [Value.call.sizeOf_spec, Subject.value.sizeOf_spec]
          omega
        · exact absurd h List.not_mem_nil

theorem Definition.sizeOf_lt_of_mem_steps {definition : Definition}
    (h : next ∈ definition.steps structs scopes) : sizeOf next.subject < 1 + sizeOf definition := by
  cases definition with
  | function range docs name params body =>
      simp only [List.mem_singleton.mp h, Definition.function.sizeOf_spec,
        Subject.value.sizeOf_spec]
      omega
  | constant range docs name value =>
      simp only [List.mem_singleton.mp h, Definition.constant.sizeOf_spec,
        Subject.value.sizeOf_spec]
      omega

end

/-- A property holds of every visit if it passes to a visit from those that it leads to. -/
theorem Visit.induction (structs : List String) {P : Visit → Prop}
    (h : ∀ visit : Visit, (∀ next ∈ visit.steps structs, P next) → P visit) (visit : Visit) :
    P visit := by
  induction hsize : sizeOf visit.subject using Nat.strongRecOn generalizing visit with
  | ind size ih =>
      subst hsize
      refine h visit fun next hnext => ih _ ?_ next rfl
      obtain ⟨scopes, value | definition⟩ := visit
      · exact Value.sizeOf_lt_of_mem_steps hnext
      · exact Definition.sizeOf_lt_of_mem_steps hnext

/-! ## Programs -/

namespace TopLevel

/-- What checking the form leads to. -/
def steps (scopes : Scopes) : TopLevel → List Visit
  | definition form => [⟨scopes, .definition form⟩]
  | struct _ => []
  | value form => [⟨scopes, .value form⟩]

def rehearsals (scopes : Scopes) : TopLevel → List Visit
  | definition form => form.rehearsals scopes
  | struct _ => []
  | value _ => []

end TopLevel

namespace Program

variable (language : Language) (program : Program)

/-- The root scope and the names coined when all forms have been registered. -/
def registered : Judged Registered :=
  register (structNames program) ⟨.root language.scope, []⟩ program

def steps : List Visit :=
  let next := fun (scopes : Scopes) (form : TopLevel) =>
    (form.check (structNames program) scopes).result
  (stages next (registered language program).result.scopes program).flatMap fun (scopes, form) =>
    form.steps scopes

def rehearsals : List Visit :=
  let next := fun (registered : Registered) (form : TopLevel) =>
    (form.register (structNames program) registered).result
  (stages next ⟨.root language.scope, []⟩ program).flatMap fun (registered, form) =>
    form.rehearsals registered.scopes

/-- What is visited while a program is checked. Nothing is reported by visits that are silent. -/
inductive Visits : Bool → Visit → Prop
  | check {visit} (h : visit ∈ steps language program) : Visits false visit
  | rehearse {visit} (h : visit ∈ rehearsals language program) : Visits true visit
  | step {silent visit next} (h : Visits silent visit)
      (hnext : next ∈ visit.steps (structNames program)) : Visits silent next
  | rehearseStep {silent visit next} (h : Visits silent visit)
      (hnext : next ∈ visit.rehearsals (structNames program)) : Visits true next

theorem checkForms_diagnostics (structs : List String) (scopes : Scopes) (forms : Program) :
    let next := fun (scopes : Scopes) (form : TopLevel) => (form.check structs scopes).result
    (checkForms structs scopes forms).diagnostics =
      ((stages next scopes forms).flatMap fun (scopes, form) =>
        form.steps scopes).flatMap (Visit.diagnostics structs) := by
  intro next
  induction forms generalizing scopes with
  | nil => rfl
  | cons form forms ih =>
      have hform : (form.check structs scopes).diagnostics =
          (form.steps scopes).flatMap (Visit.diagnostics structs) := by
        cases form <;> simp [TopLevel.check, TopLevel.steps, Visit.diagnostics]
      rw [stages, List.flatMap_cons, List.flatMap_append, ← ih, ← hform]
      rfl

/-- The diagnostics of a program are found when its forms are registered or by the visits that the
check of the forms leads to. -/
theorem diagnostics_eq : (check language program).diagnostics =
    (registered language program).diagnostics ++
      (steps language program).flatMap (Visit.diagnostics (structNames program)) := by
  rw [steps, ← checkForms_diagnostics]
  rfl

variable {language program}

/-- Whatever is found at a visit that is not silent is reported. -/
theorem Visits.subperm {silent : Bool} {visit : Visit} (h : program.Visits language silent visit)
    (hloud : silent = false) :
    (visit.diagnostics (structNames program)).Subperm
      (Program.check language program).diagnostics := by
  induction h with
  | check hmem =>
      rw [diagnostics_eq]
      exact ((sublist_flatMap_of_mem hmem).trans (List.sublist_append_right _ _)).subperm
  | rehearse | rehearseStep => exact absurd hloud (by decide)
  | @step silent visit next _ hnext ih =>
      have hparts := (visit.diagnostics_perm (structNames program)).symm.subperm
      refine List.Subperm.trans (List.Sublist.subperm ?_) (hparts.trans (ih hloud))
      exact (sublist_flatMap_of_mem hnext).trans (List.sublist_append_right _ _)

/-- Whatever is reported is found when a form is registered or by a visit itself. -/
theorem exists_visit {d : Diagnostic} (h : d ∈ (check language program).diagnostics) :
    d ∈ (registered language program).diagnostics ∨
      ∃ visit, program.Visits language false visit ∧ d ∈ visit.reports (structNames program) := by
  have hvisit : ∀ visit, program.Visits language false visit →
      d ∈ visit.diagnostics (structNames program) →
      ∃ found, program.Visits language false found ∧ d ∈ found.reports (structNames program) := by
    intro visit
    induction visit using Visit.induction (structNames program) with
    | h visit ih =>
        intro hvisit hd
        rw [(visit.diagnostics_perm (structNames program)).mem_iff, List.mem_append] at hd
        rcases hd with hd | hd
        · exact ⟨visit, hvisit, hd⟩
        · obtain ⟨next, hnext, hd⟩ := List.mem_flatMap.mp hd
          exact ih next hnext (hvisit.step hnext) hd
  rw [diagnostics_eq, List.mem_append] at h
  refine h.imp_right fun hd => ?_
  obtain ⟨visit, hmem, hd⟩ := List.mem_flatMap.mp hd
  exact hvisit visit (.check hmem) hd

end Program

end TypedIsl

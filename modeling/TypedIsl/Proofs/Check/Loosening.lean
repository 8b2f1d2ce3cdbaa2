import TypedIsl.Proofs.Check.Accounting
import TypedIsl.Proofs.Check.Replacement

/-!
# Trees in looser scopes

If the types in the scopes are loosened, so is the type of a tree, and what is found in the tree is
accounted for. The same holds of trees that differ in one part, provided that it holds of the part.
-/

namespace TypedIsl

section

variable (slack : Slack) (own : Diagnostic → Prop) (structs : List String)

/-- Wherever no names but the given ones are bound, the second value has a looser type in looser
scopes, and its diagnostics are accounted for. -/
structure Value.Loosens (bound : List String) (value other : Value) : Prop where
  range : other.range = value.range
  check : ∀ scopes others : Scopes, scopes.Loosens slack others → scopes.BindsOnly bound →
    (value.check structs scopes).Match (Accounted slack own) (Ty.Loosens slack)
      (other.check structs others)

structure Clause.Loosens (bound : List String) (clause other : Clause) : Prop where
  check : ∀ scopes others : Scopes, scopes.Loosens slack others → scopes.BindsOnly bound →
    (clause.check structs scopes).Match (Accounted slack own) (Ty.Loosens slack)
      (other.check structs others)

structure LetBinding.AllLoosen (bound : List String) (bindings looser : List LetBinding) :
    Prop where
  check : ∀ scopes others : Scopes, scopes.Loosens slack others → scopes.BindsOnly bound →
    (LetBinding.checkAll structs scopes bindings).Match (Accounted slack own)
      (Scopes.Loosens slack) (LetBinding.checkAll structs others looser)

structure Definition.Loosens (bound : List String) (definition other : Definition) : Prop where
  register : ∀ scopes others : Scopes, scopes.Loosens slack others → scopes.BindsOnly bound →
    (definition.register structs scopes).Match (Accounted slack own) (Scopes.Loosens slack)
      (other.register structs others)
  check : ∀ scopes others : Scopes, scopes.Loosens slack others → scopes.BindsOnly bound →
    (definition.check structs scopes).Match (Accounted slack own) (Scopes.Loosens slack)
      (other.check structs others)

end

/-! ## Forms -/

section

variable {slack : Slack} {own : Diagnostic → Prop} {structs : List String}
variable {bound : List String} {scopes others : Scopes}

theorem Value.checkAll_loosens {values looser : List Value}
    (h : List.Forall₂ (Value.Loosens slack own structs bound) values looser)
    (hscopes : scopes.Loosens slack others) (hbound : scopes.BindsOnly bound) :
    (Value.checkAll structs scopes values).Match (Accounted slack own)
      (List.Forall₂ (Ty.Loosens slack)) (Value.checkAll structs others looser) := by
  have hR := additive_accounted slack own
  induction h with
  | nil => exact .pure hR .nil
  | cons hvalue _ ih =>
      rw [Value.checkAll, Value.checkAll]
      refine .bind hR (hvalue.check scopes others hscopes hbound) fun type other htype => ?_
      exact .bind hR ih fun types more htypes => .pure hR (.cons htype htypes)

theorem Clause.checkAll_loosens {clauses looser : List Clause}
    (h : List.Forall₂ (Clause.Loosens slack own structs bound) clauses looser)
    (hscopes : scopes.Loosens slack others) (hbound : scopes.BindsOnly bound) :
    (Clause.checkAll structs scopes clauses).Match (Accounted slack own)
      (List.Forall₂ (Ty.Loosens slack)) (Clause.checkAll structs others looser) := by
  have hR := additive_accounted slack own
  induction h with
  | nil => exact .pure hR .nil
  | cons hclause _ ih =>
      rw [Clause.checkAll, Clause.checkAll]
      refine .bind hR (hclause.check scopes others hscopes hbound) fun type other htype => ?_
      exact .bind hR ih fun types more htypes => .pure hR (.cons htype htypes)

theorem Clause.loosens_mk {condition looserCondition body looserBody : Value}
    (hcondition : condition.Loosens slack own structs bound looserCondition)
    (hbody : body.Loosens slack own structs bound looserBody) (range : Range) :
    (Clause.mk range condition body).Loosens slack own structs bound
      (.mk range looserCondition looserBody) := by
  have hR := additive_accounted slack own
  refine ⟨fun scopes others hscopes hbound => ?_⟩
  rw [Clause.check, Clause.check, hcondition.range]
  refine .bind hR (hcondition.check scopes others hscopes hbound) fun type other htype => ?_
  refine .step hR (judgeCondition_accounted htype _ _) fun _ => ?_
  exact hbody.check scopes others hscopes hbound

theorem Value.loosens_branch
    {condition looserCondition thenArm looserThen elseArm looserElse : Value}
    (hcondition : condition.Loosens slack own structs bound looserCondition)
    (hthen : thenArm.Loosens slack own structs bound looserThen)
    (helse : elseArm.Loosens slack own structs bound looserElse) (range : Range) :
    (Value.branch range condition thenArm elseArm).Loosens slack own structs bound
      (.branch range looserCondition looserThen looserElse) := by
  have hR := additive_accounted slack own
  refine ⟨rfl, fun scopes others hscopes hbound => ?_⟩
  rw [Value.check, Value.check, hcondition.range]
  refine .bind hR (hcondition.check scopes others hscopes hbound) fun type other htype => ?_
  refine .step hR (judgeCondition_accounted htype _ _) fun _ => ?_
  refine .bind hR (hthen.check scopes others hscopes hbound) fun thenType other hthen => ?_
  refine .bind hR (helse.check scopes others hscopes hbound) fun elseType other helse => ?_
  exact .pure hR (.unionOf (.cons hthen (.cons helse .nil)))

theorem Value.loosens_cond {clauses looser : List Clause} {otherwise? looser? : Option Value}
    (hclauses : List.Forall₂ (Clause.Loosens slack own structs bound) clauses looser)
    (hotherwise : Option.Rel (Value.Loosens slack own structs bound) otherwise? looser?)
    (range : Range) :
    (Value.cond range clauses otherwise?).Loosens slack own structs bound
      (.cond range looser looser?) := by
  have hR := additive_accounted slack own
  refine ⟨rfl, fun scopes others hscopes hbound => ?_⟩
  rw [Value.check, Value.check]
  have hall := Clause.checkAll_loosens hclauses hscopes hbound
  refine .bind hR hall fun types more htypes => ?_
  cases hotherwise with
  | none => exact .pure hR (.unionOf htypes)
  | some hvalue =>
      refine .bind hR (hvalue.check scopes others hscopes hbound) fun type other htype => ?_
      exact .pure hR (.unionOf (List.rel_append htypes (.cons htype .nil)))

theorem Scopes.Loosens.bindTypedParams (hscopes : scopes.Loosens slack others)
    (own : Diagnostic → Prop) (structs : List String) (params : List TypedParam) :
    (TypedIsl.bindTypedParams structs scopes params).Match (Accounted slack own)
      (fun bound other => bound.1.Loosens slack other.1 ∧ bound.2 = other.2)
      (TypedIsl.bindTypedParams structs others params) :=
  ((simulation_accounted slack own).bindTypedParams hscopes.related params).mono
    (fun _ _ hdiagnostics => hdiagnostics) fun _ _ => And.imp_left loosens_iff_related.mpr

theorem Scopes.Loosens.bindSame (h : scopes.Loosens slack others) (own : Diagnostic → Prop)
    (params : List (Ident × Ty)) :
    (scopes.bindParams params).Match (Accounted slack own) (Scopes.Loosens slack)
      (others.bindParams params) :=
  of_related ((simulation_accounted slack own).bindParams h.related params)

theorem Value.loosens_lambda {params : Params} {body looser : Value}
    (hbody : body.Loosens slack own structs (bound ++ params.bound) looser) (range : Range) :
    (Value.lambda range params body).Loosens slack own structs bound
      (.lambda range params looser) := by
  have hR := additive_accounted slack own
  refine ⟨rfl, fun scopes others hscopes hbound => ?_⟩
  have hbelow := hbound.enter.mono (List.subset_append_left _ params.bound)
  cases params with
  | untyped paramsRange names =>
      have hbinds := scopes.enter.binds_bindIdents .flexible names
      have honly := hbinds.bindsOnly hbelow (List.subset_append_right _ _)
      rw [Value.check, Value.check]
      have hinner := hscopes.enter.bindSame own (names.map fun name => (name, .flexible))
      refine .next hR hinner ?_
      refine .bind hR (hbody.check _ _ hinner.result honly) fun type other htype => ?_
      exact .pure hR (.function (Ty.widens_refl _) htype.collapse)
  | typed paramsRange params result? =>
      have hbinds := binds_bindTypedParams structs scopes.enter params
      rw [Params.bound_typed] at hbody hbelow
      have honly := hbinds.bindsOnly hbelow (List.subset_append_right _ _)
      rw [Value.check, Value.check]
      have hinner := hscopes.enter.bindTypedParams own structs params
      refine .next hR hinner ?_
      refine .bind hR (hbody.check _ _ hinner.result.1 honly) fun type other htype => ?_
      rw [← hinner.result.2, hbody.range]
      cases result? with
      | none => exact .pure hR (.function (Ty.widens_refl _) htype.collapse)
      | some declared =>
          refine .after hR accounted_refl (declared.resolve structs) ?_
          refine .step hR (judgeResult_accounted htype.collapse _ _ _ _) fun _ => ?_
          exact .pure hR (.same _)

theorem LetBinding.allLoosen_cons {value looser : Value} {bindings rest : List LetBinding}
    {name : Ident} (hvalue : value.Loosens slack own structs bound looser)
    (hrest : LetBinding.AllLoosen slack own structs (bound ++ [name.name]) bindings rest)
    (range : Range) :
    LetBinding.AllLoosen slack own structs bound (.mk range name value :: bindings)
      (.mk range name looser :: rest) := by
  have hR := additive_accounted slack own
  refine ⟨fun scopes others hscopes hbound => ?_⟩
  have hbinds := LetBinding.binds_check structs scopes (.mk range name value)
  have honly := hbinds.bindsOnly (hbound.mono (List.subset_append_left bound [name.name]))
    (List.subset_append_right _ _)
  have hfirst : (LetBinding.check structs scopes (.mk range name value)).Match
      (Accounted slack own) (Scopes.Loosens slack)
      (LetBinding.check structs others (.mk range name looser)) := by
    rw [LetBinding.check, LetBinding.check, hscopes.conflict?]
    split
    · exact .step hR (.refl accounted_refl _) fun _ => .pure hR hscopes
    · refine .bind hR (hvalue.check scopes others hscopes hbound) fun type other htype => ?_
      exact .pure hR (hscopes.bind name htype)
  exact .next hR hfirst (hrest.check _ _ hfirst.result honly)

theorem Value.loosens_lets {bindings looser : List LetBinding} {body looserBody : Value}
    (hbindings : LetBinding.AllLoosen slack own structs bound bindings looser)
    (hbody : body.Loosens slack own structs (bound ++ LetBinding.bound bindings) looserBody)
    (range : Range) (kind : LetKind) :
    (Value.lets range kind bindings body).Loosens slack own structs bound
      (.lets range kind looser looserBody) := by
  have hR := additive_accounted slack own
  refine ⟨rfl, fun scopes others hscopes hbound => ?_⟩
  have hbelow := hbound.enter.mono (List.subset_append_left _ (LetBinding.bound bindings))
  have hbinds := LetBinding.binds_checkAll structs scopes.enter bindings
  have honly := hbinds.bindsOnly hbelow (List.subset_append_right _ _)
  have hinner := hbindings.check _ _ hscopes.enter hbound.enter
  rw [Value.check, Value.check]
  exact .next hR hinner (hbody.check _ _ hinner.result honly)

theorem Definition.registerAll_loosens {definitions looser : List Definition}
    (h : List.Forall₂ (Definition.Loosens slack own structs bound) definitions looser)
    (hsub : Definition.bound definitions ⊆ bound) (hscopes : scopes.Loosens slack others)
    (hbound : scopes.BindsOnly bound) :
    (Definition.registerAll structs scopes definitions).Match (Accounted slack own)
      (Scopes.Loosens slack) (Definition.registerAll structs others looser) := by
  have hR := additive_accounted slack own
  induction h generalizing scopes others with
  | nil => exact .pure hR hscopes
  | @cons definition other definitions looser hdefinition _ ih =>
      obtain ⟨hname, hsub⟩ := List.cons_subset.mp hsub
      have hbinds := Definition.binds_register structs scopes definition
      have honly := hbinds.bindsOnly hbound (List.cons_subset.mpr ⟨hname, List.nil_subset _⟩)
      have hfirst := hdefinition.register scopes others hscopes hbound
      exact .next hR hfirst (ih hsub hfirst.result honly)

theorem Definition.checkAll_loosens {definitions looser : List Definition}
    (h : List.Forall₂ (Definition.Loosens slack own structs bound) definitions looser)
    (hsub : Definition.bound definitions ⊆ bound) (hscopes : scopes.Loosens slack others)
    (hbound : scopes.BindsOnly bound) :
    (Definition.checkAll structs scopes definitions).Match (Accounted slack own)
      (Scopes.Loosens slack) (Definition.checkAll structs others looser) := by
  have hR := additive_accounted slack own
  induction h generalizing scopes others with
  | nil => exact .pure hR hscopes
  | @cons definition other definitions looser hdefinition _ ih =>
      obtain ⟨hname, hsub⟩ := List.cons_subset.mp hsub
      have hbinds := Definition.binds_check structs scopes definition
      have honly := hbinds.bindsOnly hbound (List.cons_subset.mpr ⟨hname, List.nil_subset _⟩)
      have hfirst := hdefinition.check scopes others hscopes hbound
      exact .next hR hfirst (ih hsub hfirst.result honly)

theorem Value.loosens_locals {definitions looser : List Definition} {body looserBody : Value}
    (h : List.Forall₂ (Definition.Loosens slack own structs (bound ++ Definition.bound definitions))
      definitions looser)
    (hbody : body.Loosens slack own structs (bound ++ Definition.bound definitions) looserBody)
    (range : Range) :
    (Value.locals range definitions body).Loosens slack own structs bound
      (.locals range looser looserBody) := by
  have hR := additive_accounted slack own
  refine ⟨rfl, fun scopes others hscopes hbound => ?_⟩
  have hsub := List.subset_append_right bound (Definition.bound definitions)
  have hbelow := hbound.enter.mono (List.subset_append_left _ (Definition.bound definitions))
  have hregister := Definition.registerAll_loosens h hsub hscopes.enter hbelow
  have hregistered :=
    (Definition.binds_registerAll structs scopes.enter definitions).bindsOnly hbelow hsub
  have hcheck := Definition.checkAll_loosens h hsub hregister.result hregistered
  have hchecked := (Definition.binds_checkAll structs _ definitions).bindsOnly hregistered hsub
  rw [Value.check, Value.check]
  refine .next hR hregister (.next hR hcheck ?_)
  exact hbody.check _ _ hcheck.result hchecked

theorem Value.ranges_loosens {values looser : List Value}
    (h : List.Forall₂ (Value.Loosens slack own structs bound) values looser) :
    looser.map Value.range = values.map Value.range := by
  induction h with
  | nil => rfl
  | cons hvalue _ ih => rw [List.map_cons, List.map_cons, hvalue.range, ih]

theorem Value.loosens_call {callee looser : Value} {args looserArgs : List Value}
    (hcallee : callee.Loosens slack own structs bound looser)
    (hargs : List.Forall₂ (Value.Loosens slack own structs bound) args looserArgs)
    (range : Range) :
    (Value.call range callee args).Loosens slack own structs bound
      (.call range looser looserArgs) := by
  have hR := additive_accounted slack own
  refine ⟨rfl, fun scopes others hscopes hbound => ?_⟩
  rw [Value.check_call, Value.check_call]
  refine .bind hR (hcallee.check scopes others hscopes hbound) fun type other htype => ?_
  exact callAs_accounted htype range hcallee.range (Value.ranges_loosens hargs)
    (Value.checkAll_loosens hargs hscopes hbound)

/-! ## Definitions -/

theorem Definition.loosens_constant {value looser : Value}
    (h : value.Loosens slack own structs bound looser) (range : Range) (docs : List String)
    (name : Ident) :
    (Definition.constant range docs name value).Loosens slack own structs bound
      (.constant range docs name looser) := by
  have hR := additive_accounted slack own
  refine ⟨fun scopes others hscopes hbound => ?_, fun scopes others hscopes hbound => ?_⟩
  · rw [Definition.register, Definition.register, hscopes.conflict?]
    split
    · exact .step hR (.refl accounted_refl _) fun _ => .pure hR hscopes
    · exact .pure hR (hscopes.bind name (h.check scopes others hscopes hbound).result)
  · rw [Definition.check, Definition.check]
    refine .bind hR (h.check scopes others hscopes hbound) fun type other htype => ?_
    exact .pure hR (hscopes.finalize name htype)

theorem Definition.loosens_function {params : Params} {body looser : Value}
    (h : body.Loosens slack own structs (bound ++ params.bound) looser) (range : Range)
    (docs : List String) (name : Ident) :
    (Definition.function range docs name params body).Loosens slack own structs bound
      (.function range docs name params looser) := by
  have hR := additive_accounted slack own
  refine ⟨fun scopes others hscopes _ => hscopes.bindNew name (.same _) _,
    fun scopes others hscopes hbound => ?_⟩
  have hbelow := hbound.enter.mono (List.subset_append_left _ params.bound)
  cases params with
  | untyped paramsRange names =>
      have hbinds := scopes.enter.binds_bindIdents .flexible names
      have honly := hbinds.bindsOnly hbelow (List.subset_append_right _ _)
      have hinner := hscopes.enter.bindSame own (names.map fun name => (name, .flexible))
      rw [Definition.check, Definition.check]
      refine .after hR accounted_refl _ (.next hR hinner ?_)
      exact .bind hR (h.check _ _ hinner.result honly) fun _ _ _ => .pure hR hscopes
  | typed paramsRange params result? =>
      rw [Params.bound_typed] at h hbelow
      have honly := fun types => (scopes.enter.binds_bindResolved params types).bindsOnly hbelow
        (List.subset_append_right _ _)
      have hinner := fun types => hscopes.enter.bindSame own
        ((params.map (·.name)).zip types)
      cases result? with
      | none =>
          rw [Definition.check, Definition.check]
          refine .after hR accounted_refl _ (.next hR (hinner _) ?_)
          refine .bind hR (h.check _ _ (hinner _).result (honly _)) fun _ _ _ => ?_
          exact .after hR accounted_refl _ (.pure hR hscopes)
      | some declared =>
          rw [Definition.check, Definition.check, h.range]
          refine .after hR accounted_refl _ (.after hR accounted_refl _ (.next hR (hinner _) ?_))
          refine .bind hR (h.check _ _ (hinner _).result (honly _)) fun type other htype => ?_
          refine .step hR (judgeResult_accounted htype.collapse _ _ _ _) fun _ => ?_
          exact .pure hR (hscopes.finalize name (.same _))

end

end TypedIsl

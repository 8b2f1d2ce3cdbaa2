import TypedIsl.Proofs.Check.Annotations
import TypedIsl.Proofs.Check.Loosening
import TypedIsl.Proofs.Session.Judging

/-!
# Checking respelled trees

A checker that compares names, and spells none but those of the built-in types, finds the same in a
tree with mapped names: the types and the diagnostics are those of the tree, mapped.
-/

namespace TypedIsl

/-- Different names are mapped to different ones. In types the built-in names stay, and the others
are mapped like all names, to such as are not built in. -/
structure Respelling.KeepsTypes (ρ : Respelling) : Prop where
  faithful : Faithful ρ.name
  typeName : ∀ {name spelled}, ρ.typeName name = some spelled →
    name = spelled ∧ spelled ∈ builtinTypes ∨
      name ∉ builtinTypes ∧ spelled ∉ builtinTypes ∧ ρ.name name = some spelled
  typeFunction : ∀ {name spelled}, ρ.typeFunction name = some spelled →
    name = spelled ∧ spelled ∈ builtinTypeFunctions ∨
      name ∉ builtinTypeFunctions ∧ spelled ∉ builtinTypeFunctions ∧ ρ.name name = some spelled

section

variable {ρ : Respelling} (hρ : ρ.KeepsTypes) {structs others : List String}
  (hstructs : Elementwise ρ.name structs others)

/-! ## Annotations -/

theorem namedType?_of_builtin {name : String} (h : name ∈ builtinTypes)
    (f : String → Option String) (structs others : List String) :
    ∃ type, namedType? structs name = some type ∧ namedType? others name = some type ∧
      type.Respells f type := by
  simp only [builtinTypes, List.mem_cons, List.not_mem_nil, or_false] at h
  rcases h with rfl | rfl | rfl | rfl
  · exact ⟨.number, rfl, rfl, rfl⟩
  · exact ⟨.string, rfl, rfl, rfl⟩
  · exact ⟨.boolean, rfl, rfl, rfl⟩
  · exact ⟨.symbol, rfl, rfl, rfl⟩

include hstructs in
theorem mem_structs_respells (hf : Faithful ρ.name) {name spelled : String}
    (h : ρ.name name = some spelled) : spelled ∈ others ↔ name ∈ structs := by
  induction hstructs with
  | nil => exact ⟨(absurd · List.not_mem_nil), (absurd · List.not_mem_nil)⟩
  | cons hhead _ ih => rw [List.mem_cons, List.mem_cons, ih, hf.eq_iff h hhead]

theorem unknownType_respells {f : String → Option String} {name spelled : Ident}
    (h : name.respell? f = some spelled) :
    (unknownType name).Match (Respelled f) (Ty.Respells f) (unknownType spelled) := by
  have hR := additive_respelled f
  obtain ⟨hname, hrange⟩ := Ident.respell?_eq_some_iff.mp h
  rw [unknownType, unknownType, hrange]
  refine .step hR (report_respells ?_ _ []) fun _ => .pure hR rfl
  simp [Problem.respell?, hname]

include hρ hstructs

theorem TypeExpr.resolve_respells {type spelled : TypeExpr} (h : type.respell? ρ = some spelled) :
    (type.resolve structs).Match (Respelled ρ.name) (Ty.Respells ρ.name)
      (spelled.resolve others) := by
  have hR := additive_respelled ρ.name
  match type with
  | .named name =>
      obtain ⟨ident, hident, rfl⟩ := one_part h
      obtain ⟨hname, hrange⟩ := Ident.respell?_eq_some_iff.mp hident
      rw [resolve, resolve]
      rcases hρ.typeName hname with ⟨heq, hbuiltin⟩ | ⟨hnot, hnot', hname⟩
      · obtain ⟨type, htype, htype', hsame⟩ :=
          namedType?_of_builtin hbuiltin ρ.name structs others
        rw [heq, htype, htype']
        exact .pure hR hsame
      · rw [namedType?_of_not_builtin hnot, namedType?_of_not_builtin hnot']
        simp only [mem_structs_respells hstructs hρ.faithful hname]
        by_cases hmem : name.name ∈ structs
        · rw [if_pos hmem, if_pos hmem]
          exact .pure hR (by simp [Ty.Respells, Ty.respell?, hname])
        · rw [if_neg hmem, if_neg hmem]
          exact unknownType_respells (Ident.respell?_eq_some_iff.mpr ⟨hname, hrange⟩)
  | .apply range function args =>
      obtain ⟨ident, hident, types, hargs, rfl⟩ := two_parts h
      obtain ⟨hname, hrange⟩ := Ident.respell?_eq_some_iff.mp hident
      rcases hρ.typeFunction hname with ⟨heq, hbuiltin⟩ | ⟨hnot, hnot', hname⟩
      · simp only [builtinTypeFunctions, List.mem_cons, List.not_mem_nil, or_false] at hbuiltin
        rcases hbuiltin with hany | hlist
        · rw [resolve_any (heq.trans hany), resolve_any hany]
          exact .pure hR rfl
        · cases args with
          | nil =>
              obtain rfl := Option.some.inj hargs
              rw [resolve_listOf_nil (heq.trans hlist), resolve_listOf_nil hlist]
              exact .pure hR rfl
          | cons arg args =>
              cases TypeExpr.respellAll?_eq_some_iff.mp hargs with
              | cons harg _ =>
                  rw [resolve_listOf_cons (heq.trans hlist), resolve_listOf_cons hlist]
                  refine .bind hR (resolve_respells harg) fun type other htype => .pure hR ?_
                  simp [Ty.Respells, Ty.respell?, show type.respell? ρ.name = some other from htype]
      · rw [resolve_of_not_builtin hnot, resolve_of_not_builtin hnot']
        exact unknownType_respells (Ident.respell?_eq_some_iff.mpr ⟨hname, hrange⟩)

theorem resolveParams_respells {params spelled : List TypedParam}
    (h : Elementwise (TypedParam.respell? ρ) params spelled) :
    (resolveParams structs params).Match (Respelled ρ.name) (List.Forall₂ (Ty.Respells ρ.name))
      (resolveParams others spelled) := by
  have hR := additive_respelled ρ.name
  induction h with
  | nil => exact .pure hR .nil
  | cons hparam _ ih =>
      have htype := (TypedParam.respell?_eq_some_iff.mp hparam).2
      refine .bind hR (TypeExpr.resolve_respells hρ hstructs htype) fun _ _ htype => ?_
      exact .bind hR ih fun _ _ htypes => .pure hR (.cons htype htypes)

theorem bindTypedParams_respells {scopes around : Scopes} (hscopes : scopes.Respells ρ.name around)
    {params spelled : List TypedParam} (h : Elementwise (TypedParam.respell? ρ) params spelled) :
    (bindTypedParams structs scopes params).Match (Respelled ρ.name)
      (fun inner other => inner.1.Respells ρ.name other.1 ∧
        List.Forall₂ (Ty.Respells ρ.name) inner.2 other.2)
      (bindTypedParams others around spelled) := by
  have hR := additive_respelled ρ.name
  induction h generalizing scopes around with
  | nil => exact .pure hR ⟨hscopes, .nil⟩
  | cons hparam _ ih =>
      obtain ⟨hname, htype⟩ := TypedParam.respell?_eq_some_iff.mp hparam
      refine .bind hR (TypeExpr.resolve_respells hρ hstructs htype) fun _ _ htype => ?_
      refine .bind hR (hscopes.bindParam hρ.faithful hname htype) fun _ _ hbound => ?_
      exact .bind hR (ih hbound) fun _ _ hinner => .pure hR ⟨hinner.1, .cons htype hinner.2⟩

omit hρ hstructs

/-! ## Function types -/

variable {f : String → Option String}

theorem Ty.function_respells {params spelled : List Param} {result declared : Ty}
    (hparams : Elementwise (Param.respell? f) params spelled)
    (hresult : result.Respells f declared) :
    (Ty.function params result).Respells f (.function spelled declared) := by
  have hparams := Param.respellAll?_eq_some_iff.mpr hparams
  rw [Ty.Respells, Ty.respell?, hparams, show result.respell? f = some declared from hresult]
  rfl

theorem fixed_respells {types spelled : List Ty} (h : List.Forall₂ (Ty.Respells f) types spelled) :
    Elementwise (Param.respell? f) (types.map .fixed) (spelled.map .fixed) := by
  induction h with
  | nil => exact .nil
  | cons hhead _ ih =>
      refine .cons ?_ ih
      rw [Param.respell?, show Ty.respell? f _ = some _ from hhead]
      rfl

theorem fixedAny_respells {names spelled : List Ident}
    (h : Elementwise (Ident.respell? f) names spelled) :
    Elementwise (Param.respell? f) (names.map fun _ => .fixed .any)
      (spelled.map fun _ => .fixed .any) := by
  induction h with
  | nil => exact .nil
  | cons _ _ ih => exact .cons rfl ih

/-! ## Parameter lists -/

theorem Params.respell?_typed {range : Range} {params : List TypedParam}
    {result? : Option TypeExpr} {spelled : Params}
    (h : (Params.typed range params result?).respell? ρ = some spelled) :
    ∃ others declared?, spelled = .typed range others declared? ∧
      Elementwise (TypedParam.respell? ρ) params others ∧
      Option.Rel (fun type other => TypeExpr.respell? ρ type = some other) result? declared? := by
  cases result? with
  | none =>
      obtain ⟨others, hparams, hspelled⟩ := Option.bind_eq_some_iff.mp h
      exact ⟨others, none, (Option.some.inj hspelled).symm, mapM_eq_some_iff.mp hparams, .none⟩
  | some declared =>
      obtain ⟨others, hparams, other, hdeclared, rfl⟩ := two_parts h
      exact ⟨others, some other, rfl, mapM_eq_some_iff.mp hparams, .some hdeclared⟩

theorem Params.respell?_untyped {range : Range} {names : List Ident} {spelled : Params}
    (h : (Params.untyped range names).respell? ρ = some spelled) :
    ∃ others, spelled = .untyped range others ∧
      Elementwise (Ident.respell? ρ.name) names others := by
  obtain ⟨others, hnames, hspelled⟩ := Option.bind_eq_some_iff.mp h
  exact ⟨others, (Option.some.inj hspelled).symm, mapM_eq_some_iff.mp hnames⟩

theorem paramNames_respells {params spelled : List TypedParam}
    (h : Elementwise (TypedParam.respell? ρ) params spelled) :
    Elementwise (Ident.respell? ρ.name) (params.map (·.name)) (spelled.map (·.name)) := by
  rw [Elementwise, List.forall₂_map_left_iff, List.forall₂_map_right_iff]
  exact h.imp fun _ _ h => (TypedParam.respell?_eq_some_iff.mp h).1

include hρ hstructs in
theorem Params.declaredType_respells {params spelled : Params}
    (h : params.respell? ρ = some spelled) :
    (params.declaredType structs).Respells ρ.name (spelled.declaredType others) := by
  cases params with
  | typed range params result? =>
      obtain ⟨params', declared?, rfl, hparams, hresult⟩ := respell?_typed h
      refine Ty.function_respells
        (fixed_respells (resolveParams_respells hρ hstructs hparams).result) ?_
      cases hresult with
      | none => rfl
      | some hdeclared => exact (TypeExpr.resolve_respells hρ hstructs hdeclared).result
  | untyped range names =>
      obtain ⟨names', rfl, hnames⟩ := respell?_untyped h
      exact Ty.function_respells (fixedAny_respells hnames) rfl

theorem zip_respells {names spelled : List Ident} {types declared : List Ty}
    (hnames : Elementwise (Ident.respell? f) names spelled)
    (htypes : List.Forall₂ (Ty.Respells f) types declared) :
    List.Forall₂ (fun param other => Ident.respell? f param.1 = some other.1 ∧
      param.2.Respells f other.2) (names.zip types) (spelled.zip declared) := by
  induction hnames generalizing types declared with
  | nil => exact .nil
  | cons hname _ ih =>
      cases htypes with
      | nil => exact .nil
      | cons htype htypes => exact .cons ⟨hname, htype⟩ (ih htypes)

theorem flexible_respells {names spelled : List Ident}
    (hnames : Elementwise (Ident.respell? f) names spelled) :
    List.Forall₂ (fun param other => Ident.respell? f param.1 = some other.1 ∧
        param.2.Respells f other.2)
      (names.map fun name => (name, Ty.flexible)) (spelled.map fun name => (name, .flexible)) := by
  rw [List.forall₂_map_left_iff, List.forall₂_map_right_iff]
  exact hnames.imp fun _ _ h => ⟨h, rfl⟩

/-! ## Calls -/

theorem Value.ranges_respells {values spelled : List Value}
    (h : Elementwise (Value.respell? ρ) values spelled) :
    spelled.map Value.range = values.map Value.range := by
  induction h with
  | nil => rfl
  | cons hvalue _ ih => rw [List.map_cons, List.map_cons, (Value.respell?_keeps hvalue).1, ih]

theorem Value.callAs_respells {scopes around : Scopes} {callee called : Value}
    (hcallee : callee.respell? ρ = some called) {args spelled : List Value}
    (hspelled : Elementwise (Value.respell? ρ) args spelled)
    (hargs : (Value.checkAll structs scopes args).Match (Respelled ρ.name)
      (List.Forall₂ (Ty.Respells ρ.name)) (Value.checkAll others around spelled))
    {type other : Ty} (htype : type.Respells ρ.name other) (range : Range) :
    (Value.callAs structs scopes range callee args type).Match (Respelled ρ.name)
      (Ty.Respells ρ.name) (Value.callAs others around range called spelled other) := by
  have hR := additive_respelled ρ.name
  obtain ⟨hrange, hnamed⟩ := Value.respell?_keeps hcallee
  by_cases hflexible : type.tag = .flexible
  · obtain rfl := Ty.eq_flexible_of_tag hflexible
    obtain rfl := Option.some.inj htype
    exact .pure hR rfl
  by_cases hfunction : type.tag = .function
  · cases type with
    | function params result =>
        obtain ⟨params', result', hparams, hresult, rfl⟩ := Ty.respell?_function htype
        rw [Value.callAs, Value.callAs, Value.ranges_respells hspelled]
        refine .bind hR hargs fun types actuals htypes => ?_
        exact judgeCall_respells hnamed hparams hresult htypes range _
    | _ => exact Tag.noConfusion hfunction
  · have htag := Ty.tag_of_respell? htype
    rw [Value.callAs_other structs scopes range callee args hflexible hfunction,
      Value.callAs_other others around range called spelled (htag ▸ hflexible) (htag ▸ hfunction),
      htag, hrange]
    refine .step hR (report_respells ?_ _ []) fun _ => .pure hR rfl
    simp [Problem.respell?, hnamed]

/-! ## Values and definitions -/

theorem Literal.type_of_respell? {value spelled : Literal} (h : value.respell? f = some spelled) :
    spelled.type = value.type := by
  cases value with
  | symbol name =>
      obtain ⟨_, _, rfl⟩ := one_part h
      rfl
  | _ =>
      obtain rfl := Option.some.inj h
      rfl

theorem Literal.type_respells (value : Literal) : value.type.Respells f value.type := by
  cases value <;> rfl

include hρ hstructs

-- The linter does not see the uses within a block of mutual theorems.
set_option linter.unusedSectionVars false in
mutual

theorem Value.check_respells {scopes around : Scopes} (hscopes : scopes.Respells ρ.name around)
    {value spelled : Value} (h : value.respell? ρ = some spelled) :
    (value.check structs scopes).Match (Respelled ρ.name) (Ty.Respells ρ.name)
      (spelled.check others around) := by
  have hR := additive_respelled ρ.name
  match value with
  | .literal range value =>
      obtain ⟨other, hvalue, rfl⟩ := one_part h
      rw [Value.check, Value.check, Literal.type_of_respell? hvalue]
      exact .pure hR value.type_respells
  | .name ident =>
      obtain ⟨other, hname, rfl⟩ := one_part h
      exact hscopes.use hρ.faithful hname
  | .branch range condition thenArm elseArm =>
      obtain ⟨condition', hcondition, thenArm', hthen, elseArm', helse, rfl⟩ := three_parts h
      rw [Value.check, Value.check, (Value.respell?_keeps hcondition).1]
      refine .bind hR (Value.check_respells hscopes hcondition) fun _ _ htype => ?_
      refine .step hR (judgeCondition_respells htype _ _) fun _ => ?_
      refine .bind hR (Value.check_respells hscopes hthen) fun _ _ hthen => ?_
      refine .bind hR (Value.check_respells hscopes helse) fun _ _ helse => ?_
      exact .pure hR (Ty.unionOf_respells (.cons hthen (.cons helse .nil)))
  | .cond range clauses none =>
      obtain ⟨clauses', hclauses, hspelled⟩ := Option.bind_eq_some_iff.mp h
      obtain rfl := Option.some.inj hspelled
      rw [Value.check, Value.check]
      refine .bind hR (Clause.checkAll_respells hscopes hclauses) fun _ _ htypes => ?_
      exact .pure hR (Ty.unionOf_respells htypes)
  | .cond range clauses (some value) =>
      obtain ⟨clauses', hclauses, value', hvalue, rfl⟩ := two_parts h
      rw [Value.check, Value.check]
      refine .bind hR (Clause.checkAll_respells hscopes hclauses) fun _ _ htypes => ?_
      refine .bind hR (Value.check_respells hscopes hvalue) fun _ _ htype => ?_
      exact .pure hR (Ty.unionOf_respells (Elementwise.snoc htypes htype))
  | .lambda range (.typed paramsRange params result?) body =>
      obtain ⟨params', hparams, body', hbody, rfl⟩ := two_parts h
      obtain ⟨others, declared?, rfl, hparams, hresult⟩ := Params.respell?_typed hparams
      rw [Value.check, Value.check, (Value.respell?_keeps hbody).1]
      refine .bind hR (bindTypedParams_respells hρ hstructs hscopes.enter hparams)
        fun inner other hinner => ?_
      refine .bind hR (Value.check_respells hinner.1 hbody) fun _ _ htype => ?_
      have hactual := Ty.collapse_respells htype
      have hfixed := fixed_respells hinner.2
      cases hresult with
      | none => exact .pure hR (Ty.function_respells hfixed hactual)
      | some hdeclared =>
          refine .bind hR (TypeExpr.resolve_respells hρ hstructs hdeclared) fun _ _ hexpected => ?_
          rw [TypeExpr.range_of_respell? hdeclared]
          refine .step hR (judgeResult_respells .none hexpected hactual _ _) fun _ => ?_
          exact .pure hR (Ty.function_respells hfixed hexpected)
  | .lambda range (.untyped paramsRange names) body =>
      obtain ⟨params', hparams, body', hbody, rfl⟩ := two_parts h
      obtain ⟨others, rfl, hnames⟩ := Params.respell?_untyped hparams
      rw [Value.check, Value.check]
      refine .bind hR (hscopes.enter.bindParams hρ.faithful (flexible_respells hnames))
        fun inner other hinner => ?_
      refine .bind hR (Value.check_respells hinner hbody) fun _ _ htype => .pure hR ?_
      exact Ty.function_respells (fixedAny_respells hnames) (Ty.collapse_respells htype)
  | .locals range definitions body =>
      obtain ⟨definitions', hdefinitions, body', hbody, rfl⟩ := two_parts h
      rw [Value.check, Value.check]
      refine .bind hR (Definition.registerAll_respells hscopes.enter hdefinitions)
        fun _ _ hregistered => ?_
      refine .bind hR (Definition.checkAll_respells hregistered hdefinitions) fun _ _ hinner => ?_
      exact Value.check_respells hinner hbody
  | .lets range kind bindings body =>
      obtain ⟨bindings', hbindings, body', hbody, rfl⟩ := two_parts h
      rw [Value.check, Value.check]
      refine .bind hR (LetBinding.checkAll_respells hscopes.enter hbindings) fun _ _ hinner => ?_
      exact Value.check_respells hinner hbody
  | .require range library =>
      obtain ⟨other, hlibrary, rfl⟩ := one_part h
      exact .pure hR rfl
  | .call range callee args =>
      obtain ⟨callee', hcallee, args', hargs, rfl⟩ := two_parts h
      rw [Value.check_call, Value.check_call]
      refine .bind hR (Value.check_respells hscopes hcallee) fun _ _ htype => ?_
      exact Value.callAs_respells hcallee (Value.respellAll?_eq_some_iff.mp hargs)
        (Value.checkAll_respells hscopes hargs) htype range
termination_by structural value

theorem Value.checkAll_respells {scopes around : Scopes} (hscopes : scopes.Respells ρ.name around)
    {values spelled : List Value} (h : Value.respellAll? ρ values = some spelled) :
    (Value.checkAll structs scopes values).Match (Respelled ρ.name)
      (List.Forall₂ (Ty.Respells ρ.name)) (Value.checkAll others around spelled) := by
  have hR := additive_respelled ρ.name
  match values with
  | [] =>
      obtain rfl := Option.some.inj h
      exact .pure hR .nil
  | value :: values =>
      obtain ⟨first, hvalue, rest, hvalues, rfl⟩ := two_parts h
      refine .bind hR (Value.check_respells hscopes hvalue) fun _ _ htype => ?_
      exact .bind hR (Value.checkAll_respells hscopes hvalues) fun _ _ htypes =>
        .pure hR (.cons htype htypes)
termination_by structural values

theorem Clause.check_respells {scopes around : Scopes} (hscopes : scopes.Respells ρ.name around)
    {clause spelled : Clause} (h : clause.respell? ρ = some spelled) :
    (clause.check structs scopes).Match (Respelled ρ.name) (Ty.Respells ρ.name)
      (spelled.check others around) := by
  have hR := additive_respelled ρ.name
  match clause with
  | .mk range condition body =>
      obtain ⟨condition', hcondition, body', hbody, rfl⟩ := two_parts h
      rw [Clause.check, Clause.check, (Value.respell?_keeps hcondition).1]
      refine .bind hR (Value.check_respells hscopes hcondition) fun _ _ htype => ?_
      refine .step hR (judgeCondition_respells htype _ _) fun _ => ?_
      exact Value.check_respells hscopes hbody
termination_by structural clause

theorem Clause.checkAll_respells {scopes around : Scopes} (hscopes : scopes.Respells ρ.name around)
    {clauses spelled : List Clause} (h : Clause.respellAll? ρ clauses = some spelled) :
    (Clause.checkAll structs scopes clauses).Match (Respelled ρ.name)
      (List.Forall₂ (Ty.Respells ρ.name)) (Clause.checkAll others around spelled) := by
  have hR := additive_respelled ρ.name
  match clauses with
  | [] =>
      obtain rfl := Option.some.inj h
      exact .pure hR .nil
  | clause :: clauses =>
      obtain ⟨first, hclause, rest, hclauses, rfl⟩ := two_parts h
      refine .bind hR (Clause.check_respells hscopes hclause) fun _ _ htype => ?_
      exact .bind hR (Clause.checkAll_respells hscopes hclauses) fun _ _ htypes =>
        .pure hR (.cons htype htypes)
termination_by structural clauses

theorem LetBinding.check_respells {scopes around : Scopes}
    (hscopes : scopes.Respells ρ.name around) {binding spelled : LetBinding}
    (h : binding.respell? ρ = some spelled) :
    (binding.check structs scopes).Match (Respelled ρ.name) (Scopes.Respells ρ.name)
      (spelled.check others around) := by
  have hR := additive_respelled ρ.name
  match binding with
  | .mk range name value =>
      obtain ⟨name', hname, value', hvalue, rfl⟩ := two_parts h
      have hproblem : (Problem.alreadyDefinedLocally name.name).respell? ρ.name =
          some (.alreadyDefinedLocally name'.name) := by
        simp [Problem.respell?, (Ident.respell?_eq_some_iff.mp hname).1]
      rw [LetBinding.check, LetBinding.check]
      rcases rel_cases (hscopes.conflict? hρ.faithful hname hproblem) with
        ⟨hnone, hnone'⟩ | ⟨d, e, hsome, hsome', hd⟩
      · rw [hnone, hnone']
        refine .bind hR (Value.check_respells hscopes hvalue) fun _ _ htype => ?_
        exact .pure hR (hscopes.bind hρ.faithful hname htype)
      · rw [hsome, hsome']
        exact .step hR (.report (.cons hd .nil)) fun _ => .pure hR hscopes
termination_by structural binding

theorem LetBinding.checkAll_respells {scopes around : Scopes}
    (hscopes : scopes.Respells ρ.name around) {bindings spelled : List LetBinding}
    (h : LetBinding.respellAll? ρ bindings = some spelled) :
    (LetBinding.checkAll structs scopes bindings).Match (Respelled ρ.name) (Scopes.Respells ρ.name)
      (LetBinding.checkAll others around spelled) := by
  have hR := additive_respelled ρ.name
  match bindings with
  | [] =>
      obtain rfl := Option.some.inj h
      exact .pure hR hscopes
  | binding :: bindings =>
      obtain ⟨first, hbinding, rest, hbindings, rfl⟩ := two_parts h
      refine .bind hR (LetBinding.check_respells hscopes hbinding) fun _ _ hscopes => ?_
      exact LetBinding.checkAll_respells hscopes hbindings
termination_by structural bindings

theorem Definition.register_respells {scopes around : Scopes}
    (hscopes : scopes.Respells ρ.name around) {definition spelled : Definition}
    (h : definition.respell? ρ = some spelled) :
    (definition.register structs scopes).Match (Respelled ρ.name) (Scopes.Respells ρ.name)
      (spelled.register others around) := by
  have hR := additive_respelled ρ.name
  have hproblem {name name' : Ident} (hname : name.respell? ρ.name = some name') :
      (Problem.alreadyDefined name.name).respell? ρ.name = some (.alreadyDefined name'.name) := by
    simp [Problem.respell?, (Ident.respell?_eq_some_iff.mp hname).1]
  match definition with
  | .function range docs name params body =>
      obtain ⟨name', hname, params', hparams, body', hbody, rfl⟩ := three_parts h
      exact hscopes.bindNew hρ.faithful hname (Params.declaredType_respells hρ hstructs hparams)
        (hproblem hname)
  | .constant range docs name value =>
      obtain ⟨name', hname, value', hvalue, rfl⟩ := two_parts h
      rw [Definition.register, Definition.register]
      rcases rel_cases (hscopes.conflict? hρ.faithful hname (hproblem hname)) with
        ⟨hnone, hnone'⟩ | ⟨d, e, hsome, hsome', hd⟩
      · rw [hnone, hnone']
        exact .pure hR
          (hscopes.bind hρ.faithful hname (Value.check_respells hscopes hvalue).result)
      · rw [hsome, hsome']
        exact .step hR (.report (.cons hd .nil)) fun _ => .pure hR hscopes
termination_by structural definition

theorem Definition.registerAll_respells {scopes around : Scopes}
    (hscopes : scopes.Respells ρ.name around) {definitions spelled : List Definition}
    (h : Definition.respellAll? ρ definitions = some spelled) :
    (Definition.registerAll structs scopes definitions).Match (Respelled ρ.name)
      (Scopes.Respells ρ.name) (Definition.registerAll others around spelled) := by
  have hR := additive_respelled ρ.name
  match definitions with
  | [] =>
      obtain rfl := Option.some.inj h
      exact .pure hR hscopes
  | definition :: definitions =>
      obtain ⟨first, hdefinition, rest, hdefinitions, rfl⟩ := two_parts h
      refine .bind hR (Definition.register_respells hscopes hdefinition) fun _ _ hscopes => ?_
      exact Definition.registerAll_respells hscopes hdefinitions
termination_by structural definitions

theorem Definition.check_respells {scopes around : Scopes}
    (hscopes : scopes.Respells ρ.name around) {definition spelled : Definition}
    (h : definition.respell? ρ = some spelled) :
    (definition.check structs scopes).Match (Respelled ρ.name) (Scopes.Respells ρ.name)
      (spelled.check others around) := by
  have hR := additive_respelled ρ.name
  match definition with
  | .function range docs name (.typed paramsRange params result?) body =>
      obtain ⟨name', hname, params', hparams, body', hbody, rfl⟩ := three_parts h
      obtain ⟨spelled, declared?, rfl, htyped, hresult⟩ := Params.respell?_typed hparams
      obtain ⟨hspelled, hrange⟩ := Ident.respell?_eq_some_iff.mp hname
      have hnames := paramNames_respells htyped
      cases hresult with
      | none =>
          rw [Definition.check, Definition.check]
          refine .bind hR (resolveParams_respells hρ hstructs htyped) fun _ _ htypes => ?_
          refine .bind hR (hscopes.enter.bindParams hρ.faithful (zip_respells hnames htypes))
            fun _ _ hinner => ?_
          refine .bind hR (Value.check_respells hinner hbody) fun _ _ _ => ?_
          rw [hrange]
          refine .step hR (report_respells ?_ _ []) fun _ => .pure hR hscopes
          simp [Problem.respell?, hspelled]
      | some hdeclared =>
          rw [Definition.check, Definition.check, (Value.respell?_keeps hbody).1,
            TypeExpr.range_of_respell? hdeclared]
          refine .bind hR (resolveParams_respells hρ hstructs htyped) fun _ _ htypes => ?_
          refine .bind hR (TypeExpr.resolve_respells hρ hstructs hdeclared)
            fun _ _ hexpected => ?_
          refine .bind hR (hscopes.enter.bindParams hρ.faithful (zip_respells hnames htypes))
            fun _ _ hinner => ?_
          refine .bind hR (Value.check_respells hinner hbody) fun _ _ htype => ?_
          refine .step hR (judgeResult_respells (.some hspelled) hexpected
            (Ty.collapse_respells htype) _ _) fun _ => .pure hR ?_
          exact hscopes.finalize hρ.faithful hname
            (Ty.function_respells (fixed_respells htypes) hexpected)
  | .function range docs name (.untyped paramsRange names) body =>
      obtain ⟨name', hname, params', hparams, body', hbody, rfl⟩ := three_parts h
      obtain ⟨spelled, rfl, hnames⟩ := Params.respell?_untyped hparams
      obtain ⟨hspelled, hrange⟩ := Ident.respell?_eq_some_iff.mp hname
      rw [Definition.check, Definition.check, hrange]
      refine .step hR (report_respells (by simp [Problem.respell?, hspelled]) _ []) fun _ => ?_
      refine .bind hR (hscopes.enter.bindParams hρ.faithful (flexible_respells hnames))
        fun _ _ hinner => ?_
      exact .bind hR (Value.check_respells hinner hbody) fun _ _ _ => .pure hR hscopes
  | .constant range docs name value =>
      obtain ⟨name', hname, value', hvalue, rfl⟩ := two_parts h
      rw [Definition.check, Definition.check]
      refine .bind hR (Value.check_respells hscopes hvalue) fun _ _ htype => .pure hR ?_
      exact hscopes.finalize hρ.faithful hname htype
termination_by structural definition

theorem Definition.checkAll_respells {scopes around : Scopes}
    (hscopes : scopes.Respells ρ.name around) {definitions spelled : List Definition}
    (h : Definition.respellAll? ρ definitions = some spelled) :
    (Definition.checkAll structs scopes definitions).Match (Respelled ρ.name)
      (Scopes.Respells ρ.name) (Definition.checkAll others around spelled) := by
  have hR := additive_respelled ρ.name
  match definitions with
  | [] =>
      obtain rfl := Option.some.inj h
      exact .pure hR hscopes
  | definition :: definitions =>
      obtain ⟨first, hdefinition, rest, hdefinitions, rfl⟩ := two_parts h
      refine .bind hR (Definition.check_respells hscopes hdefinition) fun _ _ hscopes => ?_
      exact Definition.checkAll_respells hscopes hdefinitions
termination_by structural definitions

end

end

end TypedIsl

import TypedIsl.Check.Program
import TypedIsl.Proofs.Syntax.Spelling

/-!
# The names of structs

A check asks of the names that occur in annotations whether they are names of structs. All that
matters of the struct names is the answer: neither their order nor repetitions, nor any name that
does not occur.
-/

namespace TypedIsl

/-- The lists agree on whether the name is one of a struct, if the token is a name. -/
def TokenKind.SameStruct (structs others : List String) : TokenKind → Prop
  | identifier name => name ∈ structs ↔ name ∈ others
  | _ => True

/-- The lists agree on which names among the tokens are names of structs. -/
def SameStructs (structs others : List String) (kinds : List TokenKind) : Prop :=
  ∀ kind ∈ kinds, kind.SameStruct structs others

section

variable {structs others : List String}

@[simp] theorem sameStructs_nil : SameStructs structs others [] :=
  fun _ hkind => absurd hkind List.not_mem_nil

@[simp] theorem sameStructs_cons {kind : TokenKind} {kinds : List TokenKind} :
    SameStructs structs others (kind :: kinds) ↔
      kind.SameStruct structs others ∧ SameStructs structs others kinds :=
  List.forall_mem_cons

@[simp] theorem sameStructs_append {kinds more : List TokenKind} :
    SameStructs structs others (kinds ++ more) ↔
      SameStructs structs others kinds ∧ SameStructs structs others more :=
  List.forall_mem_append

@[simp] theorem sameStructs_enclosed {kinds : List TokenKind} :
    SameStructs structs others (enclosed kinds) ↔ SameStructs structs others kinds := by
  simp [enclosed, TokenKind.SameStruct]

theorem sameStructs_of_mem_iff (h : ∀ name, name ∈ structs ↔ name ∈ others)
    (kinds : List TokenKind) : SameStructs structs others kinds := by
  intro kind _
  cases kind with
  | identifier name => exact h name
  | _ => trivial

/-! ## Annotations -/

theorem namedType?_congr {name : Ident} (h : name.kind.SameStruct structs others) :
    namedType? structs name.name = namedType? others name.name := by
  have hname : name.name ∈ structs ↔ name.name ∈ others := h
  simp only [namedType?, hname]

theorem TypeExpr.resolve_structs (type : TypeExpr) (h : SameStructs structs others type.kinds) :
    type.resolve structs = type.resolve others := by
  cases type with
  | named name =>
      rw [resolve, resolve, namedType?_congr (sameStructs_cons.mp h).1]
  | apply range function args =>
      cases args with
      | nil => rfl
      | cons arg args =>
          simp only [kinds, allKinds, sameStructs_enclosed, sameStructs_cons,
            sameStructs_append] at h
          rw [resolve, resolve, resolve_structs arg h.2.1]

theorem SameStructs.typedParams {range : Range} {params : List TypedParam}
    {result? : Option TypeExpr}
    (h : SameStructs structs others (Params.typed range params result?).kinds) :
    ∀ param ∈ params, SameStructs structs others param.type.kinds := by
  intro param hparam kind hkind
  have hmem : kind ∈ param.kinds := List.mem_cons_of_mem _ (List.mem_cons_of_mem _ hkind)
  have hall := TypedParam.subset_allKinds hparam hmem
  cases result? with
  | none => exact h kind hall
  | some declared => exact h kind (List.mem_append_left _ hall)

theorem SameStructs.declared {range : Range} {params : List TypedParam} {declared : TypeExpr}
    (h : SameStructs structs others (Params.typed range params (some declared)).kinds) :
    SameStructs structs others declared.kinds :=
  (sameStructs_cons.mp (sameStructs_append.mp h).2).2

theorem resolveParams_structs {params : List TypedParam}
    (h : ∀ param ∈ params, SameStructs structs others param.type.kinds) :
    resolveParams structs params = resolveParams others params := by
  induction params with
  | nil => rfl
  | cons param params ih =>
      obtain ⟨hparam, hparams⟩ := List.forall_mem_cons.mp h
      rw [resolveParams, resolveParams, param.type.resolve_structs hparam, ih hparams]

theorem bindTypedParams_structs (scopes : Scopes) {params : List TypedParam}
    (h : ∀ param ∈ params, SameStructs structs others param.type.kinds) :
    bindTypedParams structs scopes params = bindTypedParams others scopes params := by
  induction params generalizing scopes with
  | nil => rfl
  | cons param params ih =>
      obtain ⟨hparam, hparams⟩ := List.forall_mem_cons.mp h
      simp only [bindTypedParams, param.type.resolve_structs hparam, ih _ hparams]

theorem Params.declaredType_structs {params : Params}
    (h : SameStructs structs others params.kinds) :
    params.declaredType structs = params.declaredType others := by
  match params with
  | .untyped _ _ => rfl
  | .typed _ params none => simp only [declaredType, resolveParams_structs h.typedParams]
  | .typed _ params (some declared) =>
      simp only [declaredType, resolveParams_structs h.typedParams,
        declared.resolve_structs h.declared]

theorem Params.fieldTypes_structs {params : Params} (h : SameStructs structs others params.kinds) :
    params.fieldTypes structs = params.fieldTypes others := by
  cases params with
  | untyped range names => rfl
  | typed range params result? => exact resolveParams_structs h.typedParams

/-! ## Values and definitions -/

mutual

theorem Value.check_structs (value : Value) (h : SameStructs structs others value.kinds)
    (scopes : Scopes) : value.check structs scopes = value.check others scopes := by
  match value with
  | .literal _ _ | .name _ | .require _ _ => rfl
  | .branch _ condition thenArm elseArm =>
      simp only [Value.kinds, sameStructs_enclosed, sameStructs_append, List.cons_append,
        sameStructs_cons] at h
      obtain ⟨-, ⟨hcondition, hthen⟩, helse⟩ := h
      simp only [Value.check, condition.check_structs hcondition, thenArm.check_structs hthen,
        elseArm.check_structs helse]
  | .cond _ clauses none =>
      simp only [Value.kinds, sameStructs_enclosed, sameStructs_cons] at h
      simp only [Value.check, Clause.checkAll_structs clauses h.2]
  | .cond _ clauses (some value) =>
      simp only [Value.kinds, sameStructs_enclosed, sameStructs_append, List.cons_append,
        sameStructs_cons] at h
      obtain ⟨-, hclauses, -, hvalue⟩ := h
      simp only [Value.check, Clause.checkAll_structs clauses hclauses, value.check_structs hvalue]
  | .lambda _ params body =>
      simp only [Value.kinds, sameStructs_enclosed, sameStructs_append, List.cons_append,
        sameStructs_cons] at h
      obtain ⟨-, hparams, hbody⟩ := h
      match params with
      | .untyped _ names => simp only [Value.check, body.check_structs hbody]
      | .typed _ params none =>
          simp only [Value.check, bindTypedParams_structs _ hparams.typedParams,
            body.check_structs hbody]
      | .typed _ params (some declared) =>
          simp only [Value.check, bindTypedParams_structs _ hparams.typedParams,
            body.check_structs hbody, declared.resolve_structs hparams.declared]
  | .locals _ definitions body =>
      simp only [Value.kinds, sameStructs_enclosed, sameStructs_append, List.cons_append,
        sameStructs_cons] at h
      obtain ⟨-, hdefinitions, hbody⟩ := h
      simp only [Value.check, Definition.registerAll_structs definitions hdefinitions,
        Definition.checkAll_structs definitions hdefinitions, body.check_structs hbody]
  | .lets _ _ bindings body =>
      simp only [Value.kinds, sameStructs_enclosed, sameStructs_append, List.cons_append,
        sameStructs_cons] at h
      obtain ⟨-, hbindings, hbody⟩ := h
      simp only [Value.check, LetBinding.checkAll_structs bindings hbindings,
        body.check_structs hbody]
  | .call _ callee args =>
      simp only [Value.kinds, sameStructs_enclosed, sameStructs_append] at h
      simp only [Value.check, callee.check_structs h.1, Value.checkAll_structs args h.2]
termination_by structural value

theorem Value.checkAll_structs (values : List Value)
    (h : SameStructs structs others (Value.allKinds values)) (scopes : Scopes) :
    Value.checkAll structs scopes values = Value.checkAll others scopes values := by
  match values with
  | [] => rfl
  | value :: values =>
      rw [Value.allKinds, sameStructs_append] at h
      simp only [Value.checkAll, value.check_structs h.1, Value.checkAll_structs values h.2]
termination_by structural values

theorem Clause.check_structs (clause : Clause) (h : SameStructs structs others clause.kinds)
    (scopes : Scopes) : clause.check structs scopes = clause.check others scopes := by
  match clause with
  | .mk _ condition body =>
      simp only [Clause.kinds, sameStructs_enclosed, sameStructs_append] at h
      simp only [Clause.check, condition.check_structs h.1, body.check_structs h.2]
termination_by structural clause

theorem Clause.checkAll_structs (clauses : List Clause)
    (h : SameStructs structs others (Clause.allKinds clauses)) (scopes : Scopes) :
    Clause.checkAll structs scopes clauses = Clause.checkAll others scopes clauses := by
  match clauses with
  | [] => rfl
  | clause :: clauses =>
      rw [Clause.allKinds, sameStructs_append] at h
      simp only [Clause.checkAll, clause.check_structs h.1, Clause.checkAll_structs clauses h.2]
termination_by structural clauses

theorem LetBinding.check_structs (binding : LetBinding)
    (h : SameStructs structs others binding.kinds) (scopes : Scopes) :
    binding.check structs scopes = binding.check others scopes := by
  match binding with
  | .mk _ name value =>
      simp only [LetBinding.kinds, sameStructs_enclosed, sameStructs_cons] at h
      simp only [LetBinding.check, value.check_structs h.2]
termination_by structural binding

theorem LetBinding.checkAll_structs (bindings : List LetBinding)
    (h : SameStructs structs others (LetBinding.allKinds bindings)) (scopes : Scopes) :
    LetBinding.checkAll structs scopes bindings = LetBinding.checkAll others scopes bindings := by
  match bindings with
  | [] => rfl
  | binding :: bindings =>
      rw [LetBinding.allKinds, sameStructs_append] at h
      simp only [LetBinding.checkAll, binding.check_structs h.1,
        LetBinding.checkAll_structs bindings h.2]
termination_by structural bindings

theorem Definition.register_structs (definition : Definition)
    (h : SameStructs structs others definition.kinds) (scopes : Scopes) :
    definition.register structs scopes = definition.register others scopes := by
  match definition with
  | .function _ _ _ params _ =>
      simp only [Definition.kinds, sameStructs_enclosed, sameStructs_append, List.cons_append,
        sameStructs_cons] at h
      simp only [Definition.register, Params.declaredType_structs h.2.1.2]
  | .constant _ _ _ value =>
      simp only [Definition.kinds, sameStructs_enclosed, sameStructs_cons] at h
      simp only [Definition.register, value.check_structs h.2.2]
termination_by structural definition

theorem Definition.registerAll_structs (definitions : List Definition)
    (h : SameStructs structs others (Definition.allKinds definitions)) (scopes : Scopes) :
    Definition.registerAll structs scopes definitions =
      Definition.registerAll others scopes definitions := by
  match definitions with
  | [] => rfl
  | definition :: definitions =>
      rw [Definition.allKinds, sameStructs_append] at h
      simp only [Definition.registerAll, definition.register_structs h.1,
        Definition.registerAll_structs definitions h.2]
termination_by structural definitions

theorem Definition.check_structs (definition : Definition)
    (h : SameStructs structs others definition.kinds) (scopes : Scopes) :
    definition.check structs scopes = definition.check others scopes := by
  match definition with
  | .function _ _ _ params body =>
      simp only [Definition.kinds, sameStructs_enclosed, sameStructs_append, List.cons_append,
        sameStructs_cons] at h
      obtain ⟨-, ⟨-, hparams⟩, hbody⟩ := h
      match params with
      | .untyped _ _ => simp only [Definition.check, body.check_structs hbody]
      | .typed _ params none =>
          simp only [Definition.check, resolveParams_structs hparams.typedParams,
            body.check_structs hbody]
      | .typed _ params (some declared) =>
          simp only [Definition.check, resolveParams_structs hparams.typedParams,
            declared.resolve_structs hparams.declared, body.check_structs hbody]
  | .constant _ _ _ value =>
      simp only [Definition.kinds, sameStructs_enclosed, sameStructs_cons] at h
      simp only [Definition.check, value.check_structs h.2.2]
termination_by structural definition

theorem Definition.checkAll_structs (definitions : List Definition)
    (h : SameStructs structs others (Definition.allKinds definitions)) (scopes : Scopes) :
    Definition.checkAll structs scopes definitions =
      Definition.checkAll others scopes definitions := by
  match definitions with
  | [] => rfl
  | definition :: definitions =>
      rw [Definition.allKinds, sameStructs_append] at h
      simp only [Definition.checkAll, definition.check_structs h.1,
        Definition.checkAll_structs definitions h.2]
termination_by structural definitions

end

/-! ## Forms -/

theorem TopLevel.register_structs {form : TopLevel} (h : SameStructs structs others form.kinds)
    (registered : Registered) :
    form.register structs registered = form.register others registered := by
  cases form with
  | value form => rfl
  | definition form => simp only [register, form.register_structs h]
  | struct form =>
      simp only [kinds, StructDefinition.kinds, sameStructs_enclosed, sameStructs_cons] at h
      simp only [register, StructDefinition.register, Params.fieldTypes_structs h.2.2]

theorem TopLevel.check_structs {form : TopLevel} (h : SameStructs structs others form.kinds)
    (scopes : Scopes) : form.check structs scopes = form.check others scopes := by
  cases form with
  | value form => simp only [check, form.check_structs h]
  | definition form => exact form.check_structs h scopes
  | struct form => rfl

theorem Program.register_structs {program : Program}
    (h : SameStructs structs others (kinds program)) (registered : Registered) :
    register structs registered program = register others registered program := by
  induction program generalizing registered with
  | nil => rfl
  | cons form program ih =>
      rw [kinds, List.flatMap_cons, sameStructs_append] at h
      simp only [register, TopLevel.register_structs h.1, ih h.2]

theorem Program.checkForms_structs {program : Program}
    (h : SameStructs structs others (kinds program)) (scopes : Scopes) :
    checkForms structs scopes program = checkForms others scopes program := by
  induction program generalizing scopes with
  | nil => rfl
  | cons form program ih =>
      rw [kinds, List.flatMap_cons, sameStructs_append] at h
      simp only [checkForms, TopLevel.check_structs h.1, ih h.2]

end

end TypedIsl

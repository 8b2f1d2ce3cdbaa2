import TypedIsl.Syntax.Basic

/-!
# The tokens of a tree

Reading a tree back from left to right gives the tokens that it was read from, up to docstrings.
A tree is proper if it could have been read at all: a `cond` form has a clause and a typed
parameter list has a parameter.
-/

namespace TypedIsl

/-! ## Reading back -/

def Ident.kind (ident : Ident) : TokenKind :=
  .identifier ident.name

/-- Tokens in parentheses. -/
def enclosed (kinds : List TokenKind) : List TokenKind :=
  .openParen :: kinds ++ [.closeParen]

mutual

def TypeExpr.kinds : TypeExpr → List TokenKind
  | .named name => [name.kind]
  | .apply _ function args => enclosed (function.kind :: TypeExpr.allKinds args)

def TypeExpr.allKinds : List TypeExpr → List TokenKind
  | [] => []
  | type :: types => type.kinds ++ TypeExpr.allKinds types

end

def TypedParam.kinds (param : TypedParam) : List TokenKind :=
  param.name.kind :: .colon :: param.type.kinds

/-- Typed parameters with ampersands between them. -/
def TypedParam.allKinds : List TypedParam → List TokenKind
  | [] => []
  | [param] => param.kinds
  | param :: params => param.kinds ++ .ampersand :: TypedParam.allKinds params

def Params.kinds : Params → List TokenKind
  | typed _ params none => TypedParam.allKinds params
  | typed _ params (some declared) => TypedParam.allKinds params ++ .arrow :: declared.kinds
  | untyped _ names => names.map Ident.kind

mutual

def Value.kinds : Value → List TokenKind
  | .literal _ value => [.literal value]
  | .name ident => [ident.kind]
  | .branch _ condition thenArm elseArm =>
      enclosed (.keyword .branch :: condition.kinds ++ thenArm.kinds ++ elseArm.kinds)
  | .cond _ clauses none => enclosed (.keyword .cond :: Clause.allKinds clauses)
  | .cond _ clauses (some value) =>
      enclosed (.keyword .cond :: Clause.allKinds clauses ++
        enclosed (.keyword .otherwise :: value.kinds))
  | .lambda _ params body =>
      enclosed (.keyword .lambda :: enclosed params.kinds ++ body.kinds)
  | .locals _ definitions body =>
      enclosed (.keyword .locals :: enclosed (Definition.allKinds definitions) ++ body.kinds)
  | .lets _ kind bindings body =>
      enclosed (.keyword (.lets kind) :: enclosed (LetBinding.allKinds bindings) ++ body.kinds)
  | .require _ library => enclosed [.keyword .require, library.kind]
  | .call _ callee args => enclosed (callee.kinds ++ Value.allKinds args)

def Value.allKinds : List Value → List TokenKind
  | [] => []
  | value :: values => value.kinds ++ Value.allKinds values

def Clause.kinds : Clause → List TokenKind
  | .mk _ condition body => enclosed (condition.kinds ++ body.kinds)

def Clause.allKinds : List Clause → List TokenKind
  | [] => []
  | clause :: clauses => clause.kinds ++ Clause.allKinds clauses

def LetBinding.kinds : LetBinding → List TokenKind
  | .mk _ name value => enclosed (name.kind :: value.kinds)

def LetBinding.allKinds : List LetBinding → List TokenKind
  | [] => []
  | binding :: bindings => binding.kinds ++ LetBinding.allKinds bindings

/-- Docstrings are not counted. -/
def Definition.kinds : Definition → List TokenKind
  | .function _ _ name params body =>
      enclosed (.keyword .define :: enclosed (name.kind :: params.kinds) ++ body.kinds)
  | .constant _ _ name value => enclosed (.keyword .define :: name.kind :: value.kinds)

def Definition.allKinds : List Definition → List TokenKind
  | [] => []
  | definition :: definitions => definition.kinds ++ Definition.allKinds definitions

end

def StructDefinition.kinds (definition : StructDefinition) : List TokenKind :=
  enclosed (.keyword .defineStruct :: definition.name.kind :: enclosed definition.fields.kinds)

def TopLevel.kinds : TopLevel → List TokenKind
  | definition form => form.kinds
  | struct form => form.kinds
  | value form => form.kinds

def Program.kinds (program : Program) : List TokenKind :=
  program.flatMap TopLevel.kinds

/-! ## Proper trees -/

def Params.Proper : Params → Prop
  | typed _ params _ => params ≠ []
  | untyped _ _ => True

/-! The predicate `doc` holds of every docstring of a proper tree. -/

mutual

def Value.Proper (doc : String → Prop) : Value → Prop
  | .literal _ _ => True
  | .name _ => True
  | .branch _ condition thenArm elseArm =>
      condition.Proper doc ∧ thenArm.Proper doc ∧ elseArm.Proper doc
  | .cond _ clauses none => clauses ≠ [] ∧ Clause.AllProper doc clauses
  | .cond _ clauses (some value) =>
      clauses ≠ [] ∧ Clause.AllProper doc clauses ∧ value.Proper doc
  | .lambda _ params body => params.Proper ∧ body.Proper doc
  | .locals _ definitions body => Definition.AllProper doc definitions ∧ body.Proper doc
  | .lets _ _ bindings body => LetBinding.AllProper doc bindings ∧ body.Proper doc
  | .require _ _ => True
  | .call _ callee args => callee.Proper doc ∧ Value.AllProper doc args

def Value.AllProper (doc : String → Prop) : List Value → Prop
  | [] => True
  | value :: values => value.Proper doc ∧ Value.AllProper doc values

def Clause.Proper (doc : String → Prop) : Clause → Prop
  | .mk _ condition body => condition.Proper doc ∧ body.Proper doc

def Clause.AllProper (doc : String → Prop) : List Clause → Prop
  | [] => True
  | clause :: clauses => clause.Proper doc ∧ Clause.AllProper doc clauses

def LetBinding.Proper (doc : String → Prop) : LetBinding → Prop
  | .mk _ _ value => value.Proper doc

def LetBinding.AllProper (doc : String → Prop) : List LetBinding → Prop
  | [] => True
  | binding :: bindings => binding.Proper doc ∧ LetBinding.AllProper doc bindings

def Definition.Proper (doc : String → Prop) : Definition → Prop
  | .function _ docs _ params body => (∀ text ∈ docs, doc text) ∧ params.Proper ∧ body.Proper doc
  | .constant _ docs _ value => (∀ text ∈ docs, doc text) ∧ value.Proper doc

def Definition.AllProper (doc : String → Prop) : List Definition → Prop
  | [] => True
  | definition :: definitions => definition.Proper doc ∧ Definition.AllProper doc definitions

end

def StructDefinition.Proper (doc : String → Prop) (definition : StructDefinition) : Prop :=
  (∀ text ∈ definition.docs, doc text) ∧ definition.fields.Proper

def TopLevel.Proper (doc : String → Prop) : TopLevel → Prop
  | definition form => form.Proper doc
  | struct form => form.Proper doc
  | value form => form.Proper doc

def Program.Proper (doc : String → Prop) (program : Program) : Prop :=
  ∀ form ∈ program, form.Proper doc

/-! ## Lists of parts -/

theorem TypedParam.allKinds_cons (param : TypedParam) (params : List TypedParam) :
    TypedParam.allKinds (param :: params) =
      param.kinds ++ params.flatMap fun other => .ampersand :: other.kinds := by
  induction params generalizing param with
  | nil => simp [TypedParam.allKinds]
  | cons other params ih => simp [TypedParam.allKinds, ih other]

theorem TypedParam.subset_allKinds {params : List TypedParam} {param : TypedParam}
    (h : param ∈ params) : param.kinds ⊆ TypedParam.allKinds params := by
  cases params with
  | nil => exact absurd h List.not_mem_nil
  | cons first params =>
      intro kind hkind
      rw [TypedParam.allKinds_cons, List.mem_append]
      rcases List.mem_cons.mp h with rfl | hparam
      · exact .inl hkind
      · exact .inr (List.mem_flatMap.mpr ⟨param, hparam, List.mem_cons_of_mem _ hkind⟩)

theorem Params.kind_mem {params : Params} {ident : Ident} (h : ident ∈ params.names) :
    ident.kind ∈ params.kinds := by
  cases params with
  | untyped range names => exact List.mem_map_of_mem h
  | typed range params result? =>
      obtain ⟨param, hparam, rfl⟩ := List.mem_map.mp h
      have hkind := TypedParam.subset_allKinds hparam (List.mem_cons_self ..)
      cases result? with
      | none => exact hkind
      | some declared => exact List.mem_append_left _ hkind

/-- What is gathered from the elements of a list, one after the other. -/
theorem eq_flatMap_of_cons {α β : Type} {all : List α → List β} {one : α → List β}
    (hnil : all [] = []) (hcons : ∀ a list, all (a :: list) = one a ++ all list)
    (list : List α) : all list = list.flatMap one := by
  induction list with
  | nil => exact hnil
  | cons a list ih => rw [hcons, ih, List.flatMap_cons]

theorem TypeExpr.allKinds_eq (types : List TypeExpr) :
    TypeExpr.allKinds types = types.flatMap TypeExpr.kinds :=
  eq_flatMap_of_cons rfl (fun _ _ => rfl) types

theorem Value.allKinds_eq (values : List Value) :
    Value.allKinds values = values.flatMap Value.kinds :=
  eq_flatMap_of_cons rfl (fun _ _ => rfl) values

theorem Clause.allKinds_eq (clauses : List Clause) :
    Clause.allKinds clauses = clauses.flatMap Clause.kinds :=
  eq_flatMap_of_cons rfl (fun _ _ => rfl) clauses

theorem LetBinding.allKinds_eq (bindings : List LetBinding) :
    LetBinding.allKinds bindings = bindings.flatMap LetBinding.kinds :=
  eq_flatMap_of_cons rfl (fun _ _ => rfl) bindings

theorem Definition.allKinds_eq (definitions : List Definition) :
    Definition.allKinds definitions = definitions.flatMap Definition.kinds :=
  eq_flatMap_of_cons rfl (fun _ _ => rfl) definitions

variable {doc : String → Prop}

theorem Value.allProper_iff {values : List Value} :
    Value.AllProper doc values ↔ ∀ value ∈ values, value.Proper doc := by
  induction values with
  | nil => simp [Value.AllProper]
  | cons value values ih => simp [Value.AllProper, ih]

theorem Clause.allProper_iff {clauses : List Clause} :
    Clause.AllProper doc clauses ↔ ∀ clause ∈ clauses, clause.Proper doc := by
  induction clauses with
  | nil => simp [Clause.AllProper]
  | cons clause clauses ih => simp [Clause.AllProper, ih]

theorem LetBinding.allProper_iff {bindings : List LetBinding} :
    LetBinding.AllProper doc bindings ↔ ∀ binding ∈ bindings, binding.Proper doc := by
  induction bindings with
  | nil => simp [LetBinding.AllProper]
  | cons binding bindings ih => simp [LetBinding.AllProper, ih]

theorem Definition.allProper_iff {definitions : List Definition} :
    Definition.AllProper doc definitions ↔ ∀ d ∈ definitions, d.Proper doc := by
  induction definitions with
  | nil => simp [Definition.AllProper]
  | cons definition definitions ih => simp [Definition.AllProper, ih]

theorem TypedParam.allKinds_append (params : List TypedParam) (param : TypedParam)
    (h : params ≠ []) :
    TypedParam.allKinds (params ++ [param]) =
      TypedParam.allKinds params ++ .ampersand :: param.kinds := by
  induction params with
  | nil => exact absurd rfl h
  | cons first params ih =>
      cases params with
      | nil => rfl
      | cons second params =>
          have hrest := ih (by simp)
          simp only [List.cons_append, TypedParam.allKinds] at hrest ⊢
          rw [hrest, List.append_assoc, List.cons_append]

end TypedIsl

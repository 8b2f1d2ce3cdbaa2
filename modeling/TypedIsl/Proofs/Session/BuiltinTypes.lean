import TypedIsl.Proofs.Session.Checking
import TypedIsl.Proofs.Session.Numbers
import TypedIsl.Proofs.Syntax.Edit

/-!
# Numbers of built-in types

In a numbered tree even the built-in types are numbers. A checker reads the numbers in types to find
the built-in ones, and compares the others as they are.
-/

namespace TypedIsl

/-! ## Spelling built-in types -/

namespace NameTable

/-- A number in a type. It is read if it stands for one of the given names. -/
def spellAmong (names : NameTable) (builtins : List String) (number : String) : String :=
  match names.read? number with
  | some name => if name ∈ builtins then name else number
  | none => number

/-- Reads a number in a type in which the given names have been read before. -/
def readAmong? (names : NameTable) (builtins : List String) (text : String) : Option String :=
  if text ∈ builtins then some text else (names.read? text).filter (· ∉ builtins)

/-- Reads a tree in which the built-in types have been read before. -/
def reading (names : NameTable) : Respelling :=
  ⟨names.read?, names.readAmong? builtinTypes, names.readAmong? builtinTypeFunctions⟩

@[simp] theorem reading_name (names : NameTable) : names.reading.name = names.read? := rfl

end NameTable

mutual

def TypeExpr.spellBuiltins (names : NameTable) : TypeExpr → TypeExpr
  | .named name => .named ⟨names.spellAmong builtinTypes name.name, name.range⟩
  | .apply range function args =>
      .apply range ⟨names.spellAmong builtinTypeFunctions function.name, function.range⟩
        (TypeExpr.spellAllBuiltins names args)

def TypeExpr.spellAllBuiltins (names : NameTable) : List TypeExpr → List TypeExpr
  | [] => []
  | type :: types => type.spellBuiltins names :: TypeExpr.spellAllBuiltins names types

end

def TypedParam.spellBuiltins (names : NameTable) (param : TypedParam) : TypedParam :=
  ⟨param.name, param.type.spellBuiltins names⟩

def Params.spellBuiltins (names : NameTable) : Params → Params
  | typed range params result? =>
      .typed range (params.map (·.spellBuiltins names)) (result?.map (·.spellBuiltins names))
  | untyped range idents => .untyped range idents

/-- Reads the numbers of the built-in types. -/
def Edit.builtinTypes (names : NameTable) : Edit :=
  ⟨id, Params.spellBuiltins names, id⟩

section

variable (names : NameTable)

@[simp] theorem Edit.builtinTypes_range (range : Range) :
    (builtinTypes names).range range = range := rfl

@[simp] theorem Edit.builtinTypes_params (params : Params) :
    (builtinTypes names).params params = params.spellBuiltins names := rfl

@[simp] theorem Edit.builtinTypes_docs (docs : List String) :
    (builtinTypes names).docs docs = docs := rfl

@[simp] theorem Ident.edit_builtinTypes (ident : Ident) :
    ident.edit (.builtinTypes names) = ident := rfl

end

/-! ## Reading the other numbers -/

theorem Handle.text_not_builtin {builtins : List String} (handle : Handle)
    (h : ∀ name ∈ builtins, name.toList.head? ≠ some 'I') : handle.text ∉ builtins := by
  intro hmem
  refine h _ hmem ?_
  simp [Handle.text, ToString.toString, String.toList_append]

theorem head_builtinTypes : ∀ name ∈ builtinTypes, name.toList.head? ≠ some 'I' := by
  decide

theorem head_builtinTypeFunctions :
    ∀ name ∈ builtinTypeFunctions, name.toList.head? ≠ some 'I' := by
  decide

theorem NameTable.readAmong?_cases {names : NameTable} {builtins : List String}
    {text name : String} (h : names.readAmong? builtins text = some name) :
    text = name ∧ name ∈ builtins ∨
      text ∉ builtins ∧ name ∉ builtins ∧ names.read? text = some name := by
  unfold readAmong? at h
  split at h
  · obtain rfl := Option.some.inj h
    exact .inl ⟨rfl, ‹_›⟩
  · obtain ⟨hread, hnot⟩ := Option.filter_eq_some_iff.mp h
    exact .inr ⟨‹_›, by simpa using hnot, hread⟩

theorem NameTable.keepsTypes_reading (names : NameTable) : names.reading.KeepsTypes :=
  ⟨read?_inj, readAmong?_cases, readAmong?_cases⟩

section

variable {names last : NameTable} (hlast : last.Extends names)

include hlast

theorem NameTable.readAmong?_spellAmong {builtins : List String}
    (hbuiltins : ∀ name ∈ builtins, name.toList.head? ≠ some 'I') {number name : String}
    (h : names.read? number = some name) :
    last.readAmong? builtins (names.spellAmong builtins number) = some name := by
  obtain ⟨handle, -, rfl⟩ := read?_eq_some_iff.mp h
  simp only [spellAmong, h]
  by_cases hmem : name ∈ builtins
  · rw [if_pos hmem, readAmong?, if_pos hmem]
  · rw [if_neg hmem, readAmong?, if_neg (handle.text_not_builtin hbuiltins), hlast.read? h]
    simp [hmem]

theorem Ident.respell?_spellAmong {builtins : List String}
    (hbuiltins : ∀ name ∈ builtins, name.toList.head? ≠ some 'I') {ident spelled : Ident}
    (h : ident.respell? names.read? = some spelled) :
    Ident.respell? (last.readAmong? builtins) ⟨names.spellAmong builtins ident.name, ident.range⟩ =
      some spelled := by
  obtain ⟨hread, hrange⟩ := respell?_eq_some_iff.mp h
  exact respell?_eq_some_iff.mpr
    ⟨NameTable.readAmong?_spellAmong hlast hbuiltins hread, hrange⟩

-- The linter does not see the uses within a block of mutual theorems.
set_option linter.unusedSectionVars false in
mutual

theorem TypeExpr.respell?_spellBuiltins {type spelled : TypeExpr}
    (h : type.respell? (.uniform names.read?) = some spelled) :
    (type.spellBuiltins names).respell? last.reading = some spelled := by
  match type with
  | .named name =>
      obtain ⟨other, hname, rfl⟩ := one_part h
      have hname' := Ident.respell?_spellAmong hlast head_builtinTypes hname
      simp [TypeExpr.spellBuiltins, TypeExpr.respell?, NameTable.reading, hname']
  | .apply range function args =>
      obtain ⟨other, hfunction, types, hargs, rfl⟩ := two_parts h
      have hfunction' := Ident.respell?_spellAmong hlast head_builtinTypeFunctions hfunction
      have hargs' := TypeExpr.respellAll?_spellBuiltins hargs
      rw [NameTable.reading] at hargs'
      simp [TypeExpr.spellBuiltins, TypeExpr.respell?, NameTable.reading, hfunction', hargs']
termination_by structural type

theorem TypeExpr.respellAll?_spellBuiltins {types spelled : List TypeExpr}
    (h : TypeExpr.respellAll? (.uniform names.read?) types = some spelled) :
    TypeExpr.respellAll? last.reading (TypeExpr.spellAllBuiltins names types) = some spelled := by
  match types with
  | [] => exact h
  | type :: types =>
      obtain ⟨first, htype, rest, htypes, rfl⟩ := two_parts h
      rw [TypeExpr.spellAllBuiltins, TypeExpr.respellAll?, TypeExpr.respell?_spellBuiltins htype,
        TypeExpr.respellAll?_spellBuiltins htypes]
      rfl
termination_by structural types

end

theorem Ident.respell?_later {ident spelled : Ident}
    (h : ident.respell? names.read? = some spelled) : ident.respell? last.read? = some spelled := by
  obtain ⟨hread, hrange⟩ := respell?_eq_some_iff.mp h
  exact respell?_eq_some_iff.mpr ⟨hlast.read? hread, hrange⟩

theorem TypedParam.respell?_spellBuiltins {param spelled : TypedParam}
    (h : param.respell? (.uniform names.read?) = some spelled) :
    (param.spellBuiltins names).respell? last.reading = some spelled := by
  obtain ⟨hname, htype⟩ := respell?_eq_some_iff.mp h
  exact respell?_eq_some_iff.mpr ⟨Ident.respell?_later hlast hname,
    TypeExpr.respell?_spellBuiltins hlast htype⟩

theorem Params.respell?_spellBuiltins {params spelled : Params}
    (h : params.respell? (.uniform names.read?) = some spelled) :
    (params.spellBuiltins names).respell? last.reading = some spelled := by
  cases params with
  | typed range params result? =>
      obtain ⟨others, declared?, rfl, hparams, hresult⟩ := respell?_typed h
      have hparams' : (params.map (·.spellBuiltins names)).mapM (TypedParam.respell? last.reading) =
          some others := by
        rw [mapM_eq_some_iff, Elementwise, List.forall₂_map_left_iff]
        exact hparams.imp fun _ _ h => TypedParam.respell?_spellBuiltins hlast h
      cases hresult with
      | none => simp [spellBuiltins, respell?, hparams']
      | some hdeclared =>
          simp [spellBuiltins, respell?, hparams', TypeExpr.respell?_spellBuiltins hlast hdeclared]
  | untyped range idents =>
      obtain ⟨others, rfl, hidents⟩ := respell?_untyped h
      have hidents' : idents.mapM (Ident.respell? last.read?) = some others :=
        mapM_eq_some_iff.mpr (hidents.imp fun _ _ h => Ident.respell?_later hlast h)
      simp [spellBuiltins, respell?, NameTable.reading, hidents']

/-! ## Trees -/

theorem Literal.respell?_later {value spelled : Literal}
    (h : value.respell? names.read? = some spelled) : value.respell? last.read? = some spelled := by
  cases value with
  | symbol name =>
      obtain ⟨other, hname, rfl⟩ := one_part h
      exact respell?_symbol (hlast.read? hname)
  | _ => exact h

-- As above, the linter does not see these uses.
set_option linter.unusedSectionVars false in
mutual

theorem Value.respell?_builtinTypes {value spelled : Value}
    (h : value.respell? (.uniform names.read?) = some spelled) :
    (value.edit (.builtinTypes names)).respell? last.reading = some spelled := by
  match value with
  | .literal range value =>
      obtain ⟨other, hvalue, rfl⟩ := one_part h
      simp [Value.edit, Value.respell?, Literal.respell?_later hlast hvalue]
  | .name ident =>
      obtain ⟨other, hname, rfl⟩ := one_part h
      simp [Value.edit, Value.respell?, Ident.respell?_later hlast hname]
  | .branch range condition thenArm elseArm =>
      obtain ⟨condition', hcondition, thenArm', hthen, elseArm', helse, rfl⟩ := three_parts h
      simp [Value.edit, Value.respell?, Value.respell?_builtinTypes hcondition,
        Value.respell?_builtinTypes hthen, Value.respell?_builtinTypes helse]
  | .cond range clauses none =>
      obtain ⟨clauses', hclauses, hspelled⟩ := Option.bind_eq_some_iff.mp h
      obtain rfl := Option.some.inj hspelled
      simp [Value.edit, Value.respell?, Clause.respellAll?_builtinTypes hclauses]
  | .cond range clauses (some value) =>
      obtain ⟨clauses', hclauses, value', hvalue, rfl⟩ := two_parts h
      simp [Value.edit, Value.respell?, Clause.respellAll?_builtinTypes hclauses,
        Value.respell?_builtinTypes hvalue]
  | .lambda range params body =>
      obtain ⟨params', hparams, body', hbody, rfl⟩ := two_parts h
      simp [Value.edit, Value.respell?, Params.respell?_spellBuiltins hlast hparams,
        Value.respell?_builtinTypes hbody]
  | .locals range definitions body =>
      obtain ⟨definitions', hdefinitions, body', hbody, rfl⟩ := two_parts h
      simp [Value.edit, Value.respell?, Definition.respellAll?_builtinTypes hdefinitions,
        Value.respell?_builtinTypes hbody]
  | .lets range kind bindings body =>
      obtain ⟨bindings', hbindings, body', hbody, rfl⟩ := two_parts h
      simp [Value.edit, Value.respell?, LetBinding.respellAll?_builtinTypes hbindings,
        Value.respell?_builtinTypes hbody]
  | .require range library =>
      obtain ⟨other, hlibrary, rfl⟩ := one_part h
      simp [Value.edit, Value.respell?, Ident.respell?_later hlast hlibrary]
  | .call range callee args =>
      obtain ⟨callee', hcallee, args', hargs, rfl⟩ := two_parts h
      simp [Value.edit, Value.respell?, Value.respell?_builtinTypes hcallee,
        Value.respellAll?_builtinTypes hargs]
termination_by structural value

theorem Value.respellAll?_builtinTypes {values spelled : List Value}
    (h : Value.respellAll? (.uniform names.read?) values = some spelled) :
    Value.respellAll? last.reading (Value.editAll (.builtinTypes names) values) = some spelled := by
  match values with
  | [] => exact h
  | value :: values =>
      obtain ⟨first, hvalue, rest, hvalues, rfl⟩ := two_parts h
      simp [Value.editAll, Value.respellAll?, Value.respell?_builtinTypes hvalue,
        Value.respellAll?_builtinTypes hvalues]
termination_by structural values

theorem Clause.respell?_builtinTypes {clause spelled : Clause}
    (h : clause.respell? (.uniform names.read?) = some spelled) :
    (clause.edit (.builtinTypes names)).respell? last.reading = some spelled := by
  match clause with
  | .mk range condition body =>
      obtain ⟨condition', hcondition, body', hbody, rfl⟩ := two_parts h
      simp [Clause.edit, Clause.respell?, Value.respell?_builtinTypes hcondition,
        Value.respell?_builtinTypes hbody]
termination_by structural clause

theorem Clause.respellAll?_builtinTypes {clauses spelled : List Clause}
    (h : Clause.respellAll? (.uniform names.read?) clauses = some spelled) :
    Clause.respellAll? last.reading (Clause.editAll (.builtinTypes names) clauses) =
      some spelled := by
  match clauses with
  | [] => exact h
  | clause :: clauses =>
      obtain ⟨first, hclause, rest, hclauses, rfl⟩ := two_parts h
      simp [Clause.editAll, Clause.respellAll?, Clause.respell?_builtinTypes hclause,
        Clause.respellAll?_builtinTypes hclauses]
termination_by structural clauses

theorem LetBinding.respell?_builtinTypes {binding spelled : LetBinding}
    (h : binding.respell? (.uniform names.read?) = some spelled) :
    (binding.edit (.builtinTypes names)).respell? last.reading = some spelled := by
  match binding with
  | .mk range name value =>
      obtain ⟨name', hname, value', hvalue, rfl⟩ := two_parts h
      simp [LetBinding.edit, LetBinding.respell?, Ident.respell?_later hlast hname,
        Value.respell?_builtinTypes hvalue]
termination_by structural binding

theorem LetBinding.respellAll?_builtinTypes {bindings spelled : List LetBinding}
    (h : LetBinding.respellAll? (.uniform names.read?) bindings = some spelled) :
    LetBinding.respellAll? last.reading (LetBinding.editAll (.builtinTypes names) bindings) =
      some spelled := by
  match bindings with
  | [] => exact h
  | binding :: bindings =>
      obtain ⟨first, hbinding, rest, hbindings, rfl⟩ := two_parts h
      simp [LetBinding.editAll, LetBinding.respellAll?, LetBinding.respell?_builtinTypes hbinding,
        LetBinding.respellAll?_builtinTypes hbindings]
termination_by structural bindings

theorem Definition.respell?_builtinTypes {definition spelled : Definition}
    (h : definition.respell? (.uniform names.read?) = some spelled) :
    (definition.edit (.builtinTypes names)).respell? last.reading = some spelled := by
  match definition with
  | .function range docs name params body =>
      obtain ⟨name', hname, params', hparams, body', hbody, rfl⟩ := three_parts h
      simp [Definition.edit, Definition.respell?, Ident.respell?_later hlast hname,
        Params.respell?_spellBuiltins hlast hparams, Value.respell?_builtinTypes hbody]
  | .constant range docs name value =>
      obtain ⟨name', hname, value', hvalue, rfl⟩ := two_parts h
      simp [Definition.edit, Definition.respell?, Ident.respell?_later hlast hname,
        Value.respell?_builtinTypes hvalue]
termination_by structural definition

theorem Definition.respellAll?_builtinTypes {definitions spelled : List Definition}
    (h : Definition.respellAll? (.uniform names.read?) definitions = some spelled) :
    Definition.respellAll? last.reading (Definition.editAll (.builtinTypes names) definitions) =
      some spelled := by
  match definitions with
  | [] => exact h
  | definition :: definitions =>
      obtain ⟨first, hdefinition, rest, hdefinitions, rfl⟩ := two_parts h
      simp [Definition.editAll, Definition.respellAll?,
        Definition.respell?_builtinTypes hdefinition,
        Definition.respellAll?_builtinTypes hdefinitions]
termination_by structural definitions

end

/-- A form whose built-in types have been read reads as the form, by any later table. -/
theorem TopLevel.respell?_builtinTypes {form spelled : TopLevel}
    (h : form.respell? (.uniform names.read?) = some spelled) :
    (form.edit (.builtinTypes names)).respell? last.reading = some spelled := by
  cases form with
  | definition form =>
      obtain ⟨other, hform, rfl⟩ := one_part h
      simp [TopLevel.edit, TopLevel.respell?, Definition.respell?_builtinTypes hlast hform]
  | struct form =>
      simp only [TopLevel.respell?, StructDefinition.respell?, Option.bind_eq_bind, Option.pure_def,
        Option.bind_eq_some_iff, Option.some.injEq] at h
      obtain ⟨other, ⟨name', hname, fields', hfields, rfl⟩, rfl⟩ := h
      simp [TopLevel.edit, TopLevel.respell?, StructDefinition.edit, StructDefinition.respell?,
        Ident.respell?_later hlast hname, Params.respell?_spellBuiltins hlast hfields]
  | value form =>
      obtain ⟨other, hform, rfl⟩ := one_part h
      simp [TopLevel.edit, TopLevel.respell?, Value.respell?_builtinTypes hlast hform]

end

end TypedIsl

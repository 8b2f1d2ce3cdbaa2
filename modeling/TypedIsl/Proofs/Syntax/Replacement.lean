import TypedIsl.Proofs.Syntax.Renaming
import TypedIsl.Proofs.Syntax.Spelling

/-!
# Replacing a part of a tree

Two trees that differ in one part, wherever it stands. What the part is replaced by is up to a
relation, which may depend on the names that are bound around the part.
-/

namespace TypedIsl

section

variable (P : List String → Value → Value → Prop)
variable (Q : List String → Definition → Definition → Prop)

mutual

/-- The second value is the first one with one part replaced: a value as `P` has it or a definition
as `Q` has it. The names in the list are bound around the value. -/
inductive Value.Within : List String → Value → Value → Prop
  | part {bound value other} : P bound value other → Value.Within bound value other
  | condition {bound range condition other thenArm elseArm} :
      Value.Within bound condition other →
      Value.Within bound (.branch range condition thenArm elseArm)
        (.branch range other thenArm elseArm)
  | thenArm {bound range condition thenArm other elseArm} :
      Value.Within bound thenArm other →
      Value.Within bound (.branch range condition thenArm elseArm)
        (.branch range condition other elseArm)
  | elseArm {bound range condition thenArm elseArm other} :
      Value.Within bound elseArm other →
      Value.Within bound (.branch range condition thenArm elseArm)
        (.branch range condition thenArm other)
  | clauseCondition {bound range before after clauseRange condition other body otherwise?} :
      Value.Within bound condition other →
      Value.Within bound
        (.cond range (before ++ .mk clauseRange condition body :: after) otherwise?)
        (.cond range (before ++ .mk clauseRange other body :: after) otherwise?)
  | clauseBody {bound range before after clauseRange condition body other otherwise?} :
      Value.Within bound body other →
      Value.Within bound
        (.cond range (before ++ .mk clauseRange condition body :: after) otherwise?)
        (.cond range (before ++ .mk clauseRange condition other :: after) otherwise?)
  | otherwise {bound range clauses value other} :
      Value.Within bound value other →
      Value.Within bound (.cond range clauses (some value)) (.cond range clauses (some other))
  | lambda {bound range params body other} :
      Value.Within (bound ++ params.bound) body other →
      Value.Within bound (.lambda range params body) (.lambda range params other)
  | localDefinition {bound range before after definition other body} :
      Definition.Within (bound ++ Definition.bound (before ++ definition :: after)) definition
        other →
      Value.Within bound (.locals range (before ++ definition :: after) body)
        (.locals range (before ++ other :: after) body)
  | localBody {bound range definitions body other} :
      Value.Within (bound ++ Definition.bound definitions) body other →
      Value.Within bound (.locals range definitions body) (.locals range definitions other)
  | letBinding {bound range kind before after bindingRange name value other body} :
      Value.Within (bound ++ LetBinding.bound before) value other →
      Value.Within bound (.lets range kind (before ++ .mk bindingRange name value :: after) body)
        (.lets range kind (before ++ .mk bindingRange name other :: after) body)
  | letBody {bound range kind bindings body other} :
      Value.Within (bound ++ LetBinding.bound bindings) body other →
      Value.Within bound (.lets range kind bindings body) (.lets range kind bindings other)
  | callee {bound range callee other args} :
      Value.Within bound callee other →
      Value.Within bound (.call range callee args) (.call range other args)
  | arg {bound range callee before after arg other} :
      Value.Within bound arg other →
      Value.Within bound (.call range callee (before ++ arg :: after))
        (.call range callee (before ++ other :: after))

inductive Definition.Within : List String → Definition → Definition → Prop
  | part {bound definition other} : Q bound definition other →
      Definition.Within bound definition other
  | body {bound range docs name params body other} :
      Value.Within (bound ++ params.bound) body other →
      Definition.Within bound (.function range docs name params body)
        (.function range docs name params other)
  | value {bound range docs name value other} :
      Value.Within bound value other →
      Definition.Within bound (.constant range docs name value) (.constant range docs name other)

end

inductive TopLevel.Within (bound : List String) : TopLevel → TopLevel → Prop
  | definition {form other} : Definition.Within P Q bound form other →
      TopLevel.Within bound (.definition form) (.definition other)
  | value {form other} : Value.Within P Q bound form other →
      TopLevel.Within bound (.value form) (.value other)

inductive Program.Within (bound : List String) : Program → Program → Prop
  | form {before after form other} : TopLevel.Within P Q bound form other →
      Program.Within bound (before ++ form :: after) (before ++ other :: after)

end

/-! ## Names that do not occur -/

/-- The name is bound nowhere around the tree that spells the tokens and does not occur in it. -/
def Fresh (name : String) (bound : List String) (kinds : List TokenKind) : Prop :=
  name ∉ bound ∧ .identifier name ∉ kinds

section

variable {name : String} {bound : List String} {kinds more : List TokenKind}

theorem Fresh.mono (h : Fresh name bound kinds) (hsub : more ⊆ kinds) : Fresh name bound more :=
  ⟨h.1, fun hmem => h.2 (hsub hmem)⟩

theorem Fresh.below (h : Fresh name bound kinds) {names : List String}
    (hnames : ∀ other ∈ names, .identifier other ∈ kinds) (hsub : more ⊆ kinds) :
    Fresh name (bound ++ names) more := by
  refine ⟨?_, fun hmem => h.2 (hsub hmem)⟩
  intro hmem
  rcases List.mem_append.mp hmem with hmem | hmem
  · exact h.1 hmem
  · exact h.2 (hnames name hmem)

theorem Clause.subset_kinds (range : Range) (clauses : List Clause) (otherwise? : Option Value) :
    Clause.allKinds clauses ⊆ (Value.cond range clauses otherwise?).kinds := by
  intro kind hkind
  cases otherwise? <;> simp [Value.kinds, enclosed, hkind]

theorem Params.kind_of_mem_bound {params : Params} (h : name ∈ params.bound) :
    .identifier name ∈ params.kinds := by
  obtain ⟨ident, hident, rfl⟩ := List.mem_map.mp h
  exact Params.kind_mem hident

theorem Definition.kind_of_mem_bound {definitions : List Definition}
    (h : name ∈ Definition.bound definitions) :
    .identifier name ∈ Definition.allKinds definitions := by
  obtain ⟨definition, hdefinition, rfl⟩ := List.mem_map.mp h
  rw [Definition.allKinds_eq]
  refine List.mem_flatMap.mpr ⟨definition, hdefinition, ?_⟩
  cases definition <;> simp [Definition.kinds, Definition.name, enclosed, Ident.kind]

theorem LetBinding.kind_of_mem_bound {bindings : List LetBinding}
    (h : name ∈ LetBinding.bound bindings) : .identifier name ∈ LetBinding.allKinds bindings := by
  obtain ⟨binding, hbinding, rfl⟩ := List.mem_map.mp h
  rw [LetBinding.allKinds_eq]
  refine List.mem_flatMap.mpr ⟨binding, hbinding, ?_⟩
  cases binding
  simp [LetBinding.kinds, LetBinding.name, enclosed, Ident.kind]

end

section

variable {P : List String → Value → Value → Prop}
variable {Q : List String → Definition → Definition → Prop} {name : String}

mutual

/-- What does not occur in a tree does not occur in the part that is replaced. -/
theorem Value.Within.fresh {bound : List String} {value other : Value}
    (h : Value.Within P Q bound value other) (hfresh : Fresh name bound value.kinds) :
    Value.Within (fun bound value other => P bound value other ∧ Fresh name bound value.kinds)
      (fun bound definition other => Q bound definition other ∧ Fresh name bound definition.kinds)
      bound value other := by
  match h with
  | .part hpart => exact .part ⟨hpart, hfresh⟩
  | .condition hwithin =>
      refine .condition (hwithin.fresh (hfresh.mono fun kind hkind => ?_))
      simp [Value.kinds, enclosed, hkind]
  | .thenArm hwithin =>
      refine .thenArm (hwithin.fresh (hfresh.mono fun kind hkind => ?_))
      simp [Value.kinds, enclosed, hkind]
  | .elseArm hwithin =>
      refine .elseArm (hwithin.fresh (hfresh.mono fun kind hkind => ?_))
      simp [Value.kinds, enclosed, hkind]
  | .clauseCondition hwithin =>
      refine .clauseCondition (hwithin.fresh (hfresh.mono fun kind hkind => ?_))
      apply Clause.subset_kinds
      simp [Clause.kinds, Clause.allKinds_eq, enclosed, hkind]
  | .clauseBody hwithin =>
      refine .clauseBody (hwithin.fresh (hfresh.mono fun kind hkind => ?_))
      apply Clause.subset_kinds
      simp [Clause.kinds, Clause.allKinds_eq, enclosed, hkind]
  | .otherwise hwithin =>
      refine .otherwise (hwithin.fresh (hfresh.mono fun kind hkind => ?_))
      simp [Value.kinds, enclosed, hkind]
  | .lambda hwithin =>
      refine .lambda (hwithin.fresh (hfresh.below (fun other hother => ?_) fun kind hkind => ?_))
      · simp [Value.kinds, enclosed, Params.kind_of_mem_bound hother]
      · simp [Value.kinds, enclosed, hkind]
  | .localDefinition hwithin =>
      refine .localDefinition
        (hwithin.fresh (hfresh.below (fun other hother => ?_) fun kind hkind => ?_))
      · simp [Value.kinds, enclosed, Definition.kind_of_mem_bound hother]
      · simp [Value.kinds, Definition.allKinds_eq, enclosed, hkind]
  | .localBody hwithin =>
      refine .localBody (hwithin.fresh (hfresh.below (fun other hother => ?_) fun kind hkind => ?_))
      · simp [Value.kinds, enclosed, Definition.kind_of_mem_bound hother]
      · simp [Value.kinds, enclosed, hkind]
  | .letBinding hwithin =>
      refine .letBinding
        (hwithin.fresh (hfresh.below (fun other hother => ?_) fun kind hkind => ?_))
      · have hbound := LetBinding.kind_of_mem_bound hother
        rw [LetBinding.allKinds_eq] at hbound
        simp [Value.kinds, LetBinding.allKinds_eq, enclosed, List.mem_flatMap.mp hbound]
      · simp [Value.kinds, LetBinding.kinds, LetBinding.allKinds_eq, enclosed, hkind]
  | .letBody hwithin =>
      refine .letBody (hwithin.fresh (hfresh.below (fun other hother => ?_) fun kind hkind => ?_))
      · simp [Value.kinds, enclosed, LetBinding.kind_of_mem_bound hother]
      · simp [Value.kinds, enclosed, hkind]
  | .callee hwithin =>
      refine .callee (hwithin.fresh (hfresh.mono fun kind hkind => ?_))
      simp [Value.kinds, enclosed, hkind]
  | .arg hwithin =>
      refine .arg (hwithin.fresh (hfresh.mono fun kind hkind => ?_))
      simp [Value.kinds, Value.allKinds_eq, enclosed, hkind]

theorem Definition.Within.fresh {bound : List String} {definition other : Definition}
    (h : Definition.Within P Q bound definition other)
    (hfresh : Fresh name bound definition.kinds) :
    Definition.Within
      (fun bound value other => P bound value other ∧ Fresh name bound value.kinds)
      (fun bound definition other => Q bound definition other ∧ Fresh name bound definition.kinds)
      bound definition other := by
  match h with
  | .part hpart => exact .part ⟨hpart, hfresh⟩
  | .body hwithin =>
      refine .body (hwithin.fresh (hfresh.below (fun other hother => ?_) fun kind hkind => ?_))
      · simp [Definition.kinds, enclosed, Params.kind_of_mem_bound hother]
      · simp [Definition.kinds, enclosed, hkind]
  | .value hwithin =>
      refine .value (hwithin.fresh (hfresh.mono fun kind hkind => ?_))
      simp [Definition.kinds, enclosed, hkind]

end

theorem Program.Within.fresh {bound : List String} {program other : Program}
    (h : Program.Within P Q bound program other)
    (hfresh : Fresh name bound (Program.kinds program)) :
    Program.Within (fun bound value other => P bound value other ∧ Fresh name bound value.kinds)
      (fun bound definition other => Q bound definition other ∧ Fresh name bound definition.kinds)
      bound program other := by
  obtain ⟨hform⟩ := h
  refine .form ?_
  cases hform with
  | definition hwithin =>
      refine .definition (hwithin.fresh (hfresh.mono fun kind hkind => ?_))
      simp [Program.kinds, TopLevel.kinds, hkind]
  | value hwithin =>
      refine .value (hwithin.fresh (hfresh.mono fun kind hkind => ?_))
      simp [Program.kinds, TopLevel.kinds, hkind]

end

end TypedIsl

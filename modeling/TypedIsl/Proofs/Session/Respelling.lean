import Mathlib.Data.List.Forall2
import Mathlib.Data.Option.Defs
import TypedIsl.Check.Program

/-!
# Respelled trees

The names of a tree are replaced by a map that may not know all of them. Names in types are mapped
apart from the others, as a checker treats them differently.
-/

namespace TypedIsl

/-- A partial map on names, on types that are written as bare names, and on functions that are
applied to types. -/
structure Respelling where
  name : String → Option String
  typeName : String → Option String
  typeFunction : String → Option String

/-- The same map on all names. -/
def Respelling.uniform (f : String → Option String) : Respelling := ⟨f, f, f⟩

section

variable (f : String → Option String)

@[simp] theorem Respelling.uniform_name : (uniform f).name = f := rfl

@[simp] theorem Respelling.uniform_typeName : (uniform f).typeName = f := rfl

@[simp] theorem Respelling.uniform_typeFunction : (uniform f).typeFunction = f := rfl

end

/-! ## Trees -/

def Ident.respell? (f : String → Option String) (ident : Ident) : Option Ident := do
  return ⟨← f ident.name, ident.range⟩

def Literal.respell? (f : String → Option String) : Literal → Option Literal
  | integer value => some (.integer value)
  | fraction numerator denominator => some (.fraction numerator denominator)
  | decimal value => some (.decimal value)
  | string value => some (.string value)
  | boolean value => some (.boolean value)
  | symbol name => do return .symbol (← f name)

mutual

def TypeExpr.respell? (ρ : Respelling) : TypeExpr → Option TypeExpr
  | .named name => do return .named (← name.respell? ρ.typeName)
  | .apply range function args => do
      return .apply range (← function.respell? ρ.typeFunction) (← TypeExpr.respellAll? ρ args)

def TypeExpr.respellAll? (ρ : Respelling) : List TypeExpr → Option (List TypeExpr)
  | [] => some []
  | type :: types => do return (← type.respell? ρ) :: (← TypeExpr.respellAll? ρ types)

end

def TypedParam.respell? (ρ : Respelling) (param : TypedParam) : Option TypedParam := do
  return ⟨← param.name.respell? ρ.name, ← param.type.respell? ρ⟩

def Params.respell? (ρ : Respelling) : Params → Option Params
  | typed range params none => do return .typed range (← params.mapM (·.respell? ρ)) none
  | typed range params (some declared) => do
      return .typed range (← params.mapM (·.respell? ρ)) (some (← declared.respell? ρ))
  | untyped range names => do return .untyped range (← names.mapM (·.respell? ρ.name))

mutual

def Value.respell? (ρ : Respelling) : Value → Option Value
  | .literal range value => do return .literal range (← value.respell? ρ.name)
  | .name ident => do return .name (← ident.respell? ρ.name)
  | .branch range condition thenArm elseArm => do
      return .branch range (← condition.respell? ρ) (← thenArm.respell? ρ) (← elseArm.respell? ρ)
  | .cond range clauses none => do return .cond range (← Clause.respellAll? ρ clauses) none
  | .cond range clauses (some value) => do
      return .cond range (← Clause.respellAll? ρ clauses) (some (← value.respell? ρ))
  | .lambda range params body => do
      return .lambda range (← params.respell? ρ) (← body.respell? ρ)
  | .locals range definitions body => do
      return .locals range (← Definition.respellAll? ρ definitions) (← body.respell? ρ)
  | .lets range kind bindings body => do
      return .lets range kind (← LetBinding.respellAll? ρ bindings) (← body.respell? ρ)
  | .require range library => do return .require range (← library.respell? ρ.name)
  | .call range callee args => do
      return .call range (← callee.respell? ρ) (← Value.respellAll? ρ args)

def Value.respellAll? (ρ : Respelling) : List Value → Option (List Value)
  | [] => some []
  | value :: values => do return (← value.respell? ρ) :: (← Value.respellAll? ρ values)

def Clause.respell? (ρ : Respelling) : Clause → Option Clause
  | .mk range condition body => do
      return .mk range (← condition.respell? ρ) (← body.respell? ρ)

def Clause.respellAll? (ρ : Respelling) : List Clause → Option (List Clause)
  | [] => some []
  | clause :: clauses => do return (← clause.respell? ρ) :: (← Clause.respellAll? ρ clauses)

def LetBinding.respell? (ρ : Respelling) : LetBinding → Option LetBinding
  | .mk range name value => do return .mk range (← name.respell? ρ.name) (← value.respell? ρ)

def LetBinding.respellAll? (ρ : Respelling) : List LetBinding → Option (List LetBinding)
  | [] => some []
  | binding :: bindings => do
      return (← binding.respell? ρ) :: (← LetBinding.respellAll? ρ bindings)

def Definition.respell? (ρ : Respelling) : Definition → Option Definition
  | .function range docs name params body => do
      return .function range docs (← name.respell? ρ.name) (← params.respell? ρ)
        (← body.respell? ρ)
  | .constant range docs name value => do
      return .constant range docs (← name.respell? ρ.name) (← value.respell? ρ)

def Definition.respellAll? (ρ : Respelling) : List Definition → Option (List Definition)
  | [] => some []
  | definition :: definitions => do
      return (← definition.respell? ρ) :: (← Definition.respellAll? ρ definitions)

end

def StructDefinition.respell? (ρ : Respelling) (definition : StructDefinition) :
    Option StructDefinition := do
  return ⟨definition.range, definition.docs, ← definition.name.respell? ρ.name,
    ← definition.fields.respell? ρ⟩

def TopLevel.respell? (ρ : Respelling) : TopLevel → Option TopLevel
  | definition form => do return .definition (← form.respell? ρ)
  | struct form => do return .struct (← form.respell? ρ)
  | value form => do return .value (← form.respell? ρ)

def Program.respell? (ρ : Respelling) (program : Program) : Option Program :=
  program.mapM (TopLevel.respell? ρ)

/-! ## Types and diagnostics -/

mutual

def Ty.respell? (f : String → Option String) : Ty → Option Ty
  | .number => some .number
  | .string => some .string
  | .boolean => some .boolean
  | .symbol => some .symbol
  | .list element => do return .list (← element.respell? f)
  | .function params result => do
      return .function (← Param.respellAll? f params) (← result.respell? f)
  | .struct name => do return .struct (← f name)
  | .union members => do return .union (← Ty.respellAll? f members)
  | .any => some .any
  | .flexible => some .flexible
  | .void => some .void

def Ty.respellAll? (f : String → Option String) : List Ty → Option (List Ty)
  | [] => some []
  | type :: types => do return (← type.respell? f) :: (← Ty.respellAll? f types)

def Param.respell? (f : String → Option String) : Param → Option Param
  | .fixed type => do return .fixed (← type.respell? f)
  | .many type => do return .many (← type.respell? f)

def Param.respellAll? (f : String → Option String) : List Param → Option (List Param)
  | [] => some []
  | param :: params => do return (← param.respell? f) :: (← Param.respellAll? f params)

end

def Callee.respell? (f : String → Option String) : Callee → Option Callee
  | named name => do return .named (← f name)
  | expression => some .expression

def Problem.respell? (f : String → Option String) : Problem → Option Problem
  | alreadyDefined name => do return .alreadyDefined (← f name)
  | alreadyDefinedLocally name => do return .alreadyDefinedLocally (← f name)
  | undefined name => do return .undefined (← f name)
  | unknownType name => do return .unknownType (← f name)
  | notTypeChecked name => do return .notTypeChecked (← f name)
  | notCallable callee actual => do return .notCallable (← callee.respell? f) actual
  | arityMismatch callee expected actual atLeast => do
      return .arityMismatch (← callee.respell? f) expected actual atLeast
  | argumentMismatch callee position expected actual => do
      return .argumentMismatch (← callee.respell? f) position expected actual
  | returnMismatch none expected actual => some (.returnMismatch none expected actual)
  | returnMismatch (some name) expected actual => do
      return .returnMismatch (some (← f name)) expected actual
  | conditionNotBoolean form actual => some (.conditionNotBoolean form actual)

def Diagnostic.respell? (f : String → Option String) (d : Diagnostic) : Option Diagnostic := do
  return ⟨← d.problem.respell? f, d.range, d.notes⟩

/-- A name with its type. -/
def respellGlobal? (f : String → Option String) (entry : String × Ty) : Option (String × Ty) := do
  return (← f entry.1, ← entry.2.respell? f)

def Checked.respell? (f : String → Option String) (checked : Checked) : Option Checked := do
  return ⟨← checked.diagnostics.mapM (·.respell? f), ← checked.globals.mapM (respellGlobal? f),
    ← checked.coined.mapM f⟩

/-! ## Parts -/

section

variable {α β γ δ : Type} {x : Option α} {y : Option β}

/-- What has been made of a part. -/
theorem one_part {make : α → δ} {whole : δ} (h : (x.bind fun a => some (make a)) = some whole) :
    ∃ a, x = some a ∧ whole = make a := by
  obtain ⟨a, ha, hwhole⟩ := Option.bind_eq_some_iff.mp h
  exact ⟨a, ha, (Option.some.inj hwhole).symm⟩

theorem two_parts {make : α → β → δ} {whole : δ}
    (h : (x.bind fun a => y.bind fun b => some (make a b)) = some whole) :
    ∃ a, x = some a ∧ ∃ b, y = some b ∧ whole = make a b := by
  obtain ⟨a, ha, hrest⟩ := Option.bind_eq_some_iff.mp h
  exact ⟨a, ha, one_part hrest⟩

theorem three_parts {z : Option γ} {make : α → β → γ → δ} {whole : δ}
    (h : (x.bind fun a => y.bind fun b => z.bind fun c => some (make a b c)) = some whole) :
    ∃ a, x = some a ∧ ∃ b, y = some b ∧ ∃ c, z = some c ∧ whole = make a b c := by
  obtain ⟨a, ha, hrest⟩ := Option.bind_eq_some_iff.mp h
  exact ⟨a, ha, two_parts hrest⟩

end

/-! ## Lists -/

/-- The elements of one list are those of another one, mapped. -/
abbrev Elementwise {α β : Type} (f : α → Option β) : List α → List β → Prop :=
  List.Forall₂ fun a b => f a = some b

theorem Elementwise.snoc {α β : Type} {f : α → Option β} {as : List α} {bs : List β} {a : α} {b : β}
    (h : Elementwise f as bs) (hab : f a = some b) : Elementwise f (as ++ [a]) (bs ++ [b]) :=
  List.rel_append h (.cons hab .nil)

theorem Elementwise.head? {α β : Type} {f : α → Option β} {as : List α} {bs : List β}
    (h : Elementwise f as bs) : Option.Rel (fun a b => f a = some b) as.head? bs.head? := by
  cases h with
  | nil => exact .none
  | cons hab _ => exact .some hab

theorem Elementwise.getLast? {α β : Type} {f : α → Option β} {as : List α} {bs : List β}
    (h : Elementwise f as bs) : Option.Rel (fun a b => f a = some b) as.getLast? bs.getLast? := by
  rw [List.getLast?_eq_head?_reverse, List.getLast?_eq_head?_reverse]
  exact Elementwise.head? (List.rel_reverse h)

theorem mapM_eq_some_iff {α β : Type} {f : α → Option β} {as : List α} {bs : List β} :
    as.mapM f = some bs ↔ Elementwise f as bs := by
  induction as generalizing bs with
  | nil => simp [eq_comm]
  | cons a as ih =>
      simp only [List.mapM_cons, Option.bind_eq_bind, Option.bind_eq_some_iff, Option.pure_def,
        Option.some.injEq, List.forall₂_cons_left_iff, ih]
      constructor
      · rintro ⟨b, hb, rest, hrest, rfl⟩
        exact ⟨b, rest, hb, hrest, rfl⟩
      · rintro ⟨b, rest, hb, hrest, rfl⟩
        exact ⟨b, hb, rest, hrest, rfl⟩

section

variable {ρ : Respelling}

theorem TypeExpr.respellAll?_eq_some_iff {types others : List TypeExpr} :
    TypeExpr.respellAll? ρ types = some others ↔
      Elementwise (TypeExpr.respell? ρ) types others := by
  have heq : TypeExpr.respellAll? ρ types = types.mapM (TypeExpr.respell? ρ) := by
    induction types with
    | nil => rfl
    | cons type types ih => rw [TypeExpr.respellAll?, List.mapM_cons, ih]
  rw [heq, mapM_eq_some_iff]

theorem Value.respellAll?_eq_some_iff {values others : List Value} :
    Value.respellAll? ρ values = some others ↔ Elementwise (Value.respell? ρ) values others := by
  have heq : Value.respellAll? ρ values = values.mapM (Value.respell? ρ) := by
    induction values with
    | nil => rfl
    | cons value values ih => rw [Value.respellAll?, List.mapM_cons, ih]
  rw [heq, mapM_eq_some_iff]

theorem Clause.respellAll?_eq_some_iff {clauses others : List Clause} :
    Clause.respellAll? ρ clauses = some others ↔
      Elementwise (Clause.respell? ρ) clauses others := by
  have heq : Clause.respellAll? ρ clauses = clauses.mapM (Clause.respell? ρ) := by
    induction clauses with
    | nil => rfl
    | cons clause clauses ih => rw [Clause.respellAll?, List.mapM_cons, ih]
  rw [heq, mapM_eq_some_iff]

theorem LetBinding.respellAll?_eq_some_iff {bindings others : List LetBinding} :
    LetBinding.respellAll? ρ bindings = some others ↔
      Elementwise (LetBinding.respell? ρ) bindings others := by
  have heq : LetBinding.respellAll? ρ bindings = bindings.mapM (LetBinding.respell? ρ) := by
    induction bindings with
    | nil => rfl
    | cons binding bindings ih => rw [LetBinding.respellAll?, List.mapM_cons, ih]
  rw [heq, mapM_eq_some_iff]

theorem Definition.respellAll?_eq_some_iff {definitions others : List Definition} :
    Definition.respellAll? ρ definitions = some others ↔
      Elementwise (Definition.respell? ρ) definitions others := by
  have heq : Definition.respellAll? ρ definitions = definitions.mapM (Definition.respell? ρ) := by
    induction definitions with
    | nil => rfl
    | cons definition definitions ih => rw [Definition.respellAll?, List.mapM_cons, ih]
  rw [heq, mapM_eq_some_iff]

end

section

variable {f : String → Option String}

theorem Ty.respellAll?_eq_some_iff {types others : List Ty} :
    Ty.respellAll? f types = some others ↔ Elementwise (Ty.respell? f) types others := by
  have heq : Ty.respellAll? f types = types.mapM (Ty.respell? f) := by
    induction types with
    | nil => rfl
    | cons type types ih => rw [Ty.respellAll?, List.mapM_cons, ih]
  rw [heq, mapM_eq_some_iff]

theorem Param.respellAll?_eq_some_iff {params others : List Param} :
    Param.respellAll? f params = some others ↔ Elementwise (Param.respell? f) params others := by
  have heq : Param.respellAll? f params = params.mapM (Param.respell? f) := by
    induction params with
    | nil => rfl
    | cons param params ih => rw [Param.respellAll?, List.mapM_cons, ih]
  rw [heq, mapM_eq_some_iff]

end

theorem rel_map {α β γ δ : Type} {R : α → β → Prop} {S : γ → δ → Prop} {a : Option α} {b : Option β}
    {g : α → γ} {k : β → δ} (h : Option.Rel R a b) (hmap : ∀ {x y}, R x y → S (g x) (k y)) :
    Option.Rel S (a.map g) (b.map k) := by
  cases h with
  | none => exact .none
  | some hxy => exact .some (hmap hxy)

theorem rel_cases {α β : Type} {R : α → β → Prop} {a : Option α} {b : Option β}
    (h : Option.Rel R a b) : (a = none ∧ b = none) ∨ ∃ x y, a = some x ∧ b = some y ∧ R x y := by
  cases h with
  | none => exact .inl ⟨rfl, rfl⟩
  | some hxy => exact .inr ⟨_, _, rfl, rfl, hxy⟩

/-! ## What stays -/

section

variable {ρ : Respelling}

variable {f : String → Option String}

theorem Literal.respell?_symbol {name spelled : String} (h : f name = some spelled) :
    Literal.respell? f (.symbol name) = some (.symbol spelled) := by
  simp [Literal.respell?, h]

theorem Ident.respell?_mk {name spelled : String} (h : f name = some spelled) (range : Range) :
    Ident.respell? f ⟨name, range⟩ = some ⟨spelled, range⟩ := by
  simp [Ident.respell?, h]

theorem Ident.respell?_eq_some_iff {ident spelled : Ident} :
    ident.respell? f = some spelled ↔
      f ident.name = some spelled.name ∧ spelled.range = ident.range := by
  obtain ⟨name, range⟩ := spelled
  simp only [Ident.respell?, Option.bind_eq_bind, Option.pure_def, Option.bind_eq_some_iff,
    Option.some.injEq, Ident.mk.injEq]
  constructor
  · rintro ⟨_, hname, rfl, rfl⟩
    exact ⟨hname, rfl⟩
  · rintro ⟨hname, rfl⟩
    exact ⟨name, hname, rfl, rfl⟩

theorem TypedParam.respell?_eq_some_iff {param spelled : TypedParam} :
    param.respell? ρ = some spelled ↔
      param.name.respell? ρ.name = some spelled.name ∧
        param.type.respell? ρ = some spelled.type := by
  obtain ⟨name, type⟩ := spelled
  simp only [TypedParam.respell?, Option.bind_eq_bind, Option.pure_def, Option.bind_eq_some_iff,
    Option.some.injEq, TypedParam.mk.injEq]
  constructor
  · rintro ⟨_, hname, _, htype, rfl, rfl⟩
    exact ⟨hname, htype⟩
  · rintro ⟨hname, htype⟩
    exact ⟨name, hname, type, htype, rfl, rfl⟩

theorem TypeExpr.range_of_respell? {type spelled : TypeExpr} (h : type.respell? ρ = some spelled) :
    spelled.range = type.range := by
  cases type with
  | named name =>
      obtain ⟨ident, hname, rfl⟩ := one_part h
      exact (Ident.respell?_eq_some_iff.mp hname).2
  | apply range function args =>
      obtain ⟨_, _, _, _, rfl⟩ := two_parts h
      rfl

/-- A value stays where it is, and diagnostics speak of it in the same way. -/
theorem Value.respell?_keeps {value spelled : Value} (h : value.respell? ρ = some spelled) :
    spelled.range = value.range ∧ value.asCallee.respell? ρ.name = some spelled.asCallee := by
  cases value with
  | name ident =>
      obtain ⟨other, hname, rfl⟩ := one_part h
      obtain ⟨hname, hrange⟩ := Ident.respell?_eq_some_iff.mp hname
      exact ⟨hrange, by simp [asCallee, Callee.respell?, hname]⟩
  | literal range value =>
      obtain ⟨_, _, rfl⟩ := one_part h
      exact ⟨rfl, rfl⟩
  | require range library =>
      obtain ⟨_, _, rfl⟩ := one_part h
      exact ⟨rfl, rfl⟩
  | branch range condition thenArm elseArm =>
      obtain ⟨_, _, _, _, _, _, rfl⟩ := three_parts h
      exact ⟨rfl, rfl⟩
  | cond range clauses otherwise? =>
      cases otherwise? with
      | none =>
          obtain ⟨_, _, rfl⟩ := one_part h
          exact ⟨rfl, rfl⟩
      | some value =>
          obtain ⟨_, _, _, _, rfl⟩ := two_parts h
          exact ⟨rfl, rfl⟩
  | _ =>
      obtain ⟨_, _, _, _, rfl⟩ := two_parts h
      exact ⟨rfl, rfl⟩

end

end TypedIsl

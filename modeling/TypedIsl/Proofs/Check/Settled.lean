import TypedIsl.Proofs.Check.FinalTypes
import TypedIsl.Proofs.Check.Replacement
import TypedIsl.Proofs.Syntax.Names

/-!
# Settled names

A function that is defined at one place only is bound to its declared type or not at all: no other
definition touches a binding that was made at that place.
-/

namespace TypedIsl

namespace Scopes

/-- If the name is bound here in the current scope, it has the given type. -/
def Settled (name : Ident) (type : Ty) (scopes : Scopes) : Prop :=
  ∀ binding, scopes.local? name.name = some binding → binding.definedAt? = some name.range →
    binding.type = type

section

variable {name other : Ident} {type : Ty} {scopes : Scopes}

theorem settled_enter (name : Ident) (type : Ty) (scopes : Scopes) :
    scopes.enter.Settled name type :=
  fun _ hlocal => Option.noConfusion rfl (heq_of_eq hlocal)

theorem settled_root (language : Language) (name : Ident) (type : Ty) :
    (Scopes.root language.scope).Settled name type := by
  intro binding hlocal hdefined
  rw [Scopes.local?, Scopes.root, Language.get?_scope] at hlocal
  obtain ⟨builtin, -, rfl⟩ := Option.map_eq_some_iff.mp hlocal
  exact absurd hdefined (Option.some_ne_none _).symm

theorem settled_bind (scopes : Scopes) (name : Ident) (type : Ty) :
    (scopes.bind name type).Settled name type := by
  intro binding hlocal _
  rw [local?_bind, if_pos rfl] at hlocal
  obtain rfl := Option.some.inj hlocal
  rfl

theorem Settled.bindNew_self (h : scopes.Settled name type) (problem : Problem) :
    (scopes.bindNew name type problem).result.Settled name type := by
  unfold bindNew
  split
  · exact h
  · exact scopes.settled_bind name type

/-- Binding a name at another place. -/
theorem Settled.bind (h : scopes.Settled name type) (hne : other.range ≠ name.range) (bound : Ty) :
    (scopes.bind other bound).Settled name type := by
  intro binding hlocal hdefined
  rw [local?_bind] at hlocal
  split at hlocal
  · obtain rfl := Option.some.inj hlocal
    exact absurd (Option.some.inj hdefined) hne
  · exact h binding hlocal hdefined

theorem Settled.bindNew (h : scopes.Settled name type) (hne : other.range ≠ name.range)
    (bound : Ty) (problem : Problem) :
    (scopes.bindNew other bound problem).result.Settled name type := by
  unfold Scopes.bindNew
  split
  · exact h
  · exact h.bind hne bound

theorem Settled.finalize (h : scopes.Settled name type) (hne : other.range ≠ name.range)
    (bound : Ty) : (scopes.finalize other bound).Settled name type := by
  unfold Scopes.finalize
  split
  · exact h.bind hne bound
  · exact h

/-- The name keeps its type when it is finalized. -/
theorem Settled.finalize_self (h : scopes.Settled name type) :
    scopes.finalize name type = scopes := by
  cases hlocal : scopes.local? name.name with
  | none =>
      rw [Scopes.finalize, hlocal]
      rfl
  | some binding =>
      by_cases hdefined : binding.definedAt? = some name.range
      · refine finalize_of_local? (hlocal.trans ?_)
        rw [← h binding hlocal hdefined, ← hdefined]
      · have hany :
            ¬((some binding).any fun found => found.definedAt? = some name.range) = true := by
          simpa using hdefined
        rw [Scopes.finalize, hlocal, if_neg hany]

end

end Scopes

section

variable {name : Ident} {type : Ty} {scopes : Scopes} (structs : List String)

/-! ## Other definitions -/

namespace Definition

theorem settled_register (h : scopes.Settled name type) {definition : Definition}
    (hne : definition.name.range ≠ name.range) :
    (definition.register structs scopes).result.Settled name type := by
  cases definition with
  | function range docs other params body => exact h.bindNew hne _ _
  | constant range docs other value =>
      rw [Definition.register]
      split
      · exact h
      · exact h.bind hne _

theorem settled_check (h : scopes.Settled name type) {definition : Definition}
    (hne : definition.name.range ≠ name.range) :
    (definition.check structs scopes).result.Settled name type := by
  match definition with
  | .function _ _ other (.typed _ params (some declared)) body => exact h.finalize hne _
  | .function _ _ other (.typed _ params none) body => exact h
  | .function _ _ other (.untyped _ names) body => exact h
  | .constant _ _ other value => exact h.finalize hne _

theorem settled_registerAll (h : scopes.Settled name type) {definitions : List Definition}
    (hne : ∀ definition ∈ definitions, definition.name.range ≠ name.range) :
    (registerAll structs scopes definitions).result.Settled name type := by
  induction definitions generalizing scopes with
  | nil => exact h
  | cons definition definitions ih =>
      rw [List.forall_mem_cons] at hne
      exact ih (settled_register _ h hne.1) hne.2

/-- A function among other definitions is bound to its declared type. -/
theorem settled_registerAll_function {params : Params}
    (h : scopes.Settled name (params.declaredType structs)) {before after : List Definition}
    (hbefore : ∀ definition ∈ before, definition.name.range ≠ name.range)
    (hafter : ∀ definition ∈ after, definition.name.range ≠ name.range) (range : Range)
    (docs : List String) (body : Value) :
    (registerAll structs scopes
        (before ++ .function range docs name params body :: after)).result.Settled
      name (params.declaredType structs) := by
  have hfirst : (registerAll structs scopes before).result.Settled name
      (params.declaredType structs) := settled_registerAll _ h hbefore
  rw [registerAll_append]
  exact settled_registerAll _ (hfirst.bindNew_self (.alreadyDefined name.name)) hafter

theorem settled_checkAll (h : scopes.Settled name type) {definitions : List Definition}
    (hne : ∀ definition ∈ definitions, definition.name.range ≠ name.range) :
    (checkAll structs scopes definitions).result.Settled name type := by
  induction definitions generalizing scopes with
  | nil => exact h
  | cons definition definitions ih =>
      rw [List.forall_mem_cons] at hne
      exact ih (settled_check _ h hne.1) hne.2

end Definition

/-! ## Other forms of a program -/

theorem StructDefinition.settled_bindCoined (h : scopes.Settled name type) {range : Range}
    (hne : range ≠ name.range) (coined : List (String × Ty)) :
    (bindCoined range scopes coined).result.Settled name type := by
  induction coined generalizing scopes with
  | nil => exact h
  | cons entry coined ih => exact ih (Scopes.Settled.bindNew h hne _ _)

theorem TopLevel.settled_register {registered : Registered}
    (h : registered.scopes.Settled name type) {form : TopLevel}
    (hne : ∀ ident ∈ form.ident?, ident.range ≠ name.range) :
    (form.register structs registered).result.scopes.Settled name type := by
  cases form with
  | definition form => exact Definition.settled_register _ h (hne _ rfl)
  | value form => exact h
  | struct form =>
      rw [TopLevel.register, StructDefinition.register]
      split
      · exact h
      · exact StructDefinition.settled_bindCoined (h.bind (hne _ rfl) _) (hne _ rfl) _

theorem TopLevel.settled_check (h : scopes.Settled name type) {form : TopLevel}
    (hne : ∀ ident ∈ form.ident?, ident.range ≠ name.range) :
    (form.check structs scopes).result.Settled name type := by
  cases form with
  | definition form => exact Definition.settled_check _ h (hne _ rfl)
  | struct form => exact h
  | value form => exact h

namespace Program

theorem settled_register {registered : Registered} (h : registered.scopes.Settled name type)
    {program : Program} (hne : ∀ form ∈ program, ∀ ident ∈ form.ident?, ident.range ≠ name.range) :
    (register structs registered program).result.scopes.Settled name type := by
  induction program generalizing registered with
  | nil => exact h
  | cons form program ih =>
      rw [List.forall_mem_cons] at hne
      exact ih (TopLevel.settled_register _ h hne.1) hne.2

theorem settled_checkForms (h : scopes.Settled name type) {program : Program}
    (hne : ∀ form ∈ program, ∀ ident ∈ form.ident?, ident.range ≠ name.range) :
    (checkForms structs scopes program).result.Settled name type := by
  induction program generalizing scopes with
  | nil => exact h
  | cons form program ih =>
      rw [List.forall_mem_cons] at hne
      exact ih (TopLevel.settled_check _ h hne.1) hne.2

/-- The name of a function that is defined at one place only is settled when the function is
checked. -/
theorem settled_stage (language : Language) {before after : Program} {range : Range}
    {docs : List String} {params : Params} {body : Value}
    (hbefore : ∀ form ∈ before, ∀ ident ∈ form.ident?, ident.range ≠ name.range)
    (hafter : ∀ form ∈ after, ∀ ident ∈ form.ident?, ident.range ≠ name.range) :
    let program := before ++ .definition (.function range docs name params body) :: after
    (stage language program before).Settled name (params.declaredType (structNames program)) := by
  intro program
  have hroot := Scopes.settled_root language name (params.declaredType (structNames program))
  have hfirst : (register (structNames program) ⟨.root language.scope, []⟩
      before).result.scopes.Settled name (params.declaredType (structNames program)) :=
    settled_register _ hroot hbefore
  have hform : ((TopLevel.definition (.function range docs name params body)).register
      (structNames program) (register (structNames program) ⟨.root language.scope, []⟩
        before).result).result.scopes.Settled name (params.declaredType (structNames program)) :=
    hfirst.bindNew_self _
  refine settled_checkForms _ ?_ hbefore
  rw [register_append]
  exact settled_register _ hform hafter

end Program

end

end TypedIsl

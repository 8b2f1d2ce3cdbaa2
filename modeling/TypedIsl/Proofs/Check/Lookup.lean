import TypedIsl.Check.Value
import TypedIsl.Proofs.Syntax.Renaming

/-!
# Looking names up

Every step of the checker that changes the scopes binds certain names in the current scope, and so
leaves the bindings of all others as they are.
-/

namespace TypedIsl

namespace Scopes

variable (scopes : Scopes) (ident : Ident) (type : Ty) (name : String)

theorem local?_bind : (scopes.bind ident type).local? name =
    if ident.name = name then some ⟨type, some ident.range⟩ else scopes.local? name :=
  Table.get?_put scopes.current ident.name name _

theorem get?_eq : scopes.get? name =
    (scopes.local? name).or (scopes.outer.findSome? (·.get? name)) := by
  rw [get?, List.findSome?_cons, local?]
  cases scopes.current.get? name <;> rfl

variable {scopes name} in
theorem get?_of_local? {binding : Binding} (h : scopes.local? name = some binding) :
    scopes.get? name = some binding := by
  rw [get?_eq, h, Option.some_or]

theorem get?_bind : (scopes.bind ident type).get? name =
    if ident.name = name then some ⟨type, some ident.range⟩ else scopes.get? name := by
  have houter : (scopes.bind ident type).outer = scopes.outer := rfl
  rw [get?_eq, local?_bind, houter]
  split
  · rfl
  · rw [← get?_eq]

/-- The type of a name, as it is found from the current scope outwards. -/
def type? : Option Ty :=
  (scopes.get? name).map (·.type)

@[simp] theorem type?_enter : scopes.enter.type? name = scopes.type? name := rfl

theorem type?_bind : (scopes.bind ident type).type? name =
    if ident.name = name then some type else scopes.type? name := by
  rw [type?, get?_bind]
  split <;> rfl

variable {scopes name} in
theorem type?_of_local? {binding : Binding} (h : scopes.local? name = some binding) :
    scopes.type? name = some binding.type := by
  rw [type?, get?_of_local? h, Option.map_some]

variable {scopes ident} in
theorem conflict?_of_local? (h : scopes.local? ident.name = none) (problem : Problem) :
    scopes.conflict? ident problem = none := by
  rw [conflict?, h, Option.map_none]

/-- An occurrence of a name depends on its type only, not on where the name was bound. -/
theorem use_eq : scopes.use ident = match scopes.type? ident.name with
    | some type => pure type
    | none => do
        Judged.report ⟨.undefined ident.name, ident.range, []⟩
        return .flexible := by
  rw [use, type?]
  cases scopes.get? ident.name <;> rfl

/-- The second scopes come from the first ones by binding given names in the current scope, one
after the other. -/
inductive Binds (names : List String) (scopes : Scopes) : Scopes → Prop
  | refl : Binds names scopes scopes
  | bind {others : Scopes} (h : Binds names scopes others) {ident : Ident}
      (hmem : ident.name ∈ names) (type : Ty) : Binds names scopes (others.bind ident type)

/-- No name but the given ones is bound. -/
def BindsOnly (scopes : Scopes) (names : List String) : Prop :=
  ∀ name, name ∉ names → scopes.get? name = none

section

variable {names more : List String} {scopes others third : Scopes} {name : String}

theorem Binds.mono (h : Binds names scopes others) (hsub : names ⊆ more) :
    Binds more scopes others := by
  induction h with
  | refl => exact .refl
  | bind _ hmem type ih => exact ih.bind (hsub hmem) type

theorem Binds.trans (h : Binds names scopes others) (hmore : Binds more others third) :
    Binds (names ++ more) scopes third := by
  induction hmore with
  | refl => exact h.mono (List.subset_append_left names more)
  | bind _ hmem type ih => exact ih.bind (List.mem_append_right names hmem) type

theorem Binds.local?_eq (h : Binds names scopes others) (hname : name ∉ names) :
    others.local? name = scopes.local? name := by
  induction h with
  | refl => rfl
  | bind _ hmem type ih => rw [local?_bind, if_neg (ne_of_mem_of_not_mem hmem hname), ih]

theorem Binds.get?_eq (h : Binds names scopes others) (hname : name ∉ names) :
    others.get? name = scopes.get? name := by
  induction h with
  | refl => rfl
  | bind _ hmem type ih => rw [get?_bind, if_neg (ne_of_mem_of_not_mem hmem hname), ih]

theorem Binds.type?_eq (h : Binds names scopes others) (hname : name ∉ names) :
    others.type? name = scopes.type? name := by
  rw [type?, type?, h.get?_eq hname]

theorem BindsOnly.mono (h : scopes.BindsOnly names) (hsub : names ⊆ more) :
    scopes.BindsOnly more :=
  fun name hname => h name fun hmem => hname (hsub hmem)

theorem BindsOnly.enter (h : scopes.BindsOnly names) : scopes.enter.BindsOnly names :=
  h

theorem Binds.bindsOnly (h : Binds more scopes others) (hscopes : scopes.BindsOnly names)
    (hsub : more ⊆ names) : others.BindsOnly names := by
  intro name hname
  rw [h.get?_eq fun hmem => hname (hsub hmem)]
  exact hscopes name hname

end

theorem binds_bind : Binds [ident.name] scopes (scopes.bind ident type) :=
  Binds.refl.bind List.mem_cons_self type

theorem binds_bindNew (problem : Problem) :
    Binds [ident.name] scopes (scopes.bindNew ident type problem).result := by
  unfold bindNew
  split
  · exact .refl
  · exact binds_bind scopes ident type

theorem binds_finalize : Binds [ident.name] scopes (scopes.finalize ident type) := by
  unfold finalize
  split
  · exact binds_bind scopes ident type
  · exact .refl

theorem binds_bindParams (params : List (Ident × Ty)) :
    Binds (params.map (·.1.name)) scopes (scopes.bindParams params).result := by
  induction params generalizing scopes with
  | nil => exact .refl
  | cons param params ih =>
      obtain ⟨ident, type⟩ := param
      exact (binds_bindNew scopes ident type _).trans (ih _)

theorem binds_bindIdents (idents : List Ident) :
    Binds (idents.map (·.name)) scopes
      (scopes.bindParams (idents.map fun ident => (ident, type))).result := by
  have hbinds := scopes.binds_bindParams (idents.map fun ident => (ident, type))
  rwa [List.map_map] at hbinds

theorem binds_bindResolved (params : List TypedParam) (types : List Ty) :
    Binds (params.map (·.name.name)) scopes
      (scopes.bindParams ((params.map (·.name)).zip types)).result := by
  refine (scopes.binds_bindParams _).mono fun name hname => ?_
  obtain ⟨param, hparam, rfl⟩ := List.mem_map.mp hname
  obtain ⟨source, hsource, heq⟩ := List.mem_map.mp (List.of_mem_zip hparam).1
  exact List.mem_map.mpr ⟨source, hsource, congrArg Ident.name heq⟩

end Scopes

theorem length_resolveParams (structs : List String) (params : List TypedParam) :
    (resolveParams structs params).result.length = params.length := by
  induction params with
  | nil => rfl
  | cons param params ih => exact congrArg Nat.succ ih

theorem binds_bindTypedParams (structs : List String) (scopes : Scopes)
    (params : List TypedParam) :
    Scopes.Binds (params.map (·.name.name)) scopes
      (bindTypedParams structs scopes params).result.1 := by
  induction params generalizing scopes with
  | nil => exact .refl
  | cons param params ih => exact (scopes.binds_bindNew param.name _ _).trans (ih _)

namespace Definition

theorem binds_register (structs : List String) (scopes : Scopes) (definition : Definition) :
    Scopes.Binds [definition.name.name] scopes (definition.register structs scopes).result := by
  cases definition with
  | function range docs name params body => exact scopes.binds_bindNew name _ _
  | constant range docs name value =>
      rw [Definition.register]
      split
      · exact .refl
      · exact scopes.binds_bind name _

theorem binds_registerAll (structs : List String) (scopes : Scopes)
    (definitions : List Definition) :
    Scopes.Binds (bound definitions) scopes (registerAll structs scopes definitions).result := by
  induction definitions generalizing scopes with
  | nil => exact .refl
  | cons definition definitions ih => exact (binds_register structs scopes definition).trans (ih _)

theorem binds_check (structs : List String) (scopes : Scopes) (definition : Definition) :
    Scopes.Binds [definition.name.name] scopes (definition.check structs scopes).result := by
  match definition with
  | .function _ _ name (.typed _ params (some declared)) body =>
      exact scopes.binds_finalize name _
  | .function _ _ name (.typed _ params none) body => exact .refl
  | .function _ _ name (.untyped _ names) body => exact .refl
  | .constant _ _ name value => exact scopes.binds_finalize name _

theorem binds_checkAll (structs : List String) (scopes : Scopes)
    (definitions : List Definition) :
    Scopes.Binds (bound definitions) scopes (checkAll structs scopes definitions).result := by
  induction definitions generalizing scopes with
  | nil => exact .refl
  | cons definition definitions ih => exact (binds_check structs scopes definition).trans (ih _)

end Definition

namespace LetBinding

theorem binds_check (structs : List String) (scopes : Scopes) (binding : LetBinding) :
    Scopes.Binds [binding.name.name] scopes (binding.check structs scopes).result := by
  cases binding with
  | mk range name value =>
      rw [LetBinding.check]
      split
      · exact .refl
      · exact scopes.binds_bind name _

theorem binds_checkAll (structs : List String) (scopes : Scopes) (bindings : List LetBinding) :
    Scopes.Binds (bound bindings) scopes (checkAll structs scopes bindings).result := by
  induction bindings generalizing scopes with
  | nil => exact .refl
  | cons binding bindings ih => exact (binds_check structs scopes binding).trans (ih _)

end LetBinding

end TypedIsl

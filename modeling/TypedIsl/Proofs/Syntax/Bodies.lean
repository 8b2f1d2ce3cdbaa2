import Mathlib.Data.List.Nodup
import TypedIsl.Proofs.Syntax.Replacement
import TypedIsl.Proofs.Syntax.Values

/-!
# The bodies of functions

A function definition has a body, which is one of the values of the program. So no two functions
have their bodies at the same place. A definition that is replaced takes its body with it.
-/

namespace TypedIsl

mutual

/-- Where the functions that are defined inside the value have their bodies. -/
def Value.bodies : Value → List Range
  | .literal _ _ => []
  | .name _ => []
  | .branch _ condition thenArm elseArm =>
      condition.bodies ++ thenArm.bodies ++ elseArm.bodies
  | .cond _ clauses none => Clause.allBodies clauses
  | .cond _ clauses (some otherwise) => Clause.allBodies clauses ++ otherwise.bodies
  | .lambda _ _ body => body.bodies
  | .locals _ definitions body => Definition.allBodies definitions ++ body.bodies
  | .lets _ _ bindings body => LetBinding.allBodies bindings ++ body.bodies
  | .require _ _ => []
  | .call _ callee args => callee.bodies ++ Value.allBodies args

def Value.allBodies : List Value → List Range
  | [] => []
  | value :: values => value.bodies ++ Value.allBodies values

def Clause.bodies : Clause → List Range
  | .mk _ condition body => condition.bodies ++ body.bodies

def Clause.allBodies : List Clause → List Range
  | [] => []
  | clause :: clauses => clause.bodies ++ Clause.allBodies clauses

def LetBinding.bodies : LetBinding → List Range
  | .mk _ _ value => value.bodies

def LetBinding.allBodies : List LetBinding → List Range
  | [] => []
  | binding :: bindings => binding.bodies ++ LetBinding.allBodies bindings

/-- Where the function and those that are defined inside it have their bodies. -/
def Definition.bodies : Definition → List Range
  | .function _ _ _ _ body => body.range :: body.bodies
  | .constant _ _ _ value => value.bodies

def Definition.allBodies : List Definition → List Range
  | [] => []
  | definition :: definitions => definition.bodies ++ Definition.allBodies definitions

end

def TopLevel.bodies : TopLevel → List Range
  | definition form => form.bodies
  | struct _ => []
  | value form => form.bodies

def Program.bodies (program : Program) : List Range :=
  program.flatMap TopLevel.bodies

theorem Value.bodies_cond (range : Range) (clauses : List Clause) (otherwise? : Option Value) :
    (Value.cond range clauses otherwise?).bodies =
      Clause.allBodies clauses ++ otherwise?.toList.flatMap Value.bodies := by
  cases otherwise? with
  | none => exact (List.append_nil _).symm
  | some otherwise => rw [Value.bodies, Option.toList_some, List.flatMap_singleton]

theorem Value.allBodies_eq (values : List Value) :
    Value.allBodies values = values.flatMap Value.bodies :=
  eq_flatMap_of_cons rfl (fun _ _ => rfl) values

theorem Clause.allBodies_eq (clauses : List Clause) :
    Clause.allBodies clauses = clauses.flatMap Clause.bodies :=
  eq_flatMap_of_cons rfl (fun _ _ => rfl) clauses

theorem LetBinding.allBodies_eq (bindings : List LetBinding) :
    LetBinding.allBodies bindings = bindings.flatMap LetBinding.bodies :=
  eq_flatMap_of_cons rfl (fun _ _ => rfl) bindings

theorem Definition.allBodies_eq (definitions : List Definition) :
    Definition.allBodies definitions = definitions.flatMap Definition.bodies :=
  eq_flatMap_of_cons rfl (fun _ _ => rfl) definitions

/-! ## Among the values -/

section

open List (sublist_of_cons_sublist)

mutual

/-- The value is none of the bodies inside it. -/
theorem Value.bodies_sublist (value : Value) :
    (value.range :: value.bodies).Sublist (value.values.map Value.range) := by
  match value with
  | .literal _ _ => exact List.Sublist.refl _
  | .name _ => exact List.Sublist.refl _
  | .require _ _ => exact List.Sublist.refl _
  | .branch _ condition thenArm elseArm =>
      rw [Value.values, List.map_cons, List.map_append, List.map_append]
      refine .cons_cons _ (List.Sublist.append (List.Sublist.append ?_ ?_) ?_)
      · exact sublist_of_cons_sublist condition.bodies_sublist
      · exact sublist_of_cons_sublist thenArm.bodies_sublist
      · exact sublist_of_cons_sublist elseArm.bodies_sublist
  | .cond _ clauses none => exact .cons_cons _ (Clause.allBodies_sublist clauses)
  | .cond _ clauses (some otherwise) =>
      rw [Value.values, List.map_cons, List.map_append]
      exact .cons_cons _ ((Clause.allBodies_sublist clauses).append
        (sublist_of_cons_sublist otherwise.bodies_sublist))
  | .lambda _ params body => exact .cons_cons _ (sublist_of_cons_sublist body.bodies_sublist)
  | .locals _ definitions body =>
      rw [Value.values, List.map_cons, List.map_append]
      exact .cons_cons _ ((Definition.allBodies_sublist definitions).append
        (sublist_of_cons_sublist body.bodies_sublist))
  | .lets _ _ bindings body =>
      rw [Value.values, List.map_cons, List.map_append]
      exact .cons_cons _ ((LetBinding.allBodies_sublist bindings).append
        (sublist_of_cons_sublist body.bodies_sublist))
  | .call _ callee args =>
      rw [Value.values, List.map_cons, List.map_append]
      exact .cons_cons _ ((sublist_of_cons_sublist callee.bodies_sublist).append
        (Value.allBodies_sublist args))
termination_by structural value

theorem Value.allBodies_sublist (values : List Value) :
    (Value.allBodies values).Sublist ((Value.allValues values).map Value.range) := by
  match values with
  | [] => exact .slnil
  | value :: values =>
      rw [Value.allValues, List.map_append]
      exact (sublist_of_cons_sublist value.bodies_sublist).append
        (Value.allBodies_sublist values)
termination_by structural values

theorem Clause.bodies_sublist (clause : Clause) :
    clause.bodies.Sublist (clause.values.map Value.range) := by
  match clause with
  | .mk _ condition body =>
      rw [Clause.values, List.map_append]
      exact (sublist_of_cons_sublist condition.bodies_sublist).append
        (sublist_of_cons_sublist body.bodies_sublist)
termination_by structural clause

theorem Clause.allBodies_sublist (clauses : List Clause) :
    (Clause.allBodies clauses).Sublist ((Clause.allValues clauses).map Value.range) := by
  match clauses with
  | [] => exact .slnil
  | clause :: clauses =>
      rw [Clause.allValues, List.map_append]
      exact clause.bodies_sublist.append (Clause.allBodies_sublist clauses)
termination_by structural clauses

theorem LetBinding.bodies_sublist (binding : LetBinding) :
    binding.bodies.Sublist (binding.values.map Value.range) := by
  match binding with
  | .mk _ _ value => exact sublist_of_cons_sublist value.bodies_sublist
termination_by structural binding

theorem LetBinding.allBodies_sublist (bindings : List LetBinding) :
    (LetBinding.allBodies bindings).Sublist ((LetBinding.allValues bindings).map Value.range) := by
  match bindings with
  | [] => exact .slnil
  | binding :: bindings =>
      rw [LetBinding.allValues, List.map_append]
      exact binding.bodies_sublist.append (LetBinding.allBodies_sublist bindings)
termination_by structural bindings

theorem Definition.bodies_sublist (definition : Definition) :
    definition.bodies.Sublist (definition.values.map Value.range) := by
  match definition with
  | .function _ _ _ params body => exact body.bodies_sublist
  | .constant _ _ _ value => exact sublist_of_cons_sublist value.bodies_sublist
termination_by structural definition

theorem Definition.allBodies_sublist (definitions : List Definition) :
    (Definition.allBodies definitions).Sublist
      ((Definition.allValues definitions).map Value.range) := by
  match definitions with
  | [] => exact .slnil
  | definition :: definitions =>
      rw [Definition.allValues, List.map_append]
      exact definition.bodies_sublist.append (Definition.allBodies_sublist definitions)
termination_by structural definitions

end

theorem TopLevel.bodies_sublist (form : TopLevel) :
    form.bodies.Sublist (form.values.map Value.range) := by
  cases form with
  | definition form => exact form.bodies_sublist
  | struct form => exact .slnil
  | value form => exact sublist_of_cons_sublist form.bodies_sublist

theorem Program.bodies_sublist (program : Program) :
    (bodies program).Sublist ((Program.values program).map Value.range) := by
  induction program with
  | nil => exact .slnil
  | cons form program ih =>
      rw [Program.values, List.flatMap_cons, List.map_append]
      exact form.bodies_sublist.append ih

end

/-- No two functions of a program that has been read have their bodies at the same place. -/
theorem Program.nodup_bodies {source : String} {program : Program}
    (h : programOfSource source = .ok program) : (bodies program).Nodup := by
  refine program.bodies_sublist.nodup (List.Nodup.of_map Range.start ?_)
  rw [List.map_map]
  exact nodup_starts h

/-! ## Replacing a definition -/

section

variable {Q : List String → Definition → Definition → Prop} {body : Range}

/-- A value that only differs in a definition stands where the first one does. -/
theorem Value.Within.range_eq {bound : List String} {value other : Value}
    (h : Value.Within (fun _ _ _ => False) Q bound value other) : other.range = value.range := by
  cases h with
  | part hpart => exact hpart.elim
  | _ => rfl

mutual

/-- If a definition is replaced by one with all its bodies but one, there is one body less. -/
theorem Value.Within.bodies_perm
    (hQ : ∀ bound definition other, Q bound definition other →
      definition.bodies.Perm (body :: other.bodies)) {bound : List String} {value other : Value}
    (h : Value.Within (fun _ _ _ => False) Q bound value other) :
    value.bodies.Perm (body :: other.bodies) := by
  rw [List.perm_iff_count]
  intro range
  match h with
  | .part hpart => exact hpart.elim
  | .condition hwithin | .thenArm hwithin | .elseArm hwithin | .otherwise hwithin
  | .localBody hwithin | .letBody hwithin | .callee hwithin =>
      have hcount := (hwithin.bodies_perm hQ).count_eq range
      simp only [Value.bodies, List.count_append, List.count_cons] at hcount ⊢
      omega
  | .clauseCondition hwithin | .clauseBody hwithin =>
      have hcount := (hwithin.bodies_perm hQ).count_eq range
      simp only [Value.bodies_cond, Clause.allBodies_eq, Clause.bodies, List.flatMap_append,
        List.flatMap_cons, List.count_append, List.count_cons] at hcount ⊢
      omega
  | .lambda hwithin => exact (hwithin.bodies_perm hQ).count_eq range
  | .localDefinition hwithin =>
      have hcount := (hwithin.bodies_perm hQ).count_eq range
      simp only [Value.bodies, Definition.allBodies_eq, List.flatMap_append, List.flatMap_cons,
        List.count_append, List.count_cons] at hcount ⊢
      omega
  | .letBinding hwithin =>
      have hcount := (hwithin.bodies_perm hQ).count_eq range
      simp only [Value.bodies, LetBinding.allBodies_eq, LetBinding.bodies, List.flatMap_append,
        List.flatMap_cons, List.count_append, List.count_cons] at hcount ⊢
      omega
  | .arg hwithin =>
      have hcount := (hwithin.bodies_perm hQ).count_eq range
      simp only [Value.bodies, Value.allBodies_eq, List.flatMap_append, List.flatMap_cons,
        List.count_append, List.count_cons] at hcount ⊢
      omega

theorem Definition.Within.bodies_perm
    (hQ : ∀ bound definition other, Q bound definition other →
      definition.bodies.Perm (body :: other.bodies)) {bound : List String}
    {definition other : Definition}
    (h : Definition.Within (fun _ _ _ => False) Q bound definition other) :
    definition.bodies.Perm (body :: other.bodies) := by
  match h with
  | .part hpart => exact hQ _ _ _ hpart
  | .body hwithin =>
      rw [Definition.bodies, Definition.bodies, hwithin.range_eq]
      exact ((hwithin.bodies_perm hQ).cons _).trans (.swap _ _ _)
  | .value hwithin => exact hwithin.bodies_perm hQ

end

theorem Program.Within.bodies_perm
    (hQ : ∀ bound definition other, Q bound definition other →
      definition.bodies.Perm (body :: other.bodies)) {bound : List String}
    {program other : Program}
    (h : Program.Within (fun _ _ _ => False) Q bound program other) :
    (bodies program).Perm (body :: bodies other) := by
  obtain @⟨before, after, form, other, hform⟩ := h
  have hperm : form.bodies.Perm (body :: other.bodies) := by
    cases hform with
    | definition hwithin => exact hwithin.bodies_perm hQ
    | value hwithin => exact hwithin.bodies_perm hQ
  rw [List.perm_iff_count]
  intro range
  have hcount := hperm.count_eq range
  simp only [bodies, List.flatMap_append, List.flatMap_cons, List.count_append, List.count_cons]
    at hcount ⊢
  omega

end

end TypedIsl

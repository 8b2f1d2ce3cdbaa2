import TypedIsl.Proofs.Syntax.Renaming
import TypedIsl.Proofs.Syntax.Values

/-!
# Which names are bound

A name is bound where a form around it binds it, or in the root scope. Definitions bind their names
in all of the form that they stand in, and so do parameters in the body. The name of a binding is
bound in the bindings that follow and in the body.
-/

namespace TypedIsl

mutual

/-- The occurrences of names in the value that are not bound, if the given names are bound around
it. -/
def Value.unbound (bound : List String) : Value → List Ident
  | .literal _ _ => []
  | .name ident => if ident.name ∈ bound then [] else [ident]
  | .branch _ condition thenArm elseArm =>
      condition.unbound bound ++ thenArm.unbound bound ++ elseArm.unbound bound
  | .cond _ clauses none => Clause.allUnbound bound clauses
  | .cond _ clauses (some otherwise) =>
      Clause.allUnbound bound clauses ++ otherwise.unbound bound
  | .lambda _ params body => body.unbound (params.bound ++ bound)
  | .locals _ definitions body =>
      let inner := Definition.bound definitions ++ bound
      Definition.allUnbound inner definitions ++ body.unbound inner
  | .lets _ _ bindings body =>
      LetBinding.allUnbound bound bindings ++ body.unbound (LetBinding.bound bindings ++ bound)
  | .require _ _ => []
  | .call _ callee args => callee.unbound bound ++ Value.allUnbound bound args

def Value.allUnbound (bound : List String) : List Value → List Ident
  | [] => []
  | value :: values => value.unbound bound ++ Value.allUnbound bound values

def Clause.unbound (bound : List String) : Clause → List Ident
  | .mk _ condition body => condition.unbound bound ++ body.unbound bound

def Clause.allUnbound (bound : List String) : List Clause → List Ident
  | [] => []
  | clause :: clauses => clause.unbound bound ++ Clause.allUnbound bound clauses

def LetBinding.unbound (bound : List String) : LetBinding → List Ident
  | .mk _ _ value => value.unbound bound

def LetBinding.allUnbound (bound : List String) : List LetBinding → List Ident
  | [] => []
  | binding :: bindings =>
      binding.unbound bound ++ LetBinding.allUnbound (binding.name.name :: bound) bindings

def Definition.unbound (bound : List String) : Definition → List Ident
  | .function _ _ _ params body => body.unbound (params.bound ++ bound)
  | .constant _ _ _ value => value.unbound bound

def Definition.allUnbound (bound : List String) : List Definition → List Ident
  | [] => []
  | definition :: definitions =>
      definition.unbound bound ++ Definition.allUnbound bound definitions

end

def TopLevel.unbound (bound : List String) : TopLevel → List Ident
  | definition form => form.unbound bound
  | struct _ => []
  | value form => form.unbound bound

theorem Value.allUnbound_eq (bound : List String) (values : List Value) :
    Value.allUnbound bound values = values.flatMap (Value.unbound bound) :=
  eq_flatMap_of_cons rfl (fun _ _ => rfl) values

theorem Clause.allUnbound_eq (bound : List String) (clauses : List Clause) :
    Clause.allUnbound bound clauses = clauses.flatMap (Clause.unbound bound) :=
  eq_flatMap_of_cons rfl (fun _ _ => rfl) clauses

/-! ## Among the values -/

mutual

theorem Value.unbound_sublist (bound : List String) (value : Value) :
    ((value.unbound bound).map Value.name).Sublist value.values := by
  match value with
  | .literal _ _ => exact List.nil_sublist _
  | .name ident =>
      rw [Value.unbound]
      split
      · exact List.nil_sublist _
      · exact List.Sublist.refl _
  | .branch _ condition thenArm elseArm =>
      rw [Value.unbound, List.map_append, List.map_append]
      exact .cons _ (((condition.unbound_sublist bound).append
        (thenArm.unbound_sublist bound)).append (elseArm.unbound_sublist bound))
  | .cond _ clauses none => exact .cons _ (Clause.allUnbound_sublist bound clauses)
  | .cond _ clauses (some otherwise) =>
      rw [Value.unbound, List.map_append]
      exact .cons _ ((Clause.allUnbound_sublist bound clauses).append
        (otherwise.unbound_sublist bound))
  | .lambda _ params body => exact .cons _ (body.unbound_sublist _)
  | .locals _ definitions body =>
      rw [Value.unbound, List.map_append]
      exact .cons _ ((Definition.allUnbound_sublist _ definitions).append (body.unbound_sublist _))
  | .lets _ _ bindings body =>
      rw [Value.unbound, List.map_append]
      exact .cons _ ((LetBinding.allUnbound_sublist bound bindings).append (body.unbound_sublist _))
  | .require _ _ => exact List.nil_sublist _
  | .call _ callee args =>
      rw [Value.unbound, List.map_append]
      exact .cons _ ((callee.unbound_sublist bound).append (Value.allUnbound_sublist bound args))
termination_by structural value

theorem Value.allUnbound_sublist (bound : List String) (values : List Value) :
    ((Value.allUnbound bound values).map Value.name).Sublist (Value.allValues values) := by
  match values with
  | [] => exact .slnil
  | value :: values =>
      rw [Value.allUnbound, List.map_append]
      exact (value.unbound_sublist bound).append (Value.allUnbound_sublist bound values)
termination_by structural values

theorem Clause.unbound_sublist (bound : List String) (clause : Clause) :
    ((clause.unbound bound).map Value.name).Sublist clause.values := by
  match clause with
  | .mk _ condition body =>
      rw [Clause.unbound, List.map_append]
      exact (condition.unbound_sublist bound).append (body.unbound_sublist bound)
termination_by structural clause

theorem Clause.allUnbound_sublist (bound : List String) (clauses : List Clause) :
    ((Clause.allUnbound bound clauses).map Value.name).Sublist (Clause.allValues clauses) := by
  match clauses with
  | [] => exact .slnil
  | clause :: clauses =>
      rw [Clause.allUnbound, List.map_append]
      exact (clause.unbound_sublist bound).append (Clause.allUnbound_sublist bound clauses)
termination_by structural clauses

theorem LetBinding.unbound_sublist (bound : List String) (binding : LetBinding) :
    ((binding.unbound bound).map Value.name).Sublist binding.values := by
  match binding with
  | .mk _ _ value => exact value.unbound_sublist bound
termination_by structural binding

theorem LetBinding.allUnbound_sublist (bound : List String) (bindings : List LetBinding) :
    ((LetBinding.allUnbound bound bindings).map Value.name).Sublist
      (LetBinding.allValues bindings) := by
  match bindings with
  | [] => exact .slnil
  | binding :: bindings =>
      rw [LetBinding.allUnbound, List.map_append]
      exact (binding.unbound_sublist bound).append (LetBinding.allUnbound_sublist _ bindings)
termination_by structural bindings

theorem Definition.unbound_sublist (bound : List String) (definition : Definition) :
    ((definition.unbound bound).map Value.name).Sublist definition.values := by
  match definition with
  | .function _ _ _ params body => exact body.unbound_sublist _
  | .constant _ _ _ value => exact value.unbound_sublist bound
termination_by structural definition

theorem Definition.allUnbound_sublist (bound : List String) (definitions : List Definition) :
    ((Definition.allUnbound bound definitions).map Value.name).Sublist
      (Definition.allValues definitions) := by
  match definitions with
  | [] => exact .slnil
  | definition :: definitions =>
      rw [Definition.allUnbound, List.map_append]
      exact (definition.unbound_sublist bound).append
        (Definition.allUnbound_sublist bound definitions)
termination_by structural definitions

end

theorem TopLevel.unbound_sublist (bound : List String) (form : TopLevel) :
    ((form.unbound bound).map Value.name).Sublist form.values := by
  cases form with
  | definition form => exact form.unbound_sublist bound
  | struct form => exact .slnil
  | value form => exact form.unbound_sublist bound

theorem Program.unbound_sublist (bound : List String) (program : Program) :
    ((program.flatMap (TopLevel.unbound bound)).map Value.name).Sublist
      (Program.values program) := by
  induction program with
  | nil => exact .slnil
  | cons form program ih =>
      rw [List.flatMap_cons, List.map_append]
      exact (form.unbound_sublist bound).append ih

end TypedIsl

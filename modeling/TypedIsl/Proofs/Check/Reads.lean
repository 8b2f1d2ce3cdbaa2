import TypedIsl.Proofs.Syntax.Renaming

/-!
# The names that a check looks up

Checking a value looks names up in the scopes around it. Most of them occur free in the value. The
others come from `local` forms: while a form registers its constants, the definitions that follow
are not bound yet, so that one of their names is looked up further out.
-/

namespace TypedIsl

/-- The list without the given names. -/
def without (names list : List String) : List String :=
  list.filter (· ∉ names)

@[simp] theorem mem_without {names list : List String} {name : String} :
    name ∈ without names list ↔ name ∈ list ∧ name ∉ names := by
  simp [without]

/-- Binding a name makes up for its absence from those that are looked up further out. -/
theorem without_subset_cons (name : String) (bound names : List String) :
    without bound names ⊆ name :: without (name :: bound) names := by
  intro other hother
  obtain ⟨hmem, hnot⟩ := mem_without.mp hother
  by_cases heq : other = name
  · exact heq ▸ List.mem_cons_self
  · exact List.mem_cons_of_mem _ (mem_without.mpr ⟨hmem, by simp [heq, hnot]⟩)

mutual

/-- The names that checking the value looks up around it. -/
def Value.reads : Value → List String
  | .literal _ _ => []
  | .name ident => [ident.name]
  | .branch _ condition thenArm elseArm => condition.reads ++ thenArm.reads ++ elseArm.reads
  | .cond _ clauses none => Clause.allReads clauses
  | .cond _ clauses (some value) => Clause.allReads clauses ++ value.reads
  | .lambda _ params body => without params.bound body.reads
  | .locals _ definitions body =>
      Definition.allEarlyReads definitions ++
        without (Definition.bound definitions) (Definition.allReads definitions ++ body.reads)
  | .lets _ _ bindings body =>
      LetBinding.allReads bindings ++ without (LetBinding.bound bindings) body.reads
  | .require _ _ => []
  | .call _ callee args => callee.reads ++ Value.allReads args

def Value.allReads : List Value → List String
  | [] => []
  | value :: values => value.reads ++ Value.allReads values

def Clause.reads : Clause → List String
  | .mk _ condition body => condition.reads ++ body.reads

def Clause.allReads : List Clause → List String
  | [] => []
  | clause :: clauses => clause.reads ++ Clause.allReads clauses

def LetBinding.allReads : List LetBinding → List String
  | [] => []
  | .mk _ name value :: bindings =>
      value.reads ++ without [name.name] (LetBinding.allReads bindings)

/-- The names that checking the definition looks up around it. -/
def Definition.reads : Definition → List String
  | .function _ _ _ params body => without params.bound body.reads
  | .constant _ _ _ value => value.reads

def Definition.allReads : List Definition → List String
  | [] => []
  | definition :: definitions => definition.reads ++ Definition.allReads definitions

/-- The names that registering the definition looks up around it. -/
def Definition.earlyReads : Definition → List String
  | .function _ _ _ _ _ => []
  | .constant _ _ _ value => value.reads

/-- The names that registering the definitions, one after the other, looks up around them. -/
def Definition.allEarlyReads : List Definition → List String
  | [] => []
  | definition :: definitions =>
      definition.earlyReads ++
        without [definition.name.name] (Definition.allEarlyReads definitions)

end

mutual

/-- The names that a `local` form in the value looks up around it, and around the value, although
the form itself binds them: when a constant is registered that mentions them, their definitions are
still to come. -/
def Value.strays : Value → List String
  | .literal _ _ => []
  | .name _ => []
  | .branch _ condition thenArm elseArm => condition.strays ++ thenArm.strays ++ elseArm.strays
  | .cond _ clauses none => Clause.allStrays clauses
  | .cond _ clauses (some value) => Clause.allStrays clauses ++ value.strays
  | .lambda _ params body => without params.bound body.strays
  | .locals _ definitions body =>
      (Definition.allEarlyReads definitions).filter (· ∈ Definition.bound definitions) ++
        without (Definition.bound definitions) (Definition.allStrays definitions ++ body.strays)
  | .lets _ _ bindings body =>
      LetBinding.allStrays bindings ++ without (LetBinding.bound bindings) body.strays
  | .require _ _ => []
  | .call _ callee args => callee.strays ++ Value.allStrays args

def Value.allStrays : List Value → List String
  | [] => []
  | value :: values => value.strays ++ Value.allStrays values

def Clause.strays : Clause → List String
  | .mk _ condition body => condition.strays ++ body.strays

def Clause.allStrays : List Clause → List String
  | [] => []
  | clause :: clauses => clause.strays ++ Clause.allStrays clauses

def LetBinding.allStrays : List LetBinding → List String
  | [] => []
  | .mk _ name value :: bindings =>
      value.strays ++ without [name.name] (LetBinding.allStrays bindings)

def Definition.strays : Definition → List String
  | .function _ _ _ params body => without params.bound body.strays
  | .constant _ _ _ value => value.strays

def Definition.allStrays : List Definition → List String
  | [] => []
  | definition :: definitions => definition.strays ++ Definition.allStrays definitions

end

end TypedIsl

import TypedIsl.Check.Judged
import TypedIsl.Scopes
import TypedIsl.Syntax.Basic

/-! # Names that are bound and used -/

namespace TypedIsl

namespace Scopes

/-- Binds a name in the current scope. -/
def bind (scopes : Scopes) (name : Ident) (type : Ty) : Scopes :=
  scopes.set name.name ⟨type, some name.range⟩

/-- The diagnostic for a name that is bound in the current scope already. It points to the first
binding, unless that is a builtin. -/
def conflict? (scopes : Scopes) (name : Ident) (problem : Problem) : Option Diagnostic :=
  (scopes.local? name.name).map fun binding =>
    ⟨problem, name.range, binding.definedAt?.toList.map fun range => ⟨"first defined here", range⟩⟩

/-- Binds a name that is free in the current scope, and otherwise reports the problem. -/
def bindNew (scopes : Scopes) (name : Ident) (type : Ty) (problem : Problem) : Judged Scopes :=
  match scopes.conflict? name problem with
  | some d => do
      Judged.report d
      return scopes
  | none => pure (scopes.bind name type)

/-- Binds a parameter. -/
def bindParam (scopes : Scopes) (name : Ident) (type : Ty) : Judged Scopes :=
  scopes.bindNew name type (.alreadyDefinedLocally name.name)

/-- Binds parameters, one after the other. -/
def bindParams (scopes : Scopes) : List (Ident × Ty) → Judged Scopes
  | [] => pure scopes
  | (name, type) :: params => do
      let scopes ← scopes.bindParam name type
      scopes.bindParams params

/-- Gives a definition its final type, unless another definition has bound the name. -/
def finalize (scopes : Scopes) (name : Ident) (type : Ty) : Scopes :=
  if (scopes.local? name.name).any fun binding => binding.definedAt? = some name.range then
    scopes.bind name type
  else scopes

/-- The type of an occurrence of a name. -/
def use (scopes : Scopes) (name : Ident) : Judged Ty :=
  match scopes.get? name.name with
  | some binding => pure binding.type
  | none => do
      Judged.report ⟨.undefined name.name, name.range, []⟩
      return .flexible

end Scopes

end TypedIsl

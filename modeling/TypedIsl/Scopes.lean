import TypedIsl.Source.Range
import TypedIsl.Table
import TypedIsl.Ty.Basic

/-! # Lexical scopes -/

namespace TypedIsl

/-- The type of a name, and where the name was bound in the source. Builtins are bound
nowhere. -/
structure Binding where
  type : Ty
  definedAt? : Option Range
deriving DecidableEq

abbrev Scope := Table Binding

/-- The current scope and the scopes around it, from the inside out. -/
structure Scopes where
  current : Scope
  outer : List Scope

inductive ScopeError where
  | rootScope
deriving DecidableEq

def ScopeError.message : ScopeError → String
  | rootScope => "can't pop the root scope"

namespace Scopes

/-- A single scope, the root. -/
def root (scope : Scope) : Scopes := ⟨scope, []⟩

def enter (scopes : Scopes) : Scopes :=
  ⟨.empty, scopes.current :: scopes.outer⟩

/-- Discards the current scope. The root scope is never discarded. -/
def leave (scopes : Scopes) : Except ScopeError Scopes :=
  match scopes.outer with
  | scope :: outer => .ok ⟨scope, outer⟩
  | [] => .error .rootScope

/-- The number of scopes. -/
def depth (scopes : Scopes) : Nat :=
  scopes.outer.length + 1

/-- Binds or rebinds a name in the current scope. -/
def set (scopes : Scopes) (name : String) (binding : Binding) : Scopes :=
  ⟨scopes.current.put name binding, scopes.outer⟩

/-- Looks a name up in the current scope. -/
def local? (scopes : Scopes) (name : String) : Option Binding :=
  scopes.current.get? name

/-- Looks a name up from the current scope outwards. -/
def get? (scopes : Scopes) (name : String) : Option Binding :=
  (scopes.current :: scopes.outer).findSome? (·.get? name)

theorem leave_enter (scopes : Scopes) : scopes.enter.leave = .ok scopes := rfl

end Scopes

end TypedIsl

import TypedIsl.Check.Value
import TypedIsl.NameTable

/-!
# A checker that changes its state

The same check, carried out by steps that read and change one state: scopes are entered and left
again, bindings are put into the current scope, diagnostics are added at the end of a list, and
that list is set aside while a constant is registered. Such a step may fail. The root scope cannot
be left, and only names of the name table can be read.
-/

namespace TypedIsl

/-- Why a step fails. -/
inductive CheckerFault where
  | scope (error : ScopeError)
  | unknownName (name : String)

/-- What a checker knows. The struct table gives the fields of each struct, and `globals` are the
names that have been bound in the root scope. -/
structure Checker where
  names : NameTable
  scopes : Scopes
  structs : Table (List (String × Ty))
  globals : List String
  diagnostics : List Diagnostic

/-- A step of a checker, with a result. -/
abbrev Checking := StateT Checker (Except CheckerFault)

namespace Checking

/-! ## Single steps -/

/-- The text of a name. -/
def spell (ident : Ident) : Checking String := do
  match (← get).names.lookup? ident.name with
  | some _ => return ident.name
  | none => throw (.unknownName ident.name)

/-- Adds the diagnostics of a judgement and takes its result. -/
def adopt {α : Type} (judged : Judged α) : Checking α := do
  modify fun s => { s with diagnostics := s.diagnostics ++ judged.diagnostics }
  return judged.result

/-- Whether a name is free in the current scope. Otherwise the problem is reported. -/
def ensureFree (name : Ident) (problem : Problem) : Checking Bool := do
  match (← get).scopes.conflict? name problem with
  | none => return true
  | some d => do
      adopt (Judged.report d)
      return false

/-- Binds a name in the current scope. -/
def bind (name : Ident) (type : Ty) : Checking Unit :=
  modify fun s =>
    { s with
      scopes := s.scopes.bind name type
      globals := if s.scopes.depth = 1 then s.globals ++ [name.name] else s.globals }

def bindNew (name : Ident) (type : Ty) (problem : Problem) : Checking Unit := do
  if ← ensureFree name problem then bind name type

/-- Binds parameters, one after the other. -/
def bindParams : List (Ident × Ty) → Checking Unit
  | [] => return ()
  | (name, type) :: params => do
      bindNew name type (.alreadyDefinedLocally name.name)
      bindParams params

/-- Gives a definition its final type, unless another definition has bound the name. -/
def finalize (name : Ident) (type : Ty) : Checking Unit :=
  modify fun s => { s with scopes := s.scopes.finalize name type }

/-- The type of an occurrence of a name. -/
def use (name : Ident) : Checking Ty := do
  adopt ((← get).scopes.use name)

/-- Runs steps in a new scope, which is left afterwards. -/
def inScope {α : Type} (steps : Checking α) : Checking α := do
  modify fun s => { s with scopes := s.scopes.enter }
  let a ← steps
  match (← get).scopes.leave with
  | .ok scopes => do
      modify fun s => { s with scopes }
      return a
  | .error e => throw (.scope e)

/-- Runs steps without reporting what they find. -/
def silenced {α : Type} (steps : Checking α) : Checking α := do
  let saved := (← get).diagnostics
  modify fun s => { s with diagnostics := [] }
  let a ← steps
  modify fun s => { s with diagnostics := saved }
  return a

/-! ## Annotations -/

/-- The type that an annotation stands for. -/
def resolve : TypeExpr → Checking Ty
  | .named name => do
      let text ← spell name
      match namedType? (← get).structs.names text with
      | some type => return type
      | none => adopt (unknownType name)
  | .apply _ function args => do
      let text ← spell function
      if text = "Any" then return .any
      else if text = "List-of" then
        match args with
        | [] => return .list .any
        | arg :: _ => do return .list (← resolve arg)
      else adopt (unknownType function)

def resolveParams : List TypedParam → Checking (List Ty)
  | [] => return []
  | param :: params => do
      let type ← resolve param.type
      let types ← resolveParams params
      return type :: types

/-- Resolves and binds typed parameters, one after the other. -/
def bindTypedParams : List TypedParam → Checking (List Ty)
  | [] => return []
  | param :: params => do
      let type ← resolve param.type
      bindNew param.name type (.alreadyDefinedLocally param.name.name)
      let types ← bindTypedParams params
      return type :: types

/-- The type of a function with these parameters, as far as it is declared. -/
def declare : Params → Checking Ty
  | .typed _ params result? => silenced do
      let types ← resolveParams params
      let result ← match result? with
        | some declared => resolve declared
        | none => pure .any
      return .function (types.map .fixed) result
  | .untyped _ names => return .function (names.map fun _ => .fixed .any) .any

/-! ## Values and definitions -/

mutual

def checkValue : Value → Checking Ty
  | .literal _ value => return value.type
  | .name ident => use ident
  | .branch _ condition thenArm elseArm => do
      let type ← checkValue condition
      adopt (judgeCondition "if" condition.range type)
      let thenType ← checkValue thenArm
      let elseType ← checkValue elseArm
      return .unionOf [thenType, elseType]
  | .cond _ clauses otherwise? => do
      let types ← checkClauses clauses
      match otherwise? with
      | some value => do
          let type ← checkValue value
          return .unionOf (types ++ [type])
      | none => return .unionOf types
  | .lambda _ (.typed _ params result?) body => inScope do
      let types ← bindTypedParams params
      let type ← checkValue body
      let actual := type.collapse
      match result? with
      | some declared => do
          let expected ← resolve declared
          adopt (judgeResult none body.range declared.range expected actual)
          return .function (types.map .fixed) expected
      | none => return .function (types.map .fixed) actual
  | .lambda _ (.untyped _ names) body => inScope do
      bindParams (names.map fun name => (name, .flexible))
      let type ← checkValue body
      return .function (names.map fun _ => .fixed .any) type.collapse
  | .locals _ definitions body => inScope do
      registerDefinitions definitions
      checkDefinitions definitions
      checkValue body
  | .lets _ _ bindings body => inScope do
      checkBindings bindings
      checkValue body
  | .require _ _ => return .any
  | .call range callee args => do
      let calleeType ← checkValue callee
      match calleeType with
      | .flexible => return .flexible
      | .function params result => do
          let types ← checkValues args
          adopt (judgeCall range callee.asCallee params result ((args.map Value.range).zip types))
      | other => do
          adopt (Judged.report ⟨.notCallable callee.asCallee other.tag, callee.range, []⟩)
          return .flexible

def checkValues : List Value → Checking (List Ty)
  | [] => return []
  | value :: values => do
      let type ← checkValue value
      let types ← checkValues values
      return type :: types

def checkClause : Clause → Checking Ty
  | .mk _ condition body => do
      let type ← checkValue condition
      adopt (judgeCondition "cond" condition.range type)
      checkValue body

def checkClauses : List Clause → Checking (List Ty)
  | [] => return []
  | clause :: clauses => do
      let type ← checkClause clause
      let types ← checkClauses clauses
      return type :: types

def checkBinding : LetBinding → Checking Unit
  | .mk _ name value => do
      if ← ensureFree name (.alreadyDefinedLocally name.name) then
        let type ← checkValue value
        bind name type

def checkBindings : List LetBinding → Checking Unit
  | [] => return ()
  | binding :: bindings => do
      checkBinding binding
      checkBindings bindings

/-- Binds the name of a definition before any body is checked. -/
def registerDefinition : Definition → Checking Unit
  | .function _ _ name params _ => do
      if ← ensureFree name (.alreadyDefined name.name) then
        let type ← declare params
        let _ ← spell name
        bind name type
  | .constant _ _ name value => do
      if ← ensureFree name (.alreadyDefined name.name) then
        let type ← silenced (checkValue value)
        let _ ← spell name
        bind name type

def registerDefinitions : List Definition → Checking Unit
  | [] => return ()
  | definition :: definitions => do
      registerDefinition definition
      registerDefinitions definitions

def checkDefinition : Definition → Checking Unit
  | .function _ _ name (.typed _ params (some declared)) body => do
      let types ← resolveParams params
      let expected ← resolve declared
      let type ← inScope do
        bindParams ((params.map (·.name)).zip types)
        checkValue body
      adopt (judgeResult (some name.name) body.range declared.range expected type.collapse)
      finalize name (.function (types.map .fixed) expected)
  | .function _ _ name (.typed _ params none) body => do
      let types ← resolveParams params
      let _ ← inScope do
        bindParams ((params.map (·.name)).zip types)
        checkValue body
      adopt (Judged.report ⟨.notTypeChecked name.name, name.range, []⟩)
  | .function _ _ name (.untyped _ names) body => do
      adopt (Judged.report ⟨.notTypeChecked name.name, name.range, []⟩)
      let _ ← inScope do
        bindParams (names.map fun name => (name, .flexible))
        checkValue body
  | .constant _ _ name value => do
      let type ← checkValue value
      finalize name type

def checkDefinitions : List Definition → Checking Unit
  | [] => return ()
  | definition :: definitions => do
      checkDefinition definition
      checkDefinitions definitions

end

end Checking

end TypedIsl

import TypedIsl.Check.Annotation
import TypedIsl.Check.Binding
import TypedIsl.Check.Call

/-!
# Types of values and definitions

Values are checked in the scopes around them. Definitions of one scope are registered with their
declared types first, so that they can refer to each other, and then checked one after the other,
each one replacing its declared type by the final one.
-/

namespace TypedIsl

/-- Resolves and binds typed parameters, one after the other. -/
def bindTypedParams (structs : List String) (scopes : Scopes) :
    List TypedParam → Judged (Scopes × List Ty)
  | [] => pure (scopes, [])
  | param :: params => do
      let type ← param.type.resolve structs
      let scopes ← scopes.bindParam param.name type
      let (scopes, types) ← bindTypedParams structs scopes params
      return (scopes, type :: types)

mutual

/-- The type of a value. The arguments of a call are left unchecked if the callee is no function. -/
def Value.check (structs : List String) (scopes : Scopes) : Value → Judged Ty
  | .literal _ value => pure value.type
  | .name ident => scopes.use ident
  | .branch _ condition thenArm elseArm => do
      let type ← condition.check structs scopes
      judgeCondition "if" condition.range type
      let thenType ← thenArm.check structs scopes
      let elseType ← elseArm.check structs scopes
      return .unionOf [thenType, elseType]
  | .cond _ clauses otherwise? => do
      let types ← Clause.checkAll structs scopes clauses
      match otherwise? with
      | some value => do
          let type ← value.check structs scopes
          return .unionOf (types ++ [type])
      | none => return .unionOf types
  | .lambda _ (.typed _ params result?) body => do
      let (inner, types) ← bindTypedParams structs scopes.enter params
      let type ← body.check structs inner
      let actual := type.collapse
      match result? with
      | some declared => do
          let expected ← declared.resolve structs
          judgeResult none body.range declared.range expected actual
          return .function (types.map .fixed) expected
      | none => return .function (types.map .fixed) actual
  | .lambda _ (.untyped _ names) body => do
      let inner ← scopes.enter.bindParams (names.map fun name => (name, .flexible))
      let type ← body.check structs inner
      return .function (names.map fun _ => .fixed .any) type.collapse
  | .locals _ definitions body => do
      let inner ← Definition.registerAll structs scopes.enter definitions
      let inner ← Definition.checkAll structs inner definitions
      body.check structs inner
  | .lets _ _ bindings body => do
      let inner ← LetBinding.checkAll structs scopes.enter bindings
      body.check structs inner
  | .require _ _ => pure .any
  | .call range callee args => do
      let calleeType ← callee.check structs scopes
      match calleeType with
      | .flexible => return .flexible
      | .function params result => do
          let types ← Value.checkAll structs scopes args
          judgeCall range callee.asCallee params result ((args.map Value.range).zip types)
      | other => do
          Judged.report ⟨.notCallable callee.asCallee other.tag, callee.range, []⟩
          return .flexible

def Value.checkAll (structs : List String) (scopes : Scopes) : List Value → Judged (List Ty)
  | [] => pure []
  | value :: values => do
      let type ← value.check structs scopes
      let types ← Value.checkAll structs scopes values
      return type :: types

/-- The type of the body of a clause. -/
def Clause.check (structs : List String) (scopes : Scopes) : Clause → Judged Ty
  | .mk _ condition body => do
      let type ← condition.check structs scopes
      judgeCondition "cond" condition.range type
      body.check structs scopes

def Clause.checkAll (structs : List String) (scopes : Scopes) : List Clause → Judged (List Ty)
  | [] => pure []
  | clause :: clauses => do
      let type ← clause.check structs scopes
      let types ← Clause.checkAll structs scopes clauses
      return type :: types

/-- Binds a name to the type of its value. The value of a name that is taken is left unchecked. -/
def LetBinding.check (structs : List String) (scopes : Scopes) : LetBinding → Judged Scopes
  | .mk _ name value =>
      match scopes.conflict? name (.alreadyDefinedLocally name.name) with
      | some d => do
          Judged.report d
          return scopes
      | none => do
          let type ← value.check structs scopes
          return scopes.bind name type

/-- Later bindings see the earlier ones, whatever the form. -/
def LetBinding.checkAll (structs : List String) (scopes : Scopes) :
    List LetBinding → Judged Scopes
  | [] => pure scopes
  | binding :: bindings => do
      let scopes ← binding.check structs scopes
      LetBinding.checkAll structs scopes bindings

/-- Binds the name of a definition to its declared type, or, for a constant, to the type that its
value has so far. What is wrong with the value is reported when the definition is checked. -/
def Definition.register (structs : List String) (scopes : Scopes) : Definition → Judged Scopes
  | .function _ _ name params _ =>
      scopes.bindNew name (params.declaredType structs) (.alreadyDefined name.name)
  | .constant _ _ name value =>
      match scopes.conflict? name (.alreadyDefined name.name) with
      | some d => do
          Judged.report d
          return scopes
      | none => pure (scopes.bind name (value.check structs scopes).result)

def Definition.registerAll (structs : List String) (scopes : Scopes) :
    List Definition → Judged Scopes
  | [] => pure scopes
  | definition :: definitions => do
      let scopes ← definition.register structs scopes
      Definition.registerAll structs scopes definitions

/-- Checks a definition and gives its name the final type. Functions without a declared result are
checked inside but reported, and keep the type that they were registered with. -/
def Definition.check (structs : List String) (scopes : Scopes) : Definition → Judged Scopes
  | .function _ _ name (.typed _ params (some declared)) body => do
      let types ← resolveParams structs params
      let expected ← declared.resolve structs
      let inner ← scopes.enter.bindParams ((params.map (·.name)).zip types)
      let type ← body.check structs inner
      judgeResult (some name.name) body.range declared.range expected type.collapse
      return scopes.finalize name (.function (types.map .fixed) expected)
  | .function _ _ name (.typed _ params none) body => do
      let types ← resolveParams structs params
      let inner ← scopes.enter.bindParams ((params.map (·.name)).zip types)
      let _ ← body.check structs inner
      Judged.report ⟨.notTypeChecked name.name, name.range, []⟩
      return scopes
  | .function _ _ name (.untyped _ names) body => do
      Judged.report ⟨.notTypeChecked name.name, name.range, []⟩
      let inner ← scopes.enter.bindParams (names.map fun name => (name, .flexible))
      let _ ← body.check structs inner
      return scopes
  | .constant _ _ name value => do
      let type ← value.check structs scopes
      return scopes.finalize name type

def Definition.checkAll (structs : List String) (scopes : Scopes) :
    List Definition → Judged Scopes
  | [] => pure scopes
  | definition :: definitions => do
      let scopes ← definition.check structs scopes
      Definition.checkAll structs scopes definitions

end

end TypedIsl

import TypedIsl.Check.Judged
import TypedIsl.Syntax.Basic

/-! # The types that annotations stand for -/

namespace TypedIsl

/-- The type that a bare name stands for. -/
def namedType? (structs : List String) (name : String) : Option Ty :=
  if name = "Number" then some .number
  else if name = "String" then some .string
  else if name = "Boolean" then some .boolean
  else if name = "Symbol" then some .symbol
  else if name ∈ structs then some (.struct name)
  else none

/-- Reports an unknown type name, which is taken for `any`. -/
def unknownType (name : Ident) : Judged Ty := do
  Judged.report ⟨.unknownType name.name, name.range, []⟩
  return .any

/-- The type of an annotation. Only the first argument of `List-of` counts, and none of `Any`. -/
def TypeExpr.resolve (structs : List String) : TypeExpr → Judged Ty
  | .named name =>
      match namedType? structs name.name with
      | some type => pure type
      | none => unknownType name
  | .apply _ function args =>
      if function.name = "Any" then pure .any
      else if function.name = "List-of" then
        match args with
        | [] => pure (.list .any)
        | arg :: _ => do return .list (← arg.resolve structs)
      else unknownType function

/-- The types of typed parameters, in order. -/
def resolveParams (structs : List String) : List TypedParam → Judged (List Ty)
  | [] => pure []
  | param :: params => do
      let type ← param.type.resolve structs
      let types ← resolveParams structs params
      return type :: types

namespace Params

/-- The type of a function with these parameters, as far as it is declared. What is left open is
`any`, and nothing is reported. -/
def declaredType (structs : List String) : Params → Ty
  | typed _ params result? =>
      let result := match result? with
        | some declared => (declared.resolve structs).result
        | none => .any
      .function ((resolveParams structs params).result.map .fixed) result
  | untyped _ names => .function (names.map fun _ => .fixed .any) .any

/-- The types of parameters that are the fields of a struct. -/
def fieldTypes (structs : List String) : Params → Judged (List Ty)
  | typed _ params _ => resolveParams structs params
  | untyped _ names => pure (names.map fun _ => .any)

end Params

end TypedIsl

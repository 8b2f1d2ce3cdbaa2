import TypedIsl.Check.Judged
import TypedIsl.Syntax.Basic

/-! # Conditions, results and arguments -/

namespace TypedIsl

def Literal.type : Literal → Ty
  | integer _ => .number
  | fraction _ _ => .number
  | decimal _ => .number
  | string _ => .string
  | boolean _ => .boolean
  | symbol _ => .symbol

/-- How diagnostics speak of a value that is called. -/
def Value.asCallee : Value → Callee
  | .name ident => .named ident.name
  | _ => .expression

/-- Judges the type of a condition. -/
def judgeCondition (form : String) (range : Range) (type : Ty) : Judged Unit :=
  Judged.ensure (type.canBe .boolean) range (.conditionNotBoolean form type.tag)

/-- Judges the type of a body against the result type that is declared at `declared`. -/
def judgeResult (function? : Option String) (body declared : Range) (expected actual : Ty) :
    Judged Unit :=
  if actual.canBe expected then pure ()
  else Judged.report ⟨.returnMismatch function? expected.tag actual.tag, body,
    [⟨"return type declared here", declared⟩]⟩

/-- The types of the parameters, the first `many` parameter standing for `extra` arguments more. -/
def spread (extra : Nat) : List Param → List Ty
  | [] => []
  | .fixed type :: params => type :: spread extra params
  | .many type :: params => List.replicate (extra + 1) type ++ params.map Param.type

/-- The types that `count` arguments are expected to have. -/
def expectedTypes? (params : List Param) (count : Nat) : Option (List Ty) :=
  let expected := spread (count - params.length) params
  if expected.length = count then some expected else none

/-- Judges arguments, given by their ranges and types, against the types that are expected; the
first one has the given position. -/
def judgeArgs (callee : Callee) (position : Nat) : List (Range × Ty) → List Ty → Judged Unit
  | (range, actual) :: args, expected :: rest => do
      Judged.ensure (actual.canBe expected) range
        (.argumentMismatch callee position expected.tag actual.tag)
      judgeArgs callee (position + 1) args rest
  | _, _ => pure ()

/-- The type of a call of a function. -/
def judgeCall (range : Range) (callee : Callee) (params : List Param) (result : Ty)
    (args : List (Range × Ty)) : Judged Ty :=
  match expectedTypes? params args.length with
  | some expected => do
      judgeArgs callee 1 args expected
      return result
  | none => do
      Judged.report ⟨.arityMismatch callee params.length args.length (params.any Param.isMany),
        range, []⟩
      return .flexible

end TypedIsl

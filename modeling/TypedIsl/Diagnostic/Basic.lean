import TypedIsl.Source.Range
import TypedIsl.Ty.Basic

/-! # Diagnostics -/

namespace TypedIsl

/-- What is called: a name or some other expression. -/
inductive Callee where
  | named (name : String)
  | expression
deriving DecidableEq

def Callee.text : Callee → String
  | named name => name
  | expression => "expression"

/-- What may be wrong with a program. Positions of arguments start at one. -/
inductive Problem where
  | alreadyDefined (name : String)
  | alreadyDefinedLocally (name : String)
  | undefined (name : String)
  | unknownType (name : String)
  | notTypeChecked (name : String)
  | notCallable (callee : Callee) (actual : Tag)
  | arityMismatch (callee : Callee) (expected actual : Nat) (atLeast : Bool)
  | argumentMismatch (callee : Callee) (position : Nat) (expected actual : Tag)
  /-- Of a function, or of a lambda if it has no name. -/
  | returnMismatch (function? : Option String) (expected actual : Tag)
  | conditionNotBoolean (form : String) (actual : Tag)
deriving DecidableEq

def Problem.message : Problem → String
  | alreadyDefined name => s!"identifier {name} already defined"
  | alreadyDefinedLocally name => s!"identifier {name} already defined locally"
  | undefined name => s!"undefined identifier {name}"
  | unknownType name => s!"unknown type {name}"
  | notTypeChecked name => s!"function {name} is not type-checked"
  | notCallable callee actual => s!"{callee.text} is not a function, it is a {actual.text}"
  | arityMismatch callee expected actual atLeast =>
      let bound := if atLeast then "at least " else ""
      s!"{callee.text} expects {bound}{expected} arguments, but received {actual} instead"
  | argumentMismatch callee position expected actual =>
      s!"{callee.text} argument {position} expects {expected.text}, " ++
        s!"but received {actual.text} instead"
  | returnMismatch function? expected actual =>
      let subject := match function? with
        | some name => s!"function {name}"
        | none => "lambda"
      s!"{subject} expects return type {expected.text}, but got {actual.text} instead"
  | conditionNotBoolean form actual =>
      s!"{form} condition expects boolean, but received {actual.text} instead"

/-- A place in the source that explains a diagnostic. -/
structure Note where
  text : String
  range : Range
deriving DecidableEq

structure Diagnostic where
  problem : Problem
  range : Range
  notes : List Note
deriving DecidableEq

namespace Diagnostic

/-- The message with the range in front. -/
def text (d : Diagnostic) : String :=
  s!"{d.range.text}: {d.problem.message}"

/-- Whether `d` starts no later than `e`, by lines and then by columns. -/
def notAfter (d e : Diagnostic) : Bool :=
  d.range.start.line < e.range.start.line ||
    (d.range.start.line == e.range.start.line && d.range.start.column ≤ e.range.start.column)

/-- Orders diagnostics by where they start, keeping the order of those that start together. -/
def sort (ds : List Diagnostic) : List Diagnostic :=
  ds.mergeSort notAfter

end Diagnostic

end TypedIsl

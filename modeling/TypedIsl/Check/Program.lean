import TypedIsl.Check.Value
import TypedIsl.Language.Basic

/-!
# Checking a program

The names of all structs are known from the start. Then every form binds its names in the root
scope, and last all forms are checked in order.
-/

namespace TypedIsl

/-- What is known about a program: its diagnostics in the order in which they were found, its
global names with their types in the order in which they were bound, and the names that its
structs have brought in. -/
structure Checked where
  diagnostics : List Diagnostic
  globals : List (String × Ty)
  coined : List String

/-- The root scope and the names coined while names are being bound. -/
structure Registered where
  scopes : Scopes
  coined : List String

namespace StructDefinition

/-- The names that a struct brings in besides its own: a predicate, a constructor and an accessor
for every field. -/
def coined (definition : StructDefinition) (fieldTypes : List Ty) : List (String × Ty) :=
  let name := definition.name.name
  let self : Ty := .struct name
  (name ++ "?", .function [.fixed .any] .boolean) ::
  ("make-" ++ name, .function (fieldTypes.map .fixed) self) ::
  (definition.fields.names.zip fieldTypes).map fun (field, type) =>
    (name ++ "-" ++ field.name, .function [.fixed self] type)

/-- Binds coined names, all at the range of the struct's name. -/
def bindCoined (range : Range) (scopes : Scopes) : List (String × Ty) → Judged Scopes
  | [] => pure scopes
  | (name, type) :: rest => do
      let scopes ← scopes.bindNew ⟨name, range⟩ type (.alreadyDefined name)
      bindCoined range scopes rest

/-- Binds the name of a struct and those that it brings in. A struct whose name is taken binds
nothing. -/
def register (structs : List String) (registered : Registered) (definition : StructDefinition) :
    Judged Registered :=
  let name := definition.name
  match registered.scopes.conflict? name (.alreadyDefined name.name) with
  | some d => do
      Judged.report d
      return registered
  | none => do
      let fieldTypes ← definition.fields.fieldTypes structs
      let scopes := registered.scopes.bind name (.struct name.name)
      let coined := definition.coined fieldTypes
      let scopes ← bindCoined name.range scopes coined
      return ⟨scopes, registered.coined ++ coined.map Prod.fst⟩

end StructDefinition

namespace TopLevel

def register (structs : List String) (registered : Registered) : TopLevel → Judged Registered
  | definition form => do
      let scopes ← form.register structs registered.scopes
      return ⟨scopes, registered.coined⟩
  | struct form => form.register structs registered
  | value _ => pure registered

def check (structs : List String) (scopes : Scopes) : TopLevel → Judged Scopes
  | definition form => form.check structs scopes
  | struct _ => pure scopes
  | value form => do
      let _ ← form.check structs scopes
      return scopes

/-- The name of a struct that a form defines. -/
def structName? : TopLevel → Option String
  | struct form => some form.name.name
  | _ => none

end TopLevel

/-- A scope with the builtins of a language. -/
def Language.scope (language : Language) : Scope :=
  ⟨language.entries.map fun (name, type) => (name, ⟨type, none⟩)⟩

/-- The names of a scope that are bound in the source. -/
def Scope.globals (scope : Scope) : List (String × Ty) :=
  scope.entries.filterMap fun (name, binding) =>
    if binding.definedAt?.isSome then some (name, binding.type) else none

namespace Program

/-- The names of all structs that a program defines. -/
def structNames (program : Program) : List String :=
  program.filterMap TopLevel.structName?

/-- Binds the names of all forms. -/
def register (structs : List String) (registered : Registered) : Program → Judged Registered
  | [] => pure registered
  | form :: forms => do
      let registered ← form.register structs registered
      register structs registered forms

/-- Checks all forms. -/
def checkForms (structs : List String) (scopes : Scopes) : Program → Judged Scopes
  | [] => pure scopes
  | form :: forms => do
      let scopes ← form.check structs scopes
      checkForms structs scopes forms

/-- Checks a program written in a language. -/
def check (language : Language) (program : Program) : Checked :=
  let structs := structNames program
  let registered := register structs ⟨.root language.scope, []⟩ program
  let checked := checkForms structs registered.result.scopes program
  { diagnostics := registered.diagnostics ++ checked.diagnostics
    globals := Scope.globals checked.result.current
    coined := registered.result.coined }

end Program

namespace Checked

def isOk (checked : Checked) : Bool :=
  checked.diagnostics.isEmpty

/-- One line for every global name. -/
def globalsText (checked : Checked) : String :=
  String.join (checked.globals.map fun (name, type) => s!"{name}: {type.text}\n")

/-- The diagnostics, ordered by where they start. -/
def sorted (checked : Checked) : List Diagnostic :=
  Diagnostic.sort checked.diagnostics

end Checked

end TypedIsl

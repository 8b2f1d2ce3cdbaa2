import TypedIsl.Table
import TypedIsl.Ty.Basic

/-! # Languages as tables of builtins -/

namespace TypedIsl

/-- The builtins of a language with their types. -/
abbrev Language := Table Ty

/-- The names of structs in the types of the builtins. -/
def Language.structNames (language : Language) : List String :=
  language.entries.flatMap fun (_, type) => type.structNames

end TypedIsl

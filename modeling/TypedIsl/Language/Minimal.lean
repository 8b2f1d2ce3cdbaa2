import TypedIsl.Language.Basic

/-! # The minimal language -/

namespace TypedIsl

/-- A handful of builtins, enough for small examples. They are listed in
the order of the bytes of their names. -/
def Language.minimal : Language := ⟨
  [("+", .function [.many .number] .number),
   ("string->number", .function [.fixed .string] .number),
   ("string-append", .function [.many .string] .string)]⟩

end TypedIsl

import TypedIsl.Syntax.Basic

/-!
# Parameter lists that are being read

A parameter list is read up to its closing parenthesis, one token at a time. Types that are not
closed yet are kept in a stack, the innermost one first.
-/

namespace TypedIsl

/-- What a token list would have to go on with. -/
inductive Expectation where
  | expression
  | identifier
  | type
  | clause
  | openParen
  | closeParen
  | colon
  | define
  | endOfInput
deriving DecidableEq

def Expectation.text : Expectation → String
  | expression => "expression"
  | identifier => "identifier"
  | type => "type"
  | clause => "cond clause"
  | openParen => "`(`"
  | closeParen => "`)`"
  | colon => "`:`"
  | define => "`define`"
  | endOfInput => "end of input"

/-- A type function with its arguments so far. -/
structure OpenType where
  start : Position
  function : Ident
  args : List TypeExpr

/-- Where the type that is being read belongs. -/
inductive TypeSlot where
  | param (read : List TypedParam) (name : Ident)
  | result (read : List TypedParam)

/-- A parameter list so far. -/
inductive OpenParams where
  /-- Names without types. A colon after the first one makes the list typed. -/
  | names (read : List Ident)
  /-- After an ampersand. -/
  | nextName (read : List TypedParam)
  /-- After the name of a typed parameter that is not the first one. -/
  | nextColon (read : List TypedParam) (name : Ident)
  /-- Before a type, or before the end of the innermost open type. -/
  | type (slot : TypeSlot) (opened : List OpenType)
  /-- After the parenthesis that opens a type. -/
  | typeFunction (slot : TypeSlot) (opened : List OpenType) (start : Position)
  /-- After the type of a parameter. -/
  | typed (read : List TypedParam)
  /-- After the result type. -/
  | result (read : List TypedParam) (type : TypeExpr)

namespace OpenParams

/-- Puts a complete type in its place. -/
def withType (slot : TypeSlot) (opened : List OpenType) (type : TypeExpr) : OpenParams :=
  match opened with
  | innermost :: outer =>
      .type slot (⟨innermost.start, innermost.function, innermost.args ++ [type]⟩ :: outer)
  | [] =>
      match slot with
      | .param read name => .typed (read ++ [⟨name, type⟩])
      | .result read => .result read type

def expects : OpenParams → Expectation
  | names _ => .identifier
  | nextName _ => .identifier
  | nextColon _ _ => .colon
  | type _ _ => .type
  | typeFunction _ _ _ => .identifier
  | typed _ => .closeParen
  | result _ _ => .closeParen

/-- The list after one more token, if that token may come next and does not end the list. -/
def accept? (params : OpenParams) (token : Token) : Option OpenParams :=
  match params, token.kind with
  | names read, .identifier name => some (.names (read ++ [⟨name, token.range⟩]))
  | names [name], .colon => some (.type (.param [] name) [])
  | nextName read, .identifier name => some (.nextColon read ⟨name, token.range⟩)
  | nextColon read name, .colon => some (.type (.param read name) [])
  | type slot opened, .identifier name =>
      some (withType slot opened (.named ⟨name, token.range⟩))
  | type slot opened, .openParen => some (.typeFunction slot opened token.range.start)
  | type slot (innermost :: outer), .closeParen =>
      some (withType slot outer
        (.apply ⟨innermost.start, token.range.stop⟩ innermost.function innermost.args))
  | typeFunction slot opened start, .identifier name =>
      some (.type slot (⟨start, ⟨name, token.range⟩, []⟩ :: opened))
  | typed read, .ampersand => some (.nextName read)
  | typed read, .arrow => some (.type (.result read) [])
  | _, _ => none

/-- From the first name to the last type. -/
def typedRange (params : List TypedParam) (result? : Option TypeExpr) (closing : Position) :
    Range :=
  let start := match params.head? with
    | some first => first.name.range.start
    | none => closing
  let stop := match result?, params.getLast? with
    | some last, _ => last.range.stop
    | none, some last => last.type.range.stop
    | none, none => closing
  ⟨start, stop⟩

/-- From the first name to the last one; an empty list stands at its closing parenthesis. -/
def untypedRange (names : List Ident) (closing : Position) : Range :=
  match names.head?, names.getLast? with
  | some first, some last => first.range.through last.range
  | _, _ => .emptyAt closing

/-- The whole list, if it may end at a parenthesis that stands at `closing`. -/
def finish? (params : OpenParams) (closing : Position) : Option Params :=
  match params with
  | names read => some (.untyped (untypedRange read closing) read)
  | typed read => some (.typed (typedRange read none closing) read none)
  | result read output => some (.typed (typedRange read (some output) closing) read (some output))
  | _ => none

end OpenParams

end TypedIsl

import TypedIsl.Syntax.OpenParams

/-!
# Forms that are being read

The text before a point opens forms that the text after it has to close. The innermost of them
and all forms around it make up a `Context`: a place at which one more part may stand.
-/

namespace TypedIsl

/-- The kinds of place at which a form may stand. -/
inductive Place where
  | topLevel
  | value
  | arm
  | definition
  | binding

/-- A part of a `cond` form. -/
inductive Arm where
  | clause (clause : Clause)
  | otherwise (value : Value)

/-- What stands at a place once it has been read. -/
abbrev Place.Content : Place → Type
  | topLevel => TopLevel
  | value => Value
  | arm => Arm
  | definition => Definition
  | binding => LetBinding

/-- The part of a form that comes before its values. The index is the place of the form. -/
inductive Heading : Place → Type where
  | branch : Heading .value
  | lambda (params : Params) : Heading .value
  | locals (definitions : List Definition) : Heading .value
  | lets (kind : LetKind) (bindings : List LetBinding) : Heading .value
  | call : Heading .value
  | clause : Heading .arm
  | otherwise : Heading .arm
  | binding (name : Ident) : Heading .binding
  | function (docs : List String) (name : Ident) (params : Params) : Heading .definition
  | constant (docs : List String) (name : Ident) : Heading .definition

namespace Heading

/-- The number of values that follow; `none` if any positive number may. -/
def arity? {place : Place} : Heading place → Option Nat
  | branch => some 3
  | clause => some 2
  | call => none
  | _ => some 1

/-- Whether a further value may follow `count` values. -/
def wants {place : Place} (heading : Heading place) (count : Nat) : Bool :=
  match heading.arity? with
  | some arity => count < arity
  | none => true

/-- The form with this heading and these values. -/
def build? {place : Place} (heading : Heading place) (range : Range) (values : List Value) :
    Option place.Content :=
  match heading, values with
  | branch, [condition, thenArm, elseArm] => some (.branch range condition thenArm elseArm)
  | lambda params, [body] => some (.lambda range params body)
  | locals definitions, [body] => some (.locals range definitions body)
  | lets kind bindings, [body] => some (.lets range kind bindings body)
  | call, callee :: args => some (.call range callee args)
  | clause, [condition, body] => some (.clause (.mk range condition body))
  | otherwise, [value] => some (.otherwise value)
  | binding name, [value] => some (.mk range name value)
  | function docs name params, [body] => some (.function range docs name params body)
  | constant docs name, [value] => some (.constant range docs name value)
  | _, _ => none

end Heading

/-- A place and everything around it. Each open form remembers where it started and which of its
parts have been read. -/
inductive Context : Place → Type where
  /-- After the forms of a program that have been read. -/
  | program (read : List TopLevel) : Context .topLevel
  /-- A value that stands as a form of a program. -/
  | topValue (read : List TopLevel) : Context .value
  /-- A definition that stands as a form of a program. -/
  | topDefinition (read : List TopLevel) : Context .definition
  /-- A value that stands alone. -/
  | alone : Context .value
  /-- In a form that ends in values. -/
  | values {place : Place} (start : Position) (heading : Heading place) (read : List Value)
      (outer : Context place) : Context .value
  /-- In a `cond` form. -/
  | arms (start : Position) (clauses : List Clause) (otherwise? : Option Value)
      (outer : Context .value) : Context .arm
  /-- In the definitions of a `local` form. -/
  | definitions (start : Position) (read : List Definition) (outer : Context .value) :
      Context .definition
  /-- In the bindings of a `let` form. -/
  | bindings (start : Position) (kind : LetKind) (read : List LetBinding)
      (outer : Context .value) : Context .binding

/-- The beginning of a form whose parameters are being read. -/
inductive ParamsOwner : Place → Type where
  | lambda (start : Position) : ParamsOwner .value
  | function (start : Position) (docs : List String) (name : Ident) : ParamsOwner .definition
  | struct (start : Position) (docs : List String) (name : Ident) : ParamsOwner .topLevel

/-- The beginning of a form, up to its first place. -/
inductive Opening : Place → Type where
  /-- After `lambda`. -/
  | lambda (start : Position) : Opening .value
  /-- After `local`. -/
  | locals (start : Position) : Opening .value
  /-- After the keyword of a `let` form. -/
  | lets (start : Position) (kind : LetKind) : Opening .value
  /-- After `require`. -/
  | require (start : Position) : Opening .value
  /-- After the name of a required library. -/
  | required (start : Position) (library : Ident) : Opening .value
  /-- After `define`. -/
  | define (start : Position) (docs : List String) : Opening .definition
  /-- Before the name of a function. -/
  | function (start : Position) (docs : List String) : Opening .definition
  /-- After `define-struct`. -/
  | struct (start : Position) (docs : List String) : Opening .topLevel
  /-- After the name of a struct. -/
  | structName (start : Position) (docs : List String) (name : Ident) : Opening .topLevel
  /-- After the fields of a struct. -/
  | structFields (start : Position) (docs : List String) (name : Ident) (fields : Params) :
      Opening .topLevel
  /-- In a parameter list. -/
  | params {place : Place} (owner : ParamsOwner place) (read : OpenParams) : Opening place

/-- A token that is not a docstring, with its index among all tokens and the docstrings directly
before it. -/
structure Arrival where
  token : Token
  index : Nat
  docs : List String

def Arrival.start (arrival : Arrival) : Position :=
  arrival.token.range.start

/-- How far a form has been read. -/
inductive Progress where
  /-- At a place, or at the end of the forms that stand there. -/
  | waiting {place : Place} (context : Context place)
  /-- After a parenthesis at a place. -/
  | opened {place : Place} (paren : Arrival) (context : Context place)
  /-- In the beginning of a form. -/
  | opening {place : Place} (opening : Opening place) (context : Context place)
  /-- After a value that stands alone. -/
  | finished (value : Value)

/-- Puts a complete form in its place. -/
def Context.deliver {place : Place} (context : Context place) (content : place.Content) :
    Progress :=
  match context, content with
  | program read, form => .waiting (.program (read ++ [form]))
  | topValue read, value => .waiting (.program (read ++ [.value value]))
  | topDefinition read, definition => .waiting (.program (read ++ [.definition definition]))
  | alone, value => .finished value
  | values start heading read outer, value =>
      .waiting (.values start heading (read ++ [value]) outer)
  | arms start clauses otherwise? outer, .clause clause =>
      .waiting (.arms start (clauses ++ [clause]) otherwise? outer)
  | arms start clauses _ outer, .otherwise value =>
      .waiting (.arms start clauses (some value) outer)
  | definitions start read outer, definition =>
      .waiting (.definitions start (read ++ [definition]) outer)
  | bindings start kind read outer, binding =>
      .waiting (.bindings start kind (read ++ [binding]) outer)

/-- Goes on after a complete parameter list. -/
def ParamsOwner.resume {place : Place} (owner : ParamsOwner place) (params : Params)
    (context : Context place) : Progress :=
  match owner with
  | lambda start => .waiting (.values start (.lambda params) [] context)
  | function start docs name =>
      .waiting (.values start (.function docs name params) [] context)
  | struct start docs name => .opening (.structFields start docs name params) context

end TypedIsl

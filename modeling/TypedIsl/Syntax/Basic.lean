import TypedIsl.Token.Basic

/-!
# Syntax trees

A program is a list of definitions, structs and values:

    program     ::= top*
    top         ::= definition | struct | value
    definition  ::= ( define ( ID params ) value )
                  | ( define ID value )
    struct      ::= ( define-struct ID ( params ) )
    params      ::= ID : type (& ID : type)* [-> type]
                  | ID*
    type        ::= ( ID type* ) | ID
    value       ::= ( if value value value )
                  | ( cond ( value value )+ [( else value )] )
                  | ( lambda ( params ) value )
                  | ( local ( definition* ) value )
                  | ( let ( ( ID value )* ) value )       also letrec and let*
                  | ( require ID )
                  | ( value value* )
                  | literal | ID
-/

namespace TypedIsl

/-- An occurrence of a name. -/
structure Ident where
  name : String
  range : Range
deriving DecidableEq

/-- A type as it is written: a name, or a type function applied to types. -/
inductive TypeExpr where
  | named (name : Ident)
  | apply (range : Range) (function : Ident) (args : List TypeExpr)

def TypeExpr.range : TypeExpr → Range
  | named name => name.range
  | apply range _ _ => range

structure TypedParam where
  name : Ident
  type : TypeExpr

/-- A parameter list. It is typed if its first name has a type. -/
inductive Params where
  | typed (range : Range) (params : List TypedParam) (result? : Option TypeExpr)
  | untyped (range : Range) (names : List Ident)

namespace Params

def range : Params → Range
  | typed range _ _ => range
  | untyped range _ => range

/-- The parameter names, in order. -/
def names : Params → List Ident
  | typed _ params _ => params.map (·.name)
  | untyped _ names => names

end Params

mutual

inductive Value where
  | literal (range : Range) (value : Literal)
  | name (ident : Ident)
  | branch (range : Range) (condition thenArm elseArm : Value)
  | cond (range : Range) (clauses : List Clause) (otherwise? : Option Value)
  | lambda (range : Range) (params : Params) (body : Value)
  | locals (range : Range) (definitions : List Definition) (body : Value)
  | lets (range : Range) (kind : LetKind) (bindings : List LetBinding) (body : Value)
  | require (range : Range) (library : Ident)
  | call (range : Range) (callee : Value) (args : List Value)

/-- A condition and the value that it guards. -/
inductive Clause where
  | mk (range : Range) (condition body : Value)

inductive LetBinding where
  | mk (range : Range) (name : Ident) (value : Value)

/-- A definition with the docstrings that stand before it. -/
inductive Definition where
  | function (range : Range) (docs : List String) (name : Ident) (params : Params) (body : Value)
  | constant (range : Range) (docs : List String) (name : Ident) (value : Value)

end

def Value.range : Value → Range
  | literal range _ => range
  | name ident => ident.range
  | branch range _ _ _ => range
  | cond range _ _ => range
  | lambda range _ _ => range
  | locals range _ _ => range
  | lets range _ _ _ => range
  | require range _ => range
  | call range _ _ => range

def Clause.range : Clause → Range
  | mk range _ _ => range

def LetBinding.range : LetBinding → Range
  | mk range _ _ => range

def LetBinding.name : LetBinding → Ident
  | mk _ name _ => name

namespace Definition

def range : Definition → Range
  | function range _ _ _ _ => range
  | constant range _ _ _ => range

def docs : Definition → List String
  | function _ docs _ _ _ => docs
  | constant _ docs _ _ => docs

def name : Definition → Ident
  | function _ _ name _ _ => name
  | constant _ _ name _ => name

end Definition

/-- A struct and its fields. The order of the fields is the order of the constructor's
arguments. -/
structure StructDefinition where
  range : Range
  docs : List String
  name : Ident
  fields : Params

inductive TopLevel where
  | definition (definition : Definition)
  | struct (definition : StructDefinition)
  | value (value : Value)

abbrev Program := List TopLevel

end TypedIsl

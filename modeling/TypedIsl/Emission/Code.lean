import TypedIsl.Double.Text
import TypedIsl.Emission.Form
import TypedIsl.Syntax.Basic

/-!
# Emitted code

A program is emitted without its types. Signatures and docstrings are kept as comments before each
definition.
-/

namespace TypedIsl

/-- A string literal. Quotes and backslashes are escaped. -/
def quotedString (s : String) : List Char :=
  '"' :: s.toList.flatMap (fun c => if c = '"' ∨ c = '\\' then ['\\', c] else [c]) ++ ['"']

def Literal.code : Literal → List Char
  | integer value => (toString value).toList
  | fraction numerator denominator => s!"{numerator}/{denominator}".toList
  | decimal value => value.code.toList
  | string value => quotedString value
  | boolean true => "#true".toList
  | boolean false => "#false".toList
  | symbol name => '\'' :: name.toList

def Ident.form (ident : Ident) : Form :=
  .word ident.name

def Params.forms (params : Params) : List Form :=
  params.names.map Ident.form

mutual

def Value.form : Value → Form
  | .literal _ value => .atom value.code
  | .name ident => ident.form
  | .branch _ condition thenArm elseArm =>
      .round [.word "if", condition.form] [thenArm.form, elseArm.form]
  | .cond _ clauses none => .round [.word "cond"] (Clause.forms clauses)
  | .cond _ clauses (some value) =>
      .round [.word "cond"] (Clause.forms clauses ++ [.square [.word "else"] [value.form]])
  | .lambda _ params body => .round [.word "lambda", .round params.forms []] [body.form]
  | .locals _ definitions body =>
      .round [.word "local"] [.sequence .square (Definition.forms definitions), body.form]
  | .lets _ kind bindings body =>
      .round [.word kind.text] [.sequence .round (LetBinding.forms bindings), body.form]
  | .require _ library => .round [.word "require", library.form] []
  | .call _ callee args => .round [callee.form] (Value.forms args)

def Value.forms : List Value → List Form
  | [] => []
  | value :: values => value.form :: Value.forms values

def Clause.form : Clause → Form
  | .mk _ condition body => .square [condition.form] [body.form]

def Clause.forms : List Clause → List Form
  | [] => []
  | clause :: clauses => clause.form :: Clause.forms clauses

def LetBinding.form : LetBinding → Form
  | .mk _ name value => .square [name.form] [value.form]

def LetBinding.forms : List LetBinding → List Form
  | [] => []
  | binding :: bindings => binding.form :: LetBinding.forms bindings

def Definition.form : Definition → Form
  | .function _ _ name params body =>
      .round [.word "define", .round (name.form :: params.forms) []] [body.form]
  | .constant _ _ name value => .round [.word "define", name.form] [value.form]

def Definition.forms : List Definition → List Form
  | [] => []
  | definition :: definitions => definition.form :: Definition.forms definitions

end

def StructDefinition.form (definition : StructDefinition) : Form :=
  .round [.word "define-struct", definition.name.form] [.round definition.fields.forms []]

mutual

/-- A type in a signature comment. -/
def TypeExpr.signature : TypeExpr → String
  | .named name => name.name
  | .apply _ function args =>
      if function.name = "Any" then "any"
      else if function.name = "List-of" then
        match args with
        | [] => "(Listof Any)"
        | arg :: _ => "(Listof " ++ arg.signature ++ ")"
      else "(" ++ function.name ++ TypeExpr.argSignatures args ++ ")"

/-- Each type with a space before it. -/
def TypeExpr.argSignatures : List TypeExpr → String
  | [] => ""
  | type :: types => " " ++ type.signature ++ TypeExpr.argSignatures types

end

/-- The types of parameters and result. -/
def Params.signature : Params → String
  | typed _ params result? =>
      let result := match result? with
        | some declared => declared.signature
        | none => "any"
      TypeExpr.argSignatures (params.map (·.type)) ++ " -> " ++ result
  | untyped _ names => String.join (names.map fun _ => " any") ++ " -> any"

def docComments (docs : List String) : List String :=
  docs.map fun doc => s!";; {doc}"

namespace TopLevel

/-- The comments before a form. -/
def comments : TopLevel → List String
  | definition (.function _ docs name params _) =>
      s!";; {name.name} :{params.signature}" :: docComments docs
  | definition (.constant _ docs _ _) => docComments docs
  | struct form => docComments form.docs
  | value _ => []

def form : TopLevel → Form
  | definition form => form.form
  | struct form => form.form
  | value form => form.form

/-- The comments and the form itself, each followed by a newline. -/
def code (indent : Indent) (form : TopLevel) : String :=
  String.join (form.comments.map (· ++ "\n")) ++
    String.ofList (form.form.layout indent 0 0) ++ "\n"

end TopLevel

/-- The language that emitted code is written in. -/
def languageLine : String := "#lang htdp/isl+\n"

def Program.code (indent : Indent) (program : Program) : String :=
  languageLine ++ String.join (program.map (TopLevel.code indent))

end TypedIsl

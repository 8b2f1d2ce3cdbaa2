import TypedIsl.Double.Text
import TypedIsl.Syntax.Basic
import TypedIsl.Text.Blank
import TypedIsl.Text.Escaped

/-!
# Outlines of syntax trees

One line for every node, indented by its depth, with its range.
-/

namespace TypedIsl

/-- A line at a depth. -/
def outlineLine (depth : Nat) (text : String) : String :=
  spaces (2 * depth) ++ text ++ "\n"

mutual

/-- A type, written as in the source. -/
def TypeExpr.text : TypeExpr → String
  | .named name => name.name
  | .apply _ function args => "(" ++ function.name ++ TypeExpr.argTexts args ++ ")"

/-- Each type with a space before it. -/
def TypeExpr.argTexts : List TypeExpr → String
  | [] => ""
  | type :: types => " " ++ type.text ++ TypeExpr.argTexts types

end

/-- A literal with its kind. -/
def Literal.outlineText : Literal → String
  | integer value => s!"int {value}"
  | fraction numerator denominator => s!"fraction {numerator}/{denominator}"
  | decimal value => s!"decimal {value.text}"
  | string value => s!"string {escaped value}"
  | boolean value => s!"bool {value}"
  | symbol name => "symbol '" ++ name

def Params.outline (depth : Nat) : Params → String
  | typed range params result? =>
      outlineLine depth s!"params typed ({range.text})" ++
      String.join (params.map fun param =>
        outlineLine (depth + 1) s!"param {param.name.name} : {param.type.text}") ++
      match result? with
      | some type => outlineLine (depth + 1) s!"returns {type.text}"
      | none => ""
  | untyped range names =>
      outlineLine depth s!"params untyped ({range.text})" ++
      String.join (names.map fun name => outlineLine (depth + 1) s!"param {name.name}")

def outlineDocs (depth : Nat) (docs : List String) : String :=
  String.join (docs.map fun doc => outlineLine depth s!"doc {doc}")

mutual

def Value.outline (depth : Nat) : Value → String
  | .literal range value => outlineLine depth s!"{value.outlineText} ({range.text})"
  | .name ident => outlineLine depth s!"ident {ident.name} ({ident.range.text})"
  | .branch range condition thenArm elseArm =>
      outlineLine depth s!"if ({range.text})" ++ condition.outline (depth + 1) ++
        thenArm.outline (depth + 1) ++ elseArm.outline (depth + 1)
  | .cond range clauses otherwise? =>
      outlineLine depth s!"cond ({range.text})" ++ Clause.outlines (depth + 1) clauses ++
        match otherwise? with
        | some value => outlineLine (depth + 1) "else" ++ value.outline (depth + 2)
        | none => ""
  | .lambda range params body =>
      outlineLine depth s!"lambda ({range.text})" ++ params.outline (depth + 1) ++
        body.outline (depth + 1)
  | .locals range definitions body =>
      outlineLine depth s!"local ({range.text})" ++
        Definition.outlines (depth + 1) definitions ++ body.outline (depth + 1)
  | .lets range kind bindings body =>
      outlineLine depth s!"{kind.text} ({range.text})" ++
        LetBinding.outlines (depth + 1) bindings ++ body.outline (depth + 1)
  | .require range library => outlineLine depth s!"require {library.name} ({range.text})"
  | .call range callee args =>
      outlineLine depth s!"call ({range.text})" ++ callee.outline (depth + 1) ++
        Value.outlines (depth + 1) args

def Value.outlines (depth : Nat) : List Value → String
  | [] => ""
  | value :: values => value.outline depth ++ Value.outlines depth values

def Clause.outline (depth : Nat) : Clause → String
  | .mk range condition body =>
      outlineLine depth s!"clause ({range.text})" ++ condition.outline (depth + 1) ++
        body.outline (depth + 1)

def Clause.outlines (depth : Nat) : List Clause → String
  | [] => ""
  | clause :: clauses => clause.outline depth ++ Clause.outlines depth clauses

def LetBinding.outline (depth : Nat) : LetBinding → String
  | .mk range name value =>
      outlineLine depth s!"binding {name.name} ({range.text})" ++ value.outline (depth + 1)

def LetBinding.outlines (depth : Nat) : List LetBinding → String
  | [] => ""
  | binding :: bindings => binding.outline depth ++ LetBinding.outlines depth bindings

def Definition.outline (depth : Nat) : Definition → String
  | .function range docs name params body =>
      outlineLine depth s!"define {name.name} ({range.text})" ++ outlineDocs (depth + 1) docs ++
        params.outline (depth + 1) ++ body.outline (depth + 1)
  | .constant range docs name value =>
      outlineLine depth s!"define {name.name} ({range.text})" ++ outlineDocs (depth + 1) docs ++
        value.outline (depth + 1)

def Definition.outlines (depth : Nat) : List Definition → String
  | [] => ""
  | definition :: definitions =>
      definition.outline depth ++ Definition.outlines depth definitions

end

def StructDefinition.outline (definition : StructDefinition) : String :=
  outlineLine 0 s!"define-struct {definition.name.name} ({definition.range.text})" ++
    outlineDocs 1 definition.docs ++ definition.fields.outline 1

def TopLevel.outline : TopLevel → String
  | .definition form => form.outline 0
  | .struct form => form.outline
  | .value form => form.outline 0

def Program.outline (program : Program) : String :=
  String.join (program.map TopLevel.outline)

end TypedIsl

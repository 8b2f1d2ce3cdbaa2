import TypedIsl.Proofs.Syntax.Spelling
import TypedIsl.Syntax.OpenForm

/-!
# Nodes and their tokens

A node is a part of a tree that has a range. `Node.parts` lists what a node is made of, from left
to right: words, which are single tokens, and other nodes. `Covers` relates parts to the tokens
that they stand for, one part after the other, and says where these tokens are.
-/

namespace TypedIsl

inductive Node where
  | ident (ident : Ident)
  | type (type : TypeExpr)
  | params (params : Params)
  | value (value : Value)
  | clause (clause : Clause)
  | binding (binding : LetBinding)
  | definition (definition : Definition)
  | struct (definition : StructDefinition)

/-- A single token, as far as a tree determines it. -/
inductive Word where
  | token (kind : TokenKind)
  /-- A token that a node remembers with its range. -/
  | exact (kind : TokenKind) (range : Range)
  /-- The parenthesis at which a node starts, and the docstrings directly before it, if the node
  keeps them. -/
  | opening (start : Position) (docs? : Option (List String))
  /-- The parenthesis at which a node stops. -/
  | closing (stop : Position)

inductive Part where
  | word (word : Word)
  | node (node : Node)
  /-- A parameter list with the parenthesis that closes it. -/
  | params (params : Params)

namespace Part

abbrev token (kind : TokenKind) : Part := .word (.token kind)

abbrev ident (ident : Ident) : Part := .node (.ident ident)

abbrev type (type : TypeExpr) : Part := .node (.type type)

abbrev value (value : Value) : Part := .node (.value value)

abbrev clause (clause : Clause) : Part := .node (.clause clause)

abbrev binding (binding : LetBinding) : Part := .node (.binding binding)

abbrev definition (definition : Definition) : Part := .node (.definition definition)

/-- The parts of a node that stands in parentheses. -/
def enclosed (range : Range) (docs? : Option (List String)) (parts : List Part) : List Part :=
  .word (.opening range.start docs?) :: parts ++ [.word (.closing range.stop)]

end Part

/-! ## The parts of a node -/

def TypeExpr.parts : TypeExpr → List Part
  | named name => [.ident name]
  | apply range function args => Part.enclosed range none (.ident function :: args.map .type)

def TypedParam.parts (param : TypedParam) : List Part :=
  [.ident param.name, .token .colon, .type param.type]

/-- Typed parameters with ampersands between them. -/
def TypedParam.allParts : List TypedParam → List Part
  | [] => []
  | param :: params =>
      param.parts ++ params.flatMap fun other => .token .ampersand :: other.parts

namespace Params

def parts : Params → List Part
  | typed _ params none => TypedParam.allParts params
  | typed _ params (some declared) =>
      TypedParam.allParts params ++ [.token .arrow, .type declared]
  | untyped _ names => names.map .ident

/-- From the first name to the last name or type. Without any, the list stands at its closing
parenthesis. -/
def extent (closing : Position) : Params → Range
  | typed _ params result? => OpenParams.typedRange params result? closing
  | untyped _ names => OpenParams.untypedRange names closing

end Params

def Value.parts : Value → List Part
  | literal range value => [.word (.exact (.literal value) range)]
  | name ident => [.ident ident]
  | branch range condition thenArm elseArm => Part.enclosed range none
      [.token (.keyword .branch), .value condition, .value thenArm, .value elseArm]
  | cond range clauses none =>
      Part.enclosed range none (.token (.keyword .cond) :: clauses.map .clause)
  | cond range clauses (some value) => Part.enclosed range none
      (.token (.keyword .cond) :: clauses.map .clause ++
        [.token .openParen, .token (.keyword .otherwise), .value value, .token .closeParen])
  | lambda range params body => Part.enclosed range none
      [.token (.keyword .lambda), .token .openParen, .params params, .value body]
  | locals range definitions body => Part.enclosed range none
      (.token (.keyword .locals) :: .token .openParen :: definitions.map .definition ++
        [.token .closeParen, .value body])
  | lets range kind bindings body => Part.enclosed range none
      (.token (.keyword (.lets kind)) :: .token .openParen :: bindings.map .binding ++
        [.token .closeParen, .value body])
  | require range library => Part.enclosed range none [.token (.keyword .require), .ident library]
  | call range callee args => Part.enclosed range none (.value callee :: args.map .value)

def Definition.parts : Definition → List Part
  | function range docs name params body => Part.enclosed range (some docs)
      [.token (.keyword .define), .token .openParen, .ident name, .params params, .value body]
  | constant range docs name value => Part.enclosed range (some docs)
      [.token (.keyword .define), .ident name, .value value]

namespace Node

def range : Node → Range
  | ident form => form.range
  | type form => form.range
  | params form => form.range
  | value form => form.range
  | clause form => form.range
  | binding form => form.range
  | definition form => form.range
  | struct form => form.range

/-- The tokens of a node, up to docstrings. -/
def kinds : Node → List TokenKind
  | ident form => [form.kind]
  | type form => form.kinds
  | params form => form.kinds
  | value form => form.kinds
  | clause form => form.kinds
  | binding form => form.kinds
  | definition form => form.kinds
  | struct form => form.kinds

def parts : Node → List Part
  | ident form => [.word (.exact form.kind form.range)]
  | type form => form.parts
  | params form => form.parts
  | value form => form.parts
  | clause (.mk range condition body) => Part.enclosed range none [.value condition, .value body]
  | binding (.mk range name init) => Part.enclosed range none [.ident name, .value init]
  | definition form => form.parts
  | struct ⟨range, docs, name, fields⟩ => Part.enclosed range (some docs)
      [.token (.keyword .defineStruct), .ident name, .token .openParen, .params fields]

end Node

def Part.child? : Part → Option Node
  | .word _ => none
  | .node inner => some inner
  | .params list => some (.params list)

/-- The nodes directly below a node, in source order. -/
def Node.children (node : Node) : List Node :=
  node.parts.filterMap Part.child?

/-- The second node is the first one or lies below it. -/
inductive Node.Contains (node : Node) : Node → Prop
  | refl : Contains node node
  | child {inner child : Node} (h : Contains node inner) (hchild : child ∈ inner.children) :
      Contains node child

/-- The node that stands at the top level. -/
def TopLevel.node : TopLevel → Node
  | definition form => .definition form
  | struct form => .struct form
  | value form => .value form

def Program.parts (program : Program) : List Part :=
  program.map fun form => .node form.node

/-! ## Tokens that stand for parts -/

def Word.Says (arrival : Arrival) : Word → Prop
  | token kind => arrival.token.kind = kind
  | exact kind range => arrival.token = ⟨kind, range⟩
  | opening start docs? =>
      arrival.token.kind = .openParen ∧ arrival.start = start ∧ ∀ docs ∈ docs?, arrival.docs = docs
  | closing stop => arrival.token.kind = .closeParen ∧ arrival.token.range.stop = stop

inductive Covers : List Part → List Arrival → Prop
  | nil : Covers [] []
  | word {word : Word} {arrival : Arrival} {parts : List Part} {rest : List Arrival}
      (h : word.Says arrival) (hrest : Covers parts rest) :
      Covers (.word word :: parts) (arrival :: rest)
  | node {node : Node} {own : List Arrival} {parts : List Part} {rest : List Arrival}
      (hown : Covers node.parts own) (hrest : Covers parts rest) :
      Covers (.node node :: parts) (own ++ rest)
  | params {params : Params} {own : List Arrival} {close : Arrival} {parts : List Part}
      {rest : List Arrival} (hown : Covers params.parts own)
      (hclose : close.token.kind = .closeParen) (hrange : params.range = params.extent close.start)
      (hrest : Covers parts rest) : Covers (.params params :: parts) (own ++ close :: rest)

namespace Covers

variable {parts others : List Part} {own rest arrivals : List Arrival}

theorem append (h : Covers parts own) (hrest : Covers others rest) :
    Covers (parts ++ others) (own ++ rest) := by
  induction h with
  | nil => exact hrest
  | word h _ ih => exact .word h ih
  | node hown _ _ ih =>
      rw [List.append_assoc]
      exact .node hown ih
  | params hown hclose hrange _ _ ih =>
      rw [List.append_assoc]
      exact .params hown hclose hrange ih

theorem append_iff : Covers (parts ++ others) arrivals ↔
    ∃ own rest, arrivals = own ++ rest ∧ Covers parts own ∧ Covers others rest := by
  constructor
  · intro h
    induction parts generalizing arrivals with
    | nil => exact ⟨[], arrivals, rfl, .nil, h⟩
    | cons part parts ih =>
        cases h with
        | word h hrest =>
            obtain ⟨own, rest, rfl, hparts, hothers⟩ := ih hrest
            exact ⟨_, _, rfl, .word h hparts, hothers⟩
        | node hown hrest =>
            obtain ⟨own, rest, rfl, hparts, hothers⟩ := ih hrest
            exact ⟨_, _, by rw [List.append_assoc], .node hown hparts, hothers⟩
        | params hown hclose hrange hrest =>
            obtain ⟨own, rest, rfl, hparts, hothers⟩ := ih hrest
            refine ⟨_, _, ?_, .params hown hclose hrange hparts, hothers⟩
            rw [List.append_assoc, List.cons_append]
  · rintro ⟨own, rest, rfl, hparts, hothers⟩
    exact hparts.append hothers

end Covers

section

variable {parts : List Part} {arrivals : List Arrival}

theorem covers_nil : Covers [] arrivals ↔ arrivals = [] := by
  constructor
  · rintro ⟨⟩
    rfl
  · rintro rfl
    exact .nil

theorem covers_word {word : Word} : Covers (.word word :: parts) arrivals ↔
    ∃ arrival rest, arrivals = arrival :: rest ∧ word.Says arrival ∧ Covers parts rest := by
  constructor
  · rintro ⟨⟩
    exact ⟨_, _, rfl, ‹_›, ‹_›⟩
  · rintro ⟨arrival, rest, rfl, h, hrest⟩
    exact .word h hrest

theorem covers_token {kind : TokenKind} : Covers (.token kind :: parts) arrivals ↔
    ∃ arrival rest, arrivals = arrival :: rest ∧ arrival.token.kind = kind ∧ Covers parts rest :=
  covers_word

theorem covers_node {node : Node} : Covers (.node node :: parts) arrivals ↔
    ∃ own rest, arrivals = own ++ rest ∧ Covers node.parts own ∧ Covers parts rest := by
  constructor
  · rintro ⟨⟩
    exact ⟨_, _, rfl, ‹_›, ‹_›⟩
  · rintro ⟨own, rest, rfl, hown, hrest⟩
    exact .node hown hrest

theorem covers_ident {ident : Ident} : Covers (.ident ident :: parts) arrivals ↔
    ∃ arrival rest, arrivals = arrival :: rest ∧ arrival.token = ⟨ident.kind, ident.range⟩ ∧
      Covers parts rest := by
  constructor
  · intro h
    obtain ⟨own, rest, rfl, hown, hrest⟩ := covers_node.mp h
    obtain ⟨arrival, _, rfl, harrival, hnil⟩ := covers_word.mp hown
    rw [covers_nil.mp hnil]
    exact ⟨arrival, rest, rfl, harrival, hrest⟩
  · rintro ⟨arrival, rest, rfl, harrival, hrest⟩
    have hown : Covers (Node.ident ident).parts [arrival] := .word harrival .nil
    exact .node hown hrest

theorem covers_param {param : TypedParam} : Covers (param.parts ++ parts) arrivals ↔
    ∃ name colon own rest, arrivals = name :: colon :: (own ++ rest) ∧
      name.token = ⟨param.name.kind, param.name.range⟩ ∧ colon.token.kind = .colon ∧
      Covers param.type.parts own ∧ Covers parts rest := by
  rw [TypedParam.parts, List.cons_append, List.cons_append, List.cons_append, covers_ident]
  constructor
  · rintro ⟨name, _, rfl, hname, h⟩
    obtain ⟨colon, _, rfl, hcolon, h⟩ := covers_token.mp h
    obtain ⟨own, rest, rfl, hown, hrest⟩ := covers_node.mp h
    exact ⟨name, colon, own, rest, rfl, hname, hcolon, hown, hrest⟩
  · rintro ⟨name, colon, own, rest, rfl, hname, hcolon, hown, hrest⟩
    have htype : Covers (.type param.type :: parts) (own ++ rest) := .node hown hrest
    exact ⟨name, _, rfl, hname, covers_token.mpr ⟨colon, _, rfl, hcolon, htype⟩⟩

theorem covers_params {params : Params} : Covers (.params params :: parts) arrivals ↔
    ∃ own close rest, arrivals = own ++ close :: rest ∧ Covers params.parts own ∧
      close.token.kind = .closeParen ∧ params.range = params.extent close.start ∧
      Covers parts rest := by
  constructor
  · rintro ⟨⟩
    exact ⟨_, _, _, rfl, ‹_›, ‹_›, ‹_›, ‹_›⟩
  · rintro ⟨own, close, rest, rfl, hown, hclose, hrange, hrest⟩
    exact .params hown hclose hrange hrest

theorem covers_enclosed {range : Range} {docs? : Option (List String)} :
    Covers (Part.enclosed range docs? parts) arrivals ↔
      ∃ paren inner close, arrivals = paren :: inner ++ [close] ∧
        (Word.opening range.start docs?).Says paren ∧ Covers parts inner ∧
        (Word.closing range.stop).Says close := by
  rw [Part.enclosed, List.cons_append, covers_word]
  constructor
  · rintro ⟨paren, rest, rfl, hparen, hrest⟩
    obtain ⟨inner, last, rfl, hinner, hlast⟩ := Covers.append_iff.mp hrest
    obtain ⟨close, rest, rfl, hclose, hnil⟩ := covers_word.mp hlast
    rw [covers_nil.mp hnil]
    exact ⟨paren, inner, close, rfl, hparen, hinner, hclose⟩
  · rintro ⟨paren, inner, close, rfl, hparen, hinner, hclose⟩
    exact ⟨paren, inner ++ [close], rfl, hparen, hinner.append (.word hclose .nil)⟩

end

end TypedIsl

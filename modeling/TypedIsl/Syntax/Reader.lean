import TypedIsl.Syntax.OpenForm

/-!
# From tokens to syntax trees

Tokens are read from left to right, each one moving a `Progress` on. The first token that cannot
come next is an error, which names what was expected in its place. Docstrings may stand anywhere;
those directly before a definition are kept with it.
-/

namespace TypedIsl

/-- The first token at which a list of tokens cannot be a program, or its end. -/
structure SyntaxError where
  expected : Expectation
  /-- `none` at the end of the input. -/
  found? : Option TokenKind
  position : Position
  index : Nat
deriving DecidableEq

namespace SyntaxError

def found (e : SyntaxError) : String :=
  match e.found? with
  | some kind => kind.description
  | none => "end of input"

def message (e : SyntaxError) : String :=
  s!"expected {e.expected.text} at position {e.position.text}, token {e.index}, got {e.found}"

end SyntaxError

namespace Progress

/-- The beginning of a value. -/
def value? (context : Context .value) (arrival : Arrival) : Option Progress :=
  let token := arrival.token
  match token.kind with
  | .openParen => some (.opened arrival context)
  | .literal value => some (context.deliver (.literal token.range value))
  | .identifier name => some (context.deliver (.name ⟨name, token.range⟩))
  | _ => none

/-- The token after a parenthesis that opens a value. Anything but the keyword of a form begins
the callee of a call. -/
def openedValue? (start : Position) (context : Context .value) (arrival : Arrival) :
    Option Progress :=
  match arrival.token.kind with
  | .keyword .branch => some (.waiting (.values start .branch [] context))
  | .keyword .cond => some (.waiting (.arms start [] none context))
  | .keyword .lambda => some (.opening (.lambda start) context)
  | .keyword .locals => some (.opening (.locals start) context)
  | .keyword (.lets kind) => some (.opening (.lets start kind) context)
  | .keyword .require => some (.opening (.require start) context)
  | _ => value? (.values start .call [] context) arrival

/-- The token after a parenthesis. -/
def opened? {place : Place} (paren : Arrival) (context : Context place) (arrival : Arrival) :
    Option Progress :=
  match context with
  | .program read =>
      match arrival.token.kind with
      | .keyword .define => some (.opening (.define paren.start paren.docs) (.topDefinition read))
      | .keyword .defineStruct => some (.opening (.struct paren.start paren.docs) (.program read))
      | _ => openedValue? paren.start (.topValue read) arrival
  | .topValue read => openedValue? paren.start (.topValue read) arrival
  | .alone => openedValue? paren.start .alone arrival
  | .values start heading read outer =>
      openedValue? paren.start (.values start heading read outer) arrival
  | .arms start clauses otherwise? outer =>
      match arrival.token.kind, clauses with
      | .keyword .otherwise, [] => none
      | .keyword .otherwise, _ :: _ =>
          some (.waiting (.values paren.start .otherwise [] (.arms start clauses otherwise? outer)))
      | _, _ => value? (.values paren.start .clause [] (.arms start clauses otherwise? outer)) arrival
  | .topDefinition read =>
      match arrival.token.kind with
      | .keyword .define => some (.opening (.define paren.start paren.docs) (.topDefinition read))
      | _ => none
  | .definitions start read outer =>
      match arrival.token.kind with
      | .keyword .define =>
          some (.opening (.define paren.start paren.docs) (.definitions start read outer))
      | _ => none
  | .bindings start kind read outer =>
      let token := arrival.token
      match token.kind with
      | .identifier name =>
          some (.waiting (.values paren.start (.binding ⟨name, token.range⟩) []
            (.bindings start kind read outer)))
      | _ => none

/-- A token at a place. -/
def waiting? {place : Place} (context : Context place) (arrival : Arrival) : Option Progress :=
  let token := arrival.token
  match context with
  | .program read =>
      match token.kind with
      | .openParen => some (.opened arrival (.program read))
      | _ => value? (.topValue read) arrival
  | .topValue read => value? (.topValue read) arrival
  | .alone => value? .alone arrival
  | .values start heading read outer =>
      match token.kind with
      | .closeParen => (heading.build? ⟨start, token.range.stop⟩ read).map outer.deliver
      | _ =>
          if heading.wants read.length then value? (.values start heading read outer) arrival
          else none
  | .arms start clauses otherwise? outer =>
      match token.kind, otherwise? with
      | .openParen, none => some (.opened arrival (.arms start clauses none outer))
      | .closeParen, _ =>
          if clauses.isEmpty then none
          else some (outer.deliver (.cond ⟨start, token.range.stop⟩ clauses otherwise?))
      | _, _ => none
  | .topDefinition read =>
      match token.kind with
      | .openParen => some (.opened arrival (.topDefinition read))
      | _ => none
  | .definitions start read outer =>
      match token.kind with
      | .openParen => some (.opened arrival (.definitions start read outer))
      | .closeParen => some (.waiting (.values start (.locals read) [] outer))
      | _ => none
  | .bindings start kind read outer =>
      match token.kind with
      | .openParen => some (.opened arrival (.bindings start kind read outer))
      | .closeParen => some (.waiting (.values start (.lets kind read) [] outer))
      | _ => none

/-- A token in the beginning of a form. -/
def opening? {place : Place} (opening : Opening place) (context : Context place)
    (arrival : Arrival) : Option Progress :=
  let token := arrival.token
  match opening, token.kind with
  | .lambda start, .openParen => some (.opening (.params (.lambda start) (.names [])) context)
  | .locals start, .openParen => some (.waiting (.definitions start [] context))
  | .lets start kind, .openParen => some (.waiting (.bindings start kind [] context))
  | .require start, .identifier name =>
      some (.opening (.required start ⟨name, token.range⟩) context)
  | .required start library, .closeParen =>
      some (context.deliver (.require ⟨start, token.range.stop⟩ library))
  | .define start docs, .openParen => some (.opening (.function start docs) context)
  | .define start docs, .identifier name =>
      some (.waiting (.values start (.constant docs ⟨name, token.range⟩) [] context))
  | .function start docs, .identifier name =>
      some (.opening (.params (.function start docs ⟨name, token.range⟩) (.names [])) context)
  | .struct start docs, .identifier name =>
      some (.opening (.structName start docs ⟨name, token.range⟩) context)
  | .structName start docs name, .openParen =>
      some (.opening (.params (.struct start docs name) (.names [])) context)
  | .structFields start docs name fields, .closeParen =>
      some (context.deliver (.struct ⟨⟨start, token.range.stop⟩, docs, name, fields⟩))
  | .params owner read, kind =>
      match kind, read.finish? token.range.start with
      | .closeParen, some params => some (owner.resume params context)
      | _, _ => (read.accept? token).map fun read => .opening (.params owner read) context
  | _, _ => none

/-- The progress after one more token, if that token may come next. -/
def accept? (progress : Progress) (arrival : Arrival) : Option Progress :=
  match progress with
  | waiting context => waiting? context arrival
  | opened paren context => opened? paren context arrival
  | opening head context => opening? head context arrival
  | finished _ => none

/-- What may come next where nothing else does. -/
def expects : Progress → Expectation
  | waiting (.values _ heading read _) =>
      if heading.wants read.length then .expression else .closeParen
  | waiting (.arms _ clauses _ _) => if clauses.isEmpty then .clause else .closeParen
  | waiting (.topDefinition _) => .openParen
  | waiting (.definitions _ _ _) => .openParen
  | waiting (.bindings _ _ _ _) => .openParen
  | waiting _ => .expression
  | opened _ (.topDefinition _) => .define
  | opened _ (.definitions _ _ _) => .define
  | opened _ (.bindings _ _ _ _) => .identifier
  | opened _ _ => .expression
  | opening (.lambda _) _ => .openParen
  | opening (.locals _) _ => .openParen
  | opening (.lets _ _) _ => .openParen
  | opening (.require _) _ => .identifier
  | opening (.required _ _) _ => .closeParen
  | opening (.define _ _) _ => .identifier
  | opening (.function _ _) _ => .identifier
  | opening (.struct _ _) _ => .identifier
  | opening (.structName _ _ _) _ => .openParen
  | opening (.structFields _ _ _ _) _ => .closeParen
  | opening (.params _ read) _ => read.expects
  | finished _ => .endOfInput

/-- The error for a token that may not come next. An `else` arm before any clause is an error at
its parenthesis. -/
def rejection (progress : Progress) (arrival : Arrival) : SyntaxError :=
  match progress, arrival.token.kind with
  | opened paren (.arms _ [] _ _), .keyword .otherwise =>
      ⟨.clause, some paren.token.kind, paren.start, paren.index⟩
  | progress, kind => ⟨progress.expects, some kind, arrival.start, arrival.index⟩

def step (progress : Progress) (arrival : Arrival) : Except SyntaxError Progress :=
  match progress.accept? arrival with
  | some next => .ok next
  | none => .error (progress.rejection arrival)

/-- Reads tokens, the first of which has the given index and comes directly after `docs`. -/
def run (progress : Progress) (index : Nat) (docs : List String) :
    List Token → Except SyntaxError Progress
  | [] => .ok progress
  | token :: rest =>
      match token.kind with
      | .docstring text => progress.run (index + 1) (docs ++ [text]) rest
      | _ =>
          match progress.step ⟨token, index, docs⟩ with
          | .ok next => next.run (index + 1) [] rest
          | .error e => .error e

/-- The error for tokens that end too early. -/
def unfinished (progress : Progress) (tokens : List Token) : SyntaxError :=
  let position := match tokens.getLast? with
    | some last => last.range.stop
    | none => .first
  ⟨progress.expects, none, position, tokens.length⟩

end Progress

/-- Reads a whole program. -/
def parseProgram (tokens : List Token) : Except SyntaxError Program :=
  match (Progress.waiting (.program [])).run 0 [] tokens with
  | .ok (.waiting (.program read)) => .ok read
  | .ok progress => .error (progress.unfinished tokens)
  | .error e => .error e

/-- Reads a value that stands alone. -/
def parseValue (tokens : List Token) : Except SyntaxError Value :=
  match (Progress.waiting .alone).run 0 [] tokens with
  | .ok (.finished value) => .ok value
  | .ok progress => .error (progress.unfinished tokens)
  | .error e => .error e

end TypedIsl

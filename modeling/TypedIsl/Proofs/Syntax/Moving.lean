import TypedIsl.Proofs.Syntax.Placement
import TypedIsl.Proofs.Syntax.ProperEdits
import TypedIsl.Proofs.Token.Cutting

/-!
# Trees in another place

Moving the positions of a tree and those of the tokens that it covers leaves it on these tokens,
and changes nothing else about it.
-/

namespace TypedIsl

variable (f : Position → Position)

def Ident.move (ident : Ident) : Ident :=
  ⟨ident.name, ident.range.move f⟩

mutual

def TypeExpr.move : TypeExpr → TypeExpr
  | .named name => .named (name.move f)
  | .apply range function args => .apply (range.move f) (function.move f) (TypeExpr.moveAll args)

def TypeExpr.moveAll : List TypeExpr → List TypeExpr
  | [] => []
  | type :: types => type.move :: TypeExpr.moveAll types

end

def TypedParam.move (param : TypedParam) : TypedParam :=
  ⟨param.name.move f, param.type.move f⟩

def Params.move : Params → Params
  | typed range params result? =>
      .typed (range.move f) (params.map (TypedParam.move f)) (result?.map (TypeExpr.move f))
  | untyped range names => .untyped (range.move f) (names.map (Ident.move f))

/-- Moves every position of a tree. -/
def Edit.moving : Edit :=
  ⟨Range.move f, Params.move f, id⟩

@[simp] theorem Edit.moving_range (range : Range) : (moving f).range range = range.move f := rfl

@[simp] theorem Edit.moving_params (params : Params) :
    (moving f).params params = params.move f := rfl

@[simp] theorem Edit.moving_docs (docs : List String) : (moving f).docs docs = docs := rfl

/-! ## What a move keeps -/

mutual

theorem TypeExpr.unranged_move (type : TypeExpr) : (type.move f).unranged = type.unranged := by
  match type with
  | .named name => rfl
  | .apply _ function args =>
      simp [TypeExpr.move, TypeExpr.unranged, TypeExpr.unrangedAll_moveAll args, Ident.move,
        Ident.unranged]
termination_by structural type

theorem TypeExpr.unrangedAll_moveAll (types : List TypeExpr) :
    TypeExpr.unrangedAll (TypeExpr.moveAll f types) = TypeExpr.unrangedAll types := by
  match types with
  | [] => rfl
  | type :: types =>
      simp [TypeExpr.moveAll, TypeExpr.unrangedAll, TypeExpr.unranged_move type,
        TypeExpr.unrangedAll_moveAll types]
termination_by structural types

end

theorem TypedParam.unranged_move (param : TypedParam) :
    (param.move f).unranged = param.unranged := by
  simp [TypedParam.move, TypedParam.unranged, TypeExpr.unranged_move, Ident.move, Ident.unranged]

theorem Params.unranged_move (params : Params) : (params.move f).unranged = params.unranged := by
  cases params with
  | untyped range names => simp [Params.move, Params.unranged, Ident.move, Ident.unranged]
  | typed range params result? =>
      simp [Params.move, Params.unranged, Function.comp_def, TypedParam.unranged_move,
        TypeExpr.unranged_move]

theorem Edit.moving_andThen_positions : (moving f).andThen positions = positions := by
  have hparams : Params.unranged ∘ Params.move f = Params.unranged :=
    funext (Params.unranged_move f)
  simp only [andThen, moving, positions, hparams]
  rfl

theorem Value.unranged_move (value : Value) :
    (value.edit (.moving f)).unranged = value.unranged := by
  rw [Value.unranged, Value.edit_edit, Edit.moving_andThen_positions, Value.unranged]

theorem Program.unranged_move (program : Program) :
    Program.unranged (edit (.moving f) program) = unranged program := by
  rw [unranged, edit_edit, Edit.moving_andThen_positions, unranged]

theorem keepsProper_moving (doc : String → Prop) : (Edit.moving f).KeepsProper doc doc := by
  refine ⟨fun params hparams => ?_, fun docs hdocs => hdocs⟩
  cases params with
  | untyped range names => trivial
  | typed range params result? =>
      replace hparams : params ≠ [] := hparams
      simpa [Edit.moving, Params.move, Params.Proper] using hparams

/-! ## Moving nodes -/

def Node.move : Node → Node
  | ident form => .ident (form.move f)
  | type form => .type (form.move f)
  | params form => .params (form.move f)
  | value form => .value (form.edit (.moving f))
  | clause form => .clause (form.edit (.moving f))
  | binding form => .binding (form.edit (.moving f))
  | definition form => .definition (form.edit (.moving f))
  | struct form => .struct (form.edit (.moving f))

def Word.move : Word → Word
  | token kind => .token kind
  | exact kind range => .exact kind (range.move f)
  | opening start docs? => .opening (f start) docs?
  | closing stop => .closing (f stop)

def Part.move : Part → Part
  | word inner => .word (inner.move f)
  | node inner => .node (inner.move f)
  | params list => .params (list.move f)

theorem map_move_enclosed (range : Range) (docs? : Option (List String)) (parts : List Part) :
    (Part.enclosed range docs? parts).map (Part.move f) =
      Part.enclosed (range.move f) docs? (parts.map (Part.move f)) := by
  simp [Part.enclosed, Part.move, Word.move, Range.move]

theorem TypeExpr.moveAll_eq (types : List TypeExpr) :
    TypeExpr.moveAll f types = types.map (TypeExpr.move f) := by
  induction types with
  | nil => rfl
  | cons type types ih => rw [TypeExpr.moveAll, ih, List.map_cons]

theorem TypeExpr.parts_move (type : TypeExpr) :
    (type.move f).parts = type.parts.map (Part.move f) := by
  cases type with
  | named name => rfl
  | apply range function args =>
      simp [TypeExpr.move, TypeExpr.parts, map_move_enclosed, TypeExpr.moveAll_eq,
        Function.comp_def, Part.move, Node.move]

theorem TypedParam.parts_move (param : TypedParam) :
    (param.move f).parts = param.parts.map (Part.move f) := by
  simp [TypedParam.parts, TypedParam.move, Part.move, Node.move, Word.move]

theorem TypedParam.allParts_move (params : List TypedParam) :
    TypedParam.allParts (params.map (TypedParam.move f)) =
      (TypedParam.allParts params).map (Part.move f) := by
  cases params with
  | nil => rfl
  | cons param params =>
      simp [TypedParam.allParts, TypedParam.parts_move, List.flatMap_map, List.map_flatMap,
        Part.move, Word.move]

theorem Params.parts_move (params : Params) :
    (params.move f).parts = params.parts.map (Part.move f) := by
  match params with
  | .untyped _ names => simp [Params.move, Params.parts, Part.move, Node.move]
  | .typed _ list none => exact TypedParam.allParts_move f list
  | .typed _ list (some declared) =>
      simp [Params.move, Params.parts, TypedParam.allParts_move, Part.move, Node.move, Word.move]

theorem Params.extent_move (params : Params) (closing : Position) :
    (params.move f).extent (f closing) = (params.extent closing).move f := by
  have htype : ∀ type : TypeExpr, (type.move f).range = type.range.move f := by
    intro type
    cases type <;> rfl
  match params with
  | .untyped _ names =>
      simp only [Params.move, Params.extent, OpenParams.untypedRange, List.head?_map,
        List.getLast?_map]
      cases names.head? <;> cases names.getLast? <;> rfl
  | .typed _ list result? =>
      simp only [Params.move, Params.extent, OpenParams.typedRange, List.head?_map,
        List.getLast?_map]
      cases list.head? <;> cases result? <;> cases list.getLast? <;>
        simp [Range.move, TypedParam.move, Ident.move, htype]

theorem Value.parts_move (value : Value) :
    (value.edit (.moving f)).parts = value.parts.map (Part.move f) := by
  cases value with
  | literal | name => rfl
  | cond range clauses otherwise? =>
      cases otherwise? <;>
        simp [Value.edit, Value.parts, map_move_enclosed, Clause.editAll_eq, Function.comp_def,
          Part.move, Node.move, Word.move, Edit.moving]
  | _ =>
      simp [Value.edit, Value.parts, map_move_enclosed, Value.editAll_eq, LetBinding.editAll_eq,
        Definition.editAll_eq, Function.comp_def, Part.move, Node.move, Word.move, Edit.moving,
        Ident.edit, Ident.move]

theorem Node.parts_move (node : Node) : (node.move f).parts = node.parts.map (Part.move f) := by
  match node with
  | ident _ => rfl
  | type form => exact form.parts_move f
  | params form => exact form.parts_move f
  | value form => exact form.parts_move f
  | clause (.mk ..) | binding (.mk ..) | definition (.function ..) | definition (.constant ..)
  | struct ⟨_, _, _, _⟩ =>
      simp [Node.parts, Node.move, Clause.edit, LetBinding.edit, Definition.edit,
        Definition.parts, StructDefinition.edit, map_move_enclosed, Part.move, Word.move,
        Edit.moving, Ident.edit, Ident.move]

theorem Program.parts_move (program : Program) :
    Program.parts (edit (.moving f) program) = program.parts.map (Part.move f) := by
  have hnode : ∀ form : TopLevel, (form.edit (.moving f)).node = form.node.move f := by
    intro form
    cases form <;> rfl
  simp only [parts, edit, List.map_map, Function.comp_def, hnode]
  rfl

/-! ## Moving tokens -/

/-- Moves a token, counting tokens anew from the one with index `base`. -/
def Arrival.move (base : Nat) (arrival : Arrival) : Arrival :=
  ⟨arrival.token.move f, arrival.index - base, arrival.docs⟩

theorem Word.Says.move {arrival : Arrival} {word : Word} (h : word.Says arrival) (base : Nat) :
    (word.move f).Says (arrival.move f base) := by
  cases word with
  | token kind => exact h
  | exact kind range => exact congrArg (Token.move f) h
  | opening start docs? => exact ⟨h.1, congrArg f h.2.1, h.2.2⟩
  | closing stop => exact ⟨h.1, congrArg f h.2⟩

theorem Covers.move {parts : List Part} {own : List Arrival} (h : Covers parts own) (base : Nat) :
    Covers (parts.map (Part.move f)) (own.map (Arrival.move f base)) := by
  induction h with
  | nil => exact .nil
  | word h _ ih => exact .word (h.move f base) ih
  | @node node _ _ _ _ _ ihown ih =>
      rw [List.map_append]
      rw [← node.parts_move] at ihown
      exact .node ihown ih
  | @params params _ close _ _ _ hclose hrange _ ihown ih =>
      rw [List.map_append]
      rw [← params.parts_move] at ihown
      refine .params ihown hclose ?_ ih
      have hstart : (close.move f base).start = f close.start := rfl
      rw [hstart, params.extent_move, ← hrange]
      cases params <;> rfl

theorem arrivals_move (index base : Nat) (docs : List String) (tokens : List Token) :
    arrivals index docs (tokens.map (Token.move f)) =
      (arrivals (index + base) docs tokens).map (Arrival.move f base) := by
  induction tokens generalizing index docs with
  | nil => rfl
  | cons token rest ih =>
      have hindex : index + base + 1 = index + 1 + base := by omega
      rcases token.kind.docstring_or_spoken with ⟨text, htext⟩ | hspoken
      · have hmoved : (token.move f).kind = .docstring text := htext
        rw [List.map_cons, arrivals_docstring hmoved, arrivals_docstring htext, ih, hindex]
      · have hmoved : ∀ text, (token.move f).kind = .docstring text → False := hspoken
        rw [List.map_cons, arrivals_spoken hmoved, arrivals_spoken hspoken, ih, hindex,
          List.map_cons, Arrival.move, Nat.add_sub_cancel]

end TypedIsl

import TypedIsl.Proofs.Syntax.Placement

/-!
# The tokens of the nodes of a program

Each node of a program that is read has its own stretch among the tokens: the tokens that its
parts cover. They say what the node says.
-/

namespace TypedIsl

/-! ## What a node says -/

def Word.kind : Word → TokenKind
  | token kind => kind
  | exact kind _ => kind
  | opening _ _ => .openParen
  | closing _ => .closeParen

def Part.kinds : Part → List TokenKind
  | word inner => [inner.kind]
  | node inner => inner.kinds
  | params list => list.kinds ++ [.closeParen]

theorem flatMap_kinds_enclosed (range : Range) (docs? : Option (List String)) (parts : List Part) :
    (Part.enclosed range docs? parts).flatMap Part.kinds =
      TypedIsl.enclosed (parts.flatMap Part.kinds) := by
  simp [Part.enclosed, Part.kinds, Word.kind, TypedIsl.enclosed]

theorem TypedParam.flatMap_kinds_parts (param : TypedParam) :
    param.parts.flatMap Part.kinds = param.kinds := by
  simp [TypedParam.parts, TypedParam.kinds, Part.kinds, Word.kind, Node.kinds]

theorem TypedParam.flatMap_kinds_allParts (params : List TypedParam) :
    (TypedParam.allParts params).flatMap Part.kinds = TypedParam.allKinds params := by
  cases params with
  | nil => rfl
  | cons param params =>
      rw [TypedParam.allKinds_cons]
      simp [TypedParam.allParts, TypedParam.flatMap_kinds_parts, List.flatMap_assoc, Part.kinds,
        Word.kind]

theorem TypeExpr.flatMap_kinds_parts (type : TypeExpr) :
    type.parts.flatMap Part.kinds = type.kinds := by
  cases type with
  | named name => rfl
  | apply range function args =>
      simp [TypeExpr.parts, TypeExpr.kinds, flatMap_kinds_enclosed, Part.kinds, Node.kinds,
        TypeExpr.allKinds_eq, List.flatMap_map]

theorem Params.flatMap_kinds_parts (params : Params) :
    params.parts.flatMap Part.kinds = params.kinds := by
  match params with
  | .untyped _ names =>
      rw [Params.parts, List.flatMap_map]
      exact List.map_eq_flatMap.symm
  | .typed _ list none => exact TypedParam.flatMap_kinds_allParts list
  | .typed _ list (some declared) =>
      simp [Params.parts, Params.kinds, Part.kinds, Word.kind, Node.kinds,
        TypedParam.flatMap_kinds_allParts]

theorem Value.flatMap_kinds_parts (value : Value) :
    value.parts.flatMap Part.kinds = value.kinds := by
  cases value with
  | literal | name => rfl
  | cond range clauses otherwise? =>
      cases otherwise? <;>
        simp [Value.parts, Value.kinds, flatMap_kinds_enclosed, TypedIsl.enclosed, Part.kinds,
          Word.kind, Node.kinds, Clause.allKinds_eq, List.flatMap_map]
  | _ =>
      simp [Value.parts, Value.kinds, flatMap_kinds_enclosed, TypedIsl.enclosed, Part.kinds,
        Word.kind, Node.kinds, Value.allKinds_eq, LetBinding.allKinds_eq, Definition.allKinds_eq,
        List.flatMap_map]

theorem Node.flatMap_kinds_parts (node : Node) : node.parts.flatMap Part.kinds = node.kinds := by
  match node with
  | ident _ => rfl
  | type form => exact form.flatMap_kinds_parts
  | params form => exact form.flatMap_kinds_parts
  | value form => exact form.flatMap_kinds_parts
  | clause (.mk ..) | binding (.mk ..) | definition (.function ..) | definition (.constant ..)
  | struct ⟨_, _, _, _⟩ =>
      simp [Node.parts, Node.kinds, Clause.kinds, LetBinding.kinds, Definition.parts,
        Definition.kinds, StructDefinition.kinds, flatMap_kinds_enclosed, TypedIsl.enclosed,
        Part.kinds, Word.kind]

theorem said_append (own rest : List Arrival) : said (own ++ rest) = said own ++ said rest :=
  List.map_append

theorem Word.Says.kind_eq {arrival : Arrival} {word : Word} (h : word.Says arrival) :
    arrival.token.kind = word.kind := by
  cases word with
  | token kind => exact h
  | exact kind range => exact congrArg Token.kind h
  | opening start docs? => exact h.1
  | closing stop => exact h.1

/-- Tokens say what the parts say that they stand for. -/
theorem Covers.said_eq {parts : List Part} {own : List Arrival} (h : Covers parts own) :
    said own = parts.flatMap Part.kinds := by
  induction h with
  | nil => rfl
  | word h _ ih =>
      rw [List.flatMap_cons, ← ih]
      exact congrArg (· :: _) h.kind_eq
  | @node node _ _ _ _ _ ihown ih =>
      rw [said_append, ihown, ih, List.flatMap_cons, node.flatMap_kinds_parts]
      rfl
  | @params params _ _ _ _ _ hclose _ _ ihown ih =>
      rw [said_append, ihown, List.flatMap_cons, params.flatMap_kinds_parts, Part.kinds,
        List.append_assoc, ← ih, ← hclose]
      rfl

theorem Covers.said_node {node : Node} {own : List Arrival} (h : Covers node.parts own) :
    said own = node.kinds :=
  h.said_eq.trans node.flatMap_kinds_parts

/-! ## Proper nodes -/

def Node.Proper (doc : String → Prop) : Node → Prop
  | ident _ => True
  | type _ => True
  | params form => form.Proper
  | value form => form.Proper doc
  | clause form => form.Proper doc
  | binding form => form.Proper doc
  | definition form => form.Proper doc
  | struct form => form.Proper doc

/-- Docstrings are no parts. Parameter lists are parts only together with their closing
parentheses. -/
def Part.Proper (doc : String → Prop) : Part → Prop
  | word inner => inner.kind.isDocstring = false
  | node (.params _) => False
  | node inner => inner.Proper doc
  | params list => list.Proper

section

variable {doc : String → Prop}

theorem Part.proper_enclosed {range : Range} {docs? : Option (List String)} {parts : List Part}
    (h : ∀ part ∈ parts, part.Proper doc) :
    ∀ part ∈ Part.enclosed range docs? parts, part.Proper doc := by
  intro part hpart
  rw [Part.enclosed, List.mem_append, List.mem_cons, List.mem_singleton] at hpart
  rcases hpart with (rfl | hpart) | rfl
  · rfl
  · exact h part hpart
  · rfl

theorem TypedParam.proper_allParts (params : List TypedParam) :
    ∀ part ∈ TypedParam.allParts params, part.Proper doc := by
  have hparts : ∀ param : TypedParam, ∀ part ∈ param.parts, part.Proper doc := by
    simp [TypedParam.parts, Part.Proper, Node.Proper, Word.kind, TokenKind.isDocstring]
  cases params with
  | nil => simp [TypedParam.allParts]
  | cons param params =>
      refine List.forall_mem_append.mpr ⟨hparts param, ?_⟩
      intro part hpart
      obtain ⟨other, -, hpart⟩ := List.mem_flatMap.mp hpart
      rcases List.mem_cons.mp hpart with rfl | hpart
      · rfl
      · exact hparts other part hpart

theorem Params.proper_parts (params : Params) : ∀ part ∈ params.parts, part.Proper doc := by
  match params with
  | .untyped _ names => simp [Params.parts, Part.Proper, Node.Proper]
  | .typed _ list none => exact TypedParam.proper_allParts list
  | .typed _ list (some declared) =>
      refine List.forall_mem_append.mpr ⟨TypedParam.proper_allParts list, ?_⟩
      simp [Part.Proper, Node.Proper, Word.kind, TokenKind.isDocstring]

theorem Value.proper_parts {value : Value} (h : value.Proper doc) :
    ∀ part ∈ value.parts, part.Proper doc := by
  match value with
  | .literal .. | .name .. =>
      simp [Value.parts, Part.Proper, Node.Proper, Word.kind, TokenKind.isDocstring]
  | .branch .. | .cond _ _ none | .cond _ _ (some _) | .lambda .. | .locals .. | .lets ..
  | .require .. | .call .. =>
      refine Part.proper_enclosed ?_
      simp_all [Value.Proper, Value.allProper_iff, Clause.allProper_iff, LetBinding.allProper_iff,
        Definition.allProper_iff, Part.Proper, Node.Proper, Word.kind, TokenKind.isDocstring,
        or_imp]

theorem Node.Proper.parts {node : Node} (h : node.Proper doc) :
    ∀ part ∈ node.parts, part.Proper doc := by
  match node with
  | ident _ => simp [Node.parts, Part.Proper, Word.kind, Ident.kind, TokenKind.isDocstring]
  | type (.named _) => simp [Node.parts, TypeExpr.parts, Part.Proper, Node.Proper]
  | type (.apply ..) =>
      refine Part.proper_enclosed ?_
      simp [Part.Proper, Node.Proper]
  | params form => exact form.proper_parts
  | value form => exact Value.proper_parts h
  | clause (.mk ..) | binding (.mk ..) | definition (.function ..) | definition (.constant ..)
  | struct ⟨_, _, _, _⟩ =>
      refine Part.proper_enclosed ?_
      simp_all [Node.Proper, Clause.Proper, LetBinding.Proper, Definition.Proper,
        StructDefinition.Proper, Part.Proper, Word.kind, TokenKind.isDocstring]

theorem Part.Proper.child {part : Part} {child : Node} (h : part.Proper doc)
    (hchild : part.child? = some child) : child.Proper doc := by
  match part with
  | word _ => exact absurd hchild (by simp [Part.child?])
  | node inner =>
      obtain rfl := Option.some.inj hchild
      cases inner <;> first | exact h.elim | exact h
  | params list =>
      obtain rfl := Option.some.inj hchild
      exact h

end

/-- Tokens that proper parts stand for are not docstrings. -/
theorem Covers.spoken {doc : String → Prop} {parts : List Part} {own : List Arrival}
    (h : Covers parts own) (hproper : ∀ part ∈ parts, part.Proper doc) :
    ∀ arrival ∈ own, arrival.token.kind.isDocstring = false := by
  induction h with
  | nil => simp
  | word hword _ ih =>
      obtain ⟨hpart, hproper⟩ := List.forall_mem_cons.mp hproper
      refine List.forall_mem_cons.mpr ⟨?_, ih hproper⟩
      rw [hword.kind_eq]
      exact hpart
  | node _ _ ihown ih =>
      obtain ⟨hpart, hproper⟩ := List.forall_mem_cons.mp hproper
      refine List.forall_mem_append.mpr ⟨ihown ?_, ih hproper⟩
      exact Node.Proper.parts (hpart.child rfl)
  | params _ hclose _ _ ihown ih =>
      obtain ⟨-, hproper⟩ := List.forall_mem_cons.mp hproper
      refine List.forall_mem_append.mpr ⟨ihown (Params.proper_parts _),
        List.forall_mem_cons.mpr ⟨?_, ih hproper⟩⟩
      rw [hclose]
      rfl

/-! ## Where a node stands -/

/-- The node has its own stretch among the tokens. A parameter list stands before the parenthesis
that closes it. -/
structure Node.StandsAt (node : Node) (own after : List Arrival) : Prop where
  covers : Covers node.parts own
  closed : ∀ list, node = .params list → ∃ close rest, after = close :: rest ∧
    close.token.kind = .closeParen ∧ list.range = list.extent close.start

theorem Covers.child {doc : String → Prop} {parts : List Part} {own : List Arrival} {child : Node}
    (h : Covers parts own) (hproper : ∀ part ∈ parts, part.Proper doc)
    (hchild : child ∈ parts.filterMap Part.child?) :
    ∃ before inner after, own = before ++ inner ++ after ∧ child.StandsAt inner after := by
  induction h with
  | nil => exact absurd hchild (by simp)
  | @word _ arrival _ _ _ _ ih =>
      obtain ⟨-, hproper⟩ := List.forall_mem_cons.mp hproper
      obtain ⟨before, inner, after, rfl, hstands⟩ := ih hproper hchild
      exact ⟨arrival :: before, inner, after, rfl, hstands⟩
  | @node node own _ rest hown _ _ ih =>
      obtain ⟨hnode, hproper⟩ := List.forall_mem_cons.mp hproper
      rcases List.mem_cons.mp hchild with rfl | hchild
      · refine ⟨[], own, rest, rfl, hown, ?_⟩
        rintro list rfl
        exact hnode.elim
      · obtain ⟨before, inner, after, rfl, hstands⟩ := ih hproper hchild
        exact ⟨own ++ before, inner, after, by simp, hstands⟩
  | @params params own close _ rest hown hclose hrange _ _ ih =>
      obtain ⟨hnode, hproper⟩ := List.forall_mem_cons.mp hproper
      rcases List.mem_cons.mp hchild with rfl | hchild
      · refine ⟨[], own, close :: rest, rfl, hown, ?_⟩
        rintro list h
        obtain rfl := Node.params.inj h
        exact ⟨close, rest, rfl, hclose, hrange⟩
      · obtain ⟨before, inner, after, rfl, hstands⟩ := ih hproper hchild
        exact ⟨own ++ close :: before, inner, after, by simp, hstands⟩

theorem Node.StandsAt.append {node : Node} {own after : List Arrival} (h : node.StandsAt own after)
    (more : List Arrival) : node.StandsAt own (after ++ more) := by
  refine ⟨h.covers, fun list hlist => ?_⟩
  obtain ⟨close, rest, rfl, hclose, hrange⟩ := h.closed list hlist
  exact ⟨close, rest ++ more, rfl, hclose, hrange⟩

/-- Every node of a proper tree is proper and stands somewhere among its tokens. -/
theorem Node.Contains.stands {doc : String → Prop} {node inner : Node} {stream : List Arrival}
    (h : node.Contains inner) (hproper : node.Proper doc)
    (hstands : ∃ before own after, stream = before ++ own ++ after ∧ node.StandsAt own after) :
    inner.Proper doc ∧
      ∃ before own after, stream = before ++ own ++ after ∧ inner.StandsAt own after := by
  induction h with
  | refl => exact ⟨hproper, hstands⟩
  | child _ hchild ih =>
      -- A child has a stretch of the tokens of its parent, which has one of `stream`.
      obtain ⟨hproper, before, own, after, rfl, hown⟩ := ih
      have hparts := Node.Proper.parts hproper
      obtain ⟨part, hpart, hchild'⟩ := List.mem_filterMap.mp hchild
      refine ⟨(hparts part hpart).child hchild', ?_⟩
      obtain ⟨front, inner, back, rfl, hinner⟩ := hown.covers.child hparts hchild
      exact ⟨before ++ front, inner, back ++ after, by simp, hinner.append after⟩

section

variable {doc : String → Prop} {program : Program}

theorem Program.proper_parts (h : Program.Proper doc program) :
    ∀ part ∈ program.parts, part.Proper doc := by
  intro part hpart
  obtain ⟨form, hform, rfl⟩ := List.mem_map.mp hpart
  have hproper := h form hform
  cases form <;> exact hproper

theorem Program.filterMap_child?_parts (program : Program) :
    program.parts.filterMap Part.child? = program.map TopLevel.node := by
  rw [Program.parts, List.filterMap_map]
  exact congrFun (List.filterMap_eq_map (f := TopLevel.node)) program

/-- The nodes of a program that is read stand among the tokens that it is read from. -/
theorem node_stands {tokens : List Token} (h : parseProgram tokens = .ok program)
    {form : TopLevel} (hform : form ∈ program) {node : Node} (hnode : form.node.Contains node) :
    node.Proper anyDoc ∧ ∃ before own after,
      arrivals 0 [] tokens = before ++ own ++ after ∧ node.StandsAt own after := by
  obtain ⟨hproper, hcovers⟩ := covers_of_parseProgram h
  have hparts := Program.proper_parts hproper
  have hchild : form.node ∈ program.parts.filterMap Part.child? := by
    rw [Program.filterMap_child?_parts]
    exact List.mem_map_of_mem hform
  obtain ⟨part, hpart, hpartChild⟩ := List.mem_filterMap.mp hchild
  exact hnode.stands ((hparts part hpart).child hpartChild) (hcovers.child hparts hchild)

end

end TypedIsl

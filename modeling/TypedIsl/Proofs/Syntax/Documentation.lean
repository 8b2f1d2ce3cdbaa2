import Mathlib.Data.List.DropRight
import Mathlib.Data.List.Flatten
import Mathlib.Data.List.Forall2
import TypedIsl.Proofs.Syntax.NodeTokens
import TypedIsl.Proofs.Syntax.Undocumented

/-!
# Docstrings and the definitions that keep them

Docstrings may stand between any two tokens. Those directly before the parenthesis of a definition
are kept by it, and all others are lost.
-/

namespace TypedIsl

/-! ## The definitions of a program -/

mutual

/-- The definitions in a value, in the order in which they start. -/
def Value.definitions : Value → List Definition
  | .literal .. | .name .. | .require .. => []
  | .branch _ condition thenArm elseArm =>
      condition.definitions ++ thenArm.definitions ++ elseArm.definitions
  | .cond _ clauses none => Clause.allDefinitions clauses
  | .cond _ clauses (some otherwise) => Clause.allDefinitions clauses ++ otherwise.definitions
  | .lambda _ _ body => body.definitions
  | .locals _ definitions body => Definition.allDefinitions definitions ++ body.definitions
  | .lets _ _ bindings body => LetBinding.allDefinitions bindings ++ body.definitions
  | .call _ callee args => callee.definitions ++ Value.allDefinitions args

def Value.allDefinitions : List Value → List Definition
  | [] => []
  | value :: values => value.definitions ++ Value.allDefinitions values

def Clause.definitions : Clause → List Definition
  | .mk _ condition body => condition.definitions ++ body.definitions

def Clause.allDefinitions : List Clause → List Definition
  | [] => []
  | clause :: clauses => clause.definitions ++ Clause.allDefinitions clauses

def LetBinding.definitions : LetBinding → List Definition
  | .mk _ _ value => value.definitions

def LetBinding.allDefinitions : List LetBinding → List Definition
  | [] => []
  | binding :: bindings => binding.definitions ++ LetBinding.allDefinitions bindings

/-- The definition itself and those inside it. -/
def Definition.definitions : Definition → List Definition
  | .function range docs name params body =>
      .function range docs name params body :: body.definitions
  | .constant range docs name value => .constant range docs name value :: value.definitions

def Definition.allDefinitions : List Definition → List Definition
  | [] => []
  | definition :: definitions => definition.definitions ++ Definition.allDefinitions definitions

end

theorem Value.allDefinitions_eq (values : List Value) :
    Value.allDefinitions values = values.flatMap Value.definitions :=
  eq_flatMap_of_cons rfl (fun _ _ => rfl) values

theorem Clause.allDefinitions_eq (clauses : List Clause) :
    Clause.allDefinitions clauses = clauses.flatMap Clause.definitions :=
  eq_flatMap_of_cons rfl (fun _ _ => rfl) clauses

theorem LetBinding.allDefinitions_eq (bindings : List LetBinding) :
    LetBinding.allDefinitions bindings = bindings.flatMap LetBinding.definitions :=
  eq_flatMap_of_cons rfl (fun _ _ => rfl) bindings

theorem Definition.allDefinitions_eq (definitions : List Definition) :
    Definition.allDefinitions definitions = definitions.flatMap Definition.definitions :=
  eq_flatMap_of_cons rfl (fun _ _ => rfl) definitions

/-- The definitions and structs in a node, in the order in which they start. -/
def Node.definitions : Node → List Node
  | ident _ => []
  | type _ => []
  | params _ => []
  | value form => form.definitions.map .definition
  | clause form => form.definitions.map .definition
  | binding form => form.definitions.map .definition
  | definition form => form.definitions.map .definition
  | struct form => [.struct form]

/-- All definitions and structs of a program, in the order in which they start. -/
def Program.definitions (program : Program) : List Node :=
  program.flatMap fun form => form.node.definitions

/-- The docstrings that a node keeps. -/
def Node.docs : Node → List String
  | definition form => form.docs
  | struct form => form.docs
  | _ => []

def Part.definitions : Part → List Node
  | .node inner => inner.definitions
  | _ => []

/-! ## Docstrings among tokens -/

namespace TokenKind

/-- The keywords of definitions and structs. -/
def isDefining : TokenKind → Bool
  | keyword .define => true
  | keyword .defineStruct => true
  | _ => false

def docText? : TokenKind → Option String
  | docstring text => some text
  | _ => none

end TokenKind

/-- The texts of the docstrings at the end of the tokens, after all other tokens. -/
def trailingDocs (tokens : List Token) : List String :=
  (tokens.rtakeWhile (·.kind.isDocstring)).filterMap (·.kind.docText?)

/-- The token at the index is a parenthesis, and the next one that is no docstring is `define` or
`define-struct`. -/
def opensDefinition (tokens : List Token) (index : Nat) : Bool :=
  match tokens.drop index with
  | [] => false
  | paren :: rest =>
      paren.kind = .openParen && (spoken rest).head?.any (·.kind.isDefining)

/-- The indices of the parentheses that open definitions and structs. -/
def definitionIndices (tokens : List Token) : List Nat :=
  (List.range tokens.length).filter (opensDefinition tokens)

/-- The parentheses right before `define` and `define-struct`. The first of the tokens comes after
`before?`. -/
def definitionParens (before? : Option Arrival) : List Arrival → List Arrival
  | [] => []
  | arrival :: rest =>
      (if arrival.token.kind.isDefining then
        before?.toList.filter (·.token.kind = .openParen) else []) ++
      definitionParens (some arrival) rest

section

variable {before? : Option Arrival} {own rest : List Arrival}

theorem definitionParens_append (before? : Option Arrival) (own rest : List Arrival) :
    ∃ later?, definitionParens before? (own ++ rest) =
      definitionParens before? own ++ definitionParens later? rest := by
  induction own generalizing before? with
  | nil => exact ⟨before?, rfl⟩
  | cons arrival own ih =>
      obtain ⟨later?, hlater⟩ := ih (some arrival)
      exact ⟨later?, by simp [definitionParens, hlater]⟩

theorem definitionParens_sublist :
    (definitionParens before? own).Sublist (before?.toList ++ own) := by
  induction own generalizing before? with
  | nil => exact List.nil_sublist _
  | cons arrival own ih =>
      refine List.Sublist.append ?_ ih
      split
      · exact List.filter_sublist
      · exact List.nil_sublist _

theorem definitionParens_cons {arrival : Arrival} (h : arrival.token.kind.isDefining = false) :
    definitionParens before? (arrival :: rest) = definitionParens (some arrival) rest := by
  simp [definitionParens, h]

end

/-! ## Which parenthesis opens which definition -/

/-- The parenthesis stands where the node starts, and has the docstrings that it keeps. -/
def Node.OpenedBy (node : Node) (paren : Arrival) : Prop :=
  paren.start = node.range.start ∧ paren.docs = node.docs

/-- A part that is not the keyword of a definition. -/
def Part.Inner : Part → Prop
  | .word inner => inner.kind.isDefining = false
  | _ => True

/-- Parts of a node that is no definition: no keyword of a definition is among them. -/
structure Node.Spreads (node : Node) : Prop where
  inner : ∀ part ∈ node.parts, part.Inner
  definitions_eq : node.definitions = node.parts.flatMap Part.definitions

/-- The parts of a node that is a definition: after its parenthesis comes the keyword. -/
structure Node.Heads (node : Node) (kind : TokenKind) (rest : List Part) : Prop where
  parts_eq : node.parts =
    .word (.opening node.range.start (some node.docs)) :: .token kind :: rest
  isDefining_eq : kind.isDefining = true
  inner : ∀ part ∈ rest, part.Inner
  definitions_eq : node.definitions = node :: rest.flatMap Part.definitions

theorem Part.inner_enclosed {range : Range} {docs? : Option (List String)} {parts : List Part}
    (h : ∀ part ∈ parts, part.Inner) : ∀ part ∈ enclosed range docs? parts, part.Inner := by
  simpa [enclosed, Inner, Word.kind, TokenKind.isDefining, or_imp, forall_and] using h

theorem Part.definitions_enclosed (range : Range) (docs? : Option (List String))
    (parts : List Part) :
    (enclosed range docs? parts).flatMap definitions = parts.flatMap definitions := by
  simp [enclosed, definitions]

theorem TypeExpr.spreads (type : TypeExpr) : (Node.type type).Spreads := by
  cases type with
  | named name => exact ⟨by simp [Node.parts, TypeExpr.parts, Part.Inner], rfl⟩
  | apply range function args =>
      refine ⟨Part.inner_enclosed (by simp [Part.Inner]), ?_⟩
      simp [Node.parts, TypeExpr.parts, Part.definitions_enclosed, Part.definitions,
        Node.definitions, List.flatMap_map]

theorem TypedParam.spreads (params : List TypedParam) :
    ∀ part ∈ TypedParam.allParts params, part.Inner ∧ part.definitions = [] := by
  have hparts : ∀ param : TypedParam, ∀ part ∈ param.parts,
      part.Inner ∧ part.definitions = [] := by
    simp [TypedParam.parts, Part.Inner, Part.definitions, Node.definitions, Word.kind,
      TokenKind.isDefining]
  cases params with
  | nil => simp [TypedParam.allParts]
  | cons param params =>
      refine List.forall_mem_append.mpr ⟨hparts param, fun part hpart => ?_⟩
      obtain ⟨other, -, hpart⟩ := List.mem_flatMap.mp hpart
      rcases List.mem_cons.mp hpart with rfl | hpart
      · exact ⟨rfl, rfl⟩
      · exact hparts other part hpart

theorem Params.spreads (params : Params) : (Node.params params).Spreads := by
  have hparts : ∀ part ∈ params.parts, part.Inner ∧ part.definitions = [] := by
    match params with
    | .untyped _ names => simp [Params.parts, Part.Inner, Part.definitions, Node.definitions]
    | .typed _ list none => exact TypedParam.spreads list
    | .typed _ list (some declared) =>
        refine List.forall_mem_append.mpr ⟨TypedParam.spreads list, ?_⟩
        simp [Part.Inner, Part.definitions, Node.definitions, Word.kind, TokenKind.isDefining]
  refine ⟨fun part hpart => (hparts part hpart).1, ?_⟩
  exact (List.flatMap_eq_nil_iff.mpr fun part hpart => (hparts part hpart).2).symm

theorem Value.spreads (value : Value) : (Node.value value).Spreads := by
  cases value with
  | literal | name =>
      exact ⟨by simp [Node.parts, Value.parts, Part.Inner, Word.kind, TokenKind.isDefining], rfl⟩
  | cond range clauses otherwise? =>
      cases otherwise? <;> refine ⟨Part.inner_enclosed ?_, ?_⟩ <;>
        simp [Node.parts, Value.parts, Part.Inner, Word.kind, TokenKind.isDefining, or_imp,
          forall_and, Part.definitions_enclosed, Part.definitions, Node.definitions,
          Value.definitions, Clause.allDefinitions_eq, List.flatMap_map, List.map_flatMap]
  | _ =>
      refine ⟨Part.inner_enclosed ?_, ?_⟩
      · simp [Part.Inner, Word.kind, TokenKind.isDefining, or_imp, forall_and]
      · simp [Node.parts, Value.parts, Part.definitions_enclosed, Part.definitions,
          Node.definitions, Value.definitions, Value.allDefinitions_eq,
          LetBinding.allDefinitions_eq, Definition.allDefinitions_eq, List.flatMap_map,
          List.map_flatMap]

theorem Node.spreads_or_heads (node : Node) :
    node.Spreads ∨ ∃ kind rest, node.Heads kind rest := by
  match node with
  | .ident _ =>
      exact .inl ⟨by simp [parts, Part.Inner, Word.kind, Ident.kind, TokenKind.isDefining], rfl⟩
  | .type form => exact .inl form.spreads
  | .params form => exact .inl form.spreads
  | .value form => exact .inl form.spreads
  | .clause (.mk _ _ _) | .binding (.mk _ _ _) =>
      refine .inl ⟨Part.inner_enclosed (by simp [Part.Inner]), ?_⟩
      simp [parts, definitions, Part.definitions_enclosed, Part.definitions, Clause.definitions,
        LetBinding.definitions]
  | .definition (.function ..) | .definition (.constant ..) | .struct ⟨_, _, _, _⟩ =>
      refine .inr ⟨_, _, rfl, rfl, ?_, ?_⟩
      · simp [Part.Inner, Word.kind, TokenKind.isDefining]
      · simp [definitions, Part.definitions, Definition.definitions]

section

variable {own : List Arrival} {before? : Option Arrival}

/-- The parenthesis of a definition is the first token of its node, right before the keyword. -/
theorem Node.Heads.forall₂_openedBy {node : Node} {kind : TokenKind} {rest : List Part}
    (h : node.Heads kind rest) (hown : Covers node.parts own)
    (hrest : ∀ keyword, List.Forall₂ Node.OpenedBy (rest.flatMap Part.definitions)
      (definitionParens (some keyword) (own.drop 2))) :
    List.Forall₂ Node.OpenedBy node.definitions (definitionParens before? own) := by
  obtain ⟨hparts, hkind, -, hsame⟩ := h
  rw [hparts] at hown
  obtain ⟨paren, _, rfl, ⟨hparen, hstart, hdocs⟩, hown⟩ := covers_word.mp hown
  obtain ⟨keyword, later, rfl, hkeyword, -⟩ := covers_token.mp hown
  have hspoken : paren.token.kind.isDefining = false := by
    rw [hparen]
    rfl
  have hopens : definitionParens (some paren) (keyword :: later) =
      paren :: definitionParens (some keyword) later := by
    simp [definitionParens, hkeyword, hkind, hparen]
  rw [hsame, definitionParens_cons hspoken, hopens]
  exact .cons ⟨hstart, hdocs _ rfl⟩ (hrest keyword)

/-- The definitions among parts are opened by the parentheses before keywords, in order. Words
before the parts are left out: the parenthesis and the keyword of a definition are such words. -/
theorem Covers.forall₂_openedBy {parts : List Part} (h : Covers parts own) (words : List Word)
    (inner : List Part) (hparts : parts = words.map Part.word ++ inner)
    (hinner : ∀ part ∈ inner, part.Inner) (before? : Option Arrival) :
    List.Forall₂ Node.OpenedBy (inner.flatMap Part.definitions)
      (definitionParens before? (own.drop words.length)) := by
  induction h generalizing words inner before? with
  | nil =>
      obtain ⟨-, rfl⟩ := List.append_eq_nil_iff.mp hparts.symm
      rw [List.drop_nil]
      exact .nil
  | word h _ ih =>
      cases words with
      | nil =>
          obtain rfl := hparts
          obtain ⟨hword, hrest⟩ := List.forall_mem_cons.mp hinner
          rw [List.length_nil, List.drop_zero, definitionParens_cons (h.kind_eq ▸ hword)]
          exact ih [] _ rfl hrest _
      | cons word words =>
          obtain ⟨-, rfl⟩ := List.cons.inj hparts
          exact ih words inner rfl hinner before?
  | @node node own parts rest hown _ ihown ih =>
      cases words with
      | nil =>
          obtain rfl := hparts
          obtain ⟨later?, hlater⟩ := definitionParens_append before? own rest
          rw [List.length_nil, List.drop_zero, hlater, List.flatMap_cons]
          refine List.rel_append ?_ (ih [] parts rfl (List.forall_mem_cons.mp hinner).2 later?)
          rcases node.spreads_or_heads with ⟨hspread, hsame⟩ | ⟨kind, rest, hheads⟩
          · have hnode := ihown [] node.parts rfl hspread before?
            rwa [← hsame] at hnode
          · -- Its keyword is no inner part, so the parts are taken up after the keyword.
            refine hheads.forall₂_openedBy hown fun keyword => ?_
            exact ihown [.opening _ _, .token kind] rest hheads.parts_eq hheads.inner (some keyword)
      | cons word words => cases hparts
  | @params params own close parts rest _ hclose _ _ ihown ih =>
      cases words with
      | nil =>
          obtain rfl := hparts
          obtain ⟨later?, hlater⟩ := definitionParens_append before? own (close :: rest)
          have hspoken : close.token.kind.isDefining = false := by
            rw [hclose]
            rfl
          rw [List.length_nil, List.drop_zero, hlater, List.flatMap_cons,
            definitionParens_cons hspoken]
          have hparams := ihown [] (Node.params params).parts rfl params.spreads.inner before?
          rw [← params.spreads.definitions_eq] at hparams
          exact List.rel_append hparams (ih [] parts rfl (List.forall_mem_cons.mp hinner).2 _)
      | cons word words => cases hparts

end

/-- The definitions of a program that is read are opened by the parentheses before `define` and
`define-struct`, in order. -/
theorem Program.forall₂_openedBy {tokens : List Token} {program : Program}
    (h : parseProgram tokens = .ok program) :
    List.Forall₂ Node.OpenedBy program.definitions
      (definitionParens none (arrivals 0 [] tokens)) := by
  have hinner : ∀ part ∈ Program.parts program, part.Inner := by simp [Program.parts, Part.Inner]
  have hsame : program.definitions = (Program.parts program).flatMap Part.definitions := by
    simp [Program.definitions, Program.parts, Part.definitions, List.flatMap_map]
  rw [hsame]
  exact (covers_of_parseProgram h).2.forall₂_openedBy [] _ rfl hinner none

/-! ## Where the parentheses stand -/

section

variable {front rest : List Token} {token : Token} {text : String}

theorem trailingDocs_docstring (h : token.kind = .docstring text) :
    trailingDocs (front ++ [token]) = trailingDocs front ++ [text] := by
  simp [trailingDocs, h, TokenKind.isDocstring, TokenKind.docText?]

theorem trailingDocs_spoken (h : ∀ text, token.kind ≠ .docstring text) :
    trailingDocs (front ++ [token]) = [] := by
  simp [trailingDocs, TokenKind.isDocstring_eq_false h]

/-- The arrival is a token of the list, at its index, with the docstrings directly before it. -/
def Arrival.StandsIn (arrival : Arrival) (tokens : List Token) : Prop :=
  tokens[arrival.index]? = some arrival.token ∧
    arrival.docs = trailingDocs (tokens.take arrival.index)

theorem standsIn_of_mem_arrivals (front rest : List Token) :
    ∀ arrival ∈ arrivals front.length (trailingDocs front) rest,
      arrival.StandsIn (front ++ rest) := by
  induction rest generalizing front with
  | nil => exact fun _ harrival => nomatch harrival
  | cons token rest ih =>
      have hrest := ih (front ++ [token])
      rw [List.length_append, List.length_singleton, ← List.append_cons] at hrest
      rcases token.kind.docstring_or_spoken with ⟨text, htext⟩ | hspoken
      · rwa [arrivals_docstring htext, ← trailingDocs_docstring htext]
      · rw [trailingDocs_spoken hspoken] at hrest
        rw [arrivals_spoken hspoken]
        refine List.forall_mem_cons.mpr ⟨⟨?_, ?_⟩, hrest⟩
        · simp
        · simp

theorem definitionIndices_cons :
    definitionIndices (token :: rest) =
      (if opensDefinition (token :: rest) 0 then [0] else []) ++
        (definitionIndices rest).map (· + 1) := by
  have hlater : opensDefinition (token :: rest) ∘ Nat.succ = opensDefinition rest := rfl
  rw [definitionIndices, List.length_cons, List.range_succ_eq_map, List.filter_cons,
    List.filter_map, hlater, definitionIndices]
  split <;> rfl

/-- The parentheses before keywords stand where the tokens say. -/
theorem map_index_definitionParens (before? : Option Arrival) (index : Nat) (docs : List String)
    (tokens : List Token) :
    (definitionParens before? (arrivals index docs tokens)).map (·.index) =
      (if (spoken tokens).head?.any (·.kind.isDefining) then
        (before?.toList.filter (·.token.kind = .openParen)).map (·.index) else []) ++
      (definitionIndices tokens).map (index + ·) := by
  induction tokens generalizing before? index docs with
  | nil => rfl
  | cons token rest ih =>
      have hshift : (definitionIndices rest).map (index + 1 + ·) =
          ((definitionIndices rest).map (· + 1)).map (index + ·) := by
        rw [List.map_map]
        exact List.map_congr_left fun later _ => Nat.add_right_comm index 1 later
      rcases token.kind.docstring_or_spoken with ⟨text, htext⟩ | hspoken
      · rw [arrivals_docstring htext, ih, spoken_docstring htext, definitionIndices_cons,
          hshift]
        simp [opensDefinition, htext]
      · rw [arrivals_spoken hspoken, spoken_cons hspoken, definitionParens,
          List.map_append, ih, definitionIndices_cons, hshift, List.map_append]
        congr 1
        · by_cases hkind : token.kind.isDefining <;> simp [hkind]
        · congr 1
          by_cases hparen : token.kind = .openParen <;> simp [opensDefinition, hparen, apply_ite]

/-- No docstring is kept twice. -/
theorem docs_arrivals_sublist (index : Nat) (docs : List String) (tokens : List Token) :
    ((arrivals index docs tokens).flatMap (·.docs)).Sublist
      (docs ++ tokens.filterMap (·.kind.docText?)) := by
  induction tokens generalizing index docs with
  | nil => exact List.nil_sublist _
  | cons token rest ih =>
      rcases token.kind.docstring_or_spoken with ⟨text, htext⟩ | hspoken
      · have hrest := ih (index + 1) (docs ++ [text])
        rw [arrivals_docstring htext]
        simpa [htext, TokenKind.docText?] using hrest
      · rw [arrivals_spoken hspoken, List.flatMap_cons]
        refine List.Sublist.append (List.Sublist.refl docs) ?_
        exact (ih (index + 1) []).trans ((List.sublist_cons_self token rest).filterMap _)

end

/-! ## Programs and their docstrings -/

/-- The node starts at the token with the index, and keeps the docstrings directly before it. -/
def Node.StartsAt (tokens : List Token) (node : Node) (index : Nat) : Prop :=
  (∃ paren, tokens[index]? = some paren ∧ node.range.start = paren.range.start) ∧
    node.docs = trailingDocs (tokens.take index)

section

variable {tokens : List Token} {program : Program}

theorem Program.forall₂_startsAt (h : parseProgram tokens = .ok program) :
    List.Forall₂ (Node.StartsAt tokens) program.definitions (definitionIndices tokens) := by
  have hindices : (definitionParens none (arrivals 0 [] tokens)).map (·.index) =
      definitionIndices tokens := by
    simpa using map_index_definitionParens none 0 [] tokens
  have hstands : ∀ paren ∈ definitionParens none (arrivals 0 [] tokens),
      paren.StandsIn tokens :=
    fun paren hparen =>
      standsIn_of_mem_arrivals [] tokens paren (definitionParens_sublist.mem hparen)
  have hboth := (List.forall₂_and_left _ _).mpr ⟨hstands, (Program.forall₂_openedBy h).flip⟩
  rw [← hindices, List.forall₂_map_right_iff]
  refine hboth.flip.imp ?_
  rintro node paren ⟨⟨htoken, hbefore⟩, hstart, hdocs⟩
  exact ⟨⟨paren.token, htoken, hstart.symm⟩, hdocs.symm.trans hbefore⟩

theorem Program.docs_sublist (h : parseProgram tokens = .ok program) :
    (program.definitions.flatMap Node.docs).Sublist (tokens.filterMap (·.kind.docText?)) := by
  have hdocs : program.definitions.map Node.docs =
      (definitionParens none (arrivals 0 [] tokens)).map (·.docs) := by
    rw [← List.forall₂_eq_eq_eq, List.forall₂_map_left_iff, List.forall₂_map_right_iff]
    exact (Program.forall₂_openedBy h).imp fun _ _ hopened => hopened.2.symm
  rw [List.flatMap_def, hdocs, ← List.flatMap_def]
  exact (definitionParens_sublist.flatMap _).trans (docs_arrivals_sublist 0 [] tokens)

end

/-- Docstrings make no difference to whether tokens are a program, and to which one, or to what is
wrong with them. In a program, each definition and each struct keeps the docstrings directly before
its parenthesis, and no docstring is kept twice. -/
theorem parseProgram_docstrings (tokens : List Token) :
    ((∃ program, parseProgram tokens = .ok program) ↔
      ∃ program, parseProgram (spoken tokens) = .ok program) ∧
    (∀ program, parseProgram tokens = .ok program →
      parseProgram (spoken tokens) = .ok program.undocumented ∧
      List.Forall₂ (Node.StartsAt tokens) program.definitions (definitionIndices tokens) ∧
      (program.definitions.flatMap Node.docs).Sublist (tokens.filterMap (·.kind.docText?))) ∧
    ∀ e, parseProgram tokens = .error e →
      ∃ other, parseProgram (spoken tokens) = .error other ∧
        other.expected = e.expected ∧ other.found? = e.found? ∧
        other.index = e.index - (tokens.take e.index).countP (·.kind.isDocstring) ∧
        (e.found? ≠ none → other.position = e.position) := by
  have hspoken := parseProgram_spoken tokens
  cases hread : parseProgram tokens with
  | ok program =>
      rw [hread] at hspoken
      refine ⟨⟨fun _ => ⟨_, hspoken⟩, fun _ => ⟨program, rfl⟩⟩, ?_, fun _ h => (nomatch h)⟩
      rintro _ ⟨⟩
      exact ⟨hspoken, Program.forall₂_startsAt hread, Program.docs_sublist hread⟩
  | error e =>
      rw [hread] at hspoken
      obtain ⟨other, hother, hsame⟩ := hspoken
      refine ⟨⟨fun ⟨_, h⟩ => (nomatch h), fun ⟨_, h⟩ => ?_⟩, fun _ h => (nomatch h), ?_⟩
      · rw [hother] at h
        cases h
      · rintro _ ⟨⟩
        refine ⟨other, hother, hsame.expected_eq, hsame.found_eq, ?_, hsame.position_eq⟩
        rw [hsame.index_eq, spokenIndex_eq_sub hsame.index_le]

/-- A constant with a docstring, and two that it does not keep. -/
def documentedConstant : List Token :=
  [.docstring "kept", .openParen, .docstring "lost", .keyword .define, .identifier "x",
    .literal (.integer 1), .closeParen, .docstring "last"].map fun kind => ⟨kind, default⟩

/-- Once complete, and once with a parenthesis too many. -/
theorem parseProgram_docstrings_constant :
    (∃ program, parseProgram documentedConstant = .ok program ∧
      parseProgram (spoken documentedConstant) = .ok program.undocumented ∧
      List.Forall₂ (Node.StartsAt documentedConstant) program.definitions [1]) ∧
    ∃ e other, parseProgram (documentedConstant ++ [⟨.closeParen, default⟩]) = .error e ∧
      parseProgram (spoken (documentedConstant ++ [⟨.closeParen, default⟩])) = .error other ∧
      e.index = 8 ∧ other.index = 5 := by
  have hread : parseProgram documentedConstant = .ok _ := rfl
  have hfault : parseProgram (documentedConstant ++ [⟨.closeParen, default⟩]) = .error _ := rfl
  obtain ⟨-, hprogram, -⟩ := parseProgram_docstrings documentedConstant
  obtain ⟨hsame, hstarts, -⟩ := hprogram _ hread
  obtain ⟨-, -, herror⟩ := parseProgram_docstrings (documentedConstant ++ [⟨.closeParen, default⟩])
  obtain ⟨other, hother, -, -, hindex, -⟩ := herror _ hfault
  exact ⟨⟨_, hread, hsame, hstarts⟩, _, other, hfault, hother, rfl, hindex⟩

end TypedIsl

import TypedIsl.Proofs.Syntax.Acceptance

/-!
# The grammar of programs

The productions are data: phrases over tokens and names of parts. A list of token kinds derives
from a phrase or it does not, and no syntax tree takes part in saying so. The trees that are proper
and have no docstrings are the derivations: what derives from a part is what such a tree says. So
the reader accepts what derives from the grammar and nothing else, and reads the only tree of it.
-/

namespace TypedIsl

/-! ## Productions -/

/-- The parts of a program that have productions. -/
inductive Nonterminal where
  | program
  | form
  | definition
  | struct
  | params
  | type
  | value
  | letKeyword

/-- The right-hand side of a production. -/
inductive Phrase where
  | token (kind : TokenKind)
  | identifier
  | literal
  | part (name : Nonterminal)
  | empty
  | append (first second : Phrase)
  | option (phrase : Phrase)
  | many (phrase : Phrase)

namespace Phrase

def all (phrases : List Phrase) : Phrase :=
  phrases.foldr append empty

def inParens (phrases : List Phrase) : Phrase :=
  append (token .openParen) (append (all phrases) (token .closeParen))

def several (phrase : Phrase) : Phrase :=
  append phrase (many phrase)

def keyword (word : Keyword) : Phrase :=
  token (.keyword word)

/-- A parameter with its type. -/
def typedParam : Phrase :=
  all [identifier, token .colon, part .type]

end Phrase

open Phrase in
def Nonterminal.productions : Nonterminal → List Phrase
  | program => [many (part .form)]
  | form => [part .definition, part .struct, part .value]
  | definition =>
      [inParens [keyword .define, inParens [identifier, part .params], part .value],
        inParens [keyword .define, identifier, part .value]]
  | struct => [inParens [keyword .defineStruct, identifier, inParens [part .params]]]
  | params =>
      [all [typedParam, many (all [token .ampersand, typedParam]),
          option (all [token .arrow, part .type])],
        many identifier]
  | type => [inParens [identifier, many (part .type)], identifier]
  | value =>
      [inParens [keyword .branch, part .value, part .value, part .value],
        inParens [keyword .cond, several (inParens [part .value, part .value]),
          option (inParens [keyword .otherwise, part .value])],
        inParens [keyword .lambda, inParens [part .params], part .value],
        inParens [keyword .locals, inParens [many (part .definition)], part .value],
        inParens [part .letKeyword, inParens [many (inParens [identifier, part .value])],
          part .value],
        inParens [keyword .require, identifier],
        inParens [part .value, many (part .value)],
        literal,
        identifier]
  | letKeyword => [keyword (.lets .plain), keyword (.lets .recursive), keyword (.lets .sequential)]

/-- What the grammar derives from a phrase. -/
inductive Derives : Phrase → List TokenKind → Prop
  | token (kind : TokenKind) : Derives (.token kind) [kind]
  | identifier (name : String) : Derives .identifier [.identifier name]
  | literal (value : Literal) : Derives .literal [.literal value]
  | part {name : Nonterminal} {phrase : Phrase} {kinds : List TokenKind}
      (hmem : phrase ∈ name.productions) (h : Derives phrase kinds) : Derives (.part name) kinds
  | empty : Derives .empty []
  | append {first second : Phrase} {kinds more : List TokenKind} (h : Derives first kinds)
      (hmore : Derives second more) : Derives (.append first second) (kinds ++ more)
  | absent (phrase : Phrase) : Derives (.option phrase) []
  | present {phrase : Phrase} {kinds : List TokenKind} (h : Derives phrase kinds) :
      Derives (.option phrase) kinds
  | none {phrase : Phrase} : Derives (.many phrase) []
  | more {phrase : Phrase} {kinds more : List TokenKind} (h : Derives phrase kinds)
      (hmore : Derives (.many phrase) more) : Derives (.many phrase) (kinds ++ more)

namespace Derives

variable {name : Nonterminal} {phrase : Phrase} {phrases : List Phrase}
  {kinds more : List TokenKind}

theorem production (index : Nat) (hphrase : name.productions[index]? = some phrase)
    (h : Derives phrase kinds) : Derives (.part name) kinds :=
  .part (List.mem_of_getElem? hphrase) h

theorem nil : Derives (.all []) [] :=
  .empty

theorem cons (h : Derives phrase kinds) (hmore : Derives (.all phrases) more) :
    Derives (.all (phrase :: phrases)) (kinds ++ more) :=
  .append h hmore

theorem single (h : Derives phrase kinds) : Derives (.all [phrase]) kinds := by
  have hall := h.cons nil
  rwa [List.append_nil] at hall

theorem inParens (h : Derives (.all phrases) kinds) :
    Derives (.inParens phrases) (enclosed kinds) := by
  rw [enclosed, List.cons_append]
  exact .append (.token .openParen) (.append h (.token .closeParen))

end Derives

/-! ## What a tree says derives from the grammar -/

theorem Ident.derives (ident : Ident) : Derives .identifier [ident.kind] :=
  .identifier ident.name

theorem LetKind.derives (kind : LetKind) :
    Derives (.part .letKeyword) [.keyword (.lets kind)] := by
  cases kind
  case plain => exact .production 0 rfl (.token _)
  case recursive => exact .production 1 rfl (.token _)
  case sequential => exact .production 2 rfl (.token _)

mutual

theorem TypeExpr.derives (type : TypeExpr) : Derives (.part .type) type.kinds := by
  match type with
  | .named name => exact .production 1 rfl name.derives
  | .apply _ function args =>
      have hargs := TypeExpr.all_derive args
      exact .production 0 rfl (.inParens (.cons function.derives (.single hargs)))
termination_by structural type

theorem TypeExpr.all_derive (types : List TypeExpr) :
    Derives (.many (.part .type)) (TypeExpr.allKinds types) := by
  match types with
  | [] => exact .none
  | type :: types => exact .more type.derives (TypeExpr.all_derive types)
termination_by structural types

end

theorem TypedParam.derives (param : TypedParam) : Derives .typedParam param.kinds :=
  .cons param.name.derives (.cons (.token .colon) (.single param.type.derives))

theorem TypedParam.all_derive (params : List TypedParam) :
    Derives (.many (.all [.token .ampersand, .typedParam]))
      (params.flatMap fun param => .ampersand :: param.kinds) := by
  induction params with
  | nil => exact .none
  | cons param params ih => exact .more (.cons (.token .ampersand) (.single param.derives)) ih

theorem Ident.all_derive (names : List Ident) :
    Derives (.many .identifier) (names.map Ident.kind) := by
  induction names with
  | nil => exact .none
  | cons name names ih => exact .more name.derives ih

theorem Params.derives {params : Params} (hp : params.Proper) :
    Derives (.part .params) params.kinds := by
  match params with
  | .untyped _ names => exact .production 1 rfl (Ident.all_derive names)
  | .typed _ (param :: params) none =>
      have h := param.derives.cons (.cons (TypedParam.all_derive params)
        (.single (.absent (.all [.token .arrow, .part .type]))))
      rw [List.append_nil, ← TypedParam.allKinds_cons] at h
      exact .production 0 rfl h
  | .typed _ (param :: params) (some declared) =>
      have hresult := Derives.cons (.token .arrow) (.single declared.derives)
      have h := param.derives.cons (.cons (TypedParam.all_derive params)
        (.single (.present hresult)))
      rw [← List.append_assoc, ← TypedParam.allKinds_cons] at h
      exact .production 0 rfl h

mutual

theorem Value.derives {value : Value} (hv : value.Proper noDocs) :
    Derives (.part .value) value.kinds := by
  match value with
  | .literal _ value => exact .production 7 rfl (.literal value)
  | .name ident => exact .production 8 rfl ident.derives
  | .branch _ condition thenArm elseArm =>
      obtain ⟨hcondition, hthen, helse⟩ := hv
      have h := Derives.cons (.token (.keyword .branch)) (.cons (Value.derives hcondition)
        (.cons (Value.derives hthen) (.single (Value.derives helse))))
      rw [← List.append_assoc, ← List.append_assoc] at h
      exact .production 0 rfl (.inParens h)
  | .cond _ (clause :: clauses) none =>
      obtain ⟨-, hclause, hclauses⟩ := hv
      have h := Derives.cons (.token (.keyword .cond))
        (.cons (.append (Clause.derives hclause) (Clause.all_derive hclauses))
          (.single (.absent (.inParens [.keyword .otherwise, .part .value]))))
      rw [List.append_nil] at h
      exact .production 1 rfl (.inParens h)
  | .cond _ (clause :: clauses) (some value) =>
      obtain ⟨-, ⟨hclause, hclauses⟩, hvalue⟩ := hv
      have harm := Derives.inParens
        (.cons (.token (.keyword .otherwise)) (.single (Value.derives hvalue)))
      have h := Derives.cons (.token (.keyword .cond))
        (.cons (.append (Clause.derives hclause) (Clause.all_derive hclauses))
          (.single (.present harm)))
      exact .production 1 rfl (.inParens h)
  | .lambda _ params body =>
      obtain ⟨hparams, hbody⟩ := hv
      have h := Derives.cons (.token (.keyword .lambda))
        (.cons (.inParens (.single (Params.derives hparams))) (.single (Value.derives hbody)))
      exact .production 2 rfl (.inParens h)
  | .locals _ definitions body =>
      obtain ⟨hdefinitions, hbody⟩ := hv
      have h := Derives.cons (.token (.keyword .locals))
        (.cons (.inParens (.single (Definition.all_derive hdefinitions)))
          (.single (Value.derives hbody)))
      exact .production 3 rfl (.inParens h)
  | .lets _ kind bindings body =>
      obtain ⟨hbindings, hbody⟩ := hv
      have h := kind.derives.cons
        (.cons (.inParens (.single (LetBinding.all_derive hbindings)))
          (.single (Value.derives hbody)))
      exact .production 4 rfl (.inParens h)
  | .require _ library =>
      have h := Derives.cons (.token (.keyword .require)) (.single library.derives)
      exact .production 5 rfl (.inParens h)
  | .call _ callee args =>
      obtain ⟨hcallee, hargs⟩ := hv
      have h := Derives.cons (Value.derives hcallee) (.single (Value.all_derive hargs))
      exact .production 6 rfl (.inParens h)
termination_by structural value

theorem Value.all_derive {values : List Value} (hv : Value.AllProper noDocs values) :
    Derives (.many (.part .value)) (Value.allKinds values) := by
  match values with
  | [] => exact .none
  | value :: values => exact .more (Value.derives hv.1) (Value.all_derive hv.2)
termination_by structural values

theorem Clause.derives {clause : Clause} (hc : clause.Proper noDocs) :
    Derives (.inParens [.part .value, .part .value]) clause.kinds := by
  match clause with
  | .mk _ condition body =>
      exact .inParens (.cons (Value.derives hc.1) (.single (Value.derives hc.2)))
termination_by structural clause

theorem Clause.all_derive {clauses : List Clause} (hc : Clause.AllProper noDocs clauses) :
    Derives (.many (.inParens [.part .value, .part .value])) (Clause.allKinds clauses) := by
  match clauses with
  | [] => exact .none
  | clause :: clauses => exact .more (Clause.derives hc.1) (Clause.all_derive hc.2)
termination_by structural clauses

theorem LetBinding.derives {binding : LetBinding} (hb : binding.Proper noDocs) :
    Derives (.inParens [.identifier, .part .value]) binding.kinds := by
  match binding with
  | .mk _ name value => exact .inParens (.cons name.derives (.single (Value.derives hb)))
termination_by structural binding

theorem LetBinding.all_derive {bindings : List LetBinding}
    (hb : LetBinding.AllProper noDocs bindings) :
    Derives (.many (.inParens [.identifier, .part .value])) (LetBinding.allKinds bindings) := by
  match bindings with
  | [] => exact .none
  | binding :: bindings => exact .more (LetBinding.derives hb.1) (LetBinding.all_derive hb.2)
termination_by structural bindings

theorem Definition.derives {definition : Definition} (hd : definition.Proper noDocs) :
    Derives (.part .definition) definition.kinds := by
  match definition with
  | .function _ _ name params body =>
      obtain ⟨-, hparams, hbody⟩ := hd
      have hhead := Derives.inParens (.cons name.derives (.single (Params.derives hparams)))
      have h := Derives.cons (.token (.keyword .define))
        (.cons hhead (.single (Value.derives hbody)))
      exact .production 0 rfl (.inParens h)
  | .constant _ _ name value =>
      have h := Derives.cons (.token (.keyword .define))
        (.cons name.derives (.single (Value.derives hd.2)))
      exact .production 1 rfl (.inParens h)
termination_by structural definition

theorem Definition.all_derive {definitions : List Definition}
    (hd : Definition.AllProper noDocs definitions) :
    Derives (.many (.part .definition)) (Definition.allKinds definitions) := by
  match definitions with
  | [] => exact .none
  | definition :: definitions =>
      exact .more (Definition.derives hd.1) (Definition.all_derive hd.2)
termination_by structural definitions

end

theorem StructDefinition.derives {definition : StructDefinition}
    (hs : definition.Proper noDocs) : Derives (.part .struct) definition.kinds := by
  have h := Derives.cons (.token (.keyword .defineStruct))
    (.cons definition.name.derives (.single (.inParens (.single (Params.derives hs.2)))))
  exact .production 0 rfl (.inParens h)

theorem TopLevel.derives {form : TopLevel} (hf : form.Proper noDocs) :
    Derives (.part .form) form.kinds := by
  cases form with
  | definition form => exact .production 0 rfl (Definition.derives hf)
  | struct form => exact .production 1 rfl (StructDefinition.derives hf)
  | value form => exact .production 2 rfl (Value.derives hf)

theorem Program.derives {program : Program} (hp : Program.Proper noDocs program) :
    Derives (.part .program) (Program.kinds program) := by
  refine .production 0 rfl ?_
  induction program with
  | nil => exact .none
  | cons form program ih =>
      obtain ⟨hform, hprogram⟩ := List.forall_mem_cons.mp hp
      exact .more (TopLevel.derives hform) (ih hprogram)

/-! ## What derives from the grammar is what a tree says -/

/-- Some proper tree of the part, without docstrings, says this. -/
def Nonterminal.Spelled : Nonterminal → List TokenKind → Prop
  | program, kinds => ∃ tree, Program.Proper noDocs tree ∧ Program.kinds tree = kinds
  | form, kinds => ∃ tree, TopLevel.Proper noDocs tree ∧ tree.kinds = kinds
  | definition, kinds => ∃ tree, Definition.Proper noDocs tree ∧ tree.kinds = kinds
  | struct, kinds => ∃ tree, StructDefinition.Proper noDocs tree ∧ tree.kinds = kinds
  | params, kinds => ∃ tree, Params.Proper tree ∧ tree.kinds = kinds
  | type, kinds => ∃ tree, TypeExpr.kinds tree = kinds
  | value, kinds => ∃ tree, Value.Proper noDocs tree ∧ tree.kinds = kinds
  | letKeyword, kinds => ∃ kind, [.keyword (.lets kind)] = kinds

namespace Phrase

/-- Trees for the parts of the phrase say this, together with its tokens. -/
def Spelled : Phrase → List TokenKind → Prop
  | token kind, kinds => [kind] = kinds
  | identifier, kinds => ∃ ident, [Ident.kind ident] = kinds
  | literal, kinds => ∃ value, [.literal value] = kinds
  | part name, kinds => name.Spelled kinds
  | empty, kinds => [] = kinds
  | append first second, kinds =>
      ∃ left, first.Spelled left ∧ ∃ right, second.Spelled right ∧ left ++ right = kinds
  | option phrase, kinds => [] = kinds ∨ phrase.Spelled kinds
  | many phrase, kinds => ∃ parts : List (List TokenKind),
      (∀ part ∈ parts, phrase.Spelled part) ∧ parts.flatten = kinds

variable {phrase : Phrase} {phrases : List Phrase} {kinds : List TokenKind}

theorem spelled_nil : (all []).Spelled kinds ↔ [] = kinds :=
  Iff.rfl

theorem spelled_cons : (all (phrase :: phrases)).Spelled kinds ↔
    ∃ left, phrase.Spelled left ∧ ∃ right, (all phrases).Spelled right ∧ left ++ right = kinds :=
  Iff.rfl

theorem spelled_inParens : (inParens phrases).Spelled kinds ↔
    ∃ inner, (all phrases).Spelled inner ∧ enclosed inner = kinds := by
  simp only [inParens, Spelled, enclosed]
  constructor
  · rintro ⟨_, rfl, _, ⟨inner, hinner, _, rfl, rfl⟩, rfl⟩
    exact ⟨inner, hinner, rfl⟩
  · rintro ⟨inner, hinner, rfl⟩
    exact ⟨_, rfl, _, ⟨inner, hinner, _, rfl, rfl⟩, rfl⟩

theorem spelled_several : (several phrase).Spelled kinds ↔
    ∃ parts : List (List TokenKind),
      parts ≠ [] ∧ (∀ part ∈ parts, phrase.Spelled part) ∧ parts.flatten = kinds := by
  simp only [several, Spelled]
  constructor
  · rintro ⟨first, hfirst, _, ⟨parts, hparts, rfl⟩, rfl⟩
    exact ⟨first :: parts, by simp, List.forall_mem_cons.mpr ⟨hfirst, hparts⟩, rfl⟩
  · rintro ⟨_ | ⟨first, parts⟩, hne, hparts, rfl⟩
    · exact absurd rfl hne
    · obtain ⟨hfirst, hparts⟩ := List.forall_mem_cons.mp hparts
      exact ⟨first, hfirst, _, ⟨parts, hparts, rfl⟩, rfl⟩

end Phrase

/-- One tree for each part of a repeated phrase. -/
theorem exists_trees {α : Type} {Q : α → Prop} {f : α → List TokenKind}
    {parts : List (List TokenKind)} (h : ∀ part ∈ parts, ∃ tree, Q tree ∧ f tree = part) :
    ∃ trees : List α, (∀ tree ∈ trees, Q tree) ∧ trees.map f = parts := by
  induction parts with
  | nil => exact ⟨[], by simp, rfl⟩
  | cons part parts ih =>
      obtain ⟨⟨tree, htree, rfl⟩, hparts⟩ := List.forall_mem_cons.mp h
      obtain ⟨trees, htrees, rfl⟩ := ih hparts
      exact ⟨tree :: trees, List.forall_mem_cons.mpr ⟨htree, htrees⟩, rfl⟩

namespace Phrase

variable {kinds : List TokenKind}

theorem Spelled.types (h : (many (part .type)).Spelled kinds) :
    ∃ types, TypeExpr.allKinds types = kinds := by
  obtain ⟨parts, hparts, rfl⟩ := h
  obtain ⟨types, -, rfl⟩ := exists_trees (Q := fun _ => True) (f := TypeExpr.kinds)
    fun part hmem => (hparts part hmem).imp fun _ h => ⟨trivial, h⟩
  exact ⟨types, by rw [TypeExpr.allKinds_eq, List.flatMap_def]⟩

theorem Spelled.names (h : (many identifier).Spelled kinds) :
    ∃ names : List Ident, names.map Ident.kind = kinds := by
  obtain ⟨parts, hparts, rfl⟩ := h
  obtain ⟨names, -, rfl⟩ := exists_trees (Q := fun _ => True) (f := fun name => [Ident.kind name])
    fun part hmem => (hparts part hmem).imp fun _ h => ⟨trivial, h⟩
  exact ⟨names, by induction names <;> simp_all⟩

theorem spelled_typedParam : typedParam.Spelled kinds ↔
    ∃ param, TypedParam.kinds param = kinds := by
  simp only [typedParam, spelled_cons, spelled_nil, Spelled, Nonterminal.Spelled]
  constructor
  · rintro ⟨_, ⟨name, rfl⟩, _, ⟨_, rfl, _, ⟨_, ⟨type, rfl⟩, _, rfl, rfl⟩, rfl⟩, rfl⟩
    exact ⟨⟨name, type⟩, by simp [TypedParam.kinds]⟩
  · rintro ⟨param, rfl⟩
    exact ⟨_, ⟨param.name, rfl⟩, _, ⟨_, rfl, _, ⟨_, ⟨param.type, rfl⟩, _, rfl, rfl⟩, rfl⟩,
      by simp [TypedParam.kinds]⟩

theorem Spelled.moreParams
    (h : (many (all [token .ampersand, typedParam])).Spelled kinds) :
    ∃ params : List TypedParam,
      (params.flatMap fun param => .ampersand :: param.kinds) = kinds := by
  obtain ⟨parts, hparts, rfl⟩ := h
  obtain ⟨params, -, rfl⟩ := exists_trees (Q := fun _ => True)
    (f := fun param : TypedParam => .ampersand :: param.kinds) fun part hmem => by
      obtain ⟨_, rfl, _, ⟨_, hparam, _, rfl, rfl⟩, rfl⟩ := hparts part hmem
      obtain ⟨param, rfl⟩ := spelled_typedParam.mp hparam
      exact ⟨param, trivial, by simp⟩
  exact ⟨params, by rw [List.flatMap_def]⟩

theorem Spelled.values (h : (many (part .value)).Spelled kinds) :
    ∃ values, Value.AllProper noDocs values ∧ Value.allKinds values = kinds := by
  obtain ⟨parts, hparts, rfl⟩ := h
  obtain ⟨values, hvalues, rfl⟩ := exists_trees hparts
  exact ⟨values, Value.allProper_iff.mpr hvalues, by rw [Value.allKinds_eq, List.flatMap_def]⟩

theorem Spelled.definitions (h : (many (part .definition)).Spelled kinds) :
    ∃ definitions, Definition.AllProper noDocs definitions ∧
      Definition.allKinds definitions = kinds := by
  obtain ⟨parts, hparts, rfl⟩ := h
  obtain ⟨definitions, hdefinitions, rfl⟩ := exists_trees hparts
  exact ⟨definitions, Definition.allProper_iff.mpr hdefinitions,
    by rw [Definition.allKinds_eq, List.flatMap_def]⟩

theorem Spelled.clauses (h : (several (inParens [part .value, part .value])).Spelled kinds) :
    ∃ clauses, clauses ≠ [] ∧ Clause.AllProper noDocs clauses ∧
      Clause.allKinds clauses = kinds := by
  obtain ⟨parts, hne, hparts, rfl⟩ := spelled_several.mp h
  obtain ⟨clauses, hclauses, rfl⟩ := exists_trees (Q := Clause.Proper noDocs) (f := Clause.kinds)
    fun part hmem => by
      obtain ⟨_, ⟨_, ⟨condition, hcondition, rfl⟩, _, ⟨_, ⟨body, hbody, rfl⟩, _, rfl, rfl⟩, rfl⟩,
        rfl⟩ := spelled_inParens.mp (hparts part hmem)
      exact ⟨.mk default condition body, ⟨hcondition, hbody⟩, by simp [Clause.kinds]⟩
  exact ⟨clauses, by simpa using hne, Clause.allProper_iff.mpr hclauses,
    by rw [Clause.allKinds_eq, List.flatMap_def]⟩

theorem Spelled.bindings (h : (many (inParens [identifier, part .value])).Spelled kinds) :
    ∃ bindings, LetBinding.AllProper noDocs bindings ∧ LetBinding.allKinds bindings = kinds := by
  obtain ⟨parts, hparts, rfl⟩ := h
  obtain ⟨bindings, hbindings, rfl⟩ := exists_trees (Q := LetBinding.Proper noDocs)
    (f := LetBinding.kinds) fun part hmem => by
      obtain ⟨_, ⟨_, ⟨name, rfl⟩, _, ⟨_, ⟨value, hvalue, rfl⟩, _, rfl, rfl⟩, rfl⟩, rfl⟩ :=
        spelled_inParens.mp (hparts part hmem)
      exact ⟨.mk default name value, hvalue, by simp [LetBinding.kinds]⟩
  exact ⟨bindings, LetBinding.allProper_iff.mpr hbindings,
    by rw [LetBinding.allKinds_eq, List.flatMap_def]⟩

end Phrase

namespace Nonterminal

open Phrase

variable {phrase : Phrase} {kinds : List TokenKind}

theorem spelled_type (hmem : phrase ∈ type.productions) (h : phrase.Spelled kinds) :
    type.Spelled kinds := by
  simp only [productions, List.mem_cons, List.not_mem_nil, or_false] at hmem
  rcases hmem with rfl | rfl
  · obtain ⟨_, ⟨_, ⟨function, rfl⟩, _, ⟨_, hargs, _, rfl, rfl⟩, rfl⟩, rfl⟩ := spelled_inParens.mp h
    obtain ⟨args, rfl⟩ := hargs.types
    exact ⟨.apply default function args, by simp [TypeExpr.kinds]⟩
  · obtain ⟨name, rfl⟩ := h
    exact ⟨.named name, rfl⟩

theorem spelled_params (hmem : phrase ∈ params.productions) (h : phrase.Spelled kinds) :
    params.Spelled kinds := by
  simp only [productions, List.mem_cons, List.not_mem_nil, or_false] at hmem
  rcases hmem with rfl | rfl
  · obtain ⟨_, hparam, _, ⟨_, hparams, _, ⟨_, hresult, _, rfl, rfl⟩, rfl⟩, rfl⟩ := h
    obtain ⟨param, rfl⟩ := spelled_typedParam.mp hparam
    obtain ⟨params, rfl⟩ := hparams.moreParams
    rcases hresult with rfl | ⟨_, rfl, _, ⟨_, ⟨declared, rfl⟩, _, rfl, rfl⟩, rfl⟩
    · refine ⟨.typed default (param :: params) none, by simp [Params.Proper], ?_⟩
      simp [Params.kinds, TypedParam.allKinds_cons]
    · refine ⟨.typed default (param :: params) (some declared), by simp [Params.Proper], ?_⟩
      simp [Params.kinds, TypedParam.allKinds_cons]
  · obtain ⟨names, rfl⟩ := Spelled.names h
    exact ⟨.untyped default names, trivial, rfl⟩

theorem spelled_definition (hmem : phrase ∈ definition.productions) (h : phrase.Spelled kinds) :
    definition.Spelled kinds := by
  simp only [productions, List.mem_cons, List.not_mem_nil, or_false] at hmem
  rcases hmem with rfl | rfl
  · obtain ⟨_, ⟨_, rfl, _, ⟨_, hhead, _, ⟨_, ⟨body, hbody, rfl⟩, _, rfl, rfl⟩, rfl⟩, rfl⟩, rfl⟩ :=
      spelled_inParens.mp h
    obtain ⟨_, ⟨_, ⟨name, rfl⟩, _, ⟨_, ⟨params, hparams, rfl⟩, _, rfl, rfl⟩, rfl⟩, rfl⟩ :=
      spelled_inParens.mp hhead
    exact ⟨.function default [] name params body, ⟨by simp, hparams, hbody⟩,
      by simp [Definition.kinds]⟩
  · obtain ⟨_, ⟨_, rfl, _, ⟨_, ⟨name, rfl⟩, _, ⟨_, ⟨value, hvalue, rfl⟩, _, rfl, rfl⟩, rfl⟩, rfl⟩,
      rfl⟩ := spelled_inParens.mp h
    exact ⟨.constant default [] name value, ⟨by simp, hvalue⟩, by simp [Definition.kinds]⟩

theorem spelled_struct (hmem : phrase ∈ struct.productions) (h : phrase.Spelled kinds) :
    struct.Spelled kinds := by
  simp only [productions, List.mem_cons, List.not_mem_nil, or_false] at hmem
  subst hmem
  obtain ⟨_, ⟨_, rfl, _, ⟨_, ⟨name, rfl⟩, _, ⟨_, hfields, _, rfl, rfl⟩, rfl⟩, rfl⟩, rfl⟩ :=
    spelled_inParens.mp h
  obtain ⟨_, ⟨_, ⟨fields, hproper, rfl⟩, _, rfl, rfl⟩, rfl⟩ := spelled_inParens.mp hfields
  exact ⟨⟨default, [], name, fields⟩, ⟨by simp, hproper⟩, by simp [StructDefinition.kinds]⟩

theorem spelled_form (hmem : phrase ∈ form.productions) (h : phrase.Spelled kinds) :
    form.Spelled kinds := by
  simp only [productions, List.mem_cons, List.not_mem_nil, or_false] at hmem
  rcases hmem with rfl | rfl | rfl
  · obtain ⟨form, hform, rfl⟩ := h
    exact ⟨.definition form, hform, rfl⟩
  · obtain ⟨form, hform, rfl⟩ := h
    exact ⟨.struct form, hform, rfl⟩
  · obtain ⟨form, hform, rfl⟩ := h
    exact ⟨.value form, hform, rfl⟩

theorem spelled_program (hmem : phrase ∈ program.productions) (h : phrase.Spelled kinds) :
    program.Spelled kinds := by
  simp only [productions, List.mem_cons, List.not_mem_nil, or_false] at hmem
  subst hmem
  obtain ⟨parts, hparts, rfl⟩ := h
  obtain ⟨forms, hforms, rfl⟩ := exists_trees hparts
  exact ⟨forms, hforms, by rw [Program.kinds, List.flatMap_def]⟩

theorem spelled_letKeyword (hmem : phrase ∈ letKeyword.productions) (h : phrase.Spelled kinds) :
    letKeyword.Spelled kinds := by
  simp only [productions, List.mem_cons, List.not_mem_nil, or_false] at hmem
  rcases hmem with rfl | rfl | rfl <;> exact ⟨_, h⟩

theorem spelled_value (hmem : phrase ∈ value.productions) (h : phrase.Spelled kinds) :
    value.Spelled kinds := by
  simp only [productions, List.mem_cons, List.not_mem_nil, or_false] at hmem
  rcases hmem with rfl | rfl | rfl | rfl | rfl | rfl | rfl | rfl | rfl
  · obtain ⟨_, ⟨_, rfl, _, ⟨_, ⟨condition, hcondition, rfl⟩, _, ⟨_, ⟨thenArm, hthen, rfl⟩, _,
      ⟨_, ⟨elseArm, helse, rfl⟩, _, rfl, rfl⟩, rfl⟩, rfl⟩, rfl⟩, rfl⟩ := spelled_inParens.mp h
    exact ⟨.branch default condition thenArm elseArm, ⟨hcondition, hthen, helse⟩,
      by simp [Value.kinds]⟩
  · obtain ⟨_, ⟨_, rfl, _, ⟨_, hmany, _, ⟨_, hotherwise, _, rfl, rfl⟩, rfl⟩, rfl⟩, rfl⟩ :=
      spelled_inParens.mp h
    obtain ⟨clauses, hne, hclauses, rfl⟩ := hmany.clauses
    rcases hotherwise with rfl | harm
    · exact ⟨.cond default clauses none, ⟨hne, hclauses⟩, by simp [Value.kinds]⟩
    · obtain ⟨_, ⟨_, rfl, _, ⟨_, ⟨value, hvalue, rfl⟩, _, rfl, rfl⟩, rfl⟩, rfl⟩ :=
        spelled_inParens.mp harm
      exact ⟨.cond default clauses (some value), ⟨hne, hclauses, hvalue⟩, by simp [Value.kinds]⟩
  · obtain ⟨_, ⟨_, rfl, _, ⟨_, hinner, _, ⟨_, ⟨body, hbody, rfl⟩, _, rfl, rfl⟩, rfl⟩, rfl⟩, rfl⟩ :=
      spelled_inParens.mp h
    obtain ⟨_, ⟨_, ⟨params, hparams, rfl⟩, _, rfl, rfl⟩, rfl⟩ := spelled_inParens.mp hinner
    exact ⟨.lambda default params body, ⟨hparams, hbody⟩, by simp [Value.kinds]⟩
  · obtain ⟨_, ⟨_, rfl, _, ⟨_, hinner, _, ⟨_, ⟨body, hbody, rfl⟩, _, rfl, rfl⟩, rfl⟩, rfl⟩, rfl⟩ :=
      spelled_inParens.mp h
    obtain ⟨_, ⟨_, hmany, _, rfl, rfl⟩, rfl⟩ := spelled_inParens.mp hinner
    obtain ⟨definitions, hdefinitions, rfl⟩ := hmany.definitions
    exact ⟨.locals default definitions body, ⟨hdefinitions, hbody⟩, by simp [Value.kinds]⟩
  · obtain ⟨_, ⟨_, ⟨kind, rfl⟩, _, ⟨_, hinner, _, ⟨_, ⟨body, hbody, rfl⟩, _, rfl, rfl⟩, rfl⟩, rfl⟩,
      rfl⟩ := spelled_inParens.mp h
    obtain ⟨_, ⟨_, hmany, _, rfl, rfl⟩, rfl⟩ := spelled_inParens.mp hinner
    obtain ⟨bindings, hbindings, rfl⟩ := hmany.bindings
    exact ⟨.lets default kind bindings body, ⟨hbindings, hbody⟩, by simp [Value.kinds]⟩
  · obtain ⟨_, ⟨_, rfl, _, ⟨_, ⟨library, rfl⟩, _, rfl, rfl⟩, rfl⟩, rfl⟩ := spelled_inParens.mp h
    exact ⟨.require default library, trivial, rfl⟩
  · obtain ⟨_, ⟨_, ⟨callee, hcallee, rfl⟩, _, ⟨_, hmany, _, rfl, rfl⟩, rfl⟩, rfl⟩ :=
      spelled_inParens.mp h
    obtain ⟨args, hargs, rfl⟩ := hmany.values
    exact ⟨.call default callee args, ⟨hcallee, hargs⟩, by simp [Value.kinds]⟩
  · obtain ⟨literal, rfl⟩ := h
    exact ⟨.literal default literal, trivial, rfl⟩
  · obtain ⟨name, rfl⟩ := h
    exact ⟨.name name, trivial, rfl⟩

theorem spelled_of_mem_productions {name : Nonterminal} (hmem : phrase ∈ name.productions)
    (h : phrase.Spelled kinds) : name.Spelled kinds := by
  cases name
  case program => exact spelled_program hmem h
  case form => exact spelled_form hmem h
  case definition => exact spelled_definition hmem h
  case struct => exact spelled_struct hmem h
  case params => exact spelled_params hmem h
  case type => exact spelled_type hmem h
  case value => exact spelled_value hmem h
  case letKeyword => exact spelled_letKeyword hmem h

end Nonterminal

theorem Derives.spelled {phrase : Phrase} {kinds : List TokenKind} (h : Derives phrase kinds) :
    phrase.Spelled kinds := by
  induction h with
  | token kind => exact rfl
  | identifier name => exact ⟨⟨name, default⟩, rfl⟩
  | literal value => exact ⟨value, rfl⟩
  | part hmem _ ih => exact Nonterminal.spelled_of_mem_productions hmem ih
  | empty => exact rfl
  | append _ _ ih ihmore => exact ⟨_, ih, _, ihmore, rfl⟩
  | absent => exact .inl rfl
  | present _ ih => exact .inr ih
  | none => exact ⟨[], by simp, rfl⟩
  | more _ _ ih ihmore =>
      obtain ⟨parts, hparts, rfl⟩ := ihmore
      exact ⟨_ :: parts, List.forall_mem_cons.mpr ⟨ih, hparts⟩, rfl⟩

/-- The derivations of a program are the proper trees without docstrings. -/
theorem derives_program_iff {kinds : List TokenKind} : Derives (.part .program) kinds ↔
    ∃ program, Program.Proper noDocs program ∧ Program.kinds program = kinds := by
  constructor
  · exact Derives.spelled
  · rintro ⟨program, hp, rfl⟩
    exact Program.derives hp

theorem derives_value_iff {kinds : List TokenKind} : Derives (.part .value) kinds ↔
    ∃ value, Value.Proper noDocs value ∧ value.kinds = kinds := by
  constructor
  · exact Derives.spelled
  · rintro ⟨value, hv, rfl⟩
    exact Value.derives hv

/-! ## Reading and the grammar -/

section Reading

variable {tokens : List Token} (ht : ∀ token ∈ tokens, token.kind.isDocstring = false)

include ht

theorem parseProgram_derivation {program : Program} (h : parseProgram tokens = .ok program) :
    Program.Proper noDocs program ∧ Program.kinds program = tokens.map (·.kind) := by
  obtain ⟨hkinds, hproper⟩ := parseProgram_spec h (docsSatisfy_noDocs ht)
  exact ⟨hproper, hkinds.trans (spokenKinds_eq_map ht)⟩

theorem parseValue_derivation {value : Value} (h : parseValue tokens = .ok value) :
    value.Proper noDocs ∧ value.kinds = tokens.map (·.kind) := by
  obtain ⟨hkinds, hproper⟩ := parseValue_spec h (docsSatisfy_noDocs ht)
  exact ⟨hproper, hkinds.trans (spokenKinds_eq_map ht)⟩

end Reading

/-- Tokens without docstrings are read if and only if they derive from the grammar. The tree that
is read is a derivation of them, and up to positions there is no other. -/
theorem parse_iff_derives_unique (tokens : List Token)
    (ht : ∀ token ∈ tokens, token.kind.isDocstring = false) :
    ((∃ program, parseProgram tokens = .ok program) ↔
        Derives (.part .program) (tokens.map (·.kind))) ∧
      (∀ program, parseProgram tokens = .ok program →
        Program.Proper noDocs program ∧ Program.kinds program = tokens.map (·.kind) ∧
          ∀ other, Program.Proper noDocs other → Program.kinds other = tokens.map (·.kind) →
            Program.unranged other = Program.unranged program) ∧
      ((∃ value, parseValue tokens = .ok value) ↔
        Derives (.part .value) (tokens.map (·.kind))) ∧
      (∀ value, parseValue tokens = .ok value →
        value.Proper noDocs ∧ value.kinds = tokens.map (·.kind) ∧
          ∀ other, Value.Proper noDocs other → other.kinds = tokens.map (·.kind) →
            other.unranged = value.unranged) := by
  refine ⟨?_, fun program h => ?_, ?_, fun value h => ?_⟩
  · rw [derives_program_iff]
    constructor
    · rintro ⟨program, h⟩
      exact ⟨program, parseProgram_derivation ht h⟩
    · rintro ⟨program, hproper, hkinds⟩
      obtain ⟨read, hread, -⟩ := parseProgram_of_kinds hproper hkinds.symm
      exact ⟨read, hread⟩
  · obtain ⟨hproper, hkinds⟩ := parseProgram_derivation ht h
    refine ⟨hproper, hkinds, fun other hother hsame => ?_⟩
    obtain ⟨read, hread, hunranged⟩ := parseProgram_of_kinds hother hsame.symm
    rw [h, Except.ok.injEq] at hread
    rw [hread, hunranged]
  · rw [derives_value_iff]
    constructor
    · rintro ⟨value, h⟩
      exact ⟨value, parseValue_derivation ht h⟩
    · rintro ⟨value, hproper, hkinds⟩
      obtain ⟨read, hread, -⟩ := parseValue_of_kinds hproper hkinds.symm
      exact ⟨read, hread⟩
  · obtain ⟨hproper, hkinds⟩ := parseValue_derivation ht h
    refine ⟨hproper, hkinds, fun other hother hsame => ?_⟩
    obtain ⟨read, hread, hunranged⟩ := parseValue_of_kinds hother hsame.symm
    rw [h, Except.ok.injEq] at hread
    rw [hread, hunranged]

/-- A call of `f` without arguments. -/
def bareCall : List Token :=
  [⟨.openParen, default⟩, ⟨.identifier "f", default⟩, ⟨.closeParen, default⟩]

theorem derives_bareCall :
    (∀ token ∈ bareCall, token.kind.isDocstring = false) ∧
      Derives (.part .program) (bareCall.map (·.kind)) ∧
      Derives (.part .value) (bareCall.map (·.kind)) := by
  have ht : ∀ token ∈ bareCall, token.kind.isDocstring = false := by decide
  obtain ⟨hprogram, -, hvalue, -⟩ := parse_iff_derives_unique bareCall ht
  exact ⟨ht, hprogram.mp ⟨_, rfl⟩, hvalue.mp ⟨_, rfl⟩⟩

end TypedIsl

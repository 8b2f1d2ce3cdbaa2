import TypedIsl.Proofs.Syntax.Edit
import TypedIsl.Proofs.Syntax.Rereading

/-!
# Trees on given tokens

Tokens that say what a proper tree says are covered by a proper tree of the same form. Reading
them gives that tree back, so the parts of a program cover the tokens that it was read from.
-/

namespace TypedIsl

/-- What tokens say. -/
def said (own : List Arrival) : List TokenKind :=
  own.map (·.token.kind)

section

variable {own : List Arrival} {kind : TokenKind} {kinds more : List TokenKind}

theorem said_eq_nil : said own = [] ↔ own = [] :=
  List.map_eq_nil_iff

theorem said_eq_cons : said own = kind :: kinds ↔
    ∃ arrival rest, own = arrival :: rest ∧ arrival.token.kind = kind ∧ said rest = kinds :=
  List.map_eq_cons_iff

theorem said_eq_append : said own = kinds ++ more ↔
    ∃ first rest, own = first ++ rest ∧ said first = kinds ∧ said rest = more :=
  List.map_eq_append_iff

theorem said_eq_enclosed : said own = enclosed kinds ↔
    ∃ paren inner close, own = paren :: inner ++ [close] ∧ paren.token.kind = .openParen ∧
      said inner = kinds ∧ close.token.kind = .closeParen := by
  rw [enclosed, List.cons_append, said_eq_cons]
  constructor
  · rintro ⟨paren, rest, rfl, hparen, hrest⟩
    obtain ⟨inner, last, rfl, hinner, hlast⟩ := said_eq_append.mp hrest
    obtain ⟨close, rest, rfl, hclose, hnil⟩ := said_eq_cons.mp hlast
    rw [said_eq_nil.mp hnil]
    exact ⟨paren, inner, close, rfl, hparen, hinner, hclose⟩
  · rintro ⟨paren, inner, close, rfl, hparen, rfl, hclose⟩
    exact ⟨paren, inner ++ [close], rfl, hparen, by simp [said, hclose]⟩

end

/-- The name, standing at a token. -/
def Ident.placedAt (ident : Ident) (arrival : Arrival) : Ident :=
  ⟨ident.name, arrival.token.range⟩

@[simp] theorem Ident.unranged_placedAt (ident : Ident) (arrival : Arrival) :
    (ident.placedAt arrival).unranged = ident.unranged := rfl

theorem Ident.token_eq {ident : Ident} {arrival : Arrival} (h : arrival.token.kind = ident.kind) :
    arrival.token = ⟨(ident.placedAt arrival).kind, (ident.placedAt arrival).range⟩ := by
  rw [show (ident.placedAt arrival).kind = arrival.token.kind from h.symm]
  rfl

section

variable {parts : List Part} {paren arrival close : Arrival} {inner own rest : List Arrival}

/-- Parts in parentheses, with the range that the parentheses give. -/
theorem Covers.enclosed (docs? : Option (List String)) (hdocs : ∀ docs ∈ docs?, paren.docs = docs)
    (hparen : paren.token.kind = .openParen) (hinner : Covers parts inner)
    (hclose : close.token.kind = .closeParen) :
    Covers (Part.enclosed ⟨paren.start, close.token.range.stop⟩ docs? parts)
      (paren :: inner ++ [close]) :=
  covers_enclosed.mpr ⟨paren, inner, close, rfl, ⟨hparen, rfl, hdocs⟩, hinner, hclose, rfl⟩

theorem Covers.token {kind : TokenKind} (h : arrival.token.kind = kind)
    (hrest : Covers parts rest) : Covers (.token kind :: parts) (arrival :: rest) :=
  .word h hrest

theorem Covers.ident {ident : Ident} (h : arrival.token.kind = ident.kind)
    (hrest : Covers parts rest) :
    Covers (.ident (ident.placedAt arrival) :: parts) (arrival :: rest) :=
  covers_ident.mpr ⟨arrival, rest, rfl, Ident.token_eq h, hrest⟩

/-- A list in parentheses, after its opening parenthesis. -/
theorem Covers.list (hparen : paren.token.kind = .openParen)
    (h : Covers parts (inner ++ close :: rest)) :
    Covers (.token .openParen :: parts) (paren :: inner ++ [close] ++ rest) := by
  rw [List.append_assoc, List.cons_append]
  exact .token hparen h

theorem Covers.last {node : Node} (h : Covers node.parts own) : Covers [.node node] own := by
  have hlast : Covers [.node node] (own ++ []) := .node h .nil
  rwa [List.append_nil] at hlast

end

/-! ## Types and parameters -/

mutual

theorem TypeExpr.exists_covers (type : TypeExpr) {own : List Arrival}
    (h : said own = type.kinds) :
    ∃ read : TypeExpr, read.unranged = type.unranged ∧ Covers (Node.type read).parts own := by
  match type with
  | .named name =>
      obtain ⟨arrival, _, rfl, hname, hnil⟩ := said_eq_cons.mp h
      rw [said_eq_nil.mp hnil]
      exact ⟨.named (name.placedAt arrival), rfl, .ident hname .nil⟩
  | .apply _ function args =>
      obtain ⟨paren, _, close, rfl, hparen, h, hclose⟩ := said_eq_enclosed.mp h
      obtain ⟨head, rest, rfl, hhead, hrest⟩ := said_eq_cons.mp h
      obtain ⟨reads, hsame, hreads⟩ := TypeExpr.exists_all_cover args hrest
      exact ⟨.apply _ (function.placedAt head) reads, by simp [TypeExpr.unranged, hsame],
        .enclosed none (by simp) hparen (.ident hhead hreads) hclose⟩
termination_by structural type

theorem TypeExpr.exists_all_cover (types : List TypeExpr) {own : List Arrival}
    (h : said own = TypeExpr.allKinds types) :
    ∃ reads : List TypeExpr, TypeExpr.unrangedAll reads = TypeExpr.unrangedAll types ∧
      Covers (reads.map .type) own := by
  match types with
  | [] =>
      rw [said_eq_nil.mp h]
      exact ⟨[], rfl, .nil⟩
  | type :: types =>
      obtain ⟨first, rest, rfl, hfirst, hrest⟩ := said_eq_append.mp h
      obtain ⟨read, hsame, hread⟩ := TypeExpr.exists_covers type hfirst
      obtain ⟨reads, hall, hreads⟩ := TypeExpr.exists_all_cover types hrest
      exact ⟨read :: reads, by simp [TypeExpr.unrangedAll, hsame, hall], .node hread hreads⟩
termination_by structural types

end

section

variable {own : List Arrival}

theorem Ident.exists_all_cover (names : List Ident) (h : said own = names.map Ident.kind) :
    ∃ reads : List Ident, reads.map Ident.unranged = names.map Ident.unranged ∧
      Covers (reads.map .ident) own := by
  induction names generalizing own with
  | nil =>
      rw [said_eq_nil.mp h]
      exact ⟨[], rfl, .nil⟩
  | cons name names ih =>
      obtain ⟨first, rest, rfl, hfirst, hrest⟩ := said_eq_cons.mp h
      obtain ⟨reads, hsame, hreads⟩ := ih hrest
      exact ⟨name.placedAt first :: reads, by simp [hsame], .ident hfirst hreads⟩

theorem TypedParam.exists_covers (param : TypedParam) (h : said own = param.kinds) :
    ∃ read : TypedParam, read.unranged = param.unranged ∧ Covers read.parts own := by
  obtain ⟨name, _, rfl, hname, h⟩ := said_eq_cons.mp h
  obtain ⟨colon, rest, rfl, hcolon, hrest⟩ := said_eq_cons.mp h
  obtain ⟨type, hsame, htype⟩ := param.type.exists_covers hrest
  exact ⟨⟨param.name.placedAt name, type⟩, by simp [TypedParam.unranged, hsame],
    .ident hname (.token hcolon htype.last)⟩

theorem TypedParam.exists_more_cover (params : List TypedParam)
    (h : said own = params.flatMap fun param => .ampersand :: param.kinds) :
    ∃ reads : List TypedParam, reads.map TypedParam.unranged = params.map TypedParam.unranged ∧
      Covers (reads.flatMap fun param => .token .ampersand :: param.parts) own := by
  induction params generalizing own with
  | nil =>
      rw [said_eq_nil.mp h]
      exact ⟨[], rfl, .nil⟩
  | cons param params ih =>
      rw [List.flatMap_cons] at h
      obtain ⟨_, rest, rfl, hfirst, hrest⟩ := said_eq_append.mp h
      obtain ⟨ampersand, own, rfl, hampersand, hown⟩ := said_eq_cons.mp hfirst
      obtain ⟨read, hsame, hread⟩ := param.exists_covers hown
      obtain ⟨reads, hall, hreads⟩ := ih hrest
      exact ⟨read :: reads, by simp [hsame, hall], .append (.token hampersand hread) hreads⟩

theorem TypedParam.exists_all_cover {params : List TypedParam} (hne : params ≠ [])
    (h : said own = TypedParam.allKinds params) :
    ∃ reads : List TypedParam, reads ≠ [] ∧
      reads.map TypedParam.unranged = params.map TypedParam.unranged ∧
      Covers (TypedParam.allParts reads) own := by
  match params with
  | param :: params =>
      rw [TypedParam.allKinds_cons] at h
      obtain ⟨first, rest, rfl, hfirst, hrest⟩ := said_eq_append.mp h
      obtain ⟨read, hsame, hread⟩ := param.exists_covers hfirst
      obtain ⟨reads, hall, hreads⟩ := TypedParam.exists_more_cover params hrest
      exact ⟨read :: reads, by simp, by simp [hsame, hall], hread.append hreads⟩

theorem Params.exists_covers {params : Params} (hp : params.Proper) (h : said own = params.kinds)
    (closing : Position) :
    ∃ read : Params, read.Proper ∧ read.unranged = params.unranged ∧ Covers read.parts own ∧
      read.range = read.extent closing := by
  match params with
  | .untyped _ names =>
      obtain ⟨reads, hsame, hreads⟩ := Ident.exists_all_cover names h
      exact ⟨.untyped (OpenParams.untypedRange reads closing) reads, trivial,
        by simp [Params.unranged, hsame], hreads, rfl⟩
  | .typed _ params none =>
      obtain ⟨reads, hne, hsame, hreads⟩ := TypedParam.exists_all_cover hp h
      exact ⟨.typed (OpenParams.typedRange reads none closing) reads none, hne,
        by simp [Params.unranged, hsame], hreads, rfl⟩
  | .typed _ params (some declared) =>
      obtain ⟨first, _, rfl, hfirst, h⟩ := said_eq_append.mp h
      obtain ⟨arrow, last, rfl, harrow, hlast⟩ := said_eq_cons.mp h
      obtain ⟨reads, hne, hsame, hreads⟩ := TypedParam.exists_all_cover hp hfirst
      obtain ⟨result, hdeclared, hresult⟩ := declared.exists_covers hlast
      exact ⟨.typed (OpenParams.typedRange reads (some result) closing) reads (some result), hne,
        by simp [Params.unranged, hsame, hdeclared], hreads.append (.token harrow hresult.last),
        rfl⟩

end

/-! ## Values -/

/-- Every docstring. -/
abbrev anyDoc : String → Prop :=
  fun _ => True

/-- Forgets where things stand, and docstrings. -/
def Edit.bare : Edit :=
  ⟨fun _ => default, Params.unranged, fun _ => []⟩

@[simp] theorem Edit.bare_range (range : Range) : bare.range range = default := rfl

@[simp] theorem Edit.bare_params (params : Params) : bare.params params = params.unranged := rfl

@[simp] theorem Edit.bare_docs (docs : List String) : bare.docs docs = [] := rfl

@[simp] theorem Ident.edit_bare (ident : Ident) : ident.edit .bare = ident.unranged := rfl

variable {doc : String → Prop}

mutual

theorem Value.exists_covers (value : Value) (hv : value.Proper doc) {own : List Arrival}
    (h : said own = value.kinds) :
    ∃ read : Value, read.Proper anyDoc ∧ read.edit .bare = value.edit .bare ∧
      Covers (Node.value read).parts own := by
  match value with
  | .literal _ value =>
      obtain ⟨arrival, _, rfl, hvalue, hnil⟩ := said_eq_cons.mp h
      rw [said_eq_nil.mp hnil]
      refine ⟨.literal arrival.token.range value, trivial, rfl, .word ?_ .nil⟩
      rw [Word.Says, ← hvalue]
  | .name ident =>
      obtain ⟨arrival, _, rfl, hname, hnil⟩ := said_eq_cons.mp h
      rw [said_eq_nil.mp hnil]
      exact ⟨.name (ident.placedAt arrival), trivial, rfl, .ident hname .nil⟩
  | .branch _ condition thenArm elseArm =>
      obtain ⟨paren, _, close, rfl, hparen, h, hclose⟩ := said_eq_enclosed.mp h
      rw [List.append_assoc, List.cons_append] at h
      obtain ⟨keyword, _, rfl, hkeyword, h⟩ := said_eq_cons.mp h
      obtain ⟨first, _, rfl, hfirst, h⟩ := said_eq_append.mp h
      obtain ⟨second, third, rfl, hsecond, hthird⟩ := said_eq_append.mp h
      obtain ⟨condition, hcondition, hsame, hfirst⟩ := Value.exists_covers condition hv.1 hfirst
      obtain ⟨thenArm, hthen, hsame', hsecond⟩ := Value.exists_covers thenArm hv.2.1 hsecond
      obtain ⟨elseArm, helse, hsame'', hthird⟩ := Value.exists_covers elseArm hv.2.2 hthird
      exact ⟨.branch _ condition thenArm elseArm, ⟨hcondition, hthen, helse⟩,
        by simp [Value.edit, hsame, hsame', hsame''],
        .enclosed none (by simp) hparen
          (.token hkeyword (.node hfirst (.node hsecond hthird.last))) hclose⟩
  | .cond _ clauses none =>
      obtain ⟨paren, _, close, rfl, hparen, h, hclose⟩ := said_eq_enclosed.mp h
      obtain ⟨keyword, arms, rfl, hkeyword, harms⟩ := said_eq_cons.mp h
      obtain ⟨reads, hreads, hsame, harms⟩ := Clause.exists_all_cover clauses hv.2 harms
      exact ⟨.cond _ reads none, ⟨Clause.ne_nil_of_editAll hsame hv.1, hreads⟩,
        by simp [Value.edit, hsame],
        .enclosed none (by simp) hparen (.token hkeyword harms) hclose⟩
  | .cond _ clauses (some value) =>
      obtain ⟨paren, _, close, rfl, hparen, h, hclose⟩ := said_eq_enclosed.mp h
      rw [List.cons_append] at h
      obtain ⟨keyword, _, rfl, hkeyword, h⟩ := said_eq_cons.mp h
      obtain ⟨arms, _, rfl, harms, h⟩ := said_eq_append.mp h
      obtain ⟨armParen, _, armClose, rfl, harmParen, h, harmClose⟩ := said_eq_enclosed.mp h
      obtain ⟨otherwise', last, rfl, hotherwise, hlast⟩ := said_eq_cons.mp h
      obtain ⟨reads, hreads, hsame, harms⟩ := Clause.exists_all_cover clauses hv.2.1 harms
      obtain ⟨value, hvalue, hsame', hlast⟩ := Value.exists_covers value hv.2.2 hlast
      have harm := Covers.token harmParen
        (.token hotherwise (.node hlast (.token harmClose .nil)))
      exact ⟨.cond _ reads (some value),
        ⟨Clause.ne_nil_of_editAll hsame hv.1, hreads, hvalue⟩,
        by simp [Value.edit, hsame, hsame'],
        .enclosed none (by simp) hparen (.token hkeyword (harms.append harm)) hclose⟩
  | .lambda _ params body =>
      obtain ⟨paren, _, close, rfl, hparen, h, hclose⟩ := said_eq_enclosed.mp h
      rw [List.cons_append] at h
      obtain ⟨keyword, _, rfl, hkeyword, h⟩ := said_eq_cons.mp h
      obtain ⟨_, last, rfl, h, hlast⟩ := said_eq_append.mp h
      obtain ⟨inner, list, listClose, rfl, hinner, hlist, hlistClose⟩ := said_eq_enclosed.mp h
      obtain ⟨params, hparams, hsame, hlist, hrange⟩ :=
        Params.exists_covers hv.1 hlist listClose.start
      obtain ⟨body, hbody, hsame', hlast⟩ := Value.exists_covers body hv.2 hlast
      have hrest := Covers.params hlist hlistClose hrange hlast.last
      exact ⟨.lambda _ params body, ⟨hparams, hbody⟩, by simp [Value.edit, hsame, hsame'],
        .enclosed none (by simp) hparen (.token hkeyword (.list hinner hrest)) hclose⟩
  | .locals _ definitions body =>
      obtain ⟨paren, _, close, rfl, hparen, h, hclose⟩ := said_eq_enclosed.mp h
      rw [List.cons_append] at h
      obtain ⟨keyword, _, rfl, hkeyword, h⟩ := said_eq_cons.mp h
      obtain ⟨_, last, rfl, h, hlast⟩ := said_eq_append.mp h
      obtain ⟨inner, list, listClose, rfl, hinner, hlist, hlistClose⟩ := said_eq_enclosed.mp h
      obtain ⟨reads, hreads, hsame, hlist⟩ := Definition.exists_all_cover definitions hv.1 hlist
      obtain ⟨body, hbody, hsame', hlast⟩ := Value.exists_covers body hv.2 hlast
      have hrest := hlist.append (.token hlistClose hlast.last)
      exact ⟨.locals _ reads body, ⟨hreads, hbody⟩, by simp [Value.edit, hsame, hsame'],
        .enclosed none (by simp) hparen (.token hkeyword (.list hinner hrest)) hclose⟩
  | .lets _ kind bindings body =>
      obtain ⟨paren, _, close, rfl, hparen, h, hclose⟩ := said_eq_enclosed.mp h
      rw [List.cons_append] at h
      obtain ⟨keyword, _, rfl, hkeyword, h⟩ := said_eq_cons.mp h
      obtain ⟨_, last, rfl, h, hlast⟩ := said_eq_append.mp h
      obtain ⟨inner, list, listClose, rfl, hinner, hlist, hlistClose⟩ := said_eq_enclosed.mp h
      obtain ⟨reads, hreads, hsame, hlist⟩ := LetBinding.exists_all_cover bindings hv.1 hlist
      obtain ⟨body, hbody, hsame', hlast⟩ := Value.exists_covers body hv.2 hlast
      have hrest := hlist.append (.token hlistClose hlast.last)
      exact ⟨.lets _ kind reads body, ⟨hreads, hbody⟩, by simp [Value.edit, hsame, hsame'],
        .enclosed none (by simp) hparen (.token hkeyword (.list hinner hrest)) hclose⟩
  | .require _ library =>
      obtain ⟨paren, _, close, rfl, hparen, h, hclose⟩ := said_eq_enclosed.mp h
      obtain ⟨keyword, _, rfl, hkeyword, h⟩ := said_eq_cons.mp h
      obtain ⟨name, _, rfl, hname, hnil⟩ := said_eq_cons.mp h
      rw [said_eq_nil.mp hnil]
      exact ⟨.require _ (library.placedAt name), trivial, by simp [Value.edit],
        .enclosed none (by simp) hparen (.token hkeyword (.ident hname .nil)) hclose⟩
  | .call _ callee args =>
      obtain ⟨paren, _, close, rfl, hparen, h, hclose⟩ := said_eq_enclosed.mp h
      obtain ⟨first, rest, rfl, hfirst, hrest⟩ := said_eq_append.mp h
      obtain ⟨callee, hcallee, hsame, hfirst⟩ := Value.exists_covers callee hv.1 hfirst
      obtain ⟨reads, hreads, hall, hrest⟩ := Value.exists_all_cover args hv.2 hrest
      exact ⟨.call _ callee reads, ⟨hcallee, hreads⟩, by simp [Value.edit, hsame, hall],
        .enclosed none (by simp) hparen (.node hfirst hrest) hclose⟩
termination_by structural value

theorem Value.exists_all_cover (values : List Value) (hv : Value.AllProper doc values)
    {own : List Arrival} (h : said own = Value.allKinds values) :
    ∃ reads : List Value, Value.AllProper anyDoc reads ∧
      Value.editAll .bare reads = Value.editAll .bare values ∧ Covers (reads.map .value) own := by
  match values with
  | [] =>
      rw [said_eq_nil.mp h]
      exact ⟨[], trivial, rfl, .nil⟩
  | value :: values =>
      obtain ⟨first, rest, rfl, hfirst, hrest⟩ := said_eq_append.mp h
      obtain ⟨read, hread, hsame, hfirst⟩ := Value.exists_covers value hv.1 hfirst
      obtain ⟨reads, hreads, hall, hrest⟩ := Value.exists_all_cover values hv.2 hrest
      exact ⟨read :: reads, ⟨hread, hreads⟩, by simp [Value.editAll, hsame, hall],
        .node hfirst hrest⟩
termination_by structural values

theorem Clause.exists_covers (clause : Clause) (hc : clause.Proper doc) {own : List Arrival}
    (h : said own = clause.kinds) :
    ∃ read : Clause, read.Proper anyDoc ∧ read.edit .bare = clause.edit .bare ∧
      Covers (Node.clause read).parts own := by
  match clause with
  | .mk _ condition body =>
      obtain ⟨paren, _, close, rfl, hparen, h, hclose⟩ := said_eq_enclosed.mp h
      obtain ⟨first, second, rfl, hfirst, hsecond⟩ := said_eq_append.mp h
      obtain ⟨condition, hcondition, hsame, hfirst⟩ := Value.exists_covers condition hc.1 hfirst
      obtain ⟨body, hbody, hsame', hsecond⟩ := Value.exists_covers body hc.2 hsecond
      exact ⟨.mk _ condition body, ⟨hcondition, hbody⟩, by simp [Clause.edit, hsame, hsame'],
        .enclosed none (by simp) hparen (.node hfirst hsecond.last) hclose⟩
termination_by structural clause

theorem Clause.exists_all_cover (clauses : List Clause) (hc : Clause.AllProper doc clauses)
    {own : List Arrival} (h : said own = Clause.allKinds clauses) :
    ∃ reads : List Clause, Clause.AllProper anyDoc reads ∧
      Clause.editAll .bare reads = Clause.editAll .bare clauses ∧
        Covers (reads.map .clause) own := by
  match clauses with
  | [] =>
      rw [said_eq_nil.mp h]
      exact ⟨[], trivial, rfl, .nil⟩
  | clause :: clauses =>
      obtain ⟨first, rest, rfl, hfirst, hrest⟩ := said_eq_append.mp h
      obtain ⟨read, hread, hsame, hfirst⟩ := Clause.exists_covers clause hc.1 hfirst
      obtain ⟨reads, hreads, hall, hrest⟩ := Clause.exists_all_cover clauses hc.2 hrest
      exact ⟨read :: reads, ⟨hread, hreads⟩, by simp [Clause.editAll, hsame, hall],
        .node hfirst hrest⟩
termination_by structural clauses

theorem LetBinding.exists_covers (binding : LetBinding) (hb : binding.Proper doc)
    {own : List Arrival} (h : said own = binding.kinds) :
    ∃ read : LetBinding, read.Proper anyDoc ∧ read.edit .bare = binding.edit .bare ∧
      Covers (Node.binding read).parts own := by
  match binding with
  | .mk _ ident value =>
      obtain ⟨paren, _, close, rfl, hparen, h, hclose⟩ := said_eq_enclosed.mp h
      obtain ⟨name, rest, rfl, hname, hrest⟩ := said_eq_cons.mp h
      obtain ⟨value, hvalue, hsame, hrest⟩ := Value.exists_covers value hb hrest
      exact ⟨.mk _ (ident.placedAt name) value, hvalue, by simp [LetBinding.edit, hsame],
        .enclosed none (by simp) hparen (.ident hname hrest.last) hclose⟩
termination_by structural binding

theorem LetBinding.exists_all_cover (bindings : List LetBinding)
    (hb : LetBinding.AllProper doc bindings) {own : List Arrival}
    (h : said own = LetBinding.allKinds bindings) :
    ∃ reads : List LetBinding, LetBinding.AllProper anyDoc reads ∧
      LetBinding.editAll .bare reads = LetBinding.editAll .bare bindings ∧
      Covers (reads.map .binding) own := by
  match bindings with
  | [] =>
      rw [said_eq_nil.mp h]
      exact ⟨[], trivial, rfl, .nil⟩
  | binding :: bindings =>
      obtain ⟨first, rest, rfl, hfirst, hrest⟩ := said_eq_append.mp h
      obtain ⟨read, hread, hsame, hfirst⟩ := LetBinding.exists_covers binding hb.1 hfirst
      obtain ⟨reads, hreads, hall, hrest⟩ := LetBinding.exists_all_cover bindings hb.2 hrest
      exact ⟨read :: reads, ⟨hread, hreads⟩, by simp [LetBinding.editAll, hsame, hall],
        .node hfirst hrest⟩
termination_by structural bindings

theorem Definition.exists_covers (definition : Definition) (hd : definition.Proper doc)
    {own : List Arrival} (h : said own = definition.kinds) :
    ∃ read : Definition, read.Proper anyDoc ∧ read.edit .bare = definition.edit .bare ∧
      Covers (Node.definition read).parts own := by
  match definition with
  | .function _ _ ident params body =>
      obtain ⟨paren, _, close, rfl, hparen, h, hclose⟩ := said_eq_enclosed.mp h
      rw [List.cons_append] at h
      obtain ⟨keyword, _, rfl, hkeyword, h⟩ := said_eq_cons.mp h
      obtain ⟨_, last, rfl, h, hlast⟩ := said_eq_append.mp h
      obtain ⟨inner, _, listClose, rfl, hinner, h, hlistClose⟩ := said_eq_enclosed.mp h
      obtain ⟨name, list, rfl, hname, hlist⟩ := said_eq_cons.mp h
      obtain ⟨params, hparams, hsame, hlist, hrange⟩ :=
        Params.exists_covers hd.2.1 hlist listClose.start
      obtain ⟨body, hbody, hsame', hlast⟩ := Value.exists_covers body hd.2.2 hlast
      have hrest := Covers.params hlist hlistClose hrange hlast.last
      exact ⟨.function _ paren.docs (ident.placedAt name) params body,
        ⟨fun _ _ => trivial, hparams, hbody⟩, by simp [Definition.edit, hsame, hsame'],
        .enclosed (some paren.docs) (by simp) hparen
          (.token hkeyword (.list hinner (.ident hname hrest))) hclose⟩
  | .constant _ _ ident value =>
      obtain ⟨paren, _, close, rfl, hparen, h, hclose⟩ := said_eq_enclosed.mp h
      obtain ⟨keyword, _, rfl, hkeyword, h⟩ := said_eq_cons.mp h
      obtain ⟨name, rest, rfl, hname, hrest⟩ := said_eq_cons.mp h
      obtain ⟨value, hvalue, hsame, hrest⟩ := Value.exists_covers value hd.2 hrest
      exact ⟨.constant _ paren.docs (ident.placedAt name) value, ⟨fun _ _ => trivial, hvalue⟩,
        by simp [Definition.edit, hsame],
        .enclosed (some paren.docs) (by simp) hparen
          (.token hkeyword (.ident hname hrest.last)) hclose⟩
termination_by structural definition

theorem Definition.exists_all_cover (definitions : List Definition)
    (hd : Definition.AllProper doc definitions) {own : List Arrival}
    (h : said own = Definition.allKinds definitions) :
    ∃ reads : List Definition, Definition.AllProper anyDoc reads ∧
      Definition.editAll .bare reads = Definition.editAll .bare definitions ∧
      Covers (reads.map .definition) own := by
  match definitions with
  | [] =>
      rw [said_eq_nil.mp h]
      exact ⟨[], trivial, rfl, .nil⟩
  | definition :: definitions =>
      obtain ⟨first, rest, rfl, hfirst, hrest⟩ := said_eq_append.mp h
      obtain ⟨read, hread, hsame, hfirst⟩ := Definition.exists_covers definition hd.1 hfirst
      obtain ⟨reads, hreads, hall, hrest⟩ := Definition.exists_all_cover definitions hd.2 hrest
      exact ⟨read :: reads, ⟨hread, hreads⟩, by simp [Definition.editAll, hsame, hall],
        .node hfirst hrest⟩
termination_by structural definitions

end

/-! ## Programs -/

variable {own : List Arrival}

theorem StructDefinition.exists_covers {definition : StructDefinition}
    (hs : definition.Proper doc) (h : said own = definition.kinds) :
    ∃ read : StructDefinition, read.Proper anyDoc ∧ read.edit .bare = definition.edit .bare ∧
      Covers (Node.struct read).parts own := by
  obtain ⟨paren, _, close, rfl, hparen, h, hclose⟩ := said_eq_enclosed.mp h
  obtain ⟨keyword, _, rfl, hkeyword, h⟩ := said_eq_cons.mp h
  obtain ⟨name, _, rfl, hname, h⟩ := said_eq_cons.mp h
  obtain ⟨inner, list, listClose, rfl, hinner, hlist, hlistClose⟩ := said_eq_enclosed.mp h
  obtain ⟨fields, hfields, hsame, hlist, hrange⟩ :=
    Params.exists_covers hs.2 hlist listClose.start
  refine ⟨⟨_, paren.docs, definition.name.placedAt name, fields⟩,
    ⟨fun _ _ => trivial, hfields⟩, by simp [StructDefinition.edit, hsame],
    .enclosed (some paren.docs) (by simp) hparen
      (.token hkeyword (.ident hname (.token hinner ?_))) hclose⟩
  exact .params hlist hlistClose hrange .nil

theorem TopLevel.exists_covers {form : TopLevel} (hf : form.Proper doc)
    (h : said own = form.kinds) :
    ∃ read : TopLevel, read.Proper anyDoc ∧ read.edit .bare = form.edit .bare ∧
      Covers read.node.parts own := by
  cases form with
  | definition form =>
      obtain ⟨read, hread, hsame, hown⟩ := Definition.exists_covers form hf h
      exact ⟨.definition read, hread, congrArg TopLevel.definition hsame, hown⟩
  | struct form =>
      obtain ⟨read, hread, hsame, hown⟩ := StructDefinition.exists_covers hf h
      exact ⟨.struct read, hread, congrArg TopLevel.struct hsame, hown⟩
  | value form =>
      obtain ⟨read, hread, hsame, hown⟩ := Value.exists_covers form hf h
      exact ⟨.value read, hread, congrArg TopLevel.value hsame, hown⟩

theorem Program.exists_covers {program : Program} (hp : Program.Proper doc program)
    (h : said own = Program.kinds program) :
    ∃ read : Program, Program.Proper anyDoc read ∧
      Program.edit .bare read = Program.edit .bare program ∧ Covers read.parts own := by
  induction program generalizing own with
  | nil =>
      rw [said_eq_nil.mp h]
      exact ⟨[], by simp [Program.Proper], rfl, .nil⟩
  | cons form program ih =>
      obtain ⟨hform, hprogram⟩ := List.forall_mem_cons.mp hp
      obtain ⟨first, rest, rfl, hfirst, hrest⟩ := said_eq_append.mp h
      obtain ⟨read, hread, hsame, hfirst⟩ := TopLevel.exists_covers hform hfirst
      obtain ⟨reads, hreads, hall, hrest⟩ := ih hprogram hrest
      exact ⟨read :: reads, List.forall_mem_cons.mpr ⟨hread, hreads⟩,
        by simp_all [Program.edit], .node hfirst hrest⟩

/-- The parts of a program that is read cover the tokens that it is read from. -/
theorem covers_of_parseProgram {tokens : List Token} {program : Program}
    (h : parseProgram tokens = .ok program) :
    Program.Proper anyDoc program ∧ Covers program.parts (arrivals 0 [] tokens) := by
  have hdocs : DocsSatisfy anyDoc tokens := fun _ _ _ _ => trivial
  obtain ⟨hkinds, hproper⟩ := parseProgram_spec h hdocs
  have hsaid : said (arrivals 0 [] tokens) = Program.kinds program := by
    rw [hkinds]
    exact map_kind_arrivals 0 [] tokens
  obtain ⟨read, hread, -, hcovers⟩ := Program.exists_covers hproper hsaid
  -- The tree on these tokens is what reading them gives, so it is the program itself.
  have hsame := parseProgram_of_covers hread hcovers
  rw [h, Except.ok.injEq] at hsame
  rw [hsame]
  exact ⟨hread, hcovers⟩

end TypedIsl

import TypedIsl.Proofs.Syntax.Nodes
import TypedIsl.Proofs.Syntax.Places

/-!
# Reading the tokens of a node

The tokens that the parts of a node cover are read as exactly that node, with its ranges and
docstrings, wherever it may stand.
-/

namespace TypedIsl

namespace Progress

/-- The tokens are accepted, one after the other. -/
inductive Reaches : Progress → List Arrival → Progress → Prop
  | nil {p : Progress} : Reaches p [] p
  | cons {p q r : Progress} {arrival : Arrival} {rest : List Arrival}
      (h : p.accept? arrival = some q) (hrest : Reaches q rest r) : Reaches p (arrival :: rest) r

variable {doc : String → Prop} {p q r : Progress} {own rest : List Arrival}
  {arrival paren close : Arrival}

theorem Reaches.append (h : p.Reaches own q) (hrest : q.Reaches rest r) :
    p.Reaches (own ++ rest) r := by
  induction h with
  | nil => exact hrest
  | cons haccept _ ih => exact .cons haccept (ih hrest)

/-! ## Parameter lists -/

section

variable {place : Place} {owner : ParamsOwner place} {context : Context place}

theorem accept?_params {read next : OpenParams} (h : read.accept? arrival.token = some next) :
    (opening (.params owner read) context).accept? arrival =
      some (opening (.params owner next) context) := by
  simp only [accept?, opening?]
  split
  · rename_i params hclose hfinish
    rw [OpenParams.finish?_eq_none h hclose] at hfinish
    exact absurd hfinish (by simp)
  · simp [h]

theorem Reaches.params {read : OpenParams} (next : OpenParams)
    (h : read.accept? arrival.token = some next)
    (hrest : (opening (.params owner next) context).Reaches rest q) :
    (opening (.params owner read) context).Reaches (arrival :: rest) q :=
  .cons (accept?_params h) hrest

mutual

theorem reaches_type (type : TypeExpr) (slot : TypeSlot) (opened : List OpenType)
    {own : List Arrival} (h : Covers type.parts own) :
    (opening (.params owner (.type slot opened)) context).Reaches own
      (opening (.params owner (.withType slot opened type)) context) := by
  match type with
  | .named name =>
      obtain ⟨token, _, rfl, htoken, hnil⟩ := covers_ident.mp h
      rw [covers_nil.mp hnil]
      refine .params _ ?_ .nil
      rw [htoken]
      rfl
  | .apply ⟨start, stop⟩ function args =>
      obtain ⟨paren, _, close, rfl, ⟨hparen, rfl, -⟩, hinner, hclose, rfl⟩ :=
        covers_enclosed.mp h
      obtain ⟨head, _, rfl, hhead, hargs⟩ := covers_ident.mp hinner
      refine .params (.typeFunction slot opened paren.start) ?_ ?_
      · simp [OpenParams.accept?, hparen, Arrival.start]
      refine .params (.type slot (⟨paren.start, function, []⟩ :: opened)) ?_ ?_
      · simp [OpenParams.accept?, hhead, Ident.kind]
      refine .append (reaches_types args slot _ opened hargs) ?_
      refine .params _ ?_ .nil
      simp [OpenParams.accept?, hclose]
termination_by structural type

theorem reaches_types (types : List TypeExpr) (slot : TypeSlot) (innermost : OpenType)
    (outer : List OpenType) {own : List Arrival} (h : Covers (types.map .type) own) :
    (opening (.params owner (.type slot (innermost :: outer))) context).Reaches own
      (opening (.params owner (.type slot
        (⟨innermost.start, innermost.function, innermost.args ++ types⟩ :: outer))) context) := by
  match types with
  | [] =>
      rw [covers_nil.mp h, List.append_nil]
      exact .nil
  | type :: types =>
      obtain ⟨first, rest, rfl, htype, htypes⟩ := covers_node.mp h
      refine .append (reaches_type type slot (innermost :: outer) htype) ?_
      have hrest := reaches_types types slot
        ⟨innermost.start, innermost.function, innermost.args ++ [type]⟩ outer htypes
      rw [List.append_assoc] at hrest
      exact hrest
termination_by structural types

end

theorem reaches_names (names before : List Ident) (h : Covers (names.map .ident) own) :
    (opening (.params owner (.names before)) context).Reaches own
      (opening (.params owner (.names (before ++ names))) context) := by
  induction names generalizing before own with
  | nil =>
      rw [covers_nil.mp h, List.append_nil]
      exact .nil
  | cons name names ih =>
      obtain ⟨token, rest, rfl, htoken, hrest⟩ := covers_ident.mp h
      refine .params (.names (before ++ [name])) ?_ ?_
      · simp [OpenParams.accept?, htoken, Ident.kind]
      rw [List.append_cons before name names]
      exact ih _ hrest

/-- Typed parameters after the first one, each with its ampersand. -/
theorem reaches_more_params (params before : List TypedParam)
    (h : Covers (params.flatMap fun param => .token .ampersand :: param.parts) own) :
    (opening (.params owner (.typed before)) context).Reaches own
      (opening (.params owner (.typed (before ++ params))) context) := by
  induction params generalizing before own with
  | nil =>
      rw [covers_nil.mp h, List.append_nil]
      exact .nil
  | cons param params ih =>
      rw [List.flatMap_cons, List.cons_append] at h
      obtain ⟨ampersand, _, rfl, hampersand, h⟩ := covers_token.mp h
      obtain ⟨name, colon, type, rest, rfl, hname, hcolon, htype, hrest⟩ := covers_param.mp h
      refine .params (.nextName before) (by simp [OpenParams.accept?, hampersand]) ?_
      refine .params (.nextColon before param.name) ?_ ?_
      · simp [OpenParams.accept?, hname, Ident.kind]
      refine .params (.type (.param before param.name) []) ?_ ?_
      · simp [OpenParams.accept?, hcolon]
      refine .append (reaches_type param.type _ _ htype) ?_
      rw [List.append_cons]
      exact ih _ hrest

theorem reaches_typed_params {params : List TypedParam} (hne : params ≠ [])
    (h : Covers (TypedParam.allParts params) own) :
    (opening (.params owner (.names [])) context).Reaches own
      (opening (.params owner (.typed params)) context) := by
  match params with
  | param :: params =>
      obtain ⟨name, colon, type, rest, rfl, hname, hcolon, htype, hrest⟩ := covers_param.mp h
      refine .params (.names [param.name]) ?_ ?_
      · simp [OpenParams.accept?, hname, Ident.kind]
      refine .params (.type (.param [] param.name) []) ?_ ?_
      · simp [OpenParams.accept?, hcolon]
      refine .append (reaches_type param.type _ _ htype) ?_
      exact reaches_more_params params [param] hrest

theorem Reaches.close_params {read : OpenParams} {params : Params}
    (hkind : close.token.kind = .closeParen) (hfinish : read.finish? close.start = some params)
    (hrest : (owner.resume params context).Reaches rest q) :
    (opening (.params owner read) context).Reaches (close :: rest) q :=
  .cons
    (by simp [accept?, opening?, hkind, show read.finish? close.token.range.start = _ from hfinish])
    hrest

/-- A parameter list with its closing parenthesis. -/
theorem reaches_params {params : Params} (hp : params.Proper)
    (h : Covers params.parts own) (hclose : close.token.kind = .closeParen)
    (hrange : params.range = params.extent close.start)
    (hrest : (owner.resume params context).Reaches rest q) :
    (opening (.params owner (.names [])) context).Reaches (own ++ close :: rest) q := by
  match params with
  | .untyped range names =>
      obtain rfl : range = OpenParams.untypedRange names close.start := hrange
      refine .append (reaches_names names [] h) ?_
      exact .close_params hclose rfl hrest
  | .typed range params none =>
      obtain rfl : range = OpenParams.typedRange params none close.start := hrange
      refine .append (reaches_typed_params hp h) ?_
      exact .close_params hclose rfl hrest
  | .typed range params (some declared) =>
      obtain rfl : range = OpenParams.typedRange params (some declared) close.start := hrange
      obtain ⟨first, _, rfl, hparams, h⟩ := Covers.append_iff.mp h
      obtain ⟨arrow, _, rfl, harrow, h⟩ := covers_token.mp h
      obtain ⟨type, _, rfl, htype, hnil⟩ := covers_node.mp h
      rw [covers_nil.mp hnil, List.append_nil, List.append_assoc]
      refine .append (reaches_typed_params hp hparams) ?_
      refine .params (.type (.result params) []) (by simp [OpenParams.accept?, harrow]) ?_
      refine .append (reaches_type declared _ _ htype) ?_
      exact .close_params hclose rfl hrest

end

/-! ## Values -/

/-- Wherever the value may stand, the tokens are read as that value. -/
def ReadAs (own : List Arrival) (value : Value) : Prop :=
  ∀ (p : Progress) (context : Context .value), p.Awaits context →
    p.Reaches own (context.deliver value)

section

variable {start : Position} {context : Context .value} {value : Value}

/-- A value after a parenthesis. -/
theorem Awaits.reaches_form (hp : p.Awaits context) (hparen : paren.token.kind = .openParen)
    (h : ∀ r : Progress, r.OpensValue paren.start context → r.Reaches rest q) :
    p.Reaches (paren :: rest) q := by
  obtain ⟨r, haccept, hopens⟩ := hp.form paren hparen
  exact .cons haccept (h r hopens)

/-- The next value of a form that ends in values. -/
theorem ReadAs.next (h : ReadAs own value) {place : Place} {heading : Heading place}
    {before : List Value} {outer : Context place} (hwants : heading.wants before.length = true)
    (hrest : (waiting (.values start heading (before ++ [value]) outer)).Reaches rest q) :
    (waiting (.values start heading before outer)).Reaches (own ++ rest) q :=
  (h _ _ (awaits_values hwants)).append hrest

/-- The parenthesis after the last value of a form. -/
theorem Reaches.close_values {place : Place} {heading : Heading place} {read : List Value}
    {outer : Context place} {content : place.Content} (hkind : close.token.kind = .closeParen)
    (hbuild : heading.build? ⟨start, close.token.range.stop⟩ read = some content)
    (hrest : (outer.deliver content).Reaches rest q) :
    (waiting (.values start heading read outer)).Reaches (close :: rest) q :=
  .cons (by simp [accept?, waiting?, hkind, hbuild]) hrest

theorem Reaches.close_cond {clauses : List Clause} {otherwise? : Option Value}
    (hne : clauses ≠ []) (hkind : close.token.kind = .closeParen) :
    (waiting (.arms start clauses otherwise? context)).Reaches [close]
      (context.deliver (.cond ⟨start, close.token.range.stop⟩ clauses otherwise?)) :=
  .cons (by simp [accept?, waiting?, hkind, hne]) .nil

end

mutual

theorem readAs_value (value : Value) (hv : value.Proper doc) {own : List Arrival}
    (hown : Covers value.parts own) : ReadAs own value := by
  intro p context hp
  -- The parts of a form are read in the middle of it, so the induction needs every place `p` where
  -- a value may come, not only the beginning of the input.
  match value with
  | .literal range value =>
      obtain ⟨arrival, _, rfl, harrival, hnil⟩ := covers_word.mp hown
      replace harrival : arrival.token = ⟨.literal value, range⟩ := harrival
      rw [covers_nil.mp hnil]
      refine .cons (hp.atom _ _ (by simp [harrival]) ?_) .nil
      simp [value?, harrival]
  | .name ident =>
      obtain ⟨arrival, _, rfl, harrival, hnil⟩ := covers_ident.mp hown
      rw [covers_nil.mp hnil]
      refine .cons (hp.atom _ _ (by simp [harrival, Ident.kind]) ?_) .nil
      simp [value?, harrival, Ident.kind]
  | .branch ⟨start, stop⟩ condition thenArm elseArm =>
      obtain ⟨hcondition, hthen, helse⟩ := hv
      obtain ⟨paren, _, close, rfl, ⟨hparen, rfl, -⟩, h, hclose, rfl⟩ := covers_enclosed.mp hown
      obtain ⟨keyword, _, rfl, hkeyword, h⟩ := covers_token.mp h
      obtain ⟨first, _, rfl, hfirst, h⟩ := covers_node.mp h
      obtain ⟨second, _, rfl, hsecond, h⟩ := covers_node.mp h
      obtain ⟨third, _, rfl, hthird, hnil⟩ := covers_node.mp h
      rw [covers_nil.mp hnil]
      simp only [List.cons_append, List.append_assoc, List.nil_append]
      refine hp.reaches_form hparen fun q hq => ?_
      refine .cons (hq keyword (.waiting (.values paren.start .branch [] context)) ?_) ?_
      · simp [openedValue?, hkeyword]
      refine (readAs_value condition hcondition hfirst).next rfl ?_
      refine (readAs_value thenArm hthen hsecond).next rfl ?_
      refine (readAs_value elseArm helse hthird).next rfl ?_
      exact .close_values hclose rfl .nil
  | .cond ⟨start, stop⟩ clauses none =>
      obtain ⟨hne, hclauses⟩ := hv
      obtain ⟨paren, _, close, rfl, ⟨hparen, rfl, -⟩, h, hclose, rfl⟩ := covers_enclosed.mp hown
      obtain ⟨keyword, inner, rfl, hkeyword, h⟩ := covers_token.mp h
      refine hp.reaches_form hparen fun q hq => ?_
      refine .cons (hq keyword (.waiting (.arms paren.start [] none context)) ?_) ?_
      · simp [openedValue?, hkeyword]
      refine .append (reaches_clauses clauses hclauses [] h) ?_
      exact .close_cond hne hclose
  | .cond ⟨start, stop⟩ clauses (some value) =>
      obtain ⟨hne, hclauses, hvalue⟩ := hv
      obtain ⟨paren, _, close, rfl, ⟨hparen, rfl, -⟩, h, hclose, rfl⟩ := covers_enclosed.mp hown
      rw [List.cons_append] at h
      obtain ⟨keyword, _, rfl, hkeyword, h⟩ := covers_token.mp h
      obtain ⟨arms, _, rfl, harms, h⟩ := Covers.append_iff.mp h
      obtain ⟨armParen, _, rfl, harmParen, h⟩ := covers_token.mp h
      obtain ⟨otherwise', _, rfl, hotherwise, h⟩ := covers_token.mp h
      obtain ⟨last, _, rfl, hlast, h⟩ := covers_node.mp h
      obtain ⟨armClose, _, rfl, harmClose, hnil⟩ := covers_token.mp h
      rw [covers_nil.mp hnil]
      simp only [List.cons_append, List.append_assoc, List.nil_append]
      refine hp.reaches_form hparen fun q hq => ?_
      refine .cons (hq keyword (.waiting (.arms paren.start [] none context)) ?_) ?_
      · simp [openedValue?, hkeyword]
      refine .append (reaches_clauses clauses hclauses [] harms) ?_
      refine .cons (q := opened armParen (.arms paren.start clauses none context)) ?_ ?_
      · simp [accept?, waiting?, harmParen]
      refine .cons (accept?_otherwise armParen hotherwise hne) ?_
      refine (readAs_value value hvalue hlast).next rfl ?_
      refine .close_values harmClose rfl ?_
      exact .close_cond hne hclose
  | .lambda ⟨start, stop⟩ params body =>
      obtain ⟨hparams, hbody⟩ := hv
      obtain ⟨paren, _, close, rfl, ⟨hparen, rfl, -⟩, h, hclose, rfl⟩ := covers_enclosed.mp hown
      obtain ⟨keyword, _, rfl, hkeyword, h⟩ := covers_token.mp h
      obtain ⟨inner, _, rfl, hinner, h⟩ := covers_token.mp h
      obtain ⟨list, listClose, _, rfl, hlist, hlistClose, hrange, h⟩ := covers_params.mp h
      obtain ⟨last, _, rfl, hlast, hnil⟩ := covers_node.mp h
      rw [covers_nil.mp hnil]
      simp only [List.cons_append, List.append_assoc, List.nil_append]
      refine hp.reaches_form hparen fun q hq => ?_
      refine .cons (hq keyword (.opening (.lambda paren.start) context) ?_) ?_
      · simp [openedValue?, hkeyword]
      refine .cons (q := .opening (.params (.lambda paren.start) (.names [])) context) ?_ ?_
      · simp [accept?, opening?, hinner]
      refine reaches_params hparams hlist hlistClose hrange ?_
      refine (readAs_value body hbody hlast).next rfl ?_
      exact .close_values hclose rfl .nil
  | .locals ⟨start, stop⟩ definitions body =>
      obtain ⟨hdefinitions, hbody⟩ := hv
      obtain ⟨paren, _, close, rfl, ⟨hparen, rfl, -⟩, h, hclose, rfl⟩ := covers_enclosed.mp hown
      rw [List.cons_append, List.cons_append] at h
      obtain ⟨keyword, _, rfl, hkeyword, h⟩ := covers_token.mp h
      obtain ⟨inner, _, rfl, hinner, h⟩ := covers_token.mp h
      obtain ⟨list, _, rfl, hlist, h⟩ := Covers.append_iff.mp h
      obtain ⟨listClose, _, rfl, hlistClose, h⟩ := covers_token.mp h
      obtain ⟨last, _, rfl, hlast, hnil⟩ := covers_node.mp h
      rw [covers_nil.mp hnil]
      simp only [List.cons_append, List.append_assoc, List.nil_append]
      refine hp.reaches_form hparen fun q hq => ?_
      refine .cons (hq keyword (.opening (.locals paren.start) context) ?_) ?_
      · simp [openedValue?, hkeyword]
      refine .cons (q := .waiting (.definitions paren.start [] context)) ?_ ?_
      · simp [accept?, opening?, hinner]
      refine .append (reaches_definitions definitions hdefinitions [] hlist) ?_
      refine .cons (q := .waiting (.values paren.start (.locals definitions) [] context)) ?_ ?_
      · simp [accept?, waiting?, hlistClose]
      refine (readAs_value body hbody hlast).next rfl ?_
      exact .close_values hclose rfl .nil
  | .lets ⟨start, stop⟩ kind bindings body =>
      obtain ⟨hbindings, hbody⟩ := hv
      obtain ⟨paren, _, close, rfl, ⟨hparen, rfl, -⟩, h, hclose, rfl⟩ := covers_enclosed.mp hown
      rw [List.cons_append, List.cons_append] at h
      obtain ⟨keyword, _, rfl, hkeyword, h⟩ := covers_token.mp h
      obtain ⟨inner, _, rfl, hinner, h⟩ := covers_token.mp h
      obtain ⟨list, _, rfl, hlist, h⟩ := Covers.append_iff.mp h
      obtain ⟨listClose, _, rfl, hlistClose, h⟩ := covers_token.mp h
      obtain ⟨last, _, rfl, hlast, hnil⟩ := covers_node.mp h
      rw [covers_nil.mp hnil]
      simp only [List.cons_append, List.append_assoc, List.nil_append]
      refine hp.reaches_form hparen fun q hq => ?_
      refine .cons (hq keyword (.opening (.lets paren.start kind) context) ?_) ?_
      · simp [openedValue?, hkeyword]
      refine .cons (q := .waiting (.bindings paren.start kind [] context)) ?_ ?_
      · simp [accept?, opening?, hinner]
      refine .append (reaches_bindings bindings hbindings [] hlist) ?_
      refine .cons (q := .waiting (.values paren.start (.lets kind bindings) [] context)) ?_ ?_
      · simp [accept?, waiting?, hlistClose]
      refine (readAs_value body hbody hlast).next rfl ?_
      exact .close_values hclose rfl .nil
  | .require ⟨start, stop⟩ library =>
      obtain ⟨paren, _, close, rfl, ⟨hparen, rfl, -⟩, h, hclose, rfl⟩ := covers_enclosed.mp hown
      obtain ⟨keyword, _, rfl, hkeyword, h⟩ := covers_token.mp h
      obtain ⟨name, _, rfl, hname, hnil⟩ := covers_ident.mp h
      rw [covers_nil.mp hnil]
      refine hp.reaches_form hparen fun q hq => ?_
      refine .cons (hq keyword (.opening (.require paren.start) context) ?_) ?_
      · simp [openedValue?, hkeyword]
      refine .cons (q := .opening (.required paren.start library) context) ?_ ?_
      · simp [accept?, opening?, hname, Ident.kind]
      exact .cons (by simp [accept?, opening?, hclose]) .nil
  | .call ⟨start, stop⟩ callee args =>
      obtain ⟨hcallee, hargs⟩ := hv
      obtain ⟨paren, _, close, rfl, ⟨hparen, rfl, -⟩, h, hclose, rfl⟩ := covers_enclosed.mp hown
      obtain ⟨first, rest, rfl, hfirst, hrest⟩ := covers_node.mp h
      simp only [List.cons_append, List.append_assoc]
      refine hp.reaches_form hparen fun q hq => ?_
      refine .append (readAs_value callee hcallee hfirst _ _ hq.awaits_callee) ?_
      refine .append (reaches_args args hargs [callee] hrest) ?_
      exact .close_values hclose rfl .nil
termination_by structural value

theorem reaches_args (args : List Value) (ha : Value.AllProper doc args) (before : List Value)
    {start : Position} {context : Context .value} {own : List Arrival}
    (hown : Covers (args.map .value) own) :
    (waiting (.values start .call before context)).Reaches own
      (waiting (.values start .call (before ++ args) context)) := by
  match args with
  | [] =>
      rw [covers_nil.mp hown, List.append_nil]
      exact .nil
  | arg :: args =>
      obtain ⟨first, rest, rfl, hfirst, hrest⟩ := covers_node.mp hown
      refine (readAs_value arg ha.1 hfirst).next rfl ?_
      rw [List.append_cons before arg args]
      exact reaches_args args ha.2 _ hrest
termination_by structural args

theorem reaches_clauses (clauses : List Clause) (hc : Clause.AllProper doc clauses)
    (before : List Clause) {start : Position} {context : Context .value} {own : List Arrival}
    (hown : Covers (clauses.map .clause) own) :
    (waiting (.arms start before none context)).Reaches own
      (waiting (.arms start (before ++ clauses) none context)) := by
  match clauses with
  | [] =>
      rw [covers_nil.mp hown, List.append_nil]
      exact .nil
  | .mk ⟨first, last⟩ condition body :: clauses =>
      obtain ⟨⟨hcondition, hbody⟩, hclauses⟩ := hc
      obtain ⟨_, rest, rfl, hform, hrest⟩ := covers_node.mp hown
      obtain ⟨paren, _, close, rfl, ⟨hparen, rfl, -⟩, h, hclose, rfl⟩ := covers_enclosed.mp hform
      obtain ⟨guard, _, rfl, hguard, h⟩ := covers_node.mp h
      obtain ⟨result, _, rfl, hresult, hnil⟩ := covers_node.mp h
      rw [covers_nil.mp hnil]
      simp only [List.cons_append, List.append_assoc, List.nil_append]
      refine .cons (q := opened paren (.arms start before none context)) ?_ ?_
      · simp [accept?, waiting?, hparen]
      refine .append (readAs_value condition hcondition hguard _ _ (awaits_condition paren)) ?_
      refine (readAs_value body hbody hresult).next rfl ?_
      refine .close_values hclose rfl ?_
      rw [List.append_cons before]
      exact reaches_clauses clauses hclauses _ hrest
termination_by structural clauses

theorem reaches_bindings (bindings : List LetBinding) (hb : LetBinding.AllProper doc bindings)
    (before : List LetBinding) {start : Position} {kind : LetKind} {context : Context .value}
    {own : List Arrival} (hown : Covers (bindings.map .binding) own) :
    (waiting (.bindings start kind before context)).Reaches own
      (waiting (.bindings start kind (before ++ bindings) context)) := by
  match bindings with
  | [] =>
      rw [covers_nil.mp hown, List.append_nil]
      exact .nil
  | .mk ⟨first, last⟩ ident value :: bindings =>
      obtain ⟨hvalue, hbindings⟩ := hb
      obtain ⟨_, rest, rfl, hform, hrest⟩ := covers_node.mp hown
      obtain ⟨paren, _, close, rfl, ⟨hparen, rfl, -⟩, h, hclose, rfl⟩ := covers_enclosed.mp hform
      obtain ⟨name, _, rfl, hname, h⟩ := covers_ident.mp h
      obtain ⟨bound, _, rfl, hbound, hnil⟩ := covers_node.mp h
      rw [covers_nil.mp hnil]
      simp only [List.cons_append, List.append_assoc, List.nil_append]
      refine .cons (q := opened paren (.bindings start kind before context)) ?_ ?_
      · simp [accept?, waiting?, hparen]
      refine .cons (q := waiting (.values paren.start (.binding ident) []
        (.bindings start kind before context))) ?_ ?_
      · simp [accept?, opened?, hname, Ident.kind]
      refine (readAs_value value hvalue hbound).next rfl ?_
      refine .close_values hclose rfl ?_
      rw [List.append_cons before]
      exact reaches_bindings bindings hbindings _ hrest
termination_by structural bindings

/-- A definition, from the state after its keyword. -/
theorem reaches_definition (definition : Definition) (hd : definition.Proper doc)
    {p : Progress} {context : Context .definition} {own : List Arrival}
    (hp : ∀ paren keyword : Arrival, paren.token.kind = .openParen →
      keyword.token.kind = .keyword .define →
      p.Reaches [paren, keyword] (.opening (.define paren.start paren.docs) context))
    (hown : Covers definition.parts own) : p.Reaches own (context.deliver definition) := by
  match definition with
  | .constant ⟨start, stop⟩ docs ident value =>
      obtain ⟨paren, _, close, rfl, ⟨hparen, rfl, hdocs⟩, h, hclose, rfl⟩ :=
        covers_enclosed.mp hown
      obtain rfl := hdocs docs rfl
      obtain ⟨keyword, _, rfl, hkeyword, h⟩ := covers_token.mp h
      obtain ⟨name, _, rfl, hname, h⟩ := covers_ident.mp h
      obtain ⟨bound, _, rfl, hbound, hnil⟩ := covers_node.mp h
      rw [covers_nil.mp hnil]
      simp only [List.cons_append, List.append_assoc, List.nil_append]
      refine .append (hp paren keyword hparen hkeyword) ?_
      refine .cons (q := waiting (.values paren.start (.constant paren.docs ident) [] context))
        ?_ ?_
      · simp [accept?, opening?, hname, Ident.kind]
      refine (readAs_value value hd.2 hbound).next rfl ?_
      exact .close_values hclose rfl .nil
  | .function ⟨start, stop⟩ docs ident params body =>
      obtain ⟨paren, _, close, rfl, ⟨hparen, rfl, hdocs⟩, h, hclose, rfl⟩ :=
        covers_enclosed.mp hown
      obtain rfl := hdocs docs rfl
      obtain ⟨keyword, _, rfl, hkeyword, h⟩ := covers_token.mp h
      obtain ⟨inner, _, rfl, hinner, h⟩ := covers_token.mp h
      obtain ⟨name, _, rfl, hname, h⟩ := covers_ident.mp h
      obtain ⟨list, listClose, _, rfl, hlist, hlistClose, hrange, h⟩ := covers_params.mp h
      obtain ⟨last, _, rfl, hlast, hnil⟩ := covers_node.mp h
      rw [covers_nil.mp hnil]
      simp only [List.cons_append, List.append_assoc, List.nil_append]
      refine .append (hp paren keyword hparen hkeyword) ?_
      refine .cons (q := .opening (.function paren.start paren.docs) context) ?_ ?_
      · simp [accept?, opening?, hinner]
      refine .cons (q := .opening (.params (.function paren.start paren.docs ident) (.names []))
        context) ?_ ?_
      · simp [accept?, opening?, hname, Ident.kind]
      refine reaches_params hd.2.1 hlist hlistClose hrange ?_
      refine (readAs_value body hd.2.2 hlast).next rfl ?_
      exact .close_values hclose rfl .nil
termination_by structural definition

theorem reaches_definitions (definitions : List Definition)
    (hd : Definition.AllProper doc definitions) (before : List Definition) {start : Position}
    {context : Context .value} {own : List Arrival}
    (hown : Covers (definitions.map .definition) own) :
    (waiting (.definitions start before context)).Reaches own
      (waiting (.definitions start (before ++ definitions) context)) := by
  match definitions with
  | [] =>
      rw [covers_nil.mp hown, List.append_nil]
      exact .nil
  | definition :: definitions =>
      obtain ⟨first, rest, rfl, hfirst, hrest⟩ := covers_node.mp hown
      have hp : ∀ paren keyword : Arrival, paren.token.kind = .openParen →
          keyword.token.kind = .keyword .define →
          (waiting (.definitions start before context)).Reaches [paren, keyword]
            (.opening (.define paren.start paren.docs) (.definitions start before context)) := by
        intro paren keyword hparen hkeyword
        refine .cons (q := opened paren (.definitions start before context)) ?_ ?_
        · simp [accept?, waiting?, hparen]
        · exact .cons (by simp [accept?, opened?, hkeyword]) .nil
      refine .append (reaches_definition definition hd.1 hp hfirst) ?_
      rw [List.append_cons before definition]
      exact reaches_definitions definitions hd.2 _ hrest
termination_by structural definitions

end

/-! ## Programs -/

theorem reaches_topLevel {form : TopLevel} (hf : form.Proper doc) (read : List TopLevel)
    (hown : Covers form.node.parts own) :
    (waiting (.program read)).Reaches own (waiting (.program (read ++ [form]))) := by
  have hopened : ∀ paren : Arrival, paren.token.kind = .openParen →
      (waiting (.program read)).accept? paren = some (opened paren (.program read)) := by
    intro paren hparen
    simp [accept?, waiting?, hparen]
  match form with
  | .value value => exact readAs_value value hf hown _ _ (awaits_topValue read)
  | .definition definition =>
      have hdefine : ∀ paren keyword : Arrival, paren.token.kind = .openParen →
          keyword.token.kind = .keyword .define →
          (waiting (.program read)).Reaches [paren, keyword]
            (.opening (.define paren.start paren.docs) (.topDefinition read)) := by
        intro paren keyword hparen hkeyword
        exact .cons (hopened paren hparen) (.cons (by simp [accept?, opened?, hkeyword]) .nil)
      exact reaches_definition definition hf hdefine hown
  | .struct ⟨⟨start, stop⟩, docs, ident, fields⟩ =>
      obtain ⟨paren, _, close, rfl, ⟨hparen, rfl, hdocs⟩, h, hclose, rfl⟩ :=
        covers_enclosed.mp hown
      obtain rfl := hdocs docs rfl
      obtain ⟨keyword, _, rfl, hkeyword, h⟩ := covers_token.mp h
      obtain ⟨name, _, rfl, hname, h⟩ := covers_ident.mp h
      obtain ⟨inner, _, rfl, hinner, h⟩ := covers_token.mp h
      obtain ⟨list, listClose, _, rfl, hlist, hlistClose, hrange, hnil⟩ := covers_params.mp h
      rw [covers_nil.mp hnil]
      simp only [List.cons_append, List.append_assoc, List.nil_append]
      refine .cons (hopened paren hparen) ?_
      refine .cons (q := .opening (.struct paren.start paren.docs) (.program read)) ?_ ?_
      · simp [accept?, opened?, hkeyword]
      refine .cons (q := .opening (.structName paren.start paren.docs ident) (.program read)) ?_ ?_
      · simp [accept?, opening?, hname, Ident.kind]
      refine .cons (q := .opening (.params (.struct paren.start paren.docs ident) (.names []))
        (.program read)) ?_ ?_
      · simp [accept?, opening?, hinner]
      refine reaches_params hf.2 hlist hlistClose hrange ?_
      exact .cons (by simp [accept?, opening?, ParamsOwner.resume, hclose, Context.deliver]) .nil

theorem reaches_program {program : Program} (hp : Program.Proper doc program)
    (read : List TopLevel) (hown : Covers program.parts own) :
    (waiting (.program read)).Reaches own (waiting (.program (read ++ program))) := by
  induction program generalizing read own with
  | nil =>
      rw [covers_nil.mp hown, List.append_nil]
      exact .nil
  | cons form program ih =>
      obtain ⟨hform, hprogram⟩ := List.forall_mem_cons.mp hp
      obtain ⟨first, rest, rfl, hfirst, hrest⟩ := covers_node.mp hown
      refine .append (reaches_topLevel hform read hfirst) ?_
      have hread := ih hprogram (read ++ [form]) hrest
      rwa [List.append_assoc] at hread

end Progress

/-! ## Tokens with their docstrings -/

/-- The tokens that are not docstrings, each with those directly before it. The first token has the
given index and comes directly after `docs`. -/
def arrivals (index : Nat) (docs : List String) : List Token → List Arrival
  | [] => []
  | token :: rest =>
      match token.kind with
      | .docstring text => arrivals (index + 1) (docs ++ [text]) rest
      | _ => ⟨token, index, docs⟩ :: arrivals (index + 1) [] rest

theorem arrivals_docstring {token : Token} {text : String} (h : token.kind = .docstring text)
    (index : Nat) (docs : List String) (rest : List Token) :
    arrivals index docs (token :: rest) = arrivals (index + 1) (docs ++ [text]) rest := by
  rw [arrivals, h]

theorem arrivals_spoken {token : Token} (h : ∀ text, token.kind = .docstring text → False)
    (index : Nat) (docs : List String) (rest : List Token) :
    arrivals index docs (token :: rest) = ⟨token, index, docs⟩ :: arrivals (index + 1) [] rest := by
  rw [arrivals]
  split
  · rename_i text htext
    exact (h text htext).elim
  · rfl

theorem map_kind_arrivals (index : Nat) (docs : List String) (tokens : List Token) :
    (arrivals index docs tokens).map (·.token.kind) = spokenKinds tokens := by
  induction tokens generalizing index docs with
  | nil => rfl
  | cons token rest ih =>
      rcases token.kind.docstring_or_spoken with ⟨text, htext⟩ | hspoken
      · rw [arrivals_docstring htext, spokenKinds_docstring htext, ih]
      · rw [arrivals_spoken hspoken, spokenKinds_spoken hspoken, List.map_cons, ih]

namespace Progress

/-- Reading tokens is accepting those that are not docstrings. -/
theorem run_of_reaches {p q : Progress} {index : Nat} {docs : List String} {tokens : List Token}
    (h : p.Reaches (arrivals index docs tokens) q) : p.run index docs tokens = .ok q := by
  induction tokens generalizing p index docs with
  | nil =>
      cases h
      rfl
  | cons token rest ih =>
      rw [run]
      split
      · rename_i text htext
        rw [arrivals_docstring htext] at h
        exact ih h
      · rename_i hspoken
        rw [arrivals_spoken hspoken] at h
        cases h with
        | cons haccept hrest =>
            rw [step, haccept]
            exact ih hrest

end Progress

theorem parseProgram_of_covers {program : Program} {tokens : List Token}
    {doc : String → Prop} (hp : Program.Proper doc program)
    (h : Covers program.parts (arrivals 0 [] tokens)) : parseProgram tokens = .ok program := by
  rw [parseProgram, Progress.run_of_reaches (Progress.reaches_program hp [] h)]
  rfl

theorem parseValue_of_covers {value : Value} {tokens : List Token} {doc : String → Prop}
    (hv : value.Proper doc) (h : Covers value.parts (arrivals 0 [] tokens)) :
    parseValue tokens = .ok value := by
  have hread := Progress.readAs_value value hv h _ _ Progress.awaits_alone
  rw [parseValue, Progress.run_of_reaches hread]
  rfl

end TypedIsl

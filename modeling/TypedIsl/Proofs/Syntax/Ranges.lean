import TypedIsl.Proofs.Syntax.NodeTokens
import TypedIsl.Proofs.Token.Cutting

/-!
# The ranges of nodes

The range of a node goes from the start of its first token to the end of its last one. Since the
tokens of a text come in order, the ranges of the parts of a node lie in its range, one after the
other.
-/

namespace TypedIsl

/-! ## From the first token to the last -/

/-- The range goes from the start of the first token to the end of the last one. -/
def Range.Spans (range : Range) (own : List Token) : Prop :=
  ∃ first last, own.head? = some first ∧ own.getLast? = some last ∧
    range = first.range.through last.range

/-- The tokens that have arrived. -/
def tokensOf (own : List Arrival) : List Token :=
  own.map (·.token)

@[simp] theorem tokensOf_nil : tokensOf [] = [] := rfl

@[simp] theorem tokensOf_cons (arrival : Arrival) (rest : List Arrival) :
    tokensOf (arrival :: rest) = arrival.token :: tokensOf rest := rfl

@[simp] theorem tokensOf_append (own rest : List Arrival) :
    tokensOf (own ++ rest) = tokensOf own ++ tokensOf rest :=
  List.map_append

section

variable {parts : List Part} {own : List Arrival} {range : Range}

theorem Covers.spans_enclosed {docs? : Option (List String)}
    (h : Covers (Part.enclosed range docs? parts) own) : range.Spans (tokensOf own) := by
  obtain ⟨paren, inner, close, rfl, ⟨-, hstart, -⟩, -, -, hstop⟩ := covers_enclosed.mp h
  refine ⟨paren.token, close.token, by simp, by simp [List.getLast?_cons], ?_⟩
  replace hstart : paren.token.range.start = range.start := hstart
  rw [Range.through, hstop, hstart]

theorem Covers.spans_exact {kind : TokenKind} (h : Covers [.word (.exact kind range)] own) :
    range.Spans (tokensOf own) := by
  obtain ⟨arrival, _, rfl, harrival, hnil⟩ := covers_word.mp h
  rw [covers_nil.mp hnil]
  replace harrival : arrival.token = ⟨kind, range⟩ := harrival
  exact ⟨arrival.token, arrival.token, rfl, rfl, by rw [harrival]; rfl⟩

theorem Covers.spans_ident {ident : Ident} (h : Covers [.ident ident] own) :
    ident.range.Spans (tokensOf own) := by
  obtain ⟨inner, _, rfl, hinner, hnil⟩ := covers_node.mp h
  rw [covers_nil.mp hnil, List.append_nil]
  exact Covers.spans_exact hinner

theorem TypeExpr.spans {type : TypeExpr} (h : Covers type.parts own) :
    type.range.Spans (tokensOf own) := by
  cases type with
  | named name => exact h.spans_ident
  | apply range function args => exact h.spans_enclosed

/-! ## Parameter lists -/

theorem Covers.head_ident {ident : Ident} (h : Covers (.ident ident :: parts) own) :
    ∃ first, (tokensOf own).head? = some first ∧ first.range = ident.range := by
  obtain ⟨arrival, rest, rfl, harrival, -⟩ := covers_ident.mp h
  exact ⟨arrival.token, rfl, by rw [harrival]⟩

/-- The last token of parts that end in a node. -/
theorem Covers.last_node {node : Node} (h : Covers (parts ++ [.node node]) own)
    (hspans : ∀ inner, Covers node.parts inner → node.range.Spans (tokensOf inner)) :
    ∃ last, (tokensOf own).getLast? = some last ∧ last.range.stop = node.range.stop := by
  obtain ⟨front, back, rfl, -, hback⟩ := Covers.append_iff.mp h
  obtain ⟨inner, _, rfl, hinner, hnil⟩ := covers_node.mp hback
  obtain ⟨first, last, -, hlast, hrange⟩ := hspans inner hinner
  refine ⟨last, ?_, by rw [hrange]; rfl⟩
  rw [covers_nil.mp hnil, List.append_nil, tokensOf_append, List.getLast?_append, hlast]
  rfl

theorem TypedParam.allParts_eq {params : List TypedParam} {last : TypedParam}
    (h : params.getLast? = some last) :
    ∃ front, TypedParam.allParts params = front ++ [.type last.type] := by
  obtain ⟨init, rfl⟩ := List.getLast?_eq_some_iff.mp h
  cases init with
  | nil => exact ⟨[.ident last.name, .token .colon], rfl⟩
  | cons param init =>
      refine ⟨param.parts ++ (init.flatMap fun other => .token .ampersand :: other.parts) ++
        [.token .ampersand, .ident last.name, .token .colon], ?_⟩
      simp [TypedParam.allParts, TypedParam.parts]

/-- A list that is not empty goes from its first name to its last name or type. -/
theorem Params.spans {params : Params} {closing : Position} (hproper : params.Proper)
    (h : Covers params.parts own) (hrange : params.range = params.extent closing)
    (hne : ∀ range, params ≠ .untyped range []) : params.range.Spans (tokensOf own) := by
  rw [hrange]
  match params with
  | .untyped range [] => exact absurd rfl (hne range)
  | .untyped range (name :: names) =>
      obtain ⟨first, hfirst, hstart⟩ := h.head_ident
      have hfinal := List.getLast?_eq_some_getLast (List.cons_ne_nil name names)
      obtain ⟨init, hinit⟩ := List.getLast?_eq_some_iff.mp hfinal
      rw [Params.parts, hinit, List.map_append] at h
      obtain ⟨last, hlast, hstop⟩ := h.last_node fun _ => Covers.spans_exact
      refine ⟨first, last, hfirst, hlast, ?_⟩
      rw [Params.extent, OpenParams.untypedRange, hfinal, Range.through, hstart, hstop]
      rfl
  | .typed range (param :: params) none =>
      obtain ⟨first, hfirst, hstart⟩ := h.head_ident
      have hfinal := List.getLast?_eq_some_getLast (List.cons_ne_nil param params)
      obtain ⟨front, hfront⟩ := TypedParam.allParts_eq hfinal
      rw [Params.parts, hfront] at h
      obtain ⟨last, hlast, hstop⟩ := h.last_node fun _ => TypeExpr.spans
      refine ⟨first, last, hfirst, hlast, ?_⟩
      simp [Params.extent, OpenParams.typedRange, hfinal, Range.through, hstart, hstop, Node.range]
  | .typed range (param :: params) (some declared) =>
      obtain ⟨first, hfirst, hstart⟩ := h.head_ident
      rw [Params.parts, List.append_cons] at h
      obtain ⟨last, hlast, hstop⟩ := h.last_node fun _ => TypeExpr.spans
      refine ⟨first, last, hfirst, hlast, ?_⟩
      rw [Params.extent, OpenParams.typedRange, Range.through, hstart, hstop]
      rfl

end

/-! ## Any node -/

/-- `own` are the tokens of the node, and its range goes from the first to the last of them. Only
an untyped parameter list may have none: it has the empty range at its closing parenthesis, which
is the next token. -/
def Node.Fits (node : Node) (own after : List Token) : Prop :=
  own.map (·.kind) = node.kinds ∧
    (node.range.Spans own ∨
      own = [] ∧ (∃ range, node = .params (.untyped range [])) ∧
        ∃ close rest, after = close :: rest ∧ close.kind = .closeParen ∧
          node.range = .emptyAt close.range.start)

section

variable {doc : String → Prop} {node : Node} {own after : List Arrival}

theorem Node.StandsAt.spans (h : node.StandsAt own after) (hproper : node.Proper doc)
    (hne : ∀ range, node ≠ .params (.untyped range [])) : node.range.Spans (tokensOf own) := by
  obtain ⟨hcovers, hclosed⟩ := h
  match node with
  | .ident form => exact hcovers.spans_exact
  | .type form => exact TypeExpr.spans hcovers
  | .params form =>
      obtain ⟨close, rest, rfl, -, hrange⟩ := hclosed form rfl
      exact Params.spans hproper hcovers hrange fun range hform => hne range (by rw [hform])
  | .value (.literal ..) => exact hcovers.spans_exact
  | .value (.name ..) => exact hcovers.spans_ident
  | .value (.cond _ _ none) | .value (.cond _ _ (some _)) => exact hcovers.spans_enclosed
  | .value (.branch ..) | .value (.lambda ..) | .value (.locals ..) | .value (.lets ..)
  | .value (.require ..) | .value (.call ..) | .clause (.mk ..) | .binding (.mk ..)
  | .definition (.function ..) | .definition (.constant ..) | .struct ⟨_, _, _, _⟩ =>
      exact hcovers.spans_enclosed

theorem Node.StandsAt.empty {range : Range}
    (h : (Node.params (.untyped range [])).StandsAt own after) :
    own = [] ∧ ∃ close rest, after = close :: rest ∧ close.token.kind = .closeParen ∧
      range = .emptyAt close.start := by
  obtain ⟨hcovers, hclosed⟩ := h
  obtain ⟨close, rest, rfl, hclose, hrange⟩ := hclosed _ rfl
  exact ⟨covers_nil.mp hcovers, close, rest, rfl, hclose, hrange⟩

theorem Node.StandsAt.fits (h : node.StandsAt own after) (hproper : node.Proper doc) :
    node.Fits (tokensOf own) (tokensOf after) := by
  refine ⟨?_, ?_⟩
  · rw [← h.covers.said_node, tokensOf, said, List.map_map]
    rfl
  by_cases hlist : ∃ range, node = .params (.untyped range [])
  · obtain ⟨range, rfl⟩ := hlist
    obtain ⟨rfl, close, rest, rfl, hclose, hrange⟩ := h.empty
    exact .inr ⟨rfl, ⟨range, rfl⟩, close.token, tokensOf rest, rfl, hclose, hrange⟩
  · exact .inl (h.spans hproper fun range hnode => hlist ⟨range, hnode⟩)

end

/-! ## The ranges of children -/

/-- The range starts where a token starts, and stops where a token starts or stops. -/
def Range.Within (range : Range) (own : List Token) : Prop :=
  ∃ first ∈ own, ∃ last ∈ own, range.start = first.range.start ∧
    (range.stop = last.range.stop ∨ range.stop = last.range.start)

/-- The first node stops before the second one starts, and it also starts before it. -/
def Node.Before (node next : Node) : Prop :=
  node.range.stop.index ≤ next.range.start.index ∧
    node.range.start.index < next.range.start.index

section

variable {range : Range} {tokens own rest : List Token}

theorem Range.Within.mono (h : range.Within own) (hsubset : own ⊆ tokens) :
    range.Within tokens := by
  obtain ⟨first, hfirst, last, hlast, hrange⟩ := h
  exact ⟨first, hsubset hfirst, last, hsubset hlast, hrange⟩

theorem Range.Spans.within (h : range.Spans own) : range.Within own := by
  obtain ⟨first, last, hfirst, hlast, rfl⟩ := h
  exact ⟨first, List.mem_of_head? hfirst, last, List.mem_of_getLast? hlast, rfl, .inl rfl⟩

theorem Node.before_of_within {node next : Node} (h : node.range.Within own)
    (hnext : next.range.Within rest) (horder : InOrder (own ++ rest)) : node.Before next := by
  obtain ⟨first, hfirst, last, hlast, hstart, hstop⟩ := h
  obtain ⟨other, hother, -, -, hother', -⟩ := hnext
  have hbefore := (List.pairwise_append.mp horder.pairwise).2.2
  have hfirstOther := hbefore first hfirst other hother
  have hlastOther := hbefore last hlast other hother
  have hfirstSize := horder.nonempty first (List.mem_append_left _ hfirst)
  have hlastSize := horder.nonempty last (List.mem_append_left _ hlast)
  rw [Node.Before, hother', hstart]
  rcases hstop with hstop | hstop
  all_goals
    rw [hstop]
    omega

theorem Range.contains_iff {outer inner : Range} : outer.contains inner = true ↔
    outer.start.index ≤ inner.start.index ∧ inner.stop.index ≤ outer.stop.index := by
  simp [Range.contains]

theorem InOrder.head_le {first token : Token} (h : InOrder own) (hfirst : own.head? = some first)
    (htoken : token ∈ own) : first.range.start.index ≤ token.range.start.index := by
  obtain ⟨rest, rfl⟩ := List.head?_eq_some_iff.mp hfirst
  have hsize := h.nonempty first (List.mem_cons_self ..)
  rcases List.mem_cons.mp htoken with rfl | htoken
  · exact Nat.le_refl _
  · have hbefore := List.rel_of_pairwise_cons h.pairwise htoken
    omega

theorem InOrder.le_last {last token : Token} (h : InOrder own) (hlast : own.getLast? = some last)
    (htoken : token ∈ own) : token.range.stop.index ≤ last.range.stop.index := by
  obtain ⟨init, rfl⟩ := List.getLast?_eq_some_iff.mp hlast
  have hsize := h.nonempty last (by simp)
  rcases List.mem_append.mp htoken with htoken | htoken
  · have hbefore := (List.pairwise_append.mp h.pairwise).2.2 token htoken last (by simp)
    omega
  · rw [List.mem_singleton.mp htoken]

theorem Range.Spans.contains {inner : Range} (h : range.Spans own) (hinner : inner.Within own)
    (horder : InOrder own) : range.contains inner = true := by
  obtain ⟨first, last, hfirst, hlast, rfl⟩ := h
  obtain ⟨low, hlow, high, hhigh, hstart, hstop⟩ := hinner
  have hfirstLow := horder.head_le hfirst hlow
  have hhighLast := horder.le_last hlast hhigh
  have hhighSize := horder.nonempty high hhigh
  rw [Range.contains_iff, hstart]
  refine ⟨hfirstLow, ?_⟩
  rcases hstop with hstop | hstop
  all_goals
    rw [hstop]
    dsimp only [Range.through]
    omega

end

section

variable {doc : String → Prop} {parts : List Part} {own : List Arrival} {node child : Node}

theorem Node.StandsAt.within {before after : List Arrival} (h : node.StandsAt own after)
    (hproper : node.Proper doc) : node.range.Within (tokensOf (before ++ own ++ after)) := by
  by_cases hlist : ∃ range, node = .params (.untyped range [])
  · -- The empty list has no token of its own, so its range is that of the next token's start.
    obtain ⟨range, rfl⟩ := hlist
    obtain ⟨rfl, close, rest, rfl, -, rfl⟩ := h.empty
    exact ⟨close.token, by simp, close.token, by simp, rfl, .inr rfl⟩
  · have hspans := h.spans hproper fun range hnode => hlist ⟨range, hnode⟩
    exact hspans.within.mono (by simp)

theorem Covers.child_within (h : Covers parts own) (hproper : ∀ part ∈ parts, part.Proper doc)
    (hchild : child ∈ parts.filterMap Part.child?) : child.range.Within (tokensOf own) := by
  obtain ⟨part, hpart, hpartChild⟩ := List.mem_filterMap.mp hchild
  obtain ⟨before, inner, after, rfl, hstands⟩ := h.child hproper hchild
  exact hstands.within ((hproper part hpart).child hpartChild)

/-- The children come one after the other. -/
theorem Covers.pairwise_children (h : Covers parts own)
    (hproper : ∀ part ∈ parts, part.Proper doc) (horder : InOrder (tokensOf own)) :
    (parts.filterMap Part.child?).Pairwise Node.Before := by
  induction parts generalizing own with
  | nil => exact .nil
  | cons part parts ih =>
      obtain ⟨hpart, hparts⟩ := List.forall_mem_cons.mp hproper
      rw [← List.singleton_append] at h
      obtain ⟨first, rest, rfl, hfirst, hrest⟩ := Covers.append_iff.mp h
      rw [tokensOf_append] at horder
      have hpairwise := ih hrest hparts (horder.sublist (List.sublist_append_right ..))
      cases hchild : part.child? with
      | none =>
          rw [List.filterMap_cons_none hchild]
          exact hpairwise
      | some child =>
          have hwithin : child.range.Within (tokensOf first) :=
            hfirst.child_within (List.forall_mem_singleton.mpr hpart) (by simp [hchild])
          rw [List.filterMap_cons_some hchild]
          refine .cons (fun next hnext => ?_) hpairwise
          exact Node.before_of_within hwithin (hrest.child_within hparts hnext) horder

theorem Node.StandsAt.contains_children {after : List Arrival} (h : node.StandsAt own after)
    (hproper : node.Proper doc) (horder : InOrder (tokensOf own)) (hchild : child ∈ node.children) :
    node.range.contains child.range = true := by
  have hspans : node.range.Spans (tokensOf own) := by
    refine h.spans hproper ?_
    rintro range rfl
    exact absurd hchild (List.not_mem_nil)
  exact hspans.contains (h.covers.child_within hproper.parts hchild) horder

end

/-! ## The tokens of a source text -/

theorem tokensOf_arrivals (index : Nat) (docs : List String) (tokens : List Token) :
    tokensOf (arrivals index docs tokens) = spoken tokens := by
  induction tokens generalizing index docs with
  | nil => rfl
  | cons token rest ih =>
      rcases token.kind.docstring_or_spoken with ⟨text, htext⟩ | hspoken
      · rw [arrivals_docstring htext, ih, spoken_docstring htext]
      · rw [arrivals_spoken hspoken, tokensOf_cons, ih, spoken_cons hspoken]

/-- A source text that is a program has no lexical fault. -/
theorem lexes_of_programOfSource {source : String} {program : Program}
    (h : programOfSource source = .ok program) :
    Lexes .first source.toList (lex source).tokens ∧
      parseProgram (lex source).tokens = .ok program := by
  unfold programOfSource Lexed.parse at h
  split at h
  · exact absurd h (by simp)
  · rename_i herror
    split at h
    · rename_i read hread
      obtain rfl := Except.ok.inj h
      refine ⟨lexes_of_lexFrom ?_, hread⟩
      rw [← herror]
      rfl
    · exact absurd h (by simp)

/-- Every node of a program has its own tokens in the source text. Its range goes from the first to
the last of them, contains the ranges of its children and keeps their order. -/
theorem node_ranges {source : String} {program : Program}
    (h : programOfSource source = .ok program) :
    (program.map TopLevel.node).Pairwise Node.Before ∧
      ∀ form ∈ program, ∀ node, form.node.Contains node →
        (∃ before own after, spoken (lex source).tokens = before ++ own ++ after ∧
          node.Fits own after) ∧
        (∀ child ∈ node.children, node.range.contains child.range = true) ∧
        node.children.Pairwise Node.Before := by
  obtain ⟨hlexes, hread⟩ := lexes_of_programOfSource h
  obtain ⟨hproper, hcovers⟩ := covers_of_parseProgram hread
  have horder : InOrder (tokensOf (arrivals 0 [] (lex source).tokens)) := by
    rw [tokensOf_arrivals]
    exact hlexes.inOrder.sublist List.filter_sublist
  refine ⟨?_, fun form hform node hnode => ?_⟩
  · have hpairwise := hcovers.pairwise_children (Program.proper_parts hproper) horder
    rwa [Program.filterMap_child?_parts] at hpairwise
  obtain ⟨hnode, before, own, after, harrivals, hstands⟩ := node_stands hread hform hnode
  have hown : InOrder (tokensOf own) := by
    rw [harrivals, tokensOf_append, tokensOf_append] at horder
    exact horder.sublist ((List.sublist_append_right ..).trans (List.sublist_append_left ..))
  refine ⟨⟨tokensOf before, tokensOf own, tokensOf after, ?_, hstands.fits hnode⟩,
    fun child hchild => hstands.contains_children hnode hown hchild,
    hstands.covers.pairwise_children hnode.parts hown⟩
  rw [← tokensOf_arrivals 0 [], harrivals, tokensOf_append, tokensOf_append]

/-- A function with a body that is a call, and a struct without fields. -/
theorem node_ranges_function :
    ∃ program, programOfSource "(define (f x) (g x 1))\n(define-struct s ())" = .ok program ∧
      (program.map TopLevel.node).Pairwise Node.Before ∧
      ∀ form ∈ program, ∀ node, form.node.Contains node →
        (∃ before own after,
          spoken (lex "(define (f x) (g x 1))\n(define-struct s ())").tokens =
              before ++ own ++ after ∧ node.Fits own after) ∧
        (∀ child ∈ node.children, node.range.contains child.range = true) ∧
        node.children.Pairwise Node.Before := by
  have h : programOfSource "(define (f x) (g x 1))\n(define-struct s ())" = .ok _ := rfl
  exact ⟨_, h, node_ranges h⟩

end TypedIsl

import TypedIsl.Proofs.Syntax.Ranges

/-!
# Where names are defined

No two definitions of a program are named at the same place.
-/

namespace TypedIsl

/-- The name of a definition or a struct. -/
def TopLevel.ident? : TopLevel → Option Ident
  | definition form => some form.name
  | struct form => some form.name
  | value _ => none

theorem Definition.name_mem_children (definition : Definition) :
    .ident definition.name ∈ (Node.definition definition).children := by
  cases definition <;>
    simp [Node.children, Node.parts, Definition.parts, Part.enclosed, Part.child?, Definition.name]

theorem TopLevel.ident_mem_children {form : TopLevel} {ident : Ident}
    (h : form.ident? = some ident) : .ident ident ∈ form.node.children := by
  cases form with
  | definition form =>
      obtain rfl := Option.some.inj h
      exact form.name_mem_children
  | struct form =>
      obtain rfl := Option.some.inj h
      simp [TopLevel.node, Node.children, Node.parts, Part.enclosed, Part.child?]
  | value form => exact absurd h (by simp [TopLevel.ident?])

theorem Node.Before.ident_ne {node next : Node} {ident other : Ident} (h : node.Before next)
    (hident : node.range.contains ident.range = true)
    (hother : next.range.contains other.range = true)
    (hsize : ident.range.start.index < ident.range.stop.index) : ident.range ≠ other.range := by
  rw [Range.contains_iff] at hident hother
  have hstop := h.1
  intro heq
  rw [← heq] at hother
  omega

section

variable {source : String} {program : Program} {form : TopLevel}

/-- A node of a program stands at tokens that come in order. -/
theorem node_inOrder (h : programOfSource source = .ok program) (hform : form ∈ program)
    {node : Node} (hnode : form.node.Contains node) :
    node.Proper anyDoc ∧ ∃ own after, node.StandsAt own after ∧ InOrder (tokensOf own) := by
  obtain ⟨hlexes, hread⟩ := lexes_of_programOfSource h
  obtain ⟨hproper, before, own, after, harrivals, hstands⟩ := node_stands hread hform hnode
  have horder : InOrder (tokensOf (before ++ own ++ after)) := by
    rw [← harrivals, tokensOf_arrivals]
    exact hlexes.inOrder.sublist List.filter_sublist
  rw [tokensOf_append, tokensOf_append] at horder
  exact ⟨hproper, own, after, hstands,
    horder.sublist ((List.sublist_append_right ..).trans (List.sublist_append_left ..))⟩

theorem contains_ident (h : programOfSource source = .ok program) (hform : form ∈ program)
    {node : Node} (hnode : form.node.Contains node) {ident : Ident}
    (hchild : .ident ident ∈ node.children) :
    node.range.contains ident.range = true ∧
      ident.range.start.index < ident.range.stop.index := by
  obtain ⟨hproper, own, after, hstands, horder⟩ := node_inOrder h hform hnode
  obtain ⟨-, inner, rest, hinner, hinnerOrder⟩ := node_inOrder h hform (hnode.child hchild)
  refine ⟨hstands.contains_children hproper horder hchild, ?_⟩
  obtain ⟨arrival, _, rfl, harrival, -⟩ := covers_word.mp hinner.covers
  replace harrival : arrival.token = ⟨ident.kind, ident.range⟩ := harrival
  have hsize := hinnerOrder.nonempty arrival.token List.mem_cons_self
  rwa [harrival] at hsize

/-- The definitions of a `local` form are named at different places. -/
theorem locals_apart (h : programOfSource source = .ok program) (hform : form ∈ program)
    {range : Range} {definitions : List Definition} {body : Value}
    (hnode : form.node.Contains (.value (.locals range definitions body))) :
    definitions.Pairwise fun definition next => definition.name.range ≠ next.name.range := by
  have hchildren : (Node.value (.locals range definitions body)).children =
      definitions.map .definition ++ [.value body] := by
    have hmap : (definitions.map Part.definition).filterMap Part.child? =
        definitions.map .definition := by
      rw [List.filterMap_map]
      exact congrFun (List.filterMap_eq_map (f := Node.definition)) definitions
    rw [Node.children, Node.parts, Value.parts]
    simp [Part.enclosed, hmap, Part.child?, List.filterMap_append, List.filterMap_cons]
  obtain ⟨hproper, own, after, hstands, horder⟩ := node_inOrder h hform hnode
  have hpairwise := hstands.covers.pairwise_children hproper.parts horder
  rw [← Node.children, hchildren] at hpairwise
  have hdefinitions := List.pairwise_map.mp (List.pairwise_append.mp hpairwise).1
  refine hdefinitions.imp_of_mem fun {definition next} hdefinition hnext hbefore => ?_
  have hname : ∀ other ∈ definitions, (Node.definition other).range.contains other.name.range ∧
      other.name.range.start.index < other.name.range.stop.index := by
    intro other hother
    refine contains_ident h hform (hnode.child ?_) other.name_mem_children
    rw [hchildren]
    exact List.mem_append_left _ (List.mem_map_of_mem hother)
  exact hbefore.ident_ne (hname _ hdefinition).1 (hname _ hnext).1 (hname _ hdefinition).2

/-- The definitions and structs of a program are named at different places. -/
theorem forms_apart (h : programOfSource source = .ok program) :
    program.Pairwise fun form next => ∀ ident ∈ form.ident?, ∀ other ∈ next.ident?,
      ident.range ≠ other.range := by
  obtain ⟨hlexes, hread⟩ := lexes_of_programOfSource h
  obtain ⟨hproper, hcovers⟩ := covers_of_parseProgram hread
  have horder : InOrder (tokensOf (arrivals 0 [] (lex source).tokens)) := by
    rw [tokensOf_arrivals]
    exact hlexes.inOrder.sublist List.filter_sublist
  have hpairwise := hcovers.pairwise_children (Program.proper_parts hproper) horder
  rw [Program.filterMap_child?_parts] at hpairwise
  refine (List.pairwise_map.mp hpairwise).imp_of_mem fun {form next} hform hnext hbefore => ?_
  intro ident hident other hother
  have hfirst := contains_ident h hform .refl (TopLevel.ident_mem_children hident)
  have hsecond := contains_ident h hnext .refl (TopLevel.ident_mem_children hother)
  exact hbefore.ident_ne hfirst.1 hsecond.1 hfirst.2

end

end TypedIsl

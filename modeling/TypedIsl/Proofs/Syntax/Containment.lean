import TypedIsl.Proofs.Syntax.Nodes

/-!
# What lies in a node

The parts of a form lie in every node in which the form lies.
-/

namespace TypedIsl

/-! ## Parts of lists -/

theorem Part.mem_enclosed {range : Range} {docs? : Option (List String)} {parts : List Part}
    {part : Part} (h : part ∈ parts) : part ∈ enclosed range docs? parts := by
  simp [enclosed, h]

theorem TypedParam.mem_allParts {params : List TypedParam} {param : TypedParam} {part : Part}
    (hparam : param ∈ params) (hpart : part ∈ param.parts) : part ∈ allParts params := by
  cases params with
  | nil => exact absurd hparam List.not_mem_nil
  | cons first params =>
      rcases List.mem_cons.mp hparam with rfl | hparam
      · exact List.mem_append_left _ hpart
      · exact List.mem_append_right _
          (List.mem_flatMap.mpr ⟨param, hparam, List.mem_cons_of_mem _ hpart⟩)

theorem Params.mem_typed_parts {range : Range} {params : List TypedParam}
    {result? : Option TypeExpr} {part : Part} (h : part ∈ TypedParam.allParts params) :
    part ∈ (Params.typed range params result?).parts := by
  cases result? with
  | none => exact h
  | some declared => exact List.mem_append_left _ h

/-! ## Parts of nodes -/

namespace Node.Contains

variable {node inner child : Node}

theorem part (h : node.Contains inner) (hpart : .node child ∈ inner.parts) :
    node.Contains child :=
  h.child (List.mem_filterMap.mpr ⟨.node child, hpart, rfl⟩)

theorem list {params : Params} (h : node.Contains inner) (hpart : .params params ∈ inner.parts) :
    node.Contains (.params params) :=
  h.child (List.mem_filterMap.mpr ⟨.params params, hpart, rfl⟩)

theorem param_name {params : Params} {name : Ident}
    (h : node.Contains (.params params)) (hname : name ∈ params.names) :
    node.Contains (.ident name) := by
  refine h.part ?_
  match params with
  | .untyped range names => exact List.mem_map_of_mem hname
  | .typed range list result? =>
      obtain ⟨param, hparam, rfl⟩ := List.mem_map.mp hname
      exact Params.mem_typed_parts
        (TypedParam.mem_allParts hparam (by simp [TypedParam.parts]))

theorem definition_name {definition : Definition}
    (h : node.Contains (.definition definition)) : node.Contains (.ident definition.name) := by
  refine h.part ?_
  cases definition <;> exact Part.mem_enclosed (by simp [Definition.name])

theorem clause {range : Range} {condition body : Value}
    (h : node.Contains (.clause (.mk range condition body))) :
    node.Contains (.value condition) ∧ node.Contains (.value body) :=
  ⟨h.part (Part.mem_enclosed (by simp)), h.part (Part.mem_enclosed (by simp))⟩

theorem clauses {range : Range} {clauses : List Clause} {otherwise? : Option Value}
    (h : node.Contains (.value (.cond range clauses otherwise?))) {clause : Clause}
    (hclause : clause ∈ clauses) : node.Contains (.clause clause) := by
  refine h.part ?_
  cases otherwise? <;> exact Part.mem_enclosed (by simp [hclause])

theorem otherwise {range : Range} {clauses : List Clause} {value : Value}
    (h : node.Contains (.value (.cond range clauses (some value)))) :
    node.Contains (.value value) :=
  h.part (Part.mem_enclosed (by simp))

theorem binding {range : Range} {kind : LetKind} {bindings : List LetBinding}
    {body : Value} (h : node.Contains (.value (.lets range kind bindings body)))
    {binding : LetBinding} (hbinding : binding ∈ bindings) : node.Contains (.binding binding) :=
  h.part (Part.mem_enclosed (by simp [hbinding]))

theorem binding_value {range : Range} {name : Ident} {value : Value}
    (h : node.Contains (.binding (.mk range name value))) : node.Contains (.value value) :=
  h.part (Part.mem_enclosed (by simp))

theorem local_definition {range : Range} {definitions : List Definition}
    {body : Value} (h : node.Contains (.value (.locals range definitions body)))
    {definition : Definition} (hdefinition : definition ∈ definitions) :
    node.Contains (.definition definition) :=
  h.part (Part.mem_enclosed (by simp [hdefinition]))

theorem arg {range : Range} {callee : Value} {args : List Value}
    (h : node.Contains (.value (.call range callee args))) {arg : Value} (harg : arg ∈ args) :
    node.Contains (.value arg) :=
  h.part (Part.mem_enclosed (by simp [harg]))

end Node.Contains

end TypedIsl

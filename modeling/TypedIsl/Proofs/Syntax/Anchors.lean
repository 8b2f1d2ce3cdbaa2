import TypedIsl.Proofs.Syntax.Values

/-!
# The places that diagnostics can point at

Diagnostics point at values and at names: those of definitions, of bindings and parameters, and
those in annotations. Each of them starts at a token of its own.
-/

namespace TypedIsl

/-! ## Places in trees -/

mutual

/-- Where the names in an annotation stand. -/
def TypeExpr.anchors : TypeExpr → List Position
  | .named name => [name.range.start]
  | .apply _ function args => function.range.start :: TypeExpr.allAnchors args

def TypeExpr.allAnchors : List TypeExpr → List Position
  | [] => []
  | type :: types => type.anchors ++ TypeExpr.allAnchors types

end

def TypedParam.anchors (param : TypedParam) : List Position :=
  param.name.range.start :: param.type.anchors

def Params.anchors : Params → List Position
  | typed _ params result? =>
      params.flatMap TypedParam.anchors ++ result?.toList.flatMap TypeExpr.anchors
  | untyped _ names => names.map (·.range.start)

mutual

/-- Where a value starts, and the values and the names in it. -/
def Value.anchors : Value → List Position
  | .literal range _ => [range.start]
  | .name ident => [ident.range.start]
  | .branch range condition thenArm elseArm =>
      range.start :: (condition.anchors ++ thenArm.anchors ++ elseArm.anchors)
  | .cond range clauses none => range.start :: Clause.allAnchors clauses
  | .cond range clauses (some otherwise) =>
      range.start :: (Clause.allAnchors clauses ++ otherwise.anchors)
  | .lambda range params body => range.start :: (params.anchors ++ body.anchors)
  | .locals range definitions body =>
      range.start :: (Definition.allAnchors definitions ++ body.anchors)
  | .lets range _ bindings body =>
      range.start :: (LetBinding.allAnchors bindings ++ body.anchors)
  | .require range _ => [range.start]
  | .call range callee args => range.start :: (callee.anchors ++ Value.allAnchors args)

def Value.allAnchors : List Value → List Position
  | [] => []
  | value :: values => value.anchors ++ Value.allAnchors values

def Clause.anchors : Clause → List Position
  | .mk _ condition body => condition.anchors ++ body.anchors

def Clause.allAnchors : List Clause → List Position
  | [] => []
  | clause :: clauses => clause.anchors ++ Clause.allAnchors clauses

def LetBinding.anchors : LetBinding → List Position
  | .mk _ name value => name.range.start :: value.anchors

def LetBinding.allAnchors : List LetBinding → List Position
  | [] => []
  | binding :: bindings => binding.anchors ++ LetBinding.allAnchors bindings

def Definition.anchors : Definition → List Position
  | .function _ _ name params body => name.range.start :: (params.anchors ++ body.anchors)
  | .constant _ _ name value => name.range.start :: value.anchors

def Definition.allAnchors : List Definition → List Position
  | [] => []
  | definition :: definitions => definition.anchors ++ Definition.allAnchors definitions

end

def Node.anchors : Node → List Position
  | ident form => [form.range.start]
  | type form => form.anchors
  | params form => form.anchors
  | value form => form.anchors
  | clause form => form.anchors
  | binding form => form.anchors
  | definition form => form.anchors
  | struct form => form.name.range.start :: form.fields.anchors

def Program.anchors (program : Program) : List Position :=
  program.flatMap fun form => form.node.anchors

/-- The places in a part, among those at which its tokens start. -/
def Part.anchors : Part → List Position
  | .word single => starts (.word single)
  | .node inner => inner.anchors
  | .params list => list.anchors

/-! ## Lists -/

theorem TypeExpr.allAnchors_eq (types : List TypeExpr) :
    allAnchors types = types.flatMap anchors :=
  eq_flatMap_of_cons rfl (fun _ _ => rfl) types

theorem Value.allAnchors_eq (values : List Value) :
    Value.allAnchors values = values.flatMap Value.anchors :=
  eq_flatMap_of_cons rfl (fun _ _ => rfl) values

theorem Clause.allAnchors_eq (clauses : List Clause) :
    Clause.allAnchors clauses = clauses.flatMap Clause.anchors :=
  eq_flatMap_of_cons rfl (fun _ _ => rfl) clauses

theorem LetBinding.allAnchors_eq (bindings : List LetBinding) :
    LetBinding.allAnchors bindings = bindings.flatMap LetBinding.anchors :=
  eq_flatMap_of_cons rfl (fun _ _ => rfl) bindings

theorem Definition.allAnchors_eq (definitions : List Definition) :
    Definition.allAnchors definitions = definitions.flatMap Definition.anchors :=
  eq_flatMap_of_cons rfl (fun _ _ => rfl) definitions

/-! ## Where parts start -/

theorem Part.anchors_enclosed (range : Range) (docs? : Option (List String)) (parts : List Part) :
    (enclosed range docs? parts).flatMap anchors = range.start :: parts.flatMap anchors := by
  simp [enclosed, anchors, starts]

theorem TypedParam.anchors_parts (param : TypedParam) :
    param.parts.flatMap Part.anchors = param.anchors := by
  simp [parts, Part.anchors, Part.starts, anchors, Node.anchors]

theorem TypedParam.anchors_allParts (params : List TypedParam) :
    (allParts params).flatMap Part.anchors = params.flatMap anchors := by
  cases params with
  | nil => rfl
  | cons param params =>
      have hrest : ∀ other : TypedParam,
          (Part.token .ampersand :: other.parts).flatMap Part.anchors = other.anchors :=
        fun other => by rw [List.flatMap_cons, other.anchors_parts]; rfl
      simp only [allParts, List.flatMap_append, List.flatMap_assoc, anchors_parts, hrest,
        List.flatMap_cons]

theorem Params.anchors_parts (params : Params) :
    params.parts.flatMap Part.anchors = params.anchors := by
  match params with
  | .typed _ params none =>
      simp [parts, anchors, TypedParam.anchors_allParts]
  | .typed _ params (some declared) =>
      simp [parts, anchors, TypedParam.anchors_allParts, Part.anchors, Part.starts, Node.anchors]
  | .untyped _ names =>
      rw [parts, anchors, List.flatMap_map, List.map_eq_flatMap]
      rfl

theorem Value.anchors_enclosed {value : Value} {inner : List Position} {parts : List Part}
    (hanchors : value.anchors = value.range.start :: inner)
    (hparts : value.parts = Part.enclosed value.range none parts)
    (hinner : inner.Sublist (parts.flatMap Part.anchors)) :
    (Node.value value).anchors.Sublist ((Node.value value).parts.flatMap Part.anchors) := by
  rw [Node.anchors, Node.parts, hanchors, hparts, Part.anchors_enclosed]
  exact hinner.cons_cons _

/-- The places in a node are places in its parts. -/
theorem Node.anchors_sublist (node : Node) :
    node.anchors.Sublist (node.parts.flatMap Part.anchors) := by
  match node with
  | .ident _ => exact List.Sublist.refl _
  | .type (.named _) => exact List.Sublist.refl _
  | .type (.apply _ _ args) =>
      simp [anchors, parts, TypeExpr.parts, TypeExpr.anchors, TypeExpr.allAnchors_eq,
        Part.anchors_enclosed, Part.anchors, List.flatMap_map]
  | .params list => rw [parts, list.anchors_parts, anchors]
  | .struct ⟨_, _, _, _⟩ =>
      simp [anchors, parts, Part.anchors_enclosed, Part.anchors, Part.starts]
  | .value (.literal _ _) => exact List.Sublist.refl _
  | .value (.name _) => exact List.Sublist.refl _
  | .value (.require _ _) => exact Value.anchors_enclosed rfl rfl (List.nil_sublist _)
  | .value (.branch _ _ _ _) =>
      exact Value.anchors_enclosed rfl rfl (by simp [Part.anchors, Part.starts, anchors])
  | .value (.cond _ _ none) =>
      exact Value.anchors_enclosed rfl rfl
        (by simp [Part.anchors, Part.starts, anchors, Clause.allAnchors_eq, List.flatMap_map])
  | .value (.cond _ _ (some _)) =>
      exact Value.anchors_enclosed rfl rfl
        (by simp [Part.anchors, Part.starts, anchors, Clause.allAnchors_eq, List.flatMap_map])
  | .value (.lambda _ _ _) =>
      exact Value.anchors_enclosed rfl rfl (by simp [Part.anchors, Part.starts, anchors])
  | .value (.locals _ _ _) =>
      exact Value.anchors_enclosed rfl rfl
        (by simp [Part.anchors, Part.starts, anchors, Definition.allAnchors_eq, List.flatMap_map])
  | .value (.lets _ _ _ _) =>
      exact Value.anchors_enclosed rfl rfl
        (by simp [Part.anchors, Part.starts, anchors, LetBinding.allAnchors_eq, List.flatMap_map])
  | .value (.call _ _ _) =>
      exact Value.anchors_enclosed rfl rfl
        (by simp [Part.anchors, anchors, Value.allAnchors_eq, List.flatMap_map])
  | .clause (.mk _ _ _) =>
      simp [anchors, parts, Clause.anchors, Part.anchors_enclosed, Part.anchors]
  | .binding (.mk _ _ _) =>
      simp [anchors, parts, LetBinding.anchors, Part.anchors_enclosed, Part.anchors]
  | .definition (.function _ _ _ _ _) =>
      simp [anchors, parts, Definition.parts, Definition.anchors, Part.anchors_enclosed,
        Part.anchors, Part.starts]
  | .definition (.constant _ _ _ _) =>
      simp [anchors, parts, Definition.parts, Definition.anchors, Part.anchors_enclosed,
        Part.anchors, Part.starts]

theorem Part.placed_anchors : Part.Placed Part.anchors where
  word := starts_word_sublist
  node := Node.anchors_sublist
  params list := by rw [list.anchors_parts, anchors]

/-- No two values or names of a program that has been read stand at the same place. -/
theorem Program.nodup_anchors {source : String} {program : Program}
    (h : programOfSource source = .ok program) : (Program.anchors program).Nodup := by
  have hnodup := nodup_places Part.placed_anchors h
  rwa [Program.parts, List.flatMap_map] at hnodup

end TypedIsl

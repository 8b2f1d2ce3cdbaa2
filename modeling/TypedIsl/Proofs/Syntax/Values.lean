import TypedIsl.Proofs.Syntax.Names

/-!
# The values of a program

Every value of a program starts at a token of its own, so no two of them stand at the same place.
-/

namespace TypedIsl

mutual

/-- The value and all values inside it, in the order in which they start. -/
def Value.values : Value → List Value
  | .literal range literal => [.literal range literal]
  | .name ident => [.name ident]
  | .branch range condition thenArm elseArm => .branch range condition thenArm elseArm ::
      (condition.values ++ thenArm.values ++ elseArm.values)
  | .cond range clauses none => .cond range clauses none :: Clause.allValues clauses
  | .cond range clauses (some otherwise) =>
      .cond range clauses (some otherwise) :: (Clause.allValues clauses ++ otherwise.values)
  | .lambda range params body => .lambda range params body :: body.values
  | .locals range definitions body =>
      .locals range definitions body :: (Definition.allValues definitions ++ body.values)
  | .lets range kind bindings body =>
      .lets range kind bindings body :: (LetBinding.allValues bindings ++ body.values)
  | .require range library => [.require range library]
  | .call range callee args => .call range callee args :: (callee.values ++ Value.allValues args)

def Value.allValues : List Value → List Value
  | [] => []
  | value :: values => value.values ++ Value.allValues values

def Clause.values : Clause → List Value
  | .mk _ condition body => condition.values ++ body.values

def Clause.allValues : List Clause → List Value
  | [] => []
  | clause :: clauses => clause.values ++ Clause.allValues clauses

def LetBinding.values : LetBinding → List Value
  | .mk _ _ value => value.values

def LetBinding.allValues : List LetBinding → List Value
  | [] => []
  | binding :: bindings => binding.values ++ LetBinding.allValues bindings

def Definition.values : Definition → List Value
  | .function _ _ _ _ body => body.values
  | .constant _ _ _ value => value.values

def Definition.allValues : List Definition → List Value
  | [] => []
  | definition :: definitions => definition.values ++ Definition.allValues definitions

end

def TopLevel.values : TopLevel → List Value
  | definition form => form.values
  | struct _ => []
  | value form => form.values

def Program.values (program : Program) : List Value :=
  program.flatMap TopLevel.values

/-! ## Where nodes start -/

/-- Where the values in a node start. A name starts where it stands. -/
def Node.starts : Node → List Position
  | ident form => [form.range.start]
  | type _ => []
  | params _ => []
  | value form => form.values.map (·.range.start)
  | clause form => form.values.map (·.range.start)
  | binding form => form.values.map (·.range.start)
  | definition form => form.values.map (·.range.start)
  | struct _ => []

/-- The places of the tokens in a part at which a value may start. -/
def Part.starts : Part → List Position
  | .word (.token _) => []
  | .word (.exact _ range) => [range.start]
  | .word (.opening start _) => [start]
  | .word (.closing _) => []
  | .node inner => inner.starts
  | .params _ => []

theorem Part.starts_enclosed (range : Range) (docs? : Option (List String)) (parts : List Part) :
    (Part.enclosed range docs? parts).flatMap starts = range.start :: parts.flatMap starts := by
  simp [enclosed, starts]

theorem Value.starts_allValues (values : List Value) :
    (Value.allValues values).map (·.range.start) = (values.map Part.value).flatMap Part.starts := by
  induction values with
  | nil => rfl
  | cons value values ih => simp [Value.allValues, ih, Part.starts, Node.starts]

theorem Clause.starts_allValues (clauses : List Clause) :
    (Clause.allValues clauses).map (·.range.start) =
      (clauses.map Part.clause).flatMap Part.starts := by
  induction clauses with
  | nil => rfl
  | cons clause clauses ih => simp [Clause.allValues, ih, Part.starts, Node.starts]

theorem LetBinding.starts_allValues (bindings : List LetBinding) :
    (LetBinding.allValues bindings).map (·.range.start) =
      (bindings.map Part.binding).flatMap Part.starts := by
  induction bindings with
  | nil => rfl
  | cons binding bindings ih => simp [LetBinding.allValues, ih, Part.starts, Node.starts]

theorem Definition.starts_allValues (definitions : List Definition) :
    (Definition.allValues definitions).map (·.range.start) =
      (definitions.map Part.definition).flatMap Part.starts := by
  induction definitions with
  | nil => rfl
  | cons definition definitions ih => simp [Definition.allValues, ih, Part.starts, Node.starts]

theorem Value.starts_enclosed {value : Value} {inner : List Value} {parts : List Part}
    (hvalues : value.values = value :: inner)
    (hparts : value.parts = Part.enclosed value.range none parts)
    (hinner : (inner.map (·.range.start)).Sublist (parts.flatMap Part.starts)) :
    (Node.value value).starts.Sublist ((Node.value value).parts.flatMap Part.starts) := by
  rw [Node.starts, Node.parts, hvalues, hparts, Part.starts_enclosed]
  exact hinner.cons_cons _

/-- The values in a node start where its parts do. -/
theorem Node.starts_sublist (node : Node) :
    node.starts.Sublist (node.parts.flatMap Part.starts) := by
  match node with
  | .ident _ => exact List.Sublist.refl _
  | .type _ => exact List.nil_sublist _
  | .params _ => exact List.nil_sublist _
  | .struct _ => exact List.nil_sublist _
  | .value (.literal _ _) => exact List.Sublist.refl _
  | .value (.name _) => exact List.Sublist.refl _
  | .value (.require _ _) => exact Value.starts_enclosed rfl rfl (List.nil_sublist _)
  | .value (.branch _ _ _ _) =>
      exact Value.starts_enclosed rfl rfl (by simp [Part.starts, starts])
  | .value (.cond _ _ none) =>
      exact Value.starts_enclosed rfl rfl (by simp [Part.starts, Clause.starts_allValues])
  | .value (.cond _ _ (some _)) =>
      exact Value.starts_enclosed rfl rfl (by simp [Part.starts, starts, Clause.starts_allValues])
  | .value (.lambda _ _ _) =>
      exact Value.starts_enclosed rfl rfl (by simp [Part.starts, starts])
  | .value (.locals _ _ _) =>
      exact Value.starts_enclosed rfl rfl
        (by simp [Part.starts, starts, Definition.starts_allValues])
  | .value (.lets _ _ _ _) =>
      exact Value.starts_enclosed rfl rfl
        (by simp [Part.starts, starts, LetBinding.starts_allValues])
  | .value (.call _ _ _) =>
      exact Value.starts_enclosed rfl rfl (by simp [Part.starts, starts, Value.starts_allValues])
  | .clause (.mk _ _ _) =>
      simp [starts, parts, Clause.values, Part.starts_enclosed, Part.starts]
  | .binding (.mk _ _ _) =>
      simp [starts, parts, LetBinding.values, Part.starts_enclosed, Part.starts]
  | .definition (.function _ _ _ _ _) =>
      simp [starts, parts, Definition.parts, Definition.values, Part.starts_enclosed, Part.starts]
  | .definition (.constant _ _ _ _) =>
      simp [starts, parts, Definition.parts, Definition.values, Part.starts_enclosed, Part.starts]

theorem Part.starts_word_sublist {word : Word} {arrival : Arrival} (h : word.Says arrival) :
    (starts (.word word)).Sublist [arrival.start] := by
  cases word with
  | token kind => exact List.nil_sublist _
  | exact kind range =>
      have hstart : arrival.start = range.start := congrArg (·.range.start) h
      rw [starts, hstart]
  | opening start docs? => rw [starts, h.2.1]
  | closing stop => exact List.nil_sublist _

/-! ## Places of tokens -/

/-- The places of a word are that of its token, and those of a node are places of its parts. -/
structure Part.Placed (places : Part → List Position) : Prop where
  word : ∀ {word : Word} {arrival : Arrival}, word.Says arrival →
    (places (.word word)).Sublist [arrival.start]
  node : ∀ node : Node, (places (.node node)).Sublist (node.parts.flatMap places)
  params : ∀ list : Params, (places (.params list)).Sublist (list.parts.flatMap places)

theorem Part.placed_starts : Part.Placed Part.starts where
  word := starts_word_sublist
  node := Node.starts_sublist
  params _ := List.nil_sublist _

section

variable {places : Part → List Position} (hplaced : Part.Placed places)

include hplaced

/-- Every such place is that of a token, and no two of them are that of the same one. -/
theorem Covers.places_sublist {parts : List Part} {own : List Arrival} (h : Covers parts own) :
    (parts.flatMap places).Sublist (own.map Arrival.start) := by
  induction h with
  | nil => exact .slnil
  | word hsays _ ih =>
      rw [List.flatMap_cons, List.map_cons]
      exact (hplaced.word hsays).append ih
  | @node node own parts rest _ _ hown hrest =>
      rw [List.flatMap_cons, List.map_append]
      exact ((hplaced.node node).trans hown).append hrest
  | @params params own close parts rest _ _ _ _ hown ih =>
      rw [List.flatMap_cons, List.map_append]
      exact ((hplaced.params params).trans hown).append (ih.cons _)

end

/-! ## Programs -/

theorem Program.starts_values (program : Program) :
    (Program.values program).map (·.range.start) =
      (Program.parts program).flatMap Part.starts := by
  rw [Program.values, Program.parts, List.map_flatMap, List.flatMap_map]
  refine congrArg (List.flatMap · program) (funext fun form => ?_)
  cases form <;> rfl

theorem InOrder.nodup_starts {tokens : List Token} (h : InOrder tokens) :
    (tokens.map (·.range.start)).Nodup := by
  rw [List.Nodup, List.pairwise_map]
  refine h.pairwise.imp_of_mem fun {token next} htoken _ hstop heq => ?_
  have hsize := h.nonempty token htoken
  rw [heq] at hsize
  omega

/-- No two of the places in a program that has been read are the same. -/
theorem Program.nodup_places {places : Part → List Position} (hplaced : Part.Placed places)
    {source : String} {program : Program} (h : programOfSource source = .ok program) :
    ((Program.parts program).flatMap places).Nodup := by
  obtain ⟨hlexes, hread⟩ := lexes_of_programOfSource h
  obtain ⟨-, hcovers⟩ := covers_of_parseProgram hread
  have horder : InOrder (tokensOf (arrivals 0 [] (lex source).tokens)) := by
    rw [tokensOf_arrivals]
    exact hlexes.inOrder.sublist List.filter_sublist
  have hnodup := horder.nodup_starts
  rw [tokensOf, List.map_map] at hnodup
  exact (hcovers.places_sublist hplaced).nodup hnodup

/-- No two values of a program that has been read stand at the same place. -/
theorem Program.nodup_starts {source : String} {program : Program}
    (h : programOfSource source = .ok program) :
    ((Program.values program).map (·.range.start)).Nodup := by
  rw [Program.starts_values]
  exact nodup_places Part.placed_starts h

end TypedIsl

import TypedIsl.Proofs.Check.Lives
import TypedIsl.Proofs.Syntax.Containment

/-!
# What diagnostics point at

Every diagnostic points at an identifier or at a value of the program.
-/

namespace TypedIsl

/-- The range is that of an identifier or of a value in the node. -/
inductive Node.Locates (node : Node) : Range → Prop
  | ident {ident : Ident} (h : node.Contains (.ident ident)) : Locates node ident.range
  | value {value : Value} (h : node.Contains (.value value)) : Locates node value.range

/-! ## Judgements -/

section

variable {structs : List String} {scopes : Scopes} {d : Diagnostic}

theorem Judged.range_of_mem_ensure {holds : Bool} {range : Range} {problem : Problem}
    (h : d ∈ (ensure holds range problem).diagnostics) : d.range = range := by
  cases holds
  · rw [List.mem_singleton.mp h]
  · exact absurd h List.not_mem_nil

theorem range_of_mem_judgeResult {function? : Option String} {body declared : Range}
    {expected actual : Ty}
    (h : d ∈ (judgeResult function? body declared expected actual).diagnostics) :
    d.range = body := by
  unfold judgeResult at h
  split at h
  · exact absurd h List.not_mem_nil
  · rw [List.mem_singleton.mp h]

theorem range_of_mem_judgeArgs {callee : Callee} {position : Nat} {args : List (Range × Ty)}
    {expected : List Ty} (h : d ∈ (judgeArgs callee position args expected).diagnostics) :
    ∃ arg ∈ args, d.range = arg.1 := by
  induction args generalizing position expected with
  | nil => exact absurd h List.not_mem_nil
  | cons arg args ih =>
      cases expected with
      | nil => exact absurd h List.not_mem_nil
      | cons type rest =>
          rcases List.mem_append.mp h with h | h
          · exact ⟨arg, List.mem_cons_self, Judged.range_of_mem_ensure h⟩
          · obtain ⟨found, hfound, hrange⟩ := ih h
            exact ⟨found, List.mem_cons_of_mem _ hfound, hrange⟩

theorem range_of_mem_judgeCall {range : Range} {callee : Callee} {params : List Param} {result : Ty}
    {args : List (Range × Ty)}
    (h : d ∈ (judgeCall range callee params result args).diagnostics) :
    d.range = range ∨ ∃ arg ∈ args, d.range = arg.1 := by
  unfold judgeCall at h
  split at h
  · rw [Judged.diagnostics_bind, Judged.diagnostics_pure, List.append_nil] at h
    exact .inr (range_of_mem_judgeArgs h)
  · obtain rfl := List.mem_singleton.mp h
    exact .inl rfl

theorem Scopes.range_of_mem_use {ident : Ident} (h : d ∈ (scopes.use ident).diagnostics) :
    d.range = ident.range := by
  rw [use] at h
  split at h
  · exact absurd h List.not_mem_nil
  · rw [List.mem_singleton.mp h]

theorem Scopes.range_of_conflict? {name : Ident} {problem : Problem}
    (h : scopes.conflict? name problem = some d) : d.range = name.range := by
  obtain ⟨binding, -, rfl⟩ := Option.map_eq_some_iff.mp h
  rfl

/-! ## Moves -/

namespace Move

theorem range_of_mem_makeAll {moves : List Move} (h : d ∈ (makeAll scopes moves).diagnostics) :
    ∃ move ∈ moves, ∃ name, move.binder? = some name ∧ d.range = name.range := by
  induction moves generalizing scopes with
  | nil => exact absurd h List.not_mem_nil
  | cons move moves ih =>
      rcases List.mem_append.mp h with h | h
      · refine ⟨move, List.mem_cons_self, ?_⟩
        cases move with
        | finalize definition type => exact absurd h List.not_mem_nil
        | bind name type locally =>
            rw [make, Scopes.bindNew] at h
            split at h
            · obtain rfl := List.mem_singleton.mp h
              exact ⟨name, rfl, Scopes.range_of_conflict? ‹_›⟩
            · exact absurd h List.not_mem_nil
      · obtain ⟨found, hfound, hname⟩ := ih h
        exact ⟨found, List.mem_cons_of_mem _ hfound, hname⟩

theorem exists_of_mem_along {α : Type} {moves : Scopes → α → List Move} {list : List α}
    {move : Move} (h : move ∈ along moves scopes list) :
    ∃ scopes, ∃ a ∈ list, move ∈ moves scopes a := by
  induction list generalizing scopes with
  | nil => exact absurd h List.not_mem_nil
  | cons a list ih =>
      rcases List.mem_append.mp h with h | h
      · exact ⟨scopes, a, List.mem_cons_self, h⟩
      · obtain ⟨found, b, hb, hmove⟩ := ih h
        exact ⟨found, b, List.mem_cons_of_mem _ hb, hmove⟩

end Move

theorem Params.binder_of_mem_moves {params : Params} {move : Move} {name : Ident}
    (h : move ∈ params.moves structs) (hname : move.binder? = some name) :
    name ∈ params.names := by
  obtain ⟨⟨found, type⟩, hbinding, rfl⟩ := List.mem_map.mp h
  obtain rfl := Option.some.inj hname
  cases params with
  | typed range params result? => exact (List.of_mem_zip hbinding).1
  | untyped range names =>
      obtain ⟨found, hfound, heq⟩ := List.mem_map.mp hbinding
      exact (Prod.mk.inj heq).1 ▸ hfound

theorem Definition.binder_of_mem_registration {definition : Definition} {move : Move} {name : Ident}
    (h : move ∈ definition.registration structs scopes) (hname : move.binder? = some name) :
    name = definition.name := by
  cases definition <;>
  · rw [List.mem_singleton.mp h] at hname
    exact (Option.some.inj hname).symm

theorem LetBinding.binder_of_mem_moves {binding : LetBinding} {move : Move} {name : Ident}
    (h : move ∈ binding.moves structs scopes) (hname : move.binder? = some name) :
    name = binding.name := by
  cases binding
  rw [List.mem_singleton.mp h] at hname
  exact (Option.some.inj hname).symm

end

/-! ## Annotations -/

theorem Node.Contains.annotation {node : Node} {params : Params} {type : TypeExpr}
    (h : node.Contains (.params params)) (htype : type ∈ params.annotations) :
    node.Contains (.type type) := by
  refine h.part ?_
  match params with
  | .untyped range names => exact absurd htype List.not_mem_nil
  | .typed range list result? =>
      rcases List.mem_append.mp htype with htype | htype
      · obtain ⟨param, hparam, rfl⟩ := List.mem_map.mp htype
        exact Params.mem_typed_parts
          (TypedParam.mem_allParts hparam (by simp [TypedParam.parts]))
      · obtain rfl := Option.mem_toList.mp htype
        exact List.mem_append_right _ (by simp)

/-! ## Visits -/

def Subject.node : Subject → Node
  | value form => .value form
  | definition form => .definition form

section

variable {structs : List String} {scopes : Scopes} {node : Node} {next : Visit} {d : Diagnostic}

/-- What is visited below a node lies in it. -/
theorem Clause.contains_steps {clause : Clause} (h : node.Contains (.clause clause))
    (hnext : next ∈ clause.steps scopes) : node.Contains next.subject.node := by
  obtain ⟨range, condition, body⟩ := clause
  simp only [steps, List.mem_cons, List.not_mem_nil, or_false] at hnext
  rcases hnext with rfl | rfl
  · exact h.clause.1
  · exact h.clause.2

theorem LetBinding.contains_steps {binding : LetBinding} (h : node.Contains (.binding binding))
    (hnext : next ∈ binding.steps scopes) : node.Contains next.subject.node := by
  obtain ⟨range, name, value⟩ := binding
  rw [steps] at hnext
  split at hnext
  · exact absurd hnext List.not_mem_nil
  · rw [List.mem_singleton.mp hnext]
    exact h.part (Part.mem_enclosed (by simp [Subject.node]))

theorem Value.contains_steps {value : Value} (h : node.Contains (.value value))
    (hnext : next ∈ value.steps structs scopes) : node.Contains next.subject.node := by
  have hpart : ∀ inner scopes, Part.value inner ∈ (Node.value value).parts →
      next = ⟨scopes, .value inner⟩ → node.Contains next.subject.node := by
    rintro inner scopes hpart rfl
    exact h.part hpart
  cases value with
  | literal | name | require => exact absurd hnext List.not_mem_nil
  | branch range condition thenArm elseArm =>
      simp only [steps, List.mem_cons, List.not_mem_nil, or_false] at hnext
      rcases hnext with hnext | hnext | hnext <;>
        exact hpart _ _ (Part.mem_enclosed (by simp)) hnext
  | cond range clauses otherwise? =>
      rcases List.mem_append.mp hnext with hnext | hnext
      · obtain ⟨clause, hclause, hnext⟩ := List.mem_flatMap.mp hnext
        exact Clause.contains_steps (h.clauses hclause) hnext
      · obtain ⟨otherwise, hotherwise, rfl⟩ := List.mem_map.mp hnext
        obtain rfl := Option.mem_toList.mp hotherwise
        exact h.otherwise
  | lambda range params body =>
      exact hpart _ _ (Part.mem_enclosed (by simp)) (List.mem_singleton.mp hnext)
  | locals range definitions body =>
      rcases List.mem_append.mp hnext with hnext | hnext
      · obtain ⟨⟨inner, definition⟩, hstage, rfl⟩ := List.mem_map.mp hnext
        exact h.local_definition (mem_of_mem_stages hstage)
      · exact hpart _ _ (Part.mem_enclosed (by simp)) (List.mem_singleton.mp hnext)
  | lets range kind bindings body =>
      rcases List.mem_append.mp hnext with hnext | hnext
      · obtain ⟨⟨inner, binding⟩, hstage, hnext⟩ := List.mem_flatMap.mp hnext
        exact LetBinding.contains_steps (h.binding (mem_of_mem_stages hstage)) hnext
      · exact hpart _ _ (Part.mem_enclosed (by simp)) (List.mem_singleton.mp hnext)
  | call range callee args =>
      rcases List.mem_cons.mp hnext with hnext | hnext
      · exact hpart _ _ (Part.mem_enclosed (by simp)) hnext
      · split at hnext
        · obtain ⟨arg, harg, rfl⟩ := List.mem_map.mp hnext
          exact h.arg harg
        · exact absurd hnext List.not_mem_nil

theorem Definition.contains_steps {definition : Definition}
    (h : node.Contains (.definition definition)) (hnext : next ∈ definition.steps structs scopes) :
    node.Contains next.subject.node := by
  cases definition <;>
  · rw [List.mem_singleton.mp hnext]
    exact h.part (Part.mem_enclosed (by simp [Subject.node]))

theorem Visit.contains_steps {visit : Visit} (h : node.Contains visit.subject.node)
    (hnext : next ∈ visit.steps structs) : node.Contains next.subject.node := by
  obtain ⟨scopes, value | definition⟩ := visit
  · exact Value.contains_steps h hnext
  · exact Definition.contains_steps h hnext

/-! ## Reports -/

theorem TypeExpr.locates_resolve (type : TypeExpr) (h : node.Contains (.type type))
    (hd : d ∈ (type.resolve structs).diagnostics) : node.Locates d.range := by
  have hunknown : ∀ name, node.Contains (.ident name) → d ∈ (unknownType name).diagnostics →
      node.Locates d.range := by
    intro name hname hd
    rw [List.mem_singleton.mp hd]
    exact .ident hname
  cases type with
  | named name =>
      rw [resolve] at hd
      split at hd
      · exact absurd hd List.not_mem_nil
      · exact hunknown name (h.part (by simp [Node.parts, TypeExpr.parts])) hd
  | apply range function args =>
      unfold resolve at hd
      split at hd
      · exact absurd hd List.not_mem_nil
      · split at hd
        · cases args with
          | nil => exact absurd hd List.not_mem_nil
          | cons arg rest =>
              rw [Judged.diagnostics_bind, Judged.diagnostics_pure, List.append_nil] at hd
              exact locates_resolve arg (h.part (Part.mem_enclosed (by simp))) hd
        · exact hunknown function (h.part (Part.mem_enclosed (by simp))) hd

theorem Params.locates_reports {function? : Option String} {body : Value} {actual : Ty}
    {params : Params} (h : node.Contains (.params params)) (hbody : node.Contains (.value body))
    (hd : d ∈ params.reports structs scopes function? body.range actual) :
    node.Locates d.range := by
  rw [reports, List.mem_append, List.mem_append, ← params.makeAll_moves] at hd
  rcases hd with (hd | hd) | hd
  · obtain ⟨type, htype, hd⟩ := List.mem_flatMap.mp hd
    exact type.locates_resolve (h.annotation htype) hd
  · obtain ⟨move, hmove, name, hname, hrange⟩ := Move.range_of_mem_makeAll hd
    rw [hrange]
    exact .ident (h.param_name (binder_of_mem_moves hmove hname))
  · obtain ⟨declared, -, hd⟩ := List.mem_flatMap.mp hd
    rw [range_of_mem_judgeResult hd]
    exact .value hbody

theorem Value.locates_reports {value : Value} (h : node.Contains (.value value))
    (hd : d ∈ value.reports structs scopes) : node.Locates d.range := by
  match value with
  | .literal .. | .require .. => exact absurd hd List.not_mem_nil
  | .name ident =>
      rw [Scopes.range_of_mem_use hd]
      exact .value h
  | .branch range condition thenArm elseArm =>
      rw [Judged.range_of_mem_ensure hd]
      exact .value (h.part (Part.mem_enclosed (by simp)))
  | .cond range clauses otherwise? =>
      obtain ⟨⟨_, condition, body⟩, hclause, hd⟩ := List.mem_flatMap.mp hd
      rw [Judged.range_of_mem_ensure hd]
      exact .value (h.clauses hclause).clause.1
  | .lambda range params body =>
      exact params.locates_reports (h.list (Part.mem_enclosed (by simp)))
        (h.part (Part.mem_enclosed (by simp))) hd
  | .locals range definitions body =>
      rw [reports, ← Definition.makeAll_registrations] at hd
      obtain ⟨move, hmove, name, hname, hrange⟩ := Move.range_of_mem_makeAll hd
      obtain ⟨_, definition, hdefinition, hmove⟩ := Move.exists_of_mem_along hmove
      rw [hrange, Definition.binder_of_mem_registration hmove hname]
      exact .ident (h.local_definition hdefinition).definition_name
  | .lets range kind bindings body =>
      obtain ⟨⟨_, _, name, value⟩, hstage, hd⟩ := List.mem_flatMap.mp hd
      rw [Scopes.range_of_conflict? (Option.mem_toList.mp hd)]
      have hbinding := h.binding (mem_of_mem_stages hstage)
      exact .ident (hbinding.part (Part.mem_enclosed (by simp)))
  | .call range callee args =>
      rw [reports] at hd
      split at hd
      · exact absurd hd List.not_mem_nil
      · rcases range_of_mem_judgeCall hd with hrange | ⟨arg, harg, hrange⟩
        · rw [hrange]
          exact .value h
        · obtain ⟨value, hvalue, hvalueRange⟩ := List.mem_map.mp (List.of_mem_zip harg).1
          rw [hrange, ← hvalueRange]
          exact .value (h.arg hvalue)
      · rw [List.mem_singleton.mp hd]
        exact .value (h.part (Part.mem_enclosed (by simp)))

theorem Definition.locates_reports {definition : Definition}
    (h : node.Contains (.definition definition)) (hd : d ∈ definition.reports structs scopes) :
    node.Locates d.range := by
  cases definition with
  | constant => exact absurd hd List.not_mem_nil
  | function range docs name params body =>
      rcases List.mem_append.mp hd with hd | hd
      · exact params.locates_reports (h.list (Part.mem_enclosed (by simp)))
          (h.part (Part.mem_enclosed (by simp))) hd
      · split at hd
        · exact absurd hd List.not_mem_nil
        · rw [List.mem_singleton.mp hd]
          exact .ident h.definition_name

theorem Visit.locates_reports {visit : Visit} (h : node.Contains visit.subject.node)
    (hd : d ∈ visit.reports structs) : node.Locates d.range := by
  obtain ⟨scopes, value | definition⟩ := visit
  · exact Value.locates_reports h hd
  · exact Definition.locates_reports h hd

/-! ## Registering -/

theorem Params.locates_fieldTypes {params : Params} (h : node.Contains (.params params))
    (hd : d ∈ (params.fieldTypes structs).diagnostics) : node.Locates d.range := by
  cases params with
  | untyped range names => exact absurd hd List.not_mem_nil
  | typed range params result? =>
      rw [fieldTypes, resolveParams_diagnostics] at hd
      obtain ⟨type, htype, hd⟩ := List.mem_flatMap.mp hd
      exact type.locates_resolve (h.annotation (List.mem_append_left _ htype)) hd

theorem StructDefinition.locates_register {registered : Registered} (definition : StructDefinition)
    (hd : d ∈ (definition.register structs registered).diagnostics) :
    (Node.struct definition).Locates d.range := by
  have hself : (Node.struct definition).Contains (.struct definition) := .refl
  have hname : (Node.struct definition).Locates definition.name.range :=
    .ident (hself.part (Part.mem_enclosed (by simp)))
  cases hconflict : registered.scopes.conflict? definition.name
      (.alreadyDefined definition.name.name) with
  | some found =>
      rw [register, hconflict] at hd
      obtain rfl := List.mem_singleton.mp hd
      rwa [Scopes.range_of_conflict? hconflict]
  | none =>
      rw [register, hconflict] at hd
      simp only [Judged.diagnostics_bind, Judged.diagnostics_pure, List.append_nil,
        ← makeAll_coined] at hd
      rcases List.mem_append.mp hd with hd | hd
      · exact definition.fields.locates_fieldTypes (hself.list (Part.mem_enclosed (by simp))) hd
      · obtain ⟨move, hmove, name, hbinder, hrange⟩ := Move.range_of_mem_makeAll hd
        obtain ⟨⟨coined, type⟩, -, rfl⟩ := List.mem_map.mp hmove
        obtain rfl := Option.some.inj hbinder
        rwa [hrange]

theorem TopLevel.locates_register {registered : Registered} (form : TopLevel)
    (hd : d ∈ (form.register structs registered).diagnostics) : form.node.Locates d.range := by
  cases form with
  | value form => exact absurd hd List.not_mem_nil
  | struct form => exact form.locates_register hd
  | definition form =>
      have hself : (Node.definition form).Contains (.definition form) := .refl
      rw [register, ← form.makeAll_registration, Judged.diagnostics_bind, Judged.diagnostics_pure,
        List.append_nil] at hd
      obtain ⟨move, hmove, name, hname, hrange⟩ := Move.range_of_mem_makeAll hd
      rw [hrange, form.binder_of_mem_registration hmove hname]
      exact .ident hself.definition_name

end

namespace Program

variable {structs : List String} {language : Language} {program : Program} {d : Diagnostic}

theorem locates_register {registered : Registered}
    (hd : d ∈ (register structs registered program).diagnostics) :
    ∃ form ∈ program, form.node.Locates d.range := by
  induction program generalizing registered with
  | nil => exact absurd hd List.not_mem_nil
  | cons form program ih =>
      rcases List.mem_append.mp hd with hd | hd
      · exact ⟨form, List.mem_cons_self, form.locates_register hd⟩
      · obtain ⟨found, hfound, hlocates⟩ := ih hd
        exact ⟨found, List.mem_cons_of_mem _ hfound, hlocates⟩

theorem Visits.exists_form {silent : Bool} {visit : Visit}
    (h : program.Visits language silent visit) (hloud : silent = false) :
    ∃ form ∈ program, form.node.Contains visit.subject.node := by
  induction h with
  | rehearse | rehearseStep => exact absurd hloud (by decide)
  | step _ hnext ih =>
      obtain ⟨form, hform, hcontains⟩ := ih hloud
      exact ⟨form, hform, Visit.contains_steps hcontains hnext⟩
  | check hmem =>
      obtain ⟨⟨scopes, form⟩, hstage, hvisit⟩ := List.mem_flatMap.mp hmem
      refine ⟨form, mem_of_mem_stages hstage, ?_⟩
      cases form with
      | struct form => exact absurd hvisit List.not_mem_nil
      | definition form | value form =>
          rw [List.mem_singleton.mp hvisit]
          exact .refl

/-- Every diagnostic points at an identifier or a value. -/
theorem locates_diagnostics (hd : d ∈ (check language program).diagnostics) :
    ∃ form ∈ program, form.node.Locates d.range := by
  rcases exists_visit hd with hd | ⟨visit, hvisit, hd⟩
  · exact locates_register hd
  · obtain ⟨form, hform, hcontains⟩ := hvisit.exists_form rfl
    exact ⟨form, hform, Visit.locates_reports hcontains hd⟩

end Program

end TypedIsl

import TypedIsl.Proofs.Check.Lives
import TypedIsl.Proofs.Ty.Normalized
import TypedIsl.Source.Parse

/-!
# All types are normal

If the types of all builtins are normal throughout, then so are all types that the checker finds or
keeps. It collapses unions where it makes them, and whatever else it makes up is put together from
types that it has found before.
-/

namespace TypedIsl

/-! ## Annotations -/

section

variable (structs : List String)

theorem namedType?_normalized {name : String} {type : Ty}
    (h : namedType? structs name = some type) : type.Normalized := by
  unfold namedType? at h
  split_ifs at h
  all_goals
    obtain rfl := Option.some.inj h
    exact Ty.normalized_atom rfl trivial Ty.noConfusion

theorem TypeExpr.normalized_resolve (type : TypeExpr) :
    (type.resolve structs).result.Normalized := by
  cases type with
  | named name =>
      rw [resolve]
      split
      · exact namedType?_normalized structs ‹_›
      · exact Ty.normalized_any
  | apply range function args =>
      unfold resolve
      split
      · exact Ty.normalized_any
      · split
        · cases args with
          | nil => exact Ty.normalized_list.mpr Ty.normalized_any
          | cons arg rest => exact Ty.normalized_list.mpr (normalized_resolve arg)
        · exact Ty.normalized_any

theorem normalized_resolveParams (params : List TypedParam) :
    ∀ type ∈ (resolveParams structs params).result, type.Normalized := by
  induction params with
  | nil => exact fun _ htype => absurd htype List.not_mem_nil
  | cons param params ih =>
      exact List.forall_mem_cons.mpr ⟨param.type.normalized_resolve structs, ih⟩

namespace Params

theorem normalized_bindings (params : Params) :
    ∀ binding ∈ params.bindings structs, binding.2.Normalized := by
  cases params with
  | typed range params result? =>
      exact fun binding hmem => normalized_resolveParams structs params _ (List.of_mem_zip hmem).2
  | untyped range names => exact List.forall_mem_map.mpr fun _ _ => Ty.normalized_flexible

theorem normalized_declaredType (params : Params) : (params.declaredType structs).Normalized := by
  match params with
  | .typed _ params none =>
      exact Ty.normalized_fixed.mpr ⟨normalized_resolveParams structs params, Ty.normalized_any⟩
  | .typed _ params (some declared) =>
      exact Ty.normalized_fixed.mpr
        ⟨normalized_resolveParams structs params, declared.normalized_resolve structs⟩
  | .untyped _ names =>
      refine Ty.normalized_function.mpr ⟨?_, Ty.normalized_any⟩
      exact List.forall_mem_map.mpr fun _ _ => Ty.normalized_any

theorem normalized_fieldTypes (params : Params) :
    ∀ type ∈ (params.fieldTypes structs).result, type.Normalized := by
  cases params with
  | typed range params result? => exact normalized_resolveParams structs params
  | untyped range names => exact List.forall_mem_map.mpr fun _ _ => Ty.normalized_any

end Params

theorem StructDefinition.normalized_coined (definition : StructDefinition) :
    ∀ entry ∈ definition.coined (definition.fields.fieldTypes structs).result,
      entry.2.Normalized := by
  have hfields := definition.fields.normalized_fieldTypes structs
  have hself := Ty.normalized_struct definition.name.name
  have hboolean : Ty.boolean.Normalized := Ty.normalized_atom rfl trivial Ty.noConfusion
  refine List.forall_mem_cons.mpr ⟨?_, List.forall_mem_cons.mpr ⟨?_, List.forall_mem_map.mpr ?_⟩⟩
  · simpa [Param.type] using ⟨Ty.normalized_any, hboolean⟩
  · exact Ty.normalized_fixed.mpr ⟨hfields, hself⟩
  · intro field hfield
    have htype := hfields field.2 (List.of_mem_zip hfield).2
    simpa [Param.type] using ⟨hself, htype⟩

end

/-! ## Scopes -/

namespace Scopes

/-- All types that are bound in the current scope or in one around it are normal throughout. -/
def Normalized (scopes : Scopes) : Prop :=
  ∀ scope ∈ scopes.current :: scopes.outer, ∀ entry ∈ scope.entries, entry.2.type.Normalized

variable {scopes : Scopes} {ident : Ident} {type : Ty}

theorem normalized_root {language : Language} (h : language.Normalized) :
    (root language.scope).Normalized :=
  List.forall_mem_singleton.mpr (List.forall_mem_map.mpr h)

theorem Normalized.enter (h : scopes.Normalized) : scopes.enter.Normalized :=
  List.forall_mem_cons.mpr ⟨fun _ hentry => absurd hentry List.not_mem_nil, h⟩

theorem Normalized.bind (h : scopes.Normalized) (ident : Ident) (htype : type.Normalized) :
    (scopes.bind ident type).Normalized := by
  obtain ⟨hcurrent, houter⟩ := List.forall_mem_cons.mp h
  refine List.forall_mem_cons.mpr ⟨fun entry hentry => ?_, houter⟩
  rcases Table.mem_putEntry hentry with hmem | rfl
  · exact hcurrent entry hmem
  · exact htype

theorem Normalized.bindNew (h : scopes.Normalized) (ident : Ident) (htype : type.Normalized)
    (problem : Problem) : (scopes.bindNew ident type problem).result.Normalized := by
  unfold Scopes.bindNew
  split
  · exact h
  · exact h.bind ident htype

theorem Normalized.bindParams (h : scopes.Normalized) {params : List (Ident × Ty)}
    (hparams : ∀ param ∈ params, param.2.Normalized) :
    (scopes.bindParams params).result.Normalized := by
  induction params generalizing scopes with
  | nil => exact h
  | cons param params ih =>
      obtain ⟨hparam, hparams⟩ := List.forall_mem_cons.mp hparams
      exact ih (h.bindNew param.1 hparam _) hparams

theorem Normalized.finalize (h : scopes.Normalized) (ident : Ident) (htype : type.Normalized) :
    (scopes.finalize ident type).Normalized := by
  unfold Scopes.finalize
  split
  · exact h.bind ident htype
  · exact h

theorem Normalized.use (h : scopes.Normalized) (ident : Ident) :
    (scopes.use ident).result.Normalized := by
  unfold Scopes.use
  split
  · rename_i binding hget
    obtain ⟨scope, hscope, hbinding⟩ := List.exists_of_findSome?_eq_some hget
    rw [Table.get?_eq_lookup, List.lookup_eq_some_iff] at hbinding
    obtain ⟨before, after, hentries, -⟩ := hbinding
    have hmem : (ident.name, binding) ∈ scope.entries := by simp [hentries]
    exact h scope hscope _ hmem
  · exact Ty.normalized_flexible

end Scopes

/-! ## Values and definitions -/

theorem Literal.normalized_type (literal : Literal) : literal.type.Normalized := by
  cases literal <;> exact Ty.normalized_atom rfl trivial Ty.noConfusion

theorem normalized_judgeCall {params : List Param} {result : Ty} (h : result.Normalized)
    (range : Range) (callee : Callee) (args : List (Range × Ty)) :
    (judgeCall range callee params result args).result.Normalized := by
  unfold judgeCall
  split
  · exact h
  · exact Ty.normalized_flexible

section

variable (structs : List String)

theorem bindTypedParams_normalized {scopes : Scopes} (h : scopes.Normalized)
    (params : List TypedParam) :
    (bindTypedParams structs scopes params).result.1.Normalized ∧
      ∀ type ∈ (bindTypedParams structs scopes params).result.2, type.Normalized := by
  rw [bindTypedParams_result]
  have htypes := normalized_resolveParams structs params
  exact ⟨h.bindParams fun param hparam => htypes _ (List.of_mem_zip hparam).2, htypes⟩

mutual

theorem Value.normalized_check (value : Value) {scopes : Scopes}
    (h : scopes.Normalized) :
    (value.check structs scopes).result.Normalized := by
  match value with
  | .literal _ value => exact value.normalized_type
  | .name ident => exact h.use ident
  | .branch _ condition thenArm elseArm =>
      refine Ty.normalized_unionOf (List.forall_mem_cons.mpr ⟨?_, List.forall_mem_singleton.mpr ?_⟩)
      · exact Value.normalized_check thenArm h
      · exact Value.normalized_check elseArm h
  | .cond _ clauses none => exact Ty.normalized_unionOf (Clause.normalized_checkAll clauses h)
  | .cond _ clauses (some otherwise) =>
      exact Ty.normalized_unionOf (List.forall_mem_append.mpr
        ⟨Clause.normalized_checkAll clauses h,
          List.forall_mem_singleton.mpr (Value.normalized_check otherwise h)⟩)
  | .lambda _ (.typed _ params none) body =>
      obtain ⟨hinner, htypes⟩ := bindTypedParams_normalized structs h.enter params
      have hbody := Value.normalized_check body hinner
      exact Ty.normalized_fixed.mpr ⟨htypes, hbody.collapse_eq.symm ▸ hbody⟩
  | .lambda _ (.typed _ params (some declared)) body =>
      obtain ⟨-, htypes⟩ := bindTypedParams_normalized structs h.enter params
      exact Ty.normalized_fixed.mpr ⟨htypes, declared.normalized_resolve structs⟩
  | .lambda _ (.untyped range names) body =>
      have hinner := h.enter.bindParams ((Params.untyped range names).normalized_bindings structs)
      have hbody := Value.normalized_check body hinner
      refine Ty.normalized_function.mpr ⟨?_, hbody.collapse_eq.symm ▸ hbody⟩
      exact List.forall_mem_map.mpr fun _ _ => Ty.normalized_any
  | .locals _ definitions body =>
      have hregistered := Definition.normalized_registerAll definitions h.enter
      exact Value.normalized_check body (Definition.normalized_checkAll definitions hregistered)
  | .lets _ _ bindings body =>
      exact Value.normalized_check body (LetBinding.normalized_checkAll bindings h.enter)
  | .require _ _ => exact Ty.normalized_any
  | .call range callee args =>
      have hcallee := Value.normalized_check callee h
      rw [Value.check, Judged.result_bind]
      split
      · exact Ty.normalized_flexible
      · rename_i heq
        rw [heq, Ty.normalized_function] at hcallee
        exact normalized_judgeCall hcallee.2 _ _ _
      · exact Ty.normalized_flexible
termination_by structural value

theorem Clause.normalized_checkAll (clauses : List Clause) {scopes : Scopes}
    (h : scopes.Normalized) :
    ∀ type ∈ (Clause.checkAll structs scopes clauses).result, type.Normalized := by
  match clauses with
  | [] => exact fun _ htype => absurd htype List.not_mem_nil
  | clause :: clauses =>
      exact List.forall_mem_cons.mpr
        ⟨Clause.normalized_check clause h, Clause.normalized_checkAll clauses h⟩
termination_by structural clauses

theorem Clause.normalized_check (clause : Clause) {scopes : Scopes}
    (h : scopes.Normalized) :
    (clause.check structs scopes).result.Normalized := by
  match clause with
  | .mk _ condition body => exact Value.normalized_check body h
termination_by structural clause

theorem LetBinding.normalized_check (binding : LetBinding) {scopes : Scopes}
    (h : scopes.Normalized) :
    (binding.check structs scopes).result.Normalized := by
  match binding with
  | .mk _ name value =>
      rw [LetBinding.check]
      split
      · exact h
      · exact h.bind name (Value.normalized_check value h)
termination_by structural binding

theorem LetBinding.normalized_checkAll (bindings : List LetBinding) {scopes : Scopes}
    (h : scopes.Normalized) :
    (LetBinding.checkAll structs scopes bindings).result.Normalized := by
  match bindings with
  | [] => exact h
  | binding :: bindings =>
      exact LetBinding.normalized_checkAll bindings (LetBinding.normalized_check binding h)
termination_by structural bindings

theorem Definition.normalized_register (definition : Definition) {scopes : Scopes}
    (h : scopes.Normalized) :
    (definition.register structs scopes).result.Normalized := by
  match definition with
  | .function _ _ name params _ => exact h.bindNew name (params.normalized_declaredType structs) _
  | .constant _ _ name value =>
      rw [Definition.register]
      split
      · exact h
      · exact h.bind name (Value.normalized_check value h)
termination_by structural definition

theorem Definition.normalized_registerAll (definitions : List Definition) {scopes : Scopes}
    (h : scopes.Normalized) :
    (Definition.registerAll structs scopes definitions).result.Normalized := by
  match definitions with
  | [] => exact h
  | definition :: definitions =>
      exact Definition.normalized_registerAll definitions
        (Definition.normalized_register definition h)
termination_by structural definitions

theorem Definition.normalized_check (definition : Definition) {scopes : Scopes}
    (h : scopes.Normalized) :
    (definition.check structs scopes).result.Normalized := by
  match definition with
  | .function _ _ name (.typed _ params (some declared)) body =>
      exact h.finalize name (Ty.normalized_fixed.mpr
        ⟨normalized_resolveParams structs params, declared.normalized_resolve structs⟩)
  | .function _ _ name (.typed _ params none) body => exact h
  | .function _ _ name (.untyped _ names) body => exact h
  | .constant _ _ name value => exact h.finalize name (Value.normalized_check value h)
termination_by structural definition

theorem Definition.normalized_checkAll (definitions : List Definition) {scopes : Scopes}
    (h : scopes.Normalized) :
    (Definition.checkAll structs scopes definitions).result.Normalized := by
  match definitions with
  | [] => exact h
  | definition :: definitions =>
      exact Definition.normalized_checkAll definitions (Definition.normalized_check definition h)
termination_by structural definitions

end

end

/-! ## Lives of scopes -/

/-- The type that a move gives to a name. -/
def Move.type : Move → Ty
  | bind _ type _ => type
  | finalize _ type => type

section

variable {structs : List String} {scopes : Scopes}

namespace Move

theorem normalized_make {move : Move} (h : scopes.Normalized) (htype : move.type.Normalized) :
    (move.make scopes).result.Normalized := by
  cases move with
  | bind name type locally => exact h.bindNew name htype _
  | finalize definition type => exact h.finalize definition.name htype

theorem normalized_makeAll {moves : List Move} (h : scopes.Normalized)
    (htypes : ∀ move ∈ moves, move.type.Normalized) :
    (makeAll scopes moves).result.Normalized := by
  induction moves generalizing scopes with
  | nil => exact h
  | cons move moves ih =>
      obtain ⟨htype, htypes⟩ := List.forall_mem_cons.mp htypes
      exact ih (normalized_make h htype) htypes

/-- The moves of a list of elements give normal types if the moves of each element do. -/
theorem normalized_along {α : Type} (moves : Scopes → α → List Move)
    (hmoves : ∀ {scopes : Scopes} a, scopes.Normalized →
      ∀ move ∈ moves scopes a, move.type.Normalized)
    (h : scopes.Normalized) (list : List α) :
    ∀ move ∈ along moves scopes list, move.type.Normalized := by
  induction list generalizing scopes with
  | nil => exact fun _ hmove => absurd hmove List.not_mem_nil
  | cons a list ih =>
      have hfirst := hmoves a h
      exact List.forall_mem_append.mpr ⟨hfirst, ih (normalized_makeAll h hfirst)⟩

end Move

theorem Params.normalized_moves (params : Params) :
    ∀ move ∈ params.moves structs, move.type.Normalized :=
  List.forall_mem_map.mpr (params.normalized_bindings structs)

theorem LetBinding.normalized_moves (binding : LetBinding) (h : scopes.Normalized) :
    ∀ move ∈ binding.moves structs scopes, move.type.Normalized := by
  cases binding with
  | mk range name value => exact List.forall_mem_singleton.mpr (value.normalized_check structs h)

theorem Definition.normalized_registration (definition : Definition) (h : scopes.Normalized) :
    ∀ move ∈ definition.registration structs scopes, move.type.Normalized := by
  cases definition with
  | function range docs name params body =>
      exact List.forall_mem_singleton.mpr (params.normalized_declaredType structs)
  | constant range docs name value =>
      exact List.forall_mem_singleton.mpr (value.normalized_check structs h)

theorem Definition.normalized_finalization (definition : Definition) (h : scopes.Normalized) :
    ∀ move ∈ definition.finalization structs scopes, move.type.Normalized := by
  match definition with
  | .function _ _ _ (.typed _ params (some declared)) _ =>
      exact List.forall_mem_singleton.mpr (Ty.normalized_fixed.mpr
        ⟨normalized_resolveParams structs params, declared.normalized_resolve structs⟩)
  | .function _ _ _ (.typed _ _ none) _ => exact fun _ hmove => absurd hmove List.not_mem_nil
  | .function _ _ _ (.untyped _ _) _ => exact fun _ hmove => absurd hmove List.not_mem_nil
  | .constant _ _ _ value => exact List.forall_mem_singleton.mpr (value.normalized_check structs h)

theorem TopLevel.normalized_registration (form : TopLevel) (h : scopes.Normalized) :
    ∀ move ∈ form.registration structs scopes, move.type.Normalized := by
  cases form with
  | definition form => exact form.normalized_registration h
  | struct form =>
      refine List.forall_mem_cons.mpr ⟨Ty.normalized_struct form.name.name, ?_⟩
      split
      · exact fun _ hmove => absurd hmove List.not_mem_nil
      · exact List.forall_mem_map.mpr (form.normalized_coined structs)
  | value form => exact fun _ hmove => absurd hmove List.not_mem_nil

theorem TopLevel.normalized_finalization (form : TopLevel) (h : scopes.Normalized) :
    ∀ move ∈ form.finalization structs scopes, move.type.Normalized := by
  cases form with
  | definition form => exact form.normalized_finalization h
  | struct form => exact fun _ hmove => absurd hmove List.not_mem_nil
  | value form => exact fun _ hmove => absurd hmove List.not_mem_nil

/-- All types are normal at the start and all that the moves bring in. -/
structure Life.Normalized (life : Life) : Prop where
  start : life.start.Normalized
  moves : ∀ move ∈ life.moves, move.type.Normalized

theorem Life.Normalized.after {life : Life} (h : life.Normalized) {made : List Move}
    (hpre : made <+: life.moves) : (life.after made).Normalized :=
  Move.normalized_makeAll h.start fun move hmove => h.moves move (hpre.subset hmove)

theorem Visit.normalized_life {visit : Visit} {life : Life} (h : visit.scopes.Normalized)
    (hlife : visit.life? structs = some life) : life.Normalized := by
  match visit with
  | ⟨scopes, .value (.lambda _ params body)⟩ =>
      obtain rfl := Option.some.inj hlife
      exact ⟨h.enter, params.normalized_moves⟩
  | ⟨scopes, .value (.locals _ definitions body)⟩ =>
      obtain rfl := Option.some.inj hlife
      have hregistrations := Move.normalized_along (Definition.registration structs)
        Definition.normalized_registration h.enter definitions
      have hfinalizations := Move.normalized_along (Definition.finalization structs)
        Definition.normalized_finalization (Move.normalized_makeAll h.enter hregistrations)
        definitions
      exact ⟨h.enter, List.forall_mem_append.mpr ⟨hregistrations, hfinalizations⟩⟩
  | ⟨scopes, .value (.lets _ _ bindings body)⟩ =>
      obtain rfl := Option.some.inj hlife
      exact ⟨h.enter, Move.normalized_along (LetBinding.moves structs)
        LetBinding.normalized_moves h.enter bindings⟩
  | ⟨scopes, .definition (.function _ _ name params body)⟩ =>
      obtain rfl := Option.some.inj hlife
      exact ⟨h.enter, params.normalized_moves⟩

end

namespace Program

variable {language : Language} {program : Program} {silent : Bool}

theorem normalized_rootLife (h : language.Normalized) :
    (rootLife language program).Normalized := by
  have hroot := Scopes.normalized_root h
  have hregistrations := Move.normalized_along (TopLevel.registration (structNames program))
    TopLevel.normalized_registration hroot program
  have hfinalizations := Move.normalized_along (TopLevel.finalization (structNames program))
    TopLevel.normalized_finalization (Move.normalized_makeAll hroot hregistrations) program
  exact ⟨hroot, List.forall_mem_append.mpr ⟨hregistrations, hfinalizations⟩⟩

theorem Visits.normalized (hlanguage : language.Normalized) {visit : Visit}
    (h : Visits language program silent visit) : visit.scopes.Normalized :=
  h.invariant (fun _ hpre => (normalized_rootLife hlanguage).after hpre)
    fun _ _ hlife hscopes _ hpre => (Visit.normalized_life hscopes hlife).after hpre

theorem Opens.normalized (hlanguage : language.Normalized) {life : Life}
    (h : Opens language program silent life) : life.Normalized := by
  cases h with
  | root => exact normalized_rootLife hlanguage
  | inner hvisit hlife => exact Visit.normalized_life (hvisit.normalized hlanguage) hlife

theorem normalized_globals (h : language.Normalized) :
    ∀ entry ∈ (check language program).globals, entry.2.Normalized := by
  intro entry hentry
  rw [globals_eq] at hentry
  obtain ⟨bound, hbound, hsome⟩ := List.mem_filterMap.mp hentry
  have hentry : entry = (bound.1, bound.2.type) := by
    dsimp only at hsome
    split at hsome
    · exact (Option.some.inj hsome).symm
    · cases hsome
  have hroot : (rootLife language program).Normalized := normalized_rootLife h
  exact hentry ▸ hroot.after List.prefix_rfl _ List.mem_cons_self bound hbound

/-- Both languages have normal types only. If a language has, then so are all types of values and
annotations, all types that are bound in any scope at any time, all types of fields and those of all
global names, in every program. -/
theorem types_normalized :
    (Language.minimal.Normalized ∧ Language.beginningStudent.Normalized) ∧
    ∀ language : Language, language.Normalized → ∀ program : Program,
      (∀ silent scopes value, Visits language program silent ⟨scopes, .value value⟩ →
        (value.check (structNames program) scopes).result.Normalized) ∧
      (∀ type : TypeExpr, (type.resolve (structNames program)).result.Normalized) ∧
      (∀ silent life, Opens language program silent life →
        ∀ made, made <+: life.moves → (life.after made).Normalized) ∧
      (∀ definition, .struct definition ∈ program →
        ∀ type ∈ (definition.fields.fieldTypes (structNames program)).result, type.Normalized) ∧
      ∀ entry ∈ (check language program).globals, entry.2.Normalized := by
  refine ⟨⟨Language.normalized_minimal, Language.normalized_beginningStudent⟩,
    fun language h program => ⟨?_, ?_, ?_, ?_, normalized_globals h⟩⟩
  · exact fun silent scopes value hvisit => value.normalized_check _ (hvisit.normalized h)
  · exact fun type => type.normalized_resolve _
  · exact fun silent life hopens made hpre => (hopens.normalized h).after hpre
  · exact fun definition _ => definition.fields.normalized_fieldTypes _

/-- The value of a constant may be a number or a string. -/
theorem types_normalized_union :
    ∃ program, programOfSource "(define x (if #true 1 \"a\"))" = .ok program ∧
      (check .minimal program).globals = [("x", .union [.number, .string])] ∧
      ∀ entry ∈ (check .minimal program).globals, entry.2.Normalized := by
  have hread : programOfSource "(define x (if #true 1 \"a\"))" = .ok _ := rfl
  obtain ⟨-, -, -, -, hglobals⟩ := types_normalized.2 .minimal types_normalized.1.1 _
  exact ⟨_, hread, by decide +kernel, hglobals⟩

end Program

end TypedIsl

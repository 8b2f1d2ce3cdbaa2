import TypedIsl.Proofs.Check.Accounting
import TypedIsl.Proofs.Check.Lives

/-!
# What each visit reports

Only names are reported as undefined, and only definitions find that the body of a function with a
name has not the result that is declared.
-/

namespace TypedIsl

/-- Neither an undefined name nor a wrong result of a function with a name. -/
def Problem.Plain : Problem → Prop
  | undefined _ => False
  | returnMismatch (some _) _ _ => False
  | _ => True

theorem Problem.Plain.kind_ne {problem : Problem} (h : problem.Plain) :
    problem.kind ≠ .undefined := by
  cases problem <;> simp_all [Plain, kind]

/-- All diagnostics are about problems of other sorts. -/
def AllPlain (ds : List Diagnostic) : Prop :=
  ∀ d ∈ ds, d.problem.Plain

theorem allPlain_nil : AllPlain [] :=
  fun _ hd => absurd hd List.not_mem_nil

theorem allPlain_singleton {d : Diagnostic} : AllPlain [d] ↔ d.problem.Plain :=
  List.forall_mem_singleton

theorem allPlain_append {ds es : List Diagnostic} :
    AllPlain (ds ++ es) ↔ AllPlain ds ∧ AllPlain es :=
  List.forall_mem_append

theorem allPlain_flatMap {α : Type} {list : List α} {f : α → List Diagnostic}
    (h : ∀ a ∈ list, AllPlain (f a)) : AllPlain (list.flatMap f) := by
  intro d hd
  obtain ⟨a, ha, hd⟩ := List.mem_flatMap.mp hd
  exact h a ha d hd

section

variable (structs : List String) (scopes : Scopes)

/-! ## Judgements -/

theorem Judged.allPlain_ensure {holds : Bool} {range : Range} {problem : Problem}
    (h : problem.Plain) : AllPlain (ensure holds range problem).diagnostics := by
  cases holds
  · exact allPlain_singleton.mpr h
  · exact allPlain_nil

theorem allPlain_judgeArgs (callee : Callee) (position : Nat) (args : List (Range × Ty))
    (expected : List Ty) : AllPlain (judgeArgs callee position args expected).diagnostics := by
  induction args generalizing position expected with
  | nil => exact allPlain_nil
  | cons arg args ih =>
      cases expected with
      | nil => exact allPlain_nil
      | cons type rest => exact allPlain_append.mpr ⟨Judged.allPlain_ensure trivial, ih _ _⟩

theorem allPlain_judgeCall (range : Range) (callee : Callee) (params : List Param) (result : Ty)
    (args : List (Range × Ty)) :
    AllPlain (judgeCall range callee params result args).diagnostics := by
  unfold judgeCall
  split
  · exact allPlain_append.mpr ⟨allPlain_judgeArgs _ _ _ _, allPlain_nil⟩
  · exact allPlain_singleton.mpr trivial

theorem TypeExpr.allPlain_resolve (type : TypeExpr) :
    AllPlain (type.resolve structs).diagnostics := by
  have hunknown : ∀ name, AllPlain (unknownType name).diagnostics := fun _ =>
    allPlain_singleton.mpr trivial
  cases type with
  | named name =>
      rw [resolve]
      split
      · exact allPlain_nil
      · exact hunknown name
  | apply range function args =>
      unfold resolve
      split
      · exact allPlain_nil
      · split
        · cases args with
          | nil => exact allPlain_nil
          | cons arg rest => exact allPlain_append.mpr ⟨allPlain_resolve arg, allPlain_nil⟩
        · exact hunknown function

theorem Move.allPlain_make (move : Move) : AllPlain (move.make scopes).diagnostics := by
  cases move with
  | bind name type locally =>
      rw [make, Scopes.bindNew]
      split
      · rename_i d hconflict
        obtain ⟨binding, -, rfl⟩ := Option.map_eq_some_iff.mp hconflict
        refine allPlain_singleton.mpr ?_
        cases locally <;> trivial
      · exact allPlain_nil
  | finalize definition type => exact allPlain_nil

theorem Move.allPlain_makeAll (moves : List Move) :
    AllPlain (makeAll scopes moves).diagnostics := by
  induction moves generalizing scopes with
  | nil => exact allPlain_nil
  | cons move moves ih => exact allPlain_append.mpr ⟨move.allPlain_make scopes, ih _⟩

/-! ## Visits -/

theorem Params.mem_reports {function? : Option String} {body : Range} {actual : Ty}
    {params : Params} {d : Diagnostic}
    (h : d ∈ params.reports structs scopes function? body actual) :
    d.problem.Plain ∨
      function?.isSome ∧ d.problem.kind = .returnMismatch ∧ d.range = body := by
  rw [reports, List.mem_append, List.mem_append, ← params.makeAll_moves] at h
  rcases h with (h | h) | h
  · exact .inl (allPlain_flatMap (fun type _ => type.allPlain_resolve structs) d h)
  · exact .inl (Move.allPlain_makeAll _ _ d h)
  · obtain ⟨declared, -, h⟩ := List.mem_flatMap.mp h
    unfold judgeResult at h
    split at h
    · exact absurd h List.not_mem_nil
    · obtain rfl := List.mem_singleton.mp h
      cases function? with
      | none => exact .inl trivial
      | some name => exact .inr ⟨rfl, rfl, rfl⟩

theorem Scopes.kind_use {ident : Ident} {d : Diagnostic} (h : d ∈ (scopes.use ident).diagnostics) :
    d.problem.kind = .undefined := by
  rw [use] at h
  split at h
  · exact absurd h List.not_mem_nil
  · rw [List.mem_singleton.mp h]
    rfl

theorem Value.allPlain_reports {value : Value} (h : ∀ ident, value ≠ .name ident) :
    AllPlain (value.reports structs scopes) := by
  match value with
  | .literal _ _ => exact allPlain_nil
  | .name ident => exact absurd rfl (h ident)
  | .branch _ condition _ _ => exact Judged.allPlain_ensure trivial
  | .cond _ clauses _ =>
      refine allPlain_flatMap fun clause _ => ?_
      cases clause
      exact Judged.allPlain_ensure trivial
  | .lambda _ params body =>
      intro d hd
      exact (params.mem_reports structs scopes hd).resolve_right fun h => by simp at h
  | .locals _ definitions _ =>
      rw [reports, ← Definition.makeAll_registrations]
      exact Move.allPlain_makeAll _ _
  | .lets _ _ bindings _ =>
      have hmoves := Move.allPlain_makeAll scopes.enter
        (Move.along (LetBinding.moves structs) scopes.enter bindings)
      rw [LetBinding.makeAll_along] at hmoves
      exact hmoves
  | .require _ _ => exact allPlain_nil
  | .call range callee args =>
      rw [reports]
      split
      · exact allPlain_nil
      · exact allPlain_judgeCall _ _ _ _ _
      · exact allPlain_singleton.mpr trivial

theorem Definition.mem_reports {definition : Definition} {d : Diagnostic}
    (h : d ∈ definition.reports structs scopes) :
    d.problem.Plain ∨ d.problem.kind = .returnMismatch ∧
      ∃ range docs name params body, definition = .function range docs name params body ∧
        d.range = body.range := by
  cases definition with
  | constant range docs name value => exact absurd h List.not_mem_nil
  | function range docs name params body =>
      rw [reports, List.mem_append] at h
      rcases h with h | h
      · refine (params.mem_reports structs scopes h).imp_right fun hbody => ?_
        exact ⟨hbody.2.1, range, docs, name, params, body, rfl, hbody.2.2⟩
      · split at h
        · exact absurd h List.not_mem_nil
        · obtain rfl := List.mem_singleton.mp h
          exact .inl trivial

/-! ## Registering -/

theorem Params.allPlain_fieldTypes (params : Params) :
    AllPlain (params.fieldTypes structs).diagnostics := by
  cases params with
  | typed range params result? =>
      rw [fieldTypes, resolveParams_diagnostics]
      exact allPlain_flatMap fun type _ => type.allPlain_resolve structs
  | untyped range names => exact allPlain_nil

theorem StructDefinition.allPlain_register (registered : Registered)
    (definition : StructDefinition) :
    AllPlain (definition.register structs registered).diagnostics := by
  cases hlocal : registered.scopes.local? definition.name.name with
  | some binding =>
      rw [register, Scopes.conflict?, hlocal]
      exact allPlain_singleton.mpr trivial
  | none =>
      rw [register, Scopes.conflict?, hlocal]
      simp only [Option.map_none, Judged.diagnostics_bind, Judged.diagnostics_pure,
        List.append_nil, ← makeAll_coined]
      exact allPlain_append.mpr
        ⟨definition.fields.allPlain_fieldTypes structs, Move.allPlain_makeAll _ _⟩

theorem TopLevel.allPlain_register (registered : Registered) (form : TopLevel) :
    AllPlain (form.register structs registered).diagnostics := by
  cases form with
  | definition form =>
      rw [register, ← form.makeAll_registration]
      exact allPlain_append.mpr ⟨Move.allPlain_makeAll _ _, allPlain_nil⟩
  | struct form => exact form.allPlain_register structs registered
  | value form => exact allPlain_nil

theorem Program.allPlain_register (registered : Registered) (program : Program) :
    AllPlain (register structs registered program).diagnostics := by
  induction program generalizing registered with
  | nil => exact allPlain_nil
  | cons form program ih =>
      exact allPlain_append.mpr ⟨form.allPlain_register structs registered, ih _⟩

end

end TypedIsl

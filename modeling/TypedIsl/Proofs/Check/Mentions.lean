import TypedIsl.Proofs.Check.Coincidence
import TypedIsl.Proofs.Check.Root

/-!
# The names that diagnostics mention

Diagnostics mention names of the program and names coined by its structs only. So a function that
keeps all of these keeps the diagnostics.
-/

namespace TypedIsl

section

variable {back : String → String} {structs : List String} {scopes : Scopes}

theorem Scopes.mirror_self (names : List String) (scopes : Scopes) :
    Mirror back id names scopes scopes :=
  ⟨fun _ _ => rfl, fun _ _ _ => rfl⟩

theorem Value.check_upTo {value : Value} (h : AllRestored back id value.kinds) :
    (value.check structs scopes).Match (UpTo back) Eq (value.check structs scopes) :=
  Value.follows_self h structs scopes scopes fun _ _ _ => rfl

theorem Definition.check_upTo {definition : Definition} (h : AllRestored back id definition.kinds) :
    (definition.check structs scopes).Match (UpTo back) Eq (definition.check structs scopes) :=
  ⟨rfl, Definition.diagnostics_upTo h fun _ _ => rfl⟩

theorem Definition.register_upTo {definition : Definition}
    (h : AllRestored back id definition.kinds) :
    (definition.register structs scopes).Match (UpTo back) Eq
      (definition.register structs scopes) := by
  have hregister : (definition.register structs scopes).Match (UpTo back)
      (Scopes.Mirror back id (definition.name.name :: definition.earlyReads))
      ((definition.rename id).register structs scopes) :=
    definition.register_rename h (fun _ _ => rfl) (scopes.mirror_self _) (List.Subset.refl _)
  rw [Definition.rename_id] at hregister
  exact ⟨rfl, hregister.diagnostics⟩

/-! ## Structs -/

theorem Scopes.upTo_of_conflict? {ident : Ident} {problem : Problem} {d : Diagnostic}
    (h : scopes.conflict? ident problem = some d) (hproblem : problem.rename back = problem) :
    UpTo back [d] [d] := by
  obtain ⟨binding, -, rfl⟩ := Option.map_eq_some_iff.mp h
  rw [UpTo, List.map_singleton, Diagnostic.rename, hproblem]

theorem Scopes.bindNew_upTo {problem : Problem} (hproblem : problem.rename back = problem)
    (ident : Ident) (type : Ty) :
    (scopes.bindNew ident type problem).Match (UpTo back) Eq
      (scopes.bindNew ident type problem) := by
  have hR := additive_upTo back
  rw [Scopes.bindNew]
  split
  · rename_i d hd
    exact .step hR (.report (upTo_of_conflict? hd hproblem)) fun _ => .pure hR rfl
  · exact .pure hR rfl

theorem Params.fieldTypes_upTo {params : Params} (h : AllRestored back id params.kinds) :
    (params.fieldTypes structs).Match (UpTo back) Eq (params.fieldTypes structs) := by
  cases params with
  | untyped range names => exact .pure (additive_upTo back) rfl
  | typed range params result? => exact resolveParams_upTo structs h.typedParams

theorem StructDefinition.bindCoined_upTo (range : Range) {coined : List (String × Ty)}
    (h : ∀ name ∈ coined.map Prod.fst, back name = name) :
    (bindCoined range scopes coined).Match (UpTo back) Eq (bindCoined range scopes coined) := by
  have hR := additive_upTo back
  induction coined generalizing scopes with
  | nil => exact .pure hR rfl
  | cons entry coined ih =>
      obtain ⟨name, type⟩ := entry
      obtain ⟨hname, hcoined⟩ := List.forall_mem_cons.mp h
      have hproblem : (Problem.alreadyDefined name).rename back = .alreadyDefined name :=
        congrArg Problem.alreadyDefined hname
      exact .step hR (Scopes.bindNew_upTo hproblem ⟨name, range⟩ type) fun _ => ih hcoined

theorem StructDefinition.register_upTo {registered : Registered} {definition : StructDefinition}
    (h : AllRestored back id definition.kinds)
    (hcoined : ∀ name ∈ (definition.register structs registered).result.coined, back name = name) :
    (definition.register structs registered).Match (UpTo back) Eq
      (definition.register structs registered) := by
  have hR := additive_upTo back
  simp only [StructDefinition.kinds, allRestored_enclosed, allRestored_cons] at h
  have hproblem : (Problem.alreadyDefined definition.name.name).rename back =
      .alreadyDefined definition.name.name := congrArg Problem.alreadyDefined h.2.1.1
  rw [StructDefinition.register] at hcoined ⊢
  split at hcoined
  · rename_i d hd
    exact .step hR (.report (Scopes.upTo_of_conflict? hd hproblem)) fun _ => .pure hR rfl
  · refine .along hR (Params.fieldTypes_upTo h.2.2) ?_
    have hrest := fun name hname => hcoined name (List.mem_append_right _ hname)
    exact .step hR (bindCoined_upTo definition.name.range hrest) fun _ => .pure hR rfl

/-! ## Programs -/

theorem TopLevel.register_upTo {registered : Registered} {form : TopLevel}
    (h : AllRestored back id form.kinds)
    (hcoined : ∀ name ∈ (form.register structs registered).result.coined, back name = name) :
    (form.register structs registered).Match (UpTo back) Eq
      (form.register structs registered) := by
  have hR := additive_upTo back
  cases form with
  | definition form => exact .step hR (Definition.register_upTo h) fun _ => .pure hR rfl
  | struct form => exact StructDefinition.register_upTo h hcoined
  | value form => exact .pure hR rfl

theorem TopLevel.check_upTo {form : TopLevel} (h : AllRestored back id form.kinds) :
    (form.check structs scopes).Match (UpTo back) Eq (form.check structs scopes) := by
  have hR := additive_upTo back
  cases form with
  | definition form => exact Definition.check_upTo h
  | struct form => exact .pure hR rfl
  | value form => exact .step hR (Value.check_upTo h) fun _ => .pure hR rfl

theorem Program.register_upTo {registered : Registered} {program : Program}
    (h : AllRestored back id (Program.kinds program))
    (hcoined : ∀ name ∈ (register structs registered program).result.coined, back name = name) :
    (register structs registered program).Match (UpTo back) Eq
      (register structs registered program) := by
  have hR := additive_upTo back
  induction program generalizing registered with
  | nil => exact .pure hR rfl
  | cons form program ih =>
      rw [kinds, List.flatMap_cons, allRestored_append] at h
      obtain ⟨rest, hrest, -⟩ :=
        register_binds structs (form.register structs registered).result program
      refine .along hR (TopLevel.register_upTo h.1 fun name hname => hcoined name ?_) ?_
      · rw [register, Judged.result_bind, hrest]
        exact List.mem_append_left _ hname
      · exact ih h.2 hcoined

theorem Program.checkForms_upTo {program : Program}
    (h : AllRestored back id (Program.kinds program)) :
    (checkForms structs scopes program).Match (UpTo back) Eq
      (checkForms structs scopes program) := by
  have hR := additive_upTo back
  induction program generalizing scopes with
  | nil => exact .pure hR rfl
  | cons form program ih =>
      rw [kinds, List.flatMap_cons, allRestored_append] at h
      exact .step hR (TopLevel.check_upTo h.1) fun _ => ih h.2

/-- Diagnostics mention names of the program and coined names only. -/
theorem Program.rename_diagnostics {language : Language} {program : Program}
    (h : AllRestored back id (Program.kinds program))
    (hcoined : ∀ name ∈ (check language program).coined, back name = name) :
    (check language program).diagnostics.map (·.rename back) =
      (check language program).diagnostics := by
  have hregister := (register_upTo h hcoined).diagnostics
  exact (additive_upTo back).append hregister (checkForms_upTo h).diagnostics

end

end TypedIsl

import TypedIsl.Check.Program
import TypedIsl.Proofs.Check.Renaming

/-!
# Checking in other scopes

What is found in a tree depends on the types of the names that its check looks up, and on nothing
else in the scopes around it.
-/

namespace TypedIsl

theorem Diagnostic.rename_id (d : Diagnostic) : d.rename id = d := by
  obtain ⟨problem, range, notes⟩ := d
  have hcallee : ∀ callee : Callee, callee.rename id = callee := by
    intro callee
    cases callee <;> rfl
  cases problem <;> simp [Diagnostic.rename, Problem.rename, hcallee]

theorem UpTo.eq_of_id {ds es : List Diagnostic} (h : UpTo id ds es) : es = ds := by
  rw [UpTo, List.map_congr_left fun d _ => d.rename_id, List.map_id'] at h
  exact h

theorem allRestored_id (kinds : List TokenKind) : AllRestored id id kinds := by
  intro kind _
  cases kind with
  | identifier name => exact ⟨rfl, rfl⟩
  | _ => trivial

/-- The names that checking the form looks up in the root scope. -/
def TopLevel.reads : TopLevel → List String
  | definition form => form.reads
  | struct _ => []
  | value form => form.reads

section

variable {back : String → String} {structs : List String} {scopes others : Scopes}

theorem Value.follows_self {value : Value} (h : AllRestored back id value.kinds) :
    value.Follows back id value := by
  have hvalue := value.follows_rename h fun _ _ => rfl
  rwa [Value.rename_id] at hvalue

theorem Value.check_congr {value : Value}
    (h : ∀ name ∈ value.reads, others.type? name = scopes.type? name) :
    value.check structs others = value.check structs scopes := by
  have hvalue := Value.follows_self (allRestored_id value.kinds)
  have hmatch := hvalue structs scopes others fun name hname _ => h name hname
  exact Judged.match_eq_iff.mp ⟨hmatch.result.symm, hmatch.diagnostics.eq_of_id⟩

theorem Definition.diagnostics_upTo {definition : Definition}
    (h : AllRestored back id definition.kinds)
    (hreads : ∀ name ∈ definition.reads, others.type? name = scopes.type? name) :
    UpTo back (definition.check structs scopes).diagnostics
      (definition.check structs others).diagnostics := by
  have hR := additive_upTo back
  cases definition with
  | constant range docs name value =>
      simp only [Definition.kinds, allRestored_enclosed, allRestored_cons] at h
      have hvalue := Value.follows_self h.2.2
      have hmatch := hvalue structs scopes others fun name hname _ => hreads name hname
      exact hR.append hmatch.diagnostics hR.nil
  | function range docs name params body =>
      simp only [Definition.kinds, allRestored_enclosed, List.cons_append, allRestored_cons,
        allRestored_append] at h
      obtain ⟨-, ⟨hname, hparams⟩, hbody⟩ := h
      have hinner : Scopes.Mirror back id (without params.bound body.reads) scopes.enter
          others.enter := ⟨fun _ _ => rfl, fun name hname _ => hreads name hname⟩
      have hfunction := Definition.follows_function structs (r := fun _ _ => True) hname hparams
        (Value.follows_self hbody) rfl range docs trivial (fun _ => trivial) hinner
      rw [Params.rename_id] at hfunction
      exact hfunction.diagnostics

theorem Definition.diagnostics_congr {definition : Definition}
    (h : ∀ name ∈ definition.reads, others.type? name = scopes.type? name) :
    (definition.check structs others).diagnostics = (definition.check structs scopes).diagnostics :=
  (diagnostics_upTo (allRestored_id definition.kinds) h).eq_of_id

theorem TopLevel.diagnostics_congr {form : TopLevel}
    (h : ∀ name ∈ form.reads, others.type? name = scopes.type? name) :
    (form.check structs others).diagnostics = (form.check structs scopes).diagnostics := by
  cases form with
  | definition form => exact Definition.diagnostics_congr h
  | struct form => rfl
  | value form =>
      rw [TopLevel.check, TopLevel.check, Value.check_congr h]
      rfl

end

end TypedIsl

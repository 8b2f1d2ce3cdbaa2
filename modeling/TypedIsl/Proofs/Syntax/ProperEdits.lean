import TypedIsl.Proofs.Syntax.Edit
import TypedIsl.Proofs.Syntax.Spelling

/-!
# Edits of proper trees

An edit keeps the form of a tree, so it keeps a tree proper if it keeps its parameter lists proper.
-/

namespace TypedIsl

/-- Proper trees with docstrings that satisfy `doc` become proper trees whose docstrings satisfy
`doc'`. -/
structure Edit.KeepsProper (e : Edit) (doc doc' : String → Prop) : Prop where
  params : ∀ params : Params, params.Proper → (e.params params).Proper
  docs : ∀ docs : List String, (∀ text ∈ docs, doc text) → ∀ text ∈ e.docs docs, doc' text

section

variable {e : Edit} {doc doc' : String → Prop}

mutual

theorem Value.proper_edit (he : e.KeepsProper doc doc') {value : Value}
    (h : value.Proper doc) : (value.edit e).Proper doc' := by
  match value with
  | .literal .. | .name .. | .require .. => trivial
  | .branch _ condition thenArm elseArm =>
      exact ⟨Value.proper_edit he h.1, Value.proper_edit he h.2.1, Value.proper_edit he h.2.2⟩
  | .cond _ clauses none => exact ⟨Clause.editAll_ne_nil h.1, Clause.allProper_edit he h.2⟩
  | .cond _ clauses (some value) =>
      exact ⟨Clause.editAll_ne_nil h.1, Clause.allProper_edit he h.2.1, Value.proper_edit he h.2.2⟩
  | .lambda _ params body => exact ⟨he.params params h.1, Value.proper_edit he h.2⟩
  | .locals _ definitions body =>
      exact ⟨Definition.allProper_edit he h.1, Value.proper_edit he h.2⟩
  | .lets _ _ bindings body => exact ⟨LetBinding.allProper_edit he h.1, Value.proper_edit he h.2⟩
  | .call _ callee args => exact ⟨Value.proper_edit he h.1, Value.allProper_edit he h.2⟩
termination_by structural value

theorem Value.allProper_edit (he : e.KeepsProper doc doc') {values : List Value}
    (h : Value.AllProper doc values) : Value.AllProper doc' (Value.editAll e values) := by
  match values with
  | [] => trivial
  | value :: values => exact ⟨Value.proper_edit he h.1, Value.allProper_edit he h.2⟩
termination_by structural values

theorem Clause.proper_edit (he : e.KeepsProper doc doc') {clause : Clause}
    (h : clause.Proper doc) : (clause.edit e).Proper doc' := by
  match clause with
  | .mk _ condition body => exact ⟨Value.proper_edit he h.1, Value.proper_edit he h.2⟩
termination_by structural clause

theorem Clause.allProper_edit (he : e.KeepsProper doc doc') {clauses : List Clause}
    (h : Clause.AllProper doc clauses) : Clause.AllProper doc' (Clause.editAll e clauses) := by
  match clauses with
  | [] => trivial
  | clause :: clauses => exact ⟨Clause.proper_edit he h.1, Clause.allProper_edit he h.2⟩
termination_by structural clauses

theorem LetBinding.proper_edit (he : e.KeepsProper doc doc') {binding : LetBinding}
    (h : binding.Proper doc) : (binding.edit e).Proper doc' := by
  match binding with
  | .mk _ name value => exact Value.proper_edit he h
termination_by structural binding

theorem LetBinding.allProper_edit (he : e.KeepsProper doc doc') {bindings : List LetBinding}
    (h : LetBinding.AllProper doc bindings) :
    LetBinding.AllProper doc' (LetBinding.editAll e bindings) := by
  match bindings with
  | [] => trivial
  | binding :: bindings => exact ⟨LetBinding.proper_edit he h.1, LetBinding.allProper_edit he h.2⟩
termination_by structural bindings

theorem Definition.proper_edit (he : e.KeepsProper doc doc') {definition : Definition}
    (h : definition.Proper doc) : (definition.edit e).Proper doc' := by
  match definition with
  | .function _ docs name params body =>
      exact ⟨he.docs docs h.1, he.params params h.2.1, Value.proper_edit he h.2.2⟩
  | .constant _ docs name value => exact ⟨he.docs docs h.1, Value.proper_edit he h.2⟩
termination_by structural definition

theorem Definition.allProper_edit (he : e.KeepsProper doc doc') {definitions : List Definition}
    (h : Definition.AllProper doc definitions) :
    Definition.AllProper doc' (Definition.editAll e definitions) := by
  match definitions with
  | [] => trivial
  | definition :: definitions =>
      exact ⟨Definition.proper_edit he h.1, Definition.allProper_edit he h.2⟩
termination_by structural definitions

end

theorem TopLevel.proper_edit (he : e.KeepsProper doc doc') {form : TopLevel}
    (h : form.Proper doc) : (form.edit e).Proper doc' := by
  cases form with
  | definition form => exact Definition.proper_edit he h
  | struct form => exact ⟨he.docs form.docs h.1, he.params form.fields h.2⟩
  | value form => exact Value.proper_edit he h

theorem Program.proper_edit (he : e.KeepsProper doc doc') {program : Program}
    (h : Program.Proper doc program) : Program.Proper doc' (Program.edit e program) := by
  intro form hform
  obtain ⟨original, horiginal, rfl⟩ := List.mem_map.mp hform
  exact TopLevel.proper_edit he (h original horiginal)

end

end TypedIsl

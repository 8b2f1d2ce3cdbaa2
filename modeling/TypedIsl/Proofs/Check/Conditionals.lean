import Mathlib.Data.List.Forall2
import TypedIsl.Check.Value
import TypedIsl.Proofs.Check.Matching
import TypedIsl.Proofs.Ty.Canonical

/-!
# Conditionals as nested branches

A `cond` with an else arm abbreviates nested branches, one for each of its clauses. It is checked
like them: the arms are joined all at once instead of from the inside out, which comes to the same,
and only the word for the form differs in what is said of the conditions.
-/

namespace TypedIsl

namespace Clause

def condition : Clause → Value
  | mk _ condition _ => condition

def body : Clause → Value
  | mk _ _ body => body

/-- The type of the body of a clause, whose condition is judged as that of the given form. -/
def judge (form : String) (structs : List String) (scopes : Scopes) (clause : Clause) :
    Judged Ty := do
  let type ← clause.condition.check structs scopes
  judgeCondition form clause.condition.range type
  clause.body.check structs scopes

end Clause

/-- The branches that a conditional abbreviates: one for each clause, at the range that comes with
it, around those for the later clauses, and the else arm inside all of them. -/
def Value.nested (otherwise : Value) : List (Range × Clause) → Value
  | [] => otherwise
  | (range, clause) :: arms => .branch range clause.condition clause.body (nested otherwise arms)

/-- The types of the bodies of clauses of the given form, and of the else arm. -/
def Value.armTypes (form : String) (structs : List String) (scopes : Scopes) (otherwise : Value) :
    List Clause → Judged (List Ty)
  | [] => do
      let type ← otherwise.check structs scopes
      return [type]
  | clause :: clauses => do
      let type ← clause.judge form structs scopes
      let types ← armTypes form structs scopes otherwise clauses
      return type :: types

/-- The diagnostics are the same, or they say the same of the condition of one of the clauses, in
the first place as a condition of `cond`, in the second as one of `if`. -/
def Diagnostic.Reworded (clauses : List Clause) (d e : Diagnostic) : Prop :=
  d = e ∨ ∃ clause ∈ clauses, ∃ actual,
    d = ⟨.conditionNotBoolean "cond" actual, clause.condition.range, []⟩ ∧
      e = ⟨.conditionNotBoolean "if" actual, clause.condition.range, []⟩

theorem additive_reworded (clauses : List Clause) :
    Additive (List.Forall₂ (Diagnostic.Reworded clauses)) :=
  ⟨.nil, fun h h' => List.rel_append h h'⟩

theorem reworded_refl (clauses : List Clause) (ds : List Diagnostic) :
    List.Forall₂ (Diagnostic.Reworded clauses) ds ds :=
  List.forall₂_same.mpr fun _ _ => .inl rfl

section

variable {structs : List String} {scopes : Scopes} {clause : Clause} {clauses : List Clause}

/-! ## Clauses -/

theorem Clause.check_eq_judge (clause : Clause) :
    clause.check structs scopes = clause.judge "cond" structs scopes := by
  cases clause
  rfl

theorem Clause.judge_reworded (h : clause ∈ clauses) :
    (clause.judge "cond" structs scopes).Match (List.Forall₂ (Diagnostic.Reworded clauses)) Eq
      (clause.judge "if" structs scopes) := by
  have hR := additive_reworded clauses
  have hrefl := reworded_refl clauses
  refine .after hR hrefl _ (.step hR ?_ fun _ => .refl hrefl _)
  rw [judgeCondition, judgeCondition, Judged.ensure, Judged.ensure]
  split
  · exact .pure hR rfl
  · exact .report (.cons (.inr ⟨clause, h, _, rfl, rfl⟩) .nil)

namespace Value

/-! ## Arms -/

theorem armTypes_cond (otherwise : Value) (clauses : List Clause) :
    armTypes "cond" structs scopes otherwise clauses = do
      let types ← Clause.checkAll structs scopes clauses
      let type ← otherwise.check structs scopes
      return types ++ [type] := by
  induction clauses with
  | nil => rfl
  | cons clause clauses ih =>
      simp only [armTypes, ih, Clause.checkAll, Clause.check_eq_judge, bind_assoc, pure_bind,
        List.cons_append]

theorem check_cond_otherwise (range : Range) (otherwise : Value) (clauses : List Clause) :
    (cond range clauses (some otherwise)).check structs scopes = do
      let types ← armTypes "cond" structs scopes otherwise clauses
      return .unionOf types := by
  simp only [Value.check, armTypes_cond, bind_assoc, pure_bind]

theorem armTypes_reworded (otherwise : Value) {own : List Clause} (h : own ⊆ clauses) :
    (armTypes "cond" structs scopes otherwise own).Match
      (List.Forall₂ (Diagnostic.Reworded clauses)) Eq
      (armTypes "if" structs scopes otherwise own) := by
  have hR := additive_reworded clauses
  induction own with
  | nil => exact .refl (reworded_refl clauses) _
  | cons clause own ih =>
      obtain ⟨hclause, hown⟩ := List.cons_subset.mp h
      refine .step hR (Clause.judge_reworded hclause) fun type => ?_
      exact .step hR (ih hown) fun types => .pure hR rfl

theorem diagnostics_armTypes (form : String) (otherwise : Value) (clauses : List Clause) :
    (armTypes form structs scopes otherwise clauses).diagnostics =
      clauses.flatMap (fun clause => (clause.judge form structs scopes).diagnostics) ++
        (otherwise.check structs scopes).diagnostics := by
  induction clauses with
  | nil => exact List.append_nil _
  | cons clause clauses ih =>
      simp only [armTypes, Judged.diagnostics_bind, Judged.diagnostics_pure, List.append_nil, ih,
        List.flatMap_cons, List.append_assoc]

theorem result_armTypes_ne_nil (form : String) (otherwise : Value) (clauses : List Clause) :
    (armTypes form structs scopes otherwise clauses).result ≠ [] := by
  cases clauses <;> exact List.cons_ne_nil _ _

/-! ## Branches -/

theorem check_nested_cons (otherwise : Value) (range : Range) (clause : Clause)
    (arms : List (Range × Clause)) :
    (nested otherwise ((range, clause) :: arms)).check structs scopes = do
      let type ← clause.judge "if" structs scopes
      let other ← (nested otherwise arms).check structs scopes
      return .unionOf [type, other] := by
  simp only [nested, Value.check, Clause.judge, bind_assoc]

theorem diagnostics_check_nested (otherwise : Value) (arms : List (Range × Clause)) :
    ((nested otherwise arms).check structs scopes).diagnostics =
      (armTypes "if" structs scopes otherwise (arms.map Prod.snd)).diagnostics := by
  induction arms with
  | nil => exact (List.append_nil _).symm
  | cons arm arms ih =>
      rw [check_nested_cons, List.map_cons, armTypes]
      simp only [Judged.diagnostics_bind, Judged.diagnostics_pure, List.append_nil, ih]

/-- Joining from the inside out comes to the same as joining all arms at once. -/
theorem collapse_check_nested (otherwise : Value) (arms : List (Range × Clause)) :
    ((nested otherwise arms).check structs scopes).result.collapse =
      .unionOf (armTypes "if" structs scopes otherwise (arms.map Prod.snd)).result := by
  induction arms with
  | nil => exact (Ty.unionOf_singleton _).symm
  | cons arm arms ih =>
      obtain ⟨range, clause⟩ := arm
      have hne : (armTypes "if" structs scopes otherwise (arms.map Prod.snd)).result ≠ [] :=
        result_armTypes_ne_nil "if" otherwise (arms.map Prod.snd)
      rw [check_nested_cons, List.map_cons, armTypes]
      simp only [Judged.result_bind, Judged.result_pure]
      rw [Ty.unionOf_cons hne, ← ih, Ty.unionOf_pair_collapse]
      exact Ty.collapse_collapse _

/-- A conditional with an else arm, and at least one clause as the grammar asks for, is checked like
the nested branches that it abbreviates. Both have the same type. What is found is what the clauses
give, one after the other, and then the else arm: the same diagnostics in the same order, but for
the word for the form in those on conditions. -/
theorem check_cond_nested (structs : List String) (scopes : Scopes) (range : Range)
    (otherwise : Value) (arm : Range × Clause) (arms : List (Range × Clause)) :
    let clauses := (arm :: arms).map Prod.snd
    let whole := (cond range clauses (some otherwise)).check structs scopes
    let branches := (nested otherwise (arm :: arms)).check structs scopes
    let found (form : String) :=
      clauses.flatMap (fun clause => (clause.judge form structs scopes).diagnostics) ++
        (otherwise.check structs scopes).diagnostics
    whole.result = branches.result ∧ whole.diagnostics = found "cond" ∧
      branches.diagnostics = found "if" ∧
      List.Forall₂ (Diagnostic.Reworded clauses) whole.diagnostics branches.diagnostics := by
  intro clauses whole branches found
  have hwhole : whole.diagnostics =
      (armTypes "cond" structs scopes otherwise clauses).diagnostics := by
    simp only [whole, check_cond_otherwise, Judged.diagnostics_bind, Judged.diagnostics_pure,
      List.append_nil]
  have hbranches : branches.diagnostics =
      (armTypes "if" structs scopes otherwise clauses).diagnostics :=
    diagnostics_check_nested otherwise (arm :: arms)
  have hreworded : (armTypes "cond" structs scopes otherwise clauses).Match
      (List.Forall₂ (Diagnostic.Reworded clauses)) Eq
      (armTypes "if" structs scopes otherwise clauses) :=
    armTypes_reworded otherwise (List.Subset.refl clauses)
  refine ⟨?_, ?_, ?_, ?_⟩
  · -- The type of a branch is a join already, so collapsing it changes nothing.
    have hcollapsed : branches.result.collapse = branches.result := by
      obtain ⟨range, clause⟩ := arm
      simp only [branches, check_nested_cons, Judged.result_bind, Judged.result_pure]
      exact Ty.collapse_collapse _
    rw [← hcollapsed, collapse_check_nested, ← hreworded.result]
    simp only [whole, check_cond_otherwise, Judged.result_bind, Judged.result_pure]
  · rw [hwhole, diagnostics_armTypes]
  · rw [hbranches, diagnostics_armTypes]
  · rw [hwhole, hbranches]
    exact hreworded.diagnostics

end Value

end

end TypedIsl

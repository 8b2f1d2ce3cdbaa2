import TypedIsl.Check.Value
import TypedIsl.Proofs.Check.Matching
import TypedIsl.Proofs.Syntax.Renaming
import TypedIsl.Proofs.Syntax.Spelling

/-!
# Diagnostics up to renaming

If the names of a tree are replaced by others, its diagnostics mention the others. A function
`back`, which undoes the replacement on the names of the tree, turns them into those of the tree.
-/

namespace TypedIsl

/-! ## Names in diagnostics -/

def Callee.rename (f : String → String) : Callee → Callee
  | named name => named (f name)
  | expression => expression

def Problem.rename (f : String → String) : Problem → Problem
  | alreadyDefined name => alreadyDefined (f name)
  | alreadyDefinedLocally name => alreadyDefinedLocally (f name)
  | undefined name => undefined (f name)
  | unknownType name => unknownType (f name)
  | notTypeChecked name => notTypeChecked (f name)
  | notCallable callee actual => notCallable (callee.rename f) actual
  | arityMismatch callee expected actual atLeast =>
      arityMismatch (callee.rename f) expected actual atLeast
  | argumentMismatch callee position expected actual =>
      argumentMismatch (callee.rename f) position expected actual
  | returnMismatch function? expected actual => returnMismatch (function?.map f) expected actual
  | conditionNotBoolean form actual => conditionNotBoolean form actual

def Diagnostic.rename (f : String → String) (d : Diagnostic) : Diagnostic :=
  ⟨d.problem.rename f, d.range, d.notes⟩

/-- The first diagnostics are the second ones renamed by `back`. -/
def UpTo (back : String → String) (ds es : List Diagnostic) : Prop :=
  es.map (·.rename back) = ds

theorem additive_upTo (back : String → String) : Additive (UpTo back) := by
  refine ⟨rfl, ?_⟩
  intro ds es more others h hmore
  rw [UpTo, List.map_append, h, hmore]

/-- The function `back` keeps the name and undoes what `f` does to it. -/
def Restores (back f : String → String) (name : String) : Prop :=
  back name = name ∧ back (f name) = name

def TokenKind.Restored (back f : String → String) : TokenKind → Prop
  | identifier name => Restores back f name
  | _ => True

def AllRestored (back f : String → String) (kinds : List TokenKind) : Prop :=
  ∀ kind ∈ kinds, kind.Restored back f

section

variable {back f : String → String} {name other : String} {names : List String}

theorem Restores.eq_of_eq (h : Restores back f name) (hother : Restores back f other)
    (heq : f name = f other) : name = other := by
  rw [← h.2, heq, hother.2]

theorem Restores.keeping (h : Restores back f name) (names : List String) :
    Restores back (except names f) name := by
  by_cases hname : name ∈ names
  · rw [Restores, except_of_mem hname]
    exact ⟨h.1, h.1⟩
  · rw [Restores, except_of_not_mem hname]
    exact h

/-- A renamed name is none of those kept below a binder. -/
theorem Restores.ne_of_not_mem (h : Restores back f name) (hother : back other = other)
    (hne : name ≠ other) : f name ≠ other := by
  intro heq
  rw [← h.2, heq, hother] at hne
  exact hne rfl

@[simp] theorem allRestored_append {kinds more : List TokenKind} :
    AllRestored back f (kinds ++ more) ↔ AllRestored back f kinds ∧ AllRestored back f more :=
  List.forall_mem_append

@[simp] theorem allRestored_cons {kind : TokenKind} {kinds : List TokenKind} :
    AllRestored back f (kind :: kinds) ↔ kind.Restored back f ∧ AllRestored back f kinds :=
  List.forall_mem_cons

@[simp] theorem allRestored_nil : AllRestored back f [] :=
  fun _ hkind => absurd hkind List.not_mem_nil

@[simp] theorem allRestored_enclosed {kinds : List TokenKind} :
    AllRestored back f (enclosed kinds) ↔ AllRestored back f kinds := by
  simp [enclosed, TokenKind.Restored]

@[simp] theorem Ident.restored_kind {ident : Ident} :
    ident.kind.Restored back f ↔ Restores back f ident.name :=
  Iff.rfl

theorem AllRestored.keeping {kinds : List TokenKind} (h : AllRestored back f kinds)
    (names : List String) : AllRestored back (except names f) kinds := by
  intro kind hkind
  have hrestored := h kind hkind
  cases kind with
  | identifier name => exact Restores.keeping hrestored names
  | _ => trivial

/-- The names that `back` keeps are restored if nothing is done to them. -/
theorem AllRestored.unchanged {kinds : List TokenKind} (h : AllRestored back f kinds) :
    AllRestored back id kinds := by
  intro kind hkind
  have hrestored := h kind hkind
  cases kind with
  | identifier name => exact ⟨hrestored.1, hrestored.1⟩
  | _ => trivial

theorem AllRestored.typedParams {range : Range} {params : List TypedParam}
    {result? : Option TypeExpr} (h : AllRestored back f (Params.typed range params result?).kinds) :
    ∀ param ∈ params, AllRestored back f param.kinds := by
  intro param hparam kind hkind
  have hmem := TypedParam.subset_allKinds hparam hkind
  cases result? with
  | none => exact h kind hmem
  | some declared => exact h kind (List.mem_append_left _ hmem)

theorem AllRestored.declared {range : Range} {params : List TypedParam} {declared : TypeExpr}
    (h : AllRestored back f (Params.typed range params (some declared)).kinds) :
    AllRestored back f declared.kinds :=
  (allRestored_cons.mp (allRestored_append.mp h).2).2

theorem AllRestored.params {params : Params} (h : AllRestored back f params.kinds) :
    ∀ ident ∈ params.names, Restores back f ident.name :=
  fun _ hident => h _ (Params.kind_mem hident)

end

/-! ## Reports -/

section

variable {back f : String → String}

theorem report_upTo {problem other : Problem} (h : other.rename back = problem) (range : Range)
    (notes : List Note) :
    (Judged.report ⟨problem, range, notes⟩).Match (UpTo back) Eq
      (Judged.report ⟨other, range, notes⟩) := by
  refine .report ?_
  rw [UpTo, List.map_singleton, Diagnostic.rename, h]

theorem ensure_upTo {problem other : Problem} (h : other.rename back = problem) (holds : Bool)
    (range : Range) :
    (Judged.ensure holds range problem).Match (UpTo back) Eq
      (Judged.ensure holds range other) := by
  unfold Judged.ensure
  split
  · exact .pure (additive_upTo back) rfl
  · exact report_upTo h range []

/-! ## Annotations -/

theorem unknownType_upTo {name : Ident} (h : Restores back f name.name) :
    (unknownType name).Match (UpTo back) Eq (unknownType name) := by
  have hproblem : (Problem.unknownType name.name).rename back = .unknownType name.name :=
    congrArg Problem.unknownType h.1
  have hR := additive_upTo back
  exact .step hR (report_upTo hproblem _ _) fun _ => .pure hR rfl

theorem TypeExpr.resolve_upTo (structs : List String) (type : TypeExpr)
    (h : AllRestored back f type.kinds) :
    (type.resolve structs).Match (UpTo back) Eq (type.resolve structs) := by
  have hR := additive_upTo back
  match type with
  | .named name =>
      rw [TypeExpr.kinds, allRestored_cons] at h
      rw [TypeExpr.resolve]
      split
      · exact .pure hR rfl
      · exact unknownType_upTo h.1
  | .apply range function args =>
      rw [TypeExpr.kinds, allRestored_enclosed, allRestored_cons] at h
      unfold TypeExpr.resolve
      split
      · exact .pure hR rfl
      · split
        · match args with
          | [] => exact .pure hR rfl
          | arg :: args =>
              rw [TypeExpr.allKinds, allRestored_append] at h
              refine .step hR (arg.resolve_upTo structs h.2.1) fun _ => ?_
              exact .pure hR rfl
        · exact unknownType_upTo h.1

theorem resolveParams_rename (structs : List String) (params : List TypedParam) :
    resolveParams structs (params.map (·.rename f)) = resolveParams structs params := by
  induction params with
  | nil => rfl
  | cons param params ih => simp [resolveParams, ih]

theorem resolveParams_upTo (structs : List String) {params : List TypedParam}
    (h : ∀ param ∈ params, AllRestored back f param.kinds) :
    (resolveParams structs params).Match (UpTo back) Eq (resolveParams structs params) := by
  have hR := additive_upTo back
  induction params with
  | nil => exact .pure hR rfl
  | cons param params ih =>
      obtain ⟨hparam, hparams⟩ := List.forall_mem_cons.mp h
      have htype := (allRestored_cons.mp (allRestored_cons.mp hparam).2).2
      refine .step hR (param.type.resolve_upTo structs htype) fun type => ?_
      exact .step hR (ih hparams) fun types => .pure hR rfl

/-! ## Conditions, results and calls -/

theorem judgeCondition_upTo (form : String) (range : Range) (type : Ty) :
    (judgeCondition form range type).Match (UpTo back) Eq (judgeCondition form range type) := by
  have hproblem : (Problem.conditionNotBoolean form type.tag).rename back =
      .conditionNotBoolean form type.tag := rfl
  exact ensure_upTo hproblem _ range

theorem judgeResult_upTo {function? other? : Option String} (h : other?.map back = function?)
    (body declared : Range) (expected actual : Ty) :
    (judgeResult function? body declared expected actual).Match (UpTo back) Eq
      (judgeResult other? body declared expected actual) := by
  unfold judgeResult
  split
  · exact .pure (additive_upTo back) rfl
  · exact report_upTo (by rw [Problem.rename, h]) body _

theorem judgeArgs_upTo {callee other : Callee} (h : other.rename back = callee) (position : Nat)
    (args : List (Range × Ty)) (types : List Ty) :
    (judgeArgs callee position args types).Match (UpTo back) Eq
      (judgeArgs other position args types) := by
  have hR := additive_upTo back
  induction args generalizing position types with
  | nil => exact .pure hR rfl
  | cons arg args ih =>
      cases types with
      | nil => exact .pure hR rfl
      | cons type types =>
          refine .step hR (ensure_upTo (by rw [Problem.rename, h]) _ _) fun _ => ?_
          exact ih (position + 1) types

theorem judgeCall_upTo {callee other : Callee} (h : other.rename back = callee) (range : Range)
    (params : List Param) (result : Ty) (args : List (Range × Ty)) :
    (judgeCall range callee params result args).Match (UpTo back) Eq
      (judgeCall range other params result args) := by
  have hR := additive_upTo back
  unfold judgeCall
  split
  · exact .step hR (judgeArgs_upTo h 1 args _) fun _ => .pure hR rfl
  · exact .step hR (report_upTo (by rw [Problem.rename, h]) range []) fun _ => .pure hR rfl

theorem Value.asCallee_rename {value : Value} (h : AllRestored back f value.kinds) :
    (value.rename f).asCallee.rename back = value.asCallee := by
  match value with
  | .name ident =>
      have hname : Restores back f ident.name := (allRestored_cons.mp h).1
      exact congrArg Callee.named hname.2
  | .cond _ _ none => rfl
  | .cond _ _ (some _) => rfl
  | .literal _ _ | .branch _ _ _ _ | .lambda _ _ _ | .locals _ _ _ | .lets _ _ _ _
  | .require _ _ | .call _ _ _ => rfl

end

end TypedIsl

import TypedIsl.Language.Minimal
import TypedIsl.Proofs.Check.Replacement
import TypedIsl.Proofs.Check.Reports
import TypedIsl.Proofs.Syntax.Bodies

/-!
# Functions as constants

A function with a declared result may as well be defined as a constant whose value is a lambda
expression. The name gets the same type, and the body is checked in the same scopes. A body with
another result than the declared one is reported either way, but a lambda has no name.
-/

namespace TypedIsl

/-! ## Diagnostics without the name -/

/-- What is reported if the result of a body is not the declared one. -/
def Diagnostic.ofResult (function? : Option String) (body declared : Range)
    (expected actual : Tag) : Diagnostic :=
  ⟨.returnMismatch function? expected actual, body, [⟨"return type declared here", declared⟩]⟩

/-- The diagnostic for a function with the given body, if the function is spelled as a lambda. -/
def Diagnostic.asLambda (name : String) (body : Range) (d : Diagnostic) : Diagnostic :=
  match d.problem with
  | .returnMismatch (some function) expected actual =>
      if function = name ∧ d.range = body then
        { d with problem := .returnMismatch none expected actual }
      else d
  | _ => d

/-- The second diagnostic is the first one, or the same mismatch without the name. -/
inductive Diagnostic.Unnames (name : String) (body declared : Range) :
    Diagnostic → Diagnostic → Prop
  | same (d : Diagnostic) : Unnames name body declared d d
  | result (expected actual : Tag) : Unnames name body declared
      (.ofResult (some name) body declared expected actual)
      (.ofResult none body declared expected actual)

/-- The diagnostics are the same, in any order and without the name where it may be missing. -/
def AllUnname (name : String) (body declared : Range) (ds es : List Diagnostic) : Prop :=
  ∃ among, List.Forall₂ (Diagnostic.Unnames name body declared) ds among ∧ among.Perm es

section

variable {name : String} {body declared : Range} {ds es more : List Diagnostic}

theorem Diagnostic.Unnames.eq_asLambda {d e : Diagnostic} (h : d.Unnames name body declared e)
    (hnone : ∀ expected actual, e.problem = .returnMismatch (some name) expected actual →
      e.range ≠ body) : d.asLambda name body = e := by
  cases h with
  | result expected actual => simp [asLambda, ofResult]
  | same =>
      rw [asLambda]
      split
      · rename_i function expected actual hproblem
        refine if_neg fun ⟨hfunction, hrange⟩ => ?_
        exact hnone expected actual (hfunction ▸ hproblem) hrange
      · rfl

namespace AllUnname

theorem refl (ds : List Diagnostic) : AllUnname name body declared ds ds :=
  ⟨ds, List.forall₂_same.mpr fun d _ => .same d, .refl ds⟩

theorem additive : Additive (AllUnname name body declared) where
  nil := refl []
  append := fun ⟨_, hsome, hperm⟩ ⟨_, hmore, hmorePerm⟩ =>
    ⟨_, List.rel_append hsome hmore, hperm.append hmorePerm⟩

theorem of_perm (hds : ds.Perm more) (h : AllUnname name body declared more es) :
    AllUnname name body declared ds es := by
  obtain ⟨among, hmore, hperm⟩ := h
  obtain ⟨found, hfound, hamong⟩ := List.perm_comp_forall₂ hds hmore
  exact ⟨found, hfound, hamong.trans hperm⟩

theorem perm (h : AllUnname name body declared ds more) (hes : more.Perm es) :
    AllUnname name body declared ds es := by
  obtain ⟨among, hds, hperm⟩ := h
  exact ⟨among, hds, hperm.trans hes⟩

/-- If the name is missing everywhere, it is known which diagnostics there are. -/
theorem perm_asLambda (h : AllUnname name body declared ds es)
    (hnone : ∀ e ∈ es, ∀ expected actual,
      e.problem = .returnMismatch (some name) expected actual → e.range ≠ body) :
    es.Perm (ds.map (Diagnostic.asLambda name body)) := by
  obtain ⟨among, hds, hperm⟩ := h
  have hamong : ds.map (Diagnostic.asLambda name body) = among := by
    replace hnone := fun e he => hnone e (hperm.subset he)
    clear hperm
    induction hds with
    | nil => rfl
    | cons hfirst _ ih =>
        obtain ⟨hnone, hrest⟩ := List.forall_mem_cons.mp hnone
        rw [List.map_cons, hfirst.eq_asLambda hnone, ih hrest]
  exact hamong ▸ hperm.symm

theorem of_judgeResult (name : String) (body declared : Range) (expected actual : Ty) :
    AllUnname name body declared
      (judgeResult (some name) body declared expected actual).diagnostics
      (judgeResult none body declared expected actual).diagnostics := by
  unfold judgeResult
  split
  · exact refl []
  · exact ⟨_, .cons (.result expected.tag actual.tag) .nil, .refl _⟩

end AllUnname

end

/-! ## The definition itself -/

/-- The second definition is the first one, a function, spelled as a constant. -/
inductive Definition.SpellsAsLambda (name : Ident) (declared : TypeExpr) (body : Value) :
    Definition → Definition → Prop
  | intro {range docs paramsRange params constantRange lambdaRange lambdaParamsRange} :
      SpellsAsLambda name declared body
        (.function range docs name (.typed paramsRange params (some declared)) body)
        (.constant constantRange docs name
          (.lambda lambdaRange (.typed lambdaParamsRange params (some declared)) body))

section

variable {name : Ident} {declared : TypeExpr} {body : Value}

/-- A lambda expression has the type that a function with the same parameters declares. -/
theorem Value.result_check_lambda (structs : List String) (scopes : Scopes)
    (range paramsRange : Range) (params : List TypedParam) :
    ((Value.lambda range (.typed paramsRange params (some declared)) body).check structs
        scopes).result =
      (Params.typed paramsRange params (some declared)).declaredType structs := by
  simp [Value.check, bindTypedParams_result, Params.declaredType]

/-- Nothing but the name is missing in what is reported about the parameters and the result. -/
theorem Params.reports_unnames (structs : List String) (scopes : Scopes) (name : String)
    (body : Range) (declared : TypeExpr) (actual : Ty) (range : Range) (params : List TypedParam) :
    AllUnname name body declared.range
      ((Params.typed range params (some declared)).reports structs scopes (some name) body actual)
      ((Params.typed range params (some declared)).reports structs scopes none body actual) := by
  refine AllUnname.additive.append (.refl _) ?_
  rw [Params.result?, Option.toList_some, List.flatMap_singleton, List.flatMap_singleton]
  exact .of_judgeResult name body declared.range _ _

theorem Definition.SpellsAsLambda.alike (bound : List String) {definition other : Definition}
    (h : definition.SpellsAsLambda name declared body other) :
    definition.Alike (AllUnname name.name body.range declared.range) bound other := by
  obtain @⟨range, docs, paramsRange, params, constantRange, lambdaRange, lambdaParamsRange⟩ := h
  refine ⟨rfl, fun structs scopes _ => ?_, fun structs scopes _ => ?_⟩
  · rw [← makeAll_registration, ← makeAll_registration, registration, registration,
      Value.result_check_lambda]
    exact .refl AllUnname.refl _
  · constructor
    · simp [Definition.check, Value.check, bindTypedParams_result]
    · -- Either way the body is visited in the scopes in which the parameters are bound.
      have hfunction := (Definition.function range docs name
        (.typed paramsRange params (some declared)) body).diagnostics_perm structs scopes
      have hlambda := (Value.lambda lambdaRange
        (.typed lambdaParamsRange params (some declared)) body).diagnostics_perm structs scopes
      rw [reports, Params.result?, Option.isSome_some, if_pos rfl, List.append_nil] at hfunction
      have hreports := Params.reports_unnames structs scopes name.name body.range declared
        (body.check structs ((Params.typed paramsRange params (some declared)).inner structs
          scopes)).result paramsRange params
      have hall := (AllUnname.additive.append hreports (.refl _)).of_perm hfunction
      refine hall.perm (hlambda.symm.trans ?_)
      simp [Definition.check]

end

/-! ## Where the results of functions with names are reported -/

def Subject.bodies : Subject → List Range
  | value form => form.bodies
  | definition form => form.bodies

section

variable {structs : List String} {scopes : Scopes} {next : Visit}

theorem Clause.bodies_of_mem_steps {clause : Clause} (h : next ∈ clause.steps scopes) :
    next.subject.bodies ⊆ clause.bodies := by
  obtain ⟨range, condition, body⟩ := clause
  simp only [steps, List.mem_cons, List.not_mem_nil, or_false] at h
  rcases h with rfl | rfl
  · exact List.subset_append_left _ _
  · exact List.subset_append_right _ _

theorem LetBinding.bodies_of_mem_steps {binding : LetBinding} (h : next ∈ binding.steps scopes) :
    next.subject.bodies ⊆ binding.bodies := by
  obtain ⟨range, name, value⟩ := binding
  rw [steps] at h
  split at h
  · exact absurd h List.not_mem_nil
  · rw [List.mem_singleton.mp h]
    exact List.Subset.refl _

theorem Value.bodies_of_mem_steps {value : Value} (h : next ∈ value.steps structs scopes) :
    next.subject.bodies ⊆ value.bodies := by
  cases value with
  | literal range value => exact absurd h List.not_mem_nil
  | name ident => exact absurd h List.not_mem_nil
  | require range library => exact absurd h List.not_mem_nil
  | branch range condition thenArm elseArm =>
      simp only [steps, List.mem_cons, List.not_mem_nil, or_false] at h
      rcases h with rfl | rfl | rfl <;> simp [Subject.bodies, bodies]
  | cond range clauses otherwise? =>
      rw [bodies_cond, Clause.allBodies_eq]
      rcases List.mem_append.mp h with h | h
      · obtain ⟨clause, hclause, hnext⟩ := List.mem_flatMap.mp h
        exact List.subset_append_of_subset_left _ (List.Subset.trans
          (Clause.bodies_of_mem_steps hnext) (sublist_flatMap_of_mem hclause).subset)
      · obtain ⟨value, hvalue, rfl⟩ := List.mem_map.mp h
        exact List.subset_append_of_subset_right _ (sublist_flatMap_of_mem hvalue).subset
  | lambda range params body =>
      rw [List.mem_singleton.mp h]
      exact List.Subset.refl _
  | locals range definitions body =>
      rw [bodies, Definition.allBodies_eq]
      rcases List.mem_append.mp h with h | h
      · obtain ⟨⟨inner, definition⟩, hstage, rfl⟩ := List.mem_map.mp h
        exact List.subset_append_of_subset_left _
          (sublist_flatMap_of_mem (mem_of_mem_stages hstage)).subset
      · rw [List.mem_singleton.mp h]
        exact List.subset_append_right _ _
  | lets range kind bindings body =>
      rw [bodies, LetBinding.allBodies_eq]
      rcases List.mem_append.mp h with h | h
      · obtain ⟨⟨inner, binding⟩, hstage, hnext⟩ := List.mem_flatMap.mp h
        exact List.subset_append_of_subset_left _ (List.Subset.trans
          (LetBinding.bodies_of_mem_steps hnext)
          (sublist_flatMap_of_mem (mem_of_mem_stages hstage)).subset)
      · rw [List.mem_singleton.mp h]
        exact List.subset_append_right _ _
  | call range callee args =>
      rw [bodies, allBodies_eq]
      rcases List.mem_cons.mp h with rfl | h
      · exact List.subset_append_left _ _
      · split at h
        · obtain ⟨arg, harg, rfl⟩ := List.mem_map.mp h
          exact List.subset_append_of_subset_right _ (sublist_flatMap_of_mem harg).subset
        · exact absurd h List.not_mem_nil

theorem Visit.bodies_of_mem_steps {visit : Visit} (h : next ∈ visit.steps structs) :
    next.subject.bodies ⊆ visit.subject.bodies := by
  obtain ⟨scopes, value | definition⟩ := visit
  · exact Value.bodies_of_mem_steps h
  · cases definition with
    | function range docs name params body =>
        rw [List.mem_singleton.mp h]
        exact List.subset_cons_self _ _
    | constant range docs name value =>
        rw [List.mem_singleton.mp h]
        exact List.Subset.refl _

end

namespace Program

variable {language : Language} {program : Program}

/-- Nothing is visited that is not part of the program. -/
theorem Visits.bodies_subset {silent : Bool} {visit : Visit}
    (h : Visits language program silent visit) (hloud : silent = false) :
    visit.subject.bodies ⊆ bodies program := by
  induction h with
  | check hmem =>
      obtain ⟨⟨scopes, form⟩, hstage, hvisit⟩ := List.mem_flatMap.mp hmem
      refine List.Subset.trans ?_ (sublist_flatMap_of_mem (mem_of_mem_stages hstage)).subset
      cases form with
      | struct form => exact absurd hvisit List.not_mem_nil
      | definition form | value form =>
          rw [List.mem_singleton.mp hvisit]
          exact List.Subset.refl _
  | rehearse | rehearseStep => exact absurd hloud (by decide)
  | step _ hnext ih => exact List.Subset.trans (Visit.bodies_of_mem_steps hnext) (ih hloud)

/-- The result of a function with a name is reported where the function has its body. -/
theorem range_mem_bodies {d : Diagnostic} (h : d ∈ (check language program).diagnostics)
    {function : String} {expected actual : Tag}
    (hproblem : d.problem = .returnMismatch (some function) expected actual) :
    d.range ∈ bodies program := by
  have hnot : ¬d.problem.Plain := hproblem ▸ id
  rcases exists_visit h with hregister | ⟨⟨scopes, subject⟩, hvisit, hd⟩
  · exact absurd (allPlain_register _ _ program d hregister) hnot
  · refine hvisit.bodies_subset rfl ?_
    cases subject with
    | value value =>
        by_cases hname : ∃ ident, value = .name ident
        · obtain ⟨ident, rfl⟩ := hname
          have hkind := scopes.kind_use hd
          rw [hproblem] at hkind
          exact Problem.Kind.noConfusion hkind
        · exact absurd (Value.allPlain_reports _ _ (not_exists.mp hname) d hd) hnot
    | definition definition =>
        rcases definition.mem_reports _ _ hd with hplain | ⟨-, hbody⟩
        · exact absurd hplain hnot
        · obtain ⟨range, docs, name, params, body, rfl, hrange⟩ := hbody
          exact hrange ▸ List.mem_cons_self

/-- One function of a program, wherever it is defined, is spelled as a constant. -/
def SpellsAsLambda (language : Language) (name : Ident) (declared : TypeExpr) (body : Value) :
    Program → Program → Prop :=
  fun program other => Program.Within (fun _ _ _ => False)
    (fun _ definition other => definition.SpellsAsLambda name declared body other)
    (rootNames language program) program other

/-- No function but the one that is spelled otherwise has its body at the same place. -/
theorem SpellsAsLambda.not_mem_bodies {source : String} {program other : Program} {name : Ident}
    {declared : TypeExpr} {body : Value} (hread : programOfSource source = .ok program)
    (h : program.SpellsAsLambda language name declared body other) :
    body.range ∉ bodies other := by
  have hperm : (bodies program).Perm (body.range :: bodies other) := by
    refine h.bodies_perm fun _ definition other hspells => ?_
    cases hspells
    exact .refl _
  exact (List.nodup_cons.mp (hperm.nodup_iff.mp (nodup_bodies hread))).1

/-- A program is checked in the same way if a function with a declared result is spelled as a
constant, only that the name is missing if the body has not that result. In a program that has been
read, it is missing whenever that is reported. -/
theorem check_spellsAsLambda {program other : Program} {name : Ident} {declared : TypeExpr}
    {body : Value} (h : program.SpellsAsLambda language name declared body other) :
    (check language other).globals = (check language program).globals ∧
      AllUnname name.name body.range declared.range (check language program).diagnostics
        (check language other).diagnostics ∧
      ∀ source, programOfSource source = .ok program →
        (check language other).diagnostics.Perm
          ((check language program).diagnostics.map
            (Diagnostic.asLambda name.name body.range)) := by
  obtain ⟨hglobals, hunname⟩ := h.check_alike AllUnname.additive AllUnname.refl
    (fun _ _ _ => False.elim) fun bound _ _ hspells => hspells.alike bound
  refine ⟨hglobals, hunname, fun source hread => ?_⟩
  refine hunname.perm_asLambda fun e he expected actual hproblem hrange => ?_
  exact h.not_mem_bodies hread (hrange ▸ range_mem_bodies he hproblem)

/-! ## A number for a string -/

open Range in
def numberToString : Params :=
  .typed (inLine 12 32) [⟨⟨"x", inLine 12 13⟩, .named ⟨"Number", inLine 16 22⟩⟩]
    (some (.named ⟨"String", inLine 26 32⟩))

open Range in
/-- `(define (f x : Number -> String) x)` -/
def wrongResult : Program :=
  [.definition (.function (inLine 1 36) [] ⟨"f", inLine 10 11⟩ numberToString
    (.name ⟨"x", inLine 34 35⟩))]

open Range in
/-- The function `f` as a constant. -/
def wrongLambda : Program :=
  [.definition (.constant (inLine 1 36) [] ⟨"f", inLine 10 11⟩
    (.lambda (inLine 9 36) numberToString (.name ⟨"x", inLine 34 35⟩)))]

theorem wrongResult_spellsAsLambda :
    wrongResult.SpellsAsLambda .minimal ⟨"f", .inLine 10 11⟩ (.named ⟨"String", .inLine 26 32⟩)
      (.name ⟨"x", .inLine 34 35⟩) wrongLambda :=
  @Within.form _ _ _ [] _ _ _ (.definition (.part .intro))

theorem check_spellsAsLambda_wrongResult :
    programOfSource "(define (f x : Number -> String) x)" = .ok wrongResult ∧
      wrongResult.SpellsAsLambda .minimal ⟨"f", .inLine 10 11⟩
        (.named ⟨"String", .inLine 26 32⟩) (.name ⟨"x", .inLine 34 35⟩) wrongLambda ∧
      (check .minimal wrongLambda).globals = (check .minimal wrongResult).globals ∧
      AllUnname "f" (.inLine 34 35) (.inLine 26 32) (check .minimal wrongResult).diagnostics
        (check .minimal wrongLambda).diagnostics ∧
      (check .minimal wrongLambda).diagnostics.Perm
        ((check .minimal wrongResult).diagnostics.map
          (Diagnostic.asLambda "f" (.inLine 34 35))) := by
  have hread : programOfSource "(define (f x : Number -> String) x)" = .ok wrongResult := rfl
  obtain ⟨hglobals, hunname, hperm⟩ := check_spellsAsLambda wrongResult_spellsAsLambda
  exact ⟨hread, wrongResult_spellsAsLambda, hglobals, hunname, hperm _ hread⟩

example :
    (check .minimal wrongResult).diagnostics.map Diagnostic.text =
        ["1:34..1:35: function f expects return type string, but got number instead"] ∧
      (check .minimal wrongLambda).diagnostics.map Diagnostic.text =
        ["1:34..1:35: lambda expects return type string, but got number instead"] := by
  decide +kernel

end Program

end TypedIsl

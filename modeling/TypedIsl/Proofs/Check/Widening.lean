import TypedIsl.Language.Minimal
import TypedIsl.Proofs.Check.Accounting
import TypedIsl.Proofs.Check.FinalTypes
import TypedIsl.Proofs.Check.Simulation
import TypedIsl.Proofs.Ty.Widening
import TypedIsl.Source.Parse

/-!
# Languages with wider builtins

If builtins accept more, a program has no more diagnostics: those that judge arguments may go, and
all others stay as they are. The builtins need not be called directly. Their types are passed on by
constants, joined by conditionals and returned by functions, and stay related on all these ways.
-/

namespace TypedIsl

/-- The languages have the same builtins, some of which have wider parameters in the second one. -/
def Language.Widens (language wider : Language) : Prop :=
  ∀ name, Option.Rel Ty.Widens (language.get? name) (wider.get? name)

/-- The second diagnostics are the first ones without some that judge arguments. -/
inductive Spares : List Diagnostic → List Diagnostic → Prop
  | nil : Spares [] []
  | kept (d : Diagnostic) {ds es : List Diagnostic} (h : Spares ds es) : Spares (d :: ds) (d :: es)
  | spared {d : Diagnostic} (hkind : d.problem.kind = .argumentMismatch) {ds es : List Diagnostic}
      (h : Spares ds es) : Spares (d :: ds) es

namespace Spares

variable {ds es more others : List Diagnostic}

theorem refl (ds : List Diagnostic) : Spares ds ds := by
  induction ds with
  | nil => exact .nil
  | cons d ds ih => exact .kept d ih

theorem append (h : Spares ds es) (hmore : Spares more others) :
    Spares (ds ++ more) (es ++ others) := by
  induction h with
  | nil => exact hmore
  | kept d h ih => exact .kept d ih
  | spared hkind h ih => exact .spared hkind ih

theorem additive : Additive Spares :=
  ⟨.nil, append⟩

end Spares

/-! ## Conditions, results and calls -/

section

variable {t u : Ty}

theorem judgeCondition_widens (h : Ty.Widens t u) (form : String) (range : Range) :
    judgeCondition form range u = judgeCondition form range t := by
  rw [judgeCondition, judgeCondition, h.canBe_eq, h.tag_eq]

theorem judgeResult_widens (h : Ty.Widens t u) (function? : Option String) (body declared : Range)
    (expected : Ty) :
    judgeResult function? body declared expected u =
      judgeResult function? body declared expected t := by
  rw [judgeResult, judgeResult, h.canBe_eq, h.tag_eq]

/-- An argument is judged as before, or not at all. -/
theorem ensure_widens (h : Ty.Widens t u) {expected wide : Ty}
    (hwide : wide = expected ∨ wide = .any) (range : Range) (callee : Callee) (position : Nat) :
    (Judged.ensure (t.canBe expected) range
      (.argumentMismatch callee position expected.tag t.tag)).Match Spares Eq
      (Judged.ensure (u.canBe wide) range
        (.argumentMismatch callee position wide.tag u.tag)) := by
  rcases hwide with rfl | rfl
  · rw [h.canBe_eq, h.tag_eq]
    exact .refl Spares.refl _
  · have hany : u.canBe .any = true := rfl
    rw [hany, Judged.ensure, Judged.ensure, if_pos rfl]
    split
    · exact .refl Spares.refl _
    · exact ⟨rfl, .spared rfl .nil⟩

theorem any_isMany_widens {params others : List Param}
    (h : List.Forall₂ Param.Widens params others) :
    others.any Param.isMany = params.any Param.isMany := by
  induction h with
  | nil => rfl
  | cons hparam _ ih => rw [List.any_cons, List.any_cons, hparam.1, ih]

theorem judgeCall_widens {params others : List Param} {result other : Ty} {actuals args : List Ty}
    (hparams : List.Forall₂ Param.Widens params others) (hresult : Ty.Widens result other)
    (hargs : List.Forall₂ Ty.Widens actuals args) (range : Range) (callee : Callee)
    (ranges : List Range) :
    (judgeCall range callee params result (ranges.zip actuals)).Match Spares Ty.Widens
      (judgeCall range callee others other (ranges.zip args)) := by
  refine judgeCall_related Spares.additive
    (fun hactual hwide range => ensure_widens hactual hwide range callee) hparams hresult (.same _)
    hargs fun count => ?_
  rw [any_isMany_widens hparams, ← hparams.length_eq]
  exact .refl Spares.refl _

theorem callAs_widens (h : Ty.Widens t u) {structs : List String} {scopes others : Scopes}
    (range : Range) (callee : Value) {args : List Value}
    (hargs : (Value.checkAll structs scopes args).Match Spares (List.Forall₂ Ty.Widens)
      (Value.checkAll structs others args)) :
    (Value.callAs structs scopes range callee args t).Match Spares Ty.Widens
      (Value.callAs structs others range callee args u) := by
  have hR := Spares.additive
  have hfunction : ∀ {params wider : List Param} {result other : Ty},
      List.Forall₂ Param.Widens params wider → Ty.Widens result other →
      (Value.callAs structs scopes range callee args (.function params result)).Match Spares
        Ty.Widens (Value.callAs structs others range callee args (.function wider other)) := by
    intro params wider result other hparams hresult
    refine .bind hR hargs fun _ _ htypes => ?_
    exact judgeCall_widens hparams hresult htypes range callee.asCallee _
  -- A type that stays the same may be that of a function, too, the arguments of which differ.
  cases h with
  | function hparams hresult => exact hfunction hparams hresult
  | union => exact .after hR Spares.refl _ (.pure hR (.same _))
  | same =>
      cases t with
      | flexible => exact .pure hR (.same _)
      | function params result => exact hfunction (Ty.widens_refl params) (.same result)
      | _ => exact .after hR Spares.refl _ (.pure hR (.same _))

theorem simulation_widens : Simulation Spares Ty.Widens where
  additive := Spares.additive
  refl := Spares.refl
  same := .same
  function params h := .function (Ty.widens_refl params) h
  collapse := .collapse
  unionOf := .unionOf
  condition form range h := by
    rw [judgeCondition_widens h]
    exact .refl Spares.refl _
  result function? body declared expected h := by
    rw [judgeResult_widens h]
    exact .refl Spares.refl _
  call range callee _ h hargs := callAs_widens h range callee hargs

end

/-! ## Languages -/

section

variable {language wider : Language}

/-- Builtins may become wider one by one. -/
theorem Language.widens_of_entries
    (h : List.Forall₂ (fun entry other => other.1 = entry.1 ∧ Ty.Widens entry.2 other.2)
      language.entries wider.entries) : language.Widens wider := by
  intro name
  rw [Table.get?, Table.get?]
  generalize language.entries = entries at h ⊢
  generalize wider.entries = others at h ⊢
  induction h with
  | nil => exact .none
  | @cons entry other _ _ hentry _ ih =>
      obtain ⟨hname, htype⟩ := hentry
      rw [Table.findEntry?, Table.findEntry?, hname]
      split
      · exact .some htype
      · exact ih

theorem Language.Widens.root (h : language.Widens wider) :
    (Scopes.root language.scope).Related Ty.Widens (.root wider.scope) := by
  constructor
  · intro name
    have hname := h name
    rw [Scopes.local?, Scopes.local?, Scopes.root, Scopes.root, get?_scope, get?_scope]
    generalize language.get? name = found at hname ⊢
    generalize wider.get? name = other at hname ⊢
    cases hname with
    | none => exact .none
    | some htype => exact .some ⟨rfl, htype⟩
  · intro name
    rw [Scopes.type?_builtins, Scopes.type?_builtins]
    exact h name

/-- Wider builtins spare a program diagnostics that judge arguments, and change no others. -/
theorem Program.check_widens (h : language.Widens wider) (program : Program) :
    Spares (check language program).diagnostics (check wider program).diagnostics :=
  diagnostics_related simulation_widens h.root program

end

/-- The minimal language, except that values of all types may be appended. -/
def Language.appending : Language := ⟨
  [("+", .function [.many .number] .number),
   ("string->number", .function [.fixed .string] .number),
   ("string-append", .function [.many .any] .string)]⟩

theorem Language.widens_appending : minimal.Widens appending := by
  have hjoins : Ty.Widens (.function [.many .string] .string) (.function [.many .any] .string) :=
    .function (.cons ⟨rfl, .inr rfl⟩ .nil) (.same _)
  exact widens_of_entries (.cons ⟨rfl, .same _⟩ (.cons ⟨rfl, .same _⟩ (.cons ⟨rfl, hjoins⟩ .nil)))

/-- Appending is passed on by a conditional and a constant before it is called. -/
theorem Program.check_widens_appending :
    Language.minimal.Widens .appending ∧
      ∃ program, programOfSource
          "(define join (if #true string-append +)) (join 1 (+ \"b\"))" = .ok program ∧
        Spares (check .minimal program).diagnostics (check .appending program).diagnostics ∧
        (check .minimal program).diagnostics.length = 3 ∧
        (check .appending program).diagnostics.length = 1 := by
  have h : programOfSource
      "(define join (if #true string-append +)) (join 1 (+ \"b\"))" = .ok _ := rfl
  exact ⟨Language.widens_appending, _, h, check_widens Language.widens_appending _,
    by decide +kernel, by decide +kernel⟩

end TypedIsl

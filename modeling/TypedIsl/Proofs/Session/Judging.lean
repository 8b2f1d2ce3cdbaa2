import TypedIsl.Proofs.Check.Matching
import TypedIsl.Proofs.Session.Types

/-!
# Respelled judgements

What is judged about types, scopes and annotations with mapped names are the judgements about the
names, mapped. Scopes are searched by name, so different names have to be mapped to different ones.
-/

namespace TypedIsl

/-- One type is the other one, respelled. -/
abbrev Ty.Respells (f : String → Option String) (type spelled : Ty) : Prop :=
  type.respell? f = some spelled

/-- Diagnostics are those of the other list, respelled. -/
abbrev Respelled (f : String → Option String) : List Diagnostic → List Diagnostic → Prop :=
  Elementwise (Diagnostic.respell? f)

theorem additive_respelled (f : String → Option String) : Additive (Respelled f) :=
  ⟨.nil, fun h hmore => List.rel_append h hmore⟩

section

variable {f : String → Option String}

theorem report_respells {problem other : Problem} (h : problem.respell? f = some other)
    (range : Range) (notes : List Note) :
    (Judged.report ⟨problem, range, notes⟩).Match (Respelled f) Eq
      (Judged.report ⟨other, range, notes⟩) :=
  .report (.cons (by simp [Diagnostic.respell?, h]) .nil)

theorem ensure_respells {holds also : Bool} (hholds : also = holds) {problem other : Problem}
    (h : problem.respell? f = some other) (range : Range) :
    (Judged.ensure holds range problem).Match (Respelled f) Eq
      (Judged.ensure also range other) := by
  obtain rfl := hholds
  cases also with
  | true => exact .pure (additive_respelled f) rfl
  | false => exact report_respells h range []

/-! ## Conditions, results and arguments -/

variable {actual other : Ty}

theorem judgeCondition_respells (h : actual.Respells f other) (form : String) (range : Range) :
    (judgeCondition form range actual).Match (Respelled f) Eq
      (judgeCondition form range other) :=
  ensure_respells (Ty.canBe_respells h rfl) (by rw [Problem.respell?, Ty.tag_of_respell? h]) range

theorem judgeResult_respells {function? called? : Option String}
    (hfunction : Option.Rel (fun name spelled => f name = some spelled) function? called?)
    {expected declared : Ty} (hexpected : expected.Respells f declared)
    (h : actual.Respells f other) (body range : Range) :
    (judgeResult function? body range expected actual).Match (Respelled f) Eq
      (judgeResult called? body range declared other) := by
  unfold judgeResult
  rw [Ty.canBe_respells h hexpected, Ty.tag_of_respell? h, Ty.tag_of_respell? hexpected]
  split
  · exact .pure (additive_respelled f) rfl
  · refine report_respells ?_ _ _
    cases hfunction with
    | none => rfl
    | some hname => simp [Problem.respell?, hname]

theorem judgeArgs_respells {callee called : Callee} (hcallee : callee.respell? f = some called)
    (position : Nat) (ranges : List Range) {actuals others expected declared : List Ty}
    (h : List.Forall₂ (Ty.Respells f) actuals others)
    (hexpected : List.Forall₂ (Ty.Respells f) expected declared) :
    (judgeArgs callee position (ranges.zip actuals) expected).Match (Respelled f) Eq
      (judgeArgs called position (ranges.zip others) declared) := by
  have hR := additive_respelled f
  induction ranges generalizing position actuals others expected declared with
  | nil => exact .pure hR rfl
  | cons range ranges ih =>
      cases h with
      | nil => exact .pure hR rfl
      | cons hactual hactuals =>
          cases hexpected with
          | nil => exact .pure hR rfl
          | cons htype htypes =>
              rw [List.zip_cons_cons, List.zip_cons_cons, judgeArgs, judgeArgs]
              refine .step hR ?_ fun _ => ih (position + 1) hactuals htypes
              refine ensure_respells (Ty.canBe_respells hactual htype) ?_ range
              rw [Ty.tag_of_respell? hactual, Ty.tag_of_respell? htype]
              simp [Problem.respell?, hcallee]

theorem Param.respell?_cases {param spelled : Param} (h : param.respell? f = some spelled) :
    (∃ type other, param = .fixed type ∧ spelled = .fixed other ∧ type.Respells f other) ∨
      ∃ type other, param = .many type ∧ spelled = .many other ∧ type.Respells f other := by
  cases param with
  | fixed type =>
      obtain ⟨other, htype, hspelled⟩ := Option.bind_eq_some_iff.mp h
      exact .inl ⟨type, other, rfl, (Option.some.inj hspelled).symm, htype⟩
  | many type =>
      obtain ⟨other, htype, hspelled⟩ := Option.bind_eq_some_iff.mp h
      exact .inr ⟨type, other, rfl, (Option.some.inj hspelled).symm, htype⟩

theorem Param.type_respells {param spelled : Param} (h : param.respell? f = some spelled) :
    param.type.Respells f spelled.type := by
  obtain ⟨type, other, rfl, rfl, htype⟩ | ⟨type, other, rfl, rfl, htype⟩ := respell?_cases h <;>
    exact htype

theorem Param.isMany_respells {param spelled : Param} (h : param.respell? f = some spelled) :
    spelled.isMany = param.isMany := by
  obtain ⟨type, other, rfl, rfl, -⟩ | ⟨type, other, rfl, rfl, -⟩ := respell?_cases h <;> rfl

theorem any_isMany_respells {params others : List Param}
    (h : Elementwise (Param.respell? f) params others) :
    others.any Param.isMany = params.any Param.isMany := by
  induction h with
  | nil => rfl
  | cons hhead _ ih => rw [List.any_cons, List.any_cons, Param.isMany_respells hhead, ih]

theorem spread_respells {params others : List Param}
    (h : Elementwise (Param.respell? f) params others) (extra : Nat) :
    List.Forall₂ (Ty.Respells f) (spread extra params) (spread extra others) := by
  induction h with
  | nil => exact .nil
  | cons hparam hparams ih =>
      obtain ⟨type, other, rfl, rfl, htype⟩ | ⟨type, other, rfl, rfl, htype⟩ :=
        Param.respell?_cases hparam
      · exact .cons htype ih
      · refine List.rel_append ?_ ?_
        · generalize extra + 1 = times
          induction times with
          | zero => exact .nil
          | succ times ihTimes => exact .cons htype ihTimes
        · rw [List.forall₂_map_left_iff, List.forall₂_map_right_iff]
          exact hparams.imp fun _ _ h => Param.type_respells h

theorem expectedTypes?_respells {params others : List Param}
    (h : Elementwise (Param.respell? f) params others) (count : Nat) :
    Option.Rel (List.Forall₂ (Ty.Respells f)) (expectedTypes? params count)
      (expectedTypes? others count) := by
  have hspread := spread_respells h (count - params.length)
  dsimp only [expectedTypes?]
  rw [← h.length_eq, ← hspread.length_eq]
  split
  · exact .some hspread
  · exact .none

theorem judgeCall_respells {callee called : Callee} (hcallee : callee.respell? f = some called)
    {params others : List Param} (hparams : Elementwise (Param.respell? f) params others)
    {result declared : Ty} (hresult : result.Respells f declared) {actuals args : List Ty}
    (hargs : List.Forall₂ (Ty.Respells f) actuals args) (range : Range) (ranges : List Range) :
    (judgeCall range callee params result (ranges.zip actuals)).Match (Respelled f)
      (Ty.Respells f) (judgeCall range called others declared (ranges.zip args)) := by
  have hR := additive_respelled f
  have hlength : (ranges.zip args).length = (ranges.zip actuals).length := by
    rw [List.length_zip, List.length_zip, hargs.length_eq]
  have hexpected := expectedTypes?_respells hparams (ranges.zip actuals).length
  rw [judgeCall, judgeCall, hlength, any_isMany_respells hparams, ← hparams.length_eq]
  generalize expectedTypes? params (ranges.zip actuals).length = expected at hexpected ⊢
  generalize expectedTypes? others (ranges.zip actuals).length = wider at hexpected ⊢
  cases hexpected with
  | some htypes =>
      exact .step hR (judgeArgs_respells hcallee 1 ranges hargs htypes) fun _ => .pure hR hresult
  | none =>
      refine .step hR (report_respells ?_ range []) fun _ => .pure hR rfl
      simp [Problem.respell?, hcallee]

end

/-! ## Scopes -/

/-- The binding at the same place of the type with mapped names. -/
def Binding.Respells (f : String → Option String) (binding other : Binding) : Prop :=
  binding.type.Respells f other.type ∧ other.definedAt? = binding.definedAt?

/-- The same entries in the same order, with mapped names. -/
def Scope.Respells (f : String → Option String) (scope other : Scope) : Prop :=
  List.Forall₂ (fun entry entry' => f entry.1 = some entry'.1 ∧ entry.2.Respells f entry'.2)
    scope.entries other.entries

/-- Different names are mapped to different ones. -/
def Faithful (f : String → Option String) : Prop :=
  ∀ {name other spelled : String}, f name = some spelled → f other = some spelled → name = other

theorem Faithful.eq_iff {f : String → Option String} (hf : Faithful f)
    {name other spelled looked : String} (h : f name = some spelled)
    (hother : f other = some looked) : spelled = looked ↔ name = other := by
  constructor
  · rintro rfl
    exact hf h hother
  · rintro rfl
    exact Option.some.inj (h.symm.trans hother)

section

variable {f : String → Option String} {scope other : Scope} {name spelled : String}

theorem Scope.Respells.get? (hf : Faithful f) (h : Scope.Respells f scope other)
    (hname : f name = some spelled) :
    Option.Rel (Binding.Respells f) (scope.get? name) (other.get? spelled) := by
  unfold Scope.Respells at h
  unfold Table.get?
  generalize scope.entries = entries, other.entries = entries' at h ⊢
  induction h with
  | nil => exact .none
  | cons hentry _ ih =>
      simp only [Table.findEntry?, hf.eq_iff hentry.1 hname]
      split
      · exact .some hentry.2
      · exact ih

theorem Scope.Respells.put (hf : Faithful f) (h : Scope.Respells f scope other)
    (hname : f name = some spelled) {binding binding' : Binding}
    (hbinding : binding.Respells f binding') :
    Scope.Respells f (scope.put name binding) (other.put spelled binding') := by
  unfold Scope.Respells at h ⊢
  unfold Table.put
  generalize scope.entries = entries, other.entries = entries' at h ⊢
  induction h with
  | nil => exact .cons ⟨hname, hbinding⟩ .nil
  | cons hentry htail ih =>
      simp only [Table.putEntry, hf.eq_iff hentry.1 hname]
      split
      · exact .cons ⟨hentry.1, hbinding⟩ htail
      · exact .cons hentry ih

end

namespace Scopes

/-- The same scopes around each other, with mapped names. -/
structure Respells (f : String → Option String) (scopes others : Scopes) : Prop where
  current : Scope.Respells f scopes.current others.current
  outer : List.Forall₂ (Scope.Respells f) scopes.outer others.outer

section

variable {f : String → Option String} {scopes others : Scopes}

theorem Respells.enter (h : scopes.Respells f others) : scopes.enter.Respells f others.enter :=
  ⟨.nil, .cons h.current h.outer⟩

theorem Respells.get? (hf : Faithful f) (h : scopes.Respells f others) {name spelled : String}
    (hname : f name = some spelled) :
    Option.Rel (Binding.Respells f) (scopes.get? name) (others.get? spelled) := by
  have hscopes : List.Forall₂ (Scope.Respells f) (scopes.current :: scopes.outer)
      (others.current :: others.outer) := .cons h.current h.outer
  unfold Scopes.get?
  generalize scopes.current :: scopes.outer = list,
    others.current :: others.outer = list' at hscopes ⊢
  induction hscopes with
  | nil => exact .none
  | cons hscope _ ih =>
      have hfound := hscope.get? hf hname
      rw [List.findSome?_cons, List.findSome?_cons]
      rcases rel_cases hfound with ⟨hnone, hnone'⟩ | ⟨binding, other, hsome, hsome', hbinding⟩
      · rw [hnone, hnone']
        exact ih
      · rw [hsome, hsome']
        exact .some hbinding

variable (hf : Faithful f) (h : scopes.Respells f others) {name spelled : Ident}
  (hname : name.respell? f = some spelled) {type other : Ty}

include h

section

include hf hname

theorem Respells.bind (htype : type.Respells f other) :
    (scopes.bind name type).Respells f (others.bind spelled other) := by
  obtain ⟨hspelled, hrange⟩ := Ident.respell?_eq_some_iff.mp hname
  exact ⟨h.current.put hf hspelled ⟨htype, congrArg some hrange⟩, h.outer⟩

theorem Respells.conflict? {problem problem' : Problem}
    (hproblem : problem.respell? f = some problem') :
    Option.Rel (fun d e => Diagnostic.respell? f d = some e) (scopes.conflict? name problem)
      (others.conflict? spelled problem') := by
  obtain ⟨hspelled, hrange⟩ := Ident.respell?_eq_some_iff.mp hname
  refine rel_map (h.current.get? hf hspelled) fun {binding other} hbinding => ?_
  rw [hrange, hbinding.2]
  simp [Diagnostic.respell?, hproblem]

theorem Respells.bindNew (htype : type.Respells f other) {problem problem' : Problem}
    (hproblem : problem.respell? f = some problem') :
    (scopes.bindNew name type problem).Match (Respelled f) (Respells f)
      (others.bindNew spelled other problem') := by
  have hR := additive_respelled f
  unfold Scopes.bindNew
  rcases rel_cases (h.conflict? hf hname hproblem) with
    ⟨hnone, hnone'⟩ | ⟨d, e, hsome, hsome', hd⟩
  · rw [hnone, hnone']
    exact .pure hR (h.bind hf hname htype)
  · rw [hsome, hsome']
    exact .step hR (.report (.cons hd .nil)) fun _ => .pure hR h

theorem Respells.bindParam (htype : type.Respells f other) :
    (scopes.bindParam name type).Match (Respelled f) (Respells f)
      (others.bindParam spelled other) := by
  have hspelled := (Ident.respell?_eq_some_iff.mp hname).1
  exact h.bindNew hf hname htype (by simp [Problem.respell?, hspelled])

theorem Respells.finalize (htype : type.Respells f other) :
    (scopes.finalize name type).Respells f (others.finalize spelled other) := by
  obtain ⟨hspelled, hrange⟩ := Ident.respell?_eq_some_iff.mp hname
  have hlocal : Option.Rel (Binding.Respells f) (scopes.local? name.name)
      (others.local? spelled.name) := h.current.get? hf hspelled
  have hcond : (others.local? spelled.name).any
        (fun binding => binding.definedAt? = some spelled.range) =
      (scopes.local? name.name).any fun binding => binding.definedAt? = some name.range := by
    rcases rel_cases hlocal with ⟨hnone, hnone'⟩ | ⟨binding, other, hsome, hsome', hbinding⟩
    · rw [hnone, hnone']
      rfl
    · rw [hsome, hsome', Option.any_some, Option.any_some, hbinding.2, hrange]
  unfold Scopes.finalize
  rw [hcond]
  split
  · exact h.bind hf hname htype
  · exact h

theorem Respells.use :
    (scopes.use name).Match (Respelled f) (Ty.Respells f) (others.use spelled) := by
  have hR := additive_respelled f
  obtain ⟨hspelled, hrange⟩ := Ident.respell?_eq_some_iff.mp hname
  unfold Scopes.use
  rcases rel_cases (h.get? hf hspelled) with
    ⟨hnone, hnone'⟩ | ⟨binding, other, hsome, hsome', hbinding⟩
  · rw [hnone, hnone', hrange]
    have hproblem : (Problem.undefined name.name).respell? f = some (.undefined spelled.name) := by
      simp [Problem.respell?, hspelled]
    exact .step hR (report_respells hproblem _ _) fun _ => .pure hR rfl
  · rw [hsome, hsome']
    exact .pure hR hbinding.1

end

theorem Respells.bindParams (hf : Faithful f) {params spelled : List (Ident × Ty)}
    (hparams : List.Forall₂ (fun param other => Ident.respell? f param.1 = some other.1 ∧
      param.2.Respells f other.2) params spelled) :
    (scopes.bindParams params).Match (Respelled f) (Respells f) (others.bindParams spelled) := by
  have hR := additive_respelled f
  induction hparams generalizing scopes others with
  | nil => exact .pure hR h
  | cons hparam _ ih =>
      refine .bind hR (h.bindParam hf hparam.1 hparam.2) fun inner other hinner => ?_
      exact ih hinner

end

end Scopes

end TypedIsl

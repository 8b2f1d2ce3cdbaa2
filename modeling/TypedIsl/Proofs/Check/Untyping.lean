import TypedIsl.Language.Minimal
import TypedIsl.Proofs.Check.LooseParts
import TypedIsl.Proofs.Check.Settled
import TypedIsl.Proofs.Syntax.LocalParts

/-!
# Removing annotations

A function whose parameters lose their types accepts anything and results in `any`. Its calls stay
right, and so does its body, in which nothing is known about the parameters. But a result of type
`any` passes only where `any` is expected, so the callers may be blamed for it.
-/

namespace TypedIsl

/-! ## Declared types -/

/-- Neither a function nor a union nor unknown. -/
def Ty.Plain (t : Ty) : Prop :=
  t.tag ≠ .function ∧ t.tag ≠ .union ∧ t.tag ≠ .flexible

theorem plain_of_namedType? {structs : List String} {name : String} {type : Ty}
    (h : namedType? structs name = some type) : type.Plain := by
  unfold namedType? at h
  repeat' split at h
  all_goals first | (obtain rfl := Option.some.inj h; simp [Ty.Plain, Ty.tag]) | simp at h

theorem TypeExpr.plain_resolve (structs : List String) (type : TypeExpr) :
    (type.resolve structs).result.Plain := by
  have hany : Ty.any.Plain := by simp [Ty.Plain, Ty.tag]
  have hlist : ∀ element : Ty, (Ty.list element).Plain := by simp [Ty.Plain, Ty.tag]
  cases type with
  | named name =>
      rw [TypeExpr.resolve]
      split
      · rename_i type htype
        exact plain_of_namedType? htype
      · exact hany
  | apply range function args =>
      unfold TypeExpr.resolve
      split
      · exact hany
      · split
        · cases args <;> exact hlist _
        · exact hany

theorem plain_resolveParams (structs : List String) (params : List TypedParam) :
    ∀ type ∈ (resolveParams structs params).result, type.Plain := by
  induction params with
  | nil => exact fun _ htype => absurd htype List.not_mem_nil
  | cons param params ih => exact List.forall_mem_cons.mpr ⟨param.type.plain_resolve structs, ih⟩

/-- The result type that is declared, `any` if none is. -/
def declaredResult (structs : List String) : Option TypeExpr → Ty
  | some declared => (declared.resolve structs).result
  | none => .any

theorem plain_declaredResult (structs : List String) (result? : Option TypeExpr) :
    (declaredResult structs result?).Plain := by
  cases result? with
  | none => simp [Ty.Plain, Ty.tag, declaredResult]
  | some declared => exact declared.plain_resolve structs

/-- Types may become `any` if the result was declared to have another one. -/
def Slack.untyping (declared : Ty) : Slack := ⟨declared ≠ .any, True⟩

section

variable {declared t : Ty}

theorem Ty.Plain.not_fitsAll (h : t.Plain) : ¬t.FitsAll := by
  obtain ⟨-, hunion, hflexible⟩ := h
  intro hfits
  have hnumber := (fits_of_leaf hunion).mp (hfits .number (by decide))
  have hstring := (fits_of_leaf hunion).mp (hfits .string (by decide))
  have heq := (hnumber.resolve_left hflexible).symm.trans (hstring.resolve_left hflexible)
  exact absurd heq (by decide)

theorem Ty.Plain.loosens_any (h : declared.Plain) :
    Ty.Loosens (.untyping declared) declared .any := by
  by_cases hany : declared = .any
  · rw [hany]
    exact .same .any
  · refine .dynamic hany ?_ h.not_fitsAll
    rw [Ty.collapse_of_leaf h.2.1]
    exact h.1

theorem Ty.Plain.loosens_flexible (h : t.Plain) : Ty.Loosens (.untyping declared) t .flexible := by
  refine .looser (by decide) (fun _ => ?_) (fun _ => rfl) fun _ _ _ => rfl
  rw [Ty.collapse_of_leaf h.2.1]
  exact h.1

/-- The type of an untyped function loosens that of the typed one. -/
theorem Params.declaredType_untyped (structs : List String) (params : List TypedParam)
    (result? : Option TypeExpr) (range untypedRange : Range) :
    Ty.Loosens (.untyping (declaredResult structs result?))
      ((Params.typed range params result?).declaredType structs)
      ((Params.untyped untypedRange (params.map (·.name))).declaredType structs) := by
  have hparams : List.Forall₂ Param.Widens
      ((resolveParams structs params).result.map .fixed)
      ((params.map (·.name)).map fun _ => .fixed .any) := by
    induction params with
    | nil => exact .nil
    | cons param params ih => exact .cons ⟨rfl, .inr rfl⟩ ih
  have hresult := (plain_declaredResult structs result?).loosens_any
  cases result? with
  | none => exact .function hparams hresult
  | some declared => exact .function hparams hresult

end

/-! ## The definition itself -/

/-- The second function is the first one with an untyped list of the same parameters. -/
inductive Definition.Untypes (name : Ident) (result? : Option TypeExpr) :
    Definition → Definition → Prop
  | intro {range docs typedRange params untypedRange body} :
      Definition.Untypes name result?
        (.function range docs name (.typed typedRange params result?) body)
        (.function range docs name (.untyped untypedRange (params.map (·.name))) body)

/-- The function is not type-checked. -/
def NotTypeChecked (name : Ident) (d : Diagnostic) : Prop :=
  d = ⟨.notTypeChecked name.name, name.range, []⟩

section

variable {slack : Slack} {own : Diagnostic → Prop} {α β : Type}

/-- What is found in a step of the first run only need not be found again. -/
theorem Judged.Match.dropping {r : α → β → Prop} {γ : Type} {x : Judged γ} {f : γ → Judged α}
    {y : Judged β} (h : (f x.result).Match (Accounted slack own) r y) :
    (x >>= f).Match (Accounted slack own) r y := by
  refine ⟨h.result, fun e he => (h.diagnostics e he).imp_right ?_⟩
  rintro ⟨d, hd, hsame⟩
  exact ⟨d, List.mem_append_right _ hd, hsame⟩

theorem Judged.Match.reporting {r : α → β → Prop} {x : Judged α} {d : Diagnostic} {y : Judged β}
    (hd : own d) (h : x.Match (Accounted slack own) r y) :
    x.Match (Accounted slack own) r (Judged.report d >>= fun _ => y) := by
  refine ⟨h.result, fun e he => ?_⟩
  rcases List.mem_cons.mp he with rfl | he
  · exact .inl (.inl hd)
  · exact h.diagnostics e he

end

section

variable {structs : List String} {name : Ident} {result? : Option TypeExpr}
variable {range typedRange : Range} {docs : List String} {params : List TypedParam}
variable {body : Value} {scopes others : Scopes}

/-- Nothing is known about the parameters any more. -/
theorem bindParams_untyped
    (h : scopes.Loosens (.untyping (declaredResult structs result?)) others)
    (own : Diagnostic → Prop) (params : List TypedParam) :
    (scopes.enter.bindParams
        ((params.map (·.name)).zip (resolveParams structs params).result)).Match
      (Accounted (.untyping (declaredResult structs result?)) own)
      (Scopes.Loosens (.untyping (declaredResult structs result?)))
      (others.enter.bindParams ((params.map (·.name)).map fun name => (name, .flexible))) := by
  have htypes : List.Forall₂ (Ty.Loosens (.untyping (declaredResult structs result?)))
      (resolveParams structs params).result ((params.map (·.name)).map fun _ => .flexible) := by
    have hplain := plain_resolveParams structs params
    induction params with
    | nil => exact .nil
    | cons param params ih =>
        obtain ⟨hparam, hparams⟩ := List.forall_mem_cons.mp hplain
        exact .cons hparam.loosens_flexible (ih hparams)
  rw [List.map_prod_left_eq_zip]
  exact h.enter.bindParams own _ htypes

theorem Definition.register_untyped
    (h : scopes.Loosens (.untyping (declaredResult structs result?)) others)
    (own : Diagnostic → Prop) (untypedRange : Range) :
    ((Definition.function range docs name (.typed typedRange params result?) body).register structs
        scopes).Match
      (Accounted (.untyping (declaredResult structs result?)) own)
      (Scopes.Loosens (.untyping (declaredResult structs result?)))
      ((Definition.function range docs name (.untyped untypedRange (params.map (·.name)))
        body).register structs others) :=
  h.bindNew name (Params.declaredType_untyped structs params result? _ _) _

/-- The function is reported, and besides that hardly more is found than before. -/
theorem Definition.check_untyped
    (h : scopes.Loosens (.untyping (declaredResult structs result?)) others)
    (hsettled : scopes.Settled name
      ((Params.typed typedRange params result?).declaredType structs)) (untypedRange : Range) :
    ((Definition.function range docs name (.typed typedRange params result?) body).check structs
        scopes).Match
      (Accounted (.untyping (declaredResult structs result?)) (NotTypeChecked name))
      (Scopes.Loosens (.untyping (declaredResult structs result?)))
      ((Definition.function range docs name (.untyped untypedRange (params.map (·.name)))
        body).check structs others) := by
  have hR := additive_accounted (.untyping (declaredResult structs result?)) (NotTypeChecked name)
  have hparams := bindParams_untyped h (NotTypeChecked name) params
  rw [Definition.check]
  refine .reporting rfl ?_
  cases result? with
  | none =>
      rw [Definition.check]
      refine .dropping (.bind hR hparams fun inner other hinner => ?_)
      refine .bind hR (Value.check_loosens hinner body) fun _ _ _ => ?_
      exact .dropping (.pure hR h)
  | some declared =>
      rw [Definition.check]
      refine .dropping (.dropping (.bind hR hparams fun inner other hinner => ?_))
      refine .bind hR (Value.check_loosens hinner body) fun _ _ _ => .dropping (.pure hR ?_)
      have hfinal : scopes.finalize name
          (.function ((resolveParams structs params).result.map .fixed)
            (declared.resolve structs).result) = scopes := hsettled.finalize_self
      rwa [hfinal]

end

section

variable {structs : List String} {result? : Option TypeExpr} {scopes others : Scopes}
variable (name : Ident) (range typedRange untypedRange : Range) (docs : List String)
variable (params : List TypedParam) (body : Value)

theorem Definition.registerAll_untyped
    (h : scopes.Loosens (.untyping (declaredResult structs result?)) others)
    (before after : List Definition) :
    (Definition.registerAll structs scopes
        (before ++ .function range docs name (.typed typedRange params result?) body ::
          after)).Match
      (Accounted (.untyping (declaredResult structs result?)) (NotTypeChecked name))
      (Scopes.Loosens (.untyping (declaredResult structs result?)))
      (Definition.registerAll structs others
        (before ++ .function range docs name (.untyped untypedRange (params.map (·.name))) body ::
          after)) := by
  have hR := additive_accounted (.untyping (declaredResult structs result?)) (NotTypeChecked name)
  rw [Definition.registerAll_append, Definition.registerAll_append]
  refine .bind hR (Definition.registerAll_self h before) fun _ _ hinner => ?_
  refine .bind hR (Definition.register_untyped hinner _ untypedRange) fun _ _ hnext => ?_
  exact Definition.registerAll_self hnext after

/-- The definitions of a form in which the function is named at one place only. -/
theorem Definition.checkAll_untyped
    (h : scopes.Loosens (.untyping (declaredResult structs result?)) others)
    (hsettled : scopes.Settled name ((Params.typed typedRange params result?).declaredType structs))
    {before : List Definition} (hbefore : ∀ sibling ∈ before, sibling.name.range ≠ name.range)
    (after : List Definition) :
    (Definition.checkAll structs scopes
        (before ++ .function range docs name (.typed typedRange params result?) body ::
          after)).Match
      (Accounted (.untyping (declaredResult structs result?)) (NotTypeChecked name))
      (Scopes.Loosens (.untyping (declaredResult structs result?)))
      (Definition.checkAll structs others
        (before ++ .function range docs name (.untyped untypedRange (params.map (·.name))) body ::
          after)) := by
  have hR := additive_accounted (.untyping (declaredResult structs result?)) (NotTypeChecked name)
  have hfirst : (Definition.checkAll structs scopes before).Match
      (Accounted (.untyping (declaredResult structs result?)) (NotTypeChecked name))
      (Scopes.Loosens (.untyping (declaredResult structs result?)))
      (Definition.checkAll structs others before) := Definition.checkAll_self h before
  have hchecked := Definition.settled_checkAll structs hsettled hbefore
  rw [Definition.checkAll_append, Definition.checkAll_append]
  refine .next hR hfirst ?_
  refine .bind hR (Definition.check_untyped hfirst.result hchecked untypedRange) fun _ _ hnext => ?_
  exact Definition.checkAll_self hnext after

end

/-! ## Where the definition stands -/

section

variable {structs : List String} {name : Ident} {result? : Option TypeExpr}

/-- A `local` form with the function untyped, provided that no other definition of the form is named
at the same place. -/
theorem Value.loosens_untypedLocal {before after : List Definition} {definition other : Definition}
    (hedit : definition.Untypes name result? other)
    (hbefore : ∀ sibling ∈ before, sibling.name.range ≠ name.range)
    (hafter : ∀ sibling ∈ after, sibling.name.range ≠ name.range) (bound : List String)
    (range : Range) (body : Value) :
    (Value.locals range (before ++ definition :: after) body).Loosens
      (.untyping (declaredResult structs result?)) (NotTypeChecked name) structs bound
      (.locals range (before ++ other :: after) body) := by
  have hR := additive_accounted (.untyping (declaredResult structs result?)) (NotTypeChecked name)
  refine ⟨rfl, fun scopes others hscopes _ => ?_⟩
  obtain @⟨functionRange, docs, typedRange, params, untypedRange, functionBody⟩ := hedit
  have hregister := Definition.registerAll_untyped name functionRange typedRange untypedRange docs
    params functionBody hscopes.enter before after
  have henter := Scopes.settled_enter name
    ((Params.typed typedRange params result?).declaredType structs) scopes
  have hsettled := Definition.settled_registerAll_function structs henter hbefore hafter
    functionRange docs functionBody
  have hcheck := Definition.checkAll_untyped name functionRange typedRange untypedRange docs params
    functionBody hregister.result hsettled hbefore after
  rw [Value.check, Value.check]
  refine .next hR hregister (.bind hR hcheck fun _ _ hinner => ?_)
  exact Value.check_loosens hinner body

namespace Program

theorem accounted_untyped {language : Language} {before after : Program}
    {definition other : Definition} (hedit : definition.Untypes name result? other)
    (hbefore : ∀ form ∈ before, ∀ ident ∈ form.ident?, ident.range ≠ name.range)
    (hafter : ∀ form ∈ after, ∀ ident ∈ form.ident?, ident.range ≠ name.range) :
    Accounted (.untyping (declaredResult
        (structNames (before ++ .definition definition :: after)) result?)) (NotTypeChecked name)
      (check language (before ++ .definition definition :: after)).diagnostics
      (check language (before ++ .definition other :: after)).diagnostics := by
  have hR := additive_accounted (.untyping (declaredResult
    (structNames (before ++ .definition definition :: after)) result?)) (NotTypeChecked name)
  refine accounted_form rfl ?_ fun others hothers => ?_
  · rintro registered rfl
    obtain @⟨_, _, _, _, untypedRange, _⟩ := hedit
    refine .bind hR (Definition.register_untyped (.refl _ _) _ untypedRange) fun _ _ hscopes => ?_
    exact .pure hR hscopes
  · obtain @⟨_, _, _, _, untypedRange, _⟩ := hedit
    exact Definition.check_untyped hothers (settled_stage language hbefore hafter) untypedRange

/-- One function definition of a program gets an untyped list of the same parameters. -/
def Untypes (language : Language) (name : Ident) (result? : Option TypeExpr) :
    Program → Program → Prop :=
  fun program other => Program.Within (fun _ _ _ => False)
    (fun _ definition other => definition.Untypes name result? other)
    (rootNames language program) program other

theorem Untypes.accounted {language : Language} {source : String} {program other : Program}
    (hread : programOfSource source = .ok program)
    (h : program.Untypes language name result? other) :
    Accounted (.untyping (declaredResult (structNames program) result?)) (NotTypeChecked name)
      (check language program).diagnostics (check language other).diagnostics := by
  have hlocal : ∀ {form : TopLevel}, form ∈ program → ∀ bound value other,
      LocalPart (Definition.Untypes name result?) form.node value other →
      value.Loosens (.untyping (declaredResult (structNames program) result?))
        (NotTypeChecked name) (structNames program) bound other := by
    rintro form hform bound _ _ ⟨range, before, definition, after, replaced, body, rfl, rfl, hnode,
      hedit⟩
    have hapart := List.pairwise_append.mp (locals_apart hread hform hnode)
    have hname : definition.name = name := by
      cases hedit
      rfl
    rw [← hname]
    refine Value.loosens_untypedLocal (hname ▸ hedit) (fun sibling hsibling => ?_)
      (fun sibling hsibling => ?_) bound range body
    · exact hapart.2.2 sibling hsibling definition List.mem_cons_self
    · exact (List.rel_of_pairwise_cons hapart.2.1 hsibling).symm
  obtain @⟨before, after, form, other, hform⟩ := h
  have hmem : form ∈ before ++ form :: after := by simp
  cases hform with
  | value hwithin =>
      refine Within.accounted (hlocal hmem) (fun _ _ _ => False.elim) ?_
      exact .form (.value (hwithin.localParts .refl))
  | @definition definition other hwithin =>
      rcases hwithin.localParts .refl with hedit | hwithin
      · have hapart := List.pairwise_append.mp (forms_apart hread)
        have hname : (TopLevel.definition definition).ident? = some name := by
          cases hedit
          rfl
        refine accounted_untyped hedit (fun form hform ident hident => ?_)
          (fun form hform ident hident => ?_)
        · exact hapart.2.2 form hform _ List.mem_cons_self ident hident name hname
        · exact (List.rel_of_pairwise_cons hapart.2.1 hform name hname ident hident).symm
      · refine Within.accounted (hlocal hmem) (fun _ _ _ => False.elim) ?_
        exact .form (.definition hwithin)

/-- Without the annotations of a function, a correct program has no other faults than that the
function is not type-checked and that `any`, which it results in now, is not what is expected. There
are no such places if the function was declared to result in `any`. -/
theorem check_untypes {language : Language} {source : String} {program other : Program}
    (hread : programOfSource source = .ok program)
    (h : program.Untypes language name result? other)
    (hok : (check language program).diagnostics = []) :
    ∀ e ∈ (check language other).diagnostics,
      e = ⟨.notTypeChecked name.name, name.range, []⟩ ∨
      e.problem.FoundAny ∧ declaredResult (structNames program) result? ≠ .any := by
  intro e he
  rcases h.accounted hread e he with (hown | ⟨hdynamic, hany⟩ | ⟨hcallable, -⟩) | ⟨d, hd, -⟩
  · exact .inl hown
  · exact .inr ⟨hany, hdynamic⟩
  · exact absurd trivial hcallable
  · rw [hok] at hd
    exact absurd hd List.not_mem_nil

/-! ## A result that may be anything -/

open Range in
/-- `(define (f x : Number -> Number) x) (define y (+ (f 1) 2))`, with any parameter list. -/
def resultAdded (params : Params) : Program :=
  [.definition (.function (inLine 1 36) [] ⟨"f", inLine 10 11⟩ params (.name ⟨"x", inLine 34 35⟩)),
   .definition (.constant (inLine 37 59) [] ⟨"y", inLine 45 46⟩
     (.call (inLine 47 58) (.name ⟨"+", inLine 48 49⟩)
       [.call (inLine 50 55) (.name ⟨"f", inLine 51 52⟩) [.literal (inLine 53 54) (.integer 1)],
        .literal (inLine 56 57) (.integer 2)]))]

open Range in
def numberParam : Params :=
  .typed (inLine 12 32) [⟨⟨"x", inLine 12 13⟩, .named ⟨"Number", inLine 16 22⟩⟩]
    (some (.named ⟨"Number", inLine 26 32⟩))

def bareParam : Params :=
  .untyped (.inLine 12 13) [⟨"x", .inLine 12 13⟩]

theorem programOfSource_resultAdded :
    programOfSource "(define (f x : Number -> Number) x) (define y (+ (f 1) 2))" =
      .ok (resultAdded numberParam) := by
  rfl

theorem resultAdded_untypes :
    (resultAdded numberParam).Untypes .minimal ⟨"f", .inLine 10 11⟩
      (some (.named ⟨"Number", .inLine 26 32⟩)) (resultAdded bareParam) :=
  @Within.form _ _ _ [] _ _ _ (.definition (.part .intro))

theorem check_resultAdded : (check .minimal (resultAdded numberParam)).diagnostics = [] := by
  decide +kernel

/-- Once `f` is untyped, its result is no number any more. -/
theorem check_untypes_any :
    programOfSource "(define (f x : Number -> Number) x) (define y (+ (f 1) 2))" =
        .ok (resultAdded numberParam) ∧
      (resultAdded numberParam).Untypes .minimal ⟨"f", .inLine 10 11⟩
        (some (.named ⟨"Number", .inLine 26 32⟩)) (resultAdded bareParam) ∧
      (check .minimal (resultAdded numberParam)).diagnostics = [] ∧
      ¬∀ e ∈ (check .minimal (resultAdded bareParam)).diagnostics,
        e = ⟨.notTypeChecked "f", .inLine 10 11, []⟩ :=
  ⟨programOfSource_resultAdded, resultAdded_untypes, check_resultAdded, by decide +kernel⟩

/-- The argument that is no number is blamed on `any`. -/
theorem check_untypes_resultAdded :
    programOfSource "(define (f x : Number -> Number) x) (define y (+ (f 1) 2))" =
        .ok (resultAdded numberParam) ∧
      (resultAdded numberParam).Untypes .minimal ⟨"f", .inLine 10 11⟩
        (some (.named ⟨"Number", .inLine 26 32⟩)) (resultAdded bareParam) ∧
      (check .minimal (resultAdded numberParam)).diagnostics = [] ∧
      ∀ e ∈ (check .minimal (resultAdded bareParam)).diagnostics,
        e = ⟨.notTypeChecked "f", .inLine 10 11, []⟩ ∨
        e.problem.FoundAny ∧ declaredResult (structNames (resultAdded numberParam))
          (some (.named ⟨"Number", .inLine 26 32⟩)) ≠ .any :=
  ⟨programOfSource_resultAdded, resultAdded_untypes, check_resultAdded,
    check_untypes programOfSource_resultAdded resultAdded_untypes check_resultAdded⟩

end Program

end

end TypedIsl

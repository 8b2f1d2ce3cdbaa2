import TypedIsl.Proofs.Check.Matching
import TypedIsl.Proofs.Check.Root
import TypedIsl.Proofs.Syntax.Replacement

/-!
# Parts that are checked alike

If a part of a tree is replaced by one that is checked alike in all scopes in which the part may be
checked, the whole tree is checked as before.
-/

namespace TypedIsl

/-! ## Lists of parts -/

section

variable (structs : List String) (scopes : Scopes)

theorem LetBinding.checkAll_append (bindings others : List LetBinding) :
    LetBinding.checkAll structs scopes (bindings ++ others) =
      LetBinding.checkAll structs scopes bindings >>= fun scopes =>
        LetBinding.checkAll structs scopes others := by
  induction bindings generalizing scopes with
  | nil => simp [LetBinding.checkAll]
  | cons binding bindings ih => simp [LetBinding.checkAll, ih]

theorem Definition.registerAll_append (definitions others : List Definition) :
    Definition.registerAll structs scopes (definitions ++ others) =
      Definition.registerAll structs scopes definitions >>= fun scopes =>
        Definition.registerAll structs scopes others := by
  induction definitions generalizing scopes with
  | nil => simp [Definition.registerAll]
  | cons definition definitions ih => simp [Definition.registerAll, ih]

theorem Definition.checkAll_append (definitions others : List Definition) :
    Definition.checkAll structs scopes (definitions ++ others) =
      Definition.checkAll structs scopes definitions >>= fun scopes =>
        Definition.checkAll structs scopes others := by
  induction definitions generalizing scopes with
  | nil => simp [Definition.checkAll]
  | cons definition definitions ih => simp [Definition.checkAll, ih]

end

/-! ## Being checked alike -/

section

variable (R : List Diagnostic → List Diagnostic → Prop)

/-- The values are checked alike wherever no names but the given ones are bound. -/
structure Value.Alike (bound : List String) (value other : Value) : Prop where
  range : other.range = value.range
  asCallee : other.asCallee = value.asCallee
  check : ∀ structs scopes, scopes.BindsOnly bound →
    (value.check structs scopes).Match R Eq (other.check structs scopes)

/-- The definitions are registered and checked alike wherever no names but the given ones are
bound. -/
structure Definition.Alike (bound : List String) (definition other : Definition) : Prop where
  name : other.name = definition.name
  register : ∀ structs scopes, scopes.BindsOnly bound →
    (definition.register structs scopes).Match R Eq (other.register structs scopes)
  check : ∀ structs scopes, scopes.BindsOnly bound →
    (definition.check structs scopes).Match R Eq (other.check structs scopes)

end

section

variable {R : List Diagnostic → List Diagnostic → Prop} {structs : List String} {scopes : Scopes}
variable {bound : List String} (hR : Additive R) (hrefl : ∀ ds, R ds ds)
include hR hrefl

theorem Value.checkAll_alike {arg other : Value}
    (h : (arg.check structs scopes).Match R Eq (other.check structs scopes))
    (before after : List Value) :
    (Value.checkAll structs scopes (before ++ arg :: after)).Match R Eq
      (Value.checkAll structs scopes (before ++ other :: after)) := by
  induction before with
  | nil => exact .step hR h fun _ => .refl hrefl _
  | cons value before ih =>
      refine .after hR hrefl (value.check structs scopes) ?_
      exact .step hR ih fun _ => .refl hrefl _

theorem Clause.checkAll_alike {clause other : Clause}
    (h : (clause.check structs scopes).Match R Eq (other.check structs scopes))
    (before after : List Clause) :
    (Clause.checkAll structs scopes (before ++ clause :: after)).Match R Eq
      (Clause.checkAll structs scopes (before ++ other :: after)) := by
  induction before with
  | nil => exact .step hR h fun _ => .refl hrefl _
  | cons first before ih =>
      refine .after hR hrefl (first.check structs scopes) ?_
      exact .step hR ih fun _ => .refl hrefl _

theorem LetBinding.checkAll_alike {binding other : LetBinding} {before : List LetBinding}
    (h : ∀ inner : Scopes, inner.BindsOnly (bound ++ LetBinding.bound before) →
      (binding.check structs inner).Match R Eq (other.check structs inner))
    (hscopes : scopes.BindsOnly bound) (after : List LetBinding) :
    (LetBinding.checkAll structs scopes (before ++ binding :: after)).Match R Eq
      (LetBinding.checkAll structs scopes (before ++ other :: after)) := by
  rw [LetBinding.checkAll_append, LetBinding.checkAll_append]
  refine .after hR hrefl _ ?_
  refine .step hR (h _ ?_) fun _ => .refl hrefl _
  exact (LetBinding.binds_checkAll structs scopes before).bindsOnly
    (hscopes.mono (List.subset_append_left _ _)) (List.subset_append_right _ _)

theorem Definition.registerAll_alike {definition other : Definition}
    (h : definition.Alike R bound other) (hscopes : scopes.BindsOnly bound)
    {before : List Definition} (hbefore : Definition.bound before ⊆ bound)
    (after : List Definition) :
    (Definition.registerAll structs scopes (before ++ definition :: after)).Match R Eq
      (Definition.registerAll structs scopes (before ++ other :: after)) := by
  rw [Definition.registerAll_append, Definition.registerAll_append]
  refine .after hR hrefl _ ?_
  refine .step hR (h.register structs _ ?_) fun _ => .refl hrefl _
  exact (Definition.binds_registerAll structs scopes before).bindsOnly hscopes hbefore

theorem Definition.checkAll_alike {definition other : Definition}
    (h : definition.Alike R bound other) (hscopes : scopes.BindsOnly bound)
    {before : List Definition} (hbefore : Definition.bound before ⊆ bound)
    (after : List Definition) :
    (Definition.checkAll structs scopes (before ++ definition :: after)).Match R Eq
      (Definition.checkAll structs scopes (before ++ other :: after)) := by
  rw [Definition.checkAll_append, Definition.checkAll_append]
  refine .after hR hrefl _ ?_
  refine .step hR (h.check structs _ ?_) fun _ => .refl hrefl _
  exact (Definition.binds_checkAll structs scopes before).bindsOnly hscopes hbefore

/-- A lambda expression with another body. -/
theorem Value.Alike.lambda {body other : Value} {params : Params}
    (h : body.Alike R (bound ++ params.bound) other) (range : Range)
    (hscopes : scopes.BindsOnly bound) :
    ((Value.lambda range params body).check structs scopes).Match R Eq
      ((Value.lambda range params other).check structs scopes) := by
  have hbelow := hscopes.enter.mono (List.subset_append_left _ params.bound)
  cases params with
  | untyped paramsRange names =>
      have hbinds := scopes.enter.binds_bindIdents .flexible names
      have hinner := hbinds.bindsOnly hbelow (List.subset_append_right _ _)
      rw [Value.check, Value.check]
      refine .after hR hrefl _ ?_
      exact .step hR (h.check structs _ hinner) fun _ => .refl hrefl _
  | typed paramsRange params result? =>
      have hbinds := binds_bindTypedParams structs scopes.enter params
      rw [Params.bound_typed] at h hbelow
      have hinner := hbinds.bindsOnly hbelow (List.subset_append_right _ _)
      rw [Value.check, Value.check, h.range]
      refine .after hR hrefl _ ?_
      exact .step hR (h.check structs _ hinner) fun _ => .refl hrefl _

/-- A function definition with another body. -/
theorem Definition.Alike.function {body other : Value} {params : Params}
    (h : body.Alike R (bound ++ params.bound) other) (range : Range) (docs : List String)
    (name : Ident) (hscopes : scopes.BindsOnly bound) :
    ((Definition.function range docs name params body).check structs scopes).Match R Eq
      ((Definition.function range docs name params other).check structs scopes) := by
  have hbelow := hscopes.enter.mono (List.subset_append_left _ params.bound)
  cases params with
  | untyped paramsRange names =>
      have hbinds := scopes.enter.binds_bindIdents .flexible names
      have hinner := hbinds.bindsOnly hbelow (List.subset_append_right _ _)
      rw [Definition.check, Definition.check]
      refine .after hR hrefl _ (.after hR hrefl _ ?_)
      exact .step hR (h.check structs _ hinner) fun _ => .refl hrefl _
  | typed paramsRange params result? =>
      rw [Params.bound_typed] at h hbelow
      have hinner := fun types => (scopes.enter.binds_bindResolved params types).bindsOnly hbelow
        (List.subset_append_right _ _)
      cases result? with
      | none =>
          rw [Definition.check, Definition.check]
          refine .after hR hrefl _ (.after hR hrefl _ ?_)
          exact .step hR (h.check structs _ (hinner _)) fun _ => .refl hrefl _
      | some declared =>
          rw [Definition.check, Definition.check, h.range]
          refine .after hR hrefl _ (.after hR hrefl _ (.after hR hrefl _ ?_))
          exact .step hR (h.check structs _ (hinner _)) fun _ => .refl hrefl _

/-- A `local` form with another definition. -/
theorem Definition.Alike.locals {before after : List Definition} {definition other : Definition}
    (h : definition.Alike R (bound ++ Definition.bound (before ++ definition :: after)) other)
    (range : Range) (body : Value) (hscopes : scopes.BindsOnly bound) :
    ((Value.locals range (before ++ definition :: after) body).check structs scopes).Match R Eq
      ((Value.locals range (before ++ other :: after) body).check structs scopes) := by
  have hbelow := hscopes.enter.mono
    (List.subset_append_left bound (Definition.bound (before ++ definition :: after)))
  have hall := List.subset_append_right bound (Definition.bound (before ++ definition :: after))
  have hbefore : Definition.bound before ⊆
      bound ++ Definition.bound (before ++ definition :: after) := by
    refine List.Subset.trans ?_ hall
    simp [Definition.bound]
  have hregistered := (Definition.binds_registerAll structs scopes.enter _).bindsOnly hbelow hall
  rw [Value.check, Value.check]
  refine .along hR (Definition.registerAll_alike hR hrefl h hbelow hbefore after) ?_
  refine .along hR (Definition.checkAll_alike hR hrefl h hregistered hbefore after) ?_
  exact .refl hrefl _

/-- A call with another argument. -/
theorem Value.Alike.call {arg other : Value} (h : arg.Alike R bound other) (range : Range)
    (callee : Value) (before after : List Value) (hscopes : scopes.BindsOnly bound) :
    ((Value.call range callee (before ++ arg :: after)).check structs scopes).Match R Eq
      ((Value.call range callee (before ++ other :: after)).check structs scopes) := by
  have hranges : (before ++ other :: after).map Value.range =
      (before ++ arg :: after).map Value.range := by simp [h.range]
  rw [Value.check, Value.check, hranges]
  refine .after hR hrefl _ ?_
  split
  · exact .refl hrefl _
  · have hargs := Value.checkAll_alike hR hrefl (h.check structs scopes hscopes) before after
    exact .along hR hargs (.refl hrefl _)
  · exact .refl hrefl _

end

/-! ## Parts below the root -/

section

variable {R : List Diagnostic → List Diagnostic → Prop}
variable {P : List String → Value → Value → Prop}
variable {Q : List String → Definition → Definition → Prop}

mutual

/-- If the parts are checked alike, so are the values that differ in them. -/
theorem Value.Within.alike (hR : Additive R) (hrefl : ∀ ds, R ds ds)
    (hP : ∀ bound value other, P bound value other → value.Alike R bound other)
    (hQ : ∀ bound definition other, Q bound definition other →
      definition.Alike R bound other) {bound : List String} {value other : Value}
    (h : Value.Within P Q bound value other) : value.Alike R bound other := by
  match h with
  | .part hpart => exact hP _ _ _ hpart
  | .condition hwithin =>
      have hpart := hwithin.alike hR hrefl hP hQ
      refine ⟨rfl, rfl, fun structs scopes hscopes => ?_⟩
      rw [Value.check, Value.check, hpart.range]
      exact .step hR (hpart.check structs scopes hscopes) fun _ => .refl hrefl _
  | .thenArm hwithin =>
      have hpart := hwithin.alike hR hrefl hP hQ
      refine ⟨rfl, rfl, fun structs scopes hscopes => ?_⟩
      rw [Value.check, Value.check]
      refine .after hR hrefl _ (.after hR hrefl _ ?_)
      exact .step hR (hpart.check structs scopes hscopes) fun _ => .refl hrefl _
  | .elseArm hwithin =>
      have hpart := hwithin.alike hR hrefl hP hQ
      refine ⟨rfl, rfl, fun structs scopes hscopes => ?_⟩
      rw [Value.check, Value.check]
      refine .after hR hrefl _ (.after hR hrefl _ (.after hR hrefl _ ?_))
      exact .step hR (hpart.check structs scopes hscopes) fun _ => .refl hrefl _
  | .clauseCondition hwithin =>
      have hpart := hwithin.alike hR hrefl hP hQ
      refine ⟨rfl, rfl, fun structs scopes hscopes => ?_⟩
      rw [Value.check, Value.check]
      refine .step hR (Clause.checkAll_alike hR hrefl ?_ _ _) fun _ => .refl hrefl _
      rw [Clause.check, Clause.check, hpart.range]
      exact .step hR (hpart.check structs scopes hscopes) fun _ => .refl hrefl _
  | .clauseBody hwithin =>
      have hpart := hwithin.alike hR hrefl hP hQ
      refine ⟨rfl, rfl, fun structs scopes hscopes => ?_⟩
      rw [Value.check, Value.check]
      refine .step hR (Clause.checkAll_alike hR hrefl ?_ _ _) fun _ => .refl hrefl _
      rw [Clause.check, Clause.check]
      exact .after hR hrefl _ (.after hR hrefl _ (hpart.check structs scopes hscopes))
  | .otherwise hwithin =>
      have hpart := hwithin.alike hR hrefl hP hQ
      refine ⟨rfl, rfl, fun structs scopes hscopes => ?_⟩
      rw [Value.check, Value.check]
      refine .after hR hrefl _ ?_
      exact .step hR (hpart.check structs scopes hscopes) fun _ => .refl hrefl _
  | .lambda hwithin =>
      have hpart := hwithin.alike hR hrefl hP hQ
      exact ⟨rfl, rfl, fun _ _ hscopes => hpart.lambda hR hrefl _ hscopes⟩
  | .localDefinition hwithin =>
      have hpart := hwithin.alike hR hrefl hP hQ
      exact ⟨rfl, rfl, fun _ _ hscopes => hpart.locals hR hrefl _ _ hscopes⟩
  | .localBody hwithin =>
      have hpart := hwithin.alike hR hrefl hP hQ
      refine ⟨rfl, rfl, fun structs scopes hscopes => ?_⟩
      rw [Value.check, Value.check]
      refine .after hR hrefl _ (.after hR hrefl _ (hpart.check structs _ ?_))
      refine (Definition.binds_checkAll structs _ _).bindsOnly ?_ (List.subset_append_right _ _)
      exact (Definition.binds_registerAll structs scopes.enter _).bindsOnly
        (hscopes.enter.mono (List.subset_append_left _ _)) (List.subset_append_right _ _)
  | .letBinding hwithin =>
      have hpart := hwithin.alike hR hrefl hP hQ
      refine ⟨rfl, rfl, fun structs scopes hscopes => ?_⟩
      rw [Value.check, Value.check]
      refine .step hR (LetBinding.checkAll_alike hR hrefl ?_ hscopes.enter _) fun _ => .refl hrefl _
      intro inner hinner
      rw [LetBinding.check, LetBinding.check]
      split
      · exact .refl hrefl _
      · exact .step hR (hpart.check structs inner hinner) fun _ => .refl hrefl _
  | .letBody hwithin =>
      have hpart := hwithin.alike hR hrefl hP hQ
      refine ⟨rfl, rfl, fun structs scopes hscopes => ?_⟩
      rw [Value.check, Value.check]
      refine .after hR hrefl _ (hpart.check structs _ ?_)
      exact (LetBinding.binds_checkAll structs scopes.enter _).bindsOnly
        (hscopes.enter.mono (List.subset_append_left _ _)) (List.subset_append_right _ _)
  | .callee hwithin =>
      have hpart := hwithin.alike hR hrefl hP hQ
      refine ⟨rfl, rfl, fun structs scopes hscopes => ?_⟩
      rw [Value.check, Value.check, hpart.range, hpart.asCallee]
      exact .step hR (hpart.check structs scopes hscopes) fun _ => .refl hrefl _
  | .arg hwithin =>
      have hpart := hwithin.alike hR hrefl hP hQ
      exact ⟨rfl, rfl, fun _ _ hscopes => hpart.call hR hrefl _ _ _ _ hscopes⟩

theorem Definition.Within.alike (hR : Additive R) (hrefl : ∀ ds, R ds ds)
    (hP : ∀ bound value other, P bound value other → value.Alike R bound other)
    (hQ : ∀ bound definition other, Q bound definition other →
      definition.Alike R bound other) {bound : List String} {definition other : Definition}
    (h : Definition.Within P Q bound definition other) : definition.Alike R bound other := by
  match h with
  | .part hpart => exact hQ _ _ _ hpart
  | .body hwithin =>
      refine ⟨rfl, fun _ _ _ => .refl hrefl _, fun structs scopes hscopes => ?_⟩
      exact Definition.Alike.function hR hrefl (hwithin.alike hR hrefl hP hQ) _ _ _ hscopes
  | .value hwithin =>
      have hpart := hwithin.alike hR hrefl hP hQ
      refine ⟨rfl, fun structs scopes hscopes => ?_, fun structs scopes hscopes => ?_⟩
      · rw [Definition.register, Definition.register, (hpart.check structs scopes hscopes).result]
        exact .refl hrefl _
      · rw [Definition.check, Definition.check]
        exact .step hR (hpart.check structs scopes hscopes) fun _ => .refl hrefl _

end

end

section

variable {R : List Diagnostic → List Diagnostic → Prop}
variable {P : List String → Value → Value → Prop}
variable {Q : List String → Definition → Definition → Prop}
variable (hR : Additive R) (hrefl : ∀ ds, R ds ds)
variable (hP : ∀ bound value other, P bound value other → value.Alike R bound other)
variable (hQ : ∀ bound definition other, Q bound definition other →
  definition.Alike R bound other)
include hR hrefl hP hQ

theorem TopLevel.Within.register_alike {bound : List String} {form other : TopLevel}
    (h : TopLevel.Within P Q bound form other) (structs : List String) {registered : Registered}
    (hscopes : registered.scopes.BindsOnly bound) :
    (form.register structs registered).Match R Eq (other.register structs registered) := by
  cases h with
  | value hwithin => exact .refl hrefl _
  | definition hwithin =>
      have hregister := (hwithin.alike hR hrefl hP hQ).register structs _ hscopes
      exact .step hR hregister fun _ => .refl hrefl _

theorem TopLevel.Within.check_alike {bound : List String} {form other : TopLevel}
    (h : TopLevel.Within P Q bound form other) (structs : List String) {scopes : Scopes}
    (hscopes : scopes.BindsOnly bound) :
    (form.check structs scopes).Match R Eq (other.check structs scopes) := by
  cases h with
  | value hwithin =>
      have hcheck := (hwithin.alike hR hrefl hP hQ).check structs scopes hscopes
      exact .step hR hcheck fun _ => .refl hrefl _
  | definition hwithin => exact (hwithin.alike hR hrefl hP hQ).check structs scopes hscopes

/-- If the parts are checked alike, so are the programs that differ in them. -/
theorem Program.Within.check_alike {language : Language} {program other : Program}
    (h : Program.Within P Q (rootNames language program) program other) :
    (check language other).globals = (check language program).globals ∧
      R (check language program).diagnostics (check language other).diagnostics := by
  obtain @⟨before, after, form, other, hform⟩ := h
  have hstructs : structNames (before ++ other :: after) =
      structNames (before ++ form :: after) := by
    have hname : other.structName? = form.structName? := by
      cases hform <;> rfl
    simp [structNames, List.filterMap_cons, hname]
  have hbefore := register_bindsOnly language before (form :: after)
  have hall := register_bindsOnly language (before ++ form :: after) []
  rw [List.append_nil] at hall
  have hregister : (register (structNames (before ++ form :: after)) ⟨.root language.scope, []⟩
      (before ++ form :: after)).Match R Eq
      (register (structNames (before ++ form :: after)) ⟨.root language.scope, []⟩
        (before ++ other :: after)) := by
    rw [register_append, register_append]
    refine .after hR hrefl _ (.step hR ?_ fun _ => .refl hrefl _)
    exact hform.register_alike hR hrefl hP hQ _ hbefore
  have hcheck : ∀ scopes : Scopes,
      scopes.BindsOnly (rootNames language (before ++ form :: after)) →
      (checkForms (structNames (before ++ form :: after)) scopes (before ++ form :: after)).Match
        R Eq (checkForms (structNames (before ++ form :: after)) scopes
          (before ++ other :: after)) := by
    intro scopes hscopes
    rw [checkForms_append, checkForms_append]
    refine .after hR hrefl _ (.step hR ?_ fun _ => .refl hrefl _)
    refine hform.check_alike hR hrefl hP hQ _ ((binds_checkForms _ _ before).bindsOnly hscopes ?_)
    intro name hname
    refine List.mem_append_left _ (List.mem_append_right _ ?_)
    rw [bound, List.filterMap_append]
    exact List.mem_append_left _ hname
  have hforms := hcheck _ hall
  rw [check, check, hstructs, ← hregister.result, ← hforms.result]
  exact ⟨rfl, hR.append hregister.diagnostics hforms.diagnostics⟩

end

end TypedIsl

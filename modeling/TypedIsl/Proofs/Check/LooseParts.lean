import TypedIsl.Proofs.Check.FinalTypes
import TypedIsl.Proofs.Check.Loosening

/-!
# Parts with looser types

A tree in looser scopes has a looser type, and so has a tree one part of which is replaced by one
with a looser type. For a program with one form replaced it is enough to look at that form, once
while names are bound and once when all forms before it have been checked.
-/

namespace TypedIsl

section

variable {slack : Slack} {own : Diagnostic → Prop} {structs : List String}

/-! ## The same tree -/

section

variable {scopes others : Scopes} (h : scopes.Loosens slack others)

include h

theorem Value.check_loosens (value : Value) :
    (value.check structs scopes).Match (Accounted slack own) (Ty.Loosens slack)
      (value.check structs others) :=
  value.check_related (simulation_accounted slack own) h.related

theorem Definition.register_loosens (definition : Definition) :
    (definition.register structs scopes).Match (Accounted slack own) (Scopes.Loosens slack)
      (definition.register structs others) :=
  Scopes.Loosens.of_related (definition.register_related (simulation_accounted slack own) h.related)

theorem Definition.check_loosens (definition : Definition) :
    (definition.check structs scopes).Match (Accounted slack own) (Scopes.Loosens slack)
      (definition.check structs others) :=
  Scopes.Loosens.of_related (definition.check_related (simulation_accounted slack own) h.related)

theorem Definition.registerAll_self (definitions : List Definition) :
    (Definition.registerAll structs scopes definitions).Match (Accounted slack own)
      (Scopes.Loosens slack) (Definition.registerAll structs others definitions) :=
  Scopes.Loosens.of_related
    (registerAll_related (simulation_accounted slack own) definitions h.related)

theorem Definition.checkAll_self (definitions : List Definition) :
    (Definition.checkAll structs scopes definitions).Match (Accounted slack own)
      (Scopes.Loosens slack) (Definition.checkAll structs others definitions) :=
  Scopes.Loosens.of_related
    (checkAll_related (simulation_accounted slack own) definitions h.related)

end

section

variable (bound : List String)

theorem Value.loosens_self (value : Value) : value.Loosens slack own structs bound value :=
  ⟨rfl, fun _ _ hscopes _ => value.check_loosens hscopes⟩

theorem Value.allLoosen_self (values : List Value) :
    List.Forall₂ (Value.Loosens slack own structs bound) values values :=
  List.forall₂_same.mpr fun value _ => value.loosens_self bound

theorem Value.optionLoosens_self (value? : Option Value) :
    Option.Rel (Value.Loosens slack own structs bound) value? value? := by
  cases value? with
  | none => exact .none
  | some value => exact .some (value.loosens_self bound)

theorem Clause.allLoosen_self (clauses : List Clause) :
    List.Forall₂ (Clause.Loosens slack own structs bound) clauses clauses :=
  List.forall₂_same.mpr fun clause _ =>
    ⟨fun _ _ hscopes _ => clause.check_related (simulation_accounted slack own) hscopes.related⟩

theorem LetBinding.allLoosen_self (bindings : List LetBinding) :
    LetBinding.AllLoosen slack own structs bound bindings bindings :=
  ⟨fun _ _ hscopes _ => Scopes.Loosens.of_related
    (checkAll_related (simulation_accounted slack own) bindings hscopes.related)⟩

theorem Definition.allLoosen_self (definitions : List Definition) :
    List.Forall₂ (Definition.Loosens slack own structs bound) definitions definitions :=
  List.forall₂_same.mpr fun definition _ =>
    ⟨fun _ _ hscopes _ => definition.register_loosens hscopes,
      fun _ _ hscopes _ => definition.check_loosens hscopes⟩

end

theorem LetBinding.allLoosen_part {bound : List String} {before : List LetBinding}
    {value other : Value}
    (h : value.Loosens slack own structs (bound ++ LetBinding.bound before) other) (range : Range)
    (name : Ident) (after : List LetBinding) :
    LetBinding.AllLoosen slack own structs bound (before ++ .mk range name value :: after)
      (before ++ .mk range name other :: after) := by
  induction before generalizing bound with
  | nil =>
      rw [LetBinding.bound, List.map_nil, List.append_nil] at h
      exact allLoosen_cons h (allLoosen_self _ after) range
  | cons binding before ih =>
      obtain ⟨firstRange, firstName, firstValue⟩ := binding
      rw [LetBinding.bound, List.map_cons, List.append_cons] at h
      exact allLoosen_cons (firstValue.loosens_self bound) (ih h) firstRange

/-! ## Trees with a part replaced -/

section

variable {P : List String → Value → Value → Prop}
variable {Q : List String → Definition → Definition → Prop}

mutual

/-- If the parts have looser types, so have the values that differ in them. -/
theorem Value.Within.loosens
    (hP : ∀ bound value other, P bound value other → value.Loosens slack own structs bound other)
    (hQ : ∀ bound definition other, Q bound definition other →
      definition.Loosens slack own structs bound other) {bound : List String} {value other : Value}
    (h : Value.Within P Q bound value other) : value.Loosens slack own structs bound other := by
  match h with
  | .part hpart => exact hP _ _ _ hpart
  | .condition hwithin =>
      exact Value.loosens_branch (hwithin.loosens hP hQ) (Value.loosens_self _ _)
        (Value.loosens_self _ _) _
  | .thenArm hwithin =>
      exact Value.loosens_branch (Value.loosens_self _ _) (hwithin.loosens hP hQ)
        (Value.loosens_self _ _) _
  | .elseArm hwithin =>
      exact Value.loosens_branch (Value.loosens_self _ _) (Value.loosens_self _ _)
        (hwithin.loosens hP hQ) _
  | .clauseCondition hwithin =>
      refine Value.loosens_cond (List.rel_append (Clause.allLoosen_self _ _) ?_)
        (Value.optionLoosens_self _ _) _
      exact .cons (Clause.loosens_mk (hwithin.loosens hP hQ) (Value.loosens_self _ _) _)
        (Clause.allLoosen_self _ _)
  | .clauseBody hwithin =>
      refine Value.loosens_cond (List.rel_append (Clause.allLoosen_self _ _) ?_)
        (Value.optionLoosens_self _ _) _
      exact .cons (Clause.loosens_mk (Value.loosens_self _ _) (hwithin.loosens hP hQ) _)
        (Clause.allLoosen_self _ _)
  | .otherwise hwithin =>
      exact Value.loosens_cond (Clause.allLoosen_self _ _) (.some (hwithin.loosens hP hQ)) _
  | .lambda hwithin => exact Value.loosens_lambda (hwithin.loosens hP hQ) _
  | .localDefinition hwithin =>
      refine Value.loosens_locals (List.rel_append (Definition.allLoosen_self _ _) ?_)
        (Value.loosens_self _ _) _
      exact .cons (hwithin.loosens hP hQ) (Definition.allLoosen_self _ _)
  | .localBody hwithin =>
      exact Value.loosens_locals (Definition.allLoosen_self _ _) (hwithin.loosens hP hQ) _
  | .letBinding hwithin =>
      exact Value.loosens_lets (LetBinding.allLoosen_part (hwithin.loosens hP hQ) _ _ _)
        (Value.loosens_self _ _) _ _
  | .letBody hwithin =>
      exact Value.loosens_lets (LetBinding.allLoosen_self _ _) (hwithin.loosens hP hQ) _ _
  | .callee hwithin =>
      exact Value.loosens_call (hwithin.loosens hP hQ) (Value.allLoosen_self _ _) _
  | .arg hwithin =>
      refine Value.loosens_call (Value.loosens_self _ _)
        (List.rel_append (Value.allLoosen_self _ _) ?_) _
      exact .cons (hwithin.loosens hP hQ) (Value.allLoosen_self _ _)

theorem Definition.Within.loosens
    (hP : ∀ bound value other, P bound value other → value.Loosens slack own structs bound other)
    (hQ : ∀ bound definition other, Q bound definition other →
      definition.Loosens slack own structs bound other) {bound : List String}
    {definition other : Definition} (h : Definition.Within P Q bound definition other) :
    definition.Loosens slack own structs bound other := by
  match h with
  | .part hpart => exact hQ _ _ _ hpart
  | .body hwithin => exact Definition.loosens_function (hwithin.loosens hP hQ) _ _ _
  | .value hwithin => exact Definition.loosens_constant (hwithin.loosens hP hQ) _ _ _

end

end

/-! ## Programs -/

/-- What is known when names are being bound, with looser types. -/
def Registered.Loosens (slack : Slack) (registered other : Registered) : Prop :=
  registered.scopes.Loosens slack other.scopes

theorem Program.register_loosens {registered other : Registered}
    (h : registered.Loosens slack other) (program : Program) :
    (register structs registered program).Match (Accounted slack own) (Registered.Loosens slack)
      (register structs other program) :=
  (register_related (simulation_accounted slack own) (Scopes.Loosens.related h) program).mono
    (fun _ _ hdiagnostics => hdiagnostics) fun _ _ => Scopes.loosens_iff_related.mpr

theorem Program.checkForms_loosens {scopes others : Scopes} (h : scopes.Loosens slack others)
    (own : Diagnostic → Prop) (structs : List String) (program : Program) :
    (checkForms structs scopes program).Match (Accounted slack own) (Scopes.Loosens slack)
      (checkForms structs others program) :=
  Scopes.Loosens.of_related (checkForms_related (simulation_accounted slack own) h.related program)

/-- The diagnostics of a program with one form replaced, if the other form is accounted for where
the first one is registered and where it is checked. -/
theorem Program.accounted_form {language : Language} {before after : Program}
    {form other : TopLevel} (hstruct : other.structName? = form.structName?)
    (hregister : ∀ registered, registered =
        (register (structNames (before ++ form :: after)) ⟨.root language.scope, []⟩
          before).result →
      (form.register (structNames (before ++ form :: after)) registered).Match
        (Accounted slack own) (Registered.Loosens slack)
        (other.register (structNames (before ++ form :: after)) registered))
    (hcheck : ∀ others,
      (stage language (before ++ form :: after) before).Loosens slack others →
      (form.check (structNames (before ++ form :: after))
          (stage language (before ++ form :: after) before)).Match
        (Accounted slack own) (Scopes.Loosens slack)
        (other.check (structNames (before ++ form :: after)) others)) :
    Accounted slack own (check language (before ++ form :: after)).diagnostics
      (check language (before ++ other :: after)).diagnostics := by
  have hR := additive_accounted slack own
  have hstructs : structNames (before ++ other :: after) =
      structNames (before ++ form :: after) := by
    simp [structNames, List.filterMap_cons, hstruct]
  have hregistered : (register (structNames (before ++ form :: after)) ⟨.root language.scope, []⟩
      (before ++ form :: after)).Match (Accounted slack own) (Registered.Loosens slack)
      (register (structNames (before ++ form :: after)) ⟨.root language.scope, []⟩
        (before ++ other :: after)) := by
    rw [register_append, register_append]
    refine .after hR accounted_refl _ ?_
    exact .bind hR (hregister _ rfl) fun _ _ hnext => register_loosens hnext after
  have hchecked : (checkForms (structNames (before ++ form :: after))
      (register (structNames (before ++ form :: after)) ⟨.root language.scope, []⟩
        (before ++ form :: after)).result.scopes (before ++ form :: after)).Match
      (Accounted slack own) (Scopes.Loosens slack)
      (checkForms (structNames (before ++ form :: after))
        (register (structNames (before ++ form :: after)) ⟨.root language.scope, []⟩
          (before ++ other :: after)).result.scopes (before ++ other :: after)) := by
    rw [checkForms_append, checkForms_append]
    have hbefore := checkForms_loosens hregistered.result own
      (structNames (before ++ form :: after)) before
    refine .next hR hbefore ?_
    exact .bind hR (hcheck _ hbefore.result) fun _ _ hnext =>
      checkForms_loosens hnext own _ after
  rw [check, check, hstructs]
  exact hR.append hregistered.diagnostics hchecked.diagnostics

/-- When a form is checked, no names are bound but those of the root scope. -/
theorem Program.stage_bindsOnly (language : Language) (before rest : Program) :
    (stage language (before ++ rest) before).BindsOnly (rootNames language (before ++ rest)) := by
  have hall := register_bindsOnly language (before ++ rest) []
  rw [List.append_nil] at hall
  refine (binds_checkForms _ _ before).bindsOnly hall fun name hname => ?_
  refine List.mem_append_left _ (List.mem_append_right _ ?_)
  rw [bound, List.filterMap_append]
  exact List.mem_append_left _ hname

section

variable {P : List String → Value → Value → Prop}
variable {Q : List String → Definition → Definition → Prop}

/-- If the parts have looser types, the diagnostics of a program that differs in them are accounted
for. -/
theorem Program.Within.accounted {language : Language} {program other : Program}
    (hP : ∀ bound value other, P bound value other →
      value.Loosens slack own (structNames program) bound other)
    (hQ : ∀ bound definition other, Q bound definition other →
      definition.Loosens slack own (structNames program) bound other)
    (h : Program.Within P Q (rootNames language program) program other) :
    Accounted slack own (check language program).diagnostics
      (check language other).diagnostics := by
  have hR := additive_accounted slack own
  obtain @⟨before, after, form, other, hform⟩ := h
  have hbefore := register_bindsOnly language before (form :: after)
  have hstage := stage_bindsOnly language before (form :: after)
  cases hform with
  | definition hwithin =>
      have hloosens := hwithin.loosens hP hQ
      refine accounted_form rfl ?_ fun others hothers => ?_
      · rintro registered rfl
        refine .bind hR (hloosens.register _ _ (.refl slack _) hbefore) fun _ _ hscopes => ?_
        exact .pure hR hscopes
      · exact hloosens.check _ _ hothers hstage
  | value hwithin =>
      have hloosens := hwithin.loosens hP hQ
      refine accounted_form rfl ?_ fun others hothers => ?_
      · rintro registered rfl
        exact .pure hR (.refl slack _)
      · exact .bind hR (hloosens.check _ _ hothers hstage) fun _ _ _ => .pure hR hothers

end

end

end TypedIsl

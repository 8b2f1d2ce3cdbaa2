import TypedIsl.Proofs.Check.Agreement

/-!
# Checking renamed trees

A tree renamed by `f` is checked like the tree itself if `f name` has the type that `name` had
before, for every name that the check looks up. The diagnostics then differ by the names they
mention.
-/

namespace TypedIsl

/-! ## Forms with bodies -/

/-- In agreeing scopes, the second value is checked like the first one. -/
def Value.Follows (back f : String → String) (value other : Value) : Prop :=
  ∀ structs scopes others, Scopes.Agree back f value.reads scopes others →
    (value.check structs scopes).Match (UpTo back) Eq (other.check structs others)

section

variable {back f g : String → String} {names : List String} {scopes others : Scopes}
variable (structs : List String)

theorem Value.follows_name {ident : Ident} (h : Restores back f ident.name) :
    (Value.name ident).Follows back f (.name (ident.rename f)) := by
  intro structs scopes others hagree
  have htype := hagree ident.name List.mem_cons_self h
  rw [Value.check, Value.check, Scopes.use_eq, Scopes.use_eq, Ident.rename_name, htype]
  cases scopes.type? ident.name with
  | some type => exact .pure (additive_upTo back) rfl
  | none =>
      refine .step (additive_upTo back) (report_upTo ?_ _ _) fun _ => .pure (additive_upTo back) rfl
      rw [Problem.rename, h.2]

/-- A lambda expression whose parameters are renamed along with its body. -/
theorem Value.follows_lambda {params : Params} {body other : Value}
    (hparams : AllRestored back g params.kinds) (hbody : body.Follows back g other)
    (hrange : other.range = body.range) (range : Range)
    (h : Scopes.Mirror back g (without params.bound body.reads) scopes.enter others.enter) :
    ((Value.lambda range params body).check structs scopes).Match (UpTo back) Eq
      ((Value.lambda range (params.rename g) other).check structs others) := by
  have hR := additive_upTo back
  cases params with
  | untyped paramsRange idents =>
      rw [Params.rename, Value.check, Value.check]
      refine .bind hR (h.bindIdents hparams.params .flexible) fun inner otherInner hinner => ?_
      refine .step hR (hbody structs inner otherInner hinner.outward) fun type => ?_
      rw [List.map_map]
      exact .pure hR rfl
  | typed paramsRange params result? =>
      rw [Params.rename, Value.check, Value.check]
      rw [Params.bound_typed] at h
      refine .bind hR (h.bindTypedParams structs hparams.typedParams) ?_
      rintro ⟨inner, types⟩ ⟨otherInner, _⟩ ⟨hinner, rfl⟩
      refine .step hR (hbody structs inner otherInner hinner.outward) fun type => ?_
      cases result? with
      | none => exact .pure hR rfl
      | some declared =>
          refine .step hR (declared.resolve_upTo structs hparams.declared) fun expected => ?_
          have hlambda : (none : Option String).map back = none := rfl
          rw [hrange]
          exact .step hR (judgeResult_upTo hlambda _ _ _ _) fun _ => .pure hR rfl

/-- A function definition whose parameters are renamed along with its body. The scopes are related
afterwards as they were before. -/
theorem Definition.follows_function {r : Scopes → Scopes → Prop} {name : Ident} {params : Params}
    {body other : Value}
    (hname : Restores back f name.name) (hparams : AllRestored back g params.kinds)
    (hbody : body.Follows back g other) (hrange : other.range = body.range) (range : Range)
    (docs : List String) (h : r scopes others)
    (hfinalize : ∀ type, r (scopes.finalize name type) (others.finalize (name.rename f) type))
    (hinner : Scopes.Mirror back g (without params.bound body.reads) scopes.enter others.enter) :
    ((Definition.function range docs name params body).check structs scopes).Match (UpTo back) r
      ((Definition.function range docs (name.rename f) (params.rename g) other).check structs
        others) := by
  have hR := additive_upTo back
  have hproblem : (Problem.notTypeChecked (f name.name)).rename back =
      .notTypeChecked name.name := by rw [Problem.rename, hname.2]
  cases params with
  | untyped paramsRange idents =>
      rw [Params.rename, Definition.check, Definition.check]
      refine .step hR (report_upTo hproblem _ _) fun _ => ?_
      refine .bind hR (hinner.bindIdents hparams.params .flexible) fun inner otherInner hin => ?_
      exact .step hR (hbody structs inner otherInner hin.outward) fun _ => .pure hR h
  | typed paramsRange params result? =>
      have hlength := length_resolveParams structs params
      cases result? with
      | none =>
          rw [Params.rename, Definition.check, Definition.check, resolveParams_rename]
          rw [Params.bound_typed] at hinner
          refine .along hR (resolveParams_upTo structs hparams.typedParams) ?_
          have hbind := Scopes.Mirror.bindResolved hinner hparams.typedParams hlength
          refine .bind hR hbind fun inner otherInner hin => ?_
          refine .step hR (hbody structs inner otherInner hin.outward) fun _ => ?_
          exact .step hR (report_upTo hproblem _ _) fun _ => .pure hR h
      | some declared =>
          rw [Params.rename, Definition.check, Definition.check, resolveParams_rename]
          rw [Params.bound_typed] at hinner
          refine .along hR (resolveParams_upTo structs hparams.typedParams) ?_
          refine .step hR (declared.resolve_upTo structs hparams.declared) fun expected => ?_
          have hbind := Scopes.Mirror.bindResolved hinner hparams.typedParams hlength
          refine .bind hR hbind fun inner otherInner hin => ?_
          refine .step hR (hbody structs inner otherInner hin.outward) fun type => ?_
          have hsubject : (some (f name.name)).map back = some name.name := congrArg some hname.2
          rw [hrange]
          refine .step hR (judgeResult_upTo hsubject _ _ _ _) fun _ => ?_
          exact .pure hR (hfinalize _)

/-- A `local` form whose definitions are renamed along with its body. -/
theorem Value.follows_locals {definitions renamed : List Definition} {body other : Value}
    (hregister : (Definition.registerAll structs scopes.enter definitions).Match (UpTo back)
      (Scopes.Mirror back g names) (Definition.registerAll structs others.enter renamed))
    (hcheck : ∀ inner otherInner, Scopes.Mirror back g names inner otherInner →
      (Definition.checkAll structs inner definitions).Match (UpTo back)
        (Scopes.Mirror back g names) (Definition.checkAll structs otherInner renamed))
    (hbody : body.Follows back g other) (hreads : body.reads ⊆ names) (range : Range) :
    ((Value.locals range definitions body).check structs scopes).Match (UpTo back) Eq
      ((Value.locals range renamed other).check structs others) := by
  have hR := additive_upTo back
  rw [Value.check, Value.check]
  refine .bind hR hregister fun registered otherRegistered hregistered => ?_
  refine .bind hR (hcheck _ _ hregistered) fun checked otherChecked hchecked => ?_
  exact hbody _ _ _ (hchecked.outward.mono hreads)

/-- A binding whose name is kept. -/
theorem LetBinding.follows {ident : Ident} {value other : Value}
    (hident : back ident.name = ident.name) (hvalue : value.Follows back f other) (range : Range)
    (hreads : Scopes.Agree back f value.reads scopes others)
    (hlater : Scopes.Agree back f (without [ident.name] names) scopes others)
    (hlocal : others.local? ident.name = scopes.local? ident.name) :
    ((LetBinding.mk range ident value).check structs scopes).Match (UpTo back)
      (fun inner otherInner => Scopes.Agree back (except [ident.name] f) names inner otherInner ∧
        ∀ name, others.local? name = scopes.local? name →
          otherInner.local? name = inner.local? name)
      ((LetBinding.mk range ident other).check structs others) := by
  have hR := additive_upTo back
  have hconflict : ∀ problem, others.conflict? ident problem = scopes.conflict? ident problem := by
    intro problem
    rw [Scopes.conflict?, Scopes.conflict?, hlocal]
  rw [LetBinding.check, LetBinding.check, hconflict]
  cases hd : scopes.conflict? ident (.alreadyDefinedLocally ident.name) with
  | none =>
      refine .step hR (hvalue structs scopes others hreads) fun type => ?_
      refine .pure hR ⟨hlater.bind hident type, fun name hname => ?_⟩
      rw [Scopes.local?_bind, Scopes.local?_bind, hname]
  | some d =>
      have hdiagnostic : UpTo back [d] [d] := by
        rw [Scopes.conflict?] at hd
        obtain ⟨binding, -, rfl⟩ := Option.map_eq_some_iff.mp hd
        rw [UpTo, List.map_singleton, Diagnostic.rename, Problem.rename, hident]
      refine .step hR (.report hdiagnostic) fun _ => ?_
      exact .pure hR ⟨hlater.keeping hlocal (Scopes.isSome_of_conflict? hd), fun _ hname => hname⟩

end

/-! ## Renaming below the root -/

theorem except_eq_of_without {f : String → String} {names list : List String}
    (h : ∀ name ∈ without names list, f name = name) :
    ∀ name ∈ list, except names f name = name := by
  intro name hname
  by_cases hmem : name ∈ names
  · exact except_of_mem hmem
  · rw [except_of_not_mem hmem]
    exact h name (mem_without.mpr ⟨hname, hmem⟩)

section

variable {back : String → String}

mutual

/-- A renamed value is checked like the value itself, unless one of its stray look-ups is for a
renamed name. -/
theorem Value.follows_rename {f : String → String} (value : Value)
    (h : AllRestored back f value.kinds) (hstrays : ∀ name ∈ value.strays, f name = name) :
    value.Follows back f (value.rename f) := by
  have hR := additive_upTo back
  intro structs scopes others hagree
  match value with
  | .literal _ _ => exact .pure hR rfl
  | .require _ _ => exact .pure hR rfl
  | .name ident => exact Value.follows_name (allRestored_cons.mp h).1 structs scopes others hagree
  | .branch _ condition thenArm elseArm =>
      simp only [Value.kinds, allRestored_enclosed, List.cons_append, allRestored_cons,
        allRestored_append] at h
      simp only [Value.strays, List.forall_mem_append] at hstrays
      simp only [Value.reads, Scopes.agree_append] at hagree
      obtain ⟨-, ⟨hcondition, hthen⟩, helse⟩ := h
      rw [Value.rename, Value.check, Value.check, Value.rename_range]
      refine .step hR (condition.follows_rename hcondition hstrays.1.1 _ _ _ hagree.1.1) fun _ => ?_
      refine .step hR (judgeCondition_upTo _ _ _) fun _ => ?_
      refine .step hR (thenArm.follows_rename hthen hstrays.1.2 _ _ _ hagree.1.2) fun _ => ?_
      refine .step hR (elseArm.follows_rename helse hstrays.2 _ _ _ hagree.2) fun _ => ?_
      exact .pure hR rfl
  | .cond _ clauses none =>
      simp only [Value.kinds, allRestored_enclosed, allRestored_cons] at h
      rw [Value.rename, Value.check, Value.check]
      refine .step hR (Clause.checkAll_rename clauses h.2 hstrays hagree) fun _ => ?_
      exact .pure hR rfl
  | .cond _ clauses (some value) =>
      simp only [Value.kinds, allRestored_enclosed, List.cons_append, allRestored_cons,
        allRestored_append] at h
      simp only [Value.strays, List.forall_mem_append] at hstrays
      simp only [Value.reads, Scopes.agree_append] at hagree
      rw [Value.rename, Value.check, Value.check]
      refine .step hR (Clause.checkAll_rename clauses h.2.1 hstrays.1 hagree.1) fun _ => ?_
      refine .step hR (value.follows_rename h.2.2.2 hstrays.2 _ _ _ hagree.2) fun _ => ?_
      exact .pure hR rfl
  | .lambda range params body =>
      simp only [Value.kinds, allRestored_enclosed, List.cons_append, allRestored_cons,
        allRestored_append] at h
      have hbody := body.follows_rename (h.2.2.keeping params.bound) (except_eq_of_without hstrays)
      have hinner := Scopes.Agree.enter hagree fun name hname hbound =>
        absurd hbound (mem_without.mp hname).2
      have hlambda := Value.follows_lambda structs (h.2.1.keeping params.bound) hbody
        (Value.rename_range _ body) range hinner
      rw [params.rename_except] at hlambda
      exact hlambda
  | .locals range definitions body =>
      simp only [Value.kinds, allRestored_enclosed, List.cons_append, allRestored_cons,
        allRestored_append] at h
      simp only [Value.strays, List.forall_mem_append, List.mem_filter, decide_eq_true_eq,
        and_imp] at hstrays
      obtain ⟨-, hdefinitions, hbody⟩ := h
      have hkept := List.forall_mem_append.mp (except_eq_of_without hstrays.2)
      -- Inside the form its own names are kept, also where one of them is looked up too early and
      -- found further out. So the renaming must have kept that one all along.
      have hinner : Scopes.Mirror back (except (Definition.bound definitions) f) _ scopes.enter
          others.enter := Scopes.Agree.enter hagree fun name hname hbound => by
        rcases List.mem_append.mp hname with hname | hname
        · exact hstrays.1 name hname hbound
        · exact absurd hbound (mem_without.mp hname).2
      have hdefinitions := hdefinitions.keeping (Definition.bound definitions)
      have hbody := body.follows_rename (hbody.keeping (Definition.bound definitions)) hkept.2
      exact Value.follows_locals structs
        (Definition.registerAll_rename definitions hdefinitions hkept.1 hinner)
        (fun _ _ hregistered => Definition.checkAll_rename definitions hdefinitions hkept.1
          hregistered (List.subset_append_left _ _)) hbody (List.subset_append_right _ _) range
  | .lets range kind bindings body =>
      simp only [Value.kinds, allRestored_enclosed, List.cons_append, allRestored_cons,
        allRestored_append] at h
      simp only [Value.strays, List.forall_mem_append] at hstrays
      have hbody := body.follows_rename (h.2.2.keeping (LetBinding.bound bindings))
        (except_eq_of_without hstrays.2)
      rw [Value.rename, Value.check, Value.check]
      have hlocal : ∀ name ∈ LetBinding.bound bindings,
          others.enter.local? name = scopes.enter.local? name := fun _ _ => rfl
      refine .bind hR (LetBinding.checkAll_rename bindings h.2.1 hstrays.1 hlocal hagree) ?_
      exact fun _ _ => hbody _ _ _
  | .call range callee args =>
      simp only [Value.kinds, allRestored_enclosed, allRestored_append] at h
      simp only [Value.strays, List.forall_mem_append] at hstrays
      simp only [Value.reads, Scopes.agree_append] at hagree
      have hcallee := Value.asCallee_rename h.1
      rw [Value.rename, Value.check, Value.check]
      refine .step hR (callee.follows_rename h.1 hstrays.1 _ _ _ hagree.1) fun type => ?_
      cases type with
      | flexible => exact .pure hR rfl
      | function params result =>
          refine .step hR (Value.checkAll_rename args h.2 hstrays.2 hagree.2) fun types => ?_
          rw [Value.renameAll_eq, List.map_map]
          have hranges : args.map (Value.range ∘ Value.rename f) = args.map Value.range :=
            List.map_congr_left fun arg _ => arg.rename_range f
          rw [hranges]
          exact judgeCall_upTo hcallee range params result _
      | _ =>
          refine .step hR ?_ fun _ => .pure hR rfl
          rw [Value.rename_range]
          exact report_upTo (by rw [Problem.rename, hcallee]) _ _
termination_by structural value

theorem Value.checkAll_rename {f : String → String} (values : List Value)
    (h : AllRestored back f (Value.allKinds values))
    (hstrays : ∀ name ∈ Value.allStrays values, f name = name) {structs : List String}
    {scopes others : Scopes}
    (hagree : Scopes.Agree back f (Value.allReads values) scopes others) :
    (Value.checkAll structs scopes values).Match (UpTo back) Eq
      (Value.checkAll structs others (Value.renameAll f values)) := by
  have hR := additive_upTo back
  match values with
  | [] => exact .pure hR rfl
  | value :: values =>
      simp only [Value.allKinds, allRestored_append] at h
      simp only [Value.allStrays, List.forall_mem_append] at hstrays
      simp only [Value.allReads, Scopes.agree_append] at hagree
      rw [Value.renameAll, Value.checkAll, Value.checkAll]
      refine .step hR (value.follows_rename h.1 hstrays.1 _ _ _ hagree.1) fun _ => ?_
      refine .step hR (Value.checkAll_rename values h.2 hstrays.2 hagree.2) fun _ => ?_
      exact .pure hR rfl
termination_by structural values

theorem Clause.check_rename {f : String → String} (clause : Clause)
    (h : AllRestored back f clause.kinds) (hstrays : ∀ name ∈ clause.strays, f name = name)
    {structs : List String} {scopes others : Scopes}
    (hagree : Scopes.Agree back f clause.reads scopes others) :
    (clause.check structs scopes).Match (UpTo back) Eq
      ((clause.rename f).check structs others) := by
  have hR := additive_upTo back
  match clause with
  | .mk _ condition body =>
      simp only [Clause.kinds, allRestored_enclosed, allRestored_append] at h
      simp only [Clause.strays, List.forall_mem_append] at hstrays
      simp only [Clause.reads, Scopes.agree_append] at hagree
      rw [Clause.rename, Clause.check, Clause.check, Value.rename_range]
      refine .step hR (condition.follows_rename h.1 hstrays.1 _ _ _ hagree.1) fun _ => ?_
      refine .step hR (judgeCondition_upTo _ _ _) fun _ => ?_
      exact body.follows_rename h.2 hstrays.2 _ _ _ hagree.2
termination_by structural clause

theorem Clause.checkAll_rename {f : String → String} (clauses : List Clause)
    (h : AllRestored back f (Clause.allKinds clauses))
    (hstrays : ∀ name ∈ Clause.allStrays clauses, f name = name) {structs : List String}
    {scopes others : Scopes}
    (hagree : Scopes.Agree back f (Clause.allReads clauses) scopes others) :
    (Clause.checkAll structs scopes clauses).Match (UpTo back) Eq
      (Clause.checkAll structs others (Clause.renameAll f clauses)) := by
  have hR := additive_upTo back
  match clauses with
  | [] => exact .pure hR rfl
  | clause :: clauses =>
      simp only [Clause.allKinds, allRestored_append] at h
      simp only [Clause.allStrays, List.forall_mem_append] at hstrays
      simp only [Clause.allReads, Scopes.agree_append] at hagree
      rw [Clause.renameAll, Clause.checkAll, Clause.checkAll]
      refine .step hR (clause.check_rename h.1 hstrays.1 hagree.1) fun _ => ?_
      refine .step hR (Clause.checkAll_rename clauses h.2 hstrays.2 hagree.2) fun _ => ?_
      exact .pure hR rfl
termination_by structural clauses

theorem LetBinding.checkAll_rename {f : String → String} (bindings : List LetBinding)
    (h : AllRestored back f (LetBinding.allKinds bindings))
    (hstrays : ∀ name ∈ LetBinding.allStrays bindings, f name = name) {names : List String}
    {structs : List String} {scopes others : Scopes}
    (hlocal : ∀ name ∈ LetBinding.bound bindings, others.local? name = scopes.local? name)
    (hagree : Scopes.Agree back f
      (LetBinding.allReads bindings ++ without (LetBinding.bound bindings) names) scopes others) :
    (LetBinding.checkAll structs scopes bindings).Match (UpTo back)
      (Scopes.Agree back (except (LetBinding.bound bindings) f) names)
      (LetBinding.checkAll structs others (LetBinding.renameAll f bindings)) := by
  have hR := additive_upTo back
  match bindings with
  | [] =>
      refine .pure hR ?_
      rw [LetBinding.bound, List.map_nil, except_nil]
      exact (Scopes.agree_append.mp hagree).2.mono fun name hname => by
        simpa [LetBinding.bound] using hname
  | .mk range ident value :: bindings =>
      simp only [LetBinding.allKinds, LetBinding.kinds, allRestored_append, allRestored_enclosed,
        allRestored_cons, Ident.restored_kind] at h
      simp only [LetBinding.allStrays, List.forall_mem_append] at hstrays
      simp only [LetBinding.allReads, Scopes.agree_append] at hagree
      obtain ⟨⟨hident, hvalue⟩, hbindings⟩ := h
      obtain ⟨⟨hreads, hrest⟩, hnames⟩ := hagree
      have hname : others.local? ident.name = scopes.local? ident.name :=
        hlocal ident.name List.mem_cons_self
      have hlater : Scopes.Agree back f (without [ident.name] (LetBinding.allReads bindings ++
          without (LetBinding.bound bindings) names)) scopes others := by
        intro name hmem
        obtain ⟨hmem, hnot⟩ := mem_without.mp hmem
        rcases List.mem_append.mp hmem with hmem | hmem
        · exact hrest name (mem_without.mpr ⟨hmem, hnot⟩)
        · obtain ⟨hmem, hbound⟩ := mem_without.mp hmem
          refine hnames name (mem_without.mpr ⟨hmem, ?_⟩)
          exact List.not_mem_cons_of_ne_of_not_mem (List.ne_of_not_mem_cons hnot) hbound
      have hvalue := value.follows_rename hvalue hstrays.1
      have hbinding := LetBinding.follows structs hident.1 hvalue range hreads hlater hname
      -- Every binding takes its name out of the renaming for those that follow.
      have hbound : except (LetBinding.bound (.mk range ident value :: bindings)) f =
          except (LetBinding.bound bindings) (except [ident.name] f) := except_cons _ _ f
      rw [LetBinding.renameAll, LetBinding.checkAll, LetBinding.checkAll, hbound]
      refine .bind hR hbinding fun inner otherInner hinner => ?_
      refine LetBinding.checkAll_rename bindings (hbindings.keeping _)
        (except_eq_of_without hstrays.2) (fun name hmem => ?_) hinner.1
      exact hinner.2 name (hlocal name (List.mem_cons_of_mem _ hmem))
termination_by structural bindings

theorem Definition.check_rename {f : String → String} (definition : Definition)
    (h : AllRestored back f definition.kinds)
    (hstrays : ∀ name ∈ definition.strays, f name = name) {names : List String}
    {structs : List String} {scopes others : Scopes}
    (hmirror : Scopes.Mirror back f names scopes others)
    (hreads : definition.reads ⊆ names) :
    (definition.check structs scopes).Match (UpTo back) (Scopes.Mirror back f names)
      ((definition.rename f).check structs others) := by
  have hR := additive_upTo back
  match definition with
  | .function range docs name params body =>
      simp only [Definition.kinds, allRestored_enclosed, List.cons_append, allRestored_cons,
        allRestored_append] at h
      have hbody := body.follows_rename (h.2.2.keeping params.bound) (except_eq_of_without hstrays)
      have hinner := Scopes.Agree.enter (hmirror.outward.mono hreads) fun name hname hbound =>
        absurd hbound (mem_without.mp hname).2
      have hfunction := Definition.follows_function structs h.2.1.1 (h.2.1.2.keeping params.bound)
        hbody (Value.rename_range _ body) range docs hmirror (hmirror.finalize h.2.1.1) hinner
      rw [params.rename_except] at hfunction
      exact hfunction
  | .constant range docs name value =>
      simp only [Definition.kinds, allRestored_enclosed, allRestored_cons] at h
      have hvalue := value.follows_rename h.2.2 hstrays structs _ _ (hmirror.outward.mono hreads)
      rw [Definition.rename, Definition.check, Definition.check]
      refine .step hR hvalue fun type => ?_
      exact .pure hR (hmirror.finalize h.2.1 type)
termination_by structural definition

theorem Definition.checkAll_rename {f : String → String} (definitions : List Definition)
    (h : AllRestored back f (Definition.allKinds definitions))
    (hstrays : ∀ name ∈ Definition.allStrays definitions, f name = name) {names : List String}
    {structs : List String} {scopes others : Scopes}
    (hmirror : Scopes.Mirror back f names scopes others)
    (hreads : Definition.allReads definitions ⊆ names) :
    (Definition.checkAll structs scopes definitions).Match (UpTo back)
      (Scopes.Mirror back f names)
      (Definition.checkAll structs others (Definition.renameAll f definitions)) := by
  have hR := additive_upTo back
  match definitions with
  | [] => exact .pure hR hmirror
  | definition :: definitions =>
      simp only [Definition.allKinds, allRestored_append] at h
      simp only [Definition.allStrays, List.forall_mem_append] at hstrays
      simp only [Definition.allReads, List.append_subset] at hreads
      rw [Definition.renameAll, Definition.checkAll, Definition.checkAll]
      refine .bind hR (definition.check_rename h.1 hstrays.1 hmirror hreads.1) ?_
      intro inner otherInner hinner
      exact Definition.checkAll_rename definitions h.2 hstrays.2 hinner hreads.2
termination_by structural definitions

theorem Definition.register_rename {f : String → String} (definition : Definition)
    (h : AllRestored back f definition.kinds)
    (hstrays : ∀ name ∈ definition.strays, f name = name) {names : List String}
    {structs : List String} {scopes others : Scopes}
    (hmirror : Scopes.Mirror back f names scopes others)
    (hreads : definition.earlyReads ⊆ names) :
    (definition.register structs scopes).Match (UpTo back)
      (Scopes.Mirror back f (definition.name.name :: names))
      ((definition.rename f).register structs others) := by
  have hR := additive_upTo back
  match definition with
  | .function range docs name params body =>
      simp only [Definition.kinds, allRestored_enclosed, List.cons_append, allRestored_cons,
        allRestored_append] at h
      have hproblem : (Problem.alreadyDefined (f name.name)).rename back =
          .alreadyDefined name.name := congrArg Problem.alreadyDefined h.2.1.1.2
      exact hmirror.bindNew h.2.1.1 (params.declaredType structs) hproblem
  | .constant range docs name value =>
      simp only [Definition.kinds, allRestored_enclosed, allRestored_cons] at h
      have hproblem : (Problem.alreadyDefined (f name.name)).rename back =
          .alreadyDefined name.name := congrArg Problem.alreadyDefined h.2.1.2
      have hvalue := value.follows_rename h.2.2 hstrays structs _ _ (hmirror.outward.mono hreads)
      have hnew := hmirror.bindNew h.2.1 (value.check structs scopes).result hproblem
      rw [Definition.rename, Definition.register, Definition.register, ← hvalue.result]
      exact hnew
termination_by structural definition

theorem Definition.registerAll_rename {f : String → String} (definitions : List Definition)
    (h : AllRestored back f (Definition.allKinds definitions))
    (hstrays : ∀ name ∈ Definition.allStrays definitions, f name = name) {names : List String}
    {structs : List String} {scopes others : Scopes}
    (hmirror : Scopes.Mirror back f (Definition.allEarlyReads definitions ++
      without (Definition.bound definitions) names) scopes others) :
    (Definition.registerAll structs scopes definitions).Match (UpTo back)
      (Scopes.Mirror back f names)
      (Definition.registerAll structs others (Definition.renameAll f definitions)) := by
  have hR := additive_upTo back
  match definitions with
  | [] => exact .pure hR (hmirror.mono fun name hname => by
      simpa [Definition.bound, Definition.allEarlyReads] using hname)
  | definition :: definitions =>
      simp only [Definition.allKinds, allRestored_append] at h
      simp only [Definition.allStrays, List.forall_mem_append] at hstrays
      have hreads : definition.earlyReads ⊆ Definition.allEarlyReads (definition :: definitions) ++
          without (Definition.bound (definition :: definitions)) names :=
        fun name hname => List.mem_append_left _ (List.mem_append_left _ hname)
      rw [Definition.renameAll, Definition.registerAll, Definition.registerAll]
      refine .bind hR (definition.register_rename h.1 hstrays.1 hmirror hreads) ?_
      intro inner otherInner hinner
      refine Definition.registerAll_rename definitions h.2 hstrays.2 (hinner.mono ?_)
      intro name hname
      by_cases heq : name = definition.name.name
      · exact heq ▸ List.mem_cons_self
      · apply List.mem_cons_of_mem _
        have hnot : name ∉ [definition.name.name] := by simp [heq]
        rcases List.mem_append.mp hname with hname | hname
        · exact List.mem_append_left _ (List.mem_append_right _ (mem_without.mpr ⟨hname, hnot⟩))
        · obtain ⟨hmem, hbound⟩ := mem_without.mp hname
          refine List.mem_append_right _ (mem_without.mpr ⟨hmem, ?_⟩)
          exact List.not_mem_cons_of_ne_of_not_mem heq hbound
termination_by structural definitions

end

end

end TypedIsl

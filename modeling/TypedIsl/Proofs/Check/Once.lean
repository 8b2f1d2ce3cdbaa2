import TypedIsl.Proofs.Check.Annotations
import TypedIsl.Proofs.Check.Locations
import TypedIsl.Proofs.Check.Undefined
import TypedIsl.Proofs.Syntax.Anchors

/-!
# Nothing is reported twice

At a place there is one value or one name. A kind of problem is either reported by the value there
itself, or by the one form around it that judges the value, or it is a problem of names; so it is
found at most once at a place. Only the names that structs bring in, which all stand at the name of
the struct, may be taken several times.
-/

namespace TypedIsl

/-! ## Counting diagnostics -/

/-- The number of diagnostics of a kind that point at a place. -/
def found (kind : Problem.Kind) (place : Position) (ds : List Diagnostic) : Nat :=
  ds.countP fun d => d.problem.kind = kind ∧ d.range.start = place

/-- Whether problems of the kind are found where a value is judged that is part of a form. -/
def Problem.Kind.judges : Problem.Kind → Bool
  | notCallable => true
  | argumentMismatch => true
  | returnMismatch => true
  | conditionNotBoolean => true
  | _ => false

/-- The place of a value, if problems of the kind are found there by the form around it. -/
def Value.judged (kind : Problem.Kind) (value : Value) : List Position :=
  if kind.judges then [value.range.start] else []

namespace Subject

def anchors : Subject → List Position
  | value form => form.anchors
  | definition form => form.anchors

def judged (kind : Problem.Kind) : Subject → List Position
  | value form => form.judged kind
  | definition _ => []

variable {kind : Problem.Kind}

@[simp] theorem anchors_value (form : Value) : (value form).anchors = form.anchors := rfl

@[simp] theorem anchors_definition (form : Definition) :
    (definition form).anchors = form.anchors := rfl

@[simp] theorem judged_value (form : Value) : (value form).judged kind = form.judged kind := rfl

@[simp] theorem judged_definition (form : Definition) : (definition form).judged kind = [] := rfl

end Subject

section

variable {kind : Problem.Kind} {place : Position} {ds es : List Diagnostic}

@[simp] theorem found_nil : found kind place [] = 0 := rfl

@[simp] theorem found_append :
    found kind place (ds ++ es) = found kind place ds + found kind place es :=
  List.countP_append

theorem found_eq_zero (h : ∀ d ∈ ds, d.problem.kind ≠ kind) : found kind place ds = 0 :=
  List.countP_eq_zero.mpr fun d hd hfound => h d hd (of_decide_eq_true hfound).1

theorem found_le_count (kind : Problem.Kind) (place : Position) (ds : List Diagnostic) :
    found kind place ds ≤ (ds.map (·.range.start)).count place := by
  rw [List.count, List.countP_map]
  refine List.countP_mono_left fun d _ hfound => ?_
  exact beq_of_eq (of_decide_eq_true hfound).2

theorem found_flatMap_le {α : Type} {list : List α} {dsOf : α → List Diagnostic}
    {places : α → List Position}
    (h : ∀ a ∈ list, found kind place (dsOf a) ≤ (places a).count place) :
    found kind place (list.flatMap dsOf) ≤ (list.flatMap places).count place := by
  induction list with
  | nil => exact Nat.le_refl _
  | cons a list ih =>
      obtain ⟨ha, hlist⟩ := List.forall_mem_cons.mp h
      rw [List.flatMap_cons, List.flatMap_cons, found_append, List.count_append]
      exact Nat.add_le_add ha (ih hlist)

/-- If no kind but one is found twice at any place, then no two diagnostics of other kinds agree in
their kinds and ranges. -/
theorem pairwise_of_found
    (h : ∀ kind place, kind ≠ .alreadyDefined → found kind place ds ≤ 1) :
    (ds.filter (·.problem.kind ≠ .alreadyDefined)).Pairwise
      fun d e => d.range = e.range → d.problem.kind ≠ e.problem.kind := by
  induction ds with
  | nil => exact .nil
  | cons d ds ih =>
      have hrest : ∀ kind place, kind ≠ .alreadyDefined → found kind place ds ≤ 1 := by
        intro kind place hkind
        have hall := h kind place hkind
        rw [← List.singleton_append, found_append] at hall
        omega
      by_cases hkind : d.problem.kind = .alreadyDefined
      · rw [List.filter_cons_of_neg (by simp [hkind])]
        exact ih hrest
      · rw [List.filter_cons_of_pos (by simp [hkind])]
        refine List.pairwise_cons.mpr ⟨fun e he hrange hsame => ?_, ih hrest⟩
        have hfound : 0 < found d.problem.kind d.range.start ds := by
          refine List.countP_pos_iff.mpr ⟨e, List.mem_of_mem_filter he, decide_eq_true ?_⟩
          exact ⟨hsame.symm, congrArg Range.start hrange.symm⟩
        have hall := h _ d.range.start hkind
        rw [found, List.countP_cons_of_pos (by simp)] at hall
        exact absurd hall (by rw [found] at hfound; omega)

variable (kind place)

/-! ## Judgements -/

theorem Value.count_judged_le (value : Value) :
    (value.judged kind).count place ≤ [value.range.start].count place := by
  rw [judged]
  split
  · exact Nat.le_refl _
  · exact Nat.zero_le _

variable {kind place} in
theorem found_judged {d : Diagnostic} {value : Value} (hjudges : d.problem.kind.judges = true)
    (hrange : d.range = value.range) :
    found kind place [d] ≤ (value.judged kind).count place := by
  by_cases hkind : d.problem.kind = kind
  · subst hkind
    rw [Value.judged, if_pos hjudges, ← hrange]
    exact found_le_count _ _ [d]
  · rw [found_eq_zero (by simpa using hkind)]
    exact Nat.zero_le _

variable {kind place} in
/-- A kind of problem that a value reports itself is not found where it is judged. -/
theorem found_own (value : Value) {d : Diagnostic} (hjudges : d.problem.kind.judges = false)
    (hrange : d.range = value.range) :
    found kind place [d] + (value.judged kind).count place ≤ [value.range.start].count place := by
  by_cases hkind : d.problem.kind = kind
  · subst hkind
    rw [Value.judged, if_neg (by rw [hjudges]; decide), ← hrange]
    exact found_le_count _ _ [d]
  · rw [found_eq_zero (by simpa using hkind), Nat.zero_add]
    exact value.count_judged_le kind place

theorem found_judgeCondition (form : String) (condition : Value) (type : Ty) :
    found kind place (judgeCondition form condition.range type).diagnostics ≤
      (condition.judged kind).count place := by
  rw [judgeCondition, Judged.ensure]
  split
  · exact Nat.zero_le _
  · exact found_judged rfl rfl

theorem found_judgeResult (function? : Option String) (body : Value) (declared : Range)
    (expected actual : Ty) :
    found kind place (judgeResult function? body.range declared expected actual).diagnostics ≤
      (body.judged kind).count place := by
  rw [judgeResult]
  split
  · exact Nat.zero_le _
  · exact found_judged rfl rfl

theorem found_judgeArgs (callee : Callee) (position : Nat) (args : List Value)
    (types expected : List Ty) :
    found kind place
        (judgeArgs callee position ((args.map Value.range).zip types) expected).diagnostics ≤
      (args.flatMap (Value.judged kind)).count place := by
  induction args generalizing position types expected with
  | nil => exact Nat.zero_le _
  | cons arg args ih =>
      match types, expected with
      | [], _ => exact Nat.zero_le _
      | _ :: _, [] => exact Nat.zero_le _
      | actual :: types, type :: expected =>
          rw [List.map_cons, List.zip_cons_cons, judgeArgs, Judged.diagnostics_bind, found_append,
            List.flatMap_cons, List.count_append]
          refine Nat.add_le_add ?_ (ih _ _ _)
          rw [Judged.ensure]
          split
          · exact Nat.zero_le _
          · exact found_judged rfl rfl

theorem found_judgeCall (range : Range) (callee : Value) (params : List Param) (result : Ty)
    (args : List Value) (types : List Ty) :
    found kind place (judgeCall range callee.asCallee params result
        ((args.map Value.range).zip types)).diagnostics +
        ((Value.call range callee args).judged kind).count place ≤
      [range.start].count place + (args.flatMap (Value.judged kind)).count place := by
  rw [judgeCall]
  split
  · rename_i expected _
    have hargs := found_judgeArgs kind place callee.asCallee 1 args types expected
    have hown := (Value.call range callee args).count_judged_le kind place
    rw [Judged.diagnostics_bind, Judged.diagnostics_pure, List.append_nil]
    exact Nat.add_comm _ _ ▸ Nat.add_le_add hown hargs
  · exact Nat.le_add_right_of_le (found_own (.call range callee args) rfl rfl)

theorem Scopes.found_use (scopes : Scopes) (ident : Ident) :
    found kind place (scopes.use ident).diagnostics +
        ((Value.name ident).judged kind).count place ≤ [ident.range.start].count place := by
  rw [use]
  split
  · rw [Judged.diagnostics_pure, found_nil, Nat.zero_add]
    exact (Value.name ident).count_judged_le kind place
  · exact found_own (.name ident) rfl rfl

/-! ## Names -/

theorem TypeExpr.found_resolve (structs : List String) (type : TypeExpr) :
    found kind place (type.resolve structs).diagnostics ≤ type.anchors.count place := by
  cases type with
  | named name =>
      rw [resolve]
      split
      · exact Nat.zero_le _
      · exact found_le_count _ _ _
  | apply range function args =>
      by_cases hany : function.name = "Any"
      · rw [resolve_any hany]
        exact Nat.zero_le _
      by_cases hlist : function.name = "List-of"
      · cases args with
        | nil =>
            rw [resolve_listOf_nil hlist]
            exact Nat.zero_le _
        | cons arg args =>
            rw [resolve_listOf_cons hlist, Judged.diagnostics_bind, Judged.diagnostics_pure,
              List.append_nil]
            refine (found_resolve structs arg).trans (List.Sublist.count_le _ ?_)
            exact (List.sublist_append_left _ _).cons _
      · rw [resolve_of_not_builtin (by simp [builtinTypeFunctions, hany, hlist])]
        refine (found_le_count _ _ _).trans (List.Sublist.count_le _ ?_)
        exact (List.nil_sublist _).cons_cons _

theorem Scopes.found_bindNew (scopes : Scopes) (name : Ident) (type : Ty) (problem : Problem) :
    found kind place (scopes.bindNew name type problem).diagnostics ≤
      [name.range.start].count place := by
  rw [bindNew]
  split
  · rename_i d hconflict
    rw [← range_of_conflict? hconflict]
    exact found_le_count _ _ [d]
  · exact Nat.zero_le _

theorem Move.found_makeAll (scopes : Scopes) (moves : List Move) :
    found kind place (makeAll scopes moves).diagnostics ≤
      ((moves.filterMap binder?).map (·.range.start)).count place := by
  induction moves generalizing scopes with
  | nil => exact Nat.zero_le _
  | cons move moves ih =>
      rw [makeAll, Judged.diagnostics_bind, found_append]
      cases move with
      | finalize definition type =>
          rw [make, Judged.diagnostics_pure, found_nil, Nat.zero_add]
          exact ih _
      | bind name type locally =>
          have hname := scopes.found_bindNew kind place name type
            (name.taken locally)
          rw [List.filterMap_cons, binder?, List.map_cons, ← List.singleton_append,
            List.count_append]
          exact Nat.add_le_add hname (ih _)

/-- Whatever is found where names are bound that are not local is of the one excepted kind. -/
theorem Move.found_makeAll_eq_zero (hkind : kind ≠ .alreadyDefined) (scopes : Scopes)
    (moves : List Move) (h : ∀ move ∈ moves, ∃ name type, move = .bind name type false) :
    found kind place (makeAll scopes moves).diagnostics = 0 := by
  induction moves generalizing scopes with
  | nil => rfl
  | cons move moves ih =>
      obtain ⟨⟨name, type, rfl⟩, hmoves⟩ := List.forall_mem_cons.mp h
      rw [makeAll, Judged.diagnostics_bind, found_append, ih _ hmoves, Nat.add_zero, make,
        Scopes.bindNew]
      split
      · rename_i d hconflict
        obtain ⟨binding, -, rfl⟩ := Option.map_eq_some_iff.mp hconflict
        exact found_eq_zero fun d hd => List.mem_singleton.mp hd ▸ hkind.symm
      · rfl

theorem Params.count_anchors (params : Params) :
    (params.annotations.flatMap TypeExpr.anchors).count place +
        (params.names.map (·.range.start)).count place = params.anchors.count place := by
  match params with
  | .untyped _ names => simp [annotations, Params.names, anchors]
  | .typed _ params result? =>
      simp only [annotations, Params.names, anchors, List.flatMap_append, List.count_append]
      induction params with
      | nil => simp
      | cons param params ih =>
          simp only [List.map_cons, List.flatMap_cons, TypedParam.anchors, List.count_append,
            List.cons_append, List.count_cons] at ih ⊢
          omega

theorem Params.found_reports (structs : List String) (scopes : Scopes) (function? : Option String)
    (body : Value) (actual : Ty) (params : Params) :
    found kind place (params.reports structs scopes function? body.range actual) ≤
      params.anchors.count place + (body.judged kind).count place := by
  have htypes : found kind place
      (params.annotations.flatMap fun type => (type.resolve structs).diagnostics) ≤
        (params.annotations.flatMap TypeExpr.anchors).count place :=
    found_flatMap_le fun type _ => type.found_resolve kind place structs
  have hnames := Move.found_makeAll kind place scopes.enter
    (params.moves structs)
  rw [params.makeAll_moves, params.binders_moves] at hnames
  have hresult : found kind place (params.result?.toList.flatMap fun declared =>
      (judgeResult function? body.range declared.range (declared.resolve structs).result
        actual.collapse).diagnostics) ≤ (body.judged kind).count place := by
    cases params.result? with
    | none => exact Nat.zero_le _
    | some declared =>
        rw [Option.toList_some, List.flatMap_singleton]
        exact found_judgeResult kind place _ _ _ _ _
  rw [reports, found_append, found_append, ← params.count_anchors place]
  omega

/-! ## Visits -/

theorem Clause.found_reports (structs : List String) (scopes : Scopes) (clauses : List Clause) :
    let steps := clauses.flatMap (Clause.steps scopes)
    found kind place (clauses.flatMap (Clause.reports structs scopes)) +
        (steps.flatMap (·.subject.anchors)).count place ≤
      (Clause.allAnchors clauses).count place +
        (steps.flatMap (·.subject.judged kind)).count place := by
  induction clauses with
  | nil => exact Nat.le_refl _
  | cons clause clauses ih =>
      obtain ⟨range, condition, body⟩ := clause
      have hcondition := found_judgeCondition kind place "cond" condition
        (condition.check structs scopes).result
      simp only [List.flatMap_cons, List.flatMap_append, found_append, List.count_append,
        Clause.reports, Clause.steps, Clause.allAnchors, Clause.anchors, Subject.anchors,
        Subject.judged, List.flatMap_nil, List.count_nil] at ih ⊢
      omega

theorem LetBinding.found_reports (scopes : Scopes) (binding : LetBinding) :
    found kind place (binding.reports scopes) +
        ((binding.steps scopes).flatMap (·.subject.anchors)).count place ≤
      binding.anchors.count place := by
  obtain ⟨range, name, value⟩ := binding
  have hname := found_le_count kind place
    (scopes.conflict? name (.alreadyDefinedLocally name.name)).toList
  rw [reports, steps, anchors]
  cases hlocal : scopes.local? name.name with
  | none => simp [Scopes.conflict?, hlocal, List.count_cons]
  | some binding =>
      simp [Scopes.conflict?, hlocal, List.count_cons] at hname ⊢
      omega

theorem LetBinding.found_stages (structs : List String) (scopes : Scopes)
    (bindings : List LetBinding) :
    let next := fun (scopes : Scopes) (binding : LetBinding) =>
      (binding.check structs scopes).result
    found kind place ((stages next scopes bindings).flatMap fun (scopes, binding) =>
          binding.reports scopes) +
        (((stages next scopes bindings).flatMap fun (scopes, binding) =>
          binding.steps scopes).flatMap (·.subject.anchors)).count place ≤
      (LetBinding.allAnchors bindings).count place := by
  intro next
  induction bindings generalizing scopes with
  | nil => exact Nat.le_refl _
  | cons binding bindings ih =>
      have hrest := ih (next scopes binding)
      have hbinding := binding.found_reports kind place scopes
      simp only [stages, List.flatMap_cons, List.flatMap_append, found_append, List.count_append,
        LetBinding.allAnchors] at hrest ⊢
      omega

theorem Definition.anchors_stages (next : Scopes → Definition → Scopes) (scopes : Scopes)
    (definitions : List Definition) :
    ((stages next scopes definitions).map fun (scopes, definition) =>
        Visit.mk scopes (.definition definition)).flatMap (·.subject.anchors) =
      allAnchors definitions := by
  induction definitions generalizing scopes with
  | nil => rfl
  | cons definition definitions ih =>
      rw [stages, List.map_cons, List.flatMap_cons, ih, allAnchors]
      rfl

theorem Definition.eq_bind_of_mem_registration {structs : List String} {scopes : Scopes}
    {definition : Definition} {move : Move} (h : move ∈ definition.registration structs scopes) :
    ∃ name type, move = .bind name type false := by
  cases definition <;> exact ⟨_, _, List.mem_singleton.mp h⟩

theorem Definition.found_registerAll (hkind : kind ≠ .alreadyDefined) (structs : List String)
    (scopes : Scopes) (definitions : List Definition) :
    found kind place (registerAll structs scopes definitions).diagnostics = 0 := by
  rw [← makeAll_registrations]
  refine Move.found_makeAll_eq_zero kind place hkind scopes _ fun move hmove => ?_
  obtain ⟨_, definition, -, hmove⟩ := Move.exists_of_mem_along hmove
  exact eq_bind_of_mem_registration hmove

/-- What is called is judged, or the arguments are, or the call itself has the wrong number of
them. -/
theorem Value.found_call (structs : List String) (scopes : Scopes) (range : Range) (callee : Value)
    (args : List Value) :
    let value := Value.call range callee args
    found kind place (value.reports structs scopes) + (value.judged kind).count place ≤
      [range.start].count place +
        ((value.steps structs scopes).flatMap (·.subject.judged kind)).count place := by
  have hown : ((call range callee args).judged kind).count place ≤ [range.start].count place :=
    count_judged_le kind place _
  intro value
  simp only [value, reports, steps, List.flatMap_cons, List.count_append, Subject.judged_value]
  split
  · exact (Nat.zero_add _).symm ▸ Nat.le_add_right_of_le hown
  · rename_i params result hcallee
    have hcall := found_judgeCall kind place range callee params result args
      (checkAll structs scopes args).result
    have hargs : (args.map fun arg => Visit.mk scopes (.value arg)).flatMap
        (·.subject.judged kind) = args.flatMap (judged kind) := by
      rw [List.flatMap_map]
      rfl
    rw [hcallee, if_pos (show (Ty.function params result).tag = .function from rfl), hargs]
    omega
  · have hcallee : found kind place [⟨.notCallable callee.asCallee
        (callee.check structs scopes).result.tag, callee.range, []⟩] ≤
          (callee.judged kind).count place := found_judged rfl rfl
    omega

theorem Value.anchors_call_steps (structs : List String) (scopes : Scopes) (range : Range)
    (callee : Value) (args : List Value) :
    (((call range callee args).steps structs scopes).flatMap (·.subject.anchors)).Sublist
      (callee.anchors ++ allAnchors args) := by
  rw [steps, List.flatMap_cons]
  refine (List.Sublist.refl _).append ?_
  split
  · rw [List.flatMap_map, allAnchors_eq]
    exact List.Sublist.refl _
  · exact List.nil_sublist _

/-- What a value reports itself takes up its own place, unless that is left to the form around it,
the places of names, and those that its parts leave to it. -/
theorem Value.found_reports (hkind : kind ≠ .alreadyDefined) (structs : List String)
    (scopes : Scopes) (value : Value) :
    found kind place (value.reports structs scopes) + (value.judged kind).count place +
        ((value.steps structs scopes).flatMap (·.subject.anchors)).count place ≤
      value.anchors.count place +
        ((value.steps structs scopes).flatMap (·.subject.judged kind)).count place := by
  have hown := value.count_judged_le kind place
  match value with
  | .literal _ _ => simpa [reports, steps, anchors, range] using hown
  | .require _ _ => simpa [reports, steps, anchors, range] using hown
  | .name ident => simpa [reports, steps, anchors] using scopes.found_use kind place ident
  | .branch range condition thenArm elseArm =>
      have hcondition := found_judgeCondition kind place "if" condition
        (condition.check structs scopes).result
      simp only [Value.range, List.count_cons, List.count_nil] at hown
      simp only [reports, steps, anchors, Subject.anchors_value, Subject.judged_value,
        List.flatMap_cons, List.flatMap_nil, List.count_append, List.count_cons, List.count_nil]
      omega
  | .cond range clauses none =>
      have hclauses := Clause.found_reports kind place structs scopes clauses
      simp only [Value.range, List.count_cons, List.count_nil] at hown
      simp only [reports, steps, anchors, Option.toList_none, List.map_nil, List.append_nil,
        List.count_cons] at hclauses ⊢
      omega
  | .cond range clauses (some otherwise) =>
      have hclauses := Clause.found_reports kind place structs scopes clauses
      simp only [Value.range, List.count_cons, List.count_nil] at hown
      simp only [reports, steps, anchors, Option.toList_some, List.map_cons, List.map_nil,
        List.flatMap_append, List.flatMap_singleton, List.count_append, Subject.anchors_value,
        List.count_cons] at hclauses ⊢
      omega
  | .lambda range params body =>
      have hparams := params.found_reports kind place structs scopes none body
        (body.check structs (params.inner structs scopes)).result
      simp only [Value.range, List.count_cons, List.count_nil] at hown
      simp only [reports, steps, anchors, List.flatMap_singleton, Subject.anchors_value,
        Subject.judged_value, List.count_append, List.count_cons]
      omega
  | .locals range definitions body =>
      have hregister := Definition.found_registerAll kind place hkind structs scopes.enter
        definitions
      simp only [Value.range, List.count_cons, List.count_nil] at hown
      simp only [reports, steps, anchors, hregister, List.flatMap_append,
        Definition.anchors_stages, List.flatMap_singleton, Subject.anchors_value,
        List.count_append, List.count_cons]
      omega
  | .lets range _ bindings body =>
      have hbindings := LetBinding.found_stages kind place structs
        scopes.enter bindings
      simp only [Value.range, List.count_cons, List.count_nil] at hown
      simp only [reports, steps, anchors, List.flatMap_append, List.flatMap_singleton,
        Subject.anchors_value, List.count_append, List.count_cons] at hbindings ⊢
      omega
  | .call range callee args =>
      have hcall := found_call kind place structs scopes range callee args
      have hsteps := (anchors_call_steps structs scopes range callee args).count_le place
      rw [anchors, ← List.singleton_append, List.count_append]
      omega

theorem Definition.found_reports (structs : List String) (scopes : Scopes)
    (definition : Definition) :
    found kind place (definition.reports structs scopes) +
        ((definition.steps structs scopes).flatMap (·.subject.anchors)).count place ≤
      definition.anchors.count place +
        ((definition.steps structs scopes).flatMap (·.subject.judged kind)).count place := by
  cases definition with
  | constant range docs name value =>
      simp only [reports, steps, anchors, found_nil, List.flatMap_singleton, Subject.anchors,
        List.count_cons]
      omega
  | function range docs name params body =>
      have hparams := params.found_reports kind place structs scopes
        (some name.name) body (body.check structs (params.inner structs scopes)).result
      have hname : found kind place (if params.result?.isSome then []
          else [⟨.notTypeChecked name.name, name.range, []⟩]) ≤
            [name.range.start].count place := by
        split
        · exact Nat.zero_le _
        · exact found_le_count _ _ _
      simp only [reports, steps, anchors, found_append, List.flatMap_singleton, Subject.anchors,
        Subject.judged, List.count_append, List.count_cons, List.count_nil] at hname ⊢
      omega

variable {kind place} in
/-- What is found at some visits, each of which leaves a place to the form around it. -/
theorem Visit.found_steps {structs : List String} {visits : List Visit}
    (h : ∀ visit ∈ visits, found kind place (visit.diagnostics structs) +
      (visit.subject.judged kind).count place ≤ visit.subject.anchors.count place) :
    found kind place (visits.flatMap (Visit.diagnostics structs)) +
        (visits.flatMap (·.subject.judged kind)).count place ≤
      (visits.flatMap (·.subject.anchors)).count place := by
  induction visits with
  | nil => exact Nat.le_refl _
  | cons visit visits ih =>
      obtain ⟨hvisit, hvisits⟩ := List.forall_mem_cons.mp h
      have hrest := ih hvisits
      simp only [List.flatMap_cons, found_append, List.count_append]
      omega

theorem Visit.found_reports (hkind : kind ≠ .alreadyDefined) (structs : List String)
    (visit : Visit) :
    found kind place (visit.reports structs) + (visit.subject.judged kind).count place +
        ((visit.steps structs).flatMap (·.subject.anchors)).count place ≤
      visit.subject.anchors.count place +
        ((visit.steps structs).flatMap (·.subject.judged kind)).count place := by
  obtain ⟨scopes, value | definition⟩ := visit
  · exact value.found_reports kind place hkind structs scopes
  · exact definition.found_reports kind place structs scopes

/-- The diagnostics found at a visit and in all that it leads to are no more than the places there,
one of which is left to the form around it if that judges the value. -/
theorem Visit.found_diagnostics (hkind : kind ≠ .alreadyDefined) (structs : List String)
    (visit : Visit) :
    found kind place (visit.diagnostics structs) + (visit.subject.judged kind).count place ≤
      visit.subject.anchors.count place := by
  induction visit using Visit.induction structs with
  | h visit ih =>
      have hown := visit.found_reports kind place hkind structs
      have hsteps := found_steps ih
      have hall : found kind place (visit.diagnostics structs) = found kind place
          (visit.reports structs ++ (visit.steps structs).flatMap (Visit.diagnostics structs)) :=
        (visit.diagnostics_perm structs).countP_eq _
      rw [found_append] at hall
      omega

end

/-! ## Programs -/

section

variable (kind : Problem.Kind) (place : Position)

theorem Params.found_fieldTypes (structs : List String) (params : Params) :
    found kind place (params.fieldTypes structs).diagnostics ≤ params.anchors.count place := by
  cases params with
  | untyped range names => exact Nat.zero_le _
  | typed range params result? =>
      have htypes : found kind place ((params.map (·.type)).flatMap fun type =>
          (type.resolve structs).diagnostics) ≤
            ((params.map (·.type)).flatMap TypeExpr.anchors).count place :=
        found_flatMap_le fun type _ => type.found_resolve kind place structs
      have hanchors := (Params.typed range params result?).count_anchors place
      rw [annotations, List.flatMap_append, List.count_append] at hanchors
      rw [fieldTypes, resolveParams_diagnostics]
      omega

theorem StructDefinition.found_register (hkind : kind ≠ .alreadyDefined) (structs : List String)
    (registered : Registered) (definition : StructDefinition) :
    found kind place (definition.register structs registered).diagnostics ≤
      (Node.struct definition).anchors.count place := by
  cases hconflict : registered.scopes.conflict? definition.name
      (.alreadyDefined definition.name.name) with
  | some d =>
      obtain ⟨binding, -, rfl⟩ := Option.map_eq_some_iff.mp hconflict
      rw [register, hconflict]
      refine (found_eq_zero fun d hd => ?_).trans_le (Nat.zero_le _)
      exact List.mem_singleton.mp hd ▸ hkind.symm
  | none =>
      have hfields := definition.fields.found_fieldTypes kind place structs
      have hcoined : ∀ scopes coined, found kind place
          (bindCoined definition.name.range scopes coined).diagnostics = 0 := by
        intro scopes coined
        rw [← makeAll_coined]
        refine Move.found_makeAll_eq_zero kind place hkind scopes _ fun move hmove => ?_
        obtain ⟨⟨name, type⟩, -, rfl⟩ := List.mem_map.mp hmove
        exact ⟨_, _, rfl⟩
      rw [register, hconflict]
      simp only [Judged.diagnostics_bind, Judged.diagnostics_pure, List.append_nil, found_append,
        hcoined, Node.anchors, List.count_cons]
      omega

end

namespace TopLevel

variable (kind : Problem.Kind) (place : Position)

/-- The places of a struct, which is looked at only while names are bound. -/
def structAnchors : TopLevel → List Position
  | struct form => (Node.struct form).anchors
  | _ => []

theorem found_register (hkind : kind ≠ .alreadyDefined) (structs : List String)
    (registered : Registered) (form : TopLevel) :
    found kind place (form.register structs registered).diagnostics ≤
      form.structAnchors.count place := by
  cases form with
  | value form => exact Nat.zero_le _
  | definition form =>
      have hmoves := Move.found_makeAll_eq_zero kind place hkind registered.scopes
        (form.registration structs registered.scopes)
        fun _ hmove => Definition.eq_bind_of_mem_registration hmove
      rw [form.makeAll_registration] at hmoves
      rw [register, Judged.diagnostics_bind, Judged.diagnostics_pure, List.append_nil, hmoves]
      exact Nat.zero_le _
  | struct form => exact form.found_register kind place hkind structs registered

theorem found_check (hkind : kind ≠ .alreadyDefined) (structs : List String) (scopes : Scopes)
    (form : TopLevel) :
    found kind place (form.check structs scopes).diagnostics + form.structAnchors.count place ≤
      form.node.anchors.count place := by
  cases form with
  | struct form => exact Nat.le_of_eq (Nat.zero_add _)
  | definition form =>
      exact Visit.found_diagnostics kind place hkind structs ⟨scopes, .definition form⟩
  | value form =>
      have hvalue := Visit.found_diagnostics kind place hkind structs ⟨scopes, .value form⟩
      rw [check, Judged.diagnostics_bind, Judged.diagnostics_pure, List.append_nil]
      exact (Nat.le_add_right _ _).trans hvalue

end TopLevel

namespace Program

variable (kind : Problem.Kind) (place : Position)

theorem found_register (hkind : kind ≠ .alreadyDefined) (structs : List String)
    (registered : Registered) (program : Program) :
    found kind place (register structs registered program).diagnostics ≤
      (program.flatMap TopLevel.structAnchors).count place := by
  induction program generalizing registered with
  | nil => exact Nat.le_refl _
  | cons form program ih =>
      rw [register, Judged.diagnostics_bind, found_append, List.flatMap_cons, List.count_append]
      exact Nat.add_le_add (form.found_register kind place hkind structs registered) (ih _)

theorem found_checkForms (hkind : kind ≠ .alreadyDefined) (structs : List String)
    (scopes : Scopes) (program : Program) :
    found kind place (checkForms structs scopes program).diagnostics +
        (program.flatMap TopLevel.structAnchors).count place ≤
      (anchors program).count place := by
  induction program generalizing scopes with
  | nil => exact Nat.le_refl _
  | cons form program ih =>
      have hform := form.found_check kind place hkind structs scopes
      have hrest := ih (form.check structs scopes).result
      rw [anchors] at hrest ⊢
      rw [checkForms, Judged.diagnostics_bind, found_append, List.flatMap_cons, List.count_append,
        List.flatMap_cons, List.count_append]
      omega

/-- Every kind of problem but one is found at most as often as there are values and names at the
place. -/
theorem found_diagnostics (hkind : kind ≠ .alreadyDefined) (language : Language)
    (program : Program) :
    found kind place (check language program).diagnostics ≤ (anchors program).count place := by
  have hregister := found_register kind place hkind (structNames program)
    ⟨.root language.scope, []⟩ program
  have hcheck := found_checkForms kind place hkind (structNames program)
    (registered language program).result.scopes program
  rw [check, found_append]
  exact (Nat.add_le_add_right hregister _).trans (Nat.add_comm _ _ ▸ hcheck)

/-- No two diagnostics of one kind point at the same range, unless they say that names are defined
already. -/
theorem reported_once {source : String} {program : Program}
    (h : programOfSource source = .ok program) (language : Language) :
    ((check language program).diagnostics.filter (·.problem.kind ≠ .alreadyDefined)).Pairwise
      fun d e => d.range = e.range → d.problem.kind ≠ e.problem.kind := by
  refine pairwise_of_found fun kind place hkind => ?_
  exact (found_diagnostics kind place hkind language program).trans
    (List.nodup_iff_count_le_one.mp (nodup_anchors h) place)

/-- The undefined name in the innermost constant is visited eight times. -/
theorem reported_once_nested :
    ∃ program, programOfSource
        "(define a (local ((define b (local ((define c x)) c))) b))" = .ok program ∧
      ((check .minimal program).diagnostics.filter (·.problem.kind ≠ .alreadyDefined)).Pairwise
        fun d e => d.range = e.range → d.problem.kind ≠ e.problem.kind := by
  have h : programOfSource
      "(define a (local ((define b (local ((define c x)) c))) b))" = .ok _ := rfl
  exact ⟨_, h, reported_once h .minimal⟩

end Program

end TypedIsl

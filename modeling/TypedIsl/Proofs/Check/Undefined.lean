import Mathlib.Data.List.Nodup
import TypedIsl.Proofs.Check.FirstBinding
import TypedIsl.Proofs.Check.Reports
import TypedIsl.Proofs.Syntax.Scoping

/-!
# Undefined names

The scopes in which a part of a program is checked bind exactly the names that are bound there by
the forms around it. So the undefined names are the unbound ones, as far as the checker goes.
-/

namespace TypedIsl

/-! ## The names that scopes bind -/

/-- A move binds the name that it is about, if it is about one, and no other. -/
theorem Move.isSome_local?_make (move : Move) (scopes : Scopes) (name : String) :
    ((move.make scopes).result.local? name).isSome ↔
      name ∈ move.binder?.toList.map (·.name) ∨ (scopes.local? name).isSome := by
  cases hlocal : scopes.local? name with
  | some binding =>
      obtain ⟨later, hlater, -⟩ := move.kept_make hlocal
      rw [hlater]
      exact iff_of_true rfl (.inr rfl)
  | none =>
      have hmake := congrArg Option.isSome (move.local?_make hlocal)
      rw [Option.isSome_map, Option.isSome_map] at hmake
      rw [hmake]
      cases move.binder? <;> simp [eq_comm (a := name)]

/-- Exactly the given names are bound. -/
def Scopes.BindsExactly (scopes : Scopes) (bound : List String) : Prop :=
  ∀ name, (scopes.get? name).isSome ↔ name ∈ bound

section

variable {scopes : Scopes} {bound others : List String}

namespace Scopes.BindsExactly

theorem congr (h : scopes.BindsExactly bound) (hiff : ∀ name, name ∈ bound ↔ name ∈ others) :
    scopes.BindsExactly others :=
  fun name => (h name).trans (hiff name)

theorem enter (h : scopes.BindsExactly bound) : scopes.enter.BindsExactly bound :=
  h

theorem make (h : scopes.BindsExactly bound) (move : Move) :
    (move.make scopes).result.BindsExactly (move.binder?.toList.map (·.name) ++ bound) := by
  intro name
  rw [get?_eq, move.outer_make, Option.isSome_or, Bool.or_eq_true, Move.isSome_local?_make,
    or_assoc, ← Bool.or_eq_true, ← Option.isSome_or, ← get?_eq, h name, List.mem_append]

theorem makeAll (h : scopes.BindsExactly bound) (moves : List Move) :
    (Move.makeAll scopes moves).result.BindsExactly
      ((moves.filterMap Move.binder?).map (·.name) ++ bound) := by
  induction moves generalizing scopes bound with
  | nil => exact h
  | cons move moves ih =>
      refine (ih (h.make move)).congr fun name => ?_
      cases hbinder : move.binder? <;> simp [hbinder, or_left_comm]

end Scopes.BindsExactly

/-- The root scope binds the builtins and the names that are added to them. -/
theorem Scopes.Adds.bindsExactly {language : Language} {names : List String}
    (h : scopes.Adds language names) (houter : scopes.outer = []) :
    scopes.BindsExactly (language.names ++ names) := by
  intro name
  rw [Scopes.get?_eq, houter, List.mem_append, ← h.local?_isSome_iff]
  exact Iff.of_eq (congrArg (fun found => Option.isSome found = true) Option.or_none)

namespace Move

theorem binders_along {α : Type} {moves : Scopes → α → List Move} {binders : α → List Ident}
    (hbinders : ∀ (scopes : Scopes) a, (moves scopes a).filterMap binder? = binders a)
    (scopes : Scopes) (list : List α) :
    (along moves scopes list).filterMap binder? = list.flatMap binders := by
  induction list generalizing scopes with
  | nil => rfl
  | cons a list ih => rw [along, List.filterMap_append, hbinders, ih, List.flatMap_cons]

end Move

section

variable (structs : List String)

theorem Params.binders_moves (params : Params) :
    (params.moves structs).filterMap Move.binder? = params.names := by
  rw [moves, List.filterMap_map]
  cases params with
  | typed range params result? =>
      have hlength := length_resolveParams structs params
      have hnames : ((params.map (·.name)).zip (resolveParams structs params).result).map Prod.fst =
          params.map (·.name) := List.map_fst_zip (by simp [hlength])
      rw [names, ← hnames, ← List.filterMap_eq_map]
      rfl
  | untyped range names =>
      rw [bindings, List.filterMap_map]
      exact List.filterMap_some

theorem LetBinding.binders_moves (scopes : Scopes) (binding : LetBinding) :
    (binding.moves structs scopes).filterMap Move.binder? = [binding.name] := by
  cases binding
  rfl

theorem Definition.binders_registration (scopes : Scopes) (definition : Definition) :
    (definition.registration structs scopes).filterMap Move.binder? = [definition.name] := by
  cases definition <;> rfl

theorem Definition.binders_finalization (scopes : Scopes) (definition : Definition) :
    (definition.finalization structs scopes).filterMap Move.binder? = [] := by
  cases definition with
  | constant range docs name value => rfl
  | function range docs name params body =>
      cases params with
      | untyped paramsRange names => rfl
      | typed paramsRange params result? => cases result? <;> rfl

theorem TopLevel.binders_finalization (scopes : Scopes) (form : TopLevel) :
    (form.finalization structs scopes).filterMap Move.binder? = [] := by
  cases form with
  | definition form => exact form.binders_finalization structs scopes
  | struct form => rfl
  | value form => rfl

end

end

/-! ## What is reported about names -/

/-- The diagnostic for an occurrence of a name that is bound nowhere. -/
def Ident.undefined (ident : Ident) : Diagnostic :=
  ⟨.undefined ident.name, ident.range, []⟩

/-- The diagnostics for undefined names. -/
def undefineds (ds : List Diagnostic) : List Diagnostic :=
  ds.filter (·.problem.kind = .undefined)

/-- The undefined names that the diagnostics report are among the given occurrences, each of them
reported at most once, and at least once unless it is skipped. -/
structure FindsUnbound (skips : Ident → Prop) (idents : List Ident) (ds : List Diagnostic) :
    Prop where
  subperm : (undefineds ds).Subperm (idents.map Ident.undefined)
  found : ∀ ident ∈ idents, skips ident ∨ ident.undefined ∈ ds

namespace FindsUnbound

variable {skips : Ident → Prop} {idents more : List Ident} {ds es : List Diagnostic}

theorem of_kind_ne (h : ∀ d ∈ ds, d.problem.kind ≠ .undefined) : FindsUnbound skips [] ds := by
  have hnone : undefineds ds = [] :=
    List.filter_eq_nil_iff.mpr fun d hd hkind => h d hd (of_decide_eq_true hkind)
  exact ⟨hnone ▸ List.Subperm.refl _, fun _ hident => absurd hident List.not_mem_nil⟩

theorem of_plain (h : AllPlain ds) : FindsUnbound skips [] ds :=
  of_kind_ne fun d hd => (h d hd).kind_ne

theorem nil : FindsUnbound skips [] [] :=
  of_plain allPlain_nil

theorem of_skips (h : ∀ ident ∈ idents, skips ident) : FindsUnbound skips idents [] :=
  ⟨List.nil_subperm, fun ident hident => .inl (h ident hident)⟩

theorem append (h : FindsUnbound skips idents ds) (hmore : FindsUnbound skips more es) :
    FindsUnbound skips (idents ++ more) (ds ++ es) := by
  refine ⟨?_, fun ident hident => ?_⟩
  · rw [undefineds, List.filter_append, List.map_append]
    exact h.subperm.append hmore.subperm
  · rcases List.mem_append.mp hident with hident | hident
    · exact (h.found ident hident).imp_right (List.mem_append_left es)
    · exact (hmore.found ident hident).imp_right (List.mem_append_right ds)

theorem flatMap {α : Type} {list : List α} {identsOf : α → List Ident}
    {dsOf : α → List Diagnostic} (h : ∀ a ∈ list, FindsUnbound skips (identsOf a) (dsOf a)) :
    FindsUnbound skips (list.flatMap identsOf) (list.flatMap dsOf) := by
  induction list with
  | nil => exact nil
  | cons a list ih =>
      obtain ⟨ha, hlist⟩ := List.forall_mem_cons.mp h
      exact ha.append (ih hlist)

theorem perm (h : FindsUnbound skips idents ds) (hperm : es.Perm ds) :
    FindsUnbound skips idents es :=
  ⟨(hperm.filter _).subperm.trans h.subperm,
    fun ident hident => (h.found ident hident).imp_right hperm.mem_iff.mpr⟩

theorem exists_ident (h : FindsUnbound skips idents ds) {d : Diagnostic} (hd : d ∈ ds)
    (hkind : d.problem.kind = .undefined) : ∃ ident ∈ idents, d = ident.undefined := by
  have hundefined := h.subperm.subset (List.mem_filter.mpr ⟨hd, decide_eq_true hkind⟩)
  obtain ⟨ident, hident, heq⟩ := List.mem_map.mp hundefined
  exact ⟨ident, hident, heq.symm⟩

/-- If the occurrences stand at different places, one that is not skipped is reported once. -/
theorem filter_eq (h : FindsUnbound skips idents ds)
    (hstarts : (idents.map (·.range.start)).Nodup) {ident : Ident} (hident : ident ∈ idents)
    (hskips : ¬skips ident) :
    (ds.filter fun d => d.problem.kind = .undefined ∧ d.range = ident.range) =
      [ident.undefined] := by
  have hfound : ident.undefined ∈ undefineds ds :=
    List.mem_filter.mpr ⟨(h.found ident hident).resolve_left hskips, rfl⟩
  have hnodup : (undefineds ds).Nodup := by
    obtain ⟨among, hperm, hsub⟩ := h.subperm
    rw [← hperm.nodup_iff]
    refine hsub.nodup (List.Nodup.of_map (·.range.start) ?_)
    rwa [List.map_map]
  have honly : ∀ d ∈ undefineds ds, d.range = ident.range ↔ d = ident.undefined := by
    intro d hd
    refine ⟨fun hrange => ?_, congrArg Diagnostic.range⟩
    obtain ⟨other, hother, rfl⟩ := List.mem_map.mp (h.subperm.subset hd)
    have hstart : other.range.start = ident.range.start := congrArg Range.start hrange
    rw [List.inj_on_of_nodup_map hstarts hother hident hstart]
  calc (ds.filter fun d => d.problem.kind = .undefined ∧ d.range = ident.range)
      = (undefineds ds).filter (·.range = ident.range) := by
        simp [undefineds, List.filter_filter, and_comm]
    _ = (undefineds ds).filter (· = ident.undefined) :=
        List.filter_congr fun d hd => decide_eq_decide.mpr (honly d hd)
    _ = [ident.undefined] := by
        rw [List.filter_eq, List.count_eq_one_of_mem hnodup hfound, List.replicate_one]

end FindsUnbound

/-- An occurrence of a name is skipped if it is part of an argument and what is called is no
function, or part of the value of a binding whose name an earlier one of the same form has. -/
inductive Program.Skips (language : Language) (program : Program) (ident : Ident) : Prop
  | argument {scopes range callee args arg}
      (h : Visits language program false ⟨scopes, .value (.call range callee args)⟩)
      (hcallee : (callee.check (structNames program) scopes).result.tag ≠ .function)
      (harg : arg ∈ args) (hident : .name ident ∈ arg.values)
  | initializer {scopes range kind before binding after body}
      (h : Visits language program false
        ⟨scopes, .value (.lets range kind (before ++ binding :: after) body)⟩)
      (hrepeated : binding.name.name ∈ LetBinding.bound before)
      (hident : .name ident ∈ binding.values)

def Subject.unbound (bound : List String) : Subject → List Ident
  | value form => form.unbound bound
  | definition form => form.unbound bound

/-- The visit finds the names that are unbound there. -/
def Visit.Finds (structs : List String) (skips : Ident → Prop) (visit : Visit) : Prop :=
  ∀ bound, visit.scopes.BindsExactly bound →
    FindsUnbound skips (visit.subject.unbound bound) (visit.diagnostics structs)

section

variable {structs bound : List String} {scopes : Scopes} {skips : Ident → Prop}

theorem Scopes.BindsExactly.inner (h : scopes.BindsExactly bound) (params : Params) :
    (params.inner structs scopes).BindsExactly (params.bound ++ bound) := by
  have hinner := h.enter.makeAll (params.moves structs)
  rwa [params.makeAll_moves, params.binders_moves] at hinner

/-- All definitions of a `local` form are bound once they are registered. -/
theorem Scopes.BindsExactly.registerAll (h : scopes.BindsExactly bound) (structs : List String)
    (definitions : List Definition) :
    (Definition.registerAll structs scopes.enter definitions).result.BindsExactly
      (Definition.bound definitions ++ bound) := by
  have hall := h.enter.makeAll
    (Move.along (Definition.registration structs) scopes.enter definitions)
  rw [Definition.makeAll_registrations,
    Move.binders_along (Definition.binders_registration structs), ← List.map_eq_flatMap,
    List.map_map] at hall
  exact hall

theorem Scopes.BindsExactly.checkAll (h : scopes.BindsExactly bound) (structs : List String)
    (definitions : List Definition) :
    (Definition.checkAll structs scopes definitions).result.BindsExactly bound := by
  have hall := h.makeAll (Move.along (Definition.finalization structs) scopes definitions)
  rw [Definition.makeAll_finalizations,
    Move.binders_along (Definition.binders_finalization structs),
    List.flatMap_eq_nil_iff.mpr fun _ _ => rfl] at hall
  exact hall

theorem Scopes.BindsExactly.bindings (h : scopes.BindsExactly bound) (structs : List String)
    (bindings : List LetBinding) :
    (LetBinding.checkAll structs scopes.enter bindings).result.BindsExactly
      (LetBinding.bound bindings ++ bound) := by
  have hall := h.enter.makeAll (Move.along (LetBinding.moves structs) scopes.enter bindings)
  rw [LetBinding.makeAll_along, Move.binders_along (LetBinding.binders_moves structs),
    ← List.map_eq_flatMap, List.map_map] at hall
  exact hall

theorem Clause.findsUnbound {clauses : List Clause} (hbound : scopes.BindsExactly bound)
    (h : ∀ next ∈ clauses.flatMap (Clause.steps scopes), next.Finds structs skips) :
    FindsUnbound skips (Clause.allUnbound bound clauses)
      ((clauses.flatMap (Clause.steps scopes)).flatMap (Visit.diagnostics structs)) := by
  rw [Clause.allUnbound_eq, List.flatMap_assoc]
  refine .flatMap fun clause hclause => ?_
  obtain ⟨range, condition, body⟩ := clause
  have hnext := fun next hmem => h next (List.mem_flatMap.mpr ⟨_, hclause, hmem⟩)
  have hcondition := hnext ⟨scopes, .value condition⟩ List.mem_cons_self bound hbound
  have hbody := hnext ⟨scopes, .value body⟩ (List.mem_cons_of_mem _ List.mem_cons_self) bound hbound
  simpa [Clause.steps, Clause.unbound, Subject.unbound] using hcondition.append hbody

theorem Definition.findsUnbound {definitions : List Definition}
    (hbound : scopes.BindsExactly bound)
    (h : let next := fun (scopes : Scopes) (definition : Definition) =>
        (definition.check structs scopes).result
      ∀ stage ∈ stages next scopes definitions,
        (Visit.mk stage.1 (.definition stage.2)).Finds structs skips) :
    FindsUnbound skips (Definition.allUnbound bound definitions)
      (Definition.checkAll structs scopes definitions).diagnostics := by
  induction definitions generalizing scopes with
  | nil => exact .nil
  | cons definition definitions ih =>
      obtain ⟨hfirst, hrest⟩ := List.forall_mem_cons.mp h
      -- Checking a definition binds no name that is not bound already.
      have hnext : (definition.check structs scopes).result.BindsExactly bound := by
        have hmake := hbound.makeAll (definition.finalization structs scopes)
        rwa [definition.makeAll_finalization, definition.binders_finalization] at hmake
      exact (hfirst bound hbound).append (ih hnext hrest)

theorem LetBinding.isSome_local?_check (binding : LetBinding) (name : String) :
    ((binding.check structs scopes).result.local? name).isSome ↔
      name = binding.name.name ∨ (scopes.local? name).isSome := by
  have hmoves := congrArg Judged.result (binding.makeAll_moves structs scopes)
  obtain ⟨range, ident, value⟩ := binding
  rw [moves, Move.makeAll_singleton] at hmoves
  rw [← hmoves, Move.isSome_local?_make]
  simp [Move.binder?, LetBinding.name]

/-- The bindings that follow some others, whose names are the local ones. -/
theorem LetBinding.findsUnbound (before : List LetBinding) {bindings : List LetBinding}
    (hbound : scopes.BindsExactly bound)
    (hlocal : ∀ name, (scopes.local? name).isSome ↔ name ∈ LetBinding.bound before)
    (hskips : ∀ front binding back, before ++ bindings = front ++ binding :: back →
      binding.name.name ∈ LetBinding.bound front → ∀ ident, .name ident ∈ binding.values →
        skips ident)
    (h : let next := fun (scopes : Scopes) (binding : LetBinding) =>
        (binding.check structs scopes).result
      ∀ stage ∈ stages next scopes bindings, ∀ visit ∈ stage.2.steps stage.1,
        visit.Finds structs skips) :
    FindsUnbound skips (LetBinding.allUnbound bound bindings)
      (LetBinding.checkAll structs scopes bindings).diagnostics := by
  induction bindings generalizing scopes bound before with
  | nil => exact .nil
  | cons binding bindings ih =>
      obtain ⟨hfirst, hrest⟩ := List.forall_mem_cons.mp h
      have hmoves := binding.makeAll_moves structs scopes
      have hbinding : FindsUnbound skips (binding.unbound bound)
          (binding.check structs scopes).diagnostics := by
        have hreports := Move.allPlain_makeAll scopes (binding.moves structs scopes)
        rw [hmoves] at hreports
        rw [binding.check_diagnostics]
        refine (FindsUnbound.of_plain hreports).append ?_
        obtain ⟨range, name, value⟩ := binding
        by_cases hrepeated : (scopes.local? name.name).isSome
        · rw [LetBinding.steps, if_pos hrepeated]
          refine .of_skips fun ident hident => ?_
          refine hskips before _ bindings rfl ((hlocal name.name).mp hrepeated) ident ?_
          exact (value.unbound_sublist bound).subset (List.mem_map_of_mem hident)
        · rw [LetBinding.steps, if_neg hrepeated] at hfirst ⊢
          have hvalue := hfirst _ List.mem_cons_self bound hbound
          simpa [LetBinding.unbound, Subject.unbound] using hvalue
      have hnext := hbound.makeAll (binding.moves structs scopes)
      rw [hmoves, binding.binders_moves] at hnext
      refine hbinding.append (ih (before ++ [binding]) hnext (fun name => ?_) ?_ hrest)
      · rw [isSome_local?_check, hlocal, bound_append, List.mem_append, or_comm]
        simp [LetBinding.bound]
      · rwa [List.append_assoc]

theorem Value.findsUnbound_args {args : List Value} (hbound : scopes.BindsExactly bound)
    (h : ∀ arg ∈ args, (Visit.mk scopes (.value arg)).Finds structs skips) :
    FindsUnbound skips (Value.allUnbound bound args)
      ((args.map fun arg => Visit.mk scopes (.value arg)).flatMap (Visit.diagnostics structs)) := by
  rw [Value.allUnbound_eq, List.flatMap_map]
  exact .flatMap fun arg harg => h arg harg bound hbound

theorem Value.findsUnbound_name (hbound : scopes.BindsExactly bound) (ident : Ident) :
    FindsUnbound skips ((Value.name ident).unbound bound)
      ((Value.name ident).check structs scopes).diagnostics := by
  rw [Value.unbound, Value.check, Scopes.use]
  cases hget : scopes.get? ident.name with
  | some binding =>
      have hmem : ident.name ∈ bound := (hbound ident.name).mp (by rw [hget]; rfl)
      rw [if_pos hmem]
      exact .nil
  | none =>
      have hnot : ident.name ∉ bound := fun hmem => by
        have hsome := (hbound ident.name).mpr hmem
        rw [hget] at hsome
        cases hsome
      rw [if_neg hnot]
      exact ⟨List.Subperm.refl _, fun other hother =>
        .inr (List.mem_singleton.mp hother ▸ List.mem_cons_self)⟩

end

namespace Program

variable {language : Language} {program : Program} {scopes : Scopes}

theorem Visits.findsUnbound_value {value : Value} {bound : List String}
    (h : Visits language program false ⟨scopes, .value value⟩)
    (hsteps : ∀ next ∈ value.steps (structNames program) scopes,
      next.Finds (structNames program) (Skips language program))
    (hbound : scopes.BindsExactly bound) :
    FindsUnbound (Skips language program) (value.unbound bound)
      (value.check (structNames program) scopes).diagnostics := by
  have hreports : ∀ {idents : List Ident}, (∀ ident, value ≠ .name ident) →
      FindsUnbound (Skips language program) idents
        ((value.steps (structNames program) scopes).flatMap
          (Visit.diagnostics (structNames program))) →
      FindsUnbound (Skips language program) idents
        (value.check (structNames program) scopes).diagnostics := by
    intro idents hvalue hfinds
    have hown := Value.allPlain_reports (structNames program) scopes hvalue
    have hall := (FindsUnbound.of_plain hown).append hfinds
    exact hall.perm (value.diagnostics_perm _ _)
  match value with
  | .literal _ _ => exact .nil
  | .name ident => exact Value.findsUnbound_name hbound ident
  | .branch _ condition thenArm elseArm =>
      refine hreports (fun _ => Value.noConfusion) ?_
      have hcondition := hsteps ⟨scopes, .value condition⟩ (by simp [Value.steps]) bound hbound
      have hthen := hsteps ⟨scopes, .value thenArm⟩ (by simp [Value.steps]) bound hbound
      have helse := hsteps ⟨scopes, .value elseArm⟩ (by simp [Value.steps]) bound hbound
      simpa [Value.steps, Value.unbound, Subject.unbound] using
        hcondition.append (hthen.append helse)
  | .cond _ clauses none =>
      refine hreports (fun _ => Value.noConfusion) ?_
      rw [Value.steps, Option.toList_none, List.map_nil, List.append_nil] at hsteps ⊢
      exact Clause.findsUnbound hbound hsteps
  | .cond _ clauses (some otherwise) =>
      refine hreports (fun _ => Value.noConfusion) ?_
      obtain ⟨hclauses, hotherwise⟩ := List.forall_mem_append.mp hsteps
      have hvalue := hotherwise ⟨scopes, .value otherwise⟩ (by simp) bound hbound
      simpa [Value.steps, Value.unbound, Subject.unbound] using
        (Clause.findsUnbound hbound hclauses).append hvalue
  | .lambda _ params body =>
      refine hreports (fun _ => Value.noConfusion) ?_
      have hbody := hsteps _ List.mem_cons_self _ (hbound.inner params)
      simpa [Value.steps, Value.unbound, Subject.unbound] using hbody
  | .locals _ definitions body =>
      obtain ⟨hdefinitions, hbody⟩ := List.forall_mem_append.mp hsteps
      have hregistered := hbound.registerAll (structNames program) definitions
      have hown := Move.allPlain_makeAll scopes.enter
        (Move.along (Definition.registration (structNames program)) scopes.enter definitions)
      rw [Definition.makeAll_registrations] at hown
      have hchecked := Definition.findsUnbound hregistered
        fun stage hstage => hdefinitions _ (List.mem_map_of_mem hstage)
      have hvalue := hbody _ List.mem_cons_self _
        (hregistered.checkAll (structNames program) definitions)
      exact (FindsUnbound.of_plain hown).append (hchecked.append hvalue)
  | .lets range kind bindings body =>
      obtain ⟨hbindings, hbody⟩ := List.forall_mem_append.mp hsteps
      have hempty : ∀ name, (scopes.enter.local? name).isSome ↔ name ∈ LetBinding.bound [] :=
        fun _ => iff_of_false Bool.false_ne_true List.not_mem_nil
      have hskips : ∀ front binding back, [] ++ bindings = front ++ binding :: back →
          binding.name.name ∈ LetBinding.bound front → ∀ ident, .name ident ∈ binding.values →
            Skips language program ident := by
        rintro front binding back heq hrepeated ident hident
        obtain rfl : bindings = front ++ binding :: back := heq
        exact .initializer h hrepeated hident
      have hchecked := LetBinding.findsUnbound [] hbound.enter hempty hskips
        fun stage hstage visit hvisit =>
          hbindings visit (List.mem_flatMap.mpr ⟨stage, hstage, hvisit⟩)
      have hvalue := hbody _ List.mem_cons_self _
        (hbound.bindings (structNames program) bindings)
      exact hchecked.append hvalue
  | .require _ _ => exact .nil
  | .call range callee args =>
      refine hreports (fun _ => Value.noConfusion) ?_
      obtain ⟨hcallee, hargs⟩ := List.forall_mem_cons.mp hsteps
      refine (hcallee bound hbound).append ?_
      by_cases htag : (callee.check (structNames program) scopes).result.tag = .function
      · rw [if_pos htag] at hargs ⊢
        exact Value.findsUnbound_args hbound (List.forall_mem_map.mp hargs)
      · rw [if_neg htag]
        refine .of_skips fun ident hident => ?_
        rw [Value.allUnbound_eq] at hident
        obtain ⟨arg, harg, hident⟩ := List.mem_flatMap.mp hident
        refine .argument h htag harg ?_
        exact (arg.unbound_sublist bound).subset (List.mem_map_of_mem hident)

theorem Visits.finds {visit : Visit} (h : Visits language program false visit) :
    visit.Finds (structNames program) (Skips language program) := by
  induction visit using Visit.induction (structNames program) with
  | h visit ih =>
      have hsteps := fun next hnext => ih next hnext (h.step hnext)
      intro bound hbound
      match visit with
      | ⟨scopes, .value value⟩ => exact h.findsUnbound_value hsteps hbound
      | ⟨scopes, .definition definition⟩ =>
          have hown : ∀ d ∈ definition.reports (structNames program) scopes,
              d.problem.kind ≠ .undefined := by
            intro d hd
            rcases definition.mem_reports (structNames program) scopes hd with hplain | ⟨hkind, -⟩
            · exact hplain.kind_ne
            · rw [hkind]
              decide
          refine FindsUnbound.perm ?_ (definition.diagnostics_perm _ _)
          refine (FindsUnbound.of_kind_ne hown).append ?_
          cases definition with
          | function range docs name params body =>
              have hbody := hsteps _ List.mem_cons_self _ (hbound.inner params)
              simpa [Definition.steps, Definition.unbound, Subject.unbound] using hbody
          | constant range docs name value =>
              have hvalue := hsteps _ List.mem_cons_self bound hbound
              simpa [Definition.steps, Definition.unbound, Subject.unbound] using hvalue

/-! ## Programs -/

/-- The names of the root scope when all forms have been checked. -/
def finalNames (language : Language) (program : Program) : List String :=
  language.names ++ (check language program).globals.map Prod.fst

/-- The occurrences of names in a program that are not bound. -/
def unbound (language : Language) (program : Program) : List Ident :=
  program.flatMap (TopLevel.unbound (finalNames language program))

/-- All names of the root scope are bound once the forms are registered. -/
theorem bindsExactly_registered (language : Language) (program : Program) :
    (registered language program).result.scopes.BindsExactly (finalNames language program) := by
  have hadds := (rootLife language program).adds_after rfl (rootLife language program).moves
  have hall := hadds.bindsExactly (Life.outer_after _ _)
  rw [← hadds.globals_eq, ← globals_eq, after_moves] at hall
  -- Checking the forms binds no name that is not bound already.
  have hregistered := ((rootLife language program).adds_after rfl (Move.along
    (TopLevel.registration (structNames program)) (.root language.scope) program)).bindsExactly
      (Life.outer_after _ _)
  rw [Life.after, rootLife, ← registered_scopes] at hregistered
  have hfinal := hregistered.makeAll (Move.along (TopLevel.finalization (structNames program))
    (registered language program).result.scopes program)
  rw [makeAll_finalizations,
    Move.binders_along (TopLevel.binders_finalization (structNames program)),
    List.flatMap_eq_nil_iff.mpr fun _ _ => rfl] at hfinal
  exact hregistered.congr fun name => (hfinal name).symm.trans (hall name)

theorem findsUnbound_forms {bound : List String} {forms : Program}
    (hbound : scopes.BindsExactly bound)
    (h : let next := fun (scopes : Scopes) (form : TopLevel) =>
        (form.check (structNames program) scopes).result
      ∀ stage ∈ stages next scopes forms, ∀ visit ∈ stage.2.steps stage.1,
        visit.Finds (structNames program) (Skips language program)) :
    FindsUnbound (Skips language program) (forms.flatMap (TopLevel.unbound bound))
      (checkForms (structNames program) scopes forms).diagnostics := by
  induction forms generalizing scopes with
  | nil => exact .nil
  | cons form forms ih =>
      obtain ⟨hfirst, hrest⟩ := List.forall_mem_cons.mp h
      have hnext := hbound.makeAll (form.finalization (structNames program) scopes)
      rw [form.makeAll_finalization, form.binders_finalization] at hnext
      refine FindsUnbound.append ?_ (ih hnext hrest)
      cases form with
      | definition form => exact hfirst _ List.mem_cons_self bound hbound
      | struct form => exact .nil
      | value form =>
          rw [TopLevel.check, Judged.diagnostics_bind, Judged.diagnostics_pure, List.append_nil]
          exact hfirst _ List.mem_cons_self bound hbound

theorem findsUnbound_check (language : Language) (program : Program) :
    FindsUnbound (Skips language program) (unbound language program)
      (check language program).diagnostics := by
  have hregister := allPlain_register (structNames program) ⟨.root language.scope, []⟩ program
  refine (FindsUnbound.of_plain hregister).append ?_
  refine findsUnbound_forms (bindsExactly_registered language program) ?_
  intro next stage hstage visit hvisit
  exact (Visits.check (List.mem_flatMap.mpr ⟨stage, hstage, hvisit⟩)).finds

/-- In a program that has been read, every occurrence of a name starts at a place of its own. -/
theorem nodup_unbound {source : String} (h : programOfSource source = .ok program)
    (language : Language) : ((unbound language program).map (·.range.start)).Nodup := by
  have hvalues := program.unbound_sublist (finalNames language program)
  have hstarts := (hvalues.map (·.range.start)).nodup (nodup_starts h)
  rwa [List.map_map] at hstarts

/-- The undefined names of a program that has been read are occurrences that are not bound. Every
such occurrence is reported exactly once, unless it is part of an argument and what is called is no
function, or part of the value of a binding whose name an earlier one of the same form has. -/
theorem undefined_unbound {source : String} (h : programOfSource source = .ok program)
    (language : Language) :
    (∀ d ∈ (check language program).diagnostics, d.problem.kind = .undefined →
      ∃ ident ∈ unbound language program, d = ⟨.undefined ident.name, ident.range, []⟩) ∧
    ∀ ident ∈ unbound language program, ¬Skips language program ident →
      ((check language program).diagnostics.filter fun d =>
        d.problem.kind = .undefined ∧ d.range = ident.range) =
          [⟨.undefined ident.name, ident.range, []⟩] := by
  have hfinds := findsUnbound_check language program
  refine ⟨fun d hd hkind => hfinds.exists_ident hd hkind, fun ident hident hskips => ?_⟩
  exact hfinds.filter_eq (nodup_unbound h language) hident hskips

/-- A number is called, so the argument is skipped. -/
theorem undefined_unbound_argument :
    ∃ program, programOfSource "(1 x) y" = .ok program ∧
      (unbound .minimal program).map (·.name) = ["x", "y"] ∧
      (∀ d ∈ (check .minimal program).diagnostics, d.problem.kind = .undefined →
        ∃ ident ∈ unbound .minimal program, d = ⟨.undefined ident.name, ident.range, []⟩) ∧
      ∀ ident ∈ unbound .minimal program, ¬Skips .minimal program ident →
        ((check .minimal program).diagnostics.filter fun d =>
          d.problem.kind = .undefined ∧ d.range = ident.range) =
            [⟨.undefined ident.name, ident.range, []⟩] := by
  have h : programOfSource "(1 x) y" = .ok _ := rfl
  exact ⟨_, h, by decide +kernel, undefined_unbound h .minimal⟩

end Program

end TypedIsl

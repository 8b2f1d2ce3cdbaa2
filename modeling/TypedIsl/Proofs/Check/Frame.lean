import TypedIsl.Language.Minimal
import TypedIsl.Proofs.Check.Root
import TypedIsl.Proofs.Check.Stateful
import TypedIsl.Proofs.Syntax.Spelling

/-!
# What a check leaves alone

A checker that changes its state finds what `Value.check` and `Definition.check` say, and when it is
done its state is as before, up to the diagnostics added at the end and, after a definition, the
type of that definition's name.
-/

namespace TypedIsl

namespace Checker

/-- A name that the token brings in is in the name table. -/
def KnowsKind (s : Checker) : TokenKind → Prop
  | .identifier name => name ∈ s.names.names
  | _ => True

/-- All names among the tokens are in the name table. -/
def Knows (s : Checker) (kinds : List TokenKind) : Prop :=
  ∀ kind ∈ kinds, s.KnowsKind kind

/-- The state with other scopes and more diagnostics. -/
def after (s : Checker) (scopes : Scopes) (diagnostics : List Diagnostic) : Checker :=
  { s with scopes, diagnostics := s.diagnostics ++ diagnostics }

/-- The state without any diagnostics. -/
def quiet (s : Checker) : Checker :=
  { s with diagnostics := [] }

/-- The state in a new scope. -/
def entered (s : Checker) : Checker :=
  { s with scopes := s.scopes.enter }

theorem entered_inner (s : Checker) : s.entered.scopes.outer ≠ [] :=
  List.cons_ne_nil _ _

variable {s : Checker} {scopes : Scopes} {diagnostics : List Diagnostic}
  {kinds more : List TokenKind}

@[simp] theorem after_scopes : (s.after scopes diagnostics).scopes = scopes := rfl

@[simp] theorem after_structs : (s.after scopes diagnostics).structs = s.structs := rfl

theorem after_self (s : Checker) : s.after s.scopes [] = s := by
  rw [after, List.append_nil]

theorem after_after (s : Checker) (scopes others : Scopes) (diagnostics more : List Diagnostic) :
    (s.after scopes diagnostics).after others more = s.after others (diagnostics ++ more) := by
  simp only [after, List.append_assoc]

@[simp] theorem knows_after : (s.after scopes diagnostics).Knows kinds ↔ s.Knows kinds := Iff.rfl

@[simp] theorem knows_append :
    s.Knows (kinds ++ more) ↔ s.Knows kinds ∧ s.Knows more :=
  List.forall_mem_append

@[simp] theorem knows_cons {kind : TokenKind} :
    s.Knows (kind :: kinds) ↔ s.KnowsKind kind ∧ s.Knows kinds :=
  List.forall_mem_cons

@[simp] theorem knows_enclosed : s.Knows (enclosed kinds) ↔ s.Knows kinds := by
  rw [enclosed, List.cons_append, knows_cons, knows_append, knows_cons]
  exact ⟨fun h => h.2.1, fun h =>
    ⟨trivial, h, trivial, fun _ hkind => absurd hkind List.not_mem_nil⟩⟩

theorem Knows.typedParams {range : Range} {params : List TypedParam} {result? : Option TypeExpr}
    (h : s.Knows (Params.typed range params result?).kinds) :
    ∀ param ∈ params, s.Knows param.kinds := by
  intro param hparam kind hkind
  have hmem := TypedParam.subset_allKinds hparam hkind
  cases result? with
  | none => exact h kind hmem
  | some declared => exact h kind (List.mem_append_left _ hmem)

theorem Knows.declared {range : Range} {params : List TypedParam} {declared : TypeExpr}
    (h : s.Knows (Params.typed range params (some declared)).kinds) : s.Knows declared.kinds :=
  (knows_cons.mp (knows_append.mp h).2).2

end Checker

namespace Checking

/-- The steps find what the judgement says and move to the given scopes, which differ from those
before in the current one only. Nothing else changes. -/
structure CarriesOut {α : Type} (steps : Checking α) (s : Checker) (scopes : Scopes)
    (judged : Judged α) : Prop where
  run : steps s = .ok (judged.result, s.after scopes judged.diagnostics)
  outer : scopes.outer = s.scopes.outer

/-- The steps move to the scopes that the judgement says. -/
def Moves (steps : Checking Unit) (s : Checker) (judged : Judged Scopes) : Prop :=
  CarriesOut steps s judged.result ⟨(), judged.diagnostics⟩

variable {α β : Type} {s : Checker} {t u : Scopes}

/-! ## Steps one after the other -/

theorem bind_of_run {steps : Checking α} {f : α → Checking β} {r : Checker} {a : α}
    (h : steps s = .ok (a, r)) : (steps >>= f) s = f a r := by
  show (steps s >>= fun p => f p.1 p.2) = f a r
  rw [h]
  rfl

theorem CarriesOut.pure (a : α) : CarriesOut (Pure.pure a) s s.scopes (Pure.pure a) := by
  refine ⟨?_, rfl⟩
  rw [Judged.result_pure, Judged.diagnostics_pure, s.after_self]
  rfl

theorem CarriesOut.append {steps : Checking α} {f : α → Checking β} {x : Judged α} {y : Judged β}
    (h : CarriesOut steps s t x)
    (hf : CarriesOut (f x.result) (s.after t x.diagnostics) u y) :
    CarriesOut (steps >>= f) s u ⟨y.result, x.diagnostics ++ y.diagnostics⟩ := by
  refine ⟨?_, hf.outer.trans h.outer⟩
  rw [bind_of_run h.run, hf.run, Checker.after_after]

theorem CarriesOut.bind {steps : Checking α} {f : α → Checking β} {x : Judged α}
    {g : α → Judged β} (h : CarriesOut steps s t x)
    (hf : CarriesOut (f x.result) (s.after t x.diagnostics) u (g x.result)) :
    CarriesOut (steps >>= f) s u (x >>= g) :=
  h.append hf

theorem CarriesOut.andMove {steps : Checking α} {f : α → Checking Unit} {x : Judged α}
    {g : α → Judged Scopes} (h : CarriesOut steps s t x)
    (hf : Moves (f x.result) (s.after t x.diagnostics) (g x.result)) :
    Moves (steps >>= f) s (x >>= g) :=
  CarriesOut.append h hf

theorem Moves.pure : Moves (Pure.pure ()) s (Pure.pure s.scopes) :=
  CarriesOut.pure ()

theorem Moves.bind {steps : Checking Unit} {f : Unit → Checking β} {x : Judged Scopes}
    {g : Scopes → Judged β} (h : Moves steps s x)
    (hf : CarriesOut (f ()) (s.after x.result x.diagnostics) u (g x.result)) :
    CarriesOut (steps >>= f) s u (x >>= g) :=
  CarriesOut.append h hf

theorem Moves.andMove {steps : Checking Unit} {f : Unit → Checking Unit} {x : Judged Scopes}
    {g : Scopes → Judged Scopes} (h : Moves steps s x)
    (hf : Moves (f ()) (s.after x.result x.diagnostics) (g x.result)) :
    Moves (steps >>= f) s (x >>= g) :=
  CarriesOut.append h hf

/-- Steps that move to other scopes and have a result. -/
theorem CarriesOut.bindPair {steps : Checking α} {f : α → Checking β} {x : Judged (Scopes × α)}
    {g : Scopes × α → Judged β} (h : CarriesOut steps s x.result.1 ⟨x.result.2, x.diagnostics⟩)
    (hf : CarriesOut (f x.result.2) (s.after x.result.1 x.diagnostics) u (g x.result)) :
    CarriesOut (steps >>= f) s u (x >>= g) :=
  h.append hf

theorem carriesOut_adopt (x : Judged α) : CarriesOut (adopt x) s s.scopes x :=
  ⟨rfl, rfl⟩

/-- A scope is left the way it was entered. -/
theorem CarriesOut.inScope {steps : Checking α} {x : Judged α}
    (h : CarriesOut steps s.entered t x) :
    CarriesOut (inScope steps) s s.scopes x := by
  refine ⟨?_, rfl⟩
  have houter : t.outer = s.scopes.current :: s.scopes.outer := h.outer
  have hleave : t.leave = .ok s.scopes := by rw [Scopes.leave, houter]
  rw [Checking.inScope, bind_of_run (r := s.entered) rfl, bind_of_run h.run, bind_of_run rfl]
  simp only [Checker.after_scopes, hleave]
  rfl

/-- Whatever is found silently is not reported, and what was reported before still is. -/
theorem CarriesOut.silenced {steps : Checking α} {x : Judged α}
    (h : CarriesOut steps s.quiet s.scopes x) :
    CarriesOut (silenced steps) s s.scopes (Pure.pure x.result) := by
  refine ⟨?_, rfl⟩
  rw [Checking.silenced, bind_of_run rfl, bind_of_run (r := s.quiet) rfl, bind_of_run h.run,
    Judged.result_pure, Judged.diagnostics_pure, s.after_self]
  rfl

/-! ## Names -/

/-- A name that is known can be read. -/
theorem CarriesOut.spell {ident : Ident} {f : String → Checking α} {x : Judged α}
    (h : s.KnowsKind ident.kind) (hf : CarriesOut (f ident.name) s t x) :
    CarriesOut (spell ident >>= f) s t x := by
  have hmem : ident.name ∈ s.names.names := h
  have hsome : (s.names.lookup? ident.name).isSome := by
    simpa [NameTable.lookup?] using hmem
  obtain ⟨handle, hhandle⟩ := Option.isSome_iff_exists.mp hsome
  have hspell : Checking.spell ident s = .ok (ident.name, s) := by
    rw [Checking.spell, bind_of_run rfl, hhandle]
    rfl
  exact ⟨(bind_of_run hspell).trans hf.run, hf.outer⟩

theorem CarriesOut.get {f : Checker → Checking α} {x : Judged α}
    (h : CarriesOut (f s) s t x) : CarriesOut (get >>= f) s t x :=
  ⟨(bind_of_run rfl).trans h.run, h.outer⟩

theorem carriesOut_use (ident : Ident) : CarriesOut (use ident) s s.scopes (s.scopes.use ident) :=
  ⟨rfl, rfl⟩

/-- A name that is free is bound. Names that are bound in an inner scope are not global. -/
theorem moves_bind (s : Checker) (name : Ident) (type : Ty) (hinner : s.scopes.outer ≠ []) :
    Moves (bind name type) s (pure (s.scopes.bind name type)) := by
  have hdepth : s.scopes.depth ≠ 1 := by simpa [Scopes.depth] using hinner
  refine ⟨?_, rfl⟩
  show Except.ok ((), { s with
    scopes := s.scopes.bind name type
    globals := if s.scopes.depth = 1 then s.globals ++ [name.name] else s.globals }) = _
  rw [if_neg hdepth, Judged.diagnostics_pure, Checker.after, List.append_nil]
  rfl

/-- A name is bound to the type that some steps find, if it is free. -/
theorem moves_ensureFree {name : Ident} {problem : Problem} {steps : Checking Unit}
    {x : Judged Scopes} (h : s.scopes.conflict? name problem = none → Moves steps s x) :
    Moves (do if ← ensureFree name problem then steps) s
      (match s.scopes.conflict? name problem with
        | some d => do
            Judged.report d
            return s.scopes
        | none => x) := by
  cases hconflict : s.scopes.conflict? name problem with
  | none =>
      have hfree : ensureFree name problem s = .ok (true, s) := by
        rw [ensureFree, bind_of_run rfl, hconflict]
        rfl
      exact ⟨(bind_of_run hfree).trans (h hconflict).run, (h hconflict).outer⟩
  | some d =>
      have hfree : ensureFree name problem s = .ok (false, s.after s.scopes [d]) := by
        rw [ensureFree, bind_of_run rfl, hconflict]
        rfl
      exact ⟨bind_of_run hfree, rfl⟩

theorem moves_bindNew (s : Checker) (name : Ident) (type : Ty) (problem : Problem)
    (hinner : s.scopes.outer ≠ []) :
    Moves (bindNew name type problem) s (s.scopes.bindNew name type problem) :=
  moves_ensureFree fun _ => moves_bind s name type hinner

theorem moves_bindParams (s : Checker) (params : List (Ident × Ty))
    (hinner : s.scopes.outer ≠ []) :
    Moves (bindParams params) s (s.scopes.bindParams params) := by
  induction params generalizing s with
  | nil => exact .pure
  | cons param params ih =>
      obtain ⟨name, type⟩ := param
      have hname := moves_bindNew s name type (.alreadyDefinedLocally name.name) hinner
      exact hname.andMove (ih _ (hname.outer ▸ hinner))

theorem moves_finalize (name : Ident) (type : Ty) :
    Moves (finalize name type) s (pure (s.scopes.finalize name type)) := by
  have houter : (s.scopes.finalize name type).outer = s.scopes.outer := by
    unfold Scopes.finalize
    split <;> rfl
  have hrun : finalize name type s = .ok ((), s.after (s.scopes.finalize name type) []) := by
    rw [Checker.after, List.append_nil]
    rfl
  exact ⟨hrun, houter⟩

/-! ## Annotations -/

theorem carriesOut_resolve (type : TypeExpr) (s : Checker) (h : s.Knows type.kinds) :
    CarriesOut (resolve type) s s.scopes (type.resolve s.structs.names) := by
  match type with
  | .named name =>
      rw [resolve, TypeExpr.resolve]
      refine .spell (Checker.knows_cons.mp h).1 (.get ?_)
      cases namedType? s.structs.names name.name with
      | some type => exact .pure type
      | none => exact carriesOut_adopt _
  | .apply range function args =>
      rw [TypeExpr.kinds, Checker.knows_enclosed, Checker.knows_cons] at h
      unfold resolve TypeExpr.resolve
      refine .spell h.1 ?_
      split
      · exact .pure Ty.any
      · split
        · match args with
          | [] => exact .pure (Ty.list .any)
          | arg :: args =>
              rw [TypeExpr.allKinds, Checker.knows_append] at h
              exact (carriesOut_resolve arg s h.2.1).bind (.pure _)
        · exact carriesOut_adopt _

theorem carriesOut_resolveParams (params : List TypedParam) (s : Checker)
    (h : ∀ param ∈ params, s.Knows param.kinds) :
    CarriesOut (resolveParams params) s s.scopes
      (TypedIsl.resolveParams s.structs.names params) := by
  induction params generalizing s with
  | nil => exact .pure []
  | cons param params ih =>
      obtain ⟨hparam, hparams⟩ := List.forall_mem_cons.mp h
      have htype := (Checker.knows_cons.mp (Checker.knows_cons.mp hparam).2).2
      refine .bind (carriesOut_resolve param.type s htype) ?_
      refine .bind (ih _ hparams) ?_
      exact .pure _

theorem carriesOut_bindTypedParams (s : Checker) (params : List TypedParam)
    (hinner : s.scopes.outer ≠ []) (h : ∀ param ∈ params, s.Knows param.kinds) :
    let bound := TypedIsl.bindTypedParams s.structs.names s.scopes params
    CarriesOut (bindTypedParams params) s bound.result.1 ⟨bound.result.2, bound.diagnostics⟩ := by
  induction params generalizing s with
  | nil => exact .pure []
  | cons param params ih =>
      obtain ⟨hparam, hparams⟩ := List.forall_mem_cons.mp h
      have htype := (Checker.knows_cons.mp (Checker.knows_cons.mp hparam).2).2
      let type := param.type.resolve s.structs.names
      let first := s.after s.scopes type.diagnostics
      let bound := s.scopes.bindParam param.name type.result
      let second := first.after bound.result bound.diagnostics
      have hresolve := carriesOut_resolve param.type s htype
      have hname := moves_bindNew first param.name type.result
        (.alreadyDefinedLocally param.name.name) hinner
      have hrest := ih second (hname.outer ▸ hinner) hparams
      refine ⟨?_, hrest.outer.trans hname.outer⟩
      refine (bind_of_run hresolve.run).trans ((bind_of_run hname.run).trans ?_)
      refine (bind_of_run hrest.run).trans (congrArg Except.ok (Prod.ext rfl ?_))
      show second.after _ _ = s.after _ (_ ++ (_ ++ (_ ++ [])))
      rw [List.append_nil, Checker.after_after, Checker.after_after]
      rfl

/-! ## Values and definitions -/

theorem carriesOut_declare (params : Params) (s : Checker) (h : s.Knows params.kinds) :
    CarriesOut (declare params) s s.scopes (pure (params.declaredType s.structs.names)) := by
  match params with
  | .untyped _ names => exact .pure _
  | .typed _ params none =>
      have hsteps : CarriesOut (do
          let types ← resolveParams params
          return Ty.function (types.map .fixed) .any) s.quiet s.scopes (do
            let types ← TypedIsl.resolveParams s.structs.names params
            return Ty.function (types.map .fixed) .any) := by
        refine .bind (carriesOut_resolveParams params _ h.typedParams) ?_
        exact .pure _
      exact hsteps.silenced
  | .typed _ params (some declared) =>
      have hsteps : CarriesOut (do
          let types ← resolveParams params
          let result ← resolve declared
          return Ty.function (types.map .fixed) result) s.quiet s.scopes (do
            let types ← TypedIsl.resolveParams s.structs.names params
            let result ← declared.resolve s.structs.names
            return Ty.function (types.map .fixed) result) := by
        refine .bind (carriesOut_resolveParams params _ h.typedParams) ?_
        refine .bind (carriesOut_resolve declared _ h.declared) ?_
        exact .pure _
      exact hsteps.silenced

/-- A body is checked in a scope with the parameters, and more happens when that scope is left. -/
theorem Moves.body {steps : Checking α} {f : α → Checking Unit} {g : Scopes → Judged α}
    {k : α → Judged Scopes} (params : List (Ident × Ty))
    (hsteps : let bound := s.scopes.enter.bindParams params
      CarriesOut steps (s.entered.after bound.result bound.diagnostics) t (g bound.result))
    (hk : let x := s.scopes.enter.bindParams params >>= g
      Moves (f x.result) (s.after s.scopes x.diagnostics) (k x.result)) :
    Moves (inScope (do bindParams params; steps) >>= f) s
      (s.scopes.enter.bindParams params >>= fun inner => g inner >>= k) := by
  have hbound := moves_bindParams s.entered params s.entered_inner
  have hbody : CarriesOut (inScope (do bindParams params; steps)) s s.scopes
      (s.scopes.enter.bindParams params >>= g) := .inScope (Moves.bind hbound hsteps)
  rw [← bind_assoc]
  exact hbody.andMove hk

mutual

theorem carriesOut_checkValue (value : Value) (s : Checker) (h : s.Knows value.kinds) :
    CarriesOut (checkValue value) s s.scopes (value.check s.structs.names s.scopes) := by
  match value with
  | .literal _ _ => exact .pure _
  | .name ident => exact carriesOut_use ident
  | .require _ _ => exact .pure _
  | .branch _ condition thenArm elseArm =>
      simp only [Value.kinds, Checker.knows_enclosed, List.cons_append, Checker.knows_cons,
        Checker.knows_append] at h
      obtain ⟨-, ⟨hcondition, hthen⟩, helse⟩ := h
      rw [checkValue, Value.check]
      refine .bind (carriesOut_checkValue condition _ hcondition) ?_
      refine .bind (carriesOut_adopt _) ?_
      refine .bind (carriesOut_checkValue thenArm _ hthen) ?_
      refine .bind (carriesOut_checkValue elseArm _ helse) ?_
      exact .pure _
  | .cond _ clauses none =>
      simp only [Value.kinds, Checker.knows_enclosed, Checker.knows_cons] at h
      rw [checkValue, Value.check]
      refine .bind (carriesOut_checkClauses clauses _ h.2) ?_
      exact .pure _
  | .cond _ clauses (some value) =>
      simp only [Value.kinds, Checker.knows_enclosed, List.cons_append, Checker.knows_cons,
        Checker.knows_append] at h
      rw [checkValue, Value.check]
      refine .bind (carriesOut_checkClauses clauses _ h.2.1) ?_
      refine .bind (carriesOut_checkValue value _ h.2.2.2) ?_
      exact .pure _
  | .lambda _ (.typed _ params none) body =>
      simp only [Value.kinds, Checker.knows_enclosed, List.cons_append, Checker.knows_cons,
        Checker.knows_append] at h
      obtain ⟨-, hparams, hbody⟩ := h
      rw [checkValue, Value.check]
      let bound := TypedIsl.bindTypedParams s.structs.names s.scopes.enter params
      have hbound := carriesOut_bindTypedParams s.entered params s.entered_inner hparams.typedParams
      refine .inScope (t := bound.result.1) (.bindPair hbound ?_)
      refine .bind (carriesOut_checkValue body _ hbody) ?_
      exact .pure _
  | .lambda _ (.typed _ params (some declared)) body =>
      simp only [Value.kinds, Checker.knows_enclosed, List.cons_append, Checker.knows_cons,
        Checker.knows_append] at h
      obtain ⟨-, hparams, hbody⟩ := h
      rw [checkValue, Value.check]
      let bound := TypedIsl.bindTypedParams s.structs.names s.scopes.enter params
      have hbound := carriesOut_bindTypedParams s.entered params s.entered_inner hparams.typedParams
      refine .inScope (t := bound.result.1) (.bindPair hbound ?_)
      refine .bind (carriesOut_checkValue body _ hbody) ?_
      refine .bind (carriesOut_resolve declared _ hparams.declared) ?_
      refine .bind (carriesOut_adopt _) ?_
      exact .pure _
  | .lambda _ (.untyped _ names) body =>
      simp only [Value.kinds, Checker.knows_enclosed, List.cons_append, Checker.knows_cons,
        Checker.knows_append] at h
      rw [checkValue, Value.check]
      let params := names.map fun name => (name, Ty.flexible)
      have hbound := moves_bindParams s.entered params s.entered_inner
      refine .inScope (Moves.bind (u := (s.scopes.enter.bindParams params).result) hbound ?_)
      refine .bind (carriesOut_checkValue body _ h.2.2) ?_
      exact .pure _
  | .locals _ definitions body =>
      simp only [Value.kinds, Checker.knows_enclosed, List.cons_append, Checker.knows_cons,
        Checker.knows_append] at h
      rw [checkValue, Value.check]
      have hregister := moves_registerDefinitions definitions s.entered s.entered_inner h.2.1
      exact .inScope (Moves.bind hregister
        (Moves.bind (moves_checkDefinitions definitions _ h.2.1)
          (carriesOut_checkValue body _ h.2.2)))
  | .lets _ kind bindings body =>
      simp only [Value.kinds, Checker.knows_enclosed, List.cons_append, Checker.knows_cons,
        Checker.knows_append] at h
      rw [checkValue, Value.check]
      have hbindings := moves_checkBindings bindings s.entered s.entered_inner h.2.1
      exact .inScope (Moves.bind hbindings (carriesOut_checkValue body _ h.2.2))
  | .call range callee args =>
      simp only [Value.kinds, Checker.knows_enclosed, Checker.knows_append] at h
      rw [checkValue, Value.check]
      refine .bind (carriesOut_checkValue callee _ h.1) ?_
      cases (callee.check s.structs.names s.scopes).result with
      | flexible => exact .pure _
      | function params result =>
          refine .bind (carriesOut_checkValues args _ h.2) ?_
          exact carriesOut_adopt _
      | _ =>
          refine .bind (carriesOut_adopt _) ?_
          exact .pure _
termination_by structural value

theorem carriesOut_checkValues (values : List Value) (s : Checker)
    (h : s.Knows (Value.allKinds values)) :
    CarriesOut (checkValues values) s s.scopes
      (Value.checkAll s.structs.names s.scopes values) := by
  match values with
  | [] => exact .pure _
  | value :: values =>
      rw [Value.allKinds, Checker.knows_append] at h
      rw [checkValues, Value.checkAll]
      refine .bind (carriesOut_checkValue value _ h.1) ?_
      refine .bind (carriesOut_checkValues values _ h.2) ?_
      exact .pure _
termination_by structural values

theorem carriesOut_checkClause (clause : Clause) (s : Checker) (h : s.Knows clause.kinds) :
    CarriesOut (checkClause clause) s s.scopes (clause.check s.structs.names s.scopes) := by
  match clause with
  | .mk _ condition body =>
      rw [Clause.kinds, Checker.knows_enclosed, Checker.knows_append] at h
      rw [checkClause, Clause.check]
      refine .bind (carriesOut_checkValue condition _ h.1) ?_
      refine .bind (carriesOut_adopt _) ?_
      exact carriesOut_checkValue body _ h.2
termination_by structural clause

theorem carriesOut_checkClauses (clauses : List Clause) (s : Checker)
    (h : s.Knows (Clause.allKinds clauses)) :
    CarriesOut (checkClauses clauses) s s.scopes
      (Clause.checkAll s.structs.names s.scopes clauses) := by
  match clauses with
  | [] => exact .pure _
  | clause :: clauses =>
      rw [Clause.allKinds, Checker.knows_append] at h
      rw [checkClauses, Clause.checkAll]
      refine .bind (carriesOut_checkClause clause _ h.1) ?_
      refine .bind (carriesOut_checkClauses clauses _ h.2) ?_
      exact .pure _
termination_by structural clauses

theorem moves_checkBinding (binding : LetBinding) (s : Checker) (hinner : s.scopes.outer ≠ [])
    (h : s.Knows binding.kinds) :
    Moves (checkBinding binding) s (binding.check s.structs.names s.scopes) := by
  match binding with
  | .mk _ name value =>
      simp only [LetBinding.kinds, Checker.knows_enclosed, Checker.knows_cons] at h
      rw [checkBinding, LetBinding.check]
      refine moves_ensureFree fun _ => ?_
      refine (carriesOut_checkValue value s h.2).andMove ?_
      exact moves_bind _ name _ hinner
termination_by structural binding

theorem moves_checkBindings (bindings : List LetBinding) (s : Checker)
    (hinner : s.scopes.outer ≠ []) (h : s.Knows (LetBinding.allKinds bindings)) :
    Moves (checkBindings bindings) s
      (LetBinding.checkAll s.structs.names s.scopes bindings) := by
  match bindings with
  | [] => exact .pure
  | binding :: bindings =>
      rw [LetBinding.allKinds, Checker.knows_append] at h
      rw [checkBindings, LetBinding.checkAll]
      have hbinding := moves_checkBinding binding s hinner h.1
      exact hbinding.andMove (moves_checkBindings bindings _ (hbinding.outer ▸ hinner) h.2)
termination_by structural bindings

theorem moves_registerDefinition (definition : Definition) (s : Checker)
    (hinner : s.scopes.outer ≠ []) (h : s.Knows definition.kinds) :
    Moves (registerDefinition definition) s
      (definition.register s.structs.names s.scopes) := by
  match definition with
  | .function _ _ name params body =>
      simp only [Definition.kinds, Checker.knows_enclosed, List.cons_append, Checker.knows_cons,
        Checker.knows_append] at h
      obtain ⟨-, ⟨hname, hparams⟩, -⟩ := h
      rw [registerDefinition, Definition.register]
      refine moves_ensureFree fun _ => ?_
      refine (carriesOut_declare params s hparams).andMove (g := fun _ => pure _) ?_
      exact CarriesOut.spell hname (moves_bind _ name _ hinner)
  | .constant _ _ name value =>
      simp only [Definition.kinds, Checker.knows_enclosed, Checker.knows_cons] at h
      obtain ⟨-, hname, hvalue⟩ := h
      rw [registerDefinition, Definition.register]
      refine moves_ensureFree fun _ => ?_
      have hsilenced := (carriesOut_checkValue value s.quiet hvalue).silenced
      refine hsilenced.andMove (g := fun _ => pure _) ?_
      exact CarriesOut.spell hname (moves_bind _ name _ hinner)
termination_by structural definition

theorem moves_registerDefinitions (definitions : List Definition) (s : Checker)
    (hinner : s.scopes.outer ≠ []) (h : s.Knows (Definition.allKinds definitions)) :
    Moves (registerDefinitions definitions) s
      (Definition.registerAll s.structs.names s.scopes definitions) := by
  match definitions with
  | [] => exact .pure
  | definition :: definitions =>
      rw [Definition.allKinds, Checker.knows_append] at h
      rw [registerDefinitions, Definition.registerAll]
      have hdefinition := moves_registerDefinition definition s hinner h.1
      exact hdefinition.andMove
        (moves_registerDefinitions definitions _ (hdefinition.outer ▸ hinner) h.2)
termination_by structural definitions

theorem moves_checkDefinition (definition : Definition) (s : Checker)
    (h : s.Knows definition.kinds) :
    Moves (checkDefinition definition) s (definition.check s.structs.names s.scopes) := by
  match definition with
  | .function _ _ name (.typed _ params (some declared)) body =>
      simp only [Definition.kinds, Checker.knows_enclosed, List.cons_append, Checker.knows_cons,
        Checker.knows_append] at h
      obtain ⟨-, ⟨-, hparams⟩, hbody⟩ := h
      rw [checkDefinition, Definition.check]
      refine (carriesOut_resolveParams params _ hparams.typedParams).andMove ?_
      refine CarriesOut.andMove (carriesOut_resolve declared _ hparams.declared) ?_
      refine Moves.body _ (carriesOut_checkValue body _ hbody) ?_
      refine (carriesOut_adopt _).andMove ?_
      exact moves_finalize name _
  | .function _ _ name (.typed _ params none) body =>
      simp only [Definition.kinds, Checker.knows_enclosed, List.cons_append, Checker.knows_cons,
        Checker.knows_append] at h
      obtain ⟨-, ⟨-, hparams⟩, hbody⟩ := h
      rw [checkDefinition, Definition.check]
      refine (carriesOut_resolveParams params _ hparams.typedParams).andMove ?_
      refine Moves.body _ (carriesOut_checkValue body _ hbody) ?_
      exact (carriesOut_adopt _).andMove Moves.pure
  | .function _ _ name (.untyped _ names) body =>
      simp only [Definition.kinds, Checker.knows_enclosed, List.cons_append, Checker.knows_cons,
        Checker.knows_append] at h
      obtain ⟨-, -, hbody⟩ := h
      rw [checkDefinition, Definition.check]
      refine (carriesOut_adopt _).andMove ?_
      refine Moves.body _ (carriesOut_checkValue body _ hbody) ?_
      exact Moves.pure
  | .constant _ _ name value =>
      simp only [Definition.kinds, Checker.knows_enclosed, Checker.knows_cons] at h
      rw [checkDefinition, Definition.check]
      exact (carriesOut_checkValue value s h.2.2).andMove (moves_finalize name _)
termination_by structural definition

theorem moves_checkDefinitions (definitions : List Definition) (s : Checker)
    (h : s.Knows (Definition.allKinds definitions)) :
    Moves (checkDefinitions definitions) s
      (Definition.checkAll s.structs.names s.scopes definitions) := by
  match definitions with
  | [] => exact .pure
  | definition :: definitions =>
      rw [Definition.allKinds, Checker.knows_append] at h
      rw [checkDefinitions, Definition.checkAll]
      have hdefinition := moves_checkDefinition definition s h.1
      exact hdefinition.andMove (moves_checkDefinitions definitions _ h.2)
termination_by structural definitions

end

end Checking

/-! ## What a definition changes -/

/-- At most the type of one name in the current scope has changed. -/
structure Scopes.Retyped (name : String) (scopes later : Scopes) : Prop where
  outer : later.outer = scopes.outer
  names : later.current.names = scopes.current.names
  others : ∀ other, other ≠ name → later.local? other = scopes.local? other
  definedAt : (later.local? name).map (·.definedAt?) = (scopes.local? name).map (·.definedAt?)

theorem Scopes.Retyped.refl (name : String) (scopes : Scopes) : scopes.Retyped name scopes :=
  ⟨rfl, rfl, fun _ _ => rfl, rfl⟩

theorem Scopes.retyped_finalize (scopes : Scopes) (ident : Ident) (type : Ty) :
    scopes.Retyped ident.name (scopes.finalize ident type) := by
  rw [finalize]
  split
  · rename_i h
    obtain ⟨binding, hbinding, hdefined⟩ := (Option.any_eq_true _ _).mp h
    refine ⟨rfl, Table.names_put (Option.isSome_of_eq_some hbinding) _, ?_, ?_⟩
    · intro other hother
      rw [local?_bind, if_neg (Ne.symm hother)]
    · rw [local?_bind, if_pos rfl, hbinding, Option.map_some, Option.map_some,
        of_decide_eq_true hdefined]
  · exact .refl _ _

theorem Definition.retyped_check (structs : List String) (scopes : Scopes)
    (definition : Definition) :
    scopes.Retyped definition.name.name (definition.check structs scopes).result := by
  match definition with
  | .function _ _ name (.typed _ params (some declared)) body =>
      exact scopes.retyped_finalize name _
  | .function _ _ name (.typed _ params none) body => exact .refl _ _
  | .function _ _ name (.untyped _ names) body => exact .refl _ _
  | .constant _ _ name value => exact scopes.retyped_finalize name _

namespace Checking

/-- Checking a value has no effect but diagnostics, and it does not fail. Checking a definition
changes the type of its name besides. What is found depends on the scopes and the names of the
structs only. -/
theorem check_frame (s : Checker) :
    (∀ value : Value, s.Knows value.kinds →
      let judged := value.check s.structs.names s.scopes
      checkValue value s =
        .ok (judged.result, { s with diagnostics := s.diagnostics ++ judged.diagnostics })) ∧
    ∀ definition : Definition, s.Knows definition.kinds →
      let judged := definition.check s.structs.names s.scopes
      checkDefinition definition s =
        .ok ((), { s with
          scopes := judged.result
          diagnostics := s.diagnostics ++ judged.diagnostics }) ∧
      s.scopes.Retyped definition.name.name judged.result :=
  ⟨fun value h => (carriesOut_checkValue value s h).run,
    fun definition h => ⟨(moves_checkDefinition definition s h).run,
      definition.retyped_check s.structs.names s.scopes⟩⟩

open Range in
/-- `(local [(define a 1)] (+ a b))` -/
def localSum : Value :=
  .locals (inLine 11 41)
    [.constant (inLine 19 31) [] ⟨"a", inLine 27 28⟩ (.literal (inLine 29 30) (.integer 1))]
    (.call (inLine 33 40) (.name ⟨"+", inLine 34 35⟩)
      [.name ⟨"a", inLine 36 37⟩, .name ⟨"b", inLine 38 39⟩])

/-- `(define c (local [(define a 1)] (+ a b)))` -/
def sumDefinition : Definition :=
  .constant (.inLine 1 42) [] ⟨"c", .inLine 9 10⟩ localSum

/-- A state in the root scope, where `c` has been bound to the given type. -/
def sumState (type : Ty) (diagnostics : List Diagnostic) : Checker where
  names := ⟨["c", "a", "+", "b"], by decide⟩
  scopes := (Scopes.root Language.minimal.scope).bind ⟨"c", .inLine 9 10⟩ type
  structs := .empty
  globals := ["c"]
  diagnostics := diagnostics

theorem knows_sumDefinition : (sumState .any []).Knows sumDefinition.kinds := by
  simp [Checker.Knows, Checker.KnowsKind, sumState, sumDefinition, localSum, Definition.kinds,
    Value.kinds, Definition.allKinds, Value.allKinds, enclosed, Ident.kind]

theorem knows_localSum : (sumState .any []).Knows localSum.kinds := by
  have h := knows_sumDefinition
  rw [sumDefinition, Definition.kinds, Checker.knows_enclosed, Checker.knows_cons,
    Checker.knows_cons] at h
  exact h.2.2

/-- The value is a number, although `b` is bound nowhere, and `c` becomes a number. -/
theorem check_frame_sum :
    (sumState .any []).Knows localSum.kinds ∧ (sumState .any []).Knows sumDefinition.kinds ∧
      checkValue localSum (sumState .any []) =
        .ok (.number, sumState .any [⟨.undefined "b", .inLine 38 39, []⟩]) ∧
      checkDefinition sumDefinition (sumState .any []) =
        .ok ((), sumState .number [⟨.undefined "b", .inLine 38 39, []⟩]) := by
  have h := check_frame (sumState .any [])
  refine ⟨knows_localSum, knows_sumDefinition, ?_, ?_⟩
  · exact (h.1 localSum knows_localSum).trans rfl
  · exact (h.2 sumDefinition knows_sumDefinition).1.trans rfl

end Checking

end TypedIsl

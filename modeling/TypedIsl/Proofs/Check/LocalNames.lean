import TypedIsl.Language.Minimal
import TypedIsl.Proofs.Check.Mentions
import TypedIsl.Proofs.Check.Replacement

/-!
# Names of local binders

The names of parameters, of let bindings and of local definitions do not matter to the checker,
except where a `local` form registers a constant and looks one of its own names up around it.
-/

namespace TypedIsl

/-! ## Renaming a binder -/

/-- The second value is the first one with a binder of `x` renamed to `z`, which the form at the
top of the value introduces, and all occurrences with it. The first list has the stray look-ups in
the scope of the binder, and the second one the names that the form looks up around it while it
registers its definitions. -/
inductive Value.Rebinds (x z : String) : List String → List String → Value → Value → Prop
  | lambda {range params body} (hx : params.bound.count x = 1) :
      Value.Rebinds x z body.strays [] (.lambda range params body)
        (.lambda range (params.rename (replacing x z)) (body.rename (replacing x z)))
  | locals {range definitions body} (hx : (Definition.bound definitions).count x = 1) :
      Value.Rebinds x z (Definition.allStrays definitions ++ body.strays)
        (Definition.allEarlyReads definitions) (.locals range definitions body)
        (.locals range (Definition.renameAll (replacing x z) definitions)
          (body.rename (replacing x z)))
  | lets {range kind before bindingRange binderRange value after body}
      (hbefore : x ∉ LetBinding.bound before) (hafter : x ∉ LetBinding.bound after) :
      Value.Rebinds x z (LetBinding.allStrays after ++ body.strays) []
        (.lets range kind (before ++ .mk bindingRange ⟨x, binderRange⟩ value :: after) body)
        (.lets range kind
          (before ++ .mk bindingRange ⟨z, binderRange⟩ value ::
            LetBinding.renameAll (replacing x z) after)
          (body.rename (replacing x z)))

/-- The second definition is the first one with its parameter `x` renamed to `z`. The list has the
stray look-ups in the body. -/
inductive Definition.Rebinds (x z : String) : List String → Definition → Definition → Prop
  | function {range docs name params body} (hx : params.bound.count x = 1) :
      Definition.Rebinds x z body.strays (.function range docs name params body)
        (.function range docs name (params.rename (replacing x z)) (body.rename (replacing x z)))

/-- The second program is the first one with a local binder of `x` renamed to `z`. -/
def Program.Rebinds (language : Language) (x z : String) (program other : Program) : Prop :=
  Program.Within (fun _ value other => ∃ strays early, value.Rebinds x z strays early other)
    (fun _ definition other => ∃ strays, definition.Rebinds x z strays other)
    (rootNames language program) program other

/-- The binder is such that no `local` form looks `x` up past one of its own definitions of `x`,
neither the form that introduces the binder, unless `x` is bound nowhere around it, nor one in the
scope of the binder. -/
def Program.RebindsSteadily (language : Language) (x z : String) (program other : Program) : Prop :=
  Program.Within
    (fun bound value other => ∃ strays early,
      value.Rebinds x z strays early other ∧ x ∉ strays ∧ (x ∈ early → x ∉ bound))
    (fun _ definition other => ∃ strays, definition.Rebinds x z strays other ∧ x ∉ strays)
    (rootNames language program) program other

/-! ## Replacing one name and replacing it back -/

section

variable {x z : String} {kinds : List TokenKind}

theorem replacing_of_ne {name : String} (h : name ≠ x) : replacing x z name = name :=
  if_neg h

theorem allRestored_replacing (h : .identifier z ∉ kinds) :
    AllRestored (replacing z x) (replacing x z) kinds := by
  intro kind hkind
  cases kind with
  | identifier name =>
      have hname : name ≠ z := fun heq => h (heq ▸ hkind)
      refine ⟨replacing_of_ne hname, ?_⟩
      by_cases heq : name = x
      · simp [replacing, heq]
      · rw [replacing_of_ne heq, replacing_of_ne hname]
  | _ => trivial

theorem replacing_replacing (name : String) :
    replacing z x (replacing z x name) = replacing z x name := by
  by_cases h : name = z
  · by_cases hx : x = z <;> simp [replacing, h, hx]
  · rw [replacing_of_ne h, replacing_of_ne h]

theorem Diagnostic.rename_rename (f g : String → String) (d : Diagnostic) :
    (d.rename f).rename g = d.rename (g ∘ f) := by
  obtain ⟨problem, range, notes⟩ := d
  have hcallee : ∀ callee : Callee, (callee.rename f).rename g = callee.rename (g ∘ f) := by
    intro callee
    cases callee <;> rfl
  cases problem <;> simp [Diagnostic.rename, Problem.rename, hcallee]

/-- The diagnostics are the same once they are renamed by `back`. -/
def SameUpTo (back : String → String) (ds es : List Diagnostic) : Prop :=
  es.map (·.rename back) = ds.map (·.rename back)

theorem additive_sameUpTo (back : String → String) : Additive (SameUpTo back) := by
  refine ⟨rfl, ?_⟩
  intro ds es more others h hmore
  rw [SameUpTo, List.map_append, List.map_append, h, hmore]

theorem UpTo.sameUpTo {ds es : List Diagnostic} (h : UpTo (replacing z x) ds es) :
    SameUpTo (replacing z x) ds es := by
  have htwice : replacing z x ∘ replacing z x = replacing z x := funext replacing_replacing
  rw [SameUpTo, ← h, List.map_map]
  refine List.map_congr_left fun d _ => ?_
  rw [Function.comp_apply, Diagnostic.rename_rename, htwice]

theorem Scopes.mirror_enter {scopes : Scopes} {names : List String}
    (h : x ∈ names → scopes.type? z = scopes.type? x) :
    Mirror (replacing z x) (replacing x z) names scopes.enter scopes.enter := by
  refine ⟨fun _ _ => rfl, ?_⟩
  intro name hname _
  by_cases heq : name = x
  · subst heq
    rw [replacing, if_pos rfl]
    exact h hname
  · rw [replacing_of_ne heq]

theorem Scopes.agree_bind (scopes : Scopes) (range : Range) (type : Ty) (names : List String) :
    Agree (replacing z x) (replacing x z) names (scopes.bind ⟨x, range⟩ type)
      (scopes.bind ⟨z, range⟩ type) := by
  intro name _ hrestores
  rw [type?_bind, type?_bind]
  by_cases heq : name = x
  · have hz : replacing x z name = z := if_pos heq
    rw [hz, if_pos rfl, if_pos heq.symm]
  · have hz : name ≠ z := by
      rintro rfl
      exact heq (hrestores.1.symm.trans (if_pos rfl))
    rw [replacing_of_ne heq, if_neg (Ne.symm hz), if_neg (Ne.symm heq)]

theorem eq_of_not_mem {names : List String} (h : x ∉ names) :
    ∀ name ∈ names, replacing x z name = name :=
  fun _ hname => replacing_of_ne fun heq => h (heq ▸ hname)

end

/-! ## Binders -/

section

variable {x z : String} {bound strays early : List String}

theorem Fresh.restored {kinds more : List TokenKind} (h : Fresh z bound kinds)
    (hsub : more ⊆ kinds) : AllRestored (replacing z x) (replacing x z) more :=
  allRestored_replacing fun hmem => h.2 (hsub hmem)

/-- A binding whose name is not taken. -/
theorem LetBinding.check_of_local? {structs : List String} {scopes : Scopes} {ident : Ident}
    (h : scopes.local? ident.name = none) (range : Range) (value : Value) :
    (LetBinding.mk range ident value).check structs scopes =
      value.check structs scopes >>= fun type => pure (scopes.bind ident type) := by
  rw [LetBinding.check, Scopes.conflict?_of_local? h]

/-- A match in the strong sense for all scopes makes forms alike. -/
theorem Value.alike_of_match {value other : Value} (hrange : other.range = value.range)
    (hcallee : other.asCallee = value.asCallee)
    (h : ∀ structs scopes, scopes.BindsOnly bound → (value.check structs scopes).Match
      (UpTo (replacing z x)) Eq (other.check structs scopes)) :
    value.Alike (SameUpTo (replacing z x)) bound other :=
  ⟨hrange, hcallee, fun structs scopes hscopes =>
    (h structs scopes hscopes).mono (fun _ _ => UpTo.sameUpTo) fun _ _ heq => heq⟩

theorem Value.lambda_alike {range : Range} {params : Params} {body : Value}
    (hx : x ∈ params.bound) (hstrays : x ∉ body.strays)
    (hz : Fresh z bound (Value.lambda range params body).kinds) :
    (Value.lambda range params body).Alike (SameUpTo (replacing z x)) bound
      (.lambda range (params.rename (replacing x z)) (body.rename (replacing x z))) := by
  have hparams : AllRestored (replacing z x) (replacing x z) params.kinds := hz.restored
    fun kind hkind => by simp [Value.kinds, enclosed, hkind]
  have hkinds : AllRestored (replacing z x) (replacing x z) body.kinds := hz.restored
    fun kind hkind => by simp [Value.kinds, enclosed, hkind]
  have hbody := body.follows_rename hkinds (eq_of_not_mem hstrays)
  refine Value.alike_of_match rfl rfl fun structs scopes hscopes => ?_
  apply Value.follows_lambda structs hparams hbody (body.rename_range _) range
  exact Scopes.mirror_enter fun hname => absurd hx (mem_without.mp hname).2

theorem Value.locals_alike {range : Range} {definitions : List Definition} {body : Value}
    (hx : x ∈ Definition.bound definitions) (hdefinitions : x ∉ Definition.allStrays definitions)
    (hstrays : x ∉ body.strays) (hearly : x ∈ Definition.allEarlyReads definitions → x ∉ bound)
    (hz : Fresh z bound (Value.locals range definitions body).kinds) :
    (Value.locals range definitions body).Alike (SameUpTo (replacing z x)) bound
      (.locals range (Definition.renameAll (replacing x z) definitions)
        (body.rename (replacing x z))) := by
  have hkinds : AllRestored (replacing z x) (replacing x z) (Definition.allKinds definitions) :=
    hz.restored fun kind hkind => by simp [Value.kinds, enclosed, hkind]
  have hbodyKinds : AllRestored (replacing z x) (replacing x z) body.kinds := hz.restored
    fun kind hkind => by simp [Value.kinds, enclosed, hkind]
  have hbody := body.follows_rename hbodyKinds (eq_of_not_mem hstrays)
  refine Value.alike_of_match rfl rfl fun structs scopes hscopes => ?_
  -- While the definitions are registered, `x` and `z` may both be looked up and not be found.
  have hinner : Scopes.Mirror (replacing z x) (replacing x z)
      (Definition.allEarlyReads definitions ++ without (Definition.bound definitions)
        (Definition.allReads definitions ++ body.reads)) scopes.enter scopes.enter := by
    refine Scopes.mirror_enter fun hname => ?_
    rcases List.mem_append.mp hname with hname | hname
    · rw [Scopes.type?, Scopes.type?, hscopes x (hearly hname), hscopes z hz.1]
    · exact absurd hx (mem_without.mp hname).2
  have hkept := eq_of_not_mem (z := z) hdefinitions
  exact Value.follows_locals structs (Definition.registerAll_rename definitions hkinds hkept hinner)
    (fun _ _ hregistered => Definition.checkAll_rename definitions hkinds hkept hregistered
      (List.subset_append_left _ _)) hbody (List.subset_append_right _ _) range

/-- What follows a let binding of `x` in its form, once the value is bound to `z` instead. -/
theorem LetBinding.follows_rebound (structs : List String) {bindings : List LetBinding}
    {body : Value} (hx : x ∉ LetBinding.bound bindings) (hz : z ∉ LetBinding.bound bindings)
    (hbindings : x ∉ LetBinding.allStrays bindings) (hstrays : x ∉ body.strays)
    (hkinds : AllRestored (replacing z x) (replacing x z) (LetBinding.allKinds bindings))
    (hbodyKinds : AllRestored (replacing z x) (replacing x z) body.kinds) (scopes : Scopes)
    (range : Range) (type : Ty) :
    (LetBinding.checkAll structs (scopes.bind ⟨x, range⟩ type) bindings >>= fun inner =>
      body.check structs inner).Match (UpTo (replacing z x)) Eq
      (LetBinding.checkAll structs (scopes.bind ⟨z, range⟩ type)
        (LetBinding.renameAll (replacing x z) bindings) >>= fun inner =>
          (body.rename (replacing x z)).check structs inner) := by
  have hbody := body.follows_rename hbodyKinds (eq_of_not_mem hstrays)
  have hlocal : ∀ name ∈ LetBinding.bound bindings,
      (scopes.bind ⟨z, range⟩ type).local? name = (scopes.bind ⟨x, range⟩ type).local? name := by
    intro name hname
    have hnameZ : z ≠ name := fun heq => hz (heq ▸ hname)
    have hnameX : x ≠ name := fun heq => hx (heq ▸ hname)
    rw [Scopes.local?_bind, Scopes.local?_bind, if_neg hnameZ, if_neg hnameX]
  have hagree := scopes.agree_bind (x := x) (z := z) range type
    (LetBinding.allReads bindings ++ without (LetBinding.bound bindings) body.reads)
  refine .bind (additive_upTo (replacing z x)) (LetBinding.checkAll_rename bindings hkinds
    (eq_of_not_mem hbindings) hlocal hagree) fun inner otherInner hinner => ?_
  rw [except_replacing hx] at hinner
  exact hbody structs inner otherInner hinner

theorem Value.lets_alike {range bindingRange binderRange : Range} {kind : LetKind}
    {before after : List LetBinding} {value body : Value} (hbefore : x ∉ LetBinding.bound before)
    (hafter : x ∉ LetBinding.bound after) (hbindings : x ∉ LetBinding.allStrays after)
    (hstrays : x ∉ body.strays)
    (hz : Fresh z bound (Value.lets range kind
      (before ++ .mk bindingRange ⟨x, binderRange⟩ value :: after) body).kinds) :
    (Value.lets range kind (before ++ .mk bindingRange ⟨x, binderRange⟩ value :: after)
      body).Alike (SameUpTo (replacing z x)) bound
      (.lets range kind
        (before ++ .mk bindingRange ⟨z, binderRange⟩ value ::
          LetBinding.renameAll (replacing x z) after)
        (body.rename (replacing x z))) := by
  have hR := additive_sameUpTo (replacing z x)
  have hrefl : ∀ ds, SameUpTo (replacing z x) ds ds := fun _ => rfl
  have hbindingsFresh : Fresh z bound (LetBinding.allKinds
      (before ++ .mk bindingRange ⟨x, binderRange⟩ value :: after)) :=
    hz.mono fun kind hkind => by simp [Value.kinds, enclosed, hkind]
  have hkinds : AllRestored (replacing z x) (replacing x z) (LetBinding.allKinds after) :=
    hbindingsFresh.restored fun kind hkind => by
      rw [LetBinding.allKinds_eq] at hkind ⊢
      simp [List.mem_flatMap.mp hkind]
  have hzBound : z ∉ LetBinding.bound
      (before ++ .mk bindingRange ⟨x, binderRange⟩ value :: after) :=
    fun hmem => hbindingsFresh.2 (LetBinding.kind_of_mem_bound hmem)
  rw [LetBinding.bound_append, List.mem_append, not_or] at hzBound
  have hzAfter := List.not_mem_of_not_mem_cons hzBound.2
  have hbodyKinds : AllRestored (replacing z x) (replacing x z) body.kinds := hz.restored
    fun kind hkind => by simp [Value.kinds, enclosed, hkind]
  refine ⟨rfl, rfl, fun structs scopes hscopes => ?_⟩
  have hbinds := LetBinding.binds_checkAll structs scopes.enter before
  rw [Value.check, Value.check, LetBinding.checkAll_append, LetBinding.checkAll_append, bind_assoc,
    bind_assoc]
  refine .after hR hrefl _ ?_
  rw [LetBinding.checkAll, LetBinding.checkAll,
    LetBinding.check_of_local? (hbinds.local?_eq hbefore),
    LetBinding.check_of_local? (hbinds.local?_eq hzBound.1)]
  simp only [bind_assoc, pure_bind]
  refine .after hR hrefl _ ?_
  have hrest := LetBinding.follows_rebound structs hafter hzAfter hbindings hstrays hkinds
    hbodyKinds (LetBinding.checkAll structs scopes.enter before).result binderRange
  exact (hrest _).mono (fun _ _ => UpTo.sameUpTo) fun _ _ heq => heq

theorem Value.Rebinds.alike {value other : Value} (h : value.Rebinds x z strays early other)
    (hstrays : x ∉ strays) (hearly : x ∈ early → x ∉ bound) (hz : Fresh z bound value.kinds) :
    value.Alike (SameUpTo (replacing z x)) bound other := by
  cases h with
  | lambda hx => exact Value.lambda_alike (List.count_pos_iff.mp (by omega)) hstrays hz
  | locals hx =>
      obtain ⟨hdefinitions, hbody⟩ := not_or.mp (mt List.mem_append.mpr hstrays)
      exact Value.locals_alike (List.count_pos_iff.mp (by omega)) hdefinitions hbody hearly hz
  | lets hbefore hafter =>
      obtain ⟨hbindings, hbody⟩ := not_or.mp (mt List.mem_append.mpr hstrays)
      exact Value.lets_alike hbefore hafter hbindings hbody hz

theorem Params.declaredType_rename (structs : List String) (params : Params)
    (f : String → String) :
    (params.rename f).declaredType structs = params.declaredType structs := by
  cases params with
  | untyped range names => simp [Params.rename, declaredType, Function.comp_def]
  | typed range params result? => simp only [Params.rename, declaredType, resolveParams_rename]

theorem Definition.Rebinds.alike {definition other : Definition}
    (h : definition.Rebinds x z strays other) (hstrays : x ∉ strays)
    (hz : Fresh z bound definition.kinds) :
    definition.Alike (SameUpTo (replacing z x)) bound other := by
  obtain @⟨range, docs, name, params, body, hx⟩ := h
  have hmem : x ∈ params.bound := List.count_pos_iff.mp (by omega)
  have hname : Restores (replacing z x) (replacing x z) name.name :=
    hz.restored (List.Subset.refl _) name.kind (by simp [Definition.kinds, enclosed])
  have hparams : AllRestored (replacing z x) (replacing x z) params.kinds := hz.restored
    fun kind hkind => by simp [Definition.kinds, enclosed, hkind]
  have hkinds : AllRestored (replacing z x) (replacing x z) body.kinds := hz.restored
    fun kind hkind => by simp [Definition.kinds, enclosed, hkind]
  have hbody := body.follows_rename hkinds (eq_of_not_mem hstrays)
  refine ⟨rfl, fun structs scopes hscopes => ?_, fun structs scopes hscopes => ?_⟩
  · rw [Definition.register, Definition.register, Params.declaredType_rename]
    exact ⟨rfl, rfl⟩
  · have hinner : Scopes.Mirror (replacing z x) (replacing x z) (without params.bound body.reads)
        scopes.enter scopes.enter :=
      Scopes.mirror_enter fun hname => absurd hmem (mem_without.mp hname).2
    have hcheck := Definition.follows_function structs (r := Eq) (f := id) ⟨hname.1, hname.1⟩
      hparams hbody (body.rename_range _) range docs rfl (fun _ => rfl) hinner
    exact ⟨hcheck.result, hcheck.diagnostics.sameUpTo⟩

end

/-! ## Programs -/

theorem Fresh.rename_diagnostics {language : Language} {program : Program} {x z : String}
    (hz : Fresh z (Program.rootNames language program) (Program.kinds program)) :
    (Program.check language program).diagnostics.map (·.rename (replacing z x)) =
      (Program.check language program).diagnostics := by
  apply Program.rename_diagnostics (hz.restored (x := x) (List.Subset.refl _)).unchanged
  intro name hname
  have hne : name ≠ z := fun heq => hz.1 (heq ▸ List.mem_append_right _ hname)
  exact replacing_of_ne hne

/-- Renaming a local binder to a fresh name renames it in the diagnostics and changes nothing else,
unless a `local` form looks the name up past its own definition. -/
theorem Program.check_rebindsSteadily {language : Language} {x z : String} {program other : Program}
    (h : Program.RebindsSteadily language x z program other)
    (hz : Fresh z (rootNames language program) (kinds program)) :
    (check language other).globals = (check language program).globals ∧
      (check language other).diagnostics.map (·.rename (replacing z x)) =
        (check language program).diagnostics := by
  have halike := (Program.Within.fresh h hz).check_alike (additive_sameUpTo (replacing z x))
    (fun _ => rfl)
    (fun _ _ _ ⟨⟨_, _, hrebinds, hstrays, hearly⟩, hfresh⟩ =>
      hrebinds.alike hstrays hearly hfresh)
    (fun _ _ _ ⟨⟨_, hrebinds, hstrays⟩, hfresh⟩ => hrebinds.alike hstrays hfresh)
  exact ⟨halike.1, halike.2.trans hz.rename_diagnostics⟩

/-! ## Looking past a definition -/

open Range in
/-- `(local [(define c (+ a 1)) (define a name) (define name 1)] c)` -/
def lateLocal (name : String) : Value :=
  .locals (inLine 16 72)
    [.constant (inLine 24 42) [] ⟨"c", inLine 32 33⟩
      (.call (inLine 34 41) (.name ⟨"+", inLine 35 36⟩)
        [.name ⟨"a", inLine 37 38⟩, .literal (inLine 39 40) (.integer 1)]),
     .constant (inLine 43 55) [] ⟨"a", inLine 51 52⟩ (.name ⟨name, inLine 53 54⟩),
     .constant (inLine 56 68) [] ⟨name, inLine 64 65⟩ (.literal (inLine 66 67) (.integer 1))]
    (.name ⟨"c", inLine 70 71⟩)

/-- `(define y "s")` and a `local` form, which may define `y` again. -/
def shadowingProgram (name : String) : Program :=
  [.definition (.constant (.inLine 1 15) [] ⟨"y", .inLine 9 10⟩
     (.literal (.inLine 11 14) (.string "s"))),
   .value (lateLocal name)]

theorem lateLocal_rebinds :
    ∃ strays early, (lateLocal "y").Rebinds "y" "z" strays early (lateLocal "z") ∧
      "y" ∉ strays ∧ early = ["+", "a", "y"] :=
  ⟨_, _, .locals (by decide +kernel), by decide +kernel, by decide +kernel⟩

/-- While `a` is registered, the outer `y` is found in place of the local one. -/
theorem Program.check_rebinds_shadowing :
    Program.Rebinds .minimal "y" "z" (shadowingProgram "y") (shadowingProgram "z") ∧
      Fresh "z" (rootNames .minimal (shadowingProgram "y")) (kinds (shadowingProgram "y")) ∧
      (check .minimal (shadowingProgram "z")).diagnostics.map (·.rename (replacing "z" "y")) ≠
        (check .minimal (shadowingProgram "y")).diagnostics := by
  obtain ⟨strays, early, hrebinds, -, -⟩ := lateLocal_rebinds
  refine ⟨?_, ⟨by decide +kernel, by decide +kernel⟩, by decide +kernel⟩
  exact @Program.Within.form _ _ _ [_] [] _ _ (.value (.part ⟨strays, early, hrebinds⟩))

/-- Without an outer `y`, neither name is found. -/
theorem Program.check_rebindsSteadily_late :
    RebindsSteadily .minimal "y" "z" [.value (lateLocal "y")] [.value (lateLocal "z")] ∧
      Fresh "z" (rootNames .minimal [.value (lateLocal "y")]) (kinds [.value (lateLocal "y")]) ∧
      (check .minimal [.value (lateLocal "z")]).diagnostics.map (·.rename (replacing "z" "y")) =
        (check .minimal [.value (lateLocal "y")]).diagnostics := by
  have hz : Fresh "z" (rootNames .minimal [.value (lateLocal "y")])
      (kinds [.value (lateLocal "y")]) := ⟨by decide +kernel, by decide +kernel⟩
  have hy : "y" ∉ rootNames .minimal [.value (lateLocal "y")] := by decide +kernel
  obtain ⟨strays, early, hrebinds, hstrays, -⟩ := lateLocal_rebinds
  have h : RebindsSteadily .minimal "y" "z" [.value (lateLocal "y")] [.value (lateLocal "z")] :=
    @Program.Within.form _ _ _ [] [] _ _
      (.value (.part ⟨strays, early, hrebinds, hstrays, fun _ => hy⟩))
  exact ⟨h, hz, (check_rebindsSteadily h hz).2⟩

end TypedIsl

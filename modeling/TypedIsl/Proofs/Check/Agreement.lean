import TypedIsl.Proofs.Check.Lookup
import TypedIsl.Proofs.Check.Reads
import TypedIsl.Proofs.Check.UpTo

/-!
# Scopes that agree

Two stacks of scopes agree along a renaming if `f name` has the type in the one that `name` has in
the other. They still agree when names are bound in both of them.
-/

namespace TypedIsl

namespace Scopes

/-- From the current scope outwards, `f name` has the type in the second scopes that `name` has in
the first ones. -/
def Agree (back f : String → String) (names : List String) (scopes others : Scopes) : Prop :=
  ∀ name ∈ names, Restores back f name → others.type? (f name) = scopes.type? name

/-- The scopes agree, and the current ones bind all names alike. -/
structure Mirror (back f : String → String) (names : List String) (scopes others : Scopes) :
    Prop where
  inner : ∀ name, Restores back f name → others.local? (f name) = scopes.local? name
  outward : Agree back f names scopes others

variable {back f : String → String} {names more : List String} {scopes others : Scopes}

theorem Agree.mono (h : Agree back f names scopes others) (hsub : more ⊆ names) :
    Agree back f more scopes others :=
  fun name hname => h name (hsub hname)

theorem agree_append : Agree back f (names ++ more) scopes others ↔
    Agree back f names scopes others ∧ Agree back f more scopes others :=
  List.forall_mem_append

theorem Mirror.mono (h : Mirror back f names scopes others) (hsub : more ⊆ names) :
    Mirror back f more scopes others :=
  ⟨h.inner, h.outward.mono hsub⟩

/-- Below a binder, the names that are bound there are kept. Those that are looked up around it all
the same must have been kept before. -/
theorem Agree.enter (h : Agree back f names scopes others)
    (hkept : ∀ name ∈ names, name ∈ more → f name = name) :
    Mirror back (except more f) names scopes.enter others.enter := by
  refine ⟨fun name _ => rfl, ?_⟩
  intro name hname hrestores
  have hf : except more f name = f name := by
    by_cases hmore : name ∈ more
    · rw [except_of_mem hmore, hkept name hname hmore]
    · exact except_of_not_mem hmore
  rw [Restores, hf] at hrestores
  rw [type?_enter, type?_enter, hf]
  exact h name hname hrestores

/-- A binder whose name is kept. -/
theorem Agree.bind {ident : Ident} (h : Agree back f (without [ident.name] names) scopes others)
    (hident : back ident.name = ident.name) (type : Ty) :
    Agree back (except [ident.name] f) names (scopes.bind ident type)
      (others.bind ident type) := by
  intro name hname hrestores
  rw [type?_bind, type?_bind]
  by_cases heq : name = ident.name
  · rw [heq, except_of_mem List.mem_cons_self, if_pos rfl, if_pos rfl]
  · have hnot : name ∉ [ident.name] := by simp [heq]
    rw [Restores, except_of_not_mem hnot] at hrestores
    have hne := Restores.ne_of_not_mem hrestores hident heq
    rw [except_of_not_mem hnot, if_neg (Ne.symm hne), if_neg (Ne.symm heq)]
    exact h name (mem_without.mpr ⟨hname, hnot⟩) hrestores

/-- A binder whose name is kept and was bound already. -/
theorem Agree.keeping {name : String} (h : Agree back f (without [name] names) scopes others)
    (hlocal : others.local? name = scopes.local? name) (hsome : (scopes.local? name).isSome) :
    Agree back (except [name] f) names scopes others := by
  intro other hother hrestores
  by_cases heq : other = name
  · obtain ⟨binding, hbinding⟩ := Option.isSome_iff_exists.mp hsome
    rw [heq, except_of_mem List.mem_cons_self, type?_of_local? hbinding,
      type?_of_local? (hlocal.trans hbinding)]
  · have hnot : other ∉ [name] := by simp [heq]
    rw [Restores, except_of_not_mem hnot] at hrestores
    rw [except_of_not_mem hnot]
    exact h other (mem_without.mpr ⟨hother, hnot⟩) hrestores

theorem Mirror.bind (h : Mirror back f names scopes others) {ident : Ident}
    (hident : Restores back f ident.name) (type : Ty) :
    Mirror back f (ident.name :: names) (scopes.bind ident type)
      (others.bind (ident.rename f) type) := by
  have hsame : ∀ name, Restores back f name → (f ident.name = f name ↔ ident.name = name) :=
    fun name hname => ⟨hident.eq_of_eq hname, congrArg f⟩
  constructor
  · intro name hname
    simp only [local?_bind, Ident.rename_name, Ident.rename_range, hsame name hname,
      h.inner name hname]
  · intro name hmem hname
    simp only [type?_bind, Ident.rename_name, hsame name hname]
    split
    · rfl
    · rename_i hne
      have hmem := (List.mem_cons.mp hmem).resolve_left fun heq => hne heq.symm
      exact h.outward name hmem hname

/-- A name that is bound in the current scope is looked up there. -/
theorem Mirror.cons_of_local? (h : Mirror back f names scopes others) {name : String}
    (hname : (scopes.local? name).isSome) : Mirror back f (name :: names) scopes others := by
  refine ⟨h.inner, ?_⟩
  intro other hother hrestores
  rcases List.mem_cons.mp hother with rfl | hother
  · obtain ⟨binding, hbinding⟩ := Option.isSome_iff_exists.mp hname
    rw [type?_of_local? hbinding, type?_of_local? ((h.inner other hrestores).trans hbinding)]
  · exact h.outward other hother hrestores

theorem isSome_of_conflict? {ident : Ident} {problem : Problem} {d : Diagnostic}
    (h : scopes.conflict? ident problem = some d) : (scopes.local? ident.name).isSome := by
  have hmap := congrArg Option.isSome h
  rwa [conflict?, Option.isSome_map] at hmap

theorem Mirror.conflict? (h : Mirror back f names scopes others) {ident : Ident}
    (hident : Restores back f ident.name) {problem other : Problem}
    (hproblem : other.rename back = problem) :
    (others.conflict? (ident.rename f) other).map (·.rename back) =
      scopes.conflict? ident problem := by
  have hlocal := h.inner ident.name hident
  rw [Scopes.conflict?, Scopes.conflict?, Ident.rename_name, hlocal, Option.map_map]
  subst hproblem
  rfl

theorem Mirror.bindNew (h : Mirror back f names scopes others) {ident : Ident}
    (hident : Restores back f ident.name) (type : Ty) {problem other : Problem}
    (hproblem : other.rename back = problem) :
    (scopes.bindNew ident type problem).Match (UpTo back) (Mirror back f (ident.name :: names))
      (others.bindNew (ident.rename f) type other) := by
  have hconflict := h.conflict? hident hproblem
  unfold Scopes.bindNew
  cases hd : scopes.conflict? ident problem with
  | none =>
      rw [hd, Option.map_eq_none_iff] at hconflict
      rw [hconflict]
      exact .pure (additive_upTo back) (h.bind hident type)
  | some d =>
      rw [hd] at hconflict
      obtain ⟨e, he, hed⟩ := Option.map_eq_some_iff.mp hconflict
      rw [he]
      refine .step (additive_upTo back) (.report (congrArg ([·]) hed)) fun _ => ?_
      exact .pure (additive_upTo back) (h.cons_of_local? (isSome_of_conflict? hd))

theorem Mirror.finalize (h : Mirror back f names scopes others) {ident : Ident}
    (hident : Restores back f ident.name) (type : Ty) :
    Mirror back f names (scopes.finalize ident type) (others.finalize (ident.rename f) type) := by
  have hlocal := h.inner ident.name hident
  unfold Scopes.finalize
  rw [Ident.rename_name, Ident.rename_range, hlocal]
  split
  · exact (h.bind hident type).mono (List.subset_cons_self _ _)
  · exact h

end Scopes

/-! ## Parameters -/

section

variable {back f : String → String} {names : List String} {scopes others : Scopes}

theorem Scopes.Mirror.bindParams {params : List (Ident × Ty)}
    (h : Mirror back f (without (params.map (·.1.name)) names) scopes others)
    (hparams : ∀ param ∈ params, Restores back f param.1.name) :
    (scopes.bindParams params).Match (UpTo back) (Mirror back f names)
      (others.bindParams (params.map fun param => (param.1.rename f, param.2))) := by
  have hR := additive_upTo back
  induction params generalizing scopes others with
  | nil => exact .pure hR (h.mono fun name hname => by simpa using hname)
  | cons param params ih =>
      obtain ⟨hparam, hparams⟩ := List.forall_mem_cons.mp hparams
      have hproblem : (Problem.alreadyDefinedLocally (f param.1.name)).rename back =
          .alreadyDefinedLocally param.1.name := by rw [Problem.rename, hparam.2]
      refine .bind hR (h.bindNew hparam param.2 hproblem) fun inner otherInner hinner => ?_
      exact ih (hinner.mono (without_subset_cons _ _ _)) hparams

theorem Scopes.Mirror.bindIdents {idents : List Ident}
    (h : Mirror back f (without (idents.map (·.name)) names) scopes others)
    (hidents : ∀ ident ∈ idents, Restores back f ident.name) (type : Ty) :
    (scopes.bindParams (idents.map fun ident => (ident, type))).Match (UpTo back)
      (Mirror back f names)
      (others.bindParams ((idents.map (·.rename f)).map fun ident => (ident, type))) := by
  have hbound : (idents.map fun ident => (ident, type)).map (·.1.name) = idents.map (·.name) := by
    simp
  have hrenamed : (idents.map (·.rename f)).map (fun ident => (ident, type)) =
      (idents.map fun ident => (ident, type)).map fun param => (param.1.rename f, param.2) := by
    simp
  rw [hrenamed]
  apply Mirror.bindParams (hbound ▸ h)
  simpa using hidents

theorem Scopes.Mirror.bindResolved {params : List TypedParam} {types : List Ty}
    (h : Mirror back f (without (params.map (·.name.name)) names) scopes others)
    (hparams : ∀ param ∈ params, AllRestored back f param.kinds)
    (hlength : types.length = params.length) :
    (scopes.bindParams ((params.map (·.name)).zip types)).Match (UpTo back) (Mirror back f names)
      (others.bindParams (((params.map (·.rename f)).map (·.name)).zip types)) := by
  have hbound : ((params.map (·.name)).zip types).map (·.1.name) = params.map (·.name.name) := by
    have hfirst : ((params.map (·.name)).zip types).map Prod.fst = params.map (·.name) :=
      List.map_fst_zip (by simp [hlength])
    have hnames := congrArg (List.map Ident.name) hfirst
    rwa [List.map_map, List.map_map] at hnames
  have hrenamed : ((params.map (·.rename f)).map (·.name)).zip types =
      ((params.map (·.name)).zip types).map fun param => (param.1.rename f, param.2) := by
    have hnames : (params.map (·.rename f)).map (·.name) =
        (params.map (·.name)).map (·.rename f) := by simp
    rw [hnames, List.zip_map_left]
    rfl
  rw [hrenamed]
  refine Mirror.bindParams (hbound ▸ h) fun param hparam => ?_
  obtain ⟨typed, htyped, hname⟩ := List.mem_map.mp (List.of_mem_zip hparam).1
  exact hname ▸ (allRestored_cons.mp (hparams typed htyped)).1

theorem Scopes.Mirror.bindTypedParams (structs : List String) {params : List TypedParam}
    (h : Mirror back f (without (params.map (·.name.name)) names) scopes others)
    (hparams : ∀ param ∈ params, AllRestored back f param.kinds) :
    (bindTypedParams structs scopes params).Match (UpTo back)
      (fun inner other => Mirror back f names inner.1 other.1 ∧ inner.2 = other.2)
      (bindTypedParams structs others (params.map (·.rename f))) := by
  have hR := additive_upTo back
  induction params generalizing scopes others with
  | nil => exact .pure hR ⟨h.mono fun name hname => by simpa using hname, rfl⟩
  | cons param params ih =>
      obtain ⟨hparam, hparams⟩ := List.forall_mem_cons.mp hparams
      obtain ⟨hname, hrest⟩ := allRestored_cons.mp hparam
      have hproblem : (Problem.alreadyDefinedLocally (f param.name.name)).rename back =
          .alreadyDefinedLocally param.name.name := by rw [Problem.rename, hname.2]
      refine .step hR (param.type.resolve_upTo structs (allRestored_cons.mp hrest).2) fun type => ?_
      refine .bind hR (h.bindNew hname type hproblem) fun inner otherInner hinner => ?_
      refine .bind hR (ih (hinner.mono (without_subset_cons _ _ _)) hparams) ?_
      intro rest otherRest h
      exact .pure hR ⟨h.1, congrArg (type :: ·) h.2⟩

end

end TypedIsl

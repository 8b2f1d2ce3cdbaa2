import TypedIsl.Proofs.Check.Root

/-!
# Registering a program

If the names that a program binds are distinct and free, then all of them are bound, and nothing is
reported but what is wrong with the fields of structs.
-/

namespace TypedIsl

/-- What is wrong with the fields of a struct. -/
def TopLevel.fieldDiagnostics (structs : List String) : TopLevel → List Diagnostic
  | struct form => (form.fields.fieldTypes structs).diagnostics
  | _ => []

/-- The function that the form defines, if it does, is bound with its declared type. -/
def Scopes.Declares (structs : List String) (scopes : Scopes) : TopLevel → Prop
  | .definition (.function _ _ name params _) =>
      scopes.local? name.name = some ⟨params.declaredType structs, some name.range⟩
  | _ => True

section

variable {structs : List String} {scopes others : Scopes} {registered : Registered}

theorem Scopes.bindNew_of_local? {ident : Ident} (h : scopes.local? ident.name = none) (type : Ty)
    (problem : Problem) : scopes.bindNew ident type problem = pure (scopes.bind ident type) := by
  rw [bindNew, conflict?_of_local? h]

/-- A function stays declared while other names are bound. -/
theorem Scopes.Declares.of_binds {names : List String} {form : TopLevel}
    (h : scopes.Declares structs form) (hbinds : Scopes.Binds names scopes others)
    (hnames : ∀ name ∈ form.names, name ∉ names) : others.Declares structs form := by
  match form with
  | .definition (.function _ _ name params _) =>
      have hname := hnames name.name List.mem_cons_self
      exact (hbinds.local?_eq hname).trans h
  | .definition (.constant _ _ _ _) => trivial
  | .struct _ => trivial
  | .value _ => trivial

/-! ## One form -/

theorem StructDefinition.bindCoined_diagnostics (range : Range) {coined : List (String × Ty)}
    (hnodup : (coined.map Prod.fst).Nodup)
    (hfree : ∀ name ∈ coined.map Prod.fst, scopes.local? name = none) :
    (bindCoined range scopes coined).diagnostics = [] := by
  induction coined generalizing scopes with
  | nil => rfl
  | cons entry coined ih =>
      obtain ⟨name, type⟩ := entry
      obtain ⟨hname, hrest⟩ := List.forall_mem_cons.mp hfree
      obtain ⟨hnot, hnodup⟩ := List.nodup_cons.mp hnodup
      have hlocal : scopes.local? (Ident.mk name range).name = none := hname
      rw [bindCoined, Scopes.bindNew_of_local? hlocal, pure_bind]
      apply ih hnodup
      intro other hother
      have hne : name ≠ other := fun heq => hnot (heq ▸ hother)
      rw [Scopes.local?_bind, if_neg hne]
      exact hrest other hother

theorem TopLevel.register_diagnostics {form : TopLevel} (hnodup : form.names.Nodup)
    (hfree : ∀ name ∈ form.names, registered.scopes.local? name = none) :
    (form.register structs registered).diagnostics = form.fieldDiagnostics structs := by
  match form with
  | .value _ => rfl
  | .definition (.function _ _ name _ _) =>
      have hname := hfree name.name List.mem_cons_self
      rw [register, Definition.register, Scopes.bindNew_of_local? hname]
      rfl
  | .definition (.constant _ _ name _) =>
      have hname := hfree name.name List.mem_cons_self
      rw [register, Definition.register, Scopes.conflict?_of_local? hname]
      rfl
  | .struct form =>
      obtain ⟨hname, hcoined⟩ := List.forall_mem_cons.mp hfree
      obtain ⟨hnot, hnodup⟩ := List.nodup_cons.mp hnodup
      have hmap := form.map_fst_coined (form.fields.length_fieldTypes structs)
      have hrest : ∀ (type : Ty), ∀ name ∈ form.coinedNames,
          (registered.scopes.bind form.name type).local? name = none := by
        intro type name hmem
        have hne : form.name.name ≠ name := fun heq => hnot (heq ▸ hmem)
        rw [Scopes.local?_bind, if_neg hne]
        exact hcoined name hmem
      rw [register, StructDefinition.register, Scopes.conflict?_of_local? hname]
      simp only [Judged.diagnostics_bind, Judged.diagnostics_pure, List.append_nil]
      rw [StructDefinition.bindCoined_diagnostics form.name.range (hmap.symm ▸ hnodup)
        (hmap.symm ▸ hrest _), List.append_nil]
      rfl

theorem TopLevel.register_declares {form : TopLevel}
    (hfree : ∀ name ∈ form.names, registered.scopes.local? name = none) :
    (form.register structs registered).result.scopes.Declares structs form := by
  match form with
  | .definition (.function _ _ name params _) =>
      have hname := hfree name.name List.mem_cons_self
      rw [register, Definition.register, Scopes.bindNew_of_local? hname]
      exact (Scopes.local?_bind registered.scopes name _ name.name).trans (if_pos rfl)
  | .definition (.constant _ _ _ _) => trivial
  | .struct _ => trivial
  | .value _ => trivial

/-! ## All forms -/

/-- Registering a form leaves the names of the others free. -/
theorem TopLevel.register_free (structs : List String) {form : TopLevel} {names : List String}
    (hfree : ∀ name ∈ names, registered.scopes.local? name = none)
    (hdisjoint : ∀ name ∈ form.names, ∀ other ∈ names, name ≠ other) :
    ∀ name ∈ names, (form.register structs registered).result.scopes.local? name = none := by
  obtain ⟨coined, -, hsub, hbinds⟩ := form.register_binds structs registered
  intro name hname
  have hnot : name ∉ form.names := fun hmem => hdisjoint name hmem name hname rfl
  rw [(hbinds.mono hsub).local?_eq hnot]
  exact hfree name hname

namespace Program

variable {program : Program}

theorem names_cons (form : TopLevel) (program : Program) :
    names (form :: program) = form.names ++ names program :=
  List.flatMap_cons

theorem names_append (program others : Program) :
    names (program ++ others) = names program ++ names others :=
  List.flatMap_append

theorem register_diagnostics (hnodup : (names program).Nodup)
    (hfree : ∀ name ∈ names program, registered.scopes.local? name = none) :
    (register structs registered program).diagnostics =
      program.flatMap (·.fieldDiagnostics structs) := by
  induction program generalizing registered with
  | nil => rfl
  | cons form program ih =>
      rw [names_cons] at hnodup hfree
      obtain ⟨hform, hprogram, hdisjoint⟩ := List.nodup_append.mp hnodup
      obtain ⟨hformFree, hprogramFree⟩ := List.forall_mem_append.mp hfree
      have hrest := ih hprogram (TopLevel.register_free structs hprogramFree hdisjoint)
      rw [register, Judged.diagnostics_bind, TopLevel.register_diagnostics hform hformFree, hrest,
        List.flatMap_cons]

theorem register_declares (hnodup : (names program).Nodup)
    (hfree : ∀ name ∈ names program, registered.scopes.local? name = none) :
    ∀ form ∈ program,
      (register structs registered program).result.scopes.Declares structs form := by
  induction program generalizing registered with
  | nil => exact fun _ hform => absurd hform List.not_mem_nil
  | cons form program ih =>
      rw [names_cons] at hnodup hfree
      obtain ⟨-, hprogram, hdisjoint⟩ := List.nodup_append.mp hnodup
      obtain ⟨hformFree, hprogramFree⟩ := List.forall_mem_append.mp hfree
      have hrest := ih hprogram (TopLevel.register_free structs hprogramFree hdisjoint)
      refine List.forall_mem_cons.mpr ⟨?_, hrest⟩
      obtain ⟨coined, -, hsub, hbinds⟩ :=
        register_binds structs (form.register structs registered).result program
      apply (TopLevel.register_declares hformFree).of_binds (hbinds.mono hsub)
      exact fun name hname hmem => hdisjoint name hname name hmem rfl

end Program

end

end TypedIsl

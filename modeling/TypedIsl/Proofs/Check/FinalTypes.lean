import TypedIsl.Language.Minimal
import TypedIsl.Proofs.Check.Coincidence
import TypedIsl.Proofs.Check.Registration

/-!
# Diagnostics and final types

While the forms of a program are checked, one after the other, only constants change their types. So
every form is checked as if all names had their final types already, except for constants that the
form itself or a later one defines. Those still have the types that they were registered with.
-/

namespace TypedIsl

/-- The language with more builtins. -/
def Language.extend (language : Language) (types : List (String × Ty)) : Language :=
  ⟨language.entries ++ types⟩

/-- What is found in a form if the root scope binds the builtins and names of the given types. -/
def TopLevel.diagnosticsUnder (language : Language) (structs : List String)
    (types : List (String × Ty)) (form : TopLevel) : List Diagnostic :=
  (form.check structs (.root (language.extend types).scope)).diagnostics

/-- The constant that a form defines, if it does. -/
def TopLevel.constants : TopLevel → List String
  | definition (.constant _ _ name _) => [name.name]
  | _ => []

namespace Program

/-- The constants that a program defines. -/
def constants (program : Program) : List String :=
  program.flatMap TopLevel.constants

/-- The root scope of a program when the given forms have been checked. -/
def stage (language : Language) (program forms : Program) : Scopes :=
  let structs := structNames program
  let registered := register structs ⟨.root language.scope, []⟩ program
  (checkForms structs registered.result.scopes forms).result

/-- The types that all names of a program are registered with. -/
def registeredTypes (language : Language) (program : Program) : List (String × Ty) :=
  Scope.globals (stage language program []).current

/-- The final types of all names of a program, except for the `pending` ones, which have the types
that they were registered with. -/
def typesPending (language : Language) (program : Program) (pending : List String) :
    List (String × Ty) :=
  (check language program).globals.filter (·.1 ∉ pending) ++
    (registeredTypes language program).filter (·.1 ∈ pending)

/-- What is found in the last forms of a program. While a form is checked, the constants that it or
a later one defines are pending. -/
def stagedDiagnostics (language : Language) (program : Program) : Program → List Diagnostic
  | [] => []
  | form :: forms =>
      form.diagnosticsUnder language (structNames program)
        (typesPending language program (constants (form :: forms))) ++
      stagedDiagnostics language program forms

end Program

/-! ## Tables of types -/

namespace Table

variable {α β : Type} {name : String}

theorem lookup_map (name : String) (f : α → β) (entries : List (String × α)) :
    (entries.map fun (other, value) => (other, f value)).lookup name =
      (entries.lookup name).map f := by
  induction entries with
  | nil => rfl
  | cons entry entries ih =>
      rw [List.map_cons, List.lookup_cons, List.lookup_cons]
      cases name == entry.1 with
      | true => rfl
      | false => exact ih

theorem lookup_filter (name : String) (p : String → Bool) (entries : List (String × α)) :
    (entries.filter (p ·.1)).lookup name = if p name then entries.lookup name else none := by
  induction entries with
  | nil => simp
  | cons entry entries ih =>
      obtain ⟨other, value⟩ := entry
      by_cases heq : name = other
      · cases hp : p name <;> simp [← heq, hp, ih]
      · have hne : (name == other) = false := beq_eq_false_iff_ne.mpr heq
        cases hp : p other <;> simp [List.lookup_cons, hne, hp, ih]

theorem putEntry_of_lookup {value : α} {entries : List (String × α)}
    (h : entries.lookup name = some value) : putEntry name value entries = entries := by
  induction entries with
  | nil => cases h
  | cons entry entries ih =>
      obtain ⟨other, first⟩ := entry
      rw [putEntry]
      by_cases heq : other = name
      · rw [heq, List.lookup_cons_self, Option.some.injEq] at h
        rw [if_pos heq, h]
      · have hne : (name == other) = false := beq_eq_false_iff_ne.mpr (Ne.symm heq)
        rw [List.lookup_cons, hne] at h
        rw [if_neg heq, ih h]

end Table

/-- Names that are bound in the source are found among the globals with their types. -/
theorem Scope.lookup_globals {scope : Scope} {name : String}
    (h : ∀ binding, scope.get? name = some binding → binding.definedAt?.isSome) :
    scope.globals.lookup name = (scope.get? name).map (·.type) := by
  obtain ⟨entries⟩ := scope
  rw [Table.get?_eq_lookup] at h ⊢
  rw [Scope.globals]
  induction entries with
  | nil => rfl
  | cons entry entries ih =>
      obtain ⟨other, binding⟩ := entry
      rw [List.lookup_cons] at h
      cases heq : name == other with
      | true =>
          rw [heq] at h
          have hdefined := h binding rfl
          simp [List.lookup_cons, heq, hdefined]
      | false =>
          rw [heq] at h
          cases hdefined : binding.definedAt?.isSome <;>
            simp [List.lookup_cons, heq, hdefined, ih h]

theorem Language.get?_scope (language : Language) (name : String) :
    language.scope.get? name = (language.get? name).map fun type => ⟨type, none⟩ := by
  rw [Table.get?_eq_lookup, Table.get?_eq_lookup]
  exact Table.lookup_map name (fun type => Binding.mk type none) language.entries

theorem Scopes.type?_builtins (language : Language) (name : String) :
    (Scopes.root language.scope).type? name = language.get? name := by
  have hget : (Scopes.root language.scope).get? name =
      (language.get? name).map fun type => ⟨type, none⟩ := by
    rw [Scopes.get?_eq, Scopes.local?, Scopes.root, Language.get?_scope]
    exact Option.or_none
  rw [Scopes.type?, hget, Option.map_map]
  exact congrFun Option.map_id _

theorem Scopes.type?_root (language : Language) (types : List (String × Ty)) (name : String) :
    (Scopes.root (language.extend types).scope).type? name =
      (language.get? name).or (types.lookup name) := by
  rw [Scopes.type?_builtins, Table.get?_eq_lookup, Table.get?_eq_lookup, Language.extend,
    List.lookup_append]

/-! ## The root scope -/

/-- The builtins of the language are bound in a root scope, and all other names are bound in the
source. -/
structure Scopes.Extends (language : Language) (scopes : Scopes) : Prop where
  outer : scopes.outer = []
  builtin : ∀ name type, language.get? name = some type →
    scopes.local? name = some ⟨type, none⟩
  defined : ∀ name binding, language.get? name = none → scopes.local? name = some binding →
    binding.definedAt?.isSome

section

variable {language : Language} {structs bound : List String} {scopes others : Scopes}

theorem Scopes.extends_root (language : Language) : Extends language (.root language.scope) := by
  refine ⟨rfl, ?_, ?_⟩
  · intro name type htype
    rw [local?, root, Language.get?_scope, htype]
    rfl
  · intro name binding htype hbinding
    rw [local?, root, Language.get?_scope, htype] at hbinding
    cases hbinding

theorem Scopes.Extends.of_binds (h : scopes.Extends language) (hbinds : Binds bound scopes others)
    (hfree : ∀ name ∈ bound, name ∉ language.names) : others.Extends language := by
  induction hbinds with
  | refl => exact h
  | @bind inner _ ident hmem type ih =>
      have hnone : language.get? ident.name = none := Table.get?_eq_none (hfree _ hmem)
      refine ⟨ih.outer, ?_, ?_⟩
      · intro name builtin hbuiltin
        have hne : ident.name ≠ name := fun heq => by
          rw [← heq, hnone] at hbuiltin
          cases hbuiltin
        rw [local?_bind, if_neg hne]
        exact ih.builtin name builtin hbuiltin
      · intro name binding hbuiltin hbinding
        rw [local?_bind] at hbinding
        split at hbinding
        · cases hbinding
          rfl
        · exact ih.defined name binding hbuiltin hbinding

theorem Scopes.Extends.type?_eq (h : scopes.Extends language) (name : String) :
    scopes.type? name = (language.get? name).or (scopes.current.globals.lookup name) := by
  have hget : scopes.get? name = scopes.local? name := by
    rw [get?_eq, h.outer]
    exact Option.or_none
  rw [type?, hget]
  cases hname : language.get? name with
  | some type => rw [h.builtin name type hname, Option.some_or, Option.map_some]
  | none =>
      rw [Scope.lookup_globals fun binding => h.defined name binding hname, Option.none_or]
      rfl

/-! ## Checking forms -/

theorem Scopes.finalize_of_local? {ident : Ident} {type : Ty}
    (h : scopes.local? ident.name = some ⟨type, some ident.range⟩) :
    scopes.finalize ident type = scopes := by
  have hlookup := (Table.get?_eq_lookup scopes.current ident.name).symm.trans h
  have hbind : scopes.bind ident type = scopes :=
    congrArg (fun entries => Scopes.mk ⟨entries⟩ scopes.outer) (Table.putEntry_of_lookup hlookup)
  rw [finalize, hbind, ite_self]

/-- Functions keep the types that they are declared with. -/
theorem TopLevel.binds_constants {form : TopLevel} (h : scopes.Declares structs form) :
    Scopes.Binds form.constants scopes (form.check structs scopes).result := by
  match form with
  | .value _ => exact .refl
  | .struct _ => exact .refl
  | .definition (.constant range docs name init) =>
      exact Definition.binds_check structs scopes (.constant range docs name init)
  | .definition (.function _ _ _ (.untyped _ _) _) => exact .refl
  | .definition (.function _ _ _ (.typed _ _ none) _) => exact .refl
  | .definition (.function _ _ name (.typed _ params (some declared)) _) =>
      have hfinal : scopes.finalize name (.function ((resolveParams structs params).result.map
          .fixed) (declared.resolve structs).result) = scopes := Scopes.finalize_of_local? h
      rw [TopLevel.check, Definition.check]
      simp only [Judged.result_bind, Judged.result_pure]
      rw [hfinal]
      exact .refl

theorem TopLevel.constants_subset_names (form : TopLevel) : form.constants ⊆ form.names := by
  match form with
  | .definition (.constant _ _ _ _) => exact List.Subset.refl _
  | .definition (.function _ _ _ _ _) | .struct _ | .value _ => exact List.nil_subset _

namespace Program

theorem constants_cons (form : TopLevel) (program : Program) :
    constants (form :: program) = form.constants ++ constants program :=
  List.flatMap_cons

theorem constants_subset_names (program : Program) : constants program ⊆ names program := by
  intro name hname
  obtain ⟨form, hform, hmem⟩ := List.mem_flatMap.mp hname
  exact List.mem_flatMap.mpr ⟨form, hform, form.constants_subset_names hmem⟩

theorem binds_constants {program : Program} (hnodup : (names program).Nodup)
    (h : ∀ form ∈ program, scopes.Declares structs form) :
    Scopes.Binds (constants program) scopes (checkForms structs scopes program).result := by
  induction program generalizing scopes with
  | nil => exact .refl
  | cons form program ih =>
      rw [names_cons] at hnodup
      obtain ⟨-, hprogram, hdisjoint⟩ := List.nodup_append.mp hnodup
      obtain ⟨hform, hforms⟩ := List.forall_mem_cons.mp h
      have hbinds := TopLevel.binds_constants hform
      have hrest : ∀ other ∈ program,
          (form.check structs scopes).result.Declares structs other := by
        intro other hother
        apply (hforms other hother).of_binds hbinds
        intro name hname hmem
        have hlater : name ∈ names program := List.mem_flatMap_of_mem hother hname
        exact hdisjoint name (form.constants_subset_names hmem) name hlater rfl
      rw [constants_cons]
      exact hbinds.trans (ih hprogram hrest)

end Program

end

/-! ## Stages of a check -/

namespace Program

variable {language : Language} {program before forms : Program}

theorem lookup_typesPending (name : String) (pending : List String) :
    (typesPending language program pending).lookup name =
      if name ∈ pending then (registeredTypes language program).lookup name
      else (check language program).globals.lookup name := by
  rw [typesPending, List.lookup_append,
    Table.lookup_filter name fun other => decide (other ∉ pending),
    Table.lookup_filter name fun other => decide (other ∈ pending)]
  by_cases hname : name ∈ pending <;> simp [hname]

theorem stage_append (before forms : Program) :
    stage language program (before ++ forms) =
      (checkForms (structNames program) (stage language program before) forms).result := by
  rw [stage, checkForms_append]
  rfl

theorem stage_extends (hfree : ∀ name ∈ names program, name ∉ language.names)
    (h : program = before ++ forms) : (stage language program before).Extends language := by
  obtain ⟨coined, -, hsub, hregister⟩ :=
    register_binds (structNames program) ⟨.root language.scope, []⟩ program
  have hregistered := (Scopes.extends_root language).of_binds (hregister.mono hsub) hfree
  apply hregistered.of_binds (binds_checkForms (structNames program) _ before)
  intro name hname
  have hbound : name ∈ bound program := by
    rw [h, bound, List.filterMap_append]
    exact List.mem_append_left _ hname
  exact hfree name (hsub (List.mem_append_left _ hbound))

theorem root_free (hfree : ∀ name ∈ names program, name ∉ language.names) :
    ∀ name ∈ names program, (Scopes.root language.scope).local? name = none := by
  intro name hname
  have hnone : language.get? name = none := Table.get?_eq_none (hfree name hname)
  rw [Scopes.local?, Scopes.root, Language.get?_scope, hnone, Option.map_none]

theorem stage_declares (hnodup : (names program).Nodup)
    (hfree : ∀ name ∈ names program, name ∉ language.names) :
    ∀ form ∈ program, (stage language program []).Declares (structNames program) form :=
  register_declares hnodup (root_free hfree)

/-- At every stage the constants that are still to be checked have the types that they were
registered with, and all other names have their final types. -/
theorem stage_type? (hnodup : (names program).Nodup)
    (hfree : ∀ name ∈ names program, name ∉ language.names) (h : program = before ++ forms)
    (name : String) :
    (stage language program before).type? name =
      if name ∈ constants forms then (stage language program []).type? name
      else (stage language program program).type? name := by
  have hdeclares := stage_declares hnodup hfree
  -- No name is bound twice, so no constant has its type replaced both before and after this stage.
  have hsplit := hnodup
  rw [h, names_append] at hsplit
  obtain ⟨hbefore, hforms, hdisjoint⟩ := List.nodup_append.mp hsplit
  have hfirst : Scopes.Binds (constants before) (stage language program [])
      (stage language program before) := by
    apply binds_constants hbefore
    intro form hform
    exact hdeclares form (h ▸ List.mem_append_left _ hform)
  have hlast : Scopes.Binds (constants forms) (stage language program before)
      (stage language program program) := by
    have hlater : ∀ form ∈ forms,
        (stage language program before).Declares (structNames program) form := by
      intro form hform
      apply (hdeclares form (h ▸ List.mem_append_right _ hform)).of_binds hfirst
      intro name hname hmem
      have hname : name ∈ names forms := List.mem_flatMap_of_mem hform hname
      exact hdisjoint name (constants_subset_names before hmem) name hname rfl
    have hall : stage language program program =
        (checkForms (structNames program) (stage language program before) forms).result :=
      (congrArg (stage language program) h).trans (stage_append before forms)
    exact hall ▸ binds_constants hforms hlater
  split
  · rename_i hname
    refine hfirst.type?_eq fun hmem => ?_
    exact hdisjoint name (constants_subset_names before hmem) name
      (constants_subset_names forms hname) rfl
  · rename_i hname
    exact (hlast.type?_eq hname).symm

theorem stage_type?_eq_root (hnodup : (names program).Nodup)
    (hfree : ∀ name ∈ names program, name ∉ language.names) (h : program = before ++ forms)
    (name : String) :
    (stage language program before).type? name =
      (Scopes.root (language.extend
        (typesPending language program (constants forms))).scope).type? name := by
  rw [Scopes.type?_root, lookup_typesPending]
  cases hname : language.get? name with
  | some type => rw [(stage_extends hfree h).type?_eq, hname, Option.some_or, Option.some_or]
  | none =>
      have hfirst := (stage_extends hfree (List.nil_append program).symm).type?_eq name
      have hlast := (stage_extends hfree (List.append_nil program).symm).type?_eq name
      rw [hname, Option.none_or] at hfirst hlast
      rw [stage_type? hnodup hfree h, hfirst, hlast, Option.none_or]
      rfl

theorem checkForms_stage (hnodup : (names program).Nodup)
    (hfree : ∀ name ∈ names program, name ∉ language.names) (h : program = before ++ forms) :
    (checkForms (structNames program) (stage language program before) forms).diagnostics =
      stagedDiagnostics language program forms := by
  induction forms generalizing before with
  | nil => rfl
  | cons form forms ih =>
      have hform : (form.check (structNames program) (stage language program before)).diagnostics =
          form.diagnosticsUnder language (structNames program)
            (typesPending language program (constants (form :: forms))) :=
        TopLevel.diagnostics_congr fun name _ => stage_type?_eq_root hnodup hfree h name
      have hnext : (form.check (structNames program) (stage language program before)).result =
          stage language program (before ++ [form]) := (stage_append before [form]).symm
      have hrest := ih (h.trans (List.append_cons before form forms))
      rw [checkForms, Judged.diagnostics_bind, hnext, hrest, hform]
      rfl

/-- What is found in a program is what is wrong with the fields of structs and, for every form, what
is found in it under the final types of all names, except for the constants that the form itself or
a later one defines, which have the types that they were registered with. That makes no difference
to a form that looks up none whose type changes. -/
theorem diagnostics_final (hnodup : (names program).Nodup)
    (hfree : ∀ name ∈ names program, name ∉ language.names) :
    (check language program).diagnostics =
        program.flatMap (·.fieldDiagnostics (structNames program)) ++
          stagedDiagnostics language program program ∧
      ∀ before form after, program = before ++ form :: after →
        (∀ name ∈ form.reads, name ∈ constants (form :: after) →
          (registeredTypes language program).lookup name =
            (check language program).globals.lookup name) →
        form.diagnosticsUnder language (structNames program)
            (typesPending language program (constants (form :: after))) =
          form.diagnosticsUnder language (structNames program)
            (check language program).globals := by
  constructor
  · have hregister : (register (structNames program) ⟨.root language.scope, []⟩
        program).diagnostics = program.flatMap (·.fieldDiagnostics (structNames program)) :=
      register_diagnostics hnodup (root_free hfree)
    have hcheck := checkForms_stage hnodup hfree (List.nil_append program).symm
    rw [← hregister, ← hcheck]
    rfl
  · intro before form after _ hreads
    apply TopLevel.diagnostics_congr
    intro name hname
    rw [Scopes.type?_root, Scopes.type?_root, lookup_typesPending]
    split
    · rename_i hpending
      rw [hreads name hname hpending]
    · rfl

/-! ## A type that is replaced later -/

open Range in
/-- `(define (f x : Number -> Number) (+ a x)) (define a b) (define b "s")` -/
def lateConstant : Program :=
  [.definition (.function (inLine 1 42) [] ⟨"f", inLine 10 11⟩
     (.typed (inLine 12 32) [⟨⟨"x", inLine 12 13⟩, .named ⟨"Number", inLine 16 22⟩⟩]
       (some (.named ⟨"Number", inLine 26 32⟩)))
     (.call (inLine 34 41) (.name ⟨"+", inLine 35 36⟩)
       [.name ⟨"a", inLine 37 38⟩, .name ⟨"x", inLine 39 40⟩])),
   .definition (.constant (inLine 43 55) [] ⟨"a", inLine 51 52⟩ (.name ⟨"b", inLine 53 54⟩)),
   .definition (.constant (inLine 56 70) [] ⟨"b", inLine 64 65⟩
     (.literal (inLine 66 69) (.string "s")))]

theorem lateConstant_names : (names lateConstant).Nodup ∧
    ∀ name ∈ names lateConstant, name ∉ Language.minimal.names := by
  decide +kernel

/-- When `f` is checked, the type of `a` is not known yet. It turns out to be a string. -/
theorem diagnostics_lateConstant :
    (names lateConstant).Nodup ∧ (∀ name ∈ names lateConstant, name ∉ Language.minimal.names) ∧
      ¬ (check .minimal lateConstant).diagnostics.Perm
        (lateConstant.flatMap (·.fieldDiagnostics (structNames lateConstant)) ++
          lateConstant.flatMap (·.diagnosticsUnder .minimal (structNames lateConstant)
            (check .minimal lateConstant).globals)) :=
  ⟨lateConstant_names.1, lateConstant_names.2, by decide +kernel⟩

/-- The function is judged while both constants are pending. -/
theorem diagnostics_final_lateConstant :
    (names lateConstant).Nodup ∧ (∀ name ∈ names lateConstant, name ∉ Language.minimal.names) ∧
      (check .minimal lateConstant).diagnostics =
        lateConstant.flatMap (·.fieldDiagnostics (structNames lateConstant)) ++
          stagedDiagnostics .minimal lateConstant lateConstant :=
  ⟨lateConstant_names.1, lateConstant_names.2,
    (diagnostics_final lateConstant_names.1 lateConstant_names.2).1⟩

end Program

end TypedIsl

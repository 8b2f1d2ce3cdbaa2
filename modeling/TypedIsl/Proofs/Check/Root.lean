import TypedIsl.Check.Program
import TypedIsl.Proofs.Check.Lookup

/-!
# The root scope

The root scope binds the builtins, the definitions and structs of the program and the names that
the structs bring in.
-/

namespace TypedIsl

/-- The name that a form binds, besides those that a struct brings in. -/
def TopLevel.name? : TopLevel → Option String
  | definition form => some form.name.name
  | struct form => some form.name.name
  | value _ => none

/-- The names of all definitions and structs. -/
def Program.bound (program : Program) : List String :=
  program.filterMap TopLevel.name?

theorem Program.bound_cons (form : TopLevel) (program : Program) :
    Program.bound (form :: program) = form.name?.toList ++ Program.bound program := by
  rw [Program.bound, List.filterMap_cons]
  cases form.name? <;> rfl

/-- The names that a struct brings in besides its own. -/
def StructDefinition.coinedNames (definition : StructDefinition) : List String :=
  let name := definition.name.name
  (name ++ "?") :: ("make-" ++ name) :: definition.fields.names.map fun field =>
    name ++ "-" ++ field.name

/-- All names that a form binds. -/
def TopLevel.names : TopLevel → List String
  | definition form => [form.name.name]
  | struct form => form.name.name :: form.coinedNames
  | value _ => []

/-- The names of all definitions and structs and those that the structs bring in. -/
def Program.names (program : Program) : List String :=
  program.flatMap TopLevel.names

/-- All names that may be bound in the root scope. -/
def Program.rootNames (language : Language) (program : Program) : List String :=
  language.names ++ Program.bound program ++ (Program.check language program).coined

/-! ## Tables -/

namespace Table

variable {α : Type} {table : Table α} {name : String} {entries : List (String × α)}

theorem get?_eq_lookup (table : Table α) (name : String) :
    table.get? name = table.entries.lookup name := by
  obtain ⟨entries⟩ := table
  rw [Table.get?]
  induction entries with
  | nil => rfl
  | cons entry entries ih =>
      obtain ⟨other, value⟩ := entry
      unfold findEntry?
      by_cases heq : other = name
      · rw [if_pos heq, heq, List.lookup_cons_self]
      · have hne : (name == other) = false := beq_eq_false_iff_ne.mpr (Ne.symm heq)
        rw [if_neg heq, List.lookup_cons, hne]
        exact ih

theorem get?_eq_none (h : name ∉ table.names) : table.get? name = none := by
  rw [get?_eq_lookup, List.lookup_eq_none_iff]
  intro entry hentry
  have hne : name ≠ entry.1 := fun heq => h (heq ▸ List.mem_map_of_mem hentry)
  exact bne_iff_ne.mpr hne

theorem lookup_eq_none (h : name ∉ entries.map Prod.fst) : entries.lookup name = none := by
  rw [← Table.get?_eq_lookup ⟨entries⟩]
  exact Table.get?_eq_none h

theorem lookup_isSome (h : name ∈ entries.map Prod.fst) : (entries.lookup name).isSome := by
  obtain ⟨entry, hentry, rfl⟩ := List.mem_map.mp h
  exact List.lookup_isSome_iff.mpr ⟨entry, hentry, beq_self_eq_true _⟩

theorem get?_isSome_iff : (table.get? name).isSome ↔ name ∈ table.names := by
  by_cases hname : name ∈ table.names
  · rw [get?_eq_lookup]
    exact iff_of_true (lookup_isSome hname) hname
  · rw [get?_eq_none hname]
    exact iff_of_false Bool.false_ne_true hname

theorem putEntry_of_lookup_none (h : entries.lookup name = none) (value : α) :
    putEntry name value entries = entries ++ [(name, value)] := by
  induction entries with
  | nil => rfl
  | cons entry entries ih =>
      obtain ⟨other, first⟩ := entry
      have hne : name ≠ other := bne_iff_ne.mp (List.lookup_eq_none_iff.mp h _ List.mem_cons_self)
      have hrest : entries.lookup name = none := by
        rwa [List.lookup_cons, beq_eq_false_iff_ne.mpr hne] at h
      rw [putEntry, if_neg (Ne.symm hne), ih hrest, List.cons_append]

theorem putEntry_append {value : α} {more : List (String × α)}
    (h : entries.lookup name = none) :
    putEntry name value (entries ++ more) = entries ++ putEntry name value more := by
  induction entries with
  | nil => rfl
  | cons entry entries ih =>
      obtain ⟨other, first⟩ := entry
      rw [List.lookup_cons] at h
      by_cases heq : other = name
      · simp [heq] at h
      · have hne : (name == other) = false := beq_eq_false_iff_ne.mpr (Ne.symm heq)
        rw [hne] at h
        rw [List.cons_append, putEntry, if_neg heq, ih h, List.cons_append]

theorem mem_putEntry {value : α} {entry : String × α}
    (h : entry ∈ putEntry name value entries) :
    entry ∈ entries ∨ entry = (name, value) := by
  induction entries with
  | nil => exact .inr (List.mem_singleton.mp h)
  | cons first entries ih =>
      obtain ⟨other, old⟩ := first
      rw [putEntry] at h
      split at h
      · rename_i heq
        rcases List.mem_cons.mp h with rfl | h
        · exact .inr (heq ▸ rfl)
        · exact .inl (List.mem_cons_of_mem _ h)
      · rcases List.mem_cons.mp h with rfl | h
        · exact .inl List.mem_cons_self
        · exact (ih h).imp_left (List.mem_cons_of_mem _)

theorem names_put (h : (table.get? name).isSome) (value : α) :
    (table.put name value).names = table.names := by
  obtain ⟨entries⟩ := table
  rw [get?] at h
  rw [put, names, names]
  induction entries with
  | nil => cases h
  | cons entry entries ih =>
      obtain ⟨other, first⟩ := entry
      by_cases heq : other = name
      · rw [putEntry, if_pos heq, List.map_cons, List.map_cons]
      · unfold findEntry? at h
        rw [if_neg heq] at h
        rw [putEntry, if_neg heq, List.map_cons, List.map_cons, ih h]

end Table

theorem Scopes.bindsOnly_root (language : Language) :
    (Scopes.root language.scope).BindsOnly language.names := by
  intro name hname
  have hnames : language.scope.names = language.names := by
    simp [Language.scope, Table.names]
  have hnone : language.scope.get? name = none := Table.get?_eq_none (hnames.symm ▸ hname)
  rw [Scopes.get?, Scopes.root, List.findSome?_cons, hnone]
  rfl

/-! ## Binding the names of forms -/

theorem Params.length_fieldTypes (structs : List String) (params : Params) :
    (params.fieldTypes structs).result.length = params.names.length := by
  cases params with
  | typed range params result? =>
      rw [fieldTypes, length_resolveParams, names, List.length_map]
  | untyped range names => exact List.length_map _

namespace StructDefinition

theorem binds_bindCoined (range : Range) (scopes : Scopes) (coined : List (String × Ty)) :
    Scopes.Binds (coined.map Prod.fst) scopes (bindCoined range scopes coined).result := by
  induction coined generalizing scopes with
  | nil => exact .refl
  | cons entry coined ih =>
      obtain ⟨name, type⟩ := entry
      exact (scopes.binds_bindNew ⟨name, range⟩ type _).trans (ih _)

theorem map_fst_coined (definition : StructDefinition) {fieldTypes : List Ty}
    (h : fieldTypes.length = definition.fields.names.length) :
    (definition.coined fieldTypes).map Prod.fst = definition.coinedNames := by
  have hfields : (definition.fields.names.zip fieldTypes).map Prod.fst = definition.fields.names :=
    List.map_fst_zip (Nat.le_of_eq h.symm)
  have hnames := congrArg (List.map fun field => definition.name.name ++ "-" ++ field.name) hfields
  rw [List.map_map] at hnames
  rw [coined, coinedNames, ← hnames]
  simp

end StructDefinition

section

variable (structs : List String) (scopes : Scopes)

theorem Program.register_append (registered : Registered) (program others : Program) :
    Program.register structs registered (program ++ others) =
      Program.register structs registered program >>= fun registered =>
        Program.register structs registered others := by
  induction program generalizing registered with
  | nil => simp [Program.register]
  | cons form program ih => simp [Program.register, ih]

theorem Program.checkForms_append (program others : Program) :
    Program.checkForms structs scopes (program ++ others) =
      Program.checkForms structs scopes program >>= fun scopes =>
        Program.checkForms structs scopes others := by
  induction program generalizing scopes with
  | nil => simp [Program.checkForms]
  | cons form program ih => simp [Program.checkForms, ih]

end

/-- Registering a form binds its name and the names that it coins. -/
theorem TopLevel.register_binds (structs : List String) (registered : Registered)
    (form : TopLevel) :
    ∃ coined, (form.register structs registered).result.coined = registered.coined ++ coined ∧
      form.name?.toList ++ coined ⊆ form.names ∧
      Scopes.Binds (form.name?.toList ++ coined) registered.scopes
        (form.register structs registered).result.scopes := by
  cases form with
  | value form => exact ⟨[], (List.append_nil _).symm, List.Subset.refl _, .refl⟩
  | definition form =>
      refine ⟨[], (List.append_nil _).symm, List.Subset.refl _, ?_⟩
      exact (Definition.binds_register structs registered.scopes form).mono
        (List.subset_append_left _ _)
  | struct form =>
      rw [TopLevel.register, StructDefinition.register]
      split
      · exact ⟨[], (List.append_nil _).symm, List.cons_subset_cons _ (List.nil_subset _), .refl⟩
      · refine ⟨_, rfl, ?_, ?_⟩
        · rw [form.map_fst_coined (form.fields.length_fieldTypes structs)]
          exact List.Subset.refl _
        · exact (registered.scopes.binds_bind form.name _).trans
            (StructDefinition.binds_bindCoined form.name.range _ _)

theorem Program.register_binds (structs : List String) (registered : Registered)
    (program : Program) :
    ∃ coined, (register structs registered program).result.coined = registered.coined ++ coined ∧
      bound program ++ coined ⊆ names program ∧
      Scopes.Binds (bound program ++ coined) registered.scopes
        (register structs registered program).result.scopes := by
  induction program generalizing registered with
  | nil => exact ⟨[], (List.append_nil _).symm, List.Subset.refl _, .refl⟩
  | cons form program ih =>
      obtain ⟨first, hfirst, hnames, hform⟩ := form.register_binds structs registered
      obtain ⟨rest, hrest, hmore, hprogram⟩ := ih (form.register structs registered).result
      have hparts : ∀ name, name ∈ bound (form :: program) ++ (first ++ rest) ↔
          name ∈ form.name?.toList ++ first ++ (bound program ++ rest) := by
        intro name
        simp only [bound_cons, List.mem_append, or_assoc, or_left_comm]
      refine ⟨first ++ rest, ?_, ?_, (hform.trans hprogram).mono fun name => (hparts name).mpr⟩
      · rw [← List.append_assoc, ← hfirst, ← hrest]
        rfl
      · intro name hname
        rw [names, List.flatMap_cons]
        rcases List.mem_append.mp ((hparts name).mp hname) with hname | hname
        · exact List.mem_append_left _ (hnames hname)
        · exact List.mem_append_right _ (hmore hname)

/-- However far the names of a program are bound, no others are. -/
theorem Program.register_bindsOnly (language : Language) (program rest : Program) :
    (register (structNames (program ++ rest)) ⟨.root language.scope, []⟩
      program).result.scopes.BindsOnly (rootNames language (program ++ rest)) := by
  obtain ⟨first, hfirst, -, hprogram⟩ :=
    register_binds (structNames (program ++ rest)) ⟨.root language.scope, []⟩ program
  obtain ⟨later, hlater, -⟩ := register_binds (structNames (program ++ rest))
    (register (structNames (program ++ rest)) ⟨.root language.scope, []⟩ program).result rest
  have hcoined : (check language (program ++ rest)).coined = first ++ later := by
    rw [check, register_append]
    exact hlater.trans (congrArg (· ++ later) hfirst)
  refine hprogram.bindsOnly ((Scopes.bindsOnly_root language).mono ?_) ?_
  · exact fun name hname => List.mem_append_left _ (List.mem_append_left _ hname)
  · intro name hname
    rw [rootNames, hcoined, bound, List.filterMap_append]
    rcases List.mem_append.mp hname with hname | hname
    · exact List.mem_append_left _ (List.mem_append_right _ (List.mem_append_left _ hname))
    · exact List.mem_append_right _ (List.mem_append_left _ hname)

theorem TopLevel.binds_check (structs : List String) (scopes : Scopes) (form : TopLevel) :
    Scopes.Binds form.name?.toList scopes (form.check structs scopes).result := by
  cases form with
  | definition form => exact Definition.binds_check structs scopes form
  | struct form => exact .refl
  | value form => exact .refl

theorem Program.binds_checkForms (structs : List String) (scopes : Scopes) (program : Program) :
    Scopes.Binds (bound program) scopes (checkForms structs scopes program).result := by
  induction program generalizing scopes with
  | nil => exact .refl
  | cons form program ih =>
      rw [bound_cons]
      exact (form.binds_check structs scopes).trans (ih _)

/-- The stretch of the first line from one column up to another. -/
def Range.inLine (start stop : Nat) : Range :=
  ⟨⟨1, start, start - 1⟩, ⟨1, stop, stop - 1⟩⟩

end TypedIsl

import TypedIsl.Proofs.Check.Root
import TypedIsl.Proofs.Session.BuiltinTypes
import TypedIsl.Proofs.Session.NumberedLanguages

/-!
# Checking numbered programs

A checker of numbered trees reads the numbers of types, to find the built-in ones, and those of a
struct and its fields, to spell the names that the struct brings in, which it interns.
-/

namespace TypedIsl

/-- The root scope, the numbers of the names that structs have brought in, and the diagnostics while
the names of a program are being bound. -/
structure Enrolled where
  names : NameTable
  scopes : Scopes
  coined : List String
  diagnostics : List Diagnostic

/-- The names that a struct brings in, spelled and interned, with their types. Fails if the number
of the struct or of a field stands for no name. -/
def StructDefinition.coin? (names : NameTable) (definition : StructDefinition)
    (fieldTypes : List Ty) : Option (NameTable × List (String × Ty)) := do
  let name ← definition.name.respell? names.read?
  let fields ← definition.fields.names.mapM (Ident.respell? names.read?)
  let spelled : StructDefinition :=
    ⟨definition.range, definition.docs, name, .untyped definition.fields.range fields⟩
  let (names, handles) := names.internAll spelled.coinedNames
  return (names, (handles.map Handle.text).zip ((definition.coined fieldTypes).map Prod.snd))

def StructDefinition.enroll? (structs : List String) (enrolled : Enrolled)
    (definition : StructDefinition) : Option Enrolled :=
  let name := definition.name
  match enrolled.scopes.conflict? name (.alreadyDefined name.name) with
  | some d => some ⟨enrolled.names, enrolled.scopes, enrolled.coined, enrolled.diagnostics ++ [d]⟩
  | none => do
      let fieldTypes := definition.fields.fieldTypes structs
      let (names, coined) ← definition.coin? enrolled.names fieldTypes.result
      let scopes := enrolled.scopes.bind name (.struct name.name)
      let scopes := bindCoined name.range scopes coined
      return ⟨names, scopes.result, enrolled.coined ++ coined.map Prod.fst,
        enrolled.diagnostics ++ (fieldTypes.diagnostics ++ scopes.diagnostics)⟩

def TopLevel.enroll? (structs : List String) (enrolled : Enrolled) : TopLevel → Option Enrolled
  | definition form =>
      let scopes := form.register structs enrolled.scopes
      some ⟨enrolled.names, scopes.result, enrolled.coined,
        enrolled.diagnostics ++ scopes.diagnostics⟩
  | struct form => form.enroll? structs enrolled
  | value _ => some enrolled

/-- Binds the names of all forms. -/
def Program.enroll? (structs : List String) (enrolled : Enrolled) : Program → Option Enrolled
  | [] => some enrolled
  | form :: forms => do
      let enrolled ← form.enroll? structs enrolled
      Program.enroll? structs enrolled forms

/-- Checks a numbered program. Fails if a number in it stands for no name. -/
def Program.checkNumbered? (names : NameTable) (language : Language) (program : Program) :
    Option (NameTable × Checked) := do
  let _ ← program.respell? (.uniform names.read?)
  let program := program.edit (.builtinTypes names)
  let (names, language) ← language.number? names
  let structs := program.structNames
  let enrolled ← program.enroll? structs ⟨names, .root language.scope, [], []⟩
  let checked := program.checkForms structs enrolled.scopes
  return (enrolled.names, ⟨enrolled.diagnostics ++ checked.diagnostics,
    Scope.globals checked.result.current, enrolled.coined⟩)

/-! ## Names of structs -/

section

variable {f : String → Option String}

theorem Params.names_respells {ρ : Respelling} {params spelled : Params}
    (h : params.respell? ρ = some spelled) :
    Elementwise (Ident.respell? ρ.name) params.names spelled.names := by
  cases params with
  | typed range params result? =>
      obtain ⟨others, declared?, rfl, hparams, -⟩ := respell?_typed h
      exact paramNames_respells hparams
  | untyped range idents =>
      obtain ⟨others, rfl, hidents⟩ := respell?_untyped h
      exact hidents

theorem StructDefinition.respells {ρ : Respelling} {definition spelled : StructDefinition}
    (h : definition.respell? ρ = some spelled) :
    definition.name.respell? ρ.name = some spelled.name ∧
      definition.fields.respell? ρ = some spelled.fields := by
  obtain ⟨name, hname, fields, hfields, rfl⟩ := two_parts h
  exact ⟨hname, hfields⟩

theorem TopLevel.structName?_respells {ρ : Respelling} {form spelled : TopLevel}
    (h : form.respell? ρ = some spelled) :
    Option.Rel (fun name other => ρ.name name = some other) form.structName?
      spelled.structName? := by
  cases form with
  | struct form =>
      obtain ⟨other, hform, rfl⟩ := one_part h
      exact .some (Ident.respell?_eq_some_iff.mp (StructDefinition.respells hform).1).1
  | _ =>
      obtain ⟨other, _, rfl⟩ := one_part h
      exact .none

theorem Program.structNames_respells {ρ : Respelling} {program spelled : Program}
    (h : Elementwise (TopLevel.respell? ρ) program spelled) :
    Elementwise ρ.name (structNames program) (structNames spelled) :=
  List.rel_filterMap (fun _ _ hform => TopLevel.structName?_respells hform) h

theorem Params.fieldTypes_respells {ρ : Respelling} (hρ : ρ.KeepsTypes)
    {structs others : List String} (hstructs : Elementwise ρ.name structs others)
    {params spelled : Params} (h : params.respell? ρ = some spelled) :
    (params.fieldTypes structs).Match (Respelled ρ.name) (List.Forall₂ (Ty.Respells ρ.name))
      (spelled.fieldTypes others) := by
  cases params with
  | typed range params result? =>
      obtain ⟨typed, declared?, rfl, hparams, -⟩ := respell?_typed h
      exact resolveParams_respells hρ hstructs hparams
  | untyped range idents =>
      obtain ⟨untyped, rfl, hidents⟩ := respell?_untyped h
      refine .pure (additive_respelled ρ.name) ?_
      rw [List.forall₂_map_left_iff, List.forall₂_map_right_iff]
      exact hidents.imp fun _ _ _ => rfl

namespace StructDefinition

theorem coinedTypes_respells {definition spelled : StructDefinition}
    (hname : f definition.name.name = some spelled.name.name)
    (hfields : Elementwise (Ident.respell? f) definition.fields.names spelled.fields.names)
    {types others : List Ty} (htypes : List.Forall₂ (Ty.Respells f) types others) :
    List.Forall₂ (Ty.Respells f) ((definition.coined types).map Prod.snd)
      ((spelled.coined others).map Prod.snd) := by
  have hself : (Ty.struct definition.name.name).Respells f (.struct spelled.name.name) := by
    simp [Ty.Respells, Ty.respell?, hname]
  have hany : (Ty.any).Respells f .any := rfl
  simp only [coined, List.map_cons, List.map_map]
  refine .cons (Ty.function_respells (fixed_respells (.cons hany .nil)) rfl) ?_
  refine .cons (Ty.function_respells (fixed_respells htypes) hself) ?_
  rw [List.forall₂_map_left_iff, List.forall₂_map_right_iff]
  refine (zip_respells hfields htypes).imp fun _ _ h => ?_
  exact Ty.function_respells (fixed_respells (.cons hself .nil)) h.2

theorem bindCoined_respells (hf : Faithful f) {scopes around : Scopes}
    (hscopes : scopes.Respells f around) (range : Range) {coined spelled : List (String × Ty)}
    (h : List.Forall₂ (fun entry other => f entry.1 = some other.1 ∧ entry.2.Respells f other.2)
      coined spelled) :
    (bindCoined range scopes coined).Match (Respelled f) (Scopes.Respells f)
      (bindCoined range around spelled) := by
  have hR := additive_respelled f
  induction h generalizing scopes around with
  | nil => exact .pure hR hscopes
  | cons hentry _ ih =>
      refine .bind hR ?_ fun _ _ hscopes => ih hscopes
      exact hscopes.bindNew hf (Ident.respell?_mk hentry.1 range) hentry.2
        (by simp [Problem.respell?, hentry.1])

/-- The names that a struct brings in are spelled with the names that its numbers stand for. -/
theorem coin?_respells {names : NameTable} {definition spelled : StructDefinition}
    (hname : definition.name.respell? names.read? = some spelled.name)
    (hfields : Elementwise (Ident.respell? names.read?) definition.fields.names
      spelled.fields.names) {types others : List Ty}
    (hlength : others.length = spelled.fields.names.length)
    (htypes : ∀ last : NameTable, last.Extends names →
      List.Forall₂ (Ty.Respells last.read?) types others) :
    ∃ coined, definition.coin? names types =
        some (names.addAll ((spelled.coined others).map Prod.fst), coined) ∧
      ∀ last : NameTable, last.Extends (names.addAll ((spelled.coined others).map Prod.fst)) →
        List.Forall₂ (fun entry other => last.read? entry.1 = some other.1 ∧
          entry.2.Respells last.read? other.2) coined (spelled.coined others) := by
  have hcoined := map_fst_coined spelled hlength
  have hmap : definition.fields.names.mapM (Ident.respell? names.read?) =
      some spelled.fields.names := mapM_eq_some_iff.mpr hfields
  have hgrown := NameTable.internAll_fst names spelled.coinedNames
  refine ⟨((names.internAll spelled.coinedNames).2.map Handle.text).zip
    ((definition.coined types).map Prod.snd), ?_, fun last hlast => ?_⟩
  · rw [coin?, hname, hmap, hcoined, ← hgrown]
    rfl
  · rw [hcoined] at hlast
    have hearlier := hlast.trans (NameTable.extends_addAll names spelled.coinedNames)
    have hnumbers : List.Forall₂ (fun number name => last.read? number = some name)
        ((names.internAll spelled.coinedNames).2.map Handle.text)
        ((spelled.coined others).map Prod.fst) := by
      rw [hcoined]
      refine (names.denotes_internAll spelled.coinedNames).imp fun _ _ h => h last ?_
      rw [hgrown]
      exact hlast
    refine zip_entries hnumbers (coinedTypes_respells ?_ ?_ (htypes last hearlier))
    · exact hearlier.read? (Ident.respell?_eq_some_iff.mp hname).1
    · exact hfields.imp fun _ _ h => Ident.respell?_later hearlier h

end StructDefinition

end

/-! ## Binding the names of forms -/

/-- What has been bound, and the diagnostics so far, read by any later table. The names that structs
have brought in follow those of a first table. -/
structure Enrolled.Respells (first : NameTable) (enrolled : Enrolled) (registered : Registered)
    (diagnostics : List Diagnostic) : Prop where
  names : enrolled.names = first.addAll registered.coined
  scopes : ∀ last : NameTable, last.Extends enrolled.names →
    enrolled.scopes.Respells last.read? registered.scopes
  coined : ∀ last : NameTable, last.Extends enrolled.names →
    Elementwise last.read? enrolled.coined registered.coined
  diagnostics : ∀ last : NameTable, last.Extends enrolled.names →
    Respelled last.read? enrolled.diagnostics diagnostics

section

variable {first : NameTable} {enrolled : Enrolled} {registered : Registered}
  {diagnostics : List Diagnostic}

theorem Enrolled.Respells.extends
    (h : enrolled.Respells first registered diagnostics) : enrolled.names.Extends first := by
  rw [h.names]
  exact NameTable.extends_addAll ..

variable (h : enrolled.Respells first registered diagnostics) {structs others : List String}
  (hstructs : ∀ last : NameTable, last.Extends first → Elementwise last.read? structs others)

include h hstructs

theorem StructDefinition.enroll?_respells {definition spelled : StructDefinition}
    (hdefinition : ∀ last : NameTable, last.Extends first →
      definition.respell? last.reading = some spelled) :
    ∃ next, definition.enroll? structs enrolled = some next ∧
      next.Respells first (spelled.register others registered).result
        (diagnostics ++ (spelled.register others registered).diagnostics) := by
  have hlater {last : NameTable} (hlast : last.Extends enrolled.names) :
      last.Extends first := hlast.trans h.extends
  have hform {last : NameTable} (hlast : last.Extends enrolled.names) :=
    StructDefinition.respells (hdefinition last (hlater hlast))
  have hconflict {last : NameTable} (hlast : last.Extends enrolled.names) :
      Option.Rel (fun d e => Diagnostic.respell? last.read? d = some e)
        (enrolled.scopes.conflict? definition.name (.alreadyDefined definition.name.name))
        (registered.scopes.conflict? spelled.name (.alreadyDefined spelled.name.name)) := by
    refine (h.scopes last hlast).conflict? last.keepsTypes_reading.faithful (hform hlast).1 ?_
    have hname := (Ident.respell?_eq_some_iff.mp (hform hlast).1).1
    simp [Problem.respell?, hname]
  unfold StructDefinition.enroll? StructDefinition.register
  rcases rel_cases (hconflict (.refl _)) with ⟨hnone, hnone'⟩ | ⟨d, e, hsome, hsome', -⟩
  · simp only [hnone, hnone']
    have hfields {last : NameTable} (hlast : last.Extends enrolled.names) :=
      Params.fieldTypes_respells last.keepsTypes_reading (hstructs last (hlater hlast))
        (hform hlast).2
    obtain ⟨coined, hcoin, hentries⟩ := StructDefinition.coin?_respells
      (hform (.refl _)).1 (Params.names_respells (hform (.refl _)).2)
      (Params.length_fieldTypes others spelled.fields)
      (fun last hlast => (hfields hlast).result)
    generalize (definition.fields.fieldTypes structs) = types at hfields hcoin hentries ⊢
    generalize (spelled.fields.fieldTypes others) = declared at hfields hcoin hentries ⊢
    have hgrows {last : NameTable}
        (hlast : last.Extends
          (enrolled.names.addAll ((spelled.coined declared.result).map Prod.fst))) :
        last.Extends enrolled.names := hlast.trans (NameTable.extends_addAll ..)
    have hbound {last : NameTable}
        (hlast : last.Extends
          (enrolled.names.addAll ((spelled.coined declared.result).map Prod.fst))) :
        (StructDefinition.bindCoined definition.name.range
            (enrolled.scopes.bind definition.name (.struct definition.name.name)) coined).Match
          (Respelled last.read?) (Scopes.Respells last.read?)
          (StructDefinition.bindCoined spelled.name.range
            (registered.scopes.bind spelled.name (.struct spelled.name.name))
            (spelled.coined declared.result)) := by
      have hf : Faithful last.read? := last.keepsTypes_reading.faithful
      obtain ⟨hname, hrange⟩ := Ident.respell?_eq_some_iff.mp (hform (hgrows hlast)).1
      rw [hrange]
      refine StructDefinition.bindCoined_respells hf ?_ _ (hentries last hlast)
      refine (h.scopes last (hgrows hlast)).bind hf (hform (hgrows hlast)).1 ?_
      have hself : last.read? definition.name.name = some spelled.name.name := hname
      simp [Ty.Respells, Ty.respell?, hself]
    refine ⟨_, by rw [hcoin]; rfl, ?_, fun last hlast => (hbound hlast).result,
      fun last hlast => ?_, fun last hlast => ?_⟩
    · rw [h.names, ← NameTable.addAll_append]
      rfl
    · refine List.rel_append (h.coined last (hgrows hlast)) ?_
      rw [List.forall₂_map_left_iff, List.forall₂_map_right_iff]
      exact (hentries last hlast).imp fun _ _ h => h.1
    · refine List.rel_append (h.diagnostics last (hgrows hlast)) ?_
      refine List.rel_append (hfields (hgrows hlast)).diagnostics ?_
      rw [Judged.diagnostics_bind, Judged.diagnostics_pure, List.append_nil]
      exact (hbound hlast).diagnostics
  · simp only [hsome, hsome']
    refine ⟨_, rfl, h.names, h.scopes, h.coined, fun last hlast => ?_⟩
    refine List.rel_append (h.diagnostics last hlast) ?_
    have hd := hconflict hlast
    rw [hsome, hsome'] at hd
    cases hd with
    | some hd => exact .cons hd .nil

theorem TopLevel.enroll?_respells {form spelled : TopLevel}
    (hform : ∀ last : NameTable, last.Extends first → form.respell? last.reading = some spelled) :
    ∃ next, form.enroll? structs enrolled = some next ∧
      next.Respells first (spelled.register others registered).result
        (diagnostics ++ (spelled.register others registered).diagnostics) := by
  have hspelled := hform first (.refl first)
  cases form with
  | definition form =>
      obtain ⟨other, -, rfl⟩ := one_part hspelled
      have hform {last : NameTable} (hlast : last.Extends first) :
          form.respell? last.reading = some other := by
        obtain ⟨_, hform, heq⟩ := Option.bind_eq_some_iff.mp (hform last hlast)
        cases heq
        exact hform
      have hregister {last : NameTable} (hlast : last.Extends enrolled.names) :=
        Definition.register_respells last.keepsTypes_reading
          (hstructs last (hlast.trans h.extends)) (h.scopes last hlast)
          (hform (hlast.trans h.extends))
      refine ⟨_, rfl, h.names, fun last hlast => (hregister hlast).result, h.coined,
        fun last hlast => List.rel_append (h.diagnostics last hlast) ?_⟩
      rw [register, Judged.diagnostics_bind, Judged.diagnostics_pure, List.append_nil]
      exact (hregister hlast).diagnostics
  | struct form =>
      obtain ⟨other, -, rfl⟩ := one_part hspelled
      refine StructDefinition.enroll?_respells h hstructs fun last hlast => ?_
      obtain ⟨_, hform, heq⟩ := Option.bind_eq_some_iff.mp (hform last hlast)
      cases heq
      exact hform
  | value form =>
      obtain ⟨other, -, rfl⟩ := one_part hspelled
      refine ⟨enrolled, rfl, ?_⟩
      rw [register, Judged.result_pure, Judged.diagnostics_pure, List.append_nil]
      exact h

theorem Program.enroll?_respells {program spelled : Program}
    (hprogram : ∀ last : NameTable, last.Extends first →
      Elementwise (TopLevel.respell? last.reading) program spelled) :
    ∃ next, Program.enroll? structs enrolled program = some next ∧
      next.Respells first (Program.register others registered spelled).result
        (diagnostics ++ (Program.register others registered spelled).diagnostics) := by
  induction program generalizing spelled enrolled registered diagnostics with
  | nil =>
      cases hprogram first (.refl first)
      refine ⟨enrolled, rfl, ?_⟩
      rw [register, Judged.result_pure, Judged.diagnostics_pure, List.append_nil]
      exact h
  | cons form forms ih =>
      have hfirst := hprogram first (.refl first)
      obtain ⟨other, rest, -, -, rfl⟩ := List.forall₂_cons_left_iff.mp hfirst
      obtain ⟨next, hnext, hrespells⟩ := TopLevel.enroll?_respells h hstructs
        fun last hlast => (List.forall₂_cons.mp (hprogram last hlast)).1
      obtain ⟨end', hend, hrespells⟩ := ih hrespells
        fun last hlast => (List.forall₂_cons.mp (hprogram last hlast)).2
      refine ⟨end', by rw [enroll?, hnext]; exact hend, ?_⟩
      rw [register, Judged.diagnostics_bind, ← List.append_assoc]
      exact hrespells

end

/-! ## Checking forms -/

section

variable {ρ : Respelling} (hρ : ρ.KeepsTypes) {structs others : List String}
  (hstructs : Elementwise ρ.name structs others)

include hρ hstructs

theorem TopLevel.check_respells {scopes around : Scopes} (hscopes : scopes.Respells ρ.name around)
    {form spelled : TopLevel} (h : form.respell? ρ = some spelled) :
    (form.check structs scopes).Match (Respelled ρ.name) (Scopes.Respells ρ.name)
      (spelled.check others around) := by
  have hR := additive_respelled ρ.name
  cases form with
  | definition form =>
      obtain ⟨other, hform, rfl⟩ := one_part h
      exact Definition.check_respells hρ hstructs hscopes hform
  | struct form =>
      obtain ⟨other, -, rfl⟩ := one_part h
      exact .pure hR hscopes
  | value form =>
      obtain ⟨other, hform, rfl⟩ := one_part h
      exact .bind hR (Value.check_respells hρ hstructs hscopes hform)
        fun _ _ _ => .pure hR hscopes

theorem Program.checkForms_respells {scopes around : Scopes}
    (hscopes : scopes.Respells ρ.name around) {program spelled : Program}
    (h : Elementwise (TopLevel.respell? ρ) program spelled) :
    (Program.checkForms structs scopes program).Match (Respelled ρ.name) (Scopes.Respells ρ.name)
      (Program.checkForms others around spelled) := by
  have hR := additive_respelled ρ.name
  induction h generalizing scopes around with
  | nil => exact .pure hR hscopes
  | cons hform _ ih =>
      exact .bind hR (TopLevel.check_respells hρ hstructs hscopes hform) fun _ _ h => ih h

end

theorem Scope.Respells.globals {f : String → Option String} {scope other : Scope}
    (h : Scope.Respells f scope other) :
    Elementwise (respellGlobal? f) scope.globals other.globals := by
  refine List.rel_filterMap (fun entry other hentry => ?_) h
  have htype : entry.2.type.respell? f = some other.2.type := hentry.2.1
  simp only [hentry.2.2]
  split
  · exact .some (by simp [respellGlobal?, hentry.1, htype])
  · exact .none

/-! ## Programs -/

theorem Checked.respell?_of {f : String → Option String} {checked spelled : Checked}
    (hdiagnostics : Respelled f checked.diagnostics spelled.diagnostics)
    (hglobals : Elementwise (respellGlobal? f) checked.globals spelled.globals)
    (hcoined : Elementwise f checked.coined spelled.coined) :
    checked.respell? f = some spelled := by
  rw [respell?, mapM_eq_some_iff.mpr hdiagnostics, mapM_eq_some_iff.mpr hglobals,
    mapM_eq_some_iff.mpr hcoined]
  rfl

/-- A numbered program is checked like the program that it stands for. The names of the builtins and
those that structs bring in are added to the table. -/
theorem Program.checkNumbered?_respells {names : NameTable} {language : Language}
    (hlanguage : ∀ name ∈ language.structNames, name ∈ names.names) {numbered program : Program}
    (hprogram : numbered.respell? (.uniform names.read?) = some program) :
    ∃ checked, numbered.checkNumbered? names language =
        some (names.addAll (language.names ++ (program.check language).coined), checked) ∧
      ∀ last : NameTable,
        last.Extends (names.addAll (language.names ++ (program.check language).coined)) →
        checked.respell? last.read? = some (program.check language) := by
  obtain ⟨bound, hbound, hscope⟩ := Language.exists_number? hlanguage
  have hforms {last : NameTable} (hlast : last.Extends names) :
      Elementwise (TopLevel.respell? last.reading) (numbered.edit (.builtinTypes names))
        program := by
    rw [Program.edit]
    refine List.forall₂_map_left_iff.mpr ((mapM_eq_some_iff.mp hprogram).imp fun form _ h => ?_)
    exact TopLevel.respell?_builtinTypes hlast h
  have hgrows {last : NameTable} (hlast : last.Extends (names.addAll language.names)) :
      last.Extends names := hlast.trans (NameTable.extends_addAll names language.names)
  have hstart : Enrolled.Respells (names.addAll language.names)
      ⟨names.addAll language.names, .root bound.scope, [], []⟩ ⟨.root language.scope, []⟩ [] :=
    ⟨rfl, fun last hlast => ⟨hscope last hlast, .nil⟩, fun _ _ => .nil, fun _ _ => .nil⟩
  have hstructs (last : NameTable) (hlast : last.Extends (names.addAll language.names)) :=
    structNames_respells (hforms (hgrows hlast))
  obtain ⟨enrolled, henroll, hrespells⟩ := enroll?_respells hstart hstructs
    fun last hlast => hforms (hgrows hlast)
  have hlater {last : NameTable} (hlast : last.Extends enrolled.names) :=
    hlast.trans hrespells.extends
  have hnames : names.addAll (language.names ++ (program.check language).coined) =
      enrolled.names := by
    rw [NameTable.addAll_append, hrespells.names]
    rfl
  rw [hnames]
  refine ⟨_, by simp only [checkNumbered?, hprogram, hbound, henroll, Option.bind_eq_bind,
    Option.bind_some]; rfl, fun last hlast => ?_⟩
  have hchecked := checkForms_respells last.keepsTypes_reading (hstructs last (hlater hlast))
    (hrespells.scopes last hlast) (hforms (hgrows (hlater hlast)))
  exact Checked.respell?_of
    (List.rel_append (hrespells.diagnostics last hlast) hchecked.diagnostics)
    hchecked.result.current.globals (hrespells.coined last hlast)

end TypedIsl

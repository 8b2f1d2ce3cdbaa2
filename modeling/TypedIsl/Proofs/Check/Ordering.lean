import Mathlib.Data.List.Perm.Basic
import TypedIsl.Proofs.Check.FinalTypes
import TypedIsl.Proofs.Check.StructNames

/-!
# The order of forms

The values of constants are checked when the constants are registered, in the scope that binds the
forms before them. If none of them looks up a name that is bound later, every constant is registered
with its final type, and the order of the forms does not matter.
-/

namespace TypedIsl

/-- The scopes with more entries in the current one. -/
def Scopes.extend (scopes : Scopes) (entries : List (String × Binding)) : Scopes :=
  ⟨⟨scopes.current.entries ++ entries⟩, scopes.outer⟩

namespace TopLevel

/-- What a form binds if its names are free. The type of a constant is that of its value in the
given scopes. -/
def bindings (structs : List String) (scopes : Scopes) : TopLevel → List (String × Binding)
  | definition (.function _ _ name params _) =>
      [(name.name, ⟨params.declaredType structs, some name.range⟩)]
  | definition (.constant _ _ name init) =>
      [(name.name, ⟨(init.check structs scopes).result, some name.range⟩)]
  | struct form =>
      let types := (form.name.name, .struct form.name.name) ::
        form.coined (form.fields.fieldTypes structs).result
      types.map fun (name, type) => (name, ⟨type, some form.name.range⟩)
  | value _ => []

/-- The names that registering the form looks up. -/
def earlyReads : TopLevel → List String
  | definition form => form.earlyReads
  | _ => []

end TopLevel

namespace Program

def bindings (structs : List String) (scopes : Scopes) (program : Program) :
    List (String × Binding) :=
  program.flatMap (·.bindings structs scopes)

/-- No value of a constant looks up a name that is bound by its own form or a later one. -/
def LooksBack : Program → Prop
  | [] => True
  | form :: forms =>
      (∀ name ∈ form.earlyReads, name ∉ names (form :: forms)) ∧ LooksBack forms

end Program

/-! ## Entries at the end of a scope -/

namespace Scopes

variable {scopes : Scopes} {entries more : List (String × Binding)}

theorem extend_nil (scopes : Scopes) : scopes.extend [] = scopes := by
  rw [extend, List.append_nil]

theorem extend_extend (scopes : Scopes) (entries more : List (String × Binding)) :
    (scopes.extend entries).extend more = scopes.extend (entries ++ more) := by
  simp only [extend, List.append_assoc]

theorem local?_extend (scopes : Scopes) (entries : List (String × Binding)) (name : String) :
    (scopes.extend entries).local? name = (scopes.local? name).or (entries.lookup name) := by
  rw [local?, local?, Table.get?_eq_lookup, Table.get?_eq_lookup, extend, List.lookup_append]

theorem bind_of_local? {ident : Ident} (h : scopes.local? ident.name = none) (type : Ty) :
    scopes.bind ident type = scopes.extend [(ident.name, ⟨type, some ident.range⟩)] := by
  rw [local?, Table.get?_eq_lookup] at h
  rw [bind, set, Table.put, Table.putEntry_of_lookup_none h]
  rfl

/-- Names that the entries bind alike have the same type. -/
theorem type?_extend {name : String} (h : more.lookup name = entries.lookup name) :
    (scopes.extend more).type? name = (scopes.extend entries).type? name := by
  rw [type?, type?, get?_eq, get?_eq, local?_extend, local?_extend, h]
  rfl

end Scopes

/-! ## Registering a form -/

section

variable {structs : List String} {scopes others : Scopes} {registered : Registered}

namespace TopLevel

theorem map_fst_bindings (structs : List String) (scopes : Scopes) (form : TopLevel) :
    (form.bindings structs scopes).map Prod.fst = form.names := by
  match form with
  | value _ => rfl
  | definition (.function _ _ _ _ _) => rfl
  | definition (.constant _ _ _ _) => rfl
  | struct form =>
      rw [bindings, List.map_map, List.map_cons, names,
        ← form.map_fst_coined (form.fields.length_fieldTypes structs)]
      rfl

theorem bindings_congr {form : TopLevel}
    (h : ∀ name ∈ form.earlyReads, others.type? name = scopes.type? name) :
    form.bindings structs others = form.bindings structs scopes := by
  match form with
  | value _ => rfl
  | struct _ => rfl
  | definition (.function _ _ _ _ _) => rfl
  | definition (.constant _ _ _ init) =>
      rw [bindings, bindings, Value.check_congr h]

end TopLevel

theorem StructDefinition.bindCoined_result (range : Range) {coined : List (String × Ty)}
    (hnodup : (coined.map Prod.fst).Nodup)
    (hfree : ∀ name ∈ coined.map Prod.fst, scopes.local? name = none) :
    (bindCoined range scopes coined).result =
      scopes.extend (coined.map fun (name, type) => (name, ⟨type, some range⟩)) := by
  induction coined generalizing scopes with
  | nil => exact scopes.extend_nil.symm
  | cons entry coined ih =>
      obtain ⟨name, type⟩ := entry
      obtain ⟨hname, hrest⟩ := List.forall_mem_cons.mp hfree
      obtain ⟨hnot, hnodup⟩ := List.nodup_cons.mp hnodup
      have hlocal : scopes.local? (Ident.mk name range).name = none := hname
      have hnext : ∀ other ∈ coined.map Prod.fst,
          (scopes.bind ⟨name, range⟩ type).local? other = none := by
        intro other hother
        have hne : name ≠ other := fun heq => hnot (heq ▸ hother)
        rw [Scopes.local?_bind, if_neg hne]
        exact hrest other hother
      rw [bindCoined, Scopes.bindNew_of_local? hlocal, pure_bind, ih hnodup hnext,
        Scopes.bind_of_local? hlocal, Scopes.extend_extend]
      rfl

theorem TopLevel.register_scopes {form : TopLevel} (hnodup : form.names.Nodup)
    (hfree : ∀ name ∈ form.names, registered.scopes.local? name = none) :
    (form.register structs registered).result.scopes =
      registered.scopes.extend (form.bindings structs registered.scopes) := by
  match form with
  | .value _ => exact registered.scopes.extend_nil.symm
  | .definition (.function _ _ name _ _) =>
      have hname := hfree name.name List.mem_cons_self
      rw [register, Definition.register, Scopes.bindNew_of_local? hname, bindings,
        ← Scopes.bind_of_local? hname]
      rfl
  | .definition (.constant _ _ name _) =>
      have hname := hfree name.name List.mem_cons_self
      rw [register, Definition.register, Scopes.conflict?_of_local? hname, bindings,
        ← Scopes.bind_of_local? hname]
      rfl
  | .struct form =>
      obtain ⟨hname, hcoined⟩ := List.forall_mem_cons.mp hfree
      obtain ⟨hnot, hnodup⟩ := List.nodup_cons.mp hnodup
      have hmap := form.map_fst_coined (form.fields.length_fieldTypes structs)
      have hrest : ∀ name ∈ form.coinedNames,
          (registered.scopes.bind form.name (.struct form.name.name)).local? name = none := by
        intro name hmem
        have hne : form.name.name ≠ name := fun heq => hnot (heq ▸ hmem)
        rw [Scopes.local?_bind, if_neg hne]
        exact hcoined name hmem
      rw [register, StructDefinition.register, Scopes.conflict?_of_local? hname]
      simp only [Judged.result_bind, Judged.result_pure]
      rw [StructDefinition.bindCoined_result form.name.range (hmap.symm ▸ hnodup)
        (hmap.symm ▸ hrest), Scopes.bind_of_local? hname, Scopes.extend_extend]
      rfl

/-! ## Registering all forms -/

namespace Program

variable {program : Program}

theorem bindings_cons (structs : List String) (scopes : Scopes) (form : TopLevel)
    (program : Program) : bindings structs scopes (form :: program) =
      form.bindings structs scopes ++ bindings structs scopes program :=
  List.flatMap_cons

/-- All forms are registered with the types that they have in the end. -/
theorem register_scopes (hnodup : (names program).Nodup)
    (hfree : ∀ name ∈ names program, registered.scopes.local? name = none)
    (hback : program.LooksBack) :
    (register structs registered program).result.scopes = registered.scopes.extend
      (bindings structs (register structs registered program).result.scopes program) := by
  induction program generalizing registered with
  | nil => exact registered.scopes.extend_nil.symm
  | cons form program ih =>
      obtain ⟨hreads, hback⟩ := hback
      -- No name that the form looks up is bound from here on.
      obtain ⟨coined, -, hsub, hbinds⟩ := register_binds structs registered (form :: program)
      have hform : form.bindings structs
          (register structs registered (form :: program)).result.scopes =
            form.bindings structs registered.scopes :=
        TopLevel.bindings_congr fun name hname => (hbinds.mono hsub).type?_eq (hreads name hname)
      rw [names_cons] at hnodup hfree
      obtain ⟨hformNodup, hprogram, hdisjoint⟩ := List.nodup_append.mp hnodup
      obtain ⟨hformFree, hprogramFree⟩ := List.forall_mem_append.mp hfree
      have hfirst : (form.register structs registered).result.scopes = _ :=
        TopLevel.register_scopes hformNodup hformFree
      have hrest := ih hprogram (TopLevel.register_free structs hprogramFree hdisjoint) hback
      rw [bindings_cons, hform, ← Scopes.extend_extend, ← hfirst]
      exact hrest

/-! ## Names that are bound once -/

theorem map_fst_bindings (structs : List String) (scopes : Scopes) (program : Program) :
    (bindings structs scopes program).map Prod.fst = names program := by
  rw [bindings, List.map_flatMap, names]
  exact List.flatMap_congr fun form _ => form.map_fst_bindings structs scopes

theorem lookup_bindings_eq_none {name : String} (h : name ∉ names program) :
    (bindings structs scopes program).lookup name = none :=
  Table.lookup_eq_none (map_fst_bindings structs scopes program ▸ h)

theorem lookup_bindings (hnodup : (names program).Nodup) {form : TopLevel} (hform : form ∈ program)
    {name : String} (hname : name ∈ form.names) :
    (bindings structs scopes program).lookup name = (form.bindings structs scopes).lookup name := by
  induction program with
  | nil => cases hform
  | cons first program ih =>
      rw [names_cons] at hnodup
      obtain ⟨-, hprogram, hdisjoint⟩ := List.nodup_append.mp hnodup
      rw [bindings_cons, List.lookup_append]
      rcases List.mem_cons.mp hform with rfl | hform
      · have hsome := Table.lookup_isSome ((form.map_fst_bindings structs scopes).symm ▸ hname)
        obtain ⟨binding, hbinding⟩ := Option.isSome_iff_exists.mp hsome
        rw [hbinding, Option.some_or]
      · have hnot : name ∉ first.names := fun hfirst =>
          hdisjoint name hfirst name (List.mem_flatMap_of_mem hform hname) rfl
        have hnone := Table.lookup_eq_none (first.map_fst_bindings structs scopes ▸ hnot)
        rw [hnone, Option.none_or, ih hprogram hform]

/-- The scopes bind what the forms bind, with types that the values have in these scopes. -/
def Settles (structs : List String) (root scopes : Scopes) (program : Program) : Prop :=
  scopes = root.extend (bindings structs scopes program)

section

variable {p q : Program} {root : Scopes}

theorem Settles.type?_eq_of_not_mem (hp : Settles structs root scopes p)
    (hq : Settles structs root others q) {name : String} (hname : name ∉ names p)
    (hother : name ∉ names q) : others.type? name = scopes.type? name := by
  rw [hp, hq]
  apply Scopes.type?_extend
  rw [lookup_bindings_eq_none hname, lookup_bindings_eq_none hother]

theorem Settles.type?_eq (hp : Settles structs root scopes p) (hq : Settles structs root others q)
    (hperm : p.Perm q) (hnodup : (names p).Nodup) {form : TopLevel} (hform : form ∈ p)
    (h : form.bindings structs others = form.bindings structs scopes) {name : String}
    (hname : name ∈ form.names) : others.type? name = scopes.type? name := by
  have hnodup' : (names q).Nodup := (hperm.flatMap_right TopLevel.names).nodup_iff.mp hnodup
  rw [hp, hq]
  apply Scopes.type?_extend
  rw [lookup_bindings hnodup hform hname, lookup_bindings hnodup' (hperm.mem_iff.mp hform) hname, h]

/-- Whatever the order of the forms, they have the same types. -/
theorem Settles.bindings_eq (hp : Settles structs root scopes p)
    (hq : Settles structs root others q) (hperm : p.Perm q) (hnodup : (names p).Nodup)
    {before after : Program} (h : p = before ++ after) (hback : after.LooksBack)
    (hbefore : ∀ form ∈ before, form.bindings structs others = form.bindings structs scopes) :
    ∀ form ∈ p, form.bindings structs others = form.bindings structs scopes := by
  induction after generalizing before with
  | nil => rwa [h, List.append_nil]
  | cons form after ih =>
      obtain ⟨hreads, hback⟩ := hback
      have hform : form.bindings structs others = form.bindings structs scopes := by
        apply TopLevel.bindings_congr
        intro name hname
        by_cases hmem : name ∈ names before
        · obtain ⟨first, hfirst, hmem⟩ := List.mem_flatMap.mp hmem
          have hp' : first ∈ p := h ▸ List.mem_append_left _ hfirst
          exact hp.type?_eq hq hperm hnodup hp' (hbefore first hfirst) hmem
        · have hnot : name ∉ names p := by
            rw [h, names_append, List.mem_append, not_or]
            exact ⟨hmem, hreads name hname⟩
          have hother : name ∉ names q := fun hname =>
            hnot ((hperm.flatMap_right TopLevel.names).mem_iff.mpr hname)
          exact hp.type?_eq_of_not_mem hq hnot hother
      apply ih (h.trans (List.append_cons before form after)) hback
      intro other hother
      rcases List.mem_append.mp hother with hother | hother
      · exact hbefore other hother
      · rw [List.mem_singleton.mp hother, hform]

/-- Scopes that the same forms settle, whatever their order, give all names the same types. -/
theorem Settles.type?_congr (hp : Settles structs root scopes p)
    (hq : Settles structs root others q) (hperm : p.Perm q) (hnodup : (names p).Nodup)
    (h : ∀ form ∈ p, form.bindings structs others = form.bindings structs scopes) (name : String) :
    others.type? name = scopes.type? name := by
  by_cases hname : name ∈ names p
  · obtain ⟨form, hform, hname⟩ := List.mem_flatMap.mp hname
    exact hp.type?_eq hq hperm hnodup hform (h form hform) hname
  · have hother : name ∉ names q := fun hmem =>
      hname ((hperm.flatMap_right TopLevel.names).mem_iff.mpr hmem)
    exact hp.type?_eq_of_not_mem hq hname hother

end

end Program

/-! ## Checking all forms -/

theorem TopLevel.check_result {form : TopLevel}
    (h : ∀ name ∈ form.names, scopes.local? name = (form.bindings structs scopes).lookup name) :
    (form.check structs scopes).result = scopes := by
  match form with
  | .value _ => rfl
  | .struct _ => rfl
  | .definition (.function _ _ _ (.untyped _ _) _) => rfl
  | .definition (.function _ _ _ (.typed _ _ none) _) => rfl
  | .definition (.function _ _ name (.typed _ _ (some _)) _) =>
      have hname := h name.name List.mem_cons_self
      rw [TopLevel.bindings, List.lookup_cons_self] at hname
      exact Scopes.finalize_of_local? hname
  | .definition (.constant _ _ name _) =>
      have hname := h name.name List.mem_cons_self
      rw [TopLevel.bindings, List.lookup_cons_self] at hname
      exact Scopes.finalize_of_local? hname

namespace Program

variable {program : Program}

/-- Forms that keep the scopes are all checked in the same scopes. -/
theorem checkForms_eq (h : ∀ form ∈ program, (form.check structs scopes).result = scopes) :
    checkForms structs scopes program =
      ⟨scopes, program.flatMap fun form => (form.check structs scopes).diagnostics⟩ := by
  induction program with
  | nil => rfl
  | cons form program ih =>
      obtain ⟨hform, hprogram⟩ := List.forall_mem_cons.mp h
      let judged := form.check structs scopes
      let rest := checkForms structs judged.result program
      have hcons : checkForms structs scopes (form :: program) =
          ⟨rest.result, judged.diagnostics ++ rest.diagnostics⟩ := rfl
      have hrest : rest = _ := (congrArg (checkForms structs · program) hform).trans (ih hprogram)
      rw [hcons, hrest, List.flatMap_cons]

/-- If all constants look back, the forms are checked in the scopes that they settle. -/
theorem check_of_looksBack {language : Language} (hnodup : (names program).Nodup)
    (hfree : ∀ name ∈ names program, name ∉ language.names) (hback : program.LooksBack)
    (hstructs : ∀ name, name ∈ structNames program ↔ name ∈ structs) :
    ∃ scopes, Settles structs (.root language.scope) scopes program ∧
      (check language program).diagnostics = program.flatMap (·.fieldDiagnostics structs) ++
        program.flatMap (fun form => (form.check structs scopes).diagnostics) ∧
      (check language program).globals = Scope.globals scopes.current := by
  have hroot := root_free hfree
  let registered := register structs ⟨.root language.scope, []⟩ program
  let scopes := registered.result.scopes
  have hsettles : Settles structs (.root language.scope) scopes program :=
    register_scopes hnodup hroot hback
  have hkeep : ∀ form ∈ program, (form.check structs scopes).result = scopes := by
    intro form hform
    apply TopLevel.check_result
    intro name hname
    have hlocal := congrArg (·.local? name) hsettles
    have hmem : name ∈ names program := List.mem_flatMap_of_mem hform hname
    rw [hlocal, Scopes.local?_extend, hroot name hmem, Option.none_or,
      lookup_bindings hnodup hform hname]
  have hregister : registered.diagnostics = program.flatMap (·.fieldDiagnostics structs) :=
    register_diagnostics hnodup hroot
  have hcheck := checkForms_eq hkeep
  have hsame := sameStructs_of_mem_iff hstructs (kinds program)
  refine ⟨scopes, hsettles, ?_, ?_⟩
  · simp only [check, register_structs hsame, checkForms_structs hsame]
    rw [← hregister, hcheck]
  · simp only [check, register_structs hsame, checkForms_structs hsame]
    rw [hcheck]

/-- The order of the forms does not matter, as long as the constants look back: up to order, the
diagnostics are the same, and so are the global names with their types. -/
theorem check_perm {language : Language} {p q : Program} (hperm : p.Perm q)
    (hnodup : (names p).Nodup) (hfree : ∀ name ∈ names p, name ∉ language.names)
    (hp : p.LooksBack) (hq : q.LooksBack) :
    (check language p).diagnostics.Perm (check language q).diagnostics ∧
      (check language p).globals.Perm (check language q).globals := by
  have hnames : (names p).Perm (names q) := hperm.flatMap_right TopLevel.names
  have hstructs : ∀ name, name ∈ structNames q ↔ name ∈ structNames p := fun _ =>
    (hperm.filterMap TopLevel.structName?).mem_iff.symm
  obtain ⟨scopes, hsettles, hdiagnostics, hglobals⟩ :=
    check_of_looksBack hnodup hfree hp fun _ => Iff.rfl
  obtain ⟨others, hothers, hdiagnostics', hglobals'⟩ :=
    check_of_looksBack (hnames.nodup_iff.mp hnodup)
      (fun name hname => hfree name (hnames.mem_iff.mpr hname)) hq hstructs
  have hbindings := hsettles.bindings_eq hothers hperm hnodup (List.nil_append p).symm hp
    fun _ hform => absurd hform List.not_mem_nil
  have htypes := hsettles.type?_congr hothers hperm hnodup hbindings
  constructor
  · rw [hdiagnostics, hdiagnostics']
    refine (hperm.flatMap_right _).append (hperm.flatMap fun form _ => .of_eq ?_)
    exact (TopLevel.diagnostics_congr fun name _ => htypes name).symm
  · have hentries : (bindings (structNames p) scopes p).Perm (bindings (structNames p) others q) :=
      hperm.flatMap fun form hform => .of_eq (hbindings form hform).symm
    rw [hglobals, hglobals', hsettles, hothers]
    exact (hentries.append_left _).filterMap _

end Program

end

namespace Program

open Range in
/-- `(define (f p : posn -> Number) (+ (posn-x p) "s"))` -/
def usesStruct : TopLevel :=
  .definition (.function (inLine 1 51) [] ⟨"f", inLine 10 11⟩
    (.typed (inLine 12 30) [⟨⟨"p", inLine 12 13⟩, .named ⟨"posn", inLine 16 20⟩⟩]
      (some (.named ⟨"Number", inLine 24 30⟩)))
    (.call (inLine 32 50) (.name ⟨"+", inLine 33 34⟩)
      [.call (inLine 35 45) (.name ⟨"posn-x", inLine 36 42⟩) [.name ⟨"p", inLine 43 44⟩],
        .literal (inLine 46 49) (.string "s")]))

open Range in
/-- `(define-struct posn (x : Number))` -/
def definesStruct : TopLevel :=
  .struct ⟨inLine 52 85, [], ⟨"posn", inLine 67 71⟩,
    .typed (inLine 73 83) [⟨⟨"x", inLine 73 74⟩, .named ⟨"Number", inLine 77 83⟩⟩] none⟩

open Range in
/-- `(define a (f (make-posn 1)))` -/
def callsBack : TopLevel :=
  .definition (.constant (inLine 86 114) [] ⟨"a", inLine 94 95⟩
    (.call (inLine 96 113) (.name ⟨"f", inLine 97 98⟩)
      [.call (inLine 99 112) (.name ⟨"make-posn", inLine 100 109⟩)
        [.literal (inLine 110 111) (.integer 1)]]))

/-- The function is defined before or after the struct that it uses. -/
theorem check_perm_struct :
    let p := [usesStruct, definesStruct, callsBack]
    let q := [definesStruct, usesStruct, callsBack]
    p.Perm q ∧ (names p).Nodup ∧ (∀ name ∈ names p, name ∉ Language.minimal.names) ∧
      LooksBack p ∧ LooksBack q ∧
      (check .minimal p).diagnostics.Perm (check .minimal q).diagnostics ∧
      (check .minimal p).globals.Perm (check .minimal q).globals := by
  intro p q
  have hperm : p.Perm q := .swap _ _ _
  have hnodup : (names p).Nodup := by decide +kernel
  have hfree : ∀ name ∈ names p, name ∉ Language.minimal.names := by decide +kernel
  have hp : LooksBack p :=
    ⟨by decide +kernel, by decide +kernel, by decide +kernel, trivial⟩
  have hq : LooksBack q :=
    ⟨by decide +kernel, by decide +kernel, by decide +kernel, trivial⟩
  exact ⟨hperm, hnodup, hfree, hp, hq, check_perm hperm hnodup hfree hp hq⟩

/-! ## A constant that mentions itself -/

/-- No identifier in the value of a constant is bound by a later form. -/
def MentionsNoLater : Program → Prop
  | [] => True
  | .definition (.constant _ _ _ value) :: forms =>
      (∀ name ∈ names forms, .identifier name ∉ value.kinds) ∧ MentionsNoLater forms
  | _ :: forms => MentionsNoLater forms

open Range in
/-- `(define (f x : Number -> Number) (+ (a 1) x))` -/
def callsConstant : TopLevel :=
  .definition (.function (inLine 1 46) [] ⟨"f", inLine 10 11⟩
    (.typed (inLine 12 32) [⟨⟨"x", inLine 12 13⟩, .named ⟨"Number", inLine 16 22⟩⟩]
      (some (.named ⟨"Number", inLine 26 32⟩)))
    (.call (inLine 34 45) (.name ⟨"+", inLine 35 36⟩)
      [.call (inLine 37 42) (.name ⟨"a", inLine 38 39⟩) [.literal (inLine 40 41) (.integer 1)],
        .name ⟨"x", inLine 43 44⟩]))

open Range in
/-- `(define a (lambda (y : Number) a))` -/
def selfMention : TopLevel :=
  .definition (.constant (inLine 47 81) [] ⟨"a", inLine 55 56⟩
    (.lambda (inLine 57 80)
      (.typed (inLine 66 76) [⟨⟨"y", inLine 66 67⟩, .named ⟨"Number", inLine 70 76⟩⟩] none)
      (.name ⟨"a", inLine 78 79⟩)))

/-- The constant is registered as a function with any result. When it has been checked, its result
is known to be a function, which is no argument for `+`. -/
theorem check_perm_selfMention :
    let p := [callsConstant, selfMention]
    let q := [selfMention, callsConstant]
    p.Perm q ∧ (names p).Nodup ∧ (∀ name ∈ names p, name ∉ Language.minimal.names) ∧
      MentionsNoLater p ∧ MentionsNoLater q ∧
      ¬ (check .minimal p).diagnostics.Perm (check .minimal q).diagnostics := by
  intro p q
  have hp : (check .minimal p).diagnostics = [] := by decide +kernel
  have hq : (check .minimal q).diagnostics ≠ [] := by decide +kernel
  refine ⟨.swap _ _ _, by decide +kernel, by decide +kernel, ?_, ?_, ?_⟩
  · exact ⟨by decide +kernel, trivial⟩
  · exact ⟨by decide +kernel, trivial⟩
  · rw [hp]
    exact fun h => hq h.symm.eq_nil

end Program

end TypedIsl

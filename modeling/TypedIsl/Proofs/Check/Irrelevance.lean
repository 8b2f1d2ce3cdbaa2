import TypedIsl.Proofs.Check.FinalTypes
import TypedIsl.Proofs.Check.Lives
import TypedIsl.Proofs.Check.StructNames

/-!
# Names that do not matter

Two checks of a program stay in step as long as their root scopes agree on the names that the
program mentions. So builtins that are not mentioned do not matter, and neither do definitions and
structs none of whose names is mentioned elsewhere.
-/

namespace TypedIsl

/-! ## Names that are mentioned -/

/-- The form has an occurrence of the name, or it binds it. -/
def TopLevel.Mentions (form : TopLevel) (name : String) : Prop :=
  .identifier name ∈ form.kinds ∨ name ∈ form.names

/-- The program has an occurrence of the name, or one of its forms binds it. -/
def Program.Mentions (program : Program) (name : String) : Prop :=
  .identifier name ∈ kinds program ∨ name ∈ names program

instance (program : Program) (name : String) : Decidable (program.Mentions name) :=
  inferInstanceAs (Decidable (_ ∨ _))

theorem Program.mentions_of_mem {program : Program} {form : TopLevel} (h : form ∈ program)
    {name : String} (hname : form.Mentions name) : program.Mentions name :=
  hname.imp (List.mem_flatMap_of_mem h) (List.mem_flatMap_of_mem h)

mutual

/-- Names that are looked up occur. -/
theorem Value.mem_kinds_of_reads {name : String} (value : Value) (h : name ∈ value.reads) :
    .identifier name ∈ value.kinds := by
  match value with
  | .literal _ _ | .require _ _ => exact absurd h List.not_mem_nil
  | .name ident => exact List.mem_singleton.mpr (congrArg _ (List.mem_singleton.mp h))
  | .branch _ condition thenArm elseArm =>
      simp only [Value.reads, List.mem_append] at h
      have hparts := h.imp (Or.imp condition.mem_kinds_of_reads thenArm.mem_kinds_of_reads)
        elseArm.mem_kinds_of_reads
      simp [Value.kinds, enclosed, ← or_assoc, hparts]
  | .cond _ clauses none =>
      simp [Value.kinds, enclosed, Clause.mem_kinds_of_allReads clauses h]
  | .cond _ clauses (some value) =>
      have hparts := (List.mem_append.mp h).imp (Clause.mem_kinds_of_allReads clauses)
        value.mem_kinds_of_reads
      simp [Value.kinds, enclosed, hparts]
  | .lambda _ params body =>
      have hbody := body.mem_kinds_of_reads (mem_without.mp h).1
      simp [Value.kinds, enclosed, hbody]
  | .locals _ definitions body =>
      simp only [Value.reads, List.mem_append, mem_without] at h
      have hparts : .identifier name ∈ Definition.allKinds definitions ∨
          .identifier name ∈ body.kinds := by
        rcases h with hearly | ⟨hreads | hreads, -⟩
        · exact .inl (Definition.mem_kinds_of_allEarlyReads definitions hearly)
        · exact .inl (Definition.mem_kinds_of_allReads definitions hreads)
        · exact .inr (body.mem_kinds_of_reads hreads)
      simp [Value.kinds, enclosed, hparts]
  | .lets _ _ bindings body =>
      simp only [Value.reads, List.mem_append, mem_without] at h
      have hparts := h.imp (LetBinding.mem_kinds_of_allReads bindings)
        fun hreads => body.mem_kinds_of_reads hreads.1
      simp [Value.kinds, enclosed, hparts]
  | .call _ callee args =>
      have hparts := (List.mem_append.mp h).imp callee.mem_kinds_of_reads
        (Value.mem_kinds_of_allReads args)
      simp [Value.kinds, enclosed, hparts]

theorem Value.mem_kinds_of_allReads {name : String} (values : List Value)
    (h : name ∈ Value.allReads values) : .identifier name ∈ Value.allKinds values := by
  match values with
  | [] => exact absurd h List.not_mem_nil
  | value :: values =>
      exact List.mem_append.mpr ((List.mem_append.mp h).imp value.mem_kinds_of_reads
        (Value.mem_kinds_of_allReads values))

theorem Clause.mem_kinds_of_allReads {name : String} (clauses : List Clause)
    (h : name ∈ Clause.allReads clauses) : .identifier name ∈ Clause.allKinds clauses := by
  match clauses with
  | [] => exact absurd h List.not_mem_nil
  | .mk _ condition body :: clauses =>
      simp only [Clause.allReads, Clause.reads, List.mem_append] at h
      have hparts := h.imp (Or.imp condition.mem_kinds_of_reads body.mem_kinds_of_reads)
        (Clause.mem_kinds_of_allReads clauses)
      simp [Clause.allKinds, Clause.kinds, enclosed, ← or_assoc, hparts]

theorem LetBinding.mem_kinds_of_allReads {name : String} (bindings : List LetBinding)
    (h : name ∈ LetBinding.allReads bindings) :
    .identifier name ∈ LetBinding.allKinds bindings := by
  match bindings with
  | [] => exact absurd h List.not_mem_nil
  | .mk _ _ value :: bindings =>
      simp only [LetBinding.allReads, List.mem_append, mem_without] at h
      have hparts := h.imp value.mem_kinds_of_reads
        fun hreads => LetBinding.mem_kinds_of_allReads bindings hreads.1
      simp [LetBinding.allKinds, LetBinding.kinds, enclosed, hparts]

theorem Definition.mem_kinds_of_reads {name : String} (definition : Definition)
    (h : name ∈ definition.reads) : .identifier name ∈ definition.kinds := by
  match definition with
  | .function _ _ _ params body =>
      have hbody := body.mem_kinds_of_reads (mem_without.mp h).1
      simp [Definition.kinds, enclosed, hbody]
  | .constant _ _ _ value =>
      simp [Definition.kinds, enclosed, value.mem_kinds_of_reads h]

theorem Definition.mem_kinds_of_allReads {name : String} (definitions : List Definition)
    (h : name ∈ Definition.allReads definitions) :
    .identifier name ∈ Definition.allKinds definitions := by
  match definitions with
  | [] => exact absurd h List.not_mem_nil
  | definition :: definitions =>
      exact List.mem_append.mpr ((List.mem_append.mp h).imp definition.mem_kinds_of_reads
        (Definition.mem_kinds_of_allReads definitions))

theorem Definition.mem_kinds_of_allEarlyReads {name : String} (definitions : List Definition)
    (h : name ∈ Definition.allEarlyReads definitions) :
    .identifier name ∈ Definition.allKinds definitions := by
  match definitions with
  | [] => exact absurd h List.not_mem_nil
  | .function _ _ _ _ _ :: definitions =>
      have hrest := Definition.mem_kinds_of_allEarlyReads definitions (mem_without.mp h).1
      exact List.mem_append_right _ hrest
  | .constant _ _ _ value :: definitions =>
      simp only [Definition.allEarlyReads, Definition.earlyReads, List.mem_append,
        mem_without] at h
      have hparts := h.imp value.mem_kinds_of_reads
        fun hreads => Definition.mem_kinds_of_allEarlyReads definitions hreads.1
      simp [Definition.allKinds, Definition.kinds, enclosed, hparts]

end

theorem TopLevel.mentions_of_reads {form : TopLevel} {name : String} (h : name ∈ form.reads) :
    form.Mentions name := by
  cases form with
  | definition form => exact .inl (form.mem_kinds_of_reads h)
  | struct form => exact absurd h List.not_mem_nil
  | value form => exact .inl (form.mem_kinds_of_reads h)

/-! ## Globals -/

section

variable {scope : Scope} {name : String} {type : Ty} {range : Range}

/-- The name is bound in the source if it is bound at all. -/
def Scope.NoBuiltin (scope : Scope) (name : String) : Prop :=
  ∀ binding, scope.get? name = some binding → binding.definedAt?.isSome

theorem Scope.noBuiltin_of_none (h : scope.get? name = none) : scope.NoBuiltin name := by
  intro binding hbinding
  cases h.symm.trans hbinding

theorem Scope.noBuiltin_of_any
    (h : (scope.get? name).any fun binding => binding.definedAt? = some range) :
    scope.NoBuiltin name := by
  intro binding hbinding
  rw [hbinding, Option.any_some] at h
  rw [of_decide_eq_true h]
  rfl

/-- Binding a name that is no builtin changes the globals as it changes the scope. -/
theorem Scope.globals_put (h : scope.NoBuiltin name) :
    Scope.globals (scope.put name ⟨type, some range⟩) =
      Table.putEntry name type scope.globals := by
  obtain ⟨entries⟩ := scope
  rw [NoBuiltin, Table.get?_eq_lookup] at h
  rw [Scope.globals, Scope.globals, Table.put]
  induction entries with
  | nil => rfl
  | cons entry entries ih =>
      obtain ⟨other, binding⟩ := entry
      by_cases heq : other = name
      · subst heq
        have hdefined := h binding List.lookup_cons_self
        simp [Table.putEntry, hdefined]
      · have hne : (name == other) = false := beq_eq_false_iff_ne.mpr (Ne.symm heq)
        have hrest := ih fun found hfound => h found (by rw [List.lookup_cons, hne]; exact hfound)
        cases hdefined : binding.definedAt?.isSome <;>
          simp [Table.putEntry, heq, hdefined] at hrest ⊢ <;> exact hrest

theorem Table.filter_putEntry {α : Type} (kept : String → Bool) (name : String) (value : α)
    (entries : List (String × α)) :
    (putEntry name value entries).filter (kept ·.1) =
      if kept name then putEntry name value (entries.filter (kept ·.1))
      else entries.filter (kept ·.1) := by
  induction entries with
  | nil => cases hkept : kept name <;> simp [putEntry, hkept]
  | cons entry entries ih =>
      obtain ⟨other, first⟩ := entry
      by_cases heq : other = name
      · subst heq
        cases hkept : kept other <;> simp [putEntry, hkept]
      · cases hother : kept other <;> cases hkept : kept name <;>
          simp [putEntry, heq, hother, hkept] at ih ⊢ <;> exact ih

end

theorem Scope.mem_names_globals {scope : Scope} {name : String} :
    name ∈ scope.globals.map Prod.fst ↔
      ∃ binding, (name, binding) ∈ scope.entries ∧ binding.definedAt?.isSome := by
  rw [Scope.globals, List.map_filterMap, List.mem_filterMap, Prod.exists]
  constructor
  · rintro ⟨other, binding, hmem, hname⟩
    cases hdefined : binding.definedAt?.isSome with
    | false => simp [hdefined] at hname
    | true =>
        simp [hdefined] at hname
        exact ⟨binding, hname ▸ hmem, hdefined⟩
  · rintro ⟨binding, hmem, hdefined⟩
    exact ⟨name, binding, hmem, by simp [hdefined]⟩

/-- Names become global only by being bound. -/
theorem Scopes.Binds.mem_names_globals {names : List String} {scopes others : Scopes}
    (h : Scopes.Binds names scopes others) {name : String}
    (hname : name ∈ others.current.globals.map Prod.fst) :
    name ∈ names ∨ name ∈ scopes.current.globals.map Prod.fst := by
  induction h with
  | refl => exact .inr hname
  | @bind others _ ident hmem type ih =>
      obtain ⟨binding, hentry, hdefined⟩ := Scope.mem_names_globals.mp hname
      rcases Table.mem_putEntry hentry with hentry | heq
      · exact ih (Scope.mem_names_globals.mpr ⟨binding, hentry, hdefined⟩)
      · exact .inl ((Prod.mk.inj heq).1 ▸ hmem)

/-! ## Scopes that agree -/

/-- The scopes agree on the names that are kept: these have the same bindings, and the globals among
them are the same in the same order. -/
structure Scopes.AgreeOn (kept : String → Bool) (scopes others : Scopes) : Prop where
  outer : others.outer = scopes.outer
  binding : ∀ name, kept name → others.local? name = scopes.local? name
  globals : others.current.globals.filter (kept ·.1) = scopes.current.globals.filter (kept ·.1)

section

variable {kept : String → Bool} {structs : List String} {scopes others : Scopes}

/-- The name that a move is about. -/
def Move.name : Move → String
  | bind name _ _ => name.name
  | finalize definition _ => definition.name.name

/-- A move binds the name that it is about, unless that is a builtin, or does nothing. -/
theorem Move.make_cases (move : Move) (scopes : Scopes) :
    (move.make scopes).result = scopes ∨ ∃ ident type, ident.name = move.name ∧
      scopes.current.NoBuiltin ident.name ∧
        (move.make scopes).result = scopes.bind ident type := by
  cases move with
  | bind ident type locally =>
      cases hlocal : scopes.local? ident.name with
      | some binding =>
          rw [make, Scopes.bindNew, Scopes.conflict?, hlocal]
          exact .inl rfl
      | none =>
          rw [make, Scopes.bindNew_of_local? hlocal]
          exact .inr ⟨ident, type, rfl, Scope.noBuiltin_of_none hlocal, rfl⟩
  | finalize definition type =>
      rw [make, Scopes.finalize]
      split
      · rename_i hbound
        exact .inr ⟨definition.name, type, rfl, Scope.noBuiltin_of_any hbound, rfl⟩
      · exact .inl rfl

namespace Scopes.AgreeOn

theorem refl (kept : String → Bool) (scopes : Scopes) : scopes.AgreeOn kept scopes :=
  ⟨rfl, fun _ _ => rfl, rfl⟩

theorem type?_eq (h : scopes.AgreeOn kept others) {name : String} (hname : kept name) :
    others.type? name = scopes.type? name := by
  rw [type?, type?, get?_eq, get?_eq, h.binding name hname, h.outer]

theorem bind (h : scopes.AgreeOn kept others) {ident : Ident} (hname : kept ident.name)
    (hfree : scopes.current.NoBuiltin ident.name) (type : Ty) :
    (scopes.bind ident type).AgreeOn kept (others.bind ident type) := by
  refine ⟨h.outer, ?_, ?_⟩
  · intro name hkept
    rw [local?_bind, local?_bind, h.binding name hkept]
  · have hother : others.current.NoBuiltin ident.name := by
      intro binding hbinding
      exact hfree binding ((h.binding _ hname).symm.trans hbinding)
    rw [Scopes.bind, Scopes.bind, set, set, Scope.globals_put hfree, Scope.globals_put hother,
      Table.filter_putEntry kept, Table.filter_putEntry kept, if_pos hname, if_pos hname, h.globals]

/-- Names that are not kept may be bound on one side only. -/
theorem bind_right (h : scopes.AgreeOn kept others) {ident : Ident} (hname : ¬ kept ident.name)
    (hfree : others.current.NoBuiltin ident.name) (type : Ty) :
    scopes.AgreeOn kept (others.bind ident type) := by
  refine ⟨h.outer, ?_, ?_⟩
  · intro name hkept
    have hne : ident.name ≠ name := fun heq => hname (heq ▸ hkept)
    rw [local?_bind, if_neg hne, h.binding name hkept]
  · rw [Scopes.bind, set, Scope.globals_put hfree, Table.filter_putEntry kept, if_neg hname,
      h.globals]

theorem make (h : scopes.AgreeOn kept others) {move : Move} (hname : kept move.name) :
    (move.make scopes).Match Eq (AgreeOn kept) (move.make others) := by
  cases move with
  | bind ident type locally =>
      have hlocal := h.binding ident.name hname
      cases hbinding : scopes.local? ident.name with
      | some binding =>
          rw [Move.make, Move.make, bindNew, bindNew, conflict?, conflict?, hlocal, hbinding]
          exact ⟨h, rfl⟩
      | none =>
          rw [Move.make, Move.make, bindNew_of_local? hbinding,
            bindNew_of_local? (hlocal.trans hbinding)]
          exact ⟨h.bind hname (Scope.noBuiltin_of_none hbinding) type, rfl⟩
  | finalize definition type =>
      have hlocal := h.binding definition.name.name hname
      refine ⟨?_, rfl⟩
      rw [Move.make, Move.make, Judged.result_pure, Judged.result_pure, finalize, finalize,
        hlocal]
      split
      · rename_i hbound
        exact h.bind hname (Scope.noBuiltin_of_any hbound) type
      · exact h

theorem make_right (h : scopes.AgreeOn kept others) {move : Move} (hname : ¬ kept move.name) :
    scopes.AgreeOn kept (move.make others).result := by
  rcases move.make_cases others with heq | ⟨ident, type, hident, hfree, heq⟩
  · rwa [heq]
  · rw [heq]
    exact h.bind_right (hident ▸ hname) hfree type

theorem makeAll (h : scopes.AgreeOn kept others) {moves : List Move}
    (hnames : ∀ move ∈ moves, kept move.name) :
    (Move.makeAll scopes moves).Match Eq (AgreeOn kept) (Move.makeAll others moves) := by
  induction moves generalizing scopes others with
  | nil => exact ⟨h, rfl⟩
  | cons move moves ih =>
      obtain ⟨hmove, hmoves⟩ := List.forall_mem_cons.mp hnames
      have hfirst := h.make hmove
      have hrest := ih hfirst.result hmoves
      refine ⟨hrest.result, ?_⟩
      rw [Move.makeAll, Move.makeAll, Judged.diagnostics_bind, Judged.diagnostics_bind,
        hfirst.diagnostics, hrest.diagnostics]

theorem makeAll_right (h : scopes.AgreeOn kept others) {moves : List Move}
    (hnames : ∀ move ∈ moves, ¬ kept move.name) :
    scopes.AgreeOn kept (Move.makeAll others moves).result := by
  induction moves generalizing others with
  | nil => exact h
  | cons move moves ih =>
      obtain ⟨hmove, hmoves⟩ := List.forall_mem_cons.mp hnames
      exact ih (h.make_right hmove) hmoves

end Scopes.AgreeOn

/-! ## Forms -/

theorem StructDefinition.mem_coinedNames {definition : StructDefinition} {entry : String × Ty}
    (h : entry ∈ definition.coined (definition.fields.fieldTypes structs).result) :
    entry.1 ∈ definition.coinedNames := by
  rw [← definition.map_fst_coined (definition.fields.length_fieldTypes structs)]
  exact List.mem_map_of_mem h

namespace TopLevel

variable {form : TopLevel} {registered other : Registered}

theorem name_of_mem_registration {move : Move} (h : move ∈ form.registration structs scopes) :
    move.name ∈ form.names := by
  match form with
  | value _ => exact absurd h List.not_mem_nil
  | definition (.function _ _ _ _ _) | definition (.constant _ _ _ _) =>
      rw [List.mem_singleton.mp h]
      exact List.mem_cons_self
  | struct form =>
      rcases List.mem_cons.mp h with rfl | h
      · exact List.mem_cons_self
      · split at h
        · exact absurd h List.not_mem_nil
        · obtain ⟨entry, hentry, rfl⟩ := List.mem_map.mp h
          exact List.mem_cons_of_mem _ (StructDefinition.mem_coinedNames hentry)

theorem name_of_mem_finalization {move : Move} (h : move ∈ form.finalization structs scopes) :
    move.name ∈ form.names := by
  match form with
  | value _ | struct _ | definition (.function _ _ _ (.untyped _ _) _)
  | definition (.function _ _ _ (.typed _ _ none) _) => exact absurd h List.not_mem_nil
  | definition (.function _ _ _ (.typed _ _ (some _)) _) | definition (.constant _ _ _ _) =>
      rw [List.mem_singleton.mp h]
      exact List.mem_cons_self

theorem registration_congr (h : scopes.AgreeOn kept others)
    (hkept : ∀ name, form.Mentions name → kept name) :
    form.registration structs others = form.registration structs scopes := by
  match form with
  | value _ | definition (.function _ _ _ _ _) => rfl
  | definition (.constant _ _ _ init) =>
      have hinit : init.check structs others = init.check structs scopes :=
        Value.check_congr fun name hname => h.type?_eq (hkept name (mentions_of_reads hname))
      rw [registration, registration, Definition.registration, Definition.registration, hinit]
  | struct form =>
      have hname := hkept form.name.name (.inr List.mem_cons_self)
      rw [registration, registration, StructDefinition.registration,
        StructDefinition.registration, h.binding _ hname]

theorem finalization_congr (h : scopes.AgreeOn kept others)
    (hkept : ∀ name, form.Mentions name → kept name) :
    form.finalization structs others = form.finalization structs scopes := by
  match form with
  | value _ | struct _ | definition (.function _ _ _ (.untyped _ _) _)
  | definition (.function _ _ _ (.typed _ _ none) _)
  | definition (.function _ _ _ (.typed _ _ (some _)) _) => rfl
  | definition (.constant _ _ _ init) =>
      have hinit : init.check structs others = init.check structs scopes :=
        Value.check_congr fun name hname => h.type?_eq (hkept name (mentions_of_reads hname))
      rw [finalization, finalization, Definition.finalization, Definition.finalization, hinit]

/-- Forms whose names are kept are registered alike. -/
theorem register_agree (h : registered.scopes.AgreeOn kept other.scopes)
    (hkept : ∀ name, form.Mentions name → kept name) :
    (form.register structs registered).Match Eq (fun r s => r.scopes.AgreeOn kept s.scopes)
      (form.register structs other) := by
  have hmoves : (Move.makeAll registered.scopes (form.registration structs registered.scopes)).Match
      Eq (Scopes.AgreeOn kept) (Move.makeAll other.scopes
        (form.registration structs other.scopes)) := by
    rw [registration_congr h hkept]
    exact h.makeAll fun move hmove => hkept _ (.inr (name_of_mem_registration hmove))
  refine ⟨?_, ?_⟩
  · rw [result_registration, result_registration]
    exact hmoves.result
  · cases form with
    | value form => rfl
    | definition form =>
        rw [registration, registration, form.makeAll_registration,
          form.makeAll_registration] at hmoves
        exact congrArg (· ++ []) hmoves.diagnostics
    | struct form =>
        have hname := hkept form.name.name (.inr List.mem_cons_self)
        have hlocal := h.binding form.name.name hname
        rw [register, register, StructDefinition.register, StructDefinition.register,
          Scopes.conflict?, Scopes.conflict?, hlocal]
        cases hbinding : registered.scopes.local? form.name.name with
        | some binding => rfl
        | none =>
            have hbind := h.bind hname (Scope.noBuiltin_of_none hbinding) (.struct form.name.name)
            let moves := (form.coined (form.fields.fieldTypes structs).result).map
              fun entry => Move.bind ⟨entry.1, form.name.range⟩ entry.2 false
            have hmoves : ∀ move ∈ moves, kept move.name := by
              intro move hmove
              obtain ⟨entry, hentry, rfl⟩ := List.mem_map.mp hmove
              have hcoined := StructDefinition.mem_coinedNames hentry
              exact hkept _ (.inr (List.mem_cons_of_mem _ hcoined))
            have hcoined := (hbind.makeAll hmoves).diagnostics
            rw [StructDefinition.makeAll_coined, StructDefinition.makeAll_coined] at hcoined
            simp only [Option.map_none, Judged.diagnostics_bind, hcoined]
            rfl

/-- Registering a form none of whose names is kept does not show. -/
theorem register_right (h : registered.scopes.AgreeOn kept other.scopes)
    (hnames : ∀ name ∈ form.names, ¬ kept name) :
    registered.scopes.AgreeOn kept (form.register structs other).result.scopes := by
  rw [result_registration]
  exact h.makeAll_right fun move hmove => hnames _ (name_of_mem_registration hmove)

theorem check_agree (h : scopes.AgreeOn kept others)
    (hkept : ∀ name, form.Mentions name → kept name) :
    (form.check structs scopes).Match Eq (Scopes.AgreeOn kept) (form.check structs others) := by
  have hresult := fun scopes =>
    congrArg Judged.result (form.makeAll_finalization structs scopes).symm
  refine ⟨?_, ?_⟩
  · rw [← Judged.result_pure (form.check structs scopes).result,
      ← Judged.result_pure (form.check structs others).result, hresult, hresult,
      finalization_congr h hkept]
    exact (h.makeAll fun move hmove => hkept _ (.inr (name_of_mem_finalization hmove))).result
  · exact (diagnostics_congr fun name hname =>
      h.type?_eq (hkept name (mentions_of_reads hname))).symm

theorem check_right (h : scopes.AgreeOn kept others) (hnames : ∀ name ∈ form.names, ¬ kept name) :
    scopes.AgreeOn kept (form.check structs others).result := by
  have hresult := congrArg Judged.result (form.makeAll_finalization structs others).symm
  rw [← Judged.result_pure (form.check structs others).result, hresult]
  exact h.makeAll_right fun move hmove => hnames _ (name_of_mem_finalization hmove)

end TopLevel

end

/-! ## Programs -/

namespace Program

/-- What is found in each form while the names are bound. -/
def registerFindings (language : Language) (program : Program) : List (List Diagnostic) :=
  Judged.trail (fun registered form => form.register (structNames program) registered)
    ⟨.root language.scope, []⟩ program

/-- What is found in each form when it is checked. -/
def checkFindings (language : Language) (program : Program) : List (List Diagnostic) :=
  Judged.trail (fun scopes form => form.check (structNames program) scopes)
    (registered language program).result.scopes program

section

variable {language : Language} {program before after : Program} {form : TopLevel}

theorem register_eq_foldlM (structs : List String) (registered : Registered) (program : Program) :
    register structs registered program =
      program.foldlM (fun registered form => form.register structs registered) registered := by
  induction program generalizing registered with
  | nil => rfl
  | cons form program ih =>
      rw [register, List.foldlM_cons]
      exact congrArg _ (funext ih)

theorem checkForms_eq_foldlM (structs : List String) (scopes : Scopes) (program : Program) :
    checkForms structs scopes program =
      program.foldlM (fun scopes form => form.check structs scopes) scopes := by
  induction program generalizing scopes with
  | nil => rfl
  | cons form program ih =>
      rw [checkForms, List.foldlM_cons]
      exact congrArg _ (funext ih)

theorem diagnostics_eq_findings (language : Language) (program : Program) :
    (check language program).diagnostics =
      (registerFindings language program).flatten ++ (checkFindings language program).flatten := by
  rw [registerFindings, checkFindings, ← Judged.diagnostics_foldlM, ← Judged.diagnostics_foldlM,
    ← register_eq_foldlM, ← checkForms_eq_foldlM]
  rfl

/-- All global names are names of the program. -/
theorem mem_names_of_globals {entry : String × Ty}
    (h : entry ∈ (check language program).globals) : entry.1 ∈ names program := by
  have hbuiltins : (Scopes.root language.scope).current.globals = [] := by
    simp [Scope.globals, Language.scope, Scopes.root, List.filterMap_map]
  obtain ⟨coined, -, hsub, hregister⟩ :=
    register_binds (structNames program) ⟨.root language.scope, []⟩ program
  have hbinds := hregister.trans (binds_checkForms (structNames program) _ program)
  rcases hbinds.mem_names_globals (List.mem_map_of_mem h) with hname | hname
  · rcases List.mem_append.mp hname with hname | hname
    · exact hsub hname
    · exact hsub (List.mem_append_left _ hname)
  · rw [hbuiltins] at hname
    exact absurd hname List.not_mem_nil

/-- Languages that agree on the names that a program mentions check it alike. -/
theorem check_language {other : Language}
    (h : ∀ name, program.Mentions name → other.get? name = language.get? name) :
    (check other program).diagnostics = (check language program).diagnostics ∧
      (check other program).globals = (check language program).globals := by
  let kept : String → Bool := fun name => other.get? name = language.get? name
  have hroot : (Scopes.root language.scope).AgreeOn kept (.root other.scope) := by
    refine ⟨rfl, ?_, ?_⟩
    · intro name hname
      rw [Scopes.local?, Scopes.local?, Scopes.root, Scopes.root, Language.get?_scope,
        Language.get?_scope, of_decide_eq_true hname]
    · simp [Scope.globals, Language.scope, Scopes.root, List.filterMap_map]
  have hkept : ∀ form ∈ program, ∀ name, form.Mentions name → kept name :=
    fun form hform name hname => decide_eq_true (h name (mentions_of_mem hform hname))
  let structs := structNames program
  let bindNames := fun registered form => TopLevel.register structs registered form
  let checkForm := fun scopes form => TopLevel.check structs scopes form
  obtain ⟨hregister, hregistered⟩ := Judged.trail_congr bindNames bindNames
    (s := ⟨.root language.scope, []⟩) (t := ⟨.root other.scope, []⟩)
    (fun form hform _ _ hagree => TopLevel.register_agree hagree (hkept form hform)) hroot
  rw [← register_eq_foldlM, ← register_eq_foldlM] at hregistered
  obtain ⟨hcheck, hchecked⟩ := Judged.trail_congr checkForm checkForm
    (fun form hform _ _ hagree => TopLevel.check_agree hagree (hkept form hform)) hregistered
  rw [← checkForms_eq_foldlM, ← checkForms_eq_foldlM] at hchecked
  refine ⟨?_, ?_⟩
  · rw [diagnostics_eq_findings, diagnostics_eq_findings]
    exact congrArg₂ (fun found checked => found.flatten ++ checked.flatten) hregister hcheck
  · have hall : ∀ language, (check language program).globals.filter (kept ·.1) =
        (check language program).globals := fun language =>
      List.filter_eq_self.mpr fun entry hentry =>
        decide_eq_true (h entry.1 (.inr (mem_names_of_globals hentry)))
    rw [← hall other, ← hall language]
    exact hchecked.globals

/-- The names of structs in the program are the same without a form, as far as names are concerned
that the form does not bind. -/
theorem sameStructs_insert {kinds : List TokenKind}
    (h : ∀ name ∈ form.names, .identifier name ∉ kinds) :
    SameStructs (structNames (before ++ after)) (structNames (before ++ form :: after)) kinds := by
  intro kind hkind
  cases kind with
  | identifier name =>
      have hnot : form.structName? ≠ some name := by
        intro hname
        match form with
        | .struct definition =>
            refine h name ?_ hkind
            rw [← Option.some.inj hname]
            exact List.mem_cons_self
      have hinserted : structNames (before ++ form :: after) =
          structNames before ++ (form.structName?.toList ++ structNames after) := by
        rw [structNames, List.filterMap_append, List.filterMap_cons]
        cases form.structName? <;> rfl
      have hplain : structNames (before ++ after) = structNames before ++ structNames after :=
        List.filterMap_append
      simp [TokenKind.SameStruct, hinserted, hplain, hnot]
  | _ => trivial

/-- A form none of whose names is mentioned elsewhere adds its own findings and its own globals,
and changes nothing else. -/
theorem findings_insert
    (h : ∀ name ∈ form.names, ¬ Mentions (before ++ after) name) :
    (registerFindings language (before ++ form :: after)).eraseIdx before.length =
        registerFindings language (before ++ after) ∧
      (checkFindings language (before ++ form :: after)).eraseIdx before.length =
        checkFindings language (before ++ after) ∧
      (check language (before ++ form :: after)).globals.filter (·.1 ∉ form.names) =
        (check language (before ++ after)).globals := by
  let kept : String → Bool := fun name => name ∉ form.names
  have hkept : ∀ other ∈ before ++ after, ∀ name, other.Mentions name → kept name :=
    fun other hother name hname =>
      decide_eq_true fun hmem => h name hmem (mentions_of_mem hother hname)
  have hnames : ∀ name ∈ form.names, ¬ kept name := fun name hname hkept =>
    of_decide_eq_true hkept hname
  have hstructs : ∀ other ∈ before ++ after, SameStructs (structNames (before ++ after))
      (structNames (before ++ form :: after)) other.kinds := fun other hother =>
    sameStructs_insert fun name hname hmem => h name hname (mentions_of_mem hother (.inl hmem))
  obtain ⟨hregister, hregistered⟩ := Judged.trail_insert
    (fun registered other => other.register (structNames (before ++ after)) registered)
    (fun registered other => other.register (structNames (before ++ form :: after)) registered)
    (r := fun r s => r.scopes.AgreeOn kept s.scopes) (a := form)
    (s := ⟨.root language.scope, []⟩) (t := ⟨.root language.scope, []⟩)
    (fun other hother registered _ hagree => by
      rw [TopLevel.register_structs (hstructs other hother)]
      exact TopLevel.register_agree hagree (hkept other hother))
    (fun _ _ hagree => TopLevel.register_right hagree hnames) (.refl kept _)
  rw [← register_eq_foldlM, ← register_eq_foldlM] at hregistered
  obtain ⟨hcheck, hchecked⟩ := Judged.trail_insert
    (fun scopes other => other.check (structNames (before ++ after)) scopes)
    (fun scopes other => other.check (structNames (before ++ form :: after)) scopes)
    (r := Scopes.AgreeOn kept) (a := form)
    (fun other hother scopes _ hagree => by
      rw [TopLevel.check_structs (hstructs other hother)]
      exact TopLevel.check_agree hagree (hkept other hother))
    (fun _ _ hagree => TopLevel.check_right hagree hnames) hregistered
  rw [← checkForms_eq_foldlM, ← checkForms_eq_foldlM] at hchecked
  refine ⟨hregister, hcheck, hchecked.globals.trans (List.filter_eq_self.mpr ?_)⟩
  intro entry hentry
  exact decide_eq_true fun hmem => h entry.1 hmem (.inr (mem_names_of_globals hentry))

/-- Only what is mentioned matters. The diagnostics of a program are those that are found in its
forms. They depend on the types of those builtins only that the program mentions, and so do the
globals. A form none of whose names the program mentions may be added anywhere: what is found in the
other forms stays as it is, and so do their globals. -/
theorem check_unmentioned (language : Language) (program : Program) :
    (check language program).diagnostics =
        (registerFindings language program).flatten ++ (checkFindings language program).flatten ∧
      (∀ other : Language,
        (∀ name, program.Mentions name → other.get? name = language.get? name) →
          (check other program).diagnostics = (check language program).diagnostics ∧
            (check other program).globals = (check language program).globals) ∧
      ∀ before after form, program = before ++ after →
        (∀ name ∈ TopLevel.names form, ¬ program.Mentions name) →
          (registerFindings language (before ++ form :: after)).eraseIdx before.length =
              registerFindings language program ∧
            (checkFindings language (before ++ form :: after)).eraseIdx before.length =
              checkFindings language program ∧
            (check language (before ++ form :: after)).globals.filter (·.1 ∉ form.names) =
              (check language program).globals := by
  refine ⟨diagnostics_eq_findings language program, fun _ h => check_language h, ?_⟩
  rintro before after form rfl h
  exact findings_insert h

end

open Range in
/-- `(define b (+ a 1))` -/
def undefinedSum : Program :=
  [.definition (.constant (inLine 1 19) [] ⟨"b", inLine 9 10⟩
    (.call (inLine 11 18) (.name ⟨"+", inLine 12 13⟩)
      [.name ⟨"a", inLine 14 15⟩, .literal (inLine 16 17) (.integer 1)]))]

open Range in
/-- `(define-struct p (n))` -/
def unmentionedStruct : TopLevel :=
  .struct ⟨inLine 1 22, [], ⟨"p", inLine 16 17⟩, .untyped (inLine 18 21) [⟨"n", inLine 19 20⟩]⟩

/-- The sum is checked in the same way without builtins for strings and with a struct before it. -/
theorem check_unmentioned_undefinedSum :
    let sum : Language := ⟨[("+", .function [.many .number] .number)]⟩
    (∀ name, undefinedSum.Mentions name → sum.get? name = Language.minimal.get? name) ∧
      (∀ name ∈ unmentionedStruct.names, ¬ undefinedSum.Mentions name) ∧
      (check sum undefinedSum).diagnostics = (check .minimal undefinedSum).diagnostics ∧
      (checkFindings .minimal (unmentionedStruct :: undefinedSum)).eraseIdx 0 =
        checkFindings .minimal undefinedSum ∧
      (check .minimal (unmentionedStruct :: undefinedSum)).globals.filter
          (·.1 ∉ unmentionedStruct.names) = (check .minimal undefinedSum).globals := by
  intro sum
  have hother : ∀ name, undefinedSum.Mentions name →
      sum.get? name = Language.minimal.get? name := by
    intro name hname
    have hname : (name = "b" ∨ name = "+" ∨ name = "a") ∨ name = "b" := by
      simpa [Mentions, undefinedSum, kinds, TopLevel.kinds, Definition.kinds, Value.kinds,
        Value.allKinds, enclosed, Ident.kind, names, TopLevel.names, Definition.name] using hname
    rcases hname with (rfl | rfl | rfl) | rfl <;> decide +kernel
  have hnames : ∀ name ∈ unmentionedStruct.names, ¬ undefinedSum.Mentions name := by
    decide +kernel
  have hsame := check_unmentioned .minimal undefinedSum
  exact ⟨hother, hnames, (hsame.2.1 sum hother).1, (hsame.2.2 [] _ _ rfl hnames).2⟩

end Program

end TypedIsl

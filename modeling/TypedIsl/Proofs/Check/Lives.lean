import TypedIsl.Proofs.Check.Visits

/-!
# The life of a scope

From the moment it is entered, a scope changes by single moves only. A move binds a name, or it
gives a definition its final type. The scopes in which the parts of a program are visited are those
that such moves lead to.
-/

namespace TypedIsl

/-- The problem with a name that is bound already. -/
def Ident.taken (name : Ident) : (locally : Bool) → Problem
  | false => .alreadyDefined name.name
  | true => .alreadyDefinedLocally name.name

/-- A change to the current scope. -/
inductive Move where
  /-- Binds a name that is free. -/
  | bind (name : Ident) (type : Ty) (locally : Bool)
  | finalize (definition : Definition) (type : Ty)

namespace Move

def make (scopes : Scopes) : Move → Judged Scopes
  | bind name type locally => scopes.bindNew name type (name.taken locally)
  | finalize definition type => pure (scopes.finalize definition.name type)

/-- Makes moves, one after the other. -/
def makeAll (scopes : Scopes) : List Move → Judged Scopes
  | [] => pure scopes
  | move :: moves => do
      let scopes ← move.make scopes
      makeAll scopes moves

/-- The name that the move attempts to bind. -/
def binder? : Move → Option Ident
  | bind name _ _ => some name
  | finalize _ _ => none

/-- The moves that the elements of a list make, one after the other, each depending on the scopes
that those before it have led to. -/
def along {α : Type} (moves : Scopes → α → List Move) : Scopes → List α → List Move
  | _, [] => []
  | scopes, a :: rest =>
      moves scopes a ++ along moves (makeAll scopes (moves scopes a)).result rest

theorem makeAll_append (scopes : Scopes) (moves more : List Move) :
    makeAll scopes (moves ++ more) =
      makeAll scopes moves >>= fun scopes => makeAll scopes more := by
  induction moves generalizing scopes with
  | nil => simp [makeAll]
  | cons move moves ih => simp [makeAll, ih]

@[simp] theorem makeAll_singleton (scopes : Scopes) (move : Move) :
    makeAll scopes [move] = move.make scopes :=
  bind_pure (move.make scopes)

theorem makeAll_along_cons {α : Type} (moves : Scopes → α → List Move) (scopes : Scopes) (a : α)
    (rest : List α) :
    makeAll scopes (along moves scopes (a :: rest)) =
      makeAll scopes (moves scopes a) >>= fun scopes =>
        makeAll scopes (along moves scopes rest) := by
  rw [along, makeAll_append]
  rfl

/-- An element of a list is met in the scopes that the moves of those before it lead to. -/
theorem exists_of_mem_stages {σ α : Type} (scopesOf : σ → Scopes) {moves : Scopes → α → List Move}
    {next : σ → α → σ} (hnext : ∀ state a,
      scopesOf (next state a) = (makeAll (scopesOf state) (moves (scopesOf state) a)).result)
    {state found : σ} {list : List α} {a : α} (h : (found, a) ∈ stages next state list) :
    ∃ before, before <+: along moves (scopesOf state) list ∧
      scopesOf found = (makeAll (scopesOf state) before).result := by
  induction list generalizing state with
  | nil => exact absurd h List.not_mem_nil
  | cons b list ih =>
      rcases List.mem_cons.mp h with heq | h
      · exact ⟨[], List.nil_prefix, congrArg scopesOf (Prod.mk.inj heq).1⟩
      · obtain ⟨before, hpre, hfound⟩ := ih h
        rw [hnext] at hpre hfound
        refine ⟨moves (scopesOf state) b ++ before, ?_, ?_⟩
        · exact (List.prefix_append_right_inj _).mpr hpre
        · rw [hfound, makeAll_append]
          rfl

end Move

/-! ## The moves of each form -/

namespace Params

/-- Binds the parameters. -/
def moves (structs : List String) (params : Params) : List Move :=
  (params.bindings structs).map fun (name, type) =>
    .bind name type true

end Params

namespace LetBinding

def moves (structs : List String) (scopes : Scopes) : LetBinding → List Move
  | .mk _ name value =>
      [.bind name (value.check structs scopes).result true]

end LetBinding

namespace Definition

/-- Binds the name of the definition to the type that it is registered with. -/
def registration (structs : List String) (scopes : Scopes) : Definition → List Move
  | function _ _ name params _ =>
      [.bind name (params.declaredType structs) false]
  | constant _ _ name value =>
      [.bind name (value.check structs scopes).result false]

/-- Gives the definition its final type, if it gets one. -/
def finalization (structs : List String) (scopes : Scopes) (definition : Definition) : List Move :=
  match definition with
  | function _ _ _ (.typed _ params (some declared)) _ =>
      [.finalize definition (.function ((resolveParams structs params).result.map .fixed)
        (declared.resolve structs).result)]
  | function _ _ _ (.typed _ _ none) _ => []
  | function _ _ _ (.untyped _ _) _ => []
  | constant _ _ _ value => [.finalize definition (value.check structs scopes).result]

end Definition

namespace StructDefinition

/-- Binds the name of the struct and, unless that is taken, those that the struct brings in, all of
them at the range of its own. -/
def registration (structs : List String) (scopes : Scopes) (definition : StructDefinition) :
    List Move :=
  let name := definition.name
  let coined := definition.coined (definition.fields.fieldTypes structs).result
  .bind name (.struct name.name) false ::
    if (scopes.local? name.name).isSome then []
    else coined.map fun (coined, type) => .bind ⟨coined, name.range⟩ type false

end StructDefinition

namespace TopLevel

def registration (structs : List String) (scopes : Scopes) : TopLevel → List Move
  | definition form => form.registration structs scopes
  | struct form => form.registration structs scopes
  | value _ => []

def finalization (structs : List String) (scopes : Scopes) : TopLevel → List Move
  | definition form => form.finalization structs scopes
  | struct _ => []
  | value _ => []

end TopLevel

/-! ## What the moves lead to -/

section

variable (structs : List String) (scopes : Scopes)

theorem Params.makeAll_moves (params : Params) :
    Move.makeAll scopes (params.moves structs) = scopes.bindParams (params.bindings structs) := by
  rw [moves]
  induction params.bindings structs generalizing scopes with
  | nil => rfl
  | cons param bindings ih =>
      rw [List.map_cons, Move.makeAll, Scopes.bindParams]
      exact congrArg _ (funext fun scopes => ih scopes)

theorem LetBinding.makeAll_moves (binding : LetBinding) :
    Move.makeAll scopes (binding.moves structs scopes) =
      ⟨(binding.check structs scopes).result, binding.reports scopes⟩ := by
  obtain ⟨range, name, value⟩ := binding
  rw [moves, Move.makeAll_singleton, Move.make, Scopes.bindNew, Ident.taken, check, reports]
  cases scopes.conflict? name (.alreadyDefinedLocally name.name) <;> rfl

theorem Definition.makeAll_registration (definition : Definition) :
    Move.makeAll scopes (definition.registration structs scopes) =
      definition.register structs scopes := by
  cases definition with
  | function range docs name params body => rw [registration, Move.makeAll_singleton]; rfl
  | constant range docs name value => rw [registration, Move.makeAll_singleton]; rfl

theorem Definition.makeAll_finalization (definition : Definition) :
    Move.makeAll scopes (definition.finalization structs scopes) =
      pure (definition.check structs scopes).result := by
  cases definition with
  | constant range docs name value => rw [finalization, Move.makeAll_singleton]; rfl
  | function range docs name params body =>
      cases params with
      | untyped paramsRange names => rfl
      | typed paramsRange params result? =>
          cases result? with
          | none => rfl
          | some declared => rw [finalization, Move.makeAll_singleton]; rfl

theorem StructDefinition.makeAll_coined (range : Range) (coined : List (String × Ty)) :
    Move.makeAll scopes (coined.map fun (coined, type) => .bind ⟨coined, range⟩ type false) =
      bindCoined range scopes coined := by
  induction coined generalizing scopes with
  | nil => rfl
  | cons entry coined ih =>
      rw [List.map_cons, Move.makeAll, bindCoined]
      exact congrArg _ (funext fun scopes => ih scopes)

theorem StructDefinition.result_registration (registered : Registered)
    (definition : StructDefinition) :
    (definition.register structs registered).result.scopes =
      (Move.makeAll registered.scopes
        (definition.registration structs registered.scopes)).result := by
  cases hlocal : registered.scopes.local? definition.name.name <;>
    simp [register, registration, Scopes.conflict?, hlocal, Move.makeAll, Move.make,
      Scopes.bindNew, makeAll_coined]

/-- Besides what the moves find, the types of the fields are reported. -/
theorem StructDefinition.sublist_registration (registered : Registered)
    (definition : StructDefinition) :
    (Move.makeAll registered.scopes
      (definition.registration structs registered.scopes)).diagnostics.Sublist
        (definition.register structs registered).diagnostics := by
  cases hlocal : registered.scopes.local? definition.name.name <;>
    simp [register, registration, Scopes.conflict?, hlocal, Move.makeAll, Move.make,
      Scopes.bindNew, makeAll_coined, Judged.report, Ident.taken]

theorem TopLevel.result_registration (registered : Registered) (form : TopLevel) :
    (form.register structs registered).result.scopes =
      (Move.makeAll registered.scopes (form.registration structs registered.scopes)).result := by
  cases form with
  | definition form => rw [registration, form.makeAll_registration]; rfl
  | struct form => exact form.result_registration structs registered
  | value form => rfl

theorem TopLevel.sublist_registration (registered : Registered) (form : TopLevel) :
    (Move.makeAll registered.scopes
      (form.registration structs registered.scopes)).diagnostics.Sublist
        (form.register structs registered).diagnostics := by
  cases form with
  | definition form =>
      rw [registration, form.makeAll_registration]
      exact List.sublist_append_left _ _
  | struct form => exact form.sublist_registration structs registered
  | value form => exact List.Sublist.refl _

theorem TopLevel.makeAll_finalization (form : TopLevel) :
    Move.makeAll scopes (form.finalization structs scopes) =
      pure (form.check structs scopes).result := by
  cases form with
  | definition form => exact form.makeAll_finalization structs scopes
  | struct form => rfl
  | value form => rfl

theorem LetBinding.makeAll_along (bindings : List LetBinding) :
    let next := fun (scopes : Scopes) (binding : LetBinding) =>
      (binding.check structs scopes).result
    Move.makeAll scopes (Move.along (moves structs) scopes bindings) =
      ⟨(checkAll structs scopes bindings).result,
        (stages next scopes bindings).flatMap fun (scopes, binding) => binding.reports scopes⟩ := by
  intro next
  induction bindings generalizing scopes with
  | nil => rfl
  | cons binding bindings ih =>
      rw [Move.makeAll_along_cons, binding.makeAll_moves]
      exact congrArg (Judged.mk _ _ >>= ·) (funext ih)

theorem Definition.makeAll_registrations (definitions : List Definition) :
    Move.makeAll scopes (Move.along (registration structs) scopes definitions) =
      registerAll structs scopes definitions := by
  induction definitions generalizing scopes with
  | nil => rfl
  | cons definition definitions ih =>
      rw [Move.makeAll_along_cons, definition.makeAll_registration, registerAll]
      exact congrArg _ (funext ih)

theorem Definition.makeAll_finalizations (definitions : List Definition) :
    Move.makeAll scopes (Move.along (finalization structs) scopes definitions) =
      pure (checkAll structs scopes definitions).result := by
  induction definitions generalizing scopes with
  | nil => rfl
  | cons definition definitions ih =>
      rw [Move.makeAll_along_cons, definition.makeAll_finalization, pure_bind, ih]
      rfl

theorem Program.result_registrations (registered : Registered) (program : Program) :
    (register structs registered program).result.scopes =
      (Move.makeAll registered.scopes
        (Move.along (TopLevel.registration structs) registered.scopes program)).result := by
  induction program generalizing registered with
  | nil => rfl
  | cons form program ih =>
      rw [Move.makeAll_along_cons, Judged.result_bind, ← form.result_registration]
      exact ih (form.register structs registered).result

theorem Program.sublist_registrations (registered : Registered) (program : Program) :
    (Move.makeAll registered.scopes (Move.along (TopLevel.registration structs)
      registered.scopes program)).diagnostics.Sublist
        (register structs registered program).diagnostics := by
  induction program generalizing registered with
  | nil => exact List.Sublist.refl _
  | cons form program ih =>
      rw [Move.makeAll_along_cons, Judged.diagnostics_bind, ← form.result_registration]
      exact (form.sublist_registration structs registered).append
        (ih (form.register structs registered).result)

theorem Program.makeAll_finalizations (program : Program) :
    Move.makeAll scopes (Move.along (TopLevel.finalization structs) scopes program) =
      pure (checkForms structs scopes program).result := by
  induction program generalizing scopes with
  | nil => rfl
  | cons form program ih =>
      rw [Move.makeAll_along_cons, form.makeAll_finalization, pure_bind, ih]
      rfl

end

/-! ## Scopes -/

/-- A scope from the moment it is entered: the scopes at that moment and all moves that follow. -/
structure Life where
  start : Scopes
  moves : List Move

namespace Life

/-- The scopes when the given moves have been made. -/
def after (life : Life) (made : List Move) : Scopes :=
  (Move.makeAll life.start made).result

/-- What is reported about the names that are bound. -/
def reports (life : Life) : List Diagnostic :=
  (Move.makeAll life.start life.moves).diagnostics

/-- The life of a scope with certain parameters. -/
def ofParams (structs : List String) (scopes : Scopes) (params : Params) : Life :=
  ⟨scopes.enter, params.moves structs⟩

def ofDefinitions (structs : List String) (scopes : Scopes) (definitions : List Definition) :
    Life :=
  let registrations := Move.along (Definition.registration structs) scopes.enter definitions
  let registered := (Move.makeAll scopes.enter registrations).result
  ⟨scopes.enter,
    registrations ++ Move.along (Definition.finalization structs) registered definitions⟩

def ofBindings (structs : List String) (scopes : Scopes) (bindings : List LetBinding) : Life :=
  ⟨scopes.enter, Move.along (LetBinding.moves structs) scopes.enter bindings⟩

end Life

/-- The life of the scope that is entered at a visit, if one is. -/
def Visit.life? (structs : List String) : Visit → Option Life
  | ⟨scopes, .value (.lambda _ params _)⟩ => some (.ofParams structs scopes params)
  | ⟨scopes, .value (.locals _ definitions _)⟩ => some (.ofDefinitions structs scopes definitions)
  | ⟨scopes, .value (.lets _ _ bindings _)⟩ => some (.ofBindings structs scopes bindings)
  | ⟨_, .value _⟩ => none
  | ⟨scopes, .definition (.function _ _ _ params _)⟩ => some (.ofParams structs scopes params)
  | ⟨_, .definition (.constant _ _ _ _)⟩ => none

namespace Program

variable (language : Language) (program : Program)

/-- The life of the root scope. -/
def rootLife : Life :=
  let structs := structNames program
  let root := Scopes.root language.scope
  let registrations := Move.along (TopLevel.registration structs) root program
  let registered := (Move.makeAll root registrations).result
  ⟨root, registrations ++ Move.along (TopLevel.finalization structs) registered program⟩

/-- The scopes that are entered while a program is checked. Nothing is reported about those that
are entered by visits that are silent. -/
inductive Opens : Bool → Life → Prop
  | root : Opens false (rootLife language program)
  | inner {silent visit life} (h : Visits language program silent visit)
      (hlife : visit.life? (structNames program) = some life) : Opens silent life

end Program

/-! ## Where visits take place -/

section

variable {structs : List String} {visit next : Visit}

/-- The visit takes place in a scope of the given life. -/
def Visit.Within (visit : Visit) (life : Life) : Prop :=
  ∃ before, before <+: life.moves ∧ visit.scopes = life.after before

theorem Life.within_ofParams (scopes : Scopes) (params : Params) (subject : Subject) :
    (Visit.mk (params.inner structs scopes) subject).Within (.ofParams structs scopes params) :=
  ⟨params.moves structs, List.prefix_rfl,
    congrArg Judged.result (params.makeAll_moves structs scopes.enter).symm⟩

theorem LetBinding.scopes_of_mem_steps {scopes : Scopes} {binding : LetBinding}
    (h : next ∈ binding.steps scopes) : next.scopes = scopes := by
  obtain ⟨range, name, value⟩ := binding
  rw [steps] at h
  split at h
  · exact absurd h List.not_mem_nil
  · rw [List.mem_singleton.mp h]

theorem Definition.scopes_of_mem_steps {scopes : Scopes} {definition : Definition}
    (h : next ∈ definition.steps structs scopes) :
    next.scopes = scopes ∨ ∃ life, (Visit.mk scopes (.definition definition)).life? structs =
      some life ∧ next.Within life := by
  cases definition with
  | function range docs name params body =>
      rw [List.mem_singleton.mp h]
      exact .inr ⟨_, rfl, Life.within_ofParams scopes params _⟩
  | constant range docs name value => exact .inl (congrArg Visit.scopes (List.mem_singleton.mp h))

theorem Value.scopes_of_mem_steps {scopes : Scopes} {value : Value}
    (h : next ∈ value.steps structs scopes) :
    next.scopes = scopes ∨ ∃ life, (Visit.mk scopes (.value value)).life? structs = some life ∧
      next.Within life := by
  cases value with
  | literal range value => exact absurd h List.not_mem_nil
  | name ident => exact absurd h List.not_mem_nil
  | require range library => exact absurd h List.not_mem_nil
  | branch range condition thenArm elseArm =>
      simp only [steps, List.mem_cons, List.not_mem_nil, or_false] at h
      rcases h with rfl | rfl | rfl <;> exact .inl rfl
  | cond range clauses otherwise? =>
      rcases List.mem_append.mp h with h | h
      · obtain ⟨⟨clauseRange, condition, body⟩, -, hnext⟩ := List.mem_flatMap.mp h
        simp only [Clause.steps, List.mem_cons, List.not_mem_nil, or_false] at hnext
        rcases hnext with rfl | rfl <;> exact .inl rfl
      · obtain ⟨otherwise, -, rfl⟩ := List.mem_map.mp h
        exact .inl rfl
  | lambda range params body =>
      rw [List.mem_singleton.mp h]
      exact .inr ⟨_, rfl, Life.within_ofParams scopes params _⟩
  | locals range definitions body =>
      refine .inr ⟨_, rfl, ?_⟩
      have hregistered := Definition.makeAll_registrations structs scopes.enter definitions
      rcases List.mem_append.mp h with h | h
      · obtain ⟨⟨inner, definition⟩, hstage, rfl⟩ := List.mem_map.mp h
        have hnext := fun scopes (definition : Definition) =>
          congrArg Judged.result (definition.makeAll_finalization structs scopes).symm
        obtain ⟨before, hpre, rfl⟩ := Move.exists_of_mem_stages id hnext hstage
        refine ⟨_ ++ before, List.prefix_append_right_inj _ |>.mpr ?_, ?_⟩
        · rwa [hregistered]
        · rw [Life.after, Life.ofDefinitions, Move.makeAll_append, Judged.result_bind, hregistered]
          rfl
      · refine ⟨_, List.prefix_rfl, ?_⟩
        rw [List.mem_singleton.mp h, Life.after, Life.ofDefinitions, Move.makeAll_append,
          Judged.result_bind, hregistered, Definition.makeAll_finalizations]
        rfl
  | lets range kind bindings body =>
      refine .inr ⟨_, rfl, ?_⟩
      rcases List.mem_append.mp h with h | h
      · obtain ⟨⟨inner, binding⟩, hstage, hnext⟩ := List.mem_flatMap.mp h
        have hmoves := fun scopes (binding : LetBinding) =>
          congrArg Judged.result (binding.makeAll_moves structs scopes).symm
        obtain ⟨before, hpre, rfl⟩ := Move.exists_of_mem_stages id hmoves hstage
        exact ⟨before, hpre, binding.scopes_of_mem_steps hnext⟩
      · refine ⟨_, List.prefix_rfl, ?_⟩
        rw [List.mem_singleton.mp h, Life.after, Life.ofBindings, LetBinding.makeAll_along]
  | call range callee args =>
      rcases List.mem_cons.mp h with rfl | h
      · exact .inl rfl
      · split at h
        · obtain ⟨arg, -, rfl⟩ := List.mem_map.mp h
          exact .inl rfl
        · exact absurd h List.not_mem_nil

theorem Visit.scopes_of_mem_steps (h : next ∈ visit.steps structs) :
    next.scopes = visit.scopes ∨ ∃ life, visit.life? structs = some life ∧ next.Within life := by
  obtain ⟨scopes, value | definition⟩ := visit
  · exact value.scopes_of_mem_steps h
  · exact definition.scopes_of_mem_steps h

theorem Definition.scopes_of_mem_rehearsals {scopes : Scopes} {definition : Definition}
    (h : next ∈ definition.rehearsals scopes) : next.scopes = scopes := by
  cases definition with
  | function range docs name params body => exact absurd h List.not_mem_nil
  | constant range docs name value =>
      rw [rehearsals] at h
      split at h
      · exact absurd h List.not_mem_nil
      · rw [List.mem_singleton.mp h]

theorem Visit.scopes_of_mem_rehearsals (h : next ∈ visit.rehearsals structs) :
    ∃ life, visit.life? structs = some life ∧ next.Within life := by
  match visit with
  | ⟨scopes, .value (.locals range definitions body)⟩ =>
      refine ⟨_, rfl, ?_⟩
      obtain ⟨⟨inner, definition⟩, hstage, hnext⟩ := List.mem_flatMap.mp h
      have hmoves := fun scopes (definition : Definition) =>
        congrArg Judged.result (definition.makeAll_registration structs scopes).symm
      obtain ⟨before, hpre, rfl⟩ := Move.exists_of_mem_stages id hmoves hstage
      exact ⟨before, hpre.trans (List.prefix_append _ _),
        definition.scopes_of_mem_rehearsals hnext⟩

theorem TopLevel.scopes_of_mem_steps {scopes : Scopes} {form : TopLevel}
    (h : next ∈ form.steps scopes) : next.scopes = scopes := by
  cases form with
  | definition form => rw [List.mem_singleton.mp h]
  | struct form => exact absurd h List.not_mem_nil
  | value form => rw [List.mem_singleton.mp h]

theorem TopLevel.scopes_of_mem_rehearsals {scopes : Scopes} {form : TopLevel}
    (h : next ∈ form.rehearsals scopes) : next.scopes = scopes := by
  cases form with
  | definition form => exact form.scopes_of_mem_rehearsals h
  | struct form => exact absurd h List.not_mem_nil
  | value form => exact absurd h List.not_mem_nil

end

namespace Program

variable {language : Language} {program : Program} {silent : Bool} {visit : Visit} {life : Life}

theorem registered_scopes (language : Language) (program : Program) :
    (registered language program).result.scopes =
      (Move.makeAll (.root language.scope) (Move.along
        (TopLevel.registration (structNames program)) (.root language.scope) program)).result :=
  result_registrations (structNames program) ⟨.root language.scope, []⟩ program

theorem after_moves (language : Language) (program : Program) :
    (rootLife language program).after (rootLife language program).moves =
      (checkForms (structNames program) (registered language program).result.scopes
        program).result := by
  rw [Life.after, rootLife, Move.makeAll_append, Judged.result_bind, makeAll_finalizations,
    ← registered_scopes]
  rfl

/-- When all moves have been made, the root scope binds the global names. -/
theorem globals_eq (language : Language) (program : Program) :
    (check language program).globals =
      ((rootLife language program).after (rootLife language program).moves).current.globals := by
  rw [after_moves]
  rfl

theorem within_of_mem_steps (h : visit ∈ steps language program) :
    visit.Within (rootLife language program) := by
  obtain ⟨⟨scopes, form⟩, hstage, hvisit⟩ := List.mem_flatMap.mp h
  have hmoves := fun scopes (form : TopLevel) =>
    congrArg Judged.result (form.makeAll_finalization (structNames program) scopes).symm
  obtain ⟨before, hpre, rfl⟩ := Move.exists_of_mem_stages id hmoves hstage
  refine ⟨_ ++ before, (List.prefix_append_right_inj _).mpr ?_, ?_⟩
  · rwa [← registered_scopes]
  · rw [Life.after, rootLife, Move.makeAll_append, Judged.result_bind, ← registered_scopes]
    exact form.scopes_of_mem_steps hvisit

theorem within_of_mem_rehearsals (h : visit ∈ rehearsals language program) :
    visit.Within (rootLife language program) := by
  obtain ⟨⟨registered, form⟩, hstage, hvisit⟩ := List.mem_flatMap.mp h
  have hmoves := fun registered (form : TopLevel) =>
    form.result_registration (structNames program) registered
  obtain ⟨before, hpre, hfound⟩ := Move.exists_of_mem_stages Registered.scopes hmoves hstage
  have hscopes := form.scopes_of_mem_rehearsals hvisit
  exact ⟨before, hpre.trans (List.prefix_append _ _), hscopes.trans hfound⟩

/-- All visits take place in scopes that are entered while the program is checked. -/
theorem Visits.exists_life (h : Visits language program silent visit) :
    ∃ silent life, Opens language program silent life ∧ visit.Within life := by
  induction h with
  | check hmem => exact ⟨false, _, .root, within_of_mem_steps hmem⟩
  | rehearse hmem => exact ⟨false, _, .root, within_of_mem_rehearsals hmem⟩
  | @step silent visit next hvisit hnext ih =>
      rcases Visit.scopes_of_mem_steps hnext with heq | ⟨life, hlife, hwithin⟩
      · obtain ⟨outer, life, hopens, before, hpre, hscopes⟩ := ih
        exact ⟨outer, life, hopens, before, hpre, heq.trans hscopes⟩
      · exact ⟨silent, life, .inner hvisit hlife, hwithin⟩
  | @rehearseStep silent visit next hvisit hnext ih =>
      obtain ⟨life, hlife, hwithin⟩ := Visit.scopes_of_mem_rehearsals hnext
      exact ⟨silent, life, .inner hvisit hlife, hwithin⟩

/-- A property of scopes holds wherever a program is visited if it holds throughout the life of the
root scope and passes from a visit to the life of the scope that is entered there. -/
theorem Visits.invariant {P : Scopes → Prop}
    (hroot : ∀ made, made <+: (rootLife language program).moves →
      P ((rootLife language program).after made))
    (hinner : ∀ (visit : Visit) (life : Life), visit.life? (structNames program) = some life →
      P visit.scopes → ∀ made, made <+: life.moves → P (life.after made))
    (h : Visits language program silent visit) : P visit.scopes := by
  induction h with
  | check hmem =>
      obtain ⟨made, hpre, hscopes⟩ := within_of_mem_steps hmem
      exact hscopes ▸ hroot made hpre
  | rehearse hmem =>
      obtain ⟨made, hpre, hscopes⟩ := within_of_mem_rehearsals hmem
      exact hscopes ▸ hroot made hpre
  | @step silent visit next _ hnext ih =>
      rcases Visit.scopes_of_mem_steps hnext with heq | ⟨life, hlife, made, hpre, hscopes⟩
      · exact heq ▸ ih
      · exact hscopes ▸ hinner visit life hlife ih made hpre
  | @rehearseStep silent visit next _ hnext ih =>
      obtain ⟨life, hlife, made, hpre, hscopes⟩ := Visit.scopes_of_mem_rehearsals hnext
      exact hscopes ▸ hinner visit life hlife ih made hpre

/-- Whatever a visit finds about the names that it binds is among what it reports. -/
theorem Visit.sublist_reports {structs : List String} (hlife : visit.life? structs = some life) :
    life.reports.Sublist (visit.reports structs) := by
  have hparams : ∀ scopes function? body actual (params : Params),
      (Life.ofParams structs scopes params).reports.Sublist
        (params.reports structs scopes function? body actual) := by
    intro scopes function? body actual params
    rw [Life.reports, Life.ofParams, params.makeAll_moves, Params.reports, List.append_assoc]
    exact (List.sublist_append_left _ _).trans (List.sublist_append_right _ _)
  obtain ⟨scopes, value | definition⟩ := visit
  · cases value with
    | lambda range params body =>
        obtain rfl := Option.some.inj hlife
        exact hparams ..
    | locals range definitions body =>
        obtain rfl := Option.some.inj hlife
        rw [Life.reports, Life.ofDefinitions, Move.makeAll_append, Judged.diagnostics_bind,
          Definition.makeAll_finalizations, Judged.diagnostics_pure, List.append_nil,
          Definition.makeAll_registrations]
        exact List.Sublist.refl _
    | lets range kind bindings body =>
        obtain rfl := Option.some.inj hlife
        rw [Life.reports, Life.ofBindings, LetBinding.makeAll_along]
        exact List.Sublist.refl _
    | literal | name | branch | cond | require | call => cases hlife
  · cases definition with
    | function range docs name params body =>
        obtain rfl := Option.some.inj hlife
        exact (hparams ..).trans (List.sublist_append_left _ _)
    | constant => cases hlife

/-- What is found about the names of a scope is reported, unless the scope is entered by a silent
visit. -/
theorem Opens.subperm (h : Opens language program silent life) (hloud : silent = false) :
    life.reports.Subperm (check language program).diagnostics := by
  cases h with
  | root =>
      rw [Life.reports, rootLife, Move.makeAll_append, Judged.diagnostics_bind,
        makeAll_finalizations, Judged.diagnostics_pure, List.append_nil, diagnostics_eq]
      have hregister := sublist_registrations (structNames program) ⟨.root language.scope, []⟩
        program
      exact (hregister.trans (List.sublist_append_left _ _)).subperm
  | @inner _ visit _ hvisit hlife =>
      have hreports := (Visit.sublist_reports hlife).subperm
      have hparts := (visit.diagnostics_perm (structNames program)).symm.subperm
      have hvisit := hvisit.subperm hloud
      exact (hreports.trans ((List.sublist_append_left _ _).subperm.trans hparts)).trans hvisit

end Program

end TypedIsl

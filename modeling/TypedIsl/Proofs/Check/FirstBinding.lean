import Mathlib.Data.List.Induction
import TypedIsl.Language.Minimal
import TypedIsl.Proofs.Check.FinalTypes
import TypedIsl.Proofs.Check.Lives
import TypedIsl.Source.Parse

/-!
# The first binding of a name

In every scope the first binding of a name stays, and only the definition that has made it can
change its type. All later attempts to bind the name are reported and point to the first one.
-/

namespace TypedIsl

/-- The later binding of a name is the earlier one, with the type that one of the moves has given to
the definition that stands there, if any has. -/
structure Binding.KeptBy (moves : List Move) (name : String) (earlier later : Binding) : Prop where
  definedAt : later.definedAt? = earlier.definedAt?
  type : later.type = earlier.type ∨ ∃ definition, Move.finalize definition later.type ∈ moves ∧
    definition.name.name = name ∧ earlier.definedAt? = some definition.name.range

namespace Life

/-- Where a name is bound when the given moves have been attempted, if it is bound: at the start, or
by the first move that attempts to bind it. Builtins are bound nowhere in the source. -/
def firstBound? (life : Life) (made : List Move) (name : String) : Option (Option Range) :=
  ((life.start.local? name).map (·.definedAt?)).or
    (((made.filterMap Move.binder?).find? (·.name = name)).map fun ident => some ident.range)

/-- The diagnostic for an attempt to bind a name that is bound already, with a note at the first
binding unless that is a builtin. -/
def clash? (life : Life) (made : List Move) : Move → Option Diagnostic
  | .bind name _ locally =>
      (life.firstBound? made name.name).map fun first? => ⟨name.taken locally, name.range,
        first?.toList.map fun range => ⟨"first defined here", range⟩⟩
  | .finalize _ _ => none

def clashes (life : Life) : List Diagnostic :=
  (stages (fun made move => made ++ [move]) [] life.moves).filterMap fun (made, move) =>
    life.clash? made move

/-- The names that moves attempt to bind. -/
def binders (life : Life) : List String :=
  (life.moves.filterMap Move.binder?).map (·.name)

end Life

/-! ## One move -/

section

variable {scopes : Scopes} {ident : Ident} {type : Ty} {name : String} {binding : Binding}

theorem Scopes.bindNew_of_isSome {problem : Problem} (h : scopes.local? ident.name = some binding) :
    scopes.bindNew ident type problem = ⟨scopes, [⟨problem, ident.range,
      binding.definedAt?.toList.map fun range => ⟨"first defined here", range⟩⟩]⟩ := by
  rw [bindNew, conflict?, h]
  rfl

namespace Move

theorem outer_make (move : Move) (scopes : Scopes) :
    (move.make scopes).result.outer = scopes.outer := by
  cases move with
  | bind ident type locally =>
      cases hlocal : scopes.local? ident.name with
      | some binding => rw [make, Scopes.bindNew_of_isSome hlocal]
      | none =>
          rw [make, Scopes.bindNew_of_local? hlocal]
          rfl
  | finalize definition type =>
      rw [make, Judged.result_pure, Scopes.finalize]
      split <;> rfl

theorem outer_makeAll (moves : List Move) (scopes : Scopes) :
    (makeAll scopes moves).result.outer = scopes.outer := by
  induction moves generalizing scopes with
  | nil => rfl
  | cons move moves ih => exact (ih _).trans (move.outer_make scopes)

theorem kept_make (move : Move) (h : scopes.local? name = some binding) :
    ∃ later, (move.make scopes).result.local? name = some later ∧
      binding.KeptBy [move] name later := by
  cases move with
  | bind ident type locally =>
      refine ⟨binding, ?_, rfl, .inl rfl⟩
      cases hlocal : scopes.local? ident.name with
      | some found => rw [make, Scopes.bindNew_of_isSome hlocal, h]
      | none =>
          have hne : ident.name ≠ name := fun heq => by
            rw [← heq, hlocal] at h
            cases h
          rw [make, Scopes.bindNew_of_local? hlocal, Judged.result_pure, Scopes.local?_bind,
            if_neg hne, h]
  | finalize definition type =>
      rw [make, Judged.result_pure, Scopes.finalize]
      by_cases hname : definition.name.name = name
      · subst hname
        rw [h, Option.any_some]
        split
        · rename_i hrange
          have hrange : binding.definedAt? = some definition.name.range := of_decide_eq_true hrange
          refine ⟨_, (Scopes.local?_bind _ _ _ _).trans (if_pos rfl), hrange.symm, .inr ?_⟩
          exact ⟨definition, List.mem_singleton_self _, rfl, hrange⟩
        · exact ⟨binding, h, rfl, .inl rfl⟩
      · refine ⟨binding, ?_, rfl, .inl rfl⟩
        split
        · rw [Scopes.local?_bind, if_neg hname, h]
        · exact h

theorem kept_makeAll (moves : List Move) (h : scopes.local? name = some binding) :
    ∃ later, (makeAll scopes moves).result.local? name = some later ∧
      binding.KeptBy moves name later := by
  induction moves generalizing scopes binding with
  | nil => exact ⟨binding, h, rfl, .inl rfl⟩
  | cons move moves ih =>
      obtain ⟨next, hnext, hmove⟩ := move.kept_make h
      obtain ⟨later, hlater, hmoves⟩ := ih hnext
      refine ⟨later, hlater, hmoves.definedAt.trans hmove.definedAt, ?_⟩
      rcases hmoves.type with htype | ⟨definition, hmem, hname, hrange⟩
      · rcases hmove.type with hfirst | ⟨definition, hmem, hname, hrange⟩
        · exact .inl (htype.trans hfirst)
        · rw [htype]
          exact .inr ⟨definition, List.mem_cons.mpr (.inl (List.mem_singleton.mp hmem)), hname,
            hrange⟩
      · exact .inr ⟨definition, List.mem_cons_of_mem _ hmem, hname, hmove.definedAt ▸ hrange⟩

/-- A name that is free becomes bound by a move that binds it, and by no other. -/
theorem local?_make (move : Move) (h : scopes.local? name = none) :
    ((move.make scopes).result.local? name).map (·.definedAt?) =
      (move.binder?.toList.find? (·.name = name)).map fun ident => some ident.range := by
  cases move with
  | bind ident type locally =>
      by_cases hname : ident.name = name
      · subst hname
        rw [make, Scopes.bindNew_of_local? h]
        simp [Scopes.local?_bind, binder?]
      · rw [make, (scopes.binds_bindNew ident type _).local?_eq (by simpa using Ne.symm hname), h]
        simp [binder?, hname]
  | finalize definition type =>
      rw [make, Judged.result_pure, Scopes.finalize]
      split
      · rename_i hbound
        have hne : definition.name.name ≠ name := fun heq => by simp [heq, h] at hbound
        rw [Scopes.local?_bind, if_neg hne, h]
        rfl
      · rw [h]
        rfl

end Move

end

/-! ## All moves -/

namespace Life

variable (life : Life)

theorem after_append (made more : List Move) :
    life.after (made ++ more) = (Move.makeAll (life.after made) more).result := by
  rw [after, Move.makeAll_append]
  rfl

theorem outer_after (made : List Move) : (life.after made).outer = life.start.outer :=
  Move.outer_makeAll made life.start

theorem after_firstBound? (made : List Move) (name : String) :
    ((life.after made).local? name).map (·.definedAt?) = life.firstBound? made name := by
  obtain ⟨start, moves⟩ := life
  induction made generalizing start with
  | nil => exact Option.or_none.symm
  | cons move made ih =>
      refine (ih (move.make start).result).trans ?_
      cases hlocal : start.local? name with
      | some binding =>
          obtain ⟨next, hnext, hkept⟩ := move.kept_make hlocal
          simp [firstBound?, hlocal, hnext, hkept.definedAt]
      | none =>
          have hmake := move.local?_make hlocal
          have hbinders : (move :: made).filterMap Move.binder? =
              move.binder?.toList ++ made.filterMap Move.binder? := by
            cases hbinder : move.binder? <;> simp [hbinder]
          rw [firstBound?, firstBound?, hlocal, hmake, hbinders, List.find?_append, Option.map_or]
          rfl

theorem diagnostics_make (made : List Move) (move : Move) :
    (move.make (life.after made)).diagnostics = (life.clash? made move).toList := by
  cases move with
  | finalize definition type => rfl
  | bind name type locally =>
      rw [clash?, ← after_firstBound?, Move.make]
      cases hlocal : (life.after made).local? name.name with
      | none =>
          rw [Scopes.bindNew_of_local? hlocal]
          rfl
      | some binding =>
          rw [Scopes.bindNew_of_isSome hlocal]
          rfl

/-- Exactly the clashes are reported. -/
theorem reports_eq : life.reports = life.clashes := by
  have hfrom : ∀ moves made, (Move.makeAll (life.after made) moves).diagnostics =
      (stages (fun made move => made ++ [move]) made moves).filterMap fun (made, move) =>
        life.clash? made move := by
    intro moves
    induction moves with
    | nil => exact fun _ => rfl
    | cons move moves ih =>
        intro made
        have hafter : (move.make (life.after made)).result = life.after (made ++ [move]) := by
          rw [after_append, Move.makeAll_singleton]
        rw [Move.makeAll, Judged.diagnostics_bind, diagnostics_make, hafter, ih, stages,
          List.filterMap_cons]
        cases hclash : life.clash? made move <;> simp [hclash]
  exact hfrom life.moves []

end Life

/-! ## The root scope -/

/-- The current scope has the builtins first, as they are in the language, and then the given names,
each of them once and bound in the source. -/
structure Scopes.Adds (language : Language) (names : List String) (scopes : Scopes) : Prop where
  nodup : names.Nodup
  entries : ∃ added : List (String × Binding),
    scopes.current.entries = language.scope.entries ++ added ∧
      added.map Prod.fst = names ∧ ∀ entry ∈ added, entry.2.definedAt?.isSome

section

variable {language : Language} {names : List String} {scopes : Scopes}

theorem Language.names_scope (language : Language) : language.scope.names = language.names := by
  simp [Language.scope, Table.names]

namespace Scopes.Adds

theorem names_eq (h : scopes.Adds language names) :
    scopes.current.names = language.names ++ names := by
  obtain ⟨-, added, hentries, rfl, -⟩ := h
  rw [Table.names, hentries, List.map_append, ← language.names_scope]
  rfl

theorem local?_isSome_iff (h : scopes.Adds language names) {name : String} :
    (scopes.local? name).isSome ↔ name ∈ language.names ∨ name ∈ names := by
  rw [local?, Table.get?_isSome_iff, h.names_eq, List.mem_append]

theorem globals_eq (h : scopes.Adds language names) :
    scopes.current.globals.map Prod.fst = names := by
  obtain ⟨-, added, hentries, rfl, hadded⟩ := h
  have hbuiltins : language.scope.globals = [] := by
    simp [Scope.globals, Language.scope, List.filterMap_map]
  have hall : Scope.globals ⟨added⟩ = added.map fun entry => (entry.1, entry.2.type) := by
    rw [Scope.globals, ← List.filterMap_eq_map]
    exact List.filterMap_congr fun entry hentry => if_pos (hadded entry hentry)
  have hscope : scopes.current.globals = language.scope.globals ++ Scope.globals ⟨added⟩ := by
    rw [Scope.globals, hentries, List.filterMap_append]
    rfl
  rw [hscope, hbuiltins, hall, List.nil_append, List.map_map]
  rfl

theorem bind (h : scopes.Adds language names) {ident : Ident}
    (hfree : scopes.local? ident.name = none) (type : Ty) :
    (scopes.bind ident type).Adds language (names ++ [ident.name]) := by
  have hnot : ident.name ∉ names := fun hmem => by
    have hbound := h.local?_isSome_iff.mpr (.inr hmem)
    rw [hfree] at hbound
    cases hbound
  obtain ⟨hnodup, added, hentries, rfl, hadded⟩ := h
  rw [local?, Table.get?_eq_lookup] at hfree
  refine ⟨?_, added ++ [(ident.name, ⟨type, some ident.range⟩)], ?_, ?_, ?_⟩
  · exact List.nodup_append.mpr ⟨hnodup, by simp, fun name hname other hother =>
      ne_of_mem_of_not_mem hname (List.mem_singleton.mp hother ▸ hnot)⟩
  · rw [Scopes.bind, set, Table.put, Table.putEntry_of_lookup_none hfree, hentries,
      List.append_assoc]
  · simp
  · exact List.forall_mem_append.mpr ⟨hadded, List.forall_mem_singleton.mpr rfl⟩

theorem finalize (h : scopes.Adds language names) (ident : Ident) (type : Ty) :
    (scopes.finalize ident type).Adds language names := by
  rw [Scopes.finalize]
  split
  · rename_i hbound
    obtain ⟨hnodup, added, hentries, rfl, hadded⟩ := h
    obtain ⟨binding, hlocal, hrange⟩ := (Option.any_eq_true _ _).mp hbound
    rw [local?, Table.get?_eq_lookup, hentries, List.lookup_append] at hlocal
    -- The binding is none of the builtins, as those are bound nowhere.
    have hbuiltin : language.scope.entries.lookup ident.name = none := by
      rw [← Table.get?_eq_lookup, Language.get?_scope] at hlocal ⊢
      cases hget : language.get? ident.name with
      | none => rfl
      | some builtin =>
          rw [hget, Option.map_some, Option.some_or, Option.some.injEq] at hlocal
          subst hlocal
          cases hrange
    rw [hbuiltin, Option.none_or] at hlocal
    refine ⟨hnodup, Table.putEntry ident.name ⟨type, some ident.range⟩ added, ?_, ?_, ?_⟩
    · rw [Scopes.bind, set, Table.put, hentries, Table.putEntry_append hbuiltin]
    · have hget : (Table.get? ⟨added⟩ ident.name).isSome := by
        rw [Table.get?_eq_lookup, hlocal]
        rfl
      exact Table.names_put hget _
    · intro entry hentry
      rcases Table.mem_putEntry hentry with hmem | rfl
      · exact hadded entry hmem
      · rfl
  · exact h

end Scopes.Adds

end

/-- Names that are no builtins, each of them once, in the order in which they first occur. -/
def Language.newNames (language : Language) (names : List String) : List String :=
  (names.filter (· ∉ language.names)).eraseDups

theorem Language.newNames_append (language : Language) (names : List String) (name : String) :
    language.newNames (names ++ [name]) =
      if name ∈ language.names ∨ name ∈ language.newNames names then language.newNames names
      else language.newNames names ++ [name] := by
  by_cases hbuiltin : name ∈ language.names
  · simp [newNames, hbuiltin]
  · by_cases hmem : name ∈ names <;>
      simp [newNames, hbuiltin, hmem, List.eraseDups_append, List.eraseDups_cons, List.removeAll]

theorem Life.adds_after {language : Language} (life : Life)
    (hstart : life.start = .root language.scope) (made : List Move) :
    (life.after made).Adds language
      (language.newNames ((made.filterMap Move.binder?).map (·.name))) := by
  induction made using List.reverseRecOn with
  | nil =>
      rw [after, hstart]
      exact ⟨List.nodup_nil, [], (List.append_nil _).symm, rfl, fun _ => by simp⟩
  | append_singleton made move ih =>
      rw [after_append, Move.makeAll_singleton, List.filterMap_append, List.map_append]
      cases move with
      | finalize definition type =>
          have hbinders : [Move.finalize definition type].filterMap Move.binder? = [] := rfl
          rw [hbinders, List.map_nil, List.append_nil]
          exact ih.finalize definition.name type
      | bind ident type locally =>
          have hbinders : [Move.bind ident type locally].filterMap Move.binder? = [ident] := rfl
          have hbound : ((life.after made).local? ident.name).isSome ↔ _ := ih.local?_isSome_iff
          rw [hbinders, List.map_singleton, language.newNames_append, Move.make]
          cases hlocal : (life.after made).local? ident.name with
          | some binding =>
              rw [hlocal] at hbound
              rw [Scopes.bindNew_of_isSome hlocal, if_pos (hbound.mp rfl)]
              exact ih
          | none =>
              rw [hlocal] at hbound
              rw [Scopes.bindNew_of_local? hlocal, if_neg (mt hbound.mpr Bool.false_ne_true)]
              exact ih.bind hlocal type

/-! ## Programs -/

namespace Program

/-- In every scope that is entered while a program is checked, a name stays bound where it was bound
first, and its type changes only when the definition that stands there is given its final type. All
later attempts to bind the name are found, one diagnostic for each, and reported unless the scope
belongs to a silent visit. Builtins stay what they are. The global names are those that the root
scope binds besides, each of them once, in the order in which they were bound. -/
theorem first_binding (language : Language) (program : Program) :
    (∀ silent life, Opens language program silent life →
      life.reports = life.clashes ∧
      (silent = false → life.reports.Subperm (check language program).diagnostics) ∧
      ∀ made, made <+: life.moves →
        (life.after made).outer = life.start.outer ∧
        (∀ name,
          ((life.after made).local? name).map (·.definedAt?) = life.firstBound? made name) ∧
        ∀ more, made ++ more <+: life.moves → ∀ name binding,
          (life.after made).local? name = some binding →
          ∃ later, (life.after (made ++ more)).local? name = some later ∧
            binding.KeptBy more name later) ∧
    (∀ silent visit, Visits language program silent visit →
      ∃ silent life, Opens language program silent life ∧ visit.Within life) ∧
    (∀ made, made <+: (rootLife language program).moves →
      ∀ name type, language.get? name = some type →
        ((rootLife language program).after made).local? name = some ⟨type, none⟩) ∧
    (check language program).globals.map Prod.fst =
      language.newNames (rootLife language program).binders ∧
    ((check language program).globals.map Prod.fst).Nodup := by
  have hadds := (rootLife language program).adds_after rfl (rootLife language program).moves
  refine ⟨?_, ?_, ?_, ?_, ?_⟩
  · intro silent life hopens
    refine ⟨life.reports_eq, hopens.subperm, fun made _ => ⟨life.outer_after made, ?_, ?_⟩⟩
    · exact life.after_firstBound? made
    · intro more _ name binding hbinding
      rw [life.after_append]
      exact Move.kept_makeAll more hbinding
  · exact fun silent visit hvisit => hvisit.exists_life
  · intro made _ name type htype
    have hstart : (rootLife language program).start.local? name = some ⟨type, none⟩ :=
      (Scopes.extends_root language).builtin name type htype
    obtain ⟨⟨laterType, definedAt?⟩, hlater, hdefined, hkept⟩ := Move.kept_makeAll made hstart
    obtain rfl : definedAt? = none := hdefined
    rcases hkept with rfl | ⟨definition, -, -, hrange⟩
    · exact hlater
    · cases hrange
  · rw [globals_eq]
    exact hadds.globals_eq
  · rw [globals_eq, hadds.globals_eq]
    exact hadds.nodup

/-- The name of a constant is that of an accessor, which stands where the struct does. -/
theorem first_binding_accessor :
    ∃ program, programOfSource "(define-struct s (f)) (define s-f 1)" = .ok program ∧
      (check .minimal program).globals.map Prod.fst = ["s", "s?", "make-s", "s-f"] ∧
      (rootLife .minimal program).clashes =
        [⟨.alreadyDefined "s-f", .inLine 31 34, [⟨"first defined here", .inLine 16 17⟩]⟩] ∧
      (rootLife .minimal program).clashes.Subperm (check .minimal program).diagnostics := by
  have hclashes : ∀ program, (rootLife .minimal program).clashes.Subperm
      (check .minimal program).diagnostics := by
    intro program
    obtain ⟨hlives, -⟩ := first_binding .minimal program
    obtain ⟨hreports, hreported, -⟩ := hlives false _ .root
    exact hreports ▸ hreported rfl
  exact ⟨_, rfl, by decide +kernel, by decide +kernel, hclashes _⟩

end Program

end TypedIsl

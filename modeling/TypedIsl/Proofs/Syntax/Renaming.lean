import TypedIsl.Syntax.Basic

/-!
# Trees with names replaced

A renaming replaces the free occurrences of names and leaves binders alone: below a binder it
keeps the names that are bound there. Type names and libraries are not renamed.
-/

namespace TypedIsl

/-! ## Functions on names -/

/-- The function that keeps the given names and is `f` on all others. -/
def except (names : List String) (f : String → String) (name : String) : String :=
  if name ∈ names then name else f name

/-- The function that replaces `x` by `z`. -/
def replacing (x z name : String) : String :=
  if name = x then z else name

section

variable {names : List String} {f : String → String} {name x : String}

theorem except_of_mem (h : name ∈ names) : except names f name = name :=
  if_pos h

theorem except_of_not_mem (h : name ∉ names) : except names f name = f name :=
  if_neg h

@[simp] theorem except_nil (f : String → String) : except [] f = f := by
  funext name
  exact except_of_not_mem List.not_mem_nil

@[simp] theorem except_id (names : List String) : except names id = id := by
  funext name
  by_cases hname : name ∈ names
  · exact except_of_mem hname
  · exact except_of_not_mem hname

theorem except_cons (name : String) (names : List String) (f : String → String) :
    except (name :: names) f = except names (except [name] f) := by
  funext other
  by_cases hother : other ∈ names
  · rw [except_of_mem hother, except_of_mem (List.mem_cons_of_mem _ hother)]
  · by_cases heq : other = name
    · subst heq
      rw [except_of_mem List.mem_cons_self, except_of_not_mem hother,
        except_of_mem List.mem_cons_self]
    · rw [except_of_not_mem hother, except_of_not_mem (by simp [heq, hother]),
        except_of_not_mem (by simp [heq])]

theorem except_replacing (h : x ∉ names) (z : String) :
    except names (replacing x z) = replacing x z := by
  funext name
  by_cases hname : name ∈ names
  · have hne : name ≠ x := fun heq => h (heq ▸ hname)
    rw [except_of_mem hname, replacing, if_neg hne]
  · exact except_of_not_mem hname

end

/-! ## Bound names -/

def Params.bound (params : Params) : List String :=
  params.names.map (·.name)

theorem Params.bound_typed (range : Range) (params : List TypedParam)
    (result? : Option TypeExpr) :
    (Params.typed range params result?).bound = params.map (·.name.name) :=
  List.map_map

def Definition.bound (definitions : List Definition) : List String :=
  definitions.map (·.name.name)

def LetBinding.bound (bindings : List LetBinding) : List String :=
  bindings.map (·.name.name)

theorem LetBinding.bound_append (bindings others : List LetBinding) :
    LetBinding.bound (bindings ++ others) = LetBinding.bound bindings ++ LetBinding.bound others :=
  List.map_append

/-! ## Renaming -/

def Ident.rename (f : String → String) (ident : Ident) : Ident :=
  ⟨f ident.name, ident.range⟩

def TypedParam.rename (f : String → String) (param : TypedParam) : TypedParam :=
  ⟨param.name.rename f, param.type⟩

/-- Renames the parameters themselves. -/
def Params.rename (f : String → String) : Params → Params
  | typed range params result? => .typed range (params.map (·.rename f)) result?
  | untyped range names => .untyped range (names.map (·.rename f))

mutual

def Value.rename (f : String → String) : Value → Value
  | .literal range value => .literal range value
  | .name ident => .name (ident.rename f)
  | .branch range condition thenArm elseArm =>
      .branch range (condition.rename f) (thenArm.rename f) (elseArm.rename f)
  | .cond range clauses none => .cond range (Clause.renameAll f clauses) none
  | .cond range clauses (some value) =>
      .cond range (Clause.renameAll f clauses) (some (value.rename f))
  | .lambda range params body => .lambda range params (body.rename (except params.bound f))
  | .locals range definitions body =>
      .locals range
        (Definition.renameAll (except (Definition.bound definitions) f) definitions)
        (body.rename (except (Definition.bound definitions) f))
  | .lets range kind bindings body =>
      .lets range kind (LetBinding.renameAll f bindings)
        (body.rename (except (LetBinding.bound bindings) f))
  | .require range library => .require range library
  | .call range callee args => .call range (callee.rename f) (Value.renameAll f args)

def Value.renameAll (f : String → String) : List Value → List Value
  | [] => []
  | value :: values => value.rename f :: Value.renameAll f values

def Clause.rename (f : String → String) : Clause → Clause
  | .mk range condition body => .mk range (condition.rename f) (body.rename f)

def Clause.renameAll (f : String → String) : List Clause → List Clause
  | [] => []
  | clause :: clauses => clause.rename f :: Clause.renameAll f clauses

/-- A binding is in scope of the later ones only. -/
def LetBinding.renameAll (f : String → String) : List LetBinding → List LetBinding
  | [] => []
  | .mk range name value :: bindings =>
      .mk range name (value.rename f) :: LetBinding.renameAll (except [name.name] f) bindings

/-- Renames the name of the definition as well. -/
def Definition.rename (f : String → String) : Definition → Definition
  | .function range docs name params body =>
      .function range docs (name.rename f) params (body.rename (except params.bound f))
  | .constant range docs name value => .constant range docs (name.rename f) (value.rename f)

def Definition.renameAll (f : String → String) : List Definition → List Definition
  | [] => []
  | definition :: definitions => definition.rename f :: Definition.renameAll f definitions

end

section

variable (f : String → String)

@[simp] theorem Ident.rename_name (ident : Ident) : (ident.rename f).name = f ident.name := rfl

@[simp] theorem Ident.rename_range (ident : Ident) : (ident.rename f).range = ident.range := rfl

@[simp] theorem Ident.rename_id (ident : Ident) : ident.rename id = ident := rfl

@[simp] theorem TypedParam.rename_name (param : TypedParam) :
    (param.rename f).name = param.name.rename f := rfl

@[simp] theorem TypedParam.rename_type (param : TypedParam) :
    (param.rename f).type = param.type := rfl

@[simp] theorem Value.rename_range (value : Value) : (value.rename f).range = value.range := by
  match value with
  | .cond _ _ none => rfl
  | .cond _ _ (some _) => rfl
  | .literal _ _ | .name _ | .branch _ _ _ _ | .lambda _ _ _ | .locals _ _ _ | .lets _ _ _ _
  | .require _ _ | .call _ _ _ => rfl

@[simp] theorem Definition.rename_name (definition : Definition) :
    (definition.rename f).name = definition.name.rename f := by
  cases definition <;> rfl

theorem Value.renameAll_eq (values : List Value) :
    Value.renameAll f values = values.map (Value.rename f) := by
  induction values with
  | nil => rfl
  | cons value values ih => simp [Value.renameAll, ih]

end

/-- Parameters are kept by a function that keeps their names. -/
theorem Params.rename_except (params : Params) (f : String → String) :
    params.rename (except params.bound f) = params := by
  cases params with
  | untyped range names =>
      have hnames : names.map (·.rename (except (bound (.untyped range names)) f)) = names := by
        refine (List.map_congr_left fun name hname => ?_).trans (List.map_id names)
        have hbound : name.name ∈ bound (.untyped range names) := List.mem_map_of_mem hname
        rw [Ident.rename, except_of_mem hbound, id]
      rw [Params.rename, hnames]
  | typed range params result? =>
      have hparams :
          params.map (·.rename (except (bound (.typed range params result?)) f)) = params := by
        refine (List.map_congr_left fun param hparam => ?_).trans (List.map_id params)
        have hbound : param.name.name ∈ bound (.typed range params result?) :=
          List.mem_map_of_mem (List.mem_map_of_mem hparam)
        rw [TypedParam.rename, Ident.rename, except_of_mem hbound, id]
      rw [Params.rename, hparams]

/-! ## Keeping all names -/

@[simp] theorem Params.rename_id (params : Params) : params.rename id = params := by
  have hkept := params.rename_except id
  rwa [except_id] at hkept

mutual

@[simp] theorem Value.rename_id (value : Value) : value.rename id = value := by
  match value with
  | .literal _ _ => rfl
  | .name _ => rfl
  | .branch _ condition thenArm elseArm =>
      rw [Value.rename, condition.rename_id, thenArm.rename_id, elseArm.rename_id]
  | .cond _ clauses none => rw [Value.rename, Clause.renameAll_id clauses]
  | .cond _ clauses (some value) =>
      rw [Value.rename, Clause.renameAll_id clauses, value.rename_id]
  | .lambda _ params body => rw [Value.rename, except_id, body.rename_id]
  | .locals _ definitions body =>
      rw [Value.rename, except_id, Definition.renameAll_id definitions, body.rename_id]
  | .lets _ _ bindings body =>
      rw [Value.rename, except_id, LetBinding.renameAll_id bindings, body.rename_id]
  | .require _ _ => rfl
  | .call _ callee args => rw [Value.rename, callee.rename_id, Value.renameAll_id args]

@[simp] theorem Value.renameAll_id (values : List Value) : Value.renameAll id values = values := by
  match values with
  | [] => rfl
  | value :: values => rw [Value.renameAll, value.rename_id, Value.renameAll_id values]

@[simp] theorem Clause.rename_id (clause : Clause) : clause.rename id = clause := by
  match clause with
  | .mk _ condition body => rw [Clause.rename, condition.rename_id, body.rename_id]

@[simp] theorem Clause.renameAll_id (clauses : List Clause) :
    Clause.renameAll id clauses = clauses := by
  match clauses with
  | [] => rfl
  | clause :: clauses => rw [Clause.renameAll, clause.rename_id, Clause.renameAll_id clauses]

@[simp] theorem LetBinding.renameAll_id (bindings : List LetBinding) :
    LetBinding.renameAll id bindings = bindings := by
  match bindings with
  | [] => rfl
  | .mk _ name value :: bindings =>
      rw [LetBinding.renameAll, except_id, value.rename_id, LetBinding.renameAll_id bindings]

@[simp] theorem Definition.rename_id (definition : Definition) :
    definition.rename id = definition := by
  match definition with
  | .function _ _ _ params body =>
      rw [Definition.rename, except_id, body.rename_id, Ident.rename_id]
  | .constant _ _ _ value => rw [Definition.rename, value.rename_id, Ident.rename_id]

@[simp] theorem Definition.renameAll_id (definitions : List Definition) :
    Definition.renameAll id definitions = definitions := by
  match definitions with
  | [] => rfl
  | definition :: definitions =>
      rw [Definition.renameAll, definition.rename_id, Definition.renameAll_id definitions]

end

end TypedIsl

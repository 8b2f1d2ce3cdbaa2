import TypedIsl.Proofs.Syntax.NodeTokens

/-!
# Every spelled-out tree is read

Tokens that say what a proper tree without docstrings says are read, and what is read is that tree
up to positions.
-/

namespace TypedIsl

/-- No docstrings at all. -/
def noDocs (_ : String) : Prop := False

/-! ## Trees without docstrings -/

mutual

theorem Value.edit_bare {value : Value} (h : value.Proper noDocs) :
    value.edit .bare = value.edit .positions := by
  match value with
  | .literal .. | .name .. | .require .. => rfl
  | .branch .. =>
      simp [Value.edit, Value.edit_bare h.1, Value.edit_bare h.2.1, Value.edit_bare h.2.2]
  | .cond _ _ none => simp [Value.edit, Clause.editAll_bare h.2]
  | .cond _ _ (some _) => simp [Value.edit, Clause.editAll_bare h.2.1, Value.edit_bare h.2.2]
  | .lambda .. => simp [Value.edit, Value.edit_bare h.2]
  | .locals .. => simp [Value.edit, Definition.editAll_bare h.1, Value.edit_bare h.2]
  | .lets .. => simp [Value.edit, LetBinding.editAll_bare h.1, Value.edit_bare h.2]
  | .call .. => simp [Value.edit, Value.edit_bare h.1, Value.editAll_bare h.2]
termination_by structural value

theorem Value.editAll_bare {values : List Value} (h : Value.AllProper noDocs values) :
    Value.editAll .bare values = Value.editAll .positions values := by
  match values with
  | [] => rfl
  | _ :: _ => simp [Value.editAll, Value.edit_bare h.1, Value.editAll_bare h.2]
termination_by structural values

theorem Clause.edit_bare {clause : Clause} (h : clause.Proper noDocs) :
    clause.edit .bare = clause.edit .positions := by
  match clause with
  | .mk .. => simp [Clause.edit, Value.edit_bare h.1, Value.edit_bare h.2]
termination_by structural clause

theorem Clause.editAll_bare {clauses : List Clause} (h : Clause.AllProper noDocs clauses) :
    Clause.editAll .bare clauses = Clause.editAll .positions clauses := by
  match clauses with
  | [] => rfl
  | _ :: _ => simp [Clause.editAll, Clause.edit_bare h.1, Clause.editAll_bare h.2]
termination_by structural clauses

theorem LetBinding.edit_bare {binding : LetBinding} (h : binding.Proper noDocs) :
    binding.edit .bare = binding.edit .positions := by
  match binding with
  | .mk _ _ value =>
      have hvalue : value.Proper noDocs := h
      simp [LetBinding.edit, Value.edit_bare hvalue]
termination_by structural binding

theorem LetBinding.editAll_bare {bindings : List LetBinding}
    (h : LetBinding.AllProper noDocs bindings) :
    LetBinding.editAll .bare bindings = LetBinding.editAll .positions bindings := by
  match bindings with
  | [] => rfl
  | _ :: _ => simp [LetBinding.editAll, LetBinding.edit_bare h.1, LetBinding.editAll_bare h.2]
termination_by structural bindings

theorem Definition.edit_bare {definition : Definition} (h : definition.Proper noDocs) :
    definition.edit .bare = definition.edit .positions := by
  match definition with
  | .function _ docs .. =>
      have hdocs : docs = [] := List.eq_nil_iff_forall_not_mem.mpr h.1
      simp [Definition.edit, hdocs, Value.edit_bare h.2.2]
  | .constant _ docs .. =>
      have hdocs : docs = [] := List.eq_nil_iff_forall_not_mem.mpr h.1
      simp [Definition.edit, hdocs, Value.edit_bare h.2]
termination_by structural definition

theorem Definition.editAll_bare {definitions : List Definition}
    (h : Definition.AllProper noDocs definitions) :
    Definition.editAll .bare definitions = Definition.editAll .positions definitions := by
  match definitions with
  | [] => rfl
  | _ :: _ => simp [Definition.editAll, Definition.edit_bare h.1, Definition.editAll_bare h.2]
termination_by structural definitions

end

theorem TopLevel.edit_bare {form : TopLevel} (h : form.Proper noDocs) :
    form.edit .bare = form.edit .positions := by
  cases form with
  | definition form => exact congrArg TopLevel.definition (Definition.edit_bare h)
  | struct form =>
      have hdocs : form.docs = [] := List.eq_nil_iff_forall_not_mem.mpr h.1
      simp [TopLevel.edit, StructDefinition.edit, hdocs]
  | value form => exact congrArg TopLevel.value (Value.edit_bare h)

theorem Program.edit_bare {program : Program} (h : Program.Proper noDocs program) :
    Program.edit .bare program = Program.unranged program :=
  List.map_congr_left fun form hform => TopLevel.edit_bare (h form hform)

/-! ## Tokens without docstrings -/

section Reading

variable {tokens : List Token} (ht : ∀ token ∈ tokens, token.kind.isDocstring = false)

include ht

theorem spokenKinds_eq_map : spokenKinds tokens = tokens.map (·.kind) := by
  rw [spokenKinds, List.filter_eq_self]
  intro kind hkind
  obtain ⟨token, htoken, rfl⟩ := List.mem_map.mp hkind
  simp [ht token htoken]

theorem docsSatisfy_noDocs : DocsSatisfy noDocs tokens := by
  intro token htoken text hkind
  have hspoken := ht token htoken
  rw [hkind] at hspoken
  exact absurd hspoken (by simp [TokenKind.isDocstring])

end Reading

/-- Tokens that say something, as if each came alone. -/
theorem said_alone (tokens : List Token) :
    said (tokens.map fun token => ⟨token, 0, []⟩) = tokens.map (·.kind) := by
  rw [said, List.map_map]
  rfl

section

variable {doc : String → Prop} {tokens : List Token}

theorem Program.spoken_of_kinds {program : Program} (hp : Program.Proper doc program)
    (ht : tokens.map (·.kind) = Program.kinds program) :
    ∀ token ∈ tokens, token.kind.isDocstring = false := by
  obtain ⟨read, hread, -, hcovers⟩ := Program.exists_covers hp ((said_alone tokens).trans ht)
  intro token htoken
  exact hcovers.spoken (Program.proper_parts hread) _ (List.mem_map_of_mem htoken)

theorem Value.spoken_of_kinds {value : Value} (hv : value.Proper doc)
    (ht : tokens.map (·.kind) = value.kinds) :
    ∀ token ∈ tokens, token.kind.isDocstring = false := by
  obtain ⟨read, hread, -, hcovers⟩ := Value.exists_covers value hv ((said_alone tokens).trans ht)
  intro token htoken
  exact hcovers.spoken (Value.proper_parts hread) _ (List.mem_map_of_mem htoken)

theorem said_arrivals (ht : ∀ token ∈ tokens, token.kind.isDocstring = false) :
    said (arrivals 0 [] tokens) = tokens.map (·.kind) :=
  (map_kind_arrivals 0 [] tokens).trans (spokenKinds_eq_map ht)

/-- Tokens of a proper program without docstrings are read as that program. -/
theorem parseProgram_of_kinds {program : Program} (hp : Program.Proper noDocs program)
    (ht : tokens.map (·.kind) = Program.kinds program) :
    ∃ read, parseProgram tokens = .ok read ∧ Program.unranged read = Program.unranged program := by
  have hspoken := Program.spoken_of_kinds hp ht
  obtain ⟨read, hread, hsame, hcovers⟩ :=
    Program.exists_covers hp ((said_arrivals hspoken).trans ht)
  have hparse := parseProgram_of_covers hread hcovers
  obtain ⟨-, hproper⟩ := parseProgram_spec hparse (docsSatisfy_noDocs hspoken)
  refine ⟨read, hparse, ?_⟩
  rw [← Program.edit_bare hproper, hsame, Program.edit_bare hp]

/-- Tokens of a proper value without docstrings are read as that value. -/
theorem parseValue_of_kinds {value : Value} (hv : value.Proper noDocs)
    (ht : tokens.map (·.kind) = value.kinds) :
    ∃ read, parseValue tokens = .ok read ∧ Value.unranged read = value.unranged := by
  have hspoken := Value.spoken_of_kinds hv ht
  obtain ⟨read, hread, hsame, hcovers⟩ :=
    Value.exists_covers value hv ((said_arrivals hspoken).trans ht)
  have hparse := parseValue_of_covers hread hcovers
  obtain ⟨-, hproper⟩ := parseValue_spec hparse (docsSatisfy_noDocs hspoken)
  refine ⟨read, hparse, ?_⟩
  rw [Value.unranged, ← Value.edit_bare hproper, hsame, Value.edit_bare hv, Value.unranged]

end

end TypedIsl

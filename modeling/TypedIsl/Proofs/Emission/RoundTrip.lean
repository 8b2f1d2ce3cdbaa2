import TypedIsl.Proofs.Emission.Code
import TypedIsl.Proofs.Syntax.ProperEdits
import TypedIsl.Source.Parse

/-!
# Emitted code is read back

Reading the emitted code of a program gives the program without its types and docstrings. Emission
does not look at positions, so emitting what has been read back gives the same code from then on.
-/

namespace TypedIsl

/-! ## Plain programs are proper -/

theorem keepsProper_annotations {doc : String → Prop} : Edit.annotations.KeepsProper doc noDocs :=
  ⟨fun _ _ => trivial, fun _ _ _ htext => absurd htext List.not_mem_nil⟩

theorem Program.proper_plain {doc : String → Prop} {program : Program}
    (h : Program.Proper doc program) : Program.Proper noDocs (Program.plain program) :=
  Program.proper_edit keepsProper_annotations h

/-! ## Emission does not look at positions -/

theorem Params.forms_unranged (params : Params) : params.unranged.forms = params.forms := by
  cases params with
  | typed _ params _ =>
      simp [Params.forms, Params.unranged, Params.names, TypedParam.unranged, Ident.unranged,
        Ident.form]
  | untyped _ names =>
      simp [Params.forms, Params.unranged, Params.names, Ident.unranged, Ident.form]

mutual

theorem Value.form_unranged (value : Value) : (value.edit .positions).form = value.form := by
  match value with
  | .literal .. | .name .. | .require .. => rfl
  | .branch _ condition thenArm elseArm =>
      simp only [Value.edit, Value.form, Value.form_unranged condition,
        Value.form_unranged thenArm, Value.form_unranged elseArm]
  | .cond _ clauses none => simp only [Value.edit, Value.form, Clause.forms_unranged clauses]
  | .cond _ clauses (some value) =>
      simp only [Value.edit, Value.form, Clause.forms_unranged clauses, Value.form_unranged value]
  | .lambda _ params body =>
      simp only [Value.edit, Value.form, Edit.positions_params, Params.forms_unranged,
        Value.form_unranged body]
  | .locals _ definitions body =>
      simp only [Value.edit, Value.form, Definition.forms_unranged definitions,
        Value.form_unranged body]
  | .lets _ _ bindings body =>
      simp only [Value.edit, Value.form, LetBinding.forms_unranged bindings,
        Value.form_unranged body]
  | .call _ callee args =>
      simp only [Value.edit, Value.form, Value.form_unranged callee, Value.forms_unranged args]
termination_by structural value

theorem Value.forms_unranged (values : List Value) :
    Value.forms (Value.editAll .positions values) = Value.forms values := by
  match values with
  | [] => rfl
  | value :: values =>
      simp only [Value.editAll, Value.forms, Value.form_unranged value,
        Value.forms_unranged values]
termination_by structural values

theorem Clause.form_unranged (clause : Clause) : (clause.edit .positions).form = clause.form := by
  match clause with
  | .mk _ condition body =>
      simp only [Clause.edit, Clause.form, Value.form_unranged condition, Value.form_unranged body]
termination_by structural clause

theorem Clause.forms_unranged (clauses : List Clause) :
    Clause.forms (Clause.editAll .positions clauses) = Clause.forms clauses := by
  match clauses with
  | [] => rfl
  | clause :: clauses =>
      simp only [Clause.editAll, Clause.forms, Clause.form_unranged clause,
        Clause.forms_unranged clauses]
termination_by structural clauses

theorem LetBinding.form_unranged (binding : LetBinding) :
    (binding.edit .positions).form = binding.form := by
  match binding with
  | .mk _ name value =>
      simp only [LetBinding.edit, LetBinding.form, Value.form_unranged value]
      rfl
termination_by structural binding

theorem LetBinding.forms_unranged (bindings : List LetBinding) :
    LetBinding.forms (LetBinding.editAll .positions bindings) = LetBinding.forms bindings := by
  match bindings with
  | [] => rfl
  | binding :: bindings =>
      simp only [LetBinding.editAll, LetBinding.forms, LetBinding.form_unranged binding,
        LetBinding.forms_unranged bindings]
termination_by structural bindings

theorem Definition.form_unranged (definition : Definition) :
    (definition.edit .positions).form = definition.form := by
  match definition with
  | .function _ _ name params body =>
      simp only [Definition.edit, Definition.form, Edit.positions_params, Params.forms_unranged,
        Value.form_unranged body]
      rfl
  | .constant _ _ name value =>
      simp only [Definition.edit, Definition.form, Value.form_unranged value]
      rfl
termination_by structural definition

theorem Definition.forms_unranged (definitions : List Definition) :
    Definition.forms (Definition.editAll .positions definitions) =
      Definition.forms definitions := by
  match definitions with
  | [] => rfl
  | definition :: definitions =>
      simp only [Definition.editAll, Definition.forms, Definition.form_unranged definition,
        Definition.forms_unranged definitions]
termination_by structural definitions

end

mutual

theorem TypeExpr.signature_unranged (type : TypeExpr) :
    type.unranged.signature = type.signature := by
  match type with
  | .named name => rfl
  | .apply _ function [] => rfl
  | .apply _ function (arg :: args) =>
      simp only [TypeExpr.unranged, TypeExpr.unrangedAll, TypeExpr.signature, Ident.unranged,
        TypeExpr.argSignatures, TypeExpr.signature_unranged arg,
        TypeExpr.argSignatures_unranged args]
termination_by structural type

theorem TypeExpr.argSignatures_unranged (types : List TypeExpr) :
    TypeExpr.argSignatures (TypeExpr.unrangedAll types) = TypeExpr.argSignatures types := by
  match types with
  | [] => rfl
  | type :: types =>
      simp only [TypeExpr.unrangedAll, TypeExpr.argSignatures, TypeExpr.signature_unranged type,
        TypeExpr.argSignatures_unranged types]
termination_by structural types

end

theorem TypedParam.types_unranged (params : List TypedParam) :
    (params.map TypedParam.unranged).map (·.type) =
      TypeExpr.unrangedAll (params.map (·.type)) := by
  induction params with
  | nil => rfl
  | cons param params ih =>
      rw [List.map_cons, List.map_cons, ih]
      rfl

theorem Params.signature_unranged (params : Params) :
    params.unranged.signature = params.signature := by
  cases params with
  | untyped _ names => simp [Params.unranged, Params.signature, Function.comp_def]
  | typed _ params result? =>
      have hparams := TypedParam.types_unranged params
      cases result? with
      | none =>
          simp only [Params.unranged, Params.signature, Option.map_none, hparams,
            TypeExpr.argSignatures_unranged]
      | some declared =>
          simp only [Params.unranged, Params.signature, Option.map_some, hparams,
            TypeExpr.argSignatures_unranged, TypeExpr.signature_unranged]

theorem TopLevel.comments_unranged (form : TopLevel) :
    (form.edit .positions).comments = form.comments := by
  match form with
  | .definition (.function _ docs name params body) =>
      simp only [TopLevel.edit, Definition.edit, TopLevel.comments, Edit.positions_params,
        Edit.positions_docs, Params.signature_unranged]
      rfl
  | .definition (.constant ..) | .struct _ | .value _ => rfl

theorem TopLevel.form_unranged (form : TopLevel) : (form.edit .positions).form = form.form := by
  cases form with
  | definition form => exact Definition.form_unranged form
  | struct form =>
      simp only [TopLevel.edit, TopLevel.form, StructDefinition.edit, StructDefinition.form,
        Edit.positions_params, Params.forms_unranged]
      rfl
  | value form => exact Value.form_unranged form

theorem Program.code_unranged (indent : Indent) (program : Program) :
    Program.code indent (Program.unranged program) = Program.code indent program := by
  have hform : ∀ form : TopLevel, (form.edit .positions).code indent = form.code indent := by
    intro form
    rw [TopLevel.code, TopLevel.comments_unranged, TopLevel.form_unranged]
    rfl
  simp only [Program.code, Program.unranged, Program.edit, List.map_map, Function.comp_def, hform]

theorem Program.code_eq_of_unranged {program other : Program} (indent : Indent)
    (h : Program.unranged program = Program.unranged other) :
    Program.code indent program = Program.code indent other := by
  rw [← Program.code_unranged indent program, h, Program.code_unranged]

/-! ## Plain programs stay as they are -/

theorem Params.withoutTypes_unranged (params : Params) :
    params.unranged.withoutTypes.unranged = params.withoutTypes.unranged := by
  cases params with
  | typed _ params _ =>
      simp [Params.withoutTypes, Params.unranged, Params.names, TypedParam.unranged,
        Ident.unranged]
  | untyped _ names =>
      simp [Params.withoutTypes, Params.unranged, Params.names, Ident.unranged]

theorem Params.withoutTypes_unranged_withoutTypes (params : Params) :
    params.withoutTypes.unranged.withoutTypes.unranged = params.withoutTypes.unranged := by
  rw [Params.withoutTypes_unranged]
  rfl

/-- Forgets positions, types and docstrings. -/
def Edit.skeleton : Edit :=
  annotations.andThen positions

theorem Edit.positions_andThen_skeleton : positions.andThen skeleton = skeleton := by
  have hparams : (positions.andThen skeleton).params = skeleton.params :=
    funext Params.withoutTypes_unranged
  exact (Edit.mk.injEq ..).mpr ⟨rfl, hparams, rfl⟩

theorem Edit.skeleton_andThen_skeleton : skeleton.andThen skeleton = skeleton := by
  have hparams : (skeleton.andThen skeleton).params = skeleton.params :=
    funext Params.withoutTypes_unranged_withoutTypes
  exact (Edit.mk.injEq ..).mpr ⟨rfl, hparams, rfl⟩

theorem Program.unranged_plain (program : Program) :
    Program.unranged (Program.plain program) = Program.edit .skeleton program :=
  Program.edit_edit _ _ program

/-- A program that equals a plain one up to positions is plain. -/
theorem Program.unranged_plain_of_eq {program read : Program}
    (h : Program.unranged read = Program.unranged (Program.plain program)) :
    Program.unranged (Program.plain read) = Program.unranged read := by
  have hread : Program.edit .skeleton read = Program.edit .skeleton (Program.unranged read) := by
    rw [Program.unranged, Program.edit_edit, Edit.positions_andThen_skeleton]
  rw [Program.unranged_plain, hread, h, Program.unranged_plain, Program.edit_edit,
    Edit.skeleton_andThen_skeleton]

/-! ## Reading back -/

/-- A source text without its first line. -/
def afterFirstLine (source : String) : String :=
  String.ofList ((source.toList.dropWhile (· != '\n')).drop 1)

/-- Whether the token is not a decimal out of range. -/
def TokenKind.isFinite : TokenKind → Bool
  | literal (.decimal (.finite _ _)) => true
  | literal (.decimal _) => false
  | _ => true

/-- All decimal literals of the source text are finite. -/
def FiniteDecimals (source : String) : Prop :=
  ∀ token ∈ (lex source).tokens, token.kind.isFinite = true

theorem afterFirstLine_code (indent : Indent) (program : Program) :
    (afterFirstLine (Program.code indent program)).toList =
      (String.join (program.map (TopLevel.code indent))).toList := by
  have hline : languageLine.toList = "#lang htdp/isl+".toList ++ ['\n'] := by decide
  have hword : ∀ c ∈ "#lang htdp/isl+".toList, (c != '\n') = true :=
    List.all_eq_true.mp (by decide)
  rw [afterFirstLine, Program.code, String.toList_ofList, String.toList_append, hline,
    List.append_assoc, List.dropWhile_append_of_pos hword]
  rfl

theorem programOfSource_eq_ok {source : String} {program : Program}
    (h : programOfSource source = .ok program) :
    (lex source).error? = none ∧ parseProgram (lex source).tokens = .ok program := by
  unfold programOfSource Lexed.parse at h
  split at h
  · exact absurd h (by simp)
  · rename_i hlex
    split at h
    · rename_i hparse
      simp only [Except.ok.injEq] at h
      exact ⟨hlex, h ▸ hparse⟩
    · exact absurd h (by simp)

theorem spokenKinds_subset (tokens : List Token) : spokenKinds tokens ⊆ tokens.map (·.kind) :=
  List.filter_sublist.subset

/-- What a program that has been read says can be read again. -/
theorem allReadable_of_programOfSource {source : String} {program : Program}
    (h : programOfSource source = .ok program) (hfinite : FiniteDecimals source) :
    AllReadable (Program.kinds program) ∧ Program.Proper OneLine program := by
  obtain ⟨-, hparse⟩ := programOfSource_eq_ok h
  have hscanned : ∀ token ∈ (lex source).tokens, token.kind.Scanned := scanned_lexFrom
  have hdocs : DocsSatisfy OneLine (lex source).tokens := by
    intro token htoken text hkind
    have htext := hscanned token htoken
    rw [hkind] at htext
    exact htext
  obtain ⟨hkinds, hproper⟩ := parseProgram_spec hparse hdocs
  refine ⟨?_, hproper⟩
  intro kind hkind
  rw [hkinds] at hkind
  obtain ⟨token, htoken, rfl⟩ := List.mem_map.mp (spokenKinds_subset _ hkind)
  refine ⟨hscanned token htoken, fun negative hinfinite => ?_⟩
  have htokenFinite := hfinite token htoken
  rw [hinfinite] at htokenFinite
  exact absurd htokenFinite (by simp [TokenKind.isFinite])

theorem TokenKind.Readable.isFinite {kind : TokenKind} (h : kind.Readable) :
    kind.isFinite = true := by
  obtain ⟨hscanned, hfinite⟩ := h
  match kind with
  | .literal (.decimal value) =>
      rcases hscanned with ⟨m, rfl⟩ | rfl
      · rfl
      · exact absurd rfl (hfinite false)
  | .literal (.integer _) | .literal (.fraction _ _) | .literal (.string _) => rfl
  | .literal (.boolean _) | .literal (.symbol _) => rfl
  | .openParen | .closeParen | .keyword _ | .identifier _ | .colon | .ampersand | .arrow => rfl
  | .docstring _ => rfl

/-- One round of emission and reading. -/
theorem programOfSource_code {source : String} {program : Program}
    (h : programOfSource source = .ok program) (hfinite : FiniteDecimals source)
    (indent : Indent) :
    ∃ read, programOfSource (afterFirstLine (Program.code indent program)) = .ok read ∧
      Program.unranged read = Program.unranged (Program.plain program) ∧
      FiniteDecimals (afterFirstLine (Program.code indent program)) := by
  obtain ⟨hreadable, hproper⟩ := allReadable_of_programOfSource h hfinite
  have hlexes := Program.lexesTo_code indent hreadable hproper
  rw [← afterFirstLine_code] at hlexes
  obtain ⟨herror, hkinds⟩ := hlexes .first
  obtain ⟨read, hread, hunranged⟩ := parseProgram_of_kinds (Program.proper_plain hproper) hkinds
  refine ⟨read, ?_, hunranged, ?_⟩
  · unfold programOfSource Lexed.parse lex
    rw [herror]
    dsimp only
    rw [hread]
  · intro token htoken
    have hkind : token.kind ∈ Program.kinds (Program.plain program) := by
      rw [← hkinds]
      exact List.mem_map_of_mem htoken
    exact (Program.allReadable_plain hreadable token.kind hkind).isFinite

/-- Emitted code is read as the program without its types and docstrings, and from the second
round on the code stays the same. -/
theorem emission_round_trip {source : String} {program : Program}
    (h : programOfSource source = .ok program) (hfinite : FiniteDecimals source)
    (indent : Indent) :
    ∃ read, programOfSource (afterFirstLine (Program.code indent program)) = .ok read ∧
      Program.unranged read = Program.unranged (Program.plain program) ∧
      ∀ indent', ∃ reread,
        programOfSource (afterFirstLine (Program.code indent' read)) = .ok reread ∧
          Program.unranged reread = Program.unranged (Program.plain read) ∧
          ∀ indent'', Program.code indent'' read = Program.code indent'' reread := by
  obtain ⟨read, hread, hunranged, hfiniteRead⟩ := programOfSource_code h hfinite indent
  refine ⟨read, hread, hunranged, fun indent' => ?_⟩
  obtain ⟨reread, hreread, hsame, -⟩ := programOfSource_code hread hfiniteRead indent'
  refine ⟨reread, hreread, hsame, fun indent'' => ?_⟩
  have hplain := Program.unranged_plain_of_eq hunranged
  exact Program.code_eq_of_unranged indent'' (hplain.symm.trans hsame.symm)

/-- A documented definition with types, a decimal and a string of two lines. -/
def documentedSource : String :=
  ";;@ doc\n(define (f x : Number & y : (List-of Any) -> Number) (g \"a\nb\" x 2.5 '))"

theorem emission_round_trip_documented :
    ∃ program, programOfSource documentedSource = .ok program ∧
      FiniteDecimals documentedSource ∧
      ∃ read, programOfSource (afterFirstLine (Program.code .tab program)) = .ok read ∧
        Program.unranged read = Program.unranged (Program.plain program) := by
  have hok : (programOfSource documentedSource).isOk = true := by decide +kernel
  have hfinite : FiniteDecimals documentedSource := by
    unfold FiniteDecimals
    decide +kernel
  cases h : programOfSource documentedSource with
  | error e =>
      rw [h] at hok
      exact absurd hok (by simp [Except.isOk, Except.toBool])
  | ok program =>
      obtain ⟨read, hread, hunranged, -⟩ := emission_round_trip h hfinite .tab
      exact ⟨program, rfl, hfinite, read, hread, hunranged⟩

end TypedIsl

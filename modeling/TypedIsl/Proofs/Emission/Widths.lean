import TypedIsl.Proofs.Emission.Atoms
import TypedIsl.Proofs.Emission.Columns
import TypedIsl.Proofs.Emission.RoundTrip

/-!
# Widths of emitted lines

A form of emitted code is broken exactly if it does not fit on the line where it stands. The
brackets that close the forms around it are not counted then, so its line can become too wide by
them, and only by them.
-/

namespace TypedIsl

/-! ## Emitted forms are shaped -/

theorem Ident.all_atoms (idents : List Ident) :
    ∀ item ∈ idents.map Ident.form, ∃ text, item = .atom text :=
  List.forall_mem_map.mpr fun _ _ => ⟨_, rfl⟩

namespace Form.Shaped

theorem sequence (brackets : Brackets) {forms : List Form} (h : ∀ item ∈ forms, item.Shaped) :
    (Form.sequence brackets forms).Shaped := by
  cases forms with
  | nil => exact .atom _
  | cons form forms =>
      obtain ⟨hform, hforms⟩ := List.forall_mem_cons.mp h
      exact .one brackets hform hforms

theorem keyword (brackets : Brackets) (word : Keyword) {form : Form} {rest : List Form}
    (hform : form.Shaped) (hrest : ∀ item ∈ rest, item.Shaped) :
    (list brackets [.word word.text, form] rest).Shaped :=
  .word brackets (solid_keyword word).newline_notMem hform hrest

end Form.Shaped

mutual

theorem Value.shaped (value : Value) : value.form.Shaped := by
  match value with
  | .literal .. | .name .. => exact .atom _
  | .branch _ condition thenArm elseArm =>
      have hrest := List.forall_mem_cons.mpr ⟨Value.shaped thenArm,
        List.forall_mem_singleton.mpr (Value.shaped elseArm)⟩
      exact .keyword .round .branch (Value.shaped condition) hrest
  | .cond _ clauses none => exact .one .round (.atom _) (Clause.all_shaped clauses)
  | .cond _ clauses (some value) =>
      have harm := Form.Shaped.one .square (.atom "else".toList)
        (List.forall_mem_singleton.mpr (Value.shaped value))
      have hrest := List.forall_mem_append.mpr ⟨Clause.all_shaped clauses,
        List.forall_mem_singleton.mpr harm⟩
      exact .one .round (.atom _) hrest
  | .lambda _ params body =>
      exact .keyword .round .lambda (.atoms .round (Ident.all_atoms params.names))
        (List.forall_mem_singleton.mpr (Value.shaped body))
  | .locals _ definitions body =>
      have hrest := List.forall_mem_cons.mpr
        ⟨Form.Shaped.sequence .square (Definition.all_shaped definitions),
          List.forall_mem_singleton.mpr (Value.shaped body)⟩
      exact .one .round (.atom _) hrest
  | .lets _ kind bindings body =>
      have hrest := List.forall_mem_cons.mpr
        ⟨Form.Shaped.sequence .round (LetBinding.all_shaped bindings),
          List.forall_mem_singleton.mpr (Value.shaped body)⟩
      exact .one .round (.atom _) hrest
  | .require _ library => exact .keyword .round .require (.atom _) (List.forall_mem_nil _)
  | .call _ callee args => exact .one .round (Value.shaped callee) (Value.all_shaped args)
termination_by structural value

theorem Value.all_shaped (values : List Value) : ∀ item ∈ Value.forms values, item.Shaped := by
  match values with
  | [] => exact List.forall_mem_nil _
  | value :: values =>
      exact List.forall_mem_cons.mpr ⟨Value.shaped value, Value.all_shaped values⟩
termination_by structural values

theorem Clause.shaped (clause : Clause) : clause.form.Shaped := by
  match clause with
  | .mk _ condition body =>
      exact .one .square (Value.shaped condition)
        (List.forall_mem_singleton.mpr (Value.shaped body))
termination_by structural clause

theorem Clause.all_shaped (clauses : List Clause) :
    ∀ item ∈ Clause.forms clauses, item.Shaped := by
  match clauses with
  | [] => exact List.forall_mem_nil _
  | clause :: clauses =>
      exact List.forall_mem_cons.mpr ⟨Clause.shaped clause, Clause.all_shaped clauses⟩
termination_by structural clauses

theorem LetBinding.shaped (binding : LetBinding) : binding.form.Shaped := by
  match binding with
  | .mk _ name value =>
      exact .one .square (.atom _) (List.forall_mem_singleton.mpr (Value.shaped value))
termination_by structural binding

theorem LetBinding.all_shaped (bindings : List LetBinding) :
    ∀ item ∈ LetBinding.forms bindings, item.Shaped := by
  match bindings with
  | [] => exact List.forall_mem_nil _
  | binding :: bindings =>
      exact List.forall_mem_cons.mpr ⟨LetBinding.shaped binding, LetBinding.all_shaped bindings⟩
termination_by structural bindings

theorem Definition.shaped (definition : Definition) : definition.form.Shaped := by
  match definition with
  | .function _ _ name params body =>
      exact .keyword .round .define (.atoms .round (Ident.all_atoms (name :: params.names)))
        (List.forall_mem_singleton.mpr (Value.shaped body))
  | .constant _ _ name value =>
      exact .keyword .round .define (.atom _) (List.forall_mem_singleton.mpr (Value.shaped value))
termination_by structural definition

theorem Definition.all_shaped (definitions : List Definition) :
    ∀ item ∈ Definition.forms definitions, item.Shaped := by
  match definitions with
  | [] => exact List.forall_mem_nil _
  | definition :: definitions =>
      exact List.forall_mem_cons.mpr
        ⟨Definition.shaped definition, Definition.all_shaped definitions⟩
termination_by structural definitions

end

theorem TopLevel.shaped (form : TopLevel) : form.form.Shaped := by
  cases form with
  | definition form => exact Definition.shaped form
  | struct form =>
      exact .keyword .round .defineStruct (.atom _)
        (List.forall_mem_singleton.mpr (.atoms .round (Ident.all_atoms form.fields.names)))
  | value form => exact Value.shaped form

/-! ## Forms in emitted code -/

/-- What stands before a top-level form: earlier ones, and its comments. -/
def Program.codeBefore (indent : Indent) (earlier : Program) (form : TopLevel) : List Char :=
  (Program.code indent earlier).toList ++ (String.join (form.comments.map (· ++ "\n"))).toList

/-- What stands after a top-level form. -/
def Program.codeAfter (indent : Indent) (later : Program) : List Char :=
  '\n' :: (String.join (later.map (TopLevel.code indent))).toList

/-- The form stands in the emitted code as this text, and the list forms in it at these places. -/
structure Program.Prints (indent : Indent) (earlier : Program) (form : TopLevel) (later : Program)
    (text : List Char) (lists : List Placed) : Prop where
  code_eq : (Program.code indent (earlier ++ form :: later)).toList =
    codeBefore indent earlier form ++ text ++ codeAfter indent later
  print : Form.Print indent [form.form] form.form.flat text [] lists

section Code

variable {indent : Indent} {earlier later : Program} {form : TopLevel}

theorem Program.code_append (indent : Indent) (earlier : Program) (form : TopLevel)
    (later : Program) :
    (Program.code indent (earlier ++ form :: later)).toList =
      codeBefore indent earlier form ++ form.form.layout indent 0 0 ++ codeAfter indent later := by
  have hnewline : "\n".toList = ['\n'] := rfl
  rw [Program.code, codeBefore, codeAfter, Program.code, List.map_append, String.join_append,
    List.map_cons, String.join_cons, TopLevel.code]
  simp only [String.toList_append, String.toList_ofList, hnewline, List.append_assoc,
    List.singleton_append]

/-- Texts that all end their last line. -/
theorem lastLine_join {text : List Char} {pieces : List String} (h : lastLine text = [])
    (hpieces : ∀ piece ∈ pieces, ∃ line, piece = line ++ "\n") :
    lastLine (text ++ (String.join pieces).toList) = [] := by
  induction pieces generalizing text with
  | nil =>
      rw [String.join_nil, String.toList_empty, List.append_nil]
      exact h
  | cons piece pieces ih =>
      obtain ⟨⟨line, rfl⟩, hothers⟩ := List.forall_mem_cons.mp hpieces
      have hline : lastLine (text ++ (line ++ "\n").toList) = [] := by
        rw [String.toList_append, ← List.append_assoc]
        exact lastLine_newline List.not_mem_nil
      rw [String.join_cons, String.toList_append, ← List.append_assoc]
      exact ih hline hothers

/-- Top-level forms start their lines. -/
theorem Program.columnOf_codeBefore : columnOf (codeBefore indent earlier form) = 0 := by
  have hlanguage : lastLine languageLine.toList = [] := by decide
  have hearlier : lastLine (Program.code indent earlier).toList = [] := by
    rw [Program.code, String.toList_append]
    exact lastLine_join hlanguage (List.forall_mem_map.mpr fun _ _ => ⟨_, rfl⟩)
  rw [columnOf, codeBefore, lastLine_join hearlier (List.forall_mem_map.mpr fun _ _ => ⟨_, rfl⟩)]
  rfl

/-- Every form of emitted code is laid out at the column where it stands. -/
theorem Program.exists_prints (indent : Indent) (earlier : Program) (form : TopLevel)
    (later : Program) :
    ∃ text lists, Prints indent earlier form later text lists ∧ ∀ placed ∈ lists,
      placed.Settled (codeBefore indent earlier form) (codeAfter indent later) := by
  obtain ⟨lists, hprint, hlists⟩ := form.shaped.settles indent 0
    (codeBefore indent earlier form) (codeAfter indent later) (closesLine_newline _)
  rw [columnOf_codeBefore] at hprint
  exact ⟨_, lists, ⟨Program.code_append indent earlier form later, hprint⟩, hlists⟩

/-- The tokens of a program that has been read have been scanned. -/
theorem scanned_of_programOfSource {source : String} {program : Program}
    (h : programOfSource source = .ok program) : ∀ kind ∈ Program.kinds program, kind.Scanned := by
  obtain ⟨-, hparse⟩ := programOfSource_eq_ok h
  have hdocs : DocsSatisfy (fun _ => True) (lex source).tokens := fun _ _ _ _ => trivial
  intro kind hkind
  rw [(parseProgram_spec hparse hdocs).1] at hkind
  obtain ⟨token, htoken, rfl⟩ := List.mem_map.mp (spokenKinds_subset _ hkind)
  exact scanned_lexFrom token htoken

theorem TopLevel.scanned_of_programOfSource {source : String}
    (h : programOfSource source = .ok (earlier ++ form :: later)) :
    ∀ kind ∈ form.kinds, kind.Scanned := by
  intro kind hkind
  exact TypedIsl.scanned_of_programOfSource h kind (List.mem_flatMap.mpr ⟨form, by simp, hkind⟩)

/-- If the program has been read, its code is a print of the form in one way only. -/
theorem Program.Prints.unique {source : String} {text text' : List Char}
    {lists lists' : List Placed} (h : programOfSource source = .ok (earlier ++ form :: later))
    (hprints : Prints indent earlier form later text lists)
    (hprints' : Prints indent earlier form later text' lists') :
    text = text' ∧ lists = lists' := by
  have hcode := hprints.code_eq.symm.trans hprints'.code_eq
  have htext : text = text' := List.append_cancel_left (List.append_cancel_right hcode)
  subst htext
  refine ⟨rfl, hprints.print.unique hprints'.print fun atom hatom => ?_⟩
  rcases TopLevel.atom_cases (TopLevel.scanned_of_programOfSource h) hatom with
    hsolid | ⟨s, -, rfl⟩
  · exact hsolid.startsVisibly
  · exact startsVisibly_quotedString s

/-- The text of a form is its rendering on one line, with some spaces replaced by newlines and
indentation. A list form that could be broken is printed without breaks exactly if its rendering
has no newline and ends in time where it stands. If the program has been read, the places of the
list forms are determined, and only strings bring newlines along. -/
theorem Program.code_breaks (indent : Indent) (earlier : Program) (form : TopLevel)
    (later : Program) :
    ∃ text lists, Prints indent earlier form later text lists ∧
      (∀ placed ∈ lists, placed.form.CanBreak →
        (placed.Unbroken ↔ (∀ atom ∈ placed.form.atoms, '\n' ∉ atom) ∧
          columnOf (codeBefore indent earlier form ++ placed.before) +
            placed.form.flat.length ≤ maxWidth) ∧
        (placed.Unbroken → placed.text = placed.form.flat)) ∧
      ∀ source, programOfSource source = .ok (earlier ++ form :: later) →
        (∀ others, Prints indent earlier form later text others → others = lists) ∧
        ∀ placed ∈ lists, ∀ atom ∈ placed.form.atoms, '\n' ∈ atom →
          ∃ s, TokenKind.literal (.string s) ∈ form.kinds ∧ atom = quotedString s := by
  obtain ⟨text, lists, hprints, hlists⟩ := exists_prints indent earlier form later
  refine ⟨text, lists, hprints, fun placed hplaced hbreak => ⟨?_, ?_⟩, fun source hsource =>
    ⟨fun others hothers => (hothers.unique hsource hprints).2, ?_⟩⟩
  · rw [(hlists placed hplaced).unbroken_iff hbreak, fits_iff, Form.newline_mem_flat]
    simp
  · exact (hlists placed hplaced).text_eq hbreak
  · intro placed hplaced atom hatom hnewline
    have hmem := hprints.print.atoms_subset hplaced hatom
    rcases TopLevel.atom_cases (TopLevel.scanned_of_programOfSource hsource) hmem with
      hsolid | hstring
    · exact absurd hnewline hsolid.newline_notMem
    · exact hstring

/-- The line of a list form that could be broken and is not ends in time, up to closing brackets
that follow the form. -/
theorem Program.code_width (indent : Indent) (earlier : Program) (form : TopLevel)
    (later : Program) :
    ∃ text lists, Prints indent earlier form later text lists ∧
      ∀ placed ∈ lists, placed.form.CanBreak → placed.Unbroken →
        ∃ front closing,
          placed.line (codeBefore indent earlier form) (codeAfter indent later) =
            front ++ closing ∧
          lastLine (codeBefore indent earlier form ++ placed.before) ++ placed.text <+: front ∧
          (∀ c ∈ closing, c = ')' ∨ c = ']') ∧ lineWidth front ≤ maxWidth := by
  obtain ⟨text, lists, hprints, hlists⟩ := exists_prints indent earlier form later
  exact ⟨text, lists, hprints, fun placed hplaced => (hlists placed hplaced).endsInTime⟩

end Code

/-- A name of 74 letters. -/
def longName : String :=
  "aaaaaaaaaaaaaaaaaaaaaaaaaaaaaaaaaaaaaaaaaaaaaaaaaaaaaaaaaaaaaaaaaaaaaaaaaa"

/-- The call fits on its line, but not together with the bracket that closes the definition. -/
def overlongForm : TopLevel :=
  .definition (.constant ⟨⟨1, 1, 0⟩, ⟨1, 90, 89⟩⟩ [] ⟨"x", ⟨⟨1, 9, 8⟩, ⟨1, 10, 9⟩⟩⟩
    (.call ⟨⟨1, 11, 10⟩, ⟨1, 89, 88⟩⟩ (.name ⟨"f", ⟨⟨1, 12, 11⟩, ⟨1, 13, 12⟩⟩⟩)
      [.name ⟨longName, ⟨⟨1, 14, 13⟩, ⟨1, 88, 87⟩⟩⟩]))

theorem code_overlong :
    programOfSource ("(define x (f " ++ longName ++ "))") = .ok [overlongForm] ∧
      ∃ text lists, Program.Prints .default [] overlongForm [] text lists ∧
        (∀ others, Program.Prints .default [] overlongForm [] text others → others = lists) ∧
        ∃ placed ∈ lists, placed.form.CanBreak ∧ placed.Unbroken ∧
          maxWidth < lineWidth (placed.line (Program.codeBefore .default [] overlongForm)
            (Program.codeAfter .default [])) := by
  have hread : programOfSource ("(define x (f " ++ longName ++ "))") = .ok [overlongForm] := rfl
  have hcall : Form.Print .default [.round [.word "f"] [.word longName]] _ _ [] _ :=
    .list .round (.cons (.atom _) (.inl rfl) (.atom _))
  have hprint : Form.Print .default [overlongForm.form] overlongForm.form.flat _ [] _ :=
    .list .round (.cons (.atom _) (.inl rfl) (.cons (.atom _) (.inr ⟨1, rfl⟩) hcall))
  have hprints : Program.Prints .default [] overlongForm [] _ _ := ⟨by decide +kernel, hprint⟩
  refine ⟨hread, _, _, hprints, fun others hothers => (hothers.unique hread hprints).2, ?_⟩
  refine ⟨_, List.mem_cons_of_mem _ List.mem_cons_self, List.cons_ne_nil _ _, ?_, ?_⟩
  · exact List.forall_mem_singleton.mpr rfl
  · decide +kernel

end TypedIsl

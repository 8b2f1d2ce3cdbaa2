import TypedIsl.Proofs.Emission.Layout
import TypedIsl.Proofs.Syntax.Acceptance

/-!
# What emitted code says

The emitted code of a program says what the program says without its types and docstrings. Types
and docstrings only appear in comments, and these stay on their lines.
-/

namespace TypedIsl

/-! ## Forms say what trees say -/

theorem AllReadable.inner {kinds : List TokenKind} (h : AllReadable (enclosed kinds)) :
    AllReadable kinds := by
  intro kind hkind
  exact h kind (List.mem_append_left _ (List.mem_cons_of_mem _ hkind))

theorem Ident.says_kind {ident : Ident} (h : ident.kind.Readable) : ident.form.Says [ident.kind] :=
  ⟨spells_identifier h.1, allReadable_singleton h⟩

theorem says_keyword (word : Keyword) : (Form.word word.text).Says [.keyword word] := by
  have hreadable : (TokenKind.keyword word).Readable := ⟨trivial, by simp⟩
  exact ⟨spells_keyword word, allReadable_singleton hreadable⟩

theorem Ident.all_say {idents : List Ident} (h : AllReadable (idents.map Ident.kind)) :
    Form.AllSay (idents.map Ident.form) (idents.map Ident.kind) := by
  induction idents with
  | nil => exact Form.allSay_nil
  | cons ident idents ih =>
      obtain ⟨hident, hidents⟩ := allReadable_cons.mp h
      exact (Ident.says_kind hident).cons (ih hidents)

/-- Parameter lists are emitted without their types. -/
theorem Params.all_say_plain {params : Params} (h : AllReadable params.kinds) :
    Form.AllSay params.forms params.withoutTypes.kinds := by
  apply Ident.all_say
  intro kind hkind
  obtain ⟨ident, hident, rfl⟩ := List.mem_map.mp hkind
  exact h _ (Params.kind_mem hident)

theorem Params.says_plain {params : Params} (h : AllReadable params.kinds) :
    (Form.round params.forms []).Says (enclosed params.withoutTypes.kinds) := by
  have hlist := (Params.all_say_plain h).list .round Form.allSay_nil
  rwa [List.append_nil] at hlist

theorem Form.AllSay.sequence {forms : List Form} {kinds : List TokenKind} (brackets : Brackets)
    (h : Form.AllSay forms kinds) : (Form.sequence brackets forms).Says (enclosed kinds) := by
  cases forms with
  | nil =>
      rw [Form.AllSay] at h
      rw [h]
      exact ⟨spells_nil.enclosed brackets, allReadable_enclosed allReadable_nil⟩
  | cons form forms =>
      obtain ⟨first, second, hform, hforms, rfl⟩ := h
      exact hform.single.list brackets hforms

mutual

theorem Value.says_plain {value : Value} (h : AllReadable value.kinds) :
    value.form.Says (value.edit .annotations).kinds := by
  match value with
  | .literal _ value =>
      obtain ⟨hscanned, hfinite⟩ := h (.literal value) (List.mem_singleton_self _)
      exact ⟨spells_literal hscanned fun negative hvalue => hfinite negative (by rw [hvalue]), h⟩
  | .name ident => exact Ident.says_kind (h ident.kind (List.mem_singleton_self _))
  | .branch _ condition thenArm elseArm =>
      have hparts := h.inner
      simp only [List.cons_append, allReadable_cons, allReadable_append] at hparts
      obtain ⟨-, ⟨hcondition, hthen⟩, helse⟩ := hparts
      have hhead := (says_keyword .branch).cons (Value.says_plain hcondition).single
      have hrest := (Value.says_plain hthen).cons (Value.says_plain helse).single
      exact (hhead.list .round hrest).of_eq (by simp [Value.kinds, Value.edit])
  | .cond _ clauses none =>
      have hparts := h.inner
      simp only [allReadable_cons] at hparts
      have hhead := (says_keyword .cond).single
      have hrest := Clause.all_say_plain hparts.2
      exact (hhead.list .round hrest).of_eq (by simp [Value.kinds, Value.edit])
  | .cond _ clauses (some value) =>
      have hparts := h.inner
      simp only [List.cons_append, allReadable_cons, allReadable_append] at hparts
      obtain ⟨-, hclauses, hotherwise⟩ := hparts
      have hvalue := (allReadable_cons.mp hotherwise.inner).2
      have harm := (says_keyword .otherwise).single.list .square (Value.says_plain hvalue).single
      have hhead := (says_keyword .cond).single
      have hrest := (Clause.all_say_plain hclauses).append harm.single
      exact (hhead.list .round hrest).of_eq (by simp [Value.kinds, Value.edit])
  | .lambda _ params body =>
      have hparts := h.inner
      simp only [List.cons_append, allReadable_cons, allReadable_append] at hparts
      obtain ⟨-, hparams, hbody⟩ := hparts
      have hhead := (says_keyword .lambda).cons (Params.says_plain hparams.inner).single
      have hrest := (Value.says_plain hbody).single
      exact (hhead.list .round hrest).of_eq (by simp [Value.kinds, Value.edit])
  | .locals _ definitions body =>
      have hparts := h.inner
      simp only [List.cons_append, allReadable_cons, allReadable_append] at hparts
      obtain ⟨-, hdefinitions, hbody⟩ := hparts
      have hhead := (says_keyword .locals).single
      have hrest := ((Definition.all_say_plain hdefinitions.inner).sequence .square).cons
        (Value.says_plain hbody).single
      exact (hhead.list .round hrest).of_eq (by simp [Value.kinds, Value.edit])
  | .lets _ kind bindings body =>
      have hparts := h.inner
      simp only [List.cons_append, allReadable_cons, allReadable_append] at hparts
      obtain ⟨-, hbindings, hbody⟩ := hparts
      have hhead := (says_keyword (.lets kind)).single
      have hrest := ((LetBinding.all_say_plain hbindings.inner).sequence .round).cons
        (Value.says_plain hbody).single
      exact (hhead.list .round hrest).of_eq (by simp [Value.kinds, Value.edit])
  | .require _ library =>
      have hparts := h.inner
      simp only [allReadable_cons] at hparts
      have hhead := (says_keyword .require).cons (Ident.says_kind hparts.2.1).single
      exact (hhead.list .round Form.allSay_nil).of_eq (by simp [Value.kinds, Value.edit])
  | .call _ callee args =>
      have hparts := h.inner
      simp only [allReadable_append] at hparts
      have hhead := (Value.says_plain hparts.1).single
      have hrest := Value.all_say_plain hparts.2
      exact (hhead.list .round hrest).of_eq (by simp [Value.kinds, Value.edit])
termination_by structural value

theorem Value.all_say_plain {values : List Value} (h : AllReadable (Value.allKinds values)) :
    Form.AllSay (Value.forms values) (Value.allKinds (Value.editAll .annotations values)) := by
  match values with
  | [] => exact Form.allSay_nil
  | value :: values =>
      obtain ⟨hvalue, hvalues⟩ := allReadable_append.mp h
      exact (Value.says_plain hvalue).cons (Value.all_say_plain hvalues)
termination_by structural values

theorem Clause.says_plain {clause : Clause} (h : AllReadable clause.kinds) :
    clause.form.Says (clause.edit .annotations).kinds := by
  match clause with
  | .mk _ condition body =>
      obtain ⟨hcondition, hbody⟩ := allReadable_append.mp h.inner
      exact (Value.says_plain hcondition).single.list .square (Value.says_plain hbody).single
termination_by structural clause

theorem Clause.all_say_plain {clauses : List Clause} (h : AllReadable (Clause.allKinds clauses)) :
    Form.AllSay (Clause.forms clauses) (Clause.allKinds (Clause.editAll .annotations clauses)) := by
  match clauses with
  | [] => exact Form.allSay_nil
  | clause :: clauses =>
      obtain ⟨hclause, hclauses⟩ := allReadable_append.mp h
      exact (Clause.says_plain hclause).cons (Clause.all_say_plain hclauses)
termination_by structural clauses

theorem LetBinding.says_plain {binding : LetBinding} (h : AllReadable binding.kinds) :
    binding.form.Says (binding.edit .annotations).kinds := by
  match binding with
  | .mk _ name value =>
      obtain ⟨hname, hvalue⟩ := allReadable_cons.mp h.inner
      exact (Ident.says_kind hname).single.list .square (Value.says_plain hvalue).single
termination_by structural binding

theorem LetBinding.all_say_plain {bindings : List LetBinding}
    (h : AllReadable (LetBinding.allKinds bindings)) :
    Form.AllSay (LetBinding.forms bindings)
      (LetBinding.allKinds (LetBinding.editAll .annotations bindings)) := by
  match bindings with
  | [] => exact Form.allSay_nil
  | binding :: bindings =>
      obtain ⟨hbinding, hbindings⟩ := allReadable_append.mp h
      exact (LetBinding.says_plain hbinding).cons (LetBinding.all_say_plain hbindings)
termination_by structural bindings

theorem Definition.says_plain {definition : Definition} (h : AllReadable definition.kinds) :
    definition.form.Says (definition.edit .annotations).kinds := by
  match definition with
  | .function _ _ name params body =>
      have hparts := h.inner
      simp only [List.cons_append, allReadable_cons, allReadable_append] at hparts
      obtain ⟨-, hhead, hbody⟩ := hparts
      obtain ⟨hname, hparams⟩ := allReadable_cons.mp hhead.inner
      have hsignature := ((Ident.says_kind hname).cons (Params.all_say_plain hparams)).list .round
        Form.allSay_nil
      have hhead := (says_keyword .define).cons hsignature.single
      have hrest := (Value.says_plain hbody).single
      exact (hhead.list .round hrest).of_eq (by simp [Definition.kinds, Definition.edit])
  | .constant _ _ name value =>
      have hparts := h.inner
      simp only [allReadable_cons] at hparts
      obtain ⟨-, hname, hvalue⟩ := hparts
      have hhead := (says_keyword .define).cons (Ident.says_kind hname).single
      have hrest := (Value.says_plain hvalue).single
      exact (hhead.list .round hrest).of_eq (by simp [Definition.kinds, Definition.edit])
termination_by structural definition

theorem Definition.all_say_plain {definitions : List Definition}
    (h : AllReadable (Definition.allKinds definitions)) :
    Form.AllSay (Definition.forms definitions)
      (Definition.allKinds (Definition.editAll .annotations definitions)) := by
  match definitions with
  | [] => exact Form.allSay_nil
  | definition :: definitions =>
      obtain ⟨hdefinition, hdefinitions⟩ := allReadable_append.mp h
      exact (Definition.says_plain hdefinition).cons (Definition.all_say_plain hdefinitions)
termination_by structural definitions

end

theorem StructDefinition.says_plain {definition : StructDefinition}
    (h : AllReadable definition.kinds) :
    definition.form.Says (definition.edit .annotations).kinds := by
  have hparts := h.inner
  simp only [allReadable_cons] at hparts
  obtain ⟨-, hname, hfields⟩ := hparts
  have hhead := (says_keyword .defineStruct).cons (Ident.says_kind hname).single
  have hrest := (Params.says_plain hfields.inner).single
  exact (hhead.list .round hrest).of_eq (by simp [StructDefinition.kinds, StructDefinition.edit])

theorem TopLevel.says_plain {form : TopLevel} (h : AllReadable form.kinds) :
    form.form.Says (form.edit .annotations).kinds := by
  cases form with
  | definition form => exact Definition.says_plain h
  | struct form => exact StructDefinition.says_plain h
  | value form => exact Value.says_plain h

/-! ## Comments -/

/-- A text that can stand in a comment. -/
def OneLine (text : String) : Prop :=
  ∀ c ∈ text.toList, c ≠ '\n' ∧ c ≠ '\x00'

instance (text : String) : Decidable (OneLine text) :=
  decidable_of_iff (text.toList.all (fun c => c ≠ '\n' ∧ c ≠ '\x00') = true) (by
    simp [OneLine, List.all_eq_true])

theorem OneLine.append {text other : String} (h : OneLine text) (hother : OneLine other) :
    OneLine (text ++ other) := by
  intro c hc
  rw [String.toList_append, List.mem_append] at hc
  rcases hc with hc | hc
  · exact h c hc
  · exact hother c hc

theorem isIdentifierChar_of_isIdentifierStart {c : Char} (h : isIdentifierStart c = true) :
    isIdentifierChar c = true := by
  rw [isIdentifierStart, Bool.or_eq_true] at h
  rw [isIdentifierChar, Bool.or_eq_true]
  rcases h with h | h
  · left
    rw [Char.isAlphanum, h]
    rfl
  · exact .inr h

theorem oneLine_of_word {word : String} (h : IsWord word) : OneLine word := by
  obtain ⟨c, cs, hword, hc, hcs, -⟩ := h
  have hall : ∀ d ∈ word.toList, isIdentifierChar d = true := by
    rw [hword]
    exact List.forall_mem_cons.mpr ⟨isIdentifierChar_of_isIdentifierStart hc, hcs⟩
  intro d hd
  have hchar := hall d hd
  constructor
  · intro hnewline
    exact absurd (hnewline ▸ hchar) (by decide)
  · intro hnull
    exact absurd (hnull ▸ hchar) (by decide)

theorem Ident.oneLine {ident : Ident} (h : ident.kind.Readable) : OneLine ident.name :=
  oneLine_of_word h.1.1

theorem TypeExpr.oneLine_argSignatures {types : List TypeExpr}
    (h : ∀ type ∈ types, OneLine type.signature) : OneLine (TypeExpr.argSignatures types) := by
  induction types with
  | nil =>
      rw [TypeExpr.argSignatures]
      decide
  | cons type types ih =>
      obtain ⟨htype, htypes⟩ := List.forall_mem_cons.mp h
      have hspace : OneLine " " := by decide
      exact (hspace.append htype).append (ih htypes)

mutual

theorem TypeExpr.oneLine_signature {type : TypeExpr} (h : AllReadable type.kinds) :
    OneLine type.signature := by
  match type with
  | .named name => exact Ident.oneLine (h name.kind (List.mem_singleton_self _))
  | .apply _ function args =>
      obtain ⟨hfunction, hargs⟩ := allReadable_cons.mp h.inner
      have hsignatures := TypeExpr.all_oneLine hargs
      have hclose : OneLine ")" := by decide
      unfold TypeExpr.signature
      split
      · decide
      · split
        · split
          · decide
          · rename_i arg args
            have harg := hsignatures arg (List.mem_cons_self ..)
            have hlist : OneLine "(Listof " := by decide
            exact (hlist.append harg).append hclose
        · have hopen : OneLine "(" := by decide
          exact ((hopen.append (Ident.oneLine hfunction)).append
            (TypeExpr.oneLine_argSignatures hsignatures)).append hclose
termination_by structural type

theorem TypeExpr.all_oneLine {types : List TypeExpr} (h : AllReadable (TypeExpr.allKinds types)) :
    ∀ type ∈ types, OneLine type.signature := by
  match types with
  | [] => exact fun _ htype => absurd htype List.not_mem_nil
  | type :: types =>
      obtain ⟨htype, htypes⟩ := allReadable_append.mp h
      exact List.forall_mem_cons.mpr
        ⟨TypeExpr.oneLine_signature htype, TypeExpr.all_oneLine htypes⟩
termination_by structural types

end

theorem TypedParam.oneLine_types {params : List TypedParam}
    (h : AllReadable (TypedParam.allKinds params)) :
    OneLine (TypeExpr.argSignatures (params.map (·.type))) := by
  apply TypeExpr.oneLine_argSignatures
  intro type htype
  obtain ⟨param, hparam, rfl⟩ := List.mem_map.mp htype
  apply TypeExpr.oneLine_signature
  intro kind hkind
  exact h kind (TypedParam.subset_allKinds hparam
    (List.mem_cons_of_mem _ (List.mem_cons_of_mem _ hkind)))

theorem oneLine_anys (names : List Ident) : OneLine (String.join (names.map fun _ => " any")) := by
  induction names with
  | nil => decide
  | cons name names ih =>
      have hany : OneLine " any" := by decide
      rw [List.map_cons, String.join_cons]
      exact hany.append ih

theorem Params.oneLine_signature {params : Params} (h : AllReadable params.kinds) :
    OneLine params.signature := by
  have harrow : OneLine " -> " := by decide
  cases params with
  | untyped range names =>
      have hany : OneLine " -> any" := by decide
      exact (oneLine_anys names).append hany
  | typed range params result? =>
      cases result? with
      | none =>
          have hany : OneLine "any" := by decide
          have hparams := TypedParam.oneLine_types h
          exact (hparams.append harrow).append hany
      | some declared =>
          obtain ⟨htyped, hresult⟩ := allReadable_append.mp h
          have hparams := TypedParam.oneLine_types htyped
          exact (hparams.append harrow).append
            (TypeExpr.oneLine_signature (allReadable_cons.mp hresult).2)

/-- A comment that is not a docstring. -/
def IsComment (comment : String) : Prop :=
  ∃ text, comment = ";; " ++ text ∧ OneLine text

theorem isComment_docComments {docs : List String} (h : ∀ text ∈ docs, OneLine text) :
    ∀ comment ∈ docComments docs, IsComment comment := by
  intro comment hcomment
  obtain ⟨text, htext, rfl⟩ := List.mem_map.mp hcomment
  exact ⟨text, rfl, h text htext⟩

theorem TopLevel.isComment_comments {form : TopLevel} (h : AllReadable form.kinds)
    (hd : form.Proper OneLine) : ∀ comment ∈ form.comments, IsComment comment := by
  match form with
  | .definition (.function _ docs name params body) =>
      have hhead := h.inner
      simp only [List.cons_append, allReadable_cons, allReadable_append] at hhead
      obtain ⟨hname, hparams⟩ := allReadable_cons.mp hhead.2.1.inner
      have hcolon : OneLine " :" := by decide
      have hline := ((Ident.oneLine hname).append hcolon).append (Params.oneLine_signature hparams)
      refine List.forall_mem_cons.mpr ⟨⟨_, ?_, hline⟩, isComment_docComments hd.1⟩
      rw [String.append_assoc, ← String.append_assoc, ← String.append_assoc]
      rfl
  | .definition (.constant ..) => exact isComment_docComments hd.1
  | .struct form => exact isComment_docComments hd.1
  | .value form => exact fun _ hcomment => absurd hcomment List.not_mem_nil

/-! ## Code says what a program says -/

theorem LexesTo.comments {comments : List String} {rest : List Char} {kinds : List TokenKind}
    (hc : ∀ comment ∈ comments, IsComment comment) (h : LexesTo rest kinds) :
    LexesTo ((String.join (comments.map (· ++ "\n"))).toList ++ rest) kinds := by
  induction comments with
  | nil => exact h
  | cons comment comments ih =>
      obtain ⟨⟨text, rfl, htext⟩, hcomments⟩ := List.forall_mem_cons.mp hc
      have hline := (ih hcomments).comment htext
      rw [List.map_cons, String.join_cons, String.toList_append, String.toList_append,
        String.toList_append, List.append_assoc, List.append_assoc, List.append_assoc]
      exact hline

theorem TopLevel.lexesTo_code {form : TopLevel} (indent : Indent) (h : AllReadable form.kinds)
    (hd : form.Proper OneLine) {rest : List Char} {more : List TokenKind}
    (hrest : LexesTo rest more) :
    LexesTo ((form.code indent).toList ++ rest) ((form.edit .annotations).kinds ++ more) := by
  have hdelimited : Delimited ('\n' :: rest) := delimited_cons (by decide) rest
  have hform :=
    (TopLevel.says_plain h).spells_layout indent 0 0 _ _ hdelimited (hrest.blankChar rfl)
  have hcode := hform.comments (TopLevel.isComment_comments h hd)
  rw [TopLevel.code, String.toList_append, String.toList_append, String.toList_ofList,
    List.append_assoc, List.append_assoc]
  exact hcode

/-- The code of a program, without its first line, says what the program says without its types
and docstrings. -/
theorem Program.lexesTo_code {program : Program} (indent : Indent)
    (h : AllReadable (Program.kinds program)) (hd : Program.Proper OneLine program) :
    LexesTo (String.join (program.map (TopLevel.code indent))).toList
      (Program.kinds (Program.plain program)) := by
  induction program with
  | nil => exact .nil
  | cons form program ih =>
      obtain ⟨hform, hprogram⟩ := allReadable_append.mp h
      obtain ⟨hproper, hall⟩ := List.forall_mem_cons.mp hd
      rw [List.map_cons, String.join_cons, String.toList_append]
      exact TopLevel.lexesTo_code indent hform hproper (ih hprogram hall)

theorem Program.allReadable_plain {program : Program} (h : AllReadable (Program.kinds program)) :
    AllReadable (Program.kinds (Program.plain program)) := by
  induction program with
  | nil => exact allReadable_nil
  | cons form program ih =>
      obtain ⟨hform, hprogram⟩ := allReadable_append.mp h
      exact allReadable_append.mpr ⟨(TopLevel.says_plain hform).allReadable, ih hprogram⟩

end TypedIsl

import TypedIsl.Proofs.Emission.Code
import TypedIsl.Proofs.Emission.Printed

/-!
# Atoms of emitted forms

The atoms of an emitted form are the texts of tokens of its tree, and empty pairs of brackets. So
none of them begins like an indentation, and only strings bring newlines along.
-/

namespace TypedIsl

/-! ## Atoms are texts of tokens -/

/-- The text of a token in emitted code. Brackets are no atoms, and types are not emitted. -/
def TokenKind.code? : TokenKind → Option (List Char)
  | keyword word => some word.text.toList
  | literal value => some value.code
  | identifier name => some name.toList
  | _ => none

/-- An empty pair of brackets, or the text of one of the tokens. -/
def WrittenFrom (kinds : List TokenKind) (text : List Char) : Prop :=
  (∃ brackets : Brackets, text = [brackets.opening, brackets.closing]) ∨
    ∃ kind ∈ kinds, kind.code? = some text

section Written

variable {kinds more : List TokenKind} {forms others : List Form}

theorem enclosed_subset (h : enclosed more ⊆ kinds) : more ⊆ kinds :=
  fun _ hkind => h (List.mem_append_left _ (List.mem_cons_of_mem _ hkind))

/-- All atoms of the forms are written from the tokens. -/
def Form.AllWritten (kinds : List TokenKind) (forms : List Form) : Prop :=
  ∀ text ∈ Form.allAtoms forms, WrittenFrom kinds text

namespace Form.AllWritten

theorem nil : AllWritten kinds [] :=
  List.forall_mem_nil _

theorem append (h : AllWritten kinds forms) (hothers : AllWritten kinds others) :
    AllWritten kinds (forms ++ others) := by
  rw [AllWritten, allAtoms_append]
  exact List.forall_mem_append.mpr ⟨h, hothers⟩

theorem cons {form : Form} (h : AllWritten kinds [form]) (hforms : AllWritten kinds forms) :
    AllWritten kinds (form :: forms) :=
  append h hforms

theorem list (brackets : Brackets) (h : AllWritten kinds forms)
    (hothers : AllWritten kinds others) : AllWritten kinds [.list brackets forms others] := by
  have happend := append h hothers
  rw [AllWritten, allAtoms_append] at happend
  rw [AllWritten, allAtoms_singleton, atoms]
  exact happend

theorem token {kind : TokenKind} {text : List Char} (hkind : kind ∈ kinds)
    (hcode : kind.code? = some text) : AllWritten kinds [.atom text] := by
  rw [AllWritten, allAtoms_singleton, atoms]
  exact List.forall_mem_singleton.mpr (.inr ⟨kind, hkind, hcode⟩)

theorem keyword {word : Keyword} (h : .keyword word ∈ kinds) : AllWritten kinds [.word word.text] :=
  token h rfl

theorem sequence (brackets : Brackets) (h : AllWritten kinds forms) :
    AllWritten kinds [Form.sequence brackets forms] := by
  cases forms with
  | nil =>
      rw [AllWritten, Form.sequence, allAtoms_singleton, atoms]
      exact List.forall_mem_singleton.mpr (.inl ⟨brackets, rfl⟩)
  | cons form forms =>
      rw [AllWritten, ← List.singleton_append, allAtoms_append, List.forall_mem_append] at h
      exact list brackets h.1 h.2

end Form.AllWritten

theorem Ident.written {ident : Ident} (h : ident.kind ∈ kinds) :
    Form.AllWritten kinds [ident.form] :=
  .token h rfl

theorem Ident.all_written {idents : List Ident} (h : ∀ ident ∈ idents, ident.kind ∈ kinds) :
    Form.AllWritten kinds (idents.map Ident.form) := by
  induction idents with
  | nil => exact .nil
  | cons ident idents ih =>
      obtain ⟨hident, hidents⟩ := List.forall_mem_cons.mp h
      exact (Ident.written hident).cons (ih hidents)

theorem Params.all_written {params : Params} (h : params.kinds ⊆ kinds) :
    Form.AllWritten kinds params.forms :=
  Ident.all_written fun _ hident => h (Params.kind_mem hident)

mutual

theorem Value.written {value : Value} (h : value.kinds ⊆ kinds) :
    Form.AllWritten kinds [value.form] := by
  match value with
  | .literal _ value => exact .token (h (List.mem_singleton_self _)) rfl
  | .name ident => exact Ident.written (h (List.mem_singleton_self _))
  | .branch _ condition thenArm elseArm =>
      have hparts := enclosed_subset h
      simp only [List.cons_append, List.cons_subset, List.append_subset] at hparts
      obtain ⟨hword, ⟨hcondition, hthen⟩, helse⟩ := hparts
      have hhead := (Form.AllWritten.keyword hword).cons (Value.written hcondition)
      exact hhead.list .round ((Value.written hthen).cons (Value.written helse))
  | .cond _ clauses none =>
      have hparts := enclosed_subset h
      simp only [List.cons_subset] at hparts
      have hhead := Form.AllWritten.keyword hparts.1
      exact hhead.list .round (Clause.all_written hparts.2)
  | .cond _ clauses (some value) =>
      have hparts := enclosed_subset h
      simp only [List.cons_append, List.cons_subset, List.append_subset] at hparts
      obtain ⟨hword, hclauses, hotherwise⟩ := hparts
      obtain ⟨helse, hvalue⟩ := List.cons_subset.mp (enclosed_subset hotherwise)
      have harm := (Form.AllWritten.keyword helse).list .square (Value.written hvalue)
      have hhead := Form.AllWritten.keyword hword
      exact hhead.list .round ((Clause.all_written hclauses).append harm)
  | .lambda _ params body =>
      have hparts := enclosed_subset h
      simp only [List.cons_append, List.cons_subset, List.append_subset] at hparts
      obtain ⟨hword, hparams, hbody⟩ := hparts
      have hnames := (Params.all_written (enclosed_subset hparams)).list .round .nil
      have hhead := (Form.AllWritten.keyword hword).cons hnames
      exact hhead.list .round (Value.written hbody)
  | .locals _ definitions body =>
      have hparts := enclosed_subset h
      simp only [List.cons_append, List.cons_subset, List.append_subset] at hparts
      obtain ⟨hword, hdefinitions, hbody⟩ := hparts
      have hhead := Form.AllWritten.keyword hword
      have hsequence := (Definition.all_written (enclosed_subset hdefinitions)).sequence .square
      exact hhead.list .round (hsequence.cons (Value.written hbody))
  | .lets _ kind bindings body =>
      have hparts := enclosed_subset h
      simp only [List.cons_append, List.cons_subset, List.append_subset] at hparts
      obtain ⟨hword, hbindings, hbody⟩ := hparts
      have hhead := Form.AllWritten.keyword hword
      have hsequence := (LetBinding.all_written (enclosed_subset hbindings)).sequence .round
      exact hhead.list .round (hsequence.cons (Value.written hbody))
  | .require _ library =>
      have hparts := enclosed_subset h
      simp only [List.cons_subset] at hparts
      have hhead := (Form.AllWritten.keyword hparts.1).cons (Ident.written hparts.2.1)
      exact hhead.list .round .nil
  | .call _ callee args =>
      obtain ⟨hcallee, hargs⟩ := List.append_subset.mp (enclosed_subset h)
      exact (Value.written hcallee).list .round (Value.all_written hargs)
termination_by structural value

theorem Value.all_written {values : List Value} (h : Value.allKinds values ⊆ kinds) :
    Form.AllWritten kinds (Value.forms values) := by
  match values with
  | [] => exact .nil
  | value :: values =>
      obtain ⟨hvalue, hvalues⟩ := List.append_subset.mp h
      exact (Value.written hvalue).cons (Value.all_written hvalues)
termination_by structural values

theorem Clause.written {clause : Clause} (h : clause.kinds ⊆ kinds) :
    Form.AllWritten kinds [clause.form] := by
  match clause with
  | .mk _ condition body =>
      obtain ⟨hcondition, hbody⟩ := List.append_subset.mp (enclosed_subset h)
      exact (Value.written hcondition).list .square (Value.written hbody)
termination_by structural clause

theorem Clause.all_written {clauses : List Clause} (h : Clause.allKinds clauses ⊆ kinds) :
    Form.AllWritten kinds (Clause.forms clauses) := by
  match clauses with
  | [] => exact .nil
  | clause :: clauses =>
      obtain ⟨hclause, hclauses⟩ := List.append_subset.mp h
      exact (Clause.written hclause).cons (Clause.all_written hclauses)
termination_by structural clauses

theorem LetBinding.written {binding : LetBinding} (h : binding.kinds ⊆ kinds) :
    Form.AllWritten kinds [binding.form] := by
  match binding with
  | .mk _ name value =>
      obtain ⟨hname, hvalue⟩ := List.cons_subset.mp (enclosed_subset h)
      exact (Ident.written hname).list .square (Value.written hvalue)
termination_by structural binding

theorem LetBinding.all_written {bindings : List LetBinding}
    (h : LetBinding.allKinds bindings ⊆ kinds) :
    Form.AllWritten kinds (LetBinding.forms bindings) := by
  match bindings with
  | [] => exact .nil
  | binding :: bindings =>
      obtain ⟨hbinding, hbindings⟩ := List.append_subset.mp h
      exact (LetBinding.written hbinding).cons (LetBinding.all_written hbindings)
termination_by structural bindings

theorem Definition.written {definition : Definition} (h : definition.kinds ⊆ kinds) :
    Form.AllWritten kinds [definition.form] := by
  match definition with
  | .function _ _ name params body =>
      have hparts := enclosed_subset h
      simp only [List.cons_append, List.cons_subset, List.append_subset] at hparts
      obtain ⟨hword, hsignature, hbody⟩ := hparts
      obtain ⟨hname, hparams⟩ := List.cons_subset.mp (enclosed_subset hsignature)
      have hnames := ((Ident.written hname).cons (Params.all_written hparams)).list .round .nil
      have hhead := (Form.AllWritten.keyword hword).cons hnames
      exact hhead.list .round (Value.written hbody)
  | .constant _ _ name value =>
      have hparts := enclosed_subset h
      simp only [List.cons_subset] at hparts
      obtain ⟨hword, hname, hvalue⟩ := hparts
      have hhead := (Form.AllWritten.keyword hword).cons (Ident.written hname)
      exact hhead.list .round (Value.written hvalue)
termination_by structural definition

theorem Definition.all_written {definitions : List Definition}
    (h : Definition.allKinds definitions ⊆ kinds) :
    Form.AllWritten kinds (Definition.forms definitions) := by
  match definitions with
  | [] => exact .nil
  | definition :: definitions =>
      obtain ⟨hdefinition, hdefinitions⟩ := List.append_subset.mp h
      exact (Definition.written hdefinition).cons (Definition.all_written hdefinitions)
termination_by structural definitions

end

theorem StructDefinition.written {definition : StructDefinition} (h : definition.kinds ⊆ kinds) :
    Form.AllWritten kinds [definition.form] := by
  have hparts := enclosed_subset h
  simp only [List.cons_subset] at hparts
  obtain ⟨hword, hname, hfields⟩ := hparts
  have hhead := (Form.AllWritten.keyword hword).cons (Ident.written hname)
  have hnames := (Params.all_written (enclosed_subset hfields)).list .round .nil
  exact hhead.list .round hnames

/-- The atoms of an emitted form are the texts of its tokens, and empty pairs of brackets. -/
theorem TopLevel.written (form : TopLevel) : Form.AllWritten form.kinds [form.form] := by
  cases form with
  | definition form => exact Definition.written (List.Subset.refl _)
  | struct form => exact StructDefinition.written (List.Subset.refl _)
  | value form => exact Value.written (List.Subset.refl _)

end Written

/-! ## The texts of scanned tokens -/

/-- The character is none of those that layout puts between items. -/
def IsSolid (c : Char) : Prop :=
  c ≠ ' ' ∧ c ≠ '\t' ∧ c ≠ '\n'

instance (c : Char) : Decidable (IsSolid c) :=
  inferInstanceAs (Decidable (c ≠ ' ' ∧ c ≠ '\t' ∧ c ≠ '\n'))

theorem isSolid_of_isDigit {c : Char} (h : c.isDigit = true) : IsSolid c := by
  refine ⟨?_, ?_, ?_⟩
  all_goals
    rintro rfl
    exact absurd h (by decide)

theorem isSolid_of_isIdentifierChar {c : Char} (h : isIdentifierChar c = true) : IsSolid c := by
  refine ⟨?_, ?_, ?_⟩
  all_goals
    rintro rfl
    exact absurd h (by decide)

/-- A text that layout cannot be taken for. -/
def Solid (text : List Char) : Prop :=
  text ≠ [] ∧ ∀ c ∈ text, IsSolid c

instance (text : List Char) : Decidable (Solid text) :=
  decidable_of_iff (text.isEmpty = false ∧ text.all (fun c => decide (IsSolid c)) = true) (by
    simp [Solid, List.all_eq_true])

section Solid

variable {text : List Char}

theorem Solid.startsVisibly (h : Solid text) : StartsVisibly text := by
  obtain ⟨hne, hall⟩ := h
  obtain ⟨c, rest, rfl⟩ := List.exists_cons_of_ne_nil hne
  obtain ⟨hspace, htab, -⟩ := hall c List.mem_cons_self
  exact ⟨c, rest, rfl, hspace, htab⟩

theorem Solid.newline_notMem (h : Solid text) : '\n' ∉ text :=
  fun hmem => (h.2 '\n' hmem).2.2 rfl

theorem solid_digits (n : Nat) : Solid (Nat.toDigits 10 n) :=
  ⟨Nat.toDigits_ne_nil, fun _ hc => isSolid_of_isDigit (isDigit_of_mem_toDigits hc)⟩

/-- Digits around a point or a slash. -/
theorem solid_parts {whole part : List Char} {mark : Char} (hmark : IsSolid mark)
    (h : ∀ c ∈ whole ++ part, c.isDigit = true) : Solid (whole ++ mark :: part) := by
  refine ⟨by simp, fun c hc => ?_⟩
  rcases List.mem_append.mp hc with hc | hc
  · exact isSolid_of_isDigit (h c (List.mem_append_left _ hc))
  · rcases List.mem_cons.mp hc with rfl | hc
    · exact hmark
    · exact isSolid_of_isDigit (h c (List.mem_append_right _ hc))

theorem solid_word {word : String} (h : IsWord word) : Solid word.toList := by
  obtain ⟨c, cs, hword, hc, hcs, -⟩ := h
  rw [hword]
  refine ⟨List.cons_ne_nil _ _, List.forall_mem_cons.mpr ⟨?_, fun d hd => ?_⟩⟩
  · exact isSolid_of_isIdentifierChar (isIdentifierChar_of_isIdentifierStart hc)
  · exact isSolid_of_isIdentifierChar (hcs d hd)

theorem solid_keyword (word : Keyword) : Solid word.text.toList := by
  cases word with
  | lets kind => cases kind <;> decide
  | _ => decide

/-- Literals have no blanks, strings apart. -/
theorem solid_literal {value : Literal} (h : (TokenKind.literal value).Scanned)
    (hstring : ∀ s, value ≠ .string s) : Solid value.code := by
  cases value with
  | integer value =>
      obtain ⟨n, rfl⟩ := Int.eq_ofNat_of_zero_le h.1
      rw [Literal.code_integer]
      exact solid_digits n
  | fraction numerator denominator =>
      obtain ⟨⟨hnumerator, -⟩, hdenominator, -⟩ := h
      obtain ⟨n, rfl⟩ := Int.eq_ofNat_of_zero_le hnumerator
      obtain ⟨d, rfl⟩ := Int.eq_ofNat_of_zero_le (Int.le_of_lt hdenominator)
      rw [Literal.code_fraction]
      exact solid_parts (by decide) (List.forall_mem_append.mpr
        ⟨fun _ => isDigit_of_mem_toDigits, fun _ => isDigit_of_mem_toDigits⟩)
  | decimal value =>
      rcases h with ⟨m, rfl⟩ | rfl
      · obtain ⟨d, ⟨whole, part, htext, -, -, hall, -⟩, -⟩ := m.code_spelled
        rw [Literal.code_finite, htext]
        exact solid_parts (by decide) hall
      · decide
  | string value => exact absurd rfl (hstring value)
  | boolean value => cases value <;> decide
  | symbol name =>
      refine ⟨List.cons_ne_nil _ _, List.forall_mem_cons.mpr ⟨by decide, fun c hc => ?_⟩⟩
      exact isSolid_of_isIdentifierChar (h c hc)

/-- Texts of scanned tokens have no blanks, if they are not strings. -/
theorem TokenKind.Scanned.code {kind : TokenKind} (h : kind.Scanned)
    (hcode : kind.code? = some text) :
    Solid text ∨ ∃ s, kind = .literal (.string s) ∧ text = quotedString s := by
  match kind with
  | .keyword word =>
      obtain rfl : word.text.toList = text := Option.some.inj hcode
      exact .inl (solid_keyword word)
  | .identifier name =>
      obtain rfl : name.toList = text := Option.some.inj hcode
      exact .inl (solid_word h.1)
  | .literal value =>
      obtain rfl : value.code = text := Option.some.inj hcode
      by_cases hstring : ∃ s, value = .string s
      · obtain ⟨s, rfl⟩ := hstring
        exact .inr ⟨s, rfl, rfl⟩
      · exact .inl (solid_literal h (not_exists.mp hstring))

end Solid

/-- An atom of a scanned program has no blanks, or it is one of the program's strings. -/
theorem TopLevel.atom_cases {form : TopLevel} (h : ∀ kind ∈ form.kinds, kind.Scanned)
    {text : List Char} (htext : text ∈ Form.allAtoms [form.form]) :
    Solid text ∨ ∃ s, TokenKind.literal (.string s) ∈ form.kinds ∧ text = quotedString s := by
  rcases form.written text htext with ⟨brackets, rfl⟩ | ⟨kind, hkind, hcode⟩
  · exact .inl (by cases brackets <;> decide)
  · rcases (h kind hkind).code hcode with hsolid | ⟨s, rfl, htext⟩
    · exact .inl hsolid
    · exact .inr ⟨s, hkind, htext⟩

theorem startsVisibly_quotedString (s : String) : StartsVisibly (quotedString s) :=
  ⟨'"', _, rfl, by decide⟩

end TypedIsl

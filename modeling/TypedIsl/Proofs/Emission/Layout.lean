import TypedIsl.Proofs.Syntax.Spelling
import TypedIsl.Proofs.Token.Lexing

/-!
# Every layout of a form says the same

What a form says is read off its atoms and brackets. Both layouts of a list put a blank between any
two of its items, so the form spells what it says on one line, and however its lines are broken.
-/

namespace TypedIsl

/-! ## Tokens that can be read again -/

/-- What a token can hold that is emitted and scanned again. -/
def TokenKind.Readable (kind : TokenKind) : Prop :=
  kind.Scanned ∧ ∀ negative, kind ≠ .literal (.decimal (.infinite negative))

/-- Every one of the kinds is readable. -/
def AllReadable (kinds : List TokenKind) : Prop :=
  ∀ kind ∈ kinds, kind.Readable

theorem allReadable_append {kinds more : List TokenKind} :
    AllReadable (kinds ++ more) ↔ AllReadable kinds ∧ AllReadable more :=
  List.forall_mem_append

theorem allReadable_cons {kind : TokenKind} {kinds : List TokenKind} :
    AllReadable (kind :: kinds) ↔ kind.Readable ∧ AllReadable kinds :=
  List.forall_mem_cons

theorem allReadable_nil : AllReadable [] :=
  fun _ hkind => absurd hkind List.not_mem_nil

theorem allReadable_singleton {kind : TokenKind} (h : kind.Readable) : AllReadable [kind] :=
  allReadable_cons.mpr ⟨h, allReadable_nil⟩

theorem allReadable_enclosed {kinds : List TokenKind} (h : AllReadable kinds) :
    AllReadable (enclosed kinds) := by
  have hopen : TokenKind.openParen.Readable := ⟨trivial, by simp⟩
  have hclose : TokenKind.closeParen.Readable := ⟨trivial, by simp⟩
  exact allReadable_append.mpr ⟨allReadable_cons.mpr ⟨hopen, h⟩, allReadable_singleton hclose⟩

/-! ## What a form says -/

mutual

/-- Atoms spell tokens, and a list encloses what its items say. -/
def Form.Says : Form → List TokenKind → Prop
  | .atom text, kinds => Spells text kinds ∧ AllReadable kinds
  | .list _ head rest, kinds => ∃ first second,
      Form.AllSay head first ∧ Form.AllSay rest second ∧ kinds = enclosed (first ++ second)

def Form.AllSay : List Form → List TokenKind → Prop
  | [], kinds => kinds = []
  | form :: forms, kinds => ∃ first second,
      form.Says first ∧ Form.AllSay forms second ∧ kinds = first ++ second

end

mutual

theorem Form.Says.allReadable {form : Form} {kinds : List TokenKind} (h : form.Says kinds) :
    AllReadable kinds := by
  match form with
  | .atom text => exact h.2
  | .list brackets head rest =>
      obtain ⟨first, second, hhead, hrest, rfl⟩ := h
      have hitems := allReadable_append.mpr
        ⟨Form.AllSay.allReadable hhead, Form.AllSay.allReadable hrest⟩
      exact allReadable_enclosed hitems
termination_by structural form

theorem Form.AllSay.allReadable {forms : List Form} {kinds : List TokenKind}
    (h : Form.AllSay forms kinds) : AllReadable kinds := by
  match forms with
  | [] =>
      rw [Form.AllSay] at h
      rw [h]
      exact allReadable_nil
  | form :: forms =>
      obtain ⟨first, second, hform, hforms, rfl⟩ := h
      exact allReadable_append.mpr ⟨Form.Says.allReadable hform, Form.AllSay.allReadable hforms⟩
termination_by structural forms

end

theorem Form.Says.of_eq {form : Form} {kinds more : List TokenKind} (h : form.Says kinds)
    (heq : kinds = more) : form.Says more :=
  heq ▸ h

namespace Form

variable {form : Form} {forms others head rest : List Form} {kinds more : List TokenKind}

theorem allSay_nil : AllSay [] [] :=
  rfl

theorem Says.cons (h : form.Says kinds) (hforms : AllSay forms more) :
    AllSay (form :: forms) (kinds ++ more) :=
  ⟨_, _, h, hforms, rfl⟩

theorem Says.single (h : form.Says kinds) : AllSay [form] kinds :=
  ⟨_, _, h, allSay_nil, (List.append_nil _).symm⟩

theorem AllSay.append (h : AllSay forms kinds) (hothers : AllSay others more) :
    AllSay (forms ++ others) (kinds ++ more) := by
  induction forms generalizing kinds with
  | nil =>
      rw [AllSay] at h
      rw [h]
      exact hothers
  | cons form forms ih =>
      obtain ⟨first, second, hform, hforms, rfl⟩ := h
      rw [List.append_assoc]
      exact hform.cons (ih hforms)

theorem AllSay.list (brackets : Brackets) (hhead : AllSay head kinds) (hrest : AllSay rest more) :
    (Form.list brackets head rest).Says (enclosed (kinds ++ more)) :=
  ⟨_, _, hhead, hrest, rfl⟩

end Form

/-! ## Putting pieces together -/

/-- A piece that adds tokens and does not run into what stands before it. -/
def Continues (piece : List Char) (kinds : List TokenKind) : Prop :=
  ∀ rest more, Delimited rest → LexesTo rest more →
    Delimited (piece ++ rest) ∧ LexesTo (piece ++ rest) (kinds ++ more)

section Pieces

variable {piece other : List Char} {kinds more : List TokenKind}

theorem spells_nil : Spells [] [] :=
  fun _ _ _ h => h

theorem continues_nil : Continues [] [] :=
  fun _ _ hrest h => ⟨hrest, h⟩

theorem Continues.spells (h : Continues piece kinds) : Spells piece kinds :=
  fun rest more hrest hmore => (h rest more hrest hmore).2

theorem Spells.append (h : Spells piece kinds) (hother : Continues other more) :
    Spells (piece ++ other) (kinds ++ more) := by
  intro rest after hrest hafter
  obtain ⟨hdelimited, hlexes⟩ := hother rest after hrest hafter
  rw [List.append_assoc, List.append_assoc]
  exact h _ _ hdelimited hlexes

theorem Continues.append (h : Continues piece kinds) (hother : Continues other more) :
    Continues (piece ++ other) (kinds ++ more) := by
  intro rest after hrest hafter
  obtain ⟨hdelimited, hlexes⟩ := hother rest after hrest hafter
  rw [List.append_assoc, List.append_assoc]
  exact h _ _ hdelimited hlexes

/-- A piece with a space or a newline in front of it, and maybe more blanks. -/
theorem Spells.after_blanks {c : Char} {blanks : List Char} (hc : c = ' ' ∨ c = '\n')
    (hblanks : ∀ d ∈ blanks, d = ' ' ∨ d = '\t' ∨ d = '\n') (h : Spells piece kinds) :
    Continues (c :: blanks ++ piece) kinds := by
  intro rest more hrest hmore
  have hlexes := (h rest more hrest hmore).blanks hblanks
  rw [List.cons_append, List.cons_append, List.append_assoc]
  rcases hc with rfl | rfl
  · exact ⟨delimited_cons (by decide) _, hlexes.blankChar rfl⟩
  · exact ⟨delimited_cons (by decide) _, hlexes.blankChar rfl⟩

theorem Spells.enclosed (brackets : Brackets) (h : Spells piece kinds) :
    Spells (brackets.opening :: piece ++ [brackets.closing]) (enclosed kinds) := by
  intro rest more hrest hmore
  have hdelimited : Delimited (brackets.closing :: rest) := by
    cases brackets
    all_goals exact delimited_cons (by decide) rest
  have hlexes := h _ _ hdelimited (hmore.closing brackets)
  rw [TypedIsl.enclosed]
  simpa using hlexes.opening brackets

end Pieces

/-- Pieces that spell tokens one after the other. -/
def AllSpell : List (List Char) → List TokenKind → Prop
  | [], kinds => kinds = []
  | piece :: pieces, kinds => ∃ first second,
      Spells piece first ∧ AllSpell pieces second ∧ kinds = first ++ second

theorem AllSpell.append {pieces others : List (List Char)} {kinds more : List TokenKind}
    (h : AllSpell pieces kinds) (hothers : AllSpell others more) :
    AllSpell (pieces ++ others) (kinds ++ more) := by
  induction pieces generalizing kinds with
  | nil =>
      rw [AllSpell] at h
      rw [h]
      exact hothers
  | cons piece pieces ih =>
      obtain ⟨first, second, hpiece, hpieces, rfl⟩ := h
      exact ⟨first, second ++ more, hpiece, ih hpieces, List.append_assoc ..⟩

/-- Pieces with a space between any two. -/
theorem AllSpell.spells_intercalate {pieces : List (List Char)} {kinds : List TokenKind}
    (h : AllSpell pieces kinds) : Spells ([' '].intercalate pieces) kinds := by
  induction pieces generalizing kinds with
  | nil =>
      rw [AllSpell] at h
      rw [h]
      exact spells_nil
  | cons piece pieces ih =>
      obtain ⟨first, second, hpiece, hpieces, rfl⟩ := h
      cases pieces with
      | nil =>
          rw [AllSpell] at hpieces
          rw [hpieces, List.append_nil, List.intercalate_singleton]
          exact hpiece
      | cons other pieces =>
          have hnext : Continues ([' '] ++ [' '].intercalate (other :: pieces)) second :=
            (ih hpieces).after_blanks (.inl rfl) (by simp)
          rw [List.intercalate_cons_cons, List.append_assoc]
          exact hpiece.append hnext

/-! ## Both layouts -/

mutual

theorem Form.Says.spells_flat {form : Form} {kinds : List TokenKind} (h : form.Says kinds) :
    Spells form.flat kinds := by
  match form with
  | .atom text => exact h.1
  | .list brackets head rest =>
      obtain ⟨first, second, hhead, hrest, rfl⟩ := h
      have hpieces := (Form.AllSay.allSpell_flats hhead).append (Form.AllSay.allSpell_flats hrest)
      exact hpieces.spells_intercalate.enclosed brackets
termination_by structural form

theorem Form.AllSay.allSpell_flats {forms : List Form} {kinds : List TokenKind}
    (h : Form.AllSay forms kinds) : AllSpell (Form.flats forms) kinds := by
  match forms with
  | [] => exact h
  | form :: forms =>
      obtain ⟨first, second, hform, hforms, rfl⟩ := h
      exact ⟨first, second, Form.Says.spells_flat hform, Form.AllSay.allSpell_flats hforms, rfl⟩
termination_by structural forms

end

theorem Indent.blank_text (indent : Indent) (level : Nat) :
    ∀ c ∈ indent.text level, c = ' ' ∨ c = '\t' ∨ c = '\n' := by
  intro c hc
  cases indent with
  | spaces count => exact .inl (List.eq_of_mem_replicate hc)
  | tab => exact .inr (.inl (List.eq_of_mem_replicate hc))

section Layout

variable (indent : Indent)

mutual

/-- However its lines are broken, a form spells what it says. -/
theorem Form.Says.spells_layout {form : Form} {kinds : List TokenKind} (h : form.Says kinds)
    (level column : Nat) : Spells (form.layout indent level column) kinds := by
  match form with
  | .atom text => exact h.1
  | .list brackets head rest =>
      rw [Form.layout]
      split
      · exact Form.Says.spells_flat h
      · obtain ⟨first, second, hhead, hrest, rfl⟩ := h
        have hbody := (Form.AllSay.spells_layoutHead hhead (level + 1) (column + 1)).append
          (Form.AllSay.continues_layoutRest hrest (level + 1))
        exact hbody.enclosed brackets
termination_by structural form

theorem Form.AllSay.spells_layoutHead {forms : List Form} {kinds : List TokenKind}
    (h : Form.AllSay forms kinds) (level column : Nat) :
    Spells (Form.layoutHead indent level column forms) kinds := by
  match forms with
  | [] =>
      rw [Form.AllSay] at h
      rw [h]
      exact spells_nil
  | form :: forms =>
      obtain ⟨first, second, hform, hforms, rfl⟩ := h
      exact (Form.Says.spells_layout hform level column).append
        (Form.AllSay.continues_layoutMore hforms level _)
termination_by structural forms

theorem Form.AllSay.continues_layoutMore {forms : List Form} {kinds : List TokenKind}
    (h : Form.AllSay forms kinds) (level column : Nat) :
    Continues (Form.layoutMore indent level column forms) kinds := by
  match forms with
  | [] =>
      rw [Form.AllSay] at h
      rw [h]
      exact continues_nil
  | form :: forms =>
      obtain ⟨first, second, hform, hforms, rfl⟩ := h
      have hnext : Continues ([' '] ++ form.layout indent level (column + 1)) first :=
        (Form.Says.spells_layout hform level (column + 1)).after_blanks (.inl rfl) (by simp)
      exact hnext.append (Form.AllSay.continues_layoutMore hforms level _)
termination_by structural forms

theorem Form.AllSay.continues_layoutRest {forms : List Form} {kinds : List TokenKind}
    (h : Form.AllSay forms kinds) (level : Nat) :
    Continues (Form.layoutRest indent level forms) kinds := by
  match forms with
  | [] =>
      rw [Form.AllSay] at h
      rw [h]
      exact continues_nil
  | form :: forms =>
      obtain ⟨first, second, hform, hforms, rfl⟩ := h
      have hnext := (Form.Says.spells_layout hform level (indent.width level)).after_blanks
        (.inr rfl) (indent.blank_text level)
      exact hnext.append (Form.AllSay.continues_layoutRest hforms level)
termination_by structural forms

end

end Layout

end TypedIsl

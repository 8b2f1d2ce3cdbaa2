import Mathlib.Data.List.DropRight
import TypedIsl.Emission.Form

/-!
# Printed forms

A printed form is its rendering on one line with some of the spaces between its items replaced by
newlines and indentation. Every list form in it has its place in the text, and so a column at which
it starts and a line on which it ends.
-/

namespace TypedIsl

/-! ## Lines and columns -/

/-- The part of a text that stands on its last line. -/
def lastLine (text : List Char) : List Char :=
  text.rtakeWhile (· ≠ '\n')

/-- The part of a text that stands on its first line. -/
def firstLine (text : List Char) : List Char :=
  text.takeWhile (· ≠ '\n')

/-- The columns that a line takes up: eight for a tab of its indentation, one for every other
character. -/
def lineWidth (line : List Char) : Nat :=
  line.length + 7 * (line.takeWhile (· = '\t')).length

/-- The column that is reached at the end of a text. -/
def columnOf (text : List Char) : Nat :=
  lineWidth (lastLine text)

section Lines

variable {text more line word : List Char}

theorem lastLine_append (h : '\n' ∉ more) : lastLine (text ++ more) = lastLine text ++ more := by
  have hmore : ∀ c ∈ more.reverse, decide (c ≠ '\n') = true := by
    intro c hc
    rw [decide_eq_true_eq]
    rintro rfl
    exact h (List.mem_reverse.mp hc)
  rw [lastLine, lastLine, List.rtakeWhile, List.reverse_append,
    List.takeWhile_append_of_pos hmore, List.reverse_append, List.reverse_reverse, List.rtakeWhile]

theorem lastLine_newline (h : '\n' ∉ line) : lastLine (text ++ '\n' :: line) = line := by
  rw [List.append_cons, lastLine_append h, lastLine, List.rtakeWhile_concat_neg _ _ _ (by simp)]
  rfl

theorem firstLine_append (h : '\n' ∉ text) : firstLine (text ++ more) = text ++ firstLine more := by
  refine List.takeWhile_append_of_pos fun c hc => ?_
  rw [decide_eq_true_eq]
  rintro rfl
  exact h hc

theorem firstLine_newline : firstLine ('\n' :: text) = [] :=
  rfl

theorem lineWidth_append (h : word.head? ≠ some '\t') :
    lineWidth (line ++ word) = lineWidth line + word.length := by
  have hword : word.takeWhile (· = '\t') = [] := by
    cases word with
    | nil => rfl
    | cons c word => exact List.takeWhile_cons_of_neg (by simpa using h)
  have htabs : ((line ++ word).takeWhile (· = '\t')).length =
      (line.takeWhile (· = '\t')).length := by
    rw [List.takeWhile_append, hword, List.append_nil]
    split
    · exact Eq.symm ‹_›
    · rfl
  rw [lineWidth, lineWidth, htabs, List.length_append]
  omega

/-- A word moves the column by its length, if it is not indentation. -/
theorem columnOf_append (hline : '\n' ∉ word) (htab : word.head? ≠ some '\t') :
    columnOf (text ++ word) = columnOf text + word.length := by
  rw [columnOf, lastLine_append hline, lineWidth_append htab, columnOf]

theorem columnAfter_of_oneLine {column : Nat} (h : '\n' ∉ word) :
    columnAfter column word = column + word.length := by
  induction word generalizing column with
  | nil => rfl
  | cons c word ih =>
      obtain ⟨hc, hword⟩ := not_or.mp (List.mem_cons.not.mp h)
      have hstep : columnAfter column (c :: word) = columnAfter (column + 1) word := by
        simp [columnAfter, Ne.symm hc]
      rw [hstep, ih hword, List.length_cons]
      omega

theorem Indent.newline_notMem_text (indent : Indent) (level : Nat) :
    '\n' ∉ indent.text level := by
  cases indent <;> simp [Indent.text, List.mem_replicate]

theorem Indent.lineWidth_text (indent : Indent) (level : Nat) :
    lineWidth (indent.text level) = indent.width level := by
  cases indent with
  | spaces count =>
      have hspaces : (List.replicate (count * level) ' ').takeWhile (· = '\t') = [] := by
        rw [List.takeWhile_replicate]
        rfl
      simp [lineWidth, Indent.text, Indent.width, hspaces]
  | tab =>
      have htabs : (List.replicate level '\t').takeWhile (· = '\t') =
          List.replicate level '\t' := by
        rw [List.takeWhile_replicate]
        rfl
      simp only [lineWidth, Indent.text, Indent.width, htabs, List.length_replicate]
      omega

/-- On a line of its own a form starts behind the indentation. -/
theorem Indent.columnOf_newline (indent : Indent) (level : Nat) :
    columnOf (text ++ '\n' :: indent.text level) = indent.width level := by
  rw [columnOf, lastLine_newline (indent.newline_notMem_text level), indent.lineWidth_text]

end Lines

section Brackets

variable (brackets : Brackets)

@[simp]
theorem Brackets.newline_ne_opening : '\n' ≠ brackets.opening := by
  cases brackets <;> decide

@[simp]
theorem Brackets.newline_ne_closing : '\n' ≠ brackets.closing := by
  cases brackets <;> decide

@[simp]
theorem Brackets.opening_ne_space : brackets.opening ≠ ' ' := by
  cases brackets <;> decide

@[simp]
theorem Brackets.opening_ne_tab : brackets.opening ≠ '\t' := by
  cases brackets <;> decide

end Brackets

/-! ## Printed forms -/

/-- What stands between two items of a list: a space, or a newline and levels of indentation. -/
def Indent.Gap (indent : Indent) (gap : List Char) : Prop :=
  gap = [' '] ∨ ∃ level, gap = '\n' :: indent.text level

/-- A list form in a printed text, with the gaps between its items. -/
structure Placed where
  before : List Char
  form : Form
  gaps : List (List Char)
  text : List Char
  after : List Char

/-- The same form in a text with more around it. -/
def Placed.within (left right : List Char) (placed : Placed) : Placed :=
  { placed with before := left ++ placed.before, after := placed.after ++ right }

/-- Forms with gaps between them: the rendering with a space for every gap, the printed text, the
gaps, and the list forms in the text. -/
inductive Form.Print (indent : Indent) :
    List Form → List Char → List Char → List (List Char) → List Placed → Prop where
  | nil : Print indent [] [] [] [] []
  | atom (text : List Char) : Print indent [.atom text] text text [] []
  | list (brackets : Brackets) {head rest oneLine text gaps lists}
      (items : Print indent (head ++ rest) oneLine text gaps lists) :
      Print indent [.list brackets head rest]
        (brackets.opening :: oneLine ++ [brackets.closing])
        (brackets.opening :: text ++ [brackets.closing]) []
        (⟨[], .list brackets head rest, gaps, brackets.opening :: text ++ [brackets.closing], []⟩ ::
          lists.map (Placed.within [brackets.opening] [brackets.closing]))
  | cons {form next forms oneLine more text others gap gaps lists placed}
      (first : Print indent [form] oneLine text [] lists) (between : indent.Gap gap)
      (following : Print indent (next :: forms) more others gaps placed) :
      Print indent (form :: next :: forms) (oneLine ++ ' ' :: more) (text ++ gap ++ others)
        (gap :: gaps)
        (lists.map (Placed.within [] (gap ++ others)) ++
          placed.map (Placed.within (text ++ gap) []))

/-- Whether a list has items that go on their own lines if it is broken. -/
def Form.CanBreak : Form → Prop
  | .atom _ => False
  | .list _ _ rest => rest ≠ []

namespace Placed

/-- The gaps before the items that go on their own lines if the form is broken. -/
def breaks (placed : Placed) : List (List Char) :=
  match placed.form with
  | .atom _ => []
  | .list _ head _ => placed.gaps.drop (head.length - 1)

/-- None of the items that could go on their own lines does. -/
def Unbroken (placed : Placed) : Prop :=
  ∀ gap ∈ placed.breaks, gap = [' ']

/-- The whole line on which the form starts, in a text with `before` and `after` around it. -/
def line (before after : List Char) (placed : Placed) : List Char :=
  lastLine (before ++ placed.before) ++ firstLine (placed.text ++ placed.after ++ after)

end Placed

mutual

/-- The texts of a form's atoms. -/
def Form.atoms : Form → List (List Char)
  | .atom text => [text]
  | .list _ head rest => Form.allAtoms head ++ Form.allAtoms rest

def Form.allAtoms : List Form → List (List Char)
  | [] => []
  | form :: forms => form.atoms ++ Form.allAtoms forms

end

theorem Form.allAtoms_append (forms others : List Form) :
    allAtoms (forms ++ others) = allAtoms forms ++ allAtoms others := by
  induction forms with
  | nil => rfl
  | cons form forms ih => rw [List.cons_append, allAtoms, ih, allAtoms, List.append_assoc]

theorem Form.allAtoms_singleton (form : Form) : allAtoms [form] = form.atoms := by
  rw [allAtoms, allAtoms, List.append_nil]

theorem Form.flats_append (forms others : List Form) :
    flats (forms ++ others) = flats forms ++ flats others := by
  induction forms with
  | nil => rfl
  | cons form forms ih => rw [List.cons_append, flats, ih, flats, List.cons_append]

/-- The forms on one line, with a space between any two. -/
def Form.oneLine (forms : List Form) : List Char :=
  [' '].intercalate (Form.flats forms)

theorem Form.oneLine_cons (form next : Form) (forms : List Form) :
    oneLine (form :: next :: forms) = form.flat ++ ' ' :: oneLine (next :: forms) := by
  rw [oneLine, flats, flats, List.intercalate_cons_cons, List.append_assoc, oneLine, flats]
  rfl

theorem Form.oneLine_singleton (form : Form) : oneLine [form] = form.flat := by
  rw [oneLine, flats, flats, List.intercalate_singleton]

theorem Form.flat_list (brackets : Brackets) (head rest : List Form) :
    (Form.list brackets head rest).flat =
      brackets.opening :: oneLine (head ++ rest) ++ [brackets.closing] := by
  rw [flat, oneLine, flats_append]

mutual

/-- Induction over forms, with the items of a list all together. -/
@[elab_as_elim]
theorem Form.items_induction {motive : Form → Prop} (atom : ∀ text, motive (.atom text))
    (list : ∀ brackets head rest, (∀ item ∈ head ++ rest, motive item) →
      motive (.list brackets head rest)) (form : Form) : motive form := by
  match form with
  | .atom text => exact atom text
  | .list brackets head rest =>
      exact list brackets head rest (List.forall_mem_append.mpr
        ⟨Form.all_items_induction atom list head, Form.all_items_induction atom list rest⟩)
termination_by structural form

theorem Form.all_items_induction {motive : Form → Prop} (atom : ∀ text, motive (.atom text))
    (list : ∀ brackets head rest, (∀ item ∈ head ++ rest, motive item) →
      motive (.list brackets head rest)) (forms : List Form) : ∀ item ∈ forms, motive item := by
  match forms with
  | [] => exact List.forall_mem_nil _
  | form :: forms =>
      exact List.forall_mem_cons.mpr
        ⟨Form.items_induction atom list form, Form.all_items_induction atom list forms⟩
termination_by structural forms

end

theorem Form.newline_mem_oneLine {forms : List Form}
    (h : ∀ item ∈ forms, '\n' ∈ item.flat ↔ ∃ text ∈ item.atoms, '\n' ∈ text) :
    '\n' ∈ oneLine forms ↔ ∃ text ∈ allAtoms forms, '\n' ∈ text := by
  induction forms with
  | nil => simp [oneLine, flats, allAtoms]
  | cons form forms ih =>
      obtain ⟨hform, hforms⟩ := List.forall_mem_cons.mp h
      simp only [allAtoms, List.mem_append, or_and_right, exists_or, ← hform]
      cases forms with
      | nil => simp [oneLine_singleton, allAtoms]
      | cons next forms => simp [oneLine_cons, ← ih hforms]

/-- Only an atom can bring a newline into the rendering on one line. -/
theorem Form.newline_mem_flat (form : Form) :
    '\n' ∈ form.flat ↔ ∃ text ∈ form.atoms, '\n' ∈ text := by
  induction form using Form.items_induction with
  | atom text => simp [flat, atoms]
  | list brackets head rest ih =>
      rw [flat_list, atoms, ← allAtoms_append, ← newline_mem_oneLine ih]
      simp

section Print

variable {indent : Indent} {forms : List Form} {oneLine text : List Char} {gaps : List (List Char)}
  {lists : List Placed}

/-- A placed form stands where it says. -/
theorem Form.Print.place (h : Form.Print indent forms oneLine text gaps lists) {placed : Placed}
    (hplaced : placed ∈ lists) : placed.before ++ placed.text ++ placed.after = text := by
  induction h generalizing placed with
  | nil => exact absurd hplaced List.not_mem_nil
  | atom text => exact absurd hplaced List.not_mem_nil
  | list brackets items ih =>
      rcases List.mem_cons.mp hplaced with rfl | hplaced
      · simp
      · obtain ⟨inner, hinner, rfl⟩ := List.mem_map.mp hplaced
        simp [Placed.within, ← ih hinner]
  | cons first between following ihFirst ihFollowing =>
      rcases List.mem_append.mp hplaced with hplaced | hplaced
      · obtain ⟨inner, hinner, rfl⟩ := List.mem_map.mp hplaced
        simp [Placed.within, ← ihFirst hinner]
      · obtain ⟨inner, hinner, rfl⟩ := List.mem_map.mp hplaced
        simp [Placed.within, ← ihFollowing hinner]

/-- The placed forms have no atoms but those of the forms they stand in. -/
theorem Form.Print.atoms_subset (h : Form.Print indent forms oneLine text gaps lists)
    {placed : Placed} (hplaced : placed ∈ lists) : placed.form.atoms ⊆ Form.allAtoms forms := by
  induction h generalizing placed with
  | nil => exact absurd hplaced List.not_mem_nil
  | atom text => exact absurd hplaced List.not_mem_nil
  | list brackets items ih =>
      rw [Form.allAtoms_singleton]
      rcases List.mem_cons.mp hplaced with rfl | hplaced
      · exact List.Subset.refl _
      · obtain ⟨inner, hinner, rfl⟩ := List.mem_map.mp hplaced
        rw [Form.atoms, ← Form.allAtoms_append]
        simpa only [Placed.within] using ih hinner
  | cons first between following ihFirst ihFollowing =>
      rw [Form.allAtoms]
      rcases List.mem_append.mp hplaced with hplaced | hplaced
      · obtain ⟨inner, hinner, rfl⟩ := List.mem_map.mp hplaced
        have hsubset := ihFirst hinner
        rw [Form.allAtoms_singleton] at hsubset
        exact List.Subset.trans hsubset (List.subset_append_left _ _)
      · obtain ⟨inner, hinner, rfl⟩ := List.mem_map.mp hplaced
        have hsubset := ihFollowing hinner
        exact List.Subset.trans hsubset (List.subset_append_right _ _)

end Print

/-! ## The places are determined by the text -/

/-- The text is not empty and does not begin like an indentation. -/
def StartsVisibly (text : List Char) : Prop :=
  ∃ c rest, text = c :: rest ∧ c ≠ ' ' ∧ c ≠ '\t'

section Unique

variable {indent : Indent} {forms : List Form}
  {oneLine oneLine' text text' gap gap' after after' : List Char} {gaps gaps' : List (List Char)}
  {lists lists' : List Placed}

theorem StartsVisibly.append (h : StartsVisibly text) : StartsVisibly (text ++ after) := by
  obtain ⟨c, rest, rfl, hc⟩ := h
  exact ⟨c, rest ++ after, rfl, hc⟩

theorem Form.Print.startsVisibly (h : Form.Print indent forms oneLine text gaps lists)
    (hforms : forms ≠ []) (hvisible : ∀ atom ∈ Form.allAtoms forms, StartsVisibly atom) :
    StartsVisibly text := by
  induction h with
  | nil => exact absurd rfl hforms
  | atom text =>
      rw [Form.allAtoms_singleton] at hvisible
      exact hvisible text (List.mem_singleton_self text)
  | list brackets items ih =>
      exact ⟨_, _, rfl, brackets.opening_ne_space, brackets.opening_ne_tab⟩
  | cons first between following ihFirst ihFollowing =>
      rw [Form.allAtoms, List.forall_mem_append, ← Form.allAtoms_singleton] at hvisible
      exact (ihFirst (List.cons_ne_nil _ _) hvisible.1).append.append

theorem Indent.takeWhile_text (indent : Indent) (level : Nat) (hafter : StartsVisibly after) :
    (indent.text level ++ after).takeWhile (fun c => c = ' ' ∨ c = '\t') = indent.text level := by
  obtain ⟨c, rest, rfl, hspace, htab⟩ := hafter
  rw [List.takeWhile_append_of_pos, List.takeWhile_cons_of_neg (by simp [hspace, htab]),
    List.append_nil]
  intro d hd
  cases indent with
  | spaces count => simp [List.eq_of_mem_replicate hd]
  | tab => simp [List.eq_of_mem_replicate hd]

theorem Indent.Gap.unique (h : indent.Gap gap) (h' : indent.Gap gap') (hafter : StartsVisibly after)
    (hafter' : StartsVisibly after') (heq : gap ++ after = gap' ++ after') :
    gap = gap' ∧ after = after' := by
  rcases h with rfl | ⟨level, rfl⟩ <;> rcases h' with rfl | ⟨level', rfl⟩
  · exact ⟨rfl, List.append_cancel_left heq⟩
  · exact absurd heq (by simp)
  · exact absurd heq (by simp)
  · have hindent : indent.text level ++ after = indent.text level' ++ after' :=
      List.tail_eq_of_cons_eq heq
    have htext : indent.text level = indent.text level' := by
      rw [← indent.takeWhile_text level hafter, hindent, indent.takeWhile_text level' hafter']
    rw [htext] at hindent ⊢
    exact ⟨rfl, List.append_cancel_left hindent⟩

/-- A text can be read in one way only as a print of the forms, whatever follows it. -/
theorem Form.Print.unique_append (h : Form.Print indent forms oneLine text gaps lists)
    (h' : Form.Print indent forms oneLine' text' gaps' lists')
    (hvisible : ∀ atom ∈ Form.allAtoms forms, StartsVisibly atom)
    (heq : text ++ after = text' ++ after') :
    text = text' ∧ gaps = gaps' ∧ lists = lists' ∧ after = after' := by
  induction h generalizing oneLine' text' gaps' lists' after after' with
  | nil =>
      cases h'
      exact ⟨rfl, rfl, rfl, heq⟩
  | atom text =>
      cases h'
      exact ⟨rfl, rfl, rfl, List.append_cancel_left heq⟩
  | list brackets items ih =>
      cases h' with
      | list _ items' =>
          rw [Form.allAtoms_singleton, Form.atoms, ← Form.allAtoms_append] at hvisible
          simp only [List.cons_append, List.append_assoc, List.cons.injEq, true_and] at heq
          obtain ⟨rfl, rfl, rfl, hafter⟩ := ih items' hvisible heq
          exact ⟨rfl, rfl, rfl, (List.cons.inj hafter).2⟩
  | cons first between following ihFirst ihFollowing =>
      cases h' with
      | cons first' between' following' =>
          rw [Form.allAtoms, List.forall_mem_append, ← Form.allAtoms_singleton] at hvisible
          obtain ⟨hform, hforms⟩ := hvisible
          -- Both gaps end where the next item begins, as this is not taken for indentation.
          have hothers := following.startsVisibly (List.cons_ne_nil _ _) hforms
          have hothers' := following'.startsVisibly (List.cons_ne_nil _ _) hforms
          simp only [List.append_assoc] at heq
          obtain ⟨rfl, -, rfl, hgap⟩ := ihFirst first' hform heq
          obtain ⟨rfl, htext⟩ := between.unique between' hothers.append hothers'.append hgap
          obtain ⟨rfl, rfl, rfl, hafter⟩ := ihFollowing following' hforms htext
          exact ⟨rfl, rfl, rfl, hafter⟩

theorem Form.Print.unique (h : Form.Print indent forms oneLine text gaps lists)
    (h' : Form.Print indent forms oneLine' text gaps' lists')
    (hvisible : ∀ atom ∈ Form.allAtoms forms, StartsVisibly atom) : lists = lists' :=
  (h.unique_append h' hvisible (rfl : text ++ [] = text ++ [])).2.2.1

end Unique

/-! ## Forms on one line -/

/-- The form has no break in it. -/
def Placed.OnOneLine (placed : Placed) : Prop :=
  placed.text = placed.form.flat ∧ ∀ gap ∈ placed.gaps, gap = [' ']

section Flat

variable (indent : Indent)

/-- Forms that can be printed without breaks, each alone, can be so together. -/
theorem Form.print_oneLine {forms : List Form}
    (h : ∀ item ∈ forms, ∃ lists, Form.Print indent [item] item.flat item.flat [] lists ∧
      ∀ placed ∈ lists, placed.OnOneLine) :
    ∃ gaps lists, Form.Print indent forms (Form.oneLine forms) (Form.oneLine forms) gaps lists ∧
      (∀ gap ∈ gaps, gap = [' ']) ∧ ∀ placed ∈ lists, placed.OnOneLine := by
  induction forms with
  | nil => exact ⟨[], [], .nil, List.forall_mem_nil _, List.forall_mem_nil _⟩
  | cons form forms ih =>
      obtain ⟨⟨lists, hform, hlists⟩, hforms⟩ := List.forall_mem_cons.mp h
      cases forms with
      | nil =>
          rw [oneLine_singleton]
          exact ⟨[], lists, hform, List.forall_mem_nil _, hlists⟩
      | cons next forms =>
          obtain ⟨gaps, others, hnext, hgaps, hothers⟩ := ih hforms
          have hprint := hform.cons (.inl rfl) hnext
          rw [List.append_assoc, List.singleton_append] at hprint
          rw [oneLine_cons]
          refine ⟨_, _, hprint, List.forall_mem_cons.mpr ⟨rfl, hgaps⟩, ?_⟩
          simp only [List.forall_mem_append, List.forall_mem_map]
          exact ⟨hlists, hothers⟩

/-- The rendering on one line is printed without breaks. -/
theorem Form.print_flat (form : Form) :
    ∃ lists, Form.Print indent [form] form.flat form.flat [] lists ∧
      ∀ placed ∈ lists, placed.OnOneLine := by
  induction form using Form.items_induction with
  | atom text => exact ⟨[], .atom text, List.forall_mem_nil _⟩
  | list brackets head rest ih =>
      obtain ⟨gaps, lists, hprint, hgaps, hlists⟩ := Form.print_oneLine indent ih
      rw [Form.flat_list]
      refine ⟨_, .list brackets hprint, List.forall_mem_cons.mpr ⟨⟨?_, hgaps⟩, ?_⟩⟩
      · exact (Form.flat_list brackets head rest).symm
      · rw [List.forall_mem_map]
        exact hlists

end Flat

end TypedIsl

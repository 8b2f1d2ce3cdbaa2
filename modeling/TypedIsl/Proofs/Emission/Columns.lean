import TypedIsl.Proofs.Emission.Printed

/-!
# Columns of printed forms

The layout counts columns while it puts printed items together. In the forms that are emitted no
list form stands behind an item that may end on another line, so the column that is counted is the
one at which the form stands in the text.
-/

namespace TypedIsl

/-! ## The decision for one form -/

theorem fits_iff {column : Nat} {text : List Char} :
    fits column text = true ↔ '\n' ∉ text ∧ column + text.length ≤ maxWidth := by
  simp [fits]

/-- Nothing follows on the line but closing brackets. -/
def ClosesLine (after : List Char) : Prop :=
  ∀ c ∈ firstLine after, c = ')' ∨ c = ']'

theorem closesLine_newline (text : List Char) : ClosesLine ('\n' :: text) := by
  rw [ClosesLine, firstLine_newline]
  exact List.forall_mem_nil _

theorem ClosesLine.closing {after : List Char} (h : ClosesLine after) (brackets : Brackets) :
    ClosesLine (brackets.closing :: after) := by
  have hline : firstLine (brackets.closing :: after) = brackets.closing :: firstLine after := by
    cases brackets <;> rfl
  rw [ClosesLine, hline]
  refine List.forall_mem_cons.mpr ⟨?_, h⟩
  cases brackets
  · exact .inl rfl
  · exact .inr rfl

namespace Placed

/-- Up to closing brackets that follow the form, its line is within the limit. -/
def EndsInTime (before after : List Char) (placed : Placed) : Prop :=
  ∃ front closing, placed.line before after = front ++ closing ∧
    lastLine (before ++ placed.before) ++ placed.text <+: front ∧
    (∀ c ∈ closing, c = ')' ∨ c = ']') ∧ lineWidth front ≤ maxWidth

/-- In a text with `before` and `after` around it, the form is broken exactly if it does not fit at
the column where it stands. -/
@[mk_iff]
structure Settled (before after : List Char) (placed : Placed) : Prop where
  unbroken_iff : placed.form.CanBreak →
    (placed.Unbroken ↔ fits (columnOf (before ++ placed.before)) placed.form.flat = true)
  text_eq : placed.form.CanBreak → placed.Unbroken → placed.text = placed.form.flat
  endsInTime : placed.form.CanBreak → placed.Unbroken → placed.EndsInTime before after

variable {before after left right : List Char} {placed : Placed}

theorem settled_within :
    (placed.within left right).Settled before after ↔
      placed.Settled (before ++ left) (right ++ after) := by
  simp only [settled_iff, Unbroken, breaks, EndsInTime, line, within, List.append_assoc]

theorem settled_of_not_canBreak (h : ¬placed.form.CanBreak) : placed.Settled before after :=
  ⟨fun hbreak => absurd hbreak h, fun hbreak => absurd hbreak h, fun hbreak => absurd hbreak h⟩

theorem settled_of_broken (h : ¬placed.Unbroken)
    (hfits : ¬fits (columnOf (before ++ placed.before)) placed.form.flat = true) :
    placed.Settled before after :=
  ⟨fun _ => iff_of_false h hfits, fun _ hunbroken => absurd hunbroken h,
    fun _ hunbroken => absurd hunbroken h⟩

theorem OnOneLine.unbroken (h : placed.OnOneLine) : placed.Unbroken := by
  intro gap hgap
  unfold breaks at hgap
  split at hgap
  · exact absurd hgap List.not_mem_nil
  · exact h.2 gap (List.mem_of_mem_drop hgap)

/-- If a rendering on one line fits where it stands, so do the forms in it. -/
theorem settled_of_onOneLine {flat : List Char} (h : placed.OnOneLine)
    (hplace : placed.before ++ placed.text ++ placed.after = flat) (htab : flat.head? ≠ some '\t')
    (hfits : fits (columnOf before) flat = true) (hafter : ClosesLine after) :
    placed.Settled before after := by
  obtain ⟨hline, hwidth⟩ := fits_iff.mp hfits
  rw [← hplace, List.mem_append, List.mem_append, not_or, not_or] at hline
  obtain ⟨⟨hbefore, htext⟩, hmore⟩ := hline
  have hcolumn : columnOf (before ++ placed.before) = columnOf before + placed.before.length := by
    refine columnOf_append hbefore fun hhead => htab ?_
    rw [← hplace, List.append_assoc, List.head?_append, hhead]
    rfl
  have hlength : placed.before.length + placed.text.length + placed.after.length = flat.length := by
    rw [← hplace, List.length_append, List.length_append]
  have hfront : lastLine (before ++ placed.before) ++ placed.text ++ placed.after =
      lastLine before ++ flat := by
    rw [lastLine_append hbefore, ← hplace]
    simp only [List.append_assoc]
  refine ⟨fun _ => iff_of_true h.unbroken (fits_iff.mpr ⟨h.1 ▸ htext, ?_⟩), fun _ _ => h.1,
    fun _ _ => ⟨lastLine before ++ flat, firstLine after, ?_, ?_, hafter, ?_⟩⟩
  · rw [hcolumn, ← h.1]
    omega
  · rw [line, List.append_assoc, firstLine_append htext, firstLine_append hmore, ← hfront]
    simp only [List.append_assoc]
  · rw [← hfront]
    exact List.prefix_append _ _
  · rw [lineWidth_append htab]
    exact hwidth

end Placed

/-! ## The layout -/

namespace Form

/-- No list form stands behind an item that may end on another line: a list has one item in its
head, or a word and an item, or nothing but atoms. -/
inductive Shaped : Form → Prop where
  | atom (text : List Char) : Shaped (.atom text)
  | one (brackets : Brackets) {form : Form} {rest : List Form} (hform : form.Shaped)
      (hrest : ∀ item ∈ rest, item.Shaped) : Shaped (.list brackets [form] rest)
  | word (brackets : Brackets) {text : List Char} {form : Form} {rest : List Form}
      (htext : '\n' ∉ text) (hform : form.Shaped) (hrest : ∀ item ∈ rest, item.Shaped) :
      Shaped (.list brackets [.atom text, form] rest)
  | atoms (brackets : Brackets) {head : List Form}
      (hhead : ∀ item ∈ head, ∃ text, item = .atom text) : Shaped (.list brackets head [])

/-- Wherever the form starts, its layout is printed in lists that are settled. -/
def Settles (indent : Indent) (form : Form) : Prop :=
  ∀ level before after, ClosesLine after →
    ∃ lists, Print indent [form] form.flat (form.layout indent level (columnOf before)) [] lists ∧
      ∀ placed ∈ lists, placed.Settled before after

variable {indent : Indent} {level : Nat} {before after : List Char}

theorem closesLine_layoutRest (forms : List Form) (hafter : ClosesLine after) :
    ClosesLine (layoutRest indent level forms ++ after) := by
  cases forms with
  | nil => exact hafter
  | cons form forms =>
      rw [layoutRest, List.cons_append, List.cons_append, List.cons_append]
      exact closesLine_newline _

/-- Items on their own lines behind a form. -/
theorem Settles.rest {form : Form} {rest : List Form} (hform : Settles indent form)
    (hrest : ∀ item ∈ rest, Settles indent item) (hafter : ClosesLine after) (level : Nat)
    (before : List Char) :
    ∃ gaps lists, Print indent (form :: rest) (oneLine (form :: rest))
        (form.layout indent level (columnOf before) ++ layoutRest indent level rest) gaps lists ∧
      gaps.length = rest.length ∧ (∀ gap ∈ gaps, gap ≠ [' ']) ∧
      ∀ placed ∈ lists, placed.Settled before after := by
  induction rest generalizing form before with
  | nil =>
      obtain ⟨lists, hprint, hlists⟩ := hform level before after hafter
      rw [oneLine_singleton, layoutRest, List.append_nil]
      exact ⟨[], lists, hprint, rfl, List.forall_mem_nil _, hlists⟩
  | cons item rest ih =>
      -- The line of the form ends before `item`, which starts behind the indentation whatever
      -- stands before it.
      obtain ⟨hitem, hrest⟩ := List.forall_mem_cons.mp hrest
      obtain ⟨lists, hprint, hlists⟩ := hform level before
        (layoutRest indent level (item :: rest) ++ after)
        (closesLine_layoutRest (item :: rest) hafter)
      obtain ⟨gaps, others, hothers, hlength, hgaps, hplaced⟩ := ih hitem hrest
        (before ++ form.layout indent level (columnOf before) ++ '\n' :: indent.text level)
      rw [indent.columnOf_newline] at hothers
      have hnext := hprint.cons (.inr ⟨level, rfl⟩) hothers
      rw [List.append_assoc] at hnext
      rw [oneLine_cons, layoutRest, List.cons_append, List.cons_append, List.append_assoc]
      refine ⟨_, _, hnext, congrArg Nat.succ hlength,
        List.forall_mem_cons.mpr ⟨by simp, hgaps⟩, ?_⟩
      simp only [List.forall_mem_append, List.forall_mem_map, Placed.settled_within]
      constructor
      · intro placed hmem
        have hsettled := hlists placed hmem
        rw [layoutRest] at hsettled
        simpa using hsettled
      · intro placed hmem
        have hsettled := hplaced placed hmem
        simpa using hsettled

theorem head?_flat_list (brackets : Brackets) (head rest : List Form) :
    (list brackets head rest).flat.head? ≠ some '\t' := by
  rw [flat_list]
  simp

/-- A list that fits where it starts is printed on one line. -/
theorem settles_of_fits {brackets : Brackets} {head rest : List Form}
    (hfits : fits (columnOf before) (list brackets head rest).flat = true)
    (hafter : ClosesLine after) :
    ∃ lists, Print indent [.list brackets head rest] (list brackets head rest).flat
        ((list brackets head rest).layout indent level (columnOf before)) [] lists ∧
      ∀ placed ∈ lists, placed.Settled before after := by
  obtain ⟨lists, hprint, hlists⟩ := (list brackets head rest).print_flat indent
  rw [layout, if_pos hfits]
  refine ⟨lists, hprint, fun placed hplaced => ?_⟩
  exact Placed.settled_of_onOneLine (hlists placed hplaced) (hprint.place hplaced)
    (head?_flat_list brackets head rest) hfits hafter

/-- A list that does not fit is broken. The lists in it are settled if they are so inside of the
brackets. -/
theorem settles_of_items {brackets : Brackets} {head rest : List Form}
    {items : List Char} {gaps : List (List Char)} {lists : List Placed}
    (hfits : ¬fits (columnOf before) (list brackets head rest).flat = true)
    (hprint : Print indent (head ++ rest) (oneLine (head ++ rest)) items gaps lists)
    (hlength : (gaps.drop (head.length - 1)).length = rest.length)
    (hgaps : ∀ gap ∈ gaps.drop (head.length - 1), gap ≠ [' '])
    (hlists : ∀ placed ∈ lists,
      placed.Settled (before ++ [brackets.opening]) (brackets.closing :: after)) :
    ∃ lists, Print indent [.list brackets head rest] (list brackets head rest).flat
        (brackets.opening :: items ++ [brackets.closing]) [] lists ∧
      ∀ placed ∈ lists, placed.Settled before after := by
  rw [flat_list] at hfits ⊢
  refine ⟨_, .list brackets hprint, List.forall_mem_cons.mpr ⟨?_, ?_⟩⟩
  · by_cases hrest : rest = []
    · exact Placed.settled_of_not_canBreak (absurd hrest)
    · refine Placed.settled_of_broken (fun hunbroken => ?_) ?_
      · have hbreaks : 0 < (gaps.drop (head.length - 1)).length := by
          rw [hlength]
          exact List.length_pos_iff.mpr hrest
        obtain ⟨gap, hgap⟩ := List.exists_mem_of_length_pos hbreaks
        exact hgaps gap hgap (hunbroken gap hgap)
      · rw [flat_list, List.append_nil]
        exact hfits
  · simp only [List.forall_mem_map, Placed.settled_within]
    exact hlists

theorem layoutMore_atoms {forms : List Form} (h : ∀ item ∈ forms, ∃ text, item = .atom text)
    (column : Nat) (form : Form) :
    form.flat ++ layoutMore indent level column forms = oneLine (form :: forms) := by
  induction forms generalizing column form with
  | nil => rw [oneLine_singleton, layoutMore, List.append_nil]
  | cons next forms ih =>
      obtain ⟨⟨text, rfl⟩, hforms⟩ := List.forall_mem_cons.mp h
      rw [oneLine_cons, ← ih hforms, layoutMore, layout, flat]
      rfl

theorem layoutHead_atoms {head : List Form} (h : ∀ item ∈ head, ∃ text, item = .atom text)
    (column : Nat) : layoutHead indent level column head = oneLine head := by
  cases head with
  | nil => rfl
  | cons form forms =>
      obtain ⟨⟨text, rfl⟩, hforms⟩ := List.forall_mem_cons.mp h
      rw [layoutHead, ← layoutMore_atoms hforms, layout, flat]

theorem print_atoms {head : List Form} (h : ∀ item ∈ head, ∃ text, item = .atom text) :
    ∃ gaps, Print indent head (oneLine head) (oneLine head) gaps [] := by
  induction head with
  | nil => exact ⟨[], .nil⟩
  | cons form forms ih =>
      obtain ⟨⟨text, rfl⟩, hforms⟩ := List.forall_mem_cons.mp h
      obtain ⟨gaps, hprint⟩ := ih hforms
      cases forms with
      | nil =>
          rw [oneLine_singleton, flat]
          exact ⟨[], .atom text⟩
      | cons next forms =>
          have hnext := (Print.atom text).cons (.inl rfl) hprint
          rw [List.append_assoc, List.singleton_append] at hnext
          rw [oneLine_cons, flat]
          exact ⟨_, hnext⟩

/-- The layout counts the columns at which the forms stand. -/
theorem Shaped.settles {form : Form} (h : form.Shaped) (indent : Indent) :
    Settles indent form := by
  induction h with
  | atom text =>
      intro level before after _
      exact ⟨[], .atom text, List.forall_mem_nil _⟩
  | @one brackets form rest _ _ ihForm ihRest =>
      intro level before after hafter
      by_cases hfits : fits (columnOf before) (list brackets [form] rest).flat = true
      · exact settles_of_fits hfits hafter
      · have hcolumn : columnOf (before ++ [brackets.opening]) = columnOf before + 1 :=
          columnOf_append (by simp) (by simp)
        obtain ⟨gaps, lists, hprint, hlength, hgaps, hlists⟩ :=
          ihForm.rest ihRest (hafter.closing brackets) (level + 1)
            (before ++ [brackets.opening])
        rw [hcolumn] at hprint
        rw [layout, if_neg hfits, layoutHead, layoutMore, List.append_nil, List.cons_append]
        exact settles_of_items hfits hprint hlength hgaps hlists
  | @word brackets text form rest htext _ _ ihForm ihRest =>
      intro level before after hafter
      by_cases hfits : fits (columnOf before) (list brackets [.atom text, form] rest).flat = true
      · exact settles_of_fits hfits hafter
      · have hcolumn : columnOf (before ++ [brackets.opening] ++ (text ++ [' '])) =
            columnAfter (columnOf before + 1) text + 1 := by
          rw [columnAfter_of_oneLine htext, List.append_assoc, columnOf_append]
          · simp
            omega
          · simp [htext]
          · simp
        obtain ⟨gaps, lists, hprint, hlength, hgaps, hlists⟩ :=
          ihForm.rest ihRest (hafter.closing brackets) (level + 1)
            (before ++ [brackets.opening] ++ (text ++ [' ']))
        rw [hcolumn] at hprint
        have hitems := (Print.atom text).cons (.inl rfl) hprint
        have hlayout : (list brackets [.atom text, form] rest).layout indent level
            (columnOf before) = brackets.opening :: (text ++ [' '] ++
              (form.layout indent (level + 1) (columnAfter (columnOf before + 1) text + 1) ++
                layoutRest indent (level + 1) rest)) ++ [brackets.closing] := by
          rw [layout, if_neg hfits, layoutHead, layoutMore, layoutMore, layout]
          simp
        rw [hlayout]
        refine settles_of_items hfits hitems hlength hgaps ?_
        simp only [List.map_nil, List.nil_append, List.forall_mem_map, Placed.settled_within]
        exact hlists
  | @atoms brackets head hhead =>
      -- Such a list looks the same broken and unbroken, and has no other lists in it.
      intro level before after _
      have hlayout : (list brackets head []).layout indent level (columnOf before) =
          (list brackets head []).flat := by
        rw [layout, layoutHead_atoms hhead, layoutRest, flat_list, List.append_nil, List.append_nil]
        exact ite_self _
      obtain ⟨gaps, hprint⟩ := print_atoms hhead
      rw [← List.append_nil head] at hprint
      rw [hlayout, flat_list]
      refine ⟨_, .list brackets hprint, List.forall_mem_cons.mpr ⟨?_, List.forall_mem_nil _⟩⟩
      exact Placed.settled_of_not_canBreak (absurd rfl)

end Form

end TypedIsl

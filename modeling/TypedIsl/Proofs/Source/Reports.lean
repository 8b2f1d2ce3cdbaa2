import TypedIsl.Language.Minimal
import TypedIsl.Proofs.Check.Locations
import TypedIsl.Proofs.Diagnostic.Quotes
import TypedIsl.Proofs.Syntax.Slices

/-!
# Reports of programs

The report of a diagnostic of a program quotes the lines around the place that the diagnostic points
at, and its carets stand below the text of that place.
-/

namespace TypedIsl

/-! ## The text of a node -/

theorem Lexes.eq_nil {p : Position} {text : List Char} {tokens : List Token}
    (h : Lexes p text tokens) (htext : text = []) : tokens = [] := by
  cases h with
  | nil => rfl
  | blank => exact absurd htext (by simp)
  | token => exact absurd htext (by simp)

/-- The range goes over the stretch `middle` of the text. -/
structure Range.Cuts (range : Range) (source : String) (front middle back : List Char) : Prop where
  source_eq : source.toList = front ++ middle ++ back
  start_eq : range.start = Position.first.afterAll front
  stop_eq : range.stop = Position.first.afterAll (front ++ middle)

/-- The range of a node goes over its tokens, unless the node is an empty list. -/
theorem exists_cut {source : String} {program : Program}
    (h : programOfSource source = .ok program) {form : TopLevel} (hform : form ∈ program)
    {node : Node} (hnode : form.node.Contains node)
    (hlist : ∀ range, node ≠ .params (.untyped range [])) :
    ∃ front middle back, node.range.Cuts source front middle back ∧ middle ≠ [] := by
  obtain ⟨hlexes, hread⟩ := lexes_of_programOfSource h
  obtain ⟨hproper, before, own, after, harrivals, hstands⟩ := node_stands hread hform hnode
  obtain ⟨_, last, hfirst, hlast, hrange⟩ := hstands.spans hproper hlist
  cases own with
  | nil => exact absurd hfirst (by simp)
  | cons first own =>
      obtain rfl := Option.some.inj hfirst
      obtain ⟨front, tokens, back, htokens, hhead, hend, -⟩ := arrivals_between harrivals
      rw [htokens] at hlexes
      obtain ⟨left, middle, right, hsource, hstart, hstop, hmiddle⟩ :=
        hlexes.between hhead (hend.trans hlast)
      refine ⟨left, middle, right, ?_, fun hnil => ?_⟩
      · rw [hrange]
        exact ⟨hsource, hstart, hstop⟩
      · rw [hmiddle.eq_nil hnil] at hhead
        exact absurd hhead (by simp)

/-! ## Lines of a range -/

/-- Carets mark the text of a range within one line. They stand below the columns at which the line,
shown behind its margin, has that text. Blanks at the end of the line are not shown. -/
def Range.MarkedBy (range : Range) (source margin carets : String) : Prop :=
  let marked := (range.slice source).toList
  ∃ above before after below blanks,
    source.toList.splitOn '\n' = above ++ (before ++ marked ++ after) :: below ∧
      above.length + 1 = range.start.line ∧
      String.utf8Len (endedLines above ++ before) = range.start.index ∧ marked ≠ [] ∧
      (quotedLine margin (before ++ marked ++ after)).toList ++ blanks =
        (margin ++ " ").toList ++ before ++ marked ++ after ∧
      (∀ c ∈ blanks, isBlank c = true) ∧
      carets = spaces ((margin ++ " ").length + before.length) ++
        String.ofList (List.replicate marked.length '^') ++ "\n"

/-- The report of a diagnostic shows the lines of the source around its range. If the range is
within one line, carets mark its text. -/
structure Diagnostic.Quotes (d : Diagnostic) (source : String) : Prop where
  lines_le : 1 ≤ d.range.start.line ∧ d.range.start.line ≤ d.range.stop.line ∧
    d.range.stop.line ≤ (source.toList.splitOn '\n').length
  report_eq : ∃ carets,
    d.report source = s!"  error: {d.problem.message}\n" ++
      String.join ((d.range.shownLines (source.toList.splitOn '\n').length).map
        (d.range.shownLine (source.toList.splitOn '\n') carets)) ++
      String.join (d.notes.map Note.line) ∧
    (d.range.isMultiline = false → d.range.MarkedBy source
      (quoteMargin (source.toList.splitOn '\n').length d.range.start.line false) carets)

theorem length_splitOn (cs : List Char) : (cs.splitOn '\n').length = cs.count '\n' + 1 := by
  induction cs with
  | nil => rfl
  | cons c cs ih =>
      rw [List.splitOn_cons_eq_if_modifyHead]
      by_cases hc : c = '\n'
      · simp [hc, ih]
      · simp [hc, ih]

theorem sourceLines_eq (source : String) :
    sourceLines source = (source.toList.splitOn '\n').map dropCarriageReturns := by
  rw [sourceLines, splitLines_eq_splitOn]

namespace Range.Cuts

variable {source : String} {front middle back : List Char} {range : Range}

theorem lines_le (h : range.Cuts source front middle back) :
    1 ≤ range.start.line ∧ range.start.line ≤ range.stop.line ∧
      range.stop.line ≤ (source.toList.splitOn '\n').length := by
  rw [h.start_eq, h.stop_eq, length_splitOn, h.source_eq]
  simp only [Position.line_afterAll, List.count_append, Position.first]
  omega

theorem slice_eq (h : range.Cuts source front middle back) :
    range.slice source = String.ofList middle := by
  refine Range.slice_eq h.source_eq ?_ ?_
  · rw [h.start_eq, Position.index_afterAll]
    exact Nat.zero_add _
  · rw [h.stop_eq, Position.index_afterAll, String.utf8Len_append]
    exact Nat.zero_add _

theorem newline_not_mem (h : range.Cuts source front middle back)
    (hsingle : range.isMultiline = false) : '\n' ∉ middle := by
  have hline : range.start.line = range.stop.line := by simpa [isMultiline] using hsingle
  rw [h.start_eq, h.stop_eq, Position.line_afterAll, Position.line_afterAll,
    List.count_append] at hline
  exact List.count_eq_zero.mp (by omega)

/-- The carets of a range within one line mark its text. -/
theorem markedBy (h : range.Cuts source front middle back) (hne : middle ≠ [])
    (hsingle : range.isMultiline = false) :
    range.MarkedBy source
      (quoteMargin (source.toList.splitOn '\n').length range.start.line false)
      (caretLine (sourceLines source) range) := by
  have hmiddle := h.newline_not_mem hsingle
  obtain ⟨above, before, hfront, habove, hbefore⟩ := exists_lines front
  obtain ⟨after, below, hback⟩ := List.exists_cons_of_ne_nil (List.splitOn_ne_nil '\n' back)
  have hline : '\n' ∉ before ++ middle := by simp [hbefore, hmiddle]
  have hlines : source.toList.splitOn '\n' = above ++ (before ++ middle ++ after) :: below := by
    rw [h.source_eq, hfront, List.append_assoc, List.append_assoc, splitOn_endedLines habove,
      ← List.append_assoc, splitOn_line hline, hback]
    rfl
  have hstart := h.start_eq
  rw [hfront, Position.first_afterAll habove hbefore] at hstart
  have hstop : range.stop.column = range.start.column + middle.length := by
    rw [h.stop_eq, Position.afterAll_append, ← h.start_eq, Position.afterAll_line hmiddle]
  obtain ⟨blanks, hblanks, hblank⟩ := exists_dropped isBlank
    ((quoteMargin (source.toList.splitOn '\n').length range.start.line false).toList ++
      ' ' :: (before ++ middle ++ after))
  refine ⟨above, before, after, below, blanks, ?_⟩
  rw [h.slice_eq, String.toList_ofList]
  refine ⟨hlines, by rw [hstart], by rw [hstart], hne, ?_, hblank, ?_⟩
  · rw [toList_quotedLine (dropEndWhile_quoteMargin _ _ _), hblanks]
    simp
  · rw [sourceLines_eq]
    exact caretLine_eq (h.lines_le.2.1.trans h.lines_le.2.2) hne (by rw [hstart]) hstop

end Range.Cuts

/-- The report of every diagnostic of a program quotes the source at its range. -/
theorem report_quotes {source : String} {program : Program}
    (h : programOfSource source = .ok program) (language : Language) {d : Diagnostic}
    (hd : d ∈ (Program.check language program).diagnostics) : d.Quotes source := by
  obtain ⟨form, hform, hlocates⟩ := Program.locates_diagnostics hd
  have hcut : ∃ front middle back, d.range.Cuts source front middle back ∧ middle ≠ [] := by
    generalize d.range = range at hlocates
    cases hlocates with
    | ident hnode | value hnode => exact exists_cut h hform hnode (by simp)
  obtain ⟨front, middle, back, hcut, hne⟩ := hcut
  obtain ⟨hfirst, hle, hlast⟩ := hcut.lines_le
  refine ⟨⟨hfirst, hle, hlast⟩, caretLine (sourceLines source) d.range, ?_, hcut.markedBy hne⟩
  rw [Diagnostic.report, sourceLines_eq, quoteRange_eq hfirst hle hlast]

/-- An undefined name at the end of the last line. -/
theorem report_quotes_undefined :
    ∃ program d, programOfSource "(define x 1)\n(define z y)" = .ok program ∧
      d ∈ (Program.check Language.minimal program).diagnostics ∧
      d.Quotes "(define x 1)\n(define z y)" ∧
      d.report "(define x 1)\n(define z y)" = "  error: undefined identifier y\n" ++
        "  1 | (define x 1)\n" ++ "  2 | (define z y)\n" ++ "                ^\n" := by
  have h : programOfSource "(define x 1)\n(define z y)" = .ok _ := rfl
  refine ⟨_, ⟨.undefined "y", ⟨⟨2, 11, 23⟩, ⟨2, 12, 24⟩⟩, []⟩, h, ?reported,
    report_quotes h Language.minimal ?reported, by decide +kernel⟩
  decide +kernel

end TypedIsl

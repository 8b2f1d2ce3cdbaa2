import Mathlib.Data.List.DropRight
import TypedIsl.Diagnostic.Report
import TypedIsl.Proofs.Source.Lines

/-!
# Lines that reports show

A report shows the lines around a range one after the other, each with its number. The line of
carets starts where the characters of the range are shown above it.
-/

namespace TypedIsl

/-! ## Blanks at the end -/

section

variable {p : Char → Bool}

theorem exists_dropped (p : Char → Bool) (cs : List Char) :
    ∃ dropped, dropEndWhile p cs ++ dropped = cs ∧ ∀ c ∈ dropped, p c = true :=
  ⟨cs.rtakeWhile p, List.rdropWhile_append_rtakeWhile, fun _ hc => List.mem_rtakeWhile_imp hc⟩

theorem dropEndWhile_append (front cs : List Char) : dropEndWhile p (front ++ cs) =
    if dropEndWhile p cs = [] then dropEndWhile p front else front ++ dropEndWhile p cs := by
  simp only [dropEndWhile, List.reverse_append, List.dropWhile_append, List.reverse_eq_nil_iff,
    List.isEmpty_iff]
  split <;> simp

/-- What has been dropped before makes no difference. -/
theorem dropEndWhile_append_dropEndWhile {q : Char → Bool} (h : ∀ c, q c = true → p c = true)
    (front cs : List Char) :
    dropEndWhile p (front ++ dropEndWhile q cs) = dropEndWhile p (front ++ cs) := by
  obtain ⟨dropped, hcs, hdropped⟩ := exists_dropped q cs
  have hnil : dropEndWhile p dropped = [] :=
    List.rdropWhile_eq_nil_iff.mpr fun c hc => h c (hdropped c hc)
  conv_rhs => rw [← hcs, ← List.append_assoc, dropEndWhile_append, if_pos hnil]

end

/-! ## Margins -/

theorem length_spaces (n : Nat) : (spaces n).length = n := by
  simp [spaces]

theorem length_padLeft {width : Nat} {s : String} (h : s.length ≤ width) :
    (padLeft width s).length = width := by
  rw [padLeft, String.length_append, length_spaces]
  omega

theorem length_toString_le {n m : Nat} (h : n ≤ m) : (toString n).length ≤ (toString m).length := by
  have hpos : 0 < (toString m).length := by
    rw [Nat.toString_eq_repr]
    exact Nat.length_repr_pos
  have hlt : m < 10 ^ (toString m).length := (Nat.length_repr_le_iff hpos).mp le_rfl
  exact (Nat.length_repr_le_iff hpos).mpr (h.trans_lt hlt)

/-- What stands before the text of a line: its number, aligned with those of all lines, and a
mark. -/
def quoteMargin (count number : Nat) (marked : Bool) : String :=
  "  " ++ padLeft (toString count).length (toString number) ++ if marked then " >" else " |"

theorem length_quoteMargin {count number : Nat} (h : number ≤ count) (marked : Bool) :
    (quoteMargin count number marked).length = (toString count).length + 4 := by
  rw [quoteMargin, String.length_append, String.length_append,
    length_padLeft (length_toString_le h)]
  cases marked
  all_goals
    simp only [Bool.false_eq_true, if_false, if_true]
    show 2 + _ + 2 = _
    omega

theorem dropEndWhile_quoteMargin (count number : Nat) (marked : Bool) :
    dropEndWhile isBlank (quoteMargin count number marked).toList =
      (quoteMargin count number marked).toList := by
  have hmark : dropEndWhile isBlank (if marked then " >" else " |").toList =
      (if marked then " >" else " |").toList := by
    cases marked <;> decide
  rw [quoteMargin, String.toList_append, dropEndWhile_append, hmark, if_neg]
  cases marked <;> decide

/-- A line as a report shows it, without blanks at its end. -/
def quotedLine (margin : String) (text : List Char) : String :=
  let shown := dropEndWhile isBlank text
  margin ++ if shown.isEmpty then "" else " " ++ String.ofList shown

theorem toList_quotedLine {margin : String}
    (h : dropEndWhile isBlank margin.toList = margin.toList) (text : List Char) :
    (quotedLine margin text).toList = dropEndWhile isBlank (margin.toList ++ ' ' :: text) := by
  have hspace : dropEndWhile isBlank [' '] = [] := by decide
  rw [quotedLine, ← List.singleton_append, dropEndWhile_append, dropEndWhile_append, hspace, h]
  by_cases hshown : dropEndWhile isBlank text = []
  · simp [hshown]
  · simp [hshown]

/-- A numbered line shows its text up to the blanks at its end, carriage returns among them. -/
theorem quoteLine_eq (texts : List (List Char)) (number : Nat) (marked : Bool) :
    quoteLine (texts.map dropCarriageReturns) number marked =
      quotedLine (quoteMargin texts.length number marked) (texts[number - 1]?.getD []) ++ "\n" := by
  have hreturns : ∀ c, (c == '\r') = true → isBlank c = true := by
    intro c hc
    rw [beq_iff_eq.mp hc]
    decide
  have htext : (texts.map dropCarriageReturns)[number - 1]?.getD [] =
      dropCarriageReturns (texts[number - 1]?.getD []) := by
    rw [List.getElem?_map]
    cases texts[number - 1]? <;> rfl
  have hline : ∀ text : List Char,
      ("  " ++ padLeft (toString texts.length).length (toString number) ++ " " ++
        (if marked then ">" else "|") ++ " " ++ String.ofList text).toList =
        (quoteMargin texts.length number marked).toList ++ ' ' :: text := by
    intro text
    cases marked <;> simp [quoteMargin]
  have hdrop := dropEndWhile_append_dropEndWhile hreturns
    ((quoteMargin texts.length number marked).toList ++ [' ']) (texts[number - 1]?.getD [])
  rw [List.append_assoc, List.append_assoc] at hdrop
  rw [quoteLine, reportLine, List.length_map, htext]
  refine congrArg (· ++ "\n") ?_
  rw [← String.toList_inj, String.toList_ofList,
    toList_quotedLine (dropEndWhile_quoteMargin texts.length number marked)]
  exact (congrArg (dropEndWhile isBlank) (hline _)).trans hdrop

/-! ## Lines around a range -/

namespace Range

/-- The numbers of the lines that a report shows: those of the range and, as far as the text has
them, two lines on both sides of a range within one line, and one line otherwise. -/
def shownLines (range : Range) (count : Nat) : List Nat :=
  let context := if range.isMultiline then 1 else 2
  let low := max 1 (range.start.line - context)
  let high := min count (range.stop.line + context)
  List.range' low (high + 1 - low)

/-- The lines of a range of several lines are marked. -/
def marks (range : Range) (number : Nat) : Bool :=
  range.isMultiline && decide (range.start.line ≤ number ∧ number ≤ range.stop.line)

/-- The carets below a line with the given number. Only a range within one line has them. -/
def caretsBelow (range : Range) (carets : String) (number : Nat) : String :=
  if !range.isMultiline && number = range.start.line then carets else ""

/-- A line of a report with the carets below it. -/
def shownLine (range : Range) (lines : List (List Char)) (carets : String) (number : Nat) :
    String :=
  quotedLine (quoteMargin lines.length number (range.marks number)) (lines[number - 1]?.getD []) ++
    "\n" ++ range.caretsBelow carets number

end Range

section

variable {texts : List (List Char)} {range : Range}

theorem Range.shownLines_eq {count : Nat} (hfirst : 1 ≤ range.start.line)
    (hle : range.start.line ≤ range.stop.line) (hlast : range.stop.line ≤ count) :
    let context := if range.isMultiline then 1 else 2
    let above := min (range.start.line - 1) context
    let below := min (count - range.stop.line) context
    range.shownLines count = List.range' (range.start.line - above) above ++
      List.range' range.start.line (range.stop.line + 1 - range.start.line) ++
        List.range' (range.stop.line + 1) below := by
  intro context above below
  have hsubject : range.start.line - above + above = range.start.line := by omega
  have hbelow : range.start.line + (range.stop.line + 1 - range.start.line) =
      range.stop.line + 1 := by omega
  have happend : List.range' (range.start.line - above) above ++
      List.range' (range.start.line - above + above) (range.stop.line + 1 - range.start.line) ++
        List.range' (range.start.line - above + above +
          (range.stop.line + 1 - range.start.line)) below =
      List.range' (range.start.line - above)
        (above + (range.stop.line + 1 - range.start.line + below)) := by
    rw [List.append_assoc, List.range'_append_1, List.range'_append_1]
  rw [hsubject, hbelow] at happend
  rw [happend, Range.shownLines]
  congr 1 <;> omega

theorem Range.marks_eq_false {number : Nat}
    (h : number < range.start.line ∨ range.stop.line < number) : range.marks number = false := by
  simp only [marks, Bool.and_eq_false_iff, decide_eq_false_iff_not]
  omega

variable {carets : String} {first count : Nat}

theorem quoteLines_eq (marked : Bool)
    (h : ∀ number, first ≤ number → number < first + count →
      range.marks number = marked ∧ (range.isMultiline = false → number ≠ range.start.line)) :
    quoteLines (texts.map dropCarriageReturns) first count marked =
      String.join ((List.range' first count).map (range.shownLine texts carets)) := by
  refine congrArg String.join (List.map_congr_left fun number hnumber => ?_)
  obtain ⟨hlow, hhigh⟩ := List.mem_range'_1.mp hnumber
  obtain ⟨hmarks, hcarets⟩ := h number hlow hhigh
  rw [quoteLine_eq, Range.shownLine, hmarks, Range.caretsBelow, if_neg (by simpa using hcarets),
    String.append_empty]

/-- The lines of the range itself. -/
theorem quoteSubject_eq (hle : range.start.line ≤ range.stop.line) :
    (if range.isMultiline then
        quoteLines (texts.map dropCarriageReturns) range.start.line
          (range.stop.line + 1 - range.start.line) true
      else quoteLine (texts.map dropCarriageReturns) range.start.line false ++ carets) =
      String.join ((List.range' range.start.line (range.stop.line + 1 - range.start.line)).map
        (range.shownLine texts carets)) := by
  cases hmulti : range.isMultiline with
  | true =>
      rw [if_pos rfl]
      refine quoteLines_eq true fun number hlow hhigh => ⟨?_, by simp [hmulti]⟩
      simp only [Range.marks, hmulti, Bool.true_and, decide_eq_true_eq]
      omega
  | false =>
      have hline : range.start.line = range.stop.line := by
        simpa [Range.isMultiline] using hmulti
      have hcount : range.stop.line + 1 - range.start.line = 1 := by omega
      rw [if_neg Bool.false_ne_true, hcount, List.range'_one, List.map_singleton,
        String.join_cons, String.join_nil, String.append_empty, Range.shownLine, Range.caretsBelow,
        if_pos (by simp [hmulti]), Range.marks, hmulti, Bool.false_and, quoteLine_eq]

/-- The lines around a range are shown one after the other. -/
theorem quoteRange_eq (hfirst : 1 ≤ range.start.line) (hle : range.start.line ≤ range.stop.line)
    (hlast : range.stop.line ≤ texts.length) :
    quoteRange (texts.map dropCarriageReturns) range =
      String.join ((range.shownLines texts.length).map
        (range.shownLine texts (caretLine (texts.map dropCarriageReturns) range))) := by
  rw [Range.shownLines_eq hfirst hle hlast, List.map_append, List.map_append, String.join_append,
    String.join_append, ← quoteSubject_eq hle, ← quoteLines_eq false,
    ← quoteLines_eq false, quoteRange, List.length_map]
  · exact fun number hlow _ => ⟨Range.marks_eq_false (.inr (by omega)), fun _ => by omega⟩
  · exact fun number _ hhigh => ⟨Range.marks_eq_false (.inl (by omega)), fun _ => by omega⟩

/-- The carets stand below the place at which the line shows the characters of the range. -/
theorem caretLine_eq {number : Nat} {marked : Bool} {before middle : List Char}
    (hnumber : number ≤ texts.length) (hne : middle ≠ [])
    (hstart : range.start.column = before.length + 1)
    (hstop : range.stop.column = range.start.column + middle.length) :
    caretLine (texts.map dropCarriageReturns) range =
      spaces ((quoteMargin texts.length number marked ++ " ").length + before.length) ++
        String.ofList (List.replicate middle.length '^') ++ "\n" := by
  have hpos := List.length_pos_iff.mpr hne
  have hoffset : (quoteMargin texts.length number marked ++ " ").length + before.length =
      2 + (toString texts.length).length + 3 + (range.start.column - 1) := by
    rw [String.length_append, length_quoteMargin hnumber]
    show _ + 1 + _ = _
    omega
  have hcarets : max 1 (range.stop.column - range.start.column) = middle.length := by omega
  rw [caretLine, List.length_map, hcarets, hoffset]

end

end TypedIsl

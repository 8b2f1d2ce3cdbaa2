import TypedIsl.Proofs.Token.Positions
import TypedIsl.Text.Blank

/-!
# Lines of a text

A point of a text has lines above it, and characters before it on its own line. Their numbers are
what its position counts.
-/

namespace TypedIsl

theorem splitLines_eq_splitOn (cs : List Char) : splitLines cs = cs.splitOn '\n' := by
  induction cs with
  | nil => rfl
  | cons c cs ih =>
      rw [splitLines, List.splitOn_cons_eq_if_modifyHead, ih]
      by_cases hc : c = '\n'
      · rw [if_pos hc, if_pos (beq_iff_eq.mpr hc)]
      · rw [if_neg hc, if_neg (by simpa using hc)]
        cases hlines : cs.splitOn '\n' with
        | nil => exact absurd hlines (List.splitOn_ne_nil _ _)
        | cons line lines => rfl

/-- The text of lines that all end with a newline. -/
def endedLines (lines : List (List Char)) : List Char :=
  lines.flatMap (· ++ ['\n'])

@[simp] theorem endedLines_nil : endedLines [] = [] := rfl

@[simp] theorem endedLines_cons (line : List Char) (lines : List (List Char)) :
    endedLines (line :: lines) = line ++ '\n' :: endedLines lines := by
  simp [endedLines]

section

variable {line cs : List Char} {lines : List (List Char)}

theorem splitOn_line (h : '\n' ∉ line) (rest : List Char) :
    (line ++ rest).splitOn '\n' = (rest.splitOn '\n').modifyHead (line ++ ·) := by
  induction line with
  | nil => exact (congrFun List.modifyHead_id _).symm
  | cons c line ih =>
      have hc : c ≠ '\n' := (List.ne_of_not_mem_cons h).symm
      rw [List.cons_append, List.splitOn_cons_eq_if_modifyHead, if_neg (by simpa using hc),
        ih (List.not_mem_of_not_mem_cons h), List.modifyHead_modifyHead]
      rfl

theorem splitOn_endedLines (h : ∀ line ∈ lines, '\n' ∉ line) (rest : List Char) :
    (endedLines lines ++ rest).splitOn '\n' = lines ++ rest.splitOn '\n' := by
  induction lines with
  | nil => rfl
  | cons line lines ih =>
      obtain ⟨hline, hlines⟩ := List.forall_mem_cons.mp h
      rw [endedLines_cons, List.append_assoc, List.cons_append, splitOn_line hline,
        List.splitOn_cons_eq_if_modifyHead, if_pos (by simp), ih hlines]
      simp

/-- What stands before a point of a text: whole lines and the start of a line. -/
theorem exists_lines (cs : List Char) : ∃ above before, cs = endedLines above ++ before ∧
    (∀ line ∈ above, '\n' ∉ line) ∧ '\n' ∉ before := by
  induction cs with
  | nil => exact ⟨[], [], rfl, by simp, by simp⟩
  | cons c cs ih =>
      obtain ⟨above, before, rfl, habove, hbefore⟩ := ih
      by_cases hc : c = '\n'
      · subst hc
        exact ⟨[] :: above, before, by simp, by simpa using habove, hbefore⟩
      · cases above with
        | nil => exact ⟨[], c :: before, rfl, by simp, by simp [hbefore, Ne.symm hc]⟩
        | cons line above =>
            refine ⟨(c :: line) :: above, before, by simp, ?_, hbefore⟩
            obtain ⟨hline, habove⟩ := List.forall_mem_cons.mp habove
            exact List.forall_mem_cons.mpr ⟨by simp [hline, Ne.symm hc], habove⟩

/-! ## Positions -/

namespace Position

theorem afterAll_line (h : '\n' ∉ line) (p : Position) :
    p.afterAll line = ⟨p.line, p.column + line.length, p.index + String.utf8Len line⟩ := by
  induction line generalizing p with
  | nil => rfl
  | cons c line ih =>
      have hc : c ≠ '\n' := (List.ne_of_not_mem_cons h).symm
      rw [afterAll_cons, ih (List.not_mem_of_not_mem_cons h), after, if_neg hc,
        String.utf8Len_cons]
      simp only [List.length_cons, mk.injEq, true_and]
      omega

theorem line_afterAll (p : Position) (cs : List Char) :
    (p.afterAll cs).line = p.line + cs.count '\n' := by
  induction cs generalizing p with
  | nil => rfl
  | cons c cs ih =>
      rw [afterAll_cons, ih, after]
      by_cases hc : c = '\n'
      · rw [if_pos hc, hc, List.count_cons_self]
        dsimp only
        omega
      · rw [if_neg hc, List.count_cons_of_ne hc]

/-- After whole lines comes the start of the next line. -/
theorem afterAll_endedLines (h : ∀ line ∈ lines, '\n' ∉ line) (n index : Nat) :
    (Position.mk n 1 index).afterAll (endedLines lines) =
      ⟨n + lines.length, 1, index + String.utf8Len (endedLines lines)⟩ := by
  induction lines generalizing n index with
  | nil => rfl
  | cons line lines ih =>
      obtain ⟨hline, hlines⟩ := List.forall_mem_cons.mp h
      rw [endedLines_cons, afterAll_append, afterAll_line hline, afterAll_cons, after, if_pos rfl,
        ih hlines]
      simp [String.utf8Len_append, String.utf8Len_cons]
      omega

/-- A position counts the lines above a point and the characters before it on its line. -/
theorem first_afterAll {above : List (List Char)} {before : List Char}
    (habove : ∀ line ∈ above, '\n' ∉ line) (hbefore : '\n' ∉ before) :
    first.afterAll (endedLines above ++ before) =
      ⟨above.length + 1, before.length + 1, String.utf8Len (endedLines above ++ before)⟩ := by
  rw [afterAll_append, first, afterAll_endedLines habove, afterAll_line hbefore,
    String.utf8Len_append]
  simp only [mk.injEq]
  omega

end Position

end

end TypedIsl

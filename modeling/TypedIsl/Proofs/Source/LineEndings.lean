import Mathlib.Data.List.Forall2
import TypedIsl.Diagnostic.Report
import TypedIsl.Language.Minimal
import TypedIsl.Proofs.Check.Relocation
import TypedIsl.Proofs.Emission.RoundTrip
import TypedIsl.Proofs.Syntax.Outline
import TypedIsl.Proofs.Syntax.Ranges
import TypedIsl.Proofs.Token.LineEndings

/-!
# Programs with other line endings

A program whose lines end in carriage returns and newlines is read, reported on and emitted as the
same program with newlines alone.
-/

namespace TypedIsl

/-- The text with a carriage return before every newline. -/
def crlfSource (source : String) : String :=
  String.ofList (crlf source.toList)

/-! ## Reading -/

theorem Token.Returned.move {token other : Token} (h : token.Returned other)
    (hspoken : ∀ text, token.kind ≠ .docstring text) : other = token.move .returned := by
  obtain ⟨kind, range⟩ := other
  obtain ⟨rfl, hrange⟩ := h
  rw [Token.move, ← hrange hspoken]

theorem arrivals_returned {tokens others : List Token}
    (h : List.Forall₂ Token.Returned tokens others) (index : Nat) (docs : List String) :
    arrivals index docs others = (arrivals index docs tokens).map (Arrival.move .returned 0) := by
  induction h generalizing index docs with
  | nil => rfl
  | @cons token other tokens others htoken _ ih =>
      rcases token.kind.docstring_or_spoken with ⟨text, htext⟩ | hspoken
      · rw [arrivals_docstring htext, arrivals_docstring (htoken.kind.trans htext), ih]
      · have hother : ∀ text, other.kind ≠ .docstring text := htoken.kind ▸ hspoken
        rw [arrivals_spoken hspoken, arrivals_spoken hother, ih, htoken.move hspoken]
        rfl

theorem programOfSource_of_lexes {source : String} {tokens : List Token} {program : Program}
    (hlexes : Lexes .first source.toList tokens) (hread : parseProgram tokens = .ok program) :
    programOfSource source = .ok program := by
  rw [programOfSource, lex, hlexes.lexFrom_eq, Lexed.parse]
  dsimp only
  rw [hread]

/-- The text with carriage returns is the same program in another place. -/
theorem programOfSource_returned {source : String} {program : Program}
    (h : programOfSource source = .ok program)
    (hlines : ∀ token ∈ (lex source).tokens, token.kind.OnOneLine) :
    programOfSource (crlfSource source) = .ok (Program.edit (.moving .returned) program) := by
  obtain ⟨hlexes, hread⟩ := lexes_of_programOfSource h
  obtain ⟨hproper, hcovers⟩ := covers_of_parseProgram hread
  obtain ⟨others, hothers, hreturned⟩ := hlexes.crlf (Nat.le_refl 1) hlines
  have hmoved := hcovers.move .returned 0
  rw [← arrivals_returned hreturned, ← Program.parts_move] at hmoved
  have hother := Program.proper_edit (keepsProper_moving .returned anyDoc) hproper
  refine programOfSource_of_lexes ?_ (parseProgram_of_covers hother hmoved)
  rw [crlfSource, String.toList_ofList]
  exact hothers

/-! ## Reports -/

theorem keepsPlaces_returned : KeepsPlaces .returned :=
  fun _ => ⟨rfl, rfl⟩

/-- All lines stay as they are, or get a carriage return at their end. -/
theorem splitLines_crlf (cs : List Char) :
    List.Forall₂ (fun line other => other = line ∨ other = line ++ ['\r'])
      (splitLines cs) (splitLines (crlf cs)) := by
  induction cs with
  | nil => exact .cons (.inl rfl) .nil
  | cons c cs ih =>
      by_cases hc : c = '\n'
      · subst hc
        exact .cons (.inr rfl) ih
      · rw [crlf_cons hc, splitLines, splitLines, if_neg hc, if_neg hc]
        generalize splitLines cs = lines, splitLines (crlf cs) = others at ih ⊢
        cases ih with
        | nil => exact .cons (.inl rfl) .nil
        | cons hline hlines =>
            refine .cons (hline.imp (congrArg (c :: ·)) fun heq => ?_) hlines
            rw [heq, List.cons_append]

theorem sourceLines_crlf (source : String) :
    sourceLines (crlfSource source) = sourceLines source := by
  have hlines : List.Forall₂
      (fun line other => dropCarriageReturns line = dropCarriageReturns other)
      (splitLines (crlf source.toList)) (splitLines source.toList) := by
    refine (splitLines_crlf source.toList).flip.imp fun other line h => ?_
    rcases h with rfl | rfl
    · rfl
    · exact dropCarriageReturns_append line
  rw [sourceLines, sourceLines, crlfSource, String.toList_ofList, ← List.forall₂_eq_eq_eq,
    List.forall₂_map_left_iff, List.forall₂_map_right_iff]
  exact hlines

section

variable {f : Position → Position} (hf : KeepsPlaces f)
include hf

theorem Diagnostic.text_move (d : Diagnostic) : (d.move f).text = d.text := by
  rw [text, text, Diagnostic.move, Range.text_move hf]

theorem Diagnostic.sort_move (ds : List Diagnostic) :
    sort (ds.map (Diagnostic.move f)) = (sort ds).map (Diagnostic.move f) := by
  refine (List.map_mergeSort fun d _ e _ => ?_).symm
  simp [notAfter, Diagnostic.move, Range.move, (hf _).1, (hf _).2]

theorem Diagnostic.report_move {source other : String} (h : sourceLines other = sourceLines source)
    (d : Diagnostic) : (d.move f).report other = d.report source := by
  have hnote : ∀ note : Note, (note.move f).line = note.line := by
    intro note
    rw [Note.line, Note.line, Note.move, Range.move, Position.text_move hf]
  have hrange : ∀ lines, quoteRange lines (d.range.move f) = quoteRange lines d.range := by
    intro lines
    simp [quoteRange, caretLine, Range.isMultiline, Range.move, (hf _).1, (hf _).2]
  simp only [report, Diagnostic.move, hrange, h, List.map_map, Function.comp_def, hnote]

end

/-- Line endings do not matter. If no string literal goes over a newline, the text with carriage
returns is a program with the same outline. All diagnostics are at the same lines and columns and
have the same reports, and the same code is emitted. -/
theorem programOfSource_crlf {source : String} {program : Program}
    (h : programOfSource source = .ok program)
    (hlines : ∀ token ∈ (lex source).tokens, token.kind.OnOneLine) :
    ∃ other, programOfSource (crlfSource source) = .ok other ∧
      Program.outline other = Program.outline program ∧
      (∀ language,
        (Program.check language other).diagnostics =
          (Program.check language program).diagnostics.map (Diagnostic.move .returned) ∧
        (Program.check language other).globals = (Program.check language program).globals ∧
        (Program.check language other).sorted.map Diagnostic.text =
          (Program.check language program).sorted.map Diagnostic.text ∧
        (Program.check language other).sorted.map (·.report (crlfSource source)) =
          (Program.check language program).sorted.map (·.report source)) ∧
      ∀ indent, Program.code indent other = Program.code indent program := by
  have hplaces := keepsPlaces_returned
  refine ⟨_, programOfSource_returned h hlines, Program.outline_move hplaces program,
    fun language => ?_, fun indent => ?_⟩
  · obtain ⟨hdiagnostics, hglobals⟩ :=
      Program.check_move Position.returned_injective language program
    have hsorted : (Program.check language (Program.edit (.moving .returned) program)).sorted =
        (Program.check language program).sorted.map (Diagnostic.move .returned) := by
      rw [Checked.sorted, Checked.sorted, hdiagnostics, Diagnostic.sort_move hplaces]
    refine ⟨hdiagnostics, hglobals, ?_, ?_⟩
    · rw [hsorted, List.map_map]
      exact List.map_congr_left fun d _ => d.text_move hplaces
    · rw [hsorted, List.map_map]
      exact List.map_congr_left fun d _ => d.report_move hplaces (sourceLines_crlf source)
  · exact Program.code_eq_of_unranged indent (Program.unranged_move .returned program)

/-- A docstring, a comment at the end of a line and a block comment of two lines. -/
def commentedSource : String :=
  ";;@ doc\n(define (f x) ; comment\n  #| two\n lines |# (g x \"s\"))\n"

theorem programOfSource_crlf_commented :
    ∃ program, programOfSource commentedSource = .ok program ∧
      (∀ token ∈ (lex commentedSource).tokens, token.kind.OnOneLine) ∧
      ∃ other, programOfSource (crlfSource commentedSource) = .ok other ∧
        Program.outline other = Program.outline program ∧
        (Program.check .minimal other).sorted.map (·.report (crlfSource commentedSource)) =
          (Program.check .minimal program).sorted.map (·.report commentedSource) ∧
        Program.code .tab other = Program.code .tab program := by
  have h : programOfSource commentedSource = .ok _ := rfl
  have hlines : ∀ token ∈ (lex commentedSource).tokens, token.kind.OnOneLine := by
    decide +kernel
  obtain ⟨other, hother, houtline, hcheck, hcode⟩ := programOfSource_crlf h hlines
  exact ⟨_, h, hlines, other, hother, houtline, (hcheck .minimal).2.2.2, hcode .tab⟩

end TypedIsl

import TypedIsl.Diagnostic.Basic
import TypedIsl.Text.Blank

/-!
# Reports

A report shows a diagnostic with the lines of the source around it. In a range within one line the
columns are marked by carets below it; otherwise the lines of the range are marked in the gutter.
-/

namespace TypedIsl

/-- A line of a report, without blanks at its end. -/
def reportLine (text : String) : String :=
  String.ofList (dropEndWhile isBlank text.toList) ++ "\n"

/-- A numbered line of the source. Lines outside the source are empty. -/
def quoteLine (lines : List (List Char)) (number : Nat) (marked : Bool) : String :=
  let width := (toString lines.length).length
  let gutter := if marked then ">" else "|"
  let text := String.ofList (lines[number - 1]?.getD [])
  reportLine s!"  {padLeft width (toString number)} {gutter} {text}"

/-- The numbered lines `first, …, first + count - 1`. -/
def quoteLines (lines : List (List Char)) (first count : Nat) (marked : Bool) : String :=
  String.join ((List.range' first count).map fun number => quoteLine lines number marked)

/-- Carets below the columns of a range within one line, at least one. -/
def caretLine (lines : List (List Char)) (range : Range) : String :=
  let width := (toString lines.length).length
  let offset := 2 + width + 3 + (range.start.column - 1)
  let carets := max 1 (range.stop.column - range.start.column)
  spaces offset ++ String.ofList (List.replicate carets '^') ++ "\n"

def Note.line (note : Note) : String :=
  s!"  note: {note.text} ({note.range.start.text})\n"

/-- The lines of the source that a range is about, and the lines around it: two for a range within
one line, one otherwise. -/
def quoteRange (lines : List (List Char)) (range : Range) : String :=
  let first := range.start.line
  let last := range.stop.line
  let context := if range.isMultiline then 1 else 2
  let above := min (first - 1) context
  let below := min (lines.length - last) context
  let subject :=
    if range.isMultiline then quoteLines lines first (last + 1 - first) true
    else quoteLine lines first false ++ caretLine lines range
  quoteLines lines (first - above) above false ++ subject ++ quoteLines lines (last + 1) below false

def Diagnostic.report (d : Diagnostic) (source : String) : String :=
  s!"  error: {d.problem.message}\n" ++ quoteRange (sourceLines source) d.range ++
    String.join (d.notes.map Note.line)

end TypedIsl

/-!
# Forms and their layout

A form is laid out on one line if it has no line break in it and ends within 80 columns.
Otherwise its head stays on the line, and every other item goes on a line of its own, indented by
one level more.
-/

namespace TypedIsl

inductive Brackets where
  | round
  | square
deriving DecidableEq

namespace Brackets

def opening : Brackets → Char
  | round => '('
  | square => '['

def closing : Brackets → Char
  | round => ')'
  | square => ']'

end Brackets

/-- A form to be laid out. -/
inductive Form where
  | atom (text : List Char)
  /-- The items of `rest` go on their own lines if the list is broken. -/
  | list (brackets : Brackets) (head rest : List Form)

/-- What one level of indentation is made of. -/
inductive Indent where
  | spaces (count : Nat)
  | tab
deriving DecidableEq

namespace Indent

def default : Indent := spaces 2

/-- The text of `level` levels. -/
def text (indent : Indent) (level : Nat) : List Char :=
  match indent with
  | spaces count => List.replicate (count * level) ' '
  | tab => List.replicate level '\t'

/-- The columns that `level` levels take up. -/
def width (indent : Indent) (level : Nat) : Nat :=
  match indent with
  | spaces count => count * level
  | tab => 8 * level

end Indent

namespace Form

def word (text : String) : Form :=
  atom text.toList

def round (head rest : List Form) : Form :=
  list .round head rest

def square (head rest : List Form) : Form :=
  list .square head rest

/-- Items in brackets, the first of which stays next to the opening one. -/
def sequence (brackets : Brackets) : List Form → Form
  | [] => atom [brackets.opening, brackets.closing]
  | first :: others => list brackets [first] others

end Form

mutual

/-- A form on one line. -/
def Form.flat : Form → List Char
  | .atom text => text
  | .list brackets head rest =>
      brackets.opening :: [' '].intercalate (Form.flats head ++ Form.flats rest) ++
        [brackets.closing]

def Form.flats : List Form → List (List Char)
  | [] => []
  | form :: forms => form.flat :: Form.flats forms

end

/-- The column after a text that starts at `column`. -/
def columnAfter (column : Nat) (text : List Char) : Nat :=
  text.foldl (fun column c => if c = '\n' then 0 else column + 1) column

/-- The number of columns that a line may have. -/
def maxWidth : Nat := 80

/-- Whether a text that starts at `column` can stay on its line. -/
def fits (column : Nat) (text : List Char) : Bool :=
  !text.contains '\n' && column + text.length ≤ maxWidth

mutual

/-- Lays a form out that starts at `column` and has `level` forms around it. -/
def Form.layout (indent : Indent) (level column : Nat) : Form → List Char
  | .atom text => text
  | .list brackets head rest =>
      let flat := (Form.list brackets head rest).flat
      if fits column flat then flat
      else
        brackets.opening :: Form.layoutHead indent (level + 1) (column + 1) head ++
          Form.layoutRest indent (level + 1) rest ++ [brackets.closing]

/-- Items side by side, the first of which starts at `column`. -/
def Form.layoutHead (indent : Indent) (level column : Nat) : List Form → List Char
  | [] => []
  | form :: forms =>
      let text := form.layout indent level column
      text ++ Form.layoutMore indent level (columnAfter column text) forms

/-- Items side by side after one that ends at `column`. -/
def Form.layoutMore (indent : Indent) (level column : Nat) : List Form → List Char
  | [] => []
  | form :: forms =>
      let text := form.layout indent level (column + 1)
      ' ' :: text ++ Form.layoutMore indent level (columnAfter (column + 1) text) forms

/-- Items on their own lines. -/
def Form.layoutRest (indent : Indent) (level : Nat) : List Form → List Char
  | [] => []
  | form :: forms =>
      '\n' :: indent.text level ++ form.layout indent level (indent.width level) ++
        Form.layoutRest indent level forms

end

end TypedIsl

/-! # Positions and ranges in a source text -/

namespace TypedIsl

/-- A point in a source text. Lines and columns start at one and count characters; `index`
counts the bytes before the point in the UTF-8 form of the text. -/
structure Position where
  line : Nat
  column : Nat
  index : Nat
deriving DecidableEq, Inhabited

namespace Position

/-- The point before the first character of a text. -/
def first : Position := ⟨1, 1, 0⟩

/-- The point after `c`, read at `p`. Only a newline starts a new line. -/
def after (p : Position) (c : Char) : Position :=
  if c = '\n' then ⟨p.line + 1, 1, p.index + c.utf8Size⟩
  else ⟨p.line, p.column + 1, p.index + c.utf8Size⟩

/-- The point after all of `cs`, read from `p` on. -/
def afterAll (p : Position) (cs : List Char) : Position :=
  cs.foldl after p

/-- Points are ordered by line, then by column, then by index. -/
def compare (p q : Position) : Ordering :=
  (Ord.compare p.line q.line).then
    ((Ord.compare p.column q.column).then (Ord.compare p.index q.index))

def text (p : Position) : String :=
  s!"{p.line}:{p.column}"

@[simp] theorem afterAll_nil (p : Position) : p.afterAll [] = p := rfl

@[simp] theorem afterAll_cons (p : Position) (c : Char) (cs : List Char) :
    p.afterAll (c :: cs) = (p.after c).afterAll cs := rfl

theorem afterAll_append (p : Position) (cs ds : List Char) :
    p.afterAll (cs ++ ds) = (p.afterAll cs).afterAll ds := by
  simp [afterAll]

end Position

/-- The stretch of a source text from `start` up to, but not including, `stop`. -/
structure Range where
  start : Position
  stop : Position
deriving DecidableEq, Inhabited

namespace Range

/-- The empty range at `p`. -/
def emptyAt (p : Position) : Range := ⟨p, p⟩

/-- From the start of `r` to the end of `s`. -/
def through (r s : Range) : Range := ⟨r.start, s.stop⟩

/-- Containment looks at byte indices only. -/
def contains (r s : Range) : Bool :=
  r.start.index ≤ s.start.index && s.stop.index ≤ r.stop.index

def isMultiline (r : Range) : Bool :=
  r.start.line != r.stop.line

def text (r : Range) : String :=
  s!"{r.start.text}..{r.stop.text}"

end Range

end TypedIsl

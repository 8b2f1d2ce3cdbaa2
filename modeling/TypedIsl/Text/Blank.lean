/-! # Blank characters, lines and padding -/

namespace TypedIsl

/-- The characters with the Unicode property White_Space. -/
def isBlank (c : Char) : Bool :=
  let n := c.toNat
  (0x9 ≤ n && n ≤ 0xD) || n = 0x20 || n = 0x85 || n = 0xA0 || n = 0x1680 ||
    (0x2000 ≤ n && n ≤ 0x200A) || n = 0x2028 || n = 0x2029 || n = 0x202F || n = 0x205F || n = 0x3000

theorem isBlank_of_isWhitespace {c : Char} (h : c.isWhitespace = true) : isBlank c = true := by
  simp only [Char.isWhitespace, Bool.or_eq_true, decide_eq_true_eq] at h
  rcases h with (((h | h) | h) | h) <;> subst h <;> rfl

/-- Drops the characters at the end that satisfy `p`. -/
def dropEndWhile (p : Char → Bool) (cs : List Char) : List Char :=
  (cs.reverse.dropWhile p).reverse

/-- Drops the carriage returns at the end. -/
def dropCarriageReturns (cs : List Char) : List Char :=
  dropEndWhile (· == '\r') cs

/-- The pieces between newlines. There is always at least one. -/
def splitLines : List Char → List (List Char)
  | [] => [[]]
  | c :: cs =>
      if c = '\n' then [] :: splitLines cs
      else match splitLines cs with
        | line :: lines => (c :: line) :: lines
        | [] => [[c]]

/-- The lines of a text, without the carriage returns that end them. -/
def sourceLines (source : String) : List (List Char) :=
  (splitLines source.toList).map dropCarriageReturns

def spaces (n : Nat) : String :=
  String.ofList (List.replicate n ' ')

/-- Fills up with spaces on the left. -/
def padLeft (width : Nat) (s : String) : String :=
  spaces (width - s.length) ++ s

end TypedIsl

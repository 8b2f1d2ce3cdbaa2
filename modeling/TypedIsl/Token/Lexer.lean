import TypedIsl.Double.Text
import TypedIsl.Text.Blank
import TypedIsl.Token.Basic

/-!
# From source text to tokens

`scan` finds the lexeme that starts with a character and the text after it, without regard to
positions. `lex` walks over the text, scans where a lexeme may start and attaches the ranges.
Lexing stops at the first fault, keeping the tokens before it.
-/

namespace TypedIsl

/-- Why no token can be made. -/
inductive LexicalFault where
  | unterminatedBlockComment
  | invalidHashLiteral
  | invalidFraction
  | invalidNumber
  | invalidEscape (escaped : Char)
deriving DecidableEq

def LexicalFault.text : LexicalFault → String
  | unterminatedBlockComment => "unterminated block comment"
  | invalidHashLiteral => "invalid character after `#`, expected `true`, `false` or `|`"
  | invalidFraction => "invalid fraction literal"
  | invalidNumber => "invalid number literal"
  | invalidEscape escaped => "invalid escape sequence `\\" ++ escaped.toString ++ "`"

/-- A fault, and the range from the start of the lexeme to where scanning stopped. -/
structure LexicalError where
  fault : LexicalFault
  range : Range
deriving DecidableEq

def LexicalError.message (e : LexicalError) : String :=
  s!"{e.fault.text} at {e.range.start.text}"

/-- What stands at the start of a text. `extra` counts the characters after the first one. -/
inductive Scan where
  | blank (extra : Nat)
  | token (kind : TokenKind) (extra : Nat)
  | fault (fault : LexicalFault) (extra : Nat)

def isIdentifierStart (c : Char) : Bool :=
  c.isAlpha || "-_?!=<>+*/".toList.contains c

def isIdentifierChar (c : Char) : Bool :=
  c.isAlphanum || "-_?!=<>+*/".toList.contains c

/-- Words are keywords, truth values or identifiers. -/
def wordKind (word : String) : TokenKind :=
  match Keyword.ofText? word with
  | some keyword => .keyword keyword
  | none =>
      if word = "true" then .literal (.boolean true)
      else if word = "false" then .literal (.boolean false)
      else .identifier word

def scanWord (c : Char) (rest : List Char) : Scan :=
  let more := rest.takeWhile isIdentifierChar
  .token (wordKind (String.ofList (c :: more))) more.length

def scanSymbol (rest : List Char) : Scan :=
  let name := rest.takeWhile isIdentifierChar
  .token (.literal (.symbol (String.ofList name))) name.length

/-- The largest integer that a literal may hold. -/
def maxInteger : Nat := 9223372036854775807

/-- A number is a run of digits, followed by a point or a slash only if a digit comes after it. -/
def scanNumber (c : Char) (rest : List Char) : Scan :=
  let more := rest.takeWhile Char.isDigit
  let digits := c :: more
  let single :=
    let n := natOfDigits digits
    if n ≤ maxInteger then .token (.literal (.integer n)) more.length
    else .fault .invalidNumber more.length
  match rest.dropWhile Char.isDigit with
  | mark :: tail =>
      let second := tail.takeWhile Char.isDigit
      let extra := more.length + 1 + second.length
      if second = [] then single
      else if mark = '.' then
        let value := Double.ofDecimal false (Decimal.ofDigits digits second)
        .token (.literal (.decimal value)) extra
      else if mark = '/' then
        let n := natOfDigits digits
        let d := natOfDigits second
        if n ≤ maxInteger ∧ d ≤ maxInteger ∧ d ≠ 0 then .token (.literal (.fraction n d)) extra
        else .fault .invalidFraction extra
      else single
  | [] => single

/-- The rest of a string literal: its value, or an escape that is not allowed, and the number of
characters read. -/
inductive StringTail where
  | value (chars : List Char) (length : Nat)
  | badEscape (escaped : Char) (length : Nat)

/-- Puts characters in front: `length` characters that stand for `c`. -/
def StringTail.push (c : Char) (length : Nat) : StringTail → StringTail
  | value chars n => value (c :: chars) (length + n)
  | badEscape escaped n => badEscape escaped (length + n)

/-- Reads a string up to its closing quote. Only quotes and backslashes are escaped. A string that
is not closed goes on to the end of the text, where a null character is the end itself. -/
def stringTail : List Char → StringTail
  | [] => .value [] 0
  | '"' :: _ => .value [] 1
  | ['\x00'] => .value [] 1
  | '\\' :: '"' :: rest => (stringTail rest).push '"' 2
  | '\\' :: '\\' :: rest => (stringTail rest).push '\\' 2
  | '\\' :: c :: _ => .badEscape c 1
  | ['\\'] => .badEscape '\x00' 1
  | c :: rest => (stringTail rest).push c 1

def scanString (rest : List Char) : Scan :=
  match stringTail rest with
  | .value chars n => .token (.literal (.string (String.ofList chars))) n
  | .badEscape escaped n => .fault (.invalidEscape escaped) n

/-- A comment goes on to the end of the line or to a null character. -/
def commentText (rest : List Char) : List Char :=
  rest.takeWhile fun c => c != '\n' && c != '\x00'

/-- Comments are blank, but for those marked `;;@`, which are docstrings. One space after the
mark is dropped. -/
def scanComment : List Char → Scan
  | ';' :: '@' :: ' ' :: rest =>
      let text := commentText rest
      .token (.docstring (String.ofList (dropCarriageReturns text))) (3 + text.length)
  | ';' :: '@' :: rest =>
      let text := commentText rest
      .token (.docstring (String.ofList (dropCarriageReturns text))) (2 + text.length)
  | rest => .blank (commentText rest).length

/-- The number of characters up to the end of a block comment. Block comments do not nest. -/
def blockCommentLength? : List Char → Option Nat
  | [] => none
  | '|' :: '#' :: _ => some 2
  | _ :: rest => (· + 1) <$> blockCommentLength? rest

/-- A hash sign starts a block comment or a truth value, of which only the letters are checked. -/
def scanHash : List Char → Scan
  | '|' :: rest =>
      match blockCommentLength? rest with
      | some n => .blank (n + 1)
      | none => .fault .unterminatedBlockComment (rest.length + 1)
  | 't' :: 'r' :: 'u' :: 'e' :: _ => .token (.literal (.boolean true)) 4
  | 'f' :: 'a' :: 'l' :: 's' :: 'e' :: _ => .token (.literal (.boolean false)) 5
  | _ => .fault .invalidHashLiteral 0

/-- The lexeme that starts with `c` and goes on into `rest`. Characters without a meaning are
blank. -/
def scan (c : Char) (rest : List Char) : Scan :=
  match c, rest with
  | '(', _ | '[', _ => .token .openParen 0
  | ')', _ | ']', _ => .token .closeParen 0
  | ':', _ => .token .colon 0
  | '&', _ => .token .ampersand 0
  | '-', '>' :: _ => .token .arrow 1
  | '"', _ => scanString rest
  | '\'', _ => scanSymbol rest
  | ';', _ => scanComment rest
  | '#', _ => scanHash rest
  | _, _ =>
      if c.isDigit then scanNumber c rest
      else if isIdentifierStart c then scanWord c rest
      else .blank 0

/-- The tokens of a text, or those before the first fault. -/
structure Lexed where
  tokens : List Token
  error? : Option LexicalError

/-- Lexes a text that starts at `p`, leaving out the first `skip` characters. -/
def lexFrom (skip : Nat) (p : Position) : List Char → Lexed
  | [] => ⟨[], none⟩
  | c :: rest =>
      match skip with
      | skip + 1 => lexFrom skip (p.after c) rest
      | 0 =>
          let rangeTo (extra : Nat) : Range := ⟨p, (p.after c).afterAll (rest.take extra)⟩
          match scan c rest with
          | .blank extra => lexFrom extra (p.after c) rest
          | .token kind extra =>
              let lexed := lexFrom extra (p.after c) rest
              ⟨⟨kind, rangeTo extra⟩ :: lexed.tokens, lexed.error?⟩
          | .fault fault extra => ⟨[], some ⟨fault, rangeTo extra⟩⟩

def lex (source : String) : Lexed :=
  lexFrom 0 .first source.toList

/-- The tokens of a text without a fault. -/
def tokens (source : String) : Except LexicalError (List Token) :=
  match lex source with
  | ⟨tokens, none⟩ => .ok tokens
  | ⟨_, some e⟩ => .error e

end TypedIsl

import TypedIsl.Source.Range
import TypedIsl.Double.Basic

/-! # Tokens -/

namespace TypedIsl

/-- The three binding forms. -/
inductive LetKind where
  | plain
  | recursive
  | sequential
deriving DecidableEq

def LetKind.text : LetKind → String
  | .plain => "let"
  | .recursive => "letrec"
  | .sequential => "let*"

/-- Reserved words, named for the forms that they begin. -/
inductive Keyword where
  | define
  | defineStruct
  | branch
  | cond
  | otherwise
  | lambda
  | locals
  | lets (kind : LetKind)
  | require
deriving DecidableEq

namespace Keyword

def text : Keyword → String
  | define => "define"
  | defineStruct => "define-struct"
  | branch => "if"
  | cond => "cond"
  | otherwise => "else"
  | lambda => "lambda"
  | locals => "local"
  | lets kind => kind.text
  | require => "require"

def all : List Keyword :=
  [define, defineStruct, branch, cond, otherwise, lambda, locals,
    lets .plain, lets .recursive, lets .sequential, require]

/-- The keyword spelled `word`. -/
def ofText? (word : String) : Option Keyword :=
  all.find? (·.text = word)

end Keyword

/-- A value that is written down as one token. -/
inductive Literal where
  | integer (value : Int)
  | fraction (numerator denominator : Int)
  | decimal (value : Double)
  | string (value : String)
  | boolean (value : Bool)
  | symbol (name : String)
deriving DecidableEq

/-- What a token says. Square brackets are parentheses. -/
inductive TokenKind where
  | openParen
  | closeParen
  | keyword (word : Keyword)
  | literal (value : Literal)
  | identifier (name : String)
  | colon
  | ampersand
  | arrow
  | docstring (text : String)
deriving DecidableEq

namespace Literal

def description : Literal → String
  | integer _ => "number"
  | fraction _ _ => "exact number"
  | decimal _ => "inexact number"
  | string _ => "string"
  | boolean _ => "boolean"
  | symbol _ => "symbol"

end Literal

namespace TokenKind

/-- How syntax errors speak of a token. -/
def description : TokenKind → String
  | openParen => "`(`"
  | closeParen => "`)`"
  | keyword word => s!"`{word.text}`"
  | literal value => value.description
  | identifier _ => "identifier"
  | colon => "`:`"
  | ampersand => "`&`"
  | arrow => "`->`"
  | docstring _ => "docstring"

/-- The name that a token brings into a program. -/
def name? : TokenKind → Option String
  | identifier name => some name
  | literal (.symbol name) => some name
  | _ => none

theorem docstring_or_spoken (kind : TokenKind) :
    (∃ text, kind = docstring text) ∨ ∀ text, kind ≠ docstring text := by
  cases kind with
  | docstring text => exact .inl ⟨text, rfl⟩
  | _ => exact .inr fun _ => TokenKind.noConfusion

end TokenKind

structure Token where
  kind : TokenKind
  range : Range
deriving DecidableEq

end TypedIsl

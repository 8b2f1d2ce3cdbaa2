import TypedIsl.Syntax.Reader
import TypedIsl.Token.Lexer

/-! # From source text to programs -/

namespace TypedIsl

/-- Why a source text is not a program. -/
inductive SourceError where
  | lexical (error : LexicalError)
  | syntactic (error : SyntaxError)
deriving DecidableEq

def SourceError.message : SourceError → String
  | lexical error => error.message
  | syntactic error => error.message

/-- Reads lexed text with a parser. -/
def Lexed.parse {α : Type} (lexed : Lexed) (parser : List Token → Except SyntaxError α) :
    Except SourceError α :=
  match lexed.error? with
  | some e => .error (.lexical e)
  | none =>
      match parser lexed.tokens with
      | .ok a => .ok a
      | .error e => .error (.syntactic e)

def programOfSource (source : String) : Except SourceError Program :=
  (lex source).parse parseProgram

def valueOfSource (source : String) : Except SourceError Value :=
  (lex source).parse parseValue

/-- The names that reading the tokens of a program brings in: all of them, or those before a
syntax error. -/
def namesRead (tokens : List Token) : List String :=
  let read := match parseProgram tokens with
    | .ok _ => tokens
    | .error e => tokens.take e.index
  read.filterMap (·.kind.name?)

end TypedIsl

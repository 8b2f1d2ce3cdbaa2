import TypedIsl.Check.Program
import TypedIsl.NameTable
import TypedIsl.Source.Parse

/-!
# Sessions

A session numbers the names of all sources that it has read, and keeps the tokens of the last one.
-/

namespace TypedIsl

structure Session where
  names : NameTable
  tokens : List Token

/-- Text was lexed into a session that still held this many tokens. -/
structure TokensLeft where
  count : Nat
deriving DecidableEq

def TokensLeft.message (e : TokensLeft) : String :=
  s!"assertion `left == right` failed: must pass clean tokens buffer\n  left: {e.count}\n right: 0"

namespace Session

def empty : Session := ⟨.empty, []⟩

/-- Drops the tokens. -/
def clear (session : Session) : Session :=
  ⟨session.names, []⟩

/-- Lexes a text. The session must not hold any tokens. -/
def lex (session : Session) (source : String) :
    Except TokensLeft (Session × Option LexicalError) :=
  if session.tokens.isEmpty then
    let lexed := TypedIsl.lex source
    .ok (⟨session.names, lexed.tokens⟩, lexed.error?)
  else .error ⟨session.tokens.length⟩

/-- Reads a program. Nothing is read from a text with a lexical fault, though the tokens before it
are kept. -/
def parse (session : Session) (source : String) : Session × Except SourceError Program :=
  let lexed := TypedIsl.lex source
  let names := match lexed.error? with
    | some _ => session.names
    | none => session.names.addAll (namesRead lexed.tokens)
  (⟨names, lexed.tokens⟩, lexed.parse parseProgram)

/-- Reads and checks a program. The language is `base` with the builtins of `custom` put in. -/
def check (session : Session) (source : String) (base : Language) (custom : List (String × Ty)) :
    Session × Except SourceError Checked :=
  match session.parse source with
  | (session, .ok program) =>
      let language := base.putAll custom
      let checked := Program.check language program
      let structs := base.structNames ++ custom.flatMap fun (_, type) => type.structNames
      let names := session.names.addAll (structs ++ language.names ++ checked.coined)
      (⟨names, session.tokens⟩, .ok checked)
  | (session, .error e) => (session, .error e)

end Session

end TypedIsl

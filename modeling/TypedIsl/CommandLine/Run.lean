import TypedIsl.Check.Program
import TypedIsl.CommandLine.Options
import TypedIsl.Diagnostic.Report
import TypedIsl.Emission.Code
import TypedIsl.Language.BeginningStudent
import TypedIsl.Language.Minimal
import TypedIsl.Source.Parse

/-!
# Running the command line

A run reads one file and writes at most one. It is written over any monad with file operations.
-/

namespace TypedIsl

def LanguageChoice.language : LanguageChoice → Language
  | minimal => .minimal
  | beginningStudent => .beginningStudent

/-- Why a file cannot be read or written. -/
inductive FileError where
  | notFound
  | notADirectory
  | isADirectory
  | nameTooLong
  | invalidText
  | other (cause : String)
deriving DecidableEq

def FileError.message : FileError → String
  | notFound => "No such file or directory (os error 2)"
  | notADirectory => "Not a directory (os error 20)"
  | isADirectory => "Is a directory (os error 21)"
  | nameTooLong => "File name too long (os error 36)"
  | invalidText => "stream did not contain valid UTF-8"
  | other cause => cause

/-- How files are read and written. -/
structure FileOperations (m : Type → Type) where
  read : String → m (Except FileError ByteArray)
  write : String → String → m (Except FileError Unit)

/-- The end of a run. -/
structure Outcome where
  code : Nat
  stdout : String
  stderr : String
deriving DecidableEq

def versionText : String := "trc 0.0.1\n"

def helpText : String :=
  "Type checks a typed student language program, emitting plain htdp/isl+.\n\n" ++
  "Usage: trc [OPTIONS] <FILE>\n\n" ++
  "Options:\n" ++
  "  -o, --out <OUT>        Where to write the emitted program [default: out.rkt]\n" ++
  "      --no-emit          Only check the program, without emitting code\n" ++
  "      --no-check         Emit code without type checking\n" ++
  "      --lang <LANG>      minimal or beginning-student [default: beginning-student]\n" ++
  "      --indent <INDENT>  Spaces per indentation level [default: 2]\n" ++
  "      --tab              Indent the emitted code with tabs\n" ++
  "  -h, --help             Print help\n" ++
  "  -V, --version          Print version\n"

/-- The reports of all diagnostics and their number. -/
def diagnosticsText (source : String) (diagnostics : List Diagnostic) : String :=
  String.join (diagnostics.map fun d => d.report source ++ "\n") ++
    s!"Found {diagnostics.length} error(s), skipping emit. (--no-check to override)\n"

def fileErrorText (activity path : String) (e : FileError) : String :=
  s!"Error: failed to {activity} {path}\n\nCaused by:\n    {e.message}\n"

/-- The diagnostics that keep a program from being emitted. -/
def Options.diagnostics (options : Options) (program : Program) : List Diagnostic :=
  if options.check then (Program.check options.language.language program).sorted else []

/-- The text of a file. -/
def textOfBytes (bytes : ByteArray) : Except FileError String :=
  match String.fromUTF8? bytes with
  | some text => .ok text
  | none => .error .invalidText

section

variable {m : Type → Type} [Monad m]

/-- Compiles a program, unless it has diagnostics, and writes it. -/
def Options.build (options : Options) (files : FileOperations m) (source : String)
    (program : Program) : m Outcome :=
  match options.diagnostics program with
  | d :: ds => return ⟨1, "", diagnosticsText source (d :: ds)⟩
  | [] =>
      if options.emit then do
        let building := "No errors, building...\n"
        match ← files.write options.out (Program.code options.indent program) with
        | .ok () => return ⟨0, building ++ s!"Wrote to {options.out}\n", ""⟩
        | .error e => return ⟨1, building, fileErrorText "write" options.out e⟩
      else return ⟨0, "", ""⟩

def Options.compile (options : Options) (files : FileOperations m) : m Outcome := do
  match (← files.read options.file) >>= textOfBytes with
  | .error e => return ⟨1, "", fileErrorText "read" options.file e⟩
  | .ok source =>
      match programOfSource source with
      | .error e => return ⟨1, "", s!"error: {e.message}\n"⟩
      | .ok program => options.build files source program

def Request.run (request : Request) (files : FileOperations m) : m Outcome :=
  match request with
  | version => return ⟨0, versionText, ""⟩
  | help => return ⟨0, helpText, ""⟩
  | compile options => options.compile files

/-- Runs a command line, unless its arguments cannot be used. -/
def runCommandLine (arguments : List String) (files : FileOperations m) :
    m (Except UsageError Outcome) := do
  match Request.ofArguments arguments with
  | .error e => return .error e
  | .ok request => return .ok (← request.run files)

end

/-- The outcome of a run whose arguments cannot be used. -/
def UsageError.outcome (e : UsageError) : Outcome :=
  ⟨2, "", s!"error: {e.message}\n\nFor more information, try '--help'.\n"⟩

end TypedIsl

import TypedIsl.Emission.Form

/-!
# Command line options

Arguments are read from left to right, and the first one that cannot be used is an error. What can
only be judged for all of them together is judged at the end.
-/

namespace TypedIsl

/-- The languages that can be chosen. -/
inductive LanguageChoice where
  | minimal
  | beginningStudent
deriving DecidableEq

def LanguageChoice.ofText? (text : String) : Option LanguageChoice :=
  if text = "minimal" then some .minimal
  else if text = "beginning-student" then some .beginningStudent
  else none

/-- What to compile, and how. -/
structure Options where
  file : String
  out : String
  emit : Bool
  check : Bool
  language : LanguageChoice
  indent : Indent
deriving DecidableEq

/-- What the arguments ask for. -/
inductive Request where
  | compile (options : Options)
  | version
  | help
deriving DecidableEq

/-- Options that are on or off. -/
inductive Flag where
  | noEmit
  | noCheck
  | tab
deriving DecidableEq

def Flag.text : Flag → String
  | noEmit => "--no-emit"
  | noCheck => "--no-check"
  | tab => "--tab"

/-- Options with a value. -/
inductive Setting where
  | out
  | language
  | indent
deriving DecidableEq

def Setting.text : Setting → String
  | out => "--out"
  | language => "--lang"
  | indent => "--indent"

inductive UsageError where
  | unexpectedArgument (argument : String)
  | unexpectedValue (option : String)
  | repeatedOption (option : String)
  | missingValue (setting : Setting)
  | invalidValue (setting : Setting) (value : String)
  | emptyFile
  | missingFile
  | indentWithTab
deriving DecidableEq

def UsageError.message : UsageError → String
  | unexpectedArgument argument => s!"unexpected argument '{argument}'"
  | unexpectedValue option => s!"'{option}' does not take a value"
  | repeatedOption option => s!"'{option}' cannot be used multiple times"
  | missingValue setting => s!"'{setting.text}' needs a value"
  | invalidValue setting value => s!"invalid value '{value}' for '{setting.text}'"
  | emptyFile => "the name of the file is empty"
  | missingFile => "a file must be given"
  | indentWithTab => "'--indent' cannot be used with '--tab'"

/-- The arguments so far. -/
structure Draft where
  file? : Option String
  flags : List Flag
  out? : Option String
  language? : Option LanguageChoice
  indent? : Option Nat

/-- An integer with an optional sign, from 0 to 255. -/
def indentOfText? (text : String) : Option Nat :=
  let (negative, digits) := match text.toList with
    | '-' :: digits => (true, digits)
    | '+' :: digits => (false, digits)
    | digits => (false, digits)
  if digits = [] ∨ !digits.all Char.isDigit then none
  else
    let n := digits.foldl (fun n c => 10 * n + (c.toNat - '0'.toNat)) 0
    if n = 0 ∨ (!negative ∧ n ≤ 255) then some n else none

namespace Draft

def empty : Draft := ⟨none, [], none, none, none⟩

def putFile (draft : Draft) (path : String) : Except UsageError Draft :=
  match draft.file? with
  | some _ => .error (.unexpectedArgument path)
  | none => if path = "" then .error .emptyFile else .ok { draft with file? := some path }

def putFlag (draft : Draft) (flag : Flag) : Except UsageError Draft :=
  if flag ∈ draft.flags then .error (.repeatedOption flag.text)
  else .ok { draft with flags := flag :: draft.flags }

/-- Stores a value that has been read, if there is one and the setting has no value yet. -/
def store {α : Type} (setting : Setting) (text : String) (previous value? : Option α) :
    Except UsageError α :=
  match previous, value? with
  | some _, _ => .error (.repeatedOption setting.text)
  | none, some value => .ok value
  | none, none => .error (.invalidValue setting text)

def put (draft : Draft) (setting : Setting) (text : String) : Except UsageError Draft :=
  match setting with
  | .out => do
      let out ← store setting text draft.out? (if text = "" then none else some text)
      return { draft with out? := some out }
  | .language => do
      let language ← store setting text draft.language? (LanguageChoice.ofText? text)
      return { draft with language? := some language }
  | .indent => do
      let indent ← store setting text draft.indent? (indentOfText? text)
      return { draft with indent? := some indent }

/-- Judges the arguments together. What is not given has a default. -/
def finish (draft : Draft) : Except UsageError Request :=
  match draft.file? with
  | none => .error .missingFile
  | some file =>
      if draft.indent?.isSome ∧ .tab ∈ draft.flags then .error .indentWithTab
      else .ok (.compile
        { file
          out := draft.out?.getD "out.rkt"
          emit := .noEmit ∉ draft.flags
          check := .noCheck ∉ draft.flags
          language := draft.language?.getD .beginningStudent
          indent :=
            if .tab ∈ draft.flags then .tab
            else (draft.indent?.map Indent.spaces).getD .default })

end Draft

/-- A single argument. -/
inductive Argument where
  | file (path : String)
  | flag (flag : Flag)
  /-- With a value, unless that is the next argument. -/
  | setting (setting : Setting) (value? : Option String)
  | version
  | help
  /-- After this argument there are only files. -/
  | filesOnly

/-- Splits `name=value`. -/
def splitValue (text : List Char) : String × Option String :=
  match text.dropWhile (· ≠ '=') with
  | _ :: value => (String.ofList (text.takeWhile (· ≠ '=')), some (String.ofList value))
  | [] => (String.ofList text, none)

/-- An argument that begins with two hyphens. -/
def longArgument (argument : String) (body : List Char) : Except UsageError Argument :=
  let (name, value?) := splitValue body
  let plain (found : Argument) : Except UsageError Argument :=
    match value? with
    | none => .ok found
    | some _ => .error (.unexpectedValue s!"--{name}")
  if name = "out" then .ok (.setting .out value?)
  else if name = "lang" then .ok (.setting .language value?)
  else if name = "indent" then .ok (.setting .indent value?)
  else if name = "no-emit" then plain (.flag .noEmit)
  else if name = "no-check" then plain (.flag .noCheck)
  else if name = "tab" then plain (.flag .tab)
  else if name = "version" then plain .version
  else if name = "help" then plain .help
  else .error (.unexpectedArgument argument)

/-- An argument that begins with a single hyphen and a letter. -/
def shortArgument (argument : String) (letter : Char) (rest : List Char) :
    Except UsageError Argument :=
  match letter, rest with
  | 'o', [] => .ok (.setting .out none)
  | 'o', '=' :: value => .ok (.setting .out (some (String.ofList value)))
  | 'o', value => .ok (.setting .out (some (String.ofList value)))
  | 'V', _ => .ok .version
  | 'h', _ => .ok .help
  | _, _ => .error (.unexpectedArgument argument)

def Argument.ofText (argument : String) : Except UsageError Argument :=
  match argument.toList with
  | ['-', '-'] => .ok .filesOnly
  | '-' :: '-' :: body => longArgument argument body
  | '-' :: letter :: rest => shortArgument argument letter rest
  | _ => .ok (.file argument)

/-- Whether an argument can be the value of the setting before it. -/
def isValue (argument : String) : Bool :=
  argument = "-" || argument.toList.head? ≠ some '-'

/-- Arguments that are all files. -/
def readFiles (draft : Draft) : List String → Except UsageError Request
  | [] => draft.finish
  | path :: rest => do
      let draft ← draft.putFile path
      readFiles draft rest

/-- Reads arguments into a draft. The version and the help are given as soon as they are asked
for. -/
def readArguments (draft : Draft) : List String → Except UsageError Request
  | [] => draft.finish
  | argument :: rest =>
      match Argument.ofText argument with
      | .error e => .error e
      | .ok .version => .ok .version
      | .ok .help => .ok .help
      | .ok .filesOnly => readFiles draft rest
      | .ok (.file path) => do
          let draft ← draft.putFile path
          readArguments draft rest
      | .ok (.flag flag) => do
          let draft ← draft.putFlag flag
          readArguments draft rest
      | .ok (.setting setting (some value)) => do
          let draft ← draft.put setting value
          readArguments draft rest
      | .ok (.setting setting none) =>
          match rest with
          | value :: rest =>
              if isValue value then do
                let draft ← draft.put setting value
                readArguments draft rest
              else .error (.missingValue setting)
          | [] => .error (.missingValue setting)

def Request.ofArguments (arguments : List String) : Except UsageError Request :=
  readArguments .empty arguments

end TypedIsl

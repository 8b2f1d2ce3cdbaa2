import TypedIsl.CommandLine.Run

/-! # The command line program -/

namespace TypedIsl

/-- What an error of the system says about a file. Some operations negate its code. -/
def FileError.ofIO (e : IO.Error) : FileError :=
  match e with
  | .noFileOrDirectory .. => .notFound
  | .inappropriateType _ code _ =>
      if code = 20 ∨ code = -20 then .notADirectory else .isADirectory
  | .invalidArgument _ code _ =>
      if code = 36 ∨ code = -36 then .nameTooLong else .other (toString e)
  | _ => .other (toString e)

/-- Runs a file operation of the system. -/
def fileOperation {α : Type} (operation : IO α) : IO (Except FileError α) := do
  try
    return .ok (← operation)
  catch e =>
    return .error (.ofIO e)

def systemFiles : FileOperations IO where
  read path := fileOperation (IO.FS.readBinFile path)
  write path text := fileOperation (IO.FS.writeFile path text)

end TypedIsl

open TypedIsl in
def main (arguments : List String) : IO UInt32 := do
  let outcome := match ← runCommandLine arguments systemFiles with
    | .ok outcome => outcome
    | .error e => e.outcome
  IO.print outcome.stdout
  IO.eprint outcome.stderr
  return outcome.code.toUInt32

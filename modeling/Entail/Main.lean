import Entail.Program

/-! The program as a command: the named file and standard input read for a run, and an
interactive session held line by line. -/

namespace Entail.Command

/-- Announces a fault that nothing handled. -/
def announce (f : Fault) : IO UInt32 := do
  IO.eprintln (f.kind.label ++ ": " ++ f.message)
  return 1

/-- Reads one line of standard input without its newline; nothing at the end of the input. -/
def readLine (stdin : IO.FS.Stream) : IO (Option String) := do
  let line ← stdin.getLine
  if line.isEmpty then return none
  else return some (String.ofList ((line.toList.reverse.dropWhile (· = '\n')).reverse))

/-- Holds an interactive session until it ends. -/
partial def converse (stdin stdout : IO.FS.Stream) (verbose : Bool) (s : Session) :
    IO UInt32 := do
  stdout.putStr prompt
  stdout.flush
  match ← readLine stdin with
  | none => announce .endOfInput
  | some typed =>
    match s.step verbose typed with
    | .quit => return 0
    | .failed written e =>
      stdout.putStr written
      announce e
    | .next s written =>
      stdout.putStr written
      converse stdin stdout verbose s

/-- Reads a file, telling a missing file from a directory. -/
def readBook (name : String) : IO (Except Fault String) := do
  try
    return .ok (← IO.FS.readFile name)
  catch e =>
    match e with
    | .inappropriateType _ 21 _ => return .error (.isDirectory name)
    | .inappropriateType _ 20 _ => return .error (.notDirectory name)
    | .otherError 21 _ => return .error (.isDirectory name)
    | _ => return .error (.missingFile name)

/-- Writes what a run wrote and ends it. -/
def finish (o : Outcome) : IO UInt32 := do
  IO.print o.stdout
  IO.eprint o.stderr
  match o.ending with
  | .exit code => return code.toUInt32
  | .fault f => announce f

end Entail.Command

open Entail Entail.Command in
def main (args : List String) : IO UInt32 := do
  match Options.parse args with
  | .run o =>
    if o.interactive then converse (← IO.getStdin) (← IO.getStdout) o.verbose {}
    else
      -- the one file a run may read is read first, so that the run itself is pure
      let book ← match o.file with
        | some name => readBook name
        | none => pure (.error (.missingFile ""))
      let input ← if o.file.isSome then pure "" else (← IO.getStdin).readToEnd
      finish (Program.runWith (fun _ => book) args input)
  | _ => finish (Program.run args "")

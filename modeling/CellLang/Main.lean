import CellLang.CommandLine.Perform

/-!
# The program

Reads the files a command names, performs it and writes what it says. A prompt session is answered
line by line as the input arrives.
-/

namespace CellLang

/-- The cause of a failed read. Failures to open carry the negated number of the system. -/
def readFailure : IO.Error → ReadFailure
  | .noFileOrDirectory .. => .missing
  | .permissionDenied .. => .denied
  | .inappropriateType _ code _ => if code = 21 || code = -21 then .directory else .notDirectory
  | .invalidArgument _ code details => if code = -36 then .nameTooLong else .other details
  | e => .other (toString e)

/-- The text of a file, or the reason why it has none. -/
def loadFile (name : String) : IO (String × Except ReadFailure String) := do
  let text ← (IO.FS.readFile name).toBaseIO
  return (name, text.mapError readFailure)

/-- The files that can be read now. -/
def loadFiles (names : List String) : IO Files := do
  let loaded ← names.mapM loadFile
  return fun name => (loaded.lookup name).getD (.error .missing)

def writeOutput (o : Output) : IO Unit := do
  IO.print o.out
  (← IO.getStdout).flush
  IO.eprint o.err

/-- Answers lines until the input or the conversation ends. -/
partial def converseLive (s : Session) : IO Unit := do
  let line ← (← IO.getStdin).getLine
  if line.isEmpty then writeOutput Prompt.farewell
  else
    let reply := Prompt.respond s line
    writeOutput reply.output
    match reply.session with
    | some s => converseLive s
    | none => return

end CellLang

open CellLang in
def main (args : List String) : IO UInt32 := do
  match Command.ofArgs? args with
  | none =>
    IO.eprintln "usage: cellar run|repl|parse|tokens [FILE] [--capacity N] [--max-depth N] [--config F]"
    return 2
  | some command =>
    let files ← loadFiles command.files
    match command with
    | .repl options => match options.resolve files with
      | .error e =>
        writeOutput (.error ("Error: " ++ e.text))
        return 1
      | .ok settings =>
        writeOutput Prompt.greeting
        converseLive (.ofSettings settings)
        return 0
    | other =>
      let outcome := other.perform files ""
      writeOutput outcome.output
      return outcome.code.toUInt32

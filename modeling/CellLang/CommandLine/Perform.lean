import CellLang.CommandLine.Command
import CellLang.CommandLine.Prompt
import CellLang.Diagnostic
import CellLang.Program.Tree
import CellLang.Source.Place

/-!
# Performing commands

What a command writes and the code it ends with, given the files it can read and its input.
-/

namespace CellLang

/-- Why a file cannot be read. -/
inductive ReadFailure where
  | missing
  | denied
  /-- A part of the path that should be a directory is a file. -/
  | notDirectory
  | directory
  | nameTooLong
  | other (reason : String)
deriving DecidableEq, Repr

namespace ReadFailure

/-- The system's words and number for a failure. -/
def message : ReadFailure → String
  | .missing => "No such file or directory (os error 2)"
  | .denied => "Permission denied (os error 13)"
  | .notDirectory => "Not a directory (os error 20)"
  | .directory => "Is a directory (os error 21)"
  | .nameTooLong => "File name too long (os error 36)"
  | .other reason => reason

end ReadFailure

/-- A file's text, or the reason why it cannot be read. -/
abbrev Files := String → Except ReadFailure String

structure Outcome where
  code : Nat
  output : Output
deriving DecidableEq, Repr

namespace Outcome

def success (o : Output) : Outcome := ⟨0, o⟩

def failure (line : String) : Outcome := ⟨1, .error line⟩

/-- The code of a command line that does not fit the usage. -/
def usageCode : Nat := 2

end Outcome

namespace Options

/-- The settings of a file, or the defaults when none is named. -/
def base (files : Files) (o : Options) : Except Diagnostic Settings :=
  match o.config with
  | .none => .ok Settings.default
  | some path => match files path with
    | .error failure => .error (.io (path ++ ": " ++ failure.message))
    | .ok text => match Settings.ofToml text with
      | .ok s => .ok s
      | .error e => .error (.ofSettings e)

/-- The settings of a run: those of the file, then those given as options, then checked. -/
def resolve (files : Files) (o : Options) : Except Diagnostic Settings := do
  let s ← o.base files
  match (s.override o.capacity o.maxDepth).check with
  | .ok s => .ok s
  | .error e => .error (.ofSettings e)

end Options

namespace Command

/-- The report of a faulty source text: a title, and the place unless it lies past the end. -/
def report (file source : String) (e : SourceError) : Outcome :=
  let place := match Place.find? source e.span with
    | some p =>
      "\n╭─[ " ++ file ++ ":" ++ toString p.line ++ ":" ++ toString p.column ++ " ]"
    | none => ""
  .failure ("Error: Parser error" ++ place)

/-- Continues with the text of a file. -/
def withFile (files : Files) (file : String) (next : String → Outcome) : Outcome :=
  match files file with
  | .error failure => .failure ("Error: cannot read " ++ file ++ ": " ++ failure.message)
  | .ok source => next source

/-- Continues with the program of a file. -/
def withProgram (files : Files) (file : String) (next : Program → Outcome) : Outcome :=
  withFile files file fun source =>
    match Program.parse source with
    | .error e => report file source e
    | .ok p => next p

/-- Continues with the settings of a run. -/
def withSettings (files : Files) (o : Options) (next : Settings → Outcome) : Outcome :=
  match o.resolve files with
  | .error e => .failure ("Error: " ++ e.text)
  | .ok s => next s

/-- The files a command reads. -/
def files : Command → List String
  | .version => []
  | .run file options => options.config.toList ++ [file]
  | .repl options => options.config.toList
  | .parse file | .tokens file => [file]

/-- The lines of an input text. -/
def inputLines (input : String) : List String :=
  match input.splitOn "\n" with
  | ls => if ls.getLast? = some "" then ls.dropLast else ls

/-- Everything a command writes, and its code. -/
def perform (files : Files) (input : String) : Command → Outcome
  | .version => .success (.lines [Prompt.programName ++ " " ++ Prompt.version])
  | .run file options =>
    withSettings files options fun settings =>
      withProgram files file fun p =>
        match (Session.ofSettings settings).runProgram p with
        | (.ok lines, _) => .success (.lines lines)
        | (.error e, _) => .failure e.report
  | .repl options =>
    withSettings files options fun settings =>
      .success (Prompt.greeting.append
        (Prompt.converse (Session.ofSettings settings) (inputLines input)))
  | .parse file =>
    withProgram files file fun p => .success (.lines [p.toJson.pretty])
  | .tokens file =>
    withFile files file fun source =>
      .success (.lines ((Token.scan source).map fun t => t.span.text ++ "\t" ++ t.lexeme.text))

end Command

end CellLang

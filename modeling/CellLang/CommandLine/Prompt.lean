import CellLang.Session
import CellLang.Text.Backspace

/-!
# Prompt sessions

The conversation that reads lines of input: lines that start with a colon are commands, all others
are run in the session.
-/

namespace CellLang

/-- Text for the two output channels. -/
structure Output where
  out : String
  err : String
deriving DecidableEq, Repr

namespace Output

def none : Output := ⟨"", ""⟩

/-- Lines on the standard channel. -/
def lines (ls : List String) : Output := ⟨String.join (ls.map (· ++ "\n")), ""⟩

/-- One line on the error channel. -/
def error (line : String) : Output := ⟨"", line ++ "\n"⟩

def append (a b : Output) : Output := ⟨a.out ++ b.out, a.err ++ b.err⟩

end Output

namespace Prompt

def programName : String := "cellar"

def version : String := "0.1.0"

def greeting : Output :=
  .lines [programName ++ " " ++ version, "Type :help for help, :quit to exit.", ""]

def farewell : Output := .lines ["Goodbye!"]

def help : List String :=
  [programName ++ " REPL commands:",
    "  :help, :h, :?   Show this help",
    "  :quit, :q       Exit the REPL",
    "  :store          Show every store cell",
    "  :reset          Drop all definitions and cells",
    "",
    "You can enter:",
    "  - Statements:  (define p (new Num 2))  (assign p 3)  (print (deref p))",
    "  - Expressions: (pointer-arith + p 1)  ((lambda x (+ x 1)) 2)"]

/-- The answer to a line and the session after it; no session once the conversation is over. -/
structure Reply where
  output : Output
  session : Option Session

/-- Answers a command. -/
def command (s : Session) (name : String) : Reply :=
  if [":quit", ":q", ":exit"].contains name then ⟨farewell, none⟩
  else if [":help", ":h", ":?"].contains name then ⟨.lines help, some s⟩
  else if name = ":store" then ⟨.lines [s.machine.store.dump], some s⟩
  else if name = ":reset" then ⟨.lines ["Environment and store cleared."], some s.reset⟩
  else ⟨.lines ["Unknown command: " ++ name, "Type :help for help."], some s⟩

/-- What a line of input says: backspaces take effect, and blanks around the rest do not count. -/
def typedLine (line : String) : List Char :=
  Text.trim (Text.applyBackspaces line.toList)

/-- Answers a line of input. -/
def respond (s : Session) (line : String) : Reply :=
  match typedLine line with
  | [] => ⟨.none, some s⟩
  | ':' :: name => command s (String.ofList (':' :: name))
  | cs => match s.enter (String.ofList cs) with
    | (.ok shown, s) => ⟨.lines shown, some s⟩
    | (.error e, s) => ⟨.error e.report, some s⟩

/-- Answers lines up to the end of the input or of the conversation. -/
def converse (s : Session) : List String → Output
  | [] => farewell
  | line :: lines =>
    let reply := respond s line
    match reply.session with
    | some s => reply.output.append (converse s lines)
    | none => reply.output

end Prompt

end CellLang

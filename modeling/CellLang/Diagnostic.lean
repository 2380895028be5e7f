import CellLang.Program.Reading
import CellLang.Settings.Basic

/-!
# Diagnostics

What is reported when a program does not get as far as running.
-/

namespace CellLang

inductive Diagnostic where
  | lexer (message : String) (span : Span)
  | parser (message : String) (span : Span)
  | io (message : String)
  | config (message : String)
deriving DecidableEq, Repr

namespace Diagnostic

def ofSource (e : SourceError) : Diagnostic := .parser e.message e.span

def ofSettings (e : SettingsError) : Diagnostic := .config e.message

def message : Diagnostic → String
  | .lexer m _ | .parser m _ | .io m | .config m => m

def span? : Diagnostic → Option Span
  | .lexer _ s | .parser _ s => some s
  | .io _ | .config _ => none

/-- The diagnostic on one line. -/
def text : Diagnostic → String
  | .lexer m s => "Lexer error at " ++ s.text ++ ": " ++ m
  | .parser m s => "Parser error at " ++ s.text ++ ": " ++ m
  | .io m => "IO error: " ++ m
  | .config m => "Config error: " ++ m

end Diagnostic

end CellLang

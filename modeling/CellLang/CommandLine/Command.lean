import CellLang.Number.Arithmetic
import CellLang.Number.Decimal

/-!
# Commands

What a command line asks for. Options may stand before or after the file, with their value after a
blank or an equals sign; `--` ends the options.
-/

namespace CellLang

/-- Settings given on the command line. -/
structure Options where
  capacity : Option Nat
  maxDepth : Option Nat
  config : Option String
deriving DecidableEq, Repr

inductive Command where
  | version
  | run (file : String) (options : Options)
  | repl (options : Options)
  | parse (file : String)
  | tokens (file : String)
deriving DecidableEq, Repr

namespace Options

def none : Options := ⟨.none, .none, .none⟩

/-- A number that fits a word, with an optional plus sign. -/
def number? (text : String) : Option Nat :=
  let ds := match text.toList with
    | '+' :: ds => ds
    | ds => ds
  if ds ≠ [] ∧ ds.all Char.isDigit ∧ Decimal.ofDigits ds ≤ Binary64.maxWord then
    some (Decimal.ofDigits ds)
  else .none

/-- Sets an option that was not set before. -/
def set? (o : Options) (name value : String) : Option Options :=
  if name = "capacity" ∧ o.capacity = .none then
    (number? value).map fun n => { o with capacity := some n }
  else if name = "max-depth" ∧ o.maxDepth = .none then
    (number? value).map fun n => { o with maxDepth := some n }
  else if name = "config" ∧ o.config = .none ∧ value ≠ "" then
    some { o with config := some value }
  else .none

end Options

namespace Command

/-- The operands of a subcommand: files and options. -/
structure Operands where
  files : List String
  options : Options

/-- Whether an argument is a file or a value rather than an option. -/
def isPlain (arg : String) : Bool := arg == "-" || arg.toList.head? != some '-'

/-- Name and value of an argument such as `--name=value`. -/
def splitOption (arg : String) : String × Option String :=
  let body := arg.toList.drop 2
  let name := body.takeWhile (· != '=')
  match body.drop name.length with
  | _ :: value => (String.ofList name, some (String.ofList value))
  | [] => (String.ofList name, none)

/-- Files and options in the order given; none for an unknown option or a missing value. -/
def operands? (o : Operands) : List String → Option Operands
  | [] => some o
  | arg :: rest =>
    if isPlain arg then operands? { o with files := o.files ++ [arg] } rest
    else if arg = "--" then some { o with files := o.files ++ rest }
    else if ['-', '-'].isPrefixOf arg.toList then
      match splitOption arg with
      | (name, some value) => match o.options.set? name value with
        | some options => operands? { o with options } rest
        | none => none
      | (name, none) => match rest with
        | value :: rest =>
          if isPlain value then match o.options.set? name value with
            | some options => operands? { o with options } rest
            | none => none
          else none
        | [] => none
    else none

/-- The command that arguments ask for; none when they do not fit the usage. -/
def ofArgs? : List String → Option Command
  | [] => none
  | word :: args =>
    if word = "--version" ∨ ['-', 'V'].isPrefixOf word.toList then some .version
    else do
      let o ← operands? ⟨[], .none⟩ args
      match word, o.files with
      | "run", [file] => if file = "" then none else some (.run file o.options)
      | "repl", [] => some (.repl o.options)
      | "parse", [file] => if file = "" ∨ o.options ≠ .none then none else some (.parse file)
      | "tokens", [file] => if file = "" ∨ o.options ≠ .none then none else some (.tokens file)
      | _, _ => none

end Command

end CellLang

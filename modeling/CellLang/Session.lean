import CellLang.Machine.Execution
import CellLang.Program.Reading
import CellLang.Settings.Basic

/-!
# Sessions

A session is a machine that lives through a series of requests, with a limit on nested calls. Each
request returns its outcome and the session after it; a failed request leaves its effects.
-/

namespace CellLang

structure Session where
  limit : Nat
  machine : Machine

/-- Why a line of input was given up. -/
inductive LineError where
  | source (e : SourceError)
  | runtime (e : RuntimeError)

namespace LineError

/-- The line that reports the error. -/
def report : LineError → String
  | .source e => "Parse error: " ++ e.message
  | .runtime e => e.report

end LineError

/-- A machine with the primitives bound and every cell free. -/
def Machine.fresh (capacity : Nat) : Machine := ⟨.withPrimitives, .empty capacity⟩

namespace Session

/-- A new session with the given settings. -/
def ofSettings (s : Settings) : Session := ⟨s.maxDepth, .fresh s.capacity⟩

/-- Runs a computation on the machine of the session. -/
def perform {α : Type} (s : Session) (x : Eval α) : Except RuntimeError α × Session :=
  let (result, machine) := x s.machine
  (result, { s with machine })

def runProgram (s : Session) (p : Program) : Except RuntimeError (List String) × Session :=
  s.perform (p.exec s.limit)

def runStmt (s : Session) (st : Stmt) : Except RuntimeError (List String) × Session :=
  s.perform (st.exec s.limit)

/-- The value of an expression in the global frame. -/
def evaluate (s : Session) (e : Expr) : Except RuntimeError Value × Session :=
  s.perform (e.eval s.limit FrameId.global)

/-- Drops all definitions and cells; capacity and limit stay. -/
def reset (s : Session) : Session := { s with machine := .fresh s.machine.store.capacity }

/-- Runs one form of an input line: a statement shows what it prints, an expression its value. -/
def runForm (s : Session) (f : Form) : Except LineError (List String) × Session :=
  if f.isStatement then
    match f.toStmt with
    | .error e => (.error (.source e), s)
    | .ok st => match s.runStmt st with
      | (.ok lines, s) => (.ok lines, s)
      | (.error e, s) => (.error (.runtime e), s)
  else
    match f.toExpr with
    | .error e => (.error (.source e), s)
    | .ok expr => match s.evaluate expr with
      | (.ok v, s) => (.ok [v.text], s)
      | (.error e, s) => (.error (.runtime e), s)

/-- Runs forms in order up to the first error. -/
def runForms (s : Session) : List Form → Except LineError (List String) × Session
  | [] => (.ok [], s)
  | f :: fs => match s.runForm f with
    | (.error e, s) => (.error e, s)
    | (.ok lines, s) => match s.runForms fs with
      | (.ok more, s) => (.ok (lines ++ more), s)
      | (.error e, s) => (.error e, s)

/-- Runs a line of input and returns the lines to show. A text that cannot be read runs nothing. -/
def enter (s : Session) (line : String) : Except LineError (List String) × Session :=
  match Form.readSource line with
  | .error e => (.error (.source e), s)
  | .ok forms => s.runForms forms

end Session

end CellLang

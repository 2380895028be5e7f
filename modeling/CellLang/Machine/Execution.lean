import CellLang.Machine.Evaluation

/-!
# Execution of statements

Statements run in the global frame and yield the lines they print. The first failure ends a
program: its lines are lost, its effects stay.
-/

namespace CellLang

/-- The global frame. -/
def FrameId.global : FrameId := 0

namespace Stmt

/-- Stores a value where an evaluated location points, or rebinds the variable it names. -/
def assignTo (location : Expr) (target value : Value) : Eval Unit :=
  match target, location with
  | .pointer p, _ => do
    let index ← Eval.lift p.checked
    let store ← Eval.store
    Eval.putStore (store.write index value)
  | _, .var name => do
    let env ← Eval.environment
    Eval.putEnvironment (env.assign FrameId.global name value)
  | _, _ => .fault (.invalidAssignTarget location.text)

variable {μ : Type → Type} [Monad μ]

/-- Runs one statement and returns the lines it prints. -/
@[specialize]
def execIn (I : Interpretation μ) : Stmt → μ (List String)
  | .define name expr => do
    let value ← expr.evalIn I FrameId.global
    let env ← I.act Eval.environment
    I.act (Eval.putEnvironment (env.define FrameId.global name value))
    return []
  | .assign location expr => do
    let target ← location.evalIn I FrameId.global
    let value ← I.holding target (expr.evalIn I FrameId.global)
    I.act (assignTo location target value)
    return []
  | .print expr => do
    let value ← expr.evalIn I FrameId.global
    return [value.text]

/-- Runs statements in order. -/
@[specialize]
def execAllIn (I : Interpretation μ) : List Stmt → μ (List String)
  | [] => pure []
  | s :: ss => do
    let lines ← s.execIn I
    let more ← execAllIn I ss
    return lines ++ more

/-- Runs one statement on the machine, with at most `limit` nested calls. -/
def exec (limit : Nat) (s : Stmt) : Eval (List String) := s.execIn (.machine (callAt limit limit))

def execAll (limit : Nat) (ss : List Stmt) : Eval (List String) :=
  execAllIn (.machine (callAt limit limit)) ss

theorem execAll_cons (limit : Nat) (s : Stmt) (ss : List Stmt) :
    execAll limit (s :: ss) = do
      let lines ← s.exec limit
      let more ← execAll limit ss
      return lines ++ more := rfl

end Stmt

/-- Runs a program and returns the lines it prints. -/
def Program.exec (limit : Nat) (p : Program) : Eval (List String) := Stmt.execAll limit p.stmts

end CellLang

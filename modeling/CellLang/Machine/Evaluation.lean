import CellLang.Machine.Environment
import CellLang.Machine.Pointer
import CellLang.Machine.Primitive
import CellLang.Machine.Store

/-!
# Evaluation

An evaluation works on a machine, an environment and a store, and leaves a machine behind whether
it succeeds or fails. `Expr.evalIn` goes by the shape of the expression and takes the actions it is
made of from an `Interpretation`, the meaning of a closure call among them. On the machine alone it
is `Expr.evalWith`; `callAt` supplies the calls by recursion on the number of calls that may still
be nested. Every evaluation therefore ends.
-/

namespace CellLang

structure Machine where
  env : Environment
  store : Store

/-- A computation on a machine that may fail; the machine is kept in either case. -/
def Eval (α : Type) : Type := Machine → Except RuntimeError α × Machine

namespace Eval

@[always_inline]
instance : Monad Eval where
  pure a := fun m => (.ok a, m)
  bind x f := fun m => match x m with
    | (.ok a, m) => f a m
    | (.error e, m) => (.error e, m)

theorem pure_apply {α : Type} (a : α) (m : Machine) : (pure a : Eval α) m = (.ok a, m) := rfl

theorem bind_apply {α β : Type} (x : Eval α) (f : α → Eval β) (m : Machine) :
    (x >>= f) m = match x m with
      | (.ok a, m) => f a m
      | (.error e, m) => (.error e, m) := rfl

def fail {α : Type} (e : RuntimeError) : Eval α := fun m => (.error e, m)

def fault {α : Type} (f : Fault) : Eval α := fail (.of f)

/-- A result that does not depend on the machine. -/
def lift {α : Type} : Except Fault α → Eval α
  | .ok a => pure a
  | .error f => fault f

/-- A result that reports the expression it failed in. -/
def liftIn {α : Type} (e : Expr) : Except Fault α → Eval α
  | .ok a => pure a
  | .error f => fail (.inExpr e f)

def environment : Eval Environment := fun m => (.ok m.env, m)

def store : Eval Store := fun m => (.ok m.store, m)

/-- Replaces the environment, unless the new one could not be made. -/
def putEnvironment : Except Fault Environment → Eval Unit
  | .ok env => fun m => (.ok (), { m with env })
  | .error f => fault f

/-- Replaces the store, unless the new one could not be made. -/
def putStore : Except Fault Store → Eval Unit
  | .ok store => fun m => (.ok (), { m with store })
  | .error f => fault f

/-- Takes the first run of free cells of that length and sets them to the zero of the type. -/
def allocate (type : CellType) (size : Nat) : Eval Value := fun m =>
  match m.store.allocate size with
  | .ok bounds =>
    (.ok (.pointer (.atStart bounds)), { m with store := m.store.fill bounds (.zero type) })
  | .error f => fault f m

end Eval

/-- How an evaluation is carried out in computations that may do more than change a machine. -/
structure Interpretation (μ : Type → Type) where
  /-- An action on the machine. -/
  act {α : Type} (x : Eval α) : μ α
  /-- The application of a closure to one argument. -/
  call (c : Closure) (arg : Value) : μ Value
  /-- A computation during which a value is held for later use. -/
  holding {α : Type} (v : Value) (x : μ α) : μ α := x
  /-- The evaluation of an expression in a frame, made of what computes the value. -/
  evaluation (frame : FrameId) (e : Expr) (x : μ Value) : μ Value := x

section Interpretation

variable {μ : Type → Type} [Monad μ]

/-- Applies a value to arguments. -/
@[specialize]
def Value.applyIn (I : Interpretation μ) (callee : Value) (args : List Value) : μ Value :=
  match callee with
  | .closure c => match args with
    | [arg] => I.call c arg
    | _ => I.act (.fault (.arityMismatch "closure" 1 args.length))
  | .prim p => I.act (.lift (p.call args))
  | other => I.act (.fault (.invalidCallee other.typeName))

namespace Expr

/-- The outcome of `(new type size)`, once the type is evaluated. -/
def newValue (size : Nat) : Value → Eval Value
  | .keyword t => Eval.allocate t size
  | other => .fault (.typeMismatch "'new'" "a keyword (Num or Bool)" other.typeName)

/-- The outcome of `(deref target)`, once the target is evaluated. -/
def derefValue (target : Expr) : Value → Eval Value
  | .pointer p => do
    let index ← Eval.liftIn (.deref target) p.checked
    let store ← Eval.store
    Eval.lift (store.read index)
  | other => .fault (.typeMismatch "'deref'" "a pointer" other.typeName)

/-- The outcome of pointer arithmetic, once both operands are evaluated. -/
def moveValue (e : Expr) (op : Operator) : Value → Value → Eval Value
  | .pointer p, .num x => do
    let store ← Eval.store
    let moved ← Eval.liftIn e (p.offset op x store.capacity)
    return .pointer moved
  | .pointer _, other =>
    .fault (.typeMismatch "'pointer-arith'" "a number as its offset" other.typeName)
  | other, _ => .fault (.typeMismatch "'pointer-arith'" "a pointer" other.typeName)

mutual

/-- The value of an expression seen from a frame. -/
@[specialize]
def evalIn (I : Interpretation μ) (frame : FrameId) : Expr → μ Value
  | .var name => I.evaluation frame (.var name) do
    let env ← I.act Eval.environment
    I.act (Eval.lift (env.lookup frame name))
  | .num x => I.evaluation frame (.num x) (pure (.num x))
  | .bool b => I.evaluation frame (.bool b) (pure (.bool b))
  | .keyword t => I.evaluation frame (.keyword t) (pure (.keyword t))
  | .lambda param body =>
    I.evaluation frame (.lambda param body) (pure (.closure ⟨param, body, frame⟩))
  | .app head args => I.evaluation frame (.app head args) do
    let callee ← head.evalIn I frame
    let values ← I.holding callee (evalAllIn I frame args)
    callee.applyIn I values
  | .cond guard thenBranch elseBranch =>
    I.evaluation frame (.cond guard thenBranch elseBranch) do
      match ← guard.evalIn I frame with
      | .bool true => thenBranch.evalIn I frame
      | .bool false => elseBranch.evalIn I frame
      | other =>
        I.act (.fault (.typeMismatch "'if'" "a boolean in guard position" other.typeName))
  | .new type size => I.evaluation frame (.new type size) do
    let value ← type.evalIn I frame
    I.act (newValue size value)
  | .deref target => I.evaluation frame (.deref target) do
    let value ← target.evalIn I frame
    I.act (derefValue target value)
  | .move op pointer offset => I.evaluation frame (.move op pointer offset) do
    let base ← pointer.evalIn I frame
    let amount ← I.holding base (offset.evalIn I frame)
    I.act (moveValue (.move op pointer offset) op base amount)

/-- The values of expressions, evaluated left to right; each is held while the next ones are
computed. -/
@[specialize]
def evalAllIn (I : Interpretation μ) (frame : FrameId) : List Expr → μ (List Value)
  | [] => pure []
  | e :: es => do
    let v ← e.evalIn I frame
    let vs ← I.holding v (evalAllIn I frame es)
    return v :: vs

end

end Expr

end Interpretation

/-- The meaning of applying a closure to one argument. -/
abbrev Caller := Closure → Value → Eval Value

/-- Evaluation on the machine and nothing else. -/
def Interpretation.machine (call : Caller) : Interpretation Eval where
  act x := x
  call := call

/-- Applies a value to arguments on the machine. -/
def Value.applyWith (call : Caller) (callee : Value) (args : List Value) : Eval Value :=
  callee.applyIn (.machine call) args

namespace Expr

/-- The value of an expression seen from a frame, when closures are applied by `call`. -/
def evalWith (call : Caller) (frame : FrameId) (e : Expr) : Eval Value :=
  e.evalIn (.machine call) frame

/-- The values of expressions, evaluated left to right. -/
def evalAllWith (call : Caller) (frame : FrameId) (es : List Expr) : Eval (List Value) :=
  evalAllIn (.machine call) frame es

end Expr

/-- Applies closures with `left` more nested calls allowed out of `limit`. The frame of a call, and
all frames made after it, are dropped unless the call returns a closure. -/
def callAt (limit : Nat) : Nat → Caller
  | 0 => fun _ _ => .fault (.stackOverflow limit)
  | left + 1 => fun c arg m =>
    let mark := m.env.size
    let (frame, env) := m.env.extend c.frame c.param arg
    match c.body.evalWith (callAt limit left) frame { m with env } with
    | (.ok (.closure d), m) => (.ok (.closure d), m)
    | (result, m) => (result, { m with env := m.env.release mark })

/-- The value of an expression seen from a frame, with at most `limit` nested calls. -/
def Expr.eval (limit : Nat) (frame : FrameId) (e : Expr) : Eval Value :=
  e.evalWith (callAt limit limit) frame

end CellLang

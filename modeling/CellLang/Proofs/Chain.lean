import CellLang.Proofs.History

/-!
# Evaluation with chains of bindings

A second evaluator with the same rules, in which nothing is ever released. A closure carries the
parameters and arguments of the calls it was made in, as an immutable chain that ends in the global
frame; only the global frame can change. There are no frame positions, so none can be used again.
-/

namespace CellLang.Chain

mutual

inductive Value where
  | num (x : Binary64)
  | bool (b : Bool)
  | closure (param : String) (body : Expr) (scope : Scope)
  | prim (p : Primitive)
  | pointer (p : Pointer)
  | keyword (t : CellType)

/-- The bindings that code sees: those of the enclosing calls, the innermost first, and then the
global ones. -/
inductive Scope where
  | global
  | bind (name : String) (value : Value) (outer : Scope)

end

namespace Value

/-- The value as it shows in output, in messages, to primitives and to the store. None of them looks
at what a closure captured. -/
def seen : Value → CellLang.Value
  | .num x => .num x
  | .bool b => .bool b
  | .closure param body _ => .closure ⟨param, body, FrameId.global⟩
  | .prim p => .prim p
  | .pointer p => .pointer p
  | .keyword t => .keyword t

/-- The value that a primitive or the store returned. -/
def ofSeen : CellLang.Value → Value
  | .num x => .num x
  | .bool b => .bool b
  | .closure c => .closure c.param c.body .global
  | .prim p => .prim p
  | .pointer p => .pointer p
  | .keyword t => .keyword t

end Value

/-- The value that the enclosing calls give to a name. -/
def Scope.find? (name : String) : Scope → Option Value
  | .global => none
  | .bind n v outer => if name == n then some v else outer.find? name

structure Machine where
  globals : List (String × Value)
  store : Store

namespace Machine

def fresh (capacity : Nat) : Machine :=
  ⟨Primitive.all.map fun p => (p.name, .prim p), .empty capacity⟩

def lookup (m : Machine) (scope : Scope) (name : String) : Except Fault Value :=
  match (scope.find? name).or (m.globals.lookup name) with
  | some v => .ok v
  | none => .error (.unboundVariable name)

end Machine

def Eval (α : Type) : Type := Machine → Except RuntimeError α × Machine

namespace Eval

instance : Monad Eval where
  pure a := fun m => (.ok a, m)
  bind x f := fun m => match x m with
    | (.ok a, m) => f a m
    | (.error e, m) => (.error e, m)

theorem bind_apply {α β : Type} (x : Eval α) (f : α → Eval β) (m : Machine) :
    (x >>= f) m = match x m with
      | (.ok a, m) => f a m
      | (.error e, m) => (.error e, m) := rfl

def fail {α : Type} (e : RuntimeError) : Eval α := fun m => (.error e, m)

def fault {α : Type} (f : Fault) : Eval α := fail (.of f)

def lift {α : Type} : Except Fault α → Eval α
  | .ok a => pure a
  | .error f => fault f

def liftIn {α : Type} (e : Expr) : Except Fault α → Eval α
  | .ok a => pure a
  | .error f => fail (.inExpr e f)

def lookup (scope : Scope) (name : String) : Eval Value := fun m => lift (m.lookup scope name) m

def store : Eval Store := fun m => (.ok m.store, m)

def putStore : Except Fault Store → Eval Unit
  | .ok store => fun m => (.ok (), { m with store })
  | .error f => fault f

def allocate (type : CellType) (size : Nat) : Eval Value := fun m =>
  match m.store.allocate size with
  | .ok bounds =>
    (.ok (.pointer (.atStart bounds)), { m with store := m.store.fill bounds (.zero type) })
  | .error f => fault f m

/-- Adds a global binding, unless the name has one. -/
def define (name : String) (value : Value) : Eval Unit := fun m =>
  if (m.globals.lookup name).isSome then fault (.redefinition name) m
  else (.ok (), { m with globals := (name, value) :: m.globals })

/-- Replaces a global binding, which must be there. -/
def assign (name : String) (value : Value) : Eval Unit := fun m =>
  if (m.globals.lookup name).isSome then
    (.ok (), { m with
      globals := m.globals.map fun (n, v) => if n = name then (n, value) else (n, v) })
  else fault (.unboundVariable name) m

end Eval

abbrev Caller := (param : String) → (body : Expr) → Scope → Value → Eval Value

def applyWith (call : Caller) (callee : Value) (args : List Value) : Eval Value :=
  match callee with
  | .closure param body scope => match args with
    | [arg] => call param body scope arg
    | _ => .fault (.arityMismatch "closure" 1 args.length)
  | .prim p => .lift ((p.call (args.map Value.seen)).map Value.ofSeen)
  | other => .fault (.invalidCallee other.seen.typeName)

def derefValue (target : Expr) : Value → Eval Value
  | .pointer p => do
    let index ← Eval.liftIn (.deref target) p.checked
    let store ← Eval.store
    Eval.lift ((store.read index).map Value.ofSeen)
  | other => .fault (.typeMismatch "'deref'" "a pointer" other.seen.typeName)

def moveValue (e : Expr) (op : Operator) : Value → Value → Eval Value
  | .pointer p, .num x => do
    let store ← Eval.store
    let moved ← Eval.liftIn e (p.offset op x store.capacity)
    return .pointer moved
  | .pointer _, other =>
    .fault (.typeMismatch "'pointer-arith'" "a number as its offset" other.seen.typeName)
  | other, _ => .fault (.typeMismatch "'pointer-arith'" "a pointer" other.seen.typeName)

mutual

/-- The value of an expression in a scope, when closures are applied by `call`. -/
def evalWith (call : Caller) (scope : Scope) : Expr → Eval Value
  | .var name => .lookup scope name
  | .num x => pure (.num x)
  | .bool b => pure (.bool b)
  | .keyword t => pure (.keyword t)
  | .lambda param body => pure (.closure param body scope)
  | .app head args => do
    let callee ← evalWith call scope head
    let values ← evalAllWith call scope args
    applyWith call callee values
  | .cond guard thenBranch elseBranch => do
    match ← evalWith call scope guard with
    | .bool true => evalWith call scope thenBranch
    | .bool false => evalWith call scope elseBranch
    | other => .fault (.typeMismatch "'if'" "a boolean in guard position" other.seen.typeName)
  | .new type size => do
    match ← evalWith call scope type with
    | .keyword t => Eval.allocate t size
    | other => .fault (.typeMismatch "'new'" "a keyword (Num or Bool)" other.seen.typeName)
  | .deref target => do
    let value ← evalWith call scope target
    derefValue target value
  | .move op pointer offset => do
    let base ← evalWith call scope pointer
    let amount ← evalWith call scope offset
    moveValue (.move op pointer offset) op base amount

def evalAllWith (call : Caller) (scope : Scope) : List Expr → Eval (List Value)
  | [] => pure []
  | e :: es => do
    let v ← evalWith call scope e
    let vs ← evalAllWith call scope es
    return v :: vs

end

/-- Applies closures with `left` more nested calls allowed out of `limit`. The body runs in the
captured scope with one more binding. -/
def callAt (limit : Nat) : Nat → Caller
  | 0 => fun _ _ _ _ => .fault (.stackOverflow limit)
  | left + 1 => fun param body scope arg =>
    evalWith (callAt limit left) (.bind param arg scope) body

def eval (limit : Nat) (e : Expr) : Eval Value := evalWith (callAt limit limit) .global e

def assignTo (location : Expr) (target value : Value) : Eval Unit :=
  match target, location with
  | .pointer p, _ => do
    let index ← Eval.lift p.checked
    let store ← Eval.store
    Eval.putStore (store.write index value.seen)
  | _, .var name => Eval.assign name value
  | _, _ => .fault (.invalidAssignTarget location.text)

def exec (limit : Nat) : Stmt → Eval (List String)
  | .define name expr => do
    let value ← eval limit expr
    Eval.define name value
    return []
  | .assign location expr => do
    let target ← eval limit location
    let value ← eval limit expr
    assignTo location target value
    return []
  | .print expr => do
    let value ← eval limit expr
    return [value.seen.text]

def execAll (limit : Nat) : List Stmt → Eval (List String)
  | [] => pure []
  | s :: ss => do
    let lines ← exec limit s
    let more ← execAll limit ss
    return lines ++ more

inductive Reply where
  | lines (outcome : Except RuntimeError (List String))
  | value (outcome : Except RuntimeError Value)
  | done

structure Session where
  limit : Nat
  machine : Machine

namespace Session

def ofSettings (s : Settings) : Session := ⟨s.maxDepth, .fresh s.capacity⟩

def serve (s : Session) : Request → Reply × Session
  | .program p =>
    let (outcome, machine) := execAll s.limit p.stmts s.machine
    (.lines outcome, { s with machine })
  | .stmt st =>
    let (outcome, machine) := exec s.limit st s.machine
    (.lines outcome, { s with machine })
  | .expr e =>
    let (outcome, machine) := eval s.limit e s.machine
    (.value outcome, { s with machine })
  | .reset => (.done, { s with machine := .fresh s.machine.store.capacity })

def after (s : Session) : List Request → Session
  | [] => s
  | r :: rs => (s.serve r).2.after rs

end Session

end CellLang.Chain

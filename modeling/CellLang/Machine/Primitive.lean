import CellLang.Machine.Fault

/-!
# Primitive functions

Each primitive checks the number of its arguments, then their types from left to right.
-/

namespace CellLang.Primitive

/-- The fault of an argument of the wrong type. -/
def mismatch (p : Primitive) (expected : String) (found : Value) : Fault :=
  .typeMismatch ("'" ++ p.name ++ "'") expected found.typeName

def two (p : Primitive) : List Value → Except Fault (Value × Value)
  | [a, b] => .ok (a, b)
  | args => .error (.arityMismatch p.name 2 args.length)

def twoNumbers (p : Primitive) (args : List Value) : Except Fault (Binary64 × Binary64) := do
  match ← p.two args with
  | (.num a, .num b) => .ok (a, b)
  | (.num _, other) => .error (p.mismatch "two numbers" other)
  | (other, _) => .error (p.mismatch "two numbers" other)

def twoBooleans (p : Primitive) (args : List Value) : Except Fault (Bool × Bool) := do
  match ← p.two args with
  | (.bool a, .bool b) => .ok (a, b)
  | (.bool _, other) => .error (p.mismatch "two booleans" other)
  | (other, _) => .error (p.mismatch "two booleans" other)

def arithmetic (p : Primitive) (f : Binary64 → Binary64 → Binary64) (args : List Value) :
    Except Fault Value := do
  let (a, b) ← p.twoNumbers args
  return .num (f a b)

def comparison (p : Primitive) (f : Binary64 → Binary64 → Bool) (args : List Value) :
    Except Fault Value := do
  let (a, b) ← p.twoNumbers args
  return .bool (f a b)

def connective (p : Primitive) (f : Bool → Bool → Bool) (args : List Value) :
    Except Fault Value := do
  let (a, b) ← p.twoBooleans args
  return .bool (f a b)

def divide (args : List Value) : Except Fault Value := do
  let (a, b) ← Primitive.div.twoNumbers args
  if b.isZero then .error .divisionByZero else .ok (.num (a.div b))

/-- Equality of two numbers or of two booleans. -/
def equality (args : List Value) : Except Fault Value := do
  match ← Primitive.eq.two args with
  | (.num a, .num b) => .ok (.bool (a.same b))
  | (.bool a, .bool b) => .ok (.bool (a == b))
  | (.num _, other) | (.bool _, other) => .error (expected other)
  | (other, _) => .error (expected other)
where
  expected (other : Value) : Fault := Primitive.eq.mismatch "two numbers or two booleans" other

def negation : List Value → Except Fault Value
  | [.bool b] => .ok (.bool !b)
  | [other] => .error (Primitive.not.mismatch "a boolean" other)
  | args => .error (.arityMismatch Primitive.not.name 1 args.length)

/-- The result of a primitive on its arguments. -/
def call (p : Primitive) : List Value → Except Fault Value :=
  match p with
  | .add => p.arithmetic Binary64.add
  | .sub => p.arithmetic Binary64.sub
  | .mul => p.arithmetic Binary64.mul
  | .div => divide
  | .eq => equality
  | .lt => p.comparison Binary64.lt
  | .le => p.comparison Binary64.le
  | .gt => p.comparison fun a b => b.lt a
  | .ge => p.comparison fun a b => b.le a
  | .not => negation
  | .and => p.connective Bool.and
  | .or => p.connective Bool.or

end CellLang.Primitive

import CellLang.Program.Basic

/-!
# Values

What expressions evaluate to, and how values are shown. A closure names the frame it was made in;
a pointer carries the bounds of the allocation it belongs to.
-/

namespace CellLang

/-- Position of a frame among the live frames; the global frame is `0`. -/
abbrev FrameId := Nat

/-- An index range with both ends included. -/
structure Bounds where
  low : Nat
  high : Nat
deriving DecidableEq, Repr

namespace Bounds

def contains (b : Bounds) (index : Nat) : Bool := b.low ≤ index && index ≤ b.high

def size (b : Bounds) : Nat := b.high - b.low + 1

end Bounds

/-- A store index together with the allocation it may move in. -/
structure Pointer where
  index : Nat
  bounds : Bounds
deriving DecidableEq, Repr

namespace Pointer

/-- The pointer to the first cell of an allocation. -/
def atStart (b : Bounds) : Pointer := ⟨b.low, b⟩

def inBounds (p : Pointer) : Bool := p.bounds.contains p.index

def text (p : Pointer) : String :=
  "index: " ++ toString p.index ++ " low-bound: " ++ toString p.bounds.low ++
    " up-bound: " ++ toString p.bounds.high

end Pointer

/-- The built-in functions. -/
inductive Primitive where
  | add
  | sub
  | mul
  | div
  | eq
  | lt
  | le
  | gt
  | ge
  | not
  | and
  | or
deriving DecidableEq, Repr

namespace Primitive

def all : List Primitive := [.add, .sub, .mul, .div, .eq, .lt, .le, .gt, .ge, .not, .and, .or]

def name : Primitive → String
  | .add => "+"
  | .sub => "-"
  | .mul => "*"
  | .div => "/"
  | .eq => "="
  | .lt => "<"
  | .le => "<="
  | .gt => ">"
  | .ge => ">="
  | .not => "not"
  | .and => "and"
  | .or => "or"

end Primitive

/-- A function of one parameter and the frame that its body sees. -/
structure Closure where
  param : String
  body : Expr
  frame : FrameId

inductive Value where
  | num (x : Binary64)
  | bool (b : Bool)
  | closure (c : Closure)
  | prim (p : Primitive)
  | pointer (p : Pointer)
  | keyword (t : CellType)

namespace Value

def typeName : Value → String
  | .num _ => "number"
  | .bool _ => "boolean"
  | .closure _ => "closure"
  | .prim _ => "primitive"
  | .pointer _ => "pointer"
  | .keyword _ => "keyword"

/-- What a program prints for a value. -/
def text : Value → String
  | .num x => Layout.shown.text x
  | .bool b => boolText b
  | .closure _ => "<closure>"
  | .prim p => "<prim " ++ p.name ++ ">"
  | .pointer p => p.text
  | .keyword t => t.name

def isClosure : Value → Bool
  | .closure _ => true
  | _ => false

/-- Equality of values. Bodies of closures are compared by identity, so the caller says whether the
two values share theirs. -/
def equal (sharedBody : Bool) : Value → Value → Bool
  | .num a, .num b => a.same b
  | .bool a, .bool b => a == b
  | .closure a, .closure b => sharedBody && a.param == b.param && a.frame == b.frame
  | .prim a, .prim b => a == b
  | .pointer a, .pointer b => a == b
  | .keyword a, .keyword b => a == b
  | _, _ => false

end Value

end CellLang

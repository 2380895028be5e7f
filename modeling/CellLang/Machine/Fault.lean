import CellLang.Machine.Value

/-!
# Runtime faults

The ways an evaluation can fail, one constructor to a cause, with the wording of each. A
`RuntimeError` may add the expression in which the fault arose.
-/

namespace CellLang

/-- The classes of runtime faults. -/
inductive FaultKind where
  | unboundVariable
  | redefinition
  | arityMismatch
  | typeMismatch
  | invalidCallee
  | invalidAssignTarget
  | outOfBounds
  | uninitializedRead
  | uninitializedWrite
  | capacityExceeded
  | storeFull
  | unknownOperator
  | divisionByZero
  | invalidAllocationSize
  | stackOverflow
deriving DecidableEq, Repr

/-- Which range was left. -/
inductive RangeFault where
  /-- An index outside a store of the given capacity. -/
  | store (index capacity : Nat)
  /-- A read or write through a pointer that is outside its allocation. -/
  | access (pointer : Pointer)
  /-- Pointer arithmetic that leaves a store of the given capacity. -/
  | moveFromStore (raw : Binary64) (capacity : Nat)
  /-- Pointer arithmetic that leaves the allocation. -/
  | moveFromBounds (index : Nat) (bounds : Bounds)
  /-- A range described in words. -/
  | described (detail : String)

inductive Fault where
  | unboundVariable (name : String)
  | redefinition (name : String)
  | arityMismatch (callee : String) (expected given : Nat)
  | typeMismatch (context expected given : String)
  | nonIntegerIndex (raw : Binary64)
  | invalidCallee (found : String)
  | invalidAssignTarget (location : String)
  | outOfBounds (range : RangeFault)
  | uninitializedRead (index : Nat)
  | uninitializedWrite (index : Nat)
  | capacityExceeded (size : Nat)
  | storeFull
  | unknownOperator (symbol : String)
  | divisionByZero
  | invalidAllocationSize (size : Nat)
  | stackOverflow (limit : Nat)

namespace RangeFault

def message : RangeFault → String
  | .store index capacity =>
    "index " ++ toString index ++ " is outside the store (0 to " ++ toString (capacity - 1) ++ ")"
  | .access p =>
    "out of bounds access of pointer at index " ++ toString p.index ++ " (bounds " ++
      toString p.bounds.low ++ " to " ++ toString p.bounds.high ++ ")"
  | .moveFromStore raw capacity =>
    "'pointer-arith' out of bounds: pointers must hold values between 0 and " ++
      toString (capacity - 1) ++ " but " ++ Layout.plain.text raw ++
      " was the value after pointer arithmetic"
  | .moveFromBounds index bounds =>
    "pointer out of bounds: index " ++ toString index ++ " is outside its allocation (" ++
      toString bounds.low ++ " to " ++ toString bounds.high ++ ")"
  | .described detail => detail

end RangeFault

namespace Fault

def kind : Fault → FaultKind
  | .unboundVariable _ => .unboundVariable
  | .redefinition _ => .redefinition
  | .arityMismatch .. => .arityMismatch
  | .typeMismatch .. => .typeMismatch
  | .nonIntegerIndex _ => .typeMismatch
  | .invalidCallee _ => .invalidCallee
  | .invalidAssignTarget _ => .invalidAssignTarget
  | .outOfBounds _ => .outOfBounds
  | .uninitializedRead _ => .uninitializedRead
  | .uninitializedWrite _ => .uninitializedWrite
  | .capacityExceeded _ => .capacityExceeded
  | .storeFull => .storeFull
  | .unknownOperator _ => .unknownOperator
  | .divisionByZero => .divisionByZero
  | .invalidAllocationSize _ => .invalidAllocationSize
  | .stackOverflow _ => .stackOverflow

def message : Fault → String
  | .unboundVariable name => "unbound variable '" ++ name ++ "'"
  | .redefinition name => "redefinition of variable '" ++ name ++ "'"
  | .arityMismatch callee expected given =>
    callee ++ " expects " ++ toString expected ++ " argument(s) but " ++ toString given ++
      " were given"
  | .typeMismatch context expected given =>
    context ++ " expects " ++ expected ++ " but a " ++ given ++ " was given"
  | .nonIntegerIndex raw =>
    "pointer arithmetic produced the non-integer index " ++ Layout.plain.text raw
  | .invalidCallee found => "expected closure or primitive, but found '" ++ found ++ "'"
  | .invalidAssignTarget location => "cannot assign to non-location '" ++ location ++ "'"
  | .outOfBounds range => range.message
  | .uninitializedRead index =>
    "accessed memory at " ++ toString index ++ " is uninitialized"
  | .uninitializedWrite index =>
    "attempting to assign data to unallocated index " ++ toString index
  | .capacityExceeded size =>
    "no run of " ++ toString size ++ " free cell(s) is available in memory"
  | .storeFull => "pointer memory is full"
  | .unknownOperator symbol =>
    "'pointer-arith' expects one of + - * / but '" ++ symbol ++ "' was given"
  | .divisionByZero => "division by zero"
  | .invalidAllocationSize size => "cannot allocate " ++ toString size ++ " cell(s)"
  | .stackOverflow limit =>
    "stack overflow: more than " ++ toString limit ++ " nested calls"

end Fault

/-- A fault, with the expression it arose in where that is reported. -/
structure RuntimeError where
  fault : Fault
  within : Option Expr

namespace RuntimeError

def of (fault : Fault) : RuntimeError := ⟨fault, none⟩

def inExpr (e : Expr) (fault : Fault) : RuntimeError := ⟨fault, some e⟩

def kind (e : RuntimeError) : FaultKind := e.fault.kind

def message (e : RuntimeError) : String :=
  match e.within with
  | none => e.fault.message
  | some expr => e.fault.message ++ ": " ++ expr.text

/-- The line that reports the error. -/
def report (e : RuntimeError) : String := "Runtime error: " ++ e.message

end RuntimeError

end CellLang

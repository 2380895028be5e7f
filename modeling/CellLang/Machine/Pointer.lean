import CellLang.Machine.Fault

/-!
# Pointer access and pointer arithmetic

A pointer may be used only inside its allocation. Arithmetic happens on binary numbers: the result
must be a whole number, lie in the store, and lie in the allocation, and is checked in that order.
-/

namespace CellLang.Pointer

/-- The index to read or write, provided it lies in the allocation. -/
def checked (p : Pointer) : Except Fault Nat :=
  if p.inBounds then .ok p.index else .error (.outOfBounds (.access p))

/-- The pointer moved by `op operand` in a store of the given capacity. -/
def offset (p : Pointer) (op : Operator) (operand : Binary64) (capacity : Nat) :
    Except Fault Pointer :=
  let raw := op.apply (Binary64.ofNat p.index) operand
  if raw.isFractional then .error (.nonIntegerIndex raw)
  else if raw.lt (Binary64.zero false)
      || (Binary64.ofNat capacity).lt (raw.add (Binary64.ofNat 1)) then
    .error (.outOfBounds (.moveFromStore raw capacity))
  else
    let index := raw.toWord
    if p.bounds.contains index then .ok { p with index := index }
    else .error (.outOfBounds (.moveFromBounds index p.bounds))

end CellLang.Pointer

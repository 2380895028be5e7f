import CellLang.Number.Binary64

/-!
# Arithmetic and order of binary numbers

Each operation computes the exact result as a ratio of units and rounds once. The order compares
signed units; a NaN is not related to anything, itself included.
-/

namespace CellLang.Binary64

/-- Units with their sign. -/
def signed (negative : Bool) (units : Nat) : Int :=
  if negative then -(units : Int) else units

/-- The number nearest to a whole count of units. An exact zero takes the given sign. -/
def ofUnits (zeroNegative : Bool) (units : Int) : Binary64 :=
  if units = 0 then zero zeroNegative else ofRatio (units < 0) units.natAbs 1

def neg : Binary64 → Binary64
  | .nan => .nan
  | .infinity s => .infinity !s
  | .finite s u h => .finite (!s) u h

/-- A sum that cancels is a positive zero unless both terms are negative zeros. -/
def add : Binary64 → Binary64 → Binary64
  | .nan, _ | _, .nan => .nan
  | .infinity s, .infinity t => if s = t then .infinity s else .nan
  | .infinity s, .finite .. => .infinity s
  | .finite .., .infinity t => .infinity t
  | .finite s u _, .finite t v _ => ofUnits (s && t) (signed s u + signed t v)

def sub (a b : Binary64) : Binary64 := add a (neg b)

def mul : Binary64 → Binary64 → Binary64
  | .nan, _ | _, .nan => .nan
  | .infinity s, .infinity t => .infinity (s != t)
  | .infinity s, .finite t v _ => if v = 0 then .nan else .infinity (s != t)
  | .finite s u _, .infinity t => if u = 0 then .nan else .infinity (s != t)
  | .finite s u _, .finite t v _ => ofRatio (s != t) (u * v) one

/-- A quotient by zero is infinite, and of zero by zero not a number. -/
def div : Binary64 → Binary64 → Binary64
  | .nan, _ | _, .nan => .nan
  | .infinity _, .infinity _ => .nan
  | .infinity s, .finite t _ _ => .infinity (s != t)
  | .finite s _ _, .infinity t => zero (s != t)
  | .finite s u _, .finite t v _ =>
    if v = 0 then
      if u = 0 then .nan else .infinity (s != t)
    else
      ofRatio (s != t) (u * one) v

/-- Place in the order, in units; infinities lie beyond every finite number. -/
def rank : Binary64 → Option Int
  | .nan => none
  | .infinity s => some (signed s overflow)
  | .finite s u _ => some (signed s u)

/-- Relates two numbers by their ranks; false when either is a NaN. -/
def compareBy (r : Int → Int → Bool) (a b : Binary64) : Bool :=
  match a.rank, b.rank with
  | some i, some j => r i j
  | _, _ => false

/-- Numeric equality: the zeros are equal and a NaN differs from itself. -/
def same : Binary64 → Binary64 → Bool := compareBy fun i j => i == j

def lt : Binary64 → Binary64 → Bool := compareBy fun i j => i < j

def le : Binary64 → Binary64 → Bool := compareBy fun i j => i ≤ j

def isZero : Binary64 → Bool
  | .finite _ u _ => u == 0
  | _ => false

/-- Neither whole nor infinite: a NaN, or a finite number with a fraction. -/
def isFractional : Binary64 → Bool
  | .nan => true
  | .infinity _ => false
  | .finite _ u _ => u % one != 0

/-- The exact value of a finite whole number. -/
def whole? : Binary64 → Option Int
  | .finite s u _ => if u % one = 0 then some (signed s (u / one)) else none
  | _ => none

/-- Largest value of an index, a size or a capacity. -/
def maxWord : Nat := 18446744073709551615

/-- The whole part as an index, clamped to `0 … maxWord`. -/
def toWord : Binary64 → Nat
  | .nan => 0
  | .infinity s => if s then 0 else maxWord
  | .finite s u _ => if s then 0 else min (u / one) maxWord

end CellLang.Binary64

import CellLang.Number.Binary64

/-!
# Decimal numerals

A `Decimal` is an exact signed decimal number. `ofLiteral?` reads the numerals of program text and
`ofScientific?` those that may also carry an exponent; `Binary64.ofDecimal` rounds to the nearest
binary number.
-/

namespace CellLang

/-- The number `± coefficient * 10 ^ exponent`. -/
structure Decimal where
  negative : Bool
  coefficient : Nat
  exponent : Int
deriving DecidableEq, Repr

namespace Decimal

def tenPow (k : Nat) : Nat := Nat.pow 10 k

theorem tenPow_pos (k : Nat) : 0 < tenPow k := Nat.pow_pos (by omega)

def ofDigits (cs : List Char) : Nat := Nat.ofDigitChars 10 cs 0

def digits (n : Nat) : List Char := Nat.toDigits 10 n

/-- Digits with an optional point, at least one digit in all. -/
def ofUnsigned? (negative : Bool) (cs : List Char) : Option Decimal :=
  let whole := cs.takeWhile Char.isDigit
  match cs.dropWhile Char.isDigit with
  | [] => if whole = [] then none else some ⟨negative, ofDigits whole, 0⟩
  | '.' :: fraction =>
    if fraction.all Char.isDigit ∧ whole ++ fraction ≠ [] then
      some ⟨negative, ofDigits (whole ++ fraction), -(fraction.length : Int)⟩
    else
      none
  | _ => none

/-- A numeral of program text: an optional minus sign, then digits with an optional point. -/
def ofLiteral? : List Char → Option Decimal
  | '-' :: cs => ofUnsigned? true cs
  | cs => ofUnsigned? false cs

/-- The value of an exponent: an optional sign and at least one digit. -/
def exponent? : List Char → Option Int
  | '-' :: cs => if cs ≠ [] ∧ cs.all Char.isDigit then some (-(ofDigits cs : Int)) else none
  | '+' :: cs => if cs ≠ [] ∧ cs.all Char.isDigit then some (ofDigits cs) else none
  | cs => if cs ≠ [] ∧ cs.all Char.isDigit then some (ofDigits cs) else none

/-- A numeral that may end in an exponent. -/
def ofScientific? (cs : List Char) : Option Decimal := do
  let mantissa := cs.takeWhile fun c => c != 'e' && c != 'E'
  let d ← ofLiteral? mantissa
  match cs.drop mantissa.length with
  | [] => return d
  | _ :: power => return { d with exponent := d.exponent + (← exponent? power) }

end Decimal

namespace Binary64

/-- The binary number nearest to a decimal one. -/
def ofDecimal (d : Decimal) : Binary64 :=
  match d.exponent with
  | .ofNat k => ofRatio d.negative (d.coefficient * Decimal.tenPow k * one) 1
  | .negSucc k => ofRatio d.negative (d.coefficient * one) (Decimal.tenPow (k + 1))

end Binary64

end CellLang

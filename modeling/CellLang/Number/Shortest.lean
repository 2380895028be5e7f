import CellLang.Number.Decimal

/-!
# Shortest decimals

`Binary64.toDecimal` finds the decimal with the fewest digits that rounds to a given number. For
1, 2, … 17 digits it tries the two neighbours of the value on that decimal grid, the nearer one
first, and keeps the first that reads back; a layout decides between two equally near ones. Every
candidate is tested by reading it, so whatever is returned reads back.
-/

namespace CellLang

/-- Which of two equally near decimals is preferred. -/
inductive Tie where
  | up
  | toEven
deriving DecidableEq, Repr

namespace Binary64

/-- The `e` with `10 ^ e ≤ units / one < 10 ^ (e + 1)`, for positive units. -/
def decimalOrder (units : Nat) : Int :=
  if one ≤ units then
    (Decimal.digits (units / one)).length - 1
  else
    -((Decimal.digits ((one - 1) / units)).length : Int)

/-- The value of `units` as a ratio over `10 ^ p`. -/
def scaled (units : Nat) : Int → Nat × Nat
  | .ofNat k => (units, one * Decimal.tenPow k)
  | .negSucc k => (units * Decimal.tenPow (k + 1), one)

/-- Neighbours of `n / d` among the natural numbers, the nearer one first. -/
def neighbours (tie : Tie) (n d : Nat) : List Nat :=
  let below := n / d
  let rest := n % d
  let upFirst := d < 2 * rest ∨ (2 * rest = d ∧ (tie = .up ∨ below % 2 = 1))
  if upFirst then [below + 1, below] else [below, below + 1]

/-- The decimal `c * 10 ^ p` of `places` digits; a carry into one more digit is shortened. -/
def gridPoint (negative : Bool) (places : Nat) (p : Int) (c : Nat) : Decimal :=
  if c = Decimal.tenPow places then ⟨negative, 1, p + places⟩ else ⟨negative, c, p⟩

/-- The decimals of `places` digits next to the value, the nearer one first. -/
def candidates (tie : Tie) (negative : Bool) (units places : Nat) : List Decimal :=
  let p := decimalOrder units - places + 1
  let (n, d) := scaled units p
  (neighbours tie n d).map (gridPoint negative places p)

def fivePow (k : Nat) : Nat := Nat.pow 5 k

/-- All digits of the value; a unit is `5 ^ 1074 * 10 ^ -1074`. -/
def exactDecimal (negative : Bool) (units : Nat) : Decimal :=
  ⟨negative, units * fivePow fractionBits, -(fractionBits : Int)⟩

/-- Most digits that are ever needed to tell a number from its neighbours. -/
def maxPlaces : Nat := 17

/-- The decimal of fewest digits that rounds to a finite number; none for the others. -/
def toDecimal? (tie : Tie) : Binary64 → Option Decimal
  | .finite s u h =>
    if u = 0 then some ⟨s, 0, 0⟩
    else
      let reads := fun d => ofDecimal d = .finite s u h
      let short := (List.range' 1 maxPlaces).findSome? fun places =>
        (candidates tie s u places).find? fun d => reads d
      some (short.getD (exactDecimal s u))
  | _ => none

theorem tenPow_eq (k : Nat) : Decimal.tenPow k = twoPow k * fivePow k := Nat.mul_pow 2 5 k

theorem ofDecimal_zero (negative : Bool) : ofDecimal ⟨negative, 0, 0⟩ = zero negative := by
  have h := @ofRatio_exact negative 0 1 ⟨Nat.dvd_zero _, overflow_pos⟩ Nat.one_pos
  simpa [ofDecimal, zero] using h

theorem ofDecimal_negative_exponent (negative : Bool) (c : Nat) {k : Nat} (hk : 0 < k) :
    ofDecimal ⟨negative, c, -(k : Int)⟩ = ofRatio negative (c * one) (Decimal.tenPow k) := by
  cases k with
  | zero => omega
  | succ k => rfl

theorem ofDecimal_exactDecimal (negative : Bool) {units : Nat} (h : Representable units) :
    ofDecimal (exactDecimal negative units) = .finite negative units h := by
  have hratio : units * fivePow fractionBits * one =
      units * Decimal.tenPow fractionBits := by
    unfold one
    rw [tenPow_eq, Nat.mul_assoc, Nat.mul_comm (fivePow fractionBits)]
  unfold exactDecimal
  rw [ofDecimal_negative_exponent negative _ (by unfold fractionBits; omega), hratio]
  exact ofRatio_exact negative h (Decimal.tenPow_pos fractionBits)

/-- Whatever decimal is chosen for a number, it rounds to that number. -/
theorem ofDecimal_toDecimal? {tie : Tie} {x : Binary64} {d : Decimal}
    (h : x.toDecimal? tie = some d) : ofDecimal d = x := by
  cases x with
  | nan => simp [toDecimal?] at h
  | infinity s => simp [toDecimal?] at h
  | finite s u hu =>
    unfold toDecimal? at h
    by_cases h0 : u = 0
    · subst h0
      simp only [↓reduceIte, Option.some.injEq] at h
      rw [← h, ofDecimal_zero]
      rfl
    · simp only [h0, ↓reduceIte, Option.some.injEq] at h
      cases hs : (List.range' 1 maxPlaces).findSome? fun places =>
          (candidates tie s u places).find? fun d => decide (ofDecimal d = .finite s u hu) with
      | none =>
        rw [hs] at h
        rw [← h]
        exact ofDecimal_exactDecimal s hu
      | some e =>
        rw [hs] at h
        obtain ⟨places, _, hfind⟩ := List.exists_of_findSome?_eq_some hs
        have hreads := List.find?_some hfind
        have hd : e = d := h
        rw [← hd]
        exact of_decide_eq_true hreads

end Binary64

end CellLang

/-!
# Binary floating-point numbers

A finite number is a sign and a natural multiple of `2 ^ -1074`, the least positive number; that
multiple is its `units`. Every finite number is then one natural number, sums and comparisons are
integer ones, and only rounding needs care. `nearest` rounds a ratio of units to the grid of
representable magnitudes, halves to the even neighbour.

The two zeros are different numbers here; `Binary64.same` is the comparison that identifies them.
-/

namespace CellLang

namespace Binary64

def twoPow (k : Nat) : Nat := Nat.pow 2 k

theorem twoPow_pos (k : Nat) : 0 < twoPow k := Nat.two_pow_pos k

theorem twoPow_add (j k : Nat) : twoPow (j + k) = twoPow j * twoPow k := Nat.pow_add 2 j k

theorem twoPow_dvd {j k : Nat} (h : j ≤ k) : twoPow j ∣ twoPow k := Nat.pow_dvd_pow 2 h

theorem twoPow_le {j k : Nat} (h : j ≤ k) : twoPow j ≤ twoPow k :=
  Nat.pow_le_pow_right (by omega) h

theorem log2_twoPow (k : Nat) : (twoPow k).log2 = k := Nat.log2_two_pow

theorem log2_lt_iff {n k : Nat} (h : n ≠ 0) : n.log2 < k ↔ n < twoPow k := Nat.log2_lt h

theorem lt_twoPow_log2 (n : Nat) : n < twoPow (n.log2 + 1) := Nat.lt_log2_self

/-- The least positive number is `2 ^ -fractionBits`. -/
def fractionBits : Nat := 1074

/-- Every finite number lies below `2 ^ exponentLimit`. -/
def exponentLimit : Nat := 1024

/-- Units in the number one. -/
def one : Nat := twoPow fractionBits

/-- First magnitude, in units, beyond every finite number. -/
def overflow : Nat := twoPow (exponentLimit + fractionBits)

theorem one_pos : 0 < one := twoPow_pos _

theorem overflow_pos : 0 < overflow := twoPow_pos _

/-- Number of significant bits. -/
def precision : Nat := 53

/-- Distance between neighbouring magnitudes at `units`. -/
def gap (units : Nat) : Nat := twoPow (units.log2 + 1 - precision)

theorem gap_pos (units : Nat) : 0 < gap units := twoPow_pos _

/-- Magnitudes, in units, of finite numbers. -/
def Representable (units : Nat) : Prop := gap units ∣ units ∧ units < overflow

instance (units : Nat) : Decidable (Representable units) :=
  inferInstanceAs (Decidable (_ ∧ _))

/-- The quotient rounded to the nearest natural number, a half to the even one. -/
def roundDiv (n d : Nat) : Nat :=
  if 2 * (n % d) < d then n / d
  else if d < 2 * (n % d) then n / d + 1
  else if n / d % 2 = 0 then n / d else n / d + 1

/-- The point of the grid nearest to `n / d` units, before any range check. -/
def nearest (n d : Nat) : Nat :=
  roundDiv n (d * gap (n / d)) * gap (n / d)

theorem roundDiv_le (n d : Nat) : roundDiv n d ≤ n / d + 1 := by
  unfold roundDiv
  split
  · omega
  · split
    · omega
    · split <;> omega

theorem roundDiv_mul_self (k : Nat) {d : Nat} (hd : 0 < d) : roundDiv (k * d) d = k := by
  simp [roundDiv, hd]

/-- A multiple of a power of two whose factor fits the precision lies on the grid. -/
theorem gap_dvd_mul_twoPow {m k : Nat} (hm : m ≤ twoPow precision) :
    gap (m * twoPow k) ∣ m * twoPow k := by
  by_cases hlt : m < twoPow precision
  · have hle : (m * twoPow k).log2 + 1 - precision ≤ k := by
      by_cases h0 : m * twoPow k = 0
      · rw [h0, Nat.log2_zero]
        unfold precision
        omega
      · have hprod : m * twoPow k < twoPow (precision + k) := by
          rw [twoPow_add]
          exact Nat.mul_lt_mul_of_pos_right hlt (twoPow_pos k)
        have hlog := (log2_lt_iff h0).2 hprod
        omega
    exact Nat.dvd_trans (twoPow_dvd hle) (Nat.dvd_mul_left _ _)
  · have heq : m = twoPow precision := by omega
    unfold gap
    rw [heq, ← twoPow_add, log2_twoPow]
    exact twoPow_dvd (by unfold precision; omega)

theorem lt_gap_mul (units : Nat) : units < gap units * twoPow precision := by
  unfold gap
  rw [← twoPow_add]
  exact Nat.lt_of_lt_of_le (lt_twoPow_log2 units) (twoPow_le (by omega))

/-- The rounded factor of a grid point fits the precision. -/
theorem roundDiv_gap_le (n d : Nat) :
    roundDiv n (d * gap (n / d)) ≤ twoPow precision := by
  have hquot : n / (d * gap (n / d)) < twoPow precision := by
    rw [← Nat.div_div_eq_div_mul]
    exact Nat.div_lt_of_lt_mul (lt_gap_mul (n / d))
  have hround := roundDiv_le n (d * gap (n / d))
  omega

theorem gap_dvd_nearest (n d : Nat) : gap (nearest n d) ∣ nearest n d :=
  gap_dvd_mul_twoPow (roundDiv_gap_le n d)

end Binary64

/-- A binary floating-point number with 53 significant bits and an 11-bit exponent. -/
inductive Binary64 where
  | nan
  | infinity (negative : Bool)
  | finite (negative : Bool) (units : Nat) (representable : Binary64.Representable units)
deriving DecidableEq

namespace Binary64

/-- The number nearest to `n / d` units; magnitudes past the last finite one become infinite. -/
def ofRatio (negative : Bool) (n d : Nat) : Binary64 :=
  if h : nearest n d < overflow then
    .finite negative (nearest n d) ⟨gap_dvd_nearest n d, h⟩
  else
    .infinity negative

/-- The zero of the given sign. -/
def zero (negative : Bool) : Binary64 := .finite negative 0 ⟨Nat.dvd_zero _, overflow_pos⟩

instance : Inhabited Binary64 := ⟨zero false⟩

/-- The nearest number to a natural number. -/
def ofNat (n : Nat) : Binary64 := ofRatio false (n * one) 1

/-- A magnitude that is already on the grid is not moved by rounding. -/
theorem nearest_mul_self {units d : Nat} (hu : gap units ∣ units) (hd : 0 < d) :
    nearest (units * d) d = units := by
  obtain ⟨m, hm⟩ := hu
  have hgap := gap_pos units
  unfold nearest
  rw [Nat.mul_div_cancel _ hd]
  have hfactor : units * d = m * (d * gap units) := by
    rw [Nat.mul_left_comm, Nat.mul_comm m, ← hm, Nat.mul_comm]
  rw [hfactor, roundDiv_mul_self m (Nat.mul_pos hd hgap), Nat.mul_comm, ← hm]

/-- Rounding an exact magnitude gives that number back. -/
theorem ofRatio_exact (negative : Bool) {units d : Nat} (h : Representable units) (hd : 0 < d) :
    ofRatio negative (units * d) d = .finite negative units h := by
  unfold ofRatio
  simp [nearest_mul_self h.1 hd, h.2]

end Binary64

end CellLang

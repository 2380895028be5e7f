import CellLang.Proofs.Rounding

/-!
# Integers among the binary numbers

A sum, a difference, a product and an exact quotient of whole numbers is the rounding of an integer.
Rounding leaves an integer of at most `2 ^ 53` alone and takes a larger one to a whole number that
is no smaller than `2 ^ 53`, or to an infinity. So a result below `2 ^ 53` is the exact one.

A quotient of such integers that is not exact does not become whole: were it to round to an integer,
it would lie within half a gap of it, while an inexact quotient is at least one part in the divisor
away from every integer.
-/

namespace CellLang.Binary64

/-! ## Whole numbers -/

theorem finite_congr (s : Bool) {u v : Nat} (h : u = v) (hu : Representable u)
    (hv : Representable v) : Binary64.finite s u hu = .finite s v hv := by
  subst h
  rfl

theorem whole?_finite (s : Bool) (u : Nat) (h : Representable u) :
    (Binary64.finite s u h).whole? = if u % one = 0 then some (signed s (u / one)) else none := rfl

/-- A whole number is a sign and a natural number of ones. -/
theorem whole?_eq_some {x : Binary64} {k : Int} :
    x.whole? = some k ↔ ∃ s m h, x = .finite s (m * one) h ∧ signed s m = k := by
  constructor
  · intro h
    cases x with
    | nan => cases h
    | infinity s => cases h
    | finite s u hu =>
      rw [whole?_finite] at h
      split at h
      · next hwhole =>
        have hmul : u / one * one = u := Nat.div_mul_cancel (Nat.dvd_of_mod_eq_zero hwhole)
        have hrep : Representable (u / one * one) := by rw [hmul]; exact hu
        exact ⟨s, u / one, hrep, finite_congr s hmul.symm hu hrep, Option.some.inj h⟩
      · cases h
  · rintro ⟨s, m, h, rfl, rfl⟩
    rw [whole?_finite, if_pos (Nat.mul_mod_left m one), Nat.mul_div_cancel m one_pos]

theorem isFractional_of_whole? {x : Binary64} {k : Int} (h : x.whole? = some k) :
    x.isFractional = false := by
  obtain ⟨s, m, hm, rfl, rfl⟩ := whole?_eq_some.1 h
  simp [isFractional]

theorem isFractional_iff {x : Binary64} :
    x.isFractional = true ↔ x = .nan ∨ ∃ s u h, x = .finite s u h ∧ ¬ one ∣ u := by
  rw [← Bool.not_eq_false]
  cases x with
  | nan => simp [isFractional]
  | infinity s => simp [isFractional]
  | finite s u h =>
    constructor
    · intro hfraction
      refine .inr ⟨s, u, h, rfl, fun hdvd => hfraction ?_⟩
      simp [isFractional, Nat.mod_eq_zero_of_dvd hdvd]
    · rintro (hnan | ⟨_, _, _, ⟨⟩, hdvd⟩) hwhole
      · cases hnan
      · exact hdvd (Nat.dvd_of_mod_eq_zero (by simpa [isFractional] using hwhole))

theorem not_lt_zero_of_whole? {x : Binary64} {k : Nat} (h : x.whole? = some (k : Int)) :
    x.lt (zero false) = false := by
  obtain ⟨s, m, hm, rfl, hk⟩ := whole?_eq_some.1 h
  rw [lt_eq_decide rfl rfl, decide_eq_false_iff_not]
  cases s with
  | true =>
    obtain rfl : m = 0 := by
      change -(m : Int) = k at hk
      omega
    rw [Nat.zero_mul]
    decide
  | false => exact Int.not_lt.2 (Int.natCast_nonneg _)

/-- A whole number that is not negative is read as itself, or as the largest word. -/
theorem toWord_of_whole? {x : Binary64} {k : Nat} (h : x.whole? = some (k : Int)) :
    x.toWord = min k maxWord := by
  obtain ⟨s, m, hm, rfl, hk⟩ := whole?_eq_some.1 h
  unfold toWord
  cases s with
  | true =>
    change -(m : Int) = k at hk
    obtain rfl : k = 0 := by omega
    simp
  | false =>
    change (m : Int) = k at hk
    obtain rfl : m = k := by omega
    simp [Nat.mul_div_cancel m one_pos]

/-- Below the largest word, nothing but a whole number is read as its index. -/
theorem whole?_of_toWord {x : Binary64} (hwhole : x.isFractional = false)
    (hsign : x.lt (zero false) = false) (hword : x.toWord < maxWord) :
    x.whole? = some (x.toWord : Int) := by
  obtain ⟨s, u, h, rfl, hunits, hnonneg⟩ := finite_of_toWord_lt hwhole hsign hword
  rw [toWord_of_lt hnonneg hword, whole?_finite, if_pos hunits]
  cases s with
  | true =>
    obtain rfl : u = 0 := by
      change 0 ≤ -(u : Int) at hnonneg
      omega
    simp [signed]
  | false => rfl

/-! ## Rounding an integer -/

theorem twoPow_succ (k : Nat) : twoPow (k + 1) = twoPow k * 2 := rfl

theorem lt_overflow {m : Nat} (hm : m ≤ twoPow (precision + 1)) : m * one < overflow := by
  have hlimit : twoPow (precision + 1) < twoPow exponentLimit := by decide +kernel
  rw [overflow, twoPow_add, ← one]
  exact Nat.mul_lt_mul_of_pos_right (Nat.lt_of_le_of_lt hm hlimit) one_pos

theorem nearest_of_le_precision {m : Nat} (hm : m ≤ twoPow precision) :
    nearest (m * one) 1 = m * one := by
  have hexact := nearest_mul_self (gap_dvd_mul_twoPow (k := fractionBits) hm) Nat.one_pos
  rw [Nat.mul_one] at hexact
  exact hexact

theorem nearest_lt_overflow {m : Nat} (hm : m ≤ twoPow precision) :
    nearest (m * one) 1 < overflow := by
  rw [nearest_of_le_precision hm]
  exact lt_overflow (Nat.le_trans hm (twoPow_le (Nat.le_succ _)))

theorem one_dvd_gap {m : Nat} (hm : twoPow precision ≤ m) : one ∣ gap (m * one) := by
  apply twoPow_dvd
  have hlog := log2_mono (Nat.mul_le_mul_right one hm)
  have hpow : (twoPow precision * one).log2 = precision + fractionBits := by
    rw [one, ← twoPow_add, log2_twoPow]
  omega

/-- Rounding keeps an integer whole, moves none of at most `2 ^ 53`, and brings no larger one below
that limit. -/
theorem nearest_integer (m : Nat) :
    ∃ r, nearest (m * one) 1 = r * one ∧
      (r = m ∨ twoPow precision ≤ r ∧ twoPow precision ≤ m) := by
  rcases Nat.le_total m (twoPow precision) with hm | hm
  · exact ⟨m, nearest_of_le_precision hm, .inl rfl⟩
  · have hdvd : one ∣ nearest (m * one) 1 := by
      rw [nearest_one]
      exact Nat.dvd_trans (one_dvd_gap hm) (Nat.dvd_mul_left _ _)
    obtain ⟨r, hr⟩ := hdvd
    have hmono := nearest_mono (Nat.mul_le_mul_right one hm)
    rw [nearest_of_le_precision (Nat.le_refl _), hr, Nat.mul_comm one] at hmono
    refine ⟨r, by rw [hr, Nat.mul_comm], .inr ⟨?_, hm⟩⟩
    exact Nat.le_of_mul_le_mul_right hmono one_pos

/-- The number stands for the integer `k`: it is whole or infinite, and it is one of the integers
below `2 ^ 53` just when `k` is that one. -/
structure StandsFor (x : Binary64) (k : Int) : Prop where
  notFractional : x.isFractional = false
  whole?_iff : ∀ j : Int, j.natAbs < twoPow precision → (x.whole? = some j ↔ k = j)

theorem StandsFor.of_whole? {x : Binary64} {k : Int} (h : x.whole? = some k) : x.StandsFor k :=
  ⟨isFractional_of_whole? h, fun j _ => by rw [h, Option.some_inj]⟩

theorem natAbs_signed (s : Bool) (m : Nat) : (signed s m).natAbs = m := by
  cases s with
  | true => exact Int.natAbs_neg m
  | false => rfl

theorem signed_mul (s t : Bool) (m n : Nat) :
    signed (s != t) (m * n) = signed s m * signed t n := by
  cases s with
  | true =>
    cases t with
    | true =>
      show ((m * n : Nat) : Int) = -m * -n
      rw [Int.neg_mul_neg, Int.natCast_mul]
    | false =>
      show -((m * n : Nat) : Int) = -m * n
      rw [Int.neg_mul, Int.natCast_mul]
  | false =>
    cases t with
    | true =>
      show -((m * n : Nat) : Int) = m * -n
      rw [Int.mul_neg, Int.natCast_mul]
    | false => exact Int.natCast_mul m n

theorem whole?_ofRatio {s : Bool} {n d r : Nat} (hlt : nearest n d < overflow)
    (hr : nearest n d = r * one) : (ofRatio s n d).whole? = some (signed s r) := by
  have hrep : Representable (r * one) := by
    rw [← hr]
    exact ⟨gap_dvd_nearest n d, hlt⟩
  rw [whole?_eq_some, ofRatio, dif_pos hlt]
  exact ⟨s, r, hrep, finite_congr s hr _ hrep, rfl⟩

theorem ofRatio_standsFor (s : Bool) (m : Nat) :
    (ofRatio s (m * one) 1).StandsFor (signed s m) := by
  have hfar : ∀ (n : Nat) (j : Int), twoPow precision ≤ n → j.natAbs < twoPow precision →
      signed s n ≠ j := by
    rintro n _ hn hj rfl
    rw [natAbs_signed] at hj
    omega
  by_cases hlt : nearest (m * one) 1 < overflow
  · obtain ⟨r, hr, rfl | ⟨hround, hm⟩⟩ := nearest_integer m
    · exact .of_whole? (whole?_ofRatio hlt hr)
    · have hwhole := whole?_ofRatio (s := s) hlt hr
      refine ⟨isFractional_of_whole? hwhole, fun j hj => ?_⟩
      rw [hwhole, Option.some_inj]
      exact iff_of_false (hfar r j hround hj) (hfar m j hm hj)
  · have hm : twoPow precision ≤ m :=
      Nat.le_of_not_le fun hle => hlt (nearest_lt_overflow hle)
    rw [ofRatio, dif_neg hlt]
    exact ⟨rfl, fun j hj => iff_of_false nofun (hfar m j hm hj)⟩

theorem whole?_ofNat {n : Nat} (hn : n ≤ twoPow precision) :
    (ofNat n).whole? = some (n : Int) :=
  whole?_ofRatio (s := false) (nearest_lt_overflow hn) (nearest_of_le_precision hn)

/-! ## Rounding depends on the ratio alone -/

theorem roundDiv_mul_mul (n d : Nat) {c : Nat} (hc : 0 < c) :
    roundDiv (n * c) (d * c) = roundDiv n d := by
  unfold roundDiv
  rw [Nat.mul_div_mul_right n d hc, Nat.mul_mod_mul_right, ← Nat.mul_assoc]
  simp only [Nat.mul_lt_mul_right hc]

theorem nearest_mul_mul (n d : Nat) {c : Nat} (hc : 0 < c) :
    nearest (n * c) (d * c) = nearest n d := by
  unfold nearest
  rw [Nat.mul_div_mul_right n d hc, Nat.mul_right_comm, roundDiv_mul_mul _ _ hc]

theorem ofRatio_mul_mul (s : Bool) (n d : Nat) {c : Nat} (hc : 0 < c) :
    ofRatio s (n * c) (d * c) = ofRatio s n d := by
  unfold ofRatio
  simp only [nearest_mul_mul n d hc]

/-! ## Arithmetic on whole numbers -/

section Arithmetic

variable {x y : Binary64} {i j : Int}

theorem signed_mul_one (s : Bool) (m : Nat) : signed s (m * one) = signed s m * one := by
  have h := signed_mul s false m one
  rw [Bool.bne_false] at h
  exact h

theorem signed_natAbs (k : Int) : signed (decide (k < 0)) k.natAbs = k := by
  unfold signed
  split
  · next h =>
    have hneg := of_decide_eq_true h
    omega
  · next h =>
    have hneg : ¬ k < 0 := fun hlt => h (decide_eq_true hlt)
    omega

theorem ofUnits_standsFor (zeroNegative : Bool) (k : Int) :
    (ofUnits zeroNegative (k * one)).StandsFor k := by
  have hpos : (0 : Int) < one := Int.natCast_pos.2 one_pos
  by_cases hk : k = 0
  · have hzero : (zero zeroNegative).whole? = some 0 := by
      refine (whole?_finite zeroNegative 0 _).trans ?_
      rw [Nat.zero_mod, if_pos rfl, Nat.zero_div]
      cases zeroNegative <;> rfl
    rw [hk, Int.zero_mul, ofUnits, if_pos rfl]
    exact .of_whole? hzero
  · have hnonzero : k * (one : Int) ≠ 0 := Int.mul_ne_zero hk (Int.ne_of_gt hpos)
    have hsign : k * (one : Int) < 0 ↔ k < 0 := by
      constructor
      · intro h
        exact Int.not_le.1 fun hle => Int.not_le.2 h (Int.mul_nonneg hle (Int.le_of_lt hpos))
      · exact fun h => Int.mul_neg_of_neg_of_pos h hpos
    have habs : (k * (one : Int)).natAbs = k.natAbs * one := by
      rw [Int.natAbs_mul, Int.natAbs_natCast]
    rw [ofUnits, if_neg hnonzero, habs, decide_eq_decide.2 hsign]
    have hstands := ofRatio_standsFor (decide (k < 0)) k.natAbs
    rw [signed_natAbs] at hstands
    exact hstands

theorem whole?_neg (hy : y.whole? = some j) : y.neg.whole? = some (-j) := by
  obtain ⟨t, n, hn, rfl, rfl⟩ := whole?_eq_some.1 hy
  rw [whole?_eq_some]
  refine ⟨!t, n, hn, rfl, ?_⟩
  cases t <;> simp [signed]

theorem add_standsFor (hx : x.whole? = some i) (hy : y.whole? = some j) :
    (x.add y).StandsFor (i + j) := by
  obtain ⟨s, m, hm, rfl, rfl⟩ := whole?_eq_some.1 hx
  obtain ⟨t, n, hn, rfl, rfl⟩ := whole?_eq_some.1 hy
  rw [add, signed_mul_one, signed_mul_one, ← Int.add_mul]
  exact ofUnits_standsFor _ _

theorem sub_standsFor (hx : x.whole? = some i) (hy : y.whole? = some j) :
    (x.sub y).StandsFor (i - j) :=
  add_standsFor hx (whole?_neg hy)

theorem mul_standsFor (hx : x.whole? = some i) (hy : y.whole? = some j) :
    (x.mul y).StandsFor (i * j) := by
  obtain ⟨s, m, hm, rfl, rfl⟩ := whole?_eq_some.1 hx
  obtain ⟨t, n, hn, rfl, rfl⟩ := whole?_eq_some.1 hy
  have hscale := ofRatio_mul_mul (s != t) (m * n * one) 1 one_pos
  rw [Nat.one_mul] at hscale
  rw [mul, Nat.mul_mul_mul_comm, ← Nat.mul_assoc, hscale, ← signed_mul]
  exact ofRatio_standsFor _ _

/-- The quotient of whole numbers, rounded once. -/
theorem div_eq_ofRatio (s t : Bool) {m n : Nat} (hm : Representable (m * one))
    (hn : Representable (n * one)) (hpos : 0 < n) :
    (Binary64.finite s (m * one) hm).div (.finite t (n * one) hn) =
      ofRatio (s != t) (m * one) n := by
  have hnonzero : n * one ≠ 0 := Nat.ne_of_gt (Nat.mul_pos hpos one_pos)
  rw [div, if_neg hnonzero, ofRatio_mul_mul _ _ _ one_pos]

/-- An exact quotient. -/
theorem div_standsFor (hx : x.whole? = some (i * j)) (hy : y.whole? = some j) (hj : j ≠ 0) :
    (x.div y).StandsFor i := by
  obtain ⟨s, m, hm, rfl, hi⟩ := whole?_eq_some.1 hx
  obtain ⟨t, n, hn, rfl, rfl⟩ := whole?_eq_some.1 hy
  have hpos : 0 < n := by
    rw [← natAbs_signed t n]
    exact Int.natAbs_pos.2 hj
  obtain rfl : m = i.natAbs * n := by
    rw [← natAbs_signed s m, hi, Int.natAbs_mul, natAbs_signed]
  have hquotient : signed (s != t) i.natAbs = i := by
    apply Int.eq_of_mul_eq_mul_right hj
    rw [← hi, ← signed_mul]
    cases s <;> cases t <;> rfl
  have hscale := ofRatio_mul_mul (s != t) (i.natAbs * one) 1 hpos
  rw [Nat.one_mul] at hscale
  have hstands := ofRatio_standsFor (s != t) i.natAbs
  rw [div_eq_ofRatio s t hm hn hpos, Nat.mul_right_comm, hscale]
  rw [hquotient] at hstands
  exact hstands

end Arithmetic

/-! ## Quotients that are not exact -/

/-- Rounding moves a quotient by at most one half. -/
theorem roundDiv_error (n : Nat) {d : Nat} (hd : 0 < d) :
    2 * (roundDiv n d * d) ≤ 2 * n + d ∧ 2 * n ≤ 2 * (roundDiv n d * d) + d := by
  have hsplit := Nat.div_add_mod n d
  have hrest := Nat.mod_lt n hd
  have hnext : (n / d + 1) * d = d * (n / d) + d := by rw [Nat.add_mul, Nat.one_mul, Nat.mul_comm]
  have hsame : n / d * d = d * (n / d) := Nat.mul_comm _ _
  unfold roundDiv
  split
  · omega
  · split
    · omega
    · split <;> omega

/-- Where not every number of units is on the grid, the gap is a fixed part of the leading bit. -/
theorem gap_mul_le {units : Nat} (h : precision < units.log2 + 1) :
    gap units * twoPow (precision - 1) ≤ units := by
  have hnonzero : units ≠ 0 := by
    rintro rfl
    rw [Nat.log2_zero] at h
    exact absurd h (by decide)
  unfold gap
  rw [← twoPow_add]
  refine Nat.le_trans (twoPow_le ?_) (Nat.log2_self_le hnonzero)
  unfold precision at h ⊢
  omega

/-- At a quotient of integers within the precision, the grid is finer than two ones divided by the
divisor. -/
theorem mul_gap_quotient_lt {m n : Nat} (hm : m < twoPow precision) (hn : n ≤ twoPow precision) :
    n * gap (m * one / n) < 2 * one := by
  by_cases hlog : (m * one / n).log2 + 1 ≤ precision
  · -- the quotient is so small that every number of units is on the grid
    have hgap : gap (m * one / n) = 1 := by
      rw [gap, Nat.sub_eq_zero_of_le hlog]
      rfl
    have hunit : twoPow precision < 2 * one := by decide +kernel
    rw [hgap]
    omega
  · have hgap := gap_mul_le (Nat.lt_of_not_le hlog)
    have hhalf : twoPow precision = 2 * twoPow (precision - 1) := by decide
    have hlt :
        n * gap (m * one / n) * twoPow (precision - 1) < 2 * one * twoPow (precision - 1) := by
      calc n * gap (m * one / n) * twoPow (precision - 1)
          = n * (gap (m * one / n) * twoPow (precision - 1)) := Nat.mul_assoc _ _ _
        _ ≤ n * (m * one / n) := Nat.mul_le_mul_left n hgap
        _ ≤ m * one := Nat.mul_div_le _ _
        _ < twoPow precision * one := Nat.mul_lt_mul_of_pos_right hm one_pos
        _ = 2 * one * twoPow (precision - 1) := by rw [hhalf, Nat.mul_right_comm]
    exact Nat.lt_of_mul_lt_mul_right hlt

/-- The nearest number to a quotient that is not exact is no integer. -/
theorem not_one_dvd_nearest {m n : Nat} (hm : m < twoPow precision) (hn : n ≤ twoPow precision)
    (hpos : 0 < n) (hdvd : ¬ n ∣ m) : ¬ one ∣ nearest (m * one) n := by
  rintro ⟨r, hr⟩
  have hgap := mul_gap_quotient_lt hm hn
  have herror := roundDiv_error (m * one) (Nat.mul_pos hpos (gap_pos (m * one / n)))
  have hround : roundDiv (m * one) (n * gap (m * one / n)) * (n * gap (m * one / n)) =
      r * n * one := by
    rw [Nat.mul_left_comm, ← nearest, hr, Nat.mul_comm one, ← Nat.mul_assoc, Nat.mul_comm n]
  rw [hround] at herror
  generalize n * gap (m * one / n) = spread at hgap herror
  have hupper : r * n * one < (m + 1) * one := by
    rw [Nat.add_mul, Nat.one_mul]
    omega
  have hlower : m * one < (r * n + 1) * one := by
    rw [Nat.add_mul, Nat.one_mul]
    omega
  have hle := Nat.lt_of_mul_lt_mul_right hupper
  have hge := Nat.lt_of_mul_lt_mul_right hlower
  exact hdvd ⟨r, by rw [Nat.mul_comm]; omega⟩

theorem nearest_quotient_lt {m n : Nat} (hm : m < twoPow precision) (hn : n ≤ twoPow precision)
    (hpos : 0 < n) : nearest (m * one) n < overflow := by
  have hgap : gap (m * one / n) ≤ 2 * one :=
    Nat.le_trans (Nat.le_mul_of_pos_left _ hpos) (Nat.le_of_lt (mul_gap_quotient_lt hm hn))
  calc nearest (m * one) n
      ≤ twoPow precision * (2 * one) := Nat.mul_le_mul (roundDiv_gap_le _ _) hgap
    _ = twoPow (precision + 1) * one := by rw [← Nat.mul_assoc, twoPow_succ]
    _ < overflow := lt_overflow (Nat.le_refl _)

/-- A quotient that is not exact has a fraction. -/
theorem div_isFractional {x y : Binary64} {i j : Int} (hx : x.whole? = some i)
    (hy : y.whole? = some j) (hi : i.natAbs < twoPow precision)
    (hj : j.natAbs ≤ twoPow precision) (hzero : j ≠ 0) (hdvd : ¬ j ∣ i) :
    (x.div y).isFractional = true := by
  obtain ⟨s, m, hm, rfl, rfl⟩ := whole?_eq_some.1 hx
  obtain ⟨t, n, hn, rfl, rfl⟩ := whole?_eq_some.1 hy
  have hpos := Int.natAbs_pos.2 hzero
  rw [← Int.natAbs_dvd_natAbs] at hdvd
  rw [natAbs_signed] at hi hj hpos
  rw [natAbs_signed, natAbs_signed] at hdvd
  rw [div_eq_ofRatio s t hm hn hpos, ofRatio, dif_pos (nearest_quotient_lt hi hj hpos),
    isFractional_iff]
  exact .inr ⟨_, _, _, rfl, not_one_dvd_nearest hi hj hpos hdvd⟩

/-! ## Quotients by zero -/

theorem div_of_whole?_zero {x y : Binary64} {i : Int} (hx : x.whole? = some i)
    (hy : y.whole? = some 0) :
    (i = 0 ∧ x.div y = .nan) ∨ (i ≠ 0 ∧ ∃ s, x.div y = .infinity s) := by
  obtain ⟨s, m, hm, rfl, rfl⟩ := whole?_eq_some.1 hx
  obtain ⟨t, n, hn, rfl, hzero⟩ := whole?_eq_some.1 hy
  obtain rfl : n = 0 := by
    rw [← natAbs_signed t n, hzero]
    rfl
  rw [div, Nat.zero_mul, if_pos rfl]
  by_cases h : m = 0
  · subst h
    rw [Nat.zero_mul, if_pos rfl]
    refine .inl ⟨?_, rfl⟩
    cases s <;> rfl
  · have hunits : m * one ≠ 0 := Nat.mul_ne_zero h (Nat.ne_of_gt one_pos)
    rw [if_neg hunits]
    refine .inr ⟨fun hm => h ?_, _, rfl⟩
    rw [← natAbs_signed s m, hm]
    rfl

end CellLang.Binary64

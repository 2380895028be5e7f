import CellLang.Number.Arithmetic

/-!
# Rounding keeps the order

Rounding to the grid of representable magnitudes crosses no grid point, so it keeps the order of
natural numbers. A comparison of rounded numbers may therefore forget a difference but never turn it
round: a test whether an index and one more fit a capacity, made with rounded numbers, rejects no
index below the capacity, however large both are.
-/

namespace CellLang.Binary64

theorem le_roundDiv (n d : Nat) : n / d ≤ roundDiv n d := by
  unfold roundDiv
  split
  · omega
  · split
    · omega
    · split <;> omega

theorem roundDiv_mono {m n : Nat} (d : Nat) (h : m ≤ n) : roundDiv m d ≤ roundDiv n d := by
  have hquot : m / d ≤ n / d := Nat.div_le_div_right h
  rcases Nat.lt_or_eq_of_le hquot with hlt | heq
  · have hupper := roundDiv_le m d
    have hlower := le_roundDiv n d
    omega
  · have hm := Nat.div_add_mod m d
    have hn := Nat.div_add_mod n d
    rw [heq] at hm
    have hrest : m % d ≤ n % d := by omega
    unfold roundDiv
    rw [heq]
    repeat' split
    all_goals omega

/-- The nearest grid point to a whole number of units. -/
theorem nearest_one (n : Nat) : nearest n 1 = roundDiv n (gap n) * gap n := by
  rw [nearest, Nat.div_one, Nat.one_mul]

theorem nearest_le_of_dvd {n v : Nat} (hv : gap n ∣ v) (h : n ≤ v) : nearest n 1 ≤ v := by
  obtain ⟨k, rfl⟩ := hv
  have hround := roundDiv_mono (gap n) h
  rw [Nat.mul_comm, roundDiv_mul_self k (gap_pos n)] at hround
  rw [nearest_one, Nat.mul_comm (gap n)]
  exact Nat.mul_le_mul_right _ hround

theorem le_nearest_of_dvd {n v : Nat} (hv : gap n ∣ v) (h : v ≤ n) : v ≤ nearest n 1 := by
  obtain ⟨k, rfl⟩ := hv
  have hround := roundDiv_mono (gap n) h
  rw [Nat.mul_comm, roundDiv_mul_self k (gap_pos n)] at hround
  rw [nearest_one, Nat.mul_comm (gap n)]
  exact Nat.mul_le_mul_right _ hround

theorem log2_mono {m n : Nat} (h : m ≤ n) : m.log2 ≤ n.log2 := by
  rcases Nat.eq_zero_or_pos m with rfl | hpos
  · rw [Nat.log2_zero]
    exact Nat.zero_le _
  · have hlt := (log2_lt_iff (Nat.ne_of_gt hpos)).2 (Nat.lt_of_le_of_lt h (lt_twoPow_log2 n))
    omega

theorem nearest_mono {m n : Nat} (h : m ≤ n) : nearest m 1 ≤ nearest n 1 := by
  by_cases hgap : gap m = gap n
  · rw [nearest_one, nearest_one, hgap]
    exact Nat.mul_le_mul_right _ (roundDiv_mono (gap n) h)
  · -- the two lie in different binades, and a power of two on both grids separates them
    have hlog : m.log2 < n.log2 :=
      Nat.lt_of_le_of_ne (log2_mono h) fun heq => hgap (by rw [gap, gap, heq])
    have hn : n ≠ 0 := by
      rintro rfl
      rw [Nat.log2_zero] at hlog
      omega
    have hupper : nearest m 1 ≤ twoPow (m.log2 + 1) :=
      nearest_le_of_dvd (twoPow_dvd (by unfold precision; omega)) (Nat.le_of_lt (lt_twoPow_log2 m))
    have hlower : twoPow n.log2 ≤ nearest n 1 :=
      le_nearest_of_dvd (twoPow_dvd (by unfold precision; omega)) (Nat.log2_self_le hn)
    exact Nat.le_trans hupper (Nat.le_trans (twoPow_le hlog) hlower)

/-! ## Natural numbers -/

theorem rank_ofNat (n : Nat) :
    (ofNat n).rank = some ((min (nearest (n * one) 1) overflow : Nat) : Int) := by
  unfold ofNat ofRatio
  split
  · next hlt => rw [Nat.min_eq_left (Nat.le_of_lt hlt)]; rfl
  · next hge => rw [Nat.min_eq_right (Nat.le_of_not_lt hge)]; rfl

theorem rank_ofNat_mono {m n : Nat} (h : m ≤ n) :
    ∃ i j, (ofNat m).rank = some i ∧ (ofNat n).rank = some j ∧ i ≤ j := by
  refine ⟨_, _, rank_ofNat m, rank_ofNat n, Int.ofNat_le.2 ?_⟩
  have hround := nearest_mono (Nat.mul_le_mul_right one h)
  exact Nat.le_min.2 ⟨Nat.le_trans (Nat.min_le_left _ _) hround, Nat.min_le_right _ _⟩

theorem lt_eq_decide {x y : Binary64} {i j : Int} (hx : x.rank = some i) (hy : y.rank = some j) :
    x.lt y = decide (i < j) := by
  rw [lt, compareBy, hx, hy]

theorem lt_eq_false_of_nan {x y : Binary64} (hy : y.rank = none) : x.lt y = false := by
  rw [lt, compareBy, hy]
  cases x.rank <;> rfl

/-- What the number of a natural number reaches, that of a larger one reaches as well. -/
theorem ofNat_lt_mono {m n : Nat} (h : m ≤ n) {x : Binary64} (hm : (ofNat m).lt x = false) :
    (ofNat n).lt x = false := by
  obtain ⟨i, j, hi, hj, hle⟩ := rank_ofNat_mono h
  cases hx : x.rank with
  | none => exact lt_eq_false_of_nan hx
  | some k =>
    rw [lt_eq_decide hi hx, decide_eq_false_iff_not] at hm
    rw [lt_eq_decide hj hx]
    exact decide_eq_false (by omega)

theorem lt_irrefl (x : Binary64) : x.lt x = false := by
  cases hx : x.rank with
  | none => exact lt_eq_false_of_nan hx
  | some i =>
    rw [lt_eq_decide hx hx]
    exact decide_eq_false (Int.lt_irrefl i)

/-- Rounding keeps the order of natural numbers. -/
theorem ofNat_lt_ofNat {m n : Nat} (h : m ≤ n) : (ofNat n).lt (ofNat m) = false :=
  ofNat_lt_mono h (lt_irrefl (ofNat m))

theorem representable_one : Representable one := by
  have hgap := gap_dvd_mul_twoPow (m := 1) (k := fractionBits) (twoPow_pos precision)
  rw [Nat.one_mul] at hgap
  exact ⟨hgap, by decide +kernel⟩

theorem ofNat_one : ofNat 1 = .finite false one representable_one := by
  have hexact := ofRatio_exact false representable_one Nat.one_pos
  rw [Nat.mul_comm] at hexact
  exact hexact

/-- One more than a whole number that is not negative, rounded once. -/
theorem add_one_of_whole {s : Bool} {units : Nat} {h : Representable units}
    (hwhole : units % one = 0) (hsign : 0 ≤ signed s units) :
    (Binary64.finite s units h).add (ofNat 1) = ofNat (units / one + 1) := by
  have hunits : signed s units = units := by
    cases s with
    | true =>
      change 0 ≤ -(units : Int) at hsign
      change -(units : Int) = units
      omega
    | false => rfl
  have hmul : (units / one + 1) * one = units + one := by
    rw [Nat.add_mul, Nat.one_mul, Nat.div_mul_cancel (Nat.dvd_of_mod_eq_zero hwhole)]
  have hpos := one_pos
  rw [ofNat_one, ofNat, hmul]
  change ofUnits _ (signed s units + one) = _
  rw [hunits]
  generalize one = unit at hpos ⊢
  have hnonzero : (units : Int) + unit ≠ 0 := by omega
  have hnonneg : ¬ (units : Int) + unit < 0 := by omega
  have habs : ((units : Int) + unit).natAbs = units + unit := by omega
  rw [ofUnits, if_neg hnonzero, habs, decide_eq_false hnonneg]

/-- A number that is not negative and not cut off is read as its whole part. -/
theorem toWord_of_lt {s : Bool} {units : Nat} {h : Representable units}
    (hsign : 0 ≤ signed s units) (hword : (Binary64.finite s units h).toWord < maxWord) :
    (Binary64.finite s units h).toWord = units / one := by
  cases s with
  | true =>
    obtain rfl : units = 0 := by
      change 0 ≤ -(units : Int) at hsign
      omega
    exact (Nat.zero_div one).symm
  | false =>
    change min (units / one) maxWord < maxWord at hword
    change min (units / one) maxWord = units / one
    generalize units / one = whole at hword ⊢
    omega

/-- A whole number that is not negative and read as less than the largest word is finite. -/
theorem finite_of_toWord_lt {x : Binary64} (hwhole : x.isFractional = false)
    (hsign : x.lt (zero false) = false) (hword : x.toWord < maxWord) :
    ∃ s units h, x = .finite s units h ∧ units % one = 0 ∧ 0 ≤ signed s units := by
  cases x with
  | nan => cases hwhole
  | infinity s =>
    cases s with
    | true =>
      rw [lt_eq_decide rfl rfl, decide_eq_false_iff_not] at hsign
      have hpos := overflow_pos
      change ¬ -(overflow : Int) < (0 : Int) at hsign
      omega
    | false => exact absurd hword (Nat.lt_irrefl _)
  | finite s units h =>
    have hunits : units % one = 0 := by simpa [isFractional] using hwhole
    have hnonneg : 0 ≤ signed s units := by
      rw [lt_eq_decide rfl rfl, decide_eq_false_iff_not] at hsign
      exact Int.not_lt.1 hsign
    exact ⟨s, units, h, rfl, hunits, hnonneg⟩

/-- The test whether an index and one more fit the store rejects no index below the capacity. -/
theorem room_of_lt {raw : Binary64} {capacity : Nat} (hwhole : raw.isFractional = false)
    (hsign : raw.lt (zero false) = false) (hword : raw.toWord < maxWord)
    (hlt : raw.toWord < capacity) : (ofNat capacity).lt (raw.add (ofNat 1)) = false := by
  obtain ⟨s, units, h, rfl, hunits, hnonneg⟩ := finite_of_toWord_lt hwhole hsign hword
  rw [toWord_of_lt hnonneg hword] at hlt
  rw [add_one_of_whole hunits hnonneg]
  exact ofNat_lt_ofNat hlt

end CellLang.Binary64

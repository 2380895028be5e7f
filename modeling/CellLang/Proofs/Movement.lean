import CellLang.Machine.Pointer
import CellLang.Proofs.Integers
import CellLang.Proofs.Store

/-!
# Where pointer arithmetic leads

Moving a pointer tests the new index three times: for a fraction, against the store with rounded
numbers, and against the allocation after a cast that clamps. Together they come to one condition on
the exact number: it is a whole number of the allocation. Neither rounding nor the clamp can be
seen, since the allocation lies in the store and so below both the capacity and the largest word.

For integers of at most `2 ^ 53` that number is the exact sum, difference, product or quotient
wherever it could be accepted, so that the arithmetic is that of the integers.
-/

namespace CellLang

open Binary64

/-- The number is a finite integer, and `k` is its value, in the range. -/
def Binary64.IntegerIn (x : Binary64) (b : Bounds) (k : Int) : Prop :=
  x.whole? = some k ∧ b.low ≤ k ∧ k ≤ b.high

theorem Binary64.integerIn_iff {x : Binary64} {b : Bounds} {k : Int} :
    x.IntegerIn b k ↔ ∃ n : Nat, k = n ∧ x.whole? = some (n : Int) ∧ b.contains n = true := by
  constructor
  · rintro ⟨hx, hlow, hhigh⟩
    obtain ⟨n, rfl⟩ := Int.eq_ofNat_of_zero_le (Int.le_trans (Int.natCast_nonneg b.low) hlow)
    exact ⟨n, rfl, hx, (b.contains_iff n).2 ⟨Int.ofNat_le.1 hlow, Int.ofNat_le.1 hhigh⟩⟩
  · rintro ⟨n, rfl, hx, hn⟩
    obtain ⟨hlow, hhigh⟩ := (b.contains_iff n).1 hn
    exact ⟨hx, Int.ofNat_le.2 hlow, Int.ofNat_le.2 hhigh⟩

namespace Pointer

/-- What becomes of the pointer `p` once arithmetic has turned its index into `raw`. -/
inductive Moves (p : Pointer) (raw : Binary64) : Except Fault Pointer → Prop
  /-- The number has a fraction, or is none. -/
  | fractional : raw.isFractional = true → Moves p raw (.error (.nonIntegerIndex raw))
  /-- The number is an index of the allocation. -/
  | inside (k : Nat) : raw.whole? = some (k : Int) → p.bounds.contains k = true →
    Moves p raw (.ok { p with index := k })
  /-- The number is no index of the allocation. -/
  | outside (range : RangeFault) : raw.isFractional = false →
    (∀ k : Nat, raw.whole? = some (k : Int) → p.bounds.contains k = false) →
    Moves p raw (.error (.outOfBounds range))

section Tests

variable {b : Bounds} {raw : Binary64} {capacity : Nat}

/-- No test against the store rejects an index of the allocation. -/
theorem tests_of_whole? {k : Nat} (hhigh : b.high < capacity) (hcapacity : capacity ≤ maxWord)
    (hraw : raw.whole? = some (k : Int)) (hk : b.contains k = true) :
    raw.toWord = k ∧ raw.lt (zero false) = false ∧
      (ofNat capacity).lt (raw.add (ofNat 1)) = false := by
  obtain ⟨-, hle⟩ := (b.contains_iff k).1 hk
  have hword : raw.toWord = k := by
    rw [toWord_of_whole? hraw]
    omega
  refine ⟨hword, not_lt_zero_of_whole? hraw, ?_⟩
  apply room_of_lt (isFractional_of_whole? hraw) (not_lt_zero_of_whole? hraw)
  · omega
  · omega

/-- An index that the cast brings into the allocation is the number itself. -/
theorem whole?_of_contains (hhigh : b.high < capacity) (hcapacity : capacity ≤ maxWord)
    (hwhole : raw.isFractional = false) (hsign : raw.lt (zero false) = false)
    (hin : b.contains raw.toWord = true) : raw.whole? = some (raw.toWord : Int) := by
  obtain ⟨-, hle⟩ := (b.contains_iff raw.toWord).1 hin
  apply whole?_of_toWord hwhole hsign
  omega

end Tests

/-- Every outcome of pointer arithmetic, in a store that holds the allocation. -/
theorem offset_moves (p : Pointer) (op : Operator) (x : Binary64) {capacity : Nat}
    (hhigh : p.bounds.high < capacity) (hcapacity : capacity ≤ maxWord) :
    p.Moves (op.apply (ofNat p.index) x) (p.offset op x capacity) := by
  unfold offset
  generalize op.apply (ofNat p.index) x = raw
  dsimp only
  split
  · next hfraction => exact .fractional hfraction
  · next hwhole =>
    rw [Bool.not_eq_true] at hwhole
    split
    · next hreject =>
      -- an index of the allocation would have passed both tests
      refine .outside _ hwhole fun k hraw => Bool.eq_false_iff.2 fun hk => ?_
      obtain ⟨-, hsign, hroom⟩ := tests_of_whole? hhigh hcapacity hraw hk
      rw [hsign, hroom] at hreject
      cases hreject
    · next haccept =>
      -- the number may still be infinite or beyond the words: the cast then gives the largest word
      obtain ⟨hsign, -⟩ := Bool.or_eq_false_iff.1 (Bool.eq_false_iff.2 haccept)
      split
      · next hin =>
        exact .inside _ (whole?_of_contains hhigh hcapacity hwhole hsign hin) hin
      · next hout =>
        refine .outside _ hwhole fun k hraw => Bool.eq_false_iff.2 fun hk => ?_
        obtain ⟨hword, -⟩ := tests_of_whole? hhigh hcapacity hraw hk
        rw [hword] at hout
        exact hout hk

namespace Moves

variable {p : Pointer} {raw : Binary64} {moved : Except Fault Pointer}

theorem eq_ok_iff (h : p.Moves raw moved) (q : Pointer) :
    moved = .ok q ↔ raw.IntegerIn p.bounds q.index ∧ q.bounds = p.bounds := by
  constructor
  · rintro rfl
    cases h with
    | inside k hraw hk => exact ⟨integerIn_iff.2 ⟨k, rfl, hraw, hk⟩, rfl⟩
  · rintro ⟨hin, hbounds⟩
    obtain ⟨n, hn, hraw, hcontains⟩ := integerIn_iff.1 hin
    cases h with
    | fractional hfraction => rw [isFractional_of_whole? hraw] at hfraction; cases hfraction
    | inside k hk _ =>
      obtain rfl : k = q.index := by
        rw [hk, Option.some_inj] at hraw
        omega
      rw [← hbounds]
    | outside _ _ hnone => rw [hnone n hraw] at hcontains; cases hcontains

theorem typeMismatch_iff (h : p.Moves raw moved) :
    FailsWith .typeMismatch moved ↔ raw.isFractional = true := by
  cases h with
  | fractional hfraction => simp [Fault.kind, hfraction]
  | inside _ hraw _ => simp [isFractional_of_whole? hraw]
  | outside _ hwhole _ => simp [Fault.kind, hwhole]

theorem outOfBounds_iff (h : p.Moves raw moved) :
    FailsWith .outOfBounds moved ↔
      raw.isFractional = false ∧ ∀ k, ¬ raw.IntegerIn p.bounds k := by
  cases h with
  | fractional hfraction => simp [Fault.kind, hfraction]
  | inside k hraw hk =>
    refine iff_of_false (not_failsWith_ok _ _) fun hnone => ?_
    exact hnone.2 k (integerIn_iff.2 ⟨k, rfl, hraw, hk⟩)
  | outside _ hwhole hnone =>
    refine iff_of_true ((failsWith_error _ _).2 rfl) ⟨hwhole, fun k hk => ?_⟩
    obtain ⟨n, -, hraw, hn⟩ := integerIn_iff.1 hk
    rw [hnone n hraw] at hn
    cases hn

end Moves

/-- In a store that holds the allocation, pointer arithmetic accepts exactly the integers of the
allocation. A number that is no integer is an error of its type, and all else is out of bounds. No
test made with rounded numbers rejects an integer of the allocation, and the cast brings nothing but
such an integer into it. -/
theorem offset_accepts_exactly_the_allocation (p : Pointer) (op : Operator) (x : Binary64)
    {capacity : Nat} (hhigh : p.bounds.high < capacity) (hcapacity : capacity ≤ maxWord) :
    let raw := op.apply (ofNat p.index) x
    let moved := p.offset op x capacity
    let nonInteger := raw = .nan ∨ ∃ s u h, raw = .finite s u h ∧ ¬ one ∣ u
    (∀ q, moved = .ok q ↔ raw.IntegerIn p.bounds q.index ∧ q.bounds = p.bounds) ∧
    (FailsWith .typeMismatch moved ↔ nonInteger) ∧
    (FailsWith .outOfBounds moved ↔ ¬ nonInteger ∧ ∀ k, ¬ raw.IntegerIn p.bounds k) ∧
    (∀ k, raw.IntegerIn p.bounds k →
      raw.lt (zero false) = false ∧ (ofNat capacity).lt (raw.add (ofNat 1)) = false) ∧
    (¬ nonInteger → raw.lt (zero false) = false → p.bounds.contains raw.toWord = true →
      raw.IntegerIn p.bounds raw.toWord) := by
  intro raw moved nonInteger
  have hmoves : p.Moves raw moved := offset_moves p op x hhigh hcapacity
  have hnon : nonInteger ↔ raw.isFractional = true := isFractional_iff.symm
  refine ⟨hmoves.eq_ok_iff, ?_, ?_, ?_, ?_⟩
  · rw [hnon]
    exact hmoves.typeMismatch_iff
  · rw [hnon, Bool.not_eq_true]
    exact hmoves.outOfBounds_iff
  · intro k hk
    obtain ⟨n, -, hraw, hn⟩ := integerIn_iff.1 hk
    exact (tests_of_whole? hhigh hcapacity hraw hn).2
  · rw [hnon, Bool.not_eq_true]
    intro hwhole hsign hin
    have hraw := whole?_of_contains hhigh hcapacity hwhole hsign hin
    exact integerIn_iff.2 ⟨raw.toWord, rfl, hraw, hin⟩

/-- The last index of the largest store is not a number of its own: it rounds up to `2 ^ 64`, passes
the test against the store, whose capacity rounds to the same, and is refused after the cast, so
that even adding zero leads out of bounds. -/
theorem offset_accepts_exactly_the_allocation_at_the_last_word :
    let raw := Operator.add.apply (ofNat (maxWord - 1)) (zero false)
    raw.whole? = some (maxWord + 1 : Int) ∧
    (ofNat maxWord).lt (raw.add (ofNat 1)) = false ∧
    FailsWith .outOfBounds (offset ⟨maxWord - 1, ⟨0, maxWord - 1⟩⟩ .add (zero false) maxWord) := by
  have hraw : (Operator.add.apply (ofNat (maxWord - 1)) (zero false)).whole? =
      some (maxWord + 1 : Int) := by decide +kernel
  refine ⟨hraw, by decide +kernel, ?_⟩
  obtain ⟨-, -, hout, -, -⟩ := offset_accepts_exactly_the_allocation
    ⟨maxWord - 1, ⟨0, maxWord - 1⟩⟩ .add (zero false) (by decide) (Nat.le_refl maxWord)
  refine hout.2 ⟨?_, ?_⟩
  · rw [← isFractional_iff, Bool.not_eq_true]
    exact isFractional_of_whole? hraw
  · rintro k ⟨hk, -, hle⟩
    obtain rfl := Option.some.inj (hraw.symm.trans hk)
    exact absurd hle (by decide)

/-! ## Integer arithmetic -/

/-- The pointer is moved to the exact integer `k`, or `k` lies outside its allocation and the move
fails for that. -/
structure LandsAt (p : Pointer) (k : Int) (moved : Except Fault Pointer) : Prop where
  eq_ok_iff : ∀ q, moved = .ok q ↔
    p.bounds.low ≤ k ∧ k ≤ p.bounds.high ∧ (q.index : Int) = k ∧ q.bounds = p.bounds
  outOfBounds_iff : FailsWith .outOfBounds moved ↔ ¬ (p.bounds.low ≤ k ∧ k ≤ p.bounds.high)

/-- A number that stands for an integer leads where that integer does. -/
theorem Moves.landsAt {p : Pointer} {raw : Binary64} {moved : Except Fault Pointer} {k : Int}
    (h : p.Moves raw moved) (hk : raw.StandsFor k) (hhigh : p.bounds.high < twoPow precision) :
    p.LandsAt k moved := by
  have hin : ∀ j, raw.IntegerIn p.bounds j ↔ k = j ∧ p.bounds.low ≤ j ∧ j ≤ p.bounds.high := by
    intro j
    refine and_congr_left fun ⟨hlow, hle⟩ => hk.whole?_iff j ?_
    omega
  constructor
  · intro q
    rw [h.eq_ok_iff, hin]
    constructor
    · rintro ⟨⟨rfl, hlow, hle⟩, hbounds⟩
      exact ⟨hlow, hle, rfl, hbounds⟩
    · rintro ⟨hlow, hle, hindex, hbounds⟩
      rw [hindex]
      exact ⟨⟨rfl, hlow, hle⟩, hbounds⟩
  · rw [h.outOfBounds_iff]
    simp only [hk.notFractional, hin, true_and]
    constructor
    · exact fun hnone hrange => hnone k ⟨rfl, hrange⟩
    · rintro hout _ ⟨rfl, hrange⟩
      exact hout hrange

section Integers

variable {p : Pointer} {capacity : Nat}

theorem moves_of_le_precision (op : Operator) (x : Binary64) (hhigh : p.bounds.high < capacity)
    (hcapacity : capacity ≤ twoPow precision) :
    p.Moves (op.apply (ofNat p.index) x) (p.offset op x capacity) :=
  offset_moves p op x hhigh (Nat.le_trans hcapacity (by decide))

theorem offset_landsAt (op : Operator) {x : Binary64} {k : Int} (hhigh : p.bounds.high < capacity)
    (hcapacity : capacity ≤ twoPow precision) (hk : (op.apply (ofNat p.index) x).StandsFor k) :
    p.LandsAt k (p.offset op x capacity) :=
  (moves_of_le_precision op x hhigh hcapacity).landsAt hk (Nat.lt_of_lt_of_le hhigh hcapacity)

variable {x : Binary64} {d : Int}

/-- Where a quotient leads: to the exact one, or nowhere when there is none. -/
theorem offset_div (hindex : p.index ≤ p.bounds.high) (hhigh : p.bounds.high < capacity)
    (hcapacity : capacity ≤ twoPow precision) (hx : x.whole? = some d)
    (hd : d.natAbs ≤ twoPow precision) (hnonzero : d ≠ 0) :
    (d ∣ p.index → p.LandsAt (p.index / d) (p.offset .div x capacity)) ∧
    (FailsWith .typeMismatch (p.offset .div x capacity) ↔ ¬ d ∣ p.index) := by
  have hbound : p.index < twoPow precision := by omega
  have hnumber := whole?_ofNat (Nat.le_of_lt hbound)
  have hmoves := moves_of_le_precision .div x hhigh hcapacity
  by_cases hdvd : d ∣ (p.index : Int)
  · obtain ⟨k, hk⟩ := hdvd
    have hquotient : (p.index : Int) / d = k := by
      rw [hk, Int.mul_ediv_cancel_left k hnonzero]
    have hstands : ((ofNat p.index).div x).StandsFor k := by
      apply div_standsFor _ hx hnonzero
      rw [hnumber, hk, Int.mul_comm]
    rw [hquotient, hmoves.typeMismatch_iff]
    refine ⟨fun _ => offset_landsAt .div hhigh hcapacity hstands, ?_⟩
    exact iff_of_false (Bool.eq_false_iff.1 hstands.notFractional) (not_not_intro ⟨k, hk⟩)
  · have hfraction := div_isFractional hnumber hx hbound hd hnonzero hdvd
    exact ⟨fun h => absurd h hdvd, iff_of_true (hmoves.typeMismatch_iff.2 hfraction) hdvd⟩

/-- A quotient by zero leads nowhere. -/
theorem offset_div_zero (hindex : p.index ≤ p.bounds.high) (hhigh : p.bounds.high < capacity)
    (hcapacity : capacity ≤ twoPow precision) (hx : x.whole? = some 0) :
    (FailsWith .typeMismatch (p.offset .div x capacity) ↔ p.index = 0) ∧
    (FailsWith .outOfBounds (p.offset .div x capacity) ↔ p.index ≠ 0) := by
  have hnumber : (ofNat p.index).whole? = some (p.index : Int) := whole?_ofNat (by omega)
  have hmoves : p.Moves ((ofNat p.index).div x) (p.offset .div x capacity) :=
    moves_of_le_precision .div x hhigh hcapacity
  rcases div_of_whole?_zero hnumber hx with ⟨hzero, hraw⟩ | ⟨hzero, s, hraw⟩
  · have hi : p.index = 0 := by omega
    rw [hraw] at hmoves
    rw [hmoves.typeMismatch_iff, hmoves.outOfBounds_iff]
    simp [hi, isFractional]
  · have hi : p.index ≠ 0 := by omega
    rw [hraw] at hmoves
    rw [hmoves.typeMismatch_iff, hmoves.outOfBounds_iff]
    simp [hi, isFractional, IntegerIn, whole?]

/-- Taking away what was added leads back. -/
theorem offset_sub_of_add {q : Pointer} (hlow : p.bounds.low ≤ p.index)
    (hindex : p.index ≤ p.bounds.high) (hhigh : p.bounds.high < capacity)
    (hcapacity : capacity ≤ twoPow precision) (hx : x.whole? = some d)
    (hmoved : p.offset .add x capacity = .ok q) : q.offset .sub x capacity = .ok p := by
  have hnumber : (ofNat p.index).whole? = some (p.index : Int) := whole?_ofNat (by omega)
  have hsum := add_standsFor hnumber hx
  have hadd : p.LandsAt (p.index + d) (p.offset .add x capacity) :=
    offset_landsAt .add hhigh hcapacity hsum
  obtain ⟨-, hle, hq, hbounds⟩ := (hadd.eq_ok_iff q).1 hmoved
  have hmovedNumber : (ofNat q.index).whole? = some (q.index : Int) := whole?_ofNat (by omega)
  have hdifference := sub_standsFor hmovedNumber hx
  have hsub : q.LandsAt (q.index - d) (q.offset .sub x capacity) :=
    offset_landsAt .sub (hbounds ▸ hhigh) hcapacity hdifference
  rw [hsub.eq_ok_iff, hbounds]
  refine ⟨?_, ?_, ?_, rfl⟩
  · omega
  · omega
  · omega

/-- Pointer arithmetic with integers of at most `2 ^ 53`, in a store of at most that capacity, is
exact. A sum, a difference or a product leads to the integer it is, if that lies in the allocation,
and is out of bounds otherwise; so does an exact quotient. A quotient that is not exact, and that of
zero by zero, is an error of its type, and any other quotient by zero is out of bounds. -/
theorem offset_by_integer_is_exact (hlow : p.bounds.low ≤ p.index)
    (hindex : p.index ≤ p.bounds.high) (hhigh : p.bounds.high < capacity)
    (hcapacity : capacity ≤ twoPow precision) (hx : x.whole? = some d)
    (hd : d.natAbs ≤ twoPow precision) :
    p.LandsAt (p.index + d) (p.offset .add x capacity) ∧
    p.LandsAt (p.index - d) (p.offset .sub x capacity) ∧
    p.LandsAt (p.index * d) (p.offset .mul x capacity) ∧
    (d ≠ 0 →
      (d ∣ p.index → p.LandsAt (p.index / d) (p.offset .div x capacity)) ∧
      (FailsWith .typeMismatch (p.offset .div x capacity) ↔ ¬ d ∣ p.index)) ∧
    (d = 0 →
      (FailsWith .typeMismatch (p.offset .div x capacity) ↔ p.index = 0) ∧
      (FailsWith .outOfBounds (p.offset .div x capacity) ↔ p.index ≠ 0)) ∧
    (∀ q, p.offset .add x capacity = .ok q → q.offset .sub x capacity = .ok p) := by
  have hnumber : (ofNat p.index).whole? = some (p.index : Int) := whole?_ofNat (by omega)
  have hsum := add_standsFor hnumber hx
  have hdifference := sub_standsFor hnumber hx
  have hproduct := mul_standsFor hnumber hx
  refine ⟨?_, ?_, ?_, ?_, ?_, ?_⟩
  · exact offset_landsAt .add hhigh hcapacity hsum
  · exact offset_landsAt .sub hhigh hcapacity hdifference
  · exact offset_landsAt .mul hhigh hcapacity hproduct
  · exact offset_div hindex hhigh hcapacity hx hd
  · rintro rfl
    exact offset_div_zero hindex hhigh hcapacity hx
  · exact fun q => offset_sub_of_add hlow hindex hhigh hcapacity hx

/-- From the last index below `2 ^ 53` back to the first and forth again. -/
theorem offset_by_integer_is_exact_across_the_store :
    let last := twoPow precision - 1
    let first : Pointer := ⟨0, ⟨0, last⟩⟩
    let x := (ofNat last).neg
    offset ⟨last, ⟨0, last⟩⟩ .add x (last + 1) = .ok first ∧
    first.offset .sub x (last + 1) = .ok ⟨last, ⟨0, last⟩⟩ ∧
    FailsWith .outOfBounds (offset ⟨last, ⟨0, last⟩⟩ .div x (last + 1)) := by
  intro last first x
  have hx : x.whole? = some (-(last : Int)) := whole?_neg (whole?_ofNat (by decide))
  obtain ⟨hadd, -, -, hdiv, -, hback⟩ := offset_by_integer_is_exact (p := ⟨last, ⟨0, last⟩⟩)
    (Nat.zero_le _) (Nat.le_refl _) (Nat.lt_succ_self last) (by decide) hx (by decide)
  have hsum : offset ⟨last, ⟨0, last⟩⟩ .add x (last + 1) = .ok first :=
    (hadd.eq_ok_iff first).2 (by decide)
  refine ⟨hsum, hback first hsum, ?_⟩
  exact ((hdiv (by decide)).1 (by decide)).outOfBounds_iff.2 (by decide)

end Integers

end Pointer

end CellLang

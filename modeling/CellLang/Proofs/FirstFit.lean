import CellLang.Proofs.Store
import Mathlib.Order.Bounds.Defs

/-!
# First fit

An allocation takes the least start of a run of free cells that is long enough, for every pattern of
free cells and cells in use. The search counts the free cells it has just passed. A second search is
compared with it that tries one start after another in word arithmetic, as a loop over indexes does:
it jumps behind the first cell in use that it meets, and gives up at the first start from which the
run would leave the store. There every sum is checked to be a word, every read to stay in the store,
and the number of rounds is bounded; the search passes all these checks and ends with the same
answer.
-/

namespace CellLang.Store

/-- The `size` cells from `low` on are free cells of the store. -/
def FreeRun (s : Store) (low size : Nat) : Prop := ∀ i, low ≤ i → i < low + size → s.FreeAt i

theorem FreeAt.lt_capacity {s : Store} {i : Nat} (h : s.FreeAt i) : i < s.capacity := by
  obtain ⟨c, hc, _⟩ := h
  exact (Array.getElem?_eq_some_iff.1 hc).1

theorem exists_cell {s : Store} {i : Nat} (hi : i < s.capacity) : ∃ c, s.get? i = some c :=
  ⟨_, Array.getElem?_eq_getElem hi⟩

theorem freeAt_iff {s : Store} {i : Nat} {c : Cell} (hc : s.get? i = some c) :
    s.FreeAt i ↔ c.isFree = true := by
  constructor
  · rintro ⟨c', hc', hfree⟩
    obtain rfl : c = c' := Option.some.inj (hc.symm.trans hc')
    exact hfree
  · exact fun hfree => ⟨c, hc, hfree⟩

theorem exists_freeAt_iff (s : Store) : (∃ i, s.FreeAt i) ↔ s.cells.any Cell.isFree = true := by
  rw [Array.any_eq_true]
  constructor
  · rintro ⟨i, c, hc, hfree⟩
    obtain ⟨hi, rfl⟩ := Array.getElem?_eq_some_iff.1 hc
    exact ⟨i, hi, hfree⟩
  · rintro ⟨i, hi, hfree⟩
    exact ⟨i, _, Array.getElem?_eq_getElem hi, hfree⟩

/-- A run of at least one cell starts at none of these: its cell at the given index is not free. -/
theorem not_freeRun_of_used {s : Store} {used size start : Nat} (hused : ¬ s.FreeAt used)
    (hstart : start ≤ used) (hend : used < start + size) : ¬ s.FreeRun start size :=
  fun hrun => hused (hrun used hstart hend)

/-- A run must end in the store. -/
theorem not_freeRun_of_end {s : Store} {size start : Nat} (hsize : 0 < size)
    (hend : s.capacity < start + size) : ¬ s.FreeRun start size := by
  intro hrun
  have hlast := (hrun (start + size - 1) (by omega) (by omega)).lt_capacity
  omega

/-! ## What the search finds -/

/-- The least start of a run of free cells, or none if there is no such run. -/
def Finds (s : Store) (size : Nat) : Option Nat → Prop
  | some low => IsLeast {start | s.FreeRun start size} low
  | none => ∀ start, ¬ s.FreeRun start size

theorem Finds.unique {s : Store} {size : Nat} {found other : Option Nat} (h : s.Finds size found)
    (h' : s.Finds size other) : found = other := by
  cases found with
  | none =>
    cases other with
    | none => rfl
    | some low => exact absurd h'.1 (h low)
  | some low =>
    cases other with
    | none => exact absurd h.1 (h' low)
    | some low' => exact congrArg some (Nat.le_antisymm (h.2 h'.1) (h'.2 h.1))

/-- The search stands before position `i`, the `run` cells before it are free, and no run starts
earlier. Then no run starts before the place that the search finds. -/
theorem not_freeRun_of_firstRun {s : Store} {size i run : Nat} {rest : List Cell}
    (hrest : rest = s.cells.toList.drop i) (hrun : run ≤ i) (hshort : run < size)
    (hskipped : ∀ start < i - run, ¬ s.FreeRun start size) (start : Nat)
    (hstart : ∀ low, firstRun size i run rest = some low → start < low) :
    ¬ s.FreeRun start size := by
  induction rest generalizing i run with
  | nil =>
    have hend : s.capacity ≤ i := by
      have hlength : s.cells.toList.length ≤ i := List.drop_eq_nil_iff.1 hrest.symm
      exact hlength
    by_cases hearly : start < i - run
    · exact hskipped start hearly
    · exact not_freeRun_of_end (by omega) (by omega)
  | cons c rest ih =>
    have hget : s.get? i = some c := by
      rw [get?, ← Array.getElem?_toList, ← List.head?_drop, ← hrest, List.head?_cons]
    have hdrop : rest = s.cells.toList.drop (i + 1) := by
      rw [← List.tail_drop, ← hrest, List.tail_cons]
    by_cases hfree : c.isFree = true
    · by_cases hdone : run + 1 = size
      · have hfound : firstRun size i run (c :: rest) = some (i - run) := by
          rw [firstRun, if_pos hfree, if_pos hdone]
        exact hskipped start (hstart _ hfound)
      · have hnext : firstRun size i run (c :: rest) = firstRun size (i + 1) (run + 1) rest := by
          rw [firstRun, if_pos hfree, if_neg hdone]
        refine ih hdrop (by omega) (by omega) (fun other hother => ?_) (hnext ▸ hstart)
        exact hskipped other (by omega)
    · have hnext : firstRun size i run (c :: rest) = firstRun size (i + 1) 0 rest := by
        rw [firstRun, if_neg hfree]
      have hused : ¬ s.FreeAt i := fun h => hfree ((freeAt_iff hget).1 h)
      refine ih hdrop (by omega) (by omega) (fun other hother => ?_) (hnext ▸ hstart)
      -- a start inside the broken run would need the cell that broke it
      by_cases hearly : other < i - run
      · exact hskipped other hearly
      · exact not_freeRun_of_used hused (by omega) (by omega)

theorem finds_firstRun (s : Store) {size : Nat} (hsize : 0 < size) :
    s.Finds size (firstRun size 0 0 s.cells.toList) := by
  have hskips := not_freeRun_of_firstRun (s := s) (s.cells.toList.drop_zero.symm)
    (Nat.le_refl 0) hsize (fun start hstart => absurd hstart (Nat.not_lt_zero start))
  cases hfound : firstRun size 0 0 s.cells.toList with
  | none => exact fun start => hskips start fun low hlow => by rw [hfound] at hlow; cases hlow
  | some low =>
    have hfree := firstRun_free (s.cells.toList.drop_zero.symm) (Nat.le_refl 0)
      (fun k _ hk => absurd hk (Nat.not_lt_zero k)) hfound
    constructor
    · intro i hlow hhigh
      obtain ⟨c, hc, hisFree⟩ := hfree i hlow hhigh
      exact ⟨c, by rw [get?, ← Array.getElem?_toList]; exact hc, hisFree⟩
    · intro start hstart
      refine Nat.le_of_not_lt fun hlt => hskips start (fun low' hlow' => ?_) hstart
      rw [hfound] at hlow'
      exact Option.some.inj hlow' ▸ hlt

/-- How an allocation ends in a store with free cells, by the start that was found. -/
def located (size : Nat) : Option Nat → Except Fault Bounds
  | some low => .ok ⟨low, low + size - 1⟩
  | none => .error (.capacityExceeded size)

theorem allocate_eq_located {s : Store} {size : Nat} (hsize : size ≠ 0)
    (hfree : ∃ i, s.FreeAt i) :
    ∃ found, s.Finds size found ∧ s.allocate size = located size found := by
  refine ⟨_, s.finds_firstRun (Nat.pos_of_ne_zero hsize), ?_⟩
  rw [allocate, if_neg hsize, if_pos ((exists_freeAt_iff s).1 hfree)]
  cases firstRun size 0 0 s.cells.toList <;> rfl

theorem allocate_of_none_free {s : Store} {size : Nat} (hsize : size ≠ 0)
    (hfree : ¬ ∃ i, s.FreeAt i) : s.allocate size = .error .storeFull := by
  rw [allocate, if_neg hsize, if_neg fun hany => hfree ((exists_freeAt_iff s).2 hany)]

/-! ## Starts tried one after another -/

/-- The sum of two words, if it is a word. -/
def wordSum? (a b : Nat) : Option Nat :=
  if a + b ≤ Binary64.maxWord then some (a + b) else none

/-- One less than a word, if that is a word. -/
def wordPred? : Nat → Option Nat
  | 0 => none
  | n + 1 => some n

/-- The first cell in use among `count` cells from `i` on, read one after another; no result at all
if a read leaves the store. -/
def firstUsed? (s : Store) (i : Nat) : Nat → Option (Option Nat)
  | 0 => some none
  | count + 1 => do
    let cell ← s.get? i
    if cell.isFree then s.firstUsed? (i + 1) count else some (some i)

/-- What a round of the search comes to. -/
inductive Round where
  | resume (low : Nat)
  | settled (outcome : Except Fault Bounds)

/-- One round: the start `low` is tried. There is no result if a sum that is not expected to leave
the words does so, or if a read leaves the store. -/
def tryStart (s : Store) (size last low : Nat) : Option Round := do
  let cell ← s.get? low
  if cell.isFree then
    match wordSum? low (← wordPred? size) with
    | none => return .settled (.error (.capacityExceeded size))
    | some high =>
      if high ≤ last then
        match ← s.firstUsed? low (high - low + 1) with
        | some used => return .resume (← wordSum? used 1)
        | none => return .settled (.ok ⟨low, high⟩)
      else return .settled (.error (.capacityExceeded size))
  else return .resume (← wordSum? low 1)

/-- Rounds from the start `low` on. There is no result if they do not end within the given
number. -/
def scanFrom (s : Store) (size last : Nat) : Nat → Nat → Option (Except Fault Bounds)
  | 0, _ => none
  | rounds + 1, low =>
    if low ≤ last then
      match s.tryStart size last low with
      | some (.resume next) => s.scanFrom size last rounds next
      | some (.settled outcome) => some outcome
      | none => none
    else some (.error (.capacityExceeded size))

/-- An allocation by trying starts. -/
def scan (s : Store) (rounds size : Nat) : Option (Except Fault Bounds) :=
  if size = 0 then some (.error (.invalidAllocationSize size))
  else if s.cells.any Cell.isFree then do
    s.scanFrom size (← wordPred? s.capacity) rounds 0
  else some (.error .storeFull)

theorem wordSum?_of_le {a b : Nat} (h : a + b ≤ Binary64.maxWord) : wordSum? a b = some (a + b) :=
  if_pos h

theorem wordPred?_of_pos {n : Nat} (h : 0 < n) : wordPred? n = some (n - 1) := by
  cases n with
  | zero => omega
  | succ n => rfl

/-- Reading a range of the store finds its first cell in use, or finds it free. -/
theorem firstUsed?_eq {s : Store} {i count : Nat} (hend : i + count ≤ s.capacity) :
    (s.firstUsed? i count = some none ∧ s.FreeRun i count) ∨
      ∃ used, s.firstUsed? i count = some (some used) ∧ i ≤ used ∧ used < i + count ∧
        ¬ s.FreeAt used := by
  induction count generalizing i with
  | zero => exact .inl ⟨rfl, fun k hlow hhigh => by omega⟩
  | succ count ih =>
    obtain ⟨c, hc⟩ := exists_cell (s := s) (i := i) (by omega)
    by_cases hfree : c.isFree = true
    · have hnext : s.firstUsed? i (count + 1) = s.firstUsed? (i + 1) count := by
        rw [firstUsed?, hc, Option.bind_eq_bind, Option.bind_some, if_pos hfree]
      rw [hnext]
      rcases ih (i := i + 1) (by omega) with ⟨hnone, hrun⟩ | ⟨used, hused, hlow, hhigh, hcell⟩
      · refine .inl ⟨hnone, fun k hlow hhigh => ?_⟩
        rcases Nat.eq_or_lt_of_le hlow with rfl | hlt
        · exact (freeAt_iff hc).2 hfree
        · exact hrun k hlt (by omega)
      · exact .inr ⟨used, hused, by omega, by omega, hcell⟩
    · refine .inr ⟨i, ?_, Nat.le_refl i, by omega, fun h => hfree ((freeAt_iff hc).1 h)⟩
      rw [firstUsed?, hc, Option.bind_eq_bind, Option.bind_some, if_neg hfree]

/-- What one round does: it passes over starts from which no run begins, and settles the search
where a run begins or where none can begin any more. -/
theorem tryStart_cases {s : Store} {size : Nat} (low : Nat) (hword : s.capacity ≤ Binary64.maxWord)
    (hsize : 0 < size) (hlow : low < s.capacity) :
    (∃ next, s.tryStart size (s.capacity - 1) low = some (.resume next) ∧ low < next ∧
      next ≤ s.capacity ∧ ∀ start, low ≤ start → start < next → ¬ s.FreeRun start size) ∨
    (s.tryStart size (s.capacity - 1) low = some (.settled (.ok ⟨low, low + size - 1⟩)) ∧
      s.FreeRun low size) ∨
    (s.tryStart size (s.capacity - 1) low = some (.settled (.error (.capacityExceeded size))) ∧
      ∀ start, low ≤ start → ¬ s.FreeRun start size) := by
  obtain ⟨c, hc⟩ := exists_cell hlow
  have hpred := wordPred?_of_pos hsize
  by_cases hfree : c.isFree = true
  · by_cases hfits : low + size ≤ s.capacity
    · have hsum : low + (size - 1) = low + size - 1 := by omega
      have hhigh := wordSum?_of_le (a := low) (b := size - 1) (by omega)
      have hinside : low + size - 1 ≤ s.capacity - 1 := by omega
      have hcount : low + size - 1 - low + 1 = size := by omega
      rw [hsum] at hhigh
      rcases firstUsed?_eq hfits with ⟨hnone, hrun⟩ | ⟨used, hused, hfrom, hto, hcell⟩
      · refine .inr (.inl ⟨?_, hrun⟩)
        simp [tryStart, hc, hfree, hpred, hhigh, hinside, hcount, hnone]
      · have hnext := wordSum?_of_le (a := used) (b := 1) (by omega)
        refine .inl ⟨used + 1, ?_, by omega, by omega, fun start hstart hlt => ?_⟩
        · simp [tryStart, hc, hfree, hpred, hhigh, hinside, hcount, hused, hnext]
        · exact not_freeRun_of_used hcell (by omega) (by omega)
    · refine .inr (.inr ⟨?_, fun start hstart => not_freeRun_of_end hsize (by omega)⟩)
      by_cases hhigh : low + (size - 1) ≤ Binary64.maxWord
      · have houtside : ¬ low + (size - 1) ≤ s.capacity - 1 := by omega
        simp [tryStart, hc, hfree, hpred, wordSum?_of_le hhigh, houtside]
      · simp [tryStart, hc, hfree, hpred, wordSum?, hhigh]
  · have hnext := wordSum?_of_le (a := low) (b := 1) (by omega)
    refine .inl ⟨low + 1, ?_, by omega, by omega, fun start hstart hlt => ?_⟩
    · simp [tryStart, hc, hfree, hnext]
    · exact not_freeRun_of_used (fun h => hfree ((freeAt_iff hc).1 h)) (by omega) (by omega)

/-- The rounds end with what the search must find. The invariant is that no run begins before the
start that is tried next; each round moves that start, so as many rounds as there are cells, and one
more, are enough. -/
theorem scanFrom_eq {s : Store} {size : Nat} (rounds low : Nat)
    (hword : s.capacity ≤ Binary64.maxWord) (hsize : 0 < size) (hsome : 0 < s.capacity)
    (hlow : low ≤ s.capacity) (hrounds : s.capacity < low + rounds)
    (hskipped : ∀ start < low, ¬ s.FreeRun start size) :
    ∃ found, s.Finds size found ∧
      s.scanFrom size (s.capacity - 1) rounds low = some (located size found) := by
  induction rounds generalizing low with
  | zero => omega
  | succ rounds ih =>
    have hnowhere : (∀ start, low ≤ start → ¬ s.FreeRun start size) → s.Finds size none := by
      intro hnone start
      rcases Nat.lt_or_ge start low with hearly | hlate
      · exact hskipped start hearly
      · exact hnone start hlate
    by_cases hinside : low ≤ s.capacity - 1
    · rw [scanFrom, if_pos hinside]
      rcases tryStart_cases low hword hsize (by omega) with
        ⟨next, htry, hlater, hnext, hnone⟩ | ⟨htry, hrun⟩ | ⟨htry, hnone⟩
      · rw [htry]
        refine ih next hnext (by omega) fun start hstart => ?_
        rcases Nat.lt_or_ge start low with hearly | hlate
        · exact hskipped start hearly
        · exact hnone start hlate hstart
      · rw [htry]
        refine ⟨some low, ⟨hrun, fun start hstart => ?_⟩, rfl⟩
        exact Nat.le_of_not_lt fun hearly => hskipped start hearly hstart
      · rw [htry]
        exact ⟨none, hnowhere hnone, rfl⟩
    · rw [scanFrom, if_neg hinside]
      exact ⟨none, hnowhere fun start _ => not_freeRun_of_end hsize (by omega), rfl⟩

/-- Trying starts gives the answer of the allocation: no sum leaves the words, no read leaves the
store, and the rounds end. -/
theorem scan_eq {s : Store} {rounds : Nat} (hword : s.capacity ≤ Binary64.maxWord)
    (hrounds : s.capacity < rounds) (size : Nat) : s.scan rounds size = some (s.allocate size) := by
  by_cases hsize : size = 0
  · rw [scan, allocate, if_pos hsize, if_pos hsize]
  · rw [scan, if_neg hsize]
    by_cases hfree : ∃ i, s.FreeAt i
    · have hsome : 0 < s.capacity := by
        obtain ⟨i, hi⟩ := hfree
        exact Nat.lt_of_le_of_lt (Nat.zero_le i) hi.lt_capacity
      obtain ⟨found, hfound, hallocate⟩ := allocate_eq_located hsize hfree
      obtain ⟨found', hfound', hscan⟩ := scanFrom_eq rounds 0 hword
        (Nat.pos_of_ne_zero hsize) hsome (Nat.zero_le _) (by omega)
        fun start hstart => absurd hstart (Nat.not_lt_zero start)
      rw [if_pos ((exists_freeAt_iff s).1 hfree), wordPred?_of_pos hsome, Option.bind_eq_bind,
        Option.bind_some, hscan, hallocate, hfound.unique hfound']
    · rw [allocate_of_none_free hsize hfree,
        if_neg fun hany => hfree ((exists_freeAt_iff s).2 hany)]

/-! ## Allocation -/

theorem failsWith_invalidSize_iff (s : Store) (size : Nat) :
    FailsWith .invalidAllocationSize (s.allocate size) ↔ size = 0 := by
  constructor
  · rintro ⟨f, hfailed, hkind⟩
    rcases allocate_eq_error hfailed with ⟨hsize, _⟩ | hfull | hexceeded
    · exact hsize
    · rw [hkind] at hfull
      cases hfull
    · rw [hkind] at hexceeded
      cases hexceeded
  · rintro rfl
    exact ⟨_, rfl, rfl⟩

theorem failsWith_storeFull_iff {s : Store} {size : Nat} (hsize : size ≠ 0) :
    FailsWith .storeFull (s.allocate size) ↔ ∀ i, ¬ s.FreeAt i := by
  by_cases hfree : ∃ i, s.FreeAt i
  · obtain ⟨found, _, hallocate⟩ := allocate_eq_located hsize hfree
    obtain ⟨i, hi⟩ := hfree
    rw [hallocate]
    cases found with
    | none => simpa [located, Fault.kind] using ⟨i, hi⟩
    | some low => simpa [located] using ⟨i, hi⟩
  · rw [allocate_of_none_free hsize hfree]
    simpa [Fault.kind] using hfree

/-- In a store with free cells an allocation succeeds exactly where a run is long enough. -/
theorem allocate_cases {s : Store} {size : Nat} (hsize : size ≠ 0) (hfree : ∃ i, s.FreeAt i) :
    ((∃ b, s.allocate size = .ok b) ↔ ∃ low, s.FreeRun low size) ∧
      (FailsWith .capacityExceeded (s.allocate size) ↔ ¬ ∃ low, s.FreeRun low size) := by
  obtain ⟨found, hfound, hallocate⟩ := allocate_eq_located hsize hfree
  rw [hallocate]
  cases found with
  | none =>
    have hnone : ¬ ∃ low, s.FreeRun low size := fun ⟨low, hlow⟩ => hfound low hlow
    simp [located, Fault.kind, hnone]
  | some low =>
    have hsome : ∃ low, s.FreeRun low size := ⟨low, hfound.1⟩
    simp [located, hsome]

/-- The start of an allocation is the least one from which enough cells are free. -/
theorem isLeast_of_allocate {s : Store} {size : Nat} {b : Bounds}
    (hb : s.allocate size = .ok b) : IsLeast {low | s.FreeRun low size} b.low := by
  have hsize : size ≠ 0 := by
    rintro rfl
    cases hb
  by_cases hfree : ∃ i, s.FreeAt i
  · obtain ⟨found, hfound, hallocate⟩ := allocate_eq_located hsize hfree
    rw [hallocate] at hb
    cases found with
    | none => cases hb
    | some low =>
      cases hb
      exact hfound
  · rw [allocate_of_none_free hsize hfree] at hb
    cases hb

/-- Allocation is first fit, for every pattern of free cells and every size. Size zero is refused,
then a store without free cells; otherwise the allocation succeeds exactly when enough cells in a
row are free somewhere, and takes the least such start. Trying starts one after another in word
arithmetic ends with the same answer, without a sum that leaves the words or a read that leaves the
store. -/
theorem allocation_is_first_fit (s : Store) (size : Nat) :
    (FailsWith .invalidAllocationSize (s.allocate size) ↔ size = 0) ∧
    (size ≠ 0 →
      (FailsWith .storeFull (s.allocate size) ↔ ∀ i, ¬ s.FreeAt i) ∧
      ((∃ i, s.FreeAt i) →
        ((∃ b, s.allocate size = .ok b) ↔ ∃ low, s.FreeRun low size) ∧
        (FailsWith .capacityExceeded (s.allocate size) ↔ ¬ ∃ low, s.FreeRun low size))) ∧
    (∀ b, s.allocate size = .ok b →
      IsLeast {low | s.FreeRun low size} b.low ∧ b.high = b.low + size - 1 ∧
        b.high < s.capacity) ∧
    (s.capacity ≤ Binary64.maxWord → ∀ rounds, s.capacity < rounds →
      s.scan rounds size = some (s.allocate size)) := by
  refine ⟨s.failsWith_invalidSize_iff size, fun hsize => ?_, fun b hb => ?_, ?_⟩
  · exact ⟨failsWith_storeFull_iff hsize, allocate_cases hsize⟩
  · obtain ⟨hle, hlength, hinside, _⟩ := allocate_eq_ok hb
    rw [Bounds.size] at hlength
    exact ⟨isLeast_of_allocate hb, by omega, hinside⟩
  · exact fun hword rounds hrounds => scan_eq hword hrounds size

/-- Holes of one and of two cells are passed over, and the run behind them is the first of three. -/
theorem allocation_is_first_fit_behind_holes :
    let x : Cell := .bool true
    let o : Cell := .uninitialized
    let s : Store := ⟨#[x, o, x, o, o, x, x, o, o, o, o]⟩
    s.allocate 3 = .ok ⟨7, 9⟩ ∧ IsLeast {low | s.FreeRun low 3} 7 ∧
      s.capacity ≤ Binary64.maxWord ∧ s.capacity < 12 ∧ s.scan 12 3 = some (.ok ⟨7, 9⟩) ∧
      FailsWith .capacityExceeded (s.allocate Binary64.maxWord) ∧
      ¬ ∃ low, s.FreeRun low Binary64.maxWord := by
  intro x o s
  have hfound : s.allocate 3 = .ok ⟨7, 9⟩ := by
    unfold s x o
    with_unfolding_all rfl
  have hmax : s.allocate Binary64.maxWord = .error (.capacityExceeded Binary64.maxWord) := by
    unfold s x o
    with_unfolding_all rfl
  have hword : s.capacity ≤ Binary64.maxWord := by
    show 11 ≤ Binary64.maxWord
    decide
  have hrounds : s.capacity < 12 := by
    show 11 < 12
    decide
  obtain ⟨_, _, hbounds, hscan⟩ := allocation_is_first_fit s 3
  obtain ⟨_, hcases, _, _⟩ := allocation_is_first_fit s Binary64.maxWord
  have hexceeded : FailsWith .capacityExceeded (s.allocate Binary64.maxWord) := ⟨_, hmax, rfl⟩
  have hfree : s.FreeAt 1 := ⟨o, rfl, rfl⟩
  obtain ⟨_, hiff⟩ := (hcases (by decide)).2 ⟨1, hfree⟩
  refine ⟨hfound, (hbounds _ hfound).1, hword, hrounds, ?_, hexceeded, hiff.1 hexceeded⟩
  rw [hscan hword 12 hrounds, hfound]

end CellLang.Store

import CellLang.Machine.Store

/-!
# Allocated cells

Allocation finds a run of free cells of the requested length, and the cells of an allocation keep
the type they were given: filling another run and writing through a pointer change no type of a cell
in use.
-/

namespace CellLang

/-- The computation fails, with a fault of that kind. -/
def FailsWith {α : Type} (kind : FaultKind) (result : Except Fault α) : Prop :=
  ∃ f, result = .error f ∧ f.kind = kind

@[simp] theorem not_failsWith_ok {α : Type} (kind : FaultKind) (a : α) :
    ¬ FailsWith kind (.ok a : Except Fault α) := by
  rintro ⟨_, hfailed, _⟩
  cases hfailed

@[simp] theorem failsWith_error {α : Type} (kind : FaultKind) (f : Fault) :
    FailsWith kind (.error f : Except Fault α) ↔ f.kind = kind := by
  constructor
  · rintro ⟨_, ⟨⟩, hkind⟩
    exact hkind
  · exact fun hkind => ⟨f, rfl, hkind⟩

namespace Bounds

theorem contains_iff (b : Bounds) (i : Nat) : b.contains i = true ↔ b.low ≤ i ∧ i ≤ b.high := by
  simp [contains]

/-- No index lies in both ranges. -/
def Disjoint (a b : Bounds) : Prop := ∀ i, ¬ (a.contains i = true ∧ b.contains i = true)

theorem Disjoint.ne {a b : Bounds} (h : a.Disjoint b) (hle : a.low ≤ a.high) : a ≠ b := by
  rintro rfl
  have hlow := (contains_iff a a.low).2 ⟨Nat.le_refl _, hle⟩
  exact h a.low ⟨hlow, hlow⟩

theorem Disjoint.symm {a b : Bounds} (h : a.Disjoint b) : b.Disjoint a :=
  fun i hi => h i ⟨hi.2, hi.1⟩

end Bounds

namespace Store

/-- The range lies in the store, and each of its cells holds a value of the type. -/
structure Holds (s : Store) (b : Bounds) (t : CellType) : Prop where
  nonempty : b.low ≤ b.high
  inside : b.high < s.capacity
  typed : ∀ i, b.contains i = true → ∃ c, s.get? i = some c ∧ c.type? = some t

/-- A free cell stands at the index. -/
def FreeAt (s : Store) (i : Nat) : Prop := ∃ c, s.get? i = some c ∧ c.isFree = true

/-- The search goes through the cells from position `i` on; the `run` cells before it are free. What
it finds is a run of free cells. -/
theorem firstRun_free {size i run low : Nat} {cells rest : List Cell}
    (hrest : rest = cells.drop i) (hrun : run ≤ i)
    (hfree : ∀ k, i - run ≤ k → k < i → ∃ c, cells[k]? = some c ∧ c.isFree = true)
    (hfound : firstRun size i run rest = some low) :
    ∀ k, low ≤ k → k < low + size → ∃ c, cells[k]? = some c ∧ c.isFree = true := by
  induction rest generalizing i run with
  | nil => cases hfound
  | cons c rest ih =>
    have hget : cells[i]? = some c := by
      rw [← List.head?_drop, ← hrest, List.head?_cons]
    have hdrop : rest = cells.drop (i + 1) := by
      rw [← List.tail_drop, ← hrest, List.tail_cons]
    unfold firstRun at hfound
    split at hfound
    · next hc =>
      have hfree' : ∀ k, i - run ≤ k → k < i + 1 →
          ∃ c, cells[k]? = some c ∧ c.isFree = true := by
        intro k hlow hhigh
        rcases Nat.lt_succ_iff_lt_or_eq.1 hhigh with hk | rfl
        · exact hfree k hlow hk
        · exact ⟨c, hget, hc⟩
      split at hfound
      · obtain rfl := Option.some.inj hfound
        intro k hlow hhigh
        exact hfree' k hlow (by omega)
      · refine ih hdrop (by omega) (fun k hlow hhigh => hfree' k (by omega) hhigh) hfound
    · exact ih hdrop (by omega) (fun k hlow hhigh => by omega) hfound

/-- An allocation has the requested size and consists of free cells of the store. -/
theorem allocate_eq_ok {s : Store} {size : Nat} {b : Bounds} (h : s.allocate size = .ok b) :
    b.low ≤ b.high ∧ b.size = size ∧ b.high < s.capacity ∧
      ∀ i, b.contains i = true → s.FreeAt i := by
  unfold allocate at h
  split at h
  · cases h
  · next hsize =>
    split at h
    · split at h
      · next low hfound =>
        cases h
        have hfree := firstRun_free (s.cells.toList.drop_zero.symm) (Nat.le_refl 0)
          (fun k _ hk => absurd hk (Nat.not_lt_zero k)) hfound
        have hcell : ∀ i, low ≤ i → i < low + size → s.FreeAt i := by
          intro i hlow hhigh
          obtain ⟨c, hc, hisFree⟩ := hfree i hlow hhigh
          exact ⟨c, by rw [get?, ← Array.getElem?_toList]; exact hc, hisFree⟩
        refine ⟨?_, ?_, ?_, ?_⟩
        · change low ≤ low + size - 1
          omega
        · change low + size - 1 - low + 1 = size
          omega
        · obtain ⟨c, hc, _⟩ := hcell (low + size - 1) (by omega) (by omega)
          exact (Array.getElem?_eq_some_iff.1 hc).1
        · intro i hi
          obtain ⟨hlow, hhigh⟩ := (Bounds.contains_iff _ i).1 hi
          change i ≤ low + size - 1 at hhigh
          exact hcell i hlow (by omega)
      · cases h
    · cases h

/-- An allocation fails for size zero, for lack of a free cell or for lack of a long enough run. -/
theorem allocate_eq_error {s : Store} {size : Nat} {f : Fault} (h : s.allocate size = .error f) :
    size = 0 ∧ f.kind = .invalidAllocationSize ∨ f.kind = .storeFull ∨
      f.kind = .capacityExceeded := by
  unfold allocate at h
  split at h
  · next hsize =>
    cases h
    exact .inl ⟨hsize, rfl⟩
  · split at h
    · split at h
      · cases h
      · cases h
        exact .inr (.inr rfl)
    · cases h
      exact .inr (.inl rfl)

/-- A read fails for an index outside the store or for a free cell. -/
theorem read_eq_error {s : Store} {i : Nat} {f : Fault} (h : s.read i = .error f) :
    s.get? i = none ∧ f.kind = .outOfBounds ∨ s.FreeAt i ∧ f.kind = .uninitializedRead := by
  unfold read at h
  split at h
  · next hnone =>
    cases h
    exact .inl ⟨hnone, rfl⟩
  · next cell hcell =>
    cases cell with
    | num _ | bool _ => cases h
    | uninitialized =>
      cases h
      exact .inr ⟨⟨.uninitialized, hcell, rfl⟩, rfl⟩

/-- A write fails for an index outside the store, for a free cell or for the type of the value. -/
theorem write_eq_error {s : Store} {i : Nat} {v : Value} {f : Fault}
    (h : s.write i v = .error f) :
    s.get? i = none ∧ f.kind = .outOfBounds ∨ s.FreeAt i ∧ f.kind = .uninitializedWrite ∨
      f.kind = .typeMismatch := by
  unfold write at h
  split at h
  · next hnone =>
    cases h
    exact .inl ⟨hnone, rfl⟩
  · next cell hcell =>
    split at h
    · next hfree =>
      cases h
      exact .inr (.inl ⟨⟨cell, hcell, hfree⟩, rfl⟩)
    · dsimp only at h
      split at h
      · split at h <;> cases h
        exact .inr (.inr rfl)
      · cases h
        exact .inr (.inr rfl)

theorem type?_zero (t : CellType) : (Cell.zero t).type? = some t := by
  cases t <;> rfl

theorem Holds.not_free {s : Store} {b : Bounds} {t : CellType} (h : s.Holds b t) {i : Nat}
    (hi : b.contains i = true) : ¬ s.FreeAt i := by
  rintro ⟨c', hc', hisFree⟩
  obtain ⟨c, hc, htype⟩ := h.typed i hi
  obtain rfl : c = c' := Option.some.inj (hc.symm.trans hc')
  rw [Cell.isFree, htype] at hisFree
  cases hisFree

/-- Free cells and cells in use are different cells. -/
theorem Holds.disjoint_of_free {s : Store} {a b : Bounds} {t : CellType} (h : s.Holds a t)
    (hfree : ∀ i, b.contains i = true → s.FreeAt i) : a.Disjoint b :=
  fun i hi => h.not_free hi.1 (hfree i hi.2)

/-- A filled range of the store holds what it was filled with. -/
theorem holds_fill {s : Store} {b : Bounds} (t : CellType) (hle : b.low ≤ b.high)
    (hhigh : b.high < s.capacity) : (s.fill b (.zero t)).Holds b t := by
  refine ⟨hle, by rw [capacity_fill]; exact hhigh, fun i hi => ⟨.zero t, ?_, type?_zero t⟩⟩
  have hlt : i < s.cells.size := Nat.lt_of_le_of_lt ((Bounds.contains_iff b i).1 hi).2 hhigh
  rw [get?_fill, get?, Array.getElem?_eq_getElem hlt, Option.map_some, if_pos hi]

/-- Filling one range leaves a disjoint one alone. -/
theorem Holds.fill {s : Store} {a b : Bounds} {t : CellType} (h : s.Holds a t)
    (hdisjoint : a.Disjoint b) (cell : Cell) : (s.fill b cell).Holds a t := by
  refine ⟨h.nonempty, by rw [capacity_fill]; exact h.inside, fun i hi => ?_⟩
  obtain ⟨c, hc, htype⟩ := h.typed i hi
  refine ⟨c, ?_, htype⟩
  have hnot : ¬ b.contains i = true := fun hb => hdisjoint i ⟨hi, hb⟩
  rw [get?_fill, hc, Option.map_some, if_neg hnot]

theorem get?_set (s : Store) (i j : Nat) (c : Cell) :
    (Store.mk (s.cells.setIfInBounds i c)).get? j =
      if i = j then (s.get? j).map fun _ => c else s.get? j := by
  unfold get?
  rw [Array.getElem?_setIfInBounds]
  split
  · next heq =>
    subst heq
    split
    · next hlt => rw [Array.getElem?_eq_getElem hlt, Option.map_some]
    · next hge => rw [Array.getElem?_eq_none (Nat.le_of_not_lt hge), Option.map_none]
  · rfl

/-- A write sets the one cell and leaves every other cell alone. -/
theorem get?_write {s t : Store} {i : Nat} {v : Value} (h : s.write i v = .ok t) :
    (∃ c, Cell.ofValue? v = some c ∧ t.get? i = some c) ∧ ∀ j, j ≠ i → t.get? j = s.get? j := by
  obtain ⟨old, new, hold, _, hnew, _, rfl⟩ := write_eq_ok h
  refine ⟨⟨new, hnew, ?_⟩, fun j hj => ?_⟩
  · rw [get?_set, if_pos rfl, hold, Option.map_some]
  · rw [get?_set, if_neg (Ne.symm hj)]

/-- A write changes the type of no cell. -/
theorem Holds.write {s t : Store} {b : Bounds} {type : CellType} {i : Nat} {v : Value}
    (h : s.Holds b type) (hwrite : s.write i v = .ok t) : t.Holds b type := by
  refine ⟨h.nonempty, by rw [capacity_write hwrite]; exact h.inside, fun j hj => ?_⟩
  obtain ⟨c, hc, htype⟩ := h.typed j hj
  obtain ⟨old, new, hold, _, _, hsame, rfl⟩ := write_eq_ok hwrite
  rw [get?_set]
  split
  · next heq =>
    subst heq
    obtain rfl : old = c := Option.some.inj (hold.symm.trans hc)
    exact ⟨new, by rw [hc, Option.map_some], hsame.trans htype⟩
  · exact ⟨c, hc, htype⟩

/-- A cell in use can be read. -/
theorem Holds.read {s : Store} {b : Bounds} {t : CellType} (h : s.Holds b t) {i : Nat}
    (hi : b.contains i = true) : ∃ v, s.read i = .ok v := by
  obtain ⟨c, hc, htype⟩ := h.typed i hi
  unfold Store.read
  rw [hc]
  cases c with
  | uninitialized => cases htype
  | num x => exact ⟨.num x, rfl⟩
  | bool b => exact ⟨.bool b, rfl⟩

theorem read_congr {s t : Store} {i : Nat} {v : Value} (hsame : t.get? i = s.get? i)
    (hread : s.read i = .ok v) : t.read i = .ok v := by
  unfold Store.read at hread ⊢
  rw [hsame]
  cases hget : s.get? i with
  | none => rw [hget] at hread; cases hread
  | some c => rw [hget] at hread; exact hread

/-- A write to a cell in use fails only for the type of the value. -/
theorem Holds.write_error {s : Store} {b : Bounds} {t : CellType} (h : s.Holds b t) {i : Nat}
    (hi : b.contains i = true) {v : Value} {f : Fault} (hwrite : s.write i v = .error f) :
    f.kind = .typeMismatch := by
  obtain ⟨hnone, _⟩ | ⟨hfree, _⟩ | hkind := write_eq_error hwrite
  · obtain ⟨c, hc, _⟩ := h.typed i hi
    cases hnone.symm.trans hc
  · exact absurd hfree (h.not_free hi)
  · exact hkind

end Store

end CellLang

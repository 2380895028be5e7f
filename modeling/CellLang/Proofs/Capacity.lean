import CellLang.Proofs.Coupling
import CellLang.Proofs.Ledger
import CellLang.Proofs.Packing
import CellLang.Proofs.Rounding

/-!
# The capacity is only a cut-off

The same program runs with a smaller and with a larger store. As long as the smaller one has room,
the larger one is the same store with free cells behind it: allocations take the same cells, since
those in use are the first ones in both, and no pointer reaches the cells behind. Pointer arithmetic
compares with the capacity before it looks at the bounds of the allocation; that test, made with
rounded numbers, never decides whether a move succeeds, but only how its failure is worded.
-/

namespace CellLang

namespace Store

/-- The store with more free cells behind its own. -/
def widen (s : Store) (extra : Nat) : Store :=
  ⟨s.cells ++ Array.replicate extra .uninitialized⟩

variable {s : Store} {extra : Nat}

@[simp] theorem capacity_widen (s : Store) (extra : Nat) :
    (s.widen extra).capacity = s.capacity + extra := by
  simp [widen, capacity]

theorem widen_empty (capacity extra : Nat) :
    (empty capacity).widen extra = empty (capacity + extra) := by
  simp [widen, empty]

theorem get?_widen (s : Store) (extra i : Nat) : (s.widen extra).get? i =
    if i < s.capacity then s.get? i else if i < s.capacity + extra then some .uninitialized
    else none := by
  unfold widen get? capacity
  rw [Array.getElem?_append]
  split
  · rfl
  · rw [Array.getElem?_replicate]
    split <;> split <;> first | rfl | omega

theorem get?_widen_of_lt {i : Nat} (hi : i < s.capacity) :
    (s.widen extra).get? i = s.get? i := by
  rw [get?_widen, if_pos hi]

theorem read_widen {i : Nat} (hi : i < s.capacity) : (s.widen extra).read i = s.read i := by
  obtain ⟨c, hc⟩ : ∃ c, s.get? i = some c := ⟨_, Array.getElem?_eq_getElem hi⟩
  rw [read, read, get?_widen_of_lt hi, hc]

theorem Packed.widen {k : Nat} (h : s.Packed k) (extra : Nat) : (s.widen extra).Packed k := by
  refine ⟨by rw [capacity_widen]; exact Nat.le_add_right_of_le h.le_capacity, fun i c hc => ?_⟩
  rw [get?_widen] at hc
  split at hc
  · exact h.used_iff i c hc
  · split at hc <;> cases hc
    have hle := h.le_capacity
    have hfree : ¬ i < k := by omega
    simp [hfree, Cell.isFree, Cell.type?]

/-- An allocation that has room takes the same cells in the wider store. -/
theorem Packed.allocate_widen {k size : Nat} {b : Bounds} (h : s.Packed k)
    (hb : s.allocate size = .ok b) : (s.widen extra).allocate size = .ok b := by
  have hsize := size_pos_of_allocate hb
  obtain ⟨hfits, rfl⟩ := (h.allocate_eq_ok_iff hsize).1 hb
  refine ((h.widen extra).allocate_eq_ok_iff hsize).2 ⟨?_, rfl⟩
  rw [h.free_eq] at hfits
  rw [(h.widen extra).free_eq, capacity_widen]
  omega

/-- Cells of the narrower store are set in the wider one, and nothing behind them changes. -/
theorem fill_widen {b : Bounds} (hb : b.high < s.capacity) (c : Cell) :
    (s.widen extra).fill b c = (s.fill b c).widen extra := by
  have hcells : ∀ i, ((s.widen extra).fill b c).get? i = ((s.fill b c).widen extra).get? i := by
    intro i
    rw [get?_fill, get?_widen, get?_widen, get?_fill, capacity_fill]
    by_cases hi : i < s.capacity
    · rw [if_pos hi, if_pos hi]
    · have hout : ¬ b.contains i = true := by
        rw [Bounds.contains_iff]
        omega
      rw [if_neg hi, if_neg hi]
      simp only [hout]
      exact Option.map_id_apply
  exact congrArg Store.mk (Array.ext_getElem? hcells)

theorem write_widen {i : Nat} (hi : i < s.capacity) (v : Value) :
    (s.widen extra).write i v = (s.write i v).map fun t => t.widen extra := by
  obtain ⟨c, hc⟩ : ∃ c, s.get? i = some c := ⟨_, Array.getElem?_eq_getElem hi⟩
  have hset : ∀ cell, (s.widen extra).cells.setIfInBounds i cell =
      ((Store.mk (s.cells.setIfInBounds i cell)).widen extra).cells := fun cell =>
    Array.setIfInBounds_append_left hi
  rw [write, write, get?_widen_of_lt hi, hc]
  dsimp only
  split
  · rfl
  · split
    · split
      · rw [hset]
        rfl
      · rfl
    · rfl

end Store

namespace Pointer

theorem lt_of_checked {p : Pointer} {capacity index : Nat} (hhigh : p.bounds.high < capacity)
    (hindex : p.checked = .ok index) : index < capacity := by
  obtain ⟨hin, rfl⟩ := checked_eq_ok hindex
  exact Nat.lt_of_le_of_lt ((Bounds.contains_iff p.bounds p.index).1 hin).2 hhigh

/-- In a wider store a pointer moves to the same place or fails with the same fault, except that the
bounds of the allocation may take the place of those of the store as the reason. -/
theorem offset_wider {p : Pointer} {capacity wider : Nat} (hle : capacity ≤ wider)
    (hword : capacity ≤ Binary64.maxWord) (hhigh : p.bounds.high < capacity) (op : Operator)
    (x : Binary64) :
    p.offset op x wider = p.offset op x capacity ∨
      ∃ f g, p.offset op x capacity = .error f ∧ p.offset op x wider = .error g ∧
        f.kind = .outOfBounds ∧ g.kind = .outOfBounds := by
  unfold offset
  generalize op.apply (Binary64.ofNat p.index) x = raw
  dsimp only
  cases hwhole : raw.isFractional with
  | true =>
    rw [if_pos rfl, if_pos rfl]
    exact .inl rfl
  | false =>
    rw [if_neg Bool.false_ne_true, if_neg Bool.false_ne_true]
    cases hsign : raw.lt (Binary64.zero false) with
    | true => exact .inr ⟨_, _, rfl, rfl, rfl, rfl⟩
    | false =>
      rw [Bool.false_or, Bool.false_or]
      cases hroom : (Binary64.ofNat capacity).lt (raw.add (Binary64.ofNat 1)) with
      | false =>
        rw [Binary64.ofNat_lt_mono hle hroom, if_neg Bool.false_ne_true, if_neg Bool.false_ne_true]
        exact .inl rfl
      | true =>
        -- the narrower store has no room there, so the place lies outside the allocation
        have hout : ¬ p.bounds.contains raw.toWord = true := by
          intro hin
          have hindex := ((Bounds.contains_iff p.bounds raw.toWord).1 hin).2
          have hlt : raw.toWord < capacity := Nat.lt_of_le_of_lt hindex hhigh
          have hfits := Binary64.room_of_lt hwhole hsign (Nat.lt_of_lt_of_le hlt hword) hlt
          rw [hfits] at hroom
          cases hroom
        rw [if_pos rfl, if_neg hout]
        cases (Binary64.ofNat wider).lt (raw.add (Binary64.ofNat 1)) with
        | true => exact .inr ⟨_, _, rfl, rfl, rfl, rfl⟩
        | false => exact .inr ⟨_, _, rfl, rfl, rfl, rfl⟩

end Pointer

/-! ## Coupled stores -/

/-- The machine with more free cells behind its own. -/
def Machine.widen (m : Machine) (extra : Nat) : Machine := ⟨m.env, m.store.widen extra⟩

namespace Coupling

/-- If the value is a pointer, it keeps to the cells of a store of the capacity. -/
def Within (capacity : Nat) (v : Value) : Prop := ∀ p, v = .pointer p → p.bounds.high < capacity

/-- A machine whose cells in use are the first ones and whose pointers keep to its store, and the
same machine with a wider store. -/
structure Widened (capacity extra : Nat) (m n : Machine) : Prop where
  wider : n = m.widen extra
  capacity_eq : m.store.capacity = capacity
  packed : ∃ k, m.store.Packed k
  pointers : m.env.Each (Within capacity)

/-- Two runs with stores of different capacities, compared until the narrower one has no room. -/
def widening (capacity extra : Nat) : Coupling where
  Pairs := Widened capacity extra
  Points p := p.bounds.high < capacity
  Same e f := f = e ∨ e.kind = .outOfBounds ∧ f.kind = .outOfBounds
  Ends e := e.kind = .storeFull ∨ e.kind = .capacityExceeded

variable {capacity extra : Nat} {m n : Machine}

namespace Widened

theorem fresh (capacity extra : Nat) :
    Widened capacity extra (.fresh capacity) (.fresh (capacity + extra)) where
  wider := congrArg (Machine.mk _) (Store.widen_empty capacity extra).symm
  capacity_eq := Store.capacity_empty capacity
  packed := ⟨0, Store.packed_empty capacity⟩
  pointers := .withPrimitives fun _ _ => nofun

theorem env_eq (h : Widened capacity extra m n) : n.env = m.env := by
  obtain rfl := h.wider
  rfl

theorem withEnv (h : Widened capacity extra m n) {env : Environment}
    (henv : env.Each (Within capacity)) :
    Widened capacity extra { m with env } { n with env } := by
  obtain rfl := h.wider
  exact ⟨rfl, h.capacity_eq, h.packed, henv⟩

end Widened

theorem widening_allocate (type : CellType) (size : Nat) (h : Widened capacity extra m n) :
    (widening capacity extra).Agrees (widening capacity extra).Fits (Eval.allocate type size m)
      (Eval.allocate type size n) := by
  obtain rfl := h.wider
  obtain ⟨k, hpacked⟩ := h.packed
  have hcapacity := h.capacity_eq
  unfold Eval.allocate
  cases hfound : m.store.allocate size with
  | error f =>
    rcases Store.allocate_eq_error hfound with ⟨rfl, _⟩ | hfull
    · cases hfound
      exact .error h (.inl rfl)
    · exact .ended hfull
  | ok b =>
    have hinside : b.high < m.store.capacity := (Store.allocate_eq_ok hfound).2.2.1
    have hsame : (m.widen extra).store.allocate size = .ok b := hpacked.allocate_widen hfound
    rw [hsame]
    refine .ok ⟨?_, ?_, ⟨_, hpacked.fill hfound type⟩, h.pointers⟩ ?_
    · exact congrArg (Machine.mk m.env) (Store.fill_widen hinside _)
    · rw [Store.capacity_fill, hcapacity]
    · rintro p ⟨⟩
      exact hcapacity ▸ hinside

theorem widening_deref {p : Pointer} (target : Expr) (h : Widened capacity extra m n)
    (hp : p.bounds.high < capacity) :
    (widening capacity extra).Agrees (widening capacity extra).Fits
      (Expr.derefValue target (.pointer p) m) (Expr.derefValue target (.pointer p) n) := by
  rw [Discipline.derefValue_pointer, Discipline.derefValue_pointer]
  cases hindex : p.checked with
  | error f => exact .error h (.inl rfl)
  | ok index =>
    have hread : n.store.read index = m.store.read index := by
      rw [h.wider]
      exact Store.read_widen (h.capacity_eq ▸ p.lt_of_checked hp hindex)
    dsimp only
    rw [hread]
    cases hvalue : m.store.read index with
    | error f => exact .error h (.inl rfl)
    | ok v => exact .ok h (fits_of_plain (Store.read_plain m.store hvalue))

theorem widening_move {p : Pointer} (hword : capacity ≤ Binary64.maxWord) (e : Expr)
    (op : Operator) (x : Binary64) (h : Widened capacity extra m n)
    (hp : p.bounds.high < capacity) :
    (widening capacity extra).Agrees (widening capacity extra).Fits
      (Expr.moveValue e op (.pointer p) (.num x) m)
      (Expr.moveValue e op (.pointer p) (.num x) n) := by
  have hwider : n.store.capacity = capacity + extra := by
    rw [h.wider, ← h.capacity_eq]
    exact Store.capacity_widen m.store extra
  change (widening capacity extra).Agrees _
    ((Eval.liftIn e (p.offset op x m.store.capacity) >>= fun q => pure (Value.pointer q)) m)
    ((Eval.liftIn e (p.offset op x n.store.capacity) >>= fun q => pure (Value.pointer q)) n)
  rw [hwider, h.capacity_eq]
  rcases p.offset_wider (Nat.le_add_right capacity extra) hword hp op x with
    heq | ⟨f, g, hf, hg, hkind, hkind'⟩
  · rw [heq]
    cases hmoved : p.offset op x capacity with
    | error f => exact .error h (.inl rfl)
    | ok q =>
      refine .ok h ?_
      rintro _ ⟨⟩
      change q.bounds.high < capacity
      rw [(Pointer.offset_eq_ok hmoved).1]
      exact hp
  · rw [hf, hg]
    exact .error h (.inr ⟨hkind, hkind'⟩)

/-- An environment made alike in both runs is put in place in both. -/
theorem widening_putEnvironment {v : Value} {make : Environment → Except Fault Environment}
    (h : Widened capacity extra m n) (hv : (widening capacity extra).Fits v)
    (hmake : ∀ {env later}, make env = .ok later → env.Rebinds later v) :
    (widening capacity extra).Agrees (fun _ => True) (Eval.putEnvironment (make m.env) m)
      (Eval.putEnvironment (make n.env) n) := by
  rw [h.env_eq]
  cases hmade : make m.env with
  | error f => exact .error h (.inl rfl)
  | ok later => exact .ok (h.withEnv (h.pointers.rebinds (hmake hmade) hv)) trivial

theorem widening_write {p : Pointer} (location : Expr) (v : Value) (h : Widened capacity extra m n)
    (hp : p.bounds.high < capacity) :
    (widening capacity extra).Agrees (fun _ => True) (Stmt.assignTo location (.pointer p) v m)
      (Stmt.assignTo location (.pointer p) v n) := by
  rw [Discipline.assignTo_pointer, Discipline.assignTo_pointer]
  cases hindex : p.checked with
  | error f => exact .error h (.inl rfl)
  | ok index =>
    have hwrite : n.store.write index v = (m.store.write index v).map fun t => t.widen extra := by
      rw [h.wider]
      exact Store.write_widen (h.capacity_eq ▸ p.lt_of_checked hp hindex) v
    dsimp only
    rw [hwrite]
    cases hwritten : m.store.write index v with
    | error f => exact .error h (.inl rfl)
    | ok t =>
      obtain ⟨k, hpacked⟩ := h.packed
      have hcapacity := (Store.capacity_write hwritten).trans h.capacity_eq
      obtain rfl := h.wider
      exact .ok ⟨rfl, hcapacity, ⟨k, hpacked.write hwritten⟩, h.pointers⟩ trivial

theorem widening_lookup (frame : FrameId) (name : String) (h : Widened capacity extra m n) :
    (widening capacity extra).Agrees (widening capacity extra).Fits
      (Eval.lift (m.env.lookup frame name) m) (Eval.lift (n.env.lookup frame name) n) := by
  rw [h.env_eq, Environment.lookup]
  cases hget : m.env.get? frame name with
  | none => exact .error h (.inl rfl)
  | some v => exact .ok h (h.pointers.get? hget)

theorem widening_steady (hword : capacity ≤ Binary64.maxWord) (extra : Nat) :
    (widening capacity extra).Steady where
  same _ := .inl rfl
  size h := congrArg Environment.size h.env_eq
  lookup := widening_lookup
  allocate := widening_allocate
  deref := widening_deref
  move := widening_move hword
  enter c h harg := by
    obtain rfl := h.wider
    exact h.withEnv (h.pointers.extend harg)
  release mark h := by
    obtain rfl := h.wider
    exact h.withEnv (h.pointers.release mark)
  define name h hv := widening_putEnvironment h hv Environment.rebinds_of_define
  assign name h hv := widening_putEnvironment h hv Environment.rebinds_of_assign
  write := widening_write

/-- What the outcomes of the two runs have in common, unless the narrower store had no room. -/
theorem outcomes_of_widening {α : Type} {good : α → Prop} {x y : Except RuntimeError α}
    (h : (widening capacity extra).Agrees good (x, m) (y, n)) :
    (∀ a, x = .ok a → y = .ok a ∧ Widened capacity extra m n) ∧
    ∀ e, x = .error e → e.kind ≠ .storeFull → e.kind ≠ .capacityExceeded →
      ∃ f, y = .error f ∧ f.kind = e.kind ∧ (e.kind ≠ .outOfBounds → f = e) ∧
        Widened capacity extra m n := by
  cases h with
  | ok hpairs _ =>
    refine ⟨?_, by rintro _ ⟨⟩⟩
    rintro a ⟨⟩
    exact ⟨rfl, hpairs⟩
  | error hpairs hsame =>
    refine ⟨by rintro _ ⟨⟩, ?_⟩
    rintro e ⟨⟩ _ _
    rcases hsame with rfl | ⟨hkind, hkind'⟩
    · exact ⟨_, rfl, rfl, fun _ => rfl, hpairs⟩
    · exact ⟨_, rfl, hkind'.trans hkind.symm, fun hother => absurd hkind hother, hpairs⟩
  | ended hends =>
    refine ⟨by rintro _ ⟨⟩, ?_⟩
    rintro e ⟨⟩ hroom hfits
    exact absurd hends (not_or.2 ⟨hroom, hfits⟩)

end Coupling

/-! ## Runs in a wider store -/

/-- The second machine is the first one with free cells behind its store. -/
structure Machine.WidensTo (m n : Machine) (capacity wider : Nat) : Prop where
  env_eq : n.env = m.env
  narrow : m.store.capacity = capacity
  wide : n.store.capacity = wider
  first : ∀ i < capacity, n.store.get? i = m.store.get? i
  behind : ∀ i, capacity ≤ i → i < wider → n.store.get? i = some .uninitialized

theorem Coupling.Widened.widensTo {capacity extra : Nat} {m n : Machine}
    (h : Widened capacity extra m n) : m.WidensTo n capacity (capacity + extra) := by
  obtain ⟨rfl, rfl, _, _⟩ := h
  refine ⟨rfl, rfl, Store.capacity_widen m.store extra, fun i hi => Store.get?_widen_of_lt hi,
    fun i hle hlt => ?_⟩
  exact (Store.get?_widen m.store extra i).trans (by rw [if_neg (Nat.not_lt.2 hle), if_pos hlt])

/-- The capacity of the store is a cut-off and nothing else. A program that finds room has the same
outcome with every larger capacity, in the same environment and the same cells; only an index out of
bounds may be reported in other words. Capacities are machine words. -/
theorem Session.capacity_is_cutoff (p : Program) (limit : Nat) {capacity wider : Nat}
    (hle : capacity ≤ wider) (hword : capacity ≤ Binary64.maxWord) :
    let narrowRun := (ofSettings ⟨capacity, limit⟩).runProgram p
    let wideRun := (ofSettings ⟨wider, limit⟩).runProgram p
    (∀ output, narrowRun.1 = .ok output → wideRun.1 = .ok output ∧
      narrowRun.2.machine.WidensTo wideRun.2.machine capacity wider) ∧
    ∀ e, narrowRun.1 = .error e → e.kind ≠ .storeFull → e.kind ≠ .capacityExceeded →
      ∃ f, wideRun.1 = .error f ∧ f.kind = e.kind ∧ (e.kind ≠ .outOfBounds → f = e) ∧
        narrowRun.2.machine.WidensTo wideRun.2.machine capacity wider := by
  obtain ⟨extra, rfl⟩ := Nat.exists_eq_add_of_le hle
  intro narrowRun wideRun
  have hagrees : (Coupling.widening capacity extra).Agrees (fun _ => True)
      (narrowRun.1, narrowRun.2.machine) (wideRun.1, wideRun.2.machine) :=
    Coupling.agrees_stmts (Coupling.widening_steady hword extra) (.inl ⟨rfl, rfl⟩) p.stmts
      (Coupling.Widened.fresh capacity extra)
  obtain ⟨hok, herror⟩ := Coupling.outcomes_of_widening hagrees
  refine ⟨fun output houtput => ?_, fun e he hroom hfits => ?_⟩
  · obtain ⟨hsame, hpairs⟩ := hok output houtput
    exact ⟨hsame, hpairs.widensTo⟩
  · obtain ⟨f, hf, hkind, hsame, hpairs⟩ := herror e he hroom hfits
    exact ⟨f, hf, hkind, hsame, hpairs.widensTo⟩

theorem Session.capacity_is_cutoff_at_bounds :
    let allocation : Stmt := .define "p" (.new (.keyword .bool) 1)
    let reading : Program := ⟨[allocation, .print (.deref (.var "p"))]⟩
    let leaving : Program :=
      ⟨[allocation, .print (.move .add (.var "p") (.num (Binary64.ofNat 1)))]⟩
    ((ofSettings ⟨1, 1⟩).runProgram reading).1 = .ok ["false"] ∧
      ((ofSettings ⟨3, 1⟩).runProgram reading).1 = .ok ["false"] ∧
      ∃ e f, ((ofSettings ⟨1, 1⟩).runProgram leaving).1 = .error e ∧
        ((ofSettings ⟨3, 1⟩).runProgram leaving).1 = .error f ∧
        e.kind = .outOfBounds ∧ f.kind = .outOfBounds := by
  intro allocation reading leaving
  have hread : ((ofSettings ⟨1, 1⟩).runProgram reading).1 = .ok ["false"] := by
    with_unfolding_all rfl
  have hleave : (Reply.lines ((ofSettings ⟨1, 1⟩).runProgram leaving).1).error?.map
      RuntimeError.kind = some .outOfBounds := by decide +kernel
  have hle : 1 ≤ 3 := by decide
  have hword : 1 ≤ Binary64.maxWord := by decide
  refine ⟨hread, ((capacity_is_cutoff reading 1 hle hword).1 _ hread).1, ?_⟩
  cases hrun : ((ofSettings ⟨1, 1⟩).runProgram leaving).1 with
  | ok output => rw [hrun] at hleave; cases hleave
  | error e =>
    rw [hrun] at hleave
    have hkind : e.kind = .outOfBounds := Option.some.inj hleave
    obtain ⟨f, hf, hsame, _⟩ := (capacity_is_cutoff leaving 1 hle hword).2 e hrun
      (by rw [hkind]; decide) (by rw [hkind]; decide)
    exact ⟨e, f, rfl, hf, hkind, hsame.trans hkind⟩

end CellLang

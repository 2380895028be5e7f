import CellLang.Proofs.Discipline
import CellLang.Proofs.Store
import Mathlib.Logic.Relation

/-!
# Packed stores

The search for free cells copes with any pattern of holes, but no run makes one. The store changes
in two ways only: an allocation is filled at once, and a write keeps its cell in use. From a new
store the cells in use are therefore always the first ones, a search starts where they end, and an
allocation succeeds exactly when enough cells are free.
-/

namespace CellLang

theorem Cell.isFree_iff (c : Cell) : c.isFree = true ↔ c = .uninitialized := by
  cases c <;> simp [Cell.isFree, Cell.type?]

namespace Store

/-- The cells in use are exactly the first `k`. -/
structure Packed (s : Store) (k : Nat) : Prop where
  le_capacity : k ≤ s.capacity
  used_iff : ∀ i c, s.get? i = some c → (c.isFree = false ↔ i < k)

/-! ## The search in a packed store -/

theorem any_isFree_iff (s : Store) : s.cells.any Cell.isFree = true ↔ 0 < s.free := by
  rw [free, Array.countP_pos_iff, Array.any_eq_true']

/-- Cells in use are passed over. -/
theorem firstRun_used {size i : Nat} {used rest : List Cell}
    (hused : ∀ c ∈ used, c.isFree = false) :
    firstRun size i 0 (used ++ rest) = firstRun size (i + used.length) 0 rest := by
  induction used generalizing i with
  | nil => rfl
  | cons c used ih =>
    have hc := hused c List.mem_cons_self
    have hrest := ih (i := i + 1) fun c' hc' => hused c' (List.mem_cons_of_mem _ hc')
    rw [List.cons_append, firstRun, hc, List.length_cons, Nat.add_comm used.length,
      ← Nat.add_assoc]
    exact hrest

/-- Among free cells only, the run that has begun goes on until it is long enough. -/
theorem firstRun_free_cells {size run : Nat} (i n : Nat) (hrun : run < size) :
    firstRun size i run (List.replicate n .uninitialized) =
      if size ≤ run + n then some (i - run) else none := by
  -- the start `i - run` and the length `run + n` of the whole run stay the same at every step
  induction n generalizing i run with
  | zero =>
    have hshort : ¬ size ≤ run + 0 := by omega
    rw [if_neg hshort]
    rfl
  | succ n ih =>
    have hfree : Cell.uninitialized.isFree = true := rfl
    rw [List.replicate_succ, firstRun, if_pos hfree]
    by_cases hdone : run + 1 = size
    · have hlong : size ≤ run + (n + 1) := by omega
      rw [if_pos hdone, if_pos hlong]
    · have hstart : i + 1 - (run + 1) = i - run := by omega
      have hlength : run + 1 + n = run + (n + 1) := by omega
      rw [if_neg hdone, ih (i + 1) (by omega), hstart, hlength]

theorem size_pos_of_allocate {s : Store} {size : Nat} {b : Bounds}
    (hb : s.allocate size = .ok b) : 0 < size := by
  obtain ⟨_, hbounds, _⟩ := allocate_eq_ok hb
  rw [← hbounds, Bounds.size]
  omega

namespace Packed

variable {s : Store} {k : Nat}

theorem isFree_of_mem_take (h : s.Packed k) {c : Cell} (hc : c ∈ s.cells.toList.take k) :
    c.isFree = false := by
  obtain ⟨i, hi⟩ := List.mem_iff_getElem?.1 hc
  rw [List.getElem?_take] at hi
  split at hi
  · next hlt => exact (h.used_iff i c (by rw [get?, ← Array.getElem?_toList, hi])).2 hlt
  · cases hi

theorem drop_eq (h : s.Packed k) :
    s.cells.toList.drop k = List.replicate (s.capacity - k) .uninitialized := by
  refine List.eq_replicate_iff.2 ⟨by simp [capacity], fun c hc => ?_⟩
  obtain ⟨i, hi⟩ := List.mem_iff_getElem?.1 hc
  rw [List.getElem?_drop] at hi
  have hused := h.used_iff (k + i) c (by rw [get?, ← Array.getElem?_toList, hi])
  cases hfree : c.isFree with
  | true => exact (Cell.isFree_iff c).1 hfree
  | false =>
    have hlt := hused.1 hfree
    omega

/-- The cells in use, then the free ones. -/
theorem toList_eq (h : s.Packed k) : s.cells.toList =
    s.cells.toList.take k ++ List.replicate (s.capacity - k) .uninitialized := by
  rw [← h.drop_eq, List.take_append_drop]

theorem free_eq (h : s.Packed k) : s.free = s.capacity - k := by
  have hused : (s.cells.toList.take k).countP Cell.isFree = 0 :=
    List.countP_eq_zero.2 fun c hc => by simp [h.isFree_of_mem_take hc]
  have hfree : (List.replicate (s.capacity - k) Cell.uninitialized).countP Cell.isFree =
      s.capacity - k := by
    exact List.countP_replicate.trans (if_pos rfl)
  rw [free, ← Array.countP_toList, h.toList_eq, List.countP_append, hused, hfree, Nat.zero_add]

/-- The specification of the search in a packed store. -/
theorem allocate_eq (h : s.Packed k) {size : Nat} (hsize : 0 < size) :
    s.allocate size =
      if size ≤ s.free then .ok ⟨k, k + size - 1⟩
      else if 0 < s.free then .error (.capacityExceeded size)
      else .error .storeFull := by
  have hfound : firstRun size 0 0 s.cells.toList = if size ≤ s.free then some k else none := by
    have hlength : (s.cells.toList.take k).length = k := by
      rw [List.length_take]
      exact Nat.min_eq_left h.le_capacity
    rw [h.toList_eq, firstRun_used fun c => h.isFree_of_mem_take, firstRun_free_cells _ _ hsize,
      hlength, Nat.zero_add, Nat.zero_add, Nat.sub_zero, h.free_eq]
  have hnonzero : size ≠ 0 := by omega
  rw [allocate, if_neg hnonzero, hfound]
  by_cases hfits : size ≤ s.free
  · have hany := s.any_isFree_iff.2 (by omega)
    simp only [hany, hfits, if_true]
  · by_cases hroom : 0 < s.free
    · have hany := s.any_isFree_iff.2 hroom
      simp only [hany, hfits, hroom, if_true, if_false]
    · have hnone : ¬ s.cells.any Cell.isFree = true := fun hany => hroom (s.any_isFree_iff.1 hany)
      rw [if_neg hnone, if_neg hfits, if_neg hroom]

theorem allocate_eq_ok_iff (h : s.Packed k) {size : Nat} (hsize : 0 < size) {b : Bounds} :
    s.allocate size = .ok b ↔ size ≤ s.free ∧ b = ⟨k, k + size - 1⟩ := by
  rw [h.allocate_eq hsize]
  split
  · next hfits => exact ⟨fun hb => ⟨hfits, (Except.ok.inj hb).symm⟩, fun hb => by rw [hb.2]⟩
  · next hfits => split <;> exact ⟨nofun, fun hb => absurd hb.1 hfits⟩

theorem storeFull_iff (h : s.Packed k) {size : Nat} (hsize : 0 < size) :
    (∃ f, s.allocate size = .error f ∧ f.kind = .storeFull) ↔ s.free = 0 := by
  rw [h.allocate_eq hsize]
  split
  · exact ⟨by rintro ⟨_, ⟨⟩, _⟩, fun hnone => by omega⟩
  · split
    · exact ⟨by rintro ⟨_, ⟨⟩, ⟨⟩⟩, fun hnone => by omega⟩
    · exact ⟨fun _ => by omega, fun _ => ⟨_, rfl, rfl⟩⟩

theorem capacityExceeded_iff (h : s.Packed k) {size : Nat} (hsize : 0 < size) :
    (∃ f, s.allocate size = .error f ∧ f.kind = .capacityExceeded) ↔
      0 < s.free ∧ s.free < size := by
  rw [h.allocate_eq hsize]
  split
  · exact ⟨by rintro ⟨_, ⟨⟩, _⟩, fun hfew => by omega⟩
  · split
    · exact ⟨fun _ => by omega, fun _ => ⟨_, rfl, rfl⟩⟩
    · exact ⟨by rintro ⟨_, ⟨⟩, ⟨⟩⟩, fun hfew => by omega⟩

/-- The cells of an allocation are put to use right after the others. -/
theorem fill (h : s.Packed k) {size : Nat} {b : Bounds} (hb : s.allocate size = .ok b)
    (type : CellType) : (s.fill b (.zero type)).Packed (k + size) := by
  have hsize := size_pos_of_allocate hb
  rw [h.allocate_eq hsize] at hb
  split at hb
  · next hfits =>
    cases hb
    have hfree := h.free_eq
    have hle := h.le_capacity
    refine ⟨by rw [capacity_fill]; omega, fun i c hc => ?_⟩
    rw [get?_fill] at hc
    obtain ⟨old, hold, rfl⟩ := Option.map_eq_some_iff.1 hc
    have hused := h.used_iff i old hold
    by_cases hin : (Bounds.mk k (k + size - 1)).contains i = true
    · obtain ⟨hlow, hhigh⟩ := (Bounds.contains_iff _ i).1 hin
      change i ≤ k + size - 1 at hhigh
      have hzero : (Cell.zero type).isFree = false := by cases type <;> rfl
      rw [if_pos hin, hzero]
      simp only [true_iff]
      omega
    · have hout : ¬ (k ≤ i ∧ i ≤ k + size - 1) := fun hi => hin ((Bounds.contains_iff _ i).2 hi)
      rw [if_neg hin, hused]
      omega
  · split at hb <;> cases hb

/-- A write frees no cell and takes none. -/
theorem write (h : s.Packed k) {t : Store} {index : Nat} {v : Value}
    (hwrite : s.write index v = .ok t) : t.Packed k := by
  refine ⟨by rw [capacity_write hwrite]; exact h.le_capacity, fun i c hc => ?_⟩
  obtain ⟨old, new, hold, _, _, htype, rfl⟩ := write_eq_ok hwrite
  rw [get?_set] at hc
  split at hc
  · next heq =>
    -- the cell keeps its type, so it stays in use
    subst heq
    rw [hold] at hc
    cases hc
    have hsame : new.isFree = old.isFree := congrArg Option.isNone htype
    rw [hsame]
    exact h.used_iff index old hold
  · exact h.used_iff i c hc

end Packed

theorem packed_empty (capacity : Nat) : (empty capacity).Packed 0 := by
  refine ⟨Nat.zero_le _, fun i c hc => ?_⟩
  rw [get?, empty, Array.getElem?_replicate] at hc
  split at hc
  · cases hc
    simp [Cell.isFree, Cell.type?]
  · cases hc

/-! ## How the store changes -/

/-- Cells are allocated and set to their first content. -/
inductive Allocates (s : Store) : Store → Prop
  | fill {size : Nat} {b : Bounds} (type : CellType) : s.allocate size = .ok b →
      Allocates s (s.fill b (.zero type))

/-- The ways in which the store changes while requests are served. -/
inductive Step (s : Store) : Store → Prop
  | allocate {t : Store} : s.Allocates t → Step s t
  | write {t : Store} {index : Nat} {v : Value} : s.write index v = .ok t → Step s t

/-- Allocations and writes, one after another. -/
def Evolves : Store → Store → Prop := Relation.ReflTransGen Step

namespace Step

theorem capacity_eq {s t : Store} (h : s.Step t) : t.capacity = s.capacity := by
  cases h with
  | allocate h => cases h with
    | fill type _ => exact capacity_fill s _ _
  | write h => exact capacity_write h

theorem packed {s t : Store} {k : Nat} (h : s.Step t) (hpacked : s.Packed k) :
    ∃ k', t.Packed k' := by
  cases h with
  | allocate h => cases h with
    | fill type hb => exact ⟨_, hpacked.fill hb type⟩
  | write h => exact ⟨k, hpacked.write h⟩

end Step

namespace Evolves

theorem capacity_eq {s t : Store} (h : s.Evolves t) : t.capacity = s.capacity := by
  induction h with
  | refl => rfl
  | tail _ hstep ih => exact hstep.capacity_eq.trans ih

theorem packed {s t : Store} {k : Nat} (h : s.Evolves t) (hpacked : s.Packed k) :
    ∃ k', t.Packed k' := by
  induction h with
  | refl => exact ⟨k, hpacked⟩
  | tail _ hstep ih =>
    obtain ⟨k', hpacked'⟩ := ih
    exact hstep.packed hpacked'

end Evolves

end Store

namespace Discipline

/-- The discipline of evaluation as far as the store is concerned: it allocates, and does nothing
else to the store. -/
def growth : Discipline where
  Code _ := True
  Sound _ := True
  Sees _ _ := True
  Fits _ _ := True
  Allows _ := True
  Later h i := Relation.ReflTransGen Store.Allocates h.now.store i.now.store

theorem growth_lawful : growth.Lawful where
  refl _ := .refl
  trans := .trans
  note _ _ _ _ _ := ⟨trivial, .refl⟩
  allocate _ cell _ _ _ hb := ⟨trivial, .single (.fill cell hb), trivial⟩
  enter _ _ _ := ⟨trivial, trivial, trivial⟩
  later_enter := .refl
  leave _ hlater _ := ⟨trivial, hlater⟩

theorem growth_durable : growth.Durable where
  toLawful := growth_lawful
  fresh _ := trivial
  define _ _ _ := trivial
  assign _ _ _ := trivial
  write _ _ _ _ := trivial

end Discipline

/-- Evaluation changes the store by allocations only. -/
theorem Expr.store_eval (limit : Nat) (e : Expr) (m : Machine) :
    Relation.ReflTransGen Store.Allocates m.store (e.eval limit FrameId.global m).2.store := by
  have hnone : ∀ v ∈ ([] : List Value), Discipline.growth.Fits ⟨[], m⟩ v := fun _ _ => trivial
  have hupholds := Discipline.upholds_trace Discipline.growth_durable (e := e) trivial limit
    (h := ⟨[], m⟩) trivial hnone
  have hadvance := (History.advance_eq (e.trace limit []) ⟨[], m⟩).2
  rw [Expr.forget_trace] at hadvance
  rw [← hadvance]
  exact hupholds.later

/-- Whatever the computation does to the store, it does by allocations and writes. -/
def Eval.Evolving {α : Type} (x : Eval α) : Prop :=
  ∀ m : Machine, m.store.Evolves (x m).2.store

namespace Eval.Evolving

variable {α β : Type}

theorem of_kept {x : Eval α} (h : ∀ m, (x m).2.store = m.store) : x.Evolving := by
  intro m
  rw [h m]
  exact .refl

theorem bind {x : Eval α} {f : α → Eval β} (hx : x.Evolving) (hf : ∀ a, (f a).Evolving) :
    (x >>= f).Evolving := by
  intro m
  have hfirst := hx m
  rw [Eval.bind_apply]
  rcases hrun : x m with ⟨e | a, m'⟩
  · rw [hrun] at hfirst
    exact hfirst
  · rw [hrun] at hfirst
    exact Relation.ReflTransGen.trans hfirst (hf a m')

theorem eval (limit : Nat) (e : Expr) : (e.eval limit FrameId.global).Evolving :=
  fun m => Relation.ReflTransGen.mono (fun _ _ => Store.Step.allocate) _ _ (e.store_eval limit m)

theorem putEnvironment (made : Except Fault Environment) : (putEnvironment made).Evolving := by
  refine of_kept fun m => ?_
  cases made <;> rfl

theorem assignTo (location : Expr) (target value : Value) :
    (Stmt.assignTo location target value).Evolving := by
  intro m
  by_cases hpointer : ∃ p, target = .pointer p
  · obtain ⟨p, rfl⟩ := hpointer
    rw [Discipline.assignTo_pointer]
    cases p.checked with
    | error f => exact .refl
    | ok index =>
      dsimp only
      cases hwrite : m.store.write index value with
      | error f => exact .refl
      | ok t => exact .single (.write hwrite)
  · rw [Discipline.assignTo_other fun p hp => hpointer ⟨p, hp⟩]
    cases location with
    | var name => exact putEnvironment _ m
    | num _ | bool _ | keyword _ | lambda _ _ | app _ _ | cond _ _ _ | new _ _ | deref _
    | move _ _ _ => exact .refl

theorem exec (limit : Nat) (s : Stmt) : (s.exec limit).Evolving := by
  cases s with
  | define name expr =>
    refine (eval limit expr).bind fun value => ?_
    refine (of_kept fun _ => rfl).bind fun env => ?_
    exact (putEnvironment _).bind fun _ => of_kept fun _ => rfl
  | assign location expr =>
    refine (eval limit location).bind fun target => (eval limit expr).bind fun value => ?_
    exact (assignTo location target value).bind fun _ => of_kept fun _ => rfl
  | print expr => exact (eval limit expr).bind fun value => of_kept fun _ => rfl

theorem execAll (limit : Nat) (ss : List Stmt) : (Stmt.execAll limit ss).Evolving := by
  induction ss with
  | nil => exact of_kept fun _ => rfl
  | cons s ss ih =>
    exact (exec limit s).bind fun lines => ih.bind fun more => of_kept fun _ => rfl

end Eval.Evolving

/-! ## No run makes a hole -/

namespace Session

/-- A request changes the store by allocations and writes, or replaces it by a new one. -/
theorem store_serve (s : Session) (r : Request) :
    s.machine.store.Evolves (s.serve r).2.machine.store ∨
      (s.serve r).2.machine.store = .empty s.machine.store.capacity := by
  cases r with
  | program p => exact .inl (Eval.Evolving.execAll s.limit p.stmts s.machine)
  | stmt st => exact .inl (Eval.Evolving.exec s.limit st s.machine)
  | expr e => exact .inl (Eval.Evolving.eval s.limit e s.machine)
  | reset => exact .inr rfl

theorem capacity_serve (s : Session) (r : Request) :
    (s.serve r).2.machine.store.capacity = s.machine.store.capacity := by
  obtain hevolves | hfresh := s.store_serve r
  · exact hevolves.capacity_eq
  · rw [hfresh, Store.capacity_empty]

theorem packed_serve {s : Session} {k : Nat} (h : s.machine.store.Packed k) (r : Request) :
    ∃ k', (s.serve r).2.machine.store.Packed k' := by
  obtain hevolves | hfresh := s.store_serve r
  · exact hevolves.packed h
  · exact ⟨0, hfresh ▸ Store.packed_empty _⟩

theorem packed_after {s : Session} {k : Nat} (h : s.machine.store.Packed k) (rs : List Request) :
    (s.after rs).machine.store.capacity = s.machine.store.capacity ∧
      ∃ k', (s.after rs).machine.store.Packed k' := by
  induction rs generalizing s k with
  | nil => exact ⟨rfl, k, h⟩
  | cons r rs ih =>
    obtain ⟨k', hpacked⟩ := packed_serve h r
    obtain ⟨hcapacity, hafter⟩ := ih hpacked
    exact ⟨hcapacity.trans (s.capacity_serve r), hafter⟩

/-- No run leaves a hole: the cells in use are the first ones. An allocation of one cell or more
therefore succeeds exactly when as many cells are free, right after those in use; without free cells
the store is full, and with too few of them its capacity is exceeded. -/
theorem store_never_fragments (settings : Settings) (rs : List Request) :
    let store := ((ofSettings settings).after rs).machine.store
    store.capacity = settings.capacity ∧
      ∃ k ≤ settings.capacity, store.Packed k ∧ ∀ n, 1 ≤ n →
        ((∃ b, store.allocate n = .ok b) ↔ n ≤ store.free) ∧
        (∀ b, store.allocate n = .ok b → b = ⟨k, k + n - 1⟩) ∧
        ((∃ f, store.allocate n = .error f ∧ f.kind = .storeFull) ↔ store.free = 0) ∧
        ((∃ f, store.allocate n = .error f ∧ f.kind = .capacityExceeded) ↔
          0 < store.free ∧ store.free < n) := by
  intro store
  obtain ⟨hcapacity, k, hpacked⟩ := packed_after (s := ofSettings settings)
    (Store.packed_empty settings.capacity) rs
  replace hcapacity : store.capacity = settings.capacity :=
    hcapacity.trans (Store.capacity_empty settings.capacity)
  refine ⟨hcapacity, k, hcapacity ▸ hpacked.le_capacity, hpacked, fun n hn => ?_⟩
  have hok : ∀ b, store.allocate n = .ok b ↔ n ≤ store.free ∧ b = ⟨k, k + n - 1⟩ :=
    fun b => hpacked.allocate_eq_ok_iff hn
  refine ⟨⟨fun ⟨b, hb⟩ => ((hok b).1 hb).1, fun hfits => ⟨_, (hok _).2 ⟨hfits, rfl⟩⟩⟩,
    fun b hb => ((hok b).1 hb).2, hpacked.storeFull_iff hn, hpacked.capacityExceeded_iff hn⟩

theorem store_never_fragments_after_failure :
    let store := ((ofSettings ⟨4, 1⟩).after [.stmt (.define "p" (.new (.keyword .bool) 2)),
      .program ⟨[.print (.new (.keyword .num) 1), .print (.new (.keyword .num) 2)]⟩]).machine.store
    store.free = 1 ∧ (∃ b, store.allocate 1 = .ok b) ∧
      ∃ f, store.allocate 2 = .error f ∧ f.kind = .capacityExceeded := by
  have hfree : ((ofSettings ⟨4, 1⟩).after [.stmt (.define "p" (.new (.keyword .bool) 2)),
      .program ⟨[.print (.new (.keyword .num) 1),
        .print (.new (.keyword .num) 2)]⟩]).machine.store.free = 1 := by with_unfolding_all rfl
  obtain ⟨_, k, _, _, hallocate⟩ := store_never_fragments ⟨4, 1⟩
    [.stmt (.define "p" (.new (.keyword .bool) 2)),
      .program ⟨[.print (.new (.keyword .num) 1), .print (.new (.keyword .num) 2)]⟩]
  have hone := (hallocate 1 (by decide)).1.2 (Nat.le_of_eq hfree.symm)
  have htwo := (hallocate 2 (by decide)).2.2.2.2 (by rw [hfree]; decide)
  exact ⟨hfree, hone, htwo⟩

end Session

end CellLang

import CellLang.Proofs.Frames
import CellLang.Proofs.Store

/-!
# The ledger of allocations

The past of a run tells which cells were handed out, and to which evaluation of `new`. Every pointer
that is bound somewhere or was returned by an evaluation belongs to one entry of this ledger; the
entries are disjoint, and their cells stay in use with the type they were given. Reading and writing
through a pointer can therefore fail neither for its index nor for a free cell.
-/

namespace CellLang

/-- The allocations made by the evaluations of a past. -/
def Moment.ledger (past : List Moment) : List Allocation := past.filterMap Moment.allocation?

namespace Pointer

/-- The pointer lies in an allocation of the ledger. -/
structure IssuedBy (p : Pointer) (past : List Moment) : Prop where
  inBounds : p.inBounds = true
  allocated : ∃ a ∈ Moment.ledger past, a.bounds = p.bounds

/-- The pointer lies in its bounds, and these are cells of the store in use with one type. -/
structure Valid (p : Pointer) (s : Store) : Prop where
  low_le : p.bounds.low ≤ p.index
  le_high : p.index ≤ p.bounds.high
  inside : p.bounds.high < s.capacity
  typed : ∃ t, ∀ i, p.bounds.low ≤ i → i ≤ p.bounds.high →
    ∃ c, s.get? i = some c ∧ c.type? = some t

theorem IssuedBy.mono {p : Pointer} {past later : List Moment} (h : p.IssuedBy past)
    (hpre : past <+: later) : p.IssuedBy later := by
  obtain ⟨a, ha, hbounds⟩ := h.allocated
  exact ⟨h.inBounds, a, (hpre.sublist.filterMap _).mem ha, hbounds⟩

theorem checked_eq_ok {p : Pointer} {index : Nat} (h : p.checked = .ok index) :
    p.inBounds = true ∧ index = p.index := by
  unfold checked at h
  split at h
  · next hin => exact ⟨hin, (Except.ok.inj h).symm⟩
  · cases h

theorem checked_eq_error {p : Pointer} {f : Fault} (h : p.checked = .error f) :
    p.inBounds = false ∧ f.kind = .outOfBounds := by
  unfold checked at h
  split at h
  · cases h
  · next hout =>
    cases h
    exact ⟨by simpa using hout, rfl⟩

theorem checked_of_inBounds {p : Pointer} (h : p.inBounds = true) : p.checked = .ok p.index :=
  if_pos h

/-- Pointer arithmetic stays in the allocation. -/
theorem offset_eq_ok {p q : Pointer} {op : Operator} {x : Binary64} {capacity : Nat}
    (h : p.offset op x capacity = .ok q) : q.bounds = p.bounds ∧ q.inBounds = true := by
  unfold offset at h
  dsimp only at h
  split at h
  · cases h
  · split at h
    · cases h
    · split at h
      · next hcontains =>
        cases h
        exact ⟨rfl, hcontains⟩
      · cases h

theorem offset_eq_error {p : Pointer} {op : Operator} {x : Binary64} {capacity : Nat} {f : Fault}
    (h : p.offset op x capacity = .error f) :
    f.kind = .typeMismatch ∨ f.kind = .outOfBounds := by
  unfold offset at h
  dsimp only at h
  split at h
  · cases h
    exact .inl rfl
  · split at h
    · cases h
      exact .inr rfl
    · split at h
      · cases h
      · cases h
        exact .inr rfl

end Pointer

/-- If the value is a pointer, it lies in an allocation of the ledger. -/
def Value.IssuedBy (past : List Moment) (v : Value) : Prop := ∀ p, v = .pointer p → p.IssuedBy past

namespace RuntimeError

/-- Errors that can come up while every pointer lies in cells in use. Only pointer arithmetic leaves
the bounds. -/
structure Possible (e : RuntimeError) : Prop where
  read : e.kind ≠ .uninitializedRead
  write : e.kind ≠ .uninitializedWrite
  operator : e.kind ≠ .unknownOperator
  bounds : e.kind = .outOfBounds → ∃ op pointer offset, e.within = some (.move op pointer offset)

theorem Possible.of_kind {e : RuntimeError} {k : FaultKind} (hkind : e.kind = k)
    (hread : k ≠ .uninitializedRead) (hwrite : k ≠ .uninitializedWrite)
    (hoperator : k ≠ .unknownOperator) (hbounds : k ≠ .outOfBounds) : e.Possible :=
  ⟨hkind ▸ hread, hkind ▸ hwrite, hkind ▸ hoperator, fun h => absurd (hkind.symm.trans h) hbounds⟩

theorem Possible.of_plain {f : Fault} (h : f.isPlain = true) : (RuntimeError.of f).Possible := by
  cases f with
  | outOfBounds _ | uninitializedRead _ | uninitializedWrite _ | capacityExceeded _ | storeFull
  | unknownOperator _ | invalidAllocationSize _ => cases h
  | _ => exact ⟨nofun, nofun, nofun, nofun⟩

end RuntimeError

namespace History

/-- Bound in some frame, or returned by some evaluation since the last reset. -/
def Live (h : History) (p : Pointer) : Prop :=
  h.now.env.Binds (.pointer p) ∨ ∃ x ∈ h.past, x.outcome = .ok (.pointer p)

/-- All pointers and all cells in use are accounted for by the ledger. -/
structure Accounted (h : History) : Prop where
  bound : h.now.env.Each (Value.IssuedBy h.past)
  returned : ∀ {earlier x p}, earlier ++ [x] <+: h.past → x.outcome = .ok (.pointer p) →
    p.IssuedBy (earlier ++ [x])
  occupied : ∀ a ∈ Moment.ledger h.past,
    a.bounds.size = a.size ∧ ∃ t, h.now.store.Holds a.bounds t
  apart : (Moment.ledger h.past).Pairwise fun a b => a.bounds.Disjoint b.bounds

namespace Accounted

variable {h : History}

theorem issued (hacc : h.Accounted) {p : Pointer} (hlive : h.Live p) : p.IssuedBy h.past := by
  rcases hlive with hbound | ⟨x, hx, houtcome⟩
  · exact hacc.bound _ hbound p rfl
  · obtain ⟨earlier, later, heq⟩ := List.append_of_mem hx
    have hpre : earlier ++ [x] <+: h.past := ⟨later, by rw [heq, List.append_assoc]; rfl⟩
    exact (hacc.returned hpre houtcome).mono hpre

theorem holds (hacc : h.Accounted) {p : Pointer} (hp : p.IssuedBy h.past) :
    ∃ t, h.now.store.Holds p.bounds t := by
  obtain ⟨a, ha, hbounds⟩ := hp.allocated
  rw [← hbounds]
  exact (hacc.occupied a ha).2

theorem valid (hacc : h.Accounted) {p : Pointer} (hp : p.IssuedBy h.past) :
    p.Valid h.now.store := by
  obtain ⟨t, hholds⟩ := hacc.holds hp
  obtain ⟨hlow, hhigh⟩ := (Bounds.contains_iff p.bounds p.index).1 hp.inBounds
  exact ⟨hlow, hhigh, hholds.inside,
    t, fun i hi hi' => hholds.typed i ((Bounds.contains_iff p.bounds i).2 ⟨hi, hi'⟩)⟩

/-- Entries with a common index are the same entry. -/
theorem bounds_eq_or_disjoint (hacc : h.Accounted) {a b : Allocation}
    (ha : a ∈ Moment.ledger h.past) (hb : b ∈ Moment.ledger h.past) :
    a.bounds = b.bounds ∨ a.bounds.Disjoint b.bounds := by
  obtain ⟨i, hi, rfl⟩ := List.mem_iff_getElem.1 ha
  obtain ⟨j, hj, rfl⟩ := List.mem_iff_getElem.1 hb
  have hapart := List.pairwise_iff_getElem.1 hacc.apart
  rcases Nat.lt_trichotomy i j with hlt | rfl | hlt
  · exact .inr (hapart i j hi hj hlt)
  · exact .inl rfl
  · exact .inr (hapart j i hj hi hlt).symm

/-- One more evaluation adds its moment, and perhaps an entry to the ledger. -/
theorem record (hacc : h.Accounted) {x : Moment} {s : Store}
    (hx : ∀ p, x.outcome = .ok (.pointer p) → p.IssuedBy (h.past ++ [x]))
    (hoccupied : ∀ a ∈ Moment.ledger (h.past ++ [x]),
      a.bounds.size = a.size ∧ ∃ t, s.Holds a.bounds t)
    (hapart : (Moment.ledger (h.past ++ [x])).Pairwise fun a b => a.bounds.Disjoint b.bounds) :
    ((h.withStore s).note x).Accounted where
  bound v hv p hp := (hacc.bound v hv p hp).mono (List.prefix_append _ _)
  returned hpre houtcome := by
    rcases List.prefix_concat_iff.1 hpre with heq | hpre
    · obtain ⟨rfl, hsingle⟩ := List.append_inj' heq rfl
      cases hsingle
      exact hx _ houtcome
    · exact hacc.returned hpre houtcome
  occupied := hoccupied
  apart := hapart

end Accounted

end History

namespace Discipline

/-- The discipline of pointers. -/
def cells : Discipline where
  Code _ := True
  Sound h := h.Accounted
  Sees _ _ := True
  Fits h v := v.IssuedBy h.past
  Allows e := e.Possible
  Later h i := h.past <+: i.past

theorem cells_note {h : History} {x : Moment} (hacc : h.Accounted)
    (hx : ∀ v, x.outcome = .ok v → cells.Fits h v) (hnone : x.allocation? = none) :
    (h.note x).Accounted := by
  have hledger : Moment.ledger (h.past ++ [x]) = Moment.ledger h.past := by
    simp [Moment.ledger, hnone]
  refine hacc.record (s := h.now.store) (fun p hp => ?_) ?_ ?_
  · exact (hx _ hp p rfl).mono (List.prefix_append _ _)
  · rw [hledger]; exact hacc.occupied
  · rw [hledger]; exact hacc.apart

/-- The new entry takes cells that were free, so none of an older entry. -/
theorem cells_allocate {h : History} {x : Moment} {size : Nat} {b : Bounds} (cell : CellType)
    (hacc : h.Accounted) (hb : h.now.store.allocate size = .ok b)
    (hx : x.allocation? = some ⟨size, b⟩) (houtcome : x.outcome = .ok (.pointer (.atStart b))) :
    ((h.withStore (h.now.store.fill b (.zero cell))).note x).Accounted ∧
      (Pointer.atStart b).IssuedBy (h.past ++ [x]) := by
  obtain ⟨hle, hsize, hhigh, hfree⟩ := Store.allocate_eq_ok hb
  have hledger : Moment.ledger (h.past ++ [x]) = Moment.ledger h.past ++ [⟨size, b⟩] := by
    simp [Moment.ledger, hx]
  have hissued : (Pointer.atStart b).IssuedBy (h.past ++ [x]) := by
    refine ⟨(Bounds.contains_iff b b.low).2 ⟨Nat.le_refl _, hle⟩, ⟨size, b⟩, ?_, rfl⟩
    rw [hledger]
    exact List.mem_append_right _ List.mem_cons_self
  have hold : ∀ a ∈ Moment.ledger h.past, a.bounds.Disjoint b := by
    intro a ha
    obtain ⟨_, t, hholds⟩ := hacc.occupied a ha
    exact hholds.disjoint_of_free hfree
  refine ⟨hacc.record (fun p hp => ?_) (fun a ha => ?_) ?_, hissued⟩
  · cases houtcome.symm.trans hp
    exact hissued
  · rw [hledger] at ha
    rcases List.mem_append.1 ha with ha | ha
    · obtain ⟨hentry, t, hholds⟩ := hacc.occupied a ha
      exact ⟨hentry, t, hholds.fill (hold a ha) _⟩
    · cases List.mem_singleton.1 ha
      exact ⟨hsize, cell, Store.holds_fill cell hle hhigh⟩
  · rw [hledger, List.pairwise_append]
    refine ⟨hacc.apart, List.pairwise_singleton _ _, fun a ha a' ha' => ?_⟩
    cases List.mem_singleton.1 ha'
    exact hold a ha

theorem cells_lawful : cells.Lawful where
  refl _ := List.prefix_rfl
  trans := List.IsPrefix.trans
  fits_later hlater hfits p hp := (hfits p hp).mono hlater
  fits_plain hplain p hp := by rw [hp] at hplain; cases hplain
  fits_lookup hsound _ hget := hsound.bound.get? hget
  fits_lambda _ _ p hp := by cases hp
  fits_move {h p q op x} hfits hmove r hr := by
    cases hr
    obtain ⟨hbounds, hin⟩ := Pointer.offset_eq_ok hmove
    obtain ⟨a, ha, hentry⟩ := (hfits p rfl).allocated
    exact ⟨hin, a, ha, hentry.trans hbounds.symm⟩
  note _ hsound _ hvalue hnone := ⟨cells_note hsound hvalue hnone, List.prefix_append _ _⟩
  allocate {h i frame held size b} type cell _ hsound _ hb := by
    let m := { i.now with store := i.now.store.fill b (.zero cell) }
    let x : Moment := ⟨frame, .new type size, held, h.now, .ok (.pointer (.atStart b)), m⟩
    obtain ⟨hacc, hissued⟩ := cells_allocate (x := x) cell hsound hb rfl rfl
    refine ⟨hacc, List.prefix_append _ _, fun p hp => ?_⟩
    cases hp
    exact hissued
  enter hsound _ harg :=
    ⟨⟨hsound.bound.extend harg, hsound.returned, hsound.occupied, hsound.apart⟩, trivial, trivial⟩
  later_enter := List.prefix_rfl
  leave _ hlater hsound :=
    ⟨⟨hsound.bound.release _, hsound.returned, hsound.occupied, hsound.apart⟩, hlater⟩
  fits_leave _ hfits := hfits
  allows_plain := RuntimeError.Possible.of_plain
  allows_allocate _ hf := by
    obtain ⟨_, hkind⟩ | hkind | hkind := Store.allocate_eq_error hf
    · exact RuntimeError.Possible.of_kind hkind nofun nofun nofun nofun
    · exact RuntimeError.Possible.of_kind hkind nofun nofun nofun nofun
    · exact RuntimeError.Possible.of_kind hkind nofun nofun nofun nofun
  allows_access _ hfits hchecked := by
    rw [Pointer.checked_of_inBounds (hfits _ rfl).inBounds] at hchecked
    cases hchecked
  allows_read hsound hfits hchecked hread := by
    obtain ⟨hin, rfl⟩ := Pointer.checked_eq_ok hchecked
    obtain ⟨t, hholds⟩ := hsound.holds (hfits _ rfl)
    obtain ⟨v, hv⟩ := hholds.read hin
    rw [hv] at hread
    cases hread
  allows_move hmove := by
    rcases Pointer.offset_eq_error hmove with hkind | hkind
    · exact RuntimeError.Possible.of_kind hkind nofun nofun nofun nofun
    · refine ⟨fun h => ?_, fun h => ?_, fun h => ?_, fun _ => ⟨_, _, _, rfl⟩⟩
      · cases hkind.symm.trans h
      · cases hkind.symm.trans h
      · cases hkind.symm.trans h

theorem cells_durable : cells.Durable where
  toLawful := cells_lawful
  fresh capacity := by
    refine ⟨.withPrimitives nofun, fun {earlier x p} hpre => ?_, fun a ha => ?_, .nil⟩
    · simp at hpre
    · cases ha
  define hsound hv hdefine :=
    ⟨hsound.bound.rebinds (Environment.rebinds_of_define hdefine) hv, hsound.returned,
      hsound.occupied, hsound.apart⟩
  assign hsound hv hassign :=
    ⟨hsound.bound.rebinds (Environment.rebinds_of_assign hassign) hv, hsound.returned,
      hsound.occupied, hsound.apart⟩
  write hsound _ _ hwrite := by
    refine ⟨hsound.bound, hsound.returned, fun a ha => ?_, hsound.apart⟩
    obtain ⟨hentry, t, hholds⟩ := hsound.occupied a ha
    exact ⟨hentry, t, hholds.write hwrite⟩
  allows_locate _ hfits hchecked := by
    rw [Pointer.checked_of_inBounds (hfits _ rfl).inBounds] at hchecked
    cases hchecked
  allows_write hsound hfits hchecked hwrite := by
    obtain ⟨hin, rfl⟩ := Pointer.checked_eq_ok hchecked
    obtain ⟨t, hholds⟩ := hsound.holds (hfits _ rfl)
    exact RuntimeError.Possible.of_kind (hholds.write_error hin hwrite) nofun nofun nofun nofun

theorem cells_ofRun (settings : Settings) (rs : List Request) :
    (History.ofRun settings rs).Accounted :=
  sound_after cells_durable settings.maxDepth rs (fun _ _ _ _ => trivial)
    (cells_durable.fresh settings.capacity)

end Discipline

/-! ## Allocations never alias -/

namespace History

/-- The allocation of an issued pointer has exactly one entry, and that has the size of the
bounds. -/
theorem Accounted.entry_eq {h : History} (hacc : h.Accounted) {p : Pointer}
    (hp : p.IssuedBy h.past) :
    (Moment.ledger h.past).filter (fun a => a.bounds = p.bounds) =
      [⟨p.bounds.high - p.bounds.low + 1, p.bounds⟩] := by
  obtain ⟨a, ha, hbounds⟩ := hp.allocated
  obtain ⟨hsize, t, hholds⟩ := hacc.occupied a ha
  obtain ⟨before, after, heq⟩ := List.append_of_mem ha
  have hapart := hacc.apart
  rw [heq, List.pairwise_append] at hapart
  obtain ⟨_, hafter, hbefore⟩ := hapart
  have hnone : ∀ l : List Allocation, (∀ b ∈ l, a.bounds.Disjoint b.bounds) →
      l.filter (fun b => b.bounds = p.bounds) = [] := by
    intro l hl
    rw [List.filter_eq_nil_iff]
    intro b hb
    simpa [← hbounds] using Ne.symm ((hl b hb).ne hholds.nonempty)
  have hentry : a = ⟨p.bounds.high - p.bounds.low + 1, p.bounds⟩ := by
    rw [← hbounds]
    exact congrArg (fun n => Allocation.mk n a.bounds) hsize.symm
  rw [heq, List.filter_append, List.filter_cons_of_pos (by simpa using hbounds),
    hnone before fun b hb => (hbefore b hb a List.mem_cons_self).symm,
    hnone after (List.pairwise_cons.1 hafter).1, List.nil_append, hentry]

theorem Accounted.pointers_apart {h : History} (hacc : h.Accounted) {p q : Pointer}
    (hp : p.IssuedBy h.past) (hq : q.IssuedBy h.past) :
    p.bounds = q.bounds ∨ p.bounds.Disjoint q.bounds := by
  obtain ⟨a, ha, hbounds⟩ := hp.allocated
  obtain ⟨b, hb, hbounds'⟩ := hq.allocated
  rw [← hbounds, ← hbounds']
  exact hacc.bounds_eq_or_disjoint ha hb

/-- A pointer into other cells reads the same before and after a write. -/
theorem Accounted.deref_of_write {h : History} (hacc : h.Accounted) {p q : Pointer} {v : Value}
    {store : Store} (hp : p.IssuedBy h.past) (hq : q.IssuedBy h.past)
    (hne : q.bounds ≠ p.bounds) (hwrite : h.now.store.write p.index v = .ok store) :
    ∃ w, ∀ target, Expr.derefValue target (.pointer q) h.now = (.ok w, h.now) ∧
      Expr.derefValue target (.pointer q) (h.withStore store).now =
        (.ok w, (h.withStore store).now) := by
  obtain ⟨t, hholds⟩ := hacc.holds hq
  obtain ⟨w, hread⟩ := hholds.read hq.inBounds
  have hindex : q.index ≠ p.index := by
    intro heq
    rcases hacc.pointers_apart hq hp with hsame | hdisjoint
    · exact hne hsame
    · exact hdisjoint q.index ⟨hq.inBounds, heq ▸ hp.inBounds⟩
  have hread' := Store.read_congr ((Store.get?_write hwrite).2 q.index hindex) hread
  have hchecked := Pointer.checked_of_inBounds hq.inBounds
  refine ⟨w, fun target => ⟨?_, ?_⟩⟩
  · rw [Discipline.derefValue_pointer, hchecked]
    change Eval.lift (h.now.store.read q.index) h.now = _
    rw [hread]
    rfl
  · rw [Discipline.derefValue_pointer, hchecked]
    change Eval.lift (store.read q.index) (h.withStore store).now = _
    rw [hread']
    rfl

/-- An assignment to a pointer that succeeds writes the value to the pointer's cell. -/
theorem advance_assign {limit : Nat} {location e : Expr} {h i j k : History} {p : Pointer}
    {v : Value} {lines : List String}
    (hlocation : (location.trace limit []).advance h = (.ok (.pointer p), i))
    (hexpr : (e.trace limit [.pointer p]).advance i = (.ok v, j))
    (hassign : ((Stmt.assign location e).trace limit).advance h = (.ok lines, k)) :
    ∃ store, j.now.store.write p.index v = .ok store ∧ k = j.withStore store := by
  change (location.trace limit [] >>= fun target => e.trace limit [target] >>= fun value =>
    Traced.ofEval (Stmt.assignTo location target value) >>= fun _ => pure []).advance h = _
    at hassign
  rw [Discipline.advance_bind, hlocation] at hassign
  dsimp only at hassign
  rw [Discipline.advance_bind, hexpr] at hassign
  dsimp only at hassign
  rw [Discipline.advance_bind, Discipline.advance_ofEval, Discipline.assignTo_pointer] at hassign
  cases hchecked : p.checked with
  | error f => rw [hchecked] at hassign; cases hassign
  | ok index =>
    obtain ⟨_, rfl⟩ := Pointer.checked_eq_ok hchecked
    simp only [hchecked] at hassign
    cases hwrite : j.now.store.write p.index v with
    | error f => rw [hwrite] at hassign; cases hassign
    | ok store =>
      rw [hwrite] at hassign
      dsimp only [Eval.putStore] at hassign
      rw [Discipline.advance_pure] at hassign
      cases hassign
      exact ⟨store, rfl, rfl⟩

end History

/-- What an assignment through a pointer does that starts in the first machine and has evaluated
both operands in the second: the value is in the pointer's cell, and neither another cell nor a
frame that was there at the start has changed. -/
structure Machine.StoresAt (start evaluated done : Machine) (p : Pointer) (v : Value) : Prop where
  cell : ∃ c, Cell.ofValue? v = some c ∧ done.store.get? p.index = some c
  others : ∀ i, i ≠ p.index → done.store.get? i = evaluated.store.get? i
  frames : start.env.Extends done.env

theorem History.stores_assign {limit : Nat} {h : History} (hframes : Discipline.frames.Sound h)
    (hacc : h.Accounted) {location e : Expr} {p : Pointer} {v : Value} {m₁ m₂ : Machine}
    {lines : List String}
    (hlocation : location.eval limit FrameId.global h.now = (.ok (.pointer p), m₁))
    (hexpr : e.eval limit FrameId.global m₁ = (.ok v, m₂))
    (hassign : (h.serve limit (.stmt (.assign location e))).1 = .lines (.ok lines)) :
    let k := (h.serve limit (.stmt (.assign location e))).2
    h.now.StoresAt m₂ k.now p v ∧
      ∀ q, k.Live q → q.bounds ≠ p.bounds →
        ∃ w, ∀ target, Expr.derefValue target (.pointer q) m₂ = (.ok w, m₂) ∧
          Expr.derefValue target (.pointer q) k.now = (.ok w, k.now) := by
  intro k
  obtain ⟨i, hi, rfl⟩ := advance_of_eval [] hlocation
  obtain ⟨j, hj, rfl⟩ := advance_of_eval [.pointer p] hexpr
  have hrun : ((Stmt.assign location e).trace limit).advance h = (.ok lines, k) :=
    Prod.ext (Reply.lines.inj hassign) rfl
  obtain ⟨store, hwrite, hk⟩ := advance_assign hi hj hrun
  obtain ⟨_, hkept, _⟩ := Discipline.fits_operands Discipline.frames_durable trivial trivial
    hframes hi hj
  obtain ⟨hacc', _, hp, _⟩ := Discipline.fits_operands Discipline.cells_durable trivial trivial
    hacc hi hj
  obtain ⟨hcell, hothers⟩ := Store.get?_write hwrite
  rw [hk]
  refine ⟨⟨hcell, hothers, hkept⟩, fun q hq hne => ?_⟩
  exact Accounted.deref_of_write hacc' (hp p rfl) (Accounted.issued hacc' hq) hne hwrite

namespace History

/-- Allocations never alias: two live pointers have the same bounds or disjoint ones, the bounds of
a live pointer come from exactly one evaluation of `new`, which asked for that many cells, and an
assignment through a pointer is seen through pointers with the same bounds only. -/
theorem allocations_never_alias (settings : Settings) (rs : List Request) :
    (∀ p q, (ofRun settings rs).Live p → (ofRun settings rs).Live q →
      p.bounds = q.bounds ∨ p.bounds.Disjoint q.bounds) ∧
    (∀ p, (ofRun settings rs).Live p →
      (Moment.ledger (ofRun settings rs).past).filter (fun a => a.bounds = p.bounds) =
        [⟨p.bounds.high - p.bounds.low + 1, p.bounds⟩]) ∧
    (∀ earlier x p, earlier ++ [x] <+: (ofRun settings rs).past → x.outcome = .ok (.pointer p) →
      ∃ a ∈ Moment.ledger (earlier ++ [x]), a.bounds = p.bounds) ∧
    let s := (Session.ofSettings settings).after rs
    ∀ location e p v m₁ m₂ lines t,
      location.eval s.limit FrameId.global s.machine = (.ok (.pointer p), m₁) →
      e.eval s.limit FrameId.global m₁ = (.ok v, m₂) →
      s.serve (.stmt (.assign location e)) = (.lines (.ok lines), t) →
      s.machine.StoresAt m₂ t.machine p v ∧
        ∀ q, (ofRun settings (rs ++ [.stmt (.assign location e)])).Live q →
          q.bounds ≠ p.bounds →
          ∃ w, ∀ target, Expr.derefValue target (.pointer q) m₂ = (.ok w, m₂) ∧
            Expr.derefValue target (.pointer q) t.machine = (.ok w, t.machine) := by
  have hacc := Discipline.cells_ofRun settings rs
  refine ⟨fun p q hp hq => hacc.pointers_apart (hacc.issued hp) (hacc.issued hq),
    fun p hp => hacc.entry_eq (hacc.issued hp),
    fun earlier x p hpre hx => (hacc.returned hpre hx).allocated, ?_⟩
  intro s location e p v m₁ m₂ lines t hlocation hexpr hserve
  have hafter : s = _ := session_after settings rs
  obtain ⟨hreply, hsession⟩ := serve_eq s (ofRun settings rs) (by rw [hafter])
    (.stmt (.assign location e))
  rw [hserve] at hreply hsession
  rw [hafter] at hlocation hexpr hreply hsession ⊢
  obtain ⟨hstores, hother⟩ := stores_assign (Discipline.frames_ofRun settings rs) hacc hlocation
    hexpr hreply
  have hconcat := after_concat settings.maxDepth ⟨[], .fresh settings.capacity⟩ rs
    (.stmt (.assign location e))
  change t = _ at hsession
  rw [hsession]
  refine ⟨hstores, fun q hq hne => hother q ?_ hne⟩
  unfold ofRun at hq
  rw [hconcat] at hq
  exact hq

theorem allocations_never_alias_neighbours :
    let s := (Session.ofSettings ⟨3, 1⟩).after [.expr (.new (.keyword .bool) 1)]
    let m : Machine := ⟨.withPrimitives, ⟨#[.bool false, .bool false, .bool false]⟩⟩
    let t : Machine := ⟨.withPrimitives, ⟨#[.bool false, .bool true, .bool false]⟩⟩
    (Expr.new (.keyword .bool) 2).eval s.limit FrameId.global s.machine =
        (.ok (.pointer ⟨1, ⟨1, 2⟩⟩), m) ∧
      (Expr.bool true).eval s.limit FrameId.global m = (.ok (.bool true), m) ∧
      s.serve (.stmt (.assign (.new (.keyword .bool) 2) (.bool true))) = (.lines (.ok []), ⟨1, t⟩) ∧
      (ofRun ⟨3, 1⟩ [.expr (.new (.keyword .bool) 1),
        .stmt (.assign (.new (.keyword .bool) 2) (.bool true))]).Live ⟨0, ⟨0, 0⟩⟩ ∧
      s.machine.StoresAt m t ⟨1, ⟨1, 2⟩⟩ (.bool true) ∧
      ∃ w, ∀ target, Expr.derefValue target (.pointer ⟨0, ⟨0, 0⟩⟩) m = (.ok w, m) ∧
        Expr.derefValue target (.pointer ⟨0, ⟨0, 0⟩⟩) t = (.ok w, t) := by
  have hlocation : (Expr.new (.keyword .bool) 2).eval 1 FrameId.global
      ((Session.ofSettings ⟨3, 1⟩).after [.expr (.new (.keyword .bool) 1)]).machine =
      (.ok (.pointer ⟨1, ⟨1, 2⟩⟩),
        ⟨.withPrimitives, ⟨#[.bool false, .bool false, .bool false]⟩⟩) := by with_unfolding_all rfl
  have hserve : ((Session.ofSettings ⟨3, 1⟩).after [.expr (.new (.keyword .bool) 1)]).serve
      (.stmt (.assign (.new (.keyword .bool) 2) (.bool true))) =
      (.lines (.ok []),
        ⟨1, .withPrimitives, ⟨#[.bool false, .bool true, .bool false]⟩⟩) := by
    with_unfolding_all rfl
  have houtcomes : (ofRun ⟨3, 1⟩ [.expr (.new (.keyword .bool) 1),
      .stmt (.assign (.new (.keyword .bool) 2) (.bool true))]).past.map Moment.outcome =
      [.ok (.keyword .bool), .ok (.pointer ⟨0, ⟨0, 0⟩⟩), .ok (.keyword .bool),
        .ok (.pointer ⟨1, ⟨1, 2⟩⟩), .ok (.bool true)] := by with_unfolding_all rfl
  have hlive : (ofRun ⟨3, 1⟩ [.expr (.new (.keyword .bool) 1),
      .stmt (.assign (.new (.keyword .bool) 2) (.bool true))]).Live ⟨0, ⟨0, 0⟩⟩ :=
    .inr (List.mem_map.1 (houtcomes ▸ by simp))
  intro s m t
  have hexpr : (Expr.bool true).eval s.limit FrameId.global m = (.ok (.bool true), m) := rfl
  obtain ⟨_, _, _, hassign⟩ :=
    allocations_never_alias ⟨3, 1⟩ [.expr (.new (.keyword .bool) 1)]
  obtain ⟨hstores, hother⟩ := hassign _ _ _ _ _ _ _ _ hlocation hexpr hserve
  exact ⟨hlocation, hexpr, hserve, hlive, hstores, hother _ hlive (by decide)⟩

end History

end CellLang

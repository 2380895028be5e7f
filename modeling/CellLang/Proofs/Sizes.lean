import CellLang.Proofs.Ledger

/-!
# Sizes of allocations

The front end accepts positive sizes only, so syntax that was read from a text never asks for zero
cells, and neither does a closure made from it. Syntax built in another way may ask for zero cells;
a closure made from such syntax fails when it is called, also when a program read from a text calls
it.
-/

namespace CellLang

namespace Expr

mutual

/-- No `new` of the expression, those in function bodies included, asks for zero cells. -/
def sized : Expr → Bool
  | .var _ | .num _ | .bool _ | .keyword _ => true
  | .lambda _ body => body.sized
  | .app head args => head.sized && allSized args
  | .cond guard thenBranch elseBranch => guard.sized && thenBranch.sized && elseBranch.sized
  | .new type size => type.sized && size != 0
  | .deref target => target.sized
  | .move _ pointer offset => pointer.sized && offset.sized

def allSized : List Expr → Bool
  | [] => true
  | e :: es => e.sized && allSized es

end

theorem allSized_iff (es : List Expr) : allSized es = true ↔ ∀ e ∈ es, e.sized = true := by
  induction es with
  | nil => simp [allSized]
  | cons e es ih => simp [allSized, ih]

theorem sized_part {e part : Expr} (h : e.sized = true) (hpart : part ∈ e.parts) :
    part.sized = true := by
  cases e with
  | app head args =>
    simp only [sized, Bool.and_eq_true, allSized_iff] at h
    rcases List.mem_cons.1 hpart with rfl | hpart
    · exact h.1
    · exact h.2 part hpart
  | cond g t f =>
    simp only [sized, Bool.and_eq_true] at h
    simp only [parts, List.mem_cons, List.not_mem_nil, or_false] at hpart
    rcases hpart with rfl | rfl | rfl
    · exact h.1.1
    · exact h.1.2
    · exact h.2
  | new type size =>
    simp only [sized, Bool.and_eq_true] at h
    obtain rfl := List.mem_singleton.1 hpart
    exact h.1
  | deref target =>
    obtain rfl := List.mem_singleton.1 hpart
    exact h
  | move op p o =>
    simp only [sized, Bool.and_eq_true] at h
    simp only [parts, List.mem_cons, List.not_mem_nil, or_false] at hpart
    rcases hpart with rfl | rfl
    · exact h.1
    · exact h.2
  | var _ | num _ | bool _ | keyword _ | lambda _ _ => cases hpart

end Expr

/-! ## Syntax from the front end -/

theorem Except.bind_eq_ok {ε α β : Type} {x : Except ε α} {f : α → Except ε β} {b : β}
    (h : (x >>= f) = .ok b) : ∃ a, x = .ok a ∧ f a = .ok b := by
  cases x with
  | error e => cases h
  | ok a => exact ⟨a, rfl, h⟩

namespace Form

theorem sized_ofAtom (text : String) : (Expr.ofAtom text).sized = true := by
  unfold Expr.ofAtom
  repeat' split
  all_goals rfl

/-- The size of a `new` is read as a whole number of at least one. -/
theorem toSize_pos {f : Form} {n : Nat} (h : f.toSize = .ok n) : 0 < n := by
  unfold toSize at h
  dsimp only at h
  split at h
  · split at h
    · next x k hx =>
      obtain ⟨y, _, hy⟩ := Option.bind_eq_some_iff.1 hx
      obtain ⟨k', hwhole, hpair⟩ := Option.map_eq_some_iff.1 hy
      obtain ⟨rfl, rfl⟩ := Prod.mk.inj hpair
      split at h
      · next hk =>
        cases h
        cases y with
        | nan => cases hwhole
        | infinity s => cases hwhole
        | finite s u hu =>
          rw [Binary64.whole?] at hwhole
          split at hwhole
          · rw [Binary64.toWord]
            rw [Binary64.signed] at hwhole
            have hmax : 0 < Binary64.maxWord := by decide
            generalize u / Binary64.one = whole at hwhole ⊢
            have heq := Option.some.inj hwhole
            cases s with
            | true =>
              have hneg : -(whole : Int) = k' := heq
              omega
            | false =>
              have hpos : (whole : Int) = k' := heq
              change 0 < min whole Binary64.maxWord
              omega
          · cases hwhole
      · cases h
    · cases h
  · cases h

mutual

theorem sized_toExpr (f : Form) {e : Expr} (h : f.toExpr = .ok e) : e.sized = true := by
  match f with
  | .atom t _ =>
    cases h
    exact sized_ofAtom t
  | .list [] _ => cases h
  | .list (head :: operands) span =>
    unfold toExpr at h
    split at h
    · obtain ⟨param, _, h⟩ := Except.bind_eq_ok h
      obtain ⟨body, hbody, h⟩ := Except.bind_eq_ok h
      cases h
      simp only [Expr.sized, sized_toExpr _ hbody]
    · obtain ⟨guard, hguard, h⟩ := Except.bind_eq_ok h
      obtain ⟨thenBranch, hthen, h⟩ := Except.bind_eq_ok h
      obtain ⟨elseBranch, helse, h⟩ := Except.bind_eq_ok h
      cases h
      simp only [Expr.sized, sized_toExpr _ hguard, sized_toExpr _ hthen, sized_toExpr _ helse,
        Bool.and_self]
    · obtain ⟨type, htype, h⟩ := Except.bind_eq_ok h
      obtain ⟨size, hsize, h⟩ := Except.bind_eq_ok h
      cases h
      have hpos := toSize_pos hsize
      simp only [Expr.sized, sized_toExpr _ htype, Bool.true_and, bne_iff_ne]
      omega
    · obtain ⟨target, htarget, h⟩ := Except.bind_eq_ok h
      cases h
      simp only [Expr.sized, sized_toExpr _ htarget]
    · obtain ⟨op, _, h⟩ := Except.bind_eq_ok h
      obtain ⟨pointer, hpointer, h⟩ := Except.bind_eq_ok h
      obtain ⟨offset, hoffset, h⟩ := Except.bind_eq_ok h
      cases h
      simp only [Expr.sized, sized_toExpr _ hpointer, sized_toExpr _ hoffset, Bool.and_self]
    · split at h <;> cases h
    · obtain ⟨args, hargs, h⟩ := Except.bind_eq_ok h
      obtain ⟨callee, hcallee, h⟩ := Except.bind_eq_ok h
      cases h
      simp only [Expr.sized, sized_toExpr _ hcallee, sized_toExprs _ hargs, Bool.and_self]

theorem sized_toExprs (fs : List Form) {es : List Expr} (h : toExprs fs = .ok es) :
    Expr.allSized es = true := by
  match fs with
  | [] => cases h; rfl
  | f :: fs =>
    obtain ⟨e, he, h⟩ := Except.bind_eq_ok h
    obtain ⟨es', hes, h⟩ := Except.bind_eq_ok h
    cases h
    simp only [Expr.allSized, sized_toExpr f he, sized_toExprs fs hes, Bool.and_self]

end

theorem sized_toStmt {f : Form} {s : Stmt} (h : f.toStmt = .ok s) :
    ∀ e ∈ s.exprs, e.sized = true := by
  unfold toStmt at h
  split at h
  · cases h
  · cases h
  · split at h
    · obtain ⟨name, _, h⟩ := Except.bind_eq_ok h
      obtain ⟨expr, hexpr, h⟩ := Except.bind_eq_ok h
      cases h
      simp [Stmt.exprs, sized_toExpr _ hexpr]
    · obtain ⟨location, hlocation, h⟩ := Except.bind_eq_ok h
      obtain ⟨expr, hexpr, h⟩ := Except.bind_eq_ok h
      cases h
      simp [Stmt.exprs, sized_toExpr _ hlocation, sized_toExpr _ hexpr]
    · obtain ⟨expr, hexpr, h⟩ := Except.bind_eq_ok h
      cases h
      simp [Stmt.exprs, sized_toExpr _ hexpr]
    · split at h <;> cases h
    · cases h

theorem sized_toStmts (fs : List Form) {ss : List Stmt} (h : toStmts fs = .ok ss) :
    ∀ s ∈ ss, ∀ e ∈ s.exprs, e.sized = true := by
  induction fs generalizing ss with
  | nil =>
    cases h
    intro s hs
    cases hs
  | cons f fs ih =>
    obtain ⟨s, hs, h⟩ := Except.bind_eq_ok h
    obtain ⟨rest, hrest, h⟩ := Except.bind_eq_ok h
    cases h
    intro s' hs'
    rcases List.mem_cons.1 hs' with rfl | hs'
    · exact sized_toStmt hs
    · exact ih hrest s' hs'

end Form

theorem Program.sized_parse {source : String} {p : Program} (h : Program.parse source = .ok p) :
    ∀ e ∈ (Request.program p).exprs, e.sized = true := by
  obtain ⟨forms, _, h⟩ := Except.bind_eq_ok h
  obtain ⟨ss, hss, h⟩ := Except.bind_eq_ok h
  cases h
  intro e he
  obtain ⟨s, hs, he⟩ := List.mem_flatMap.1 he
  exact Form.sized_toStmts forms hss s hs e he

/-! ## The discipline of sizes -/

/-- If the value is a closure, no `new` of its body asks for zero cells. -/
def Value.Sized (v : Value) : Prop := ∀ c, v = .closure c → c.body.sized = true

namespace Discipline

def sizes : Discipline where
  Code e := e.sized = true
  Sound h := h.now.env.Each Value.Sized
  Sees _ _ := True
  Fits _ v := v.Sized
  Allows e := e.kind ≠ .invalidAllocationSize
  Later _ _ := True

theorem sizes_allows {e : RuntimeError} {k : FaultKind} (hkind : e.kind = k)
    (hk : k ≠ .invalidAllocationSize) : sizes.Allows e :=
  fun h => hk (hkind.symm.trans h)

theorem sizes_lawful : sizes.Lawful where
  refl _ := trivial
  trans _ _ := trivial
  fits_later _ hfits := hfits
  code_part := Expr.sized_part
  fits_plain hplain c hc := by rw [hc] at hplain; cases hplain
  fits_lookup hsound _ hget := Environment.Each.get? hsound hget
  fits_lambda {_ _ param body} _ hcode c hc := by
    cases hc
    change (Expr.lambda param body).sized = true at hcode
    rwa [Expr.sized] at hcode
  fits_move _ _ c hc := by cases hc
  note _ hsound _ _ _ := ⟨hsound, trivial⟩
  allocate _ _ _ hsound _ _ := ⟨hsound, trivial, fun c hc => by cases hc⟩
  enter hsound hc harg := ⟨Environment.Each.extend hsound harg, trivial, hc _ rfl⟩
  later_enter := trivial
  leave _ _ hsound := ⟨Environment.Each.release hsound _, trivial⟩
  fits_leave _ hfits := hfits
  allows_plain {f} hplain := by
    cases f with
    | invalidAllocationSize _ => cases hplain
    | _ => exact nofun
  allows_allocate hcode hf := by
    simp only [sizes, Expr.sized, Bool.and_eq_true, bne_iff_ne] at hcode
    obtain ⟨hzero, _⟩ | hkind | hkind := Store.allocate_eq_error hf
    · exact absurd hzero hcode.2
    · exact sizes_allows hkind nofun
    · exact sizes_allows hkind nofun
  allows_access _ _ hchecked := sizes_allows (Pointer.checked_eq_error hchecked).2 nofun
  allows_read _ _ _ hread := by
    obtain ⟨_, hkind⟩ | ⟨_, hkind⟩ := Store.read_eq_error hread
    · exact sizes_allows hkind nofun
    · exact sizes_allows hkind nofun
  allows_move hmove := by
    obtain hkind | hkind := Pointer.offset_eq_error hmove
    · exact sizes_allows hkind nofun
    · exact sizes_allows hkind nofun

theorem sizes_durable : sizes.Durable where
  toLawful := sizes_lawful
  fresh _ := .withPrimitives nofun
  define hsound hv hdefine :=
    Environment.Each.rebinds hsound (Environment.rebinds_of_define hdefine) hv
  assign hsound hv hassign :=
    Environment.Each.rebinds hsound (Environment.rebinds_of_assign hassign) hv
  write hsound _ _ _ := hsound
  allows_locate _ _ hchecked := sizes_allows (Pointer.checked_eq_error hchecked).2 nofun
  allows_write _ _ _ hwrite := by
    obtain ⟨_, hkind⟩ | ⟨_, hkind⟩ | hkind := Store.write_eq_error hwrite
    · exact sizes_allows hkind nofun
    · exact sizes_allows hkind nofun
    · exact sizes_allows hkind nofun

theorem sizes_ofRun (settings : Settings) {rs : List Request}
    (hsized : ∀ r ∈ rs, ∀ e ∈ r.exprs, e.sized = true) :
    sizes.Sound (History.ofRun settings rs) :=
  sound_after sizes_durable settings.maxDepth rs hsized (sizes_durable.fresh settings.capacity)

end Discipline

/-! ## Pointers stay valid -/

/-- Over every run, live pointers lie in initialized cells of one type; no request fails for an
uninitialized cell, for an unknown operator, or for an access out of bounds. A program read from a
text does not fail for the size of an allocation, unless a bound closure asks for zero cells; no
closure does when the syntax of the run does not. -/
theorem Session.pointers_stay_valid (settings : Settings) (rs : List Request) :
    let s := (ofSettings settings).after rs
    s.machine = (History.ofRun settings rs).now ∧
    (∀ p, (History.ofRun settings rs).Live p → p.Valid s.machine.store) ∧
    (∀ r e, (s.serve r).1.error? = some e → e.Possible) ∧
    (s.machine.env.Each Value.Sized → ∀ source p e, Program.parse source = .ok p →
      (s.serve (.program p)).1.error? = some e → e.kind ≠ .invalidAllocationSize) ∧
    ((∀ r ∈ rs, ∀ e ∈ r.exprs, e.sized = true) → s.machine.env.Each Value.Sized) := by
  intro s
  have hacc := Discipline.cells_ofRun settings rs
  have hafter : s = _ := History.session_after settings rs
  have hserve := fun r => (History.serve_eq s (History.ofRun settings rs) (by rw [hafter]) r).1
  rw [hafter] at hserve ⊢
  refine ⟨rfl, fun p hp => hacc.valid (hacc.issued hp), fun r e he => ?_,
    fun hsized source p e hparse he => ?_, fun hsized => Discipline.sizes_ofRun settings hsized⟩
  · rw [← hserve r] at he
    exact (Discipline.sound_serve Discipline.cells_durable settings.maxDepth
      (fun _ _ => trivial) hacc).2.2 e he
  · rw [← hserve (.program p)] at he
    have hsound : Discipline.sizes.Sound (History.ofRun settings rs) := hsized
    exact (Discipline.sound_serve Discipline.sizes_durable settings.maxDepth
      (Program.sized_parse hparse) hsound).2.2 e he

theorem Session.pointers_stay_valid_in_full_store :
    let rs : List Request := [.expr (.new (.keyword .bool) 1),
      .stmt (.define "f" (.lambda "x" (.new (.keyword .bool) 1)))]
    (History.ofRun ⟨1, 1⟩ rs).Live ⟨0, ⟨0, 0⟩⟩ ∧ (∀ r ∈ rs, ∀ e ∈ r.exprs, e.sized = true) ∧
      Program.parse "(print (f true))" = .ok ⟨[.print (.app (.var "f") [.bool true])]⟩ ∧
      (((ofSettings ⟨1, 1⟩).after rs).serve
        (.program ⟨[.print (.app (.var "f") [.bool true])]⟩)).1.error? = some (.of .storeFull) ∧
      Pointer.Valid ⟨0, ⟨0, 0⟩⟩ ((ofSettings ⟨1, 1⟩).after rs).machine.store ∧
      (RuntimeError.of .storeFull).Possible ∧
      (RuntimeError.of .storeFull).kind ≠ .invalidAllocationSize := by
  intro rs
  have hreturned : .ok (.pointer ⟨0, ⟨0, 0⟩⟩) ∈
      (History.ofRun ⟨1, 1⟩ rs).past.map Moment.outcome := by
    have houtcomes : (History.ofRun ⟨1, 1⟩ rs).past.map Moment.outcome =
        [.ok (.keyword .bool), .ok (.pointer ⟨0, ⟨0, 0⟩⟩),
          .ok (.closure ⟨"x", .new (.keyword .bool) 1, 0⟩)] := by with_unfolding_all rfl
    simp [houtcomes]
  have hlive : (History.ofRun ⟨1, 1⟩ rs).Live ⟨0, ⟨0, 0⟩⟩ := .inr (List.mem_map.1 hreturned)
  have hsized : ∀ r ∈ rs, ∀ e ∈ r.exprs, e.sized = true := by
    simp [rs, Request.exprs, Stmt.exprs, Expr.sized]
  have hparse : Program.parse "(print (f true))" =
      .ok ⟨[.print (.app (.var "f") [.bool true])]⟩ := by with_unfolding_all rfl
  have herror : (((ofSettings ⟨1, 1⟩).after rs).serve
      (.program ⟨[.print (.app (.var "f") [.bool true])]⟩)).1.error? =
        some (.of .storeFull) := by with_unfolding_all rfl
  obtain ⟨_, hvalid, hpossible, hsize, hclosures⟩ := pointers_stay_valid ⟨1, 1⟩ rs
  exact ⟨hlive, hsized, hparse, herror, hvalid _ hlive, hpossible _ _ herror,
    hsize (hclosures hsized) _ _ _ hparse herror⟩

/-- Without the condition on sizes the last part fails: an earlier request may have bound a function
that asks for zero cells. -/
theorem Session.zero_cells_through_closure :
    let rs : List Request := [.stmt (.define "f" (.lambda "x" (.new (.keyword .num) 0)))]
    Program.parse "(print (f true))" = .ok ⟨[.print (.app (.var "f") [.bool true])]⟩ ∧
      (((ofSettings ⟨10, 10000⟩).after rs).serve
        (.program ⟨[.print (.app (.var "f") [.bool true])]⟩)).1.error? =
          some (.of (.invalidAllocationSize 0)) := by
  refine ⟨?_, ?_⟩
  · with_unfolding_all rfl
  · with_unfolding_all rfl

end CellLang

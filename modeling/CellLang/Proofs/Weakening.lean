import CellLang.Proofs.Coupling
import CellLang.Proofs.Globals

/-!
# A new global name changes nothing

The same program runs in two environments, of which the second has one more global name. A name is
looked for along the frames, and the only search that can tell the two apart is one that reaches the
global frame without finding the new name; in the first environment it fails. So unless the first
run ends for want of that name, the second one goes the same way.
-/

namespace CellLang

namespace Frame

/-- The second frame is the first one with one more binding, of a name that had none. -/
structure Gains (f g : Frame) (name : String) (v : Value) : Prop where
  parent_eq : g.parent = f.parent
  bindings : ∃ before after, f.bindings = before ++ after ∧
    g.bindings = before ++ (name, v) :: after
  fresh : ∀ b ∈ f.bindings, b.1 ≠ name

namespace Gains

variable {f g : Frame} {name other : String} {v w : Value}

theorem find?_other (h : f.Gains g name v) (hother : other ≠ name) :
    g.find? other = f.find? other := by
  obtain ⟨before, after, hf, hg⟩ := h.bindings
  rw [find?, find?, hf, hg, List.lookup_append, List.lookup_append, List.lookup_cons,
    beq_eq_false_iff_ne.2 hother]

theorem find?_name (h : f.Gains g name v) : f.find? name = none :=
  List.lookup_eq_none_iff.2 fun b hb => bne_iff_ne.2 (Ne.symm (h.fresh b hb))

theorem binds_other (h : f.Gains g name v) (hother : other ≠ name) :
    g.binds other = f.binds other := by
  rw [binds, binds, h.find?_other hother]

theorem insert (h : f.Gains g name v) (hother : other ≠ name) :
    (f.insert other w).Gains (g.insert other w) name v := by
  obtain ⟨before, after, hf, hg⟩ := h.bindings
  refine ⟨h.parent_eq, ⟨(other, w) :: before, after, ?_, ?_⟩, fun b hb => ?_⟩
  · rw [Frame.insert, hf, List.cons_append]
  · rw [Frame.insert, hg, List.cons_append]
  · rcases List.mem_cons.1 hb with rfl | hb
    · exact hother
    · exact h.fresh b hb

theorem replace (h : f.Gains g name v) (hother : other ≠ name) :
    (f.replace other w).Gains (g.replace other w) name v := by
  obtain ⟨before, after, hf, hg⟩ := h.bindings
  refine ⟨h.parent_eq, ⟨((⟨before, none⟩ : Frame).replace other w).bindings,
    ((⟨after, none⟩ : Frame).replace other w).bindings, ?_, ?_⟩, fun b hb => ?_⟩
  · simp only [Frame.replace, hf, List.map_append]
  · simp only [Frame.replace, hg, List.map_append, List.map_cons, if_neg (Ne.symm hother)]
  · obtain ⟨⟨n, x⟩, hx, rfl⟩ := List.mem_map.1 hb
    have hn : n ≠ name := h.fresh _ hx
    by_cases heq : n = other
    · simpa only [heq, if_true] using hother
    · simpa only [heq, if_false] using hn

end Gains

theorem gains_insert {f : Frame} {name : String} (v : Value) (hfree : f.find? name = none) :
    f.Gains (f.insert name v) name v :=
  ⟨rfl, ⟨[], f.bindings, rfl, rfl⟩,
    fun b hb => Ne.symm (bne_iff_ne.1 (List.lookup_eq_none_iff.1 hfree b hb))⟩

end Frame

namespace Environment

/-- The second environment is the first one with one more global binding, of a name that had
none. -/
structure Gains (env later : Environment) (name : String) (v : Value) : Prop where
  size_eq : later.size = env.size
  others : ∀ i : Nat, i ≠ FrameId.global → later.frames[i]? = env.frames[i]?
  global : ∃ f g, env.frames[FrameId.global]? = some f ∧ later.frames[FrameId.global]? = some g ∧
    f.Gains g name v

namespace Gains

variable {env later : Environment} {name other : String} {v w : Value} {id : FrameId}

/-- Every other name stands for the same in both environments, from every frame. -/
theorem get?_other (h : env.Gains later name v) (id : FrameId) (hother : other ≠ name) :
    later.get? id other = env.get? id other := by
  induction id using Nat.strongRecOn with
  | _ id ih =>
    by_cases hid : id = FrameId.global
    · obtain ⟨f, g, hf, hg, hgains⟩ := h.global
      rw [hid, get?_global, get?_global, hf, hg, Option.bind_some, Option.bind_some,
        hgains.find?_other hother]
    · have hsame := h.others id hid
      cases hf : env.frames[id]? with
      | none =>
        rw [hf] at hsame
        rw [get?_of_no_frame hsame, get?_of_no_frame hf]
      | some f =>
        rw [hf] at hsame
        rw [get?_of_frame hsame, get?_of_frame hf]
        cases f.parent with
        | none => rfl
        | some p =>
          by_cases hlt : p < id
          · simp only [Option.bind_some, if_pos hlt, ih p hlt]
          · simp only [Option.bind_some, if_neg hlt]

/-- Where the new name had a value, it keeps it: a call frame binds it before the global one. -/
theorem get?_name (h : env.Gains later name v) (id : FrameId) (hget : env.get? id name = some w) :
    later.get? id name = some w := by
  induction id using Nat.strongRecOn with
  | _ id ih =>
    by_cases hid : id = FrameId.global
    · obtain ⟨f, g, hf, _, hgains⟩ := h.global
      rw [hid, get?_global, hf, Option.bind_some, hgains.find?_name] at hget
      cases hget
    · have hsame := h.others id hid
      cases hf : env.frames[id]? with
      | none =>
        rw [get?_of_no_frame hf] at hget
        cases hget
      | some f =>
        rw [hf] at hsame
        rw [get?_of_frame hf] at hget
        rw [get?_of_frame hsame]
        cases hfind : f.find? name with
        | some x =>
          rw [hfind] at hget
          exact hget
        | none =>
          rw [hfind, Option.none_or] at hget
          obtain ⟨p, hparent, hget⟩ := Option.bind_eq_some_iff.1 hget
          by_cases hlt : p < id
          · rw [if_pos hlt] at hget
            rw [Option.none_or, hparent, Option.bind_some, if_pos hlt]
            exact ih p hlt hget
          · rw [if_neg hlt] at hget
            cases hget

theorem extend (h : env.Gains later name v) (parent : FrameId) (param : String) (arg : Value) :
    (env.extend parent param arg).2.Gains (later.extend parent param arg).2 name v := by
  obtain ⟨f, g, hf, hg, hgains⟩ := h.global
  have hframes := fun i => frames_extend env parent param arg i
  have hframes' := fun i => frames_extend later parent param arg i
  refine ⟨by rw [size_extend, size_extend, h.size_eq], fun i hi => ?_, f, g, ?_, ?_, hgains⟩
  · rw [hframes, hframes', h.size_eq, h.others i hi]
  · rw [hframes, if_neg (Nat.ne_of_lt (lt_size hf))]
    exact hf
  · rw [hframes', if_neg (Nat.ne_of_lt (lt_size hg))]
    exact hg

theorem release (h : env.Gains later name v) (mark : Nat) :
    (env.release mark).Gains (later.release mark) name v := by
  obtain ⟨f, g, hf, hg, hgains⟩ := h.global
  have hkept : FrameId.global < max mark 1 := Nat.lt_of_lt_of_le Nat.one_pos (Nat.le_max_right _ _)
  refine ⟨by rw [size_release, size_release, h.size_eq], fun i hi => ?_, f, g, ?_, ?_, hgains⟩
  · rw [frames_release, frames_release, h.others i hi]
  · rw [frames_release, if_pos hkept, hf]
  · rw [frames_release, if_pos hkept, hg]

theorem modify (h : env.Gains later name v) {change : Frame → Frame}
    (hchange : ∀ f g, f.Gains g name v → (change f).Gains (change g) name v) :
    Gains ⟨env.frames.modify FrameId.global change⟩ ⟨later.frames.modify FrameId.global change⟩
      name v := by
  obtain ⟨f, g, hf, hg, hgains⟩ := h.global
  refine ⟨?_, fun i hi => ?_, change f, change g, ?_, ?_, hchange f g hgains⟩
  · simpa only [size, Array.size_modify] using h.size_eq
  · rw [Array.getElem?_modify, Array.getElem?_modify, if_neg (Ne.symm hi), if_neg (Ne.symm hi),
      h.others i hi]
  · rw [Array.getElem?_modify, if_pos rfl, hf, Option.map_some]
  · rw [Array.getElem?_modify, if_pos rfl, hg, Option.map_some]

end Gains

theorem exists_define {env : Environment} {f : Frame} (hf : env.frames[FrameId.global]? = some f)
    {name : String} (v : Value) (hfree : env.contains FrameId.global name = false) :
    ∃ later, env.define FrameId.global name v = .ok later ∧ env.Gains later name v := by
  rw [contains, get?_global, hf, Option.bind_some] at hfree
  have hbinds : f.binds name = false := hfree
  have hfind : f.find? name = none := by simpa using hfree
  have hdefine : env.define FrameId.global name v =
      .ok ⟨env.frames.modify FrameId.global fun f => f.insert name v⟩ := by
    rw [define_global hf, hbinds, if_neg Bool.false_ne_true]
  refine ⟨_, hdefine, Array.size_modify, fun i hi => ?_, f, f.insert name v, hf, ?_,
    Frame.gains_insert v hfind⟩
  · rw [Array.getElem?_modify, if_neg (Ne.symm hi)]
  · rw [Array.getElem?_modify, if_pos rfl, hf, Option.map_some]

end Environment

/-! ## Coupled environments -/

namespace Coupling

/-- A machine and the same one with one more global name. -/
structure Gained (name : String) (v : Value) (m n : Machine) : Prop where
  env : m.env.Gains n.env name v
  store_eq : n.store = m.store

/-- Two runs of which the second has one more global name, compared until the first one fails for
want of it. -/
def gaining (name : String) (v : Value) : Coupling where
  Pairs := Gained name v
  Points _ := True
  Same e f := f = e
  Ends e := e = .of (.unboundVariable name)

variable {name : String} {v : Value} {m n : Machine}

theorem fits_gaining (w : Value) : (gaining name v).Fits w := fun _ _ => trivial

theorem gaining_lookup (frame : FrameId) (other : String) (h : Gained name v m n) :
    (gaining name v).Agrees (gaining name v).Fits (Eval.lift (m.env.lookup frame other) m)
      (Eval.lift (n.env.lookup frame other) n) := by
  cases hget : m.env.get? frame other with
  | none =>
    by_cases hother : other = name
    · subst hother
      rw [Environment.lookup, hget]
      exact .ended rfl
    · rw [Environment.lookup, Environment.lookup, h.env.get?_other frame hother, hget]
      exact .error h rfl
  | some w =>
    have hfound : n.env.get? frame other = some w := by
      by_cases hother : other = name
      · subst hother
        exact h.env.get?_name frame hget
      · rw [h.env.get?_other frame hother]
        exact hget
    rw [Environment.lookup, Environment.lookup, hget, hfound]
    exact .ok h (fits_gaining w)

theorem gaining_allocate (type : CellType) (size : Nat) (h : Gained name v m n) :
    (gaining name v).Agrees (gaining name v).Fits (Eval.allocate type size m)
      (Eval.allocate type size n) := by
  unfold Eval.allocate
  rw [h.store_eq]
  cases m.store.allocate size with
  | error f => exact .error h rfl
  | ok b => exact .ok ⟨h.env, rfl⟩ (fits_gaining _)

theorem gaining_deref {p : Pointer} (target : Expr) (h : Gained name v m n) :
    (gaining name v).Agrees (gaining name v).Fits (Expr.derefValue target (.pointer p) m)
      (Expr.derefValue target (.pointer p) n) := by
  rw [Discipline.derefValue_pointer, Discipline.derefValue_pointer, h.store_eq]
  cases p.checked with
  | error f => exact .error h rfl
  | ok index =>
    dsimp only
    cases m.store.read index with
    | error f => exact .error h rfl
    | ok w => exact .ok h (fits_gaining w)

theorem gaining_move {p : Pointer} (e : Expr) (op : Operator) (x : Binary64)
    (h : Gained name v m n) :
    (gaining name v).Agrees (gaining name v).Fits (Expr.moveValue e op (.pointer p) (.num x) m)
      (Expr.moveValue e op (.pointer p) (.num x) n) := by
  change (gaining name v).Agrees _
    ((Eval.liftIn e (p.offset op x m.store.capacity) >>= fun q => pure (Value.pointer q)) m)
    ((Eval.liftIn e (p.offset op x n.store.capacity) >>= fun q => pure (Value.pointer q)) n)
  rw [h.store_eq]
  cases p.offset op x m.store.capacity with
  | error f => exact .error h rfl
  | ok q => exact .ok h (fits_gaining _)

theorem gaining_write {p : Pointer} (location : Expr) (w : Value) (h : Gained name v m n) :
    (gaining name v).Agrees (fun _ => True) (Stmt.assignTo location (.pointer p) w m)
      (Stmt.assignTo location (.pointer p) w n) := by
  rw [Discipline.assignTo_pointer, Discipline.assignTo_pointer, h.store_eq]
  cases p.checked with
  | error f => exact .error h rfl
  | ok index =>
    dsimp only
    cases m.store.write index w with
    | error f => exact .error h rfl
    | ok store => exact .ok ⟨h.env, rfl⟩ trivial

theorem gaining_define {other : String} {w : Value} (hother : other ≠ name)
    (h : Gained name v m n) :
    (gaining name v).Agrees (fun _ => True)
      (Eval.putEnvironment (m.env.define FrameId.global other w) m)
      (Eval.putEnvironment (n.env.define FrameId.global other w) n) := by
  obtain ⟨f, g, hf, hg, hgains⟩ := h.env.global
  rw [Environment.define_global hf, Environment.define_global hg, hgains.binds_other hother]
  cases f.binds other with
  | true => exact .error h rfl
  | false => exact .ok ⟨h.env.modify fun _ _ hgains => hgains.insert hother, h.store_eq⟩ trivial

theorem gaining_assign (other : String) {w : Value} (h : Gained name v m n) :
    (gaining name v).Agrees (fun _ => True)
      (Eval.putEnvironment (m.env.assign FrameId.global other w) m)
      (Eval.putEnvironment (n.env.assign FrameId.global other w) n) := by
  obtain ⟨f, g, hf, hg, hgains⟩ := h.env.global
  rw [Environment.assign_global hf, Environment.assign_global hg]
  by_cases hother : other = name
  · -- the first environment has no binding to replace
    subst hother
    have hbinds : f.binds other = false := by
      rw [Frame.binds, hgains.find?_name]
      rfl
    rw [hbinds]
    exact .ended rfl
  · rw [hgains.binds_other hother]
    cases f.binds other with
    | true => exact .ok ⟨h.env.modify fun _ _ hgains => hgains.replace hother, h.store_eq⟩ trivial
    | false => exact .error h rfl

theorem gaining_steadyFor (name : String) (v : Value) :
    (gaining name v).SteadyFor fun other => other ≠ name where
  same _ := rfl
  size h := h.env.size_eq
  lookup := gaining_lookup
  allocate := gaining_allocate
  deref target h _ := gaining_deref target h
  move e op x h _ := gaining_move e op x h
  enter c h _ := ⟨h.env.extend c.frame c.param _, h.store_eq⟩
  release mark h := ⟨h.env.release mark, h.store_eq⟩
  define hother h _ := gaining_define hother h
  assign other h _ := gaining_assign other h
  write location w h _ := gaining_write location w h

/-- If the first run does not end for want of the name, the second one is the same but for its
binding. -/
theorem eq_of_gaining {α : Type} {good : α → Prop}
    {result result' : Except RuntimeError α × Machine}
    (h : (gaining name v).Agrees good result result')
    (hfound : result.1 ≠ .error (.of (.unboundVariable name))) :
    result'.1 = result.1 ∧ Gained name v result.2 result'.2 := by
  cases h with
  | ok hpairs _ => exact ⟨rfl, hpairs⟩
  | error hpairs hsame => exact ⟨by rw [hsame], hpairs⟩
  | ended hends => exact absurd (by rw [hends]) hfound

end Coupling

namespace Session

/-- A new global name never changes what already worked. In any session, let a name without a global
binding be bound to whatever value. A program that does not define the name, and that did not fail
for want of it, has the same outcome as before; it leaves the same store, and the same environment
but for that binding. -/
theorem new_global_changes_nothing (settings : Settings) (rs : List Request) {name : String}
    (v : Value) {p : Program}
    (hfree : ((ofSettings settings).after rs).machine.env.contains FrameId.global name = false)
    (hdefined : ∀ st ∈ p.stmts, st.defined? ≠ some name)
    (hfound : (((ofSettings settings).after rs).runProgram p).1 ≠
      .error (.of (.unboundVariable name))) :
    let s := (ofSettings settings).after rs
    ∃ env, s.machine.env.define FrameId.global name v = .ok env ∧
      s.machine.env.Gains env name v ∧
      let before := s.runProgram p
      let after := runProgram ⟨s.limit, { s.machine with env }⟩ p
      after.1 = before.1 ∧ after.2.machine.store = before.2.machine.store ∧
        before.2.machine.env.Gains after.2.machine.env name v := by
  intro s
  obtain ⟨f, hf, _⟩ := (wellFormed_after settings rs).global
  obtain ⟨env, hdefine, hgains⟩ := Environment.exists_define hf v hfree
  refine ⟨env, hdefine, hgains, ?_⟩
  have hpairs : Coupling.Gained name v s.machine { s.machine with env } := ⟨hgains, rfl⟩
  have hcovers : (Coupling.gaining name v).Covers s.limit s.limit s.limit s.limit :=
    .inl ⟨rfl, rfl⟩
  have hothers : ∀ st ∈ p.stmts, ∀ other ∈ st.defined?, other ≠ name := by
    rintro st hst other hother rfl
    exact hdefined st hst hother
  have hagrees := Coupling.agrees_stmts_for (Coupling.gaining_steadyFor name v) hcovers hothers
    hpairs
  obtain ⟨houtcome, hgained⟩ := Coupling.eq_of_gaining hagrees hfound
  exact ⟨houtcome, hgained.store_eq, hgained.env⟩

theorem new_global_changes_nothing_under_parameter :
    let rs : List Request := [.stmt (.define "f" (.lambda "n" (.app (.var "not") [.var "n"]))),
      .stmt (.define "g" (.lambda "x" (.var "n")))]
    let p : Program := ⟨[.define "b" (.app (.var "f") [.bool true]), .assign (.var "f") (.var "g"),
      .print (.var "m")]⟩
    let s := (ofSettings ⟨1, 1⟩).after rs
    s.machine.env.contains FrameId.global "n" = false ∧
      (∀ st ∈ p.stmts, st.defined? ≠ some "n") ∧
      (s.runProgram p).1 = .error (.of (.unboundVariable "m")) ∧
      ∃ env, s.machine.env.define FrameId.global "n" (.bool false) = .ok env ∧
        (runProgram ⟨1, { s.machine with env }⟩ p).1 = .error (.of (.unboundVariable "m")) := by
  intro rs p s
  have hfree : s.machine.env.contains FrameId.global "n" = false := by
    unfold s rs
    with_unfolding_all rfl
  have hdefined : ∀ st ∈ p.stmts, st.defined? ≠ some "n" := by simp [p, Stmt.defined?]
  have hrun : (s.runProgram p).1 = .error (.of (.unboundVariable "m")) := by
    unfold p s rs
    with_unfolding_all rfl
  have hfound : (s.runProgram p).1 ≠ .error (.of (.unboundVariable "n")) := by
    rw [hrun]
    simp [RuntimeError.of]
  have hlimit : s.limit = 1 := by
    unfold s rs
    with_unfolding_all rfl
  obtain ⟨env, hdefine, _, houtcome, _⟩ :=
    new_global_changes_nothing ⟨1, 1⟩ rs (.bool false) hfree hdefined hfound
  refine ⟨hfree, hdefined, hrun, env, hdefine, ?_⟩
  rw [← hlimit, houtcome, hrun]

end Session

end CellLang

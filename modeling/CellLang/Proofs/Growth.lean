import CellLang.Proofs.Ledger
import CellLang.Proofs.Packing

/-!
# Growth

Evaluation adds to a machine and changes nothing that it found: frames stay as they are, cells in
use keep their content, and a free cell can only become the zero of a type. A statement adds at most
one action of its own to the growth of its evaluations, and a statement that fails adds none.
-/

namespace CellLang

namespace Store

/-- The second store is the first one with more cells in use, each still at the zero of its type. -/
structure Grows (s t : Store) : Prop where
  capacity_eq : t.capacity = s.capacity
  kept : ∀ i c, s.get? i = some c → c.isFree = false → t.get? i = some c
  changed : ∀ i, t.get? i ≠ s.get? i →
    s.get? i = some .uninitialized ∧ ∃ type, t.get? i = some (.zero type)

theorem isFree_zero (type : CellType) : (Cell.zero type).isFree = false := by
  cases type <;> rfl

namespace Grows

theorem refl (s : Store) : s.Grows s :=
  ⟨rfl, fun _ _ hc _ => hc, fun _ hne => absurd rfl hne⟩

theorem trans {s t u : Store} (hst : s.Grows t) (htu : t.Grows u) : s.Grows u := by
  refine ⟨htu.capacity_eq.trans hst.capacity_eq,
    fun i c hc hused => htu.kept i c (hst.kept i c hc hused) hused, fun i hne => ?_⟩
  by_cases hsame : t.get? i = s.get? i
  · rw [← hsame] at hne ⊢
    exact htu.changed i hne
  · -- the cell was put to use in the first part, so the second part leaves it alone
    obtain ⟨hfree, type, hzero⟩ := hst.changed i hsame
    exact ⟨hfree, type, htu.kept i _ hzero (isFree_zero type)⟩

theorem of_allocates {s t : Store} (h : s.Allocates t) : s.Grows t := by
  cases h with
  | @fill size b type hb =>
    obtain ⟨_, _, _, hfree⟩ := allocate_eq_ok hb
    refine ⟨capacity_fill s b _, fun i c hc hused => ?_, fun i hne => ?_⟩
    · have hout : ¬ b.contains i = true := by
        intro hin
        obtain ⟨c', hc', hisFree⟩ := hfree i hin
        obtain rfl : c = c' := Option.some.inj (hc.symm.trans hc')
        rw [hused] at hisFree
        cases hisFree
      rw [get?_fill, hc, Option.map_some, if_neg hout]
    · rw [get?_fill] at hne ⊢
      by_cases hin : b.contains i = true
      · obtain ⟨c, hc, hisFree⟩ := hfree i hin
        obtain rfl := (Cell.isFree_iff c).1 hisFree
        exact ⟨hc, type, by rw [hc, Option.map_some, if_pos hin]⟩
      · simp [hin] at hne

theorem of_allocations {s t : Store} (h : Relation.ReflTransGen Allocates s t) : s.Grows t := by
  induction h with
  | refl => exact .refl s
  | tail _ hstep ih => exact ih.trans (.of_allocates hstep)

end Grows

end Store

namespace Machine

/-- The second machine has every frame of the first, and its store has grown. -/
structure Grows (m n : Machine) : Prop where
  frames : m.env.Extends n.env
  store : m.store.Grows n.store

theorem Grows.refl (m : Machine) : m.Grows m := ⟨.refl m.env, .refl m.store⟩

theorem Grows.trans {m n o : Machine} (hmn : m.Grows n) (hno : n.Grows o) : m.Grows o :=
  ⟨hmn.frames.trans hno.frames, hmn.store.trans hno.store⟩

end Machine

/-! ## Evaluation -/

namespace Discipline

/-- The environment has a frame, and whatever frames it has are kept. Frames may refer to others
that do not exist: what a name is found to stand for makes no difference here. -/
def arena : Discipline where
  Code _ := True
  Sound h := 0 < h.now.env.size
  Sees _ _ := True
  Fits _ _ := True
  Allows _ := True
  Later h i := h.now.env.Extends i.now.env

theorem arena_lawful : arena.Lawful where
  refl h := .refl h.now.env
  trans := .trans
  note _ hsound _ _ _ := ⟨hsound, .refl _⟩
  allocate _ _ _ hsound _ _ := ⟨hsound, .refl _, trivial⟩
  enter {h c arg} hsound _ _ :=
    ⟨Nat.lt_trans hsound (h.now.size_lt_enter c arg), trivial, trivial⟩
  later_enter {h c arg} := .extend h.now.env c.frame c.param arg
  leave hsound hlater _ := History.leave_restores (fun env => 0 < env.size) hsound hlater hsound

end Discipline

theorem History.now_traceWith (limit left : Nat) (frame : FrameId) (e : Expr) (held : List Value)
    (h : History) :
    ((e.traceWith (traceCallAt limit left) frame held).advance h).2.now =
      (e.evalWith (callAt limit left) frame h.now).2 := by
  rw [← Expr.forget_traceWith (forget_traceCallAt limit left) frame e held]
  rfl

/-- An evaluation makes every machine grow that has a frame, in whichever frame it runs and however
many calls may still be nested. -/
theorem Expr.grows_of_frame (limit left : Nat) (frame : FrameId) (e : Expr) {m : Machine}
    (hsome : 0 < m.env.size) : m.Grows (e.evalWith (callAt limit left) frame m).2 := by
  have hnow := History.now_traceWith limit left frame e [] ⟨[], m⟩
  have hready : Discipline.arena.Ready ⟨[], m⟩ frame [] := ⟨hsome, trivial, fun _ _ => trivial⟩
  have hstart : Discipline.growth.Ready ⟨[], m⟩ frame [] := ⟨trivial, trivial, fun _ _ => trivial⟩
  have hframes := Discipline.upholds_traceWith Discipline.arena_lawful
    (Discipline.calls_traceCallAt Discipline.arena_lawful limit left) e trivial hready
  have hcells := Discipline.upholds_traceWith Discipline.growth_lawful
    (Discipline.calls_traceCallAt Discipline.growth_lawful limit left) e trivial hstart
  have hextends := hframes.later
  have hallocates := hcells.later
  simp only [Discipline.arena, Discipline.growth, hnow] at hextends hallocates
  exact ⟨hextends, .of_allocations hallocates⟩

/-- An evaluation in a live frame, with any number of nested calls left, makes the machine grow. -/
theorem Expr.grows_evalWith (limit left : Nat) (frame : FrameId) (e : Expr) {m : Machine}
    (hwf : m.env.WellFormed) (hframe : frame < m.env.size) :
    m.Grows (e.evalWith (callAt limit left) frame m).2 ∧
      (e.evalWith (callAt limit left) frame m).2.env.WellFormed := by
  have hnow := History.now_traceWith limit left frame e [] ⟨[], m⟩
  have hready : Discipline.frames.Ready ⟨[], m⟩ frame [] :=
    ⟨⟨hwf, fun _ hx => absurd hx List.not_mem_nil⟩, hframe, fun _ hv => absurd hv List.not_mem_nil⟩
  have hframes := Discipline.upholds_traceWith Discipline.frames_lawful
    (Discipline.calls_traceCallAt Discipline.frames_lawful limit left) e trivial hready
  have hsound := hframes.sound.1
  rw [hnow] at hsound
  exact ⟨e.grows_of_frame limit left frame hwf.size_pos, hsound⟩

theorem Expr.grows_eval {limit : Nat} {e : Expr} {m n : Machine}
    {outcome : Except RuntimeError Value} (hwf : m.env.WellFormed)
    (heval : e.eval limit FrameId.global m = (outcome, n)) : m.Grows n ∧ n.env.WellFormed := by
  have h := e.grows_evalWith limit limit FrameId.global hwf hwf.size_pos
  rw [Expr.eval] at heval
  rw [heval] at h
  exact h

/-! ## Statements -/

namespace Eval

variable {α β : Type}

/-- A computation that runs two others ends where the first one fails or where the second ends. -/
theorem bind_cases {x : Eval α} {f : α → Eval β} {m n : Machine} {outcome : Except RuntimeError β}
    (h : (x >>= f) m = (outcome, n)) :
    (∃ e, x m = (.error e, n) ∧ outcome = .error e) ∨
      ∃ a m', x m = (.ok a, m') ∧ f a m' = (outcome, n) := by
  rw [bind_apply] at h
  rcases hx : x m with ⟨e | a, m'⟩
  · rw [hx] at h
    cases h
    exact .inl ⟨e, rfl, rfl⟩
  · rw [hx] at h
    exact .inr ⟨a, m', rfl, h⟩

end Eval

namespace Stmt

/-- Everything a statement can do that starts in the machine `m`. -/
inductive Effect (limit : Nat) (m : Machine) :
    Stmt → Except RuntimeError (List String) → Machine → Prop
  | failed {st : Stmt} {e : RuntimeError} {n : Machine} : m.Grows n → Effect limit m st (.error e) n
  | printed {expr : Expr} {lines : List String} {n : Machine} : m.Grows n →
      Effect limit m (.print expr) (.ok lines) n
  | defined {name : String} {expr : Expr} {v : Value} {n : Machine} {env : Environment} :
      m.Grows n → n.env.define FrameId.global name v = .ok env →
      Effect limit m (.define name expr) (.ok []) { n with env }
  | stored {location expr : Expr} {p : Pointer} {v : Value} {m₁ n : Machine} {store : Store} :
      location.eval limit FrameId.global m = (.ok (.pointer p), m₁) → m.Grows n →
      n.store.write p.index v = .ok store →
      Effect limit m (.assign location expr) (.ok []) { n with store }
  | rebound {name : String} {expr : Expr} {target v : Value} {n : Machine} {env : Environment} :
      m.env.get? FrameId.global name = some target → (∀ p, target ≠ .pointer p) → m.Grows n →
      n.env.assign FrameId.global name v = .ok env →
      Effect limit m (.assign (.var name) expr) (.ok []) { n with env }

/-- Carrying out an assignment fails, writes the cell of a pointer or rebinds a global name. -/
theorem assignTo_cases {location : Expr} {target value : Value} {m n : Machine}
    {outcome : Except RuntimeError Unit} (h : assignTo location target value m = (outcome, n)) :
    (∃ e, outcome = .error e ∧ n = m) ∨
      (∃ p store, target = .pointer p ∧ m.store.write p.index value = .ok store ∧
        outcome = .ok () ∧ n = { m with store }) ∨
      ∃ name env, location = .var name ∧ (∀ p, target ≠ .pointer p) ∧
        m.env.assign FrameId.global name value = .ok env ∧ outcome = .ok () ∧
        n = { m with env } := by
  by_cases hpointer : ∃ p, target = .pointer p
  · obtain ⟨p, rfl⟩ := hpointer
    rw [Discipline.assignTo_pointer] at h
    cases hchecked : p.checked with
    | error f =>
      rw [hchecked] at h
      cases h
      exact .inl ⟨_, rfl, rfl⟩
    | ok index =>
      obtain ⟨_, rfl⟩ := Pointer.checked_eq_ok hchecked
      simp only [hchecked] at h
      cases hwrite : m.store.write p.index value with
      | error f =>
        rw [hwrite] at h
        cases h
        exact .inl ⟨_, rfl, rfl⟩
      | ok store =>
        rw [hwrite] at h
        cases h
        exact .inr (.inl ⟨p, store, rfl, hwrite, rfl, rfl⟩)
  · have hother : ∀ p, target ≠ .pointer p := fun p hp => hpointer ⟨p, hp⟩
    rw [Discipline.assignTo_other hother] at h
    cases location with
    | var name =>
      dsimp only at h
      cases hassign : m.env.assign FrameId.global name value with
      | error f =>
        rw [hassign] at h
        cases h
        exact .inl ⟨_, rfl, rfl⟩
      | ok env =>
        rw [hassign] at h
        cases h
        exact .inr (.inr ⟨name, env, rfl, hother, hassign, rfl, rfl⟩)
    | num _ | bool _ | keyword _ | lambda _ _ | app _ _ | cond _ _ _ | new _ _ | deref _
    | move _ _ _ =>
      cases h
      exact .inl ⟨_, rfl, rfl⟩

/-- A variable that has a value names a global binding of it, and evaluating it changes nothing. -/
theorem eval_var {limit : Nat} {name : String} {m n : Machine} {v : Value}
    (h : (Expr.var name).eval limit FrameId.global m = (.ok v, n)) :
    m.env.get? FrameId.global name = some v ∧ n = m := by
  change Eval.lift (m.env.lookup FrameId.global name) m = (.ok v, n) at h
  rw [Environment.lookup] at h
  cases hget : m.env.get? FrameId.global name with
  | none =>
    rw [hget] at h
    cases h
  | some w =>
    rw [hget] at h
    cases h
    exact ⟨rfl, rfl⟩

theorem effect_define {limit : Nat} {name : String} {expr : Expr} {m n : Machine}
    {outcome : Except RuntimeError (List String)} (hwf : m.env.WellFormed)
    (h : (Stmt.define name expr).exec limit m = (outcome, n)) :
    Effect limit m (.define name expr) outcome n := by
  obtain ⟨e, heval, rfl⟩ | ⟨v, m₁, heval, h⟩ := Eval.bind_cases h
  · exact .failed (Expr.grows_eval hwf heval).1
  · have hgrows := (Expr.grows_eval hwf heval).1
    change (Eval.putEnvironment (m₁.env.define FrameId.global name v) >>= fun _ => pure []) m₁ =
      (outcome, n) at h
    cases hdefine : m₁.env.define FrameId.global name v with
    | error f =>
      rw [hdefine] at h
      cases h
      exact .failed hgrows
    | ok env =>
      rw [hdefine] at h
      cases h
      exact .defined hgrows hdefine

theorem effect_assign {limit : Nat} {location expr : Expr} {m n : Machine}
    {outcome : Except RuntimeError (List String)} (hwf : m.env.WellFormed)
    (h : (Stmt.assign location expr).exec limit m = (outcome, n)) :
    Effect limit m (.assign location expr) outcome n := by
  obtain ⟨e, hlocation, rfl⟩ | ⟨target, m₁, hlocation, h⟩ := Eval.bind_cases h
  · exact .failed (Expr.grows_eval hwf hlocation).1
  obtain ⟨hgrows₁, hwf₁⟩ := Expr.grows_eval hwf hlocation
  obtain ⟨e, hexpr, rfl⟩ | ⟨v, m₂, hexpr, h⟩ := Eval.bind_cases h
  · exact .failed (hgrows₁.trans (Expr.grows_eval hwf₁ hexpr).1)
  have hgrows₂ := hgrows₁.trans (Expr.grows_eval hwf₁ hexpr).1
  obtain ⟨e, hassign, rfl⟩ | ⟨_, m₃, hassign, h⟩ := Eval.bind_cases h
  · obtain ⟨_, _, rfl⟩ | ⟨_, _, _, _, hok, _⟩ | ⟨_, _, _, _, _, hok, _⟩ := assignTo_cases hassign
    · exact .failed hgrows₂
    · cases hok
    · cases hok
  cases h
  obtain ⟨_, herror, _⟩ | ⟨p, store, rfl, hwrite, _, rfl⟩ |
    ⟨name, env, rfl, hother, hrebind, _, rfl⟩ := assignTo_cases hassign
  · cases herror
  · exact .stored hlocation hgrows₂ hwrite
  · exact .rebound (eval_var hlocation).1 hother hgrows₂ hrebind

/-- What a statement does from a machine without dangling frames is one of its possible effects. -/
theorem effect_exec {limit : Nat} {st : Stmt} {m n : Machine}
    {outcome : Except RuntimeError (List String)} (hwf : m.env.WellFormed)
    (h : st.exec limit m = (outcome, n)) : Effect limit m st outcome n := by
  cases st with
  | define name expr => exact effect_define hwf h
  | assign location expr => exact effect_assign hwf h
  | print expr =>
    obtain ⟨e, heval, rfl⟩ | ⟨v, m₁, heval, h⟩ := Eval.bind_cases h
    · exact .failed (Expr.grows_eval hwf heval).1
    · cases h
      exact .printed (Expr.grows_eval hwf heval).1

theorem wellFormed_exec {limit : Nat} {st : Stmt} {m n : Machine}
    {outcome : Except RuntimeError (List String)} (hwf : m.env.WellFormed)
    (h : st.exec limit m = (outcome, n)) : n.env.WellFormed := by
  have hkeeps := Discipline.keeps_stmt Discipline.frames_durable limit (s := st)
    (fun _ _ => trivial) (h := ⟨[], m⟩) ⟨hwf, fun _ hx => absurd hx List.not_mem_nil⟩
  have hnow := (History.advance_eq (st.trace limit) ⟨[], m⟩).2
  rw [forget_trace, h] at hnow
  have hsound := hkeeps.sound.1
  rw [hnow] at hsound
  exact hsound

end Stmt

/-! ## Runs -/

/-- Holds between the machine before and the machine after whatever evaluations and statements
do. -/
structure Machine.Steady (R : Machine → Machine → Prop) : Prop where
  refl : ∀ m, R m m
  trans : ∀ {m n o}, R m n → R n o → R m o
  grows : ∀ {m n}, m.Grows n → R m n
  effect : ∀ {limit m st outcome n}, m.env.WellFormed → Stmt.Effect limit m st outcome n → R m n

namespace Machine.Steady

variable {R : Machine → Machine → Prop}

theorem execAll (hR : Steady R) {limit : Nat} {ss : List Stmt} {m n : Machine}
    {outcome : Except RuntimeError (List String)} (hwf : m.env.WellFormed)
    (h : Stmt.execAll limit ss m = (outcome, n)) : R m n ∧ n.env.WellFormed := by
  induction ss generalizing m n outcome with
  | nil =>
    cases h
    exact ⟨hR.refl m, hwf⟩
  | cons st ss ih =>
    obtain ⟨e, hst, rfl⟩ | ⟨lines, m₁, hst, h⟩ := Eval.bind_cases h
    · exact ⟨hR.effect hwf (Stmt.effect_exec hwf hst), Stmt.wellFormed_exec hwf hst⟩
    · have hfirst := hR.effect hwf (Stmt.effect_exec hwf hst)
      have hwf₁ := Stmt.wellFormed_exec hwf hst
      obtain ⟨e, hrest, rfl⟩ | ⟨more, m₂, hrest, h⟩ := Eval.bind_cases h
      · exact ⟨hR.trans hfirst (ih hwf₁ hrest).1, (ih hwf₁ hrest).2⟩
      · cases h
        exact ⟨hR.trans hfirst (ih hwf₁ hrest).1, (ih hwf₁ hrest).2⟩

/-- One request other than a reset. -/
theorem serve (hR : Steady R) {s : Session} (hwf : s.machine.env.WellFormed) {r : Request}
    (hr : r ≠ .reset) :
    R s.machine (s.serve r).2.machine ∧ (s.serve r).2.machine.env.WellFormed := by
  cases r with
  | program p =>
    rcases hrun : Stmt.execAll s.limit p.stmts s.machine with ⟨outcome, n⟩
    have hn : (s.serve (.program p)).2.machine = n := congrArg Prod.snd hrun
    rw [hn]
    exact hR.execAll hwf hrun
  | stmt st =>
    rcases hrun : st.exec s.limit s.machine with ⟨outcome, n⟩
    have hn : (s.serve (.stmt st)).2.machine = n := congrArg Prod.snd hrun
    rw [hn]
    exact ⟨hR.effect hwf (Stmt.effect_exec hwf hrun), Stmt.wellFormed_exec hwf hrun⟩
  | expr e =>
    obtain ⟨hgrows, hwf'⟩ := e.grows_evalWith s.limit s.limit FrameId.global hwf
      hwf.size_pos
    exact ⟨hR.grows hgrows, hwf'⟩
  | reset => exact absurd rfl hr

/-- Any number of requests without a reset among them. -/
theorem after (hR : Steady R) {s : Session} (hwf : s.machine.env.WellFormed) {rs : List Request}
    (hrs : ∀ r ∈ rs, r ≠ .reset) : R s.machine (s.after rs).machine := by
  induction rs generalizing s with
  | nil => exact hR.refl s.machine
  | cons r rs ih =>
    obtain ⟨hfirst, hwf'⟩ := hR.serve hwf (hrs r List.mem_cons_self)
    exact hR.trans hfirst (ih hwf' fun r' hr' => hrs r' (List.mem_cons_of_mem _ hr'))

end Machine.Steady

theorem Session.wellFormed_after (settings : Settings) (rs : List Request) :
    ((ofSettings settings).after rs).machine.env.WellFormed := by
  rw [History.session_after settings rs]
  exact (Discipline.frames_ofRun settings rs).1

end CellLang

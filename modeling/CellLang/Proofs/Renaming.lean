import CellLang.Proofs.Alpha
import CellLang.Proofs.Reclamation

/-!
# Parameter names do not matter

Two programs that differ in the names of parameters run in step. Their environments have the same
frames at the same positions, with the same enclosing ones; a call frame may bind its value under
another name, and the names bound from a frame outwards are the pairs under which expressions seen
from it are compared. A closure on one side goes with a closure of the same frame on the other,
whose body is equal under the pairs of that frame. Errors go together by their kind: their texts may
show the expression they arose in.
-/

namespace CellLang

open Chain (KeepsCalls keepsCalls_of_extends)

/-- From the frame outwards, up to the global one, both environments have call frames at the same
positions, and the names these bind are the pairs. -/
inductive Environment.Scoped (env env' : Environment) : FrameId → ParamPairs → Prop
  | global : Scoped env env' FrameId.global []
  | call {id parent : FrameId} {x y : String} {v w : Value} {pairs : ParamPairs} :
      env.frames[id]? = some ⟨[(x, v)], some parent⟩ →
      env'.frames[id]? = some ⟨[(y, w)], some parent⟩ → Scoped env env' parent pairs →
      Scoped env env' id ((x, y) :: pairs)

/-- The values are the same, or they are closures of one frame, equal up to names of parameters. -/
inductive Value.Alpha (env env' : Environment) : Value → Value → Prop
  | num (x : Binary64) : Alpha env env' (.num x) (.num x)
  | bool (b : Bool) : Alpha env env' (.bool b) (.bool b)
  | prim (p : Primitive) : Alpha env env' (.prim p) (.prim p)
  | pointer (p : Pointer) : Alpha env env' (.pointer p) (.pointer p)
  | keyword (t : CellType) : Alpha env env' (.keyword t) (.keyword t)
  | closure {x y : String} {b c : Expr} {frame : FrameId} {pairs : ParamPairs} :
      env.Scoped env' frame pairs → Expr.Alpha ((x, y) :: pairs) b c →
      Alpha env env' (.closure ⟨x, b, frame⟩) (.closure ⟨y, c, frame⟩)

/-- The bindings hold such values, and those of the global frame have the same names. -/
structure Frame.Alpha (env env' : Environment) (f g : Frame) : Prop where
  parent_eq : g.parent = f.parent
  bindings : List.Forall₂ (fun b c => (f.parent = none → b.1 = c.1) ∧ Value.Alpha env env' b.2 c.2)
    f.bindings g.bindings

/-- Global frames that go together: the same names are bound to values that do. -/
structure Frame.GlobalAlpha (env env' : Environment) (f g : Frame) : Prop where
  parent : f.parent = none
  parent' : g.parent = none
  bindings : List.Forall₂ (fun b c => b.1 = c.1 ∧ Value.Alpha env env' b.2 c.2)
    f.bindings g.bindings

structure Machine.Alpha (m n : Machine) : Prop where
  wellFormed : m.env.WellFormed
  cells : n.store = m.store
  frames : ∀ i : Nat,
    Option.Rel (Frame.Alpha m.env n.env) m.env.frames[i]? n.env.frames[i]?

/-! ## Later environments -/

section

variable {env env' later later' : Environment} {v w : Value} {frame : FrameId} {pairs : ParamPairs}

theorem Environment.Scoped.mono (hkeeps : KeepsCalls env later) (hkeeps' : KeepsCalls env' later')
    (h : env.Scoped env' frame pairs) : later.Scoped later' frame pairs := by
  induction h with
  | global => exact .global
  | call hf hg _ ih =>
    exact .call (hkeeps _ _ hf (Option.some_ne_none _))
      (hkeeps' _ _ hg (Option.some_ne_none _)) ih

theorem Environment.Scoped.lt_size (hwf : env.WellFormed) (h : env.Scoped env' frame pairs) :
    frame < env.size := by
  cases h with
  | global => exact hwf.size_pos
  | call hf _ _ => exact Environment.lt_size hf

namespace Value.Alpha

theorem mono (hkeeps : KeepsCalls env later) (hkeeps' : KeepsCalls env' later')
    (h : Value.Alpha env env' v w) : Value.Alpha later later' v w := by
  cases h with
  | closure hscoped hbody => exact .closure (hscoped.mono hkeeps hkeeps') hbody
  | num x => exact .num x
  | bool b => exact .bool b
  | prim p => exact .prim p
  | pointer p => exact .pointer p
  | keyword t => exact .keyword t

theorem of_not_closure (h : Value.Alpha env env' v w) (hv : v.isClosure = false) :
    Value.Alpha later later' v w := by
  cases h with
  | closure _ _ => cases hv
  | num x => exact .num x
  | bool b => exact .bool b
  | prim p => exact .prim p
  | pointer p => exact .pointer p
  | keyword t => exact .keyword t

theorem of_plain (hv : v.isPlain = true) : Value.Alpha env env' v v := by
  cases v with
  | closure _ | pointer _ => cases hv
  | num x => exact .num x
  | bool b => exact .bool b
  | prim p => exact .prim p
  | keyword t => exact .keyword t

theorem isClosure_eq (h : Value.Alpha env env' v w) : w.isClosure = v.isClosure := by
  cases h <;> rfl

theorem bare_eq (h : Value.Alpha env env' v w) : w.bare = v.bare := by
  cases h <;> rfl

theorem text_eq (h : Value.Alpha env env' v w) : w.text = v.text := by
  rw [← w.text_bare, h.bare_eq, v.text_bare]

theorem capturesBelow (hwf : env.WellFormed) (h : Value.Alpha env env' v w) :
    v.CapturesBelow env.size := by
  cases h with
  | closure hscoped _ => exact hscoped.lt_size hwf
  | num _ | bool _ | prim _ | pointer _ | keyword _ => trivial

theorem call_eq {vs ws : List Value} (h : List.Forall₂ (Value.Alpha env env') vs ws)
    (p : Primitive) : p.call ws = p.call vs := by
  have hbare : vs.map Value.bare = ws.map Value.bare :=
    map_eq_of_forall₂ (h.imp fun _ _ hv => hv.bare_eq.symm)
  rw [← p.call_bare ws, ← hbare, p.call_bare vs]

end Value.Alpha

theorem Frame.Alpha.mono {f g : Frame} (hkeeps : KeepsCalls env later)
    (hkeeps' : KeepsCalls env' later') (h : Frame.Alpha env env' f g) :
    Frame.Alpha later later' f g :=
  ⟨h.parent_eq, h.bindings.imp fun _ _ hb => ⟨hb.1, hb.2.mono hkeeps hkeeps'⟩⟩

theorem Frame.Alpha.rel_mono {found found' : Option Frame} (hkeeps : KeepsCalls env later)
    (hkeeps' : KeepsCalls env' later') (h : Option.Rel (Frame.Alpha env env') found found') :
    Option.Rel (Frame.Alpha later later') found found' := by
  cases h with
  | none => exact .none
  | some hfg => exact .some (hfg.mono hkeeps hkeeps')

end

namespace Machine.Alpha

variable {m n : Machine}

theorem frame (h : m.Alpha n) {i : Nat} {f : Frame} (hf : m.env.frames[i]? = some f) :
    ∃ g, n.env.frames[i]? = some g ∧ Frame.Alpha m.env n.env f g := by
  have hrel := h.frames i
  rw [hf] at hrel
  generalize n.env.frames[i]? = found at hrel ⊢
  cases hrel with
  | @some _ g hfg => exact ⟨g, rfl, hfg⟩

theorem size_eq (h : m.Alpha n) : n.env.size = m.env.size := by
  have hnone : ∀ i : Nat, m.env.frames[i]? = none ↔ n.env.frames[i]? = none := by
    intro i
    have hrel := h.frames i
    generalize m.env.frames[i]? = found at hrel ⊢
    generalize n.env.frames[i]? = found' at hrel ⊢
    cases hrel <;> simp
  have hle := (hnone m.env.size).1 (Array.getElem?_eq_none (Nat.le_refl _))
  have hge := (hnone n.env.size).2 (Array.getElem?_eq_none (Nat.le_refl _))
  exact Nat.le_antisymm (Array.getElem?_eq_none_iff.1 hle) (Array.getElem?_eq_none_iff.1 hge)

theorem global (h : m.Alpha n) : ∃ f g, m.env.frames[FrameId.global]? = some f ∧
    n.env.frames[FrameId.global]? = some g ∧ Frame.GlobalAlpha m.env n.env f g := by
  obtain ⟨f, hf, hnone, _⟩ := h.wellFormed.global
  obtain ⟨g, hg, hfg⟩ := h.frame hf
  exact ⟨f, g, hf, hg, hnone, hfg.parent_eq.trans hnone,
    hfg.bindings.imp fun _ _ hb => ⟨hb.1 hnone, hb.2⟩⟩

/-- Names that refer alike stand for values that go together. -/
theorem get? (h : m.Alpha n) {frame : FrameId} {pairs : ParamPairs}
    (hscoped : m.env.Scoped n.env frame pairs) {x y : String} (hrefers : Refers pairs x y) :
    Option.Rel (Value.Alpha m.env n.env) (m.env.get? frame x) (n.env.get? frame y) := by
  -- along the frames: the names refer to the pair of this call frame, or go on to its parent
  induction hscoped with
  | global =>
    obtain rfl : x = y := hrefers
    obtain ⟨f, g, hf, hg, hfg⟩ := h.global
    rw [Environment.get?_of_no_parent hf hfg.parent, Environment.get?_of_no_parent hg hfg.parent']
    exact rel_lookup hfg.bindings x
  | @call id parent a b v w pairs hf hg _ ih =>
    have hlt := h.wellFormed.parent_lt hf rfl
    rw [Environment.get?_of_parent hf rfl hlt, Environment.get?_of_parent hg rfl hlt,
      Frame.find?, Frame.find?, List.lookup_cons, List.lookup_cons]
    rcases hrefers with ⟨rfl, rfl⟩ | ⟨hx, hy, hrefers⟩
    · obtain ⟨g, hg', hfg⟩ := h.frame hf
      obtain rfl := Option.some.inj (hg'.symm.trans hg)
      rw [beq_self_eq_true, beq_self_eq_true]
      cases hfg.bindings with
      | cons hb _ => exact .some hb.2
    · rw [beq_eq_false_iff_ne.2 hx, beq_eq_false_iff_ne.2 hy]
      exact ih hrefers

/-- The frame of a call binds one more pair. -/
theorem enter (h : m.Alpha n) {frame : FrameId} {pairs : ParamPairs}
    (hscoped : m.env.Scoped n.env frame pairs) {v w : Value} (hv : Value.Alpha m.env n.env v w)
    {x y : String} {b c : Expr} :
    (m.enter ⟨x, b, frame⟩ v).Alpha (n.enter ⟨y, c, frame⟩ w) ∧
      (m.enter ⟨x, b, frame⟩ v).env.Scoped (n.enter ⟨y, c, frame⟩ w).env m.env.size
        ((x, y) :: pairs) := by
  have hkeeps := keepsCalls_of_extends (Environment.Extends.extend m.env frame x v)
  have hkeeps' := keepsCalls_of_extends (Environment.Extends.extend n.env frame y w)
  have hframes := fun i => Environment.frames_extend m.env frame x v i
  have hframes' := fun i => Environment.frames_extend n.env frame y w i
  rw [h.size_eq] at hframes'
  constructor
  · refine ⟨h.wellFormed.extend (hscoped.lt_size h.wellFormed) x (hv.capturesBelow h.wellFormed),
      h.cells, fun i => ?_⟩
    have hold := Frame.Alpha.rel_mono hkeeps hkeeps' (h.frames i)
    change Option.Rel (Frame.Alpha (m.env.extend frame x v).2 (n.env.extend frame y w).2)
      (m.env.extend frame x v).2.frames[i]? (n.env.extend frame y w).2.frames[i]?
    rw [hframes, hframes']
    by_cases hi : i = m.env.size
    · rw [if_pos hi, if_pos hi]
      have hcall : some frame = none → x = y := fun hnone => absurd hnone (Option.some_ne_none _)
      exact .some ⟨rfl, .cons ⟨hcall, hv.mono hkeeps hkeeps'⟩ .nil⟩
    · rw [if_neg hi, if_neg hi]
      exact hold
  · exact .call ((hframes _).trans (if_pos rfl)) ((hframes' _).trans (if_pos rfl))
      (hscoped.mono hkeeps hkeeps')

end Machine.Alpha

/-! ## Results in step -/

namespace Alpha

/-- The machines that two evaluations have come to: they go together, and every frame that was there
at the start is kept. -/
structure Grown (m n m' n' : Machine) : Prop where
  alpha : m'.Alpha n'
  kept : m.env.Extends m'.env
  kept' : n.env.Extends n'.env

/-- Both runs return results in the relation or fail with errors of one kind, and end in machines as
said. -/
inductive Agrees {α β : Type} (Ends : Machine → Machine → Prop)
    (R : Environment → Environment → α → β → Prop) :
    Except RuntimeError α × Machine → Except RuntimeError β × Machine → Prop
  | ok {a : α} {b : β} {m n : Machine} : Ends m n → R m.env n.env a b →
      Agrees Ends R (.ok a, m) (.ok b, n)
  | error {e f : RuntimeError} {m n : Machine} : Ends m n → f.kind = e.kind →
      Agrees Ends R (.error e, m) (.error f, n)

namespace Grown

variable {m n m' n' m'' n'' : Machine}

theorem refl (h : m.Alpha n) : Grown m n m n := ⟨h, .refl _, .refl _⟩

theorem trans (h : Grown m n m' n') (h' : Grown m' n' m'' n'') : Grown m n m'' n'' :=
  ⟨h'.alpha, h.kept.trans h'.kept, h.kept'.trans h'.kept'⟩

theorem scope (h : Grown m n m' n') {frame : FrameId} {pairs : ParamPairs}
    (hscoped : m.env.Scoped n.env frame pairs) : m'.env.Scoped n'.env frame pairs :=
  hscoped.mono (keepsCalls_of_extends h.kept) (keepsCalls_of_extends h.kept')

theorem value (h : Grown m n m' n') {v w : Value} (hv : Value.Alpha m.env n.env v w) :
    Value.Alpha m'.env n'.env v w :=
  hv.mono (keepsCalls_of_extends h.kept) (keepsCalls_of_extends h.kept')

end Grown

namespace Agrees

variable {α β γ δ : Type} {Ends Ends' : Machine → Machine → Prop}
  {R : Environment → Environment → α → β → Prop} {S : Environment → Environment → γ → δ → Prop}
  {x : Eval α} {y : Eval β} {f : α → Eval γ} {g : β → Eval δ} {m n : Machine}

theorem bind (hx : Agrees Ends R (x m) (y n)) (hends : ∀ m' n', Ends m' n' → Ends' m' n')
    (hf : ∀ a b m' n', Ends m' n' → R m'.env n'.env a b → Agrees Ends' S (f a m') (g b n')) :
    Agrees Ends' S ((x >>= f) m) ((y >>= g) n) := by
  rw [Eval.bind_apply, Eval.bind_apply]
  generalize x m = result at hx ⊢
  generalize y n = result' at hx ⊢
  cases hx with
  | ok hend hab => exact hf _ _ _ _ hend hab
  | error hend hkind => exact .error (hends _ _ hend) hkind

/-- Evaluations in a row keep the frames that were there before the first one. -/
theorem andThen (hx : Agrees (Grown m n) R (x m) (y n))
    (hf : ∀ a b m' n', Grown m n m' n' → R m'.env n'.env a b →
      Agrees (Grown m' n') S (f a m') (g b n')) :
    Agrees (Grown m n) S ((x >>= f) m) ((y >>= g) n) := by
  refine bind hx (fun _ _ hgrown => hgrown) fun a b m' n' hgrown hab => ?_
  have hnext := hf a b m' n' hgrown hab
  generalize f a m' = result at hnext ⊢
  generalize g b n' = result' at hnext ⊢
  cases hnext with
  | ok hgrown' hcd => exact .ok (hgrown.trans hgrown') hcd
  | error hgrown' hkind => exact .error (hgrown.trans hgrown') hkind

theorem ends {result : Except RuntimeError α × Machine} {result' : Except RuntimeError β × Machine}
    (h : Agrees Ends R result result') : Ends result.2 result'.2 := by
  cases h with
  | ok hend _ => exact hend
  | error hend _ => exact hend

theorem kind_eq {result result' : Except RuntimeError α × Machine}
    (h : Agrees Ends (fun _ _ => Eq) result result') :
    result'.1.mapError RuntimeError.kind = result.1.mapError RuntimeError.kind := by
  cases h with
  | ok _ hab => rw [hab]
  | error _ hkind => exact congrArg Except.error hkind

theorem fault {e e' : Fault} (h : m.Alpha n) (hkind : e'.kind = e.kind) :
    Agrees (Grown m n) R (Eval.fault e m) (Eval.fault e' n) :=
  .error (.refl h) hkind

end Agrees

/-! ## Evaluation in step -/

/-- Calls of closures that go together, on arguments that do, are in step. -/
def Calls (call call' : Caller) : Prop :=
  ∀ {m n : Machine} {c c' : Closure} {v w : Value}, m.Alpha n →
    Value.Alpha m.env n.env (.closure c) (.closure c') → Value.Alpha m.env n.env v w →
    Agrees (Grown m n) Value.Alpha (call c v m) (call' c' w n)

/-- The expression is evaluated in step with every one that is equal to it, wherever the frame binds
the pairs. -/
def Evaluates (call call' : Caller) (e : Expr) : Prop :=
  ∀ {m n : Machine} {frame : FrameId} {pairs : ParamPairs} {e' : Expr}, m.Alpha n →
    m.env.Scoped n.env frame pairs → Expr.Alpha pairs e e' →
    Agrees (Grown m n) Value.Alpha (e.evalWith call frame m) (e'.evalWith call' frame n)

variable {call call' : Caller} {m n : Machine}

theorem agrees_lookup (h : m.Alpha n) {frame : FrameId} {pairs : ParamPairs}
    (hscoped : m.env.Scoped n.env frame pairs) {x y : String} (hrefers : Refers pairs x y) :
    Agrees (Grown m n) Value.Alpha (Eval.lift (m.env.lookup frame x) m)
      (Eval.lift (n.env.lookup frame y) n) := by
  have hrel := h.get? hscoped hrefers
  rw [Environment.lookup, Environment.lookup]
  generalize m.env.get? frame x = found at hrel ⊢
  generalize n.env.get? frame y = found' at hrel ⊢
  cases hrel with
  | none => exact .fault h rfl
  | some hv => exact .ok (.refl h) hv

theorem agrees_lift (h : m.Alpha n) {result : Except Fault Value}
    (hplain : ∀ v, result = .ok v → v.isPlain = true) :
    Agrees (Grown m n) Value.Alpha (Eval.lift result m) (Eval.lift result n) := by
  cases result with
  | error f => exact .fault h rfl
  | ok v => exact .ok (.refl h) (.of_plain (hplain v rfl))

theorem agrees_apply (hcall : Calls call call') (h : m.Alpha n) {callee callee' : Value}
    {args args' : List Value} (hcallee : Value.Alpha m.env n.env callee callee')
    (hargs : List.Forall₂ (Value.Alpha m.env n.env) args args') :
    Agrees (Grown m n) Value.Alpha (callee.applyWith call args m)
      (callee'.applyWith call' args' n) := by
  cases hcallee with
  | closure hscoped hbody =>
    cases hargs with
    | nil => exact .fault h rfl
    | cons hv hvs =>
      cases hvs with
      | nil => exact hcall h (.closure hscoped hbody) hv
      | cons _ _ => exact .fault h rfl
  | prim p =>
    change Agrees _ _ (Eval.lift (p.call args) m) (Eval.lift (p.call args') n)
    rw [Value.Alpha.call_eq hargs]
    refine agrees_lift h fun v hv => ?_
    have hplain := p.call_plain args
    rw [hv] at hplain
    exact hplain
  | num _ | bool _ | pointer _ | keyword _ => exact .fault h rfl

theorem agrees_all {es : List Expr} (hes : ∀ e ∈ es, Evaluates call call' e) {es' : List Expr}
    {frame : FrameId} {pairs : ParamPairs} (h : m.Alpha n)
    (hscoped : m.env.Scoped n.env frame pairs) (halpha : Expr.AlphaAll pairs es es') :
    Agrees (Grown m n) (fun env env' => List.Forall₂ (Value.Alpha env env'))
      (Expr.evalAllWith call frame es m) (Expr.evalAllWith call' frame es' n) := by
  induction es generalizing m n es' with
  | nil =>
    cases halpha
    exact .ok (.refl h) .nil
  | cons e es ih =>
    cases halpha with
    | cons he hrest =>
      refine .andThen (hes e List.mem_cons_self h hscoped he) fun v w m₁ n₁ hgrown hv => ?_
      have hall := ih (fun e' he' => hes e' (List.mem_cons_of_mem _ he')) hgrown.alpha
        (hgrown.scope hscoped) hrest
      refine .andThen hall fun vs ws m₂ n₂ hgrown' hvs => ?_
      exact .ok (.refl hgrown'.alpha) (.cons (hgrown'.value hv) hvs)

theorem agrees_deref (h : m.Alpha n) {target target' : Expr} {v w : Value}
    (hv : Value.Alpha m.env n.env v w) :
    Agrees (Grown m n) Value.Alpha (Expr.derefValue target v m)
      (Expr.derefValue target' w n) := by
  cases hv with
  | pointer p =>
    rw [Discipline.derefValue_pointer, Discipline.derefValue_pointer, h.cells]
    cases p.checked with
    | error f => exact .error (.refl h) rfl
    | ok index => exact agrees_lift h fun v hv => m.store.read_plain hv
  | num _ | bool _ | prim _ | keyword _ | closure _ _ => exact .fault h rfl

theorem agrees_move (h : m.Alpha n) {e e' : Expr} (op : Operator) {v w v' w' : Value}
    (hv : Value.Alpha m.env n.env v w) (hv' : Value.Alpha m.env n.env v' w') :
    Agrees (Grown m n) Value.Alpha (Expr.moveValue e op v v' m) (Expr.moveValue e' op w w' n) := by
  cases hv with
  | pointer p =>
    cases hv' with
    | num x =>
      change Agrees _ _
        ((Eval.liftIn e (p.offset op x m.store.capacity) >>= fun q => pure (Value.pointer q)) m)
        ((Eval.liftIn e' (p.offset op x n.store.capacity) >>= fun q => pure (Value.pointer q)) n)
      rw [h.cells]
      cases p.offset op x m.store.capacity with
      | error f => exact .error (.refl h) rfl
      | ok q => exact .ok (.refl h) (.pointer q)
    | bool _ | prim _ | pointer _ | keyword _ | closure _ _ => exact .fault h rfl
  | num _ | bool _ | prim _ | keyword _ | closure _ _ => exact .fault h rfl

theorem agrees_allocate (h : m.Alpha n) (type : CellType) (size : Nat) :
    Agrees (Grown m n) Value.Alpha (Eval.allocate type size m) (Eval.allocate type size n) := by
  unfold Eval.allocate
  rw [h.cells]
  cases m.store.allocate size with
  | error f => exact .fault h rfl
  | ok b => exact .ok ⟨⟨h.wellFormed, rfl, h.frames⟩, .refl _, .refl _⟩ (.pointer _)

/-- Every expression is evaluated in step when calls are. -/
theorem evaluates (hcall : Calls call call') (e : Expr) : Evaluates call call' e := by
  induction e using Expr.inductOn with
  | var name =>
    intro m n frame pairs e' h hscoped halpha
    cases halpha with
    | var hrefers => exact agrees_lookup h hscoped hrefers
  | num x =>
    intro m n frame pairs e' h _ halpha
    cases halpha
    exact .ok (.refl h) (.num x)
  | bool b =>
    intro m n frame pairs e' h _ halpha
    cases halpha
    exact .ok (.refl h) (.bool b)
  | keyword t =>
    intro m n frame pairs e' h _ halpha
    cases halpha
    exact .ok (.refl h) (.keyword t)
  | lambda param body _ =>
    intro m n frame pairs e' h hscoped halpha
    cases halpha with
    | lambda hbody => exact .ok (.refl h) (.closure hscoped hbody)
  | app head args ihHead ihArgs =>
    intro m n frame pairs e' h hscoped halpha
    cases halpha with
    | app hhead hargs =>
      refine .andThen (ihHead h hscoped hhead) fun callee callee' m₁ n₁ hgrown hcallee => ?_
      have hall := agrees_all ihArgs hgrown.alpha (hgrown.scope hscoped) hargs
      refine .andThen hall fun vs ws m₂ n₂ hgrown' hvs => ?_
      exact agrees_apply hcall hgrown'.alpha (hgrown'.value hcallee) hvs
  | cond g t f ihGuard ihThen ihElse =>
    intro m n frame pairs e' h hscoped halpha
    cases halpha with
    | cond hguard hthen helse =>
      refine .andThen (ihGuard h hscoped hguard) fun v w m₁ n₁ hgrown hv => ?_
      cases hv with
      | bool b =>
        cases b with
        | true => exact ihThen hgrown.alpha (hgrown.scope hscoped) hthen
        | false => exact ihElse hgrown.alpha (hgrown.scope hscoped) helse
      | num _ | prim _ | pointer _ | keyword _ | closure _ _ => exact .fault hgrown.alpha rfl
  | new type size ihType =>
    intro m n frame pairs e' h hscoped halpha
    cases halpha with
    | new _ htype =>
      refine .andThen (ihType h hscoped htype) fun v w m₁ n₁ hgrown hv => ?_
      cases hv with
      | keyword t => exact agrees_allocate hgrown.alpha t size
      | num _ | bool _ | prim _ | pointer _ | closure _ _ => exact .fault hgrown.alpha rfl
  | deref target ihTarget =>
    intro m n frame pairs e' h hscoped halpha
    cases halpha with
    | deref htarget =>
      exact .andThen (ihTarget h hscoped htarget) fun v w m₁ n₁ hgrown hv =>
        agrees_deref hgrown.alpha hv
  | move op p o ihPointer ihOffset =>
    intro m n frame pairs e' h hscoped halpha
    cases halpha with
    | move _ hpointer hoffset =>
      refine .andThen (ihPointer h hscoped hpointer) fun v w m₁ n₁ hgrown hv => ?_
      refine .andThen (ihOffset hgrown.alpha (hgrown.scope hscoped) hoffset)
        fun v' w' m₂ n₂ hgrown' hv' => ?_
      exact agrees_move hgrown'.alpha op (hgrown'.value hv) hv'

/-- A call that gives its frames back leaves both machines as they were, but for the store. -/
theorem agrees_settle {m₀ n₀ : Machine} {result result' : Except RuntimeError Value × Machine}
    (h : m.Alpha n) (hkept : m.env.Extends m₀.env) (hkept' : n.env.Extends n₀.env)
    (hbody : Agrees (Grown m₀ n₀) Value.Alpha result result') :
    Agrees (Grown m n) Value.Alpha (result.1, result.2.settle m.env.size result.1)
      (result'.1, result'.2.settle m.env.size result'.1) := by
  have hback : ∀ {m' n' : Machine}, Grown m₀ n₀ m' n' →
      Grown m n ⟨m'.env.release m.env.size, m'.store⟩ ⟨n'.env.release m.env.size, n'.store⟩ := by
    intro m' n' hgrown
    have hpos := h.wellFormed.size_pos
    rw [(hkept.trans hgrown.kept).release_eq hpos, ← h.size_eq,
      (hkept'.trans hgrown.kept').release_eq (h.size_eq ▸ hpos)]
    exact ⟨⟨h.wellFormed, hgrown.alpha.cells, h.frames⟩, .refl _, .refl _⟩
  cases hbody with
  | error hgrown hkind => exact .error (hback hgrown) hkind
  | ok hgrown hvalue =>
    next v w m' n' =>
    cases hclosure : v.isClosure with
    | true =>
      rw [Machine.settle_closure m' _ hclosure,
        Machine.settle_closure n' _ (hvalue.isClosure_eq.trans hclosure)]
      exact .ok ⟨hgrown.alpha, hkept.trans hgrown.kept, hkept'.trans hgrown.kept'⟩ hvalue
    | false =>
      rw [Machine.settle_other m' _ hclosure,
        Machine.settle_other n' _ (hvalue.isClosure_eq.trans hclosure)]
      exact .ok (hback hgrown) (hvalue.of_not_closure hclosure)

/-- Calls are in step, however many of them may still be nested. -/
theorem calls_callAt (limit left : Nat) : Calls (callAt limit left) (callAt limit left) := by
  induction left with
  | zero => exact fun h _ _ => .fault h rfl
  | succ left ih =>
    intro m n c c' v w h hclosure hv
    cases hclosure with
    | @closure x y b b' frame pairs hscoped hbody =>
      have hext := Environment.Extends.extend m.env frame x v
      have hext' := Environment.Extends.extend n.env frame y w
      obtain ⟨henter, hscoped'⟩ := h.enter hscoped hv (x := x) (y := y) (b := b) (c := b')
      have hrun := evaluates ih b henter hscoped' hbody
      rw [callAt_succ, callAt_succ, h.size_eq]
      exact agrees_settle h hext hext' hrun

theorem agrees_eval (limit : Nat) (h : m.Alpha n) {e e' : Expr} (halpha : Expr.Alpha [] e e') :
    Agrees (Grown m n) Value.Alpha (e.eval limit FrameId.global m)
      (e'.eval limit FrameId.global n) :=
  evaluates (calls_callAt limit limit) e h .global halpha

/-! ## Statements in step -/

theorem binds_eq {env env' : Environment} {f g : Frame} (h : Frame.GlobalAlpha env env' f g)
    (name : String) : f.binds name = g.binds name :=
  isSome_eq_of_rel (rel_lookup h.bindings name)

theorem global_insert {env env' : Environment} {f g : Frame} {name : String} {v w : Value}
    (h : Frame.GlobalAlpha env env' f g) (hv : Value.Alpha env env' v w) :
    Frame.GlobalAlpha env env' (f.insert name v) (g.insert name w) :=
  ⟨h.parent, h.parent', .cons ⟨rfl, hv⟩ h.bindings⟩

theorem global_replace {env env' : Environment} {f g : Frame} {name : String} {v w : Value}
    (h : Frame.GlobalAlpha env env' f g) (hv : Value.Alpha env env' v w) :
    Frame.GlobalAlpha env env' (f.replace name v) (g.replace name w) := by
  refine ⟨h.parent, h.parent', ?_⟩
  refine List.forall₂_map_left_iff.2 (List.forall₂_map_right_iff.2 (h.bindings.imp ?_))
  rintro ⟨n, a⟩ ⟨n', b⟩ ⟨hname, hab⟩
  obtain rfl : n = n' := hname
  dsimp only
  by_cases heq : n = name
  · rw [if_pos heq, if_pos heq]
    exact ⟨rfl, hv⟩
  · rw [if_neg heq, if_neg heq]
    exact ⟨rfl, hab⟩

theorem keepsCalls_modify {env : Environment} {f : Frame}
    (hf : env.frames[FrameId.global]? = some f) (hnone : f.parent = none)
    (change : Frame → Frame) : KeepsCalls env ⟨env.frames.modify FrameId.global change⟩ := by
  intro i g hg hparent
  have hi : FrameId.global ≠ i := by
    rintro rfl
    obtain rfl := Option.some.inj (hf.symm.trans hg)
    exact hparent hnone
  rw [Array.getElem?_modify, if_neg hi]
  exact hg

/-- The global frames may be changed to ones that still go together. -/
theorem alpha_modify (h : m.Alpha n) {f g : Frame} {change change' : Frame → Frame}
    (hf : m.env.frames[FrameId.global]? = some f) (hg : n.env.frames[FrameId.global]? = some g)
    (hfg : Frame.GlobalAlpha m.env n.env f g)
    (hwf : Environment.WellFormed ⟨m.env.frames.modify FrameId.global change⟩)
    (hchange : Frame.GlobalAlpha m.env n.env (change f) (change' g)) :
    Machine.Alpha ⟨⟨m.env.frames.modify FrameId.global change⟩, m.store⟩
      ⟨⟨n.env.frames.modify FrameId.global change'⟩, n.store⟩ := by
  have hkeeps := keepsCalls_modify hf hfg.parent change
  have hkeeps' := keepsCalls_modify hg hfg.parent' change'
  refine ⟨hwf, h.cells, fun i => Frame.Alpha.rel_mono hkeeps hkeeps' ?_⟩
  rw [Array.getElem?_modify, Array.getElem?_modify]
  by_cases hi : FrameId.global = i
  · rw [if_pos hi, if_pos hi, ← hi, hf, hg]
    exact .some ⟨hchange.parent'.trans hchange.parent.symm,
      hchange.bindings.imp fun _ _ hb => ⟨fun _ => hb.1, hb.2⟩⟩
  · rw [if_neg hi, if_neg hi]
    exact h.frames i

theorem agrees_define (h : m.Alpha n) (name : String) {v w : Value}
    (hv : Value.Alpha m.env n.env v w) :
    Agrees Machine.Alpha (fun _ _ => Eq)
      (Eval.putEnvironment (m.env.define FrameId.global name v) m)
      (Eval.putEnvironment (n.env.define FrameId.global name w) n) := by
  obtain ⟨f, g, hf, hg, hfg⟩ := h.global
  have hdefine := Environment.define_global hf name v
  rw [Environment.define_global hg, ← binds_eq hfg, hdefine]
  cases hbinds : f.binds name with
  | true => exact .error h rfl
  | false =>
    rw [hbinds] at hdefine
    have hwf := h.wellFormed.rebinds (Environment.rebinds_of_define hdefine)
      (hv.capturesBelow h.wellFormed)
    exact .ok (alpha_modify h hf hg hfg hwf (global_insert hfg hv)) rfl

theorem agrees_assign (h : m.Alpha n) (name : String) {v w : Value}
    (hv : Value.Alpha m.env n.env v w) :
    Agrees Machine.Alpha (fun _ _ => Eq)
      (Eval.putEnvironment (m.env.assign FrameId.global name v) m)
      (Eval.putEnvironment (n.env.assign FrameId.global name w) n) := by
  obtain ⟨f, g, hf, hg, hfg⟩ := h.global
  have hassign := Environment.assign_global hf name v
  rw [Environment.assign_global hg, ← binds_eq hfg, hassign]
  cases hbinds : f.binds name with
  | false => exact .error h rfl
  | true =>
    rw [hbinds] at hassign
    have hwf := h.wellFormed.rebinds (Environment.rebinds_of_assign hassign)
      (hv.capturesBelow h.wellFormed)
    exact .ok (alpha_modify h hf hg hfg hwf (global_replace hfg hv)) rfl

theorem agrees_assignTo (h : m.Alpha n) {location location' : Expr} {target target' v w : Value}
    (hlocation : Expr.Alpha [] location location')
    (htarget : Value.Alpha m.env n.env target target') (hv : Value.Alpha m.env n.env v w) :
    Agrees Machine.Alpha (fun _ _ => Eq) (Stmt.assignTo location target v m)
      (Stmt.assignTo location' target' w n) := by
  by_cases hpointer : ∃ p, target = .pointer p
  · obtain ⟨p, rfl⟩ := hpointer
    cases htarget
    rw [Discipline.assignTo_pointer, Discipline.assignTo_pointer, h.cells]
    cases p.checked with
    | error f => exact .error h rfl
    | ok index =>
      dsimp only
      rw [← m.store.write_bare index w, hv.bare_eq, m.store.write_bare]
      cases m.store.write index v with
      | error f => exact .error h rfl
      | ok store => exact .ok ⟨h.wellFormed, rfl, h.frames⟩ rfl
  · have hother : ∀ p, target ≠ .pointer p := fun p hp => hpointer ⟨p, hp⟩
    have hother' : ∀ p, target' ≠ .pointer p := by
      rintro p rfl
      cases htarget
      exact hother p rfl
    rw [Discipline.assignTo_other hother, Discipline.assignTo_other hother']
    cases hlocation with
    | var hname =>
      obtain rfl := hname
      exact agrees_assign h _ hv
    | num _ | bool _ | keyword _ | lambda _ | app _ _ | cond _ _ _ | new _ _ | deref _
    | move _ _ _ => exact .error h rfl

theorem agrees_stmt (limit : Nat) (h : m.Alpha n) {s s' : Stmt} (halpha : s.Alpha s') :
    Agrees Machine.Alpha (fun _ _ => Eq) (s.exec limit m) (s'.exec limit n) := by
  have hends : ∀ {m n : Machine} (m' n' : Machine), Grown m n m' n' → m'.Alpha n' :=
    fun _ _ hgrown => hgrown.alpha
  cases halpha with
  | define name hexpr =>
    refine .bind (agrees_eval limit h hexpr) hends fun v w m₁ n₁ hgrown hv => ?_
    change Agrees _ _
      ((Eval.putEnvironment (m₁.env.define FrameId.global name v) >>= fun _ => pure []) m₁)
      ((Eval.putEnvironment (n₁.env.define FrameId.global name w) >>= fun _ => pure []) n₁)
    exact .bind (agrees_define hgrown.alpha name hv) (fun _ _ h' => h')
      fun _ _ m₂ n₂ h₂ _ => .ok h₂ rfl
  | assign hlocation hexpr =>
    refine .bind (agrees_eval limit h hlocation) hends fun target target' m₁ n₁ hgrown htarget => ?_
    refine .bind (agrees_eval limit hgrown.alpha hexpr) hends fun v w m₂ n₂ hgrown' hv => ?_
    exact .bind (agrees_assignTo hgrown'.alpha hlocation (hgrown'.value htarget) hv)
      (fun _ _ h' => h') fun _ _ m₃ n₃ h₃ _ => .ok h₃ rfl
  | print hexpr =>
    refine .bind (agrees_eval limit h hexpr) hends fun v w m₁ n₁ hgrown hv => ?_
    exact .ok hgrown.alpha (by rw [hv.text_eq])

theorem agrees_stmts (limit : Nat) {ss ts : List Stmt} (halpha : List.Forall₂ Stmt.Alpha ss ts)
    (h : m.Alpha n) :
    Agrees Machine.Alpha (fun _ _ => Eq) (Stmt.execAll limit ss m) (Stmt.execAll limit ts n) := by
  induction halpha generalizing m n with
  | nil => exact .ok h rfl
  | cons hst _ ih =>
    refine .bind (agrees_stmt limit h hst) (fun _ _ h' => h') ?_
    rintro lines _ m₁ n₁ h₁ rfl
    refine .bind (ih h₁) (fun _ _ h' => h') ?_
    rintro more _ m₂ n₂ h₂ rfl
    exact .ok h₂ rfl

theorem alpha_fresh (capacity : Nat) : (Machine.fresh capacity).Alpha (.fresh capacity) := by
  refine ⟨.withPrimitives, rfl, fun i => ?_⟩
  cases hf : (Machine.fresh capacity).env.frames[i]? with
  | none => exact .none
  | some f =>
    refine .some ⟨rfl, List.forall₂_same.2 fun b hb => ⟨fun _ => rfl, ?_⟩⟩
    have hprims : Environment.withPrimitives.Each fun v => v.isPlain = true :=
      .withPrimitives fun _ => rfl
    exact .of_plain (hprims b.2 ⟨i, f, b.1, hf, hb⟩)

end Alpha

/-- The global bindings, each with what a program prints for its value. -/
def Environment.globalTexts (env : Environment) : List (String × String) :=
  match env.frames[FrameId.global]? with
  | some f => f.bindings.map fun b => (b.1, b.2.text)
  | none => []

theorem Machine.Alpha.globalTexts_eq {m n : Machine} (h : m.Alpha n) :
    n.env.globalTexts = m.env.globalTexts := by
  obtain ⟨f, g, hf, hg, hfg⟩ := h.global
  rw [Environment.globalTexts, Environment.globalTexts, hf, hg]
  refine (map_eq_of_forall₂ (hfg.bindings.imp fun b c hb => ?_)).symm
  rw [hb.1, hb.2.text_eq]

namespace Session

/-- Parameter names do not matter. If one parameter anywhere in a program is renamed, to a name that
the body of its function does not mention, the program run in a new session has the same output or
fails with an error of the same kind; it leaves the same store, as many frames, and global bindings
that print the same. -/
theorem parameter_names_do_not_matter (settings : Settings) {p q : Program} (h : p.Renames q) :
    let run := (ofSettings settings).runProgram p
    let run' := (ofSettings settings).runProgram q
    run'.1.mapError RuntimeError.kind = run.1.mapError RuntimeError.kind ∧
      run'.2.machine.store = run.2.machine.store ∧
      run'.2.machine.env.size = run.2.machine.env.size ∧
      run'.2.machine.env.globalTexts = run.2.machine.env.globalTexts := by
  intro run run'
  have hagrees := Alpha.agrees_stmts settings.maxDepth h.alpha (Alpha.alpha_fresh settings.capacity)
  have halpha := hagrees.ends
  exact ⟨hagrees.kind_eq, halpha.cells, halpha.size_eq, halpha.globalTexts_eq⟩

theorem parameter_names_do_not_matter_for_name_of_primitive :
    let choose (x : String) : Expr := .lambda "z" (.app (.lambda "x" (.var "x"))
      [.cond (.var "z") (.var x) (.var "z")])
    let program (x : String) : Program := ⟨[.define "f" (.app (.lambda x (choose x)) [.bool true]),
      .print (.app (.var "f") [.bool true])]⟩
    "not" ∉ (choose "x").names ∧ (program "x").Renames (program "not") ∧
      ((ofSettings ⟨1, 2⟩).runProgram (program "x")).1 = .ok ["true"] ∧
      ((ofSettings ⟨1, 2⟩).runProgram (program "not")).1.mapError RuntimeError.kind =
        .ok ["true"] := by
  intro choose program
  have hfresh : "not" ∉ (choose "x").names := by decide
  have hrename : (choose "x").rename "x" "not" = choose "not" := by
    simp [choose, Expr.rename, Expr.renameAll]
  have hrenames : (program "x").Renames (program "not") := by
    have hhere := Expr.Renames.here (x := "x") hfresh
    rw [hrename] at hhere
    exact @Program.Renames.stmt _ _ [] _ (.define (.head hhere))
  have hrun : ((ofSettings ⟨1, 2⟩).runProgram (program "x")).1 = .ok ["true"] := by
    unfold program choose
    with_unfolding_all rfl
  refine ⟨hfresh, hrenames, hrun, ?_⟩
  rw [(parameter_names_do_not_matter ⟨1, 2⟩ hrenames).1, hrun]
  rfl

end Session

end CellLang

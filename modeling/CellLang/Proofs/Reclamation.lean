import CellLang.Proofs.Chain
import CellLang.Proofs.Frames
import Mathlib.Data.List.Forall2

/-!
# Reclaiming frames cannot be observed

The evaluator with frame positions, which drops the frames of finished calls, and the one with
chains, which keeps everything, go through every run in step. A closure here stands for a closure
there when the bindings read along the parents of its frame are those of the chain. What makes this
survive a reclaimed frame is that a call which returns no closure leaves the caller's environment
exactly as it found it.
-/

namespace CellLang

/-- The value with the frame of a closure left out. -/
def Value.withoutFrame : Value → Value
  | .closure c => .closure { c with frame := FrameId.global }
  | v => v

/-- The value with all of a closure left out but that it is one. -/
def Value.bare : Value → Value
  | .closure _ => .closure ⟨"", .bool false, FrameId.global⟩
  | v => v

theorem Value.bare_withoutFrame (v : Value) : v.withoutFrame.bare = v.bare := by
  cases v <;> rfl

theorem Value.text_bare (v : Value) : v.bare.text = v.text := by
  cases v <;> rfl

theorem Value.text_withoutFrame (v : Value) : v.withoutFrame.text = v.text := by
  rw [← text_bare, bare_withoutFrame, text_bare]

theorem Store.write_bare (s : Store) (i : Nat) (v : Value) : s.write i v.bare = s.write i v := by
  cases v <;> rfl

theorem Store.write_withoutFrame (s : Store) (i : Nat) (v : Value) :
    s.write i v.withoutFrame = s.write i v := by
  rw [← write_bare, Value.bare_withoutFrame, write_bare]

namespace Primitive

theorem two_bare (p : Primitive) (args : List Value) :
    p.two (args.map Value.bare) = (p.two args).map fun (a, b) => (a.bare, b.bare) := by
  match args with
  | [] | [_] | [_, _] => rfl
  | _ :: _ :: _ :: _ =>
    simp only [two, List.map_cons, List.length_cons, List.length_map]
    rfl

theorem twoNumbers_bare (p : Primitive) (args : List Value) :
    p.twoNumbers (args.map Value.bare) = p.twoNumbers args := by
  unfold twoNumbers
  rw [two_bare]
  rcases p.two args with _ | ⟨a, b⟩
  · rfl
  · cases a <;> cases b <;> rfl

theorem twoBooleans_bare (p : Primitive) (args : List Value) :
    p.twoBooleans (args.map Value.bare) = p.twoBooleans args := by
  unfold twoBooleans
  rw [two_bare]
  rcases p.two args with _ | ⟨a, b⟩
  · rfl
  · cases a <;> cases b <;> rfl

theorem equality_bare (args : List Value) : equality (args.map Value.bare) = equality args := by
  unfold equality
  rw [two_bare]
  rcases Primitive.eq.two args with _ | ⟨a, b⟩
  · rfl
  · cases a <;> cases b <;> rfl

theorem negation_bare (args : List Value) : negation (args.map Value.bare) = negation args := by
  match args with
  | [] => rfl
  | [a] => cases a <;> rfl
  | a :: _ :: _ => cases a <;> simp [negation, Value.bare]

/-- A primitive does not look into a closure. -/
theorem call_bare (p : Primitive) (args : List Value) :
    p.call (args.map Value.bare) = p.call args := by
  cases p with
  | add | sub | mul => simp only [call, arithmetic, twoNumbers_bare]
  | lt | le | gt | ge => simp only [call, comparison, twoNumbers_bare]
  | and | or => simp only [call, connective, twoBooleans_bare]
  | div => simp only [call, divide, twoNumbers_bare]
  | eq => exact equality_bare args
  | not => exact negation_bare args

theorem call_withoutFrame (p : Primitive) (args : List Value) :
    p.call (args.map Value.withoutFrame) = p.call args := by
  rw [← call_bare, List.map_map, ← call_bare p args]
  exact congrArg p.call (List.map_congr_left fun v _ => v.bare_withoutFrame)

end Primitive

/-! ## Lists whose items go together -/

theorem map_eq_of_forall₂ {α β γ : Type} {f : α → γ} {g : β → γ} {as : List α} {bs : List β}
    (h : List.Forall₂ (fun a b => f a = g b) as bs) : as.map f = bs.map g := by
  induction h with
  | nil => rfl
  | cons hab _ ih => rw [List.map_cons, List.map_cons, hab, ih]

/-- A name stands on both sides for values that go together, if bindings of one name do. -/
theorem rel_lookup {α β : Type} {R : α → β → Prop} {bs : List (String × α)}
    {cs : List (String × β)} (h : List.Forall₂ (fun b c => b.1 = c.1 ∧ R b.2 c.2) bs cs)
    (name : String) : Option.Rel R (bs.lookup name) (cs.lookup name) := by
  induction h with
  | nil => exact .none
  | @cons b c bs cs hb _ ih =>
    obtain ⟨n, v⟩ := b
    obtain ⟨n', w⟩ := c
    obtain ⟨rfl, hv⟩ : n = n' ∧ R v w := hb
    rw [List.lookup_cons, List.lookup_cons]
    cases name == n with
    | true => exact .some hv
    | false => exact ih

theorem isSome_eq_of_rel {α β : Type} {R : α → β → Prop} {a : Option α} {b : Option β}
    (h : Option.Rel R a b) : a.isSome = b.isSome := by
  cases h <;> rfl

namespace Chain

mutual

/-- A value of the machine with frames stands for one with chains. -/
inductive Represents (env : Environment) : CellLang.Value → Value → Prop
  | num (x : Binary64) : Represents env (.num x) (.num x)
  | bool (b : Bool) : Represents env (.bool b) (.bool b)
  | prim (p : Primitive) : Represents env (.prim p) (.prim p)
  | pointer (p : Pointer) : Represents env (.pointer p) (.pointer p)
  | keyword (t : CellType) : Represents env (.keyword t) (.keyword t)
  | closure {param : String} {body : Expr} {frame : FrameId} {scope : Scope} :
      Reads env frame scope →
      Represents env (.closure ⟨param, body, frame⟩) (.closure param body scope)

/-- The bindings read from the frame outwards, up to the global frame, are those of the chain. -/
inductive Reads (env : Environment) : FrameId → Scope → Prop
  | global : Reads env FrameId.global .global
  | bind {id parent : FrameId} {name : String} {v : CellLang.Value} {w : Value} {outer : Scope} :
      env.frames[id]? = some ⟨[(name, v)], some parent⟩ → Represents env v w →
      Reads env parent outer → Reads env id (.bind name w outer)

end

/-- Every call frame of the first environment is the same frame of the second. -/
def KeepsCalls (env later : Environment) : Prop :=
  ∀ (i : Nat) (f : Frame), env.frames[i]? = some f → f.parent ≠ none → later.frames[i]? = some f

mutual

theorem Represents.mono {env later : Environment} (hkeeps : KeepsCalls env later) :
    ∀ {v w}, Represents env v w → Represents later v w
  | _, _, .num x => .num x
  | _, _, .bool b => .bool b
  | _, _, .prim p => .prim p
  | _, _, .pointer p => .pointer p
  | _, _, .keyword t => .keyword t
  | _, _, .closure hreads => .closure (hreads.mono hkeeps)

theorem Reads.mono {env later : Environment} (hkeeps : KeepsCalls env later) :
    ∀ {id scope}, Reads env id scope → Reads later id scope
  | _, _, .global => .global
  | _, _, .bind hf hv houter =>
    .bind (hkeeps _ _ hf nofun) (hv.mono hkeeps) (houter.mono hkeeps)

end

theorem keepsCalls_of_extends {env later : Environment} (h : env.Extends later) :
    KeepsCalls env later := fun i f hf _ => h i f hf

theorem keepsCalls_of_rebinds {env later : Environment} {v : CellLang.Value}
    (hwf : env.WellFormed) (h : env.Rebinds later v) : KeepsCalls env later := by
  intro i f hf hparent
  rw [h.others i]
  · exact hf
  · rintro rfl
    obtain ⟨g, hg, hnone, _⟩ := hwf.global
    obtain rfl : g = f := Option.some.inj (hg.symm.trans hf)
    exact hparent hnone

theorem Reads.lt_size {env : Environment} (hwf : env.WellFormed) {id : FrameId} {scope : Scope}
    (h : Reads env id scope) : id < env.size := by
  cases h with
  | global => exact hwf.size_pos
  | bind hf _ _ => exact Environment.lt_size hf

theorem Represents.capturesBelow {env : Environment} (hwf : env.WellFormed) {v : CellLang.Value}
    {w : Value} (h : Represents env v w) : v.CapturesBelow env.size := by
  cases h with
  | closure hreads => exact hreads.lt_size hwf
  | num _ | bool _ | prim _ | pointer _ | keyword _ => trivial

theorem Represents.seen {env : Environment} {v : CellLang.Value} {w : Value}
    (h : Represents env v w) : w.seen = v.withoutFrame := by
  cases h <;> rfl

/-- Values other than closures stand for the same value in every environment. -/
theorem Represents.of_not_closure {env other : Environment} {v : CellLang.Value} {w : Value}
    (h : Represents env v w) (hv : v.isClosure = false) : Represents other v w := by
  cases h with
  | closure _ => cases hv
  | num x => exact .num x
  | bool b => exact .bool b
  | prim p => exact .prim p
  | pointer p => exact .pointer p
  | keyword t => exact .keyword t

theorem represents_ofSeen {env : Environment} {v : CellLang.Value} (hv : v.isPlain = true) :
    Represents env v (.ofSeen v) := by
  cases v with
  | closure _ | pointer _ => cases hv
  | num x => exact .num x
  | bool b => exact .bool b
  | prim p => exact .prim p
  | keyword t => exact .keyword t

theorem seen_of_forall₂ {env : Environment} {vs : List CellLang.Value} {ws : List Value}
    (h : List.Forall₂ (Represents env) vs ws) :
    ws.map Value.seen = vs.map CellLang.Value.withoutFrame :=
  (map_eq_of_forall₂ (h.imp fun _ _ hv => hv.seen.symm)).symm

/-! ## Machines in step -/

/-- A global binding stands for another one of the same name. -/
def BindingMatches (env : Environment) (b : String × CellLang.Value) (c : String × Value) : Prop :=
  b.1 = c.1 ∧ Represents env b.2 c.2

structure Matches (m : CellLang.Machine) (r : Machine) : Prop where
  wellFormed : m.env.WellFormed
  cells : r.store = m.store
  globals : ∃ f, m.env.frames[FrameId.global]? = some f ∧
    List.Forall₂ (BindingMatches m.env) f.bindings r.globals

theorem Matches.later {m m' : CellLang.Machine} {r r' : Machine} (h : Matches m r)
    (hwf : m'.env.WellFormed) (hext : m.env.Extends m'.env) (hcells : r'.store = m'.store)
    (hglobals : r'.globals = r.globals) : Matches m' r' := by
  obtain ⟨f, hf, hbindings⟩ := h.globals
  refine ⟨hwf, hcells, f, hext _ f hf, ?_⟩
  rw [hglobals]
  exact hbindings.imp fun b c hb => ⟨hb.1, hb.2.mono (keepsCalls_of_extends hext)⟩

/-- Two values in the relation, or twice the same error. -/
inductive Outcomes {α β : Type} (R : α → β → Prop) :
    Except RuntimeError α → Except RuntimeError β → Prop
  | ok {a : α} {b : β} : R a b → Outcomes R (.ok a) (.ok b)
  | error (e : RuntimeError) : Outcomes R (.error e) (.error e)

/-- From these two machines the computations come to the same outcome and keep the machines in
step. -/
structure InStep {α β : Type} (x : CellLang.Eval α) (y : Eval β) (m : CellLang.Machine)
    (r : Machine) (R : Environment → α → β → Prop) : Prop where
  agrees : Matches (x m).2 (y r).2
  outcome : Outcomes (R (x m).2.env) (x m).1 (y r).1

/-- The computations stay in step, frames that were there are kept, and no global binding
changes. -/
structure Simulates {α β : Type} (x : CellLang.Eval α) (y : Eval β) (m : CellLang.Machine)
    (r : Machine) (R : Environment → α → β → Prop) : Prop extends InStep x y m r R where
  kept : m.env.Extends (x m).2.env
  globals : (y r).2.globals = r.globals

section

variable {α β γ δ : Type} {x : CellLang.Eval α} {y : Eval β} {f : α → CellLang.Eval γ}
  {g : β → Eval δ} {m m' : CellLang.Machine} {r r' : Machine} {R : Environment → α → β → Prop}
  {S : Environment → γ → δ → Prop} {o : Except RuntimeError α} {o' : Except RuntimeError β}

namespace InStep

theorem of_runs (hx : x m = (o, m')) (hy : y r = (o', r')) (hagrees : Matches m' r')
    (houtcome : Outcomes (R m'.env) o o') : InStep x y m r R := by
  constructor
  · rw [hx, hy]; exact hagrees
  · rw [hx, hy]; exact houtcome

/-- Both computations fail with one error, or both return. -/
theorem runs (hx : InStep x y m r R) :
    (∃ e m' r', x m = (.error e, m') ∧ y r = (.error e, r') ∧ Matches m' r') ∨
      ∃ a b m' r', x m = (.ok a, m') ∧ y r = (.ok b, r') ∧ Matches m' r' ∧ R m'.env a b := by
  obtain ⟨hagrees, houtcome⟩ := hx
  rcases hrun : x m with ⟨o, m'⟩
  rcases hrun' : y r with ⟨o', r'⟩
  rw [hrun, hrun'] at hagrees houtcome
  cases houtcome with
  | error e => exact .inl ⟨e, m', r', rfl, rfl, hagrees⟩
  | @ok a b hab => exact .inr ⟨a, b, m', r', rfl, rfl, hagrees, hab⟩

theorem bind (hx : InStep x y m r R)
    (hf : ∀ a b m' r', x m = (.ok a, m') → Matches m' r' → R m'.env a b →
      InStep (f a) (g b) m' r' S) : InStep (x >>= f) (y >>= g) m r S := by
  have hbind := CellLang.Eval.bind_apply x f m
  have hbind' := Eval.bind_apply y g r
  obtain ⟨e, m', r', hrun, hrun', hagrees⟩ | ⟨a, b, m', r', hrun, hrun', hagrees, hab⟩ := hx.runs
  · rw [hrun] at hbind
    rw [hrun'] at hbind'
    exact of_runs hbind hbind' hagrees (.error e)
  · rw [hrun] at hbind
    rw [hrun'] at hbind'
    have hnext := hf a b m' r' hrun hagrees hab
    constructor
    · rw [hbind, hbind']; exact hnext.agrees
    · rw [hbind, hbind']; exact hnext.outcome

end InStep

namespace Simulates

theorem of_runs (hx : x m = (o, m')) (hy : y r = (o', r')) (hagrees : Matches m' r')
    (hkept : m.env.Extends m'.env) (hglobals : r'.globals = r.globals)
    (houtcome : Outcomes (R m'.env) o o') : Simulates x y m r R := by
  refine ⟨.of_runs hx hy hagrees houtcome, ?_, ?_⟩
  · rw [hx]; exact hkept
  · rw [hy]; exact hglobals

/-- Neither computation touches its machine. -/
theorem of_outcomes (hmatches : Matches m r) (hx : x m = (o, m)) (hy : y r = (o', r))
    (houtcome : Outcomes (R m.env) o o') : Simulates x y m r R :=
  of_runs hx hy hmatches (.refl _) rfl houtcome

theorem pure {a : α} {b : β} (hmatches : Matches m r) (hR : R m.env a b) :
    Simulates (pure a) (pure b) m r R :=
  of_outcomes hmatches rfl rfl (.ok hR)

theorem fault {e : Fault} (hmatches : Matches m r) :
    Simulates (CellLang.Eval.fault e) (Eval.fault e) m r R :=
  of_outcomes hmatches rfl rfl (.error _)

theorem bind (hx : Simulates x y m r R)
    (hf : ∀ a b m' r', Matches m' r' → m.env.Extends m'.env → R m'.env a b →
      Simulates (f a) (g b) m' r' S) : Simulates (x >>= f) (y >>= g) m r S := by
  have hbind := CellLang.Eval.bind_apply x f m
  have hbind' := Eval.bind_apply y g r
  have hkept := hx.kept
  have hglobals := hx.globals
  obtain ⟨e, m', r', hrun, hrun', hagrees⟩ | ⟨a, b, m', r', hrun, hrun', hagrees, hab⟩ :=
    hx.toInStep.runs
  · rw [hrun] at hbind hkept
    rw [hrun'] at hbind' hglobals
    exact of_runs hbind hbind' hagrees hkept hglobals (.error e)
  · rw [hrun] at hbind hkept
    rw [hrun'] at hbind' hglobals
    have hnext := hf a b m' r' hagrees hkept hab
    refine ⟨⟨?_, ?_⟩, ?_, ?_⟩
    · rw [hbind, hbind']; exact hnext.agrees
    · rw [hbind, hbind']; exact hnext.outcome
    · rw [hbind]; exact hkept.trans hnext.kept
    · rw [hbind']; exact hnext.globals.trans hglobals

end Simulates

end

/-! ## Looking up a name -/

/-- A name read from a frame outwards stands for what the chain and the global bindings give it. -/
theorem rel_get? {m : CellLang.Machine} {r : Machine} (h : Matches m r) (name : String) :
    ∀ {scope : Scope} {id : FrameId}, Reads m.env id scope →
      Option.Rel (Represents m.env) (m.env.get? id name)
        ((scope.find? name).or (r.globals.lookup name))
  | .global, _, hreads => by
    cases hreads
    obtain ⟨f, hf, hbindings⟩ := h.globals
    obtain ⟨g, hg, hnone, _⟩ := h.wellFormed.global
    obtain rfl : g = f := Option.some.inj (hg.symm.trans hf)
    rw [Environment.get?_of_no_parent hf hnone]
    exact rel_lookup hbindings name
  | .bind n w outer, id, hreads => by
    cases hreads with
    | @bind _ parent _ v _ _ hf hv houter =>
      rw [Environment.get?_of_parent hf rfl (h.wellFormed.parent_lt hf rfl), Frame.find?,
        List.lookup_cons, Scope.find?]
      cases name == n with
      | true => exact .some hv
      | false => exact rel_get? h name houter

/-! ## Evaluation in step -/

/-- Calls of closures that stand for each other, on such arguments, stay in step. -/
def CallsMatch (call : CellLang.Caller) (call' : Caller) : Prop :=
  ∀ {m : CellLang.Machine} {r : Machine} {c : Closure} {scope : Scope} {v : CellLang.Value}
    {w : Value}, Matches m r → Reads m.env c.frame scope → Represents m.env v w →
    Simulates (call c v) (call' c.param c.body scope w) m r Represents

/-- The expression is evaluated in step wherever frame and chain read the same bindings. -/
def EvaluatesInStep (call : CellLang.Caller) (call' : Caller) (e : Expr) : Prop :=
  ∀ {m : CellLang.Machine} {r : Machine} {frame : FrameId} {scope : Scope}, Matches m r →
    Reads m.env frame scope →
    Simulates (e.evalWith call frame) (evalWith call' scope e) m r Represents

variable {call : CellLang.Caller} {call' : Caller} {m : CellLang.Machine} {r : Machine}

theorem simulates_lookup {frame : FrameId} {scope : Scope} (h : Matches m r)
    (hreads : Reads m.env frame scope) (name : String) :
    Simulates (Expr.evalWith call frame (.var name)) (Eval.lookup scope name) m r Represents := by
  have hrel := rel_get? h name hreads
  have hrun : Expr.evalWith call frame (.var name) m =
      CellLang.Eval.lift (m.env.lookup frame name) m := rfl
  rw [Environment.lookup] at hrun
  have hrun' : Eval.lookup scope name r = Eval.lift (r.lookup scope name) r := rfl
  rw [Machine.lookup] at hrun'
  generalize m.env.get? frame name = found at hrel hrun
  generalize (scope.find? name).or (r.globals.lookup name) = found' at hrel hrun'
  cases hrel with
  | none => exact .of_outcomes h hrun hrun' (.error _)
  | some hv => exact .of_outcomes h hrun hrun' (.ok hv)

/-- What a primitive or the store returns is the same on both sides. -/
theorem simulates_lift {result : Except Fault CellLang.Value} (h : Matches m r)
    (hplain : ∀ v, result = .ok v → v.isPlain = true) :
    Simulates (CellLang.Eval.lift result) (Eval.lift (result.map Value.ofSeen)) m r Represents := by
  cases result with
  | error f => exact .fault h
  | ok v => exact .pure h (represents_ofSeen (hplain v rfl))

theorem simulates_apply (hcall : CallsMatch call call') {callee : CellLang.Value} {callee' : Value}
    {args : List CellLang.Value} {args' : List Value} (h : Matches m r)
    (hcallee : Represents m.env callee callee')
    (hargs : List.Forall₂ (Represents m.env) args args') :
    Simulates (callee.applyWith call args) (applyWith call' callee' args') m r Represents := by
  cases hcallee with
  | closure hreads =>
    have hlength := hargs.length_eq
    cases hargs with
    | nil => exact .fault h
    | @cons v w vs ws hv hvs =>
      cases hvs with
      | nil => exact hcall h hreads hv
      | cons _ _ =>
        simp only [CellLang.Value.applyWith, CellLang.Value.applyIn, applyWith, hlength]
        exact .fault h
  | prim p =>
    simp only [CellLang.Value.applyWith, CellLang.Value.applyIn, applyWith, seen_of_forall₂ hargs,
      Primitive.call_withoutFrame]
    refine simulates_lift h fun v hv => ?_
    have hplain := p.call_plain args
    rw [hv] at hplain
    exact hplain
  | num _ | bool _ | pointer _ | keyword _ => exact .fault h

theorem simulates_all {es : List Expr} (hes : ∀ e ∈ es, EvaluatesInStep call call' e)
    {frame : FrameId} {scope : Scope} (h : Matches m r) (hreads : Reads m.env frame scope) :
    Simulates (Expr.evalAllWith call frame es) (evalAllWith call' scope es) m r
      fun env => List.Forall₂ (Represents env) := by
  induction es generalizing m r with
  | nil => exact .pure h .nil
  | cons e es ih =>
    refine .bind (hes e List.mem_cons_self h hreads) fun v w m₁ r₁ h₁ hext hv => ?_
    have hkeeps := keepsCalls_of_extends hext
    have hrest := ih (fun e' he' => hes e' (List.mem_cons_of_mem _ he')) h₁ (hreads.mono hkeeps)
    refine .bind hrest fun vs ws m₂ r₂ h₂ hext' hvs => ?_
    exact .pure h₂ (.cons (hv.mono (keepsCalls_of_extends hext')) hvs)

theorem simulates_liftIn {α : Type} (e : Expr) (result : Except Fault α) (h : Matches m r) :
    Simulates (CellLang.Eval.liftIn e result) (Eval.liftIn e result) m r fun _ => Eq := by
  cases result with
  | error f => exact .of_outcomes h rfl rfl (.error _)
  | ok a => exact .pure h rfl

theorem simulates_store (h : Matches m r) :
    Simulates CellLang.Eval.store Eval.store m r fun _ => Eq :=
  .of_outcomes h rfl rfl (.ok h.cells.symm)

theorem simulates_deref {target : Expr} {v : CellLang.Value} {w : Value} (h : Matches m r)
    (hv : Represents m.env v w) :
    Simulates (Expr.derefValue target v) (derefValue target w) m r Represents := by
  cases hv with
  | pointer p =>
    refine .bind (simulates_liftIn (.deref target) p.checked h) ?_
    rintro index _ m₁ r₁ h₁ _ rfl
    refine .bind (simulates_store h₁) ?_
    rintro store _ m₂ r₂ h₂ _ rfl
    exact simulates_lift h₂ fun v hv => store.read_plain hv
  | num _ | bool _ | prim _ | keyword _ | closure _ => exact .fault h

theorem simulates_move {e : Expr} {op : Operator} {v₁ v₂ : CellLang.Value} {w₁ w₂ : Value}
    (h : Matches m r) (hv₁ : Represents m.env v₁ w₁) (hv₂ : Represents m.env v₂ w₂) :
    Simulates (Expr.moveValue e op v₁ v₂) (moveValue e op w₁ w₂) m r Represents := by
  cases hv₁ with
  | pointer p =>
    cases hv₂ with
    | num x =>
      refine .bind (simulates_store h) ?_
      rintro store _ m₁ r₁ h₁ _ rfl
      refine .bind (simulates_liftIn e (p.offset op x store.capacity) h₁) ?_
      rintro q _ m₂ r₂ h₂ _ rfl
      exact .pure h₂ (.pointer q)
    | bool _ | prim _ | pointer _ | keyword _ | closure _ => exact .fault h
  | num _ | bool _ | prim _ | keyword _ | closure _ => exact .fault h

theorem simulates_allocate (type : CellType) (size : Nat) (h : Matches m r) :
    Simulates (CellLang.Eval.allocate type size) (Eval.allocate type size) m r Represents := by
  cases hallocate : m.store.allocate size with
  | error f =>
    have hrun : CellLang.Eval.allocate type size m = (.error (.of f), m) := by
      rw [CellLang.Eval.allocate, hallocate]
      rfl
    have hrun' : Eval.allocate type size r = (.error (.of f), r) := by
      rw [Eval.allocate, h.cells, hallocate]
      rfl
    exact .of_outcomes h hrun hrun' (.error _)
  | ok b =>
    have hrun : CellLang.Eval.allocate type size m =
        (.ok (.pointer (.atStart b)), ⟨m.env, m.store.fill b (.zero type)⟩) := by
      rw [CellLang.Eval.allocate, hallocate]
    have hrun' : Eval.allocate type size r =
        (.ok (.pointer (.atStart b)), ⟨r.globals, m.store.fill b (.zero type)⟩) := by
      rw [Eval.allocate, h.cells, hallocate]
    exact .of_runs hrun hrun' ⟨h.wellFormed, rfl, h.globals⟩ (.refl _) rfl (.ok (.pointer _))

/-- Every expression is evaluated in step when calls are. -/
theorem evaluatesInStep (hcall : CallsMatch call call') (e : Expr) :
    EvaluatesInStep call call' e := by
  induction e using Expr.inductOn with
  | var name =>
    intro m r frame scope h hreads
    exact simulates_lookup h hreads name
  | num x =>
    intro m r frame scope h _
    exact .pure h (.num x)
  | bool b =>
    intro m r frame scope h _
    exact .pure h (.bool b)
  | keyword t =>
    intro m r frame scope h _
    exact .pure h (.keyword t)
  | lambda param body _ =>
    intro m r frame scope h hreads
    exact .pure h (.closure hreads)
  | app head args ihHead ihArgs =>
    intro m r frame scope h hreads
    refine .bind (ihHead h hreads) fun callee callee' m₁ r₁ h₁ hext hcallee => ?_
    have hargs := simulates_all ihArgs h₁ (hreads.mono (keepsCalls_of_extends hext))
    refine .bind hargs fun vs ws m₂ r₂ h₂ hext' hvs => ?_
    exact simulates_apply hcall h₂ (hcallee.mono (keepsCalls_of_extends hext')) hvs
  | cond g t f ihGuard ihThen ihElse =>
    intro m r frame scope h hreads
    refine .bind (ihGuard h hreads) fun v w m₁ r₁ h₁ hext hv => ?_
    have hreads' := hreads.mono (keepsCalls_of_extends hext)
    cases hv with
    | bool b =>
      cases b with
      | true => exact ihThen h₁ hreads'
      | false => exact ihElse h₁ hreads'
    | num _ | prim _ | pointer _ | keyword _ | closure _ => exact .fault h₁
  | new type size ihType =>
    intro m r frame scope h hreads
    refine .bind (ihType h hreads) fun v w m₁ r₁ h₁ _ hv => ?_
    cases hv with
    | keyword t => exact simulates_allocate t size h₁
    | num _ | bool _ | prim _ | pointer _ | closure _ => exact .fault h₁
  | deref target ihTarget =>
    intro m r frame scope h hreads
    exact .bind (ihTarget h hreads) fun v w m₁ r₁ h₁ _ hv => simulates_deref h₁ hv
  | move op p o ihPointer ihOffset =>
    intro m r frame scope h hreads
    refine .bind (ihPointer h hreads) fun v w m₁ r₁ h₁ hext hv => ?_
    have hoffset := ihOffset h₁ (hreads.mono (keepsCalls_of_extends hext))
    refine .bind hoffset fun v' w' m₂ r₂ h₂ hext' hv' => ?_
    exact simulates_move h₂ (hv.mono (keepsCalls_of_extends hext')) hv'

/-- Calls stay in step, however many of them may still be nested. -/
theorem callsMatch (limit left : Nat) :
    CallsMatch (CellLang.callAt limit left) (callAt limit left) := by
  induction left with
  | zero =>
    intro m r c scope v w h _ _
    exact .fault h
  | succ left ih =>
    intro m r c scope v w h hreads hv
    have hext := Environment.Extends.extend m.env c.frame c.param v
    have hkeeps := keepsCalls_of_extends hext
    have hwf := h.wellFormed.extend (hreads.lt_size h.wellFormed) c.param
      (hv.capturesBelow h.wellFormed)
    have henter : Matches (m.enter c v) r := h.later hwf hext h.cells rfl
    have hbody : Reads (m.enter c v).env m.env.size (.bind c.param w scope) := by
      refine .bind ?_ (hv.mono hkeeps) (hreads.mono hkeeps)
      exact (Environment.frames_extend m.env c.frame c.param v m.env.size).trans (if_pos rfl)
    obtain ⟨⟨hagrees, houtcome⟩, hkept, hglobals⟩ := evaluatesInStep ih c.body henter hbody
    rcases hx : c.body.evalWith (CellLang.callAt limit left) m.env.size (m.enter c v) with ⟨o, m'⟩
    rcases hy : evalWith (callAt limit left) (.bind c.param w scope) c.body r with ⟨o', r'⟩
    have hrun : CellLang.callAt limit (left + 1) c v m = (o, m'.settle m.env.size o) := by
      rw [callAt_succ, hx]
    have hrun' : callAt limit (left + 1) c.param c.body scope w r = (o', r') := hy
    rw [hx] at hkept
    rw [hy] at hglobals
    rw [hx, hy] at hagrees houtcome
    -- a call that gives its frames back leaves the environment of the caller
    have hkept' := hext.trans hkept
    have hback : m'.env.release m.env.size = m.env := hkept'.release_eq h.wellFormed.size_pos
    have hleft : Matches ⟨m'.env.release m.env.size, m'.store⟩ r' := by
      rw [hback]
      exact h.later h.wellFormed (.refl _) hagrees.cells hglobals
    have hkeep : m.env.Extends (m'.env.release m.env.size) := by
      rw [hback]
      exact .refl _
    cases houtcome with
    | error e => exact .of_runs hrun hrun' hleft hkeep hglobals (.error e)
    | @ok a b hab =>
      cases hclosure : a.isClosure with
      | true =>
        rw [Machine.settle_closure m' m.env.size hclosure] at hrun
        exact .of_runs hrun hrun' hagrees hkept' hglobals (.ok hab)
      | false =>
        rw [Machine.settle_other m' m.env.size hclosure] at hrun
        exact .of_runs hrun hrun' hleft hkeep hglobals (.ok (hab.of_not_closure hclosure))

theorem simulates_eval (limit : Nat) (e : Expr) (h : Matches m r) :
    Simulates (e.eval limit FrameId.global) (eval limit e) m r Represents :=
  evaluatesInStep (callsMatch limit limit) e h .global

/-! ## Statements in step -/

/-- Global bindings may be added and replaced by ones that stand for each other. -/
theorem Matches.rebind {env : Environment} {v : CellLang.Value} {w : Value} {g : Frame}
    {globals : List (String × Value)} (h : Matches m r) (hrebinds : m.env.Rebinds env v)
    (hv : Represents m.env v w) (hg : env.frames[FrameId.global]? = some g)
    (hbindings : List.Forall₂ (BindingMatches m.env) g.bindings globals) :
    Matches { m with env } { r with globals } := by
  have hkeeps := keepsCalls_of_rebinds h.wellFormed hrebinds
  refine ⟨h.wellFormed.rebinds hrebinds (hv.capturesBelow h.wellFormed), h.cells, g, hg, ?_⟩
  exact hbindings.imp fun b c hb => ⟨hb.1, hb.2.mono hkeeps⟩

theorem binds_eq_isSome {env : Environment} {f : Frame} {globals : List (String × Value)}
    (h : List.Forall₂ (BindingMatches env) f.bindings globals) (name : String) :
    f.binds name = (globals.lookup name).isSome :=
  isSome_eq_of_rel (rel_lookup h name)

theorem inStep_define {name : String} {v : CellLang.Value} {w : Value} (h : Matches m r)
    (hv : Represents m.env v w) :
    InStep (CellLang.Eval.environment >>= fun env =>
        CellLang.Eval.putEnvironment (env.define FrameId.global name v)) (Eval.define name w) m r
      fun _ => Eq := by
  obtain ⟨f, hf, hbindings⟩ := h.globals
  have hbinds := binds_eq_isSome hbindings name
  have hrun : (CellLang.Eval.environment >>= fun env =>
      CellLang.Eval.putEnvironment (env.define FrameId.global name v)) m =
      CellLang.Eval.putEnvironment (m.env.define FrameId.global name v) m := rfl
  cases hbound : (r.globals.lookup name).isSome with
  | true =>
    rw [hbound] at hbinds
    have hrun' : Eval.define name w r = (.error (.of (.redefinition name)), r) := by
      rw [Eval.define, hbound]
      rfl
    rw [Environment.define_global hf, hbinds] at hrun
    exact .of_runs hrun hrun' h (.error _)
  | false =>
    rw [hbound] at hbinds
    have hrun' : Eval.define name w r = (.ok (), { r with globals := (name, w) :: r.globals }) := by
      rw [Eval.define, hbound]
      rfl
    have hdefine : m.env.define FrameId.global name v =
        .ok ⟨m.env.frames.modify FrameId.global fun f => f.insert name v⟩ := by
      rw [Environment.define_global hf, hbinds]
      rfl
    rw [hdefine] at hrun
    have hnew : List.Forall₂ (BindingMatches m.env) (f.insert name v).bindings
        ((name, w) :: r.globals) := .cons ⟨rfl, hv⟩ hbindings
    refine .of_runs hrun hrun'
      (h.rebind (Environment.rebinds_of_define hdefine) hv ?_ hnew) (.ok rfl)
    rw [Array.getElem?_modify, if_pos rfl, hf]
    rfl

theorem inStep_assign {name : String} {v : CellLang.Value} {w : Value} (h : Matches m r)
    (hv : Represents m.env v w) :
    InStep (CellLang.Eval.environment >>= fun env =>
        CellLang.Eval.putEnvironment (env.assign FrameId.global name v)) (Eval.assign name w) m r
      fun _ => Eq := by
  obtain ⟨f, hf, hbindings⟩ := h.globals
  have hbinds := binds_eq_isSome hbindings name
  have hrun : (CellLang.Eval.environment >>= fun env =>
      CellLang.Eval.putEnvironment (env.assign FrameId.global name v)) m =
      CellLang.Eval.putEnvironment (m.env.assign FrameId.global name v) m := rfl
  cases hbound : (r.globals.lookup name).isSome with
  | false =>
    rw [hbound] at hbinds
    have hrun' : Eval.assign name w r = (.error (.of (.unboundVariable name)), r) := by
      rw [Eval.assign, hbound]
      rfl
    have hassign : m.env.assign FrameId.global name v = .error (.unboundVariable name) := by
      rw [Environment.assign_global hf, hbinds]
      rfl
    rw [hassign] at hrun
    exact .of_runs hrun hrun' h (.error _)
  | true =>
    rw [hbound] at hbinds
    have hrun' : Eval.assign name w r = (.ok (), { r with
        globals := r.globals.map fun b => if b.1 = name then (b.1, w) else b }) := by
      rw [Eval.assign, hbound]
      rfl
    have hassign : m.env.assign FrameId.global name v =
        .ok ⟨m.env.frames.modify FrameId.global fun f => f.replace name v⟩ := by
      rw [Environment.assign_global hf, hbinds]
      rfl
    rw [hassign] at hrun
    have hnew : List.Forall₂ (BindingMatches m.env) (f.replace name v).bindings
        (r.globals.map fun b => if b.1 = name then (b.1, w) else b) := by
      refine List.forall₂_map_left_iff.2 (List.forall₂_map_right_iff.2 (hbindings.imp ?_))
      rintro ⟨n, a⟩ ⟨n', b⟩ ⟨hname, hab⟩
      obtain rfl : n = n' := hname
      by_cases heq : n = name
      · simp only [heq, if_true]
        exact ⟨rfl, hv⟩
      · simp only [heq, if_false]
        exact ⟨rfl, hab⟩
    refine .of_runs hrun hrun'
      (h.rebind (Environment.rebinds_of_assign hassign) hv ?_ hnew) (.ok rfl)
    rw [Array.getElem?_modify, if_pos rfl, hf]
    rfl

theorem inStep_putStore (made : Except Fault Store) (h : Matches m r) :
    InStep (CellLang.Eval.putStore made) (Eval.putStore made) m r fun _ => Eq := by
  cases made with
  | error f => exact .of_runs rfl rfl h (.error _)
  | ok store => exact .of_runs rfl rfl ⟨h.wellFormed, rfl, h.globals⟩ (.ok rfl)

theorem inStep_assignTo {location : Expr} {target v : CellLang.Value} {target' w : Value}
    (h : Matches m r) (htarget : Represents m.env target target') (hv : Represents m.env v w) :
    InStep (Stmt.assignTo location target v) (assignTo location target' w) m r fun _ => Eq := by
  cases htarget with
  | pointer p =>
    have hchecked : InStep (CellLang.Eval.lift p.checked) (Eval.lift p.checked) m r
        fun _ => Eq := by
      cases p.checked with
      | error f => exact .of_runs rfl rfl h (.error _)
      | ok index => exact .of_runs rfl rfl h (.ok rfl)
    refine .bind hchecked ?_
    rintro index _ m₁ r₁ _ h₁ rfl
    refine .bind (simulates_store h₁).toInStep ?_
    rintro store _ m₂ r₂ _ h₂ rfl
    rw [hv.seen, Store.write_withoutFrame]
    exact inStep_putStore _ h₂
  | num _ | bool _ | prim _ | keyword _ | closure _ =>
    cases location with
    | var name => exact inStep_assign h hv
    | num _ | bool _ | keyword _ | lambda _ _ | app _ _ | cond _ _ _ | new _ _ | deref _
    | move _ _ _ => exact .of_runs rfl rfl h (.error _)

theorem inStep_stmt (limit : Nat) (s : Stmt) (h : Matches m r) :
    InStep (s.exec limit) (exec limit s) m r fun _ => Eq := by
  cases s with
  | define name expr =>
    refine .bind (simulates_eval limit expr h).toInStep fun v w m₁ r₁ _ h₁ hv => ?_
    change InStep ((CellLang.Eval.environment >>= fun env =>
      CellLang.Eval.putEnvironment (env.define FrameId.global name v)) >>= fun _ => pure [])
        (Eval.define name w >>= fun _ => pure []) m₁ r₁ _
    exact .bind (inStep_define h₁ hv) fun _ _ m₂ r₂ _ h₂ _ => .of_runs rfl rfl h₂ (.ok rfl)
  | assign location expr =>
    refine .bind (simulates_eval limit location h).toInStep fun v w m₁ r₁ _ h₁ hv => ?_
    have hexpr := simulates_eval limit expr h₁
    refine .bind hexpr.toInStep fun v' w' m₂ r₂ hrun h₂ hv' => ?_
    have hvalue : expr.eval limit FrameId.global m₁ = (.ok v', m₂) := hrun
    have hkept := hexpr.kept
    rw [hvalue] at hkept
    refine .bind (inStep_assignTo h₂ (hv.mono (keepsCalls_of_extends hkept)) hv')
      fun _ _ m₃ r₃ _ h₃ _ => .of_runs rfl rfl h₃ (.ok rfl)
  | print expr =>
    refine .bind (simulates_eval limit expr h).toInStep fun v w m₁ r₁ _ h₁ hv => ?_
    exact .of_runs rfl rfl h₁ (.ok (by rw [hv.seen, CellLang.Value.text_withoutFrame]))

theorem inStep_stmts (limit : Nat) (ss : List Stmt) (h : Matches m r) :
    InStep (Stmt.execAll limit ss) (execAll limit ss) m r fun _ => Eq := by
  induction ss generalizing m r with
  | nil => exact .of_runs rfl rfl h (.ok rfl)
  | cons s ss ih =>
    refine .bind (inStep_stmt limit s h) ?_
    rintro lines _ m₁ r₁ _ h₁ rfl
    refine .bind (ih h₁) ?_
    rintro more _ m₂ r₂ _ h₂ rfl
    exact .of_runs rfl rfl h₂ (.ok rfl)

/-! ## Runs in step -/

/-- The same lines, values that stand for each other, or the same error. -/
inductive ReplyMatches (env : Environment) : CellLang.Reply → Reply → Prop
  | lines (outcome : Except RuntimeError (List String)) :
      ReplyMatches env (.lines outcome) (.lines outcome)
  | value {o : Except RuntimeError CellLang.Value} {o' : Except RuntimeError Value} :
      Outcomes (Represents env) o o' → ReplyMatches env (.value o) (.value o')
  | done : ReplyMatches env .done .done

theorem Outcomes.eq {α : Type} {o o' : Except RuntimeError α} (h : Outcomes Eq o o') : o = o' := by
  cases h with
  | ok hab => rw [hab]
  | error e => rfl

theorem matches_fresh (capacity : Nat) :
    Matches (.fresh capacity) (.fresh capacity) := by
  refine ⟨.withPrimitives, rfl, _, rfl, ?_⟩
  refine List.forall₂_map_left_iff.2 (List.forall₂_map_right_iff.2 (List.forall₂_same.2 ?_))
  exact fun p _ => ⟨rfl, .prim p⟩

/-- Sessions with the same limit whose machines are in step. -/
structure SessionMatches (s : CellLang.Session) (t : Session) : Prop where
  limit : t.limit = s.limit
  machine : Matches s.machine t.machine

/-- Requests are served in step. -/
theorem serve_matches {s : CellLang.Session} {t : Session} (h : SessionMatches s t)
    (q : Request) : ReplyMatches (s.serve q).2.machine.env (s.serve q).1 (t.serve q).1 ∧
      SessionMatches (s.serve q).2 (t.serve q).2 := by
  obtain ⟨_, m⟩ := s
  obtain ⟨limit, r⟩ := t
  obtain rfl := h.limit
  have hmatches : Matches m r := h.machine
  cases q with
  | program p =>
    have hstep := inStep_stmts limit p.stmts hmatches
    refine ⟨?_, rfl, hstep.agrees⟩
    change ReplyMatches _ (.lines (Stmt.execAll limit p.stmts m).1)
      (.lines (execAll limit p.stmts r).1)
    rw [hstep.outcome.eq]
    exact .lines _
  | stmt st =>
    have hstep := inStep_stmt limit st hmatches
    refine ⟨?_, rfl, hstep.agrees⟩
    change ReplyMatches _ (.lines (st.exec limit m).1) (.lines (exec limit st r).1)
    rw [hstep.outcome.eq]
    exact .lines _
  | expr e =>
    have hstep := simulates_eval limit e hmatches
    exact ⟨.value hstep.outcome, rfl, hstep.agrees⟩
  | reset =>
    refine ⟨.done, rfl, ?_⟩
    change Matches (.fresh m.store.capacity) (.fresh r.store.capacity)
    rw [hmatches.cells]
    exact matches_fresh _

theorem after_matches {s : CellLang.Session} {t : Session} (h : SessionMatches s t)
    (rs : List Request) : SessionMatches (s.after rs) (t.after rs) := by
  induction rs generalizing s t with
  | nil => exact h
  | cons q rs ih => exact ih (serve_matches h q).2

/-- Frame positions and the reclaiming of frames cannot be observed. From new sessions with the same
settings, and after any requests, the next request is answered alike by both evaluators, with the
same lines, the same error, or values that stand for each other; it leaves the same cells, and
global bindings that stand for each other. -/
theorem reclamation_unobservable (settings : Settings) (rs : List Request) (q : Request) :
    let s := (CellLang.Session.ofSettings settings).after rs
    let t := (Session.ofSettings settings).after rs
    ReplyMatches (s.serve q).2.machine.env (s.serve q).1 (t.serve q).1 ∧
      Matches (s.serve q).2.machine (t.serve q).2.machine := by
  intro s t
  have hfresh : SessionMatches (.ofSettings settings) (.ofSettings settings) :=
    ⟨rfl, matches_fresh settings.capacity⟩
  obtain ⟨hreply, hsession⟩ := serve_matches (after_matches hfresh rs) q
  exact ⟨hreply, hsession.machine⟩

end Chain

end CellLang

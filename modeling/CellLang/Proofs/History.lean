import CellLang.Proofs.Interpretation
import CellLang.Session

/-!
# Histories

A run is a list of requests, served one after another from a new session. To speak about what
happens inside a request, evaluation is interpreted with a record of the evaluations it completes. A
`Moment` is one completed evaluation: the machine before and after it, its outcome, and the values
that the enclosing evaluations were holding meanwhile. Forgetting the moments gives back the
evaluation on the machine, so a statement about every moment is one about every point of a run at
which an evaluation starts or ends.
-/

namespace CellLang

/-- What can be asked of a session. -/
inductive Request where
  | program (p : Program)
  | stmt (s : Stmt)
  | expr (e : Expr)
  | reset

/-- What a session returns for a request. -/
inductive Reply where
  | lines (outcome : Except RuntimeError (List String))
  | value (outcome : Except RuntimeError Value)
  | done

namespace Session

def serve (s : Session) : Request → Reply × Session
  | .program p => let (outcome, t) := s.runProgram p; (.lines outcome, t)
  | .stmt st => let (outcome, t) := s.runStmt st; (.lines outcome, t)
  | .expr e => let (outcome, t) := s.evaluate e; (.value outcome, t)
  | .reset => (.done, s.reset)

/-- The session after requests served in order, whether they succeed or fail. -/
def after (s : Session) : List Request → Session
  | [] => s
  | r :: rs => (s.serve r).2.after rs

end Session

/-- One completed evaluation. The held values are those that the enclosing evaluations had computed
and not yet used when it started. -/
structure Moment where
  frame : FrameId
  expr : Expr
  held : List Value
  before : Machine
  outcome : Except RuntimeError Value
  after : Machine

/-- A computation that also lists the evaluations it completes, in the order of completion. -/
def Traced (α : Type) : Type := Machine → Except RuntimeError α × Machine × List Moment

namespace Traced

instance : Monad Traced where
  pure a := fun m => (.ok a, m, [])
  bind x f := fun m => match x m with
    | (.ok a, m, early) => match f a m with
      | (outcome, m, late) => (outcome, m, early ++ late)
    | (.error e, m, early) => (.error e, m, early)

/-- A computation without evaluations of its own. -/
def ofEval {α : Type} (x : Eval α) : Traced α := fun m =>
  let (outcome, m) := x m
  (outcome, m, [])

/-- Adds the moment of an evaluation that is computed by `x`. -/
def recorded (frame : FrameId) (held : List Value) (e : Expr) (x : Traced Value) : Traced Value :=
  fun m => match x m with
    | (outcome, m', inner) => (outcome, m', inner ++ [⟨frame, e, held, m, outcome, m'⟩])

/-- The computation without its moments. -/
def forget {α : Type} (x : Traced α) : Eval α := fun m => ((x m).1, (x m).2.1)

end Traced

/-- The meaning of applying a closure to one argument while values are held. -/
abbrev TracedCaller := List Value → Closure → Value → Traced Value

/-- Evaluation with its moments, given the values that are held when it starts. -/
def Interpretation.tracing (call : TracedCaller) :
    Interpretation (ReaderT (List Value) Traced) where
  act x := fun _ => .ofEval x
  call c arg := fun held => call held c arg
  holding v x := fun held => x (v :: held)
  evaluation frame e x := fun held => .recorded frame held e (x held)

/-- Applies a value to arguments while values are held. -/
def Value.traceApplyWith (call : TracedCaller) (held : List Value) (callee : Value)
    (args : List Value) : Traced Value :=
  callee.applyIn (.tracing call) args held

namespace Expr

/-- `evalWith` with its moments. -/
def traceWith (call : TracedCaller) (frame : FrameId) (held : List Value) (e : Expr) :
    Traced Value :=
  e.evalIn (.tracing call) frame held

/-- The values of expressions, each held while the next ones are computed. -/
def traceAllWith (call : TracedCaller) (frame : FrameId) (held : List Value) (es : List Expr) :
    Traced (List Value) :=
  evalAllIn (.tracing call) frame es held

end Expr

namespace Machine

/-- The machine in which the body of a called closure starts. -/
def enter (m : Machine) (c : Closure) (arg : Value) : Machine :=
  { m with env := (m.env.extend c.frame c.param arg).2 }

/-- The machine after a call that began with `mark` frames and ended with the given outcome. -/
def settle (m : Machine) (mark : Nat) : Except RuntimeError Value → Machine
  | .ok (.closure _) => m
  | _ => { m with env := m.env.release mark }

theorem settle_closure (m : Machine) (mark : Nat) {v : Value} (hv : v.isClosure = true) :
    m.settle mark (.ok v) = m := by
  cases v with
  | closure c => rfl
  | num _ | bool _ | prim _ | pointer _ | keyword _ => cases hv

theorem settle_other (m : Machine) (mark : Nat) {v : Value} (hv : v.isClosure = false) :
    m.settle mark (.ok v) = { m with env := m.env.release mark } := by
  cases v with
  | closure c => cases hv
  | num _ | bool _ | prim _ | pointer _ | keyword _ => rfl

end Machine

/-- `callAt` with its moments. The closure and its argument are held while the body runs. -/
def traceCallAt (limit : Nat) : Nat → TracedCaller
  | 0 => fun _ _ _ => .ofEval (.fault (.stackOverflow limit))
  | left + 1 => fun held c arg m =>
    match c.body.traceWith (traceCallAt limit left) m.env.size (.closure c :: arg :: held)
        (m.enter c arg) with
    | (outcome, m', moments) => (outcome, m'.settle m.env.size outcome, moments)

/-- `eval` with its moments. -/
def Expr.trace (limit : Nat) (held : List Value) (e : Expr) : Traced Value :=
  e.traceWith (traceCallAt limit limit) FrameId.global held

namespace Stmt

/-- `exec` with its moments. -/
def trace (limit : Nat) (s : Stmt) : Traced (List String) :=
  s.execIn (.tracing (traceCallAt limit limit)) []

/-- `execAll` with its moments. -/
def traceAll (limit : Nat) (ss : List Stmt) : Traced (List String) :=
  execAllIn (.tracing (traceCallAt limit limit)) ss []

end Stmt

/-- A machine together with the evaluations completed since the last reset. -/
structure History where
  past : List Moment
  now : Machine

/-- Runs a computation and adds its moments to the past. -/
def Traced.advance {α : Type} (x : Traced α) (h : History) : Except RuntimeError α × History :=
  let (outcome, m, moments) := x h.now
  (outcome, ⟨h.past ++ moments, m⟩)

namespace History

def serve (limit : Nat) (h : History) : Request → Reply × History
  | .program p => let (outcome, h) := (Stmt.traceAll limit p.stmts).advance h; (.lines outcome, h)
  | .stmt s => let (outcome, h) := (s.trace limit).advance h; (.lines outcome, h)
  | .expr e => let (outcome, h) := (e.trace limit []).advance h; (.value outcome, h)
  | .reset => (.done, ⟨[], .fresh h.now.store.capacity⟩)

def after (limit : Nat) (h : History) : List Request → History
  | [] => h
  | r :: rs => (h.serve limit r).2.after limit rs

/-- The history of a run from a new session. -/
def ofRun (settings : Settings) (rs : List Request) : History :=
  (⟨[], .fresh settings.capacity⟩ : History).after settings.maxDepth rs

end History

/-! ## Forgetting the moments -/

namespace Traced

theorem bind_apply {α β : Type} (x : Traced α) (f : α → Traced β) (m : Machine) :
    (x >>= f) m = match x m with
      | (.ok a, m, early) => ((f a m).1, (f a m).2.1, early ++ (f a m).2.2)
      | (.error e, m, early) => (.error e, m, early) := rfl

@[simp] theorem forget_bind {α β : Type} (x : Traced α) (f : α → Traced β) :
    (x >>= f).forget = x.forget >>= fun a => (f a).forget := by
  funext m
  rw [Eval.bind_apply]
  unfold forget
  rw [bind_apply]
  rcases x m with ⟨_ | a, m', early⟩ <;> rfl

end Traced

/-- Forgetting the moments gives back what happens on the machine, as far as it does so for
calls. -/
theorem Interpretation.related_tracing {call : Caller} {traced : TracedCaller}
    (hcall : ∀ held c v, (traced held c v).forget = call c v) :
    Related (.tracing traced) (.machine call) fun x y => ∀ held, (x held).forget = y where
  pure _ := fun _ => rfl
  bind {α β x y f g} hx hf := by
    intro held
    have hbind := Traced.forget_bind (x held) fun a => f a held
    simp only [hx held, hf] at hbind
    exact hbind
  act _ := fun _ => rfl
  call c v := fun held => hcall held c v
  holding v _ _ h := fun held => h (v :: held)
  evaluation _ _ _ _ h := h

/-- Forgetting the moments of an evaluation gives the evaluation. -/
theorem Expr.forget_traceWith {call : Caller} {traced : TracedCaller}
    (hcall : ∀ held c v, (traced held c v).forget = call c v) (frame : FrameId) (e : Expr)
    (held : List Value) : (e.traceWith traced frame held).forget = e.evalWith call frame :=
  (Interpretation.related_tracing hcall).evalIn frame e held

/-- A call runs the body in its own frame and then settles the frames. -/
theorem callAt_succ (limit left : Nat) (c : Closure) (arg : Value) (m : Machine) :
    callAt limit (left + 1) c arg m =
      match c.body.evalWith (callAt limit left) m.env.size (m.enter c arg) with
      | (outcome, m') => (outcome, m'.settle m.env.size outcome) := by
  rw [callAt]
  dsimp only [Environment.extend, Machine.enter, Environment.size]
  rcases c.body.evalWith (callAt limit left) m.env.frames.size _ with ⟨_ | v, m'⟩
  · rfl
  · cases v <;> rfl

/-- Forgetting the moments of a call gives the call. -/
theorem forget_traceCallAt (limit left : Nat) (held : List Value) (c : Closure) (arg : Value) :
    (traceCallAt limit left held c arg).forget = callAt limit left c arg := by
  induction left generalizing held c arg with
  | zero => rfl
  | succ left ih =>
    funext m
    rw [callAt_succ, ← Expr.forget_traceWith ih m.env.size c.body (.closure c :: arg :: held)]
    rfl

/-- Forgetting the moments of an evaluation in the global frame gives the evaluation. -/
@[simp] theorem Expr.forget_trace (limit : Nat) (held : List Value) (e : Expr) :
    (e.trace limit held).forget = e.eval limit FrameId.global :=
  forget_traceWith (forget_traceCallAt limit limit) FrameId.global e held

namespace Stmt

theorem forget_trace (limit : Nat) (s : Stmt) : (s.trace limit).forget = s.exec limit :=
  (Interpretation.related_tracing (forget_traceCallAt limit limit)).execIn s []

theorem forget_traceAll (limit : Nat) (ss : List Stmt) :
    (traceAll limit ss).forget = execAll limit ss :=
  (Interpretation.related_tracing (forget_traceCallAt limit limit)).execAllIn ss []

end Stmt

namespace History

/-- Advancing a history does to its machine what the computation without moments does. -/
theorem advance_eq {α : Type} (x : Traced α) (h : History) :
    (x.advance h).1 = (x.forget h.now).1 ∧ (x.advance h).2.now = (x.forget h.now).2 :=
  ⟨rfl, rfl⟩

theorem advance_of_eval {limit : Nat} {e : Expr} {h : History} {m : Machine}
    {outcome : Except RuntimeError Value} (held : List Value)
    (heval : e.eval limit FrameId.global h.now = (outcome, m)) :
    ∃ i, (e.trace limit held).advance h = (outcome, i) ∧ i.now = m := by
  obtain ⟨houtcome, hnow⟩ := advance_eq (e.trace limit held) h
  rw [Expr.forget_trace, heval] at houtcome hnow
  exact ⟨((e.trace limit held).advance h).2, Prod.ext houtcome rfl, hnow⟩

theorem serve_eq (s : Session) (h : History) (hnow : h.now = s.machine) (r : Request) :
    (h.serve s.limit r).1 = (s.serve r).1 ∧
      (s.serve r).2 = ⟨s.limit, (h.serve s.limit r).2.now⟩ := by
  obtain ⟨limit, machine⟩ := s
  obtain rfl : h.now = machine := hnow
  cases r with
  | program p =>
    have hforget := congrFun (Stmt.forget_traceAll limit p.stmts) h.now
    have hadvance := advance_eq (Stmt.traceAll limit p.stmts) h
    rw [hforget] at hadvance
    exact ⟨congrArg Reply.lines hadvance.1, congrArg (Session.mk limit) hadvance.2.symm⟩
  | stmt st =>
    have hadvance := advance_eq (st.trace limit) h
    rw [Stmt.forget_trace] at hadvance
    exact ⟨congrArg Reply.lines hadvance.1, congrArg (Session.mk limit) hadvance.2.symm⟩
  | expr e =>
    have hadvance := advance_eq (e.trace limit []) h
    rw [Expr.forget_trace] at hadvance
    exact ⟨congrArg Reply.value hadvance.1, congrArg (Session.mk limit) hadvance.2.symm⟩
  | reset => exact ⟨rfl, rfl⟩

theorem after_eq (s : Session) (h : History) (hnow : h.now = s.machine) (rs : List Request) :
    s.after rs = ⟨s.limit, (h.after s.limit rs).now⟩ := by
  induction rs generalizing s h with
  | nil => obtain ⟨limit, machine⟩ := s; exact congrArg (Session.mk limit) hnow.symm
  | cons r rs ih =>
    have hserve := (serve_eq s h hnow r).2
    have hlimit : (s.serve r).2.limit = s.limit := by rw [hserve]
    have hstep := ih (s.serve r).2 (h.serve s.limit r).2 (by rw [hserve])
    rw [hlimit] at hstep
    exact hstep

theorem after_concat (limit : Nat) (h : History) (rs : List Request) (r : Request) :
    h.after limit (rs ++ [r]) = ((h.after limit rs).serve limit r).2 := by
  induction rs generalizing h with
  | nil => rfl
  | cons r' rs ih => exact ih (h.serve limit r').2

/-- The history of a run ends in the machine of the session. -/
theorem session_after (settings : Settings) (rs : List Request) :
    (Session.ofSettings settings).after rs = ⟨settings.maxDepth, (ofRun settings rs).now⟩ :=
  after_eq (Session.ofSettings settings) ⟨[], .fresh settings.capacity⟩ rfl rs

end History

end CellLang

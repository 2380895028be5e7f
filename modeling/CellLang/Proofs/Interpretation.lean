import CellLang.Machine.Execution

/-!
# Interpretations

Evaluation is written once, for all interpretations. A relation between the computations of two
interpretations that holds of their actions, and that composition keeps, therefore holds of what
the two make of any expression, statement or program.
-/

namespace CellLang

/-- Induction on expressions, with a hypothesis for every argument of an application. -/
theorem Expr.inductOn {motive : Expr → Prop} (e : Expr)
    (var : ∀ name, motive (.var name)) (num : ∀ x, motive (.num x))
    (bool : ∀ b, motive (.bool b)) (keyword : ∀ t, motive (.keyword t))
    (lambda : ∀ param body, motive body → motive (.lambda param body))
    (app : ∀ head args, motive head → (∀ a ∈ args, motive a) → motive (.app head args))
    (cond : ∀ g t f, motive g → motive t → motive f → motive (.cond g t f))
    (new : ∀ type size, motive type → motive (.new type size))
    (deref : ∀ target, motive target → motive (.deref target))
    (move : ∀ op p o, motive p → motive o → motive (.move op p o)) : motive e :=
  @Expr.rec motive (fun es => ∀ a ∈ es, motive a) var num bool keyword lambda app cond new deref
    move (fun _ h => absurd h List.not_mem_nil)
    (fun _ _ hhead htail _ h => (List.mem_cons.1 h).elim (fun heq => heq ▸ hhead) (htail _)) e

namespace Interpretation

variable {μ ν : Type → Type} [Monad μ] [Monad ν]

/-- The relation holds of the actions of both interpretations, and everything that composes
computations keeps it. -/
structure Related (I : Interpretation μ) (J : Interpretation ν)
    (R : {α : Type} → μ α → ν α → Prop) : Prop where
  pure : ∀ {α : Type} (a : α), R (pure a) (pure a)
  bind : ∀ {α β : Type} {x : μ α} {y : ν α} {f : α → μ β} {g : α → ν β}, R x y →
    (∀ a, R (f a) (g a)) → R (x >>= f) (y >>= g)
  act : ∀ {α : Type} (x : Eval α), R (I.act x) (J.act x)
  call : ∀ c arg, R (I.call c arg) (J.call c arg)
  holding : ∀ {α : Type} (v : Value) {x : μ α} {y : ν α}, R x y →
    R (I.holding v x) (J.holding v y)
  evaluation : ∀ frame e {x : μ Value} {y : ν Value}, R x y →
    R (I.evaluation frame e x) (J.evaluation frame e y)

namespace Related

variable {I : Interpretation μ} {J : Interpretation ν} {R : {α : Type} → μ α → ν α → Prop}

theorem applyIn (h : Related I J R) (callee : Value) (args : List Value) :
    R (callee.applyIn I args) (callee.applyIn J args) := by
  cases callee with
  | closure c =>
    match args with
    | [] => exact h.act _
    | [arg] => exact h.call c arg
    | _ :: _ :: _ => exact h.act _
  | num _ | bool _ | prim _ | pointer _ | keyword _ => exact h.act _

theorem evalAllIn (h : Related I J R) {frame : FrameId} (es : List Expr)
    (hes : ∀ e ∈ es, R (e.evalIn I frame) (e.evalIn J frame)) :
    R (Expr.evalAllIn I frame es) (Expr.evalAllIn J frame es) := by
  induction es with
  | nil => exact h.pure []
  | cons e es ih =>
    have hrest := ih fun e' he' => hes e' (List.mem_cons_of_mem e he')
    refine h.bind (hes e List.mem_cons_self) fun v => ?_
    exact h.bind (h.holding v hrest) fun vs => h.pure (v :: vs)

/-- What two interpretations make of an expression is related if their actions are. -/
theorem evalIn (h : Related I J R) (frame : FrameId) (e : Expr) :
    R (e.evalIn I frame) (e.evalIn J frame) := by
  induction e using Expr.inductOn with
  | var name => exact h.evaluation _ _ (h.bind (h.act _) fun env => h.act _)
  | num x => exact h.evaluation _ _ (h.pure _)
  | bool b => exact h.evaluation _ _ (h.pure _)
  | keyword t => exact h.evaluation _ _ (h.pure _)
  | lambda param body _ => exact h.evaluation _ _ (h.pure _)
  | app head args ihHead ihArgs =>
    refine h.evaluation _ _ (h.bind ihHead fun callee => ?_)
    exact h.bind (h.holding callee (h.evalAllIn args ihArgs)) fun values => h.applyIn callee values
  | cond g t f ihGuard ihThen ihElse =>
    refine h.evaluation _ _ (h.bind ihGuard fun v => ?_)
    cases v with
    | bool b =>
      cases b with
      | true => exact ihThen
      | false => exact ihElse
    | num _ | closure _ | prim _ | pointer _ | keyword _ => exact h.act _
  | new type size ihType => exact h.evaluation _ _ (h.bind ihType fun v => h.act _)
  | deref target ihTarget => exact h.evaluation _ _ (h.bind ihTarget fun v => h.act _)
  | move op p o ihPointer ihOffset =>
    refine h.evaluation _ _ (h.bind ihPointer fun base => ?_)
    exact h.bind (h.holding base ihOffset) fun amount => h.act _

theorem execIn (h : Related I J R) (s : Stmt) : R (s.execIn I) (s.execIn J) := by
  have heval := h.evalIn FrameId.global
  cases s with
  | define name expr =>
    refine h.bind (heval expr) fun value => h.bind (h.act _) fun env => ?_
    exact h.bind (h.act _) fun _ => h.pure []
  | assign location expr =>
    refine h.bind (heval location) fun target => ?_
    refine h.bind (h.holding target (heval expr)) fun value => ?_
    exact h.bind (h.act _) fun _ => h.pure []
  | print expr => exact h.bind (heval expr) fun value => h.pure [value.text]

theorem execAllIn (h : Related I J R) (ss : List Stmt) :
    R (Stmt.execAllIn I ss) (Stmt.execAllIn J ss) := by
  induction ss with
  | nil => exact h.pure []
  | cons s ss ih =>
    exact h.bind (h.execIn s) fun lines => h.bind ih fun more => h.pure (lines ++ more)

end Related

end Interpretation

end CellLang

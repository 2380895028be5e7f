import CellLang.Proofs.Counting
import CellLang.Proofs.Discipline

/-!
# Coupled runs

The same code runs twice, from two machines that may differ. A coupling says which machines stand
side by side, which pointers the runs may hold, which errors count as the same, and after which
errors of the first run nothing is said about the second. Its laws are about single actions; from
them it follows once, for all couplings, that evaluations and whole programs agree.

The first use is the limit on nested calls: a run that does not exceed it goes the same way under
every higher limit.
-/

namespace CellLang

/-- The name that a statement defines, if it is a definition. -/
def Stmt.defined? : Stmt → Option String
  | .define name _ => some name
  | _ => none

structure Coupling where
  /-- Machines that stand side by side. -/
  Pairs : Machine → Machine → Prop
  /-- Pointers that may be held. -/
  Points : Pointer → Prop
  /-- Errors of the two runs that count as the same. -/
  Same : RuntimeError → RuntimeError → Prop
  /-- Errors of the first run that end the comparison. -/
  Ends : RuntimeError → Prop

namespace Coupling

/-- If the value is a pointer, it may be held. -/
def Fits (K : Coupling) (v : Value) : Prop := ∀ p, v = .pointer p → K.Points p

/-- Both runs return the same good result or fail alike, and leave machines side by side, unless the
first one ends the comparison. -/
inductive Agrees (K : Coupling) {α : Type} (good : α → Prop) :
    Except RuntimeError α × Machine → Except RuntimeError α × Machine → Prop
  | ok {a : α} {m n : Machine} : K.Pairs m n → good a → Agrees K good (.ok a, m) (.ok a, n)
  | error {e f : RuntimeError} {m n : Machine} : K.Pairs m n → K.Same e f →
      Agrees K good (.error e, m) (.error f, n)
  | ended {e : RuntimeError} {m : Machine} {result : Except RuntimeError α × Machine} : K.Ends e →
      Agrees K good (.error e, m) result

/-- What the actions of evaluation must keep. -/
structure Lawful (K : Coupling) : Prop where
  same : ∀ e, K.Same e e
  size : ∀ {m n}, K.Pairs m n → n.env.size = m.env.size
  lookup : ∀ {m n} (frame : FrameId) (name : String), K.Pairs m n →
    K.Agrees K.Fits (Eval.lift (m.env.lookup frame name) m) (Eval.lift (n.env.lookup frame name) n)
  allocate : ∀ {m n} (type : CellType) (size : Nat), K.Pairs m n →
    K.Agrees K.Fits (Eval.allocate type size m) (Eval.allocate type size n)
  deref : ∀ {m n p} (target : Expr), K.Pairs m n → K.Points p →
    K.Agrees K.Fits (Expr.derefValue target (.pointer p) m) (Expr.derefValue target (.pointer p) n)
  move : ∀ {m n p} (e : Expr) (op : Operator) (x : Binary64), K.Pairs m n → K.Points p →
    K.Agrees K.Fits (Expr.moveValue e op (.pointer p) (.num x) m)
      (Expr.moveValue e op (.pointer p) (.num x) n)
  enter : ∀ {m n arg} (c : Closure), K.Pairs m n → K.Fits arg →
    K.Pairs (m.enter c arg) (n.enter c arg)
  release : ∀ {m n} (mark : Nat), K.Pairs m n →
    K.Pairs { m with env := m.env.release mark } { n with env := n.env.release mark }

variable {K : Coupling}

/-! ## Composing computations -/

theorem fits_of_plain {v : Value} (hv : v.isPlain = true) : K.Fits v := by
  rintro p rfl
  cases hv

namespace Agrees

variable {α β : Type} {good mid : α → Prop} {fine : β → Prop} {m n : Machine}

theorem bind {x y : Eval α} {f g : α → Eval β} (hx : K.Agrees mid (x m) (y n))
    (hf : ∀ a m' n', K.Pairs m' n' → mid a → K.Agrees fine (f a m') (g a n')) :
    K.Agrees fine ((x >>= f) m) ((y >>= g) n) := by
  rw [Eval.bind_apply, Eval.bind_apply]
  generalize x m = result at hx ⊢
  generalize y n = result' at hx ⊢
  cases hx with
  | ok hpairs ha => exact hf _ _ _ hpairs ha
  | error hpairs hsame => exact .error hpairs hsame
  | ended hends => exact .ended hends

theorem fault (hK : K.Lawful) (hpairs : K.Pairs m n) (f : Fault) :
    K.Agrees good (Eval.fault f m) (Eval.fault f n) :=
  .error hpairs (hK.same _)

theorem lift (hK : K.Lawful) (hpairs : K.Pairs m n) {result : Except Fault α}
    (hgood : ∀ a, result = .ok a → good a) :
    K.Agrees good (Eval.lift result m) (Eval.lift result n) := by
  cases result with
  | error f => exact fault hK hpairs f
  | ok a => exact .ok hpairs (hgood a rfl)

end Agrees

/-! ## Evaluation -/

/-- Calls of the two runs agree. -/
def Calls (K : Coupling) (call call' : Caller) : Prop :=
  ∀ {m n : Machine} {arg : Value} (c : Closure), K.Pairs m n → K.Fits arg →
    K.Agrees K.Fits (call c arg m) (call' c arg n)

/-- Evaluations of the expression agree. -/
def Evaluates (K : Coupling) (call call' : Caller) (e : Expr) : Prop :=
  ∀ {m n : Machine} (frame : FrameId), K.Pairs m n →
    K.Agrees K.Fits (e.evalWith call frame m) (e.evalWith call' frame n)

variable {call call' : Caller} {m n : Machine}

theorem agrees_apply (hK : K.Lawful) (hcall : K.Calls call call') (hpairs : K.Pairs m n)
    (callee : Value) {args : List Value} (hargs : ∀ v ∈ args, K.Fits v) :
    K.Agrees K.Fits (callee.applyWith call args m) (callee.applyWith call' args n) := by
  cases callee with
  | closure c =>
    match args with
    | [] => exact .fault hK hpairs _
    | [arg] => exact hcall c hpairs (hargs arg List.mem_cons_self)
    | _ :: _ :: _ => exact .fault hK hpairs _
  | prim p =>
    refine .lift hK hpairs fun v hv => fits_of_plain ?_
    have hplain := p.call_plain args
    rw [hv] at hplain
    exact hplain
  | num _ | bool _ | pointer _ | keyword _ => exact .fault hK hpairs _

theorem agrees_all {es : List Expr} (hes : ∀ e ∈ es, K.Evaluates call call' e)
    (frame : FrameId) (hpairs : K.Pairs m n) :
    K.Agrees (fun vs => ∀ v ∈ vs, K.Fits v) (Expr.evalAllWith call frame es m)
      (Expr.evalAllWith call' frame es n) := by
  induction es generalizing m n with
  | nil => exact .ok hpairs fun v hv => absurd hv List.not_mem_nil
  | cons e es ih =>
    refine .bind (hes e List.mem_cons_self frame hpairs) fun v m₁ n₁ hpairs₁ hv => ?_
    have hrest := ih (fun e' he' => hes e' (List.mem_cons_of_mem _ he')) hpairs₁
    refine .bind hrest fun vs m₂ n₂ hpairs₂ hvs => .ok hpairs₂ fun w hw => ?_
    rcases List.mem_cons.1 hw with rfl | hw
    · exact hv
    · exact hvs w hw

theorem agrees_new (hK : K.Lawful) (size : Nat) (v : Value) (hpairs : K.Pairs m n) :
    K.Agrees K.Fits (Expr.newValue size v m) (Expr.newValue size v n) := by
  cases v with
  | keyword t => exact hK.allocate t size hpairs
  | num _ | bool _ | closure _ | prim _ | pointer _ => exact .fault hK hpairs _

theorem agrees_deref (hK : K.Lawful) (target : Expr) {v : Value} (hpairs : K.Pairs m n)
    (hv : K.Fits v) :
    K.Agrees K.Fits (Expr.derefValue target v m) (Expr.derefValue target v n) := by
  cases v with
  | pointer p => exact hK.deref target hpairs (hv p rfl)
  | num _ | bool _ | closure _ | prim _ | keyword _ => exact .fault hK hpairs _

theorem agrees_move (hK : K.Lawful) (e : Expr) (op : Operator) {base : Value} (amount : Value)
    (hpairs : K.Pairs m n) (hbase : K.Fits base) :
    K.Agrees K.Fits (Expr.moveValue e op base amount m) (Expr.moveValue e op base amount n) := by
  cases base with
  | pointer p =>
    cases amount with
    | num x => exact hK.move e op x hpairs (hbase p rfl)
    | bool _ | closure _ | prim _ | pointer _ | keyword _ => exact .fault hK hpairs _
  | num _ | bool _ | closure _ | prim _ | keyword _ => exact .fault hK hpairs _

/-- Every expression is evaluated alike when calls are. -/
theorem evaluates (hK : K.Lawful) (hcall : K.Calls call call') (e : Expr) :
    K.Evaluates call call' e := by
  induction e using Expr.inductOn with
  | var name =>
    intro m n frame hpairs
    exact hK.lookup frame name hpairs
  | num x =>
    intro m n frame hpairs
    exact .ok hpairs (fits_of_plain rfl)
  | bool b =>
    intro m n frame hpairs
    exact .ok hpairs (fits_of_plain rfl)
  | keyword t =>
    intro m n frame hpairs
    exact .ok hpairs (fits_of_plain rfl)
  | lambda param body _ =>
    intro m n frame hpairs
    exact .ok hpairs nofun
  | app head args ihHead ihArgs =>
    intro m n frame hpairs
    refine .bind (ihHead frame hpairs) fun callee m₁ n₁ hpairs₁ _ => ?_
    refine .bind (agrees_all ihArgs frame hpairs₁) fun values m₂ n₂ hpairs₂ hvalues => ?_
    exact agrees_apply hK hcall hpairs₂ callee hvalues
  | cond g t f ihGuard ihThen ihElse =>
    intro m n frame hpairs
    refine .bind (ihGuard frame hpairs) fun v m₁ n₁ hpairs₁ _ => ?_
    split
    · exact ihThen frame hpairs₁
    · exact ihElse frame hpairs₁
    · exact .fault hK hpairs₁ _
  | new type size ihType =>
    intro m n frame hpairs
    exact .bind (ihType frame hpairs) fun v m₁ n₁ hpairs₁ _ => agrees_new hK size v hpairs₁
  | deref target ihTarget =>
    intro m n frame hpairs
    exact .bind (ihTarget frame hpairs) fun v m₁ n₁ hpairs₁ hv =>
      agrees_deref hK target hpairs₁ hv
  | move op p o ihPointer ihOffset =>
    intro m n frame hpairs
    refine .bind (ihPointer frame hpairs) fun base m₁ n₁ hpairs₁ hbase => ?_
    exact .bind (ihOffset frame hpairs₁) fun amount m₂ n₂ hpairs₂ _ =>
      agrees_move hK _ op amount hpairs₂ hbase

/-- The second run may nest as many calls as the first one, or more of them when the comparison ends
with the calls of the first. -/
def Covers (K : Coupling) (limit left limit' left' : Nat) : Prop :=
  limit' = limit ∧ left' = left ∨ left ≤ left' ∧ K.Ends (.of (.stackOverflow limit))

theorem agrees_settle (hK : K.Lawful) {result result' : Except RuntimeError Value × Machine}
    (mark : Nat) (h : K.Agrees K.Fits result result') :
    K.Agrees K.Fits (result.1, result.2.settle mark result.1)
      (result'.1, result'.2.settle mark result'.1) := by
  cases h with
  | ok hpairs hv =>
    next v m n =>
    cases hclosure : v.isClosure with
    | true =>
      rw [Machine.settle_closure m mark hclosure, Machine.settle_closure n mark hclosure]
      exact .ok hpairs hv
    | false =>
      rw [Machine.settle_other m mark hclosure, Machine.settle_other n mark hclosure]
      exact .ok (hK.release mark hpairs) hv
  | error hpairs hsame => exact .error (hK.release mark hpairs) hsame
  | ended hends => exact .ended hends

/-- Calls agree, however many of them may still be nested in the first run. -/
theorem calls_callAt (hK : K.Lawful) {limit limit' left left' : Nat}
    (h : K.Covers limit left limit' left') :
    K.Calls (callAt limit left) (callAt limit' left') := by
  -- on the calls left in the first run: the second has at least one left whenever the first has
  induction left generalizing left' with
  | zero =>
    intro m n arg c hpairs _
    rcases h with ⟨rfl, rfl⟩ | ⟨_, hends⟩
    · exact .fault hK hpairs _
    · exact .ended hends
  | succ left ih =>
    intro m n arg c hpairs harg
    obtain ⟨left', rfl, h'⟩ : ∃ k, left' = k + 1 ∧ K.Covers limit left limit' k := by
      rcases h with ⟨rfl, rfl⟩ | ⟨hle, hends⟩
      · exact ⟨left, rfl, .inl ⟨rfl, rfl⟩⟩
      · exact ⟨left' - 1, by omega, .inr ⟨by omega, hends⟩⟩
    have hbody := evaluates hK (ih h') c.body m.env.size (hK.enter c hpairs harg)
    rw [callAt_succ, callAt_succ, hK.size hpairs]
    exact agrees_settle hK m.env.size hbody

theorem agrees_eval (hK : K.Lawful) {limit limit' : Nat} (h : K.Covers limit limit limit' limit')
    (e : Expr) (hpairs : K.Pairs m n) :
    K.Agrees K.Fits (e.eval limit FrameId.global m) (e.eval limit' FrameId.global n) :=
  evaluates hK (calls_callAt hK h) e FrameId.global hpairs

/-! ## Statements -/

/-- What the actions of statements must keep as well, if they define only names of a kind. -/
structure SteadyFor (K : Coupling) (Defines : String → Prop) : Prop extends K.Lawful where
  define : ∀ {m n v name}, Defines name → K.Pairs m n → K.Fits v →
    K.Agrees (fun _ => True) (Eval.putEnvironment (m.env.define FrameId.global name v) m)
      (Eval.putEnvironment (n.env.define FrameId.global name v) n)
  assign : ∀ {m n v} (name : String), K.Pairs m n → K.Fits v →
    K.Agrees (fun _ => True) (Eval.putEnvironment (m.env.assign FrameId.global name v) m)
      (Eval.putEnvironment (n.env.assign FrameId.global name v) n)
  write : ∀ {m n p} (location : Expr) (v : Value), K.Pairs m n → K.Points p →
    K.Agrees (fun _ => True) (Stmt.assignTo location (.pointer p) v m)
      (Stmt.assignTo location (.pointer p) v n)

/-- What the actions of all statements must keep. -/
abbrev Steady (K : Coupling) : Prop := K.SteadyFor fun _ => True

variable {Defines : String → Prop}

theorem agrees_assignTo (hK : K.SteadyFor Defines) (location : Expr) {target value : Value}
    (hpairs : K.Pairs m n) (htarget : K.Fits target) (hvalue : K.Fits value) :
    K.Agrees (fun _ => True) (Stmt.assignTo location target value m)
      (Stmt.assignTo location target value n) := by
  by_cases hpointer : ∃ p, target = .pointer p
  · obtain ⟨p, rfl⟩ := hpointer
    exact hK.write location value hpairs (htarget p rfl)
  · have hother : ∀ p, target ≠ .pointer p := fun p hp => hpointer ⟨p, hp⟩
    rw [Discipline.assignTo_other hother, Discipline.assignTo_other hother]
    cases location with
    | var name => exact hK.assign name hpairs hvalue
    | num _ | bool _ | keyword _ | lambda _ _ | app _ _ | cond _ _ _ | new _ _ | deref _
    | move _ _ _ => exact .error hpairs (hK.same _)

variable {limit limit' : Nat}

theorem agrees_stmt (hK : K.SteadyFor Defines) (h : K.Covers limit limit limit' limit') {s : Stmt}
    (hs : ∀ name ∈ s.defined?, Defines name) (hpairs : K.Pairs m n) :
    K.Agrees (fun _ => True) (s.exec limit m) (s.exec limit' n) := by
  have heval := fun e {m n} (hpairs : K.Pairs m n) => agrees_eval hK.toLawful h e hpairs
  cases s with
  | define name expr =>
    refine .bind (heval expr hpairs) fun value m₁ n₁ hpairs₁ hvalue => ?_
    change K.Agrees _
      ((Eval.putEnvironment (m₁.env.define FrameId.global name value) >>= fun _ => pure []) m₁)
      ((Eval.putEnvironment (n₁.env.define FrameId.global name value) >>= fun _ => pure []) n₁)
    exact .bind (hK.define (hs name rfl) hpairs₁ hvalue) fun _ m₂ n₂ hpairs₂ _ =>
      .ok hpairs₂ trivial
  | assign location expr =>
    refine .bind (heval location hpairs) fun target m₁ n₁ hpairs₁ htarget => ?_
    refine .bind (heval expr hpairs₁) fun value m₂ n₂ hpairs₂ hvalue => ?_
    exact .bind (agrees_assignTo hK location hpairs₂ htarget hvalue) fun _ m₃ n₃ hpairs₃ _ =>
      .ok hpairs₃ trivial
  | print expr =>
    exact .bind (heval expr hpairs) fun value m₁ n₁ hpairs₁ _ => .ok hpairs₁ trivial

/-- Coupled runs of a program agree, statement by statement, if it only defines names of the
kind. -/
theorem agrees_stmts_for (hK : K.SteadyFor Defines) (h : K.Covers limit limit limit' limit')
    {ss : List Stmt} (hss : ∀ s ∈ ss, ∀ name ∈ s.defined?, Defines name) (hpairs : K.Pairs m n) :
    K.Agrees (fun _ => True) (Stmt.execAll limit ss m) (Stmt.execAll limit' ss n) := by
  induction ss generalizing m n with
  | nil => exact .ok hpairs trivial
  | cons s ss ih =>
    refine .bind (agrees_stmt hK h (hss s List.mem_cons_self) hpairs)
      fun lines m₁ n₁ hpairs₁ _ => ?_
    exact .bind (ih (fun s' hs' => hss s' (List.mem_cons_of_mem _ hs')) hpairs₁)
      fun more m₂ n₂ hpairs₂ _ => .ok hpairs₂ trivial

/-- Coupled runs of a program agree, statement by statement. -/
theorem agrees_stmts (hK : K.Steady) (h : K.Covers limit limit limit' limit') (ss : List Stmt)
    (hpairs : K.Pairs m n) :
    K.Agrees (fun _ => True) (Stmt.execAll limit ss m) (Stmt.execAll limit' ss n) :=
  agrees_stmts_for hK h (fun _ _ _ _ => trivial) hpairs

/-! ## The limit on nested calls -/

/-- Two runs from one machine, compared until the first one has too many nested calls. -/
def nesting : Coupling where
  Pairs m n := n = m
  Points _ := True
  Same e f := f = e
  Ends e := e.kind = .stackOverflow

theorem nesting_refl {α : Type} {good : α → Prop} (hgood : ∀ a, good a)
    (result : Except RuntimeError α × Machine) : nesting.Agrees good result result := by
  obtain ⟨e | a, m⟩ := result
  · exact .error rfl rfl
  · exact .ok rfl (hgood a)

theorem nesting_steady : nesting.Steady where
  same _ := rfl
  size := by rintro m _ rfl; rfl
  lookup _ _ := by rintro rfl; exact nesting_refl (fun _ _ _ => trivial) _
  allocate _ _ := by rintro rfl; exact nesting_refl (fun _ _ _ => trivial) _
  deref _ := by rintro rfl _; exact nesting_refl (fun _ _ _ => trivial) _
  move _ _ _ := by rintro rfl _; exact nesting_refl (fun _ _ _ => trivial) _
  enter _ := by rintro rfl _; rfl
  release _ := by rintro rfl; rfl
  define _ := by rintro rfl _; exact nesting_refl (fun _ => trivial) _
  assign _ := by rintro rfl _; exact nesting_refl (fun _ => trivial) _
  write _ _ := by rintro rfl _; exact nesting_refl (fun _ => trivial) _

theorem nesting_covers (hle : limit ≤ limit') : nesting.Covers limit limit limit' limit' :=
  .inr ⟨hle, rfl⟩

/-- If the first run keeps within its limit, the second one is the same. -/
theorem eq_of_nesting {α : Type} {good : α → Prop}
    {result result' : Except RuntimeError α × Machine} (h : nesting.Agrees good result result')
    (hwithin : ∀ e, result.1 = .error e → e.kind ≠ .stackOverflow) : result' = result := by
  cases h with
  | ok hpairs _ => rw [hpairs]
  | error hpairs hsame => rw [hpairs, hsame]
  | ended hends => exact absurd hends (hwithin _ rfl)

end Coupling

/-- A program that keeps within the limit has the same execution under every higher limit. -/
theorem Program.exec_of_le {limit limit' : Nat} (hle : limit ≤ limit') {p : Program} {m : Machine}
    (hwithin : ∀ e, (p.exec limit m).1 = .error e → e.kind ≠ .stackOverflow) :
    p.exec limit' m = p.exec limit m := by
  have hagrees := Coupling.agrees_stmts Coupling.nesting_steady (Coupling.nesting_covers hle)
    p.stmts (rfl : m = m)
  exact Coupling.eq_of_nesting hagrees hwithin

/-- The same for a run on one executor, whose counter compares all calls with the limit. -/
theorem Program.count_of_le {limit limit' : Nat} (hle : limit ≤ limit') {p : Program} {m : Machine}
    (hwithin : ∀ e, (p.count limit m).1 = .error e → e.kind ≠ .stackOverflow) :
    p.count limit' m = p.count limit m := by
  rw [count_eq] at hwithin
  rw [count_eq, count_eq, exec_of_le hle hwithin]

/-- The limit on nested calls is a cut-off and nothing else. From any session, new or reached by a
run, a program or an expression that keeps within the limit has the same outcome under every higher
limit, and leaves the same machine. -/
theorem Session.limit_is_cutoff (s : Session) {limit : Nat} (hle : s.limit ≤ limit) :
    (∀ p, (∀ e, (s.runProgram p).1 = .error e → e.kind ≠ .stackOverflow) →
      Session.runProgram ⟨limit, s.machine⟩ p =
        ((s.runProgram p).1, ⟨limit, (s.runProgram p).2.machine⟩)) ∧
    ∀ expr, (∀ e, (s.evaluate expr).1 = .error e → e.kind ≠ .stackOverflow) →
      Session.evaluate ⟨limit, s.machine⟩ expr =
        ((s.evaluate expr).1, ⟨limit, (s.evaluate expr).2.machine⟩) := by
  constructor
  · intro p hwithin
    have heq := Program.exec_of_le hle hwithin
    change ((p.exec limit s.machine).1, (⟨limit, (p.exec limit s.machine).2⟩ : Session)) = _
    rw [heq]
    rfl
  · intro expr hwithin
    have hagrees := Coupling.agrees_eval (m := s.machine) Coupling.nesting_steady.toLawful
      (Coupling.nesting_covers hle) expr rfl
    have heq := Coupling.eq_of_nesting hagrees hwithin
    change ((expr.eval limit FrameId.global s.machine).1,
      (⟨limit, (expr.eval limit FrameId.global s.machine).2⟩ : Session)) = _
    rw [heq]
    rfl

theorem Session.limit_is_cutoff_for_recursion :
    let p : Program := ⟨[.define "f" (.lambda "x"
        (.cond (.var "x") (.app (.var "f") [.bool false]) (.bool true))),
      .print (.app (.var "f") [.bool true])]⟩
    let s := ofSettings ⟨1, 2⟩
    let t := (s.runProgram p).2
    let call : Expr := .app (.var "f") [.keyword .num]
    (s.runProgram p).1 = .ok ["true"] ∧
      Session.runProgram ⟨5, s.machine⟩ p = (.ok ["true"], ⟨5, t.machine⟩) ∧
      (∃ e, (t.evaluate call).1 = .error e ∧ e.kind = .typeMismatch) ∧
      Session.evaluate ⟨5, t.machine⟩ call =
        ((t.evaluate call).1, ⟨5, (t.evaluate call).2.machine⟩) := by
  intro p s t call
  have hok : (s.runProgram p).1 = .ok ["true"] := by with_unfolding_all rfl
  have herror : (t.evaluate call).1 = .error (.of (.typeMismatch "'if'"
      "a boolean in guard position" "keyword")) := by with_unfolding_all rfl
  have hle : 2 ≤ 5 := by decide
  have hrun := (limit_is_cutoff s hle).1 p (by rw [hok]; rintro e ⟨⟩)
  have heval := (limit_is_cutoff t hle).2 call (by
    rw [herror]
    rintro e ⟨⟩
    decide)
  rw [hok] at hrun
  exact ⟨hok, hrun, ⟨_, herror, rfl⟩, heval⟩

end CellLang

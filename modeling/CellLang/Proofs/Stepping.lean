import CellLang.Proofs.Linkage

/-!
# Evaluation in steps

Evaluation is written here once more, as a process that takes one step at a time: a stack holds what
is left to do in the evaluations and calls in progress, a counter is raised when a call begins and
lowered when it returns, and a search for a name visits one frame after another. Nothing bounds the
number of steps in advance, and a step that needs a frame which does not exist cannot be taken. In
an environment whose links are sound every process nevertheless ends, with the result of the
evaluation. The argument is by induction on the calls that are left, and within a call on the
expression; it needs that a call which returns has put the counter back.
-/

namespace CellLang

/-- What is left to do when the evaluation that was begun last returns. -/
inductive Pending where
  | args (frame : FrameId) (rest : List Expr)
  | arg (frame : FrameId) (callee : Value) (done : List Value) (rest : List Expr)
  | branch (frame : FrameId) (thenBranch elseBranch : Expr)
  | new (size : Nat)
  | deref (target : Expr)
  | offset (frame : FrameId) (op : Operator) (pointer offset : Expr)
  | move (op : Operator) (pointer offset : Expr) (base : Value)
  /-- A call is in progress that began with `mark` frames. -/
  | leave (mark : Nat)
  | define (name : String) (rest : List Stmt) (printed : List String)
  | value (location expr : Expr) (rest : List Stmt) (printed : List String)
  | assign (location : Expr) (target : Value) (rest : List Stmt) (printed : List String)
  | print (rest : List Stmt) (printed : List String)

/-- What a process does next. -/
inductive Task where
  | eval (e : Expr) (frame : FrameId)
  /-- Evaluates the rest of the arguments of an application. -/
  | evalArgs (frame : FrameId) (callee : Value) (done : List Value) (rest : List Expr)
  /-- Looks for a name in one frame. -/
  | seek (name : String) (id : FrameId)
  | apply (callee : Value) (args : List Value)
  | exec (rest : List Stmt) (printed : List String)
  | ret (outcome : Except RuntimeError Value)

structure Process where
  task : Task
  stack : List Pending
  /-- Number of calls in progress. -/
  depth : Nat
  machine : Machine

namespace Process

section Actions

variable (k : List Pending) (d : Nat)

/-- A result is returned. -/
def returned (r : Except RuntimeError Value × Machine) : Process := ⟨.ret r.1, k, d, r.2⟩

/-- A statement has been carried out, and the next ones follow. -/
def advanced (rest : List Stmt) (printed : List String) (r : Except RuntimeError Unit × Machine) :
    Process :=
  match r with
  | (.ok _, m) => ⟨.exec rest printed, k, d, m⟩
  | (.error e, m) => ⟨.ret (.error e), k, d, m⟩

/-- An evaluation begins. -/
def start (frame : FrameId) (m : Machine) : Expr → Process
  | .var name => ⟨.seek name frame, k, d, m⟩
  | .num x => returned k d (.ok (.num x), m)
  | .bool b => returned k d (.ok (.bool b), m)
  | .keyword t => returned k d (.ok (.keyword t), m)
  | .lambda param body => returned k d (.ok (.closure ⟨param, body, frame⟩), m)
  | .app head args => ⟨.eval head frame, .args frame args :: k, d, m⟩
  | .cond guard thenBranch elseBranch =>
    ⟨.eval guard frame, .branch frame thenBranch elseBranch :: k, d, m⟩
  | .new type size => ⟨.eval type frame, .new size :: k, d, m⟩
  | .deref target => ⟨.eval target frame, .deref target :: k, d, m⟩
  | .move op pointer offset => ⟨.eval pointer frame, .offset frame op pointer offset :: k, d, m⟩

/-- A name is looked for in one frame; if that frame does not bind it, its parent is next. -/
def visit (name : String) (m : Machine) (f : Frame) : Process :=
  match f.find? name with
  | some v => returned k d (.ok v, m)
  | none => match f.parent with
    | some parent => ⟨.seek name parent, k, d, m⟩
    | none => returned k d (.error (.of (.unboundVariable name)), m)

/-- An application begins. Only calls of closures are counted. -/
def call (limit : Nat) (m : Machine) (callee : Value) (args : List Value) : Process :=
  match callee with
  | .closure c => match args with
    | [arg] =>
      if limit ≤ d then returned k d (.error (.of (.stackOverflow limit)), m)
      else ⟨.eval c.body m.env.size, .leave m.env.size :: k, d + 1, m.enter c arg⟩
    | _ => returned k d (.error (.of (.arityMismatch "closure" 1 args.length)), m)
  | .prim p => returned k d (Eval.lift (p.call args) m)
  | other => returned k d (.error (.of (.invalidCallee other.typeName)), m)

/-- A statement begins. -/
def startStmt (rest : List Stmt) (printed : List String) (m : Machine) : Stmt → Process
  | .define name expr => ⟨.eval expr FrameId.global, .define name rest printed :: k, d, m⟩
  | .assign location expr =>
    ⟨.eval location FrameId.global, .value location expr rest printed :: k, d, m⟩
  | .print expr => ⟨.eval expr FrameId.global, .print rest printed :: k, d, m⟩

/-- A value is returned to what was waiting for it. -/
def resume (v : Value) (m : Machine) : Pending → Process
  | .args frame rest => ⟨.evalArgs frame v [] rest, k, d, m⟩
  | .arg frame callee done rest => ⟨.evalArgs frame callee (done ++ [v]) rest, k, d, m⟩
  | .branch frame thenBranch elseBranch => match v with
    | .bool true => ⟨.eval thenBranch frame, k, d, m⟩
    | .bool false => ⟨.eval elseBranch frame, k, d, m⟩
    | other => returned k d
        (.error (.of (.typeMismatch "'if'" "a boolean in guard position" other.typeName)), m)
  | .new size => match v with
    | .keyword t => returned k d (Eval.allocate t size m)
    | other => returned k d
        (.error (.of (.typeMismatch "'new'" "a keyword (Num or Bool)" other.typeName)), m)
  | .deref target => returned k d (Expr.derefValue target v m)
  | .offset frame op pointer offset => ⟨.eval offset frame, .move op pointer offset v :: k, d, m⟩
  | .move op pointer offset base =>
    returned k d (Expr.moveValue (.move op pointer offset) op base v m)
  | .leave mark => ⟨.ret (.ok v), k, d - 1, m.settle mark (.ok v)⟩
  | .define name rest printed => advanced k d rest printed
      (Eval.putEnvironment (m.env.define FrameId.global name v) m)
  | .value location expr rest printed =>
    ⟨.eval expr FrameId.global, .assign location v rest printed :: k, d, m⟩
  | .assign location target rest printed =>
    advanced k d rest printed (Stmt.assignTo location target v m)
  | .print rest printed => ⟨.exec rest (printed ++ [v.text]), k, d, m⟩

/-- An error passes by; a call that it ends drops its frames and is no longer counted. -/
def unwind (e : RuntimeError) (m : Machine) : Pending → Process
  | .leave mark => ⟨.ret (.error e), k, d - 1, m.settle mark (.error e)⟩
  | _ => ⟨.ret (.error e), k, d, m⟩

end Actions

/-- One step. There is none from a result that nothing waits for, from the end of a program, and
from a search in a frame that does not exist. -/
def step (limit : Nat) : Process → Option Process
  | ⟨.eval e frame, k, d, m⟩ => some (start k d frame m e)
  | ⟨.evalArgs _ callee done [], k, d, m⟩ => some ⟨.apply callee done, k, d, m⟩
  | ⟨.evalArgs frame callee done (e :: rest), k, d, m⟩ =>
    some ⟨.eval e frame, .arg frame callee done rest :: k, d, m⟩
  | ⟨.seek name id, k, d, m⟩ => (m.env.frames[id]?).map (visit k d name m)
  | ⟨.apply callee args, k, d, m⟩ => some (call k d limit m callee args)
  | ⟨.exec (st :: rest) printed, k, d, m⟩ => some (startStmt k d rest printed m st)
  | ⟨.ret (.ok v), p :: k, d, m⟩ => some (resume k d v m p)
  | ⟨.ret (.error e), p :: k, d, m⟩ => some (unwind k d e m p)
  | ⟨.exec [] _, _, _, _⟩ | ⟨.ret _, [], _, _⟩ => none

/-- The second process is reached from the first by steps. -/
def Reaches (limit : Nat) : Process → Process → Prop :=
  Relation.ReflTransGen fun x y => x.step limit = some y

/-! ## Composing runs -/

variable {limit depth left : Nat} {k : List Pending} {m : Machine}

namespace Reaches

theorem refl (x : Process) : Reaches limit x x := Relation.ReflTransGen.refl

theorem trans {x y z : Process} (hxy : Reaches limit x y) (hyz : Reaches limit y z) :
    Reaches limit x z :=
  Relation.ReflTransGen.trans hxy hyz

theorem cons {x y z : Process} (hstep : x.step limit = some y) (hyz : Reaches limit y z) :
    Reaches limit x z :=
  .head hstep hyz

/-- What waits for a value gets it, and lets an error pass. So a process follows a computation made
of two parts when it follows the first one and then, with each value of that, the second. -/
theorem bind {α : Type} {x : Eval Value} {f : Value → Eval α} {p : Pending} {begun : Process}
    {finish : Except RuntimeError α × Machine → Process}
    (hfirst : Reaches limit begun (returned (p :: k) depth (x m)))
    (hpass : ∀ e n, unwind k depth e n p = finish (.error e, n))
    (hrest : ∀ v n, x m = (.ok v, n) → Reaches limit (resume k depth v n p) (finish (f v n))) :
    Reaches limit begun (finish ((x >>= f) m)) := by
  rw [Eval.bind_apply]
  rcases hx : x m with ⟨e | v, n⟩
  · rw [hx] at hfirst
    refine hfirst.trans (.cons rfl ?_)
    rw [hpass e n]
    exact .refl _
  · rw [hx] at hfirst
    exact hfirst.trans (.cons rfl (hrest v n hx))

end Reaches

/-- The search for a name ends: each frame it visits is older than the one before. -/
theorem reaches_seek (name : String) (hlinked : m.env.Linked) (id : Nat) (hid : id < m.env.size) :
    Reaches limit ⟨.seek name id, k, depth, m⟩
      (returned k depth (Eval.lift (m.env.lookup id name) m)) := by
  induction id using Nat.strongRecOn with
  | _ id ih =>
    obtain ⟨f, hf⟩ := Environment.exists_frame hid
    have hstep : step limit ⟨.seek name id, k, depth, m⟩ = some (visit k depth name m f) :=
      congrArg (Option.map (visit k depth name m)) hf
    refine .cons hstep ?_
    have hget := Environment.get?_of_frame hf name
    unfold visit
    cases hfind : f.find? name with
    | some v =>
      rw [hfind, Option.some_or] at hget
      rw [Environment.lookup, hget]
      exact .refl _
    | none =>
      rw [hfind, Option.none_or] at hget
      cases hparent : f.parent with
      | none =>
        rw [hparent, Option.bind_none] at hget
        rw [Environment.lookup, hget]
        exact .refl _
      | some parent =>
        have hlt := hlinked.parent_lt id f parent hf hparent
        have hsame : m.env.lookup id name = m.env.lookup parent name := by
          rw [Environment.lookup, hget, hparent, Option.bind_some, if_pos hlt, Environment.lookup]
        rw [hsame]
        exact ih parent hlt (Nat.lt_trans hlt hid)

/-! ## Evaluations -/

/-- With `depth` calls in progress, every evaluation of the expression in a live frame reaches its
result by steps. -/
def Completes (limit depth left : Nat) (e : Expr) : Prop :=
  ∀ (frame : FrameId) (k : List Pending) (m : Machine), m.env.Linked → frame < m.env.size →
    Reaches limit ⟨.eval e frame, k, depth, m⟩
      (returned k depth (e.evalWith (callAt limit left) frame m))

/-- The same for every call of a closure. -/
def CallsComplete (limit depth left : Nat) : Prop :=
  ∀ (c : Closure) (arg : Value) (k : List Pending) (m : Machine), m.env.Linked →
    c.frame < m.env.size → arg.CapturesBelow m.env.size →
    Reaches limit ⟨.apply (.closure c) [arg], k, depth, m⟩
      (returned k depth (callAt limit left c arg m))

theorem reaches_apply (hcalls : CallsComplete limit depth left) {callee : Value}
    {args : List Value} (hlinked : m.env.Linked) (hcallee : callee.CapturesBelow m.env.size)
    (hargs : ∀ v ∈ args, v.CapturesBelow m.env.size) :
    Reaches limit ⟨.apply callee args, k, depth, m⟩
      (returned k depth (callee.applyWith (callAt limit left) args m)) := by
  cases callee with
  | closure c =>
    match args with
    | [] => exact .cons rfl (.refl _)
    | [arg] => exact hcalls c arg k m hlinked hcallee (hargs arg List.mem_cons_self)
    | _ :: _ :: _ => exact .cons rfl (.refl _)
  | num _ | bool _ | prim _ | pointer _ | keyword _ => exact .cons rfl (.refl _)

/-- The application that follows once the rest of the arguments has been evaluated. -/
def applying (k : List Pending) (depth : Nat) (callee : Value) (done : List Value)
    (r : Except RuntimeError (List Value) × Machine) : Process :=
  match r with
  | (.ok vs, n) => ⟨.apply callee (done ++ vs), k, depth, n⟩
  | (.error e, n) => ⟨.ret (.error e), k, depth, n⟩

theorem reaches_evalArgs {frame : FrameId} (callee : Value) (done : List Value) (es : List Expr)
    (hes : ∀ e ∈ es, Completes limit depth left e) (hlinked : m.env.Linked)
    (hframe : frame < m.env.size) :
    Reaches limit ⟨.evalArgs frame callee done es, k, depth, m⟩
      (applying k depth callee done (Expr.evalAllWith (callAt limit left) frame es m)) := by
  induction es generalizing done m with
  | nil =>
    have hnil : applying k depth callee done (.ok [], m) = ⟨.apply callee done, k, depth, m⟩ := by
      rw [applying, List.append_nil]
    exact .cons rfl (hnil ▸ .refl _)
  | cons e es ih =>
    refine .cons rfl (.bind (hes e List.mem_cons_self frame _ m hlinked hframe)
      (fun _ _ => rfl) fun v n heval => ?_)
    obtain ⟨hextends, hlinked', _⟩ := Expr.linked_evalWith hlinked hframe heval
    have hrest := ih (done ++ [v]) (fun e' he' => hes e' (List.mem_cons_of_mem _ he')) hlinked'
      (Nat.lt_of_lt_of_le hframe hextends.size_le)
    have hsame : applying k depth callee (done ++ [v])
          (Expr.evalAllWith (callAt limit left) frame es n) =
        applying k depth callee done
          ((Expr.evalAllWith (callAt limit left) frame es >>= fun vs => pure (v :: vs)) n) := by
      rw [Eval.bind_apply]
      rcases Expr.evalAllWith (callAt limit left) frame es n with ⟨_ | vs, n'⟩
      · rfl
      · show (⟨.apply callee (done ++ [v] ++ vs), k, depth, n'⟩ : Process) =
          ⟨.apply callee (done ++ (v :: vs)), k, depth, n'⟩
        rw [List.append_assoc]
        rfl
    rw [hsame] at hrest
    exact hrest

/-- If all calls complete, so does every evaluation. -/
theorem completes (hcalls : CallsComplete limit depth left) (e : Expr) :
    Completes limit depth left e := by
  induction e using Expr.inductOn with
  | var name =>
    intro frame k m hlinked hframe
    exact .cons rfl (reaches_seek name hlinked frame hframe)
  | num x | bool b | keyword t | lambda param body _ =>
    intro frame k m _ _
    exact .cons rfl (.refl _)
  | app head args ihHead ihArgs =>
    intro frame k m hlinked hframe
    refine .cons rfl (.bind (ihHead frame _ m hlinked hframe) (fun _ _ => rfl) fun v n hhead => ?_)
    obtain ⟨hextends, hlinked', hv⟩ := Expr.linked_evalWith hlinked hframe hhead
    have hframe' := Nat.lt_of_lt_of_le hframe hextends.size_le
    refine (reaches_evalArgs v [] args ihArgs hlinked' hframe').trans ?_
    show Reaches limit _ (returned k depth ((Expr.evalAllWith (callAt limit left) frame args >>=
      fun vs => v.applyWith (callAt limit left) vs) n))
    rw [Eval.bind_apply]
    rcases hargs : Expr.evalAllWith (callAt limit left) frame args n with ⟨e | vs, n'⟩
    · exact .refl _
    · obtain ⟨hextends', hlinked'', hvs⟩ := Expr.linked_evalAllWith hlinked' hframe' hargs
      exact reaches_apply hcalls hlinked'' ((hv v rfl).mono hextends'.size_le) (hvs vs rfl)
  | cond g t f ihGuard ihThen ihElse =>
    intro frame k m hlinked hframe
    refine .cons rfl (.bind (ihGuard frame _ m hlinked hframe) (fun _ _ => rfl)
      fun v n hguard => ?_)
    obtain ⟨hextends, hlinked', _⟩ := Expr.linked_evalWith hlinked hframe hguard
    have hframe' := Nat.lt_of_lt_of_le hframe hextends.size_le
    cases v with
    | bool b =>
      cases b with
      | true => exact ihThen frame k n hlinked' hframe'
      | false => exact ihElse frame k n hlinked' hframe'
    | num _ | closure _ | prim _ | pointer _ | keyword _ => exact .refl _
  | new type size ihType =>
    intro frame k m hlinked hframe
    refine .cons rfl (.bind (ihType frame _ m hlinked hframe) (fun _ _ => rfl) fun v n _ => ?_)
    cases v with
    | keyword t => exact .refl _
    | num _ | bool _ | closure _ | prim _ | pointer _ => exact .refl _
  | deref target ihTarget =>
    intro frame k m hlinked hframe
    exact .cons rfl (.bind (ihTarget frame _ m hlinked hframe) (fun _ _ => rfl)
      fun v n _ => .refl _)
  | move op p o ihPointer ihOffset =>
    intro frame k m hlinked hframe
    refine .cons rfl (.bind (ihPointer frame _ m hlinked hframe) (fun _ _ => rfl)
      fun base n hbase => ?_)
    obtain ⟨hextends, hlinked', _⟩ := Expr.linked_evalWith hlinked hframe hbase
    have hframe' := Nat.lt_of_lt_of_le hframe hextends.size_le
    exact .bind (ihOffset frame _ n hlinked' hframe') (fun _ _ => rfl) fun amount n' _ => .refl _

/-- Calls complete, however many are in progress already: with the limit reached they fail at once,
and otherwise the body of the closure runs with one call less left. -/
theorem callsComplete (left : Nat) (hleft : left = limit - depth) :
    CallsComplete limit depth left := by
  induction left generalizing depth with
  | zero =>
    intro c arg k m _ _ _
    have hfull : limit ≤ depth := by omega
    have hstep : step limit ⟨.apply (.closure c) [arg], k, depth, m⟩ =
        some (returned k depth (.error (.of (.stackOverflow limit)), m)) :=
      congrArg some (if_pos hfull)
    exact .cons hstep (.refl _)
  | succ left ih =>
    intro c arg k m hlinked hc harg
    have hroom : ¬ limit ≤ depth := by omega
    have hstep : step limit ⟨.apply (.closure c) [arg], k, depth, m⟩ =
        some ⟨.eval c.body m.env.size, .leave m.env.size :: k, depth + 1, m.enter c arg⟩ :=
      congrArg some (if_neg hroom)
    have hentered : (m.enter c arg).env.Linked := hlinked.extend hc c.param harg
    have hframe := m.size_lt_enter c arg
    refine .cons hstep ((completes (ih (by omega)) c.body m.env.size _ _ hentered hframe).trans ?_)
    rw [callAt_succ]
    rcases c.body.evalWith (callAt limit left) m.env.size (m.enter c arg) with ⟨_ | v, n⟩
    · exact .cons rfl (.refl _)
    · exact .cons rfl (.refl _)

/-! ## Statements -/

/-- The statements that follow one that has ended. -/
def following (rest : List Stmt) (printed : List String)
    (r : Except RuntimeError (List String) × Machine) : Process :=
  match r with
  | (.ok lines, n) => ⟨.exec rest (printed ++ lines), [], 0, n⟩
  | (.error e, n) => ⟨.ret (.error e), [], 0, n⟩

theorem reaches_eval (e : Expr) (hlinked : m.env.Linked) :
    Reaches limit ⟨.eval e FrameId.global, k, 0, m⟩
      (returned k 0 (e.eval limit FrameId.global m)) :=
  completes (callsComplete limit rfl) e FrameId.global k m hlinked hlinked.size_pos

/-- An action that prints nothing is followed by the next statements. -/
theorem advanced_eq (rest : List Stmt) (printed : List String) (x : Eval Unit) :
    advanced [] 0 rest printed (x m) = following rest printed ((x >>= fun _ => pure []) m) := by
  rw [Eval.bind_apply]
  rcases x m with ⟨_ | _, n⟩
  · rfl
  · show (⟨.exec rest printed, [], 0, n⟩ : Process) = ⟨.exec rest (printed ++ []), [], 0, n⟩
    rw [List.append_nil]

theorem reaches_stmt (st : Stmt) (rest : List Stmt) (printed : List String)
    (hlinked : m.env.Linked) :
    Reaches limit ⟨.exec (st :: rest) printed, [], 0, m⟩
      (following rest printed (st.exec limit m)) := by
  cases st with
  | define name expr =>
    refine .cons rfl (.bind (reaches_eval expr hlinked) (fun _ _ => rfl) fun v n _ => ?_)
    show Reaches limit (advanced [] 0 rest printed _) _
    rw [advanced_eq]
    exact .refl _
  | assign location expr =>
    refine .cons rfl (.bind (reaches_eval location hlinked) (fun _ _ => rfl)
      fun target n htarget => ?_)
    obtain ⟨_, hlinked', _⟩ := Expr.linked_evalWith hlinked hlinked.size_pos htarget
    refine .bind (reaches_eval expr hlinked') (fun _ _ => rfl) fun v n' _ => ?_
    show Reaches limit (advanced [] 0 rest printed _) _
    rw [advanced_eq]
    exact .refl _
  | print expr =>
    exact .cons rfl (.bind (reaches_eval expr hlinked) (fun _ _ => rfl) fun v n _ => .refl _)

theorem reaches_stmts (ss : List Stmt) (printed : List String) (hlinked : m.env.Linked) :
    Reaches limit ⟨.exec ss printed, [], 0, m⟩
      (following [] printed (Stmt.execAll limit ss m)) := by
  induction ss generalizing printed m with
  | nil =>
    have hnil : following [] printed (.ok [], m) = ⟨.exec [] printed, [], 0, m⟩ := by
      rw [following, List.append_nil]
    exact hnil ▸ .refl _
  | cons st ss ih =>
    refine (reaches_stmt st ss printed hlinked).trans ?_
    rw [Stmt.execAll_cons, Eval.bind_apply]
    rcases hst : st.exec limit m with ⟨e | lines, n⟩
    · exact .refl _
    · refine (ih (printed ++ lines) (Stmt.linked_exec hlinked hst)).trans ?_
      show Reaches limit _ (following [] printed
        ((Stmt.execAll limit ss >>= fun more => pure (lines ++ more)) n))
      rw [Eval.bind_apply]
      rcases Stmt.execAll limit ss n with ⟨e | more, n'⟩
      · exact .refl _
      · show Reaches limit ⟨.exec [] (printed ++ lines ++ more), [], 0, n'⟩
          ⟨.exec [] (printed ++ (lines ++ more)), [], 0, n'⟩
        rw [List.append_assoc]
        exact .refl _

/-! ## Runs end -/

/-- The order of the steps: the first process comes right after the second. -/
def Follows (limit : Nat) (later earlier : Process) : Prop := earlier.step limit = some later

/-- A process from which one without a step is reached takes finitely many steps: there is only one
way to go on at each. -/
theorem acc_of_reaches {x y : Process} (h : Reaches limit x y) (hend : y.step limit = none) :
    Acc (Follows limit) x := by
  induction h using Relation.ReflTransGen.head_induction_on with
  | refl => exact .intro y fun z hz => by rw [Follows, hend] at hz; cases hz
  | head hstep _ ih =>
    refine .intro _ fun z hz => ?_
    rw [Follows, hstep] at hz
    exact Option.some.inj hz ▸ ih

theorem step_returned (depth : Nat) (r : Except RuntimeError Value × Machine) :
    (returned [] depth r).step limit = none := by
  rcases r with ⟨_ | _, _⟩ <;> rfl

theorem step_following (r : Except RuntimeError (List String) × Machine) :
    (following [] [] r).step limit = none := by
  rcases r with ⟨_ | _, _⟩ <;> rfl

/-- Every evaluation ends, whatever it calls. In an environment whose parents are older frames and
whose closures capture frames that exist, with any limit and any number of calls in progress, the
steps of an evaluation are well founded: no sequence of nested or successive calls goes on for ever.
The evaluation returns its value or its error to whatever waits for it, with the counter of calls as
it was. A program ends as well, with its lines or with an error. -/
theorem every_evaluation_ends (limit : Nat) (m : Machine) (hlinked : m.env.Linked) :
    (∀ (depth : Nat) (e : Expr) (frame : FrameId), frame < m.env.size →
      Acc (Follows limit) ⟨.eval e frame, [], depth, m⟩ ∧
      ∃ outcome n, e.evalWith (callAt limit (limit - depth)) frame m = (outcome, n) ∧
        ∀ k, Reaches limit ⟨.eval e frame, k, depth, m⟩ ⟨.ret outcome, k, depth, n⟩) ∧
    ∀ p : Program, Acc (Follows limit) ⟨.exec p.stmts [], [], 0, m⟩ ∧
      ((∃ lines n, p.exec limit m = (.ok lines, n) ∧
          Reaches limit ⟨.exec p.stmts [], [], 0, m⟩ ⟨.exec [] lines, [], 0, n⟩) ∨
        ∃ e n, p.exec limit m = (.error e, n) ∧
          Reaches limit ⟨.exec p.stmts [], [], 0, m⟩ ⟨.ret (.error e), [], 0, n⟩) := by
  refine ⟨fun depth e frame hframe => ?_, fun p => ?_⟩
  · have hreaches := fun k =>
      completes (callsComplete (limit - depth) rfl) e frame k m hlinked hframe
    exact ⟨acc_of_reaches (hreaches []) (step_returned depth _), _, _, rfl, hreaches⟩
  · have hreaches : Reaches limit ⟨.exec p.stmts [], [], 0, m⟩ _ := reaches_stmts p.stmts [] hlinked
    refine ⟨acc_of_reaches hreaches (step_following _), ?_⟩
    rw [Program.exec]
    rcases hrun : Stmt.execAll limit p.stmts m with ⟨e | lines, n⟩
    · rw [hrun] at hreaches
      exact .inr ⟨e, n, rfl, hreaches⟩
    · rw [hrun] at hreaches
      exact .inl ⟨lines, n, rfl, hreaches⟩

theorem every_evaluation_ends_in_endless_recursion :
    let loop : Value := .closure ⟨"x", .app (.var "loop") [.var "y"], 1⟩
    let inner : Frame := ⟨[("y", loop), ("z", .bool true)], some 0⟩
    let m : Machine := ⟨⟨#[⟨[("loop", loop)], none⟩, inner]⟩, .empty 0⟩
    let e : Expr := .app (.var "loop") [.bool true]
    let overflow : RuntimeError := .of (.stackOverflow 3)
    m.env.Linked ∧ 1 < m.env.size ∧ e.evalWith (callAt 3 2) 1 m = (.error overflow, m) ∧
      Acc (Follows 3) ⟨.eval e 1, [], 1, m⟩ ∧
      Reaches 3 ⟨.eval e 1, [], 1, m⟩ ⟨.ret (.error overflow), [], 1, m⟩ ∧
      Acc (Follows 3) ⟨.exec [.print e] [], [], 0, m⟩ := by
  intro loop inner m e overflow
  have hindex : ∀ i, i < m.env.size → i = 0 ∨ i = 1 := by
    intro i hi
    have htwo : i < 2 := hi
    omega
  -- the closure in the global frame captures a newer frame, which two names share
  have hlinked : m.env.Linked := by
    refine ⟨by decide, fun i f parent hf hparent => ?_, ?_⟩
    · rcases hindex i (Environment.lt_size hf) with rfl | rfl
      · cases hf
        cases hparent
      · cases hf
        cases hparent
        decide
    · rintro v ⟨i, f, name, hf, hmem⟩
      rcases hindex i (Environment.lt_size hf) with rfl | rfl
      · cases hf
        obtain ⟨_, rfl⟩ := Prod.mk.inj (List.mem_singleton.1 hmem)
        show 1 < 2
        decide
      · cases hf
        rcases List.mem_cons.1 hmem with hloop | hmem
        · obtain ⟨_, rfl⟩ := Prod.mk.inj hloop
          show 1 < 2
          decide
        · obtain ⟨_, rfl⟩ := Prod.mk.inj (List.mem_singleton.1 hmem)
          trivial
  have heval : e.evalWith (callAt 3 2) 1 m = (.error overflow, m) := by
    unfold e m inner loop overflow
    with_unfolding_all rfl
  have hframe : 1 < m.env.size := by
    show 1 < 2
    decide
  obtain ⟨hevaluation, hprogram⟩ := every_evaluation_ends 3 m hlinked
  obtain ⟨hacc, outcome, n, hrun, hreaches⟩ := hevaluation 1 e 1 hframe
  obtain ⟨rfl, rfl⟩ := Prod.mk.inj (heval.symm.trans hrun)
  exact ⟨hlinked, hframe, heval, hacc, hreaches [], (hprogram ⟨[.print e]⟩).1⟩

end Process

end CellLang

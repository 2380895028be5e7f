import CellLang.Proofs.History

/-!
# Executors

An executor runs statements on a machine and has two registers of its own: the number of calls in
progress, raised before the body of a function runs and lowered after it, and the log of printed
lines. One executor runs a whole program, so the counter and the log go on from one statement to the
next. Every evaluation gives the counter back as it found it, on success and on every path to an
error, and does to the machine what evaluation by the number of calls left does. The run of a
program on one executor is therefore its execution on the machine.
-/

namespace CellLang

structure Executor where
  machine : Machine
  /-- Number of calls in progress. -/
  depth : Nat
  /-- The lines printed so far. -/
  log : List String

/-- A computation on an executor that may fail; the executor is kept in either case. -/
def Counted (α : Type) : Type := Executor → Except RuntimeError α × Executor

namespace Counted

instance : Monad Counted where
  pure a := fun x => (.ok a, x)
  bind x f := fun s => match x s with
    | (.ok a, s) => f a s
    | (.error e, s) => (.error e, s)

/-- A computation on the machine alone. -/
def ofEval {α : Type} (x : Eval α) : Counted α := fun s =>
  ((x s.machine).1, { s with machine := (x s.machine).2 })

/-- Adds lines to the log. -/
def print (lines : List String) : Counted Unit :=
  fun s => (.ok (), { s with log := s.log ++ lines })

end Counted

/-- The meaning of applying a closure to one argument. -/
abbrev CountedCaller := Closure → Value → Counted Value

/-- Evaluation on an executor. -/
def Interpretation.counting (call : CountedCaller) : Interpretation Counted where
  act := Counted.ofEval
  call := call

/-- Applies a value to arguments. -/
def Value.countApplyWith (call : CountedCaller) (callee : Value) (args : List Value) :
    Counted Value :=
  callee.applyIn (.counting call) args

/-- `evalWith` on an executor. -/
def Expr.countWith (call : CountedCaller) (frame : FrameId) (e : Expr) : Counted Value :=
  e.evalIn (.counting call) frame

/-- Applies closures while fewer than `limit` calls are in progress. The second argument only bounds
the recursion; the counter decides, as long as the two together reach the limit. -/
def countCallAt (limit : Nat) : Nat → CountedCaller
  | 0 => fun _ _ => .ofEval (.fault (.stackOverflow limit))
  | bound + 1 => fun c arg s =>
    if limit ≤ s.depth then (.error (.of (.stackOverflow limit)), s)
    else
      let inside : Executor := { s with machine := s.machine.enter c arg, depth := s.depth + 1 }
      match c.body.countWith (countCallAt limit bound) s.machine.env.size inside with
      | (outcome, t) =>
        (outcome, { t with
          machine := t.machine.settle s.machine.env.size outcome, depth := t.depth - 1 })

/-- The value of an expression in the global frame. -/
def Expr.count (limit : Nat) (e : Expr) : Counted Value :=
  e.countWith (countCallAt limit limit) FrameId.global

/-- Runs one statement; what it prints is added to the log. -/
def Stmt.count (limit : Nat) (st : Stmt) : Counted Unit := do
  let lines ← st.execIn (.counting (countCallAt limit limit))
  Counted.print lines

/-- Runs statements in order on one executor. -/
def Stmt.countAll (limit : Nat) : List Stmt → Counted Unit
  | [] => pure ()
  | st :: sts => do
    st.count limit
    countAll limit sts

/-- Runs a program on a machine with a new executor and returns what that has logged. -/
def Program.count (limit : Nat) (p : Program) : Eval (List String) := fun m =>
  match Stmt.countAll limit p.stmts ⟨m, 0, []⟩ with
  | (.ok _, s) => (.ok s.log, s.machine)
  | (.error e, s) => (.error e, s.machine)

/-! ## Executors and machines -/

namespace Counted

variable {α β : Type}

theorem bind_apply (x : Counted α) (f : α → Counted β) (s : Executor) :
    (x >>= f) s = match x s with
      | (.ok a, s) => f a s
      | (.error e, s) => (.error e, s) := rfl

/-- A computation that fails does so in its first part, or in the second after the first. -/
theorem bind_eq_error {x : Counted α} {f : α → Counted β} {s t : Executor} {e : RuntimeError}
    (h : (x >>= f) s = (.error e, t)) :
    x s = (.error e, t) ∨ ∃ a s', x s = (.ok a, s') ∧ f a s' = (.error e, t) := by
  rw [bind_apply] at h
  rcases hx : x s with ⟨e' | a, s'⟩
  · rw [hx] at h
    cases h
    exact .inl rfl
  · rw [hx] at h
    exact .inr ⟨a, s', rfl, h⟩

/-- With that many calls in progress, the computation does to the machine what the other one does,
and nothing to the registers. -/
def Mirrors (depth : Nat) (x : Counted α) (y : Eval α) : Prop :=
  ∀ s : Executor, s.depth = depth → x s = ofEval y s

namespace Mirrors

variable {depth : Nat}

theorem ofEval (y : Eval α) : Mirrors depth (ofEval y) y := fun _ _ => rfl

theorem pure (a : α) : Mirrors depth (pure a) (pure a) := fun _ _ => rfl

theorem bind {x : Counted α} {y : Eval α} {f : α → Counted β} {g : α → Eval β}
    (hx : Mirrors depth x y) (hf : ∀ a, Mirrors depth (f a) (g a)) :
    Mirrors depth (x >>= f) (y >>= g) := by
  intro s hs
  rw [bind_apply, hx s hs]
  simp only [Counted.ofEval, Eval.bind_apply]
  rcases y s.machine with ⟨e | a, m⟩
  · rfl
  · exact hf a { s with machine := m } hs

end Mirrors

end Counted

/-- An executor mirrors the machine, as far as it does so for calls. -/
theorem Interpretation.related_counting {depth : Nat} {call : CountedCaller} {machineCall : Caller}
    (hcall : ∀ c v, Counted.Mirrors depth (call c v) (machineCall c v)) :
    Related (.counting call) (.machine machineCall) (Counted.Mirrors depth) where
  pure := .pure
  bind := .bind
  act := .ofEval
  call := hcall
  holding _ _ _ h := h
  evaluation _ _ _ _ h := h

theorem countCallAt_of_full {limit bound : Nat} {c : Closure} {arg : Value} {s : Executor}
    (hfull : limit ≤ s.depth) :
    countCallAt limit (bound + 1) c arg s = (.error (.of (.stackOverflow limit)), s) :=
  if_pos hfull

theorem countCallAt_of_room {limit bound : Nat} {c : Closure} {arg : Value} {s t : Executor}
    {outcome : Except RuntimeError Value} (hroom : ¬ limit ≤ s.depth)
    (hbody : c.body.countWith (countCallAt limit bound) s.machine.env.size
      ⟨s.machine.enter c arg, s.depth + 1, s.log⟩ = (outcome, t)) :
    countCallAt limit (bound + 1) c arg s =
      (outcome, ⟨t.machine.settle s.machine.env.size outcome, t.depth - 1, t.log⟩) := by
  simp only [countCallAt, if_neg hroom, hbody]

/-- A call raises the counter for its body only, so it mirrors the call with as many calls left as
the counter lacks to the limit. -/
theorem mirrors_countCallAt {limit bound depth : Nat} (hbound : limit ≤ depth + bound)
    (c : Closure) (arg : Value) :
    Counted.Mirrors depth (countCallAt limit bound c arg)
      (callAt limit (limit - depth) c arg) := by
  induction bound generalizing depth c arg with
  | zero =>
    have hnone : limit - depth = 0 := by omega
    rw [hnone]
    exact .ofEval _
  | succ bound ih =>
    intro s hs
    by_cases hfull : limit ≤ s.depth
    · have hnone : limit - depth = 0 := by omega
      rw [countCallAt_of_full hfull, hnone]
      rfl
    · obtain ⟨left, hleft⟩ : ∃ left, limit - depth = left + 1 := ⟨limit - depth - 1, by omega⟩
      have hinside : limit - (depth + 1) = left := by omega
      have hdeeper : limit ≤ depth + 1 + bound := by omega
      have hmirrors :=
        (Interpretation.related_counting (ih hdeeper)).evalIn s.machine.env.size c.body
      rw [hinside] at hmirrors
      have hbody := hmirrors ⟨s.machine.enter c arg, s.depth + 1, s.log⟩ (by rw [hs])
      rw [countCallAt_of_room hfull hbody, hleft, Counted.ofEval, callAt_succ]
      rfl

/-- An evaluation that starts with some calls in progress has the others left, and ends with the
same calls in progress and the same log. -/
theorem Expr.count_eq (limit : Nat) (e : Expr) (s : Executor) :
    e.count limit s =
      Counted.ofEval (e.evalWith (callAt limit (limit - s.depth)) FrameId.global) s :=
  (Interpretation.related_counting (mirrors_countCallAt (by omega))).evalIn FrameId.global e s rfl

/-- A statement on an executor without calls in progress is the statement on its machine; the lines
it returns there are added to the log here. -/
theorem Stmt.count_eq (limit : Nat) (st : Stmt) (m : Machine) (log : List String) :
    st.count limit ⟨m, 0, log⟩ =
      match st.exec limit m with
      | (.ok lines, n) => (.ok (), ⟨n, 0, log ++ lines⟩)
      | (.error e, n) => (.error e, ⟨n, 0, log⟩) := by
  have hmirrors : Counted.Mirrors 0 (st.execIn (.counting (countCallAt limit limit)))
      (st.exec limit) :=
    (Interpretation.related_counting (mirrors_countCallAt (by omega))).execIn st
  rw [count, Counted.bind_apply, hmirrors ⟨m, 0, log⟩ rfl, Counted.ofEval]
  rcases st.exec limit m with ⟨e | lines, n⟩ <;> rfl

/-- Statements on an executor without calls in progress are the statements on its machine. The
counter ends where it began, also when one of them fails; the log then keeps the lines of those
before it. -/
theorem Stmt.countAll_eq (limit : Nat) (sts : List Stmt) (m : Machine) (log : List String) :
    ∃ printed, countAll limit sts ⟨m, 0, log⟩ =
      match execAll limit sts m with
      | (.ok lines, n) => (.ok (), ⟨n, 0, log ++ lines⟩)
      | (.error e, n) => (.error e, ⟨n, 0, log ++ printed⟩) := by
  induction sts generalizing m log with
  | nil =>
    refine ⟨[], ?_⟩
    change (Except.ok (), (⟨m, 0, log⟩ : Executor)) = (.ok (), ⟨m, 0, log ++ []⟩)
    rw [List.append_nil]
  | cons st sts ih =>
    rw [countAll, Counted.bind_apply, count_eq, execAll_cons, Eval.bind_apply]
    rcases st.exec limit m with ⟨e | lines, n⟩
    · refine ⟨[], ?_⟩
      simp only [List.append_nil]
    · obtain ⟨printed, hrest⟩ := ih n (log ++ lines)
      refine ⟨lines ++ printed, hrest.trans ?_⟩
      simp only [Eval.bind_apply]
      rcases execAll limit sts n with ⟨e | more, n'⟩
      · simp only [List.append_assoc]
      · simp only [Eval.pure_apply, List.append_assoc]

/-- A program that is run on one executor, with one counter for all its calls, has the outcome of
its execution and leaves the same machine. -/
theorem Program.count_eq (limit : Nat) (p : Program) : p.count limit = p.exec limit := by
  funext m
  obtain ⟨printed, hrun⟩ := Stmt.countAll_eq limit p.stmts m []
  rw [count, exec, hrun]
  rcases Stmt.execAll limit p.stmts m with ⟨e | lines, n⟩ <;> rfl

end CellLang

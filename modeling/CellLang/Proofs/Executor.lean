import CellLang.Proofs.Counting
import CellLang.Proofs.Growth

/-!
# Statements that fail

Wherever a statement fails, the counter of calls and the log of its executor are as they were. A
statement that fails leaves no trace but frames and cells that its evaluations have added.
-/

namespace CellLang

/-- The registers are as they were, and the machine has only grown. -/
structure Executor.Grows (s t : Executor) : Prop where
  log_eq : t.log = s.log
  depth_eq : t.depth = s.depth
  machine : s.machine.Grows t.machine

theorem Executor.Grows.trans {s t u : Executor} (hst : s.Grows t) (htu : t.Grows u) : s.Grows u :=
  ⟨htu.log_eq.trans hst.log_eq, htu.depth_eq.trans hst.depth_eq, hst.machine.trans htu.machine⟩

theorem Expr.grows_count {limit : Nat} {e : Expr} {s t : Executor}
    {outcome : Except RuntimeError Value} (hwf : s.machine.env.WellFormed)
    (h : e.count limit s = (outcome, t)) : s.Grows t ∧ t.machine.env.WellFormed := by
  obtain ⟨hgrows, hwf'⟩ := e.grows_evalWith limit (limit - s.depth) FrameId.global hwf
    hwf.size_pos
  rw [count_eq, Counted.ofEval] at h
  cases h
  exact ⟨⟨rfl, rfl, hgrows⟩, hwf'⟩

/-- Defining, storing and rebinding leave an executor as it was when they fail. -/
theorem Counted.ofEval_eq_error {x : Eval Unit} {lines : List String} {s t : Executor}
    {e : RuntimeError} (hx : ∀ m n e, x m = (.error e, n) → n = m)
    (h : (Counted.ofEval x >>= fun _ => pure lines) s = (.error e, t)) : t = s := by
  rw [bind_apply, ofEval] at h
  rcases hrun : x s.machine with ⟨e' | a, n⟩
  · obtain rfl := hx _ _ _ hrun
    rw [hrun] at h
    cases h
    rfl
  · rw [hrun] at h
    cases h

theorem Eval.putEnvironment_eq_error {made : Except Fault Environment} {m n : Machine}
    {e : RuntimeError} (h : putEnvironment made m = (.error e, n)) : n = m := by
  cases made with
  | error f => cases h; rfl
  | ok env => cases h

theorem Stmt.assignTo_eq_error {location : Expr} {target value : Value} {m n : Machine}
    {e : RuntimeError} (h : assignTo location target value m = (.error e, n)) : n = m := by
  obtain ⟨_, _, hn⟩ | ⟨_, _, _, _, hok, _⟩ | ⟨_, _, _, _, _, hok, _⟩ := assignTo_cases h
  · exact hn
  · cases hok
  · cases hok

/-- Wherever a statement fails, the registers are as they were and the machine has only grown. -/
theorem Stmt.grows_of_count_eq_error {limit : Nat} {st : Stmt} {s t : Executor} {e : RuntimeError}
    (hwf : s.machine.env.WellFormed) (h : st.count limit s = (.error e, t)) : s.Grows t := by
  -- printing does not fail, so the statement itself did
  obtain h | ⟨lines, s₁, _, h⟩ := Counted.bind_eq_error h
  · cases st with
    | define name expr =>
      obtain hexpr | ⟨v, s₁, hexpr, h⟩ := Counted.bind_eq_error h
      · exact (Expr.grows_count hwf hexpr).1
      · obtain rfl := Counted.ofEval_eq_error
          (x := Eval.putEnvironment (s₁.machine.env.define FrameId.global name v))
          (fun _ _ _ => Eval.putEnvironment_eq_error) h
        exact (Expr.grows_count hwf hexpr).1
    | assign location expr =>
      obtain hlocation | ⟨target, s₁, hlocation, h⟩ := Counted.bind_eq_error h
      · exact (Expr.grows_count hwf hlocation).1
      obtain ⟨hgrows, hwf₁⟩ := Expr.grows_count hwf hlocation
      obtain hexpr | ⟨v, s₂, hexpr, h⟩ := Counted.bind_eq_error h
      · exact hgrows.trans (Expr.grows_count hwf₁ hexpr).1
      · obtain rfl := Counted.ofEval_eq_error (fun _ _ _ => assignTo_eq_error) h
        exact hgrows.trans (Expr.grows_count hwf₁ hexpr).1
    | print expr =>
      obtain hexpr | ⟨v, s₁, _, h⟩ := Counted.bind_eq_error h
      · exact (Expr.grows_count hwf hexpr).1
      · cases h
  · cases h

namespace Session

/-- A statement that fails, in any session and with any registers, keeps the log and the counter of
calls, keeps every frame and every cell in use as they were, and changes free cells only, to the
zero of a type. For the request that runs one statement the registers are an empty counter and any
log. -/
theorem failed_statement_only_allocates (settings : Settings) (rs : List Request) (st : Stmt)
    (depth : Nat) (log : List String) :
    let s := (ofSettings settings).after rs
    (∀ e t, st.count s.limit ⟨s.machine, depth, log⟩ = (.error e, t) →
      t.log = log ∧ t.depth = depth ∧ s.machine.Grows t.machine) ∧
    ∀ e t, s.runStmt st = (.error e, t) →
      st.count s.limit ⟨s.machine, 0, log⟩ = (.error e, ⟨t.machine, 0, log⟩) ∧
        s.machine.Grows t.machine := by
  intro s
  have hwf : s.machine.env.WellFormed := wellFormed_after settings rs
  refine ⟨fun e t h => ?_, fun e t h => ?_⟩
  · obtain ⟨hlog, hdepth, hgrows⟩ := Stmt.grows_of_count_eq_error hwf h
    exact ⟨hlog, hdepth, hgrows⟩
  · have hcount : st.count s.limit ⟨s.machine, 0, log⟩ = (.error e, ⟨t.machine, 0, log⟩) := by
      rw [Stmt.count_eq]
      rcases hrun : st.exec s.limit s.machine with ⟨e' | lines, n⟩
      · rw [runStmt, perform, hrun] at h
        cases h
        rfl
      · rw [runStmt, perform, hrun] at h
        cases h
    exact ⟨hcount, (Stmt.grows_of_count_eq_error hwf hcount).machine⟩

theorem failed_statement_only_allocates_inside_call :
    let s := (ofSettings ⟨2, 5⟩).after []
    let st : Stmt := .print (.app (.lambda "x" (.app (.var "x") [])) [.new (.keyword .bool) 1])
    let m : Machine := ⟨.withPrimitives, ⟨#[.bool false, .uninitialized]⟩⟩
    st.count s.limit ⟨s.machine, 3, ["before"]⟩ =
        (.error (.of (.invalidCallee "pointer")), ⟨m, 3, ["before"]⟩) ∧
      s.machine.Grows m ∧
      s.runStmt st = (.error (.of (.invalidCallee "pointer")), ⟨5, m⟩) ∧
      st.count s.limit ⟨s.machine, 0, []⟩ =
        (.error (.of (.invalidCallee "pointer")), ⟨m, 0, []⟩) := by
  intro s st m
  have hcount : st.count s.limit ⟨s.machine, 3, ["before"]⟩ =
      (.error (.of (.invalidCallee "pointer")), ⟨m, 3, ["before"]⟩) := by
    unfold st s m
    with_unfolding_all rfl
  have hrun : s.runStmt st = (.error (.of (.invalidCallee "pointer")), ⟨5, m⟩) := by
    unfold st s m
    with_unfolding_all rfl
  obtain ⟨hkept, _⟩ := failed_statement_only_allocates ⟨2, 5⟩ [] st 3 ["before"]
  obtain ⟨_, hrequest⟩ := failed_statement_only_allocates ⟨2, 5⟩ [] st 3 []
  exact ⟨hcount, (hkept _ _ hcount).2.2, hrun, (hrequest _ _ hrun).1⟩

end Session

end CellLang

import CellLang.Proofs.Executor

/-!
# Evaluation only adds

What an evaluation may do to the executor it runs on, in any frame and with any calls in progress.
Entering a frame and leaving it again are the only ways to touch the environment, and leaving cuts
off exactly what was added since the frame was entered. An application therefore gives back the
environment that it found, unless it returns a closure, which may still refer to the added frames.
-/

namespace CellLang

/-- A call that fails or returns no closure leaves the frames of its caller, and no others. -/
theorem env_of_callAt {limit left : Nat} {c : Closure} {arg : Value} {m n : Machine}
    {outcome : Except RuntimeError Value} (hsome : 0 < m.env.size)
    (hcall : callAt limit left c arg m = (outcome, n))
    (houtcome : ∀ d, outcome ≠ .ok (.closure d)) : n.env = m.env := by
  cases left with
  | zero =>
    cases hcall
    rfl
  | succ left =>
    have hentered := Nat.lt_trans hsome (m.size_lt_enter c arg)
    have hgrows := c.body.grows_of_frame limit left m.env.size hentered
    rw [callAt_succ] at hcall
    rcases hbody : c.body.evalWith (callAt limit left) m.env.size (m.enter c arg) with ⟨result, m'⟩
    rw [hbody] at hcall hgrows
    cases hcall
    -- all frames from the mark on are newer than the call, so cutting them off restores the rest
    have hback : m'.env.release m.env.size = m.env := Machine.release_enter hsome hgrows.frames
    cases outcome with
    | error e => exact hback
    | ok v =>
      have hother : v.isClosure = false := by
        cases v with
        | closure d => exact absurd rfl (houtcome d)
        | num _ | bool _ | prim _ | pointer _ | keyword _ => rfl
      rw [Machine.settle_other m' m.env.size hother]
      exact hback

/-- The same for an application to any number of arguments. -/
theorem env_of_applyWith {limit left : Nat} {c : Closure} {args : List Value} {m n : Machine}
    {outcome : Except RuntimeError Value} (hsome : 0 < m.env.size)
    (happly : (Value.closure c).applyWith (callAt limit left) args m = (outcome, n))
    (houtcome : ∀ d, outcome ≠ .ok (.closure d)) : n.env = m.env := by
  match args with
  | [] =>
    cases happly
    rfl
  | [arg] => exact env_of_callAt hsome happly houtcome
  | _ :: _ :: _ =>
    cases happly
    rfl

namespace Executor

variable (limit : Nat) (s : Executor)

/-- An executor evaluates in any of its frames as the machine does with the calls that are left. -/
theorem countWith_eq (e : Expr) (frame : FrameId) :
    e.countWith (countCallAt limit limit) frame s =
      Counted.ofEval (e.evalWith (callAt limit (limit - s.depth)) frame) s :=
  (Interpretation.related_counting (mirrors_countCallAt (by omega))).evalIn frame e s rfl

theorem countApplyWith_eq (callee : Value) (args : List Value) :
    callee.countApplyWith (countCallAt limit limit) args s =
      Counted.ofEval (callee.applyWith (callAt limit (limit - s.depth)) args) s :=
  (Interpretation.related_counting (mirrors_countCallAt (by omega))).applyIn callee args s rfl

/-- Evaluation only adds. From any executor, with any calls in progress, an expression evaluated in
a frame that exists leaves every frame where it was and as it was, the number of calls in progress,
the capacity and every cell in use; a cell that changes was free and becomes the zero of a type. The
application of a closure leaves the environment exactly as it found it, unless it returns a closure.
Both are what the machine does with as many calls left as the counter lacks to the limit. -/
theorem evaluation_only_adds (e : Expr) (frame : FrameId)
    (hframe : frame < s.machine.env.size) :
    (∀ outcome t, e.countWith (countCallAt limit limit) frame s = (outcome, t) →
      s.machine.env.Extends t.machine.env ∧ s.machine.env.size ≤ t.machine.env.size ∧
        t.depth = s.depth ∧ s.machine.store.Grows t.machine.store ∧
        e.evalWith (callAt limit (limit - s.depth)) frame s.machine = (outcome, t.machine)) ∧
    ∀ c args outcome t,
      (Value.closure c).countApplyWith (countCallAt limit limit) args s = (outcome, t) →
      (∀ d, outcome ≠ .ok (.closure d)) →
      t.machine.env = s.machine.env ∧ t.depth = s.depth ∧
        (Value.closure c).applyWith (callAt limit (limit - s.depth)) args s.machine =
          (outcome, t.machine) := by
  have hsome : 0 < s.machine.env.size := Nat.lt_of_le_of_lt (Nat.zero_le frame) hframe
  refine ⟨fun outcome t heval => ?_, fun c args outcome t happly houtcome => ?_⟩
  · rw [countWith_eq] at heval
    cases heval
    have hgrows := e.grows_of_frame limit (limit - s.depth) frame hsome
    exact ⟨hgrows.frames, hgrows.frames.size_le, rfl, hgrows.store, rfl⟩
  · rw [countApplyWith_eq] at happly
    cases happly
    exact ⟨env_of_applyWith hsome rfl houtcome, rfl, rfl⟩

theorem evaluation_only_adds_in_call_frame :
    let env : Environment := ⟨#[⟨[], none⟩, ⟨[("t", .keyword .bool)], some 0⟩]⟩
    let store : Store := ⟨#[.bool true, .uninitialized]⟩
    let c : Closure := ⟨"x", .app (.var "x") [.var "t"], 1⟩
    let e : Expr := .app (.lambda c.param c.body) [.new (.var "t") 1]
    let s : Executor := ⟨⟨env, store⟩, 3, ["before"]⟩
    let filled : Store := ⟨#[.bool true, .bool false]⟩
    1 < s.machine.env.size ∧
      e.countWith (countCallAt 5 5) 1 s =
        (.error (.of (.invalidCallee "pointer")), ⟨⟨env, filled⟩, 3, ["before"]⟩) ∧
      store.Grows filled ∧
      (Value.closure c).countApplyWith (countCallAt 5 5) [.bool true] s =
        (.error (.of (.invalidCallee "boolean")), s) ∧
      (Value.closure c).applyWith (callAt 5 2) [.bool true] s.machine =
        (.error (.of (.invalidCallee "boolean")), s.machine) := by
  intro env store c e s filled
  have hframe : 1 < s.machine.env.size := by decide
  have heval : e.countWith (countCallAt 5 5) 1 s =
      (.error (.of (.invalidCallee "pointer")), ⟨⟨env, filled⟩, 3, ["before"]⟩) := by
    unfold e c s env store filled
    with_unfolding_all rfl
  have happly : (Value.closure c).countApplyWith (countCallAt 5 5) [.bool true] s =
      (.error (.of (.invalidCallee "boolean")), s) := by
    unfold c s env store
    with_unfolding_all rfl
  obtain ⟨hadds, hrestores⟩ := evaluation_only_adds 5 s e 1 hframe
  have hfailed : ∀ d, (.error (.of (.invalidCallee "boolean")) : Except RuntimeError Value) ≠
      .ok (.closure d) := by
    intro d heq
    cases heq
  exact ⟨hframe, heval, (hadds _ _ heval).2.2.2.1, happly,
    (hrestores c _ _ _ happly hfailed).2.2⟩

end Executor

end CellLang

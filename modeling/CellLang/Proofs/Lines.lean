import CellLang.Proofs.Counting
import CellLang.Proofs.Sizes

/-!
# Programs, statements and lines

A program may be run as a whole, its statements may be run one request at a time, and its text may
be entered as a line. The line translates each form only after those before it have run, and its
head word decides how it is taken. For a text that spells a program the three ways agree: in what is
shown, in the first error, and in the machine that is left.
-/

namespace CellLang

namespace Session

/-! ## A program and its statements -/

/-- The statements are run one request at a time and all succeed, each with its own lines. -/
inductive RunsEach : Session → List Stmt → List (List String) → Session → Prop
  | nil (s : Session) : RunsEach s [] [] s
  | cons {s t u : Session} {st : Stmt} {ss : List Stmt} {lines : List String}
      {outputs : List (List String)} : s.runStmt st = (.ok lines, t) → RunsEach t ss outputs u →
      RunsEach s (st :: ss) (lines :: outputs) u

/-- The statements are run one request at a time, and one of them is the first to fail. -/
def FailsFirst (s : Session) (ss : List Stmt) (e : RuntimeError) (u : Session) : Prop :=
  ∃ before st after outputs t,
    ss = before ++ st :: after ∧ RunsEach s before outputs t ∧ t.runStmt st = (.error e, u)

/-- A program runs its first statement and, if that succeeds, the others from where it ended. -/
theorem runProgram_cons (s : Session) (st : Stmt) (ss : List Stmt) :
    s.runProgram ⟨st :: ss⟩ =
      match s.runStmt st with
      | (.ok lines, t) => match t.runProgram ⟨ss⟩ with
        | (.ok more, u) => (.ok (lines ++ more), u)
        | (.error e, u) => (.error e, u)
      | (.error e, t) => (.error e, t) := by
  simp only [runProgram, runStmt, perform, Program.exec, Stmt.execAll_cons, Eval.bind_apply]
  rcases st.exec s.limit s.machine with ⟨e | lines, m⟩
  · rfl
  · dsimp only
    rcases Stmt.execAll s.limit ss m with ⟨e | more, n⟩ <;> rfl

theorem runProgram_of_runsEach {s t : Session} {ss : List Stmt} {outputs : List (List String)}
    (h : RunsEach s ss outputs t) : s.runProgram ⟨ss⟩ = (.ok outputs.flatten, t) := by
  induction h with
  | nil s => rfl
  | cons hfirst _ ih =>
    rw [runProgram_cons, hfirst]
    dsimp only
    rw [ih]
    rfl

theorem runProgram_of_failsFirst {s u : Session} {ss : List Stmt} {e : RuntimeError}
    (h : s.FailsFirst ss e u) : s.runProgram ⟨ss⟩ = (.error e, u) := by
  obtain ⟨before, st, after, outputs, t, rfl, hbefore, hfails⟩ := h
  induction hbefore with
  | nil s => rw [List.nil_append, runProgram_cons, hfails]
  | cons hfirst _ ih =>
    rw [List.cons_append, runProgram_cons, hfirst]
    dsimp only
    rw [ih hfails]

theorem failsFirst_cons {s t u : Session} {st : Stmt} {ss : List Stmt} {lines : List String}
    {e : RuntimeError} (hfirst : s.runStmt st = (.ok lines, t)) (h : t.FailsFirst ss e u) :
    s.FailsFirst (st :: ss) e u := by
  obtain ⟨before, st', after, outputs, t', rfl, hbefore, hfails⟩ := h
  exact ⟨st :: before, st', after, lines :: outputs, t', rfl, .cons hfirst hbefore, hfails⟩

/-- Run one request at a time, the statements all succeed or one of them is the first to fail. -/
theorem runsEach_or_failsFirst (s : Session) (ss : List Stmt) :
    (∃ outputs t, RunsEach s ss outputs t) ∨ ∃ e t, s.FailsFirst ss e t := by
  induction ss generalizing s with
  | nil => exact .inl ⟨[], s, .nil s⟩
  | cons st ss ih =>
    rcases hfirst : s.runStmt st with ⟨e | lines, t⟩
    · exact .inr ⟨e, t, [], st, ss, [], s, rfl, .nil s, hfirst⟩
    · rcases ih t with ⟨outputs, u, hrest⟩ | ⟨e, u, hrest⟩
      · exact .inl ⟨lines :: outputs, u, .cons hfirst hrest⟩
      · exact .inr ⟨e, u, failsFirst_cons hfirst hrest⟩

theorem runProgram_eq_ok_iff {s t : Session} {ss : List Stmt} {output : List String} :
    s.runProgram ⟨ss⟩ = (.ok output, t) ↔
      ∃ outputs, RunsEach s ss outputs t ∧ output = outputs.flatten := by
  constructor
  · intro hrun
    rcases s.runsEach_or_failsFirst ss with ⟨outputs, u, heach⟩ | ⟨e, u, hfails⟩
    · rw [runProgram_of_runsEach heach] at hrun
      cases hrun
      exact ⟨outputs, heach, rfl⟩
    · rw [runProgram_of_failsFirst hfails] at hrun
      cases hrun
  · rintro ⟨outputs, heach, rfl⟩
    exact runProgram_of_runsEach heach

theorem runProgram_eq_error_iff {s t : Session} {ss : List Stmt} {e : RuntimeError} :
    s.runProgram ⟨ss⟩ = (.error e, t) ↔ s.FailsFirst ss e t := by
  constructor
  · intro hrun
    rcases s.runsEach_or_failsFirst ss with ⟨outputs, u, heach⟩ | ⟨f, u, hfails⟩
    · rw [runProgram_of_runsEach heach] at hrun
      cases hrun
    · rw [runProgram_of_failsFirst hfails] at hrun
      cases hrun
      exact hfails
  · exact runProgram_of_failsFirst

theorem perform_eq_iff {α : Type} {s : Session} {x : Eval α} {outcome : Except RuntimeError α}
    {m : Machine} : s.perform x = (outcome, ⟨s.limit, m⟩) ↔ x s.machine = (outcome, m) := by
  rw [perform]
  rcases x s.machine with ⟨result, n⟩
  simp

/-- A program on one executor, with one counter and one log for all statements, gives what its
statements give one request at a time. -/
theorem count_eq_ok_iff {s : Session} {p : Program} {output : List String} {m : Machine} :
    p.count s.limit s.machine = (.ok output, m) ↔
      ∃ outputs, RunsEach s p.stmts outputs ⟨s.limit, m⟩ ∧ output = outputs.flatten := by
  rw [← runProgram_eq_ok_iff, Program.count_eq]
  exact perform_eq_iff.symm

/-- It fails where its statements first fail, and leaves the machine they leave. -/
theorem count_eq_error_iff {s : Session} {p : Program} {e : RuntimeError} {m : Machine} :
    p.count s.limit s.machine = (.error e, m) ↔ s.FailsFirst p.stmts e ⟨s.limit, m⟩ := by
  rw [← runProgram_eq_error_iff, Program.count_eq]
  exact perform_eq_iff.symm

end Session

/-! ## A program and its text -/

namespace Form

theorem isStatement_list (head : Form) (operands : List Form) (span : Span) :
    (Form.list (head :: operands) span).isStatement =
      (Special.ofForm? head).any Special.isStatement := by
  cases head with
  | atom t _ =>
    rw [isStatement, head?, Option.bind_some, Special.ofForm?]
    cases Special.ofWord? t <;> rfl
  | list _ _ => rfl

/-- Only a form that a line takes as a statement spells one. -/
theorem isStatement_of_toStmt {f : Form} {st : Stmt} (h : f.toStmt = .ok st) :
    f.isStatement = true := by
  unfold toStmt at h
  split at h
  · cases h
  · cases h
  · rw [isStatement_list]
    split at h
    · next hword => rw [hword]; rfl
    · next hword => rw [hword]; rfl
    · next hword => rw [hword]; rfl
    · split at h <;> cases h
    · cases h

end Form

namespace Session

theorem runForm_of_toStmt (s : Session) {f : Form} {st : Stmt} (h : f.toStmt = .ok st) :
    s.runForm f = ((s.runStmt st).1.mapError .runtime, (s.runStmt st).2) := by
  rw [runForm, if_pos (Form.isStatement_of_toStmt h), h]
  dsimp only
  rcases s.runStmt st with ⟨e | lines, t⟩ <;> rfl

/-- Forms that spell statements run as the program of those statements. -/
theorem runForms_of_toStmts (s : Session) {fs : List Form} {ss : List Stmt}
    (h : Form.toStmts fs = .ok ss) :
    s.runForms fs = ((s.runProgram ⟨ss⟩).1.mapError .runtime, (s.runProgram ⟨ss⟩).2) := by
  induction fs generalizing s ss with
  | nil =>
    cases h
    rfl
  | cons f fs ih =>
    obtain ⟨st, hst, h⟩ := Except.bind_eq_ok h
    obtain ⟨rest, hrest, h⟩ := Except.bind_eq_ok h
    cases h
    -- the whole text is known to translate, so no form stops the line before it runs
    rw [runForms, s.runForm_of_toStmt hst, runProgram_cons]
    rcases s.runStmt st with ⟨e | lines, t⟩
    · rfl
    · dsimp only [Except.mapError]
      rw [ih t hrest]
      rcases t.runProgram ⟨rest⟩ with ⟨e | more, u⟩ <;> rfl

theorem enter_of_parse (s : Session) {source : String} {p : Program}
    (h : Program.parse source = .ok p) :
    s.enter source = ((s.runProgram p).1.mapError .runtime, (s.runProgram p).2) := by
  obtain ⟨forms, hforms, h⟩ := Except.bind_eq_ok h
  obtain ⟨ss, hss, h⟩ := Except.bind_eq_ok h
  cases h
  rw [enter, hforms]
  exact s.runForms_of_toStmts hss

/-- For a text that spells a program, in any session, the program succeeds exactly when its
statements do one request at a time, with their lines joined, and fails exactly when one of them is
the first to fail, with its error. Entering the text as a line shows the same lines or reports the
same error. The session after it is always the same. -/
theorem program_statements_line_agree (s : Session) {source : String} {p : Program}
    (hparse : Program.parse source = .ok p) :
    (∀ output t, s.runProgram p = (.ok output, t) ↔
      ∃ outputs, RunsEach s p.stmts outputs t ∧ output = outputs.flatten) ∧
    (∀ e t, s.runProgram p = (.error e, t) ↔ s.FailsFirst p.stmts e t) ∧
    (∀ output t, s.runProgram p = (.ok output, t) → s.enter source = (.ok output, t)) ∧
    ∀ e t, s.runProgram p = (.error e, t) →
      ∃ f, s.enter source = (.error f, t) ∧ f.report = e.report := by
  have henter := s.enter_of_parse hparse
  refine ⟨fun output t => runProgram_eq_ok_iff, fun e t => runProgram_eq_error_iff,
    fun output t hrun => ?_, fun e t hrun => ?_⟩
  · rw [henter, hrun]
    rfl
  · rw [henter, hrun]
    exact ⟨.runtime e, rfl, rfl⟩

theorem program_statements_line_agree_at_failure :
    let s := ofSettings ⟨1, 1⟩
    let source := "(define x true) (print x) (define x false)"
    let p : Program := ⟨[.define "x" (.bool true), .print (.var "x"), .define "x" (.bool false)]⟩
    let e : RuntimeError := .of (.redefinition "x")
    let t := (s.runProgram p).2
    Program.parse source = .ok p ∧ s.runProgram p = (.error e, t) ∧ s.FailsFirst p.stmts e t ∧
      ∃ f, s.enter source = (.error f, t) ∧ f.report = e.report := by
  intro s source p e t
  have hparse : Program.parse source = .ok p := by
    unfold source p
    with_unfolding_all rfl
  have herror : (s.runProgram p).1 = .error e := by
    unfold s p e
    with_unfolding_all rfl
  have hrun : s.runProgram p = (.error e, t) := Prod.ext herror rfl
  obtain ⟨_, hstatements, _, hline⟩ := program_statements_line_agree s hparse
  exact ⟨hparse, hrun, (hstatements e t).1 hrun, hline e t hrun⟩

end Session

end CellLang

import CellLang.Proofs.Lines
import CellLang.Proofs.Shifting

/-!
# Lines of input may be joined

A line runs its forms in order, each translated only when those before it have run. Entering two
texts that can be read, one after the other, is therefore the same as entering both at once with a
line feed between them: the forms are the same, those of the second text only stand further to the
right, and no report of an error mentions a place.
-/

namespace CellLang

namespace LineError

def shift (k : Nat) : LineError → LineError
  | .source e => .source (e.shift k)
  | .runtime e => .runtime e

theorem report_shift (k : Nat) (e : LineError) : (e.shift k).report = e.report := by
  cases e <;> rfl

end LineError

namespace Session

/-- Where a form stands in the line shows in the span of its error only. -/
theorem runForm_shift (s : Session) (k : Nat) (f : Form) :
    s.runForm (f.shift k) =
      ((s.runForm f).1.mapError (LineError.shift k), (s.runForm f).2) := by
  unfold runForm
  rw [Form.isStatement_shift, Form.toStmt_shift, Form.toExpr_shift]
  split
  · cases f.toStmt with
    | error e => rfl
    | ok st =>
      dsimp only [Except.mapError]
      rcases s.runStmt st with ⟨e | lines, t⟩ <;> rfl
  · cases f.toExpr with
    | error e => rfl
    | ok e =>
      dsimp only [Except.mapError]
      rcases s.evaluate e with ⟨e | v, t⟩ <;> rfl

theorem runForms_shift (s : Session) (k : Nat) (fs : List Form) :
    s.runForms (fs.map (Form.shift k)) =
      ((s.runForms fs).1.mapError (LineError.shift k), (s.runForms fs).2) := by
  induction fs generalizing s with
  | nil => rfl
  | cons f fs ih =>
    rw [List.map_cons, runForms, runForms, runForm_shift]
    rcases s.runForm f with ⟨e | lines, t⟩
    · rfl
    · dsimp only [Except.mapError]
      rw [ih t]
      rcases t.runForms fs with ⟨e | more, u⟩ <;> rfl

/-- Forms in a row run like the first ones and, if none of them fails, the others from there. -/
theorem runForms_append (s : Session) (fs gs : List Form) :
    s.runForms (fs ++ gs) =
      match s.runForms fs with
      | (.ok lines, t) => match t.runForms gs with
        | (.ok more, u) => (.ok (lines ++ more), u)
        | (.error e, u) => (.error e, u)
      | (.error e, t) => (.error e, t) := by
  induction fs generalizing s with
  | nil =>
    rw [List.nil_append, runForms]
    dsimp only
    rcases s.runForms gs with ⟨e | more, u⟩ <;> rfl
  | cons f fs ih =>
    rw [List.cons_append, runForms, runForms]
    rcases s.runForm f with ⟨e | lines, t⟩
    · rfl
    · dsimp only
      rw [ih t]
      rcases t.runForms fs with ⟨e | more, u⟩
      · rfl
      · dsimp only
        rcases u.runForms gs with ⟨e | rest, v⟩
        · rfl
        · simp only [List.append_assoc]

theorem enter_of_read (s : Session) {line : String} {fs : List Form}
    (h : Form.readSource line = .ok fs) : s.enter line = s.runForms fs := by
  rw [enter, h]

/-- How a line is split into lines does not matter. In any session, and for texts that can both be
read: if the first one succeeds, both together show its lines and then those of the second one, or
report the error of the second one; if the first one fails, both together fail with its error. The
session is left as by the texts one at a time, the second only if the first succeeds. A line that
cannot be read leaves the session as it was. -/
theorem lines_may_be_joined (s : Session) :
    (∀ a b fs gs, Form.readSource a = .ok fs → Form.readSource b = .ok gs →
      (∀ lines t, s.enter a = (.ok lines, t) →
        (∀ more u, t.enter b = (.ok more, u) →
          s.enter (a ++ "\n" ++ b) = (.ok (lines ++ more), u)) ∧
        ∀ e u, t.enter b = (.error e, u) →
          ∃ f, s.enter (a ++ "\n" ++ b) = (.error f, u) ∧ f.report = e.report) ∧
      ∀ e t, s.enter a = (.error e, t) → s.enter (a ++ "\n" ++ b) = (.error e, t)) ∧
    ∀ line e, Form.readSource line = .error e → s.enter line = (.error (.source e), s) := by
  refine ⟨fun a b fs gs ha hb => ?_, fun line e hread => by rw [enter, hread]⟩
  have hjoined := Form.read_lines (Form.readSource_eq_ok_iff.1 ha) (Form.readSource_eq_ok_iff.1 hb)
  rw [s.enter_of_read ha, s.enter_of_read (Form.readSource_eq_ok_iff.2 hjoined), runForms_append]
  refine ⟨fun lines t hfirst => ?_, fun e t hfirst => by rw [hfirst]⟩
  rw [hfirst, t.enter_of_read hb]
  dsimp only
  rw [runForms_shift]
  refine ⟨fun more u hsecond => by rw [hsecond]; rfl, fun e u hsecond => ?_⟩
  rw [hsecond]
  exact ⟨_, rfl, LineError.report_shift _ e⟩

theorem lines_may_be_joined_after_comment :
    let a := "(define x true) ; (print"
    let b := "(assign x false) (if x) x"
    let s := ofSettings ⟨1, 1⟩
    (∃ fs, Form.readSource a = .ok fs) ∧ (∃ gs, Form.readSource b = .ok gs) ∧
      ∃ t e u f, s.enter a = (.ok [], t) ∧ t.enter b = (.error e, u) ∧
        s.enter (a ++ "\n" ++ b) = (.error f, u) ∧ f.report = e.report := by
  intro a b s
  obtain ⟨fs, ha⟩ : ∃ fs, Form.readSource a = .ok fs := ⟨_, by unfold a; with_unfolding_all rfl⟩
  obtain ⟨gs, hb⟩ : ∃ gs, Form.readSource b = .ok gs := ⟨_, by unfold b; with_unfolding_all rfl⟩
  obtain ⟨t, hfirst⟩ : ∃ t, s.enter a = (.ok [], t) := ⟨_, by unfold s a; with_unfolding_all rfl⟩
  have ht : t = (s.enter a).2 := by rw [hfirst]
  obtain ⟨e, hfails⟩ : ∃ e, (t.enter b).1 = .error e := by
    rw [ht]
    exact ⟨_, by unfold s a b; with_unfolding_all rfl⟩
  have hsecond : t.enter b = (.error e, (t.enter b).2) := Prod.ext hfails rfl
  obtain ⟨f, hjoined, hreport⟩ :=
    (((lines_may_be_joined s).1 a b fs gs ha hb).1 [] t hfirst).2 e _ hsecond
  exact ⟨⟨fs, ha⟩, ⟨gs, hb⟩, t, e, _, f, hfirst, hsecond, hjoined, hreport⟩

end Session

end CellLang

import CellLang.Diagnostic
import CellLang.Proofs.Slices

/-!
# Where faults of the source are reported

A text that cannot be read is reported at one of its tokens. If it can be read, a fault is found by
one of the functions that turn forms into syntax, and each of them reports the form it was given or
a form nested in that one. Spans of tokens and of forms are proper parts of the text, so every
report points into the text.
-/

namespace CellLang

/-! ## Ranges of a text -/

namespace Span

/-- The span is a range of bytes of the text. It is not empty and does not cut a character. -/
structure PointsInto (s : Span) (source : String) : Prop where
  nonempty : s.start < s.stop
  stop_le : s.stop ≤ source.utf8ByteSize
  onBoundaries : s.OnBoundaries source

theorem Covers.pointsInto {s : Span} {source part : String} (h : s.Covers source part)
    (hlt : s.start < s.stop) : s.PointsInto source :=
  ⟨hlt, h.stop_le, h.onBoundaries⟩

/-- The first range is part of the second. -/
def Inside (s t : Span) : Prop := t.start ≤ s.start ∧ s.stop ≤ t.stop

theorem Inside.refl (s : Span) : s.Inside s := ⟨Nat.le_refl _, Nat.le_refl _⟩

theorem Inside.trans {s t u : Span} (hst : s.Inside t) (htu : t.Inside u) : s.Inside u :=
  ⟨Nat.le_trans htu.1 hst.1, Nat.le_trans hst.2 htu.2⟩

end Span

theorem Token.pointsInto_of_mem_scan {source : String} {t : Token} (h : t ∈ Token.scan source) :
    t.span.PointsInto source :=
  (covers_of_mem_scan h).pointsInto ((inOrder_scan source).nonempty t h)

theorem Except.bind_eq_error {ε α β : Type} {x : Except ε α} {f : α → Except ε β} {e : ε}
    (h : (x >>= f) = .error e) : x = .error e ∨ ∃ a, x = .ok a ∧ f a = .error e := by
  cases x with
  | error e' =>
    cases h
    exact .inl rfl
  | ok a => exact .inr ⟨a, rfl, h⟩

namespace Form

theorem pointsInto_of_within {source : String} {forms : List Form} (h : read source = .ok forms)
    {x : Form} (hx : Within x forms) : x.span.PointsInto source := by
  obtain ⟨_, _, hcovers, hlt, _⟩ := exists_part h hx
  exact hcovers.pointsInto hlt

/-- A form at any depth lies inside one of the forms it is nested in. -/
theorem Within.exists_inside {x : Form} {fs : List Form} (h : Within x fs) {ts : List Token}
    (hts : Spelt ts fs) (horder : Token.InOrder ts) : ∃ f ∈ fs, x.span.Inside f.span := by
  induction h generalizing ts with
  | here hx => exact ⟨x, hx, .refl _⟩
  | @inside fs items s hlist _ ih =>
    obtain ⟨front, middle, back, rfl, hmiddle⟩ := hts.exists_tokens hlist
    have horderMiddle := horder.of_append.2.of_append.1
    obtain ⟨_, hinside⟩ := hmiddle.items horderMiddle
    -- the items are spelt by the tokens between the parentheses of the list
    cases hmiddle with
    | @list first last inside rest _ _ hitems _ =>
      obtain ⟨y, hy, hxy⟩ := ih hitems horderMiddle.inside
      obtain ⟨hleft, hright⟩ := hinside y hy
      exact ⟨_, hlist, hxy.trans ⟨Nat.le_of_lt hleft, Nat.le_of_lt hright⟩⟩

/-! ## Parts of a form -/

/-- The form, or a form nested in it, stands at the span. -/
def PartAt (f : Form) (s : Span) : Prop := ∃ x, Within x [f] ∧ x.span = s

theorem partAt_self (f : Form) : f.PartAt f.span := ⟨f, .here (List.mem_singleton_self f), rfl⟩

theorem Within.of_mem {x f : Form} {fs : List Form} (h : Within x [f]) (hf : f ∈ fs) :
    Within x fs := by
  cases h with
  | here hx =>
    rw [List.mem_singleton.1 hx]
    exact .here hf
  | inside hlist hx =>
    rw [← List.mem_singleton.1 hlist] at hf
    exact .inside hf hx

theorem PartAt.of_item {f : Form} {items : List Form} {s span : Span} (h : f.PartAt s)
    (hf : f ∈ items) : (Form.list items span).PartAt s := by
  obtain ⟨x, hx, hspan⟩ := h
  exact ⟨x, .inside (List.mem_singleton_self _) (hx.of_mem hf), hspan⟩

/-! ## Reports of the front end -/

/-- If the result is a fault, it is reported at a span with the given property. -/
def Reports {α : Type} (P : Span → Prop) (r : Except SourceError α) : Prop :=
  ∀ e, r = .error e → P e.span

namespace Reports

variable {α β : Type} {P : Span → Prop}

theorem ok (a : α) : Reports P (.ok a) := nofun

theorem error {e : SourceError} (h : P e.span) : Reports P (.error e : Except SourceError α) := by
  intro e' he
  cases he
  exact h

/-- What is computed in two steps is faulty in the first or in the second. -/
theorem bind {r : Except SourceError α} {next : α → Except SourceError β} (hr : Reports P r)
    (hnext : ∀ a, Reports P (next a)) : Reports P (r >>= next) := by
  intro e he
  rcases Except.bind_eq_error he with hfirst | ⟨a, _, hsecond⟩
  · exact hr e hfirst
  · exact hnext a e hsecond

/-- A report at a part of an item is one at a part of the list. -/
theorem of_item {r : Except SourceError α} {f : Form} (h : Reports f.PartAt r) {items : List Form}
    (hf : f ∈ items) {span : Span} : Reports (Form.list items span).PartAt r :=
  fun e he => (h e he).of_item hf

end Reports

theorem reports_toName (k : Special) (f : Form) : Reports f.PartAt (f.toName k) := by
  unfold toName
  dsimp only
  split
  · split
    · exact .ok _
    · exact .error (partAt_self _)
  · exact .error (partAt_self _)

theorem reports_toSize (f : Form) : Reports f.PartAt f.toSize := by
  unfold toSize
  dsimp only
  split
  · split
    · split
      · exact .ok _
      · exact .error (partAt_self _)
    · exact .error (partAt_self _)
  · exact .error (partAt_self _)

theorem reports_toOperator (f : Form) : Reports f.PartAt f.toOperator := by
  unfold toOperator
  dsimp only
  split
  · split
    · exact .ok _
    · exact .error (partAt_self _)
  · exact .error (partAt_self _)

theorem reports_toExprs {fs : List Form} {P : Span → Prop}
    (h : ∀ f ∈ fs, Reports P f.toExpr) : Reports P (toExprs fs) := by
  induction fs with
  | nil => exact .ok _
  | cons f fs ih =>
    refine (h f List.mem_cons_self).bind fun _ => ?_
    exact (ih fun g hg => h g (List.mem_cons_of_mem f hg)).bind fun _ => .ok _

/-- A form that is no expression is reported at itself or at a form nested in it. -/
theorem reports_toExpr (f : Form) : Reports f.PartAt f.toExpr := by
  induction f using Form.inductOn with
  | atom t s => exact .ok _
  | list items span ih =>
    have hitem : ∀ g ∈ items, Reports (Form.list items span).PartAt g.toExpr :=
      fun g hg => (ih g hg).of_item hg
    cases items with
    | nil => exact .error (partAt_self _)
    | cons head operands =>
      unfold toExpr
      split
      · next param body _ =>
        refine .bind ((reports_toName .lambda param).of_item (by simp)) fun _ => ?_
        exact (hitem body (by simp)).bind fun _ => .ok _
      · next g t e _ =>
        refine (hitem g (by simp)).bind fun _ => ?_
        refine (hitem t (by simp)).bind fun _ => ?_
        exact (hitem e (by simp)).bind fun _ => .ok _
      · next type size _ =>
        refine (hitem type (by simp)).bind fun _ => ?_
        exact .bind ((reports_toSize size).of_item (by simp)) fun _ => .ok _
      · next target _ => exact (hitem target (by simp)).bind fun _ => .ok _
      · next op pointer offset _ =>
        refine .bind ((reports_toOperator op).of_item (by simp)) fun _ => ?_
        refine (hitem pointer (by simp)).bind fun _ => ?_
        exact (hitem offset (by simp)).bind fun _ => .ok _
      · split
        · exact .error (partAt_self _)
        · exact .error (partAt_self _)
      · have hargs := reports_toExprs fun f hf => hitem f (List.mem_cons_of_mem head hf)
        refine hargs.bind fun _ => ?_
        exact (hitem head List.mem_cons_self).bind fun _ => .ok _

/-- A form that is no statement is reported at itself or at a form nested in it. -/
theorem reports_toStmt (f : Form) : Reports f.PartAt f.toStmt := by
  unfold toStmt
  split
  · exact .error (partAt_self _)
  · exact .error (partAt_self _)
  · split
    · next name expr _ =>
      refine .bind ((reports_toName .define name).of_item (by simp)) fun _ => ?_
      exact .bind ((reports_toExpr expr).of_item (by simp)) fun _ => .ok _
    · next location expr _ =>
      refine .bind ((reports_toExpr location).of_item (by simp)) fun _ => ?_
      exact .bind ((reports_toExpr expr).of_item (by simp)) fun _ => .ok _
    · next expr _ => exact .bind ((reports_toExpr expr).of_item (by simp)) fun _ => .ok _
    · split
      · exact .error (partAt_self _)
      · exact .error (partAt_self _)
    · exact .error (partAt_self _)

/-- A sequence of forms has the fault of the first form that is no statement. -/
theorem exists_rejected {fs : List Form} {e : SourceError} (h : toStmts fs = .error e) :
    ∃ before f after, fs = before ++ f :: after ∧ (∀ g ∈ before, ∃ st, g.toStmt = .ok st) ∧
      f.toStmt = .error e := by
  induction fs with
  | nil => cases h
  | cons f fs ih =>
    rcases Except.bind_eq_error h with hf | ⟨st, hf, h⟩
    · exact ⟨[], f, fs, rfl, nofun, hf⟩
    · rcases Except.bind_eq_error h with hfs | ⟨sts, _, h⟩
      · obtain ⟨before, g, after, rfl, hbefore, hg⟩ := ih hfs
        refine ⟨f :: before, g, after, rfl, fun x hx => ?_, hg⟩
        rcases List.mem_cons.1 hx with rfl | hx
        · exact ⟨st, hf⟩
        · exact hbefore x hx
      · cases h

/-- A text that cannot be read is reported at one of its parentheses. -/
theorem exists_token_of_readSource {source : String} {e : SourceError}
    (h : readSource source = .error e) :
    (∃ i, read source = .error i) ∧ ∃ t ∈ Token.scan source, t.span = e.span := by
  unfold readSource at h
  split at h
  · cases h
  · next i hread =>
    cases h
    refine ⟨⟨i, hread⟩, ?_⟩
    cases i with
    | unexpectedClose s =>
      obtain ⟨before, after, htokens, _⟩ := firstExcess_of_unexpected hread
      exact ⟨⟨.closing, s⟩, by rw [htokens]; simp, rfl⟩
    | unclosedOpen s =>
      obtain ⟨before, after, htokens, _⟩ := (lastUnclosed_of_unclosed hread).2
      exact ⟨⟨.opening, s⟩, by rw [htokens]; simp, rfl⟩

theorem pointsInto_of_readSource {source : String} {e : SourceError}
    (h : readSource source = .error e) : e.span.PointsInto source := by
  obtain ⟨_, t, ht, hspan⟩ := exists_token_of_readSource h
  rw [← hspan]
  exact Token.pointsInto_of_mem_scan ht

/-- A report at a part of a form of the text points into the text. -/
theorem PartAt.pointsInto {source : String} {forms : List Form} (h : read source = .ok forms)
    {f : Form} (hf : f ∈ forms) {s : Span} (hpart : f.PartAt s) :
    s.PointsInto source ∧ s.Inside f.span := by
  obtain ⟨x, hx, rfl⟩ := hpart
  refine ⟨pointsInto_of_within h (hx.of_mem hf), ?_⟩
  have hspelt : Spelt (Token.scan source) forms := ofTokens_eq_ok_iff.1 h
  obtain ⟨front, middle, back, hts, hmiddle⟩ := hspelt.exists_tokens hf
  have horder := Token.inOrder_scan source
  rw [hts] at horder
  obtain ⟨g, hg, hinside⟩ := hx.exists_inside hmiddle horder.of_append.2.of_append.1
  rwa [List.mem_singleton.1 hg] at hinside

end Form

/-! ## Faults of a text -/

open Form

/-- Faults of the source point into it. Whatever text is refused as a program, the diagnostic is one
of the parser, and its span is a proper range of the text. If the text cannot be read, that is the
span of one of its tokens. Otherwise it is the span of a form, which lies inside the first form that
is no statement and is the fault of that form. The same holds for a text that is refused as a single
expression, unless it has no form: a text of one form is reported inside that form, and a longer
text at the second form. -/
theorem SourceError.faults_point_into_the_source (source : String) :
    (∀ e, Program.parse source = .error e →
      Diagnostic.ofSource e = .parser e.message e.span ∧ e.span.PointsInto source ∧
      ((∃ i, read source = .error i) ∧ (∃ t ∈ Token.scan source, t.span = e.span) ∨
        ∃ before f after, read source = .ok (before ++ f :: after) ∧
          (∀ g ∈ before, ∃ st, g.toStmt = .ok st) ∧ f.toStmt = .error e ∧
          f.PartAt e.span ∧ e.span.Inside f.span)) ∧
    ∀ e, Expr.parse source = .error e → read source ≠ .ok [] →
      Diagnostic.ofSource e = .parser e.message e.span ∧ e.span.PointsInto source ∧
      ((∃ i, read source = .error i) ∧ (∃ t ∈ Token.scan source, t.span = e.span) ∨
        (∃ f, read source = .ok [f] ∧ f.toExpr = .error e ∧
          f.PartAt e.span ∧ e.span.Inside f.span) ∨
        ∃ f g rest, read source = .ok (f :: g :: rest) ∧ e.span = g.span) := by
  constructor
  · intro e h
    refine ⟨rfl, ?_⟩
    rcases Except.bind_eq_error h with hread | ⟨forms, hread, h⟩
    · exact ⟨pointsInto_of_readSource hread, .inl (exists_token_of_readSource hread)⟩
    · rw [readSource_eq_ok_iff] at hread
      rcases Except.bind_eq_error h with hstmts | ⟨_, _, h⟩
      · obtain ⟨before, f, after, rfl, hbefore, hf⟩ := exists_rejected hstmts
        have hpart := reports_toStmt f e hf
        obtain ⟨hpoints, hinside⟩ := hpart.pointsInto hread (by simp)
        exact ⟨hpoints, .inr ⟨before, f, after, hread, hbefore, hf, hpart, hinside⟩⟩
      · cases h
  · intro e h hsome
    refine ⟨rfl, ?_⟩
    rcases Except.bind_eq_error h with hread | ⟨forms, hread, h⟩
    · exact ⟨pointsInto_of_readSource hread, .inl (exists_token_of_readSource hread)⟩
    · rw [readSource_eq_ok_iff] at hread
      match forms with
      | [] => exact absurd hread hsome
      | [f] =>
        have hpart := reports_toExpr f e h
        obtain ⟨hpoints, hinside⟩ := hpart.pointsInto hread (by simp)
        exact ⟨hpoints, .inr (.inl ⟨f, hread, h, hpart, hinside⟩)⟩
      | f :: g :: rest =>
        cases h
        have hwithin : Within g (f :: g :: rest) := .here (by simp)
        exact ⟨pointsInto_of_within hread hwithin, .inr (.inr ⟨f, g, rest, hread, rfl⟩)⟩

/-- A fault at a character of two bytes, and another one behind it. -/
theorem SourceError.faults_point_into_the_source_behind_accents :
    let source := "(print (new Num é)) (if)"
    let e : SourceError := ⟨.notSize "é", ⟨16, 18⟩⟩
    let e' : SourceError := ⟨.manyExpressions, ⟨21, 25⟩⟩
    Program.parse source = .error e ∧ e.span.PointsInto source ∧
      Expr.parse source = .error e' ∧ read source ≠ .ok [] ∧ e'.span.PointsInto source := by
  intro source e e'
  let first : Form := .list [.atom "print" ⟨1, 6⟩, .list [.atom "new" ⟨8, 11⟩,
    .atom "Num" ⟨12, 15⟩, .atom "é" ⟨16, 18⟩] ⟨7, 19⟩] ⟨0, 20⟩
  let second : Form := .list [.atom "if" ⟨22, 24⟩] ⟨21, 25⟩
  have hread : read source = .ok [first, second] := by
    unfold source first second
    with_unfolding_all rfl
  have hprogram : Program.parse source = .error e := by
    rw [Program.parse, readSource_eq_ok_iff.2 hread]
    unfold first second e
    with_unfolding_all rfl
  have hexpr : Expr.parse source = .error e' := by
    rw [Expr.parse, readSource_eq_ok_iff.2 hread]
    rfl
  have hsome : read source ≠ .ok [] := by simp [hread]
  obtain ⟨hstmt, hsingle⟩ := SourceError.faults_point_into_the_source source
  exact ⟨hprogram, (hstmt e hprogram).2.1, hexpr, hsome, (hsingle e' hexpr hsome).2.1⟩

end CellLang

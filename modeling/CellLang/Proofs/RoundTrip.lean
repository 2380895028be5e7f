import CellLang.Proofs.Grammar
import CellLang.Proofs.Numerals

/-!
# Reading back what was written

The text of a program that was read from a text is read as the same program. Names are written
without quotes, so this rests on what the front end never makes: a name spelled like a numeral, a
truth value or a type, and an application whose head is a special word. The form that is written
differs from the form first read in its spans and its numerals, and each numeral keeps its number.
-/

namespace CellLang

/-! ## The numbers of a program -/

def Binary64.isInfinite : Binary64 → Bool
  | .infinity _ => true
  | _ => false

namespace Expr

mutual

/-- The number literals of an expression, from left to right. Sizes are not among them. -/
def numbers : Expr → List Binary64
  | .var _ | .bool _ | .keyword _ => []
  | .num x => [x]
  | .lambda _ body => body.numbers
  | .app head args => head.numbers ++ allNumbers args
  | .cond guard thenBranch elseBranch =>
    guard.numbers ++ thenBranch.numbers ++ elseBranch.numbers
  | .new type _ => type.numbers
  | .deref target => target.numbers
  | .move _ pointer offset => pointer.numbers ++ offset.numbers

def allNumbers : List Expr → List Binary64
  | [] => []
  | e :: es => e.numbers ++ allNumbers es

end

end Expr

def Stmt.numbers (s : Stmt) : List Binary64 := s.exprs.flatMap Expr.numbers

def Program.numbers (p : Program) : List Binary64 := p.stmts.flatMap Stmt.numbers

/-- None of the numbers is infinite, so that each of them has a numeral. -/
def Writable (xs : List Binary64) : Prop := ∀ x ∈ xs, x.isInfinite = false

theorem writable_append {xs ys : List Binary64} :
    Writable (xs ++ ys) ↔ Writable xs ∧ Writable ys :=
  List.forall_mem_append

theorem writable_expr {st : Stmt} (h : Writable st.numbers) {e : Expr} (he : e ∈ st.exprs) :
    Writable e.numbers :=
  fun x hx => h x (List.mem_flatMap.2 ⟨e, he, hx⟩)

namespace Form

/-! ## Alike forms denote the same -/

/-- An atom that is no numeral is written in one way only. -/
theorem alike_word {t : String} {s : Span} {g : Form} (h : (Form.atom t s).Alike g)
    (hword : Expr.literal? t = none) : ∃ s', g = .atom t s' := by
  cases h with
  | word _ _ s' => exact ⟨s', rfl⟩
  | numeral _ s' ht hu =>
    rw [ht] at hword
    cases hword

theorem ofForm?_alike {f g : Form} (h : f.Alike g) : Special.ofForm? g = Special.ofForm? f := by
  cases h with
  | word t s s' => rfl
  | numeral s s' ht hu =>
    rw [Special.ofForm?, Special.ofForm?, Expr.ofWord?_of_literal? ht,
      Expr.ofWord?_of_literal? hu]
  | list s s' _ => rfl

theorem literal?_of_ofAtom {name : String} (h : Expr.ofAtom name = .var name) :
    Expr.literal? name = none := by
  cases hliteral : Expr.literal? name with
  | none => rfl
  | some x =>
    rw [Expr.ofAtom_of_literal? hliteral] at h
    cases h

theorem toName_alike {f g : Form} (h : f.Alike g) {k : Special} {name : String}
    (hf : f.toName k = .ok name) : g.toName k = .ok name := by
  obtain ⟨⟨s, rfl⟩, hvar⟩ := toName_eq_ok_iff.1 hf
  exact toName_eq_ok_iff.2 ⟨alike_word h (literal?_of_ofAtom hvar), hvar⟩

theorem toOperator_alike {f g : Form} (h : f.Alike g) {op : Operator}
    (hf : f.toOperator = .ok op) : g.toOperator = .ok op := by
  obtain ⟨s, rfl⟩ := toOperator_eq_ok_iff.1 hf
  exact toOperator_eq_ok_iff.2 (alike_word h (Expr.literal?_symbol op))

theorem toSize_alike {f g : Form} (h : f.Alike g) {n : Nat} (hf : f.toSize = .ok n) :
    g.toSize = .ok n := by
  obtain ⟨t, s, x, k, rfl, hliteral, hsize⟩ := toSize_eq_ok_iff.1 hf
  cases h with
  | word _ _ s' => exact toSize_eq_ok_iff.2 ⟨t, s', x, k, rfl, hliteral, hsize⟩
  | numeral _ s' ht hu =>
    obtain rfl := Option.some.inj (ht.symm.trans hliteral)
    exact toSize_eq_ok_iff.2 ⟨_, s', _, k, rfl, hu, hsize⟩

mutual

/-- What a form denotes depends neither on its spans nor on how its numerals are written. -/
theorem denotes_alike {f g : Form} {e : Expr} (h : f.Denotes e) (hg : f.Alike g) :
    g.Denotes e := by
  match h, hg with
  | .atom t s, .word _ _ s' => exact .atom t s'
  | .atom t s, .numeral _ s' ht hu =>
    rw [Expr.ofAtom_of_literal? ht, ← Expr.ofAtom_of_literal? hu]
    exact .atom _ s'
  | .lambda s span hparam hbody, .list _ span' (.cons hhead (.cons hparam' (.cons hbody' .nil))) =>
    obtain ⟨s', rfl⟩ := alike_word hhead (Expr.literal?_word .lambda)
    exact .lambda s' span' (toName_alike hparam' hparam) (denotes_alike hbody hbody')
  | .cond s span hguard hthen helse,
    .list _ span' (.cons hhead (.cons hguard' (.cons hthen' (.cons helse' .nil)))) =>
    obtain ⟨s', rfl⟩ := alike_word hhead (Expr.literal?_word .cond)
    exact .cond s' span' (denotes_alike hguard hguard') (denotes_alike hthen hthen')
      (denotes_alike helse helse')
  | .new s span htype hsize, .list _ span' (.cons hhead (.cons htype' (.cons hsize' .nil))) =>
    obtain ⟨s', rfl⟩ := alike_word hhead (Expr.literal?_word .new)
    exact .new s' span' (denotes_alike htype htype') (toSize_alike hsize' hsize)
  | .deref s span htarget, .list _ span' (.cons hhead (.cons htarget' .nil)) =>
    obtain ⟨s', rfl⟩ := alike_word hhead (Expr.literal?_word .deref)
    exact .deref s' span' (denotes_alike htarget htarget')
  | .move s span hop hpointer hoffset,
    .list _ span' (.cons hhead (.cons hop' (.cons hpointer' (.cons hoffset' .nil)))) =>
    obtain ⟨s', rfl⟩ := alike_word hhead (Expr.literal?_word .move)
    exact .move s' span' (toOperator_alike hop' hop) (denotes_alike hpointer hpointer')
      (denotes_alike hoffset hoffset')
  | .app span hhead hargs hcallee, .list _ span' (.cons hcallee' hargs') =>
    exact .app span' ((ofForm?_alike hcallee').trans hhead) (denotesAll_alike hargs hargs')
      (denotes_alike hcallee hcallee')

theorem denotesAll_alike {fs gs : List Form} {es : List Expr} (h : DenotesAll fs es)
    (hgs : AlikeAll fs gs) : DenotesAll gs es := by
  match h, hgs with
  | .nil, .nil => exact .nil
  | .cons he hes, .cons hg hgs => exact .cons (denotes_alike he hg) (denotesAll_alike hes hgs)

end

theorem denotesStmt_alike {f g : Form} {st : Stmt} (h : f.DenotesStmt st) (hg : f.Alike g) :
    g.DenotesStmt st := by
  match h, hg with
  | .define s span hname he, .list _ span' (.cons hhead (.cons hname' (.cons he' .nil))) =>
    obtain ⟨s', rfl⟩ := alike_word hhead (Expr.literal?_word .define)
    exact .define s' span' (toName_alike hname' hname) (denotes_alike he he')
  | .assign s span hlocation he,
    .list _ span' (.cons hhead (.cons hlocation' (.cons he' .nil))) =>
    obtain ⟨s', rfl⟩ := alike_word hhead (Expr.literal?_word .assign)
    exact .assign s' span' (denotes_alike hlocation hlocation') (denotes_alike he he')
  | .print s span he, .list _ span' (.cons hhead (.cons he' .nil)) =>
    obtain ⟨s', rfl⟩ := alike_word hhead (Expr.literal?_word .print)
    exact .print s' span' (denotes_alike he he')

theorem denotesStmts_alike {fs gs : List Form} {ss : List Stmt}
    (h : List.Forall₂ DenotesStmt fs ss) (hgs : AlikeAll fs gs) :
    List.Forall₂ DenotesStmt gs ss := by
  induction h generalizing gs with
  | nil =>
    cases hgs
    exact .nil
  | cons hst _ ih =>
    cases hgs with
    | cons hg hgs => exact .cons (denotesStmt_alike hst hg) (ih hgs)

/-! ## What is written is alike what was read -/

/-- An atom is written as it was read, unless it is a numeral. -/
theorem text_ofAtom (t : String) :
    (Expr.ofAtom t).text = t ∨ ∃ x, Expr.literal? t = some x ∧ Expr.ofAtom t = .num x := by
  unfold Expr.ofAtom
  split
  · next htrue => exact .inl htrue.symm
  · split
    · next hfalse => exact .inl hfalse.symm
    · split
      · next type htype => exact .inl (CellType.name_of_ofName? htype)
      · split
        · next x hliteral => exact .inr ⟨x, hliteral, rfl⟩
        · exact .inl rfl

/-- A head and arguments joined by spaces are the head and each argument after a space. -/
theorem intercalate_args (head : String) (args : List Expr) :
    String.intercalate " " (head :: args.map Expr.text) = head ++ Expr.argsText args := by
  induction args generalizing head with
  | nil => simp [Expr.argsText]
  | cons arg args ih =>
    rw [List.map_cons, String.intercalate_cons_cons, ih, Expr.argsText, String.append_assoc,
      String.append_assoc]

theorem exists_alike_atom (t : String) (s : Span) (hnum : Writable (Expr.ofAtom t).numbers) :
    ∃ g, (Form.atom t s).Alike g ∧ g.text = (Expr.ofAtom t).text := by
  obtain htext | ⟨x, hliteral, hnumber⟩ := text_ofAtom t
  · exact ⟨.atom t s, .word t s s, htext.symm⟩
  · rw [hnumber] at hnum ⊢
    have hfinite := hnum x (by simp [Expr.numbers])
    cases x with
    | nan => exact absurd rfl (Expr.literal?_ne_nan hliteral)
    | infinity negative => cases hfinite
    | finite negative units hunits =>
      exact ⟨.atom _ s, .numeral s s hliteral (Expr.literal?_plain negative hunits), rfl⟩

/-- The text of a size is a numeral of the number that the size was read from, even where the size
is less than that number. -/
theorem exists_alike_size {f : Form} {n : Nat} (h : f.toSize = .ok n) :
    ∃ s, f.Alike (.atom (toString n) s) := by
  obtain ⟨t, s, x, k, rfl, hliteral, hwhole, hpos, hle, rfl⟩ := toSize_eq_ok_iff.1 h
  have hsize : Expr.literal? (toString x.toWord) = some x := by
    rw [Expr.literal?_nat, Binary64.ofNat_toWord hwhole hpos hle]
  exact ⟨s, .numeral s s hliteral hsize⟩

-- By induction on the derivation. The written form repeats every word of the form that was read; in
-- each case the text of the expression is unfolded on the right and that of the form on the left.
mutual

/-- The text of an expression is the text of a form alike the one that it was read from. -/
theorem exists_alike_text {f : Form} {e : Expr} (h : f.Denotes e) (hnum : Writable e.numbers) :
    ∃ g, f.Alike g ∧ g.text = e.text := by
  match h with
  | .atom t s => exact exists_alike_atom t s hnum
  | .lambda s span hparam hbody =>
    obtain ⟨⟨s', rfl⟩, _⟩ := toName_eq_ok_iff.1 hparam
    obtain ⟨body, hbody', htext⟩ := exists_alike_text hbody hnum
    refine ⟨.list [_, _, body] span,
      .list _ _ (.cons (.word _ s s) (.cons (.word _ s' s') (.cons hbody' .nil))), ?_⟩
    change _ = "(lambda " ++ _ ++ " " ++ Expr.text _ ++ ")"
    simp [text, texts, Special.word, htext, ← String.append_assoc]
  | .cond s span hguard hthen helse =>
    obtain ⟨hnum, hnumElse⟩ := writable_append.1 hnum
    obtain ⟨hnumGuard, hnumThen⟩ := writable_append.1 hnum
    obtain ⟨g, hg, htextGuard⟩ := exists_alike_text hguard hnumGuard
    obtain ⟨t, ht, htextThen⟩ := exists_alike_text hthen hnumThen
    obtain ⟨f, hf, htextElse⟩ := exists_alike_text helse hnumElse
    refine ⟨.list [_, g, t, f] span,
      .list _ _ (.cons (.word _ s s) (.cons hg (.cons ht (.cons hf .nil)))), ?_⟩
    change _ = "(if " ++ Expr.text _ ++ " " ++ Expr.text _ ++ " " ++ Expr.text _ ++ ")"
    simp [text, texts, Special.word, htextGuard, htextThen, htextElse, ← String.append_assoc]
  | .new s span htype hsize =>
    obtain ⟨type, htype', htext⟩ := exists_alike_text htype hnum
    obtain ⟨s', hsize'⟩ := exists_alike_size hsize
    refine ⟨.list [_, type, _] span,
      .list _ _ (.cons (.word _ s s) (.cons htype' (.cons hsize' .nil))), ?_⟩
    change _ = "(new " ++ Expr.text _ ++ " " ++ toString _ ++ ")"
    simp [text, texts, Special.word, htext, ← String.append_assoc]
  | .deref s span htarget =>
    obtain ⟨target, htarget', htext⟩ := exists_alike_text htarget hnum
    refine ⟨.list [_, target] span, .list _ _ (.cons (.word _ s s) (.cons htarget' .nil)), ?_⟩
    change _ = "(deref " ++ Expr.text _ ++ ")"
    simp [text, texts, Special.word, htext, ← String.append_assoc]
  | .move s span hop hpointer hoffset =>
    obtain ⟨s', rfl⟩ := toOperator_eq_ok_iff.1 hop
    obtain ⟨hnumPointer, hnumOffset⟩ := writable_append.1 hnum
    obtain ⟨p, hp, htextPointer⟩ := exists_alike_text hpointer hnumPointer
    obtain ⟨o, ho, htextOffset⟩ := exists_alike_text hoffset hnumOffset
    refine ⟨.list [_, _, p, o] span,
      .list _ _ (.cons (.word _ s s) (.cons (.word _ s' s') (.cons hp (.cons ho .nil)))), ?_⟩
    change _ = "(pointer-arith " ++ Operator.symbol _ ++ " " ++ Expr.text _ ++ " " ++
      Expr.text _ ++ ")"
    simp [text, texts, Special.word, htextPointer, htextOffset, ← String.append_assoc]
  | .app span hhead hargs hcallee =>
    obtain ⟨hnumHead, hnumArgs⟩ := writable_append.1 hnum
    obtain ⟨head, hhead', htext⟩ := exists_alike_text hcallee hnumHead
    obtain ⟨operands, hoperands, htexts⟩ := exists_alike_texts hargs hnumArgs
    refine ⟨.list (head :: operands) span, .list _ _ (.cons hhead' hoperands), ?_⟩
    rw [text, texts, htext, htexts, intercalate_args, ← String.append_assoc]
    rfl

theorem exists_alike_texts {fs : List Form} {es : List Expr} (h : DenotesAll fs es)
    (hnum : Writable (Expr.allNumbers es)) :
    ∃ gs, AlikeAll fs gs ∧ texts gs = es.map Expr.text := by
  match h with
  | .nil => exact ⟨[], .nil, rfl⟩
  | .cons he hes =>
    obtain ⟨hnumFirst, hnumOthers⟩ := writable_append.1 hnum
    obtain ⟨g, hg, htext⟩ := exists_alike_text he hnumFirst
    obtain ⟨gs, hgs, htexts⟩ := exists_alike_texts hes hnumOthers
    exact ⟨g :: gs, .cons hg hgs, by rw [texts, htext, htexts, List.map_cons]⟩

end

theorem exists_alike_text_stmt {f : Form} {st : Stmt} (h : f.DenotesStmt st)
    (hnum : Writable st.numbers) : ∃ g, f.Alike g ∧ g.text = st.text := by
  match h with
  | .define s span hname he =>
    obtain ⟨⟨s', rfl⟩, _⟩ := toName_eq_ok_iff.1 hname
    obtain ⟨expr, hexpr, htext⟩ :=
      exists_alike_text he (writable_expr hnum (by simp [Stmt.exprs]))
    refine ⟨.list [_, _, expr] span,
      .list _ _ (.cons (.word _ s s) (.cons (.word _ s' s') (.cons hexpr .nil))), ?_⟩
    simp [text, texts, Special.word, Stmt.text, htext, ← String.append_assoc]
  | .assign s span hlocation he =>
    obtain ⟨location, hlocation', htextLocation⟩ :=
      exists_alike_text hlocation (writable_expr hnum (by simp [Stmt.exprs]))
    obtain ⟨expr, hexpr, htext⟩ :=
      exists_alike_text he (writable_expr hnum (by simp [Stmt.exprs]))
    refine ⟨.list [_, location, expr] span,
      .list _ _ (.cons (.word _ s s) (.cons hlocation' (.cons hexpr .nil))), ?_⟩
    simp [text, texts, Special.word, Stmt.text, htextLocation, htext, ← String.append_assoc]
  | .print s span he =>
    obtain ⟨expr, hexpr, htext⟩ :=
      exists_alike_text he (writable_expr hnum (by simp [Stmt.exprs]))
    refine ⟨.list [_, expr] span, .list _ _ (.cons (.word _ s s) (.cons hexpr .nil)), ?_⟩
    simp [text, texts, Special.word, Stmt.text, htext, ← String.append_assoc]

theorem exists_alike_text_stmts {fs : List Form} {ss : List Stmt}
    (h : List.Forall₂ DenotesStmt fs ss) (hnum : Writable (ss.flatMap Stmt.numbers)) :
    ∃ gs, AlikeAll fs gs ∧ texts gs = ss.map Stmt.text := by
  induction h with
  | nil => exact ⟨[], .nil, rfl⟩
  | cons hst _ ih =>
    rw [List.flatMap_cons] at hnum
    obtain ⟨hnumFirst, hnumOthers⟩ := writable_append.1 hnum
    obtain ⟨g, hg, htext⟩ := exists_alike_text_stmt hst hnumFirst
    obtain ⟨gs, hgs, htexts⟩ := ih hnumOthers
    exact ⟨g :: gs, .cons hg hgs, by rw [texts, htext, htexts, List.map_cons]⟩

/-! ## Reading the written form -/

mutual

/-- A numeral is a word, so the written form can be scanned. -/
theorem wordy_alike {f g : Form} (h : f.Alike g) (hf : f.Wordy) : g.Wordy := by
  match h with
  | .word t s s' => exact wordy_atom.2 (wordy_atom.1 hf)
  | .numeral s s' ht hu => exact wordy_atom.2 (Expr.isWord_of_literal? hu)
  | .list s s' hgs => exact wordy_list.2 (wordyAll_alike hgs (wordy_list.1 hf))

theorem wordyAll_alike {fs gs : List Form} (h : AlikeAll fs gs) (hfs : WordyAll fs) :
    WordyAll gs := by
  match h with
  | .nil => exact hfs
  | .cons hg hgs =>
    obtain ⟨hf, hfs⟩ := wordyAll_cons.1 hfs
    exact wordyAll_cons.2 ⟨wordy_alike hg hf, wordyAll_alike hgs hfs⟩

end

/-- Forms alike those of a text are read back from their joined texts. -/
theorem readSource_alike {source : String} {fs gs : List Form} (h : readSource source = .ok fs)
    (hgs : AlikeAll fs gs) {separator : String} {blank : Char}
    (hseparator : separator.toList = [blank]) (hblank : Text.isBlank blank = true) :
    ∃ hs, readSource (String.intercalate separator (texts gs)) = .ok hs ∧ AlikeAll gs hs := by
  have hwordy := wordyAll_alike hgs (wordyAll_of_read (readSource_eq_ok_iff.1 h))
  obtain ⟨hs, hread, halike⟩ := read_joined gs hwordy hseparator hblank
  exact ⟨hs, readSource_eq_ok_iff.2 hread, halike⟩

end Form

/-! ## Programs and expressions -/

theorem Program.parse_eq_ok_iff {source : String} {p : Program} :
    Program.parse source = .ok p ↔ ∃ forms, Form.readSource source = .ok forms ∧
      List.Forall₂ Form.DenotesStmt forms p.stmts := by
  constructor
  · intro h
    obtain ⟨forms, hread, h⟩ := Except.bind_eq_ok h
    obtain ⟨ss, hss, h⟩ := Except.bind_eq_ok h
    cases h
    exact ⟨forms, hread, Form.toStmts_eq_ok_iff.1 hss⟩
  · rintro ⟨forms, hread, hss⟩
    have hstmts := Form.toStmts_eq_ok_iff.2 hss
    simp only [parse, bind, Except.bind, hread, hstmts]
    rfl

theorem Expr.parse_eq_ok_iff {source : String} {e : Expr} :
    Expr.parse source = .ok e ↔ ∃ form, Form.readSource source = .ok [form] ∧ form.Denotes e := by
  constructor
  · intro h
    obtain ⟨forms, hread, h⟩ := Except.bind_eq_ok h
    match forms with
    | [] => cases h
    | [form] => exact ⟨form, hread, Form.toExpr_eq_ok_iff.1 h⟩
    | _ :: _ :: _ => cases h
  · rintro ⟨form, hread, he⟩
    simp only [parse, hread]
    exact Form.toExpr_of_denotes he

theorem Program.parse_text {source : String} {p : Program} (h : Program.parse source = .ok p)
    (hnum : Writable p.numbers) : Program.parse p.text = .ok p := by
  obtain ⟨fs, hread, hstmts⟩ := parse_eq_ok_iff.1 h
  obtain ⟨gs, hgs, htexts⟩ := Form.exists_alike_text_stmts hstmts hnum
  have hline : "\n".toList = ['\n'] := rfl
  obtain ⟨hs, hread', hhs⟩ := Form.readSource_alike hread hgs hline (by decide)
  rw [htexts] at hread'
  exact parse_eq_ok_iff.2
    ⟨hs, hread', Form.denotesStmts_alike (Form.denotesStmts_alike hstmts hgs) hhs⟩

theorem Expr.parse_text {source : String} {e : Expr} (h : Expr.parse source = .ok e)
    (hnum : Writable e.numbers) : Expr.parse e.text = .ok e := by
  obtain ⟨f, hread, he⟩ := parse_eq_ok_iff.1 h
  obtain ⟨g, hg, htext⟩ := Form.exists_alike_text he hnum
  have hspace : " ".toList = [' '] := rfl
  obtain ⟨hs, hread', hhs⟩ := Form.readSource_alike hread (.cons hg .nil) hspace (by decide)
  rw [Form.texts, Form.texts, String.intercalate_singleton, htext] at hread'
  obtain _ | ⟨hh, ⟨⟩⟩ := hhs
  exact parse_eq_ok_iff.2 ⟨_, hread', Form.denotes_alike (Form.denotes_alike he hg) hh⟩

/-- What the front end reads, it reads again from the text of the result: every program and every
expression read from a text without an infinite number. -/
theorem written_syntax_reads_back :
    (∀ source p, Program.parse source = .ok p → (∀ x ∈ p.numbers, x.isInfinite = false) →
      Program.parse p.text = .ok p) ∧
    (∀ source e, Expr.parse source = .ok e → (∀ x ∈ e.numbers, x.isInfinite = false) →
      Expr.parse e.text = .ok e) :=
  ⟨fun _ _ h hnum => Program.parse_text h hnum, fun _ _ h hnum => Expr.parse_text h hnum⟩

theorem written_syntax_reads_back_at_limits :
    let p : Program := ⟨[.assign (.new (.keyword .num) 18446744073709551615) (.num (.zero true))]⟩
    let e : Expr := .app (.var "f") [.var "if", .num (.zero true)]
    Program.parse "(assign (new Num 18446744073709551616) -0.0)" = .ok p ∧
      Program.parse p.text = .ok p ∧
      Expr.parse "(f if -0.0)" = .ok e ∧ Expr.parse e.text = .ok e := by
  intro p e
  have hzero : ∀ s, (Form.atom "-0.0" s).Denotes (.num (.zero true)) := by
    have hdecimal : Decimal.ofLiteral? "-0.0".toList = some ⟨true, 0, -1⟩ := by
      with_unfolding_all rfl
    have hvalue : Binary64.ofDecimal ⟨true, 0, -1⟩ = .zero true := by decide +kernel
    have hliteral : Expr.literal? "-0.0" = some (.zero true) := by
      rw [Expr.literal?, hdecimal, Option.map_some, hvalue]
    rw [← Expr.ofAtom_of_literal? hliteral]
    exact .atom "-0.0"
  have hsize : (Form.atom "18446744073709551616" ⟨17, 37⟩).toSize = .ok 18446744073709551615 := by
    have htext : "18446744073709551616" = toString 18446744073709551616 := by with_unfolding_all rfl
    exact Form.toSize_eq_ok_iff.2 ⟨_, _, .ofNat 18446744073709551616, 18446744073709551616, rfl,
      by rw [htext, Expr.literal?_nat], by decide +kernel, by decide, by decide, by decide +kernel⟩
  have hp : Program.parse "(assign (new Num 18446744073709551616) -0.0)" = .ok p :=
    Program.parse_eq_ok_iff.2 ⟨[.list [.atom "assign" ⟨1, 7⟩, .list [.atom "new" ⟨9, 12⟩,
      .atom "Num" ⟨13, 16⟩, .atom "18446744073709551616" ⟨17, 37⟩] ⟨8, 38⟩,
      .atom "-0.0" ⟨39, 43⟩] ⟨0, 44⟩], by with_unfolding_all rfl,
      .cons (.assign _ _ (.new _ _ (.atom "Num" _) hsize) (hzero _)) .nil⟩
  have he : Expr.parse "(f if -0.0)" = .ok e :=
    Expr.parse_eq_ok_iff.2 ⟨.list [.atom "f" ⟨1, 2⟩, .atom "if" ⟨3, 5⟩, .atom "-0.0" ⟨6, 10⟩]
      ⟨0, 11⟩, by with_unfolding_all rfl,
      .app _ (by with_unfolding_all rfl) (.cons (.atom "if" _) (.cons (hzero _) .nil))
        (.atom "f" _)⟩
  obtain ⟨hprogram, hexpr⟩ := written_syntax_reads_back
  exact ⟨hp, hprogram _ p hp (by decide), he, hexpr _ e he (by decide)⟩

end CellLang

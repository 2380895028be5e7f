import CellLang.Proofs.Sizes
import Mathlib.Data.List.Forall2

/-!
# The grammar of programs

Which forms spell which expressions and statements, as relations with one rule for each construct.
The front end accepts exactly what the rules derive, and gives what they derive.
-/

namespace CellLang

theorem Special.ofWord?_word (k : Special) : ofWord? k.word = some k := by
  cases k <;> decide

theorem Special.ofWord?_eq_some {t : String} {k : Special} (h : ofWord? t = some k) :
    t = k.word := by
  have hword := List.find?_some h
  exact (eq_of_beq hword).symm

theorem Special.ofForm?_eq_some {f : Form} {k : Special} (h : ofForm? f = some k) :
    ∃ span, f = .atom k.word span := by
  cases f with
  | atom t span => exact ⟨span, by rw [ofWord?_eq_some h]⟩
  | list items span => cases h

theorem Operator.symbol_of_ofSymbol? {t : String} {op : Operator} (h : ofSymbol? t = some op) :
    op.symbol = t := by
  unfold ofSymbol? at h
  repeat' split at h
  all_goals cases h
  all_goals exact Eq.symm ‹_›

theorem Expr.ofAtom_eq_var {t name : String} (h : ofAtom t = .var name) : name = t := by
  unfold ofAtom at h
  repeat' split at h
  all_goals cases h
  rfl

theorem CellType.name_of_ofName? {t : String} {type : CellType} (h : ofName? t = some type) :
    type.name = t := by
  unfold ofName? at h
  repeat' split at h
  all_goals cases h
  all_goals exact Eq.symm ‹_›

namespace Form

/-- Induction on forms, with a hypothesis for every item of a list. -/
theorem inductOn {motive : Form → Prop} (f : Form) (atom : ∀ t s, motive (.atom t s))
    (list : ∀ items s, (∀ g ∈ items, motive g) → motive (.list items s)) : motive f :=
  @Form.rec motive (fun fs => ∀ g ∈ fs, motive g) atom list
    (fun _ h => absurd h List.not_mem_nil)
    (fun _ _ hhead htail _ h => (List.mem_cons.1 h).elim (fun heq => heq ▸ hhead) (htail _)) f

/-! ## Operands that are not expressions -/

theorem toName_eq_ok_iff {f : Form} {k : Special} {name : String} :
    f.toName k = .ok name ↔ (∃ s, f = .atom name s) ∧ Expr.ofAtom name = .var name := by
  constructor
  · intro h
    unfold toName at h
    dsimp only at h
    split at h
    · next t s =>
      split at h
      · next found hvar =>
        cases h
        obtain rfl := Expr.ofAtom_eq_var hvar
        exact ⟨⟨s, rfl⟩, hvar⟩
      · cases h
    · cases h
  · rintro ⟨⟨s, rfl⟩, hvar⟩
    simp only [toName, hvar]

theorem toOperator_eq_ok_iff {f : Form} {op : Operator} :
    f.toOperator = .ok op ↔ ∃ s, f = .atom op.symbol s := by
  constructor
  · intro h
    unfold toOperator at h
    dsimp only at h
    split at h
    · next t s =>
      split at h
      · next found hsymbol =>
        cases h
        exact ⟨s, by rw [Operator.symbol_of_ofSymbol? hsymbol]⟩
      · cases h
    · cases h
  · rintro ⟨s, rfl⟩
    simp only [toOperator, Operator.ofSymbol?_symbol]

/-- A size is a numeral of a whole number, at least one and at most one above the largest word. -/
theorem toSize_eq_ok_iff {f : Form} {n : Nat} :
    f.toSize = .ok n ↔ ∃ t s x k, f = .atom t s ∧ Expr.literal? t = some x ∧
      x.whole? = some k ∧ 1 ≤ k ∧ k ≤ Binary64.maxWord + 1 ∧ x.toWord = n := by
  constructor
  · intro h
    unfold toSize at h
    dsimp only at h
    split at h
    · next t s =>
      split at h
      · next x k hx =>
        obtain ⟨y, hliteral, hy⟩ := Option.bind_eq_some_iff.1 hx
        obtain ⟨k', hwhole, hpair⟩ := Option.map_eq_some_iff.1 hy
        obtain ⟨rfl, rfl⟩ := Prod.mk.inj hpair
        split at h
        · next hrange =>
          cases h
          exact ⟨t, s, y, k', rfl, hliteral, hwhole, hrange.1, hrange.2, rfl⟩
        · cases h
      · cases h
    · cases h
  · rintro ⟨t, s, x, k, rfl, hliteral, hwhole, hpos, hle, rfl⟩
    simp [toSize, hliteral, hwhole, hpos, hle]

/-! ## Expressions -/

mutual

/-- The form spells the expression. -/
inductive Denotes : Form → Expr → Prop
  | atom (t : String) (s : Span) : Denotes (.atom t s) (.ofAtom t)
  | lambda {param body : Form} {name : String} {e : Expr} (s span : Span) :
      param.toName .lambda = .ok name → Denotes body e →
      Denotes (.list [.atom Special.lambda.word s, param, body] span) (.lambda name e)
  | cond {g t f : Form} {guard thenBranch elseBranch : Expr} (s span : Span) :
      Denotes g guard → Denotes t thenBranch → Denotes f elseBranch →
      Denotes (.list [.atom Special.cond.word s, g, t, f] span) (.cond guard thenBranch elseBranch)
  | new {t size : Form} {type : Expr} {n : Nat} (s span : Span) :
      Denotes t type → size.toSize = .ok n →
      Denotes (.list [.atom Special.new.word s, t, size] span) (.new type n)
  | deref {f : Form} {target : Expr} (s span : Span) : Denotes f target →
      Denotes (.list [.atom Special.deref.word s, f] span) (.deref target)
  | move {o p f : Form} {op : Operator} {pointer offset : Expr} (s span : Span) :
      o.toOperator = .ok op → Denotes p pointer → Denotes f offset →
      Denotes (.list [.atom Special.move.word s, o, p, f] span) (.move op pointer offset)
  | app {head : Form} {operands : List Form} {callee : Expr} {args : List Expr} (span : Span) :
      Special.ofForm? head = none → DenotesAll operands args → Denotes head callee →
      Denotes (.list (head :: operands) span) (.app callee args)

inductive DenotesAll : List Form → List Expr → Prop
  | nil : DenotesAll [] []
  | cons {f : Form} {fs : List Form} {e : Expr} {es : List Expr} :
      Denotes f e → DenotesAll fs es → DenotesAll (f :: fs) (e :: es)

end

theorem denotesAll_of_toExprs {fs : List Form}
    (ih : ∀ f ∈ fs, ∀ {e}, f.toExpr = .ok e → f.Denotes e) {es : List Expr}
    (h : toExprs fs = .ok es) : DenotesAll fs es := by
  induction fs generalizing es with
  | nil =>
    cases h
    exact .nil
  | cons f fs ihs =>
    obtain ⟨e, he, h⟩ := Except.bind_eq_ok h
    obtain ⟨es', hes, h⟩ := Except.bind_eq_ok h
    cases h
    exact .cons (ih f List.mem_cons_self he)
      (ihs (fun g hg => ih g (List.mem_cons_of_mem f hg)) hes)

theorem denotes_of_toExpr (f : Form) {e : Expr} (h : f.toExpr = .ok e) : f.Denotes e := by
  induction f using Form.inductOn generalizing e with
  | atom t s =>
    cases h
    exact .atom t s
  | list items span ih =>
    cases items with
    | nil => cases h
    | cons head operands =>
      unfold toExpr at h
      split at h
      · next hhead =>
        obtain ⟨s, rfl⟩ := Special.ofForm?_eq_some hhead
        obtain ⟨param, hparam, h⟩ := Except.bind_eq_ok h
        obtain ⟨body, hbody, h⟩ := Except.bind_eq_ok h
        cases h
        exact .lambda s span hparam (ih _ (by simp) hbody)
      · next hhead =>
        obtain ⟨s, rfl⟩ := Special.ofForm?_eq_some hhead
        obtain ⟨guard, hguard, h⟩ := Except.bind_eq_ok h
        obtain ⟨thenBranch, hthen, h⟩ := Except.bind_eq_ok h
        obtain ⟨elseBranch, helse, h⟩ := Except.bind_eq_ok h
        cases h
        exact .cond s span (ih _ (by simp) hguard) (ih _ (by simp) hthen) (ih _ (by simp) helse)
      · next hhead =>
        obtain ⟨s, rfl⟩ := Special.ofForm?_eq_some hhead
        obtain ⟨type, htype, h⟩ := Except.bind_eq_ok h
        obtain ⟨size, hsize, h⟩ := Except.bind_eq_ok h
        cases h
        exact .new s span (ih _ (by simp) htype) hsize
      · next hhead =>
        obtain ⟨s, rfl⟩ := Special.ofForm?_eq_some hhead
        obtain ⟨target, htarget, h⟩ := Except.bind_eq_ok h
        cases h
        exact .deref s span (ih _ (by simp) htarget)
      · next hhead =>
        obtain ⟨s, rfl⟩ := Special.ofForm?_eq_some hhead
        obtain ⟨op, hop, h⟩ := Except.bind_eq_ok h
        obtain ⟨pointer, hpointer, h⟩ := Except.bind_eq_ok h
        obtain ⟨offset, hoffset, h⟩ := Except.bind_eq_ok h
        cases h
        exact .move s span hop (ih _ (by simp) hpointer) (ih _ (by simp) hoffset)
      · split at h <;> cases h
      · next hhead =>
        obtain ⟨args, hargs, h⟩ := Except.bind_eq_ok h
        obtain ⟨callee, hcallee, h⟩ := Except.bind_eq_ok h
        cases h
        exact .app span hhead
          (denotesAll_of_toExprs (fun f hf => ih f (List.mem_cons_of_mem head hf)) hargs)
          (ih head List.mem_cons_self hcallee)

mutual

theorem toExpr_of_denotes {f : Form} {e : Expr} (h : f.Denotes e) : f.toExpr = .ok e := by
  match h with
  | .atom t s => rfl
  | .lambda s span hparam hbody =>
    simp only [toExpr, Special.ofForm?, Special.ofWord?_word, hparam, toExpr_of_denotes hbody]
    rfl
  | .cond s span hguard hthen helse =>
    simp only [toExpr, Special.ofForm?, Special.ofWord?_word, toExpr_of_denotes hguard,
      toExpr_of_denotes hthen, toExpr_of_denotes helse]
    rfl
  | .new s span htype hsize =>
    simp only [toExpr, Special.ofForm?, Special.ofWord?_word, toExpr_of_denotes htype, hsize]
    rfl
  | .deref s span htarget =>
    simp only [toExpr, Special.ofForm?, Special.ofWord?_word, toExpr_of_denotes htarget]
    rfl
  | .move s span hop hpointer hoffset =>
    simp only [toExpr, Special.ofForm?, Special.ofWord?_word, hop, toExpr_of_denotes hpointer,
      toExpr_of_denotes hoffset]
    rfl
  | .app span hhead hargs hcallee =>
    simp only [toExpr, hhead, toExprs_of_denotesAll hargs, toExpr_of_denotes hcallee]
    rfl

theorem toExprs_of_denotesAll {fs : List Form} {es : List Expr} (h : DenotesAll fs es) :
    toExprs fs = .ok es := by
  match h with
  | .nil => rfl
  | .cons he hes =>
    simp only [toExprs, toExpr_of_denotes he, toExprs_of_denotesAll hes]
    rfl

end

/-- The front end accepts as expressions what the grammar derives. -/
theorem toExpr_eq_ok_iff {f : Form} {e : Expr} : f.toExpr = .ok e ↔ f.Denotes e :=
  ⟨denotes_of_toExpr f, toExpr_of_denotes⟩

/-! ## Statements -/

/-- The form spells the statement. -/
inductive DenotesStmt : Form → Stmt → Prop
  | define {target expr : Form} {name : String} {e : Expr} (s span : Span) :
      target.toName .define = .ok name → expr.Denotes e →
      DenotesStmt (.list [.atom Special.define.word s, target, expr] span) (.define name e)
  | assign {target expr : Form} {location e : Expr} (s span : Span) :
      target.Denotes location → expr.Denotes e →
      DenotesStmt (.list [.atom Special.assign.word s, target, expr] span) (.assign location e)
  | print {expr : Form} {e : Expr} (s span : Span) : expr.Denotes e →
      DenotesStmt (.list [.atom Special.print.word s, expr] span) (.print e)

theorem denotesStmt_of_toStmt {f : Form} {st : Stmt} (h : f.toStmt = .ok st) :
    f.DenotesStmt st := by
  unfold toStmt at h
  split at h
  · cases h
  · cases h
  · next span =>
    split at h
    · next hhead =>
      obtain ⟨s, rfl⟩ := Special.ofForm?_eq_some hhead
      obtain ⟨name, hname, h⟩ := Except.bind_eq_ok h
      obtain ⟨e, he, h⟩ := Except.bind_eq_ok h
      cases h
      exact .define s span hname (toExpr_eq_ok_iff.1 he)
    · next hhead =>
      obtain ⟨s, rfl⟩ := Special.ofForm?_eq_some hhead
      obtain ⟨location, hlocation, h⟩ := Except.bind_eq_ok h
      obtain ⟨e, he, h⟩ := Except.bind_eq_ok h
      cases h
      exact .assign s span (toExpr_eq_ok_iff.1 hlocation) (toExpr_eq_ok_iff.1 he)
    · next hhead =>
      obtain ⟨s, rfl⟩ := Special.ofForm?_eq_some hhead
      obtain ⟨e, he, h⟩ := Except.bind_eq_ok h
      cases h
      exact .print s span (toExpr_eq_ok_iff.1 he)
    · split at h <;> cases h
    · cases h

/-- The front end accepts as statements what the grammar derives. -/
theorem toStmt_eq_ok_iff {f : Form} {st : Stmt} : f.toStmt = .ok st ↔ f.DenotesStmt st := by
  refine ⟨denotesStmt_of_toStmt, fun h => ?_⟩
  cases h with
  | define s span hname he =>
    simp only [toStmt, Special.ofForm?, Special.ofWord?_word, hname, toExpr_of_denotes he]
    rfl
  | assign s span hlocation he =>
    simp only [toStmt, Special.ofForm?, Special.ofWord?_word, toExpr_of_denotes hlocation,
      toExpr_of_denotes he]
    rfl
  | print s span he =>
    simp only [toStmt, Special.ofForm?, Special.ofWord?_word, toExpr_of_denotes he]
    rfl

theorem toStmts_eq_ok_iff {fs : List Form} {ss : List Stmt} :
    toStmts fs = .ok ss ↔ List.Forall₂ DenotesStmt fs ss := by
  constructor
  · intro h
    induction fs generalizing ss with
    | nil =>
      cases h
      exact .nil
    | cons f fs ih =>
      obtain ⟨st, hst, h⟩ := Except.bind_eq_ok h
      obtain ⟨rest, hrest, h⟩ := Except.bind_eq_ok h
      cases h
      exact .cons (toStmt_eq_ok_iff.1 hst) (ih hrest)
  · intro h
    induction h with
    | nil => rfl
    | cons hst _ ih =>
      simp only [toStmts, toStmt_eq_ok_iff.2 hst, ih]
      rfl

theorem readSource_eq_ok_iff {source : String} {fs : List Form} :
    readSource source = .ok fs ↔ read source = .ok fs := by
  unfold readSource
  split
  · next forms hread => rw [hread, Except.ok.injEq, Except.ok.injEq]
  · next e hread =>
    rw [hread]
    exact ⟨nofun, nofun⟩

end Form

end CellLang

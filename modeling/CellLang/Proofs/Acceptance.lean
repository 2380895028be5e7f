import CellLang.Proofs.Grammar
import CellLang.Proofs.Lines
import CellLang.Proofs.Numerals

/-!
# Accepted forms

Which forms spell an expression, and which a statement, without a word on what they spell. A form is
an expression when every list that stands in expression position inside it has an allowed shape; the
names, sizes and operators among the operands are no such positions. A statement is one of three
shapes around expressions. No form is both, so the head word of a form decides which of the two it
can be.
-/

namespace CellLang

/-! ## Numerals -/

namespace Decimal

/-- A numeral of program text, with its sign and its digits before and behind the point. -/
inductive Numeral : List Char → Bool → List Char → List Char → Prop
  | plain {cs ds fs : List Char} : Unsigned cs ds fs → Numeral cs false ds fs
  | minus {cs ds fs : List Char} : Unsigned cs ds fs → Numeral ('-' :: cs) true ds fs

theorem ofLiteral?_of_numeral {cs ds fs : List Char} {negative : Bool}
    (h : Numeral cs negative ds fs) :
    ofLiteral? cs = some ⟨negative, ofDigits (ds ++ fs), -(fs.length : Int)⟩ := by
  cases h with
  | plain hunsigned => exact ofLiteral?_signed (ofUnsigned?_of_unsigned hunsigned false)
  | minus hunsigned => exact ofLiteral?_signed (ofUnsigned?_of_unsigned hunsigned true)

theorem numeral_of_ofLiteral? {cs : List Char} {d : Decimal} (h : ofLiteral? cs = some d) :
    ∃ negative ds fs, Numeral cs negative ds fs := by
  unfold ofLiteral? at h
  split at h
  · obtain ⟨ds, fs, hunsigned⟩ := unsigned_of_ofUnsigned? h
    exact ⟨true, ds, fs, .minus hunsigned⟩
  · obtain ⟨ds, fs, hunsigned⟩ := unsigned_of_ofUnsigned? h
    exact ⟨false, ds, fs, .plain hunsigned⟩

end Decimal

namespace Binary64

/-- The number nearest to the one with the given digits before and behind the point. -/
def ofNumeral (negative : Bool) (ds fs : List Char) : Binary64 :=
  ofRatio negative (Decimal.ofDigits (ds ++ fs) * one) (Decimal.tenPow fs.length)

theorem ofDecimal_ofNumeral (negative : Bool) (ds fs : List Char) :
    ofDecimal ⟨negative, Decimal.ofDigits (ds ++ fs), -(fs.length : Int)⟩ =
      ofNumeral negative ds fs := by
  cases fs with
  | nil =>
    show ofRatio negative (Decimal.ofDigits (ds ++ []) * Decimal.tenPow 0 * one) 1 = _
    rw [Decimal.tenPow_zero, Nat.mul_one]
    rfl
  | cons c fs => exact ofDecimal_negative_exponent negative _ (Nat.succ_pos _)

end Binary64

namespace Expr

/-- The text is a numeral. -/
def IsNumeral (t : String) : Prop := ∃ negative ds fs, Decimal.Numeral t.toList negative ds fs

theorem literal?_eq_some_iff {t : String} {x : Binary64} :
    literal? t = some x ↔
      ∃ negative ds fs, Decimal.Numeral t.toList negative ds fs ∧
        Binary64.ofNumeral negative ds fs = x := by
  constructor
  · intro h
    obtain ⟨d, hd, hx⟩ := literal?_eq_some h
    obtain ⟨negative, ds, fs, hnumeral⟩ := Decimal.numeral_of_ofLiteral? hd
    obtain rfl := Option.some.inj ((Decimal.ofLiteral?_of_numeral hnumeral).symm.trans hd)
    refine ⟨negative, ds, fs, hnumeral, ?_⟩
    rw [← Binary64.ofDecimal_ofNumeral, hx]
  · intro h
    obtain ⟨negative, ds, fs, hnumeral, hx⟩ := h
    rw [literal?, Decimal.ofLiteral?_of_numeral hnumeral, Option.map_some,
      Binary64.ofDecimal_ofNumeral, hx]

theorem isNumeral_iff {t : String} : IsNumeral t ↔ ∃ x, literal? t = some x := by
  constructor
  · intro h
    obtain ⟨negative, ds, fs, hnumeral⟩ := h
    exact ⟨_, literal?_eq_some_iff.2 ⟨negative, ds, fs, hnumeral, rfl⟩⟩
  · intro h
    obtain ⟨x, hx⟩ := h
    obtain ⟨negative, ds, fs, hnumeral, _⟩ := literal?_eq_some_iff.1 hx
    exact ⟨negative, ds, fs, hnumeral⟩

/-- A variable is an atom that is nothing else. -/
theorem ofAtom_eq_var_iff {t : String} :
    ofAtom t = .var t ↔ t ∉ ["true", "false", "Num", "Bool"] ∧ ¬ IsNumeral t := by
  rw [isNumeral_iff]
  unfold ofAtom CellType.ofName?
  by_cases htrue : t = "true"
  · simp [htrue]
  by_cases hfalse : t = "false"
  · simp [hfalse]
  by_cases hnum : t = "Num"
  · simp [hnum]
  by_cases hbool : t = "Bool"
  · simp [hbool]
  cases hliteral : literal? t with
  | none => simp [htrue, hfalse, hnum, hbool]
  | some x => simp [htrue, hfalse, hnum, hbool]

end Expr

namespace Form

/-! ## Operands that are not in expression position -/

/-- A name that may be bound. -/
def IsName : Form → Prop
  | .atom t _ => t ∉ ["true", "false", "Num", "Bool"] ∧ ¬ Expr.IsNumeral t
  | .list _ _ => False

/-- A numeral whose binary number is an integer from one up to `2 ^ 64`. -/
def IsSize : Form → Prop
  | .atom t _ => ∃ negative ds fs k, Decimal.Numeral t.toList negative ds fs ∧
      (Binary64.ofNumeral negative ds fs).whole? = some k ∧ 1 ≤ k ∧ k ≤ Binary64.twoPow 64
  | .list _ _ => False

def IsOperator : Form → Prop
  | .atom t _ => t ∈ ["+", "-", "*", "/"]
  | .list _ _ => False

theorem isName_iff {f : Form} (k : Special) : f.IsName ↔ ∃ name, f.toName k = .ok name := by
  cases f with
  | atom t s =>
    rw [IsName, ← Expr.ofAtom_eq_var_iff]
    constructor
    · intro hvar
      exact ⟨t, toName_eq_ok_iff.2 ⟨⟨s, rfl⟩, hvar⟩⟩
    · intro h
      obtain ⟨name, hname⟩ := h
      obtain ⟨⟨_, hatom⟩, hvar⟩ := toName_eq_ok_iff.1 hname
      cases hatom
      exact hvar
  | list items s =>
    refine ⟨False.elim, fun h => ?_⟩
    obtain ⟨name, hname⟩ := h
    cases hname

theorem isSize_iff {f : Form} : f.IsSize ↔ ∃ n, f.toSize = .ok n := by
  cases f with
  | atom t s =>
    constructor
    · intro h
      obtain ⟨negative, ds, fs, k, hnumeral, hwhole, hpos, hle⟩ := h
      have hliteral := Expr.literal?_eq_some_iff.2 ⟨negative, ds, fs, hnumeral, rfl⟩
      exact ⟨_, toSize_eq_ok_iff.2 ⟨t, s, _, k, rfl, hliteral, hwhole, hpos, hle, rfl⟩⟩
    · intro h
      obtain ⟨n, hn⟩ := h
      obtain ⟨_, _, x, k, hatom, hliteral, hwhole, hpos, hle, _⟩ := toSize_eq_ok_iff.1 hn
      cases hatom
      obtain ⟨negative, ds, fs, hnumeral, rfl⟩ := Expr.literal?_eq_some_iff.1 hliteral
      exact ⟨negative, ds, fs, k, hnumeral, hwhole, hpos, hle⟩
  | list items s =>
    refine ⟨False.elim, fun h => ?_⟩
    obtain ⟨n, hn⟩ := h
    cases hn

theorem isOperator_iff {f : Form} : f.IsOperator ↔ ∃ op, f.toOperator = .ok op := by
  cases f with
  | atom t s =>
    constructor
    · intro h
      have hsymbol : ∃ op : Operator, op.symbol = t := by
        simp only [IsOperator, List.mem_cons, List.not_mem_nil, or_false] at h
        rcases h with rfl | rfl | rfl | rfl
        · exact ⟨.add, rfl⟩
        · exact ⟨.sub, rfl⟩
        · exact ⟨.mul, rfl⟩
        · exact ⟨.div, rfl⟩
      obtain ⟨op, rfl⟩ := hsymbol
      exact ⟨op, toOperator_eq_ok_iff.2 ⟨s, rfl⟩⟩
    · intro h
      obtain ⟨op, hop⟩ := h
      obtain ⟨_, hatom⟩ := toOperator_eq_ok_iff.1 hop
      cases hatom
      show op.symbol ∈ ["+", "-", "*", "/"]
      cases op <;> decide
  | list items s =>
    refine ⟨False.elim, fun h => ?_⟩
    obtain ⟨op, hop⟩ := h
    cases hop

/-! ## Expression positions -/

/-- The items belong to a list that may stand in expression position. -/
def Shaped : List Form → Prop
  | [] => False
  | .list _ _ :: _ => True
  | .atom word _ :: operands =>
    word ∉ ["define", "assign", "print"] ∧
    (word = "lambda" → ∃ param body, operands = [param, body] ∧ param.IsName) ∧
    (word = "if" → ∃ guard thenBranch elseBranch, operands = [guard, thenBranch, elseBranch]) ∧
    (word = "new" → ∃ type size, operands = [type, size] ∧ size.IsSize) ∧
    (word = "deref" → ∃ target, operands = [target]) ∧
    (word = "pointer-arith" → ∃ op pointer offset, operands = [op, pointer, offset] ∧ op.IsOperator)

/-- Those items of a list that stand in expression position. -/
def expressions : List Form → List Form
  | .atom word s :: operands =>
    if word = "lambda" ∨ word = "pointer-arith" then operands.drop 1
    else if word = "new" then operands.take 1
    else if word = "if" ∨ word = "deref" then operands
    else .atom word s :: operands
  | items => items

/-- The second form stands in expression position inside the first one, or is that form. -/
inductive InPosition (f : Form) : Form → Prop
  | self : InPosition f f
  | item {items : List Form} {s : Span} {x : Form} : InPosition f (.list items s) →
      x ∈ expressions items → InPosition f x

/-- Every list in expression position has an allowed shape. -/
def Acceptable (f : Form) : Prop := ∀ items s, InPosition f (.list items s) → Shaped items

/-- One of the three statements, around expressions. -/
def AcceptableStmt (f : Form) : Prop :=
  (∃ s target expr span, f = .list [.atom "define" s, target, expr] span ∧ target.IsName ∧
    expr.Acceptable) ∨
  (∃ s location expr span, f = .list [.atom "assign" s, location, expr] span ∧
    location.Acceptable ∧ expr.Acceptable) ∨
  ∃ s expr span, f = .list [.atom "print" s, expr] span ∧ expr.Acceptable

theorem mem_of_mem_expressions {items : List Form} {x : Form} (h : x ∈ expressions items) :
    x ∈ items := by
  unfold expressions at h
  split at h
  · repeat' split at h
    · exact List.mem_cons_of_mem _ (List.mem_of_mem_drop h)
    · exact List.mem_cons_of_mem _ (List.mem_of_mem_take h)
    · exact List.mem_cons_of_mem _ h
    · exact h
  · exact h

theorem InPosition.of_item {items : List Form} {s : Span} {x y : Form}
    (hx : x ∈ expressions items) (h : InPosition x y) : InPosition (.list items s) y := by
  induction h with
  | self => exact .item .self hx
  | item _ hy ih => exact .item ih hy

/-- Inside a list, a position is the list itself or one inside an item. -/
theorem inPosition_list_iff {items : List Form} {s : Span} {y : Form} :
    InPosition (.list items s) y ↔
      y = .list items s ∨ ∃ x ∈ expressions items, InPosition x y := by
  constructor
  · intro h
    induction h with
    | self => exact .inl rfl
    | item _ hy ih =>
      rcases ih with heq | ⟨x, hx, hinside⟩
      · cases heq
        exact .inr ⟨_, hy, .self⟩
      · exact .inr ⟨x, hx, .item hinside hy⟩
  · intro h
    rcases h with rfl | ⟨x, hx, hinside⟩
    · exact .self
    · exact hinside.of_item hx

theorem inPosition_atom {t : String} {s : Span} {y : Form} (h : InPosition (.atom t s) y) :
    y = .atom t s := by
  induction h with
  | self => rfl
  | item _ _ ih => cases ih

theorem acceptable_atom (t : String) (s : Span) : (Form.atom t s).Acceptable := by
  intro items span h
  cases inPosition_atom h

theorem acceptable_list_iff {items : List Form} {s : Span} :
    (Form.list items s).Acceptable ↔ Shaped items ∧ ∀ x ∈ expressions items, x.Acceptable := by
  constructor
  · intro h
    exact ⟨h items s .self, fun x hx items' s' hinside => h items' s' (hinside.of_item hx)⟩
  · intro h items' s' hinside
    rcases inPosition_list_iff.1 hinside with heq | ⟨x, hx, hinside⟩
    · cases heq
      exact h.1
    · exact h.2 x hx items' s' hinside

/-! ## What the front end accepts -/

/-- The form spells an expression. -/
def Accepted (f : Form) : Prop := ∃ e, f.toExpr = .ok e

theorem Denotes.accepted {f : Form} {e : Expr} (h : f.Denotes e) : f.Accepted :=
  ⟨e, toExpr_eq_ok_iff.2 h⟩

theorem DenotesAll.accepted {fs : List Form} {es : List Expr} (h : DenotesAll fs es) :
    ∀ f ∈ fs, f.Accepted := by
  intro f hf
  induction fs generalizing es with
  | nil => cases hf
  | cons g fs ih =>
    cases h with
    | cons hg hrest =>
      rcases List.mem_cons.1 hf with rfl | hf
      · exact hg.accepted
      · exact ih hrest hf

theorem exists_denotesAll {fs : List Form} (h : ∀ f ∈ fs, f.Accepted) : ∃ es, DenotesAll fs es := by
  induction fs with
  | nil => exact ⟨[], .nil⟩
  | cons f fs ih =>
    obtain ⟨e, he⟩ := h f List.mem_cons_self
    obtain ⟨es, hes⟩ := ih fun g hg => h g (List.mem_cons_of_mem f hg)
    exact ⟨e :: es, .cons (toExpr_eq_ok_iff.1 he) hes⟩

/-- A word that heads an application is none of the special ones. -/
theorem word_ne_of_ofWord? {word : String} (h : Special.ofWord? word = none) (k : Special) :
    word ≠ k.word := by
  intro heq
  rw [heq, Special.ofWord?_word] at h
  cases h

theorem shaped_of_ofForm? {head : Form} (h : Special.ofForm? head = none) (operands : List Form) :
    Shaped (head :: operands) ∧ expressions (head :: operands) = head :: operands := by
  cases head with
  | list items s => exact ⟨trivial, rfl⟩
  | atom word s =>
    have hne := word_ne_of_ofWord? h
    have hlambda : word ≠ "lambda" := hne .lambda
    have hcond : word ≠ "if" := hne .cond
    have hnew : word ≠ "new" := hne .new
    have hderef : word ≠ "deref" := hne .deref
    have hmove : word ≠ "pointer-arith" := hne .move
    have hdefine : word ≠ "define" := hne .define
    have hassign : word ≠ "assign" := hne .assign
    have hprint : word ≠ "print" := hne .print
    constructor
    · simp [Shaped, hlambda, hcond, hnew, hderef, hmove, hdefine, hassign, hprint]
    · simp [expressions, hlambda, hcond, hnew, hderef, hmove]

theorem shaped_of_denotes {items : List Form} {s : Span} {e : Expr}
    (h : (Form.list items s).Denotes e) :
    Shaped items ∧ ∀ x ∈ expressions items, x.Accepted := by
  cases h with
  | lambda _ _ hparam hbody =>
    have hname := (isName_iff .lambda).2 ⟨_, hparam⟩
    have hbody := hbody.accepted
    constructor
    · simpa [Shaped, Special.word] using hname
    · simpa [expressions, Special.word] using hbody
  | cond _ _ hguard hthen helse =>
    have hguard := hguard.accepted
    have hbranches := And.intro hthen.accepted helse.accepted
    constructor
    · simp [Shaped, Special.word]
    · simpa [expressions, Special.word] using ⟨hguard, hbranches⟩
  | new _ _ htype hsize =>
    have hsize := isSize_iff.2 ⟨_, hsize⟩
    have htype := htype.accepted
    constructor
    · simpa [Shaped, Special.word] using hsize
    · simpa [expressions, Special.word] using htype
  | deref _ _ htarget =>
    have htarget := htarget.accepted
    constructor
    · simp [Shaped, Special.word]
    · simpa [expressions, Special.word] using htarget
  | move _ _ hop hpointer hoffset =>
    have hop := isOperator_iff.2 ⟨_, hop⟩
    have hoperands := And.intro hpointer.accepted hoffset.accepted
    constructor
    · simpa [Shaped, Special.word] using hop
    · simpa [expressions, Special.word] using hoperands
  | @app head operands _ _ _ hhead hargs hcallee =>
    obtain ⟨hshaped, hall⟩ := shaped_of_ofForm? hhead operands
    refine ⟨hshaped, fun x hx => ?_⟩
    rw [hall] at hx
    rcases List.mem_cons.1 hx with rfl | hx
    · exact hcallee.accepted
    · exact hargs.accepted x hx

theorem exists_denotes_of_shaped {items : List Form} (hshaped : Shaped items)
    (hall : ∀ x ∈ expressions items, x.Accepted) (span : Span) :
    ∃ e, (Form.list items span).Denotes e := by
  have hdenotes : ∀ x ∈ expressions items, ∃ e, x.Denotes e := by
    intro x hx
    obtain ⟨e, he⟩ := hall x hx
    exact ⟨e, toExpr_eq_ok_iff.1 he⟩
  cases items with
  | nil => exact hshaped.elim
  | cons head operands =>
    cases hhead : Special.ofForm? head with
    | none =>
      rw [(shaped_of_ofForm? hhead operands).2] at hall hdenotes
      obtain ⟨callee, hcallee⟩ := hdenotes head List.mem_cons_self
      obtain ⟨args, hargs⟩ := exists_denotesAll fun f hf => hall f (List.mem_cons_of_mem head hf)
      exact ⟨_, .app span hhead hargs hcallee⟩
    | some k =>
      obtain ⟨s, rfl⟩ := Special.ofForm?_eq_some hhead
      obtain ⟨hstatement, hlambda, hcond, hnew, hderef, hmove⟩ := hshaped
      cases k with
      | lambda =>
        obtain ⟨param, body, rfl, hname⟩ := hlambda rfl
        obtain ⟨name, hparam⟩ := (isName_iff .lambda).1 hname
        obtain ⟨e, he⟩ := hdenotes body (by simp [expressions, Special.word])
        exact ⟨_, .lambda s span hparam he⟩
      | cond =>
        obtain ⟨g, t, f, rfl⟩ := hcond rfl
        obtain ⟨guard, hguard⟩ := hdenotes g (by simp [expressions, Special.word])
        obtain ⟨thenBranch, hthen⟩ := hdenotes t (by simp [expressions, Special.word])
        obtain ⟨elseBranch, helse⟩ := hdenotes f (by simp [expressions, Special.word])
        exact ⟨_, .cond s span hguard hthen helse⟩
      | new =>
        obtain ⟨t, size, rfl, hsize⟩ := hnew rfl
        obtain ⟨n, hn⟩ := isSize_iff.1 hsize
        obtain ⟨type, htype⟩ := hdenotes t (by simp [expressions, Special.word])
        exact ⟨_, .new s span htype hn⟩
      | deref =>
        obtain ⟨f, rfl⟩ := hderef rfl
        obtain ⟨target, htarget⟩ := hdenotes f (by simp [expressions, Special.word])
        exact ⟨_, .deref s span htarget⟩
      | move =>
        obtain ⟨o, p, d, rfl, hoperator⟩ := hmove rfl
        obtain ⟨op, hop⟩ := isOperator_iff.1 hoperator
        obtain ⟨pointer, hpointer⟩ := hdenotes p (by simp [expressions, Special.word])
        obtain ⟨offset, hoffset⟩ := hdenotes d (by simp [expressions, Special.word])
        exact ⟨_, .move s span hop hpointer hoffset⟩
      | define => exact absurd (by decide) hstatement
      | assign => exact absurd (by decide) hstatement
      | print => exact absurd (by decide) hstatement

/-- One step into a form, on both sides alike. -/
theorem accepted_list_iff {items : List Form} {s : Span} :
    (Form.list items s).Accepted ↔ Shaped items ∧ ∀ x ∈ expressions items, x.Accepted := by
  constructor
  · intro h
    obtain ⟨e, he⟩ := h
    exact shaped_of_denotes (toExpr_eq_ok_iff.1 he)
  · intro h
    obtain ⟨e, he⟩ := exists_denotes_of_shaped h.1 h.2 s
    exact he.accepted

theorem accepted_iff (f : Form) : f.Accepted ↔ f.Acceptable := by
  induction f using Form.inductOn with
  | atom t s => exact ⟨fun _ => acceptable_atom t s, fun _ => ⟨_, rfl⟩⟩
  | list items s ih =>
    rw [accepted_list_iff, acceptable_list_iff]
    have hitems : (∀ x ∈ expressions items, x.Accepted) ↔ ∀ x ∈ expressions items, x.Acceptable :=
      forall₂_congr fun x hx => ih x (mem_of_mem_expressions hx)
    rw [hitems]

theorem acceptedStmt_iff (f : Form) : (∃ st, f.toStmt = .ok st) ↔ f.AcceptableStmt := by
  constructor
  · intro h
    obtain ⟨st, hst⟩ := h
    cases toStmt_eq_ok_iff.1 hst with
    | define s span hname he =>
      refine .inl ⟨s, _, _, span, rfl, (isName_iff .define).2 ⟨_, hname⟩, ?_⟩
      exact (accepted_iff _).1 he.accepted
    | assign s span hlocation he =>
      refine .inr (.inl ⟨s, _, _, span, rfl, ?_, ?_⟩)
      · exact (accepted_iff _).1 hlocation.accepted
      · exact (accepted_iff _).1 he.accepted
    | print s span he => exact .inr (.inr ⟨s, _, span, rfl, (accepted_iff _).1 he.accepted⟩)
  · intro h
    rcases h with ⟨s, target, expr, span, rfl, hname, hexpr⟩ |
      ⟨s, location, expr, span, rfl, hlocation, hexpr⟩ | ⟨s, expr, span, rfl, hexpr⟩
    · obtain ⟨name, hname⟩ := (isName_iff .define).1 hname
      obtain ⟨e, he⟩ := (accepted_iff expr).2 hexpr
      exact ⟨_, toStmt_eq_ok_iff.2 (.define s span hname (toExpr_eq_ok_iff.1 he))⟩
    · obtain ⟨l, hl⟩ := (accepted_iff location).2 hlocation
      obtain ⟨e, he⟩ := (accepted_iff expr).2 hexpr
      exact ⟨_, toStmt_eq_ok_iff.2
        (.assign s span (toExpr_eq_ok_iff.1 hl) (toExpr_eq_ok_iff.1 he))⟩
    · obtain ⟨e, he⟩ := (accepted_iff expr).2 hexpr
      exact ⟨_, toStmt_eq_ok_iff.2 (.print s span (toExpr_eq_ok_iff.1 he))⟩

/-- No expression is headed by the word of a statement. -/
theorem isStatement_of_toExpr {f : Form} {e : Expr} (h : f.toExpr = .ok e) :
    f.isStatement = false := by
  cases toExpr_eq_ok_iff.1 h with
  | atom t s => rfl
  | app _ hhead =>
    rw [isStatement_list, hhead]
    rfl
  | _ =>
    -- a list headed by the word of an expression
    rw [isStatement_list, Special.ofForm?, Special.ofWord?_word]
    rfl

/-- For every form: it spells an expression exactly when each list in expression position inside it
has an allowed shape, and a statement exactly when it is one of the three statements around such
expressions, where an atom is a number exactly when it is a numeral. No form spells both, and the
head word tells which of the two it can spell. -/
theorem front_end_accepts_exactly_the_grammar (f : Form) :
    ((∃ e, f.toExpr = .ok e) ↔ f.Acceptable) ∧
    ((∃ st, f.toStmt = .ok st) ↔ f.AcceptableStmt) ∧
    (∀ t, (∃ x, Expr.literal? t = some x) ↔ Expr.IsNumeral t) ∧
    ¬ ((∃ e, f.toExpr = .ok e) ∧ ∃ st, f.toStmt = .ok st) ∧
    ((∃ e, f.toExpr = .ok e) → f.isStatement = false) ∧
    ((∃ st, f.toStmt = .ok st) → f.isStatement = true) := by
  have hexpr : (∃ e, f.toExpr = .ok e) → f.isStatement = false := by
    intro h
    obtain ⟨e, he⟩ := h
    exact isStatement_of_toExpr he
  have hstmt : (∃ st, f.toStmt = .ok st) → f.isStatement = true := by
    intro h
    obtain ⟨st, hst⟩ := h
    exact isStatement_of_toStmt hst
  refine ⟨accepted_iff f, acceptedStmt_iff f, fun t => Expr.isNumeral_iff.symm, ?_, hexpr, hstmt⟩
  intro h
  have hfalse := hexpr h.1
  rw [hstmt h.2] at hfalse
  cases hfalse

theorem front_end_accepts_exactly_the_grammar_at_numerals :
    let s : Span := ⟨0, 0⟩
    let cells : Form := .list [.atom "new" s, .atom "Num" s, .atom "2." s] s
    let moved : Form := .list [.atom "pointer-arith" s, .atom "-" s, cells, .atom "-.5" s] s
    let f : Form := .list [.atom "define" s, .atom "-." s, moved] s
    (∃ st, f.toStmt = .ok st) ∧ f.AcceptableStmt ∧ ¬ f.Acceptable ∧ f.isStatement = true := by
  intro s cells moved f
  have hname : (Form.atom "-." s).toName .define = .ok "-." := by
    have hvar : Expr.ofAtom "-." = .var "-." := by with_unfolding_all rfl
    exact toName_eq_ok_iff.2 ⟨⟨s, rfl⟩, hvar⟩
  have hsize : ∃ n, (Form.atom "2." s).toSize = .ok n := by
    have hnumeral : Decimal.Numeral (['2'] ++ '.' :: []) false ['2'] [] :=
      .plain (.point (by decide) (by simp) (by simp))
    exact isSize_iff.1 ⟨false, ['2'], [], 2, hnumeral, by decide +kernel, by decide, by decide⟩
  have hop : (Form.atom "-" s).toOperator = .ok .sub := toOperator_eq_ok_iff.2 ⟨s, rfl⟩
  obtain ⟨n, hsize⟩ := hsize
  have hcells : cells.Denotes (.new (.ofAtom "Num") n) := .new s s (.atom "Num" s) hsize
  have hmoved : moved.Denotes (.move .sub (.new (.ofAtom "Num") n) (.ofAtom "-.5")) :=
    .move s s hop hcells (.atom "-.5" s)
  have hstmt : ∃ st, f.toStmt = .ok st := ⟨_, toStmt_eq_ok_iff.2 (.define s s hname hmoved)⟩
  obtain ⟨haccepted, hacceptedStmt, _, hboth, _, hstatement⟩ :=
    front_end_accepts_exactly_the_grammar f
  refine ⟨hstmt, hacceptedStmt.1 hstmt, fun hacceptable => ?_, hstatement hstmt⟩
  exact hboth ⟨haccepted.2 hacceptable, hstmt⟩

end Form

end CellLang

import CellLang.Proofs.Grammar
import CellLang.Proofs.Spelling

/-!
# Forms at another place

A text that stands further to the right in a longer one has the same tokens and the same forms
there, with all spans shifted. What a form spells, and how its fault is worded, does not depend on
where it stands. A line feed ends every comment and every word, so two texts with a line feed
between them are scanned and read apart.
-/

namespace CellLang

theorem Except.mapError_bind {ε α β : Type} (g : ε → ε) (x : Except ε α) (f : α → Except ε β) :
    (x >>= f).mapError g = x.mapError g >>= fun a => (f a).mapError g := by
  cases x <;> rfl

namespace Span

def shift (k : Nat) (s : Span) : Span := ⟨s.start + k, s.stop + k⟩

theorem merge_shift (k : Nat) (a b : Span) :
    (a.shift k).merge (b.shift k) = (a.merge b).shift k := by
  simp only [merge, shift, Nat.add_min_add_right, Nat.add_max_add_right]

end Span

/-! ## Tokens -/

namespace Token

def shift (k : Nat) (t : Token) : Token := ⟨t.lexeme, t.span.shift k⟩

/-- A text that begins further to the right has the same tokens there. -/
theorem scanFrom_add (i k : Nat) (cs : List Char) :
    scanFrom (i + k) cs = (scanFrom i cs).map (shift k) := by
  induction i, cs using scanFrom.induct with
  | case1 => simp [scanFrom]
  | case2 i cs ih => simp [scanFrom, shift, Span.shift, Nat.add_right_comm i k, ih]
  | case3 i cs _ ih => simp [scanFrom, shift, Span.shift, Nat.add_right_comm i k, ih]
  | case4 i cs _ _ ih =>
    rw [Nat.add_right_comm, Nat.add_right_comm i] at ih
    simpa [scanFrom] using ih
  | case5 i c cs hopen hclose hcomment hblank ih =>
    rw [Nat.add_right_comm] at ih
    simpa [scanFrom, hopen, hclose, hcomment, hblank] using ih
  | case6 i c cs hopen hclose hcomment hblank word stop ih =>
    rw [Nat.add_right_comm] at ih
    simpa [scanFrom, hopen, hclose, hcomment, hblank, shift, Span.shift, Nat.add_right_comm i k]
      using ih

theorem takeWhile_append_cons {p : Char → Bool} {c : Char} (hc : p c = false) (a b : List Char) :
    (a ++ c :: b).takeWhile p = a.takeWhile p := by
  induction a with
  | nil => simp [hc]
  | cons x a ih => cases hx : p x <;> simp [hx, ih]

theorem dropWhile_append_cons {p : Char → Bool} {c : Char} (hc : p c = false) (a b : List Char) :
    (a ++ c :: b).dropWhile p = a.dropWhile p ++ c :: b := by
  induction a with
  | nil => simp [hc]
  | cons x a ih => cases hx : p x <;> simp [hx, ih]

theorem byteLength_takeWhile (p : Char → Bool) (cs : List Char) :
    Text.byteLength (cs.takeWhile p) + Text.byteLength (cs.dropWhile p) = Text.byteLength cs := by
  rw [← Text.byteLength_append, List.takeWhile_append_dropWhile]

/-- Neither a word nor a comment goes on behind a line feed. -/
theorem scanFrom_line (i : Nat) (a b : List Char) :
    scanFrom i (a ++ '\n' :: b) =
      scanFrom i a ++ scanFrom (i + Text.byteLength a + 1) b := by
  have hcommentEnd : isCommentChar '\n' = false := by decide
  have hwordEnd : isAtomChar '\n' = false := by decide
  induction i, a using scanFrom.induct with
  | case1 i =>
    have hblank : Text.isBlank '\n' = true := by decide
    have hsize : '\n'.utf8Size = 1 := by decide
    simp [scanFrom, hblank, hsize, Text.byteLength]
  | case2 i cs ih =>
    have hsize : '('.utf8Size = 1 := by decide
    simp [scanFrom, ih, Text.byteLength, hsize, Nat.add_assoc]
  | case3 i cs _ ih =>
    have hsize : ')'.utf8Size = 1 := by decide
    simp [scanFrom, ih, Text.byteLength, hsize, Nat.add_assoc]
  | case4 i cs _ _ ih =>
    have hsize : ';'.utf8Size = 1 := by decide
    have hlength := byteLength_takeWhile isCommentChar cs
    have hstop : i + 1 + Text.byteLength (cs.takeWhile isCommentChar) +
        Text.byteLength (cs.dropWhile isCommentChar) = i + Text.byteLength (';' :: cs) := by
      simp only [Text.byteLength, hsize]
      omega
    rw [hstop] at ih
    simpa [scanFrom, takeWhile_append_cons hcommentEnd, dropWhile_append_cons hcommentEnd] using ih
  | case5 i c cs hopen hclose hcomment hblank ih =>
    simp [scanFrom, hopen, hclose, hcomment, hblank, ih, Text.byteLength, Nat.add_assoc]
  | case6 i c cs hopen hclose hcomment hblank word stop ih =>
    have hlength := byteLength_takeWhile isAtomChar cs
    have hstop : stop + Text.byteLength (cs.dropWhile isAtomChar) =
        i + Text.byteLength (c :: cs) := by
      simp only [stop, word, Text.byteLength]
      omega
    rw [hstop] at ih
    simpa [scanFrom, hopen, hclose, hcomment, hblank, takeWhile_append_cons hwordEnd,
      dropWhile_append_cons hwordEnd] using ih

end Token

/-! ## Forms -/

namespace Form

mutual

/-- The form with every span shifted. -/
def shift (k : Nat) : Form → Form
  | .atom t s => .atom t (s.shift k)
  | .list items s => .list (shiftAll k items) (s.shift k)

def shiftAll (k : Nat) : List Form → List Form
  | [] => []
  | f :: fs => f.shift k :: shiftAll k fs

end

theorem shiftAll_eq_map (k : Nat) (fs : List Form) : shiftAll k fs = fs.map (shift k) := by
  induction fs with
  | nil => rfl
  | cons f fs ih => rw [shiftAll, ih, List.map_cons]

theorem shift_list (k : Nat) (items : List Form) (s : Span) :
    (Form.list items s).shift k = .list (items.map (shift k)) (s.shift k) := by
  rw [shift, shiftAll_eq_map]

theorem texts_eq_map (fs : List Form) : texts fs = fs.map text := by
  induction fs with
  | nil => rfl
  | cons f fs ih => rw [texts, ih, List.map_cons]

@[simp] theorem text_shift (k : Nat) (f : Form) : (f.shift k).text = f.text := by
  induction f using Form.inductOn with
  | atom t s => rfl
  | list items s ih =>
    have hitems : (items.map (shift k)).map text = items.map text := by
      rw [List.map_map]
      exact List.map_congr_left ih
    rw [shift_list, text, text, texts_eq_map, texts_eq_map, hitems]

/-! ## Reading shifted tokens -/

def Opened.shift (k : Nat) (o : Opened) : Opened := ⟨o.span.shift k, o.items.map (Form.shift k)⟩

theorem place_shift (k : Nat) (f : Form) (stack : List Opened) (top : List Form) :
    place (f.shift k) (stack.map (Opened.shift k)) (top.map (shift k)) =
      ((place f stack top).1.map (Opened.shift k), (place f stack top).2.map (shift k)) := by
  cases stack with
  | nil => rfl
  | cons inner outer => rfl

theorem readWith_shift (k : Nat) {stack : List Opened} {top forms : List Form}
    {tokens : List Token} (h : readWith stack top tokens = .ok forms) :
    readWith (stack.map (Opened.shift k)) (top.map (shift k)) (tokens.map (Token.shift k)) =
      .ok (forms.map (shift k)) := by
  induction stack, top, tokens using readWith.induct with
  | case1 top =>
    cases h
    simp [readWith]
  | case2 inner outer top => cases h
  | case3 stack top s ts ih =>
    rw [readWith_opening] at h
    rw [List.map_cons, Token.shift, readWith_opening]
    exact ih h
  | case4 top s ts => cases h
  | case5 inner outer top s ts stack' top' hplace ih =>
    rw [readWith, hplace] at h
    have hplaced := place_shift k (.list inner.items.reverse (inner.span.merge s)) outer top
    rw [hplace, shift_list, List.map_reverse, ← Span.merge_shift] at hplaced
    rw [List.map_cons, List.map_cons, Token.shift, readWith, Opened.shift, hplaced]
    exact ih h
  | case6 stack top t s ts stack' top' hplace ih =>
    have hplaced := place_shift k (.atom t s) stack top
    rw [readWith_atom, hplace] at h
    rw [hplace, shift] at hplaced
    rw [List.map_cons, Token.shift, readWith_atom, hplaced]
    exact ih h

/-- Tokens that are read to the end leave the reader at the top level. -/
theorem readWith_append {stack : List Opened} {top forms : List Form} {tokens : List Token}
    (h : readWith stack top tokens = .ok forms) (rest : List Token) :
    readWith stack top (tokens ++ rest) = readWith [] forms.reverse rest := by
  induction stack, top, tokens using readWith.induct with
  | case1 top =>
    cases h
    rw [List.nil_append, List.reverse_reverse]
  | case2 inner outer top => cases h
  | case3 stack top s ts ih =>
    rw [readWith_opening] at h
    rw [List.cons_append, readWith_opening]
    exact ih h
  | case4 top s ts => cases h
  | case5 inner outer top s ts stack' top' hplace ih =>
    rw [readWith, hplace] at h
    rw [List.cons_append, readWith, hplace]
    exact ih h
  | case6 stack top t s ts stack' top' hplace ih =>
    rw [readWith_atom, hplace] at h
    rw [List.cons_append, readWith_atom, hplace]
    exact ih h

/-- The forms read before stay in front of those that are read. -/
theorem readWith_top {stack : List Opened} {top forms : List Form} {tokens : List Token}
    (h : readWith stack top tokens = .ok forms) (earlier : List Form) :
    readWith stack (top ++ earlier) tokens = .ok (earlier.reverse ++ forms) := by
  have hplaces : ∀ (f : Form) (stack : List Opened) (top : List Form),
      place f stack (top ++ earlier) =
        ((place f stack top).1, (place f stack top).2 ++ earlier) := by
    intro f stack top
    cases stack <;> rfl
  induction stack, top, tokens using readWith.induct with
  | case1 top =>
    cases h
    rw [readWith, List.reverse_append]
  | case2 inner outer top => cases h
  | case3 stack top s ts ih =>
    rw [readWith_opening] at h ⊢
    exact ih h
  | case4 top s ts => cases h
  | case5 inner outer top s ts stack' top' hplace ih =>
    rw [readWith, hplace] at h
    rw [readWith, hplaces, hplace]
    exact ih h
  | case6 stack top t s ts stack' top' hplace ih =>
    rw [readWith_atom, hplace] at h
    rw [readWith_atom, hplaces, hplace]
    exact ih h

/-- Two texts with a line feed between them are read one after the other. -/
theorem read_lines {a b : String} {fs gs : List Form} (ha : read a = .ok fs)
    (hb : read b = .ok gs) :
    read (a ++ "\n" ++ b) = .ok (fs ++ gs.map (shift (Text.byteLength a.toList + 1))) := by
  have htext : (a ++ "\n" ++ b).toList = a.toList ++ '\n' :: b.toList := by simp
  have hshifted := readWith_shift (Text.byteLength a.toList + 1) hb
  rw [read, ofTokens, Token.scan] at ha
  rw [Token.scan, ← Token.scanFrom_add, Nat.zero_add] at hshifted
  rw [read, ofTokens, Token.scan, htext, Token.scanFrom_line, readWith_append ha, Nat.zero_add]
  have htop := readWith_top hshifted fs.reverse
  rwa [List.reverse_reverse] at htop

end Form

/-! ## What shifted forms spell -/

def SourceError.shift (k : Nat) (e : SourceError) : SourceError := ⟨e.fault, e.span.shift k⟩

theorem Special.ofForm?_shift (k : Nat) (f : Form) : ofForm? (f.shift k) = ofForm? f := by
  cases f with
  | atom t s => rfl
  | list items s => rfl

namespace Form

theorem isStatement_shift (k : Nat) (f : Form) : (f.shift k).isStatement = f.isStatement := by
  match f with
  | .atom _ _ => rfl
  | .list [] _ => rfl
  | .list (.atom _ _ :: _) _ => rfl
  | .list (.list _ _ :: _) _ => rfl

theorem toName_shift (k : Nat) (word : Special) (f : Form) :
    (f.shift k).toName word = (f.toName word).mapError (SourceError.shift k) := by
  cases f with
  | atom t s =>
    simp only [shift, toName]
    cases Expr.ofAtom t <;> rfl
  | list items s =>
    change Except.error (SourceError.mk (.notName word.word ((Form.list items s).shift k).text)
      (s.shift k)) = _
    rw [text_shift]
    rfl

theorem toOperator_shift (k : Nat) (f : Form) :
    (f.shift k).toOperator = f.toOperator.mapError (SourceError.shift k) := by
  cases f with
  | atom t s =>
    simp only [shift, toOperator]
    cases Operator.ofSymbol? t <;> rfl
  | list items s =>
    change Except.error (SourceError.mk (.notOperator ((Form.list items s).shift k).text)
      (s.shift k)) = _
    rw [text_shift]
    rfl

theorem toSize_shift (k : Nat) (f : Form) :
    (f.shift k).toSize = f.toSize.mapError (SourceError.shift k) := by
  cases f with
  | atom t s =>
    simp only [shift, toSize]
    split
    · split <;> rfl
    · rfl
  | list items s =>
    change Except.error (SourceError.mk (.notSize ((Form.list items s).shift k).text)
      (s.shift k)) = _
    rw [text_shift]
    rfl

/-- A special word is refused as the head of an expression if it belongs to a statement or has the
wrong number of operands. -/
theorem toExpr_of_refused {head : Form} {operands : List Form} {word : Special} (s : Span)
    (hhead : Special.ofForm? head = some word)
    (hrefused : word.isStatement = true ∨ operands.length ≠ word.arity) :
    (Form.list (head :: operands) s).toExpr = .error
      (if word.isStatement then ⟨.statementInside word.word, s⟩
        else word.countError operands s) := by
  unfold toExpr
  rw [hhead]
  cases word with
  | define | assign | print => rfl
  | lambda | new =>
    rcases operands with _ | ⟨_, _ | ⟨_, _ | ⟨_, _⟩⟩⟩
    · rfl
    · rfl
    · simp [Special.isStatement, Special.arity] at hrefused
    · rfl
  | cond | move =>
    rcases operands with _ | ⟨_, _ | ⟨_, _ | ⟨_, _ | ⟨_, _⟩⟩⟩⟩
    · rfl
    · rfl
    · rfl
    · simp [Special.isStatement, Special.arity] at hrefused
    · rfl
  | deref =>
    rcases operands with _ | ⟨_, _ | ⟨_, _⟩⟩
    · rfl
    · simp [Special.isStatement, Special.arity] at hrefused
    · rfl

theorem toExprs_shift (k : Nat) {fs : List Form}
    (hfs : ∀ f ∈ fs, (f.shift k).toExpr = f.toExpr.mapError (SourceError.shift k)) :
    toExprs (fs.map (shift k)) = (toExprs fs).mapError (SourceError.shift k) := by
  induction fs with
  | nil => rfl
  | cons f fs ih =>
    have hrest := ih fun g hg => hfs g (List.mem_cons_of_mem f hg)
    rw [List.map_cons, toExprs, toExprs, hfs f List.mem_cons_self, hrest]
    cases f.toExpr with
    | error e => rfl
    | ok e => cases toExprs fs <;> rfl

/-- A form spells the same expression wherever it stands, or has the same fault. -/
theorem toExpr_shift (k : Nat) (f : Form) :
    (f.shift k).toExpr = f.toExpr.mapError (SourceError.shift k) := by
  induction f using Form.inductOn with
  | atom t s => rfl
  | list items s ih =>
    rw [shift_list]
    cases items with
    | nil => rfl
    | cons head operands =>
      have hshifted := Special.ofForm?_shift k head
      rw [List.map_cons]
      cases hhead : Special.ofForm? head with
      | none =>
        rw [hhead] at hshifted
        have hargs := toExprs_shift k fun f hf => ih f (List.mem_cons_of_mem head hf)
        simp only [toExpr, hhead, hshifted, hargs, ih head List.mem_cons_self, Except.mapError_bind]
        rfl
      | some word =>
        rw [hhead] at hshifted
        by_cases hrefused : word.isStatement = true ∨ operands.length ≠ word.arity
        · rw [toExpr_of_refused s hhead hrefused,
            toExpr_of_refused _ hshifted (by rw [List.length_map]; exact hrefused)]
          cases word.isStatement with
          | true => rfl
          | false =>
            simp only [Special.countError, List.length_map]
            rfl
        · obtain ⟨hword, hcount⟩ := not_or.1 hrefused
          rw [Decidable.not_not] at hcount
          cases word with
          | define | assign | print => exact absurd rfl hword
          | lambda =>
            obtain ⟨param, body, rfl⟩ := List.length_eq_two.1 hcount
            simp only [List.map_cons, List.map_nil, toExpr, hhead, hshifted, toName_shift,
              ih body (by simp), Except.mapError_bind]
            rfl
          | cond =>
            obtain ⟨g, t, e, rfl⟩ := List.length_eq_three.1 hcount
            simp only [List.map_cons, List.map_nil, toExpr, hhead, hshifted, ih g (by simp),
              ih t (by simp), ih e (by simp), Except.mapError_bind]
            rfl
          | new =>
            obtain ⟨type, size, rfl⟩ := List.length_eq_two.1 hcount
            simp only [List.map_cons, List.map_nil, toExpr, hhead, hshifted, toSize_shift,
              ih type (by simp), Except.mapError_bind]
            rfl
          | deref =>
            obtain ⟨target, rfl⟩ := List.length_eq_one_iff.1 hcount
            simp only [List.map_cons, List.map_nil, toExpr, hhead, hshifted, ih target (by simp),
              Except.mapError_bind]
            rfl
          | move =>
            obtain ⟨op, pointer, offset, rfl⟩ := List.length_eq_three.1 hcount
            simp only [List.map_cons, List.map_nil, toExpr, hhead, hshifted, toOperator_shift,
              ih pointer (by simp), ih offset (by simp), Except.mapError_bind]
            rfl

/-- A special word is refused as the head of a statement if it belongs to an expression or has the
wrong number of operands. -/
theorem toStmt_of_refused {head : Form} {operands : List Form} {word : Special} (s : Span)
    (hhead : Special.ofForm? head = some word)
    (hrefused : word.isStatement = false ∨ operands.length ≠ word.arity) :
    (Form.list (head :: operands) s).toStmt = .error
      (if word.isStatement then word.countError operands s
      else ⟨.unknownStatement (Form.list (head :: operands) s).text, s⟩) := by
  unfold toStmt
  simp only [hhead]
  cases word with
  | lambda | cond | new | deref | move => rfl
  | define | assign =>
    rcases operands with _ | ⟨_, _ | ⟨_, _ | ⟨_, _⟩⟩⟩
    · rfl
    · rfl
    · simp [Special.isStatement, Special.arity] at hrefused
    · rfl
  | print =>
    rcases operands with _ | ⟨_, _ | ⟨_, _⟩⟩
    · rfl
    · simp [Special.isStatement, Special.arity] at hrefused
    · rfl

/-- The fault of a form that is no statement names the form and not its place. -/
theorem unknownStatement_shift (k : Nat) (items : List Form) (s : Span) :
    (⟨.unknownStatement (Form.list (items.map (shift k)) (s.shift k)).text, s.shift k⟩ :
      SourceError) = SourceError.shift k ⟨.unknownStatement (Form.list items s).text, s⟩ := by
  rw [← shift_list, text_shift]
  rfl

theorem toStmt_shift (k : Nat) (f : Form) :
    (f.shift k).toStmt = f.toStmt.mapError (SourceError.shift k) := by
  cases f with
  | atom t s => rfl
  | list items s =>
    rw [shift_list]
    cases items with
    | nil => rfl
    | cons head operands =>
      have hshifted := Special.ofForm?_shift k head
      have hunknown := unknownStatement_shift k (head :: operands) s
      rw [List.map_cons] at hunknown ⊢
      cases hhead : Special.ofForm? head with
      | none =>
        rw [hhead] at hshifted
        unfold toStmt
        simp only [hhead, hshifted, hunknown]
        rfl
      | some word =>
        rw [hhead] at hshifted
        by_cases hrefused : word.isStatement = false ∨ operands.length ≠ word.arity
        · rw [toStmt_of_refused s hhead hrefused,
            toStmt_of_refused _ hshifted (by rw [List.length_map]; exact hrefused), hunknown]
          cases word.isStatement with
          | false => rfl
          | true =>
            simp only [Special.countError, List.length_map]
            rfl
        · obtain ⟨hword, hcount⟩ := not_or.1 hrefused
          rw [Decidable.not_not] at hcount
          cases word with
          | lambda | cond | new | deref | move => exact absurd rfl hword
          | define =>
            obtain ⟨name, expr, rfl⟩ := List.length_eq_two.1 hcount
            simp only [List.map_cons, List.map_nil, toStmt, hhead, hshifted, toName_shift,
              toExpr_shift, Except.mapError_bind]
            rfl
          | assign =>
            obtain ⟨location, expr, rfl⟩ := List.length_eq_two.1 hcount
            simp only [List.map_cons, List.map_nil, toStmt, hhead, hshifted, toExpr_shift,
              Except.mapError_bind]
            rfl
          | print =>
            obtain ⟨expr, rfl⟩ := List.length_eq_one_iff.1 hcount
            simp only [List.map_cons, List.map_nil, toStmt, hhead, hshifted, toExpr_shift,
              Except.mapError_bind]
            rfl

end Form

end CellLang

import CellLang.Proofs.History
import Mathlib.Data.List.Forall2

/-!
# Expressions up to the names of parameters

To rename a parameter is to replace its occurrences in the body by a name that the body does not
mention. `Renames` does this to one function anywhere in an expression, statement or program.
`Alpha` compares two expressions directly, under a list of the parameters bound around them, in
pairs and innermost first: a variable of one side refers to a pair where the other side's variable
refers to the same one, or both are the same name and refer to none. One renaming always gives
expressions that are equal in this sense, and unlike a renaming the comparison carries over to every
part of them.
-/

namespace CellLang

namespace Expr

mutual

/-- The names an expression mentions, as variables or as parameters. -/
def names : Expr → List String
  | .var name => [name]
  | .num _ | .bool _ | .keyword _ => []
  | .lambda param body => param :: body.names
  | .app head args => head.names ++ namesAll args
  | .cond guard thenBranch elseBranch => guard.names ++ thenBranch.names ++ elseBranch.names
  | .new type _ => type.names
  | .deref target => target.names
  | .move _ pointer offset => pointer.names ++ offset.names

def namesAll : List Expr → List String
  | [] => []
  | e :: es => e.names ++ namesAll es

end

mutual

/-- Replaces a variable, except where a function rebinds it. -/
def rename (x y : String) : Expr → Expr
  | .var name => .var (if name = x then y else name)
  | .num a => .num a
  | .bool b => .bool b
  | .keyword t => .keyword t
  | .lambda param body => .lambda param (if param = x then body else body.rename x y)
  | .app head args => .app (head.rename x y) (renameAll x y args)
  | .cond guard thenBranch elseBranch =>
    .cond (guard.rename x y) (thenBranch.rename x y) (elseBranch.rename x y)
  | .new type size => .new (type.rename x y) size
  | .deref target => .deref (target.rename x y)
  | .move op pointer offset => .move op (pointer.rename x y) (offset.rename x y)

def renameAll (x y : String) : List Expr → List Expr
  | [] => []
  | e :: es => e.rename x y :: renameAll x y es

end

theorem namesAll_eq (es : List Expr) : namesAll es = es.flatMap names := by
  induction es with
  | nil => rfl
  | cons e es ih => rw [namesAll, ih, List.flatMap_cons]

theorem renameAll_eq (x y : String) (es : List Expr) : renameAll x y es = es.map (rename x y) := by
  induction es with
  | nil => rfl
  | cons e es ih => rw [renameAll, ih, List.map_cons]

/-- The second expression is the first one with the parameter of one function renamed, to a name
that its body does not mention. -/
inductive Renames : Expr → Expr → Prop
  | here {x y : String} {body : Expr} : y ∉ body.names →
      Renames (.lambda x body) (.lambda y (body.rename x y))
  | body {param : String} {b c : Expr} : Renames b c → Renames (.lambda param b) (.lambda param c)
  | head {b c : Expr} {args : List Expr} : Renames b c → Renames (.app b args) (.app c args)
  | arg {head b c : Expr} {before after : List Expr} : Renames b c →
      Renames (.app head (before ++ b :: after)) (.app head (before ++ c :: after))
  | guard {b c t e : Expr} : Renames b c → Renames (.cond b t e) (.cond c t e)
  | thenBranch {g b c e : Expr} : Renames b c → Renames (.cond g b e) (.cond g c e)
  | elseBranch {g t b c : Expr} : Renames b c → Renames (.cond g t b) (.cond g t c)
  | type {b c : Expr} {size : Nat} : Renames b c → Renames (.new b size) (.new c size)
  | target {b c : Expr} : Renames b c → Renames (.deref b) (.deref c)
  | pointer {op : Operator} {b c o : Expr} : Renames b c → Renames (.move op b o) (.move op c o)
  | offset {op : Operator} {p b c : Expr} : Renames b c → Renames (.move op p b) (.move op p c)

end Expr

/-- One function in the expression of a statement, or in its location, has its parameter renamed. -/
inductive Stmt.Renames : Stmt → Stmt → Prop
  | define {name : String} {b c : Expr} : b.Renames c → Renames (.define name b) (.define name c)
  | location {b c e : Expr} : b.Renames c → Renames (.assign b e) (.assign c e)
  | assign {l b c : Expr} : b.Renames c → Renames (.assign l b) (.assign l c)
  | print {b c : Expr} : b.Renames c → Renames (.print b) (.print c)

/-- One function anywhere in a program has its parameter renamed. -/
inductive Program.Renames : Program → Program → Prop
  | stmt {s t : Stmt} {before after : List Stmt} : s.Renames t →
      Renames ⟨before ++ s :: after⟩ ⟨before ++ t :: after⟩

/-- Parameters bound around two expressions, in pairs and innermost first. -/
abbrev ParamPairs := List (String × String)

/-- Both names refer to one pair of parameters, or they are one name that no pair binds. -/
def Refers : ParamPairs → String → String → Prop
  | [], x, y => x = y
  | (a, b) :: pairs, x, y => x = a ∧ y = b ∨ x ≠ a ∧ y ≠ b ∧ Refers pairs x y

namespace Expr

mutual

/-- The expressions are equal up to the names of parameters, those around them being the pairs. -/
inductive Alpha : ParamPairs → Expr → Expr → Prop
  | var {pairs : ParamPairs} {x y : String} : Refers pairs x y →
      Alpha pairs (.var x) (.var y)
  | num {pairs : ParamPairs} (a : Binary64) : Alpha pairs (.num a) (.num a)
  | bool {pairs : ParamPairs} (b : Bool) : Alpha pairs (.bool b) (.bool b)
  | keyword {pairs : ParamPairs} (t : CellType) : Alpha pairs (.keyword t) (.keyword t)
  | lambda {pairs : ParamPairs} {x y : String} {b c : Expr} :
      Alpha ((x, y) :: pairs) b c → Alpha pairs (.lambda x b) (.lambda y c)
  | app {pairs : ParamPairs} {b c : Expr} {bs cs : List Expr} : Alpha pairs b c →
      AlphaAll pairs bs cs → Alpha pairs (.app b bs) (.app c cs)
  | cond {pairs : ParamPairs} {g g' t t' e e' : Expr} : Alpha pairs g g' →
      Alpha pairs t t' → Alpha pairs e e' → Alpha pairs (.cond g t e) (.cond g' t' e')
  | new {pairs : ParamPairs} {b c : Expr} (size : Nat) : Alpha pairs b c →
      Alpha pairs (.new b size) (.new c size)
  | deref {pairs : ParamPairs} {b c : Expr} : Alpha pairs b c →
      Alpha pairs (.deref b) (.deref c)
  | move {pairs : ParamPairs} {b c o o' : Expr} (op : Operator) : Alpha pairs b c →
      Alpha pairs o o' → Alpha pairs (.move op b o) (.move op c o')

inductive AlphaAll : ParamPairs → List Expr → List Expr → Prop
  | nil {pairs : ParamPairs} : AlphaAll pairs [] []
  | cons {pairs : ParamPairs} {b c : Expr} {bs cs : List Expr} : Alpha pairs b c →
      AlphaAll pairs bs cs → AlphaAll pairs (b :: bs) (c :: cs)

end

/-! ## A renaming relates expressions -/

variable {pairs : ParamPairs} {x y : String} {e e' : Expr}

theorem refers_self_cons {z : String} (p : String) (h : z ≠ p → Refers pairs z z) :
    Refers ((p, p) :: pairs) z z := by
  by_cases hz : z = p
  · exact .inl ⟨hz, hz⟩
  · exact .inr ⟨hz, hz, h hz⟩

theorem alphaAll_map {f : Expr → Expr} {es : List Expr} (h : ∀ e ∈ es, Alpha pairs e (f e)) :
    AlphaAll pairs es (es.map f) := by
  induction es with
  | nil => exact .nil
  | cons e es ih =>
    exact .cons (h e List.mem_cons_self) (ih fun e' he' => h e' (List.mem_cons_of_mem _ he'))

theorem alphaAll_self {es : List Expr} (h : ∀ e ∈ es, Alpha pairs e e) :
    AlphaAll pairs es es := by
  have hmap := alphaAll_map (f := id) h
  rwa [List.map_id] at hmap

/-- Every expression is equal to itself where its names refer to themselves. -/
theorem alpha_self (e : Expr) : ∀ {pairs}, (∀ z ∈ e.names, Refers pairs z z) →
    Alpha pairs e e := by
  induction e using Expr.inductOn with
  | var name =>
    intro pairs h
    exact .var (h name (List.mem_singleton.2 rfl))
  | num a => exact fun _ => .num a
  | bool b => exact fun _ => .bool b
  | keyword t => exact fun _ => .keyword t
  | lambda param body ih =>
    intro pairs h
    refine .lambda (ih fun z hz => refers_self_cons param fun _ => ?_)
    exact h z (List.mem_cons_of_mem _ hz)
  | app head args ihHead ihArgs =>
    intro pairs h
    simp only [names, namesAll_eq, List.mem_append, List.mem_flatMap] at h
    refine .app (ihHead fun z hz => h z (.inl hz)) (alphaAll_self fun a ha => ?_)
    exact ihArgs a ha fun z hz => h z (.inr ⟨a, ha, hz⟩)
  | cond g t f ihGuard ihThen ihElse =>
    intro pairs h
    simp only [names, List.mem_append] at h
    exact .cond (ihGuard fun z hz => h z (.inl (.inl hz))) (ihThen fun z hz => h z (.inl (.inr hz)))
      (ihElse fun z hz => h z (.inr hz))
  | new type size ih => exact fun h => .new size (ih h)
  | deref target ih => exact fun h => .deref (ih h)
  | move op p o ihPointer ihOffset =>
    intro pairs h
    simp only [names, List.mem_append] at h
    exact .move op (ihPointer fun z hz => h z (.inl hz)) (ihOffset fun z hz => h z (.inr hz))

/-- A variable may be replaced by a name that is not mentioned, if the two refer to one pair. -/
theorem alpha_rename (e : Expr) : ∀ {pairs}, Refers pairs x y → y ∉ e.names →
    (∀ z ∈ e.names, z ≠ x → Refers pairs z z) → Alpha pairs e (e.rename x y) := by
  induction e using Expr.inductOn with
  | var name =>
    intro pairs hxy hy h
    rw [rename]
    by_cases hname : name = x
    · rw [if_pos hname, hname]
      exact .var hxy
    · rw [if_neg hname]
      exact .var (h name (List.mem_singleton.2 rfl) hname)
  | num a => exact fun _ _ _ => .num a
  | bool b => exact fun _ _ _ => .bool b
  | keyword t => exact fun _ _ _ => .keyword t
  | lambda param body ih =>
    intro pairs hxy hy h
    obtain ⟨hparam, hbody⟩ := not_or.1 (fun hmem => hy (List.mem_cons.2 hmem))
    have hrest : ∀ z ∈ body.names, z ≠ x → Refers pairs z z :=
      fun z hz => h z (List.mem_cons_of_mem _ hz)
    rw [rename]
    by_cases hrebinds : param = x
    · rw [if_pos hrebinds]
      refine .lambda (alpha_self body fun z hz => refers_self_cons param fun hne => ?_)
      exact hrest z hz fun hzx => hne (hzx.trans hrebinds.symm)
    · rw [if_neg hrebinds]
      refine .lambda (ih (.inr ⟨Ne.symm hrebinds, hparam, hxy⟩) hbody fun z hz hzx => ?_)
      exact refers_self_cons param fun _ => hrest z hz hzx
  | app head args ihHead ihArgs =>
    intro pairs hxy hy h
    simp only [names, namesAll_eq, List.mem_append, List.mem_flatMap] at hy h
    rw [rename, renameAll_eq]
    refine .app (ihHead hxy (fun hmem => hy (.inl hmem)) fun z hz => h z (.inl hz)) ?_
    exact alphaAll_map fun a ha => ihArgs a ha hxy (fun hmem => hy (.inr ⟨a, ha, hmem⟩))
      fun z hz => h z (.inr ⟨a, ha, hz⟩)
  | cond g t f ihGuard ihThen ihElse =>
    intro pairs hxy hy h
    simp only [names, List.mem_append] at hy h
    exact .cond (ihGuard hxy (fun hmem => hy (.inl (.inl hmem))) fun z hz => h z (.inl (.inl hz)))
      (ihThen hxy (fun hmem => hy (.inl (.inr hmem))) fun z hz => h z (.inl (.inr hz)))
      (ihElse hxy (fun hmem => hy (.inr hmem)) fun z hz => h z (.inr hz))
  | new type size ih => exact fun hxy hy h => .new size (ih hxy hy h)
  | deref target ih => exact fun hxy hy h => .deref (ih hxy hy h)
  | move op p o ihPointer ihOffset =>
    intro pairs hxy hy h
    simp only [names, List.mem_append] at hy h
    exact .move op (ihPointer hxy (fun hmem => hy (.inl hmem)) fun z hz => h z (.inl hz))
      (ihOffset hxy (fun hmem => hy (.inr hmem)) fun z hz => h z (.inr hz))

theorem alphaAll_arg {b c : Expr} {before after : List Expr} (hself : ∀ z, Refers pairs z z)
    (h : Alpha pairs b c) : AlphaAll pairs (before ++ b :: after) (before ++ c :: after) := by
  have hsame : ∀ e, Alpha pairs e e := fun e => alpha_self e fun z _ => hself z
  induction before with
  | nil => exact .cons h (alphaAll_self fun e _ => hsame e)
  | cons e before ih => exact .cons (hsame e) ih

/-- Renaming one parameter gives an equal expression, wherever every name refers to itself. -/
theorem Renames.alpha (h : e.Renames e') : ∀ {pairs}, (∀ z, Refers pairs z z) →
    Alpha pairs e e' := by
  have hsame : ∀ {pairs}, (∀ z, Refers pairs z z) → ∀ e, Alpha pairs e e :=
    fun hself e => alpha_self e fun z _ => hself z
  induction h with
  | @here x y body hy =>
    intro pairs hself
    refine .lambda (alpha_rename body (.inl ⟨rfl, rfl⟩) hy fun z hz hzx => ?_)
    exact .inr ⟨hzx, fun hzy => hy (hzy ▸ hz), hself z⟩
  | body _ ih =>
    intro pairs hself
    exact .lambda (ih fun z => refers_self_cons _ fun _ => hself z)
  | head _ ih => exact fun hself => .app (ih hself) (alphaAll_self fun a _ => hsame hself a)
  | arg _ ih => exact fun hself => .app (hsame hself _) (alphaAll_arg hself (ih hself))
  | guard _ ih => exact fun hself => .cond (ih hself) (hsame hself _) (hsame hself _)
  | thenBranch _ ih => exact fun hself => .cond (hsame hself _) (ih hself) (hsame hself _)
  | elseBranch _ ih => exact fun hself => .cond (hsame hself _) (hsame hself _) (ih hself)
  | type _ ih => exact fun hself => .new _ (ih hself)
  | target _ ih => exact fun hself => .deref (ih hself)
  | pointer _ ih => exact fun hself => .move _ (ih hself) (hsame hself _)
  | offset _ ih => exact fun hself => .move _ (hsame hself _) (ih hself)

end Expr

/-- Statements that are equal up to the names of parameters. -/
inductive Stmt.Alpha : Stmt → Stmt → Prop
  | define (name : String) {b c : Expr} : Expr.Alpha [] b c →
      Alpha (.define name b) (.define name c)
  | assign {l l' b c : Expr} : Expr.Alpha [] l l' → Expr.Alpha [] b c →
      Alpha (.assign l b) (.assign l' c)
  | print {b c : Expr} : Expr.Alpha [] b c → Alpha (.print b) (.print c)

namespace Stmt

theorem alpha_self (s : Stmt) : s.Alpha s := by
  have hsame : ∀ e, Expr.Alpha [] e e := fun e => Expr.alpha_self e fun _ _ => rfl
  cases s with
  | define name e => exact .define name (hsame e)
  | assign l e => exact .assign (hsame l) (hsame e)
  | print e => exact .print (hsame e)

theorem Renames.alpha {s t : Stmt} (h : s.Renames t) : s.Alpha t := by
  have hsame : ∀ e, Expr.Alpha [] e e := fun e => Expr.alpha_self e fun _ _ => rfl
  cases h with
  | define h => exact .define _ (h.alpha fun _ => rfl)
  | location h => exact .assign (h.alpha fun _ => rfl) (hsame _)
  | assign h => exact .assign (hsame _) (h.alpha fun _ => rfl)
  | print h => exact .print (h.alpha fun _ => rfl)

end Stmt

theorem Program.Renames.alpha {p q : Program} (h : p.Renames q) :
    List.Forall₂ Stmt.Alpha p.stmts q.stmts := by
  obtain ⟨hst⟩ := h
  have hsame : ∀ ss : List Stmt, List.Forall₂ Stmt.Alpha ss ss :=
    fun ss => List.forall₂_same.2 fun s _ => s.alpha_self
  exact List.rel_append (hsame _) (.cons hst.alpha (hsame _))

end CellLang

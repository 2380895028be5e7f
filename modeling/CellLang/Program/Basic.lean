import CellLang.Number.Arithmetic
import CellLang.Number.Layout

/-!
# Programs

The syntax of the language: expressions, the three statements, and programs as statement
sequences. `text` writes each of them back in the notation it is read from; `same` compares trees
with numbers taken numerically.
-/

namespace CellLang

/-- The types a store cell can have, named by the keywords `Num` and `Bool`. -/
inductive CellType where
  | num
  | bool
deriving DecidableEq, Repr

/-- Operators that may move a pointer. -/
inductive Operator where
  | add
  | sub
  | mul
  | div
deriving DecidableEq, Repr

inductive Expr where
  | var (name : String)
  | num (value : Binary64)
  | bool (value : Bool)
  | keyword (type : CellType)
  | lambda (param : String) (body : Expr)
  | app (head : Expr) (args : List Expr)
  | cond (guard thenBranch elseBranch : Expr)
  | new (type : Expr) (size : Nat)
  | deref (target : Expr)
  | move (op : Operator) (pointer offset : Expr)
deriving Inhabited

inductive Stmt where
  | define (name : String) (expr : Expr)
  | assign (location expr : Expr)
  | print (expr : Expr)
deriving Inhabited

structure Program where
  stmts : List Stmt
deriving Inhabited

namespace CellType

def name : CellType → String
  | .num => "Num"
  | .bool => "Bool"

def ofName? (s : String) : Option CellType :=
  if s = "Num" then some .num else if s = "Bool" then some .bool else none

end CellType

namespace Operator

def symbol : Operator → String
  | .add => "+"
  | .sub => "-"
  | .mul => "*"
  | .div => "/"

def ofSymbol? (s : String) : Option Operator :=
  if s = "+" then some .add
  else if s = "-" then some .sub
  else if s = "*" then some .mul
  else if s = "/" then some .div
  else none

theorem ofSymbol?_symbol (op : Operator) : ofSymbol? op.symbol = some op := by
  cases op <;> decide

def apply : Operator → Binary64 → Binary64 → Binary64
  | .add => Binary64.add
  | .sub => Binary64.sub
  | .mul => Binary64.mul
  | .div => Binary64.div

end Operator

/-- The words for the two truth values. -/
def boolText (b : Bool) : String := if b then "true" else "false"

namespace Expr

mutual

/-- An expression on one line. -/
def text : Expr → String
  | .var name => name
  | .num x => Layout.plain.text x
  | .bool b => boolText b
  | .keyword t => t.name
  | .lambda param body => "(lambda " ++ param ++ " " ++ body.text ++ ")"
  | .app head args => "(" ++ head.text ++ argsText args ++ ")"
  | .cond g t e => "(if " ++ g.text ++ " " ++ t.text ++ " " ++ e.text ++ ")"
  | .new type size => "(new " ++ type.text ++ " " ++ toString size ++ ")"
  | .deref target => "(deref " ++ target.text ++ ")"
  | .move op pointer offset =>
    "(pointer-arith " ++ op.symbol ++ " " ++ pointer.text ++ " " ++ offset.text ++ ")"

/-- Arguments, each after a space. -/
def argsText : List Expr → String
  | [] => ""
  | arg :: args => " " ++ arg.text ++ argsText args

end

mutual

/-- Equality of trees whose numbers are compared numerically. -/
def same : Expr → Expr → Bool
  | .var a, .var b => a == b
  | .num a, .num b => a.same b
  | .bool a, .bool b => a == b
  | .keyword a, .keyword b => a == b
  | .lambda p a, .lambda q b => p == q && a.same b
  | .app h as, .app k bs => h.same k && sameAll as bs
  | .cond a b c, .cond a' b' c' => a.same a' && b.same b' && c.same c'
  | .new t m, .new u n => t.same u && m == n
  | .deref a, .deref b => a.same b
  | .move o a b, .move o' a' b' => o == o' && a.same a' && b.same b'
  | _, _ => false

def sameAll : List Expr → List Expr → Bool
  | [], [] => true
  | a :: as, b :: bs => a.same b && sameAll as bs
  | _, _ => false

end

end Expr

namespace Stmt

/-- A statement on one line. -/
def text : Stmt → String
  | .define name expr => "(define " ++ name ++ " " ++ expr.text ++ ")"
  | .assign location expr => "(assign " ++ location.text ++ " " ++ expr.text ++ ")"
  | .print expr => "(print " ++ expr.text ++ ")"

/-- Equality of trees whose numbers are compared numerically. -/
def same : Stmt → Stmt → Bool
  | .define m a, .define n b => m == n && a.same b
  | .assign l a, .assign k b => l.same k && a.same b
  | .print a, .print b => a.same b
  | _, _ => false

def sameAll : List Stmt → List Stmt → Bool
  | [], [] => true
  | a :: as, b :: bs => a.same b && sameAll as bs
  | _, _ => false

end Stmt

namespace Program

/-- A program with one statement to a line. -/
def text (p : Program) : String := String.intercalate "\n" (p.stmts.map Stmt.text)

/-- Equality of trees whose numbers are compared numerically. -/
def same (p q : Program) : Bool := Stmt.sameAll p.stmts q.stmts

end Program

end CellLang

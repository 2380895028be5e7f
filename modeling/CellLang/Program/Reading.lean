import CellLang.Program.Basic
import CellLang.Source.Form

/-!
# Reading programs

Forms become statements and expressions, or a `SourceError` that says what is wrong and where. The
first fault in reading order is reported: statements in order, operands left to right, and the
arguments of an application before its head.
-/

namespace CellLang

/-- What can be wrong with a source text. -/
inductive SourceFault where
  | unexpectedClose
  | unclosedOpen
  | noExpression
  | manyExpressions
  | notStatement (found : String)
  | unknownStatement (found : String)
  | operandCount (word : String) (expected given : Nat)
  | statementInside (word : String)
  | emptyApplication
  | notName (word found : String)
  | notSize (found : String)
  | notOperator (found : String)
deriving DecidableEq, Repr

/-- A fault and the place it points to. -/
structure SourceError where
  fault : SourceFault
  span : Span
deriving DecidableEq, Repr

namespace SourceFault

def message : SourceFault → String
  | .unexpectedClose => "unexpected ')'"
  | .unclosedOpen => "unclosed '('"
  | .noExpression => "expected an expression"
  | .manyExpressions => "expected a single expression"
  | .notStatement found => "expected a statement but found '" ++ found ++ "'"
  | .unknownStatement found =>
    "expected 'define', 'assign' or 'print' but found '" ++ found ++ "'"
  | .operandCount word expected given =>
    "'" ++ word ++ "' expects " ++ toString expected ++ " operand(s) but " ++ toString given ++
      " were given"
  | .statementInside word =>
    "'" ++ word ++ "' is a statement and cannot be used as an expression"
  | .emptyApplication => "empty application '()'"
  | .notName word found =>
    "'" ++ word ++ "' expects a variable name but '" ++ found ++ "' was given"
  | .notSize found =>
    "'new' expects a positive integer size but '" ++ found ++ "' was given"
  | .notOperator found =>
    "'pointer-arith' expects one of + - * / but '" ++ found ++ "' was given"

end SourceFault

namespace SourceError

def message (e : SourceError) : String := e.fault.message

def ofImbalance : Imbalance → SourceError
  | .unexpectedClose s => ⟨.unexpectedClose, s⟩
  | .unclosedOpen s => ⟨.unclosedOpen, s⟩

end SourceError

/-- The heads of lists that are not applications. -/
inductive Special where
  | lambda
  | cond
  | new
  | deref
  | move
  | define
  | assign
  | print
deriving DecidableEq, Repr

namespace Special

def word : Special → String
  | .lambda => "lambda"
  | .cond => "if"
  | .new => "new"
  | .deref => "deref"
  | .move => "pointer-arith"
  | .define => "define"
  | .assign => "assign"
  | .print => "print"

def all : List Special := [.lambda, .cond, .new, .deref, .move, .define, .assign, .print]

def ofWord? (s : String) : Option Special := all.find? fun k => k.word == s

/-- Number of operands that follow the head. -/
def arity : Special → Nat
  | .lambda => 2
  | .cond => 3
  | .new => 2
  | .deref => 1
  | .move => 3
  | .define => 2
  | .assign => 2
  | .print => 1

def isStatement : Special → Bool
  | .define | .assign | .print => true
  | _ => false

/-- The special word that a form is, if it is one. -/
def ofForm? : Form → Option Special
  | .atom t _ => ofWord? t
  | .list _ _ => none

/-- The fault of a list headed by this word that has another number of operands. -/
def countError (k : Special) (operands : List Form) (span : Span) : SourceError :=
  ⟨.operandCount k.word k.arity operands.length, span⟩

end Special

namespace Expr

/-- The number that an atom spells. -/
def literal? (text : String) : Option Binary64 :=
  (Decimal.ofLiteral? text.toList).map Binary64.ofDecimal

/-- What an atom stands for as an expression. -/
def ofAtom (text : String) : Expr :=
  if text = "true" then .bool true
  else if text = "false" then .bool false
  else match CellType.ofName? text with
    | some t => .keyword t
    | none => match literal? text with
      | some x => .num x
      | none => .var text

end Expr

namespace Form

/-- A list headed by `define`, `assign` or `print`. -/
def isStatement (f : Form) : Bool :=
  match f.head?.bind Special.ofWord? with
  | some k => k.isStatement
  | none => false

/-- A name to be bound, as the operand of the given special word. -/
def toName (k : Special) (f : Form) : Except SourceError String :=
  let fault := ⟨.notName k.word f.text, f.span⟩
  match f with
  | .atom t _ => match Expr.ofAtom t with
    | .var name => .ok name
    | _ => .error fault
  | .list _ _ => .error fault

/-- A number of cells: a whole literal of at least one, up to the largest word. -/
def toSize (f : Form) : Except SourceError Nat :=
  let fault := ⟨.notSize f.text, f.span⟩
  match f with
  | .atom t _ => match (Expr.literal? t).bind fun x => x.whole?.map fun k => (x, k) with
    | some (x, k) => if 1 ≤ k ∧ k ≤ Binary64.maxWord + 1 then .ok x.toWord else .error fault
    | none => .error fault
  | .list _ _ => .error fault

def toOperator (f : Form) : Except SourceError Operator :=
  let fault := ⟨.notOperator f.text, f.span⟩
  match f with
  | .atom t _ => match Operator.ofSymbol? t with
    | some op => .ok op
    | none => .error fault
  | .list _ _ => .error fault

mutual

/-- The expression that a form spells. -/
def toExpr : Form → Except SourceError Expr
  | .atom t _ => .ok (Expr.ofAtom t)
  | .list [] span => .error ⟨.emptyApplication, span⟩
  | .list (head :: operands) span =>
    match Special.ofForm? head, operands with
    | some .lambda, [param, body] => do
      let param ← toName .lambda param
      return .lambda param (← toExpr body)
    | some .cond, [g, t, e] => do
      let g ← toExpr g
      let t ← toExpr t
      return .cond g t (← toExpr e)
    | some .new, [type, size] => do
      let type ← toExpr type
      return .new type (← toSize size)
    | some .deref, [target] => do
      return .deref (← toExpr target)
    | some .move, [op, pointer, offset] => do
      let op ← toOperator op
      let pointer ← toExpr pointer
      return .move op pointer (← toExpr offset)
    | some k, operands =>
      if k.isStatement then .error ⟨.statementInside k.word, span⟩
      else .error (k.countError operands span)
    | none, operands => do
      let args ← toExprs operands
      return .app (← toExpr head) args

def toExprs : List Form → Except SourceError (List Expr)
  | [] => .ok []
  | f :: fs => do
    let e ← toExpr f
    return e :: (← toExprs fs)

end

/-- The statement that a form spells. -/
def toStmt : Form → Except SourceError Stmt
  | .atom t span => .error ⟨.notStatement t, span⟩
  | .list [] span => .error ⟨.unknownStatement (Form.list [] span).text, span⟩
  | .list (head :: operands) span =>
    match Special.ofForm? head, operands with
    | some .define, [name, expr] => do
      let name ← toName .define name
      return .define name (← toExpr expr)
    | some .assign, [location, expr] => do
      let location ← toExpr location
      return .assign location (← toExpr expr)
    | some .print, [expr] => do
      return .print (← toExpr expr)
    | some k, operands =>
      if k.isStatement then .error (k.countError operands span)
      else .error ⟨.unknownStatement (Form.list (head :: operands) span).text, span⟩
    | none, operands =>
      .error ⟨.unknownStatement (Form.list (head :: operands) span).text, span⟩

def toStmts : List Form → Except SourceError (List Stmt)
  | [] => .ok []
  | f :: fs => do
    let s ← toStmt f
    return s :: (← toStmts fs)

/-- The forms of a text, an imbalance being a fault of the source. -/
def readSource (source : String) : Except SourceError (List Form) :=
  match read source with
  | .ok forms => .ok forms
  | .error e => .error (.ofImbalance e)

end Form

/-- The program that a text spells. -/
def Program.parse (source : String) : Except SourceError Program := do
  let forms ← Form.readSource source
  return ⟨← Form.toStmts forms⟩

/-- The single expression that a text spells. -/
def Expr.parse (source : String) : Except SourceError Expr := do
  match ← Form.readSource source with
  | [] => .error ⟨.noExpression, ⟨0, 0⟩⟩
  | [form] => form.toExpr
  | _ :: second :: _ => .error ⟨.manyExpressions, second.span⟩

end CellLang

